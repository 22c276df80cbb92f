/-!
# Dictionaries

A dictionary keeps each text once.  The texts of a program's names and literals
are kept in one.
-/

namespace SourceMachine

/-- A set of texts, in the order in which they came in. -/
structure Dictionary where
  texts : List String := []
deriving DecidableEq, Repr

/-- The texts that programs use most. -/
def Dictionary.common : Dictionary where
  texts := [
    "pair", "head", "tail", "is_null", "is_pair", "list", "map", "filter", "accumulate", "append",
    "length", "reverse", "call_cc", "reset", "shift", "is_cont", "display", "stringify", "error",
    "undefined", "f", "k", "x", "y", "n", "xs", "ys", "lst", "val", "acc"]

/-- Whether a text is kept. -/
def Dictionary.contains (d : Dictionary) (text : String) : Bool :=
  d.texts.contains text

/-- Keep a text, unless it is there. -/
def Dictionary.insert (d : Dictionary) (text : String) : Dictionary :=
  if d.contains text then d else ⟨d.texts ++ [text]⟩

/-- The text kept under itself, if it is there. -/
def Dictionary.get? (d : Dictionary) (text : String) : Option String :=
  d.texts.find? (· = text)

/-- How many texts are kept. -/
def Dictionary.size (d : Dictionary) : Nat :=
  d.texts.length

end SourceMachine
