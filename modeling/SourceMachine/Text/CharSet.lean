/-!
# Sets of characters

A set of characters is given by its runs: how many code points come before the first character
of the set, how many then belong to it, how many do not, and so on in turn.
-/

namespace SourceMachine

/-- A set of characters, by the lengths of the runs outside of it and inside of it. -/
structure CharSet where
  runs : List Nat

/-- Whether the code point `n` places after the start of some runs is inside of the set.  The
    first of the runs is, or is not. -/
def isInRuns (inside : Bool) : (n : Nat) → (runs : List Nat) → Bool
  | _, [] => inside
  | n, run :: runs => if n < run then inside else isInRuns (!inside) (n - run) runs

/-- Whether a character belongs to the set. -/
def CharSet.contains (s : CharSet) (c : Char) : Bool :=
  isInRuns false c.toNat s.runs

end SourceMachine
