/-!
# Positions and spans

A position counts bytes of UTF-8 from the start of the text, lines, and the
characters of the current line.  Only a line feed starts a new line.  Lines and
characters are counted in thirty-two bits, and the count goes round after the
largest number.
-/

namespace SourceMachine

/-- A place in a text. -/
structure Position where
  offset : Nat := 0
  line : UInt32 := 1
  column : UInt32 := 1
deriving DecidableEq, Repr, Inhabited

/-- The place after a character. -/
def Position.after (p : Position) (c : Char) : Position :=
  if c = '\n' then ⟨p.offset + c.utf8Size, p.line + 1, 1⟩
  else ⟨p.offset + c.utf8Size, p.line, p.column + 1⟩

/-- The place after some characters. -/
def Position.afterAll (p : Position) (cs : List Char) : Position :=
  cs.foldl Position.after p

@[simp] theorem Position.afterAll_nil (p : Position) : p.afterAll [] = p := rfl

@[simp] theorem Position.afterAll_cons (p : Position) (c : Char) (cs : List Char) :
    p.afterAll (c :: cs) = (p.after c).afterAll cs := rfl

theorem Position.afterAll_append (p : Position) (cs ds : List Char) :
    p.afterAll (cs ++ ds) = (p.afterAll cs).afterAll ds :=
  List.foldl_append

/-- A stretch of text: where it starts and ends in bytes, and the line and
    column of its start. -/
structure Span where
  start : Nat := 0
  stop : Nat := 0
  line : UInt32 := 1
  column : UInt32 := 1
deriving DecidableEq, Repr, Inhabited

/-- The stretch from a place to an offset. -/
def Position.spanTo (p : Position) (stop : Nat) : Span :=
  ⟨p.offset, stop, p.line, p.column⟩

end SourceMachine
