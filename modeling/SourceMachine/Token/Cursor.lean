import SourceMachine.Text.Dictionary
import SourceMachine.Token.Scanner

/-!
# Cursors

A cursor moves through a text that it keeps as a whole.  It takes characters one at a
time off what it has set aside for that, counts their bytes from where it was set up
last, and looks ahead in the text itself, at its own offset.  A bookmark is a place and
nothing more: going back to one sets the cursor up anew on the text from there on.

The texts of names and literals come out of a dictionary, which only ever grows.
-/

namespace SourceMachine

/-- The part of a text from an offset on, if a character starts there or the text ends
    there. -/
def suffixAt : (offset : Nat) → List Char → Option (List Char)
  | 0, cs => some cs
  | _ + 1, [] => none
  | n + 1, c :: cs => if c.utf8Size ≤ n + 1 then suffixAt (n + 1 - c.utf8Size) cs else none

/-- A text as a dictionary keeps it, and the dictionary with it. -/
def Dictionary.share (d : Dictionary) (text : String) : String × Dictionary :=
  let d := d.insert text
  ((d.get? text).getD text, d)

/-- A kind of token with its text as a dictionary keeps it. -/
def Kind.shared (d : Dictionary) : Kind → Kind × Dictionary
  | .string text =>
    let (text, d) := d.share text
    (.string text, d)
  | .template text =>
    let (text, d) := d.share text
    (.template text, d)
  | .identifier name =>
    let (name, d) := d.share name
    (.identifier name, d)
  | kind => (kind, d)

/-- A place in a text that can be moved back. -/
structure Cursor where
  text : List Char
  /-- What is set aside to be taken. -/
  ahead : List Char
  /-- The offset where it was set aside. -/
  base : Nat := 0
  /-- How many bytes were taken since then. -/
  taken : Nat := 0
  position : Position := {}
  /-- Whether a line ended before the last token. -/
  newlineBefore : Bool := false
  dictionary : Dictionary

/-- A place to go back to. -/
structure Bookmark where
  position : Position
  newlineBefore : Bool

namespace Cursor

/-- The cursor at the start of a text. -/
def ofText (text : String) (dictionary : Dictionary) : Cursor :=
  { text := text.toList, ahead := text.toList, dictionary }

/-- The text from the current offset on. -/
def upcoming (c : Cursor) : List Char :=
  (suffixAt c.position.offset c.text).getD []

/-- Take a character, if there is one. -/
def take (c : Cursor) : Cursor :=
  match c.ahead with
  | [] => c
  | d :: rest =>
    { c with
      ahead := rest
      taken := c.taken + d.utf8Size
      position := { c.position.after d with offset := c.base + (c.taken + d.utf8Size) } }

/-- Take some characters. -/
def takeMany (c : Cursor) : Nat → Cursor
  | 0 => c
  | n + 1 => c.take.takeMany n

/-- Skip the gap, then take one token. -/
def next (c : Cursor) : Token × Cursor :=
  let length := gapLength c.upcoming
  let newline := gapNewline c.upcoming
  let c := c.takeMany length
  let start := c.position
  let found := lexeme c.upcoming
  let c := c.takeMany found.2
  let kept := found.1.shared c.dictionary
  (⟨kept.1, start.spanTo c.position.offset, newline⟩,
    { c with newlineBefore := newline, dictionary := kept.2 })

/-- The current place. -/
def bookmark (c : Cursor) : Bookmark :=
  ⟨c.position, c.newlineBefore⟩

/-- Go back to a place. -/
def restore (c : Cursor) (mark : Bookmark) : Cursor :=
  { c with
    ahead := (suffixAt mark.position.offset c.text).getD []
    base := mark.position.offset
    taken := 0
    position := mark.position
    newlineBefore := mark.newlineBefore }

end Cursor

end SourceMachine
