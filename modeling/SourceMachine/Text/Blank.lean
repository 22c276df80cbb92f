import SourceMachine.Text.CharSet

/-!
# White space

The characters that separate words in any script, and texts without them at their
ends.
-/

namespace SourceMachine

/-- The white space of Unicode. -/
def whiteSpace : CharSet := ⟨[
  9, 5, 18, 1, 100, 1, 26, 1, 5599, 1, 2431, 11, 29, 2, 5, 1, 47, 1, 4000, 1]⟩

/-- A text without the white space at both ends. -/
def trimmed (text : List Char) : List Char :=
  let front := text.dropWhile whiteSpace.contains
  (front.reverse.dropWhile whiteSpace.contains).reverse

end SourceMachine
