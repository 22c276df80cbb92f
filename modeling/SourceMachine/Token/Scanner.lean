import SourceMachine.Token.Lexeme

/-!
# The scanner

A scanner is what is left of a text together with the place reached.  `next`
skips a gap and takes one lexeme; `tokens` repeats that to the end of the text,
which it reaches because a lexeme is never empty.  A scanner is a value: going
back to an earlier place is using the earlier scanner.
-/

namespace SourceMachine

/-- A text read up to some place, and whether a line ended before the last token
    taken from it. -/
structure Scanner where
  rest : List Char
  position : Position := {}
  newlineBefore : Bool := false

/-- The scanner at the start of a text. -/
def Scanner.ofText (text : String) : Scanner :=
  ⟨text.toList, {}, false⟩

/-- Skip the gap, then take one token.  At the end of the text the token is
    `eof`, and the scanner stays there. -/
def Scanner.next (s : Scanner) : Token × Scanner :=
  let gap := s.rest.take (gapLength s.rest)
  let text := s.rest.drop (gapLength s.rest)
  let start := s.position.afterAll gap
  let newline := gapNewline s.rest
  let found := lexeme text
  let stop := start.afterAll (text.take found.2)
  (⟨found.1, start.spanTo stop.offset, newline⟩, ⟨text.drop found.2, stop, newline⟩)

theorem Scanner.next_shorter {s : Scanner} (h : s.next.1.kind ≠ .eof) :
    s.next.2.rest.length < s.rest.length := by
  by_cases hnil : s.rest.drop (gapLength s.rest) = []
  · -- nothing after the gap, so the token is the end
    exact absurd (by simp [Scanner.next, hnil, lexeme]) h
  · have hpos := lexeme_pos hnil
    have hlen : 0 < (s.rest.drop (gapLength s.rest)).length :=
      List.length_pos_iff.2 hnil
    simp only [Scanner.next, List.length_drop] at hlen ⊢
    omega

/-- The tokens before `s`, last one first, followed by those of `s`, up to and
    including the end of the text. -/
def Scanner.tokensAfter (before : List Token) (s : Scanner) : List Token :=
  if s.next.1.kind = .eof then (s.next.1 :: before).reverse
  else tokensAfter (s.next.1 :: before) s.next.2
termination_by s.rest.length
decreasing_by exact Scanner.next_shorter ‹_›

/-- All tokens of a text, up to and including its end. -/
def tokensOf (text : String) : List Token :=
  (Scanner.ofText text).tokensAfter []

end SourceMachine
