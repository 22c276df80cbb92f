import SourceMachine.Program.Refusal
import SourceMachine.Token.Scanner

/-!
# Readers

A reader takes tokens off a stream and gives a result, or refuses.  This module
has the readers that look at single tokens, and `rounds`, the only loop of the
grammar.
-/

namespace SourceMachine

/-- Tokens not yet taken: the current one, those after it and their number, and
    the offset where the last taken token ended. -/
structure Stream where
  current : Token
  rest : List Token
  previousStop : Nat
  left : Nat
  left_eq : left = rest.length

/-- A stream of the given tokens, which starts at the first of them. -/
def Stream.ofTokens (current : Token) (rest : List Token) : Stream :=
  ⟨current, rest, 0, rest.length, rfl⟩

/-- The stream after its current token.  The last token stays current. -/
def Stream.advance (s : Stream) : Stream :=
  match h : s.rest with
  | [] => { s with previousStop := s.current.span.stop }
  | t :: ts => ⟨t, ts, s.current.span.stop, s.left - 1, by simp [s.left_eq, h]⟩

/-- A result and the stream after it, or a refusal. -/
abbrev Reader := StateT Stream (Except Refusal)

namespace Reader

/-- The current token. -/
def current : Reader Token := fun s => .ok (s.current, s)

/-- Whether the current token is of a kind. -/
def isAt (k : Kind) : Reader Bool := fun s => .ok (s.current.kind = k, s)

/-- Take the current token. -/
def advance : Reader Unit := fun s => .ok ((), s.advance)

/-- Refuse at the current token. -/
def refuse {α : Type} (cause : Refusal.Cause) : Reader α := fun s =>
  .error ⟨cause, s.current.span.line, s.current.span.column⟩

/-- Refuse the current token, as something else was expected. -/
def unexpected {α : Type} (expected : Expectation) : Reader α := do
  refuse (.unexpected (← current).kind expected)

/-- Take the current token if it is of a kind, and say whether it was. -/
def accept (k : Kind) : Reader Bool := do
  if ← isAt k then
    advance
    return true
  else
    return false

/-- Take the current token, which has to be of a kind. -/
def expect (k : Kind) : Reader Unit := do
  unless ← accept k do unexpected (.kind k)

/-- The end of a statement: a semicolon, or a place where it may be left out,
    which is the end of the text, a closing brace, and the start of a line. -/
def endOfStatement : Reader Unit := do
  if ← accept (.mark .semicolon) then return
  let t ← current
  unless t.kind = .eof || t.kind = .mark .rBrace || t.newlineBefore do unexpected .semicolon

/-- The stretch of text from a start to the last taken token. -/
def spanFrom (start : Span) : Reader Span := fun s =>
  .ok ({ start with stop := max s.previousStop start.start }, s)

/-- An identifier. -/
def identifier : Reader Identifier := do
  let t ← current
  match t.kind with
  | .identifier name =>
    advance
    return ⟨name, t.span⟩
  | _ => unexpected .identifier

/-- A name in a place where reserved words are names too. -/
def propertyName : Reader Identifier := do
  let t ← current
  match t.kind with
  | .identifier name =>
    advance
    return ⟨name, t.span⟩
  | .keyword word =>
    advance
    return ⟨word.text, t.span⟩
  | _ => unexpected .propertyName

/-- The end of one round of a loop: go on with a new state, or leave with a
    result. -/
inductive Round (α β : Type) where
  | more (state : α)
  | done (result : β)

/-- Repeat a round until it is done.  A round that goes on without taking a token
    would do so forever, so the token it stops at is refused. -/
def rounds {α β : Type} (round : α → Reader (Round α β)) (state : α) : Reader β := fun s =>
  match round state s with
  | .error refusal => .error refusal
  | .ok (.done result, s') => .ok (result, s')
  | .ok (.more state', s') =>
    if s'.left < s.left then rounds round state' s'
    else unexpected .expression s'
termination_by s => s.left

/-- One item of a list with commas between them. -/
def commaRound {α : Type} (close : Mark) (item : Reader α) (items : List α) :
    Reader (Round (List α) (List α)) := do
  if ← isAt (.mark close) then return .done items
  let items := (← item) :: items
  if ← accept (.mark .comma) then return .more items else return .done items

/-- Items separated by commas up to a closing mark, which is taken too.  A comma
    may follow the last item. -/
def commaList {α : Type} (close : Mark) (item : Reader α) : Reader (List α) := do
  let items ← rounds (commaRound close item) []
  expect (.mark close)
  return items.reverse

end Reader

end SourceMachine
