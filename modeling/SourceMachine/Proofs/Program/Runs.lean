import Mathlib
import SourceMachine.Program.Grammar

/-!
# Readers at a token

What the readers of single tokens do at a given stream, and which of its two ways an
expression in parentheses is read.
-/

namespace SourceMachine

namespace Reader

theorem accept_apply (k : Kind) (s : Stream) :
    accept k s = if s.current.kind = k then .ok (true, s.advance) else .ok (false, s) := by
  unfold accept
  show (if decide (s.current.kind = k) = true then (advance >>= fun _ => pure true : Reader Bool)
    else (pure false : Reader Bool)) s = _
  by_cases here : s.current.kind = k
  · rw [if_pos here, if_pos (decide_eq_true here)]
    rfl
  · rw [if_neg here, if_neg (by simp [here])]
    rfl

theorem identifier_eq_ok {s s' : Stream} {id : Identifier}
    (accepted : identifier s = .ok (id, s')) :
    s.current.kind = .identifier id.name ∧ s' = s.advance := by
  unfold identifier at accepted
  obtain ⟨⟨kind, span, newline⟩, rest, stop, left, left_eq⟩ := s
  cases kind <;> cases accepted
  exact ⟨rfl, rfl⟩

end Reader

namespace Grammar

open Reader

/-- A parenthesised expression that is no arrow function. -/
def bracketed (level : Level) : Reader Expr := do
  advance
  let inner ← level.expression
  expect (.mark .rParen)
  return inner

/-- What follows reads as parameters before an arrow. -/
def isArrowAhead (s : Stream) : Bool :=
  match params s.advance with
  | .ok (_, s') => s'.current.kind = .mark .arrow
  | .error _ => false

theorem parenthesised_of_arrow {level : Level} {s s' : Stream} {ps : List Param}
    (read : params s.advance = .ok (ps, s')) (arrow : s'.current.kind = .mark .arrow) :
    parenthesised level s = arrowRest level ps s.current.span s' := by
  rw [parenthesised, read]
  exact if_pos arrow

theorem parenthesised_of_not_isArrowAhead {level : Level} {s : Stream}
    (failed : isArrowAhead s = false) : parenthesised level s = bracketed level s := by
  rw [isArrowAhead] at failed
  rw [parenthesised]
  cases read : params s.advance with
  | error refusal => rfl
  | ok result =>
    rw [read] at failed
    exact if_neg (of_decide_eq_false failed)

end Grammar

end SourceMachine
