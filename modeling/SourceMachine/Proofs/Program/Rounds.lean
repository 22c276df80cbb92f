import Mathlib
import SourceMachine.Program.Grammar

/-!
# The rounds of the grammar

Every loop of the grammar is `Reader.rounds` of some round.  This module says what readers do
at a given stream, and gives the round of `Grammar.binary`, which recurses inside of its loop, a
name.
-/

namespace SourceMachine

/-! ## Readers at a stream -/

namespace Reader

variable {α β : Type} {round : α → Reader (Round α β)} {f : α → Reader β} {s s' : Stream}
  {r : Reader α} {refusal : Refusal} {state : α}

theorem bind_apply (r : Reader α) (f : α → Reader β) (s : Stream) :
    (r >>= f) s = (r s).bind fun result => f result.1 result.2 := rfl

/-- Running a reader is running the reader after it on what is left. -/
theorem bind_of_ok {a : α} (read : r s = .ok (a, s')) : (r >>= f) s = f a s' := by
  rw [bind_apply, read]
  rfl

theorem bind_of_error (refused : r s = .error refusal) : (r >>= f) s = .error refusal := by
  rw [bind_apply, refused]
  rfl

/-- What a reader accepts was accepted by its first part, and then by the rest. -/
theorem exists_of_bind_ok {b : β} (accepted : (r >>= f) s = .ok (b, s')) :
    ∃ a s₁, r s = .ok (a, s₁) ∧ f a s₁ = .ok (b, s') := by
  rw [bind_apply] at accepted
  cases read : r s with
  | error refusal =>
    rw [read] at accepted
    cases accepted
  | ok result =>
    rw [read] at accepted
    exact ⟨result.1, result.2, rfl, accepted⟩

theorem rounds_of_done {result : β} (last : round state s = .ok (.done result, s')) :
    rounds round state s = .ok (result, s') := by
  rw [rounds, last]

theorem rounds_of_error (refused : round state s = .error refusal) :
    rounds round state s = .error refusal := by
  rw [rounds, refused]

theorem rounds_of_more {state' : α} (more : round state s = .ok (.more state', s'))
    (fewer : s'.left < s.left) : rounds round state s = rounds round state' s' := by
  rw [rounds, more]
  exact if_pos fewer

end Reader

/-! ## Operators -/

namespace Grammar

open Reader

/-- One operator of at least the given precedence, and the operand after it. -/
def joinRound (level : Level) (least : Nat) (start : Span) (left : Expr) :
    Reader (Round Expr Expr) := do
  match operator? (← current).kind with
  | none => return .done left
  | some op =>
    if least ≤ op.precedence then
      advance
      let right ← binary level (op.precedence + 1)
      return .more (join op left right (← spanFrom start))
    else
      return .done left

theorem binary_eq (level : Level) (least : Nat) : binary level least = (do
      let start := (← current).span
      let first ← level.operand
      rounds (joinRound level least start) first) := by
  rw [binary]
  rfl

end Grammar

end SourceMachine
