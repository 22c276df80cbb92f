import SourceMachine.Proofs.Program.Rounds
import SourceMachine.Proofs.Program.Runs

/-!
# What a reader yields at a stream

`Yields r s Q`: what the reader `r` accepts at the stream `s` is in `Q`, together with the
stream after it.  A reader is followed from left to right: each rule here takes off the first
part of it and goes on with what that part comes to.  A test of the current token splits the
rest in two, and each half knows the outcome.  Loops go by an invariant of their state and of
the stream (`Yields.rounds`).
-/

namespace SourceMachine

namespace Reader

/-- What a reader accepts at a stream is in `Q`, with the stream after it. -/
def Yields {α : Type} (r : Reader α) (s : Stream) (Q : α → Stream → Prop) : Prop :=
  ∀ ⦃a s'⦄, r s = .ok (a, s') → Q a s'

/-- A round that goes on is in `P`, and one that is done is in `Q`. -/
def Round.Ends {α β : Type} (P : α → Stream → Prop) (Q : β → Stream → Prop) :
    Round α β → Stream → Prop
  | .more state, s => P state s
  | .done result, s => Q result s

namespace Yields

variable {α β : Type} {s : Stream} {P P' : α → Stream → Prop} {Q : β → Stream → Prop}
  {f : Unit → Reader β} {r : Reader α} {k : Kind}

theorem mono (h : Yields r s P) (weaker : ∀ a s', P a s' → P' a s') : Yields r s P' :=
  fun _ _ accepted => weaker _ _ (h accepted)

theorem and (first : Yields r s P) (second : Yields r s P') :
    Yields r s fun a s' => P a s' ∧ P' a s' :=
  fun _ _ accepted => ⟨first accepted, second accepted⟩

theorem pure {a : α} (holds : P a s) : Yields (Pure.pure a) s P := by
  intro b s' accepted
  cases accepted
  exact holds

theorem bind {f : α → Reader β} (first : Yields r s P)
    (onwards : ∀ a s₁, P a s₁ → Yields (f a) s₁ Q) : Yields (r >>= f) s Q := by
  intro b s' accepted
  obtain ⟨a, s₁, read, rest⟩ := exists_of_bind_ok accepted
  exact onwards a s₁ (first read) rest

theorem pure_bind {a : α} {f : α → Reader β} (onwards : Yields (f a) s Q) :
    Yields (Pure.pure a >>= f) s Q :=
  onwards

theorem ite {c : Prop} [Decidable c] {r' : Reader α} (yes : c → Yields r s P)
    (no : ¬c → Yields r' s P) : Yields (if c then r else r') s P := by
  by_cases here : c
  · rw [if_pos here]
    exact yes here
  · rw [if_neg here]
    exact no here

/-! ## Readers that refuse -/

theorem refuse (cause : Refusal.Cause) : Yields (Reader.refuse cause) s P := by
  intro a s' accepted
  cases accepted

theorem unexpected (expected : Expectation) : Yields (Reader.unexpected expected) s P := by
  intro a s' accepted
  cases accepted

theorem throw (refusal : Refusal) : Yields (MonadExcept.throw refusal : Reader α) s P := by
  intro a s' accepted
  cases accepted

/-- Nothing follows a refusal. -/
theorem bind_of_none {f : α → Reader β} (none : Yields r s fun _ _ => False) :
    Yields (r >>= f) s Q :=
  none.bind fun _ _ impossible => impossible.elim

/-! ## Single tokens -/

theorem current {f : Token → Reader β} (onwards : Yields (f s.current) s Q) :
    Yields (Reader.current >>= f) s Q :=
  onwards

theorem get {f : Stream → Reader β} (onwards : Yields (f s) s Q) :
    Yields (MonadState.get >>= f) s Q :=
  onwards

theorem spanFrom {f : Span → Reader β} {start : Span}
    (onwards : Yields (f { start with stop := max s.previousStop start.start }) s Q) :
    Yields (Reader.spanFrom start >>= f) s Q :=
  onwards

theorem advance (onwards : Yields (f ()) s.advance Q) : Yields (Reader.advance >>= f) s Q :=
  onwards

theorem isAt {f : Bool → Reader β} (yes : s.current.kind = k → Yields (f true) s Q)
    (no : s.current.kind ≠ k → Yields (f false) s Q) : Yields (Reader.isAt k >>= f) s Q := by
  show Yields (f (decide (s.current.kind = k))) s Q
  by_cases here : s.current.kind = k
  · rw [decide_eq_true here]
    exact yes here
  · rw [decide_eq_false here]
    exact no here

theorem accept {f : Bool → Reader β} (yes : s.current.kind = k → Yields (f true) s.advance Q)
    (no : s.current.kind ≠ k → Yields (f false) s Q) : Yields (Reader.accept k >>= f) s Q := by
  by_cases here : s.current.kind = k
  · intro b s' accepted
    rw [bind_of_ok ((accept_apply k s).trans (if_pos here))] at accepted
    exact yes here accepted
  · intro b s' accepted
    rw [bind_of_ok ((accept_apply k s).trans (if_neg here))] at accepted
    exact no here accepted

theorem expect (onwards : s.current.kind = k → Yields (f ()) s.advance Q) :
    Yields (Reader.expect k >>= f) s Q := by
  have taken : Yields (Reader.expect k) s fun _ s' => s.current.kind = k ∧ s' = s.advance :=
    accept (fun here => pure ⟨here, rfl⟩) fun _ => unexpected _
  refine taken.bind ?_
  rintro _ _ ⟨here, rfl⟩
  exact onwards here

theorem endOfStatement (semicolon : s.current.kind = .mark .semicolon → Yields (f ()) s.advance Q)
    (none : Yields (f ()) s Q) : Yields (Reader.endOfStatement >>= f) s Q := by
  have taken : Yields Reader.endOfStatement s fun _ s' =>
      s.current.kind = .mark .semicolon ∧ s' = s.advance ∨ s' = s := by
    refine accept (fun here => pure (.inl ⟨here, rfl⟩)) fun _ => current ?_
    exact ite (fun _ => pure (.inr rfl)) fun _ => unexpected _
  refine taken.bind ?_
  rintro _ _ (⟨here, rfl⟩ | rfl)
  · exact semicolon here
  · exact none

theorem identifier {f : Identifier → Reader β}
    (onwards : ∀ name, s.current.kind = .identifier name →
      Yields (f ⟨name, s.current.span⟩) s.advance Q) : Yields (Reader.identifier >>= f) s Q := by
  have taken : Yields Reader.identifier s fun id s' =>
      s.current.kind = .identifier id.name ∧ id.span = s.current.span ∧ s' = s.advance := by
    refine current ?_
    split
    · next name kind => exact advance (pure ⟨kind, rfl, rfl⟩)
    · exact unexpected _
  refine taken.bind ?_
  rintro ⟨name, _⟩ _ ⟨kind, rfl, rfl⟩
  exact onwards name kind

theorem propertyName {f : Identifier → Reader β}
    (onwards : ∀ name, s.current.kind ≠ .eof → Yields (f ⟨name, s.current.span⟩) s.advance Q) :
    Yields (Reader.propertyName >>= f) s Q := by
  have taken : Yields Reader.propertyName s fun id s' =>
      s.current.kind ≠ .eof ∧ id.span = s.current.span ∧ s' = s.advance := by
    refine current ?_
    split
    · next name kind => exact advance (pure ⟨by simp [kind], rfl, rfl⟩)
    · next word kind => exact advance (pure ⟨by simp [kind], rfl, rfl⟩)
    · exact unexpected _
  refine taken.bind ?_
  rintro ⟨name, _⟩ _ ⟨more, rfl, rfl⟩
  exact onwards name more

/-! ## Loops -/

theorem rounds {round : α → Reader (Round α β)}
    (turn : ∀ state s, P state s → Yields (round state) s (Round.Ends P Q)) {state : α}
    (start : P state s) : Yields (Reader.rounds round state) s Q := by
  intro b s' accepted
  fun_induction Reader.rounds round state s with
  | case1 => cases accepted
  | case2 state s result s₁ read =>
    cases accepted
    exact turn state s start read
  | case3 state s state' s₁ read shorter ih => exact ih (turn state s start read) accepted
  | case4 => cases accepted

end Yields

end Reader

end SourceMachine
