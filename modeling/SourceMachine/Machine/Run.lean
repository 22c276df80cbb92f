import SourceMachine.Machine.Transition

/-!
# Runs

A step is a transition, or the finding that there is none to make.  A run is steps
until the program ends or a budget of transitions is used up.  `run` counts down
its budget; `runToEnd` has none and may go on for ever.
-/

namespace SourceMachine

/-- What a step comes to. -/
inductive Progress where
  /-- A transition was made. -/
  | proceeded
  /-- The program has its value. -/
  | complete (value : Value)
  /-- There is no program. -/
  | idle
  | failed (failure : Failure)

/-- What a run comes to. -/
inductive Outcome where
  | finished (value : Value)
  | failed (failure : Failure)
  /-- The budget is used up, and the program can go on. -/
  | suspended

instance : Inhabited Outcome := ⟨.suspended⟩

/-- What a run comes to when a step made no transition. -/
def Progress.outcome? : Progress → Option Outcome
  | .proceeded => none
  | .complete v => some (.finished v)
  | .idle => some (.finished .undefined)
  | .failed failure => some (.failed failure)

namespace Machine

instance : Inhabited Machine :=
  ⟨{ env := [], outer := [], maxDepth := 0, preludePending := false, world := {} }⟩

instance : Nonempty (Outcome × Machine) := ⟨(default, default)⟩

/-- What is left after a transition to a control.  Too deep a stack ends the
    program without a record. -/
def settle (m : Machine) (c : Control) : Progress × Machine :=
  if m.maxDepth < m.stack.depth then (.failed (.overflow m.stack.depth), m.unwind)
  else (.proceeded, { m with control := some c })

/-- One step. -/
def step (m : Machine) : Progress × Machine :=
  match m.final? with
  | some v => (.complete v, { m with running := false })
  | none =>
    match m.control with
    | none => (.idle, m)
    | some c =>
      match { m with steps := m.steps + 1 }.transition c with
      | (.ok c, m) => m.settle c
      | (.error fault, m) => (.failed (.fault fault), m.raise fault)

/-- One step of a run: the machine to go on with, or the end of the run. -/
def advance (m : Machine) : Machine ⊕ (Outcome × Machine) :=
  let (progress, m) := m.step
  match progress.outcome? with
  | none => .inl m
  | some outcome => .inr (outcome, m)

/-- Run for at most so many transitions. -/
def run (m : Machine) : (budget : Nat) → Outcome × Machine
  | 0 => (.suspended, m)
  | budget + 1 =>
    match m.advance with
    | .inl m => m.run budget
    | .inr ended => ended

/-- Run until the program ends. -/
def runToEnd (m : Machine) : Outcome × Machine :=
  Id.run (repeatM (fun m => pure m.advance) m)

theorem runToEnd_of_inl {m m' : Machine} (h : m.advance = .inl m') : m.runToEnd = m'.runToEnd := by
  unfold runToEnd
  rw [repeatM_eq_of_monadTail]
  simp only [repeatM.body, h, pure_bind]

theorem runToEnd_of_inr {m : Machine} {ended : Outcome × Machine} (h : m.advance = .inr ended) :
    m.runToEnd = ended := by
  unfold runToEnd
  rw [repeatM_eq_of_monadTail]
  simp only [repeatM.body, h, pure_bind]
  rfl

/-- A run that ends within its budget ends as it would without one. -/
theorem run_eq_runToEnd {m : Machine} {budget : Nat} (h : (m.run budget).1 ≠ .suspended) :
    m.run budget = m.runToEnd := by
  induction budget generalizing m with
  | zero => exact absurd rfl h
  | succ budget ih =>
    unfold run at h ⊢
    cases ha : m.advance with
    | inl m' =>
      rw [ha] at h
      rw [runToEnd_of_inl ha]
      exact ih h
    | inr ended => rw [runToEnd_of_inr ha]

/-- Run with a budget, if there is one. -/
def runWithin (m : Machine) (budget : Option Nat) : Outcome × Machine :=
  match budget with
  | some n => m.run n
  | none => m.runToEnd

end Machine

end SourceMachine
