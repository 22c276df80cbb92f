import SourceMachine.Proofs.Session.History

/-!
# Pauses

A program can be run in parts: for so many transitions at a time, or step by step, with
attempts in between to prepare a text that is no program.  None of this can be seen in how
the program ends, as long as no call fails (`EndsLike.of_pauses`).

The argument is about one call.  A step that proceeds is the first of those that a run
would make, and one that finds the program at its end can be made again with the same
result.  A run with a budget is steps, and a text that is no program leaves the machine
alone once the preludes were tried.
-/

namespace SourceMachine

variable {m start m' : Machine} {c : Control} {text : String}

/-- The step made a transition, which may have failed. -/
def Progress.isTransition : Progress → Bool
  | .proceeded | .failed _ => true
  | .complete _ | .idle => false

/-- The run failed. -/
def Outcome.isFailed : Outcome → Bool
  | .failed _ => true
  | .finished _ | .suspended => false

namespace Machine

/-! ## Steps -/

/-- A step that found the program at its end can be made again, with the same result. -/
theorem step_step (unfailed : m.step.1.isFailed = false) (stopped : m.step.1 ≠ .proceeded) :
    m.step.2.step = m.step := by
  generalize result : m.step = outcome at unfailed stopped
  have stepped := m.stepped
  rw [result] at stepped
  obtain ⟨progress, m'⟩ := outcome
  cases stepped with
  | complete control top =>
    have final : { m with running := false }.final? = some _ := final?_eq_some.2 ⟨control, top⟩
    exact step_of_final final
  | idle control => exact result
  | proceeded => exact absurd rfl stopped
  | overflow | fault => cases unfailed

theorem advance_of_outcome? (m : Machine) : m.advance = match m.step.1.outcome? with
      | none => .inl m.step.2
      | some outcome => .inr (outcome, m.step.2) := rfl

theorem run_succ (m : Machine) (budget : Nat) : m.run (budget + 1) = match m.step.1.outcome? with
      | none => m.step.2.run budget
      | some outcome => (outcome, m.step.2) := by
  rw [run, m.advance_of_outcome?]
  cases m.step.1.outcome? with
  | none => rfl
  | some outcome => rfl

/-- A step that did not fail was the first step of a run, or there was nothing to run. -/
theorem advance_of_unfailed (unfailed : m.step.1.isFailed = false) : m.advance = .inl m.step.2 ∨
      ∃ ended, m.advance = .inr ended ∧ m.step.2.advance = .inr ended := by
  have again (stopped : m.step.1 ≠ .proceeded) : m.step.2.advance = m.advance := by
    rw [advance, advance, step_step unfailed stopped]
  rw [m.advance_of_outcome?] at again ⊢
  cases progress : m.step.1 with
  | proceeded => exact .inl rfl
  | failed failure =>
    rw [progress] at unfailed
    cases unfailed
  | complete v | idle =>
    rw [progress] at again
    exact .inr ⟨_, rfl, again nofun⟩

/-- A transition keeps the count of steps and the note on the preludes. -/
theorem Moves.registers {c' : Control} (move : m.Moves c c' m') :
    m'.steps = m.steps ∧ m'.preludePending = m.preludePending := by
  cases move <;> exact ⟨rfl, rfl⟩

theorem Fails.registers {fault : Fault} (fail : m.Fails c fault m') :
    m'.steps = m.steps ∧ m'.preludePending = m.preludePending := by
  cases fail <;> exact ⟨rfl, rfl⟩

theorem Stepped.preludePending {progress : Progress} (stepped : m.Stepped progress m') :
    m'.preludePending = m.preludePending := by
  cases stepped with
  | complete | idle => rfl
  | proceeded _ move | overflow _ move => exact move.registers.2
  | fault _ fail => exact fail.registers.2

/-- A step is counted if it makes a transition. -/
theorem steps_step (m : Machine) : m.step.2.steps = m.steps + m.step.1.isTransition.toNat := by
  generalize result : m.step = outcome
  have stepped := m.stepped
  rw [result] at stepped
  obtain ⟨progress, m'⟩ := outcome
  cases stepped with
  | complete | idle => rfl
  | proceeded _ move => exact move.registers.1
  | overflow _ move => exact move.registers.1
  | fault _ fail => exact fail.registers.1

/-! ## Programs that end in the same way -/

theorem ends_iff : m.Ends ↔ ∃ budget, (m.run (budget + 1)).1 ≠ .suspended := by
  constructor
  · rintro ⟨budget, stopped⟩
    cases budget with
    | zero => exact absurd rfl stopped
    | succ budget => exact ⟨budget, stopped⟩
  · rintro ⟨budget, stopped⟩
    exact ⟨budget + 1, stopped⟩

/-- Two machines come to the same end, or to none. -/
structure EndsLike (m m' : Machine) : Prop where
  runToEnd : m'.runToEnd = m.runToEnd
  ends : m'.Ends ↔ m.Ends

namespace EndsLike

variable {m : Machine}

theorem refl (m : Machine) : m.EndsLike m :=
  ⟨rfl, Iff.rfl⟩

theorem trans {m₁ m₂ m₃ : Machine} (a : m₁.EndsLike m₂) (b : m₂.EndsLike m₃) : m₁.EndsLike m₃ :=
  ⟨b.runToEnd.trans a.runToEnd, b.ends.trans a.ends⟩

theorem of_step (unfailed : m.step.1.isFailed = false) : m.EndsLike m.step.2 := by
  rcases advance_of_unfailed unfailed with onwards | ⟨ended, here, there⟩
  · have shorter (budget : Nat) : m.run (budget + 1) = m.step.2.run budget := by
      rw [run, onwards]
    refine ⟨(runToEnd_of_inl onwards).symm, ?_⟩
    rw [ends_iff (m := m)]
    simp only [shorter]
    exact Iff.rfl
  · -- a run makes the same first step from both, and that is its last one
    have alike (budget : Nat) : m.step.2.run (budget + 1) = m.run (budget + 1) := by
      rw [run, run, here, there]
    refine ⟨(runToEnd_of_inr there).trans (runToEnd_of_inr here).symm, ?_⟩
    rw [ends_iff, ends_iff]
    simp only [alike]

theorem of_run {budget : Nat} (unfailed : (m.run budget).1.isFailed = false) :
    m.EndsLike (m.run budget).2 := by
  induction budget generalizing m with
  | zero => exact refl m
  | succ budget ih =>
    rw [run_succ] at unfailed ⊢
    cases progress : m.step.1 with
    | proceeded =>
      rw [progress] at unfailed
      exact (of_step (by rw [progress]; rfl)).trans (ih unfailed)
    | complete | idle => exact of_step (by rw [progress]; rfl)
    | failed =>
      rw [progress] at unfailed
      cases unfailed

end EndsLike

/-! ## The budget of a run -/

/-- A run makes at most as many transitions as its budget allows. -/
theorem steps_run_le (m : Machine) (budget : Nat) : (m.run budget).2.steps ≤ m.steps + budget := by
  induction budget generalizing m with
  | zero => exact le_rfl
  | succ budget ih =>
    have counted := m.steps_step
    have once := m.step.1.isTransition.toNat_le
    rw [run_succ]
    cases m.step.1.outcome? with
    | none =>
      have rest := ih m.step.2
      show (m.step.2.run budget).2.steps ≤ _
      omega
    | some outcome =>
      show m.step.2.steps ≤ _
      omega

/-- A run is suspended exactly when it made all transitions of its budget and none of them
    failed. -/
theorem run_eq_suspended_iff (m : Machine) (budget : Nat) : (m.run budget).1 = .suspended ↔
      (m.run budget).2.steps = m.steps + budget ∧ (m.run budget).1.isFailed = false := by
  induction budget generalizing m with
  | zero => exact ⟨fun _ => ⟨rfl, rfl⟩, fun _ => rfl⟩
  | succ budget ih =>
    have counted := m.steps_step
    rw [run_succ]
    cases progress : m.step.1 with
    | proceeded =>
      have once : m.step.2.steps + budget = m.steps + (budget + 1) := by
        rw [counted, progress]
        show m.steps + 1 + budget = _
        omega
      show (m.step.2.run budget).1 = _ ↔ (m.step.2.run budget).2.steps = _ ∧ _
      rw [ih, once]
      exact Iff.rfl
    | complete v | idle =>
      -- the last step made no transition, so one is left of the budget
      have same : m.step.2.steps = m.steps := by rw [counted, progress]; rfl
      constructor
      · exact nofun
      · rintro ⟨all, -⟩
        have all' : m.step.2.steps = m.steps + (budget + 1) := all
        omega
    | failed failure =>
      constructor
      · exact nofun
      · rintro ⟨-, unfailed⟩
        cases unfailed

/-- A run is suspended exactly when each step of its budget proceeded. -/
theorem run_eq_suspended_iff_proceeds (m : Machine) (budget : Nat) : (m.run budget).1 = .suspended ↔
      ∀ i < budget, ((fun m : Machine => m.step.2)^[i] m).step.1 = .proceeded := by
  induction budget generalizing m with
  | zero => simp [run]
  | succ budget ih =>
    rw [run_succ, Nat.forall_lt_succ_left]
    simp only [Function.iterate_succ_apply, Function.iterate_zero_apply]
    rw [← ih]
    cases m.step.1 with
    | proceeded => simp [Progress.outcome?]
    | complete v | idle | failed failure => simp [Progress.outcome?]

/-! ## Pauses -/

/-- A request that only pauses the current program: part of a run, a step, or an attempt to
    prepare a text that is no program.  None of them fails in the program itself. -/
def isPause (m : Machine) : Request → Bool
  | .run (some budget) => !(m.run budget).1.isFailed
  | .step => !m.step.1.isFailed
  | .prepare text =>
    match (m.prepare text).1 with
    | .error (.refusal _) => true
    | .error _ | .ok () => false
  | .run none | .eval .. => false

/-- Requests that are made one after the other only pause the current program. -/
def pauses (m : Machine) : List Request → Bool
  | [] => true
  | request :: rest => m.isPause request && (m.perform request).pauses rest

/-- After a session in which the preludes were tried, they are not tried again. -/
theorem Reaches.preludePending {births : List Birth} (reached : start.Reaches births m)
    (tried : start.preludePending = false) : m.preludePending = false := by
  induction reached with
  | refl => exact tried
  | step _ ih => exact (stepped _).preludePending.trans ih
  | load _ _ ih => exact ih
  | triedPreludes => rfl

theorem preludePending_runPreludes (returns : start.PrepareReturns) :
    start.runPreludes.2.preludePending = false := by
  rw [runPreludes]
  by_cases pending : start.preludePending = true
  · rw [if_pos pending]
    obtain ⟨births, reached⟩ : { start with preludePending := false }.Visits
        ({ start with preludePending := false }.runAll Prelude.programs).2 :=
      Visits.runAll ⟨[], .refl⟩ [Prelude.lists, Prelude.jumps] (returns pending)
    exact reached.preludePending rfl
  · rw [if_neg pending]
    exact Bool.eq_false_iff.2 pending

theorem preludePending_prepare (returns : start.PrepareReturns) (text : String) :
    (start.prepare text).2.preludePending = false := by
  have tried := preludePending_runPreludes returns
  unfold prepare
  revert tried
  generalize start.runPreludes = outcome
  obtain ⟨_ | _, m⟩ := outcome
  · exact fun tried => tried
  · intro tried
    cases Program.read text with
    | error | ok => exact tried

/-- A program is taken up only after the preludes were tried. -/
theorem preludePending_of_prepare (returns : start.PrepareReturns)
    (prepared : start.prepare text = (.ok (), m)) : m.preludePending = false := by
  have tried := preludePending_prepare returns text
  rw [prepared] at tried
  exact tried

section

variable (tried : m.preludePending = false)

include tried

/-- Once the preludes were tried, preparing a program is only taking it up. -/
theorem prepare_of_tried (text : String) : m.prepare text = m.install (Program.read text) := by
  have preludes : m.runPreludes = (.ok (), m) := by
    rw [runPreludes, tried]
    rfl
  rw [prepare, preludes]

/-- Once the preludes were tried, a text that is no program leaves the machine alone. -/
theorem prepare_of_refused (paused : m.isPause (.prepare text)) : (m.prepare text).2 = m := by
  rw [isPause, prepare_of_tried tried] at paused
  rw [prepare_of_tried tried]
  cases read : Program.read text with
  | error refusal => rfl
  | ok p =>
    rw [read] at paused
    cases paused

theorem EndsLike.of_pause {request : Request} (paused : m.isPause request) :
    m.EndsLike (m.perform request) ∧ (m.perform request).preludePending = false := by
  cases request with
  | prepare text =>
    rw [perform, prepare_of_refused tried paused]
    exact ⟨.refl m, tried⟩
  | step => exact ⟨.of_step (by simpa [isPause] using paused), m.stepped.preludePending.trans tried⟩
  | run budget =>
    cases budget with
    | none => cases paused
    | some budget =>
      obtain ⟨births, reached⟩ : m.Visits (m.run budget).2 := Visits.run ⟨[], .refl⟩ budget
      exact ⟨.of_run (by simpa [isPause] using paused), reached.preludePending tried⟩
  | eval => cases paused

theorem EndsLike.of_pauses {requests : List Request} (paused : m.pauses requests) :
    m.EndsLike (requests.foldl perform m) := by
  induction requests generalizing m with
  | nil => exact .refl m
  | cons request rest ih =>
    rw [pauses, Bool.and_eq_true] at paused
    obtain ⟨first, later⟩ := paused
    obtain ⟨alike, tried'⟩ := EndsLike.of_pause tried first
    exact alike.trans (ih tried' later)

end

/-- **Pauses cannot be seen.**  A program was prepared on any machine.  After any requests
    that only pause it, running it to its end gives the same outcome and the same machine,
    with the same console, faults and count of steps, as if it had been run to its end at
    once; and it comes to an end in one case if it does in the other.

    A run with a budget makes at most that many transitions.  It is suspended exactly when
    it made all of them without a failure, that is, when each of that many steps
    proceeded. -/
theorem pauses_are_invisible {start m : Machine} {text : String} {requests : List Request}
    (returns : start.PrepareReturns) (prepared : start.prepare text = (.ok (), m))
    (paused : m.pauses requests) :
    ((requests.foldl perform m).runWithin none = m.runWithin none ∧
        ((requests.foldl perform m).Ends ↔ m.Ends)) ∧
      ∀ (s : Machine) (budget : Nat),
        (s.runWithin (some budget)).2.steps ≤ s.steps + budget ∧
        ((s.runWithin (some budget)).1 = .suspended ↔
          (s.runWithin (some budget)).2.steps = s.steps + budget ∧
          (s.runWithin (some budget)).1.isFailed = false) ∧
        ((s.runWithin (some budget)).1 = .suspended ↔
          ∀ i < budget, ((fun m : Machine => m.step.2)^[i] s).step.1 = .proceeded) := by
  have tried := preludePending_of_prepare returns prepared
  have alike := EndsLike.of_pauses tried paused
  refine ⟨⟨alike.runToEnd, alike.ends⟩, fun s budget => ⟨s.steps_run_le budget, ?_, ?_⟩⟩
  · exact s.run_eq_suspended_iff budget
  · exact s.run_eq_suspended_iff_proceeds budget

theorem pauses_are_invisible_of_call :
    let start := Machine.new { maxDepth := 40, prelude := false } Table.standard {}
    let requests : List Request :=
      [.run (some 3), .prepare "const", .step, .run (some 0), .prepare "f(;", .run (some 100),
        .step]
    ∃ m, start.prepare "const f = x => x; f(true);" = (.ok (), m) ∧ m.pauses requests ∧
      (requests.foldl perform m).runWithin none = m.runWithin none := by
  intro start requests
  obtain ⟨p, read, paused⟩ := Program.exists_read (by decide +kernel :
    ∃ p ∈ (Program.read "const f = x => x; f(true);").toOption, (start.load p).pauses requests)
  have prepared : start.prepare "const f = x => x; f(true);" = (.ok (), start.load p) := by
    show start.install (Program.read _) = _
    rw [read]
    rfl
  have returns : start.PrepareReturns := by
    intro pending
    cases pending
  exact ⟨_, prepared, paused, (pauses_are_invisible returns prepared paused).1.1⟩

end Machine

end SourceMachine
