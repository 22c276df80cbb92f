import SourceMachine.Proofs.Session.Preludes

/-!
# What a program leaves behind for the next one

A program that finished, failed or was suspended leaves more than its declarations: a control,
a stack, scopes to work in, a count of steps and a record of faults.  Taking up the next program
resets some of this and leaves the rest in place, the scopes above all.  None of it has any
influence on the next program.

Faults are only ever added at the end of the record.  So a machine that recalls earlier faults
makes the same steps as one that does not (`step_recalling`), and with it the same runs.  The
first step of a program sets the scopes without a look at the old ones (`step_load_eq`).  Hence
an evaluation is that of the machine in which everything is cleared away that programs do not
share, with the old faults before the new ones.
-/

namespace SourceMachine

variable {budget : Option Nat} {p : Program} {refusal : Refusal}

namespace Machine

/-! ## Faults of the past -/

/-- The machine with some faults on its record before its own. -/
def recalling (m : Machine) (past : Array Fault) : Machine :=
  { m with faults := past ++ m.faults }

/-- What is left of some computation, with earlier faults on the record. -/
def recalled {α : Type} (past : Array Fault) (result : α × Machine) : α × Machine :=
  (result.1, result.2.recalling past)

section Recalling

variable (past : Array Fault) (m : Machine)

@[simp] theorem env_recalling : (m.recalling past).env = m.env := rfl

@[simp] theorem stack_recalling : (m.recalling past).stack = m.stack := rfl

@[simp] theorem world_recalling : (m.recalling past).world = m.world := rfl

@[simp] theorem maxDepth_recalling : (m.recalling past).maxDepth = m.maxDepth := rfl

theorem schedule_recalling (env : Env) (body : List Stmt) :
    (m.recalling past).schedule env body = recalled past (m.schedule env body) := by
  rw [schedule_eq, schedule_eq, world_recalling]
  rcases m.world.heap.hoist env body with ⟨_ | _, h⟩ <;> rfl

theorem startDeclaration_recalling (id : Identifier) (isMutable : Bool) :
    (m.recalling past).startDeclaration id isMutable =
      recalled past (m.startDeclaration id isMutable) := by
  unfold startDeclaration
  rw [world_recalling, env_recalling]
  rcases m.world.heap.checkUnassigned m.env id isMutable with _ | _ <;> rfl

/-- No statement looks at the faults on record. -/
theorem execute_recalling (s : Stmt) :
    (m.recalling past).execute s = recalled past (m.execute s) := by
  cases s with
  | declaration kind id init span =>
    simp only [execute, startDeclaration_recalling]
    rcases m.startDeclaration id kind.isMutable with ⟨_ | _, m'⟩ <;> rfl
  | function f =>
    simp only [execute]
    cases f.id with
    | none => rfl
    | some id =>
      simp only [startDeclaration_recalling]
      rcases m.startDeclaration id false with ⟨_ | _, m'⟩ <;> rfl
  | block b => exact schedule_recalling past (m.withHeap (m.world.heap.newScope _ m.env).2) _ _
  | returns argument span =>
    simp only [execute, world_recalling, env_recalling]
    cases m.world.heap.lookup? returnPoint m.env <;> rfl
  | _ => rfl

/-- No expression does. -/
theorem evaluate_recalling (e : Expr) :
    (m.recalling past).evaluate e = recalled past (m.evaluate e) := by
  cases e with
  | identifier id =>
    simp only [evaluate, world_recalling, env_recalling]
    cases m.world.heap.get id m.env <;> rfl
  | unary op operand span =>
    simp only [evaluate]
    split <;> rfl
  | binary op left right span =>
    simp only [evaluate]
    split <;> rfl
  | logical op left right span => cases op <;> rfl
  | assignment op target value span =>
    simp only [evaluate]
    cases target.assignee op span <;> rfl
  | _ => rfl

/-- No call does. -/
theorem call_recalling (f : Value) (args : List Value) (span : Span) :
    (m.recalling past).call f args span = recalled past (m.call f args span) := by
  unfold call
  rw [world_recalling]
  cases m.world.heap.callee? f with
  | none => rfl
  | some callee =>
    dsimp only
    cases callee.arity.check args.length span with
    | error fault => rfl
    | ok _ =>
      cases callee with
      | closure c => rfl
      | continuation k => rfl
      | builtin function =>
        cases function with
        | control op =>
          cases op with
          | callCc => rfl
          | reset => rfl
          | shift =>
            simp only [callControl, stack_recalling]
            cases m.stack.split? <;> rfl
        | native g =>
          simp only [callNative, world_recalling]
          rcases g.call args m.world with ⟨_ | _, w⟩ <;> rfl

theorem nextArgument_recalling (arguments : List Expr) (next : Nat) (evaluated : List Value)
    (callee : Value) (span : Span) (env : Env) :
    (m.recalling past).nextArgument arguments next evaluated callee span env =
      recalled past (m.nextArgument arguments next evaluated callee span env) := by
  unfold nextArgument
  cases arguments[next]? <;> rfl

/-- No frame does. -/
theorem give_recalling (frame : Frame) (v : Value) :
    (m.recalling past).give frame v = recalled past (m.give frame v) := by
  cases frame with
  | assign id env =>
    simp only [give, onHeap, world_recalling]
    rcases m.world.heap.set id v env with ⟨_ | _, h⟩ <;> rfl
  | callee | argument => exact nextArgument_recalling past m _ _ _ _ _ _
  | apply => exact call_recalling past m _ _ _
  | branch consequent alternate span env =>
    simp only [give]
    cases v.condition span <;> rfl
  | _ => rfl

/-- A transition does not look at the record of faults. -/
theorem transition_recalling (c : Control) :
    (m.recalling past).transition c = recalled past (m.transition c) := by
  cases c with
  | program p =>
    exact schedule_recalling past
      { m.withHeap (m.world.heap.newScope _ m.outer).2 with outer := _, earlier := _ } _ _
  | statement s => exact execute_recalling past m s
  | expression e => exact evaluate_recalling past m e
  | value v =>
    simp only [transition, take, stack_recalling]
    cases m.stack.pop? with
    | none => rfl
    | some taken => exact give_recalling past { m with stack := taken.2, env := _ } _ _

theorem raise_recalling (fault : Fault) :
    (m.recalling past).raise fault = (m.raise fault).recalling past := by
  unfold raise unwind recalling
  simp only [Array.append_push]

/-- A step does not look at the record of faults. -/
theorem step_recalling : (m.recalling past).step = recalled past m.step := by
  cases final : m.final? with
  | some v =>
    rw [step_of_final final, step_of_final (m := m.recalling past) final]
    rfl
  | none =>
    cases control : m.control with
    | none =>
      rw [step_of_idle control, step_of_idle (m := m.recalling past) control]
      rfl
    | some c =>
      have moved := transition_recalling past m.ticked c
      rw [step_of_transition control final,
        step_of_transition (m := m.recalling past) control final]
      rw [show (m.recalling past).ticked = m.ticked.recalling past from rfl, moved]
      rcases m.ticked.transition c with ⟨fault | c', m'⟩
      · exact congrArg (Progress.failed (.fault fault), ·) (raise_recalling past m' fault)
      · show (m'.recalling past).settle c' = recalled past (m'.settle c')
        unfold settle
        rw [maxDepth_recalling, stack_recalling]
        split <;> rfl

/-- Neither does a run. -/
theorem run_recalling (budget : Nat) :
    (m.recalling past).run budget = recalled past (m.run budget) := by
  induction budget generalizing m with
  | zero => rfl
  | succ budget ih =>
    rw [run_succ, run_succ, step_recalling]
    rw [show (recalled past m.step).1 = m.step.1 from rfl]
    cases m.step.1.outcome? with
    | none => exact ih _
    | some outcome => rfl

theorem ends_recalling : (m.recalling past).Ends ↔ m.Ends := by
  unfold Ends
  simp only [run_recalling]
  exact Iff.rfl

variable {m}

theorem runToEnd_recalling (ends : m.Ends) :
    (m.recalling past).runToEnd = recalled past m.runToEnd := by
  obtain ⟨budget, ended⟩ := ends
  have ended' : ((m.recalling past).run budget).1 ≠ .suspended := by
    rw [run_recalling]
    exact ended
  rw [← run_eq_runToEnd ended, ← run_eq_runToEnd ended', run_recalling]

theorem runReturns_recalling : (m.recalling past).RunReturns budget ↔ m.RunReturns budget := by
  unfold RunReturns
  rw [ends_recalling]

theorem runWithin_recalling (returns : m.RunReturns budget) :
    (m.recalling past).runWithin budget = recalled past (m.runWithin budget) := by
  cases budget with
  | none => exact runToEnd_recalling past (returns rfl)
  | some n => exact run_recalling past m n

end Recalling

/-! ## Taking up a program -/

/-- The machine without all that programs do not share. -/
def cleared (m : Machine) : Machine :=
  { env := m.outer
    outer := m.outer
    earlier := m.earlier
    maxDepth := m.maxDepth
    preludePending := m.preludePending
    world := m.world }

/-- The machine with other scopes to work in. -/
def inScopes (m : Machine) (env : Env) : Machine :=
  { m with env := env }

section Load

variable (m : Machine) (p : Program)

/-- The first step of a program sets the scopes, whatever they were. -/
theorem step_load_inScopes (env : Env) : ((m.inScopes env).load p).step = (m.load p).step := by
  rcases declared : m.declareProgram p with ⟨fault | _, h⟩
  · rw [step_load_of_clash declared, step_load_of_clash (m := m.inScopes env) declared]
    rfl
  · rw [step_load declared, step_load (m := m.inScopes env) declared]
    rfl

/-- A program that is taken up runs as on the cleared machine, with the old faults on the
    record. -/
theorem step_load_cleared : (m.load p).step = ((m.cleared.load p).recalling m.faults).step := by
  have same : m.load p = ((m.cleared.recalling m.faults).inScopes m.env).load p := by
    unfold load inScopes recalling cleared
    simp only [Array.append_empty]
  rw [same, step_load_inScopes]
  rfl

variable {m p}

/-- A program that was taken up runs as it does on a cleared machine. -/
theorem run_load_cleared (budget : Nat) :
    (m.load p).run (budget + 1) = recalled m.faults ((m.cleared.load p).run (budget + 1)) := by
  rw [← run_recalling, run_succ, run_succ, step_load_cleared]

theorem ends_load_cleared : (m.load p).Ends ↔ (m.cleared.load p).Ends := by
  rw [ends_iff, ends_iff]
  refine exists_congr fun budget => ?_
  rw [run_load_cleared]
  exact Iff.rfl

theorem runReturns_load_cleared :
    (m.load p).RunReturns budget ↔ (m.cleared.load p).RunReturns budget := by
  unfold RunReturns
  rw [ends_load_cleared]

theorem runToEnd_load_cleared (ends : (m.load p).Ends) :
    (m.load p).runToEnd = recalled m.faults (m.cleared.load p).runToEnd := by
  obtain ⟨budget, ended⟩ := ends_iff.1 ends
  have ended' : ((m.cleared.load p).run (budget + 1)).1 ≠ .suspended := by
    rw [run_load_cleared] at ended
    exact ended
  rw [← run_eq_runToEnd ended, ← run_eq_runToEnd ended', run_load_cleared]

theorem runWithin_load_cleared (works : budget ≠ some 0) (returns : (m.load p).RunReturns budget) :
    (m.load p).runWithin budget = recalled m.faults ((m.cleared.load p).runWithin budget) := by
  cases budget with
  | none => exact runToEnd_load_cleared (returns rfl)
  | some n =>
    cases n with
    | zero => exact absurd rfl works
    | succ n => exact run_load_cleared n

end Load

/-! ## Preludes -/

section Preludes

variable {m : Machine}

/-- Programs in a row do not look at the record of faults. -/
theorem runAll_recalling (past : Array Fault) (reads : List (Except Refusal Program)) :
    ((m.recalling past).EndsAll reads ↔ m.EndsAll reads) ∧
      (m.EndsAll reads → (m.recalling past).runAll reads = recalled past (m.runAll reads)) := by
  induction reads generalizing m with
  | nil => exact ⟨Iff.rfl, fun _ => rfl⟩
  | cons read rest ih =>
    cases read with
    | error refusal => exact ⟨Iff.rfl, fun _ => rfl⟩
    | ok p =>
      simp only [EndsAll, runAll, install,
        show (m.recalling past).load p = (m.load p).recalling past from rfl, ends_recalling]
      by_cases ends : (m.load p).Ends
      · rw [runToEnd_recalling past ends]
        rcases (m.load p).runToEnd with ⟨_ | _ | _, m'⟩
        · exact ⟨and_congr_right fun _ => ih.1, fun onwards => ih.2 onwards.2⟩
        · exact ⟨Iff.rfl, fun _ => rfl⟩
        · exact ⟨and_congr_right fun _ => ih.1, fun onwards => ih.2 onwards.2⟩
      · exact ⟨⟨fun onwards => absurd onwards.1 ends, fun onwards => absurd onwards.1 ends⟩,
          fun onwards => absurd onwards.1 ends⟩

/-- Programs in a row run as on the cleared machine, from the first one on. -/
theorem runAll_cleared (p : Program) (rest : List (Except Refusal Program)) :
    (m.EndsAll (.ok p :: rest) ↔ m.cleared.EndsAll (.ok p :: rest)) ∧
      (m.EndsAll (.ok p :: rest) →
        m.runAll (.ok p :: rest) = recalled m.faults (m.cleared.runAll (.ok p :: rest))) := by
  simp only [EndsAll, runAll, install]
  rw [ends_load_cleared]
  by_cases ends : (m.cleared.load p).Ends
  · rw [runToEnd_load_cleared (ends_load_cleared.2 ends)]
    rcases (m.cleared.load p).runToEnd with ⟨_ | _ | _, m'⟩
    · have onwards := runAll_recalling (m := m') m.faults rest
      exact ⟨and_congr_right fun _ => onwards.1, fun all => onwards.2 (onwards.1.1 all.2)⟩
    · exact ⟨Iff.rfl, fun _ => rfl⟩
    · have onwards := runAll_recalling (m := m') m.faults rest
      exact ⟨and_congr_right fun _ => onwards.1, fun all => onwards.2 (onwards.1.1 all.2)⟩
  · exact ⟨⟨fun onwards => absurd onwards.1 ends, fun onwards => absurd onwards.1 ends⟩,
      fun onwards => absurd onwards.1 ends⟩

/-- Preludes that are still to be run are run as on the cleared machine. -/
theorem runPreludes_cleared (pending : m.preludePending = true) :
    (m.PrepareReturns ↔ m.cleared.PrepareReturns) ∧
      (m.PrepareReturns → m.runPreludes = recalled m.faults m.cleared.runPreludes) := by
  obtain ⟨lists, jumps, reads⟩ := exists_readsPreludes
  have programs : Prelude.programs = .ok lists :: [Program.read Prelude.jumps] := by
    rw [Prelude.programs, reads.readLists]
  have cleared : m.cleared.preludePending = true := pending
  unfold PrepareReturns runPreludes
  rw [if_pos pending, if_pos cleared, programs]
  have alike := runAll_cleared (m := { m with preludePending := false }) lists
    [Program.read Prelude.jumps]
  refine ⟨?_, fun returns => alike.2 (returns pending)⟩
  exact ⟨fun returns _ => alike.1.1 (returns pending), fun returns _ => alike.1.2 (returns cleared)⟩

end Preludes

/-! ## Evaluations -/

/-- An evaluation comes back: so do the preludes, where they are still to be run, and the program
    if it is taken up. -/
def EvalReturns (m : Machine) (text : String) (budget : Option Nat) : Prop :=
  m.PrepareReturns ∧ ∀ p, m.runPreludes.1 = .ok () → Program.read text = .ok p →
    (m.runPreludes.2.load p).RunReturns budget

section Eval

variable {m : Machine} {text : String} {budget : Option Nat}

theorem eval_of_preludes_failed {failure : Failure} (failed : m.runPreludes.1 = .error failure) :
    m.eval text budget = (.failed failure, m.runPreludes.2) := by
  rw [eval, prepare_eq, failed]

/-- A text that is refused is tried after the preludes. -/
theorem eval_of_refused (complete : m.runPreludes.1 = .ok ())
    (refused : Program.read text = .error refusal) :
    m.eval text budget = (.failed (.refusal refusal), m.runPreludes.2) := by
  rw [eval, prepare_eq, complete, refused]
  rfl

theorem eval_of_read (complete : m.runPreludes.1 = .ok ()) (read : Program.read text = .ok p) :
    m.eval text budget = (m.runPreludes.2.load p).runWithin budget := by
  rw [eval, prepare_eq, complete, read]
  rfl

theorem runPreludes_of_tried (tried : m.preludePending = false) : m.runPreludes = (.ok (), m) := by
  rw [runPreludes, tried]
  rfl

/-- An evaluation is that of the cleared machine, with the old faults on the record. -/
structure EvalsCleared (m : Machine) (text : String) (budget : Option Nat) : Prop where
  returns : m.EvalReturns text budget ↔ m.cleared.EvalReturns text budget
  eval : m.EvalReturns text budget →
    m.eval text budget = recalled m.faults (m.cleared.eval text budget)

/-- It is after preludes that are run for it. -/
theorem evalsCleared_of_pending (pending : m.preludePending = true) :
    m.EvalsCleared text budget := by
  obtain ⟨prepares, preludes⟩ := runPreludes_cleared pending
  by_cases returns : m.PrepareReturns
  · have same := preludes returns
    have result : m.runPreludes.1 = m.cleared.runPreludes.1 := by
      rw [same]
      rfl
    have loaded (p : Program) : m.runPreludes.2.load p =
        (m.cleared.runPreludes.2.load p).recalling m.faults := by
      rw [same]
      rfl
    refine ⟨?_, fun comes => ?_⟩
    · simp only [EvalReturns, prepares, result, loaded, runReturns_recalling]
    · cases outcome : m.cleared.runPreludes.1 with
      | error failure =>
        rw [eval_of_preludes_failed (result.trans outcome), eval_of_preludes_failed outcome, same]
        rfl
      | ok _ =>
        cases read : Program.read text with
        | error refusal =>
          rw [eval_of_refused (result.trans outcome) read, eval_of_refused outcome read, same]
          rfl
        | ok p =>
          have runs := comes.2 p (result.trans outcome) read
          rw [loaded, runReturns_recalling] at runs
          rw [eval_of_read (result.trans outcome) read, eval_of_read outcome read, loaded]
          exact runWithin_recalling m.faults runs
  · refine ⟨⟨fun comes => absurd comes.1 returns, fun comes => ?_⟩, fun comes => ?_⟩
    · exact absurd (prepares.2 comes.1) returns
    · exact absurd comes.1 returns

theorem evalReturns_of_tried (tried : m.preludePending = false) (read : Program.read text = .ok p) :
    m.EvalReturns text budget ↔ (m.load p).RunReturns budget := by
  unfold EvalReturns
  rw [runPreludes_of_tried tried, read]
  simp [prepareReturns_of_tried tried]

/-- Once the preludes were tried, it is if the text is a program. -/
theorem evalsCleared_of_read (tried : m.preludePending = false) (read : Program.read text = .ok p)
    (works : budget ≠ some 0) : m.EvalsCleared text budget := by
  have tried' : m.cleared.preludePending = false := tried
  constructor
  · rw [evalReturns_of_tried tried read, evalReturns_of_tried tried' read, runReturns_load_cleared]
  · intro returns
    rw [eval_of_tried tried read, eval_of_tried tried' read]
    exact runWithin_load_cleared works ((evalReturns_of_tried tried read).1 returns)

/-- A text that is no program changes nothing any more. -/
theorem eval_unchanged (tried : m.preludePending = false)
    (refused : Program.read text = .error refusal) (budget : Option Nat) :
    m.EvalReturns text budget ∧ m.eval text budget = (.failed (.refusal refusal), m) := by
  have complete : m.runPreludes = (.ok (), m) := runPreludes_of_tried tried
  refine ⟨⟨prepareReturns_of_tried tried, ?_⟩, ?_⟩
  · rw [refused]
    rintro p - ⟨⟩
  · rw [eval_of_refused (by rw [complete]) refused, complete]

/-- Only a refused text without preludes to run keeps the leftovers. -/
theorem evalsCleared_or_refused (m : Machine) (text : String) (works : budget ≠ some 0) :
    m.EvalsCleared text budget ∨
      m.preludePending = false ∧ ∃ refusal, Program.read text = .error refusal := by
  cases pending : m.preludePending with
  | true => exact .inl (evalsCleared_of_pending pending)
  | false =>
    cases read : Program.read text with
    | error refusal => exact .inr ⟨rfl, refusal, rfl⟩
    | ok p => exact .inl (evalsCleared_of_read pending read works)

end Eval

/-- **Leftovers are invisible.**  Two machines agree in the scopes that outlive programs, in the
    world, in the room on the stack and in whether the preludes were tried.  They may differ in all
    that a program leaves behind: control, stack, scopes to work in, running or not, steps, and the
    faults so far.

    Then an evaluation comes back on both or on neither.  It comes to the same outcome, leaves the
    same scopes and the same world, with the console in it, and adds the same faults to the record.
    If a program was run, be it the text or a prelude, all else is the same as well, the count of
    steps among it.  A text that is refused with no preludes to run changes nothing, so then each
    machine keeps the count of its last program. -/
theorem leftovers_are_invisible {m₁ m₂ : Machine} (outers : m₁.outers = m₂.outers)
    (world : m₁.world = m₂.world) (room : m₁.maxDepth = m₂.maxDepth)
    (preludes : m₁.preludePending = m₂.preludePending) (text : String)
    (works : budget ≠ some 0) :
    (m₁.EvalReturns text budget ↔ m₂.EvalReturns text budget) ∧
      (m₁.EvalReturns text budget →
        (m₁.eval text budget).1 = (m₂.eval text budget).1 ∧
        (m₁.eval text budget).2.world = (m₂.eval text budget).2.world ∧
        (m₁.eval text budget).2.outers = (m₂.eval text budget).2.outers ∧
        (∃ new, (m₁.eval text budget).2.faults = m₁.faults ++ new ∧
          (m₂.eval text budget).2.faults = m₂.faults ++ new) ∧
        (m₁.preludePending = true ∨ (∃ p, Program.read text = .ok p) →
          (m₁.eval text budget).2.steps = (m₂.eval text budget).2.steps ∧
          (m₁.eval text budget).2 =
            { (m₂.eval text budget).2 with faults := (m₁.eval text budget).2.faults }) ∧
        ∀ refusal, m₁.preludePending = false → Program.read text = .error refusal →
          m₁.eval text budget = (.failed (.refusal refusal), m₁) ∧
          m₂.eval text budget = (.failed (.refusal refusal), m₂)) := by
  obtain ⟨outer, earlier⟩ := List.cons.inj (List.reverse_injective outers)
  have same : m₁.cleared = m₂.cleared := by
    unfold cleared
    rw [outer, earlier, world, room, preludes]
  have unread {refusal : Refusal} (read : Program.read text = .error refusal) :
      ¬∃ p, Program.read text = .ok p := by
    rintro ⟨p, accepted⟩
    cases accepted.symm.trans read
  by_cases refused : m₁.preludePending = false ∧ ∃ refusal, Program.read text = .error refusal
  · obtain ⟨tried, refusal, read⟩ := refused
    obtain ⟨returns₁, eval₁⟩ := eval_unchanged tried read budget
    obtain ⟨returns₂, eval₂⟩ := eval_unchanged (preludes ▸ tried) read budget
    refine ⟨⟨fun _ => returns₂, fun _ => returns₁⟩, fun _ => ?_⟩
    rw [eval₁, eval₂, tried, read]
    refine ⟨rfl, world, outers, ⟨#[], by simp, by simp⟩, by simp, fun _ _ same => ?_⟩
    cases same
    exact ⟨rfl, rfl⟩
  · -- both evaluations are that of the machine in which the leftovers are cleared away
    have first := (evalsCleared_or_refused m₁ text works).resolve_right refused
    have second := (evalsCleared_or_refused m₂ text works).resolve_right (preludes ▸ refused)
    have returns : m₁.EvalReturns text budget ↔ m₂.EvalReturns text budget := by
      rw [first.returns, second.returns, same]
    refine ⟨returns, fun comes => ?_⟩
    rw [first.eval comes, second.eval (returns.1 comes), same]
    exact ⟨rfl, rfl, rfl, ⟨(m₂.cleared.eval text budget).2.faults, rfl, rfl⟩, fun _ => ⟨rfl, rfl⟩,
      fun refusal tried read => absurd ⟨tried, refusal, read⟩ refused⟩

/-- A program that was suspended before it read a name, and one that failed there: they agree in
    all that programs share, and have made two and three steps. -/
theorem suspended_and_failed :
    let start := Machine.new { maxDepth := 40, prelude := false } [] {}
    let suspended := start.perform (.eval "nope;" (some 2))
    let failed := start.perform (.eval "nope;" (some 3))
    (suspended.outers = failed.outers ∧ suspended.world = failed.world ∧
      suspended.maxDepth = failed.maxDepth ∧ suspended.preludePending = false ∧
      failed.preludePending = false) ∧
    suspended.control.isSome ∧ failed.control.isNone ∧ suspended.steps = 2 ∧
      failed.steps = 3 := by
  intro start suspended failed
  obtain ⟨p, read, x, only, named⟩ := Program.exists_read (by decide +kernel :
    ∃ p ∈ (Program.read "nope;").toOption, ∃ x ∈ p.onlyName?, x.name = "nope")
  obtain ⟨span, body⟩ := Program.body_of_onlyName? only
  obtain ⟨name, at_⟩ := x
  obtain ⟨_, whole⟩ := p
  cases body
  cases named
  have first : suspended = ((start.load _).runWithin (some 2)).2 :=
    congrArg Prod.snd (eval_of_tried rfl read _)
  have second : failed = ((start.load _).runWithin (some 3)).2 :=
    congrArg Prod.snd (eval_of_tried rfl read _)
  rw [first, second]
  exact ⟨⟨rfl, rfl, rfl, rfl, rfl⟩, rfl, rfl, rfl, rfl⟩

/-- The same for these two machines and a program that declares a name. -/
theorem leftovers_are_invisible_of_failed :
    let start := Machine.new { maxDepth := 40, prelude := false } [] {}
    let suspended := start.perform (.eval "nope;" (some 2))
    let failed := start.perform (.eval "nope;" (some 3))
    let text := "const y = true; y;"
    (suspended.control.isSome ∧ failed.control.isNone ∧ suspended.steps ≠ failed.steps) ∧
      (suspended.eval text (some 20)).1 = (failed.eval text (some 20)).1 ∧
      (suspended.eval text (some 20)).2.steps = (failed.eval text (some 20)).2.steps ∧
      ∃ new, (suspended.eval text (some 20)).2.faults = suspended.faults ++ new ∧
        (failed.eval text (some 20)).2.faults = failed.faults ++ new := by
  intro start suspended failed text
  obtain ⟨⟨outers, world, room, tried₁, tried₂⟩, works, stopped, two, three⟩ :=
    suspended_and_failed
  have returns : suspended.EvalReturns text (some 20) := by
    refine ⟨prepareReturns_of_tried tried₁, ?_⟩
    rintro q - - ⟨⟩
  obtain ⟨p, read, -⟩ := Program.exists_read (by decide +kernel :
    ∃ p ∈ (Program.read text).toOption, p.body.length = 2)
  obtain ⟨-, alike⟩ := leftovers_are_invisible outers world room (tried₁.trans tried₂.symm) text
    (show some 20 ≠ some 0 by decide)
  obtain ⟨outcome, -, -, added, ran, -⟩ := alike returns
  refine ⟨⟨works, stopped, ?_⟩, outcome, (ran (.inr ⟨p, read⟩)).1, added⟩
  rw [show suspended.steps = 2 from two, show failed.steps = 3 from three]
  decide

/-- A text that is refused leaves the counts of steps as they were. -/
theorem refused_text_keeps_steps :
    let start := Machine.new { maxDepth := 40, prelude := false } [] {}
    let suspended := start.perform (.eval "nope;" (some 2))
    let failed := start.perform (.eval "nope;" (some 3))
    suspended.outers = failed.outers ∧ suspended.world = failed.world ∧
      suspended.maxDepth = failed.maxDepth ∧ suspended.preludePending = failed.preludePending ∧
      (∃ refusal, (suspended.eval ")" none).1 = .failed (.refusal refusal) ∧
        (failed.eval ")" none).1 = .failed (.refusal refusal)) ∧
      (suspended.eval ")" none).2.steps = 2 ∧ (failed.eval ")" none).2.steps = 3 := by
  intro start suspended failed
  obtain ⟨⟨outers, world, room, tried₁, tried₂⟩, -, -, two, three⟩ := suspended_and_failed
  obtain ⟨refusal, refused⟩ : ∃ refusal, Program.read ")" = .error refusal := by
    cases read : Program.read ")" with
    | error refusal => exact ⟨refusal, rfl⟩
    | ok p =>
      have none : (Program.read ")").toOption.isNone := by decide +kernel
      rw [read] at none
      cases none
  rw [(eval_unchanged tried₁ refused none).2, (eval_unchanged tried₂ refused none).2]
  exact ⟨outers, world, room, tried₁.trans tried₂.symm, ⟨refusal, rfl, rfl⟩, two, three⟩

end Machine

end SourceMachine
