import SourceMachine.Proofs.Session.Suspension

/-!
# What a failure leaves behind

A step can fail in the middle of a transition, when the registers are half changed.  It
leaves the machine at rest all the same: without a program, on the stack of a program that
has not started, in the scope of the last program that was started.  The fault is recorded,
and an overflow is not.

A request fails by its last step or because a text is no program (`Leaves.of_perform`), so a
request that fails in a program leaves the machine at rest, too, with one fault more at
most.  From there nothing happens until a program is taken up (`IsAtRest.foldl_perform`).

The scopes of the programs are nested: each program adds its scope inside of the one before
it, at its first step, whatever comes of that step (`Passes.outer_eq`).
-/

namespace SourceMachine

variable {m m' start : Machine} {c c' : Control} {budget : Option Nat} {env : Env}
  {request : Request} {failure : Failure} {fault : Fault} {requests : List Request} {h : Heap}
  {i : Nat} {outcome : Outcome} {text : String}

/-! ## Nested scopes -/

/-- Some scopes and what is around each of them, the outermost first. -/
def Env.chain : Env → List Env
  | [] => []
  | id :: outer => Env.chain outer ++ [id :: outer]

theorem Env.length_chain (env : Env) : (Env.chain env).length = env.length := by
  induction env with
  | nil => rfl
  | cons id outer ih => simp [Env.chain, ih]

/-- The chain has the tails of the list, the shortest first. -/
theorem Env.getElem?_chain (inside : i < env.length) :
    (Env.chain env)[i]? = some (env.drop (env.length - 1 - i)) := by
  induction env with
  | nil => cases inside
  | cons id outer ih =>
    rw [Env.chain]
    by_cases further : i < outer.length
    · have later : (id :: outer).length - 1 - i = outer.length - 1 - i + 1 := by
        simp only [List.length_cons]
        omega
      rw [List.getElem?_append_left (by rwa [Env.length_chain]), ih further, later,
        List.drop_succ_cons]
    · -- the innermost one is the last
      obtain rfl : i = outer.length := by
        simp only [List.length_cons] at inside
        omega
      simp [← Env.length_chain]

/-- Each is inside of the one before it. -/
theorem Env.chain_nested {e : Env} (found : (Env.chain env)[i + 1]? = some e) :
    (Env.chain env)[i]? = some e.tail := by
  obtain ⟨inside, -⟩ := List.getElem?_eq_some_iff.1 found
  rw [Env.length_chain] at inside
  rw [Env.getElem?_chain inside] at found
  rw [Env.getElem?_chain (by omega), ← Option.some.inj found, List.tail_drop]
  congr 2
  omega

/-- A step puts a failure on record if it is a fault. -/
def Failure.recorded : Failure → List Fault
  | .fault f => [f]
  | .refusal _ | .overflow _ => []

/-- Whether a program failed, and not the attempt to read one. -/
def Failure.isAbort : Failure → Bool
  | .fault _ | .overflow _ => true
  | .refusal _ => false

/-- The failure of a step. -/
def Progress.failure? : Progress → Option Failure
  | .failed failure => some failure
  | .proceeded | .complete _ | .idle => none

/-- The failure of a run. -/
def Outcome.failure? : Outcome → Option Failure
  | .failed failure => some failure
  | .finished _ | .suspended => none

theorem Outcome.eq_failed (failed : outcome.failure? = some failure) :
    outcome = .failed failure := by
  cases outcome with
  | failed => exact congrArg _ (Option.some.inj failed)
  | finished | suspended => cases failed

/-- The failure of an attempt to take up a program. -/
def failureOf : Except Failure Unit → Option Failure
  | .error failure => some failure
  | .ok () => none

namespace Machine

/-! ## Programs that were started -/

/-- The next step is the first one of a program. -/
def startsProgram (m : Machine) : Bool :=
  match m.control with
  | some (.program _) => true
  | _ => false

theorem startsProgram_of_control (control : m.control = some c) (other : ∀ p, c ≠ .program p) :
    m.startsProgram = false := by
  rw [startsProgram, control]
  cases c with
  | program p => exact absurd rfl (other p)
  | statement | expression | value => rfl

theorem Starts.ne_program {frame : Frame} (start : Starts h env c c' frame) (p : Program) :
    c ≠ .program p := by
  cases start <;> simp

theorem Rejects.ne_program (reject : Rejects h env c fault) (p : Program) : c ≠ .program p := by
  cases reject <;> simp

/-- A transition of a program adds its scopes to those that stay, and no other transition
    does. -/
def Adds (m : Machine) (c : Control) (m' : Machine) : Prop :=
  (∃ p, c = .program p ∧ m'.outer = ⟨m.world.heap.scopes.size⟩ :: m.outer ∧
    m'.earlier = m.outer :: m.earlier) ∨
  (∀ p, c ≠ .program p) ∧ m'.outer = m.outer ∧ m'.earlier = m.earlier

/-- A transition makes a scope that lasts only where a program starts. -/
theorem Moves.adds (move : m.Moves c c' m') : m.Adds c m' := by
  cases move with
  | @program p env inner h scope =>
    cases scope
    exact .inl ⟨p, rfl, rfl, rfl⟩
  | starts start => exact .inr ⟨start.ne_program, rfl, rfl⟩
  | _ => exact .inr ⟨by simp, rfl, rfl⟩

theorem Fails.adds (fail : m.Fails c fault m') : m.Adds c m' := by
  cases fail with
  | @program p env inner h fault scope =>
    cases scope
    exact .inl ⟨p, rfl, rfl, rfl⟩
  | rejects reject => exact .inr ⟨reject.ne_program, rfl, rfl⟩
  | _ => exact .inr ⟨by simp, rfl, rfl⟩

/-- The first step of a program adds the scopes of the program, and no other step does. -/
theorem outer_step (m : Machine) :
    m.step.2.outer =
        (if m.startsProgram then ⟨m.world.heap.scopes.size⟩ :: m.outer else m.outer) ∧
      m.step.2.earlier = if m.startsProgram then m.outer :: m.earlier else m.earlier := by
  have of_adds {m' : Machine} {c : Control} (control : m.control = some c) (adds : m.Adds c m') :
      m'.outer = (if m.startsProgram then ⟨m.world.heap.scopes.size⟩ :: m.outer else m.outer) ∧
        m'.earlier = if m.startsProgram then m.outer :: m.earlier else m.earlier := by
    rcases adds with ⟨p, rfl, new⟩ | ⟨other, same⟩
    · rw [startsProgram, control]
      exact new
    · rw [startsProgram_of_control control other]
      exact same
  have stepped := m.stepped
  generalize m.step.1 = progress, m.step.2 = m' at stepped
  cases stepped with
  | complete control =>
    rw [startsProgram_of_control control (by simp)]
    exact ⟨rfl, rfl⟩
  | idle control =>
    rw [startsProgram, control]
    exact ⟨rfl, rfl⟩
  | proceeded control move => exact of_adds control move.adds
  | overflow control move => exact of_adds control move.adds
  | fault control fail => exact of_adds control fail.adds

section

variable {past : List Machine} (passed : start.Passes past m)

include passed

/-- The scopes that stay are those of the programs that were started, inside of those that
    there were at first. -/
theorem Passes.outer_eq :
    m.outer = ((past.filter startsProgram).map (⟨·.world.heap.scopes.size⟩)).reverse ++
      start.outer := by
  induction passed with
  | refl => rfl
  | @step past m passed ih =>
    rw [(outer_step m).1, ih]
    cases starts : m.startsProgram with
    | true => simp [starts]
    | false => simp [starts]
  | load _ _ ih | triedPreludes _ ih => exact ih

/-- The scopes of each program stay as they were when the program was started. -/
theorem Passes.outers_eq_chain (nested : start.outers = Env.chain start.outer) :
    m.outers = Env.chain m.outer := by
  induction passed with
  | refl => exact nested
  | @step past m passed ih =>
    obtain ⟨outer, earlier⟩ := outer_step m
    rw [outers, outer, earlier]
    cases m.startsProgram with
    | true => exact List.reverse_cons.trans (congrArg (· ++ [_]) ih)
    | false => exact ih
  | load _ _ ih | triedPreludes _ ih => exact ih

end

/-- In a session there are as many scopes that stay as there are around the last program. -/
theorem Visits.outerCount_eq {settings : Settings} {table : Table} {world : World}
    (visited : (Machine.new settings table world).Visits m) : m.outerCount = m.outer.length := by
  obtain ⟨births, reached⟩ := visited
  obtain ⟨past, -, passed⟩ := Passes.of_reaches reached
  rw [outerCount, passed.outers_eq_chain rfl, Env.length_chain]

/-! ## Runs that ended -/

/-- A run that comes back is one with a budget. -/
theorem exists_run (returns : m.RunReturns budget) : ∃ n, m.run n = m.runWithin budget := by
  cases budget with
  | some n => exact ⟨n, rfl⟩
  | none =>
    obtain ⟨n, ended⟩ := returns rfl
    exact ⟨n, run_eq_runToEnd ended⟩

/-- A run that ended has made its first step, and whatever came after it. -/
theorem exists_run_step {n : Nat} (ran : m.run n = (outcome, m')) (ended : outcome ≠ .suspended) :
    ∃ k j, n = k + 1 ∧ m' = (m.step.2.run j).2 := by
  cases n with
  | zero =>
    cases ran
    exact absurd rfl ended
  | succ k =>
    rw [run_succ] at ran
    cases progress : m.step.1 with
    | proceeded =>
      rw [progress] at ran
      exact ⟨k, k, rfl, (congrArg Prod.snd ran).symm⟩
    | complete | idle | failed =>
      rw [progress] at ran
      exact ⟨k, 0, rfl, (congrArg Prod.snd ran).symm⟩

/-! ## Failures of steps and runs -/

/-- There is nothing to do, and the next program will find its place. -/
structure IsAtRest (m : Machine) : Prop where
  control : m.control = none
  stack : m.stack = .initial
  env : m.env = m.outer
  running : m.running = false

theorem isAtRest_unwind (m : Machine) : m.unwind.IsAtRest :=
  ⟨rfl, rfl, rfl, rfl⟩

/-- What a call leaves behind, by the failure that it reports. -/
structure Leaves (m : Machine) (failure? : Option Failure) (m' : Machine) : Prop where
  faults : m'.faults.toList = m.faults.toList ++ failure?.elim [] Failure.recorded
  rest : ∀ failure, failure? = some failure → failure.isAbort → m'.IsAtRest

theorem Moves.faults (move : m.Moves c c' m') : m'.faults = m.faults := by
  cases move <;> rfl

theorem Fails.faults (fail : m.Fails c fault m') : m'.faults = m.faults := by
  cases fail <;> rfl

namespace Leaves

variable {m m₁ m₂ : Machine} {failure? : Option Failure}

theorem of_faults_eq (same : m₁.faults = m.faults) : m.Leaves none m₁ := by
  refine ⟨by simp [same], ?_⟩
  rintro failure ⟨⟩

theorem trans (first : m.Leaves none m₁) (second : m₁.Leaves failure? m₂) :
    m.Leaves failure? m₂ := by
  refine ⟨?_, second.rest⟩
  rw [second.faults, first.faults]
  simp

/-- A step records its fault, and leaves the machine at rest if it aborts. -/
theorem of_step (m : Machine) : m.Leaves m.step.1.failure? m.step.2 := by
  have stepped := m.stepped
  generalize m.step.1 = progress, m.step.2 = m' at stepped
  cases stepped with
  | complete | idle => exact of_faults_eq rfl
  | proceeded control move => exact of_faults_eq move.faults
  | @overflow c c' m' control move =>
    refine ⟨?_, fun _ _ _ => isAtRest_unwind m'⟩
    show m'.faults.toList = _ ++ []
    rw [move.faults, List.append_nil]
    rfl
  | @fault c fault m' control fail =>
    refine ⟨?_, fun _ _ _ => isAtRest_unwind _⟩
    show (m'.faults.push fault).toList = _ ++ [fault]
    rw [fail.faults, Array.toList_push]
    rfl

/-- What fails in a step is a program. -/
theorem isAbort_of_step (failed : m.step.1 = .failed failure) : failure.isAbort := by
  have stepped := m.stepped
  rw [failed] at stepped
  generalize m.step.2 = m' at stepped
  cases stepped with
  | overflow | fault => rfl

/-- So does a run. -/
theorem of_run (m : Machine) (budget : Nat) :
    m.Leaves (m.run budget).1.failure? (m.run budget).2 := by
  induction budget generalizing m with
  | zero => exact of_faults_eq rfl
  | succ budget ih =>
    have first := of_step m
    rw [run_succ]
    cases progress : m.step.1 with
    | proceeded =>
      rw [progress] at first
      exact first.trans (ih m.step.2)
    | complete | idle | failed =>
      rw [progress] at first
      exact first

theorem of_runToEnd (ends : m.Ends) : m.Leaves m.runToEnd.1.failure? m.runToEnd.2 := by
  obtain ⟨budget, ended⟩ := ends
  rw [← run_eq_runToEnd ended]
  exact of_run m budget

theorem of_runWithin (returns : m.RunReturns budget) :
    m.Leaves (m.runWithin budget).1.failure? (m.runWithin budget).2 := by
  cases budget with
  | none => exact of_runToEnd (returns rfl)
  | some n => exact of_run m n

/-! ## Failures of requests -/

theorem of_install (m : Machine) (read : Except Refusal Program) :
    m.Leaves (failureOf (m.install read).1) (m.install read).2 := by
  cases read with
  | ok p => exact of_faults_eq rfl
  | error refusal =>
    refine ⟨(List.append_nil _).symm, ?_⟩
    rintro failure ⟨⟩ abort
    cases abort

theorem of_runAll (reads : List (Except Refusal Program)) (ends : m.EndsAll reads) :
    m.Leaves (failureOf (m.runAll reads).1) (m.runAll reads).2 := by
  induction reads generalizing m with
  | nil => exact of_faults_eq rfl
  | cons read rest ih =>
    have installed := of_install m read
    unfold EndsAll at ends
    unfold Machine.runAll
    revert installed ends
    generalize m.install read = result
    obtain ⟨_ | _, m₁⟩ := result
    · exact fun installed _ => installed
    · rintro installed ⟨ended, onwards⟩
      have ran := installed.trans (of_runToEnd ended)
      revert ran onwards
      dsimp only
      generalize m₁.runToEnd = outcome
      obtain ⟨_ | _ | _, m₂⟩ := outcome
      · exact fun onwards ran => ran.trans (ih onwards)
      · exact fun _ ran => ran
      · exact fun onwards ran => ran.trans (ih onwards)

theorem of_runPreludes (returns : m.PrepareReturns) :
    m.Leaves (failureOf m.runPreludes.1) m.runPreludes.2 := by
  unfold Machine.runPreludes
  by_cases pending : m.preludePending = true
  · rw [if_pos pending]
    have tried : m.Leaves none { m with preludePending := false } := of_faults_eq rfl
    exact tried.trans (of_runAll _ (returns pending))
  · rw [if_neg pending]
    exact of_faults_eq rfl

/-- So does taking up a program, preludes included. -/
theorem of_prepare (returns : m.PrepareReturns) (text : String) :
    m.Leaves (failureOf (m.prepare text).1) (m.prepare text).2 := by
  have ran := of_runPreludes returns
  unfold Machine.prepare
  revert ran
  generalize m.runPreludes = result
  obtain ⟨_ | _, m₁⟩ := result
  · exact fun ran => ran
  · exact fun ran => ran.trans (of_install m₁ _)

end Leaves

/-- The failure that a request reports. -/
def failure? (m : Machine) : Request → Option Failure
  | .prepare text => failureOf (m.prepare text).1
  | .step => m.step.1.failure?
  | .run budget => (m.runWithin budget).1.failure?
  | .eval text budget => (m.eval text budget).1.failure?

/-- A request that comes back leaves the faults that there were and the one that it reports,
    and the machine is at rest if a program failed. -/
theorem Leaves.of_perform (returns : m.Returns request) :
    m.Leaves (m.failure? request) (m.perform request) := by
  cases request with
  | prepare text => exact of_prepare returns text
  | step => exact of_step m
  | run budget => exact of_runWithin returns
  | eval text budget =>
    obtain ⟨prepares, runs⟩ := returns
    have prepared := of_prepare prepares text
    show m.Leaves (m.eval text budget).1.failure? (m.eval text budget).2
    unfold Machine.eval
    revert prepared runs
    generalize m.prepare text = result
    obtain ⟨_ | _, m₁⟩ := result
    · exact fun _ prepared => prepared
    · exact fun runs prepared => prepared.trans (of_runWithin runs)

/-! ## Nothing happens at rest -/

/-- The request takes up a program. -/
def takesUp (m : Machine) : Request → Bool
  | .prepare text | .eval text _ => (m.prepare text).1.isOk
  | .step | .run _ => false

/-- None of these requests, made one after the other, takes up a program. -/
def takesUpNone (m : Machine) : List Request → Bool
  | [] => true
  | request :: rest => !m.takesUp request && (m.perform request).takesUpNone rest

theorem runWithin_of_idle (control : m.control = none) (budget : Option Nat) :
    (m.runWithin budget).1.failure? = none ∧ (m.runWithin budget).2 = m := by
  have ended : m.advance = .inr (.finished .undefined, m) := by
    rw [advance, step_of_idle control]
    rfl
  cases budget with
  | none =>
    rw [runWithin, runToEnd_of_inr ended]
    exact ⟨rfl, rfl⟩
  | some n =>
    cases n with
    | zero => exact ⟨rfl, rfl⟩
    | succ n =>
      rw [runWithin, run, ended]
      exact ⟨rfl, rfl⟩

section

variable (tried : m.preludePending = false)

include tried

theorem prepare_of_not_takesUp (idle : (m.prepare text).1.isOk = false) :
    ∃ failure, m.prepare text = (.error failure, m) := by
  rw [prepare_of_tried tried] at idle ⊢
  cases read : Program.read text with
  | error refusal => exact ⟨.refusal refusal, rfl⟩
  | ok p =>
    rw [read] at idle
    cases idle

/-- At rest, a request that takes up no program changes nothing. -/
theorem IsAtRest.perform (rest : m.IsAtRest) (idle : m.takesUp request = false) :
    m.perform request = m := by
  cases request with
  | prepare text =>
    obtain ⟨failure, refused⟩ := prepare_of_not_takesUp tried idle
    exact congrArg Prod.snd refused
  | step => exact congrArg Prod.snd (step_of_idle rest.control)
  | run budget => exact (runWithin_of_idle rest.control budget).2
  | eval text budget =>
    obtain ⟨failure, refused⟩ := prepare_of_not_takesUp tried idle
    show (m.eval text budget).2 = m
    rw [eval, refused]

theorem IsAtRest.foldl_perform (rest : m.IsAtRest) (idle : m.takesUpNone requests) :
    requests.foldl Machine.perform m = m := by
  induction requests with
  | nil => rfl
  | cons request later ih =>
    rw [takesUpNone, Bool.and_eq_true, Bool.not_eq_true'] at idle
    obtain ⟨first, others⟩ := idle
    rw [rest.perform tried first] at others
    rw [List.foldl_cons, rest.perform tried first]
    exact ih others

/-! ## Sessions -/

theorem prepareReturns_of_tried : m.PrepareReturns := by
  intro pending
  rw [tried] at pending
  cases pending

/-- Once the preludes were tried, an evaluation with a budget comes back. -/
theorem returns_eval (text : String) (budget : Nat) : m.Returns (.eval text (some budget)) := by
  refine ⟨prepareReturns_of_tried tried, ?_⟩
  rintro ⟨⟩

end

/-- Requests that are made one after the other all come back. -/
def ReturnsAll (m : Machine) : List Request → Prop
  | [] => True
  | request :: rest => m.Returns request ∧ (m.perform request).ReturnsAll rest

theorem Visits.foldl_perform (visited : start.Visits m) (returned : m.ReturnsAll requests) :
    start.Visits (requests.foldl Machine.perform m) := by
  induction requests generalizing m with
  | nil => exact visited
  | cons request rest ih =>
    obtain ⟨first, others⟩ := returned
    exact ih (visited.perform first) others

/-- There is a program only after the preludes were tried. -/
def TriesFirst (m : Machine) : Prop :=
  m.preludePending = true → m.control = none

theorem TriesFirst.of_tried (tried : m.preludePending = false) : m.TriesFirst := by
  intro pending
  rw [tried] at pending
  cases pending

theorem TriesFirst.runWithin (order : m.TriesFirst) (returns : m.RunReturns budget) :
    (m.runWithin budget).2.TriesFirst := by
  cases pending : m.preludePending with
  | true => rwa [(runWithin_of_idle (order pending) budget).2]
  | false =>
    obtain ⟨births, reached⟩ : m.Visits (m.runWithin budget).2 :=
      Visits.runWithin ⟨[], .refl⟩ returns
    exact .of_tried (reached.preludePending pending)

theorem TriesFirst.step (order : m.TriesFirst) : m.step.2.TriesFirst := by
  cases pending : m.preludePending with
  | true => rwa [step_of_idle (order pending)]
  | false => exact .of_tried (m.stepped.preludePending.trans pending)

theorem preludePending_eval (returns : m.Returns (.eval text budget)) :
    (m.eval text budget).2.preludePending = false := by
  obtain ⟨prepares, runs⟩ := returns
  have tried := preludePending_prepare prepares text
  unfold eval
  revert tried runs
  generalize m.prepare text = result
  obtain ⟨_ | _, m₁⟩ := result
  · exact fun _ tried => tried
  · intro runs tried
    obtain ⟨births, reached⟩ : m₁.Visits (m₁.runWithin budget).2 :=
      Visits.runWithin ⟨[], .refl⟩ runs
    exact reached.preludePending tried

/-- No request breaks the order of preludes and programs. -/
theorem TriesFirst.perform (order : m.TriesFirst) (returns : m.Returns request) :
    (m.perform request).TriesFirst := by
  cases request with
  | prepare text => exact .of_tried (preludePending_prepare returns text)
  | step => exact order.step
  | run budget => exact order.runWithin returns
  | eval text budget => exact .of_tried (preludePending_eval returns)

theorem TriesFirst.foldl_perform (order : m.TriesFirst) (returned : m.ReturnsAll requests) :
    (requests.foldl Machine.perform m).TriesFirst := by
  induction requests generalizing m with
  | nil => exact order
  | cons request rest ih =>
    obtain ⟨first, others⟩ := returned
    exact ih (order.perform first) others

/-- After a request that failed, the preludes are not tried any more. -/
theorem TriesFirst.tried_of_failure (order : m.TriesFirst) (returns : m.Returns request)
    (failed : m.failure? request = some failure) : (m.perform request).preludePending = false := by
  cases pending : m.preludePending with
  | false =>
    obtain ⟨births, reached⟩ : m.Visits (m.perform request) := Visits.perform ⟨[], .refl⟩ returns
    exact reached.preludePending pending
  | true =>
    cases request with
    | prepare text => exact preludePending_prepare returns text
    | eval text budget => exact preludePending_eval returns
    | step =>
      -- there is no program that could fail
      rw [failure?, step_of_idle (order pending)] at failed
      cases failed
    | run budget =>
      rw [failure?, (runWithin_of_idle (order pending) budget).1] at failed
      cases failed

/-- **A session survives its failures.**  Some requests were made of a new machine and came
    back.  The session so far is a history of steps, and for every such history the scopes
    that outlive their programs are nested, each directly inside of the one before it.  The
    first one is the scope of the builtin names, which has nothing around it; the last one is
    that of the program started last; and there is one for each program that made its first
    step.

    Any step that fails leaves the machine at rest, and records the fault if it is one.  So
    does a request that fails in a program, and after it nothing changes, whatever is
    requested, until a program is taken up. -/
theorem session_survives_failures {settings : Settings} {table : Table} {world : World}
    (returned : (Machine.new settings table world).ReturnsAll requests) :
    let start := Machine.new settings table world
    let m := requests.foldl perform start
    (∃ past, start.Passes past m) ∧
    (∀ past s, start.Passes past s →
      let programs := past.filter startsProgram
      let chain := s.outers
      s.outer = (programs.map (⟨·.world.heap.scopes.size⟩)).reverse ++ [⟨world.heap.scopes.size⟩] ∧
      chain.length = programs.length + 1 ∧
      chain[0]? = some start.env ∧ start.env.tail = [] ∧ chain.getLast? = some s.outer ∧
      ∀ i e, chain[i + 1]? = some e → chain[i]? = some e.tail) ∧
    (∀ (s : Machine) failure, s.step.1 = .failed failure →
      s.step.2.IsAtRest ∧ s.step.2.faults.toList = s.faults.toList ++ failure.recorded ∧
        failure.isAbort ∧ s.step.2.step = (.idle, s.step.2)) ∧
    ∀ request failure, m.Returns request → m.failure? request = some failure →
      (m.perform request).faults.toList = m.faults.toList ++ failure.recorded ∧
      (failure.isAbort → (m.perform request).IsAtRest ∧
        ∀ later, (m.perform request).takesUpNone later →
          later.foldl perform (m.perform request) = m.perform request ∧
            (m.perform request).step = (.idle, m.perform request)) := by
  intro start m
  refine ⟨?_, ?_, ?_, ?_⟩
  · obtain ⟨births, reached⟩ : start.Visits m := Visits.foldl_perform ⟨[], .refl⟩ returned
    obtain ⟨past, -, passed⟩ := Passes.of_reaches reached
    exact ⟨past, passed⟩
  · intro past s passed programs chain
    have outer : s.outer = (programs.map (⟨·.world.heap.scopes.size⟩)).reverse ++
        [⟨world.heap.scopes.size⟩] := passed.outer_eq
    have count : s.outer.length = programs.length + 1 := by simp [outer]
    have nested : chain = Env.chain s.outer := passed.outers_eq_chain rfl
    rw [nested]
    refine ⟨outer, (Env.length_chain _).trans count, ?_, rfl, ?_, fun i e => Env.chain_nested⟩
    · rw [Env.getElem?_chain (by omega), outer]
      simp
      rfl
    · rw [List.getLast?_eq_getElem?, Env.length_chain, Env.getElem?_chain (by omega)]
      simp
  · intro s failure failed
    have left := Leaves.of_step s
    rw [failed] at left
    have abort := Leaves.isAbort_of_step failed
    have rest := left.rest failure rfl abort
    exact ⟨rest, left.faults, abort, step_of_idle rest.control⟩
  · intro request failure returns failed
    have order : m.TriesFirst := TriesFirst.foldl_perform (fun _ => rfl) returned
    have left := Leaves.of_perform returns
    rw [failed] at left
    refine ⟨left.faults, fun abort => ?_⟩
    have rest := left.rest failure rfl abort
    have tried := order.tried_of_failure returns failed
    exact ⟨rest, fun later idle => ⟨rest.foldl_perform tried idle, step_of_idle rest.control⟩⟩

/-- The same for a program that calls what is no function, after one that declared it. -/
theorem session_survives_failures_of_call :
    let start := Machine.new { maxDepth := 40, prelude := false } Table.standard {}
    let m := start.perform (.eval "const x = true;" (some 20))
    let after := m.perform (.eval "x(x);" (some 20))
    (∃ past, start.Passes past m ∧ (past.filter startsProgram).length = 1) ∧
      (m.failure? (.eval "x(x);" (some 20))).isSome ∧ after.IsAtRest ∧
      [.step, .prepare "const", .run (some 7), .eval "x(" none].foldl perform after = after := by
  intro start m after
  have first : start.Returns (.eval "const x = true;" (some 20)) := returns_eval rfl _ _
  have second : m.Returns (.eval "x(x);" (some 20)) := returns_eval (preludePending_eval first) _ _
  obtain ⟨⟨past, passed⟩, nested, -, failing⟩ := session_survives_failures (show
    start.ReturnsAll [.eval "const x = true;" (some 20)] from ⟨first, trivial⟩)
  obtain ⟨failure, failed, abort⟩ : ∃ failure ∈ m.failure? (.eval "x(x);" (some 20)),
    failure.isAbort := by decide +kernel
  obtain ⟨-, count, -⟩ := nested past m passed
  obtain ⟨-, rests⟩ := failing _ failure second failed
  obtain ⟨rest, still⟩ := rests abort
  refine ⟨⟨past, passed, ?_⟩, by rw [failed]; rfl, rest, (still _ (by decide +kernel)).1⟩
  have two : m.outers.length = 2 := by decide +kernel
  rw [two] at count
  omega

end Machine

end SourceMachine
