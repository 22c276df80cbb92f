import SourceMachine.Proofs.Evaluator.Correctness
import SourceMachine.Proofs.Machine.Declarations
import SourceMachine.Proofs.Machine.Frames

/-!
# After a program that failed

The scope of a program stays for the programs after it, from the first step of the program
on.  So it stays, too, when the program fails, with the names that were hoisted into it.  A
name whose declaration was not reached has no value there, and hides the value that it had
before.

Nothing else is lost.  In the scopes that were there before, a name with a value keeps having
one, and a name that is not there can only come with a value (`Passes.get_ok`).  So after a
program that failed, the program that consists of one name still has a value if it had one
before, unless the failed program declares this very name and did not get to its
declaration.
-/

namespace SourceMachine

variable {v : Value} {m : Machine} {x : Identifier} {p q : Program} {span : Span} {text : String}

/-- The value of a run. -/
def Outcome.value? : Outcome → Option Value
  | .finished v => some v
  | .failed _ | .suspended => none

theorem Outcome.eq_finished {outcome : Outcome} (finished : outcome.value? = some v) :
    outcome = .finished v := by
  cases outcome with
  | finished => exact congrArg _ (Option.some.inj finished)
  | failed | suspended => cases finished

/-- The name that a program consists of. -/
def Program.onlyName? (p : Program) : Option Identifier :=
  match p.body with
  | [.expression (.identifier x) _] => some x
  | _ => none

theorem Program.body_of_onlyName? (only : p.onlyName? = some x) :
    ∃ span, p.body = [.expression (.identifier x) span] := by
  rw [onlyName?] at only
  split at only
  · next y span body =>
    cases only
    exact ⟨span, body⟩
  · cases only

/-! ## Names that keep having values -/

namespace Heap

theorem get_cons_of_none {h : Heap} {id : ScopeId} (absent : h.slot? id x.name = none)
    (outer : Env) : h.get x (id :: outer) = h.get x outer := by
  rw [get, absent]

/-- A new scope hides nothing. -/
theorem get_newScope (h : Heap) (label : String) (outer : Env) (x : Identifier) :
    (h.newScope label outer).2.get x (h.newScope label outer).1 = h.get x outer := by
  refine (get_cons_of_none (slot?_newScope_next h label outer x.name) outer).trans ?_
  exact get_congr fun id _ => KeepsSlots.newScope h label outer id

end Heap

namespace Machine

/-- A name that has a value keeps having one, looked at from the same scopes. -/
theorem Passes.get_ok {start : Machine} {past : List Machine} (passed : start.Passes past m)
    {env : Env} (inside : ∀ id ∈ env, id.index < start.world.heap.scopes.size)
    (found : start.world.heap.get x env = .ok v) : ∃ w, m.world.heap.get x env = .ok w := by
  induction env with
  | nil => cases found
  | cons id outer ih =>
    have here := inside id List.mem_cons_self
    have there := ih fun id member => inside id (List.mem_cons_of_mem _ member)
    rw [Heap.get] at found ⊢
    cases slot : start.world.heap.slot? id x.name with
    | some old =>
      rw [slot] at found
      cases old with
      | unassigned => cases found
      | assigned value isMutable =>
        obtain ⟨w, isMutable', kept⟩ := passed.assigned here slot
        rw [kept]
        exact ⟨w, rfl⟩
    | none =>
      rw [slot] at found
      -- the name may have been declared in this scope since, but then it has a value
      by_cases touched : ∃ s ∈ past, s.Initializes id x.name
      · obtain ⟨s, member, initializes⟩ := touched
        obtain ⟨w, isMutable, given⟩ := passed.assigned_of_initializes here member initializes
        rw [given]
        exact ⟨w, rfl⟩
      · have absent : m.world.heap.slot? id x.name = none := by
          have bound : (m.world.heap.slot? id x.name).isSome ↔ _ := passed.isSome_slot?_iff here
          simpa [slot, touched] using bound
        rw [absent]
        exact there found

/-! ## Programs of one name -/

section Probe

variable {m : Machine} {q : Program} {x : Identifier} {span : Span}

variable (asks : q.body = [.expression (.identifier x) span])

include asks

theorem declareProgram_probe :
    m.declareProgram q = (.ok (), (m.world.heap.newScope "programEnvironment" m.outer).2) := by
  rw [declareProgram, asks]
  rfl

/-- The first two steps of a program that consists of one name. -/
theorem comes_probe (room : 1 ≤ m.maxDepth) :
    (m.load q).Comes 2 ⟨.expression (.identifier x), m.programEnv, .initial,
      m.world.withHeap (m.world.heap.newScope "programEnvironment" m.outer).2⟩ := by
  have begins := comes_load (declareProgram_probe (m := m) asks)
    (by rw [programConfig, asks]; exact room)
  rw [programConfig, asks] at begins
  exact begins.step ⟨Config.not_isFinal_statement, fun _ => rfl⟩ room

theorem run_probe_of_ok (room : 1 ≤ m.maxDepth) (found : m.world.heap.get x m.outer = .ok v) :
    ∃ m', (m.load q).run 4 = (.finished v, m') ∧
      m'.world.heap = (m.world.heap.newScope "programEnvironment" m.outer).2 := by
  have reads : (m.world.heap.newScope "programEnvironment" m.outer).2.get x m.programEnv = .ok v :=
    (Heap.get_newScope _ _ _ x).trans found
  have steps := (comes_probe asks room).step (Config.steps_identifier reads) room
  obtain ⟨m', ran⟩ := steps.finished rfl rfl
  exact ⟨_, ran, rfl⟩

theorem run_probe_of_error (room : 1 ≤ m.maxDepth) {fault : Fault}
    (missing : m.world.heap.get x m.outer = .error fault) :
    ∃ m', (m.load q).run 3 = (.failed (.fault fault), m') := by
  have reads : (m.world.heap.newScope "programEnvironment" m.outer).2.get x m.programEnv =
      .error fault := (Heap.get_newScope _ _ _ x).trans missing
  obtain ⟨m', ran, -⟩ := (comes_probe asks room).failed (Config.fails_identifier reads)
  exact ⟨m', ran⟩

end Probe

/-! ## Evaluations -/

/-- Once the preludes were tried, an evaluation is a run of the program. -/
theorem eval_of_tried (tried : m.preludePending = false) (read : Program.read text = .ok p)
    (budget : Option Nat) : m.eval text budget = (m.load p).runWithin budget := by
  rw [eval, prepare_of_tried tried, read]
  rfl

/-- An evaluation that has a value ran the program after the preludes. -/
theorem exists_of_eval_finished {m₀ : Machine} {budget : Option Nat}
    (read : Program.read text = .ok p) (returns : m₀.Returns (.eval text budget))
    (finished : m₀.eval text budget = (.finished v, m)) :
    ∃ m₁, m₀.Visits m₁ ∧ (m₁.load p).RunReturns budget ∧
      (m₁.load p).runWithin budget = (.finished v, m) := by
  obtain ⟨prepares, runs⟩ := returns
  have visited : m₀.Visits m₀.runPreludes.2 := Visits.runPreludes ⟨[], .refl⟩ prepares
  rw [prepare] at runs
  rw [eval, prepare] at finished
  generalize m₀.runPreludes = preludes at visited runs finished
  obtain ⟨failure | _, m₁⟩ := preludes
  · cases finished
  · rw [read] at runs finished
    exact ⟨m₁, visited, runs, finished⟩

/-- A program that consists of one name has a value exactly if the name has one in the scopes
    that stay. -/
theorem get_of_run_probe {m' : Machine} {n : Nat}
    (asks : q.body = [.expression (.identifier x) span])
    (ran : (m.load q).run n = (.finished v, m')) :
    1 ≤ m.maxDepth ∧ m.world.heap.get x m.outer = .ok v ∧
      m'.world.heap = (m.world.heap.newScope "programEnvironment" m.outer).2 := by
  have stopped : (m.load q).runToEnd = (.finished v, m') := (runToEnd_of_run ran (by simp)).2
  by_cases room : 1 ≤ m.maxDepth
  · cases found : m.world.heap.get x m.outer with
    | ok w =>
      obtain ⟨m₁, ran', heap⟩ := run_probe_of_ok asks room found
      cases stopped.symm.trans (runToEnd_of_run ran' (by simp)).2
      exact ⟨room, rfl, heap⟩
    | error fault =>
      obtain ⟨m₁, ran'⟩ := run_probe_of_error asks room found
      cases stopped.symm.trans (runToEnd_of_run ran' (by simp)).2
  · -- there is no room for the stack of any program
    have deep : m.maxDepth < (m.programConfig q (m.world.heap.newScope "programEnvironment"
        m.outer).2).stack.depth := by
      rw [programConfig, asks]
      exact not_le.1 room
    obtain ⟨budget, depth, overflows⟩ := overflows_load (declareProgram_probe asks) deep
    have ran' : (m.load q).run budget = (.failed (.overflow depth), ((m.load q).run budget).2) :=
      Prod.ext overflows rfl
    cases stopped.symm.trans (runToEnd_of_run ran' (by simp)).2

/-! ## Names that are hidden -/

/-- A step has entered a body and hoisted a name of it, and the declaration of the name was not
    reached by the steps since. -/
def Hides (m : Machine) (since : List Machine) (name : String) : Prop :=
  (m.step.2.world.heap.slot? ⟨m.world.heap.scopes.size⟩ name).isSome ∧
    ∀ s ∈ since, ¬s.Initializes ⟨m.world.heap.scopes.size⟩ name

section Hides

variable {m m' : Machine} {since : List Machine} {body : List Stmt} {x : Identifier} {outer : Env}

/-- A hidden name cannot be read from inside of the body. -/
theorem Hides.get_eq (hides : m.Hides since x.name) (entering : m.entering? = some body)
    (passed : m.step.2.Passes since m') (outer : Env) :
    m'.world.heap.get x (⟨m.world.heap.scopes.size⟩ :: outer) =
      .error ⟨.unassigned x.name, x.span⟩ := by
  obtain ⟨hoisted, untouched⟩ := hides
  obtain ⟨slot, found⟩ := Option.isSome_iff_exists.1 hoisted
  obtain rfl := unassigned_of_entering entering found
  have inside : (⟨m.world.heap.scopes.size⟩ : ScopeId).index < m.step.2.world.heap.scopes.size :=
    lt_size_of_entering entering
  obtain ⟨slot, found', iff⟩ := passed.unassigned_iff inside found
  rw [Heap.get, found', iff.2 untouched]

/-- A name that is not hidden can be read if it can be read from outside. -/
theorem get_ok_of_not_hides (visible : ¬m.Hides since x.name) (entering : m.entering? = some body)
    (passed : m.step.2.Passes since m') (outside : m'.world.heap.get x outer = .ok v) :
    ∃ w, m'.world.heap.get x (⟨m.world.heap.scopes.size⟩ :: outer) = .ok w := by
  have inside : (⟨m.world.heap.scopes.size⟩ : ScopeId).index < m.step.2.world.heap.scopes.size :=
    lt_size_of_entering entering
  by_cases touched : ∃ s ∈ since, s.Initializes ⟨m.world.heap.scopes.size⟩ x.name
  · obtain ⟨s, member, initializes⟩ := touched
    obtain ⟨w, isMutable, given⟩ := passed.assigned_of_initializes inside member initializes
    rw [Heap.get, given]
    exact ⟨w, rfl⟩
  · have untouched : ∀ s ∈ since, ¬s.Initializes ⟨m.world.heap.scopes.size⟩ x.name := by
      simpa using touched
    have absent : m'.world.heap.slot? ⟨m.world.heap.scopes.size⟩ x.name = none := by
      rw [← Option.not_isSome_iff_eq_none, passed.isSome_slot?_iff inside]
      rintro (hoisted | declared)
      · exact visible ⟨hoisted, untouched⟩
      · exact touched declared
    exact ⟨v, (Heap.get_cons_of_none absent outer).trans outside⟩

end Hides

/-- What the program of one name comes to, by what the name is in the scopes that stay. -/
theorem eval_probe {probe : String} (tried : m.preludePending = false) (room : 1 ≤ m.maxDepth)
    (read : Program.read probe = .ok q) (asks : q.body = [.expression (.identifier x) span]) :
    m.Returns (.eval probe none) ∧
      (∀ v, m.world.heap.get x m.outer = .ok v → (m.eval probe none).1 = .finished v) ∧
      ∀ fault, m.world.heap.get x m.outer = .error fault →
        (m.eval probe none).1 = .failed (.fault fault) := by
  have returns (ends : (m.load q).Ends) : m.Returns (.eval probe none) := by
    refine ⟨prepareReturns_of_tried tried, fun _ => ?_⟩
    rw [prepare_of_tried tried, read]
    exact ends
  rw [eval_of_tried tried read]
  cases found : m.world.heap.get x m.outer with
  | ok v =>
    obtain ⟨m', ran, -⟩ := run_probe_of_ok asks room found
    obtain ⟨ends, ended⟩ := runToEnd_of_run ran (by simp)
    refine ⟨returns ends, ?_, ?_⟩
    · rintro w ⟨⟩
      exact congrArg Prod.fst ended
    · rintro fault ⟨⟩
  | error fault =>
    obtain ⟨m', ran⟩ := run_probe_of_error asks room found
    obtain ⟨ends, ended⟩ := runToEnd_of_run ran (by simp)
    refine ⟨returns ends, ?_, ?_⟩
    · rintro w ⟨⟩
    · rintro fault ⟨⟩
      exact congrArg Prod.fst ended

section Session

variable {settings : Settings} {table : Table} {world : World} {before : List Birth}
  {m₀ m m' : Machine} {probe text : String} {budget : Option Nat} {q : Program} {x : Identifier}
  {span : Span} {v : Value} {failure : Failure}

variable (left : world.heap.IsLeft (fun _ _ => True) before)

include left

/-- A session on what earlier ones left behind finds no frame that leads to a program. -/
theorem startsNone_of_visits (visited : (Machine.new settings table world).Visits m) :
    m.AllFrames Frame.StartsNone := by
  obtain ⟨births, reached⟩ := visited
  exact reached.startsNone (startsNone_new settings table (startsNone_of_isLeft left))

theorem outer_inside (visited : (Machine.new settings table world).Visits m) :
    ∀ id ∈ m.outer, id.index < m.world.heap.scopes.size := by
  obtain ⟨births, reached⟩ := visited
  have lexical := (isLexical_new settings table (isLexical_of_isLeft left)).reaches reached
  intro id member
  rw [← lexical.heap.length_eq]
  exact lexical.outer.lt_length id member

/-- After the program of one name was evaluated, the name has its value in the scopes that
    stay. -/
theorem get_of_eval_probe (visited : (Machine.new settings table world).Visits m₀)
    (read : Program.read probe = .ok q) (asks : q.body = [.expression (.identifier x) span])
    (returns : m₀.Returns (.eval probe budget))
    (evaluated : m₀.eval probe budget = (.finished v, m)) :
    (Machine.new settings table world).Visits m ∧ m.preludePending = false ∧ 1 ≤ m.maxDepth ∧
      m.world.heap.get x m.outer = .ok v := by
  have visited' : m₀.Visits (m₀.perform (.eval probe budget)) := Visits.perform ⟨[], .refl⟩ returns
  rw [show m₀.perform (.eval probe budget) = m from congrArg Prod.snd evaluated] at visited'
  have tried := preludePending_eval returns
  rw [evaluated] at tried
  obtain ⟨m₁, visited₁, runs, ran⟩ := exists_of_eval_finished read returns evaluated
  obtain ⟨n, same⟩ := exists_run runs
  rw [ran] at same
  obtain ⟨room, found, heap⟩ := get_of_run_probe asks same
  obtain ⟨k, j, rfl, -⟩ := exists_run_step same (by simp)
  have outer := run_load_outer (startsNone_of_visits left (visited.trans visited₁)).heap q k
  rw [same] at outer
  have limit : m.maxDepth = m₁.maxDepth := by
    obtain ⟨births, reached⟩ : (m₁.load q).Visits ((m₁.load q).run (k + 1)).2 :=
      Visits.run ⟨[], .refl⟩ _
    rw [same] at reached
    exact reached.maxDepth
  refine ⟨visited.trans visited', tried, limit ▸ room, ?_⟩
  rw [heap, show m.outer = _ from outer]
  exact (Heap.get_newScope _ _ _ x).trans found

/-- A program that was evaluated and failed has made its scope, and all else that it did is in
    the steps after that. -/
theorem exists_of_eval_aborted (visited : (Machine.new settings table world).Visits m)
    (tried : m.preludePending = false) (returns : m.Returns (.eval text budget))
    (aborted : m.eval text budget = (.failed failure, m')) (abort : failure.isAbort) :
    ∃ p since, Program.read text = .ok p ∧ (m.load p).step.2.Passes since m' ∧
      m'.outer = ⟨m.world.heap.scopes.size⟩ :: m.outer := by
  cases read : Program.read text with
  | error refusal =>
    -- a text that is no program fails without one
    rw [eval, prepare_of_tried tried, read] at aborted
    cases aborted
    cases abort
  | ok p =>
    have runs : (m.load p).RunReturns budget := by
      have prepared := returns.2
      rw [prepare_of_tried tried, read] at prepared
      exact prepared
    rw [eval_of_tried tried read] at aborted
    obtain ⟨n, same⟩ := exists_run runs
    rw [aborted] at same
    obtain ⟨k, j, rfl, after⟩ := exists_run_step same (by simp)
    obtain ⟨births, reached⟩ : (m.load p).step.2.Visits ((m.load p).step.2.run j).2 :=
      Visits.run ⟨[], .refl⟩ j
    obtain ⟨since, -, passed⟩ := Passes.of_reaches reached
    have outer := run_load_outer (startsNone_of_visits left visited).heap p k
    rw [same] at outer
    exact ⟨p, since, rfl, after ▸ passed, outer⟩

end Session

/-- **What a program that failed hides.**  In a session on a heap that earlier sessions left
    behind, the program that consists of one name was evaluated and has a value.  Then another
    program was evaluated and failed.

    If the failed program has hoisted this name and did not get to its declaration, then the
    name is one that a statement of the program declares, and evaluating it again fails,
    because the name has no value yet.  In all other cases evaluating it again gives a
    value. -/
theorem aborted_program_hides {settings : Settings} {table : Table} {world : World}
    {before : List Birth} {m₀ m' : Machine} {probe : String} {budget₀ budget : Option Nat}
    {failure : Failure}
    (left : world.heap.IsLeft (fun _ _ => True) before)
    (visited : (Machine.new settings table world).Visits m₀)
    (read : Program.read probe = .ok q) (only : q.onlyName? = some x)
    (returns₀ : m₀.Returns (.eval probe budget₀))
    (evaluated : m₀.eval probe budget₀ = (.finished v, m))
    (returns : m.Returns (.eval text budget))
    (aborted : m.eval text budget = (.failed failure, m')) (abort : failure.isAbort) :
    ∃ p since, Program.read text = .ok p ∧ (m.load p).step.2.Passes since m' ∧
      m'.Returns (.eval probe none) ∧
      ((m.load p).Hides since x.name → x.name ∈ declaredNames p.body ∧
        (m'.eval probe none).1 = .failed (.fault ⟨.unassigned x.name, x.span⟩)) ∧
      (¬(m.load p).Hides since x.name → ∃ w, (m'.eval probe none).1 = .finished w) := by
  obtain ⟨span, asks⟩ := Program.body_of_onlyName? only
  obtain ⟨visited', tried, room, found⟩ :=
    get_of_eval_probe left visited read asks returns₀ evaluated
  obtain ⟨p, since, isProgram, passed, outer⟩ :=
    exists_of_eval_aborted left visited' tried returns aborted abort
  have tried' : m'.preludePending = false := by
    have evals := preludePending_eval returns
    rw [aborted] at evals
    exact evals
  have limit : m'.maxDepth = m.maxDepth :=
    passed.reaches.maxDepth.trans (m.load p).stepped.maxDepth
  -- in the scopes before, the name has kept a value
  have whole : (m.load p).Passes (m.load p :: since) m' := (Passes.step .refl).trans passed
  have inside : ∀ id ∈ m.outer, id.index < (m.load p).world.heap.scopes.size :=
    outer_inside left visited'
  obtain ⟨w, kept⟩ := whole.get_ok inside found
  have entering : (m.load p).entering? = some p.body := rfl
  obtain ⟨returns', hasValue, hasNone⟩ := eval_probe tried' (limit ▸ room) read asks
  rw [outer] at hasValue hasNone
  refine ⟨p, since, isProgram, passed, returns', fun hides => ⟨?_, ?_⟩, fun visible => ?_⟩
  · exact (slot?_of_entering entering).1 hides.1
  · exact hasNone _ (hides.get_eq entering passed m.outer)
  · obtain ⟨u, given⟩ := get_ok_of_not_hides visible entering passed kept
    exact ⟨u, hasValue u given⟩

/-- The same for a program that fails after it has used the name. -/
theorem aborted_program_hides_of_other_name :
    let start := Machine.new { maxDepth := 40, prelude := false } Table.standard {}
    let m₀ := start.perform (.eval "const x = true;" (some 20))
    let m := m₀.perform (.eval "x;" (some 20))
    let m' := m.perform (.eval "const y = x; nope;" (some 20))
    (m₀.eval "x;" (some 20)).1.value? = some (.boolean true) ∧
      (∃ failure ∈ (m.eval "const y = x; nope;" (some 20)).1.failure?, failure.isAbort) ∧
      ∃ w, (m'.eval "x;" none).1 = .finished w := by
  intro start m₀ m m'
  have first : start.Returns (.eval "const x = true;" (some 20)) := returns_eval rfl _ _
  have visited : start.Visits m₀ := Visits.perform ⟨[], .refl⟩ first
  have second : m₀.Returns (.eval "x;" (some 20)) := returns_eval (preludePending_eval first) _ _
  have third : m.Returns (.eval "const y = x; nope;" (some 20)) :=
    returns_eval (preludePending_eval second) _ _
  have value : (m₀.eval "x;" (some 20)).1.value? = some (.boolean true) := by decide +kernel
  obtain ⟨failure, failed, abort⟩ : ∃ failure ∈ (m.eval "const y = x; nope;" (some 20)).1.failure?,
    failure.isAbort := by decide +kernel
  obtain ⟨q, read, x, only, named⟩ := Program.exists_read (by decide +kernel :
    ∃ q ∈ (Program.read "x;").toOption, ∃ x ∈ q.onlyName?, x.name = "x")
  obtain ⟨p, isProgram, names⟩ := Program.exists_read (by decide +kernel :
    ∃ p ∈ (Program.read "const y = x; nope;").toOption, declaredNames p.body = ["y"])
  have evaluated : m₀.eval "x;" (some 20) = (.finished (.boolean true), m) :=
    Prod.ext (Outcome.eq_finished value) rfl
  have aborted : m.eval "const y = x; nope;" (some 20) = (.failed failure, m') :=
    Prod.ext (Outcome.eq_failed failed) rfl
  obtain ⟨p', since, isProgram', -, -, hidden, visible⟩ := aborted_program_hides
    (.blank rfl rfl rfl rfl) visited read only second evaluated third aborted abort
  obtain rfl : p = p' := Except.ok.inj (isProgram.symm.trans isProgram')
  refine ⟨value, ⟨failure, failed, abort⟩, visible fun hides => ?_⟩
  have declared := (hidden hides).1
  simp [names, named] at declared

/-- A declaration that was not reached hides the value that a name had before. -/
theorem value_hidden_by_aborted_program :
    let start := Machine.new { maxDepth := 40, prelude := false } Table.standard {}
    let m₀ := start.perform (.eval "const x = true;" (some 20))
    let m := m₀.perform (.eval "x;" (some 20))
    let m' := m.perform (.eval "nope; const x = false;" (some 20))
    (m₀.eval "x;" (some 20)).1.value? = some (.boolean true) ∧
      (∃ failure ∈ (m.eval "nope; const x = false;" (some 20)).1.failure?, failure.isAbort) ∧
      (m'.perform (.eval "x;" (some 20))).faults.toList.map (·.cause) =
        [.undeclared "nope", .unassigned "x"] := by
  decide +kernel

end Machine

end SourceMachine
