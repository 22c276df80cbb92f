import SourceMachine.Proofs.Session.Reaches

/-!
# Configurations

A transition reads and changes the three registers and the world, and nothing else of the
machine; only the first transition of a program is different.  `Config` is this part of
the machine, `Steps` and `Fails` are what a transition makes of it in every machine, and
`Goes` counts transitions one after the other.

The depth of the stack is a matter of the machine.  One with enough room for all the
stacks on the way makes the steps (`Goes.comes`), and any other one overflows on the way
(`Comes.goes`).
-/

namespace SourceMachine

variable {fault : Fault} {m m' : Machine} {x y : Config} {env : Env} {stack : Stack} {w w' : World}
  {alternate consequent : Control} {budget : Nat} {g : Native} {outcome : Outcome}

/-- The registers of a machine and its world. -/
structure Config where
  control : Control
  env : Env
  stack : Stack
  world : World

namespace Machine

/-- The machine with other scopes, another stack and another world. -/
def placed (m : Machine) (x : Config) : Machine :=
  { m with env := x.env, stack := x.stack, world := x.world }

/-- The machine in a configuration. -/
def holding (m : Machine) (x : Config) : Machine :=
  { m.placed x with control := some x.control }

/-- The machine is about to apply a control operator. -/
def AppliesControl (m : Machine) : Prop :=
  ∃ (v f : Value) (args : List Value) (span : Span) (env : Env) (rest : Stack) (op : ControlOp),
    m.control = some (.value v) ∧ m.stack = rest.push (.apply f args span env) ∧
      m.world.heap.callee? f = some (.builtin (.control op)) ∧
      (Primitive.control op).arity.accepts args.length = true

end Machine

namespace Config

/-- The program has its value. -/
def IsFinal (x : Config) : Prop :=
  (∃ v, x.control = .value v) ∧ x.stack.top? = some .halt

theorem not_isFinal_statement {s : Stmt} : ¬(Config.mk (.statement s) env stack w).IsFinal := by
  rintro ⟨⟨v, same⟩, -⟩
  cases same

theorem not_isFinal_expression {e : Expr} : ¬(Config.mk (.expression e) env stack w).IsFinal := by
  rintro ⟨⟨v, same⟩, -⟩
  cases same

theorem not_isFinal_push {c : Control} {frame : Frame} (notHalt : frame ≠ .halt) :
    ¬(Config.mk c env (stack.push frame) w).IsFinal := by
  rintro ⟨-, top⟩
  exact notHalt (Option.some.inj top)

/-- A transition from one configuration to another. -/
structure Steps (x y : Config) : Prop where
  notFinal : ¬x.IsFinal
  transition : ∀ m : Machine, (m.placed x).transition x.control = (.ok y.control, m.placed y)

/-- A transition that fails, and leaves some configuration behind. -/
structure Fails (x : Config) (fault : Fault) (y : Config) : Prop where
  notFinal : ¬x.IsFinal
  transition : ∀ m : Machine, (m.placed x).transition x.control = (.error fault, m.placed y)

/-- Transitions one after the other, and how many. -/
inductive Goes : Nat → Config → Config → Prop where
  | refl (x : Config) : Goes 0 x x
  | step {count : Nat} {x y z : Config} (first : x.Steps y) (more : Goes count y z) :
      Goes (count + 1) x z

theorem Goes.trans {a b : Nat} {z : Config} (first : Goes a x y) (second : Goes b y z) :
    Goes (a + b) x z := by
  induction first with
  | refl x =>
    rw [Nat.zero_add]
    exact second
  | @step count x y z step _ ih =>
    rw [Nat.add_right_comm]
    exact .step step (ih second)

/-- Room for a deep stack is room for one that is less deep. -/
theorem fits (n : Nat) {depth more limit : Nat} (space : depth + (more + n) ≤ limit) :
    depth + n ≤ limit := by
  omega

/-! ## Some transitions -/

section

variable {v f : Value} {inner env : Env} {stack : Stack} {w : World} {span : Span}
  {args : List Value}

theorem steps_block {b : Block} {h : Heap}
    (declared : (w.heap.newScope "blockEnvironment" env).2.hoist
      (w.heap.newScope "blockEnvironment" env).1 b.body = (.ok (), h)) :
    Steps ⟨.statement (.block b), env, stack, w⟩
      ⟨.ofBody b.body, (w.heap.newScope "blockEnvironment" env).1,
        stack.pushAll (w.heap.newScope "blockEnvironment" env).1 b.body.tail,
        { w with heap := h }⟩ := by
  refine ⟨not_isFinal_statement, fun m => ?_⟩
  simp only [Machine.transition, Machine.execute, Machine.enterBlock, Machine.schedule,
    Machine.onHeap, Machine.placed, declared]
  cases b.body <;> rfl

theorem fails_block {b : Block} {h : Heap} (clash : (w.heap.newScope "blockEnvironment" env).2.hoist
      (w.heap.newScope "blockEnvironment" env).1 b.body = (.error fault, h)) :
    Fails ⟨.statement (.block b), env, stack, w⟩ fault
      ⟨.statement (.block b), env, stack, { w with heap := h }⟩ := by
  refine ⟨not_isFinal_statement, fun m => ?_⟩
  simp only [Machine.transition, Machine.execute, Machine.enterBlock, Machine.schedule,
    Machine.onHeap, Machine.placed, clash]

theorem steps_identifier {id : Identifier} (found : w.heap.get id env = .ok v) :
    Steps ⟨.expression (.identifier id), env, stack, w⟩ ⟨.value v, env, stack, w⟩ := by
  refine ⟨not_isFinal_expression, fun m => ?_⟩
  simp only [Machine.transition, Machine.evaluate, Machine.placed, found]

theorem fails_identifier {id : Identifier} (missing : w.heap.get id env = .error fault) :
    Fails ⟨.expression (.identifier id), env, stack, w⟩ fault
      ⟨.expression (.identifier id), env, stack, w⟩ := by
  refine ⟨not_isFinal_expression, fun m => ?_⟩
  simp only [Machine.transition, Machine.evaluate, Machine.placed, missing]

/-- A value goes to the frame on top. -/
theorem transition_push (m : Machine) {frame : Frame} :
    (m.placed ⟨.value v, inner, stack.push frame, w⟩).transition (.value v) =
      ((m.placed ⟨.value v, inner, stack.push frame, w⟩).popped frame stack).give frame v :=
  rfl

theorem steps_branch {b : Bool} (decided : v.condition span = .ok b) :
    Steps ⟨.value v, inner, stack.push (.branch consequent alternate span env), w⟩
      ⟨if b then consequent else alternate, env, stack, w⟩ := by
  refine ⟨not_isFinal_push nofun, fun m => (transition_push m).trans ?_⟩
  simp only [Machine.give, decided]
  rfl

theorem fails_branch (undecided : v.condition span = .error fault) :
    Fails ⟨.value v, inner, stack.push (.branch consequent alternate span env), w⟩ fault
      ⟨.value v, env, stack, w⟩ := by
  refine ⟨not_isFinal_push nofun, fun m => (transition_push m).trans ?_⟩
  simp only [Machine.give, undecided]
  rfl

theorem transition_apply (m : Machine) :
    (m.placed ⟨.value v, inner, stack.push (.apply f args span env), w⟩).transition (.value v) =
      (m.placed ⟨.value v, env, stack, w⟩).call f args span :=
  rfl

theorem fails_notCallable (leads : w.heap.callee? f = none) :
    Fails ⟨.value v, inner, stack.push (.apply f args span env), w⟩
      ⟨.notCallable (f.text w.heap), span⟩ ⟨.value v, env, stack, w⟩ := by
  refine ⟨not_isFinal_push nofun, fun m => (transition_apply m).trans ?_⟩
  simp only [Machine.call, Machine.placed, leads]

theorem fails_argumentCount {callee : Callee} (leads : w.heap.callee? f = some callee)
    (counted : callee.arity.check args.length span = .error fault) :
    Fails ⟨.value v, inner, stack.push (.apply f args span env), w⟩ fault
      ⟨.value v, env, stack, w⟩ := by
  refine ⟨not_isFinal_push nofun, fun m => (transition_apply m).trans ?_⟩
  simp only [Machine.call, Machine.placed, leads, counted]

/-- A call of a closure goes on with its body, in a new scope. -/
theorem steps_closure {c : Closure} (leads : w.heap.callee? f = some (.closure c))
    (counted : (Callee.closure c).arity.check args.length span = .ok ()) :
    Steps ⟨.value v, inner, stack.push (.apply f args span env), w⟩
      ⟨.statement (.block c.function.body), ⟨w.heap.scopes.size⟩ :: c.env, stack,
        { w with heap := (w.heap.enterCall c args ⟨.undelimited, env, stack⟩).2 }⟩ := by
  refine ⟨not_isFinal_push nofun, fun m => (transition_apply m).trans ?_⟩
  simp only [Machine.call, Machine.placed, leads, counted]
  rfl

section

variable (leads : w.heap.callee? f = some (.builtin (.native g)))
  (counted : (Callee.builtin (.native g)).arity.check args.length span = .ok ())

include leads counted

theorem steps_native {u : Value} (called : g.call args w = (.ok u, w')) :
    Steps ⟨.value v, inner, stack.push (.apply f args span env), w⟩ ⟨.value u, env, stack, w'⟩ := by
  refine ⟨not_isFinal_push nofun, fun m => (transition_apply m).trans ?_⟩
  simp only [Machine.call, Machine.placed, leads, counted, Machine.callNative,
    called]

theorem fails_native {complaint : Complaint} (called : g.call args w = (.error complaint, w')) :
    Fails ⟨.value v, inner, stack.push (.apply f args span env), w⟩
      ((Fault.ofNative g.name complaint).at span) ⟨.value v, env, stack, w'⟩ := by
  refine ⟨not_isFinal_push nofun, fun m => (transition_apply m).trans ?_⟩
  simp only [Machine.call, Machine.placed, leads, counted, Machine.callNative,
    called]

end

/-- A captured stack goes on with the value that it is given. -/
theorem steps_resume {k : Captured} (leads : w.heap.callee? f = some (.continuation k))
    (counted : (Callee.continuation k).arity.check args.length span = .ok ()) :
    Steps ⟨.value v, inner, stack.push (.apply f args span env), w⟩
      ⟨.value (argument args 0), k.env,
        match k.kind with
        | .undelimited => k.stack
        | .delimited => stack.splice k.stack, w⟩ := by
  refine ⟨not_isFinal_push nofun, fun m => (transition_apply m).trans ?_⟩
  simp only [Machine.call, Machine.placed, leads, counted]
  rfl

/-- The configuration goes on with a call from one of its arguments on. -/
structure AsksFrom (env : Env) (stack : Stack) (w : World) (f : Value) (span : Span)
    (args : List Expr) (next : Nat) (evaluated : List Value) (x : Config) : Prop where
  notFinal : ¬x.IsFinal
  moves : ∀ m : Machine, (m.placed x).transition x.control =
    (m.placed ⟨x.control, env, stack, w⟩).nextArgument args next evaluated f span env

namespace AsksFrom

variable {args : List Expr} {next : Nat} {evaluated : List Value}

theorem callee :
    AsksFrom env stack w v span args 0 []
      ⟨.value v, inner, stack.push (.callee args span env), w⟩ :=
  ⟨not_isFinal_push nofun, fun _ => rfl⟩

theorem argument : AsksFrom env stack w f span args next (v :: evaluated)
    ⟨.value v, inner, stack.push (.argument args next evaluated f span env), w⟩ :=
  ⟨not_isFinal_push nofun, fun _ => rfl⟩

/-- The next argument is evaluated. -/
theorem steps {e : Expr} (asks : AsksFrom env stack w f span args next evaluated x)
    (there : args[next]? = some e) :
    x.Steps
      ⟨.expression e, env, stack.push (.argument args (next + 1) evaluated f span env), w⟩ := by
  refine ⟨asks.notFinal, fun m => (asks.moves m).trans ?_⟩
  rw [Machine.nextArgument, there]
  rfl

/-- After the last argument the call is made. -/
theorem applies (asks : AsksFrom env stack w f span args next evaluated x)
    (last : args[next]? = none) :
    x.Steps ⟨.value f, env, stack.push (.apply f evaluated.reverse span env), w⟩ := by
  refine ⟨asks.notFinal, fun m => (asks.moves m).trans ?_⟩
  rw [Machine.nextArgument, last]
  rfl

end AsksFrom

end

end Config

/-! ## Runs through configurations -/

namespace Machine

/-- After so many steps a run is in a configuration. -/
def Comes (m : Machine) (count : Nat) (x : Config) : Prop :=
  ∃ m' : Machine, m'.maxDepth = m.maxDepth ∧
    ∀ budget, m.run (count + budget) = (m'.holding x).run budget

/-- A run has no room for its stack. -/
def Overflows (m : Machine) : Prop :=
  ∃ budget depth, (m.run budget).1 = .failed (.overflow depth)

theorem final?_of_not_isFinal (notFinal : ¬x.IsFinal) (m : Machine) :
    (m.holding x).final? = none := by
  cases final : (m.holding x).final? with
  | none => rfl
  | some v =>
    obtain ⟨control, top⟩ := final?_eq_some.1 final
    exact absurd ⟨⟨v, Option.some.inj control⟩, top⟩ notFinal

/-- A machine that holds a configuration makes the transition from it. -/
theorem step_of_steps (steps : x.Steps y) (m : Machine) :
    (m.holding x).step = (m.ticked.placed y).settle y.control := by
  have moved : (m.holding x).ticked.transition x.control = _ :=
    steps.transition { m.ticked with control := some x.control }
  rw [step_of_transition rfl (final?_of_not_isFinal steps.notFinal m), moved]
  rfl

theorem step_of_fails (fails : x.Fails fault y) (m : Machine) :
    ∃ m', (m.holding x).step = (.failed (.fault fault), m') ∧ m'.world = y.world := by
  have failed : (m.holding x).ticked.transition x.control = _ :=
    fails.transition { m.ticked with control := some x.control }
  refine ⟨({ m.ticked with control := some x.control }.placed y).raise fault, ?_, rfl⟩
  rw [step_of_transition rfl (final?_of_not_isFinal fails.notFinal m), failed]

theorem run_of_proceeded (proceeded : m.step = (.proceeded, m')) (budget : Nat) :
    m.run (budget + 1) = m'.run budget := by
  rw [run, advance, proceeded]
  rfl

theorem run_of_ended {progress : Progress} (stepped : m.step = (progress, m'))
    (ended : progress.outcome? = some outcome) (budget : Nat) :
    m.run (budget + 1) = (outcome, m') := by
  rw [run, advance, stepped]
  dsimp only
  rw [ended]

/-- A run that has ended stays as it is. -/
theorem run_of_le {more : Nat} (ended : (m.run budget).1 ≠ .suspended) (le : budget ≤ more) :
    m.run more = m.run budget := by
  induction budget generalizing m more with
  | zero => exact absurd rfl ended
  | succ budget ih =>
    obtain ⟨more, rfl⟩ : ∃ n, more = n + 1 := ⟨more - 1, by omega⟩
    rw [run] at ended
    rw [run, run]
    cases advanced : m.advance with
    | inl m' =>
      rw [advanced] at ended
      exact ih ended (Nat.le_of_succ_le_succ le)
    | inr stopped => rfl

/-- A run that ends within a budget ends the same without one. -/
theorem runToEnd_of_run (ran : m.run budget = (outcome, m')) (ended : outcome ≠ .suspended) :
    m.Ends ∧ m.runToEnd = (outcome, m') := by
  have stopped : (m.run budget).1 ≠ .suspended := by
    rw [ran]
    exact ended
  exact ⟨⟨budget, stopped⟩, (run_eq_runToEnd stopped).symm.trans ran⟩

namespace Comes

variable {m : Machine} {count : Nat} {x y : Config}

variable (comes : m.Comes count x)

include comes

theorem run_eq : ∃ m' : Machine, m.run count = (.suspended, m'.holding x) := by
  obtain ⟨m', -, ran⟩ := comes
  exact ⟨m', ran 0⟩

/-- One more step, with room for the stack that it leads to. -/
theorem step (steps : x.Steps y) (room : y.stack.depth ≤ m.maxDepth) : m.Comes (count + 1) y := by
  obtain ⟨m', same, ran⟩ := comes
  have proceeded : (m'.holding x).step = (.proceeded, m'.ticked.holding y) := by
    rw [step_of_steps steps, settle]
    refine if_neg (not_lt.2 ?_)
    show y.stack.depth ≤ m'.maxDepth
    rw [same]
    exact room
  refine ⟨m'.ticked, same, fun budget => ?_⟩
  rw [Nat.add_assoc, Nat.add_comm 1 budget, ran, run_of_proceeded proceeded]

/-- One more step, without room for the stack that it leads to. -/
theorem overflowed (steps : x.Steps y) (deep : m.maxDepth < y.stack.depth) :
    ∃ m' : Machine, m.run (count + 1) =
      (.failed (.overflow y.stack.depth), (m'.placed y).unwind) := by
  obtain ⟨m', same, ran⟩ := comes
  have overflow : (m'.holding x).step =
      (.failed (.overflow y.stack.depth), (m'.ticked.placed y).unwind) := by
    rw [step_of_steps steps, settle]
    refine if_pos ?_
    show m'.maxDepth < y.stack.depth
    rw [same]
    exact deep
  refine ⟨m'.ticked, ?_⟩
  rw [ran, run_of_ended overflow rfl]

theorem overflows (steps : x.Steps y) (deep : m.maxDepth < y.stack.depth) : m.Overflows := by
  obtain ⟨m', ran⟩ := comes.overflowed steps deep
  exact ⟨_, _, congrArg Prod.fst ran⟩

/-- A machine with too little room overflows on the way. -/
theorem goes {more : Nat} (goes : Config.Goes more x y) :
    m.Overflows ∨ m.Comes (count + more) y := by
  induction goes generalizing count with
  | refl x => exact .inr comes
  | @step more x y z first _ ih =>
    by_cases deep : m.maxDepth < y.stack.depth
    · exact .inl (comes.overflows first deep)
    · have moved := ih (comes.step first (not_lt.1 deep))
      rw [Nat.add_assoc, Nat.add_comm 1 more] at moved
      exact moved

theorem finished {v : Value} (control : x.control = .value v) (top : x.stack.top? = some .halt) :
    ∃ m' : Machine, m.run (count + 1) = (.finished v, { m'.holding x with running := false }) := by
  obtain ⟨m', -, ran⟩ := comes
  have final : (m'.holding x).final? = some v := final?_eq_some.2 ⟨congrArg some control, top⟩
  refine ⟨m', ?_⟩
  rw [ran, run_of_ended (step_of_final final) rfl]

theorem failed (fails : x.Fails fault y) :
    ∃ m', m.run (count + 1) = (.failed (.fault fault), m') ∧ m'.world = y.world := by
  obtain ⟨m', -, ran⟩ := comes
  obtain ⟨m'', failed, world⟩ := step_of_fails fails m'
  refine ⟨m'', ?_, world⟩
  rw [ran, run_of_ended failed rfl]

end Comes

end Machine

/-- A machine with enough room makes the steps. -/
theorem Config.Goes.comes {more : Nat} (goes : Config.Goes more x y) :
    ∃ depth, ∀ (m : Machine) (count : Nat), depth ≤ m.maxDepth → m.Comes count x →
      m.Comes (count + more) y := by
  induction goes with
  | refl x => exact ⟨0, fun m count _ comes => comes⟩
  | @step more x y z first _ ih =>
    obtain ⟨depth, onwards⟩ := ih
    refine ⟨max depth y.stack.depth, fun m count room comes => ?_⟩
    have moved := onwards m (count + 1) ((le_max_left _ _).trans room)
      (comes.step first ((le_max_right _ _).trans room))
    rw [Nat.add_assoc, Nat.add_comm 1 more] at moved
    exact moved

end SourceMachine
