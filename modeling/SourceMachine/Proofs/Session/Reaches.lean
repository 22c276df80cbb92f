import SourceMachine.Proofs.Machine.Moves
import SourceMachine.Session

/-!
# The states of a session

A session makes a machine and then calls `prepare`, `step`, `run` and `eval` on it, in
any order.  Whatever it calls, the machine only ever does three things: it makes a
step, it takes up a program that was read, or it notes that the preludes were tried.
`Reaches` is the closure of these, so it also has the states in the middle of a run
and those of the preludes; `Reaches.perform` says that no call leaves it.

Beside the machine it keeps a record of the scopes that were made, in the order of
their addresses: what was entered, in which scopes, and for a call where it came
from.
-/

namespace SourceMachine

variable {m : Machine} {frame : Frame} {v : Value} {c : Control} {env : Env} {rest : Stack}
  {budget : Option Nat} {fault : Fault} {h : Heap}

/-! ## Steps by cases -/

namespace Machine

/-- The machine with one more step on its count. -/
def ticked (m : Machine) : Machine :=
  { m with steps := m.steps + 1 }

/-- What a step comes to. -/
inductive Stepped (m : Machine) : Progress → Machine → Prop where
  | complete {v : Value} (control : m.control = some (.value v)) (top : m.stack.top? = some .halt) :
      Stepped m (.complete v) { m with running := false }
  | idle (control : m.control = none) : Stepped m .idle m
  | proceeded {c c' : Control} {m' : Machine} (control : m.control = some c)
      (move : m.ticked.Moves c c' m') (fits : m'.stack.depth ≤ m'.maxDepth) :
      Stepped m .proceeded { m' with control := some c' }
  | overflow {c c' : Control} {m' : Machine} (control : m.control = some c)
      (move : m.ticked.Moves c c' m') (deep : m'.maxDepth < m'.stack.depth) :
      Stepped m (.failed (.overflow m'.stack.depth)) m'.unwind
  | fault {c : Control} {fault : Fault} {m' : Machine} (control : m.control = some c)
      (fail : m.ticked.Fails c fault m') :
      Stepped m (.failed (.fault fault)) (m'.raise fault)

/-- A program is complete when a value meets the frame that ends it. -/
theorem final?_eq_some :
    m.final? = some v ↔ m.control = some (.value v) ∧ m.stack.top? = some .halt := by
  unfold final?
  constructor
  · intro h
    split at h
    · next control top =>
      cases h
      exact ⟨control, top⟩
    · contradiction
  · rintro ⟨control, top⟩
    rw [control, top]

theorem step_of_final (final : m.final? = some v) :
    m.step = (.complete v, { m with running := false }) := by
  unfold step
  rw [final]

theorem step_of_idle (control : m.control = none) : m.step = (.idle, m) := by
  have notFinal : m.final? = none := by
    unfold final?
    rw [control]
  unfold step
  rw [notFinal]
  dsimp only
  split
  · rfl
  · next found =>
    rw [control] at found
    contradiction

/-- Any other step makes a transition. -/
theorem step_of_transition (control : m.control = some c) (notFinal : m.final? = none) : m.step =
      match m.ticked.transition c with
      | (.ok c', m') => m'.settle c'
      | (.error fault, m') => (.failed (.fault fault), m'.raise fault) := by
  unfold step
  rw [notFinal]
  dsimp only
  split
  · next found =>
    rw [control] at found
    contradiction
  · next found =>
    rw [control] at found
    cases found
    rfl

/-- `Stepped` says all that a step can do. -/
theorem stepped (m : Machine) : m.Stepped m.step.1 m.step.2 := by
  cases final : m.final? with
  | some v =>
    obtain ⟨control, top⟩ := final?_eq_some.1 final
    rw [step_of_final final]
    exact .complete control top
  | none =>
    cases control : m.control with
    | none =>
      rw [step_of_idle control]
      exact .idle control
    | some c =>
      have notFinal : ∀ v, c = .value v → m.ticked.stack.top? ≠ some .halt := by
        rintro v rfl top
        rw [final?_eq_some.2 ⟨control, top⟩] at final
        contradiction
      have leads := leads_transition notFinal
      rw [step_of_transition control final]
      revert leads
      rcases m.ticked.transition c with ⟨fault | c', m'⟩
      · exact fun fail => .fault control fail
      · intro move
        dsimp only [settle]
        by_cases deep : m'.maxDepth < m'.stack.depth
        · rw [if_pos deep]
          exact .overflow control move deep
        · rw [if_neg deep]
          exact .proceeded control move (not_lt.1 deep)

end Machine

/-! ## Scopes and where they come from -/

/-- What a scope was made for. -/
inductive Site where
  /-- The builtin names. -/
  | builtins
  | program (program : Program)
  | block (block : Block)
  /-- A call, with the scopes and the stack at the moment when it was made. -/
  | call (function : Function) (callerEnv : Env) (callerStack : Stack)

/-- What a scope is called, by what it was made for. -/
def Site.label : Site → String
  | .builtins => "global"
  | .program _ => "programEnvironment"
  | .block _ => "blockEnvironment"
  | .call f _ _ => f.displayName

/-- A scope that was made, and the scopes around it. -/
structure Birth where
  site : Site
  outer : Env

namespace Machine

/-- The closure that a machine is about to call, with the scopes and the stack of the
    caller. -/
def calling? (m : Machine) : Option (Closure × Env × Stack) :=
  match m.stack.pop? with
  | some (.apply f args _ env, rest) =>
    match m.world.heap.callee? f with
    | some (.closure c) =>
      if c.function.arity.accepts args.length then some (c, env, rest) else none
    | _ => none
  | _ => none

/-- The scope that a transition makes. -/
def birthOf (m : Machine) : Control → Option Birth
  | .program p => some ⟨.program p, m.outer⟩
  | .statement (.block b) => some ⟨.block b, m.env⟩
  | .value _ => m.calling?.map fun (c, env, stack) => ⟨.call c.function env stack, c.env⟩
  | _ => none

/-- The scope that the next step makes. -/
def birth? (m : Machine) : Option Birth :=
  m.control.bind m.birthOf

/-- A session comes from one machine to another, and makes scopes on its way. -/
inductive Reaches (start : Machine) : List Birth → Machine → Prop where
  | refl : Reaches start [] start
  | step {births : List Birth} {m : Machine} (reached : Reaches start births m) :
      Reaches start (births ++ m.birth?.toList) m.step.2
  | load {births : List Birth} {m : Machine} {text : String} {p : Program}
      (reached : Reaches start births m) (read : Program.read text = .ok p) :
      Reaches start births (m.load p)
  | triedPreludes {births : List Birth} {m : Machine} (reached : Reaches start births m) :
      Reaches start births { m with preludePending := false }

end Machine

/-- A heap as sessions leave it, with the record of its scopes: at first there are no
    objects.  The builtin names of each machine may hold what the sessions before it have
    made. -/
inductive Heap.IsLeft (allowed : Heap → Table → Prop) : List Birth → Heap → Prop where
  | blank {h : Heap} (scopes : h.scopes = #[]) (pairs : h.pairs = #[])
      (closures : h.closures = #[]) (continuations : h.continuations = #[]) : IsLeft allowed [] h
  | after {before births : List Birth} {settings : Settings} {table : Table} {world : World}
      {m : Machine} (left : IsLeft allowed before world.heap)
      (isAllowed : allowed world.heap table)
      (reached : (Machine.new settings table world).Reaches births m) :
      IsLeft allowed (before ++ ⟨.builtins, []⟩ :: births) m.world.heap

namespace Machine

/-! ## Which transitions make a scope -/

theorem birth?_of_control (control : m.control = some c) : m.birth? = m.birthOf c := by
  unfold birth?
  rw [control]
  rfl

/-- Only a frame that applies something makes a call. -/
theorem calling?_of_frame (top : m.stack = rest.push frame)
    (notApply : ∀ f args span env, frame ≠ .apply f args span env) : m.calling? = none := by
  unfold calling?
  rw [top, Stack.pop?_push]
  cases frame with
  | apply f args span env => exact absurd rfl (notApply f args span env)
  | _ => rfl

theorem calling?_of_apply {f : Value} {args : List Value} {span : Span}
    (top : m.stack = rest.push (.apply f args span env)) : m.calling? =
      match m.world.heap.callee? f with
      | some (.closure c) =>
        if c.function.arity.accepts args.length then some (c, env, rest) else none
      | _ => none := by
  unfold calling?
  rw [top, Stack.pop?_push]

theorem calling?_of_halt (top : m.stack.top? = some .halt) : m.calling? = none := by
  unfold calling?
  cases popped : m.stack.pop? with
  | none => rfl
  | some taken =>
    obtain ⟨frame, rest⟩ := taken
    rw [Stack.pop?_eq_some popped] at top
    obtain rfl : frame = .halt := Option.some.inj top
    rfl

theorem calling?_of_nil (empty : m.stack.frames = []) : m.calling? = none := by
  unfold calling?
  cases popped : m.stack.pop? with
  | none => rfl
  | some taken =>
    rw [Stack.pop?_eq_some popped] at empty
    cases empty

theorem birthOf_value (notCalling : m.calling? = none) (v : Value) :
    m.birthOf (.value v) = none := by
  unfold birthOf
  rw [notCalling, Option.map_none]

theorem Starts.birthOf_eq {c' : Control} (start : Starts h env c c' frame) :
    m.birthOf c = none := by
  cases start <;> rfl

theorem Yields.not_apply {result : Value} (yield : Yields frame v result) (f : Value)
    (args : List Value) (span : Span) (env : Env) : frame ≠ .apply f args span env := by
  cases yield <;> exact nofun

theorem Collects.not_apply {callee : Value} {arguments : List Expr} {next : Nat}
    {evaluated : List Value} {at_ : Span} {inside : Env}
    (collect : Collects frame v arguments next evaluated callee at_ inside) (f : Value)
    (args : List Value) (span : Span) (env : Env) : frame ≠ .apply f args span env := by
  cases collect <;> exact nofun

theorem Rejects.birthOf_eq (reject : Rejects h env c fault) : m.birthOf c = none := by
  cases reject with
  | @statement s _ unsupported =>
    cases s with
    | block => cases unsupported
    | _ => rfl
  | _ => rfl

theorem Refuses.calling?_eq (top : m.stack = rest.push frame)
    (refuse : Refuses m rest frame v fault) : m.calling? = none := by
  cases refuse with
  | unary | binary | assign | branch => exact calling?_of_frame top nofun
  | notCallable _ _ _ _ leads | shift _ _ _ leads | native _ _ _ leads =>
    rw [calling?_of_apply top, leads]
  | @arity f callee args span env v fault leads counted =>
    rw [calling?_of_apply top, leads]
    cases callee with
    | closure c =>
      have refused : ¬c.function.arity.accepts args.length = true := by
        intro accepted
        unfold Arity.check at counted
        rw [show (Callee.closure c).arity = c.function.arity from rfl, if_pos accepted] at counted
        cases counted
      exact if_neg refused
    | builtin | continuation => rfl

/-! ## Calls of a session -/

/-- The program of a machine comes to an end. -/
def Ends (m : Machine) : Prop :=
  ∃ budget, (m.run budget).1 ≠ .suspended

/-- Programs that are run one after the other, up to the first failure, all come to an
    end. -/
def EndsAll (m : Machine) : List (Except Refusal Program) → Prop
  | [] => True
  | read :: rest =>
    match m.install read with
    | (.error _, _) => True
    | (.ok (), m) =>
      m.Ends ∧
        match m.runToEnd with
        | (.failed _, _) => True
        | (.finished _, m) | (.suspended, m) => m.EndsAll rest

/-- What a session can ask of its machine. -/
inductive Request where
  | prepare (text : String)
  | step
  | run (budget : Option Nat)
  | eval (text : String) (budget : Option Nat)

/-- The machine after a request. -/
def perform (m : Machine) : Request → Machine
  | .prepare text => (m.prepare text).2
  | .step => m.step.2
  | .run budget => (m.runWithin budget).2
  | .eval text budget => (m.eval text budget).2

/-- A run with a budget comes back, and one without a budget if the program ends. -/
def RunReturns (m : Machine) (budget : Option Nat) : Prop :=
  budget = none → m.Ends

/-- Preparing a program comes back if the preludes end, where they are still to be
    run. -/
def PrepareReturns (m : Machine) : Prop :=
  m.preludePending = true → { m with preludePending := false }.EndsAll Prelude.programs

/-- A request comes back. -/
def Returns (m : Machine) : Request → Prop
  | .prepare _ => m.PrepareReturns
  | .step => True
  | .run budget => m.RunReturns budget
  | .eval text budget => m.PrepareReturns ∧ (m.prepare text).2.RunReturns budget

/-- A session comes from one machine to another. -/
def Visits (start m : Machine) : Prop :=
  ∃ births, start.Reaches births m

theorem advance_eq (m : Machine) :
    m.advance = .inl m.step.2 ∨ ∃ outcome, m.advance = .inr (outcome, m.step.2) := by
  unfold advance
  obtain ⟨progress, m'⟩ := m.step
  dsimp only
  cases progress.outcome? with
  | none => exact .inl rfl
  | some ended => exact .inr ⟨ended, rfl⟩

namespace Visits

variable {start m : Machine}

section

variable (visited : start.Visits m)

include visited

theorem step : start.Visits m.step.2 := by
  obtain ⟨births, reached⟩ := visited
  exact ⟨_, reached.step⟩

theorem run (budget : Nat) : start.Visits (m.run budget).2 := by
  induction budget generalizing m with
  | zero => exact visited
  | succ budget ih =>
    unfold Machine.run
    rcases m.advance_eq with proceeded | ⟨outcome, ended⟩
    · rw [proceeded]
      exact ih visited.step
    · rw [ended]
      exact visited.step

theorem runToEnd (ends : m.Ends) : start.Visits m.runToEnd.2 := by
  obtain ⟨budget, ended⟩ := ends
  rw [← run_eq_runToEnd ended]
  exact visited.run budget

theorem runWithin (returns : m.RunReturns budget) : start.Visits (m.runWithin budget).2 := by
  cases budget with
  | none => exact visited.runToEnd (returns rfl)
  | some n => exact visited.run n

theorem install (text : String) : start.Visits (m.install (Program.read text)).2 := by
  unfold Machine.install
  cases read : Program.read text with
  | error refusal => exact visited
  | ok p =>
    obtain ⟨births, reached⟩ := visited
    exact ⟨births, reached.load read⟩

theorem runAll (texts : List String) (ends : m.EndsAll (texts.map Program.read)) :
    start.Visits (m.runAll (texts.map Program.read)).2 := by
  induction texts generalizing m with
  | nil => exact visited
  | cons text rest ih =>
    have installed := visited.install text
    rw [List.map_cons] at ends ⊢
    unfold EndsAll at ends
    unfold Machine.runAll
    revert installed ends
    generalize m.install (Program.read text) = result
    obtain ⟨_ | _, m₁⟩ := result
    · exact fun installed _ => installed
    · rintro installed ⟨ended, onwards⟩
      have ran := installed.runToEnd ended
      revert ran onwards
      dsimp only
      generalize m₁.runToEnd = outcome
      obtain ⟨_ | _ | _, m₂⟩ := outcome
      · exact fun onwards ran => ih ran onwards
      · exact fun _ ran => ran
      · exact fun onwards ran => ih ran onwards

theorem runPreludes (returns : m.PrepareReturns) : start.Visits m.runPreludes.2 := by
  unfold Machine.runPreludes
  by_cases pending : m.preludePending = true
  · rw [if_pos pending]
    obtain ⟨births, reached⟩ := visited
    have tried : start.Visits { m with preludePending := false } := ⟨births, reached.triedPreludes⟩
    exact tried.runAll [Prelude.lists, Prelude.jumps] (returns pending)
  · rw [if_neg pending]
    exact visited

/-- Taking up a program stays inside of the session. -/
theorem prepare (returns : m.PrepareReturns) (text : String) : start.Visits (m.prepare text).2 := by
  have ran := visited.runPreludes returns
  unfold Machine.prepare
  revert ran
  generalize m.runPreludes = result
  obtain ⟨_ | _, m₁⟩ := result
  · exact fun ran => ran
  · exact fun ran => ran.install text

end

/-- An evaluation runs what was prepared, if that did not fail. -/
theorem eval_of_prepare {text : String} (prepared : start.Visits (m.prepare text).2)
    (runs : (m.prepare text).2.RunReturns budget) : start.Visits (m.eval text budget).2 := by
  unfold Machine.eval
  revert prepared runs
  generalize m.prepare text = result
  obtain ⟨_ | _, m₁⟩ := result
  · exact fun prepared _ => prepared
  · exact fun prepared runs => prepared.runWithin runs

/-- No request leaves the states of a session. -/
theorem perform (visited : start.Visits m) {request : Request} (returns : m.Returns request) :
    start.Visits (m.perform request) := by
  cases request with
  | prepare text => exact visited.prepare returns text
  | step => exact visited.step
  | run budget => exact visited.runWithin returns
  | eval text budget =>
    obtain ⟨prepares, runs⟩ := returns
    exact eval_of_prepare (visited.prepare prepares text) runs

end Visits

end Machine

end SourceMachine
