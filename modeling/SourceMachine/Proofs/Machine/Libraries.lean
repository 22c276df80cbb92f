import SourceMachine.Proofs.Evaluator.Correctness
import SourceMachine.Proofs.Machine.Frames
import SourceMachine.Proofs.Program.Libraries
import SourceMachine.Proofs.Session.Lasting

/-!
# Runs of libraries

The run of a library needs a stack with one frame more than there are functions: all but the
first wait on the stack while the first is declared.

With that room the run comes to its end, and every function is bound to a closure in the
scope of the program (`run_library`).  With less it overflows before the first function is
bound, and all names stay without a value (`run_library_of_no_room`).  In both cases nothing
is left that could still declare a name in this scope.
-/

namespace SourceMachine

variable {id : ScopeId} {m' : Machine} {budget : Nat} {inner : Env} {v : Value} {x : Identifier}

/-! ## Heaps with functions -/

namespace Heap

/-- A scope binds a function to a closure, made in this scope. -/
def Provides (h : Heap) (id : ScopeId) (outer : Env) (f : Function) : Prop :=
  ∃ x k, f.id = some x ∧ h.slot? id x.name = some (.assigned (.closure k) false) ∧
    h.closure? k = some ⟨f, id :: outer⟩

/-- A scope binds the functions of a library to closures, and nothing else. -/
structure HasLibrary (h : Heap) (id : ScopeId) (outer : Env) (p : Program) : Prop where
  provides : ∀ f, .function f ∈ p.body → h.Provides id outer f
  others : ∀ name ∉ declaredNames p.body, h.slot? id name = none

/-- A scope has the names of a library, all without a value, and nothing else. -/
def LacksLibrary (h : Heap) (id : ScopeId) (p : Program) : Prop :=
  ∀ name, h.slot? id name = if name ∈ declaredNames p.body then some .unassigned else none

/-- What a heap gains when the functions of a body are declared in a scope. -/
structure Gains (id : ScopeId) (outer : Env) (body : List Stmt) (h h' : Heap) : Prop where
  provides : ∀ f, .function f ∈ body → h'.Provides id outer f
  others : ∀ name ∉ declaredNames body, h'.slot? id name = h.slot? id name
  lasts : h.Lasts h'
  size : h'.scopes.size = h.scopes.size
  continuations : h'.continuations = h.continuations

/-- The heap after a function was declared. -/
def declareFunction (h : Heap) (env : Env) (f : Function) (x : Identifier) : Heap :=
  (h.newClosure ⟨f, env⟩).2.define env x.name (h.newClosure ⟨f, env⟩).1 false

variable {h h₁ h₂ : Heap} {id : ScopeId} {outer : Env} {f : Function} {x : Identifier}

theorem Gains.declareFunction (inside : id.index < h.scopes.size) (named : f.id = some x) :
    Gains id outer [.function f] h (h.declareFunction (id :: outer) f x) := by
  have kept := Keeps.define (h.newClosure ⟨f, id :: outer⟩).2 (id :: outer) x.name
    (h.newClosure ⟨f, id :: outer⟩).1 false
  refine ⟨?_, ?_, ?_, kept.size, kept.continuations⟩
  · intro g member
    cases List.mem_singleton.1 member
    refine ⟨x, ⟨h.closures.size⟩, named, slot?_bind_self inside _ _, ?_⟩
    rw [closure?, Heap.declareFunction, kept.closures]
    exact Array.getElem?_push_size
  · intro name undeclared
    have other : name ≠ x.name := by
      rintro rfl
      refine undeclared ?_
      rw [declaredNames_cons_of_some (by rw [Stmt.declared?, named]; rfl)]
      exact List.mem_cons_self
    exact slot?_bind_of_name_ne other (h.newClosure ⟨f, id :: outer⟩).2 id id _
  · exact (Lasts.newClosure h ⟨f, id :: outer⟩).trans (.of_keeps kept)

theorem Gains.cons {rest : List Stmt} (first : Gains id outer [.function f] h h₁)
    (later : Gains id outer rest h₁ h₂) (named : f.id = some x)
    (fresh : x.name ∉ declaredNames rest) : Gains id outer (.function f :: rest) h h₂ := by
  have declared : (Stmt.function f).declared? = some (x, false) := by
    rw [Stmt.declared?, named]
    rfl
  refine ⟨?_, ?_, first.lasts.trans later.lasts, later.size.trans first.size,
    later.continuations.trans first.continuations⟩
  · intro g member
    rcases List.mem_cons.1 member with same | member
    · -- what was declared first is not declared again
      cases same
      obtain ⟨y, k, named', bound, closure⟩ := first.provides f List.mem_cons_self
      cases named.symm.trans named'
      exact ⟨x, k, named, (later.others _ fresh).trans bound, later.lasts.closures closure⟩
    · exact later.provides g member
  · intro name undeclared
    rw [declaredNames_cons_of_some declared, List.mem_cons, not_or] at undeclared
    refine (later.others name undeclared.2).trans (first.others name ?_)
    rw [declaredNames_cons_of_some declared]
    simpa [declaredNames] using undeclared.1

end Heap

/-! ## Steps of a library -/

namespace Config

variable {f : Function} {x : Identifier} {env : Env} {stack : Stack} {w : World}

theorem steps_function (named : f.id = some x)
    (fresh : w.heap.checkUnassigned env x false = .ok ()) :
    Steps ⟨.statement (.function f), env, stack, w⟩
      ⟨.value (w.heap.newClosure ⟨f, env⟩).1, env, stack.push (.declare x false env),
        w.withHeap (w.heap.newClosure ⟨f, env⟩).2⟩ := by
  refine ⟨not_isFinal_statement, fun m => ?_⟩
  simp only [Machine.transition, Machine.execute, named, Machine.startDeclaration, Machine.placed,
    fresh]
  rfl

theorem steps_declare {isMutable : Bool} :
    Steps ⟨.value v, inner, stack.push (.declare x isMutable env), w⟩
      ⟨.value .undefined, env, stack, w.withHeap (w.heap.define env x.name v isMutable)⟩ :=
  ⟨not_isFinal_push (by simp), fun _ => rfl⟩

theorem steps_exec {s : Stmt} :
    Steps ⟨.value v, inner, stack.push (.exec s env), w⟩ ⟨.statement s, env, stack, w⟩ :=
  ⟨not_isFinal_push (by simp), fun _ => rfl⟩

end Config

theorem Stack.depth_pushAll (s : Stack) (env : Env) (body : List Stmt) :
    (s.pushAll env body).depth = s.depth + body.length := by
  rw [Stack.depth_eq, Stack.depth_eq, frames_pushAll, List.length_append, List.length_map]
  omega

theorem Heap.checkUnassigned_of_unassigned {h : Heap}
    (unassigned : h.slot? id x.name = some .unassigned) (outer : Env) (isMutable : Bool) :
    h.checkUnassigned (id :: outer) x isMutable = .ok () := by
  rw [checkUnassigned, show (id :: outer : Env).head?.bind (h.slot? · x.name) = _ from unassigned]

namespace Machine

section Functions

variable {m : Machine} {id : ScopeId} {outer : Env} {w : World} {count : Nat}

/-- Two steps declare a function. -/
theorem Comes.function {f : Function} {stack : Stack}
    (comes : m.Comes count ⟨.statement (.function f), id :: outer, stack, w⟩)
    (named : f.id = some x) (unassigned : w.heap.slot? id x.name = some .unassigned)
    (room : stack.depth + 1 ≤ m.maxDepth) :
    m.Comes (count + 2) ⟨.value .undefined, id :: outer, stack,
      w.withHeap (w.heap.declareFunction (id :: outer) f x)⟩ := by
  have fresh := Heap.checkUnassigned_of_unassigned unassigned outer false
  have made := comes.step (Config.steps_function named fresh) room
  exact made.step Config.steps_declare ((Nat.le_succ _).trans room)

/-- The functions of a library are declared one after the other. -/
theorem Comes.functions {s : Stmt} {rest : List Stmt} (comes : m.Comes count
      ⟨.statement s, id :: outer, Stack.initial.pushAll (id :: outer) rest, w⟩)
    (functions : ∀ t ∈ s :: rest, t.isFunction) (distinct : (declaredNames (s :: rest)).Nodup)
    (inside : id.index < w.heap.scopes.size)
    (unassigned : ∀ name ∈ declaredNames (s :: rest), w.heap.slot? id name = some .unassigned)
    (room : rest.length + 2 ≤ m.maxDepth) :
    ∃ count' w', m.Comes count' ⟨.value .undefined, id :: outer, .initial, w'⟩ ∧
      w.heap.Gains id outer (s :: rest) w'.heap ∧ w'.console = w.console := by
  induction rest generalizing s w count with
  | nil =>
    obtain ⟨f, x, rfl, named, declared⟩ := Stmt.eq_function (functions s List.mem_cons_self)
    have free : w.heap.slot? id x.name = some .unassigned := by
      refine unassigned _ ?_
      rw [declaredNames_cons_of_some declared]
      exact List.mem_cons_self
    exact ⟨_, _, comes.function named free room, .declareFunction inside named, rfl⟩
  | cons t rest ih =>
    obtain ⟨f, x, rfl, named, declared⟩ := Stmt.eq_function (functions s List.mem_cons_self)
    rw [declaredNames_cons_of_some declared] at distinct unassigned
    obtain ⟨fresh, distinct⟩ := List.nodup_cons.1 distinct
    have bound := comes.function named (unassigned _ List.mem_cons_self) (by
      rw [Stack.depth_pushAll]
      show 1 + (rest.length + 1) + 1 ≤ m.maxDepth
      rw [List.length_cons] at room
      omega)
    -- the next function comes from the stack
    have next := bound.step Config.steps_exec (by
      show (Stack.initial.pushAll (id :: outer) rest).depth ≤ m.maxDepth
      rw [Stack.depth_pushAll]
      show 1 + rest.length ≤ m.maxDepth
      rw [List.length_cons] at room
      omega)
    have first : w.heap.Gains id outer [.function f] _ := .declareFunction inside named
    have free (name : String) (member : name ∈ declaredNames (t :: rest)) :
        (w.heap.declareFunction (id :: outer) f x).slot? id name = some .unassigned := by
      refine (first.others name ?_).trans (unassigned name (List.mem_cons_of_mem _ member))
      rw [declaredNames_cons_of_some declared]
      intro same
      exact fresh (List.mem_singleton.1 same ▸ member)
    obtain ⟨count', w', comes', later, silent⟩ := ih next
      (fun u member => functions u (List.mem_cons_of_mem _ member)) distinct
      (inside.trans_eq first.size.symm) free (by
        rw [List.length_cons] at room
        omega)
    exact ⟨count', w', comes', first.cons later named fresh, silent⟩

end Functions

/-! ## Runs of a library -/

section Library

variable {m : Machine} {p : Program}

/-- What a program has left that made its scope and nothing but that, as far as scopes and
    captured stacks are concerned. -/
structure LeavesScope (m m' : Machine) : Prop where
  outer : m'.outer = ⟨m.world.heap.scopes.size⟩ :: m.outer
  closed : m'.IsSealed ⟨m.world.heap.scopes.size⟩
  size : m'.world.heap.scopes.size = m.world.heap.scopes.size + 1
  noCaptures : m'.world.heap.continuations = #[]

/-- Entering a library declares the names of its functions. -/
theorem declareProgram_library (library : p.IsLibrary) :
    ∃ h, m.declareProgram p = (.ok (), h) ∧ h.scopes.size = m.world.heap.scopes.size + 1 ∧
      h.continuations = m.world.heap.continuations ∧
      h.LacksLibrary ⟨m.world.heap.scopes.size⟩ p := by
  have scope : m.world.heap.newScope "programEnvironment" m.outer =
      (m.programEnv, (m.world.heap.newScope "programEnvironment" m.outer).2) := rfl
  obtain ⟨h, hoisted⟩ := (Heap.hoist_enters_iff scope).2 library.distinct
  refine ⟨h, hoisted, Heap.size_enterBody scope hoisted, ?_, Heap.slot?_of_enters scope hoisted⟩
  exact (Heap.Keeps.of_hoist hoisted).continuations

/-- A run that ended has left a sealed scope, if it has left nothing to do there. -/
theorem leavesScope_of_run {outcome : Outcome} (noCaptures : m.world.heap.continuations = #[])
    (ran : (m.load p).run budget = (outcome, m')) (ended : outcome ≠ .suspended)
    (size : m'.world.heap.scopes.size = m.world.heap.scopes.size + 1)
    (same : m'.world.heap.continuations = m.world.heap.continuations) (stack : m'.stack = .initial)
    (idle : ∀ c, m'.control = some c → c.isPhrase = false) : m.LeavesScope m' := by
  obtain ⟨k, -, rfl, -⟩ := exists_run_step ran ended
  have outer := run_load_outer (.of_eq_empty noCaptures) p k
  rw [ran] at outer
  have noCaptures' : m'.world.heap.continuations = #[] := same.trans noCaptures
  refine ⟨outer, ⟨?_, ⟨?_, .of_eq_empty noCaptures'⟩, ?_⟩, size, noCaptures'⟩
  · show m.world.heap.scopes.size < m'.world.heap.scopes.size
    omega
  · rw [stack]
    exact forall_initial (by simp [Frame.Avoids, Frame.env?])
  · intro c control phrase
    rw [idle c control] at phrase
    cases phrase

/-- The stack of a library that was entered. -/
theorem depth_programConfig (library : p.IsLibrary) (h : Heap) :
    (m.programConfig p h).stack.depth = p.body.length := by
  obtain ⟨s, rest, body⟩ := List.exists_cons_of_ne_nil library.nonempty
  rw [programConfig, Stack.depth_pushAll, body]
  show 1 + rest.length = rest.length + 1
  omega

/-- With enough room, a library comes to its end and has bound all its functions.  It writes
    nothing. -/
theorem run_library (library : p.IsLibrary) (noCaptures : m.world.heap.continuations = #[])
    (room : p.body.length + 1 ≤ m.maxDepth) :
    ∃ budget m', (m.load p).run budget = (.finished .undefined, m') ∧ m.LeavesScope m' ∧
      m'.world.heap.HasLibrary ⟨m.world.heap.scopes.size⟩ m.outer p ∧
      m'.world.console = m.world.console := by
  obtain ⟨h, declared, size, same, slots⟩ := declareProgram_library (m := m) library
  have begins := comes_load declared (by
    rw [depth_programConfig library]
    omega)
  obtain ⟨s, rest, body⟩ := List.exists_cons_of_ne_nil library.nonempty
  rw [programConfig, body] at begins
  obtain ⟨count, w, comes, gains, silent⟩ := begins.functions (body ▸ library.functions)
    (body ▸ library.distinct) (by
      show m.world.heap.scopes.size < h.scopes.size
      omega)
    (fun name member => by
      show h.slot? ⟨m.world.heap.scopes.size⟩ name = _
      rw [slots, if_pos (body ▸ member)])
    (by
      rw [body, List.length_cons] at room
      exact room)
  obtain ⟨m₁, ran⟩ := comes.finished rfl rfl
  refine ⟨_, _, ran, ?_, ⟨?_, ?_⟩, silent⟩
  · refine leavesScope_of_run noCaptures ran (by simp) (gains.size.trans size)
      (gains.continuations.trans same) rfl ?_
    rintro c ⟨⟩
    rfl
  · rw [body]
    exact gains.provides
  · intro name undeclared
    refine (gains.others name (body ▸ undeclared)).trans ?_
    show h.slot? ⟨m.world.heap.scopes.size⟩ name = none
    rw [slots, if_neg undeclared]

/-- What an overflow leaves of a library that has bound no function yet. -/
theorem leavesScope_of_overflow {s : Machine} {depth : Nat}
    (noCaptures : m.world.heap.continuations = #[])
    (ran : (m.load p).run budget = (.failed (.overflow depth), s.unwind))
    (size : s.world.heap.scopes.size = m.world.heap.scopes.size + 1)
    (same : s.world.heap.continuations = m.world.heap.continuations) : m.LeavesScope s.unwind := by
  refine leavesScope_of_run noCaptures ran (by simp) size same rfl ?_
  rintro c ⟨⟩

/-- Without it, a library overflows before it has bound the first function. -/
theorem run_library_of_no_room (library : p.IsLibrary)
    (noCaptures : m.world.heap.continuations = #[]) (small : m.maxDepth ≤ p.body.length) :
    ∃ budget m', (m.load p).run budget =
        (.failed (.overflow (max (m.maxDepth + 1) p.body.length)), m') ∧ m.LeavesScope m' ∧
      m'.world.heap.LacksLibrary ⟨m.world.heap.scopes.size⟩ p := by
  obtain ⟨h, declared, size, same, slots⟩ := declareProgram_library (m := m) library
  have depth := depth_programConfig (m := m) library h
  by_cases deep : m.maxDepth < p.body.length
  · -- there is no room for the functions that wait
    have overflow := (step_load declared).trans (if_pos (depth ▸ deep))
    have ran := run_of_ended overflow rfl 0
    have reached : (m.programConfig p h).stack.depth = max (m.maxDepth + 1) p.body.length := by
      omega
    exact ⟨_, _, reached ▸ ran, leavesScope_of_overflow noCaptures ran size same, slots⟩
  · -- there is, but not for the declaration of the first one
    have begins := comes_load declared (by omega)
    obtain ⟨s, rest, body⟩ := List.exists_cons_of_ne_nil library.nonempty
    obtain ⟨f, x, rfl, named, declares⟩ := Stmt.eq_function (library.functions s (by simp [body]))
    have free : h.slot? ⟨m.world.heap.scopes.size⟩ x.name = some .unassigned := by
      rw [slots, if_pos]
      rw [body, declaredNames_cons_of_some declares]
      exact List.mem_cons_self
    have first : m.programConfig p h = ⟨.statement (.function f), m.programEnv,
        (m.programConfig p h).stack, m.world.withHeap h⟩ := by
      rw [programConfig, body]
      rfl
    rw [first] at begins
    have fresh := Heap.checkUnassigned_of_unassigned free m.outer false
    obtain ⟨m₁, ran⟩ := begins.overflowed (Config.steps_function named fresh) (by
      show m.maxDepth < (m.programConfig p h).stack.depth + 1
      omega)
    have reached : (m.programConfig p h).stack.depth + 1 = max (m.maxDepth + 1) p.body.length := by
      omega
    refine ⟨_, _, ran.trans ?_, leavesScope_of_overflow noCaptures ran size same, slots⟩
    rw [← reached]
    rfl

/-! ## Sealed libraries -/

/-- A library that is sealed stays complete. -/
theorem IsSealed.hasLibrary {outer : Env} (closed : m.IsSealed id) (visited : m.Visits m')
    (has : m.world.heap.HasLibrary id outer p) : m'.world.heap.HasLibrary id outer p := by
  have ⟨births, reached⟩ := visited
  constructor
  · intro f member
    obtain ⟨x, k, named, bound, closure⟩ := has.provides f member
    refine ⟨x, k, named, ?_, reached.lasts.closures closure⟩
    rw [closed.slot?_eq visited (by simp [bound]), bound]
  · intro name undeclared
    have absent := has.others name undeclared
    rw [closed.slot?_eq visited (by simp [absent]), absent]

/-- A library that is sealed stays without values. -/
theorem IsSealed.lacksLibrary (closed : m.IsSealed id) (visited : m.Visits m')
    (lacks : m.world.heap.LacksLibrary id p) : m'.world.heap.LacksLibrary id p := by
  intro name
  rw [← lacks name]
  refine closed.slot?_eq visited fun v assigned => ?_
  rw [lacks name] at assigned
  split at assigned <;> cases assigned

end Library

end Machine

end SourceMachine
