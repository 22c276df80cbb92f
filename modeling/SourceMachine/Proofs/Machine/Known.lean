import SourceMachine.Proofs.Heap.Known
import SourceMachine.Proofs.Machine.StackShape

/-!
# No value leads nowhere

In every state of a session, each value that the machine or its heap holds names a
captured stack that is there, if it names one at all.  Values come from literals, from
operators and native functions, from slots and pairs, and from the captures themselves,
and captured stacks are never forgotten; so a transition keeps this (`Moves.isClosed`).
A program is never waited for: no frame goes on with one.
-/

namespace SourceMachine

variable {c c' : Control} {frame : Frame} {m m' : Machine} {a b : Nat} {env : Env} {v : Value}
  {births : List Birth} {h h' : Heap}

/-- What is to be run is no program, and a value is known. -/
def Control.IsKnown (count : Nat) : Control → Prop
  | .program _ => False
  | .statement _ | .expression _ => True
  | .value v => v.IsKnown count

/-- Every value that a frame keeps is known, and the frame waits for no program. -/
def Frame.IsKnown (count : Nat) : Frame → Prop
  | .rightOperand _ left _ _ => left.IsKnown count
  | .argument _ _ evaluated f _ _ => f.IsKnown count ∧ ∀ v ∈ evaluated, v.IsKnown count
  | .apply f args _ _ => f.IsKnown count ∧ ∀ v ∈ args, v.IsKnown count
  | .branch consequent alternate _ _ => consequent.IsKnown count ∧ alternate.IsKnown count
  | .halt | .exec .. | .unaryOperand .. | .leftOperand .. | .declare .. | .assign .. | .callee ..
  | .delimiter => True

theorem Control.IsKnown.mono (known : c.IsKnown a) (le : a ≤ b) : c.IsKnown b := by
  cases c with
  | program p => exact known
  | statement s | expression e => trivial
  | value v => exact Value.IsKnown.mono known le

theorem Frame.IsKnown.mono {f : Frame} (known : f.IsKnown a) (le : a ≤ b) : f.IsKnown b := by
  cases f with
  | rightOperand op left span env => exact Value.IsKnown.mono known le
  | argument | apply => exact ⟨known.1.mono le, fun v member => (known.2 v member).mono le⟩
  | branch => exact ⟨known.1.mono le, known.2.mono le⟩
  | _ => trivial

theorem frames_isKnown_mono {frames : List Frame} (known : ∀ f ∈ frames, f.IsKnown a) (le : a ≤ b) :
    ∀ f ∈ frames, f.IsKnown b :=
  fun f member => (known f member).mono le

/-- Every value in the heap names a captured stack of the heap, if it names one. -/
structure Heap.IsClosed (h : Heap) : Prop where
  values : h.IsKnown h.continuations.size
  captured : ∀ k ∈ h.continuations, ∀ f ∈ k.stack.frames, f.IsKnown h.continuations.size

namespace Heap

theorem size_newContinuation (h : Heap) (k : Captured) :
    (h.newContinuation k).2.continuations.size = h.continuations.size + 1 :=
  Array.size_push _

theorem le_size_newContinuation (h : Heap) (k : Captured) :
    h.continuations.size ≤ (h.newContinuation k).2.continuations.size := by
  rw [size_newContinuation]
  exact Nat.le_succ _

theorem newContinuation_isKnown (h : Heap) (k : Captured) :
    (h.newContinuation k).1.IsKnown (h.newContinuation k).2.continuations.size := by
  rw [size_newContinuation]
  exact Nat.lt_succ_self _

theorem size_continuations_enterCall (h : Heap) (c : Closure) (args : List Value)
    (caller : Captured) :
    (h.enterCall c args caller).2.continuations.size = h.continuations.size + 1 := by
  rw [(enterCall_objects h c args caller).2, Array.size_push]

namespace IsClosed

variable {h : Heap}

variable (closed : h.IsClosed)

include closed

theorem keeps (kept : h.Keeps h') (values : h'.IsKnown h.continuations.size) : h'.IsClosed := by
  refine ⟨?_, ?_⟩
  · rw [kept.continuations]
    exact values
  · rw [kept.continuations]
    exact closed.captured

theorem newScope (label : String) (outer : Env) : (h.newScope label outer).2.IsClosed :=
  ⟨closed.values.newScope label outer, closed.captured⟩

theorem newClosure (c : Closure) : (h.newClosure c).2.IsClosed :=
  ⟨closed.values.of_eq rfl rfl, closed.captured⟩

theorem newContinuation {k : Captured}
    (frames : ∀ f ∈ k.stack.frames, f.IsKnown h.continuations.size) :
    (h.newContinuation k).2.IsClosed := by
  have grown := h.le_size_newContinuation k
  refine ⟨(closed.values.mono grown).of_eq rfl rfl, ?_⟩
  intro k' member f above
  rcases Array.mem_push.1 member with old | rfl
  · exact (closed.captured k' old f above).mono grown
  · exact (frames f above).mono grown

theorem enterBody {inner : Heap} {label : String} {outer : Env} {body : List Stmt}
    {result : Except Fault Unit} (scope : h.newScope label outer = (env, inner))
    (hoisted : inner.hoist env body = (result, h')) : h'.IsClosed := by
  have made := closed.newScope label outer
  rw [scope] at made
  exact made.keeps (Keeps.of_hoist hoisted) (made.values.of_hoist hoisted)

theorem enterCall (c : Closure) {args : List Value} {caller : Captured}
    (arguments : ∀ v ∈ args, v.IsKnown h.continuations.size)
    (frames : ∀ f ∈ caller.stack.frames, f.IsKnown h.continuations.size) :
    (h.enterCall c args caller).2.IsClosed := by
  have scope := closed.newScope c.function.displayName c.env
  have kept := Keeps.bindParams (h.newScope c.function.displayName c.env).2
    (⟨h.scopes.size⟩ :: c.env) c.function.params args
  have params := scope.keeps kept (scope.values.bindParams _ c.function.params arguments)
  have captured := params.newContinuation (k := caller) (by
    rw [kept.continuations]
    exact frames)
  rw [enterCall_snd]
  exact captured.keeps (Keeps.define _ _ _ _ _)
    (captured.values.define _ _ (newContinuation_isKnown _ caller) _)

end IsClosed

end Heap

namespace Machine

/-- How many captured stacks there are. -/
def captures (m : Machine) : Nat :=
  m.world.heap.continuations.size

/-- Every value that the machine holds in the middle of a transition is known, with the
    control apart. -/
structure IsClosedAt (m : Machine) (c : Control) : Prop where
  heap : m.world.heap.IsClosed
  stack : ∀ f ∈ m.stack.frames, f.IsKnown m.captures
  control : (∃ p, c = .program p) ∨ c.IsKnown m.captures

/-- Every value that the machine holds is known. -/
structure IsClosed (m : Machine) : Prop where
  heap : m.world.heap.IsClosed
  stack : ∀ f ∈ m.stack.frames, f.IsKnown m.captures
  control : ∀ c, m.control = some c → (∃ p, c = .program p) ∨ c.IsKnown m.captures

namespace IsClosedAt

variable {m : Machine} {c : Control}

theorem popped {rest : Stack} (closed : m.IsClosedAt c) (top : m.stack = rest.push frame) :
    frame.IsKnown m.captures ∧ ∀ f ∈ rest.frames, f.IsKnown m.captures := by
  have all := closed.stack
  rw [top] at all
  exact Stack.forall_of_push all

/-- A body waits on the stack without a value. -/
theorem enterBody {inner : Heap} (closed : m.IsClosedAt c) {label : String} {outer : Env}
    {body waiting : List Stmt} {result : Except Fault Unit}
    (scope : m.world.heap.newScope label outer = (env, inner))
    (hoisted : inner.hoist env body = (result, h)) :
    h.IsClosed ∧ ∀ f ∈ (m.stack.pushAll env waiting).frames, f.IsKnown h.continuations.size := by
  refine ⟨closed.heap.enterBody scope hoisted, ?_⟩
  cases scope
  exact Stack.forall_pushAll (fun _ _ => trivial)
    (frames_isKnown_mono closed.stack (Heap.Keeps.of_hoist hoisted).captures)

theorem value (closed : m.IsClosedAt (.value v)) : v.IsKnown m.captures := by
  rcases closed.control with ⟨p, same⟩ | known
  · cases same
  · exact known

end IsClosedAt

theorem Starts.isKnown (count : Nat) (known : h.IsKnown count) (start : Starts h env c c' frame) :
    c'.IsKnown count ∧ frame.IsKnown count := by
  cases start with
  | conditional test consequent alternate span =>
    refine ⟨trivial, trivial, ?_⟩
    cases alternate <;> trivial
  | returns argument span point =>
    refine ⟨?_, known.lookup? point, fun v none => absurd none List.not_mem_nil⟩
    cases argument <;> trivial
  | call | unary | binary | assignment | declaration => exact ⟨trivial, trivial⟩
  | conjunction | disjunction | choice => exact ⟨trivial, trivial, trivial⟩

theorem Yields.isKnown (count : Nat) {result : Value} (known : v.IsKnown count)
    (yield : Yields frame v result) : result.IsKnown count := by
  cases yield with
  | unary applied => exact UnaryOp.apply_isKnown count applied
  | binary applied => exact BinaryOp.apply_isKnown count applied
  | delimiter => exact known

theorem Collects.isKnown {count : Nat} {callee : Value} {arguments : List Expr} {next : Nat}
    {evaluated : List Value} {span : Span} (known : v.IsKnown count) (kept : frame.IsKnown count)
    (collect : Collects frame v arguments next evaluated callee span env) :
    callee.IsKnown count ∧ ∀ w ∈ evaluated, w.IsKnown count := by
  cases collect with
  | callee => exact ⟨known, fun w none => absurd none List.not_mem_nil⟩
  | argument =>
    refine ⟨kept.1, fun w member => ?_⟩
    rcases List.mem_cons.1 member with rfl | old
    · exact known
    · exact kept.2 w old

theorem isKnown_ofBody (count : Nat) (body : List Stmt) : (Control.ofBody body).IsKnown count := by
  cases body <;> trivial

/-- A transition that succeeds leaves only known values. -/
theorem Moves.isClosed (move : m.Moves c c' m') (closed : m.IsClosedAt c) : m'.IsClosedAt c' := by
  cases move with
  | program scope hoisted | block scope hoisted =>
    obtain ⟨heap, stack⟩ := closed.enterBody scope hoisted
    exact ⟨heap, stack, .inr (isKnown_ofBody _ _)⟩
  | starts start =>
    obtain ⟨first, frame⟩ := start.isKnown _ closed.heap.values
    exact ⟨closed.heap, Stack.forall_push frame closed.stack, .inr first⟩
  | functionDeclaration =>
    exact ⟨closed.heap.newClosure _, Stack.forall_push trivial closed.stack, .inr trivial⟩
  | expression => exact ⟨closed.heap, closed.stack, .inr trivial⟩
  | literal l => exact ⟨closed.heap, closed.stack, .inr (l.value_isKnown _)⟩
  | identifier found => exact ⟨closed.heap, closed.stack, .inr (closed.heap.values.get found)⟩
  | function => exact ⟨closed.heap.newClosure _, closed.stack, .inr trivial⟩
  | exec top => exact ⟨closed.heap, (closed.popped top).2, .inr trivial⟩
  | yields top yield =>
    exact ⟨closed.heap, (closed.popped top).2, .inr (yield.isKnown _ closed.value)⟩
  | leftOperand top =>
    exact ⟨closed.heap, Stack.forall_push closed.value (closed.popped top).2, .inr trivial⟩
  | @declare v id isMutable env rest top =>
    have kept := Heap.Keeps.define m.world.heap env id.name v isMutable
    have values := closed.heap.values.define env id.name closed.value isMutable
    refine ⟨closed.heap.keeps kept values, ?_, .inr trivial⟩
    exact frames_isKnown_mono (closed.popped top).2 kept.captures
  | @assign v id env rest h top assigned =>
    have kept := Heap.Keeps.of_set assigned
    have values := closed.heap.values.of_set closed.value assigned
    refine ⟨closed.heap.keeps kept values, ?_, .inr trivial⟩
    exact frames_isKnown_mono (closed.popped top).2 kept.captures
  | nextArgument top collect =>
    obtain ⟨frame, below⟩ := closed.popped top
    have kept := collect.isKnown closed.value frame
    exact ⟨closed.heap, Stack.forall_push kept below, .inr trivial⟩
  | lastArgument top collect =>
    obtain ⟨frame, below⟩ := closed.popped top
    obtain ⟨callee, evaluated⟩ := collect.isKnown closed.value frame
    refine ⟨closed.heap, Stack.forall_push ⟨callee, fun v member => ?_⟩ below, .inr callee⟩
    exact evaluated v (List.mem_reverse.1 member)
  | @branch v consequent alternate span env rest b top decided =>
    obtain ⟨⟨yes, no⟩, below⟩ := closed.popped top
    refine ⟨closed.heap, below, .inr ?_⟩
    cases b with
    | true => exact yes
    | false => exact no
  | @closure v f args span env rest c top leads counted =>
    obtain ⟨⟨-, arguments⟩, below⟩ := closed.popped top
    have grown : m.captures ≤
        (m.world.heap.enterCall c args ⟨.undelimited, env, rest⟩).2.continuations.size := by
      rw [Heap.size_continuations_enterCall]
      exact Nat.le_succ _
    exact ⟨closed.heap.enterCall c arguments below, frames_isKnown_mono below grown, .inr trivial⟩
  | @callCc v f args span env rest top leads counted =>
    obtain ⟨⟨-, arguments⟩, below⟩ := closed.popped top
    have grown := m.world.heap.le_size_newContinuation ⟨.undelimited, env, rest⟩
    have callee := (argument_isKnown arguments 0).mono grown
    refine ⟨closed.heap.newContinuation below, ?_, .inr callee⟩
    refine Stack.forall_push ⟨callee, fun w member => ?_⟩ (frames_isKnown_mono below grown)
    rw [List.mem_singleton.1 member]
    exact Heap.newContinuation_isKnown _ _
  | reset top leads counted =>
    obtain ⟨⟨-, arguments⟩, below⟩ := closed.popped top
    have callee := argument_isKnown arguments 0
    have marked := Stack.forall_push (f := .delimiter) trivial below
    refine ⟨closed.heap, Stack.forall_push ⟨callee, ?_⟩ marked, .inr callee⟩
    exact fun w none => absurd none List.not_mem_nil
  | @shift v f args span env rest piece below top leads counted cut =>
    obtain ⟨⟨-, arguments⟩, all⟩ := closed.popped top
    obtain ⟨above, beneath⟩ := Stack.forall_of_split cut all
    have grown := m.world.heap.le_size_newContinuation ⟨.delimited, env, piece⟩
    have callee := (argument_isKnown arguments 0).mono grown
    refine ⟨closed.heap.newContinuation above, ?_, .inr callee⟩
    refine Stack.forall_push ⟨callee, fun w member => ?_⟩ (frames_isKnown_mono beneath grown)
    rw [List.mem_singleton.1 member]
    exact Heap.newContinuation_isKnown _ _
  | @native v f result args span env rest function effect top leads counted found performed =>
    obtain ⟨⟨-, arguments⟩, below⟩ := closed.popped top
    have known := Native.effect_isKnown closed.heap.values arguments found
    obtain ⟨value, values⟩ := known.perform closed.heap.values
    have kept := Heap.Keeps.perform effect m.world
    rw [performed] at value
    refine ⟨closed.heap.keeps kept values, ?_, .inr (value.mono kept.captures)⟩
    exact frames_isKnown_mono below kept.captures
  | jump top leads counted whole =>
    obtain ⟨⟨-, arguments⟩, -⟩ := closed.popped top
    have captured := closed.heap.captured _ (Heap.mem_continuations_of_callee? leads)
    exact ⟨closed.heap, captured, .inr (argument_isKnown arguments 0)⟩
  | splice top leads counted part =>
    obtain ⟨⟨-, arguments⟩, below⟩ := closed.popped top
    have captured := closed.heap.captured _ (Heap.mem_continuations_of_callee? leads)
    exact ⟨closed.heap, Stack.forall_splice captured below, .inr (argument_isKnown arguments 0)⟩

/-- A transition that fails leaves only known values in the heap. -/
theorem Fails.isClosed {fault : Fault} (fail : m.Fails c fault m') (closed : m.IsClosedAt c) :
    m'.world.heap.IsClosed := by
  cases fail with
  | program scope clash | block scope clash => exact closed.heap.enterBody scope clash
  | rejects | exhausted | refuses => exact closed.heap

/-- A step leaves only known values. -/
theorem Stepped.isClosed {progress : Progress} (stepped : m.Stepped progress m')
    (closed : m.IsClosed) : m'.IsClosed := by
  have initial (count : Nat) : ∀ f ∈ Stack.initial.frames, f.IsKnown count := by
    intro f member
    obtain rfl := List.mem_singleton.1 member
    trivial
  have at_ {c : Control} (control : m.control = some c) : m.ticked.IsClosedAt c :=
    ⟨closed.heap, closed.stack, closed.control c control⟩
  cases stepped with
  | complete | idle => exact ⟨closed.heap, closed.stack, closed.control⟩
  | @proceeded c c' m' control move fits =>
    have moved := move.isClosed (at_ control)
    refine ⟨moved.heap, moved.stack, ?_⟩
    rintro _ ⟨rfl⟩
    exact moved.control
  | overflow control move => exact ⟨(move.isClosed (at_ control)).heap, initial _, nofun⟩
  | fault control fail => exact ⟨fail.isClosed (at_ control), initial _, nofun⟩

/-- A session leaves only known values. -/
theorem IsClosed.reaches {start : Machine} (closed : start.IsClosed)
    (reached : start.Reaches births m) : m.IsClosed := by
  induction reached with
  | refl => exact closed
  | step _ ih => exact (stepped _).isClosed ih
  | load _ _ ih =>
    refine ⟨ih.heap, ?_, ?_⟩
    · intro f member
      obtain rfl := List.mem_singleton.1 member
      trivial
    · rintro _ ⟨rfl⟩
      exact .inl ⟨_, rfl⟩
  | triedPreludes _ ih => exact ⟨ih.heap, ih.stack, ih.control⟩

end Machine

/-- The values of a table are values of the heap. -/
def Table.IsFrom (h : Heap) (table : Table) : Prop :=
  ∀ entry ∈ table, entry.2.IsKnown h.continuations.size

/-- The value is a captured stack. -/
def Value.isContinuation : Value → Bool
  | .continuation _ => true
  | _ => false

theorem Table.isFrom_standard (h : Heap) : Table.standard.IsFrom h := by
  have plain : ∀ entry ∈ Table.standard, entry.2.isContinuation = false := by decide
  rintro ⟨name, v⟩ member
  have this := plain _ member
  cases v with
  | continuation id => cases this
  | _ => trivial

theorem Machine.isClosed_new (settings : Settings) {table : Table} {world : World}
    (closed : world.heap.IsClosed) (values : table.IsFrom world.heap) :
    (Machine.new settings table world).IsClosed := by
  have scope := closed.newScope "global" []
  refine ⟨scope.keeps (.install _ _ _) (scope.values.install _ values), ?_, nofun⟩
  intro f member
  obtain rfl := List.mem_singleton.1 member
  trivial

/-- What sessions leave behind leads nowhere else. -/
theorem Heap.isClosed_of_isLeft (left : h.IsLeft (fun h table => table.IsFrom h) births) :
    h.IsClosed := by
  induction left with
  | @blank h scopes pairs _ continuations =>
    refine ⟨⟨fun {id head tail} found => ?_, fun {id name v isMutable} found => ?_⟩, ?_⟩
    · rw [pair?, pairs] at found
      cases found
    · rw [slot?, scope?, scopes] at found
      cases found
    · rw [continuations]
      exact fun k member => absurd member (Array.not_mem_empty k)
  | after _ values reached ih =>
    exact ((Machine.isClosed_new _ ih values).reaches reached).heap

end SourceMachine
