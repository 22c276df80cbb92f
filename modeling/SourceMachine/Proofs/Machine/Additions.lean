import SourceMachine.Proofs.Machine.StackShape

/-!
# What a transition adds

A machine can come to the frames of its stack, to those of the captured stacks, and to the
closures of its heap.  A transition adds little to them: a closure of the function that is
evaluated (`Moves.mem_closures`), the stack or a piece of it that a call captures
(`Moves.mem_continuations`), and few frames (`Brings`): those that wait for a part of the
current phrase or for a statement of the current body, and those that take the place of the
frame on top.  So a property of all frames is kept by a step if the frames have it that the
step adds (`Stepped.allFrames`).  And it makes at most one scope, the one that the record of a
session foresees (`Heap.Bears`).
-/

namespace SourceMachine

variable {c c' : Control} {m m' : Machine} {h h' : Heap} {env : Env} {fault : Fault}
  {progress : Progress} {P : Frame → Prop}

/-! ## Closures and captured stacks -/

namespace Heap

/-- A body is entered without a new closure or captured stack. -/
theorem enterBody_objects {inner : Heap} {label : String} {outer : Env} {body : List Stmt}
    {result : Except Fault Unit} (scope : h.newScope label outer = (env, inner))
    (hoisted : inner.hoist env body = (result, h')) :
    h'.closures = h.closures ∧ h'.continuations = h.continuations := by
  cases scope
  have kept := Keeps.of_hoist hoisted
  exact ⟨kept.closures, kept.continuations⟩

end Heap

namespace Machine

/-- The stacks that a transition can capture: that of a call, or the piece of it that a `shift`
    cuts out. -/
inductive Captures (m : Machine) : Captured → Prop where
  | whole {f : Value} {args : List Value} {span : Span} {env : Env} {rest : Stack}
      (top : m.stack = rest.push (.apply f args span env)) : Captures m ⟨.undelimited, env, rest⟩
  | piece {f : Value} {args : List Value} {span : Span} {env : Env} {rest piece below : Stack}
      (top : m.stack = rest.push (.apply f args span env))
      (cut : rest.split? = some (piece, below)) : Captures m ⟨.delimited, env, piece⟩

theorem Moves.mem_closures (move : m.Moves c c' m') {closure : Closure}
    (member : closure ∈ m'.world.heap.closures) :
    closure ∈ m.world.heap.closures ∨ ∃ f, closure = ⟨f, m.env⟩ ∧
      (c = .statement (.function f) ∨ c = .expression (.function f)) := by
  cases move with
  | program scope hoisted | block scope hoisted =>
    exact .inl ((Heap.enterBody_objects scope hoisted).1 ▸ member)
  | functionDeclaration => exact (Array.mem_push.1 member).imp_right fun new => ⟨_, new, .inl rfl⟩
  | function => exact (Array.mem_push.1 member).imp_right fun new => ⟨_, new, .inr rfl⟩
  | declare => exact .inl ((Heap.Keeps.define _ _ _ _ _).closures ▸ member)
  | assign _ assigned => exact .inl ((Heap.Keeps.of_set assigned).closures ▸ member)
  | closure => exact .inl ((Heap.enterCall_objects _ _ _ _).1 ▸ member)
  | native => exact .inl ((Heap.Keeps.perform _ _).closures ▸ member)
  | _ => exact .inl member

theorem Moves.mem_continuations (move : m.Moves c c' m') {k : Captured}
    (member : k ∈ m'.world.heap.continuations) : k ∈ m.world.heap.continuations ∨ m.Captures k := by
  have new {k' : Captured} (captures : m.Captures k')
      (pushed : k ∈ m.world.heap.continuations.push k') :
      k ∈ m.world.heap.continuations ∨ m.Captures k :=
    (Array.mem_push.1 pushed).imp_right fun (same : k = k') => same ▸ captures
  cases move with
  | program scope hoisted | block scope hoisted =>
    exact .inl ((Heap.enterBody_objects scope hoisted).2 ▸ member)
  | declare => exact .inl ((Heap.Keeps.define _ _ _ _ _).continuations ▸ member)
  | assign _ assigned => exact .inl ((Heap.Keeps.of_set assigned).continuations ▸ member)
  | closure top => exact new (.whole top) ((Heap.enterCall_objects _ _ _ _).2 ▸ member)
  | callCc top => exact new (.whole top) member
  | shift top _ _ cut => exact new (.piece top cut) member
  | native => exact .inl ((Heap.Keeps.perform _ _).continuations ▸ member)
  | _ => exact .inl member

/-- A transition that fails makes no closure and captures nothing. -/
theorem Fails.objects (fail : m.Fails c fault m') : m'.world.heap.closures = m.world.heap.closures ∧
      m'.world.heap.continuations = m.world.heap.continuations := by
  cases fail with
  | program scope clash | block scope clash => exact Heap.enterBody_objects scope clash
  | rejects | exhausted | refuses => exact ⟨rfl, rfl⟩

end Machine

/-! ## Frames -/

/-- Every frame of the captured stacks has a property. -/
def Heap.AllCaptured (P : Frame → Prop) (h : Heap) : Prop :=
  ∀ k ∈ h.continuations, ∀ f ∈ k.stack.frames, P f

theorem Heap.AllCaptured.of_eq_empty (none : h.continuations = #[]) : h.AllCaptured P := by
  rw [AllCaptured, none]
  exact fun k member => absurd member (Array.not_mem_empty k)

theorem Heap.AllCaptured.keeps (all : h.AllCaptured P) (kept : h.Keeps h') : h'.AllCaptured P := by
  rw [AllCaptured, kept.continuations]
  exact all

namespace Machine

/-- Every frame of the stack and of the captured stacks has a property. -/
structure AllFrames (P : Frame → Prop) (m : Machine) : Prop where
  stack : ∀ f ∈ m.stack.frames, P f
  heap : m.world.heap.AllCaptured P

theorem AllFrames.mono {Q : Frame → Prop} (all : m.AllFrames P) (imp : ∀ f, P f → Q f) :
    m.AllFrames Q :=
  ⟨fun f member => imp f (all.stack f member),
    fun k member f above => imp f (all.heap k member f above)⟩

theorem AllFrames.pop (all : m.AllFrames P) {frame : Frame} {rest : Stack}
    (top : m.stack = rest.push frame) : P frame ∧ ∀ f ∈ rest.frames, P f := by
  have frames := all.stack
  rw [top] at frames
  exact Stack.forall_of_push frames

/-- What is captured comes from the stack. -/
theorem Captures.frames {k : Captured} (captured : m.Captures k) (all : m.AllFrames P) :
    ∀ f ∈ k.stack.frames, P f := by
  cases captured with
  | whole top => exact (all.pop top).2
  | piece top cut => exact (Stack.forall_of_split cut (all.pop top).2).1

/-- The frames that a transition can add. -/
inductive Brings (m : Machine) : Control → Frame → Prop where
  | ofProgram {p : Program} {s : Stmt} (member : s ∈ p.body) :
      Brings m (.program p) (.exec s (⟨m.world.heap.scopes.size⟩ :: m.outer))
  | ofBlock {b : Block} {s : Stmt} (member : s ∈ b.body) :
      Brings m (.statement (.block b)) (.exec s (⟨m.world.heap.scopes.size⟩ :: m.env))
  | started {c c' : Control} {f : Frame} (start : Starts m.world.heap m.env c c' f) : Brings m c f
  | declared {f : Function} {id : Identifier} (named : f.id = some id) :
      Brings m (.statement (.function f)) (.declare id false m.env)
  | operand {v : Value} {op : BinaryOp} {right : Expr} {span : Span} {env : Env} {rest : Stack}
      (top : m.stack = rest.push (.leftOperand op right span env)) :
      Brings m (.value v) (.rightOperand op v span env)
  | argument {v callee : Value} {frame : Frame} {rest : Stack} {arguments : List Expr} {next : Nat}
      {evaluated : List Value} {span : Span} {env : Env} {e : Expr}
      (top : m.stack = rest.push frame)
      (collect : Collects frame v arguments next evaluated callee span env)
      (more : arguments[next]? = some e) :
      Brings m (.value v) (.argument arguments (next + 1) evaluated callee span env)
  | call {v callee : Value} {frame : Frame} {rest : Stack} {arguments : List Expr} {next : Nat}
      {evaluated : List Value} {span : Span} {env : Env} (top : m.stack = rest.push frame)
      (collect : Collects frame v arguments next evaluated callee span env) :
      Brings m (.value v) (.apply callee evaluated.reverse span env)
  /-- A control operator calls its argument. -/
  | again {v f g : Value} {args args' : List Value} {span : Span} {env : Env} {rest : Stack}
      (top : m.stack = rest.push (.apply f args span env)) :
      Brings m (.value v) (.apply g args' span env)
  | mark (v : Value) : Brings m (.value v) .delimiter

/-- A transition that succeeds keeps a property of frames that those have which it adds. -/
theorem Moves.allFrames (move : m.Moves c c' m') (all : m.AllFrames P)
    (added : ∀ f, m.Brings c f → P f) : m'.AllFrames P := by
  refine ⟨?_, fun k member => ?_⟩
  · cases move with
    | program scope =>
      cases scope
      exact Stack.forall_pushAll
        (fun s member => added _ (.ofProgram (List.mem_of_mem_tail member)))
        all.stack
    | block scope =>
      cases scope
      exact Stack.forall_pushAll (fun s member => added _ (.ofBlock (List.mem_of_mem_tail member)))
        all.stack
    | starts start => exact Stack.forall_push (added _ (.started start)) all.stack
    | functionDeclaration named => exact Stack.forall_push (added _ (.declared named)) all.stack
    | expression | literal | identifier | function => exact all.stack
    | exec top | branch top | yields top | declare top | assign top | closure top | native top =>
      exact (all.pop top).2
    | leftOperand top => exact Stack.forall_push (added _ (.operand top)) (all.pop top).2
    | nextArgument top collect more =>
      exact Stack.forall_push (added _ (.argument top collect more)) (all.pop top).2
    | lastArgument top collect =>
      exact Stack.forall_push (added _ (.call top collect)) (all.pop top).2
    | callCc top => exact Stack.forall_push (added _ (.again top)) (all.pop top).2
    | reset top =>
      exact Stack.forall_push (added _ (.again top))
        (Stack.forall_push (added _ (.mark _)) (all.pop top).2)
    | shift top leads counted cut =>
      exact Stack.forall_push (added _ (.again top)) (Stack.forall_of_split cut (all.pop top).2).2
    | jump top leads => exact all.heap _ (Heap.mem_continuations_of_callee? leads)
    | splice top leads =>
      have captured := all.heap _ (Heap.mem_continuations_of_callee? leads)
      exact Stack.forall_splice captured (all.pop top).2
  · exact (move.mem_continuations member).elim (all.heap k) (·.frames all)

theorem Fails.allCaptured (fail : m.Fails c fault m') (all : m.AllFrames P) :
    m'.world.heap.AllCaptured P := by
  rw [Heap.AllCaptured, fail.objects.2]
  exact all.heap

theorem forall_initial (halts : P .halt) : ∀ f ∈ Stack.initial.frames, P f := by
  intro f member
  rw [List.mem_singleton.1 member]
  exact halts

/-- The count of steps is not looked at. -/
theorem Brings.of_ticked {f : Frame} (brings : m.ticked.Brings c f) : m.Brings c f := by
  cases brings with
  | ofProgram member => exact .ofProgram member
  | ofBlock member => exact .ofBlock member
  | started start => exact .started start
  | declared named => exact .declared named
  | operand top => exact .operand top
  | argument top collect more => exact .argument top collect more
  | call top collect => exact .call top collect
  | again top => exact .again top
  | mark v => exact .mark v

/-- A step keeps a property of frames that those have which it adds. -/
theorem Stepped.allFrames (stepped : m.Stepped progress m') (halts : P .halt) (all : m.AllFrames P)
    (added : ∀ c f, m.control = some c → m.Brings c f → P f) : m'.AllFrames P := by
  have ticked : m.ticked.AllFrames P := ⟨all.stack, all.heap⟩
  have moves {c c' : Control} {m₁ : Machine} (control : m.control = some c)
      (move : m.ticked.Moves c c' m₁) : m₁.AllFrames P :=
    move.allFrames ticked fun f brings => added c f control brings.of_ticked
  cases stepped with
  | complete => exact ⟨all.stack, all.heap⟩
  | idle => exact all
  | proceeded control move => exact ⟨(moves control move).stack, (moves control move).heap⟩
  | overflow control move => exact ⟨forall_initial halts, (moves control move).heap⟩
  | fault control fail => exact ⟨forall_initial halts, fail.allCaptured ticked⟩

end Machine

/-! ## Scopes -/

/-- The body of a program or a block. -/
def Site.body? : Site → Option (List Stmt)
  | .program p => some p.body
  | .block b => some b.body
  | .builtins | .call .. => none

namespace Heap

/-- A change of the heap by which a scope is made: a body is entered, or a call is
    made. -/
inductive Begets (h : Heap) : Birth → Heap → Prop where
  | body {site : Site} {label : String} {outer env : Env} {inner h' : Heap} {body : List Stmt}
      {result : Except Fault Unit} (of : site.body? = some body)
      (scope : h.newScope label outer = (env, inner))
      (hoisted : inner.hoist env body = (result, h')) : Begets h ⟨site, outer⟩ h'
  | call (c : Closure) (args : List Value) (env : Env) (rest : Stack) :
      Begets h ⟨.call c.function env rest, c.env⟩
        (h.enterCall c args ⟨.undelimited, env, rest⟩).2

/-- A change of the heap by which the scope is made that goes with a birth, if there is one. -/
inductive Bears (h : Heap) : Option Birth → Heap → Prop where
  | none {h' : Heap} (labels : h'.labels = h.labels) : Bears h .none h'
  | some {birth : Birth} {h' : Heap} (begets : h.Begets birth h')
      (labels : h'.labels = h.labels ++ [birth.site.label]) : Bears h (.some birth) h'

theorem labels_newScope (h : Heap) (label : String) (outer : Env) :
    (h.newScope label outer).2.labels = h.labels ++ [label] := by
  simp [labels, newScope]

theorem labels_enterBody {inner : Heap} {label : String} {outer : Env} {body : List Stmt}
    {result : Except Fault Unit} (scope : h.newScope label outer = (env, inner))
    (hoisted : inner.hoist env body = (result, h')) : h'.labels = h.labels ++ [label] := by
  cases scope
  exact (Keeps.of_hoist hoisted).labels.trans (labels_newScope h label outer)

theorem labels_enterCall (h : Heap) (c : Closure) (args : List Value) (caller : Captured) :
    (h.enterCall c args caller).2.labels = h.labels ++ [c.function.displayName] := by
  have kept := Keeps.bindParams (h.newScope c.function.displayName c.env).2
    (⟨h.scopes.size⟩ :: c.env) c.function.params args
  rw [enterCall_snd, (Keeps.define _ _ _ _ _).labels]
  exact kept.labels.trans (labels_newScope h c.function.displayName c.env)

/-- The record of all scopes stays one. -/
theorem Bears.recorded {born : Option Birth} {births : List Birth} (bears : h.Bears born h')
    (recorded : births.map (·.site.label) = h.labels) :
    (births ++ born.toList).map (·.site.label) = h'.labels := by
  cases bears with
  | none labels => rw [Option.toList_none, List.append_nil, labels, recorded]
  | some _ labels => rw [Option.toList_some, List.map_append, recorded, labels, List.map_singleton]

theorem Bears.size_eq {born : Option Birth} (bears : h.Bears born h') :
    h'.scopes.size = h.scopes.size + born.toList.length := by
  cases bears with
  | none labels | some _ labels => simpa using congrArg List.length labels

theorem Bears.begets {birth : Birth} (bears : h.Bears (Option.some birth) h') :
    h.Begets birth h' := by
  cases bears with
  | some begets => exact begets

end Heap

namespace Machine

theorem calling?_of_closure {f : Value} {args : List Value} {span : Span} {rest : Stack}
    {c : Closure} (top : m.stack = rest.push (.apply f args span env))
    (leads : m.world.heap.callee? f = some (.closure c))
    (counted : c.function.arity.accepts args.length = true) : m.calling? = some (c, env, rest) := by
  rw [calling?_of_apply top, leads]
  exact if_pos counted

theorem Moves.bears (move : m.Moves c c' m') : m.world.heap.Bears (m.birthOf c) m'.world.heap := by
  have unborn (none : m.birthOf c = none) (labels : m'.world.heap.labels = m.world.heap.labels) :
      m.world.heap.Bears (m.birthOf c) m'.world.heap := by
    rw [none]
    exact .none labels
  cases move with
  | program scope hoisted | block scope hoisted =>
    exact .some (.body rfl scope hoisted) (Heap.labels_enterBody scope hoisted)
  | @closure v f args span env rest c top leads counted =>
    rw [birthOf, calling?_of_closure top leads counted]
    exact .some (.call c args env rest) (Heap.labels_enterCall _ _ _ _)
  | starts start => exact unborn start.birthOf_eq rfl
  | functionDeclaration | expression | literal | identifier | function => exact unborn rfl rfl
  | exec top | leftOperand top | branch top =>
    exact unborn (birthOf_value (calling?_of_frame top nofun) _) rfl
  | declare top =>
    exact unborn (birthOf_value (calling?_of_frame top nofun) _)
      (Heap.Keeps.define _ _ _ _ _).labels
  | assign top assigned =>
    exact unborn (birthOf_value (calling?_of_frame top nofun) _) (Heap.Keeps.of_set assigned).labels
  | yields top yield => exact unborn (birthOf_value (calling?_of_frame top yield.not_apply) _) rfl
  | nextArgument top collect | lastArgument top collect =>
    exact unborn (birthOf_value (calling?_of_frame top collect.not_apply) _) rfl
  | native top leads =>
    refine unborn (birthOf_value ?_ _) (Heap.Keeps.perform _ _).labels
    rw [calling?_of_apply top, leads]
  | callCc top leads | reset top leads | shift top leads | jump top leads | splice top leads =>
    refine unborn (birthOf_value ?_ _) rfl
    rw [calling?_of_apply top, leads]

theorem Fails.bears (fail : m.Fails c fault m') :
    m.world.heap.Bears (m.birthOf c) m'.world.heap := by
  have unborn (none : m.birthOf c = none) : m.world.heap.Bears (m.birthOf c) m.world.heap := by
    rw [none]
    exact .none rfl
  cases fail with
  | program scope clash | block scope clash =>
    exact .some (.body rfl scope clash) (Heap.labels_enterBody scope clash)
  | rejects reject => exact unborn reject.birthOf_eq
  | exhausted v empty => exact unborn (birthOf_value (calling?_of_nil empty) _)
  | refuses top refuse => exact unborn (birthOf_value (refuse.calling?_eq top) _)

theorem Stepped.bears (stepped : m.Stepped progress m') :
    m.world.heap.Bears m.birth? m'.world.heap := by
  cases stepped with
  | complete control top =>
    rw [birth?_of_control control, birthOf_value (calling?_of_halt top)]
    exact .none rfl
  | idle control =>
    rw [birth?, control]
    exact .none rfl
  | proceeded control move | overflow control move =>
    rw [birth?_of_control control]
    exact move.bears
  | fault control fail =>
    rw [birth?_of_control control]
    exact fail.bears

end Machine

end SourceMachine
