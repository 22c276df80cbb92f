import SourceMachine.Proofs.Heap.Resembles
import SourceMachine.Proofs.Machine.DelimitedControl
import SourceMachine.Proofs.Session.Suspension

/-!
# Machines without places

The stretches of text in a tree are only there for the faults.  `Machine.unspanned` drops
them from everything that a machine holds: from its control and its stack, from closures and
from captured stacks.  Scopes, pairs and values have none.

The machine and the machine without places go in lockstep (`step_unspanned`), so a run of the
one comes to the same as a run of the other, up to the place of a fault (`run_unspanned`).
-/

namespace SourceMachine

/-! ## Dropping places -/

/-- A control without its places. -/
def Control.unspanned : Control → Control
  | .program p => .program p.unspanned
  | .statement s => .statement s.unspanned
  | .expression e => .expression e.unspanned
  | .value v => .value v

/-- A frame without its places. -/
def Frame.unspanned : Frame → Frame
  | .halt => .halt
  | .exec s env => .exec s.unspanned env
  | .unaryOperand op _ env => .unaryOperand op {} env
  | .leftOperand op right _ env => .leftOperand op right.unspanned {} env
  | .rightOperand op left _ env => .rightOperand op left {} env
  | .declare id isMutable env => .declare id.unspanned isMutable env
  | .assign id env => .assign id.unspanned env
  | .callee arguments _ env => .callee (Expr.unspannedAll arguments) {} env
  | .argument arguments next evaluated called _ env =>
    .argument (Expr.unspannedAll arguments) next evaluated called {} env
  | .apply called arguments _ env => .apply called arguments {} env
  | .branch consequent alternate _ env =>
    .branch consequent.unspanned alternate.unspanned {} env
  | .delimiter => .delimiter

/-- A stack without its places. -/
def Stack.unspanned (s : Stack) : Stack :=
  ⟨s.frames.map Frame.unspanned, s.depth, by rw [List.length_map, s.depth_eq]⟩

/-- A captured stack without its places. -/
def Captured.unspanned (k : Captured) : Captured :=
  { k with stack := k.stack.unspanned }

/-- A closure without its places. -/
def Closure.unspanned (c : Closure) : Closure :=
  { c with function := c.function.unspanned }

/-- A heap without its places. -/
def Heap.unspanned (h : Heap) : Heap :=
  { h with
    closures := h.closures.map Closure.unspanned
    continuations := h.continuations.map Captured.unspanned }

/-- A world without its places. -/
def World.unspanned (w : World) : World :=
  { w with heap := w.heap.unspanned }

/-- A fault without its place. -/
def Fault.unspanned (f : Fault) : Fault :=
  ⟨f.cause, {}⟩

/-- A result whose fault is without its place. -/
def unplaced {α : Type} : Except Fault α → Except Fault α :=
  Except.mapError Fault.unspanned

/-- A machine without its places. -/
def Machine.unspanned (m : Machine) : Machine :=
  { m with
    control := m.control.map Control.unspanned
    stack := m.stack.unspanned
    faults := m.faults.map Fault.unspanned
    world := m.world.unspanned }

/-- What comes of a transition, without its places. -/
def Move.unspanned (move : Move) : Move :=
  (unplaced (move.1.map Control.unspanned), move.2.unspanned)

/-! ## Trees -/

theorem Identifier.name_unspanned (id : Identifier) : id.unspanned.name = id.name :=
  rfl

@[simp] theorem Expr.span_unspanned (e : Expr) : e.unspanned.span = {} := by
  cases e <;> simp only [Expr.unspanned, Expr.span, Identifier.unspanned]
  case function f => cases f; rfl
  case member access => cases access; rfl

theorem Stmt.declared?_unspanned (s : Stmt) :
    s.unspanned.declared? = s.declared?.map fun entry => (entry.1.unspanned, entry.2) := by
  cases s <;> simp only [Stmt.unspanned, Stmt.declared?, Option.map_none, Option.map_some]
  case function f =>
    cases f
    simp only [Function.unspanned, Option.map_map]
    rfl

section Functions

variable (f : Function)

theorem Function.id_unspanned : f.unspanned.id = f.id.map Identifier.unspanned := by
  cases f
  rfl

theorem Function.params_unspanned : f.unspanned.params = f.params.map Param.unspanned := by
  cases f
  rfl

theorem Function.body_unspanned : f.unspanned.body = f.body.unspanned := by
  cases f
  rfl

theorem Function.span_unspanned : f.unspanned.span = {} := by
  cases f
  rfl

theorem Function.arity_unspanned : f.unspanned.arity = f.arity := by
  rw [Function.arity, Function.arity, params_unspanned, List.getLast?_map, List.length_map]
  cases f.params.getLast? <;> rfl

theorem Function.paramsText_unspanned : f.unspanned.paramsText = f.paramsText := by
  rw [Function.paramsText, Function.paramsText, params_unspanned, List.map_map]
  rfl

theorem Function.displayName_unspanned : f.unspanned.displayName = f.displayName := by
  have text := f.paramsText_unspanned
  obtain ⟨id, params, body, isArrow, span⟩ := f
  cases id with
  | some id => rfl
  | none =>
    cases isArrow with
    | false => exact congrArg (fun text => "function (" ++ text ++ ") \x7b...\x7d") text
    | true =>
      rcases params with _ | ⟨⟨id, _ | _⟩, _ | ⟨p, rest⟩⟩
      · rfl
      · rfl
      · exact congrArg (fun text => "(" ++ text ++ ") => ...") text
      · exact congrArg (fun text => "(" ++ text ++ ") => ...") text
      · exact congrArg (fun text => "(" ++ text ++ ") => ...") text

end Functions

theorem Block.body_unspanned (b : Block) : b.unspanned.body = Stmt.unspannedAll b.body := by
  cases b
  rfl

/-! ## Stacks -/

namespace Stack

theorem unspanned_splice (s piece : Stack) :
    (s.splice piece).unspanned = s.unspanned.splice piece.unspanned := by
  apply Stack.ext
  show (s.splice piece).frames.map Frame.unspanned = _
  rw [frames_splice, frames_splice, List.map_append]
  rfl

theorem unspanned_pushAll (s : Stack) (env : Env) (body : List Stmt) :
    (s.pushAll env body).unspanned = s.unspanned.pushAll env (Stmt.unspannedAll body) := by
  induction body with
  | nil => rfl
  | cons stmt rest ih =>
    rw [Stmt.unspannedAll]
    exact congrArg (push · (.exec stmt.unspanned env)) ih

theorem top?_unspanned (s : Stack) : s.unspanned.top? = s.top?.map Frame.unspanned :=
  List.head?_map

theorem pop?_unspanned (s : Stack) :
    s.unspanned.pop? = s.pop?.map fun parts => (parts.1.unspanned, parts.2.unspanned) := by
  obtain ⟨frames, depth, depth_eq⟩ := s
  cases frames <;> rfl

theorem isDelimiter_unspanned (f : Frame) : f.unspanned = .delimiter ↔ f = .delimiter := by
  cases f <;> simp [Frame.unspanned]

theorem split?_unspanned (s : Stack) :
    s.unspanned.split? = s.split?.map fun parts => (parts.1.unspanned, parts.2.unspanned) := by
  have member (frames : List Frame) :
      .delimiter ∈ frames.map Frame.unspanned ↔ .delimiter ∈ frames := by
    simp [isDelimiter_unspanned]
  cases cut : s.split? with
  | none =>
    refine split?_eq_none_iff.2 fun inside => split?_eq_none_iff.1 cut ?_
    exact (member s.frames).1 inside
  | some parts =>
    obtain ⟨piece, below⟩ := parts
    obtain ⟨parts, absent⟩ := split?_eq_some_iff.1 cut
    refine split?_eq_some_iff.2 ⟨?_, fun inside => absent ((member piece.frames).1 inside)⟩
    show s.frames.map Frame.unspanned = _
    rw [parts, List.map_append, List.map_cons]
    rfl

end Stack

/-! ## Heaps -/

namespace Heap

variable (h : Heap)

theorem slot?_unspanned (id : ScopeId) (name : String) :
    h.unspanned.slot? id name = h.slot? id name :=
  rfl

theorem unspanned_newClosure (c : Closure) : h.unspanned.newClosure c.unspanned =
    ((h.newClosure c).1, (h.newClosure c).2.unspanned) := by
  simp [newClosure, unspanned]

theorem unspanned_newContinuation (k : Captured) : h.unspanned.newContinuation k.unspanned =
    ((h.newContinuation k).1, (h.newContinuation k).2.unspanned) := by
  simp [newContinuation, unspanned]

theorem unspanned_newListOnto (tail : Value) (reversed : List Value) :
    h.unspanned.newListOnto tail reversed =
      ((h.newListOnto tail reversed).1, (h.newListOnto tail reversed).2.unspanned) := by
  induction reversed generalizing h tail with
  | nil => rfl
  | cons v vs ih => exact ih (h.newPair v tail).2 _

theorem unspanned_newList (values : List Value) : h.unspanned.newList values =
    ((h.newList values).1, (h.newList values).2.unspanned) :=
  unspanned_newListOnto h .null values.reverse

theorem unspanned_declare (env : Env) (id : Identifier) (isMutable : Bool) :
    h.unspanned.declare env id.unspanned isMutable =
      (unplaced (h.declare env id isMutable).1, (h.declare env id isMutable).2.unspanned) := by
  cases env with
  | nil => rfl
  | cons scope outer =>
    rw [declare, declare, slot?_unspanned, id.name_unspanned]
    cases h.slot? scope id.name <;> rfl

theorem unspanned_hoist (env : Env) (body : List Stmt) :
    h.unspanned.hoist env (Stmt.unspannedAll body) =
      (unplaced (h.hoist env body).1, (h.hoist env body).2.unspanned) := by
  induction body generalizing h with
  | nil => rfl
  | cons s rest ih =>
    rw [Stmt.unspannedAll, hoist, hoist, s.declared?_unspanned]
    cases s.declared? with
    | none => exact ih h
    | some entry =>
      obtain ⟨id, isMutable⟩ := entry
      rw [Option.map_some]
      dsimp only
      rw [unspanned_declare]
      rcases h.declare env id isMutable with ⟨_ | _, h'⟩
      · rfl
      · exact ih h'

theorem checkUnassigned_unspanned (env : Env) (id : Identifier) (isMutable : Bool) :
    h.unspanned.checkUnassigned env id.unspanned isMutable =
      unplaced (h.checkUnassigned env id isMutable) := by
  have same : env.head?.bind (h.unspanned.slot? · id.unspanned.name) =
      env.head?.bind (h.slot? · id.name) := rfl
  rw [checkUnassigned, checkUnassigned, same]
  rcases env.head?.bind (h.slot? · id.name) with _ | ⟨_ | _⟩ <;> rfl

theorem unspanned_define (env : Env) (name : String) (v : Value) (isMutable : Bool) :
    h.unspanned.define env name v isMutable = (h.define env name v isMutable).unspanned := by
  cases env <;> rfl

theorem get_unspanned (id : Identifier) (env : Env) :
    h.unspanned.get id.unspanned env = unplaced (h.get id env) := by
  induction env with
  | nil => rfl
  | cons scope outer ih =>
    rw [get, get, slot?_unspanned, id.name_unspanned]
    rcases h.slot? scope id.name with _ | ⟨_ | _⟩
    · exact ih
    · rfl
    · rfl

theorem assignable_unspanned (id : Identifier) (env : Env) :
    h.unspanned.assignable id.unspanned env = unplaced (h.assignable id env) := by
  induction env with
  | nil => rfl
  | cons scope outer ih =>
    rw [assignable, assignable, slot?_unspanned, id.name_unspanned]
    rcases h.slot? scope id.name with _ | ⟨_ | ⟨v, _ | _⟩⟩
    · exact ih
    · rfl
    · rfl
    · rfl

theorem unspanned_set (id : Identifier) (v : Value) (env : Env) :
    h.unspanned.set id.unspanned v env =
      (unplaced (h.set id v env).1, (h.set id v env).2.unspanned) := by
  rw [set, set, assignable_unspanned]
  cases h.assignable id env <;> rfl

theorem lookup?_unspanned (name : String) (env : Env) :
    h.unspanned.lookup? name env = h.lookup? name env := by
  induction env with
  | nil => rfl
  | cons scope outer ih =>
    rw [lookup?, lookup?, slot?_unspanned]
    rcases h.slot? scope name with _ | ⟨_ | _⟩
    · exact ih
    · exact ih
    · rfl

theorem unspanned_bindParams (env : Env) (params : List Param) (args : List Value) :
    h.unspanned.bindParams env (params.map Param.unspanned) args =
      (h.bindParams env params args).unspanned := by
  induction params generalizing h args with
  | nil => rfl
  | cons p params ih =>
    have name : p.unspanned.id.name = p.id.name := rfl
    rw [List.map_cons, bindParams, bindParams, show p.unspanned.isRest = p.isRest from rfl]
    by_cases isRest : p.isRest = true
    · rw [if_pos isRest, if_pos isRest, unspanned_newList, name]
      dsimp only
      rw [unspanned_define]
      exact ih _ _
    · rw [if_neg isRest, if_neg isRest, name, unspanned_define]
      exact ih _ _

theorem unspanned_enterCall (c : Closure) (args : List Value) (caller : Captured) :
    h.unspanned.enterCall c.unspanned args caller.unspanned =
      ((h.enterCall c args caller).1, (h.enterCall c args caller).2.unspanned) := by
  refine Prod.ext rfl ?_
  have name : c.unspanned.function.displayName = c.function.displayName :=
    c.function.displayName_unspanned
  have params : c.unspanned.function.params = c.function.params.map Param.unspanned :=
    c.function.params_unspanned
  have bound := unspanned_bindParams (h.newScope c.function.displayName c.env).2
    (⟨h.scopes.size⟩ :: c.env) c.function.params args
  have scope : h.unspanned.newScope c.function.displayName c.env =
      ((h.newScope c.function.displayName c.env).1,
        (h.newScope c.function.displayName c.env).2.unspanned) := rfl
  rw [enterCall_snd, enterCall_snd, name, params, show c.unspanned.env = c.env from rfl, scope]
  dsimp only
  rw [show h.unspanned.scopes = h.scopes from rfl, bound, unspanned_newContinuation,
    unspanned_define]

theorem closure?_unspanned (id : ClosureId) :
    h.unspanned.closure? id = (h.closure? id).map Closure.unspanned :=
  Array.getElem?_map

theorem continuation?_unspanned (id : ContinuationId) :
    h.unspanned.continuation? id = (h.continuation? id).map Captured.unspanned :=
  Array.getElem?_map

end Heap

/-- What can be called, without its places. -/
def Callee.unspanned : Callee → Callee
  | .closure c => .closure c.unspanned
  | .builtin f => .builtin f
  | .continuation k => .continuation k.unspanned

theorem Callee.arity_unspanned (c : Callee) : c.unspanned.arity = c.arity := by
  cases c with
  | closure c => exact c.function.arity_unspanned
  | _ => rfl

theorem Heap.callee?_unspanned (h : Heap) (v : Value) :
    h.unspanned.callee? v = (h.callee? v).map Callee.unspanned := by
  cases v with
  | closure id => rw [callee?, callee?, closure?_unspanned, Option.map_map, Option.map_map]; rfl
  | continuation id =>
    rw [callee?, callee?, continuation?_unspanned, Option.map_map, Option.map_map]
    rfl
  | _ => rfl

/-! ## Texts and native functions -/

section Natives

theorem Value.leafText_unspanned (h : Heap) (v : Value) :
    v.leafText h.unspanned = v.leafText h := by
  cases v with
  | closure id =>
    rw [leafText, leafText, h.closure?_unspanned]
    cases h.closure? id with
    | none => rfl
    | some c =>
      rw [Option.map_some, Option.elim_some, Option.elim_some]
      rw [show c.unspanned.function = c.function.unspanned from rfl,
        Function.displayName_unspanned]
  | continuation id =>
    rw [leafText, leafText, h.continuation?_unspanned]
    cases h.continuation? id <;> rfl
  | _ => rfl

theorem requiredCount_unspanned (h : Heap) (v : Value) :
    requiredCount h.unspanned v = requiredCount h v := by
  rw [requiredCount, requiredCount, Heap.callee?_unspanned]
  cases h.callee? v with
  | none => rfl
  | some callee =>
    rw [Option.map_some]
    dsimp only
    rw [callee.arity_unspanned]

theorem Heap.resembles_unspanned (h : Heap) : h.Resembles (fun _ => True) h.unspanned where
  pairs := rfl
  held _ := ⟨trivial, trivial⟩
  leafText _ := Value.leafText_unspanned h _
  required _ := requiredCount_unspanned h _

theorem Effect.perform_unspanned (e : Effect) (w : World) :
    e.perform w.unspanned = ((e.perform w).1, (e.perform w).2.unspanned) := by
  cases e with
  | makeList values =>
    rw [Effect.perform, Effect.perform, show w.unspanned.heap.newList values = _ from
      w.heap.unspanned_newList values]
    rfl
  | _ => rfl

theorem Native.call_unspanned (f : Native) (args : List Value) (w : World) :
    f.call args w.unspanned = ((f.call args w).1, (f.call args w).2.unspanned) := by
  have same : f.effect args w.unspanned = f.effect args w :=
    w.heap.resembles_unspanned.effect f trivial
  rw [Native.call, Native.call, same]
  cases f.effect args w with
  | error complaint => rfl
  | ok e =>
    dsimp only
    rw [Effect.perform_unspanned]

end Natives

/-! ## Operators -/

theorem Value.condition_unspanned (v : Value) (span : Span) :
    v.condition {} = unplaced (v.condition span) := by
  cases v <;> rfl

theorem UnaryOp.apply_unspanned (op : UnaryOp) (v : Value) (span : Span) :
    op.apply v {} = unplaced (op.apply v span) := by
  cases op <;> cases v <;> rfl

theorem Comparable.of_unspanned (left right : Value) (span : Span) :
    Comparable.of left right {} = unplaced (Comparable.of left right span) := by
  cases left <;> cases right <;> rfl

theorem BinaryOp.apply_unspanned (op : BinaryOp) (left right : Value) (span : Span) :
    op.apply left right {} = unplaced (op.apply left right span) := by
  have compared := Comparable.of_unspanned left right span
  have mapped {α : Type} (f : Comparable → α) : (Comparable.of left right {}).map f =
      unplaced ((Comparable.of left right span).map f) := by
    rw [compared]
    cases Comparable.of left right span <;> rfl
  have computed (f : Float → Float → Float) :
      arithmetic f left right {} = unplaced (arithmetic f left right span) := by
    cases left <;> cases right <;> rfl
  cases op with
  | add | lt | le | gt | ge => exact mapped _
  | sub | mul | div | rem => exact computed _
  | _ => rfl

theorem Arity.check_unspanned (arity : Arity) (got : Nat) (span : Span) :
    arity.check got {} = unplaced (arity.check got span) := by
  rw [check, check]
  split <;> rfl

theorem Target.assignee_unspanned (target : Target) (op : AssignOp) (span : Span) :
    target.unspanned.assignee op {} =
      unplaced ((target.assignee op span).map Identifier.unspanned) := by
  cases op <;> cases target <;> rfl

/-! ## Transitions -/

namespace Machine

variable (m : Machine)

theorem schedule_unspanned (env : Env) (body : List Stmt) :
    m.unspanned.schedule env (Stmt.unspannedAll body) = (m.schedule env body).unspanned := by
  have declared : m.unspanned.world.heap.hoist env (Stmt.unspannedAll body) = _ :=
    m.world.heap.unspanned_hoist env body
  simp only [schedule, onHeap, declared]
  rcases m.world.heap.hoist env body with ⟨fault | done, h⟩
  · rfl
  · cases body with
    | nil => rfl
    | cons first rest =>
      refine Prod.ext rfl (Eq.symm ?_)
      exact congrArg (fun stack => { (m.withHeap h).unspanned with env, stack })
        (m.stack.unspanned_pushAll env rest)

theorem startDeclaration_unspanned (id : Identifier) (isMutable : Bool) :
    m.unspanned.startDeclaration id.unspanned isMutable =
      (unplaced (m.startDeclaration id isMutable).1,
        (m.startDeclaration id isMutable).2.unspanned) := by
  have checked :
      m.unspanned.world.heap.checkUnassigned m.unspanned.env id.unspanned isMutable = _ :=
    m.world.heap.checkUnassigned_unspanned m.env id isMutable
  simp only [startDeclaration, checked]
  cases m.world.heap.checkUnassigned m.env id isMutable <;> rfl

theorem newClosure_unspanned (f : Function) : m.unspanned.newClosure f.unspanned =
      ((m.newClosure f).1, (m.newClosure f).2.unspanned) := by
  have made : m.unspanned.world.heap.newClosure ⟨f.unspanned, m.unspanned.env⟩ = _ :=
    m.world.heap.unspanned_newClosure ⟨f, m.env⟩
  simp only [newClosure, onHeap, made]
  rfl

theorem execute_unspanned (s : Stmt) :
    m.unspanned.execute s.unspanned = (m.execute s).unspanned := by
  cases s with
  | declaration kind id init span =>
    simp only [Stmt.unspanned, execute, startDeclaration_unspanned]
    rcases m.startDeclaration id kind.isMutable with ⟨_ | _, m'⟩ <;> rfl
  | function f =>
    simp only [Stmt.unspanned, execute, f.id_unspanned, f.span_unspanned]
    cases f.id with
    | none => rfl
    | some id =>
      simp only [Option.map_some, startDeclaration_unspanned]
      rcases m.startDeclaration id false with ⟨_ | _, m'⟩
      · rfl
      · simp only [unplaced, Except.mapError, newClosure_unspanned]
        rfl
  | block b =>
    rw [Stmt.unspanned]
    show (m.withHeap (m.world.heap.newScope _ m.env).2).unspanned.schedule _ b.unspanned.body = _
    rw [b.body_unspanned, schedule_unspanned]
    rfl
  | conditional test consequent alternate span =>
    simp only [Stmt.unspanned, execute, Expr.span_unspanned]
    cases alternate <;> rfl
  | returns argument span =>
    have found : m.unspanned.world.heap.lookup? returnPoint m.unspanned.env = _ :=
      m.world.heap.lookup?_unspanned returnPoint m.env
    simp only [Stmt.unspanned, execute, found]
    cases m.world.heap.lookup? returnPoint m.env with
    | none => rfl
    | some k => cases argument <;> rfl
  | expression e span => rfl
  | _ => rfl

theorem evaluate_unspanned (e : Expr) :
    m.unspanned.evaluate e.unspanned = (m.evaluate e).unspanned := by
  cases e with
  | literal value span => rfl
  | identifier id =>
    have found : m.unspanned.world.heap.get id.unspanned m.unspanned.env = _ :=
      m.world.heap.get_unspanned id m.env
    simp only [Expr.unspanned, evaluate, found]
    cases m.world.heap.get id m.env <;> rfl
  | function f =>
    simp only [Expr.unspanned, evaluate, newClosure_unspanned]
    rfl
  | call callee arguments span => rfl
  | unary op operand span =>
    simp only [Expr.unspanned, evaluate]
    split <;> rfl
  | binary op left right span =>
    simp only [Expr.unspanned, evaluate]
    split <;> rfl
  | logical op left right span =>
    simp only [Expr.unspanned, evaluate, Expr.span_unspanned]
    cases op <;> rfl
  | conditional test consequent alternate span =>
    simp only [Expr.unspanned, evaluate, Expr.span_unspanned]
    rfl
  | assignment op target value span =>
    simp only [Expr.unspanned, evaluate, Target.assignee_unspanned target op span]
    cases target.assignee op span <;> rfl
  | member access => cases access; rfl
  | _ => rfl

theorem nextArgument_unspanned (arguments : List Expr) (next : Nat) (evaluated : List Value)
    (callee : Value) (span : Span) (env : Env) :
    m.unspanned.nextArgument (Expr.unspannedAll arguments) next evaluated callee {} env =
      (m.nextArgument arguments next evaluated callee span env).unspanned := by
  rw [nextArgument, nextArgument, Expr.unspannedAll_eq_map, List.getElem?_map]
  cases arguments[next]? with
  | none => rfl
  | some e =>
    rw [← Expr.unspannedAll_eq_map]
    rfl

theorem callControl_unspanned (op : ControlOp) (f : Value) (span : Span) :
    m.unspanned.callControl op f {} = (m.callControl op f span).unspanned := by
  cases op with
  | callCc =>
    have made : m.unspanned.world.heap.newContinuation
        ⟨.undelimited, m.unspanned.env, m.unspanned.stack⟩ = _ :=
      m.world.heap.unspanned_newContinuation ⟨.undelimited, m.env, m.stack⟩
    simp only [callControl, capture, onHeap, made]
    rfl
  | reset => rfl
  | shift =>
    have cut : m.unspanned.stack.split? = _ := m.stack.split?_unspanned
    simp only [callControl, cut]
    cases m.stack.split? with
    | none => rfl
    | some parts =>
      obtain ⟨piece, below⟩ := parts
      have made : m.unspanned.world.heap.newContinuation
          ⟨.delimited, m.unspanned.env, piece.unspanned⟩ = _ :=
        m.world.heap.unspanned_newContinuation ⟨.delimited, m.env, piece⟩
      simp only [Option.map_some, capture, onHeap, made]
      rfl

theorem call_unspanned (f : Value) (args : List Value) (span : Span) :
    m.unspanned.call f args {} = (m.call f args span).unspanned := by
  have leads : m.unspanned.world.heap.callee? f = _ := m.world.heap.callee?_unspanned f
  have text : f.text m.unspanned.world.heap = f.text m.world.heap :=
    m.world.heap.resembles_unspanned.text_eq trivial
  simp only [call, leads, text]
  cases m.world.heap.callee? f with
  | none => rfl
  | some callee =>
    simp only [Option.map_some, callee.arity_unspanned,
      Arity.check_unspanned callee.arity args.length span]
    cases callee.arity.check args.length span with
    | error fault => rfl
    | ok done =>
      cases callee with
      | closure c =>
        have entered : m.unspanned.world.heap.enterCall c.unspanned args
            ⟨.undelimited, m.unspanned.env, m.unspanned.stack⟩ = _ :=
          m.world.heap.unspanned_enterCall c args ⟨.undelimited, m.env, m.stack⟩
        refine Prod.ext ?_ ?_
        · exact congrArg (fun b => Except.ok (Control.statement (.block b)))
            c.function.body_unspanned
        · exact congrArg (fun entered : Env × Heap =>
            { m.unspanned.withHeap entered.2 with env := entered.1 }) entered
      | continuation k => 
          obtain ⟨kind, env, stack⟩ := k
          cases kind with
          | undelimited => rfl
          | delimited =>
            refine Prod.ext rfl (Eq.symm ?_)
            exact congrArg (fun stack => { m.unspanned with env, stack })
              (m.stack.unspanned_splice stack)
      | builtin function =>
        cases function with
        | control op => exact callControl_unspanned m op _ span
        | native g =>
          have called : g.call args m.unspanned.world = _ :=
            g.call_unspanned args m.world
          show m.unspanned.callNative g args {} = (m.callNative g args span).unspanned
          simp only [callNative, called]
          rcases g.call args m.world with ⟨_ | _, w⟩ <;> rfl

theorem give_unspanned (frame : Frame) (v : Value) :
    m.unspanned.give frame.unspanned v = (m.give frame v).unspanned := by
  cases frame with
  | halt | exec | leftOperand | delimiter => rfl
  | unaryOperand op span env =>
    simp only [Frame.unspanned, give, op.apply_unspanned v span]
    cases op.apply v span <;> rfl
  | rightOperand op left span env =>
    simp only [Frame.unspanned, give, op.apply_unspanned left v span]
    cases op.apply left v span <;> rfl
  | declare id isMutable env =>
    exact congrArg (fun h => (Except.ok (Control.value .undefined), m.unspanned.withHeap h))
      (m.world.heap.unspanned_define env id.name v isMutable)
  | assign id env =>
    have assigned : m.unspanned.world.heap.set id.unspanned v env = _ :=
      m.world.heap.unspanned_set id v env
    simp only [Frame.unspanned, give, onHeap, assigned]
    rcases m.world.heap.set id v env with ⟨_ | _, h⟩ <;> rfl
  | callee | argument => exact nextArgument_unspanned m _ _ _ _ _ _
  | apply => exact call_unspanned m _ _ _
  | branch consequent alternate span env =>
    simp only [Frame.unspanned, give, v.condition_unspanned span]
    rcases v.condition span with _ | ⟨_ | _⟩ <;> rfl

/-- A transition goes in the same way without places. -/
theorem transition_unspanned (c : Control) :
    m.unspanned.transition c.unspanned = (m.transition c).unspanned := by
  cases c with
  | program p =>
    exact schedule_unspanned
      { m.withHeap (m.world.heap.newScope _ m.outer).2 with outer := _, earlier := _ } _ _
  | statement s => exact execute_unspanned m s
  | expression e => exact evaluate_unspanned m e
  | value v =>
    have popped : m.unspanned.stack.pop? = _ := m.stack.pop?_unspanned
    simp only [Control.unspanned, transition, take, popped]
    cases m.stack.pop? with
    | none => rfl
    | some taken =>
      obtain ⟨frame, rest⟩ := taken
      have env : frame.unspanned.env? = frame.env? := by cases frame <;> rfl
      simp only [Option.map_some, env]
      exact give_unspanned { m with stack := rest, env := _ } frame v

end Machine

/-! ## Steps and runs -/

/-- A failure without its place. -/
def Failure.unspanned : Failure → Failure
  | .fault f => .fault f.unspanned
  | failure => failure

/-- What a step comes to, without its place. -/
def Progress.unspanned : Progress → Progress
  | .failed failure => .failed failure.unspanned
  | progress => progress

/-- What a run comes to, without its place. -/
def Outcome.unspanned : Outcome → Outcome
  | .failed failure => .failed failure.unspanned
  | outcome => outcome

theorem Progress.outcome?_unspanned (progress : Progress) :
    progress.unspanned.outcome? = progress.outcome?.map Outcome.unspanned := by
  cases progress <;> rfl

namespace Machine

variable (m : Machine)

theorem final?_unspanned : m.unspanned.final? = m.final? := by
  have top : m.unspanned.stack.top? = _ := m.stack.top?_unspanned
  rw [final?, final?, top, show m.unspanned.control = m.control.map Control.unspanned from rfl]
  rcases m.control with _ | ⟨_ | _ | _ | _⟩ <;> rcases m.stack.top? with _ | frame
  all_goals first | rfl | cases frame <;> rfl

theorem raise_unspanned (fault : Fault) :
    m.unspanned.raise fault.unspanned = (m.raise fault).unspanned := by
  simp [raise, unwind, unspanned]
  rfl

/-- The machine and the machine without places go in lockstep. -/
theorem step_unspanned : m.unspanned.step = (m.step.1.unspanned, m.step.2.unspanned) := by
  cases final : m.final? with
  | some v =>
    rw [step_of_final final, step_of_final (m.final?_unspanned.trans final)]
    rfl
  | none =>
    cases control : m.control with
    | none =>
      have control' : m.unspanned.control = none := by
        rw [show m.unspanned.control = m.control.map Control.unspanned from rfl, control]
        rfl
      rw [step_of_idle control, step_of_idle control']
      rfl
    | some c =>
      have control' : m.unspanned.control = some c.unspanned := by
        rw [show m.unspanned.control = m.control.map Control.unspanned from rfl, control]
        rfl
      have moved := transition_unspanned m.ticked c
      rw [step_of_transition control final,
        step_of_transition control' (m.final?_unspanned.trans final)]
      rw [show m.unspanned.ticked = m.ticked.unspanned from rfl, moved]
      rcases m.ticked.transition c with ⟨fault | c', m'⟩
      · exact congrArg (Progress.failed (.fault fault.unspanned), ·) (raise_unspanned m' fault)
      · show m'.unspanned.settle c'.unspanned = _
        have depth : m'.unspanned.stack.depth = m'.stack.depth := rfl
        have limit : m'.unspanned.maxDepth = m'.maxDepth := rfl
        simp only [settle, depth, limit]
        split <;> rfl

/-- A run comes to the same without places. -/
theorem run_unspanned (budget : Nat) :
    m.unspanned.run budget = ((m.run budget).1.unspanned, (m.run budget).2.unspanned) := by
  induction budget generalizing m with
  | zero => rfl
  | succ budget ih =>
    rw [run_succ, run_succ, step_unspanned, Progress.outcome?_unspanned]
    cases m.step.1.outcome? with
    | none => exact ih _
    | some outcome => rfl

theorem load_unspanned (p : Program) : (m.load p).unspanned = m.unspanned.load p.unspanned :=
  rfl

end Machine

end SourceMachine
