import Mathlib
import SourceMachine.Machine.Run

/-!
# What a transition can do

`Moves` lists the transitions that succeed and `Fails` those that end in a fault,
one constructor for each rule.  `moves_of_transition` and `fails_of_transition` say
that there are no others, so that an invariant of the machine is proved by cases on
these two relations and never by opening the transition function again.

Rules of one shape share a constructor: `Starts` collects the phrases that put one
frame on the stack and go on with a part of themselves, `Yields` the frames that
turn a value into another one, `Collects` the two frames that wait for the argument
of a call.
-/

namespace SourceMachine

variable {m : Machine} {frame : Frame} {rest s : Stack} {count : Nat} {span : Span} {v : Value}

/-- What the machine works on first when it runs a body. -/
def Control.ofBody : List Stmt → Control
  | [] => .value .undefined
  | first :: _ => .statement first

/-- The scope of a call, with the parameters and the return point in it. -/
def Heap.enterCall (h : Heap) (c : Closure) (args : List Value) (caller : Captured) : Env × Heap :=
  let (env, h) := h.newScope c.function.displayName c.env
  let h := h.bindParams env c.function.params args
  let (k, h) := h.newContinuation caller
  (env, h.define env returnPoint k false)

/-- A call makes a scope, binds the parameters in it, and then its return point. -/
theorem Heap.enterCall_snd (h : Heap) (c : Closure) (args : List Value) (caller : Captured) :
    (h.enterCall c args caller).2 =
      let inner := (h.newScope c.function.displayName c.env).2.bindParams (⟨h.scopes.size⟩ :: c.env)
        c.function.params args
      (inner.newContinuation caller).2.define (⟨h.scopes.size⟩ :: c.env) returnPoint
        (inner.newContinuation caller).1 false :=
  rfl

theorem Stack.pop?_eq_some (h : s.pop? = some (frame, rest)) : s = rest.push frame := by
  unfold Stack.pop? at h
  split at h
  · contradiction
  · next f fs hfs =>
    obtain ⟨rfl, rfl⟩ := Prod.mk.inj (Option.some.inj h)
    exact Stack.ext hfs

theorem Stack.pop?_eq_none (h : s.pop? = none) : s.frames = [] := by
  unfold Stack.pop? at h
  split at h
  · next hfs => exact hfs
  · contradiction

theorem Heap.callee?_of_captured {h : Heap} {id : ContinuationId} {k : Captured}
    (captured : h.continuation? id = some k) :
    h.callee? (.continuation id) = some (.continuation k) :=
  congrArg (Option.map Callee.continuation) captured

namespace Machine

/-- The machine with another heap. -/
def withHeap (m : Machine) (h : Heap) : Machine :=
  { m with world := { m.world with heap := h } }

/-- The machine after the frame on top of its stack was taken. -/
def popped (m : Machine) (frame : Frame) (rest : Stack) : Machine :=
  { m with stack := rest, env := frame.env?.getD m.env }

/-- A value is given to the frame on top of the stack. -/
theorem transition_of_top (top : m.stack = rest.push frame) (v : Value) :
    m.transition (.value v) = (m.popped frame rest).give frame v := by
  rw [transition, take, top]
  rfl

/-- A captured stack goes on with the value that it is given. -/
theorem transition_of_captured {env : Env} {id : ContinuationId} {k : Captured}
    (top : m.stack = rest.push (.apply (.continuation id) [v] span env))
    (captured : m.world.heap.continuation? id = some k) (w : Value) :
    m.transition (.value w) =
      (m.popped (.apply (.continuation id) [v] span env) rest).resume k v := by
  rw [transition_of_top top]
  show call _ _ _ _ = _
  rw [call, show (m.popped _ rest).world.heap.callee? (.continuation id) = _ from
    Heap.callee?_of_captured captured]
  rfl

/-! ## Phrases that wait for a part of themselves -/

/-- A phrase is started in some scopes: what comes first, and the frame that waits
    for its value. -/
inductive Starts (h : Heap) (env : Env) : Control → Control → Frame → Prop where
  | call (callee : Expr) (arguments : List Expr) (span : Span) :
      Starts h env (.expression (.call callee arguments span)) (.expression callee)
        (.callee arguments span env)
  | unary {op : UnaryOp} (operand : Expr) (span : Span) (hop : op ≠ .typeof) :
      Starts h env (.expression (.unary op operand span)) (.expression operand)
        (.unaryOperand op span env)
  | binary {op : BinaryOp} (left right : Expr) (span : Span)
      (hop : ¬(op = .looseEq ∨ op = .looseNotEq)) :
      Starts h env (.expression (.binary op left right span)) (.expression left)
        (.leftOperand op right span env)
  | conjunction (left right : Expr) (span : Span) :
      Starts h env (.expression (.logical .and left right span)) (.expression left)
        (.branch (.expression right) (.value (.boolean false)) left.span env)
  | disjunction (left right : Expr) (span : Span) :
      Starts h env (.expression (.logical .or left right span)) (.expression left)
        (.branch (.value (.boolean true)) (.expression right) left.span env)
  | choice (test consequent alternate : Expr) (span : Span) :
      Starts h env (.expression (.conditional test consequent alternate span)) (.expression test)
        (.branch (.expression consequent) (.expression alternate) test.span env)
  | assignment {op : AssignOp} {target : Target} {id : Identifier} (value : Expr) (span : Span)
      (hid : target.assignee op span = .ok id) :
      Starts h env (.expression (.assignment op target value span)) (.expression value)
        (.assign id env)
  | declaration {kind : DeclarationKind} {id : Identifier} (init : Expr) (span : Span)
      (fresh : h.checkUnassigned env id kind.isMutable = .ok ()) :
      Starts h env (.statement (.declaration kind id init span)) (.expression init)
        (.declare id kind.isMutable env)
  | conditional (test : Expr) (consequent : Stmt) (alternate : Option Stmt) (span : Span) :
      Starts h env (.statement (.conditional test consequent alternate span)) (.expression test)
        (.branch (.statement consequent) (alternate.elim (.value .undefined) .statement) test.span
          env)
  | returns {k : Value} (argument : Option Expr) (span : Span)
      (point : h.lookup? returnPoint env = some k) :
      Starts h env (.statement (.returns argument span))
        (argument.elim (.value .undefined) .expression) (.argument [] 0 [] k span env)

/-- A frame turns a value into another one. -/
inductive Yields : Frame → Value → Value → Prop where
  | unary {op : UnaryOp} {span : Span} {env : Env} {v result : Value}
      (applied : op.apply v span = .ok result) : Yields (.unaryOperand op span env) v result
  | binary {op : BinaryOp} {left : Value} {span : Span} {env : Env} {v result : Value}
      (applied : op.apply left v span = .ok result) :
      Yields (.rightOperand op left span env) v result
  | delimiter (v : Value) : Yields .delimiter v v

/-- A frame with a value that makes up the first part of a call: all arguments, the
    position of the next one, the evaluated ones (latest first), and what is
    called. -/
inductive Collects : Frame → Value → List Expr → Nat → List Value → Value → Span → Env → Prop where
  | callee (arguments : List Expr) (span : Span) (env : Env) (v : Value) :
      Collects (.callee arguments span env) v arguments 0 [] v span env
  | argument (arguments : List Expr) (next : Nat) (evaluated : List Value) (callee : Value)
      (span : Span) (env : Env) (v : Value) :
      Collects (.argument arguments next evaluated callee span env) v arguments next
        (v :: evaluated) callee span env

/-! ## Transitions that succeed -/

/-- A transition from a control to another one, and the machine after it. -/
inductive Moves (m : Machine) : Control → Control → Machine → Prop where
  | program {p : Program} {env : Env} {inner h : Heap}
      (scope : m.world.heap.newScope "programEnvironment" m.outer = (env, inner))
      (hoisted : inner.hoist env p.body = (.ok (), h)) :
      Moves m (.program p) (.ofBody p.body)
        { m.withHeap h with
          env
          outer := env
          earlier := m.outer :: m.earlier
          stack := m.stack.pushAll env p.body.tail }
  | block {b : Block} {env : Env} {inner h : Heap}
      (scope : m.world.heap.newScope "blockEnvironment" m.env = (env, inner))
      (hoisted : inner.hoist env b.body = (.ok (), h)) :
      Moves m (.statement (.block b)) (.ofBody b.body)
        { m.withHeap h with env, stack := m.stack.pushAll env b.body.tail }
  | starts {c c' : Control} {frame : Frame} (start : Starts m.world.heap m.env c c' frame) :
      Moves m c c' (m.push frame)
  | functionDeclaration {f : Function} {id : Identifier} (named : f.id = some id)
      (fresh : m.world.heap.checkUnassigned m.env id false = .ok ()) :
      Moves m (.statement (.function f)) (.value (m.newClosure f).1)
        ((m.newClosure f).2.push (.declare id false m.env))
  | expression (e : Expr) (span : Span) :
      Moves m (.statement (.expression e span)) (.expression e) m
  | literal (l : Literal) (span : Span) :
      Moves m (.expression (.literal l span)) (.value l.value) m
  | identifier {id : Identifier} {v : Value} (found : m.world.heap.get id m.env = .ok v) :
      Moves m (.expression (.identifier id)) (.value v) m
  | function (f : Function) :
      Moves m (.expression (.function f)) (.value (m.newClosure f).1) (m.newClosure f).2
  | exec {v : Value} {s : Stmt} {env : Env} {rest : Stack}
      (top : m.stack = rest.push (.exec s env)) :
      Moves m (.value v) (.statement s) (m.popped (.exec s env) rest)
  | yields {v result : Value} {frame : Frame} {rest : Stack} (top : m.stack = rest.push frame)
      (yield : Yields frame v result) :
      Moves m (.value v) (.value result) (m.popped frame rest)
  | leftOperand {v : Value} {op : BinaryOp} {right : Expr} {span : Span} {env : Env} {rest : Stack}
      (top : m.stack = rest.push (.leftOperand op right span env)) :
      Moves m (.value v) (.expression right)
        ((m.popped (.leftOperand op right span env) rest).push (.rightOperand op v span env))
  | declare {v : Value} {id : Identifier} {isMutable : Bool} {env : Env} {rest : Stack}
      (top : m.stack = rest.push (.declare id isMutable env)) :
      Moves m (.value v) (.value .undefined)
        ((m.popped (.declare id isMutable env) rest).withHeap
          (m.world.heap.define env id.name v isMutable))
  | assign {v : Value} {id : Identifier} {env : Env} {rest : Stack} {h : Heap}
      (top : m.stack = rest.push (.assign id env))
      (assigned : m.world.heap.set id v env = (.ok (), h)) :
      Moves m (.value v) (.value .undefined) ((m.popped (.assign id env) rest).withHeap h)
  | nextArgument {v callee : Value} {frame : Frame} {rest : Stack} {arguments : List Expr}
      {next : Nat} {evaluated : List Value} {span : Span} {env : Env} {e : Expr}
      (top : m.stack = rest.push frame)
      (collect : Collects frame v arguments next evaluated callee span env)
      (more : arguments[next]? = some e) :
      Moves m (.value v) (.expression e)
        ((m.popped frame rest).push (.argument arguments (next + 1) evaluated callee span env))
  | lastArgument {v callee : Value} {frame : Frame} {rest : Stack} {arguments : List Expr}
      {next : Nat} {evaluated : List Value} {span : Span} {env : Env}
      (top : m.stack = rest.push frame)
      (collect : Collects frame v arguments next evaluated callee span env)
      (last : arguments[next]? = none) :
      Moves m (.value v) (.value callee)
        ((m.popped frame rest).push (.apply callee evaluated.reverse span env))
  | branch {v : Value} {consequent alternate : Control} {span : Span} {env : Env} {rest : Stack}
      {b : Bool} (top : m.stack = rest.push (.branch consequent alternate span env))
      (decided : v.condition span = .ok b) :
      Moves m (.value v) (if b then consequent else alternate)
        (m.popped (.branch consequent alternate span env) rest)
  | closure {v f : Value} {args : List Value} {span : Span} {env : Env} {rest : Stack}
      {c : Closure} (top : m.stack = rest.push (.apply f args span env))
      (leads : m.world.heap.callee? f = some (.closure c))
      (counted : c.function.arity.accepts args.length = true) :
      Moves m (.value v) (.statement (.block c.function.body))
        { (m.popped (.apply f args span env) rest).withHeap
            (m.world.heap.enterCall c args ⟨.undelimited, env, rest⟩).2 with
          env := (m.world.heap.enterCall c args ⟨.undelimited, env, rest⟩).1 }
  | callCc {v f : Value} {args : List Value} {span : Span} {env : Env} {rest : Stack}
      (top : m.stack = rest.push (.apply f args span env))
      (leads : m.world.heap.callee? f = some (.builtin (.control .callCc)))
      (counted : args.length = 1) :
      Moves m (.value v) (.value (argument args 0))
        (((m.popped (.apply f args span env) rest).withHeap
          (m.world.heap.newContinuation ⟨.undelimited, env, rest⟩).2).push
            (.apply (argument args 0)
              [(m.world.heap.newContinuation ⟨.undelimited, env, rest⟩).1] span env))
  | reset {v f : Value} {args : List Value} {span : Span} {env : Env} {rest : Stack}
      (top : m.stack = rest.push (.apply f args span env))
      (leads : m.world.heap.callee? f = some (.builtin (.control .reset)))
      (counted : args.length = 1) :
      Moves m (.value v) (.value (argument args 0))
        (((m.popped (.apply f args span env) rest).push .delimiter).push
          (.apply (argument args 0) [] span env))
  | shift {v f : Value} {args : List Value} {span : Span} {env : Env} {rest piece below : Stack}
      (top : m.stack = rest.push (.apply f args span env))
      (leads : m.world.heap.callee? f = some (.builtin (.control .shift)))
      (counted : args.length = 1) (cut : rest.split? = some (piece, below)) :
      Moves m (.value v) (.value (argument args 0))
        (((m.popped (.apply f args span env) below).withHeap
          (m.world.heap.newContinuation ⟨.delimited, env, piece⟩).2).push
            (.apply (argument args 0)
              [(m.world.heap.newContinuation ⟨.delimited, env, piece⟩).1] span env))
  | native {v f result : Value} {args : List Value} {span : Span} {env : Env} {rest : Stack}
      {function : Native} {effect : Effect} (top : m.stack = rest.push (.apply f args span env))
      (leads : m.world.heap.callee? f = some (.builtin (.native function)))
      (counted : function.arity.accepts args.length = true)
      (found : function.effect args m.world = .ok effect)
      (performed : (effect.perform m.world).1 = result) :
      Moves m (.value v) (.value result)
        { m.popped (.apply f args span env) rest with world := (effect.perform m.world).2 }
  | jump {v f : Value} {args : List Value} {span : Span} {env : Env} {rest : Stack} {k : Captured}
      (top : m.stack = rest.push (.apply f args span env))
      (leads : m.world.heap.callee? f = some (.continuation k)) (counted : args.length = 1)
      (whole : k.kind = .undelimited) :
      Moves m (.value v) (.value (argument args 0))
        { m.popped (.apply f args span env) rest with env := k.env, stack := k.stack }
  | splice {v f : Value} {args : List Value} {span : Span} {env : Env} {rest : Stack}
      {k : Captured} (top : m.stack = rest.push (.apply f args span env))
      (leads : m.world.heap.callee? f = some (.continuation k)) (counted : args.length = 1)
      (part : k.kind = .delimited) :
      Moves m (.value v) (.value (argument args 0))
        { m.popped (.apply f args span env) rest with env := k.env, stack := rest.splice k.stack }

/-! ## Transitions that fail -/

/-- A phrase that is at fault before any part of it is evaluated. -/
inductive Rejects (h : Heap) (env : Env) : Control → Fault → Prop where
  | declaration {kind : DeclarationKind} {id : Identifier} {init : Expr} {span : Span}
      {fault : Fault} (assigned : h.checkUnassigned env id kind.isMutable = .error fault) :
      Rejects h env (.statement (.declaration kind id init span)) fault
  | unnamed {f : Function} (unnamed : f.id = none) :
      Rejects h env (.statement (.function f))
        ⟨.unsupported "anonymous function declaration", f.span⟩
  | function {f : Function} {id : Identifier} {fault : Fault} (named : f.id = some id)
      (assigned : h.checkUnassigned env id false = .error fault) :
      Rejects h env (.statement (.function f)) fault
  | returns (argument : Option Expr) (span : Span) (outside : h.lookup? returnPoint env = none) :
      Rejects h env (.statement (.returns argument span)) ⟨.returnOutsideFunction, span⟩
  | statement {s : Stmt} {construct : String} (construct_eq : s.unsupported? = some construct) :
      Rejects h env (.statement s) ⟨.unsupported construct, s.span⟩
  | identifier {id : Identifier} {fault : Fault} (missing : h.get id env = .error fault) :
      Rejects h env (.expression (.identifier id)) fault
  | typeof (operand : Expr) (span : Span) :
      Rejects h env (.expression (.unary .typeof operand span))
        (.unsupportedOperator UnaryOp.typeof.text span)
  | loose {op : BinaryOp} (left right : Expr) (span : Span)
      (hop : op = .looseEq ∨ op = .looseNotEq) :
      Rejects h env (.expression (.binary op left right span)) (.unsupportedOperator op.text span)
  | nullish (left right : Expr) (span : Span) :
      Rejects h env (.expression (.logical .nullish left right span))
        (.unsupportedOperator LogicalOp.nullish.text span)
  | assignment {op : AssignOp} {target : Target} {span : Span} {fault : Fault} (value : Expr)
      (refused : target.assignee op span = .error fault) :
      Rejects h env (.expression (.assignment op target value span)) fault
  | expression {e : Expr} {construct : String} (construct_eq : e.unsupported? = some construct) :
      Rejects h env (.expression e) ⟨.unsupported construct, e.span⟩

/-- A frame that a value is given to, and the fault that comes of it. -/
inductive Refuses (m : Machine) (rest : Stack) : Frame → Value → Fault → Prop where
  | unary {op : UnaryOp} {span : Span} {env : Env} {v : Value} {fault : Fault}
      (applied : op.apply v span = .error fault) :
      Refuses m rest (.unaryOperand op span env) v fault
  | binary {op : BinaryOp} {left : Value} {span : Span} {env : Env} {v : Value} {fault : Fault}
      (applied : op.apply left v span = .error fault) :
      Refuses m rest (.rightOperand op left span env) v fault
  | assign {id : Identifier} {env : Env} {v : Value} {fault : Fault}
      (refused : m.world.heap.assignable id env = .error fault) :
      Refuses m rest (.assign id env) v fault
  | branch {consequent alternate : Control} {span : Span} {env : Env} {v : Value} {fault : Fault}
      (undecided : v.condition span = .error fault) :
      Refuses m rest (.branch consequent alternate span env) v fault
  | notCallable {f : Value} (args : List Value) (span : Span) (env : Env) (v : Value)
      (leads : m.world.heap.callee? f = none) :
      Refuses m rest (.apply f args span env) v ⟨.notCallable (f.text m.world.heap), span⟩
  | arity {f : Value} {callee : Callee} {args : List Value} {span : Span} {env : Env} {v : Value}
      {fault : Fault} (leads : m.world.heap.callee? f = some callee)
      (counted : callee.arity.check args.length span = .error fault) :
      Refuses m rest (.apply f args span env) v fault
  | shift {f : Value} {args : List Value} (span : Span) (env : Env) (v : Value)
      (leads : m.world.heap.callee? f = some (.builtin (.control .shift)))
      (counted : args.length = 1) (uncut : rest.split? = none) :
      Refuses m rest (.apply f args span env) v ⟨.shiftWithoutReset, span⟩
  | native {f : Value} {args : List Value} {function : Native} {complaint : Complaint} (span : Span)
      (env : Env) (v : Value) (leads : m.world.heap.callee? f = some (.builtin (.native function)))
      (counted : function.arity.accepts args.length = true)
      (complained : function.effect args m.world = .error complaint) :
      Refuses m rest (.apply f args span env) v ⟨.builtin function.name complaint, span⟩

/-- A transition that ends in a fault, and the machine that it leaves.  Only entering
    a body changes anything that outlives the fault. -/
inductive Fails (m : Machine) : Control → Fault → Machine → Prop where
  | program {p : Program} {env : Env} {inner h : Heap} {fault : Fault}
      (scope : m.world.heap.newScope "programEnvironment" m.outer = (env, inner))
      (clash : inner.hoist env p.body = (.error fault, h)) :
      Fails m (.program p) fault
        { m.withHeap h with outer := env, earlier := m.outer :: m.earlier }
  | block {b : Block} {env : Env} {inner h : Heap} {fault : Fault}
      (scope : m.world.heap.newScope "blockEnvironment" m.env = (env, inner))
      (clash : inner.hoist env b.body = (.error fault, h)) :
      Fails m (.statement (.block b)) fault (m.withHeap h)
  | rejects {c : Control} {fault : Fault} (reject : Rejects m.world.heap m.env c fault) :
      Fails m c fault m
  | exhausted (v : Value) (empty : m.stack.frames = []) :
      Fails m (.value v) ⟨.stackExhausted, {}⟩ m
  | refuses {v : Value} {frame : Frame} {rest : Stack} {fault : Fault}
      (top : m.stack = rest.push frame) (refuse : Refuses m rest frame v fault) :
      Fails m (.value v) fault (m.popped frame rest)

/-! ## There are no other transitions -/

/-- A body is hoisted, and all but its first statement wait on the stack. -/
theorem schedule_eq (m : Machine) (env : Env) (body : List Stmt) : m.schedule env body =
      match m.world.heap.hoist env body with
      | (.error fault, h) => (.error fault, m.withHeap h)
      | (.ok (), h) =>
        (.ok (.ofBody body),
          { m.withHeap h with env, stack := m.stack.pushAll env body.tail }) := by
  unfold schedule onHeap
  dsimp only
  generalize m.world.heap.hoist env body = hoisted
  obtain ⟨_ | _, h⟩ := hoisted
  · rfl
  · cases body <;> rfl

/-- What a transition leads to, in terms of the two relations. -/
def Leads (m : Machine) (c : Control) (move : Move) : Prop :=
  match move with
  | (.ok c', m') => m.Moves c c' m'
  | (.error fault, m') => m.Fails c fault m'

theorem leads_enterProgram (m : Machine) (p : Program) :
    m.Leads (.program p) (m.enterProgram p) := by
  obtain ⟨env, inner, scope⟩ : ∃ env inner,
      m.world.heap.newScope "programEnvironment" m.outer = (env, inner) := ⟨_, _, rfl⟩
  have entered : m.enterProgram p = { m.withHeap inner with
      outer := env, earlier := m.outer :: m.earlier }.schedule env p.body := by
    cases scope
    rfl
  rw [entered, schedule_eq]
  change m.Leads _ (match inner.hoist env p.body with | (.error _, _) => _ | (.ok (), _) => _)
  cases hoisted : inner.hoist env p.body with
  | mk result h =>
    cases result with
    | error fault => exact Fails.program scope hoisted
    | ok _ => exact Moves.program scope hoisted

theorem leads_enterBlock (m : Machine) (b : Block) :
    m.Leads (.statement (.block b)) (m.enterBlock b) := by
  obtain ⟨env, inner, scope⟩ : ∃ env inner,
      m.world.heap.newScope "blockEnvironment" m.env = (env, inner) := ⟨_, _, rfl⟩
  have entered : m.enterBlock b = (m.withHeap inner).schedule env b.body := by
    cases scope
    rfl
  rw [entered, schedule_eq]
  change m.Leads _ (match inner.hoist env b.body with | (.error _, _) => _ | (.ok (), _) => _)
  cases hoisted : inner.hoist env b.body with
  | mk result h =>
    cases result with
    | error fault => exact Fails.block scope hoisted
    | ok _ => exact Moves.block scope hoisted

/-- Every statement goes on as one of the rules says. -/
theorem leads_execute (m : Machine) (s : Stmt) : m.Leads (.statement s) (m.execute s) := by
  cases s with
  | declaration kind id init span =>
    simp only [execute, startDeclaration]
    cases fresh : m.world.heap.checkUnassigned m.env id kind.isMutable with
    | error fault => exact Fails.rejects (.declaration fresh)
    | ok _ => exact Moves.starts (.declaration init span fresh)
  | function f =>
    simp only [execute]
    cases named : f.id with
    | none => exact Fails.rejects (.unnamed named)
    | some id =>
      simp only [startDeclaration]
      cases fresh : m.world.heap.checkUnassigned m.env id false with
      | error fault => exact Fails.rejects (.function named fresh)
      | ok _ => exact Moves.functionDeclaration named fresh
  | block b => exact leads_enterBlock m b
  | conditional test consequent alternate span =>
    exact Moves.starts (.conditional test consequent alternate span)
  | returns argument span =>
    simp only [execute]
    cases point : m.world.heap.lookup? returnPoint m.env with
    | none => exact Fails.rejects (.returns argument span point)
    | some k => exact Moves.starts (.returns argument span point)
  | expression e span => exact Moves.expression e span
  | _ =>
    exact Fails.rejects (.statement rfl)

/-- So does every expression. -/
theorem leads_evaluate (m : Machine) (e : Expr) : m.Leads (.expression e) (m.evaluate e) := by
  cases e with
  | literal value span => exact Moves.literal value span
  | identifier id =>
    simp only [evaluate]
    cases found : m.world.heap.get id m.env with
    | error fault => exact Fails.rejects (.identifier found)
    | ok v => exact Moves.identifier found
  | unary op operand span =>
    simp only [evaluate]
    by_cases hop : op = .typeof
    · subst hop
      exact Fails.rejects (.typeof operand span)
    · rw [if_neg hop]
      exact Moves.starts (.unary operand span hop)
  | binary op left right span =>
    simp only [evaluate]
    by_cases hop : op = .looseEq ∨ op = .looseNotEq
    · rw [if_pos hop]
      exact Fails.rejects (.loose left right span hop)
    · rw [if_neg hop]
      exact Moves.starts (.binary left right span hop)
  | logical op left right span =>
    cases op with
    | and => exact Moves.starts (.conjunction left right span)
    | or => exact Moves.starts (.disjunction left right span)
    | nullish => exact Fails.rejects (.nullish left right span)
  | conditional test consequent alternate span =>
    exact Moves.starts (.choice test consequent alternate span)
  | call callee arguments span => exact Moves.starts (.call callee arguments span)
  | assignment op target value span =>
    simp only [evaluate]
    cases hid : target.assignee op span with
    | error fault => exact Fails.rejects (.assignment value hid)
    | ok id => exact Moves.starts (.assignment value span hid)
  | function f => exact Moves.function f
  | _ => exact Fails.rejects (.expression rfl)

theorem check_eq_ok {arity : Arity} {u : Unit} (h : arity.check count span = .ok u) :
    arity.accepts count = true := by
  unfold Arity.check at h
  split at h
  · assumption
  · contradiction

theorem accepts_exact_one (h : (Arity.exact 1).accepts count = true) : count = 1 := by
  simpa [Arity.accepts] using h

section Call

variable {m : Machine} {rest : Stack} {f : Value} {args : List Value} {span : Span} {env : Env}

variable (v) (top : m.stack = rest.push (.apply f args span env))

include v top

theorem leads_callControl {op : ControlOp}
    (leads : m.world.heap.callee? f = some (.builtin (.control op))) (counted : args.length = 1) :
    m.Leads (.value v)
      ((m.popped (.apply f args span env) rest).callControl op (argument args 0) span) := by
  cases op with
  | callCc => exact Moves.callCc top leads counted
  | reset => exact Moves.reset top leads counted
  | shift =>
    simp only [callControl]
    rw [show (m.popped (.apply f args span env) rest).stack = rest from rfl]
    cases cut : rest.split? with
    | none => exact Fails.refuses top (.shift span env v leads counted cut)
    | some pieces => exact Moves.shift top leads counted cut

theorem leads_callNative {function : Native}
    (leads : m.world.heap.callee? f = some (.builtin (.native function)))
    (counted : function.arity.accepts args.length = true) :
    m.Leads (.value v)
      ((m.popped (.apply f args span env) rest).callNative function args span) := by
  simp only [callNative, Native.call]
  rw [show (m.popped (.apply f args span env) rest).world = m.world from rfl]
  cases found : function.effect args m.world with
  | error complaint => exact Fails.refuses top (.native span env v leads counted found)
  | ok effect => exact Moves.native top leads counted found rfl

theorem leads_resume {k : Captured} (leads : m.world.heap.callee? f = some (.continuation k))
    (counted : args.length = 1) :
    m.Leads (.value v)
      ((m.popped (.apply f args span env) rest).resume k (argument args 0)) := by
  unfold resume
  cases kind : k.kind with
  | undelimited => exact Moves.jump top leads counted kind
  | delimited => exact Moves.splice top leads counted kind

/-- So does every call, whatever is called. -/
theorem leads_call :
    m.Leads (.value v) ((m.popped (.apply f args span env) rest).call f args span) := by
  unfold call
  rw [show (m.popped (.apply f args span env) rest).world = m.world from rfl]
  cases leads : m.world.heap.callee? f with
  | none => exact Fails.refuses top (.notCallable args span env v leads)
  | some callee =>
    dsimp only
    cases counted : callee.arity.check args.length span with
    | error fault => exact Fails.refuses top (.arity leads counted)
    | ok _ =>
      have accepted := check_eq_ok counted
      cases callee with
      | closure c => exact Moves.closure top leads accepted
      | builtin function =>
        cases function with
        | control op => exact leads_callControl v top leads (accepts_exact_one accepted)
        | native function => exact leads_callNative v top leads accepted
      | continuation k => exact leads_resume v top leads (accepts_exact_one accepted)

end Call

theorem leads_nextArgument {callee : Value} {arguments : List Expr} {next : Nat}
    {evaluated : List Value} {env : Env} (top : m.stack = rest.push frame)
    (collect : Collects frame v arguments next evaluated callee span env) : m.Leads (.value v)
      ((m.popped frame rest).nextArgument arguments next evaluated callee span env) := by
  unfold nextArgument
  cases more : arguments[next]? with
  | none => exact Moves.lastArgument top collect more
  | some e => exact Moves.nextArgument top collect more

/-- So does every value at a frame, unless this frame ends the program. -/
theorem leads_give (v : Value) (top : m.stack = rest.push frame) (notHalt : frame ≠ .halt) :
    m.Leads (.value v) ((m.popped frame rest).give frame v) := by
  cases frame with
  | halt => exact absurd rfl notHalt
  | exec s env => exact Moves.exec top
  | unaryOperand op span env =>
    simp only [give]
    cases applied : op.apply v span with
    | error fault => exact Fails.refuses top (.unary applied)
    | ok result => exact Moves.yields top (.unary applied)
  | leftOperand op right span env => exact Moves.leftOperand top
  | rightOperand op left span env =>
    simp only [give]
    cases applied : op.apply left v span with
    | error fault => exact Fails.refuses top (.binary applied)
    | ok result => exact Moves.yields top (.binary applied)
  | declare id isMutable env => exact Moves.declare top
  | assign id env =>
    cases refused : m.world.heap.assignable id env with
    | error fault =>
      have unchanged : (m.popped (.assign id env) rest).give (.assign id env) v =
          (.error fault, m.popped (.assign id env) rest) := by
        simp only [give, onHeap, Heap.set, popped, refused]
      rw [unchanged]
      exact Fails.refuses top (.assign refused)
    | ok scope =>
      have assigned : m.world.heap.set id v env =
          (.ok (), m.world.heap.bind scope id.name (.assigned v true)) := by
        simp only [Heap.set, refused]
      have changed : (m.popped (.assign id env) rest).give (.assign id env) v =
          (.ok (.value .undefined), (m.popped (.assign id env) rest).withHeap
            (m.world.heap.bind scope id.name (.assigned v true))) := by
        simp only [give, onHeap, popped, assigned, withHeap]
      rw [changed]
      exact Moves.assign top assigned
  | callee arguments span env => exact leads_nextArgument top (.callee arguments span env v)
  | argument arguments next evaluated callee span env =>
    exact leads_nextArgument top (.argument arguments next evaluated callee span env v)
  | apply f args span env => exact leads_call v top
  | branch consequent alternate span env =>
    simp only [give]
    cases decided : v.condition span with
    | error fault => exact Fails.refuses top (.branch decided)
    | ok b => exact Moves.branch top decided
  | delimiter => exact Moves.yields top (.delimiter v)

theorem leads_take (notHalt : m.stack.top? ≠ some .halt) : m.Leads (.value v) (m.take v) := by
  unfold take
  cases popped : m.stack.pop? with
  | none => exact Fails.exhausted v (Stack.pop?_eq_none popped)
  | some taken =>
    obtain ⟨frame, rest⟩ := taken
    have top := Stack.pop?_eq_some popped
    refine leads_give v top ?_
    rintro rfl
    exact notHalt (by rw [top]; rfl)

/-- Every transition of a machine that is not at its end is one of the listed
    ones. -/
theorem leads_transition {c : Control} (notFinal : ∀ v, c = .value v → m.stack.top? ≠ some .halt) :
    m.Leads c (m.transition c) := by
  cases c with
  | program p => exact leads_enterProgram m p
  | statement s => exact leads_execute m s
  | expression e => exact leads_evaluate m e
  | value v => exact leads_take (notFinal v rfl)

end Machine

end SourceMachine
