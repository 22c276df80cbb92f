import SourceMachine.Proofs.Heap.Sees
import SourceMachine.Proofs.Machine.DelimitedControl
import SourceMachine.Proofs.Machine.Libraries
import SourceMachine.Proofs.Program.Trees

/-!
# Going through a program

`Attains limit goal x` says that the transitions from a configuration lead to one as wanted,
and that no stack on the way is deeper than the limit.  The rules here go through a program
from the front: each of them is about a statement, an expression, a call or a frame that is
next, and what is left to show is that the goal is attained from where this leads.

`Gives` is about expressions that come to a value whatever the stack is.  All but calls of
closures and jumps are of this kind.
-/

namespace SourceMachine

variable {e init left right : Expr} {around base home : Env} {slots : List (Named Slot)}
  {args : List Expr} {stamp limit room : Nat} {kind : DeclarationKind} {h : Heap}
  {k : ContinuationId} {body : List Stmt} {caller piece : Stack} {isMutable : Bool} {op : UnaryOp}
  {u : Value} {vs : List Value} {x : Config} {entries : Named Slot} {goal : Config → Prop}
  {id : Identifier}

namespace Config

/-- Transitions lead to a configuration as wanted, on stacks up to a limit. -/
inductive Attains (limit : Nat) (goal : Config → Prop) : Config → Prop where
  | here {x : Config} (reached : goal x) : Attains limit goal x
  | step {x y : Config} (first : x.Steps y) (room : y.stack.depth ≤ limit)
      (onwards : Attains limit goal y) : Attains limit goal x

/-- From here on, with this heap in the world, transitions lead to a configuration as wanted. -/
abbrev From (limit : Nat) (goal : Config → Prop) (w : World) (h : Heap) (c : Control) (env : Env)
    (stack : Stack) : Prop :=
  Attains limit goal ⟨c, env, stack, w.withHeap h⟩

/-- From the application of a function to values on, whatever was computed last and where. -/
abbrev FromCall (limit : Nat) (goal : Config → Prop) (w : World) (h : Heap) (v : Value)
    (inner : Env) (stack : Stack) (f : Value) (args : List Value) (span : Span) (env : Env) :
    Prop :=
  From limit goal w h (.value v) inner (stack.push (.apply f args span env))

/-- A machine with the same limit comes to a configuration as wanted. -/
theorem Attains.comes {m : Machine} {count : Nat}
    (attains : x.Attains m.maxDepth goal) (comes : m.Comes count x) :
    ∃ more y, goal y ∧ m.Comes (count + more) y := by
  induction attains generalizing count with
  | @here x reached => exact ⟨0, x, reached, comes⟩
  | step first room _ ih =>
    obtain ⟨more, y, reached, comes⟩ := ih (comes.step first room)
    exact ⟨1 + more, y, reached, Nat.add_assoc count 1 more ▸ comes⟩

theorem Attains.mono {limit' : Nat} (attains : x.Attains limit goal) (more : limit ≤ limit') :
    x.Attains limit' goal := by
  induction attains with
  | here reached => exact .here reached
  | step first room _ ih => exact .step first (room.trans more) ih

/-- Whatever its limit is, a machine comes to a configuration as wanted or overflows on the way. -/
theorem Attains.overflows_or_comes {m : Machine} {count : Nat} (attains : x.Attains limit goal)
    (comes : m.Comes count x) : m.Overflows ∨ ∃ more y, goal y ∧ m.Comes (count + more) y := by
  induction attains generalizing count with
  | @here x reached => exact .inr ⟨0, x, reached, comes⟩
  | @step x y first _ _ ih =>
    by_cases deep : m.maxDepth < y.stack.depth
    · exact .inl (comes.overflows first deep)
    · rcases ih (comes.step first (not_lt.1 deep)) with deeper | ⟨more, z, reached, comes⟩
      · exact .inl deeper
      · exact .inr ⟨1 + more, z, reached, Nat.add_assoc count 1 more ▸ comes⟩

/-! ## More transitions -/

section Steps

variable {v f : Value} {inner env : Env} {stack : Stack} {w : World} {span : Span}

theorem steps_unary (evaluated : op ≠ .typeof) :
    Steps ⟨.expression (.unary op e span), env, stack, w⟩
      ⟨.expression e, env, stack.push (.unaryOperand op span env), w⟩ := by
  refine ⟨not_isFinal_expression, fun m => ?_⟩
  simp only [Machine.transition, Machine.evaluate, if_neg evaluated]
  rfl

theorem steps_unaryOperand (applied : op.apply v span = .ok u) :
    Steps ⟨.value v, inner, stack.push (.unaryOperand op span env), w⟩
      ⟨.value u, env, stack, w⟩ := by
  refine ⟨not_isFinal_push (by simp), fun m => (transition_push m).trans ?_⟩
  rw [Machine.give, applied]
  rfl

theorem steps_binary {op : BinaryOp} (evaluated : ¬(op = .looseEq ∨ op = .looseNotEq)) :
    Steps ⟨.expression (.binary op left right span), env, stack, w⟩
      ⟨.expression left, env, stack.push (.leftOperand op right span env), w⟩ := by
  refine ⟨not_isFinal_expression, fun m => ?_⟩
  simp only [Machine.transition, Machine.evaluate, if_neg evaluated]
  rfl

theorem steps_rightOperand {op : BinaryOp} {left : Value} (applied : op.apply left v span = .ok u) :
    Steps ⟨.value v, inner, stack.push (.rightOperand op left span env), w⟩
      ⟨.value u, env, stack, w⟩ := by
  refine ⟨not_isFinal_push (by simp), fun m => (transition_push m).trans ?_⟩
  rw [Machine.give, applied]
  rfl

theorem steps_assign {x : Identifier} (assigned : w.heap.set x v env = (.ok (), h)) :
    Steps ⟨.value v, inner, stack.push (.assign x env), w⟩
      ⟨.value .undefined, env, stack, w.withHeap h⟩ := by
  refine ⟨not_isFinal_push (by simp), fun m => (transition_push m).trans ?_⟩
  simp only [Machine.give, Machine.onHeap, Machine.popped, Machine.placed, assigned]
  rfl

theorem steps_declaration {x : Identifier}
    (fresh : w.heap.checkUnassigned env x kind.isMutable = .ok ()) :
    Steps ⟨.statement (.declaration kind x init span), env, stack, w⟩
      ⟨.expression init, env, stack.push (.declare x kind.isMutable env), w⟩ := by
  refine ⟨not_isFinal_statement, fun m => ?_⟩
  simp only [Machine.transition, Machine.execute, Machine.startDeclaration, Machine.placed, fresh]
  rfl

theorem fails_declaration {x : Identifier} {fault : Fault}
    (taken : w.heap.checkUnassigned env x kind.isMutable = .error fault) :
    Fails ⟨.statement (.declaration kind x init span), env, stack, w⟩ fault
      ⟨.statement (.declaration kind x init span), env, stack, w⟩ := by
  refine ⟨not_isFinal_statement, fun m => ?_⟩
  simp only [Machine.transition, Machine.execute, Machine.startDeclaration, Machine.placed, taken]

theorem steps_returns (home : w.heap.lookup? returnPoint env = some f) :
    Steps ⟨.statement (.returns (some e) span), env, stack, w⟩
      ⟨.expression e, env, stack.push (.argument [] 0 [] f span env), w⟩ := by
  refine ⟨not_isFinal_statement, fun m => ?_⟩
  simp only [Machine.transition, Machine.execute, Machine.placed, home]
  rfl

theorem steps_shift {g : Value} {below : Stack} (cut : stack.split? = some (piece, below)) :
    Steps ⟨.value v, inner, stack.push (.apply (.builtin (.control .shift) stamp) [g] span env), w⟩
      ⟨.value g, env, below.push
        (.apply g [.continuation ⟨w.heap.continuations.size⟩] span env),
        w.withHeap (w.heap.newContinuation ⟨.delimited, env, piece⟩).2⟩ :=
  ⟨not_isFinal_push (by simp), fun m => Machine.transition_of_shift
    (m := m.placed ⟨.value v, inner, stack.push _, w⟩) rfl rfl cut⟩

end Steps

/-! ## Expressions -/

/-- The expression comes to a value on every stack with so much room on top of it. -/
structure Gives (env : Env) (room : Nat) (h : Heap) (e : Expr) (v : Value) (h' : Heap) : Prop where
  attains : ∀ {limit : Nat} {goal : Config → Prop} {w : World} {stack : Stack},
    stack.depth + room ≤ limit → From limit goal w h' (.value v) env stack →
    From limit goal w h (.expression e) env stack

/-- Expressions come to values, one after the other. -/
inductive GivesAll (env : Env) (room : Nat) : Heap → List Expr → List Value → Heap → Prop where
  | nil {h : Heap} : GivesAll env room h [] [] h
  | cons {h h₁ h₂ : Heap} {e : Expr} {es : List Expr} {v : Value} {vs : List Value}
      (first : Gives env room h e v h₁) (rest : GivesAll env room h₁ es vs h₂) :
      GivesAll env room h (e :: es) (v :: vs) h₂

section Calls

variable {limit room : Nat} {goal : Config → Prop} {env : Env} {stack : Stack} {w : World}
  {h h₁ h₂ : Heap} {span : Span} {f v : Value} {vs evaluated : List Value} {x : Config}
  {args rest more : List Expr} {next : Nat}

/-- An expression that is evaluated under a frame. -/
theorem Gives.under {t : Frame} (gives : Gives env room h e v h₁)
    (steps : x.Steps ⟨.expression e, env, stack.push t, w.withHeap h⟩)
    (space : stack.depth + (room + 1) ≤ limit)
    (onwards : From limit goal w h₁ (.value v) env (stack.push t)) : Attains limit goal x := by
  have fits : (stack.push t).depth + room ≤ limit := by
    rw [Stack.depth_push]
    omega
  exact .step steps (Nat.le_of_add_right_le fits) (gives.attains fits onwards)

/-- The arguments that are next.  The induction is on them; the machine counts up instead. -/
theorem Attains.arguments (given : GivesAll env room h rest vs h₁)
    (asks : AsksFrom env stack (w.withHeap h) f span args next evaluated x)
    (left : args.drop next = rest ++ more) (space : stack.depth + (room + 1) ≤ limit)
    (onwards : ∀ y, AsksFrom env stack (w.withHeap h₁) f span args (next + rest.length)
      (vs.reverse ++ evaluated) y → Attains limit goal y) : Attains limit goal x := by
  induction given generalizing x evaluated next with
  | nil => exact onwards x asks
  | @cons h h₁ h₂ e es v vs first _ ih =>
    have there : args[next]? = some e := by
      rw [← List.head?_drop, left]
      rfl
    have after : args.drop (next + 1) = es ++ more := by
      rw [← List.tail_drop, left]
      rfl
    refine first.under (asks.steps there) space (ih .argument after fun y asks => onwards y ?_)
    rw [List.length_cons, List.reverse_cons, List.append_assoc]
    rwa [Nat.add_assoc, Nat.add_comm 1] at asks

/-- A call, once the function and the first of its arguments are there. -/
theorem Attains.callFrom (room : Nat) {all : List Expr} (split : all = args ++ more)
    (callee : Gives env room h e f h₁) (given : GivesAll env room h₁ args vs h₂)
    (space : stack.depth + (room + 1) ≤ limit)
    (onwards : ∀ y, AsksFrom env stack (w.withHeap h₂) f span all args.length vs.reverse y →
      Attains limit goal y) : From limit goal w h (.expression (.call e all span)) env stack := by
  refine callee.under ⟨not_isFinal_expression, fun _ => rfl⟩ space
    (.arguments given .callee split space fun y asks => onwards y ?_)
  rwa [Nat.zero_add, List.append_nil] at asks

/-- A call, once the function and its arguments are there. -/
theorem Attains.call (room : Nat) (callee : Gives env room h e f h₁)
    (given : GivesAll env room h₁ args vs h₂) (space : stack.depth + (room + 1) ≤ limit)
    (onwards : FromCall limit goal w h₂ f env stack f vs span env) :
    From limit goal w h (.expression (.call e args span)) env stack := by
  refine .callFrom room (List.append_nil args).symm callee given space fun y asks => ?_
  have applies := asks.applies (List.getElem?_eq_none le_rfl)
  rw [List.reverse_reverse] at applies
  exact .step applies (by rw [Stack.depth_push]; omega) onwards

/-- A call whose last argument is still to come. -/
theorem Attains.callLast (room : Nat) (args : List Expr) {last : Expr}
    (callee : Gives env room h e f h₁) (given : GivesAll env room h₁ args vs h₂)
    (space : stack.depth + (room + 1) ≤ limit)
    (onwards : From limit goal w h₂ (.expression last) env
      (stack.push (.argument (args ++ [last]) (args.length + 1) vs.reverse f span env))) :
    From limit goal w h (.expression (.call e (args ++ [last]) span)) env stack :=
  .callFrom room rfl callee given space fun y asks =>
    .step (asks.steps (by simp)) (by rw [Stack.depth_push]; omega) onwards

end Calls

namespace Gives

variable {env : Env} {room : Nat} {h h₁ h₂ h₃ : Heap} {span : Span} {v u f : Value}

theorem literal (value : Literal) : Gives env room h (.literal value span) value.value h := by
  refine ⟨fun {limit goal w stack} space onwards => ?_⟩
  exact .step ⟨not_isFinal_expression, fun _ => rfl⟩ (by show stack.depth ≤ limit; omega) onwards

theorem name (found : h.get id env = .ok v) : Gives env room h (.identifier id) v h := by
  refine ⟨fun {limit goal w stack} space onwards => ?_⟩
  exact .step (steps_identifier found) (by show stack.depth ≤ limit; omega) onwards

theorem function (g : Function) :
    Gives env room h (.function g) (h.newClosure ⟨g, env⟩).1 (h.newClosure ⟨g, env⟩).2 := by
  refine ⟨fun {limit goal w stack} space onwards => ?_⟩
  exact .step ⟨not_isFinal_expression, fun _ => rfl⟩ (by show stack.depth ≤ limit; omega) onwards

theorem unary (operand : Gives env room h e v h₁) (evaluated : op ≠ .typeof)
    (applied : op.apply v span = .ok u) : Gives env (room + 1) h (.unary op e span) u h₁ := by
  refine ⟨fun {limit goal w stack} space onwards => ?_⟩
  refine operand.under (steps_unary evaluated) space ?_
  exact .step (steps_unaryOperand applied) (by show stack.depth ≤ limit; omega) onwards

theorem binary {op : BinaryOp} (first : Gives env room h left v h₁)
    (second : Gives env room h₁ right u h₂) (evaluated : ¬(op = .looseEq ∨ op = .looseNotEq))
    {r : Value} (applied : op.apply v u span = .ok r) :
    Gives env (room + 1) h (.binary op left right span) r h₂ := by
  refine ⟨fun {limit goal w stack} space onwards => ?_⟩
  refine first.under (steps_binary evaluated) space (second.under
    (t := .rightOperand op v span env) ⟨not_isFinal_push (by simp), fun _ => rfl⟩ space ?_)
  exact .step (steps_rightOperand applied) (by show stack.depth ≤ limit; omega) onwards

/-- Both of two conditions, where the second one is not looked at if the first one fails. -/
theorem both {decided : Bool} (decides : Gives env room h left (.boolean decided) h₁)
    (chosen : if decided then Gives env (room + 1) h₁ right v h₂
      else v = .boolean false ∧ h₂ = h₁) :
    Gives env (room + 1) h (.logical .and left right span) v h₂ := by
  refine ⟨fun {limit goal w stack} space onwards => ?_⟩
  refine decides.under (t := .branch (.expression right) (.value (.boolean false)) left.span env)
    ⟨not_isFinal_expression, fun _ => rfl⟩ space ?_
  refine .step (steps_branch (b := decided) rfl) (by show stack.depth ≤ limit; omega) ?_
  cases decided with
  | true => exact chosen.attains space onwards
  | false =>
    obtain ⟨rfl, rfl⟩ := chosen
    exact onwards

/-- A call of a native function. -/
theorem native {g : Native} (callee : Gives env room h e (.builtin (.native g) stamp) h₁)
    (given : GivesAll env room h₁ args vs h₂)
    (counted : (Primitive.native g).arity.accepts vs.length = true)
    (called : ∀ w : World, g.call vs (w.withHeap h₂) = (.ok u, w.withHeap h₃)) :
    Gives env (room + 1) h (.call e args span) u h₃ := by
  refine ⟨fun {limit goal w stack} space onwards => ?_⟩
  refine .call room callee given space
    (.step (steps_native rfl (if_pos counted) (called w)) ?_ onwards)
  show stack.depth ≤ limit
  omega

variable {around base : Env} {slots : List (Named Slot)}

/-- A name that is seen. -/
theorem sight (sees : h.Sees around slots base) {x : String}
    (found : Named.seek x slots = some (.assigned v isMutable)) :
    Gives (around ++ base) room h (Sketch.name x) v h :=
  name (sees.get found)

/-- A call of a native function by its name. -/
theorem library (sees : h.Sees around slots base) (g : Native)
    (absent : Named.seek (Primitive.native g).name slots = none)
    (given : GivesAll (around ++ base) room h args vs h₁)
    (counted : (Primitive.native g).arity.accepts vs.length = true)
    (called : ∀ w : World, g.call vs (w.withHeap h₁) = (.ok v, w.withHeap h₂)) :
    Gives (around ++ base) (room + 1) h (Sketch.call (Primitive.native g).name args) v h₂ :=
  native (name (sees.builtin (.native g) absent)) given counted called

/-- A test of what a name stands for. -/
theorem test (sees : h.Sees around slots base) (t : TypeTest)
    (absent : Named.seek (Primitive.native (.test t)).name slots = none) {x : String}
    {decided : Bool} (found : Named.seek x slots = some (.assigned v isMutable))
    (holds : t.holds v = decided) :
    Gives (around ++ base) 1 h (Sketch.call (Primitive.native (.test t)).name [Sketch.name x])
      (.boolean decided) h :=
  library sees (.test t) absent (.cons (sight sees found) .nil) rfl fun _ => holds ▸ rfl

end Gives

theorem GivesAll.strings {env : Env} (texts : List String) :
    GivesAll env room h (texts.map Sketch.string) (texts.map .string) h := by
  induction texts with
  | nil => exact .nil
  | cons text texts ih => exact .cons (.literal (.string text)) ih

end Config

theorem Function.arity_of_simple (f : Function) {params : List String}
    (simple : f.params.map Param.unspanned = params.map Sketch.param) :
    f.arity = .exact params.length := by
  have last := congrArg List.getLast? simple
  have length := congrArg List.length simple
  rw [List.getLast?_map, List.getLast?_map] at last
  rw [List.length_map, List.length_map] at length
  rw [Function.arity]
  cases final : f.params.getLast? with
  | none =>
    rw [← length, List.getLast?_eq_none_iff.1 final]
    rfl
  | some p =>
    rw [final] at last
    obtain ⟨x, -, same⟩ := Option.map_eq_some_iff.1 last.symm
    have single : p.isRest = false := (congrArg Param.isRest same).symm
    simp [single, length]

/-! ## Native functions -/

namespace Native

variable {h : Heap} {id : PairId} {a b v : Value}

theorem pairArgument_eq (pair : h.pair? id = some (a, b)) :
    pairArgument h [.pair id] = .ok (id, a, b) := by
  simp [pairArgument, argument, pair]

theorem call_head (pair : h.pair? id = some (a, b)) (w : World) :
    Native.head.call [.pair id] (w.withHeap h) = (.ok a, w.withHeap h) := by
  have found : pairArgument (w.withHeap h).heap [.pair id] = _ := pairArgument_eq pair
  rw [Native.call, Native.effect, found]
  rfl

theorem call_tail (pair : h.pair? id = some (a, b)) (w : World) :
    Native.tail.call [.pair id] (w.withHeap h) = (.ok b, w.withHeap h) := by
  have found : pairArgument (w.withHeap h).heap [.pair id] = _ := pairArgument_eq pair
  rw [Native.call, Native.effect, found]
  rfl

theorem call_pair (a b : Value) (h : Heap) (w : World) : Native.pair.call [a, b] (w.withHeap h) =
      (.ok (h.newPair a b).1, w.withHeap (h.newPair a b).2) :=
  rfl

theorem call_list (vs : List Value) (h : Heap) (w : World) : Native.list.call vs (w.withHeap h) =
      (.ok (h.newList vs).1, w.withHeap (h.newList vs).2) :=
  rfl

end Native

/-- A call of the function that makes lists. -/
theorem Config.Gives.list {h₁ : Heap} (sees : h.Sees around slots base)
    (absent : Named.seek "list" slots = none)
    (given : GivesAll (around ++ base) room h args vs h₁) :
    Gives (around ++ base) (room + 1) h (Sketch.call "list" args) (h₁.newList vs).1
      (h₁.newList vs).2 :=
  .library sees .list absent given rfl (Native.call_list vs h₁)

namespace Config.Attains

open Heap

variable {limit : Nat} {goal : Config → Prop} {env inner : Env} {stack below : Stack} {w : World}
  {h h₁ : Heap} {span : Span} {v f g : Value}

/-! ## Frames -/

/-- The next statement of a body. -/
theorem next {s : Stmt} (space : stack.depth ≤ limit)
    (onwards : From limit goal w h (.statement s) env stack) :
    From limit goal w h (.value v) inner (stack.push (.exec s env)) :=
  .step steps_exec space onwards

/-- The statements that are left of a body. -/
theorem rest (some : body ≠ []) (space : stack.depth + body.length ≤ limit)
    (onwards : From limit goal w h (.ofBody body) env (stack.pushAll env body.tail)) :
    From limit goal w h (.value v) inner (stack.pushAll env body) := by
  cases body with
  | nil => exact absurd rfl some
  | cons s body =>
    refine .next ?_ onwards
    show (stack.pushAll env body).depth ≤ limit
    rw [Stack.depth_pushAll]
    exact Nat.le_of_succ_le space

/-- A declared name gets its value. -/
theorem declared {x : String} {id : ScopeId}
    (sees : h.Sees (id :: around) (entries :: slots) base) (space : stack.depth ≤ limit)
    (onwards : ∀ h', Grows [id] h h' →
      h'.Sees (id :: around) (entries.bind x (.assigned v isMutable) :: slots) base →
      From limit goal w h' (.value .undefined) (id :: around ++ base) stack) :
    From limit goal w h (.value v) inner
      (stack.push (.declare ⟨x, {}⟩ isMutable (id :: around ++ base))) :=
  .step steps_declare space (onwards _ (.bind h id x _) (sees.bindHere x _))

/-- The last argument of a call is there. -/
theorem applied {next : Nat} {evaluated : List Value}
    (last : args.length ≤ next) (space : stack.depth + 1 ≤ limit)
    (onwards : FromCall limit goal w h f env stack f (v :: evaluated).reverse span env) :
    From limit goal w h (.value v) inner (stack.push (.argument args next evaluated f span env)) :=
  .step (AsksFrom.argument.applies (List.getElem?_eq_none last)) space onwards

/-- A native function is called. -/
theorem native {g : Native} {args : List Value} {w' : World}
    (counted : (Primitive.native g).arity.accepts args.length = true)
    (called : g.call args (w.withHeap h) = (.ok u, w')) (space : stack.depth ≤ limit)
    (onwards : Attains limit goal ⟨.value u, env, stack, w'⟩) : FromCall limit goal w h v inner
      stack (.builtin (.native g) stamp) args span env :=
  .step (steps_native rfl (if_pos counted) called) space onwards

/-- A value that is returned goes to the return point. -/
theorem returned (captured : h.continuation? k = some ⟨.undelimited, home, caller⟩)
    (space : stack.depth + 1 ≤ limit) (fits : caller.depth ≤ limit)
    (onwards : From limit goal w h (.value v) home caller) : From limit goal w h (.value v) inner
      (stack.push (.argument [] 0 [] (.continuation k) span env)) :=
  .applied le_rfl space (.step (steps_resume (Heap.callee?_of_captured captured) rfl) fits onwards)

/-- A truth value decides a choice. -/
theorem decided (b : Bool) {consequent alternate : Control} (space : stack.depth ≤ limit)
    (onwards : From limit goal w h (if b then consequent else alternate) env stack) :
    From limit goal w h (.value (.boolean b)) inner
      (stack.push (.branch consequent alternate span env)) :=
  .step (steps_branch rfl) space onwards

/-- A value passes a delimiter. -/
theorem passed (space : stack.depth ≤ limit)
    (onwards : From limit goal w h (.value v) inner stack) :
    From limit goal w h (.value v) inner (stack.push .delimiter) :=
  .step ⟨not_isFinal_push (by simp), fun _ => rfl⟩ space onwards

/-! ## Jumps -/

/-- Going on with a whole captured stack. -/
theorem resume (captured : h.continuation? k = some ⟨.undelimited, home, caller⟩)
    (fits : caller.depth ≤ limit) (onwards : From limit goal w h (.value g) home caller) :
    FromCall limit goal w h v inner stack (.continuation k) [g] span env :=
  .step (steps_resume (Heap.callee?_of_captured captured) rfl) fits onwards

/-- Going on with a piece of a stack on top of the current one. -/
theorem splice (captured : h.continuation? k = some ⟨.delimited, home, piece⟩)
    (fits : (stack.splice piece).depth ≤ limit)
    (onwards : From limit goal w h (.value g) home (stack.splice piece)) :
    FromCall limit goal w h v inner stack (.continuation k) [g] span env :=
  .step (steps_resume (Heap.callee?_of_captured captured) rfl) fits onwards

/-- Capturing the whole stack. -/
theorem callCc (space : stack.depth + 1 ≤ limit)
    (onwards : ∀ h' k, Grows [] h h' → h'.continuation? k = some ⟨.undelimited, env, stack⟩ →
      FromCall limit goal w h' g env stack g [.continuation k] span env) :
    FromCall limit goal w h v inner stack (.builtin (.control .callCc) stamp) [g] span env := by
  refine .step ⟨not_isFinal_push (by simp), fun _ => rfl⟩ space
    (onwards (h.newContinuation ⟨.undelimited, env, stack⟩).2 ⟨h.continuations.size⟩
      (.newContinuation h _) ?_)
  exact Array.getElem?_push_size

/-- Marking the stack. -/
theorem reset (space : stack.depth + 2 ≤ limit) (onwards : FromCall limit goal w h g env
  (stack.push .delimiter) g [] span env) : FromCall limit goal w h v inner stack
    (.builtin (.control .reset) stamp) [g] span env :=
  .step ⟨not_isFinal_push (by simp), fun _ => rfl⟩ space onwards

/-- Capturing the stack up to the nearest mark. -/
theorem shift (cut : stack.split? = some (piece, below)) (space : stack.depth ≤ limit)
    (onwards : ∀ h' k, Grows [] h h' → h'.continuation? k = some ⟨.delimited, env, piece⟩ →
      FromCall limit goal w h' g env below g [.continuation k] span env) :
    FromCall limit goal w h v inner stack (.builtin (.control .shift) stamp) [g] span env := by
  refine .step (steps_shift cut) ?_ (onwards (h.newContinuation ⟨.delimited, env, piece⟩).2
    ⟨h.continuations.size⟩ (.newContinuation h _) Array.getElem?_push_size)
  rw [Stack.depth_of_split cut] at space
  rw [Stack.depth_push]
  omega

/-! ## Statements -/

/-- A choice by an expression that is still to come to a value. -/
theorem asks {test consequent alternate : Expr} (space : stack.depth + 1 ≤ limit)
    (onwards : From limit goal w h (.expression test) env
      (stack.push (.branch (.expression consequent) (.expression alternate) test.span env))) :
    From limit goal w h (.expression (.conditional test consequent alternate span)) env stack :=
  .step ⟨not_isFinal_expression, fun _ => rfl⟩ space onwards

/-- A choice by an expression that comes to a truth value. -/
theorem chosen (room : Nat) (decided : Bool) {test consequent alternate : Expr}
    (gives : Gives env room h test (.boolean decided) h₁) (space : stack.depth + (room + 1) ≤ limit)
    (onwards : From limit goal w h₁ (.expression (if decided then consequent else alternate)) env
      stack) :
    From limit goal w h (.expression (.conditional test consequent alternate span)) env stack := by
  refine gives.under ⟨not_isFinal_expression, fun _ => rfl⟩ space (.decided decided (by omega) ?_)
  cases decided with
  | true => exact onwards
  | false => exact onwards

/-- Both of two conditions, the first of which is still to come to a truth value. -/
theorem asksBoth (space : stack.depth + 1 ≤ limit)
    (onwards : From limit goal w h (.expression left) env
      (stack.push (.branch (.expression right) (.value (.boolean false)) left.span env))) :
    From limit goal w h (.expression (.logical .and left right span)) env stack :=
  .step ⟨not_isFinal_expression, fun _ => rfl⟩ space onwards

/-- An expression that is only evaluated. -/
theorem run (room : Nat) (gives : Gives env room h e v h₁) (space : stack.depth + room ≤ limit)
    (onwards : From limit goal w h₁ (.value v) env stack) :
    From limit goal w h (.statement (.expression e span)) env stack :=
  .step ⟨not_isFinal_statement, fun _ => rfl⟩ (by show stack.depth ≤ limit; omega)
    (gives.attains space onwards)

/-- A call that is only made. -/
theorem runs (space : stack.depth ≤ limit)
    (onwards : From limit goal w h (.expression e) env stack) :
    From limit goal w h (.statement (.expression e span)) env stack :=
  .step ⟨not_isFinal_statement, fun _ => rfl⟩ space onwards

section Declaring

variable {x : String} {id : ScopeId} {around base : Env} {entries : Named Slot}
  {slots : List (Named Slot)}

/-- A declaration whose value is still to come. -/
theorem declares (sees : h.Sees (id :: around) (entries :: slots) base)
    (fresh : entries.find? x = some .unassigned) (space : stack.depth + 1 ≤ limit)
    (onwards : From limit goal w h (.expression init) (id :: around ++ base)
      (stack.push (.declare ⟨x, {}⟩ kind.isMutable (id :: around ++ base)))) :
    From limit goal w h (.statement (.declaration kind ⟨x, {}⟩ init span)) (id :: around ++ base)
      stack := by
  refine .step (steps_declaration ?_) space onwards
  exact checkUnassigned_of_unassigned ((sees.head.slot?_eq x).trans fresh) (around ++ base) _

/-- A declaration by an expression that comes to a value. -/
theorem declaration (room : Nat)
    (gives : Gives (id :: around ++ base) room h init v h₁) (grows : Grows [] h h₁)
    (sees : h.Sees (id :: around) (entries :: slots) base)
    (fresh : entries.find? x = some .unassigned) (space : stack.depth + (room + 1) ≤ limit)
    (onwards : ∀ h', Grows [id] h₁ h' →
      h'.Sees (id :: around) (entries.bind x (.assigned v kind.isMutable) :: slots) base →
      From limit goal w h' (.value .undefined) (id :: around ++ base) stack) :
    From limit goal w h (.statement (.declaration kind ⟨x, {}⟩ init span)) (id :: around ++ base)
      stack := by
  refine .declares sees fresh (by omega) (gives.attains (by rw [Stack.depth_push]; omega) ?_)
  exact .declared (sees.grown grows) (by omega) onwards

/-- The declaration of a function. -/
theorem function {fn : Function} (sees : h.Sees (id :: around) (entries :: slots) base)
    (fresh : entries.find? x = some .unassigned) (named : fn.id = some ⟨x, {}⟩)
    (space : stack.depth + 1 ≤ limit)
    (onwards : ∀ h' f, Grows [id] h h' → h'.closure? f = some ⟨fn, id :: around ++ base⟩ →
      h'.Sees (id :: around) (entries.bind x (.assigned (.closure f) false) :: slots) base →
      From limit goal w h' (.value .undefined) (id :: around ++ base) stack) :
    From limit goal w h (.statement (.function fn)) (id :: around ++ base) stack := by
  have grows := Grows.newClosure h ⟨fn, id :: around ++ base⟩
  refine .step (steps_function named ?_) space ?_
  · exact checkUnassigned_of_unassigned ((sees.head.slot?_eq x).trans fresh) (around ++ base) _
  · refine .declared (w := w) (sees.grown grows) (by omega) fun h' grows' sees' => ?_
    exact onwards h' ⟨h.closures.size⟩ (grows.trans grows')
      (grows'.lasts.closures Array.getElem?_push_size) sees'

/-- An assignment whose value is still to come. -/
theorem assigns {x : Identifier} {span' : Span} (space : stack.depth + 1 ≤ limit)
    (onwards : From limit goal w h (.expression e) env (stack.push (.assign x env))) :
    From limit goal w h
      (.statement (.expression (.assignment .assign (.identifier x) e span') span)) env stack := by
  refine .step (y := ⟨.expression (.assignment .assign (.identifier x) e span'), env, stack,
    w.withHeap h⟩) ⟨not_isFinal_statement, fun _ => rfl⟩ (by show stack.depth ≤ limit; omega) ?_
  exact .step ⟨not_isFinal_expression, fun _ => rfl⟩ space onwards

/-- A name that is seen gets another value. -/
theorem assigned {old : Value} (sees : h.Sees around slots base)
    (found : Named.seek x slots = some (.assigned old true))
    (owned : Named.owner? x around slots = some id) (space : stack.depth ≤ limit)
    (onwards : ∀ h', Grows [id] h h' →
      h'.Sees around (Named.rebind x (.assigned v true) slots) base →
      From limit goal w h' (.value .undefined) (around ++ base) stack) :
    From limit goal w h (.value v) inner (stack.push (.assign ⟨x, {}⟩ (around ++ base))) :=
  .step (steps_assign (sees.set_eq found owned v)) space
    (onwards _ (.bind h id x _) (sees.bind _ owned))

/-- An assignment by an expression that comes to a value. -/
theorem assign (room : Nat) {old : Value} (gives : Gives (around ++ base) room h e v h₁)
    (grows : Grows [] h h₁) (sees : h.Sees around slots base)
    (found : Named.seek x slots = some (.assigned old true))
    (owned : Named.owner? x around slots = some id) (space : stack.depth + (room + 1) ≤ limit)
    (onwards : ∀ h', Grows [id] h₁ h' →
      h'.Sees around (Named.rebind x (.assigned v true) slots) base →
      From limit goal w h' (.value .undefined) (around ++ base) stack) : From limit goal w h
      (.statement (.expression (.assignment .assign (.identifier ⟨x, {}⟩) e span) span))
      (around ++ base) stack := by
  refine .assigns (by omega) (gives.attains (by rw [Stack.depth_push]; omega) ?_)
  exact .assigned (sees.grown grows) found owned (by omega) onwards

/-- A call of a jump by its name, with a function to jump to. -/
theorem jump (c : ControlOp) (fn : Function) (sees : h.Sees around slots base)
    (absent : Named.seek (Primitive.control c).name slots = none) (space : stack.depth + 1 ≤ limit)
    (onwards : ∀ h' f, Grows [] h h' → h'.closure? f = some ⟨fn, around ++ base⟩ →
      h'.Sees around slots base →
      FromCall limit goal w h' (.builtin (.control c) 0) (around ++ base) stack
        (.builtin (.control c) 0) [.closure f] span (around ++ base)) : From limit goal w h
      (.expression (.call (Sketch.name (Primitive.control c).name) [.function fn] span))
      (around ++ base) stack := by
  have grows := Grows.newClosure h ⟨fn, around ++ base⟩
  refine .call 0 (Gives.name (sees.builtin (.control c) absent)) (.cons (Gives.function fn) .nil)
    space ?_
  exact onwards _ ⟨h.closures.size⟩ grows Array.getElem?_push_size (sees.grown grows)

end Declaring

section

variable {test : Expr} (room) (decided : Bool)
  (gives : Gives env room h test (.boolean decided) h₁) (space : stack.depth + (room + 1) ≤ limit)

include room decided gives space

/-- A choice between two blocks, by an expression that comes to a truth value. -/
theorem branch {consequent alternate : Stmt}
    (onwards : From limit goal w h₁ (.statement (if decided then consequent else alternate)) env
      stack) :
    From limit goal w h (.statement (.conditional test consequent (some alternate) span)) env
      stack := by
  refine gives.under ⟨not_isFinal_statement, fun _ => rfl⟩ space (.decided decided (by omega) ?_)
  cases decided with
  | true => exact onwards
  | false => exact onwards

/-- A block that runs only if an expression comes to the truth value that it should. -/
theorem when {consequent : Stmt}
    (onwards : From limit goal w h₁ (if decided then .statement consequent else .value .undefined)
      env stack) :
    From limit goal w h (.statement (.conditional test consequent none span)) env stack :=
  gives.under ⟨not_isFinal_statement, fun _ => rfl⟩ space (.decided decided (by omega) onwards)

end

/-- A return whose value is still to come. -/
theorem returning (home : h.lookup? returnPoint env = some f) (space : stack.depth + 1 ≤ limit)
    (onwards : From limit goal w h (.expression e) env
      (stack.push (.argument [] 0 [] f span env))) :
    From limit goal w h (.statement (.returns (some e) span)) env stack :=
  .step (steps_returns home) space onwards

/-- A return by an expression that comes to a value. -/
theorem returns (room : Nat) (gives : Gives env room h e v h₁)
    (point : h.lookup? returnPoint env = some (.continuation k))
    (captured : h₁.continuation? k = some ⟨.undelimited, home, caller⟩)
    (space : stack.depth + (room + 1) ≤ limit) (fits : caller.depth ≤ limit)
    (onwards : From limit goal w h₁ (.value v) home caller) :
    From limit goal w h (.statement (.returns (some e) span)) env stack :=
  .returning point (by omega) (gives.attains (by rw [Stack.depth_push]; omega)
    (.returned captured (by omega) fits onwards))

/-! ## Blocks and calls -/

/-- A block runs in a scope with the names that it declares. -/
theorem block (sees : h.Sees around slots base) (distinct : (declaredNames body).Nodup)
    (space : stack.depth + body.length ≤ limit)
    (onwards : ∀ h' id, Grows [] h h' → h.scopes.size ≤ id.index →
      h'.Sees (id :: around) (Named.declared (declaredNames body) :: slots) base →
      From limit goal w h' (.ofBody body) (id :: around ++ base)
        (stack.pushAll (id :: around ++ base) body.tail)) :
    From limit goal w h (.statement (.block ⟨body, span⟩)) (around ++ base) stack := by
  obtain ⟨result, h', hoisted⟩ : ∃ result h',
    (h.newScope "blockEnvironment" (around ++ base)).2.hoist
      (h.newScope "blockEnvironment" (around ++ base)).1 body = (result, h') := ⟨_, _, rfl⟩
  obtain ⟨rfl, known⟩ := Shows.enterBody hoisted distinct
  have grows := Grows.enterBody hoisted
  have entered := onwards h' ⟨h.scopes.size⟩ grows le_rfl (sees.cons grows le_rfl known)
  refine .step (steps_block (b := ⟨body, span⟩) hoisted) ?_ entered
  show (stack.pushAll _ body.tail).depth ≤ limit
  rw [Stack.depth_pushAll, List.length_tail]
  omega

section

variable {id : ClosureId} {fn : Function} (params : List String)
  (closure : h.closure? id = some ⟨fn, around ++ base⟩)
  (simple : fn.params.map Param.unspanned = params.map Sketch.param)

include params closure simple

/-- A call of a closure goes on with the body of its function, in a new scope for the
    parameters.  The return point is the next captured stack. -/
theorem called {args : List Value} (counted : args.length = params.length)
    (sees : h.Sees around slots base) (space : stack.depth ≤ limit)
    (onwards : ∀ h' call, Grows [] h h' → h.scopes.size ≤ call.index →
      h'.Sees (call :: around) (Named.called params args ⟨h.continuations.size⟩ :: slots) base →
      h'.continuation? ⟨h.continuations.size⟩ = some ⟨.undelimited, env, stack⟩ →
      From limit goal w h' (.statement (.block fn.body)) (call :: around ++ base) stack) :
    FromCall limit goal w h v inner stack (.closure id) args span env := by
  have leads : (w.withHeap h).heap.callee? (.closure id) = some (.closure _) :=
    congrArg (Option.map Callee.closure) closure
  obtain ⟨shown, grows⟩ := enterCall_shows (c := ⟨fn, around ++ base⟩) simple counted h
    ⟨.undelimited, env, stack⟩
  have accepted : (Callee.closure ⟨fn, around ++ base⟩).arity.check args.length span = .ok () := by
    rw [Callee.arity, fn.arity_of_simple simple, counted]
    exact if_pos (decide_eq_true rfl)
  refine .step (steps_closure leads accepted) space ?_
  exact onwards _ _ grows le_rfl (sees.cons grows le_rfl shown)
    (continuation?_enterCall h ⟨fn, around ++ base⟩ args _)

/-- A call of a closure runs the body of its function in two new scopes, for the parameters and
    for the names that the body declares. -/
theorem enter {args : List Value} (runs : fn.body.body = body)
    (counted : args.length = params.length) (distinct : (declaredNames body).Nodup)
    (sees : h.Sees around slots base) (space : stack.depth + body.length ≤ limit)
    (onwards : ∀ h' outer inner k, Grows [] h h' → h.scopes.size ≤ outer.index →
      h.scopes.size ≤ inner.index → h'.Sees (inner :: outer :: around)
      (Named.declared (declaredNames body) :: Named.called params args k :: slots) base →
      h'.continuation? k = some ⟨.undelimited, env, stack⟩ →
      From limit goal w h' (.ofBody body) (inner :: outer :: around ++ base)
      (stack.pushAll (inner :: outer :: around ++ base) body.tail)) :
    FromCall limit goal w h v inner stack (.closure id) args span env := by
  have shape : fn.body = ⟨body, fn.body.span⟩ := by
    rw [← runs]
    cases fn.body
    rfl
  refine .called params closure simple counted sees (by omega) ?_
  intro h₁ call grows₁ fresh₁ sees₁ home
  rw [shape]
  refine .block sees₁ distinct space fun h' id grows' fresh sees' => ?_
  refine onwards h' call id _ (grows₁.trans grows') fresh₁ (grows₁.size.trans fresh) sees' ?_
  exact grows'.lasts.continuations home

end

/-- The stack as a value. -/
theorem capture (sees : h.Sees around slots base)
    (absent : Named.seek "call_cc" slots = none) (space : stack.depth + 1 ≤ limit)
    (onwards : ∀ h' k, Grows [] h h' → h'.Sees around slots base →
      h'.continuation? k = some ⟨.undelimited, around ++ base, stack⟩ →
      From limit goal w h' (.value (.continuation k)) (around ++ base) stack) : From limit goal w h
      (.expression
      (Sketch.call "call_cc" [.function (Sketch.arrow ["k"] [Sketch.returns (Sketch.name "k")])]))
      (around ++ base) stack := by
  refine .jump .callCc _ sees absent space ?_
  intro h₁ f grows₁ closure sees₁
  refine .callCc space ?_
  intro h₂ k grows₂ captured
  refine .enter ["k"] (grows₂.lasts.closures closure) rfl rfl rfl (by decide) (sees₁.grown grows₂)
    space ?_
  intro h₃ _ _ _ grows₃ _ _ sees₃ home
  refine .returns 0 (.sight sees₃ rfl) (sees₃.lookup? rfl) home space (by omega) ?_
  exact onwards h₃ k (grows₁.trans <| grows₂.trans grows₃) sees₃.tail.tail
    (grows₃.lasts.continuations captured)

end Config.Attains

namespace Config

/-! ## Declaring a name twice -/

/-- A name that has a value is not declared again. -/
theorem fails_redeclaration {x : String} {id : ScopeId} {v : Value} {span : Span} {stack : Stack}
    {w : World} (sees : h.Sees (id :: around) (entries :: slots) base)
    (taken : entries.find? x = some (.assigned v isMutable)) :
    Fails ⟨.statement (.declaration kind ⟨x, {}⟩ init span), id :: around ++ base, stack,
        w.withHeap h⟩ ⟨.redeclared x kind.isMutable, {}⟩
      ⟨.statement (.declaration kind ⟨x, {}⟩ init span), id :: around ++ base, stack,
        w.withHeap h⟩ := by
  refine fails_declaration ?_
  have slot : (id :: around ++ base).head?.bind (h.slot? · x) = some (.assigned v isMutable) :=
    (sees.head.slot?_eq x).trans taken
  show h.checkUnassigned _ _ _ = _
  rw [Heap.checkUnassigned, slot]

/-! ## Ways back -/

/-- Every value that comes to a stack goes on to another one, from now on. -/
structure Leads (limit : Nat) (h : Heap) (stack : Stack) (env : Env) (target : Stack) : Prop where
  attains : ∀ {goal : Config → Prop} {h' : Heap} {w : World} {v : Value} {inner : Env}, h.Lasts h' →
    From limit goal w h' (.value v) env target →
    From limit goal w h' (.value v) inner stack

namespace Leads

variable {limit : Nat} {env inner : Env} {stack : Stack} {h h₁ : Heap} {span : Span}
  {k : ContinuationId} {home : Env} {caller target : Stack}

theorem lasts (leads : Leads limit h stack env target) (lasts : h.Lasts h₁) :
    Leads limit h₁ stack env target :=
  ⟨fun later onwards => leads.attains (lasts.trans later) onwards⟩

theorem passed (leads : Leads limit h stack env target) (space : stack.depth ≤ limit) :
    Leads limit h (stack.push .delimiter) env target :=
  ⟨fun later onwards => .passed space (leads.attains later onwards)⟩

/-- A return goes to the return point. -/
theorem here (captured : h.continuation? k = some ⟨.undelimited, env, target⟩)
    (space : stack.depth + 1 ≤ limit) (fits : target.depth ≤ limit) :
    Leads limit h (stack.push (.argument [] 0 [] (.continuation k) span inner)) env target :=
  ⟨fun later onwards => .returned (later.continuations captured) space fits onwards⟩

/-- A return goes to the return point, and from there on. -/
theorem returned (leads : Leads limit h caller env target)
    (captured : h.continuation? k = some ⟨.undelimited, home, caller⟩)
    (space : stack.depth + 1 ≤ limit) (fits : caller.depth ≤ limit) :
    Leads limit h (stack.push (.argument [] 0 [] (.continuation k) span inner)) env target :=
  ⟨fun later onwards =>
    .returned (later.continuations captured) space fits (leads.attains later onwards)⟩

end Leads

end Config

end SourceMachine
