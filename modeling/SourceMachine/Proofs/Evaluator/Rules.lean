import SourceMachine.Proofs.Evaluator.Simulation

/-!
# The rules of the evaluator, one by one

`Evaluators.AreSimulated` says of the evaluators with less fuel that the machine does what
they do, on any stack.  From this follows the same of each rule of the evaluator with one
unit more, as every rule begins with a step of the machine.

What a frame does with a value is gone through first (`frame_simulated`).  An expression
evaluates a part of itself and leaves the rest to a frame, so its rules are that lemma
after one more step (`operand_simulated`).  Bodies, returns and calls have lemmas of their
own.  `Evaluators.simulated_ofFuel` is the induction on the fuel.
-/

namespace SourceMachine

open Config Eval

variable {w : World} {env outer : Env} {home : Home} {stmts : List Stmt} {v f : Value} {e : Expr}
  {fault : Fault} {h : Heap}

/-- The machine does what some evaluators do. -/
structure Evaluators.AreSimulated (start : Heap) (fuel : Nat) (below : Evaluators) : Prop where
  statement : ∀ {home : Home} {env : Env} {s : Stmt} {stack : Stack} {w : World},
    w.Follows start → w.heap.IsAt start home env → s.IsSpelled →
      Simulates start fuel home stack w.heap ⟨.statement s, env, stack, w⟩
        (below.statement home.isSome env s (w.forget start))
  expression : ∀ {env : Env} {e : Expr} {stack : Stack} {w : World},
    w.Follows start → w.heap.Has env → e.IsSpelled →
      Simulates start fuel none stack w.heap ⟨.expression e, env, stack, w⟩
        (below.expression env e (w.forget start))
  call : ∀ {v f : Value} {args : List Value} {span : Span} {env env' : Env} {stack : Stack}
    {w : World}, w.Follows start → f.IsKnown start.continuations.size →
      (∀ v ∈ args, v.IsKnown start.continuations.size) →
      Simulates start fuel none stack w.heap
        ⟨.value v, env', stack.push (.apply f args span env), w⟩
        (below.call f args span (w.forget start))

section

variable {start h : Heap} {fuel : Nat} {home : Home} {stack : Stack} {x : Config} {w : World}

/-- A transition that fails and changes nothing. -/
theorem Simulates.refuse (notFinal : ¬x.IsFinal)
    (moves : ∀ m : Machine, (m.placed x).transition x.control = (.error fault, m.placed x)) :
    Simulates start fuel home stack h x (some (.error (.fault fault), x.world.forget start)) :=
  arrive (.fault ⟨notFinal, moves⟩)

/-- A transition to a value or to a fault. -/
theorem Simulates.ofExcept (env : Env) {result : Except Fault Value} (notFinal : ¬x.IsFinal)
    (moves : ∀ m : Machine, (m.placed x).transition x.control =
      (result.map .value, m.placed ⟨x.control, env, stack, w⟩))
    (follows : w.Follows start) (grown : h.Extends w.heap)
    (known : ∀ v, result = .ok v → v.IsKnown start.continuations.size) :
    Simulates start fuel home stack h x (ofExcept result (w.forget start)) := by
  cases result with
  | error fault => exact arrive (.fault ⟨notFinal, moves⟩)
  | ok v =>
    have steps : x.Steps ⟨.value v, env, stack, w⟩ := ⟨notFinal, moves⟩
    exact less (step steps (arrive (.value (known v rfl) follows grown)))

end

namespace Evaluate

theorem frame_branch (below : Evaluators) (v : Value) (consequent alternate : Control) (span : Span)
    (env : Env) : frame below v (.branch consequent alternate span env) =
      ofExcept (v.condition span) >>= fun decided =>
        if decided then control below env consequent else control below env alternate := by
  rw [frame]
  refine bind_congr fun decided => ?_
  cases decided <;> rfl

variable {start : Heap} {fuel : Nat} {below : Evaluators}
  (simulated : below.AreSimulated start fuel)

include simulated

section

variable (follows : w.Follows start)

include follows

theorem control_simulated {c : Control} (ready : c.IsReady start w.heap env) (stack : Stack) :
    Simulates start fuel none stack w.heap ⟨c, env, stack, w⟩
      (control below env c (w.forget start)) := by
  cases c with
  | program p => cases ready
  | statement s => exact simulated.statement follows ready.2 ready.1
  | expression e => exact simulated.expression follows ready.2 ready.1
  | value v => exact .arrive (.value ready follows (.refl _))

/-- The arguments that are left, and then the call. -/
theorem arguments_simulated {args : List Expr} (ready : ∀ e ∈ args, e.IsSpelled ∧ w.heap.Has env)
    (callee : f.IsKnown start.continuations.size) {span : Span} {stack : Stack}
    {evaluated : List Value} (values : ∀ v ∈ evaluated, v.IsKnown start.continuations.size)
    {next : Nat} {x : Config} (asks : AsksFrom env stack w f span args next evaluated x) :
    Simulates start fuel none stack w.heap x
      ((arguments below env (args.drop next) >>= fun vs =>
        below.call f (evaluated.reverse ++ vs) span) (w.forget start)) := by
  -- the induction is on the arguments that are left; the machine counts up to them instead
  generalize left : args.drop next = rest
  induction rest generalizing w x evaluated next with
  | nil =>
    have last : args[next]? = none := List.getElem?_eq_none (List.drop_eq_nil_iff.1 left)
    show Simulates _ _ _ _ _ _ (below.call f (evaluated.reverse ++ []) span (w.forget start))
    rw [List.append_nil]
    refine .less (.step (asks.applies last) (simulated.call follows callee fun v member => ?_))
    exact values v (List.mem_reverse.1 member)
  | cons e rest ih =>
    have there : args[next]? = some e := by
      rw [← List.head?_drop, left]
      rfl
    have after : args.drop (next + 1) = rest := by
      rw [← List.tail_drop, left]
      rfl
    obtain ⟨spelled, has⟩ := ready e (List.mem_of_getElem? there)
    rw [arguments, bind_assoc]
    refine .less (.step (asks.steps there) (.bind (simulated.expression follows has spelled)
      fun v env' w' value follows' grown => ?_))
    have ready' : ∀ e ∈ args, e.IsSpelled ∧ w'.heap.Has env := fun e member =>
      ⟨(ready e member).1, (ready e member).2.mono grown⟩
    have asks' : AsksFrom env stack w' f span args (next + 1) (v :: evaluated)
        ⟨.value v, env', stack.push (.argument args (next + 1) evaluated f span env), w'⟩ :=
      .argument
    have more := ih follows' ready' (List.forall_mem_cons.2 ⟨value, values⟩) asks' after
    rw [bind_assoc]
    simp only [pure_bind]
    rw [List.reverse_cons] at more
    simp only [List.append_assoc, List.singleton_append] at more
    exact more.since grown

/-- A frame does with a value what the evaluator does. -/
theorem frame_simulated {f : Frame} (ready : f.IsReady start w.heap)
    (value : v.IsKnown start.continuations.size) (inner : Env) (stack : Stack) :
    Simulates start fuel none stack w.heap ⟨.value v, inner, stack.push f, w⟩
      (frame below v f (w.forget start)) := by
  cases f with
  | halt => cases ready
  | delimiter =>
    exact .less (.step (y := ⟨.value v, inner, stack, w⟩) ⟨not_isFinal_push nofun, fun _ => rfl⟩
      (.arrive (.value value follows (.refl _))))
  | exec s env =>
    exact .less (.step ⟨not_isFinal_push nofun, fun _ => rfl⟩
      (simulated.statement follows ready.2 ready.1))
  | unaryOperand op span env =>
    exact .ofExcept env (not_isFinal_push (by simp)) (fun _ => rfl) follows (.refl _)
      fun _ applied => UnaryOp.apply_isKnown _ applied
  | rightOperand op left span env =>
    exact .ofExcept env (not_isFinal_push (by simp)) (fun _ => rfl) follows (.refl _)
      fun _ applied => BinaryOp.apply_isKnown _ applied
  | leftOperand op right span env =>
    refine .less (.step (y := ⟨_, _, stack.push (.rightOperand op v span env), _⟩)
      ⟨not_isFinal_push nofun, fun _ => rfl⟩
      (.bind (simulated.expression follows ready.2 ready.1) ?_))
    intro r env' w' _ follows' grown
    exact .ofExcept env (not_isFinal_push (by simp)) (fun _ => rfl) follows' grown
      fun _ applied => BinaryOp.apply_isKnown _ applied
  | declare id isMutable env =>
    obtain ⟨grown, follows'⟩ := follows.define env ready value isMutable
    have same : frame below v (.declare id isMutable env) (w.forget start) =
        some (.ok .undefined,
          (w.withHeap (w.heap.define env id.name v isMutable)).forget start) := by
      rw [frame, mapHeap_bind]
      dsimp only [World.forget]
      rw [Heap.forget_define ready]
      rfl
    rw [same]
    exact .less (.step (y := ⟨.value .undefined, env, stack, _⟩)
      ⟨not_isFinal_push nofun, fun _ => rfl⟩ (.arrive (.value trivial follows' grown)))
  | assign id env =>
    obtain ⟨grown, follows'⟩ := follows.set env ready value
    have same : frame below v (.assign id env) (w.forget start) =
        ofExcept ((w.heap.set id v env).1.map fun _ => .undefined)
          ((w.withHeap (w.heap.set id v env).2).forget start) := by
      rw [frame, onHeap_bind]
      dsimp only [World.forget]
      rw [Heap.forget_set ready]
      cases (w.heap.set id v env).1 <;> rfl
    rw [same]
    refine .ofExcept env (not_isFinal_push (by simp)) (fun m => (transition_push m).trans ?_)
      follows' grown ?_
    · simp only [Machine.give, Machine.onHeap, Machine.popped, Machine.placed, World.withHeap]
      rcases w.heap.set id v env with ⟨_ | _, h⟩ <;> rfl
    · intro u assigned
      obtain ⟨_, -, rfl⟩ := except_map_eq_ok assigned
      trivial
  | callee args span env =>
    exact arguments_simulated simulated follows ready value
      (fun _ none => absurd none List.not_mem_nil) .callee
  | argument args next evaluated f span env =>
    obtain ⟨args', callee, values⟩ := ready
    have asks : AsksFrom env stack w f span args next (v :: evaluated)
        ⟨.value v, inner, stack.push (.argument args next evaluated f span env), w⟩ := .argument
    have more := arguments_simulated simulated follows args' callee
      (List.forall_mem_cons.2 ⟨value, values⟩) asks
    rw [List.reverse_cons] at more
    simp only [List.append_assoc, List.singleton_append] at more
    exact more
  | apply f args span env => exact simulated.call follows ready.1 ready.2
  | branch consequent alternate span env =>
    cases decided : v.condition span with
    | error fault =>
      rw [frame, decided]
      exact .arrive (.fault (fails_branch decided))
    | ok b =>
      rw [frame, decided]
      refine .less (.step (steps_branch decided) (control_simulated simulated follows ?_ stack))
      cases b with
      | true => exact ready.1
      | false => exact ready.2

/-- Frames one after the other, on top of a stack. -/
theorem frames_simulated {fs : List Frame} (ready : ∀ f ∈ fs, f.IsReady start w.heap)
    (value : v.IsKnown start.continuations.size) (inner : Env) (stack : Stack) :
    Simulates start fuel none stack w.heap ⟨.value v, inner, stack.splice (.ofFrames fs), w⟩
      (frames below fs v (w.forget start)) := by
  induction fs generalizing w v inner with
  | nil =>
    have same : stack.splice (.ofFrames []) = stack := Stack.ext rfl
    rw [same]
    exact .arrive (.value value follows (.refl _))
  | cons f fs ih =>
    have same : stack.splice (.ofFrames (f :: fs)) = (stack.splice (.ofFrames fs)).push f :=
      Stack.splice_push stack (.ofFrames fs) f
    obtain ⟨first, others⟩ := List.forall_mem_cons.1 ready
    rw [same]
    refine .bind (frame_simulated simulated follows first value inner _) ?_
    intro u env w' value' follows' grown
    exact (ih follows' (fun g member => (others g member).mono grown) value' env).since grown

/-! ## Expressions -/

/-- A phrase that first evaluates a part and leaves the rest to a frame. -/
theorem operand_simulated (has : w.heap.Has env) (spelled : e.IsSpelled) {f : Frame}
    (ready : f.IsReady start w.heap) (stack : Stack) :
    Simulates start fuel none stack w.heap ⟨.expression e, env, stack.push f, w⟩
      ((below.expression env e >>= fun v => frame below v f) (w.forget start)) := by
  refine .bind (simulated.expression follows has spelled) fun v env' w' value follows' grown => ?_
  exact (frame_simulated simulated follows' (ready.mono grown) value env' stack).since grown

/-- A phrase that first decides which of two others it goes on with. -/
theorem branch_simulated (has : w.heap.Has env) (spelled : e.IsSpelled) {c a : Control}
    (ready : c.IsReady start w.heap env ∧ a.IsReady start w.heap env) (stack : Stack) :
    Simulates start fuel none stack w.heap
      ⟨.expression e, env, stack.push (.branch c a e.span env), w⟩
      ((below.expression env e >>= fun v => ofExcept (v.condition e.span) >>= fun decided =>
        if decided then control below env c else control below env a) (w.forget start)) := by
  have more := operand_simulated simulated follows has spelled
    (f := .branch c a e.span env) ready stack
  simpa only [frame_branch] using more

theorem expression_simulated (has : w.heap.Has env) (spelled : e.IsSpelled) (stack : Stack) :
    Simulates start (fuel + 1) none stack w.heap ⟨.expression e, env, stack, w⟩
      (expression below env e (w.forget start)) := by
  obtain ⟨own, parts⟩ := spelled
  cases e with
  | literal l span =>
    exact .step (y := ⟨.value l.value, env, stack, w⟩) ⟨not_isFinal_expression, fun _ => rfl⟩
      (.arrive (.value (l.value_isKnown _) follows (.refl _)))
  | identifier id =>
    have ne := returnPoint_ne (own id.name List.mem_cons_self)
    have same : expression below env (.identifier id) (w.forget start) =
        ofExcept (w.heap.get id env) (w.forget start) := by
      rw [← Heap.forget_get ne]
      rfl
    rw [same]
    refine .ofExcept env not_isFinal_expression (fun m => ?_) follows (.refl _) fun v found => ?_
    · simp only [Machine.transition, Machine.evaluate, Machine.placed]
      cases w.heap.get id env <;> rfl
    · rw [← Heap.forget_get ne] at found
      exact follows.known.get found
  | function f =>
    have made := follows.newClosure (parts _ (.part (.made f))) has
    refine .step (y := ⟨.value (w.heap.newClosure ⟨f, env⟩).1, env, stack, _⟩)
      ⟨not_isFinal_expression, fun _ => rfl⟩ (.arrive (.value ?_ made (.newClosure _ _)))
    trivial
  | call callee args span =>
    refine .step ⟨not_isFinal_expression, fun _ => rfl⟩ (operand_simulated simulated follows has
      (parts _ (.part (.callee _ _ _))) (f := .callee args span env) (fun e member => ?_) stack)
    exact ⟨parts _ (.part (.argument _ _ member)), has⟩
  | unary op operand span =>
    rw [expression]
    by_cases unsupported : op = .typeof
    · rw [if_pos unsupported]
      exact .refuse not_isFinal_expression fun _ => if_pos unsupported
    · rw [if_neg unsupported]
      exact .step (y := ⟨_, _, stack.push (.unaryOperand op span env), _⟩)
        ⟨not_isFinal_expression, fun _ => if_neg unsupported⟩ (operand_simulated simulated follows
          has (parts _ (.part (.operand _ _ _))) (f := .unaryOperand op span env) trivial stack)
  | binary op left right span =>
    rw [expression]
    by_cases unsupported : op = .looseEq ∨ op = .looseNotEq
    · rw [if_pos unsupported]
      exact .refuse not_isFinal_expression fun _ => if_pos unsupported
    · rw [if_neg unsupported]
      exact .step (y := ⟨_, _, stack.push (.leftOperand op right span env), _⟩)
        ⟨not_isFinal_expression, fun _ => if_neg unsupported⟩
        (operand_simulated simulated follows has (parts _ (.part (.left _ _ _ _)))
          (f := .leftOperand op right span env) ⟨parts _ (.part (.right _ _ _ _)), has⟩ stack)
  | logical op left right span =>
    have leftSpelled : left.IsSpelled := parts _ (.part (.first _ _ _ _))
    have rightSpelled : right.IsSpelled := parts _ (.part (.second _ _ _ _))
    cases op with
    | and =>
      exact .step ⟨not_isFinal_expression, fun _ => rfl⟩
        (branch_simulated simulated follows has leftSpelled (c := .expression right)
          (a := .value (.boolean false)) ⟨⟨rightSpelled, has⟩, trivial⟩ stack)
    | or =>
      exact .step ⟨not_isFinal_expression, fun _ => rfl⟩
        (branch_simulated simulated follows has leftSpelled (c := .value (.boolean true))
          (a := .expression right) ⟨trivial, rightSpelled, has⟩ stack)
    | nullish => exact .refuse not_isFinal_expression fun _ => rfl
  | conditional test consequent alternate span =>
    exact .step ⟨not_isFinal_expression, fun _ => rfl⟩
      (branch_simulated simulated follows has (parts _ (.part (.condition _ _ _ _)))
        (c := .expression consequent) (a := .expression alternate)
        ⟨⟨parts _ (.part (.positive _ _ _ _)), has⟩, parts _ (.part (.negative _ _ _ _)), has⟩
        stack)
  | assignment op target value span =>
    rw [expression]
    cases assignee : target.assignee op span with
    | error fault =>
      refine .refuse not_isFinal_expression fun m => ?_
      simp only [Machine.transition, Machine.evaluate, assignee]
    | ok id =>
      obtain ⟨rfl, rfl⟩ := Target.assignee_eq_ok assignee
      have ne := returnPoint_ne (own id.name List.mem_cons_self)
      exact .step ⟨not_isFinal_expression, fun _ => rfl⟩ (operand_simulated simulated follows has
        (parts _ (.part (.assigned _ _ _ _))) (f := .assign id env) ne stack)
  | _ =>
    exact .refuse not_isFinal_expression fun _ => rfl

end

/-! ## Statements -/

/-- A declaration whose value is given by a part. -/
theorem declaration_simulated {id : Identifier}
    (ne : returnPoint ≠ id.name) {isMutable : Bool} {init : Eval Value} {stack : Stack}
    {x y : Config} (refused : ∀ fault, w.heap.checkUnassigned env id isMutable = .error fault →
      x.Fails fault ⟨x.control, env, stack, w⟩)
    (first : w.heap.checkUnassigned env id isMutable = .ok () → x.Steps y)
    (begins : Simulates start fuel none (stack.push (.declare id isMutable env)) w.heap y
      (init (w.forget start))) : Simulates start (fuel + 1) none stack w.heap x
      (declaration env id isMutable init (w.forget start)) := by
  rw [declaration, heap_bind]
  dsimp only [World.forget]
  rw [Heap.forget_checkUnassigned ne]
  cases checked : w.heap.checkUnassigned env id isMutable with
  | error fault => exact .arrive (.fault (refused fault checked))
  | ok _ =>
    refine .step (first checked) (.bind begins fun v env' w' value follows' grown => ?_)
    have more := frame_simulated simulated follows' (f := .declare id isMutable env) ne value env'
      stack
    exact more.since grown

/-- Statements that wait on a stack. -/
theorem inOrder_simulated (follows : w.Follows start) (at_ : w.heap.IsAt start home env)
    (spelled : ∀ s ∈ stmts, s.IsSpelled) (value : v.IsKnown start.continuations.size) (inner : Env)
    (stack : Stack) :
    Simulates start fuel home stack w.heap ⟨.value v, inner, stack.pushAll env stmts, w⟩
      (inOrder below home.isSome env stmts v (w.forget start)) := by
  induction stmts generalizing w v inner with
  | nil => exact .arrive (.value value follows (.refl _))
  | cons s rest ih =>
    obtain ⟨first, others⟩ := List.forall_mem_cons.1 spelled
    have same : stack.pushAll env (s :: rest) = (stack.pushAll env rest).push (.exec s env) := rfl
    rw [same]
    refine .less (.step (y := ⟨_, _, stack.pushAll env rest, _⟩)
      ⟨not_isFinal_push nofun, fun _ => rfl⟩ (.bind (simulated.statement follows at_ first) ?_))
    intro u env' w' value' follows' grown
    exact (ih follows' (at_.mono grown) others value' env').since grown

/-- A body, once its names are declared. -/
theorem body_simulated (follows : w.Follows start) (at_ : w.heap.IsAt start home outer)
    (spelled : ∀ s ∈ stmts, s.IsSpelled) (label : String)
    (declared : (w.heap.newScope label outer).2.hoist (w.heap.newScope label outer).1 stmts =
      (.ok (), h)) (stack : Stack) : Simulates start fuel home stack w.heap
      ⟨.ofBody stmts, (w.heap.newScope label outer).1,
        stack.pushAll (w.heap.newScope label outer).1 stmts.tail, w.withHeap h⟩
      (body below home.isSome label outer stmts (w.forget start)) := by
  have made := follows.newScope label outer
  obtain ⟨grown, follows'⟩ := made.hoist (w.heap.newScope label outer).1 spelled
  have same : body below home.isSome label outer stmts (w.forget start) =
      inOrder below home.isSome (w.heap.newScope label outer).1 stmts .undefined
        ((w.withHeap h).forget start) := by
    rw [body, onHeap_bind, onHeap_bind]
    dsimp only [World.forget]
    rw [Heap.forget_newScope]
    rw [Heap.forget_hoist (returnPoint_notMem_declaredNames spelled), declared]
    rfl
  simp only [World.withHeap, declared] at grown follows'
  rw [same]
  have at' := (at_.newScope label).mono grown
  have all := (Heap.Extends.newScope w.heap label outer).trans grown
  cases stmts with
  | nil => exact .arrive (.value trivial follows' all)
  | cons s rest =>
    obtain ⟨first, others⟩ := List.forall_mem_cons.1 spelled
    refine .since all (.bind (simulated.statement follows' at' first) ?_)
    intro u env' w' value follows'' later
    exact (inOrder_simulated simulated follows'' (at'.mono later) others value env' stack).since
      later

omit simulated in
/-- A body in which a name is declared twice. -/
theorem body_of_clash {inside : Bool} (spelled : ∀ s ∈ stmts, s.IsSpelled) (label : String)
    (clash : (w.heap.newScope label outer).2.hoist (w.heap.newScope label outer).1 stmts =
      (.error fault, h)) : body below inside label outer stmts (w.forget start) =
      some (.error (.fault fault), (w.withHeap h).forget start) := by
  rw [body, onHeap_bind, onHeap_bind]
  dsimp only [World.forget]
  rw [Heap.forget_newScope]
  rw [Heap.forget_hoist (returnPoint_notMem_declaredNames spelled), clash]
  rfl

/-- What a `return` gives back is evaluated first. -/
theorem returned_simulated (follows : w.Follows start) (has : w.heap.Has env)
    {argument : Option Expr} (spelled : ∀ e ∈ argument, e.IsSpelled) (stack : Stack) :
    Simulates start fuel none stack w.heap
      ⟨argument.elim (.value .undefined) .expression, env, stack, w⟩
      ((argument.elim (pure .undefined) (below.expression env) : Eval Value) (w.forget start)) := by
  cases argument with
  | none => exact .arrive (.value trivial follows (.refl _))
  | some e => exact simulated.expression follows has (spelled e rfl)

theorem returns_simulated (follows : w.Follows start) (at_ : w.heap.IsAt start home env)
    {argument : Option Expr} (spelled : ∀ e ∈ argument, e.IsSpelled) (span : Span) (stack : Stack) :
    Simulates start (fuel + 1) home stack w.heap
      ⟨.statement (.returns argument span), env, stack, w⟩
      (statement below home.isSome env (.returns argument span) (w.forget start)) := by
  cases home with
  | none =>
    -- outside of the calls of this evaluation both sides find the same value
    have forgotten : (w.forget start).heap.lookup? returnPoint env =
        w.heap.lookup? returnPoint env := at_.leads.lookup?_forget
    cases found : w.heap.lookup? returnPoint env with
    | none =>
      have same : statement below false env (.returns argument span) (w.forget start) =
          (throw (.fault ⟨.returnOutsideFunction, span⟩) : Eval Value) (w.forget start) := by
        simp only [statement, Bool.false_eq_true, if_false, heap_bind, forgotten, found]
      show Simulates _ _ _ _ _ _
        (statement below false env (.returns argument span) (w.forget start))
      rw [same]
      refine .refuse not_isFinal_statement fun m => ?_
      simp only [Machine.transition, Machine.execute, Machine.placed, found]
    | some k =>
      have same : statement below false env (.returns argument span) (w.forget start) =
          (do
            let v ← argument.elim (pure .undefined) (below.expression env)
            below.call k [v] span : Eval Value) (w.forget start) := by
        simp only [statement, Bool.false_eq_true, if_false, heap_bind, forgotten, found]
      show Simulates _ _ _ _ _ _
        (statement below false env (.returns argument span) (w.forget start))
      rw [same]
      have point : k.IsKnown start.continuations.size := by
        rw [← at_.leads.lookup?_forget] at found
        exact follows.known.lookup? found
      have steps : Steps ⟨.statement (.returns argument span), env, stack, w⟩
          ⟨argument.elim (.value .undefined) .expression, env,
            stack.push (.argument [] 0 [] k span env), w⟩ := by
        refine ⟨not_isFinal_statement, fun m => ?_⟩
        simp only [Machine.transition, Machine.execute, Machine.placed, found]
        rfl
      refine .step steps (.bind (returned_simulated simulated follows at_.has spelled _) ?_)
      intro v env' w' value follows' grown
      have call : Steps ⟨.value v, env', stack.push (.argument [] 0 [] k span env), w'⟩
          ⟨.value k, env, stack.push (.apply k [v] span env), w'⟩ :=
        ⟨not_isFinal_push (by simp), fun _ => rfl⟩
      exact .less (.step call (.since grown
        (simulated.call follows' point (List.forall_mem_singleton.2 value))))
  | some caller =>
    -- the machine finds its return point, of which the evaluator knows nothing
    obtain ⟨k, found, captured⟩ := at_.leads
    have steps : Steps ⟨.statement (.returns argument span), env, stack, w⟩
        ⟨argument.elim (.value .undefined) .expression, env,
          stack.push (.argument [] 0 [] (.continuation k) span env), w⟩ := by
      refine ⟨not_isFinal_statement, fun m => ?_⟩
      simp only [Machine.transition, Machine.execute, Machine.placed, found]
      rfl
    refine .step steps (.bind (returned_simulated simulated follows at_.has spelled _).atHome ?_)
    intro v env' w' value follows' grown
    have call : Steps
        ⟨.value v, env', stack.push (.argument [] 0 [] (.continuation k) span env), w'⟩
        ⟨.value (.continuation k), env, stack.push (.apply (.continuation k) [v] span env), w'⟩ :=
      ⟨not_isFinal_push (by simp), fun _ => rfl⟩
    have back : Steps
        ⟨.value (.continuation k), env, stack.push (.apply (.continuation k) [v] span env), w'⟩
        ⟨.value v, caller.1, caller.2, w'⟩ :=
      steps_resume (Heap.callee?_of_captured (grown.continuations captured)) rfl
    exact .less (.step call (.less (.step back (.arrive (.returned value follows' grown rfl)))))

theorem statement_simulated (follows : w.Follows start) (at_ : w.heap.IsAt start home env)
    {s : Stmt} (spelled : s.IsSpelled) (stack : Stack) :
    Simulates start (fuel + 1) home stack w.heap ⟨.statement s, env, stack, w⟩
      (statement below home.isSome env s (w.forget start)) := by
  have spelled' := spelled
  obtain ⟨own, parts⟩ := spelled
  cases s with
  | declaration kind id init span =>
    have ne := returnPoint_ne (spelled'.declared rfl)
    have inside : init.IsSpelled := parts _ (.part (.init kind id init span))
    refine (declaration_simulated simulated ne (fun fault refused => ?_) (fun checked => ?_)
      (simulated.expression follows at_.has inside)).atHome
    · refine ⟨not_isFinal_statement, fun m => ?_⟩
      simp only [Machine.transition, Machine.execute, Machine.startDeclaration, Machine.placed,
        refused]
    · refine ⟨not_isFinal_statement, fun m => ?_⟩
      simp only [Machine.transition, Machine.execute, Machine.startDeclaration, Machine.placed,
        checked]
      rfl
  | function f =>
    rw [statement]
    cases named : f.id with
    | none =>
      refine .refuse not_isFinal_statement fun m => ?_
      simp only [Machine.transition, Machine.execute, named]
    | some id =>
      have ne := returnPoint_ne (spelled'.declared (by rw [Stmt.declared?, named]; rfl))
      have made := follows.newClosure (parts _ (.part (.declared f))) at_.has
      have begins : Simulates start fuel none (stack.push (.declare id false env)) w.heap
          ⟨.value (w.heap.newClosure ⟨f, env⟩).1, env, stack.push (.declare id false env),
            w.withHeap (w.heap.newClosure ⟨f, env⟩).2⟩ (closure env f (w.forget start)) :=
        .arrive (.value trivial made (.newClosure _ _))
      refine (declaration_simulated simulated ne (fun fault refused => ?_) (fun checked => ?_)
        begins).atHome
      · refine ⟨not_isFinal_statement, fun m => ?_⟩
        simp only [Machine.transition, Machine.execute, Machine.startDeclaration,
          Machine.placed, named, refused]
      · refine ⟨not_isFinal_statement, fun m => ?_⟩
        simp only [Machine.transition, Machine.execute, Machine.startDeclaration,
          Machine.placed, named, checked]
        rfl
  | block b =>
    have inside : ∀ s ∈ b.body, s.IsSpelled := fun s member => parts _ (.inBlock member)
    cases entered : (w.heap.newScope "blockEnvironment" env).2.hoist
        (w.heap.newScope "blockEnvironment" env).1 b.body with
    | mk declared h =>
      cases declared with
      | error fault =>
        rw [statement, body_of_clash inside "blockEnvironment" entered]
        exact .arrive (.fault (fails_block entered))
      | ok _ =>
        exact .step (steps_block entered)
          (body_simulated simulated follows at_ inside "blockEnvironment" entered stack)
  | conditional test consequent alternate span =>
    have condition : test.IsSpelled := parts _ (.part (.test _ _ _ _))
    refine .step (y := ⟨_, _, stack.push (.branch (.statement consequent)
      (alternate.elim (.value .undefined) .statement) test.span env), _⟩)
      ⟨not_isFinal_statement, fun _ => rfl⟩
      (.bind (.atHome (simulated.expression follows at_.has condition)) ?_)
    intro v env' w' value follows' grown
    have at' := at_.mono grown
    cases decided : v.condition test.span with
    | error fault => exact .arrive (.fault (fails_branch decided))
    | ok b =>
      refine .less (.step (steps_branch decided) (.since grown ?_))
      cases b with
      | true => exact simulated.statement follows' at' (parts _ (.part (.consequent _ _ _ _)))
      | false =>
        cases alternate with
        | none => exact .arrive (.value trivial follows' (.refl _))
        | some s =>
          exact simulated.statement follows' at' (parts _ (.part (.alternate _ _ s _)))
  | returns argument span =>
    refine returns_simulated simulated follows at_ (fun e given => ?_) span stack
    obtain rfl : argument = some e := given
    exact parts _ (.part (.returned e span))
  | expression e span =>
    have inside : e.IsSpelled := parts _ (.part (.expression e span))
    exact .step ⟨not_isFinal_statement, fun _ => rfl⟩
      (.atHome (simulated.expression follows at_.has inside))
  | _ => exact .refuse not_isFinal_statement fun _ => rfl

/-! ## Calls -/

section

variable {w : World} (follows : w.Follows start) {f : Value} {args : List Value}
  (values : ∀ v ∈ args, v.IsKnown start.continuations.size) (v : Value) {span : Span}
  (env inner : Env) (stack : Stack)

include follows values

theorem callClosure_simulated {c : Closure} (leads : w.heap.callee? f = some (.closure c))
    (counted : (Callee.closure c).arity.check args.length span = .ok ()) :
    Simulates start (fuel + 1) none stack w.heap
      ⟨.value v, inner, stack.push (.apply f args span env), w⟩
      (callClosure below c args (w.forget start)) := by
  obtain ⟨spelled, has⟩ := follows.closures c (Heap.mem_closures_of_callee? leads)
  have unnamed := returnPoint_notMem_paramNames spelled
  have grown := Heap.Extends.enterCall unnamed w.heap args ⟨.undelimited, env, stack⟩
  have follows' := follows.enterCall spelled values ⟨.undelimited, env, stack⟩
  have at_ : Heap.IsAt _ start _ _ := .enterCall spelled has args env stack
  -- with the return point forgotten, all that the call has made is a scope with parameters
  have same : callClosure below c args (w.forget start) =
      Eval.catchReturn (below.statement true (⟨w.heap.scopes.size⟩ :: c.env)
        (.block c.function.body))
        ((w.withHeap (w.heap.enterCall c args ⟨.undelimited, env, stack⟩).2).forget start) := by
    rw [callClosure, onHeap_bind, mapHeap_bind]
    dsimp only [World.forget, World.withHeap]
    rw [Heap.forget_enterCall unnamed follows.grown.size, Heap.forget_newScope]
    rfl
  have inside : Stmt.IsSpelled (.block c.function.body) := by
    obtain ⟨-, parts⟩ := spelled
    exact parts _ (.inFunction c.function)
  rw [same]
  exact .step (steps_closure leads counted)
    (.since grown (.catchReturn (simulated.statement follows' at_ inside)))

omit simulated in
theorem callNative_simulated {g : Native} (leads : w.heap.callee? f = some (.builtin (.native g)))
    (counted : (Callee.builtin (.native g)).arity.check args.length span = .ok ()) :
    Simulates start (fuel + 1) none stack w.heap
      ⟨.value v, inner, stack.push (.apply f args span env), w⟩
      (callNative g args span (w.forget start)) := by
  obtain ⟨grown, follows', value⟩ := follows.call g values
  have same := Native.call_forget follows.grown follows.known g values
  rcases called : g.call args w with ⟨complaint | u, w'⟩
  · have failed : callNative g args span (w.forget start) =
        some (.error (.fault ((Fault.ofNative g.name complaint).at span)), w'.forget start) := by
      rw [called] at same
      rw [callNative, modifyGet_bind, same]
      rfl
    rw [failed]
    exact .arrive (.fault (fails_native leads counted called))
  · have given : callNative g args span (w.forget start) = some (.ok u, w'.forget start) := by
      rw [called] at same
      rw [callNative, modifyGet_bind, same]
      rfl
    rw [given]
    rw [called] at grown follows' value
    exact .step (steps_native leads counted called)
      (.arrive (.value (value u rfl) follows' grown))

theorem resume_simulated (resumable : start.IsResumable) {k : Captured}
    (callee : f.IsKnown start.continuations.size)
    (leads : w.heap.callee? f = some (.continuation k))
    (counted : (Callee.continuation k).arity.check args.length span = .ok ()) :
    Simulates start (fuel + 1) none stack w.heap
      ⟨.value v, inner, stack.push (.apply f args span env), w⟩
      (resume below k (argument args 0) (w.forget start)) := by
  have captured : k ∈ start.continuations := by
    rw [← Heap.callee?_forget follows.grown callee] at leads
    have there := Heap.mem_continuations_of_callee? leads
    exact there
  have value := argument_isKnown values 0
  have steps : Steps ⟨.value v, inner, stack.push (.apply f args span env), w⟩ _ :=
    steps_resume leads counted
  rw [resume]
  cases kind : k.kind with
  | undelimited =>
    rw [kind] at steps
    exact .arrive (.jumped captured kind value follows steps)
  | delimited =>
    rw [kind] at steps
    have ready := resumable.part captured follows.grown kind
    have same : k.stack = .ofFrames k.stack.frames := Stack.ext rfl
    have more := frames_simulated simulated follows ready value k.env stack
    rw [← same] at more
    exact .step steps more

end

theorem call_simulated (resumable : start.IsResumable) (follows : w.Follows start)
    (callee : f.IsKnown start.continuations.size) {args : List Value}
    (values : ∀ v ∈ args, v.IsKnown start.continuations.size) (v : Value) (span : Span)
    (env inner : Env) (stack : Stack) : Simulates start (fuel + 1) none stack w.heap
      ⟨.value v, inner, stack.push (.apply f args span env), w⟩
      (call below f args span (w.forget start)) := by
  rw [call, heap_bind]
  dsimp only [World.forget]
  rw [Heap.callee?_forget follows.grown callee]
  cases leads : w.heap.callee? f with
  | none =>
    rw [(Heap.resembles_forget follows.grown follows.known).text_eq callee]
    exact .arrive (.fault (fails_notCallable leads))
  | some found =>
    dsimp only
    cases counted : found.arity.check args.length span with
    | error fault => exact .arrive (.fault (fails_argumentCount leads counted))
    | ok _ =>
      cases found with
      | closure c =>
        exact callClosure_simulated simulated follows values v env inner stack leads counted
      | builtin p =>
        cases p with
        | control op =>
          -- the evaluator gives up right before the operator is applied
          refine .arrive (.control fun m => ?_)
          exact ⟨v, f, args, span, env, stack, op, rfl, rfl, leads,
            Machine.check_eq_ok counted⟩
        | native g =>
          exact callNative_simulated follows values v env inner stack leads counted
      | continuation k =>
        exact resume_simulated simulated follows values v env inner stack resumable callee
          leads counted

end Evaluate

/-- With any fuel, the machine does what the evaluators do. -/
theorem Evaluators.simulated_ofFuel {start : Heap} (resumable : start.IsResumable) (fuel : Nat) :
    (Evaluators.ofFuel fuel).AreSimulated start fuel := by
  induction fuel with
  | zero =>
    exact ⟨fun _ _ _ => ⟨0, _, .refl _, le_rfl⟩, fun _ _ _ => ⟨0, _, .refl _, le_rfl⟩,
      fun _ _ _ => ⟨0, _, .refl _, le_rfl⟩⟩
  | succ fuel ih =>
    refine ⟨fun follows at_ spelled => ?_, fun follows has spelled => ?_,
      fun follows callee values => ?_⟩
    · exact Evaluate.statement_simulated ih follows at_ spelled _
    · exact Evaluate.expression_simulated ih follows has spelled _
    · exact Evaluate.call_simulated ih resumable follows callee values _ _ _ _ _

end SourceMachine
