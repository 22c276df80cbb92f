import SourceMachine.Proofs.Heap.Sees

/-!
# How arguments are passed

A call gives the parameters of a function their arguments one after the other, in a new scope.
`Heap.Binds` says what should come of it: each plain parameter has the argument in its place, and
a rest parameter has the list of all that are left.  Binding a parameter overwrites what has its
name, so this rests on what the grammar says of parameters (`Param.AreProper`): their names
differ from each other and from the hidden name of the return point, and there is nothing after
a rest parameter.
-/

namespace SourceMachine

variable {h : Heap} {scope : ScopeId} {params : List Param} {args : List Value} {f : Function}
  {p : Param}

/-- The parameters have their arguments in a scope: a plain one its own, and a rest parameter the
    list of those that are left. -/
inductive Heap.Binds (h : Heap) (scope : ScopeId) : List Param → List Value → Prop where
  | nil : Binds h scope [] []
  | plain {p : Param} {v : Value} {params : List Param} {args : List Value}
      (single : p.isRest = false)
      (bound : h.slot? scope p.id.name = some (.assigned v true))
      (others : Binds h scope params args) : Binds h scope (p :: params) (v :: args)
  | rest {p : Param} {list : Value} {args : List Value} (isRest : p.isRest = true)
      (bound : h.slot? scope p.id.name = some (.assigned list true))
      (made : h.IsListOf list args) : Binds h scope [p] args

/-- So many arguments are too few for the parameters, or too many. -/
def Param.Miscount (params : List Param) (count : Nat) : Prop :=
  if params.any Param.isRest then count < params.length - 1 else count ≠ params.length

/-! ## Parameters of functions -/

/-- A plain parameter takes one argument. -/
theorem Param.miscount_cons (single : p.isRest = false) (params : List Param) (count : Nat) :
    Param.Miscount (p :: params) (count + 1) ↔ Param.Miscount params count := by
  unfold Param.Miscount
  rw [List.any_cons, single, Bool.false_or, List.length_cons]
  split <;> omega

/-- Without arguments there is none for a plain parameter. -/
theorem Param.miscount_zero (single : p.isRest = false) (params : List Param) :
    Param.Miscount (p :: params) 0 := by
  unfold Param.Miscount
  rw [List.any_cons, single, Bool.false_or, List.length_cons]
  cases params with
  | nil => exact Nat.zero_ne_one
  | cons =>
    rw [List.length_cons]
    split <;> omega

theorem Param.AreProper.tail (proper : Param.AreProper (p :: params)) : Param.AreProper params := by
  refine ⟨fun q member => proper.spelled q (List.mem_cons_of_mem _ member),
    (List.nodup_cons.1 proper.nodup).2, fun q member => proper.rest q ?_⟩
  cases params with
  | nil => cases member
  | cons => exact List.mem_cons_of_mem _ member

/-- There is nothing after a rest parameter. -/
theorem Param.AreProper.eq_nil (proper : Param.AreProper (p :: params)) (isRest : p.isRest = true) :
    params = [] := by
  cases params with
  | nil => rfl
  | cons =>
    have plain := proper.rest p List.mem_cons_self
    rw [isRest] at plain
    cases plain

theorem Param.AreProper.returnPoint_notMem (proper : Param.AreProper params) :
    returnPoint ∉ paramNames params := by
  intro found
  obtain ⟨p, member, name⟩ := List.mem_map.1 found
  exact returnPoint_ne (proper.spelled p member) name.symm

/-- The last parameter is the only one that can take more than one argument. -/
theorem Param.AreProper.arity_eq (proper : Param.AreProper f.params) :
    f.arity = if f.params.any Param.isRest then .atLeast (f.params.length - 1)
      else .exact f.params.length := by
  unfold Function.arity
  rcases List.eq_nil_or_concat f.params with none | ⟨front, last, split⟩
  · rw [none]
    rfl
  · have plain : front.any Param.isRest = false := by
      rw [List.any_eq_false]
      intro p member
      rw [proper.rest p (by simpa [split] using member)]
      exact Bool.false_ne_true
    simp [split, plain]

/-- The number of arguments is checked against the parameters. -/
theorem Param.AreProper.check_eq (proper : Param.AreProper f.params) (count : Nat) (span : Span) :
    (Param.Miscount f.params count → f.arity.check count span =
      .error ⟨.argumentCount f.arity.required count (f.params.any Param.isRest), span⟩) ∧
    (¬ Param.Miscount f.params count → f.arity.check count span = .ok ()) := by
  rw [proper.arity_eq]
  unfold Param.Miscount Arity.check
  cases f.params.any Param.isRest with
  | true =>
    simp only [if_true, Arity.accepts, decide_eq_true_eq, Arity.isVariadic]
    exact ⟨fun few => if_neg few.not_ge, fun enough => if_pos (not_lt.1 enough)⟩
  | false =>
    simp only [Bool.false_eq_true, if_false, Arity.accepts, decide_eq_true_eq, Arity.isVariadic]
    exact ⟨fun wrong => if_neg wrong, fun right => if_pos (not_not.1 right)⟩

/-! ## Binding parameters -/

/-- Parameters keep their arguments while their slots and the lists do not change. -/
theorem Heap.Binds.of_keeps {h' : Heap} (binds : h.Binds scope params args)
    (slots : ∀ name ∈ paramNames params, h'.slot? scope name = h.slot? scope name)
    (lists : ∀ {v vs}, h.IsListOf v vs → h'.IsListOf v vs) : h'.Binds scope params args := by
  induction binds with
  | nil => exact .nil
  | plain single bound _ ih =>
    obtain ⟨first, others⟩ := List.forall_mem_cons.1 slots
    exact .plain single (first.trans bound) (ih others)
  | rest isRest bound made =>
    exact .rest isRest ((slots _ List.mem_cons_self).trans bound) (lists made)

/-- Binding proper parameters to the right number of arguments gives each its own. -/
theorem Heap.bindParams_binds (proper : Param.AreProper params)
    (counted : ¬ Param.Miscount params args.length) (inside : scope.index < h.scopes.size)
    (outer : Env) : (h.bindParams (scope :: outer) params args).Binds scope params args := by
  induction params generalizing h args with
  | nil =>
    obtain rfl : args = [] := by simpa [Param.Miscount] using counted
    exact .nil
  | cons p params ih =>
    rw [Heap.bindParams]
    by_cases isRest : p.isRest = true
    · obtain rfl := proper.eq_nil isRest
      rw [if_pos isRest]
      have made := Heap.IsListOf.newList h args
      have inside' : scope.index < (h.newList args).2.scopes.size :=
        inside.trans_le (Heap.Grows.newList h args).size
      exact .rest isRest (slot?_bind_self inside' _ _) (made.grows (.bind _ _ _ _))
    · rw [if_neg isRest]
      have single : p.isRest = false := Bool.eq_false_iff.2 isRest
      cases args with
      | nil => exact absurd (Param.miscount_zero single params) counted
      | cons v args =>
        have inside' : scope.index < (h.bind scope p.id.name (.assigned v true)).scopes.size :=
          inside.trans_eq (Keeps.bind _ _ _ _).size.symm
        have right := mt (Param.miscount_cons single params args.length).2 counted
        -- no parameter after this one has its name
        have kept := KeepsSlots.bindParams (List.nodup_cons.1 proper.nodup).1
          (h.bind scope p.id.name (.assigned v true)) (scope :: outer) args
        exact .plain single ((kept scope).trans (slot?_bind_self inside _ _))
          (ih proper.tail right inside')

/-! ## Calls -/

/-- The scope of a call holds the arguments and the stack of the caller, and nothing else. -/
theorem Heap.enterCall_binds {c : Closure} (proper : Param.AreProper c.function.params)
    (counted : ¬ Param.Miscount c.function.params args.length) (h : Heap) (caller : Captured) :
    (h.enterCall c args caller).2.Binds ⟨h.scopes.size⟩ c.function.params args ∧
    ∀ name ∉ paramNames c.function.params, name ≠ returnPoint →
      (h.enterCall c args caller).2.slot? ⟨h.scopes.size⟩ name = none := by
  have made := Heap.Shows.newScope h c.function.displayName c.env
  have bound := Heap.bindParams_binds proper counted made.inside c.env
  rw [enterCall_snd]
  constructor
  · refine bound.of_keeps (fun name member => ?_) fun list => ?_
    · have ne : name ≠ returnPoint := fun same => proper.returnPoint_notMem (same ▸ member)
      exact slot?_bind_of_name_ne ne _ _ _ _
    · exact list.grows ((Heap.Grows.newContinuation _ caller).trans (.bind _ _ _ _))
  · intro name other ne
    have kept := KeepsSlots.bindParams other (h.newScope c.function.displayName c.env).2
      (⟨h.scopes.size⟩ :: c.env) args
    calc _ = _ := slot?_bind_of_name_ne ne _ _ _ _
      _ = _ := kept ⟨h.scopes.size⟩
      _ = none := made.slot?_eq name

namespace Machine

/-- Calling a closure enters a scope for the call. -/
theorem call_closure {m : Machine} {id : ClosureId} {c : Closure} {span : Span}
    (leads : m.world.heap.callee? (.closure id) = some (.closure c))
    (counted : c.function.arity.check args.length span = .ok ()) :
    m.call (.closure id) args span = (.ok (.statement (.block c.function.body)),
      { m.withHeap (m.world.heap.enterCall c args ⟨.undelimited, m.env, m.stack⟩).2 with
        env := ⟨m.world.heap.scopes.size⟩ :: c.env }) := by
  simp only [call, leads, Callee.arity, counted]
  rfl

/-- In a program that was read the names of parameters differ and only the last parameter may be
    a rest parameter.  A call of such a function fails, and changes nothing, exactly when it
    has the wrong number of arguments.  Otherwise its scope, inside of those of the closure, has
    each argument under its parameter, and besides them only the stack to return to. -/
theorem arguments_are_passed {text : String} {p : Program} {f : Function}
    (accepted : Program.read text = .ok p) (inside : p.HasNode (.function f)) :
    (f.params.map (·.id.name)).Nodup ∧ (∀ q ∈ f.params.dropLast, q.isRest = false) ∧
    ∀ (m : Machine) (id : ClosureId) (env : Env) (args : List Value) (span : Span),
      m.world.heap.closure? id = some ⟨f, env⟩ →
      (Param.Miscount f.params args.length → m.call (.closure id) args span =
        (.error ⟨.argumentCount f.arity.required args.length (f.params.any Param.isRest), span⟩,
          m)) ∧
      (¬ Param.Miscount f.params args.length →
        ∃ h' : Heap,
          m.call (.closure id) args span = (.ok (.statement (.block f.body)),
            { m.withHeap h' with env := ⟨m.world.heap.scopes.size⟩ :: env }) ∧
          h'.Binds ⟨m.world.heap.scopes.size⟩ f.params args ∧
          (∃ k, h'.slot? ⟨m.world.heap.scopes.size⟩ returnPoint =
              some (.assigned (.continuation k) false) ∧
            h'.continuation? k = some ⟨.undelimited, m.env, m.stack⟩) ∧
          (∀ name ∉ f.params.map (·.id.name), name ≠ returnPoint →
            h'.slot? ⟨m.world.heap.scopes.size⟩ name = none) ∧
          ∀ scope : ScopeId, scope.index < m.world.heap.scopes.size →
            ∀ name, h'.slot? scope name = m.world.heap.slot? scope name) := by
  obtain ⟨_, ⟨params, -, -, -⟩⟩ := inside.sound accepted
  have proper := params f rfl
  refine ⟨proper.nodup, proper.rest, fun m id env args span found => ?_⟩
  have leads : m.world.heap.callee? (.closure id) = some (.closure ⟨f, env⟩) :=
    congrArg (Option.map Callee.closure) found
  refine ⟨fun wrong => ?_, fun right => ?_⟩
  · simp only [call, leads, Callee.arity, (proper.check_eq args.length span).1 wrong]
  · have counted := (proper.check_eq args.length span).2 right
    obtain ⟨binds, others⟩ := Heap.enterCall_binds (c := ⟨f, env⟩) proper right m.world.heap
      ⟨.undelimited, m.env, m.stack⟩
    exact ⟨_, call_closure leads counted, binds,
      ⟨_, Heap.slot?_enterCall_self _ _ _ _, Heap.continuation?_enterCall _ _ _ _⟩, others,
      fun scope old => Heap.KeepsScope.enterCall old _ _ _⟩

/-- The parameters of a function that is declared. -/
def declaredParams : Stmt → List Param
  | .function f => f.params
  | _ => []

/-- A function with a rest parameter, called with one argument more than it has parameters. -/
theorem arguments_are_passed_of_rest :
    ∃ (p : Program) (f : Function) (m : Machine),
      Program.read "function f(x, ...xs) {}" = .ok p ∧ p.HasNode (.function f) ∧
      f.params.map (fun q => (q.id.name, q.isRest)) = [("x", false), ("xs", true)] ∧
      m.world.heap.closure? ⟨0⟩ = some ⟨f, []⟩ ∧
      ∃ h' : Heap,
        m.call (.closure ⟨0⟩) [.null, .boolean true, .boolean false] {} =
          (.ok (.statement (.block f.body)), { m.withHeap h' with env := [⟨0⟩] }) ∧
        h'.Binds ⟨0⟩ f.params [.null, .boolean true, .boolean false] := by
  obtain ⟨p, accepted, st, first, named⟩ := Program.exists_read
    (by decide +kernel : ∃ p ∈ (Program.read "function f(x, ...xs) {}").toOption,
      ∃ st ∈ p.body[0]?,
        (declaredParams st).map (fun q => (q.id.name, q.isRest)) = [("x", false), ("xs", true)])
  have member : Node.statement st ∈ (Node.program p).children :=
    List.mem_map_of_mem (List.mem_of_getElem? first)
  cases st with
  | function f =>
    rw [declaredParams] at named
    have inside : p.HasNode (.function f) := .child (.child .root member) List.mem_cons_self
    let m : Machine :=
      { env := [], outer := [], maxDepth := 0, preludePending := false,
        world := { heap := { closures := #[⟨f, []⟩] } } }
    obtain ⟨-, -, calls⟩ := arguments_are_passed accepted inside
    have two : f.params.length = 2 := by simpa using congrArg List.length named
    have rest : f.params.any Param.isRest = true := by
      simpa [List.any_map] using congrArg (List.any · Prod.snd) named
    have right : ¬ Param.Miscount f.params 3 := by simp [Param.Miscount, rest, two]
    obtain ⟨h', called, binds, -⟩ :=
      (calls m ⟨0⟩ [] [.null, .boolean true, .boolean false] {} rfl).2 right
    exact ⟨p, f, m, accepted, inside, named, rfl, h', called, binds⟩
  | _ => cases named

end Machine

end SourceMachine
