import SourceMachine.Proofs.Session.Served

/-!
# Calls in the middle of a session

A function of the preludes may be called at any time of a session, on any stack.  What it does is
followed without places, as that of a whole program is, but the stack that it comes back to is
the very stack of the call: the first step of the call keeps that stack at the return point, and
the last step takes it from there (`exists_comesTo`).
-/

namespace SourceMachine

variable {c : Control} {env base : Env} {count : Nat} {x : String} {f v : Value}
  {goal : Config → Prop} {k : ContinuationId} {m₁ : Machine}

namespace Machine

variable {m m' m₁ : Machine} {count more : Nat} {x : Config}

/-! ## Runs in parts -/

/-- A machine that works on something is in a configuration. -/
theorem comes_zero (control : m.control = some c) : m.Comes 0 ⟨c, m.env, m.stack, m.world⟩ := by
  have same : m.holding ⟨c, m.env, m.stack, m.world⟩ = m := by
    rw [holding, placed, ← control]
  exact ⟨m, rfl, fun budget => by rw [same, Nat.zero_add]⟩

/-- A run that was suspended goes on from where it was. -/
theorem run_add (first : m.run count = (.suspended, m')) (budget : Nat) :
    m.run (count + budget) = m'.run budget := by
  induction count generalizing m with
  | zero =>
    cases first
    rw [Nat.zero_add]
  | succ count ih =>
    rw [Nat.add_right_comm]
    rw [run] at first ⊢
    cases advanced : m.advance with
    | inl next =>
      rw [advanced] at first
      exact ih first
    | inr ended =>
      rw [advanced] at first
      obtain rfl : ended = (.suspended, m') := first
      -- no step ends a run as suspended
      rw [advance] at advanced
      cases progress : m.step.1 with
      | _ => simp [progress, Progress.outcome?] at advanced

theorem Overflows.of_run (first : m.run count = (.suspended, m')) (deep : m'.Overflows) :
    m.Overflows := by
  obtain ⟨budget, depth, overflow⟩ := deep
  exact ⟨count + budget, depth, by rw [run_add first, overflow]⟩

theorem visits_of_run (ran : m.run count = (.suspended, m')) : m.Visits m' := by
  have visited : m.Visits (m.run count).2 := Visits.run ⟨[], .refl⟩ count
  rwa [ran] at visited

/-! ## Runs without places -/

theorem Overflows.of_unspanned (deep : m.unspanned.Overflows) : m.Overflows := by
  obtain ⟨budget, depth, overflow⟩ := deep
  rw [run_unspanned] at overflow
  refine ⟨budget, depth, ?_⟩
  cases outcome : (m.run budget).1 with
  | failed failure =>
    rw [outcome] at overflow
    cases failure <;> cases overflow
    rfl
  | finished v => rw [outcome] at overflow; cases overflow
  | suspended => rw [outcome] at overflow; cases overflow

/-- Where a machine comes without places, it comes with them. -/
theorem exists_run_of_unspanned (comes : m.unspanned.Comes count x) :
    ∃ m', m.run count = (.suspended, m') ∧ m'.control.map Control.unspanned = some x.control ∧
      m'.stack.unspanned = x.stack ∧ m'.world.unspanned = x.world := by
  obtain ⟨m', ran⟩ := comes.run_eq
  rw [run_unspanned] at ran
  obtain ⟨outcome, last⟩ := Prod.mk.inj ran
  have suspended : (m.run count).1 = .suspended := by
    cases same : (m.run count).1 with
    | suspended => rfl
    | finished v => rw [same] at outcome; cases outcome
    | failed failure => rw [same] at outcome; cases outcome
  exact ⟨(m.run count).2, Prod.ext suspended rfl, congrArg Machine.control last,
    congrArg Machine.stack last, congrArg Machine.world last⟩

end Machine

theorem Control.eq_value_of_unspanned {c : Option Control}
    (same : c.map Control.unspanned = some (.value v)) : c = some (.value v) := by
  obtain ⟨c, rfl, erased⟩ := Option.map_eq_some_iff.1 same
  cases c <;> cases erased
  rfl

theorem Stack.exists_apply_of_unspanned {s rest : Stack} {args : List Value} {span : Span}
    (same : s.unspanned = rest.push (.apply f args span env)) :
    ∃ (rest' : Stack) (span' : Span), s = rest'.push (.apply f args span' env) ∧
      rest'.unspanned = rest := by
  have frames : s.frames.map Frame.unspanned = .apply f args span env :: rest.frames :=
    congrArg Stack.frames same
  obtain ⟨top, others, split, erased, below⟩ := List.map_eq_cons_iff.1 frames
  cases top <;> cases erased
  exact ⟨.ofFrames others, _, Stack.ext split, Stack.ext below⟩

/-! ## Calls -/

namespace Machine

/-- The machine is about to call a value with some arguments, on a stack. -/
def Applies (m : Machine) (f : Value) (args : List Value) (env : Env) (stack : Stack) : Prop :=
  ∃ v span, m.control = some (.value v) ∧ m.stack = stack.push (.apply f args span env)

/-- A run of the machine comes to a machine that has a value for a stack. -/
def ComesTo (m : Machine) (v : Value) (stack : Stack) (m' : Machine) : Prop :=
  (∃ count, m.run count = (.suspended, m')) ∧ m'.control = some (.value v) ∧ m'.stack = stack

/-- A run of the machine comes to a machine that is about to call a value. -/
def ComesToApply (m : Machine) (f : Value) (args : List Value) (env : Env) (stack : Stack)
    (m' : Machine) : Prop :=
  (∃ count, m.run count = (.suspended, m')) ∧ m'.Applies f args env stack

end Machine

/-- A value is handed to a captured stack. -/
def Config.HandsTo (k : ContinuationId) (result : Value → World → Prop) (y : Config) : Prop :=
  ∃ (r : Value) (env : Env) (below : Stack), result r y.world ∧
    y.control = .value (.continuation k) ∧
      y.stack = below.push (.apply (.continuation k) [r] {} env)

/-- What was there is as it was: the pairs, the bindings in all scopes, and the console. -/
structure World.Spares (w w' : World) : Prop where
  pairs : ∀ {id : PairId} {p : Value × Value},
    w.heap.pair? id = some p → w'.heap.pair? id = some p
  slots : ∀ {id : ScopeId}, id.index < w.heap.scopes.size →
    ∀ name, w'.heap.slot? id name = w.heap.slot? id name
  console : w'.console = w.console

namespace Heap

variable {h h' : Heap} {v : Value}

theorem Shows.unspanned {id : ScopeId} {slots : Named Slot} (known : h.Shows id slots) :
    h.unspanned.Shows id slots :=
  ⟨known.inside, known.slot?_eq⟩

theorem Sees.unspanned {around : Env} {slots : List (Named Slot)}
    (sees : h.Sees around slots base) : h.unspanned.Sees around slots base :=
  ⟨sees.shown.imp fun _ _ known => known.unspanned, sees.serves.unspanned, sees.distinct⟩

theorem Lasts.unspanned (lasts : h.Lasts h') : h.unspanned.Lasts h'.unspanned := by
  refine ⟨fun {id c} found => ?_, fun {id k} found => ?_⟩
  · rw [closure?_unspanned, Option.map_eq_some_iff] at found ⊢
    obtain ⟨c', found, same⟩ := found
    exact ⟨c', lasts.closures found, same⟩
  · rw [continuation?_unspanned, Option.map_eq_some_iff] at found ⊢
    obtain ⟨k', found, same⟩ := found
    exact ⟨k', lasts.continuations found, same⟩

theorem Grows.unspanned {touched : List ScopeId} (grows : Grows touched h h') :
    Grows touched h.unspanned h'.unspanned :=
  ⟨grows.size, grows.scopes, grows.pairs, grows.lasts.unspanned⟩

theorem exists_closure_of_unspanned {id : ClosureId} {fn : Function}
    (closure : h.unspanned.closure? id = some ⟨fn, base⟩) :
    ∃ g, g.unspanned = fn ∧ h.closure? id = some ⟨g, base⟩ := by
  rw [closure?_unspanned, Option.map_eq_some_iff] at closure
  obtain ⟨⟨g, env⟩, found, same⟩ := closure
  cases same
  exact ⟨g, rfl, found⟩

/-- The value of a name does not depend on where the name stands. -/
theorem get_of_name_eq {x y : Identifier} (same : x.name = y.name) (found : h.get x env = .ok v) :
    h.get y env = .ok v := by
  rw [get_eq_ok_iff] at found ⊢
  rw [← same]
  exact found

theorem get_unspanned_of_get (found : h.get ⟨x, {}⟩ env = .ok v) :
    h.unspanned.get ⟨x, {}⟩ env = .ok v :=
  (h.get_unspanned ⟨x, {}⟩ env).trans (congrArg unplaced found)

theorem get_of_unspanned (found : h.unspanned.get ⟨x, {}⟩ env = .ok v) :
    h.get ⟨x, {}⟩ env = .ok v := by
  have erased : h.unspanned.get ⟨x, {}⟩ env = unplaced (h.get ⟨x, {}⟩ env) :=
    h.get_unspanned ⟨x, {}⟩ env
  cases leads : h.get ⟨x, {}⟩ env with
  | ok u =>
    rw [leads, found] at erased
    cases erased
    rfl
  | error fault =>
    rw [leads, found] at erased
    cases erased

end Heap

namespace Machine

open Config Heap

variable {m : Machine} {f : ClosureId} {args : List Value} {env base : Env} {stack : Stack}
  {fn : Function} {params : List String} {limit : Nat}

/-- The machine does not overflow, or it may have stacks of a depth in any case. -/
def HasRoom (m : Machine) (depth : Nat) : Prop :=
  ¬m.Overflows ∨ depth ≤ m.maxDepth

/-- A machine that has room comes to where it should. -/
theorem exists_comes {x : Config} (attains : x.Attains limit goal) (comes : m.Comes count x)
    (room : m.HasRoom limit) : ∃ more y, goal y ∧ m.Comes (count + more) y := by
  rcases room with never | room
  · exact (attains.overflows_or_comes comes).resolve_left never
  · exact (attains.mono room).comes comes

/-- The same for a machine that is followed without places. -/
theorem exists_run_of_attains (control : m.control = some c)
    (attains : Attains limit goal ⟨c.unspanned, m.env, m.stack.unspanned, m.world.unspanned⟩)
    (room : m.HasRoom limit) : ∃ count m' y, goal y ∧ m.run count = (.suspended, m') ∧
      m'.control.map Control.unspanned = some y.control ∧ m'.stack.unspanned = y.stack ∧
      m'.world.unspanned = y.world := by
  have comes : m.unspanned.Comes 0 ⟨c.unspanned, m.env, m.stack.unspanned, m.world.unspanned⟩ :=
    comes_zero (congrArg (Option.map Control.unspanned) control)
  obtain ⟨count, y, reached, comes⟩ :=
    exists_comes attains comes (room.imp_left fun never deep => never deep.of_unspanned)
  rw [Nat.zero_add] at comes
  obtain ⟨m', ran, same⟩ := exists_run_of_unspanned comes
  exact ⟨count, m', y, reached, ran, same⟩

theorem exists_run_one {y : Config} (control : m.control = some c)
    (steps : Config.Steps ⟨c, m.env, m.stack, m.world⟩ y) (space : y.stack.depth ≤ limit)
    (room : m.HasRoom limit) : ∃ m₁ : Machine, m.run 1 = (.suspended, m₁.holding y) := by
  have comes := comes_zero control
  have fits : y.stack.depth ≤ m.maxDepth := by
    rcases room with never | room
    · by_contra deep
      exact never (comes.overflows steps (not_le.1 deep))
    · exact space.trans room
  exact (comes.step steps fits).run_eq

/-- The first step of a call keeps the stack at the return point, with all its places. -/
theorem exists_called {g : Function} (applies : m.Applies (.closure f) args env stack)
    (closure : m.world.heap.closure? f = some ⟨g, base⟩)
    (simple : g.params.map Param.unspanned = params.map Sketch.param)
    (counted : args.length = params.length) (space : stack.depth ≤ limit) (room : m.HasRoom limit) :
    ∃ m₁ h, m.run 1 = (.suspended, m₁) ∧ m₁.control = some (.statement (.block g.body)) ∧
      m₁.env = ⟨m.world.heap.scopes.size⟩ :: base ∧ m₁.stack = stack ∧
      m₁.world = m.world.withHeap h ∧ Grows [] m.world.heap h ∧
      h.Shows ⟨m.world.heap.scopes.size⟩
        (Named.called params args ⟨m.world.heap.continuations.size⟩) ∧
      h.continuation? ⟨m.world.heap.continuations.size⟩ = some ⟨.undelimited, env, stack⟩ := by
  obtain ⟨v, span, control, top⟩ := applies
  have leads : m.world.heap.callee? (.closure f) = some (.closure ⟨g, base⟩) :=
    congrArg (Option.map Callee.closure) closure
  have accepted : (Callee.closure ⟨g, base⟩).arity.check args.length span = .ok () := by
    rw [Callee.arity, g.arity_of_simple simple, counted]
    exact if_pos (decide_eq_true rfl)
  have steps : Config.Steps ⟨.value v, m.env, m.stack, m.world⟩ _ :=
    top ▸ steps_closure leads accepted
  obtain ⟨m₁, ran⟩ := exists_run_one control steps space room
  obtain ⟨shown, grows⟩ := enterCall_shows (c := ⟨g, base⟩) simple counted m.world.heap
    ⟨.undelimited, env, stack⟩
  exact ⟨_, _, ran, rfl, rfl, rfl, rfl, grows, shown, continuation?_enterCall _ _ _ _⟩

/-- The last step of a call goes back to the stack that is kept at the return point. -/
theorem exists_comesTo_of_applies {r : Value} {inner : Env} {below : Stack}
    (applies : m.Applies (.continuation k) [r] inner below)
    (home : m.world.heap.continuation? k = some ⟨.undelimited, env, stack⟩)
    (space : stack.depth ≤ limit) (room : m.HasRoom limit) :
    ∃ m', m.ComesTo r stack m' ∧ m'.world = m.world := by
  obtain ⟨v, span, control, top⟩ := applies
  have steps : Config.Steps ⟨.value v, m.env, m.stack, m.world⟩ _ :=
    top ▸ steps_resume (Heap.callee?_of_captured home) rfl
  obtain ⟨m', ran⟩ := exists_run_one control steps space room
  exact ⟨_, ⟨⟨_, ran⟩, rfl, rfl⟩, rfl⟩

theorem ComesTo.of_run {m' : Machine} (ran : m.run count = (.suspended, m₁))
    (comes : m₁.ComesTo v stack m') : m.ComesTo v stack m' := by
  obtain ⟨⟨more, onwards⟩, control, top⟩ := comes
  exact ⟨⟨count + more, (run_add ran more).trans onwards⟩, control, top⟩

/-- There is as much room after some steps as before. -/
theorem room_of_run (ran : m.run count = (.suspended, m₁)) (room : m.HasRoom limit) :
    m₁.HasRoom limit := by
  obtain ⟨births, reached⟩ := visits_of_run ran
  rw [HasRoom, reached.maxDepth]
  exact room.imp_left fun never deep => never (.of_run ran deep)

/-- A machine that hands a value to a captured stack comes to this stack, with all its places. -/
theorem exists_comesTo_of_handsTo {result : Value → World → Prop} (control : m.control = some c)
    (attains : Attains limit (HandsTo k result)
      ⟨c.unspanned, m.env, m.stack.unspanned, m.world.unspanned⟩)
    (home : m.world.heap.continuation? k = some ⟨.undelimited, env, stack⟩)
    (space : stack.depth ≤ limit) (room : m.HasRoom limit) :
    ∃ r m', m.ComesTo r stack m' ∧ result r m'.world.unspanned := by
  obtain ⟨count, m₁, y, ⟨r, inner, below, holds, handed, top⟩, ran, control₁, stack₁, world₁⟩ :=
    exists_run_of_attains control attains room
  rw [handed] at control₁
  rw [top] at stack₁
  rw [← world₁] at holds
  obtain ⟨below', span, top', -⟩ := Stack.exists_apply_of_unspanned stack₁
  obtain ⟨births, reached⟩ := visits_of_run ran
  obtain ⟨m₂, comes, world₂⟩ := exists_comesTo_of_applies
    ⟨_, span, Control.eq_value_of_unspanned control₁, top'⟩ (reached.lasts.continuations home)
    space (room_of_run ran room)
  rw [← world₂] at holds
  exact ⟨r, m₂, .of_run ran comes, holds⟩

/-- A call that hands a value to its return point comes back with it to the stack of the call. -/
theorem exists_comesTo (params : List String) (done : Value → Heap → Prop)
    (applies : m.Applies (.closure f) args env stack)
    (closure : m.world.heap.unspanned.closure? f = some ⟨fn, base⟩)
    (simple : fn.params = params.map Sketch.param) (counted : args.length = params.length)
    (sees : m.world.heap.unspanned.Sees [] [] base) (space : stack.depth ≤ limit)
    (room : m.HasRoom limit) (body : ∀ h call k goal, Grows [] m.world.heap.unspanned h →
      h.Sees [call] [Named.called params args k] base →
      (∀ h' r env', Grows [] h h' → done r h' → Attains limit goal ⟨.value (.continuation k), env',
        stack.unspanned.push (.apply (.continuation k) [r] {} env'),
        m.world.unspanned.withHeap h'⟩) →
      Attains limit goal ⟨.statement (.block fn.body), [call] ++ base, stack.unspanned,
        m.world.unspanned.withHeap h⟩) :
    ∃ r m', m.ComesTo r stack m' ∧ done r m'.world.heap.unspanned ∧ m.world.Spares m'.world := by
  obtain ⟨g, rfl, real⟩ := exists_closure_of_unspanned closure
  obtain ⟨m₁, h₁, ran₁, control₁, env₁, stack₁, world₁, grows, shown, kept⟩ :=
    exists_called applies real (g.params_unspanned.symm.trans simple) counted space room
  have grows₁ := grows.unspanned
  -- the body is followed without places
  have attains := body h₁.unspanned ⟨m.world.heap.scopes.size⟩ ⟨m.world.heap.continuations.size⟩
    (HandsTo ⟨m.world.heap.continuations.size⟩ fun r w => ∃ h', Grows [] h₁.unspanned h' ∧
      done r h' ∧ w = m.world.unspanned.withHeap h')
    grows₁ (sees.cons grows₁ le_rfl shown.unspanned)
    fun h' r env' grows' holds => .here ⟨r, env', _, ⟨h', grows', holds, rfl⟩, rfl, rfl⟩
  have start : (⟨(Control.statement (.block g.body)).unspanned, m₁.env, m₁.stack.unspanned,
      m₁.world.unspanned⟩ : Config) = ⟨.statement (.block g.unspanned.body),
        [⟨m.world.heap.scopes.size⟩] ++ base, stack.unspanned,
        m.world.unspanned.withHeap h₁.unspanned⟩ := by
    rw [env₁, stack₁, world₁, Function.body_unspanned]
    rfl
  rw [← start] at attains
  have home : m₁.world.heap.continuation? ⟨m.world.heap.continuations.size⟩ =
      some ⟨.undelimited, env, stack⟩ := by
    rw [world₁]
    exact kept
  -- the last step takes the stack from the return point
  obtain ⟨r, m₂, comes, h', grows', holds, world₂⟩ :=
    exists_comesTo_of_handsTo control₁ attains home space (room_of_run ran₁ room)
  have heap : m₂.world.heap.unspanned = h' := congrArg World.heap world₂
  have whole := grows₁.trans grows'
  refine ⟨r, m₂, .of_run ran₁ comes, heap ▸ holds, fun found => ?_, fun inside name => ?_, ?_⟩
  · exact (congrArg (Heap.pair? · _) heap).trans (whole.pairs found)
  · exact (congrArg (Heap.slot? · _ name) heap).trans (whole.scopes inside (by simp) name)
  · have console : m₂.world.unspanned.console = m.world.unspanned.console :=
      congrArg (fun w => w.console) world₂
    exact console

end Machine

/-- The first program of a session calls a function that was there before. -/
theorem Loads.exists_applies {settings : Settings} {table : Table} {world : World}
    {loaded : Machine} {text : String} {p : Program} {exprs : List Expr} (room : Nat)
    (result : List Value → Heap → Prop) (loads : Loads settings table world loaded)
    (read : Program.read text = .ok p)
    (written : p.unspanned.body = [Sketch.run (Sketch.call x exprs)])
    (found : loaded.world.heap.get ⟨x, {}⟩ loaded.outer = .ok f)
    (enough : room + 2 ≤ settings.maxDepth)
    (given : ∀ h program, h.Sees [program] [[]] loaded.outer → ∃ args h', Heap.Grows [] h h' ∧
      Config.GivesAll ([program] ++ loaded.outer) room h exprs args h' ∧ result args h') :
    ∃ m args env stack, loaded.Visits m ∧ m.maxDepth = settings.maxDepth ∧
      m.world.heap.get ⟨x, {}⟩ loaded.outer = .ok f ∧
      m.Applies f args env stack ∧ stack.depth = 1 ∧ result args m.world.heap.unspanned := by
  obtain ⟨h, program, grows, sees, -, comes⟩ := loads.exists_start (p := p)
    (by rw [written]; exact List.nodup_nil) (by rw [written]; exact Nat.le_of_add_left_le enough)
  rw [written] at sees comes
  obtain ⟨args, h', grows', givesAll, holds⟩ := given h program sees
  have serves := (loads.equips ⟨[], .refl⟩).serves
  have found' : h.get ⟨x, {}⟩ loaded.outer = .ok f := by
    rw [grows.get_eq serves.inside (by simp)]
    exact Heap.get_unspanned_of_get found
  have attains : Config.Attains settings.maxDepth (fun y => ∃ span env, y = ⟨.value f, env,
      Stack.initial.push (.apply f args span env), loaded.world.unspanned.withHeap h'⟩)
      ⟨.ofBody [Sketch.run (Sketch.call x exprs)], [program] ++ loaded.outer, Stack.initial,
        loaded.world.unspanned.withHeap h⟩ := by
    have depth : Stack.initial.depth = 1 := rfl
    refine .runs (by omega) (.call room (.name ?_) givesAll (by omega) (.here ⟨_, _, rfl⟩))
    rw [Heap.get_of_seek_none sees.shown rfl, found']
  obtain ⟨count, _, ⟨span, env, rfl⟩, comes⟩ := Machine.exists_comes attains comes
    (.inr loads.maxDepth_eq.ge)
  obtain ⟨m, ran, control, top, same⟩ := Machine.exists_run_of_unspanned comes
  obtain ⟨stack, span', top', below⟩ := Stack.exists_apply_of_unspanned top
  have heap : m.world.heap.unspanned = h' := congrArg World.heap same
  have visited : loaded.Visits m := .trans ⟨_, Machine.Reaches.refl.load read⟩
    (Machine.visits_of_run ran)
  refine ⟨m, args, env, stack, visited, ?_, Heap.get_of_unspanned ?_, ?_, ?_, ?_⟩
  · obtain ⟨births, reached⟩ := visited
    rw [reached.maxDepth, loads.maxDepth_eq]
  · rw [heap, grows'.get_eq sees.serves.inside (by simp), found']
  · exact ⟨_, span', Control.eq_value_of_unspanned control, top'⟩
  · exact congrArg Stack.depth below
  · rw [heap]
    exact holds

end SourceMachine
