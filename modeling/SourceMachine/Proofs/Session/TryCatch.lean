import SourceMachine.Proofs.Session.Calls
import SourceMachine.Proofs.Session.Confined

/-!
# Catching what a body throws

`tryc(body, ctch)` captures two stacks before it calls the body: that of its own call, under the
name `resume`, and one inside of it that waits for an exception, which the body gets.  If the
body comes back with a value, this goes to `resume`.  If something is thrown, it is handed to
`ctch`, and what this comes back with goes to `resume`.

What happens in between is up to the body, to the handler, and to the rest of the session.
However that goes, `resume` and `ctch` are still what they were when the stack of the body or of
the handler is taken up again: they are only seen from inside of `tryc`, which does not change
them.
-/

namespace SourceMachine

open Config Heap Sketch

theorem Heap.Serves.of_unspanned {h : Heap} {base : Env} (serves : h.unspanned.Serves base) :
    h.Serves base :=
  ⟨serves.inside, fun f => get_of_unspanned (serves.get_eq f)⟩

section

variable {settings : Settings} {table : Table} {world : World} {loaded m : Machine}
  (loads : Loads settings table world loaded)

include loads

/-- Everything that a session may run at some later time is placed. -/
theorem Loads.exists_isLexical {before : List Birth}
    (left : world.heap.IsLeft (fun _ _ => True) before) (visited : loaded.Visits m) :
    ∃ births, m.IsLexical births := by
  have lexical := Machine.isLexical_new settings table (Machine.isLexical_of_isLeft left)
  obtain ⟨start, lists, jumps, id, new, -, -, started, -⟩ := loads.gains
  rw [← new] at lexical
  obtain ⟨births, reached⟩ := started.trans visited
  exact ⟨_, lexical.reaches reached⟩

/-- No stack of a session is too deep. -/
theorem Loads.fits (visited : loaded.Visits m) : m.Fits := by
  have fits : (Machine.new settings table world).Fits := by
    intro c control
    cases control
  obtain ⟨start, lists, jumps, id, new, -, -, started, -⟩ := loads.gains
  rw [← new] at fits
  obtain ⟨births, reached⟩ := started.trans visited
  exact fits.reaches reached

end

namespace TryCatch

/-- The stack that an exception is thrown to. -/
abbrev thrown (stack : Stack) (env : Env) : Stack :=
  (stack.push (.exec (run (call "resume" [call "ctch" [name "exception"]])) env)).push
    (.declare ⟨"exception", {}⟩ false env)

/-- The stack that the body runs on. -/
abbrev guarded (stack : Stack) (env inner : Env) : Stack :=
  ((thrown stack env).push (.exec (run (call "resume" [name "res"])) inner)).push
    (.declare ⟨"res", {}⟩ false inner)

/-- The stack that the handler runs on. -/
abbrev handling (stack : Stack) (env : Env) (resume : ContinuationId) : Stack :=
  stack.push (.argument [call "ctch" [name "exception"]] 1 [] (.continuation resume) {} env)

/-! ## Without places -/

section Erased

variable {limit : Nat} {goal : Config → Prop} {w : World} {h : Heap} {stack : Stack}
  {base env inner outer : Env} {v r : Value} {span : Span} {resume : ContinuationId}
  {block : ScopeId}

/-- With its own stack captured, `tryc` comes to the call of the body. -/
theorem calls_body {call : ScopeId} {c : ClosureId} {k : ContinuationId} {body ctch : Value}
    (closure : h.closure? c = some ⟨Prelude.catching, [block, call] ++ base⟩)
    (sees : h.Sees [block, call] [[], Named.called ["body", "ctch"] [body, ctch] k] base)
    (space : stack.depth + 5 ≤ limit)
    (onwards : ∀ h' call₁ block₁ call₂ block₂ k₁ k₂ thrw, Grows [] h h' →
      h'.Sees [block₂, call₂, block₁, call₁, block, call] [[("res", .unassigned)],
        Named.called ["thrw"] [.continuation thrw] k₂, [("exception", .unassigned)],
        Named.called ["resume"] [.continuation resume] k₁, [],
        Named.called ["body", "ctch"] [body, ctch] k] base →
      h'.continuation? thrw = some ⟨.undelimited, [block₁, call₁, block, call] ++ base,
        thrown stack ([block₁, call₁, block, call] ++ base)⟩ →
      FromCall limit goal w h' body ([block₂, call₂, block₁, call₁, block, call] ++ base)
        (guarded stack ([block₁, call₁, block, call] ++ base)
        ([block₂, call₂, block₁, call₁, block, call] ++ base)) body [.continuation thrw] {}
        ([block₂, call₂, block₁, call₁, block, call] ++ base)) :
    FromCall limit goal w h v inner stack (.closure c) [.continuation resume] span env := by
  refine .enter ["resume"] closure rfl rfl rfl (by decide) sees (fits 2 space) ?_
  intro h₁ call₁ block₁ k₁ grows₁ _ _ sees₁ _
  refine .declares sees₁ rfl (fits 2 space) ?_
  refine .jump .callCc Prelude.throwing sees₁ rfl (fits 3 space) ?_
  intro h₂ f grows₂ closure₂ sees₂
  refine .callCc (fits 3 space) ?_
  intro h₃ thrw grows₃ captured
  refine .enter ["thrw"] (grows₃.lasts.closures closure₂) rfl rfl rfl (by decide)
    (sees₂.grown grows₃) (fits 4 space) ?_
  intro h₄ call₂ block₂ k₂ grows₄ _ _ sees₄ _
  refine .declares sees₄ rfl (fits 4 space) ?_
  refine .call 0 (.sight sees₄ rfl) (.cons (.sight sees₄ rfl) .nil) (fits 5 space) ?_
  exact onwards h₄ call₁ block₁ call₂ block₂ k₁ k₂ thrw
    (grows₁.trans (grows₂.trans (grows₃.trans grows₄))) sees₄ (grows₄.lasts.continuations captured)

/-- A name leads to the same value after another name was bound. -/
theorem get_bind_of_name_ne {x : Identifier} {name : String} (other : x.name ≠ name) (id : ScopeId)
    (slot : Slot) (env : Env) : (h.bind id name slot).get x env = h.get x env :=
  get_congr fun i _ => slot?_bind_of_name_ne other h id i slot

theorem get_bind_self {x : String} {id : ScopeId} (inside : id.index < h.scopes.size)
    (isMutable : Bool) (outer : Env) :
    (h.bind id x (.assigned v isMutable)).get ⟨x, {}⟩ (id :: outer) = .ok v := by
  rw [Heap.get, slot?_bind_self inside]

section

variable (inside : block.index < h.scopes.size)
  (found : h.get ⟨"resume", {}⟩ (block :: outer) = .ok (.continuation resume))
  (space : stack.depth + 5 ≤ limit)

include inside found space

/-- What the body comes back with is handed to the stack of the call. -/
theorem returns_value : Attains limit (HandsTo resume fun u _ => u = r)
      ⟨.value r, inner, guarded stack env (block :: outer), w.withHeap h⟩ := by
  have resumes : (h.bind block "res" (.assigned r false)).get ⟨"resume", {}⟩ (block :: outer) =
      .ok (.continuation resume) := (get_bind_of_name_ne (by decide) _ _ _).trans found
  refine .step steps_declare (fits 3 space) (.next (fits 2 space) ?_)
  refine .runs (fits 2 space) (.call 0 (.name resumes) (.cons (.name
    (get_bind_self inside _ _)) .nil) (fits 3 space) (.here ?_))
  exact ⟨r, _, _, rfl, rfl, rfl⟩

/-- What is thrown is handed to the handler. -/
theorem calls_handler {below : Stack} {thrw : ContinuationId} {ctch e : Value}
    (captured : h.continuation? thrw =
      some ⟨.undelimited, block :: outer, thrown stack (block :: outer)⟩)
    (handler : h.get ⟨"ctch", {}⟩ (block :: outer) = .ok ctch) :
    Attains limit (fun y => ∃ w', y = ⟨.value ctch, block :: outer,
        (handling stack (block :: outer) resume).push (.apply ctch [e] {} (block :: outer)), w'⟩)
      ⟨.value v, inner, below.push (.apply (.continuation thrw) [e] span env), w.withHeap h⟩ := by
  have resumes : (h.bind block "exception" (.assigned e false)).get ⟨"resume", {}⟩
      (block :: outer) = .ok (.continuation resume) :=
    (get_bind_of_name_ne (by decide) _ _ _).trans found
  have handles : (h.bind block "exception" (.assigned e false)).get ⟨"ctch", {}⟩
      (block :: outer) = .ok ctch := (get_bind_of_name_ne (by decide) _ _ _).trans handler
  refine .resume captured (fits 2 space) ?_
  refine .step steps_declare (fits 1 space) (.next (fits 0 space) ?_)
  refine .runs (fits 0 space) ?_
  refine .callLast 0 [] (.name resumes) .nil (fits 1 space) ?_
  refine .call 0 (.name handles) (.cons (.name (get_bind_self inside _ _)) .nil)
    (fits 2 space) (.here ?_)
  exact ⟨_, rfl⟩

end

/-- What the handler comes back with is handed to the stack of the call. -/
theorem returns_handled (space : stack.depth + 5 ≤ limit) :
    Attains limit (HandsTo resume fun u _ => u = r)
      ⟨.value r, inner, handling stack env resume, w⟩ := by
  have same : w = w.withHeap w.heap := rfl
  have enough : stack.depth + 1 ≤ limit := by omega
  rw [same]
  exact .applied le_rfl enough (.here ⟨r, _, _, rfl, rfl, rfl⟩)

end Erased

/-! ## With places -/


/-- A statement that is a call of a function by its name, with one function as its argument. -/
theorem exists_call_of_unspanned {s : Stmt} {x : String} {fn : Function}
    (same : s.unspanned = run (call x [.function fn])) :
    ∃ (y : Identifier) (g : Function) (at_ span : Span), y.name = x ∧ g.unspanned = fn ∧
      s = .expression (.call (.identifier y) [.function g] at_) span := by
  cases s with
  | expression e span =>
    obtain ⟨same, -⟩ := Stmt.expression.inj same
    cases e with
    | call callee args at_ =>
      obtain ⟨named, given, -⟩ := Expr.call.inj same
      rw [Expr.unspannedAll_eq_map] at given
      obtain ⟨arg, rfl, made⟩ := List.map_eq_singleton_iff.1 given
      cases callee <;> cases named
      cases arg with
      | function g => exact ⟨_, g, at_, span, rfl, Expr.function.inj made, rfl⟩
      | _ => cases made
    | _ => cases same
  | _ => cases same

theorem exists_body_of_unspanned {g : Function} (same : g.unspanned = Prelude.tryc) :
    ∃ (y : Identifier) (made : Function) (at_ span : Span), y.name = "call_cc" ∧
      made.unspanned = Prelude.catching ∧
      g.body = ⟨[.expression (.call (.identifier y) [.function made] at_) span], g.body.span⟩ := by
  obtain ⟨id, params, ⟨stmts, around⟩, isArrow, place⟩ := g
  have stmts_eq : Stmt.unspannedAll stmts = Prelude.tryc.body.body :=
    congrArg (fun f => f.body.body) same
  rw [Stmt.unspannedAll_eq_map] at stmts_eq
  obtain ⟨s, rfl, erased⟩ := List.map_eq_singleton_iff.1 stmts_eq
  obtain ⟨y, made, at_, span, named, inner, rfl⟩ := exists_call_of_unspanned erased
  exact ⟨y, made, at_, span, named, inner, rfl⟩

section Session

variable {m m₁ : Machine} {f : ClosureId} {g : Function} {body ctch : Value} {env base : Env}
  {stack : Stack} {limit : Nat} {births record : List Birth} {resume : ContinuationId}

/-- The scope of a call is recorded with its function. -/
theorem isLexical_called {args : List Value} (lexical : m.IsLexical births)
    (applies : m.Applies (.closure f) args env stack)
    (closure : m.world.heap.closure? f = some ⟨g, base⟩)
    (counted : g.arity.accepts args.length = true) (ran : m.run 1 = (.suspended, m₁)) :
    m₁.IsLexical (births ++ [⟨.call g env stack, base⟩]) := by
  obtain ⟨v, span, control, top⟩ := applies
  have calling : m.calling? = some (⟨g, base⟩, env, stack) :=
    Machine.calling?_of_closure top (congrArg (Option.map Callee.closure) closure) counted
  have born : m.birth? = some ⟨.call g env stack, base⟩ := by
    rw [Machine.birth?_of_control control, Machine.birthOf, calling]
    rfl
  have next : m.step.2 = m₁ := by
    have second : (m.run 1).2 = m₁ := congrArg Prod.snd ran
    rw [Machine.run_succ] at second
    cases outcome : m.step.1.outcome? with
    | none =>
      rw [outcome] at second
      exact second
    | some ended =>
      rw [outcome] at second
      exact second
  have stepped := m.stepped.isLexical lexical
  rw [born, next] at stepped
  exact stepped

/-- `tryc` first captures the stack of its own call, with all its places. -/
theorem exists_captured (lexical : m.IsLexical births)
    (applies : m.Applies (.closure f) [body, ctch] env stack)
    (closure : m.world.heap.closure? f = some ⟨g, base⟩) (same : g.unspanned = Prelude.tryc)
    (sees : m.world.heap.Sees [] [] base) (space : stack.depth + 1 ≤ limit)
    (room : m.HasRoom limit) :
    ∃ count m' c resume block call k record, m.run count = (.suspended, m') ∧
      m'.IsLexical record ∧ Guards record ["resume", "ctch"] call ∧
      m'.Applies (.closure c) [.continuation resume] ([block, call] ++ base) stack ∧
      m'.world.heap.unspanned.closure? c = some ⟨Prelude.catching, [block, call] ++ base⟩ ∧
      m'.world.heap.Sees [block, call] [[], Named.called ["body", "ctch"] [body, ctch] k] base ∧
      m'.world.heap.continuation? resume =
        some ⟨.undelimited, [block, call] ++ base, stack⟩ := by
  have simple : g.params.map Param.unspanned = ["body", "ctch"].map param := by
    rw [← g.params_unspanned, same]
    rfl
  obtain ⟨m₁, h₁, ran₁, control₁, env₁, stack₁, world₁, grows₁, shown, -⟩ :=
    Machine.exists_called applies closure simple rfl (Nat.le_of_add_right_le space) room
  obtain ⟨y, made, at_, span, named, erased, shape⟩ := exists_body_of_unspanned same
  have sees₁ := sees.cons grows₁ le_rfl shown
  have attains : Attains limit (fun x => ∃ h c resume block span, x = ⟨.value (.closure c),
        [block, ⟨m.world.heap.scopes.size⟩] ++ base, stack.push (.apply (.closure c)
          [.continuation resume] span ([block, ⟨m.world.heap.scopes.size⟩] ++ base)),
        m.world.withHeap h⟩ ∧
      h.closure? c = some ⟨made, [block, ⟨m.world.heap.scopes.size⟩] ++ base⟩ ∧
      h.Sees [block, ⟨m.world.heap.scopes.size⟩]
        [[], Named.called ["body", "ctch"] [body, ctch] ⟨m.world.heap.continuations.size⟩] base ∧
      h.continuation? resume =
        some ⟨.undelimited, [block, ⟨m.world.heap.scopes.size⟩] ++ base, stack⟩)
      ⟨.statement (.block g.body), [⟨m.world.heap.scopes.size⟩] ++ base, stack,
        m.world.withHeap h₁⟩ := by
    rw [shape]
    refine .block sees₁ List.nodup_nil space ?_
    intro h₂ block grows₂ _ sees₂
    have found : h₂.get y _ = _ :=
      get_of_name_eq named.symm (sees₂.builtin (.control .callCc) rfl)
    refine .runs (Nat.le_of_add_right_le space) (.call 0 (.name found)
      (.cons (.function made) .nil) space ?_)
    refine .callCc space ?_
    intro h₃ resume grows₃ captured
    refine .here ⟨h₃, ⟨h₂.closures.size⟩, resume, block, _, rfl, ?_, ?_, captured⟩
    · exact grows₃.lasts.closures Array.getElem?_push_size
    · exact sees₂.grown ((Grows.newClosure h₂ _).trans grows₃)
  have comes := Machine.comes_zero control₁
  rw [env₁, stack₁, world₁] at comes
  obtain ⟨count, _, ⟨h, c, resume, block, span', rfl, closure', sees', captured⟩, comes⟩ :=
    Machine.exists_comes attains comes (Machine.room_of_run ran₁ room)
  obtain ⟨m₂, ran₂⟩ := comes.run_eq
  have counted : g.arity.accepts [body, ctch].length = true := by
    rw [g.arity_of_simple simple]
    rfl
  have lexical₁ := isLexical_called lexical applies closure counted ran₁
  obtain ⟨later, reached⟩ := Machine.visits_of_run ran₂
  have spares : (Phrase.function g).Spares ["resume", "ctch"] :=
    (Phrase.spares_of_sparesTo (by decide : Phrase.sparesTo _ 16 (.function Prelude.tryc) =
      true)).of_unspanned (congrArg Phrase.function same)
  refine ⟨_, _, c, resume, block, _, _, _, (Machine.run_add ran₁ _).trans ran₂,
    lexical₁.reaches reached, ⟨g, env, stack, base, ?_, spares⟩, ⟨_, span', rfl, rfl⟩, ?_, sees',
    captured⟩
  · exact born_append (lexical.heap.born_last _) later
  · show h.unspanned.closure? c = _
    rw [closure?_unspanned, closure', ← erased]
    rfl

/-- Captured stacks and names are as `tryc` has made them. -/
structure Ready (m : Machine) (stack : Stack) (ctch : Value) (resume thrw : ContinuationId)
    (outer inner : Env) : Prop where
  home : ∃ env, m.world.heap.continuation? resume = some ⟨.undelimited, env, stack⟩
  captured : m.world.heap.unspanned.continuation? thrw =
    some ⟨.undelimited, outer, thrown stack.unspanned outer⟩
  catching : ∃ id rest, outer = id :: rest ∧ id.index < m.world.heap.scopes.size
  throwing : ∃ id rest, inner = id :: rest ∧ id.index < m.world.heap.scopes.size
  resumes : ∀ env ∈ [outer, inner],
    m.world.heap.unspanned.get ⟨"resume", {}⟩ env = .ok (.continuation resume)
  handles : m.world.heap.unspanned.get ⟨"ctch", {}⟩ outer = .ok ctch

/-- The scopes around the body of `tryc` lie one inside of the other. -/
theorem nested_of_guarded {below : Stack} {frame : Frame} {outer inner : Env}
    (lexical : m.IsLexical record) (top : m.stack = below.push frame)
    (erased : below.unspanned = guarded stack.unspanned outer inner) : Nested record inner := by
  have waits : Frame.exec (run (call "resume" [name "res"])) inner ∈
      below.frames.map Frame.unspanned := by
    rw [show below.frames.map Frame.unspanned = _ from congrArg Stack.frames erased]
    exact List.mem_cons_of_mem _ List.mem_cons_self
  obtain ⟨f, member, same⟩ := List.mem_map.1 waits
  have placed := lexical.stack f (by rw [top]; exact List.mem_cons_of_mem _ member)
  cases f with
  | exec s env =>
    obtain ⟨-, rfl⟩ := Frame.exec.inj same
    obtain ⟨p, layers, -, -, surrounds⟩ := placed
    exact surrounds.nested
  | _ => cases same

/-- What is known when the body is called is known from then on. -/
theorem ready_of_visits {m₂ : Machine} {thrw k k₁ k₂ : ContinuationId}
    {block₂ call₂ block₁ call₁ block call : ScopeId} (lexical : m₁.IsLexical record)
    (guards : Guards record ["resume", "ctch"] call)
    (nested : Nested record ([block₂, call₂, block₁, call₁, block, call] ++ base))
    (sees : m₁.world.heap.unspanned.Sees [block₂, call₂, block₁, call₁, block, call]
      [[("res", .unassigned)], Named.called ["thrw"] [.continuation thrw] k₂,
        [("exception", .unassigned)], Named.called ["resume"] [.continuation resume] k₁, [],
        Named.called ["body", "ctch"] [body, ctch] k] base)
    (captured : m₁.world.heap.unspanned.continuation? thrw =
      some ⟨.undelimited, [block₁, call₁, block, call] ++ base,
        thrown stack.unspanned ([block₁, call₁, block, call] ++ base)⟩)
    (home : m₁.world.heap.continuation? resume = some ⟨.undelimited, env, stack⟩)
    (visited : m₁.Visits m₂) :
    Ready m₂ stack ctch resume thrw ([block₁, call₁, block, call] ++ base)
      ([block₂, call₂, block₁, call₁, block, call] ++ base) := by
  have catching := sees.tail.tail
  have ⟨_, onwards⟩ := visited
  obtain ⟨past, -, passed⟩ := Machine.Passes.of_reaches onwards
  have inside (id : ScopeId) (member : id ∈ [block₂, call₂, block₁, call₁, block, call]) :
      id.index < m₁.world.heap.scopes.size := sees.inside (List.mem_append_left _ member)
  -- both names lead to the scopes of calls inside of that of `tryc`
  have still {before : Env} {x : String} {u : Value}
      (chain : Nested record (before ++ call :: base))
      (there : ∀ id ∈ before ++ [call], id.index < m₁.world.heap.scopes.size)
      (member : x ∈ ["resume", "ctch"])
      (found : m₁.world.heap.unspanned.get ⟨x, {}⟩ (before ++ [call]) = .ok u) :
      m₂.world.heap.unspanned.get ⟨x, {}⟩ (before ++ call :: base) = .ok u :=
    get_unspanned_of_get
      (lexical.get_eq guards chain there member (get_of_unspanned found) visited)
  have inner : Nested record ([block₂, call₂, block₁, call₁, block] ++ call :: base) := nested
  have outer : Nested record ([block₁, call₁, block] ++ call :: base) := nested.tail.tail
  have resumes : m₁.world.heap.unspanned.get ⟨"resume", {}⟩
      ([block₂, call₂, block₁, call₁, block, call] ++ []) = .ok (.continuation resume) :=
    get_of_seek sees.shown rfl
  have resumes' : m₁.world.heap.unspanned.get ⟨"resume", {}⟩
      ([block₁, call₁, block, call] ++ []) = .ok (.continuation resume) :=
    get_of_seek catching.shown rfl
  have handles : m₁.world.heap.unspanned.get ⟨"ctch", {}⟩
      ([block₁, call₁, block, call] ++ []) = .ok ctch :=
    get_of_seek catching.shown rfl
  have there (id : ScopeId) (member : id ∈ [block₁, call₁, block, call]) :
      id.index < m₁.world.heap.scopes.size :=
    inside id (List.mem_cons_of_mem _ (List.mem_cons_of_mem _ member))
  refine ⟨⟨env, onwards.lasts.continuations home⟩, onwards.lasts.unspanned.continuations captured,
    ⟨block₁, _, rfl, (there block₁ (by simp)).trans_le passed.size_le⟩,
    ⟨block₂, _, rfl, (inside block₂ (by simp)).trans_le passed.size_le⟩, ?_,
    still outer there (by simp) handles⟩
  intro around member
  rcases List.mem_pair.1 member with rfl | rfl
  · exact still outer there (by simp) resumes'
  · exact still inner inside (by simp) resumes

/-- The call of the body, and what is known from then on. -/
theorem exists_guarded {c : ClosureId} {k : ContinuationId} {block call : ScopeId}
    (lexical : m.IsLexical record) (guards : Guards record ["resume", "ctch"] call)
    (applies : m.Applies (.closure c) [.continuation resume] ([block, call] ++ base) stack)
    (closure : m.world.heap.unspanned.closure? c = some ⟨Prelude.catching, [block, call] ++ base⟩)
    (sees : m.world.heap.Sees [block, call] [[], Named.called ["body", "ctch"] [body, ctch] k] base)
    (home : m.world.heap.continuation? resume = some ⟨.undelimited, [block, call] ++ base, stack⟩)
    (space : stack.depth + 5 ≤ limit) (room : m.HasRoom limit) :
    ∃ count m₁ thrw below outer inner, m.run count = (.suspended, m₁) ∧
      m₁.Applies body [.continuation thrw] inner below ∧
      below.unspanned = guarded stack.unspanned outer inner ∧
      ∀ m₂, m₁.Visits m₂ → Ready m₂ stack ctch resume thrw outer inner := by
  obtain ⟨v, span, control, top⟩ := applies
  have attains : Attains limit (fun y => ∃ h call₁ block₁ call₂ block₂ k₁ k₂ thrw,
      h.Sees [block₂, call₂, block₁, call₁, block, call] [[("res", .unassigned)],
        Named.called ["thrw"] [.continuation thrw] k₂, [("exception", .unassigned)],
        Named.called ["resume"] [.continuation resume] k₁, [],
        Named.called ["body", "ctch"] [body, ctch] k] base ∧
      h.continuation? thrw = some ⟨.undelimited, [block₁, call₁, block, call] ++ base,
        thrown stack.unspanned ([block₁, call₁, block, call] ++ base)⟩ ∧
      y = ⟨.value body, [block₂, call₂, block₁, call₁, block, call] ++ base,
        (guarded stack.unspanned ([block₁, call₁, block, call] ++ base)
          ([block₂, call₂, block₁, call₁, block, call] ++ base)).push
          (.apply body [.continuation thrw] {}
            ([block₂, call₂, block₁, call₁, block, call] ++ base)),
        m.world.unspanned.withHeap h⟩)
      ⟨.value v, m.env, m.stack.unspanned, m.world.unspanned⟩ := by
    have space : stack.unspanned.depth + 5 ≤ limit := space
    rw [top]
    refine calls_body (w := m.world.unspanned) closure sees.unspanned space ?_
    intro h call₁ block₁ call₂ block₂ k₁ k₂ thrw _ sees' captured
    exact .here ⟨h, call₁, block₁, call₂, block₂, k₁, k₂, thrw, sees', captured, rfl⟩
  obtain ⟨count, m₁, _, ⟨h, call₁, block₁, call₂, block₂, k₁, k₂, thrw, sees', captured, rfl⟩, ran,
    control₁, stack₁, world₁⟩ := Machine.exists_run_of_attains control attains room
  obtain ⟨below, span₁, top₁, erased⟩ := Stack.exists_apply_of_unspanned stack₁
  obtain rfl : m₁.world.heap.unspanned = h := congrArg World.heap world₁
  refine ⟨count, m₁, thrw, below, _, _, ran,
    ⟨_, span₁, Control.eq_value_of_unspanned control₁, top₁⟩, erased, fun m₂ visited => ?_⟩
  obtain ⟨later, reached⟩ := Machine.visits_of_run ran
  have lexical₁ := lexical.reaches reached
  exact ready_of_visits lexical₁ (guards.append later) (nested_of_guarded lexical₁ top₁ erased)
    sees' captured (reached.lasts.continuations home) visited

namespace Ready

variable {resume thrw : ContinuationId} {outer inner : Env} {r : Value}

/-- What the body comes back with goes to the stack of the call. -/
theorem exists_comesTo (ready : Ready m stack ctch resume thrw outer inner)
    (control : m.control = some (.value r))
    (top : m.stack.unspanned = guarded stack.unspanned outer inner)
    (room : m.HasRoom (stack.depth + 5)) : ∃ m', m.ComesTo r stack m' := by
  obtain ⟨env, home⟩ := ready.home
  have resumes := ready.resumes inner (by simp)
  obtain ⟨id, rest, rfl, inside⟩ := ready.throwing
  have attains : Attains (stack.depth + 5) (HandsTo resume fun u _ => u = r)
      ⟨.value r, m.env, m.stack.unspanned, m.world.unspanned⟩ := by
    have space : stack.unspanned.depth + 5 ≤ stack.depth + 5 := le_rfl
    rw [top]
    exact returns_value (w := m.world.unspanned) (h := m.world.heap.unspanned) inside resumes space
  obtain ⟨_, m', comes, rfl⟩ := Machine.exists_comesTo_of_handsTo control attains home
    (Nat.le_add_right _ _) room
  exact ⟨m', comes⟩

/-- What is thrown goes to the handler. -/
theorem exists_comesToApply {e : Value} {below : Stack}
    (ready : Ready m stack ctch resume thrw outer inner)
    (applies : m.Applies (.continuation thrw) [e] env below) (room : m.HasRoom (stack.depth + 5)) :
    ∃ handler m', m.ComesToApply ctch [e] outer handler m' ∧
      handler.unspanned = handling stack.unspanned outer resume := by
  obtain ⟨v, span, control, top⟩ := applies
  have resumes := ready.resumes outer (by simp)
  have handles := ready.handles
  have captured := ready.captured
  obtain ⟨id, rest, rfl, inside⟩ := ready.catching
  have attains : Attains (stack.depth + 5) (fun y => ∃ w', y = ⟨.value ctch, id :: rest,
        (handling stack.unspanned (id :: rest) resume).push (.apply ctch [e] {} (id :: rest)), w'⟩)
      ⟨.value v, m.env, m.stack.unspanned, m.world.unspanned⟩ := by
    have space : stack.unspanned.depth + 5 ≤ stack.depth + 5 := le_rfl
    have pushed : m.stack.unspanned =
        below.unspanned.push (.apply (.continuation thrw) [e] {} env) := by rw [top]; rfl
    rw [pushed]
    exact calls_handler (w := m.world.unspanned) (h := m.world.heap.unspanned) inside resumes
      space captured handles
  obtain ⟨count, m', _, ⟨w', rfl⟩, ran, control', stack', -⟩ :=
    Machine.exists_run_of_attains control attains room
  obtain ⟨handler, span', top', erased⟩ := Stack.exists_apply_of_unspanned stack'
  exact ⟨handler, m', ⟨⟨count, ran⟩, _, span', Control.eq_value_of_unspanned control', top'⟩,
    erased⟩

end Ready

/-- What the handler comes back with goes to the stack of the call. -/
theorem exists_comesTo_of_handled {outer : Env} {r : Value}
    (home : m.world.heap.continuation? resume = some ⟨.undelimited, env, stack⟩)
    (control : m.control = some (.value r))
    (top : m.stack.unspanned = handling stack.unspanned outer resume)
    (room : m.HasRoom (stack.depth + 5)) : ∃ m', m.ComesTo r stack m' := by
  have attains : Attains (stack.depth + 5) (HandsTo resume fun u _ => u = r)
      ⟨.value r, m.env, m.stack.unspanned, m.world.unspanned⟩ := by
    have space : stack.unspanned.depth + 5 ≤ stack.depth + 5 := le_rfl
    rw [top]
    exact returns_handled space
  obtain ⟨_, m', comes, rfl⟩ := Machine.exists_comesTo_of_handsTo control attains home
    (Nat.le_add_right _ _) room
  exact ⟨m', comes⟩

/-- **Catching exceptions.**  A call of `tryc` with a body and a handler, on any stack, leads to a
    call of the body with one captured stack.  If the body ever comes back with a value, the
    machine goes on with this value and the stack of the call.  If something is ever thrown to
    the captured stack, the machine goes on to a call of the handler with it; and if the handler
    ever comes back with a value, it goes on with this value and the stack of the call. -/
theorem tryc_catches {settings : Settings} {table : Table} {world : World} {loaded : Machine}
    {before : List Birth} (left : world.heap.IsLeft (fun _ _ => True) before)
    (loads : Loads settings table world loaded) (visited : loaded.Visits m) :
    ∃ tryc, m.world.heap.get ⟨"tryc", {}⟩ loaded.outer = .ok tryc ∧
      ∀ {body ctch : Value} {env : Env} {stack : Stack}, m.Applies tryc [body, ctch] env stack →
        m.HasRoom (stack.depth + 5) →
        ∃ thrw inner below m₁, m.ComesToApply body [.continuation thrw] inner below m₁ ∧
          (∀ m₂ r, m₁.Visits m₂ → m₂.control = some (.value r) → m₂.stack = below →
            m₂.HasRoom (stack.depth + 5) → ∃ m', m₂.ComesTo r stack m') ∧
          ∀ m₂ e env₂ stack₂, m₁.Visits m₂ → m₂.Applies (.continuation thrw) [e] env₂ stack₂ →
            m₂.HasRoom (stack.depth + 5) →
            ∃ outer handler m₃, m₂.ComesToApply ctch [e] outer handler m₃ ∧
              ∀ m₄ w, m₃.Visits m₄ → m₄.control = some (.value w) → m₄.stack = handler →
                m₄.HasRoom (stack.depth + 5) → ∃ m', m₄.ComesTo w stack m' := by
  have equips := loads.equips visited
  obtain ⟨_, f, named, found, closure⟩ := equips.jumps Prelude.tryc (by simp)
  cases named
  obtain ⟨g, same, real⟩ := exists_closure_of_unspanned closure
  obtain ⟨births, lexical⟩ := loads.exists_isLexical left visited
  refine ⟨.closure f, get_of_unspanned found, fun {body ctch env stack} applies room => ?_⟩
  obtain ⟨count, m₀, c, resume, block, call, k, record, ran, lexical₀, guards, applies₀, closure₀,
    sees₀, home⟩ := exists_captured lexical applies real same
      ⟨.nil, equips.serves.of_unspanned, equips.distinct⟩ (by omega) room
  obtain ⟨count', m₁, thrw, below, outer, inner, ran', applies₁, erased, ready⟩ := exists_guarded
    lexical₀ guards applies₀ closure₀ sees₀ home le_rfl (Machine.room_of_run ran room)
  refine ⟨thrw, inner, below, m₁, ⟨⟨_, (Machine.run_add ran _).trans ran'⟩, applies₁⟩, ?_, ?_⟩
  · intro m₂ r later control top room₂
    exact (ready m₂ later).exists_comesTo control (top ▸ erased) room₂
  · intro m₂ e env₂ stack₂ later thrown room₂
    obtain ⟨handler, m₃, comes, erased'⟩ := (ready m₂ later).exists_comesToApply thrown room₂
    refine ⟨outer, handler, m₃, comes, ?_⟩
    intro m₄ w later' control top room₄
    obtain ⟨⟨_, ran₃⟩, -⟩ := comes
    obtain ⟨_, home₄⟩ := (ready m₄ (later.trans ((Machine.visits_of_run ran₃).trans later'))).home
    exact exists_comesTo_of_handled home₄ control (top ▸ erased') room₄

/-- The same for a program whose body throws the stack that it runs on. -/
theorem tryc_catches_a_stack :
    ∃ (loaded m : Machine) (tryc : Value) (env : Env) (stack : Stack),
      (∃ before, ({} : World).heap.IsLeft (fun _ _ => True) before) ∧
      Loads {} Table.standard {} loaded ∧ loaded.Visits m ∧
      m.world.heap.get ⟨"tryc", {}⟩ loaded.outer = .ok tryc ∧
      m.Applies tryc [.builtin (.control .callCc) 0, .builtin (.native (.test .null)) 0] env
        stack ∧ ∃ m', m.ComesTo (.boolean false) stack m' := by
  have left : ({} : World).heap.IsLeft (fun _ _ => True) [] := .blank rfl rfl rfl rfl
  obtain ⟨loaded, loads⟩ : ∃ loaded, Loads {} Table.standard {} loaded :=
    Loads.exists_standard rfl rfl (by decide)
  obtain ⟨p, read, written⟩ := Program.exists_alike (by decide +kernel :
    ∃ p ∈ (Program.read "tryc(call_cc, is_null);").toOption, Stmt.alikeAll p.body
      [run (call "tryc" [name "call_cc", name "is_null"])] = true)
  obtain ⟨_, f, named, found, -⟩ := (loads.equips ⟨[], .refl⟩).jumps Prelude.tryc (by simp)
  cases named
  obtain ⟨m, _, env, stack, visited, limit, found, applies, shallow, rfl⟩ :=
    loads.exists_applies 0 (fun args _ => args = [.builtin (.control .callCc) 0,
      .builtin (.native (.test .null)) 0]) read written (get_of_unspanned found) (by decide)
      fun h program sees => ⟨_, h, .refl h, .cons (.name (sees.builtin (.control .callCc) rfl))
        (.cons (.name (sees.builtin (.native (.test .null)) rfl)) .nil), rfl⟩
  obtain ⟨tryc, same, answers⟩ := tryc_catches left loads visited
  cases found.symm.trans same
  have room : m.HasRoom (stack.depth + 5) := by
    refine .inr ?_
    rw [shallow, limit]
    decide
  obtain ⟨thrw, inner, below, m₁, ⟨⟨count, ran⟩, v, span, control, top⟩, -, throws⟩ :=
    answers applies room
  have room₁ := Machine.room_of_run ran room
  have later := Machine.visits_of_run ran
  -- the body captures its stack and throws it
  have captures : Config.Steps ⟨.value v, m₁.env, m₁.stack, m₁.world⟩ ⟨.value (.continuation thrw),
      inner, below.push (.apply (.continuation thrw)
        [.continuation ⟨m₁.world.heap.continuations.size⟩] span inner), m₁.world.withHeap
          (m₁.world.heap.newContinuation ⟨.undelimited, inner, below⟩).2⟩ :=
    top ▸ ⟨not_isFinal_push (by simp), fun _ => rfl⟩
  have fits := loads.fits (visited.trans later) _ control (by simp)
  obtain ⟨m₂, ran₂⟩ := Machine.exists_run_one control captures
    (by rw [top] at fits; exact fits) (.inr le_rfl)
  have room₂ := Machine.room_of_run ran₂ room₁
  have later₂ := Machine.visits_of_run ran₂
  -- the handler looks at it and comes back
  obtain ⟨outer, handler, m₃, ⟨⟨_, ran₃⟩, u, span₃, control₃, top₃⟩, returns⟩ :=
    throws _ _ inner below later₂ ⟨_, span, rfl, rfl⟩ room₂
  have room₃ := Machine.room_of_run ran₃ room₂
  have later₃ := Machine.visits_of_run ran₃
  have looks : Config.Steps ⟨.value u, m₃.env, m₃.stack, m₃.world⟩
      ⟨.value (.boolean false), outer, handler, m₃.world⟩ := top₃ ▸ steps_native rfl rfl rfl
  have deep : handler.depth + 1 ≤ m₃.maxDepth := by
    have fits₃ := loads.fits (visited.trans (later.trans (later₂.trans later₃))) _ control₃
      (by simp)
    rwa [top₃, Stack.depth_push] at fits₃
  obtain ⟨m₄, ran₄⟩ := Machine.exists_run_one control₃ looks (Nat.le_of_succ_le deep) (.inr le_rfl)
  obtain ⟨m', comes⟩ := returns _ _ (Machine.visits_of_run ran₄) rfl rfl
    (Machine.room_of_run ran₄ room₃)
  exact ⟨loaded, m, _, env, stack, ⟨[], left⟩, loads, visited, found, applies, m',
    .of_run ran (.of_run ran₂ (.of_run ran₃ (.of_run ran₄ comes)))⟩

end Session

end TryCatch

end SourceMachine
