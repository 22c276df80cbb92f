import SourceMachine.Proofs.Machine.ListFunctions
import SourceMachine.Proofs.Session.Served

/-!
# Threads

The library of jumps has a function for threads that take turns.  It gives its argument three
functions: one to add a thread to a queue, one to start the threads, and one that a thread calls
to let the others go first.  Each of them begins by capturing the stack, under the name `cc`, and
goes on with a conditional.  A captured stack that is resumed binds that name once more, to
something else, and comes to the same conditional again.

`Threads.Stands` says that threads are there, with a queue and a way to stop, and `Captures` that
a stack was captured by one of the functions.  Here is what the functions do, on any stack:
`Stands.spawns`, `Stands.starts`, `Stands.pauses` and `Stands.quits`, and `Captures.resumes` when
such a stack is resumed.
-/

namespace SourceMachine

open Config Heap Sketch

/-- A list goes on with another one. -/
theorem Heap.IsChain.isListOf {h : Heap} {r last : Value} {ids : List PairId} {vs us : List Value}
    (chain : h.IsChain r ids vs last) (list : h.IsListOf last us) : h.IsListOf r (vs ++ us) := by
  induction chain with
  | nil last => exact list
  | cons first _ ih => exact .cons first (ih list)

/-- Where things are that threads work with. -/
structure Threads where
  base : Env
  block : ScopeId
  call : ScopeId
  spawn : ClosureId
  pause : ClosureId
  quit : ClosureId
  start : ClosureId
  body : Value
  home : ContinuationId

namespace Threads

/-- The scopes of the functions for threads. -/
abbrev env (t : Threads) : Env :=
  [t.block, t.call] ++ t.base

/-- The slots of these scopes. -/
abbrev slots (t : Threads) (queue halt : Value) : List (Named Slot) :=
  [[("thread_queue", .assigned queue true), ("halt", .assigned halt true),
      ("spawn", .assigned (.closure t.spawn) false), ("yld", .assigned (.closure t.pause) false),
      ("quit", .assigned (.closure t.quit) false),
      ("start_threads", .assigned (.closure t.start) false)],
    [("body", .assigned t.body true), (returnPoint, .assigned (.continuation t.home) false)]]

/-- Threads are there, and these are the queue and the function to stop with. -/
structure Stands (t : Threads) (h : Heap) (queue halt : Value) : Prop where
  sees : h.Sees [t.block, t.call] (t.slots queue halt) t.base
  equips : h.Equips t.base
  spawn : h.closure? t.spawn = some ⟨Prelude.spawn, t.env⟩
  pause : h.closure? t.pause = some ⟨Prelude.pause, t.env⟩
  quit : h.closure? t.quit = some ⟨Prelude.quit, t.env⟩
  start : h.closure? t.start = some ⟨Prelude.startThreads, t.env⟩

variable {t : Threads} {limit : Nat} {goal : Config → Prop} {w : World} {h h' : Heap}
  {stack top : Stack} {env inner : Env} {v u queue halt next : Value} {vs us : List Value}
  {span : Span} {touched : List ScopeId}

namespace Stands

variable (stands : t.Stands h queue halt)

include stands

theorem moved {queue' halt' : Value} (grows : Grows touched h h')
    (apart : ∀ id ∈ t.base, id ∉ touched)
    (sees : h'.Sees [t.block, t.call] (t.slots queue' halt') t.base) :
    t.Stands h' queue' halt' where
  sees := sees
  equips := stands.equips.grows grows apart
  spawn := grows.lasts.closures stands.spawn
  pause := grows.lasts.closures stands.pause
  quit := grows.lasts.closures stands.quit
  start := grows.lasts.closures stands.start

theorem grows (grows : Grows touched h h') (apart : ∀ id ∈ t.env, id ∉ touched) :
    t.Stands h' queue halt :=
  stands.moved grows (fun id member => apart id (List.mem_append_right _ member))
    (stands.sees.grows grows apart)

theorem grown (grows : Grows [] h h') : t.Stands h' queue halt :=
  stands.grows grows fun _ _ => List.not_mem_nil

/-- The queue is not among the names outside. -/
theorem block_not_mem : ∀ id ∈ t.base, id ∉ [t.block] := by
  intro id member same
  refine stands.sees.ne_of_mem (List.mem_cons_of_mem _ member) (List.mem_singleton.1 same)

/-- The queue or the function to stop with has changed. -/
theorem changed {queue' halt' : Value} (grows : Grows [t.block] h h')
    (sees : h'.Sees [t.block, t.call] (t.slots queue' halt') t.base) : t.Stands h' queue' halt' :=
  stands.moved grows stands.block_not_mem sees

end Stands

/-! ## Lists in the library -/

/-- A list is put in front of another one. -/
theorem appends (room : Nat) {around base : Env} {slots : List (Named Slot)} {h₁ : Heap}
    {xs ys : Value} {args : List Expr} (sees : h.Sees around slots base) (equips : h.Equips base)
    (absent : Named.seek "append" slots = none)
    (given : GivesAll (around ++ base) room h args [xs, ys] h₁) (grows : Grows [] h h₁)
    (list : h₁.IsListOf xs vs) (list' : h₁.IsListOf ys us)
    (space : stack.depth + (room + 1) ≤ limit) (space' : stack.depth + (2 * vs.length + 4) ≤ limit)
    (onwards : ∀ h' r, Grows [] h h' → h'.IsListOf r (vs ++ us) →
      From limit goal w h' (.value r) (around ++ base) stack) :
    From limit goal w h (.expression (Sketch.call "append" args)) (around ++ base) stack := by
  obtain ⟨_, f, named, found, closure⟩ := equips.lists Prelude.append (by simp)
  cases named
  have leads : h.get ⟨"append", {}⟩ (around ++ base) = .ok (.closure f) := by
    rw [get_of_seek_none sees.shown absent, equips.passes Prelude.append (by simp) _ rfl]
    exact found
  have closure : h₁.closure? f = some ⟨Prelude.append, [] ++ base.tail⟩ :=
    grows.lasts.closures closure
  have equips₁ := equips.grown grows
  refine .call room (.name leads) given space (.called ["xs", "ys"] closure rfl rfl
    ⟨.nil, equips₁.outside, equips.distinct.tail⟩ (by omega) ?_)
  intro h₂ call grows₂ _ sees₂ home
  refine ListFunctions.append_body sees₂ ((equips₁.lists _ (by simp)).grown equips₁.outside grows₂)
    (list.grows grows₂) space' ?_
  intro h₃ r env' grows₃ ⟨ids, _, _, chain⟩
  refine .resume (grows₃.lasts.continuations home) (by omega) (onwards h₃ r ?_ ?_)
  · exact grows.trans <| grows₂.trans grows₃
  · exact chain.isListOf (list'.grows (grows₂.trans grows₃))

/-! ## Capturing the stack -/

/-- The scopes of a call of one of the functions. -/
abbrev within (t : Threads) (cell call : ScopeId) : Env :=
  [cell, call, t.block, t.call] ++ t.base

/-- A call of one of the functions has captured the stack before the rest of its body. -/
structure Captures (t : Threads) (h : Heap) (cell call : ScopeId) (k : ContinuationId)
    (entries : Named Slot) (rest : Stmt) (stack : Stack) : Prop where
  binds : ∃ slot, h.Shows cell [("cc", slot)]
  called : h.Shows call entries
  captured : h.continuation? k = some ⟨.undelimited, t.within cell call,
    (stack.push (.exec rest (t.within cell call))).push
      (.declare ⟨"cc", {}⟩ true (t.within cell call))⟩
  distinct : (t.within cell call).Nodup

namespace Captures

variable {cell call : ScopeId} {k : ContinuationId} {entries : Named Slot} {rest : Stmt}

variable (captures : t.Captures h cell call k entries rest stack)

include captures

theorem grows (grows : Grows touched h h') (apart : ∀ id ∈ [cell, call], id ∉ touched) :
    t.Captures h' cell call k entries rest stack := by
  obtain ⟨slot, shown⟩ := captures.binds
  exact ⟨⟨slot, shown.grows grows (apart _ (by simp))⟩, captures.called.grows grows
    (apart _ (by simp)), grows.lasts.continuations captures.captured, captures.distinct⟩

theorem inside : ∀ id ∈ [cell, call], id.index < h.scopes.size := by
  obtain ⟨slot, shown⟩ := captures.binds
  simp [shown.inside, captures.called.inside]

/-- The scopes of the call are new to those of the functions. -/
theorem apart : ∀ id ∈ [cell, call], id ∉ t.env := by
  intro id near far
  have distinct : ([cell, call] ++ t.env).Nodup := captures.distinct
  exact (List.nodup_append.1 distinct).2.2 id near id far rfl

/-- A change of the queue leaves the scopes of the call alone. -/
theorem changed (grows : Grows [t.block] h h') : t.Captures h' cell call k entries rest stack :=
  captures.grows grows fun id member same =>
    captures.apart id member (List.mem_singleton.1 same ▸ List.mem_cons_self)

/-- What is seen from the rest of the body. -/
theorem sees (stands : t.Stands h queue halt) {slot : Slot} (shown : h.Shows cell [("cc", slot)]) :
    h.Sees [cell, call, t.block, t.call] ([("cc", slot)] :: entries :: t.slots queue halt)
      t.base := by
  obtain ⟨apart, distinct⟩ := List.nodup_cons.1 captures.distinct
  exact (stands.sees.insert captures.called (List.nodup_cons.1 distinct).1).insert shown apart

/-- A captured stack that is resumed comes to the rest of the body, with what it was given. -/
theorem resumes (stands : t.Stands h queue halt) (space : stack.depth + 2 ≤ limit)
    (onwards : ∀ h', Grows [cell] h h' → t.Stands h' queue halt →
      h'.Sees [cell, call, t.block, t.call] ([("cc",
      .assigned u true)] :: entries :: t.slots queue halt) t.base →
      From limit goal w h' (.statement rest) (t.within cell call) stack) :
    FromCall limit goal w h v inner top (.continuation k) [u] span env := by
  obtain ⟨slot, shown⟩ := captures.binds
  refine .resume captures.captured space
    (.declared (captures.sees stands shown) (by show stack.depth + 1 ≤ limit; omega) ?_)
  intro h₁ grows₁ sees₁
  refine .next (by omega) (onwards h₁ grows₁ (stands.grows grows₁ fun id member same => ?_) sees₁)
  exact captures.apart cell (by simp) (List.mem_singleton.1 same ▸ member)

end Captures

/-- A call of one of the functions captures the stack and comes to the rest of its body. -/
theorem Stands.captures (params : List String) (rest : Stmt) {f : ClosureId} {fn : Function}
    {args : List Value} (stands : t.Stands h queue halt) (closure : h.closure? f = some ⟨fn, t.env⟩)
    (simple : fn.params.map Param.unspanned = params.map param)
    (runs : fn.body.body = [Prelude.here, rest]) (plain : declaredNames [rest] = [])
    (counted : args.length = params.length)
    (absent : ∀ k, Named.find? "call_cc" (Named.called params args k) = none)
    (space : stack.depth + 3 ≤ limit) (onwards : ∀ h' cell call k home, Grows [] h h' →
      (∀ id ∈ [cell, call], h.scopes.size ≤ id.index) → t.Stands h' queue halt →
      h'.Sees [cell, call, t.block, t.call] ([("cc", .assigned (.continuation k) true)] ::
        Named.called params args home :: t.slots queue halt) t.base →
      t.Captures h' cell call k (Named.called params args home) rest stack →
      From limit goal w h' (.statement rest) (t.within cell call) stack) :
    FromCall limit goal w h v inner stack (.closure f) args span env := by
  have declared : declaredNames [Prelude.here, rest] = ["cc"] := congrArg ("cc" :: ·) plain
  refine .enter params closure simple runs counted (by rw [declared]; decide) stands.sees
    (fits 2 space) ?_
  intro h₁ call cell home grows₁ fresh fresh' sees₁ _
  rw [declared] at sees₁
  have hidden : Named.seek "call_cc" (Named.declared ["cc"] :: Named.called params args home ::
      t.slots queue halt) = none := by
    rw [Named.seek_cons, Named.seek_cons, absent home]
    rfl
  refine .declares sees₁ rfl (fits 2 space) (.capture sees₁ hidden (fits 3 space) ?_)
  intro h₂ k grows₂ sees₂ captured
  refine .declared sees₂ (fits 1 space) ?_
  intro h₃ grows₃ sees₃
  -- the only scope that was assigned to is one of the call itself
  have grows : Grows [] h h₃ := (grows₁.trans <| grows₂.trans grows₃).old (by simp [fresh'])
  refine .next (fits 0 space) (onwards h₃ cell call k home grows (by simp [fresh, fresh'])
    (stands.grown grows) sees₃ ?_)
  exact ⟨⟨_, sees₃.head⟩, sees₃.tail.head, grows₃.lasts.continuations captured, sees₃.distinct⟩

/-! ## Going on with the next thread -/

section

variable (stands : t.Stands h queue halt) (list : h.IsListOf queue (next :: vs))
  (space : stack.depth + 4 ≤ limit)
  (onwards : ∀ h' queue' env', Grows [t.block] h h' → t.Stands h' queue' halt →
    h'.IsListOf queue' vs → FromCall limit goal w h' next env' stack next [.null] {} env')

include stands list space onwards

/-- The first thread is taken from the queue and resumed. -/
theorem Stands.switches {around : Env} {front : List (Named Slot)}
    (sees : h.Sees (around ++ [t.block, t.call]) (front ++ t.slots queue halt) t.base)
    (same : around.length = front.length) (queues : Named.seek "thread_queue" front = none)
    (heads : Named.seek "head" front = none) (tails : Named.seek "tail" front = none) :
    From limit goal w h (.statement (.block (Sketch.block Prelude.switch)))
      ((around ++ [t.block, t.call]) ++ t.base) stack := by
  obtain ⟨id, tail, rfl, first, others⟩ := list.exists_pair
  refine .block sees (by decide) (fits 3 space) ?_
  intro h₁ block grows₁ fresh sees₁
  -- the scope of this block is one more that the queue is not in
  have passes {x : String} (slot : Slot) (other : "next_thread" ≠ x)
      (absent : Named.seek x front = none) :
      Named.seek x ([("next_thread", slot)] :: front) = none := by
    rw [Named.seek_cons, absent, Named.find?, if_neg other]
    rfl
  have looks {x : String} (slot : Slot) (other : "next_thread" ≠ x)
      (absent : Named.seek x front = none) :
      Named.seek x ([("next_thread", slot)] :: (front ++ t.slots (.pair id) halt)) =
        Named.seek x (t.slots (.pair id) halt) :=
    Named.seek_append (passes slot other absent) _
  have first₁ := grows₁.pairs first
  refine .declaration 1 (.library sees₁ .head ((looks _ (by decide) heads).trans rfl)
    (.cons (.sight sees₁ ((looks _ (by decide) queues).trans rfl)) .nil) rfl
    (Native.call_head first₁)) (.refl h₁) sees₁ rfl (fits 4 space) ?_
  intro h₂ grows₂ sees₂
  have owned : Named.owner? "thread_queue" (block :: (around ++ [t.block, t.call]))
      ([("next_thread", .assigned next true)] :: (front ++ t.slots (.pair id) halt)) =
        some t.block :=
    Named.owner?_append (passes _ (by decide) queues)
      (show (block :: around).length = _ from congrArg Nat.succ same) _ _
  refine .next (fits 1 space) (.assign 1 (.library sees₂ .tail
    ((looks _ (by decide) tails).trans rfl)
    (.cons (.sight sees₂ ((looks _ (by decide) queues).trans rfl)) .nil) rfl
    (Native.call_tail (grows₂.pairs first₁))) (.refl h₂) sees₂
    ((looks _ (by decide) queues).trans rfl) owned (fits 3 space) ?_)
  intro h₃ grows₃ sees₃
  have changed : Named.rebind "thread_queue" (.assigned tail true)
      ([("next_thread", .assigned next true)] :: (front ++ t.slots (.pair id) halt)) =
        [("next_thread", .assigned next true)] :: (front ++ t.slots tail halt) :=
    Named.rebind_append (passes (.assigned next true) (by decide) queues) _ _
  have sees₃ : h₃.Sees (block :: (around ++ [t.block, t.call]))
      ([("next_thread", .assigned next true)] :: (front ++ t.slots tail halt)) t.base :=
    changed ▸ sees₃
  refine .next (fits 0 space) (.runs (fits 0 space) (.call 0 (.sight sees₃ rfl)
    (.cons (.literal .null) .nil) (fits 1 space) ?_))
  have all := grows₁.trans <| grows₂.trans grows₃
  have grows : Grows [t.block] h h₃ := all.old (by simp [fresh])
  exact onwards h₃ tail _ grows (stands.changed grows (sees₃.tail.drop same)) (others.grows all)

/-! ## Ending a thread -/

/-- At the end of a thread the next one goes on. -/
theorem Stands.quits : FromCall limit goal w h v inner stack (.closure t.quit) [] span env := by
  obtain ⟨id, tail, rfl, -, -⟩ := list.exists_pair
  refine .enter [] stands.quit rfl rfl rfl (by decide) stands.sees (fits 1 space) ?_
  intro h₁ outer inner home grows₁ _ _ sees₁ _
  refine .branch 2 true (.unary (.test sees₁ .null rfl rfl rfl) (by decide) rfl) (fits 3 space) ?_
  have sees₁ : h₁.Sees ([inner, outer] ++ [t.block, t.call])
      ([[], Named.called [] [] home] ++ t.slots (.pair id) halt) t.base := sees₁
  refine (stands.grown grows₁).switches (list.grows grows₁) space ?_ sees₁ rfl rfl rfl rfl
  intro h₂ queue' env' grows₂ stands₂ list₂
  exact onwards h₂ queue' env' (grows₁.trans grows₂) stands₂ list₂

end

/-- At the end of the last thread everything stops. -/
theorem Stands.quits_last (stands : t.Stands h .null halt) (space : stack.depth + 3 ≤ limit)
    (onwards : ∀ h' env', Grows [] h h' → t.Stands h' .null halt →
      FromCall limit goal w h' halt env' stack halt [] {} env') :
    FromCall limit goal w h v inner stack (.closure t.quit) [] span env := by
  refine .enter [] stands.quit rfl rfl rfl (by decide) stands.sees (fits 1 space) ?_
  intro h₁ outer inner _ grows₁ _ _ sees₁ _
  refine .branch 2 false (.unary (.test sees₁ .null rfl rfl rfl) (by decide) rfl) (fits 3 space) ?_
  refine .block sees₁ (by decide) (fits 1 space) ?_
  intro h₂ _ grows₂ _ sees₂
  have grows := grows₁.trans grows₂
  refine .runs (fits 0 space) (.call 0 (.sight sees₂ rfl) .nil (fits 1 space) ?_)
  exact onwards h₂ _ grows (stands.grown grows)

/-! ## Letting the other threads go first -/

/-- What a thread does after it has captured its stack: if there are others it goes to the end of
    the queue, and the first of them goes on. -/
abbrev pausing : Stmt :=
  when (both (Sketch.call "is_cont" [name "cc"])
      (not (Sketch.call "is_null" [name "thread_queue"])))
    [changeable "next_thread" (Sketch.call "head" [name "thread_queue"]),
      assign "thread_queue" (Sketch.call "append" [Sketch.call "tail" [name "thread_queue"],
        Sketch.call "list" [name "cc"]]),
      run (Sketch.call "next_thread" [null])]

/-- A thread that has captured its stack looks for others in the queue. -/
theorem gives_others {cell call : ScopeId} {k home : ContinuationId}
    (sees : h.Sees [cell, call, t.block, t.call] ([("cc", .assigned (.continuation k) true)] ::
      Named.called [] [] home :: t.slots queue halt) t.base) :
    Gives (t.within cell call) 2 h (both (Sketch.call "is_cont" [name "cc"])
      (not (Sketch.call "is_null" [name "thread_queue"])))
      (.boolean !TypeTest.null.holds queue) h := by
  have captured : Gives (t.within cell call) 1 h (Sketch.call "is_cont" [name "cc"])
      (.boolean true) h :=
    .test sees .continuation rfl rfl rfl
  exact .both captured (.unary (.test sees .null rfl rfl rfl) (by decide) rfl)

/-- A thread without others goes on by itself. -/
theorem Stands.pauses_alone (stands : t.Stands h .null halt) (space : stack.depth + 3 ≤ limit)
    (onwards : ∀ h' env', Grows [] h h' → t.Stands h' .null halt →
      From limit goal w h' (.value .undefined) env' stack) :
    FromCall limit goal w h v inner stack (.closure t.pause) [] span env := by
  refine stands.captures [] pausing stands.pause rfl rfl rfl rfl (fun _ => rfl) space ?_
  intro h₁ cell call k home grows₁ _ stands₁ sees₁ _
  exact .when 2 false (gives_others sees₁) space (onwards h₁ _ grows₁ stands₁)

/-- A thread goes to the end of the queue, and the first of the others goes on. -/
theorem Stands.pauses (stands : t.Stands h queue halt) (list : h.IsListOf queue (next :: vs))
    (space : stack.depth + (2 * vs.length + 6) ≤ limit)
    (onwards : ∀ h' queue' env' cell call k home, Grows [t.block] h h' →
      (∀ id ∈ [cell, call], h.scopes.size ≤ id.index) → t.Stands h' queue' halt →
      h'.IsListOf queue' (vs ++ [.continuation k]) →
      t.Captures h' cell call k (Named.called [] [] home) pausing stack →
      FromCall limit goal w h' next env' stack next [.null] {} env') :
    FromCall limit goal w h v inner stack (.closure t.pause) [] span env := by
  have room : stack.depth + 6 ≤ limit := by omega
  obtain ⟨id, tail, rfl, first, others⟩ := list.exists_pair
  refine stands.captures [] pausing stands.pause rfl rfl rfl rfl (fun _ => rfl) (fits 3 room) ?_
  intro h₁ cell call k home grows₁ fresh stands₁ sees₁ captures
  refine .when 2 true (gives_others sees₁) (fits 3 room) ?_
  refine .block sees₁ (by decide) (fits 3 room) ?_
  intro h₂ block grows₂ fresh₂ sees₂
  have first₂ := grows₂.pairs (grows₁.pairs first)
  refine .declaration 1 (.library sees₂ .head rfl (.cons (.sight sees₂ rfl) .nil) rfl
    (Native.call_head first₂)) (.refl h₂) sees₂ rfl (fits 4 room) ?_
  intro h₃ grows₃ sees₃
  have until₃ := grows₁.trans <| grows₂.trans grows₃
  -- `append` is found in the library, in spite of the new scope
  have new : ∀ id ∈ t.base, id ∉ [block] := fun id member same =>
    sees₂.ne_of_mem (by simp [member]) (List.mem_singleton.1 same)
  have equips := ((stands₁.equips.grown grows₂).grows grows₃ new)
  have listed := Grows.newList h₃ [.continuation k]
  refine .next (fits 1 room) (.assigns (fits 2 room) (appends 1 sees₃ equips rfl
    (.cons (.library sees₃ .tail rfl (.cons (.sight sees₃ rfl) .nil) rfl
      (Native.call_tail (grows₃.pairs first₂))) (.cons (.list sees₃ rfl
        (.cons (.sight sees₃ rfl) .nil)) .nil)) listed (others.grows (until₃.trans listed))
    (.newList h₃ _) (fits 4 room) (by show stack.depth + 2 + _ ≤ limit; omega) ?_))
  intro h₄ queue' grows₄ list₄
  refine .assigned (sees₃.grown grows₄) rfl rfl (fits 1 room) ?_
  intro h₅ grows₅ sees₅
  refine .next (fits 0 room) (.runs (fits 0 room) (.call 0 (.sight sees₅ rfl)
    (.cons (.literal .null) .nil) (fits 1 room) ?_))
  have later := grows₂.trans <| grows₃.trans <| grows₄.trans grows₅
  have grows : Grows [t.block] h h₅ :=
    (grows₁.trans later).old (by simp [grows₁.size.trans fresh₂])
  have since : Grows [t.block] h₁ h₅ := later.old (by simp [fresh₂])
  exact onwards h₅ queue' _ cell call k home grows fresh
    (stands.changed grows sees₅.tail.tail.tail) (list₄.grows grows₅) (captures.changed since)

/-! ## New threads -/

/-- What is done with a new thread: it goes to the end of the queue, and when it is resumed it
    runs to its end. -/
abbrev spawning : Stmt :=
  branch (Sketch.call "is_cont" [name "cc"])
    [assign "thread_queue" (Sketch.call "append" [name "thread_queue",
      Sketch.call "list" [name "cc"]])]
    [run (Sketch.call "proc" []), run (Sketch.call "quit" [])]

/-- A new thread goes to the end of the queue. -/
theorem Stands.spawns {proc : Value} (stands : t.Stands h queue halt) (list : h.IsListOf queue vs)
    (space : stack.depth + (2 * vs.length + 5) ≤ limit)
    (onwards : ∀ h' queue' env' cell call k home, Grows [t.block] h h' →
      (∀ id ∈ [cell, call], h.scopes.size ≤ id.index) → t.Stands h' queue' halt →
      h'.IsListOf queue' (vs ++ [.continuation k]) →
      t.Captures h' cell call k (Named.called ["proc"] [proc] home) spawning stack →
      From limit goal w h' (.value .undefined) env' stack) : FromCall limit goal w h v inner stack
        (.closure t.spawn) [proc] span env := by
  have room : stack.depth + 5 ≤ limit := by omega
  refine stands.captures ["proc"] spawning stands.spawn rfl rfl rfl rfl (fun _ => rfl)
    (fits 3 room) ?_
  intro h₁ cell call k home grows₁ fresh stands₁ sees₁ captures
  refine .branch 1 true (.test sees₁ .continuation rfl rfl rfl) (fits 2 room) ?_
  refine .block sees₁ (by decide) (fits 1 room) ?_
  intro h₂ block grows₂ fresh₂ sees₂
  have until₂ := grows₁.trans grows₂
  have listed := Grows.newList h₂ [.continuation k]
  refine .assigns (fits 1 room) (appends 1 sees₂ (stands₁.equips.grown grows₂) rfl
    (.cons (.sight sees₂ rfl) (.cons (.list sees₂ rfl (.cons (.sight sees₂ rfl) .nil)) .nil)) listed
    (list.grows (until₂.trans listed)) (.newList h₂ _) (fits 3 room)
    (by show stack.depth + 1 + _ ≤ limit; omega) ?_)
  intro h₃ queue' grows₃ list₃
  refine .assigned (sees₂.grown grows₃) rfl rfl (fits 0 room) ?_
  intro h₄ grows₄ sees₄
  have since : Grows [t.block] h₁ h₄ := grows₂.trans <| grows₃.trans grows₄
  have grows : Grows [t.block] h h₄ := grows₁.trans since
  exact onwards h₄ queue' _ cell call k home grows fresh
    (stands.changed grows sees₄.tail.tail.tail) (list₃.grows grows₄) (captures.changed since)

/-! ## Starting and stopping -/

/-- The function to stop with goes back to where the threads were started. -/
abbrev halting : Function :=
  arrow [] [returns (Sketch.call "cc" [boolean false])]

/-- What is done to start the threads: the stack is kept to stop with, and the first thread goes
    on. -/
abbrev starting : Stmt :=
  when (Sketch.call "is_cont" [name "cc"])
    [assign "halt" (.function halting),
      when (not (Sketch.call "is_null" [name "thread_queue"])) Prelude.switch]

/-- The threads were started on this stack, and there is a function to go back to it. -/
structure Halts (t : Threads) (h : Heap) (f : ClosureId) (block cell call : ScopeId)
    (stack : Stack) : Prop where
  captures : ∃ k home, t.Captures h cell call k (Named.called [] [] home) starting stack ∧
    h.Shows cell [("cc", .assigned (.continuation k) true)]
  shown : h.Shows block []
  closure : h.closure? f = some ⟨halting, block :: t.within cell call⟩
  apart : block ∉ t.within cell call

namespace Halts

variable {f : ClosureId} {block cell call : ScopeId}

variable (halts : t.Halts h f block cell call stack)

include halts

theorem grows (grows : Grows touched h h') (apart : ∀ id ∈ [block, cell, call], id ∉ touched) :
    t.Halts h' f block cell call stack := by
  obtain ⟨k, home, captures, binds⟩ := halts.captures
  rw [List.forall_mem_cons] at apart
  exact ⟨⟨k, home, captures.grows grows apart.2, binds.grows grows (apart.2 _ (by simp))⟩,
    halts.shown.grows grows apart.1, grows.lasts.closures halts.closure, halts.apart⟩

/-- A change of the queue leaves the function to stop with alone. -/
theorem changed (grows : Grows [t.block] h h') : t.Halts h' f block cell call stack := by
  obtain ⟨_, _, captures, _⟩ := halts.captures
  refine halts.grows grows (List.forall_mem_cons.2 ⟨fun same => halts.apart ?_, ?_⟩)
  · rw [List.mem_singleton.1 same]
    exact List.mem_append_left _ (by simp)
  · intro id member same
    exact captures.apart id member (List.mem_singleton.1 same ▸ List.mem_cons_self)

/-- The function goes back to where the threads were started. -/
theorem stops (stands : t.Stands h queue (.closure f)) (above : top.depth + 2 ≤ limit)
    (space : stack.depth + 2 ≤ limit)
    (onwards : ∀ h' env', Grows [cell] h h' → From limit goal w h' (.value .undefined) env' stack) :
    FromCall limit goal w h v inner top (.closure f) [] span env := by
  obtain ⟨k, home, captures, binds⟩ := halts.captures
  have sees := (captures.sees stands binds).insert halts.shown halts.apart
  have closure : h.closure? f = some ⟨halting, [block, cell, call, t.block, t.call] ++ t.base⟩ :=
    halts.closure
  refine .enter [] closure rfl rfl rfl (by decide) sees (fits 1 above) ?_
  intro h₁ _ _ _ grows₁ _ _ sees₁ _
  refine .returning (sees₁.lookup? rfl) (fits 1 above) (.call 0 (.sight sees₁ rfl)
    (.cons (.literal (.boolean false)) .nil) (fits 2 above) ?_)
  -- the stack of the caller is dropped here, and the captured one is resumed with `false`
  refine (captures.grows grows₁ (by simp)).resumes (stands.grown grows₁) space ?_
  intro h₂ grows₂ _ sees₂
  exact .when 1 false (.test sees₂ .continuation rfl rfl rfl) space
    (onwards h₂ _ (grows₁.trans grows₂))

end Halts

/-- The stack is kept to stop with, before a look at the queue. -/
theorem Stands.prepares (stands : t.Stands h queue halt) (space : stack.depth + 3 ≤ limit)
    (onwards : ∀ h' f block cell call k home, Grows [t.block] h h' →
      (∀ id ∈ [block, cell, call], h.scopes.size ≤ id.index) → t.Stands h' queue (.closure f) →
      t.Halts h' f block cell call stack →
      h'.Sees ([block, cell, call] ++ [t.block, t.call]) ([[],
        [("cc", .assigned (.continuation k) true)], Named.called [] [] home] ++
          t.slots queue (.closure f)) t.base →
      From limit goal w h'
        (.statement (when (not (Sketch.call "is_null" [name "thread_queue"])) Prelude.switch))
        (([block, cell, call] ++ [t.block, t.call]) ++ t.base) stack) :
    FromCall limit goal w h v inner stack (.closure t.start) [] span env := by
  refine stands.captures [] starting stands.start rfl rfl rfl rfl (fun _ => rfl) space ?_
  intro h₁ cell call k home grows₁ fresh stands₁ sees₁ captures
  refine .when 1 true (.test sees₁ .continuation rfl rfl rfl) (fits 2 space) ?_
  refine .block sees₁ (by decide) (fits 2 space) ?_
  intro h₂ block grows₂ fresh₂ sees₂
  have made := Grows.newClosure h₂ ⟨halting, block :: t.within cell call⟩
  refine .assign 0 (.function halting) made sees₂ rfl rfl (fits 2 space) ?_
  intro h₃ grows₃ sees₃
  have since : Grows [t.block] h₁ h₃ := grows₂.trans <| made.trans grows₃
  have grows : Grows [t.block] h h₃ := grows₁.trans since
  have closure : h₃.closure? ⟨h₂.closures.size⟩ = some ⟨halting, block :: t.within cell call⟩ :=
    grows₃.lasts.closures Array.getElem?_push_size
  refine .next (fits 0 space) (onwards h₃ ⟨h₂.closures.size⟩ block cell call k home grows
    ?_ (stands.changed grows sees₃.tail.tail.tail) ?_ sees₃)
  · exact List.forall_mem_cons.2 ⟨grows₁.size.trans fresh₂, fresh⟩
  · exact ⟨⟨k, home, captures.changed since, sees₃.tail.head⟩, sees₃.head, closure,
      (List.nodup_cons.1 sees₃.distinct).1⟩

/-- Without threads there is nothing to start. -/
theorem Stands.starts_alone (stands : t.Stands h .null halt) (space : stack.depth + 3 ≤ limit)
    (onwards : ∀ h' env', Grows [t.block] h h' →
      From limit goal w h' (.value .undefined) env' stack) :
    FromCall limit goal w h v inner stack (.closure t.start) [] span env := by
  refine stands.prepares space ?_
  intro h₁ f block cell call k home grows₁ _ _ _ sees₁
  exact .when 2 false (.unary (.test sees₁ .null rfl rfl rfl) (by decide) rfl) space
    (onwards h₁ _ grows₁)

/-- The first thread goes on, and there is a function to stop with. -/
theorem Stands.starts (stands : t.Stands h queue halt) (list : h.IsListOf queue (next :: vs))
    (space : stack.depth + 4 ≤ limit)
    (onwards : ∀ h' queue' f block cell call env', Grows [t.block] h h' →
      (∀ id ∈ [block, cell, call], h.scopes.size ≤ id.index) → t.Stands h' queue' (.closure f) →
      h'.IsListOf queue' vs → t.Halts h' f block cell call stack →
      FromCall limit goal w h' next env' stack next [.null] {} env') :
    FromCall limit goal w h v inner stack (.closure t.start) [] span env := by
  obtain ⟨id, tail, rfl, -, -⟩ := list.exists_pair
  refine stands.prepares (by omega) ?_
  intro h₁ f block cell call k home grows₁ fresh stands₁ halts sees₁
  refine .when 2 true (.unary (.test sees₁ .null rfl rfl rfl) (by decide) rfl) (by omega) ?_
  refine stands₁.switches (list.grows grows₁) space ?_ sees₁ rfl rfl rfl rfl
  intro h₂ queue' env' grows₂ stands₂ list₂
  exact onwards h₂ queue' f block cell call env' ((grows₁.trans grows₂).mono (by simp)) fresh
    stands₂ list₂ (halts.changed grows₂)

/-! ## Making threads -/

/-- The body is called with the three functions, and what it returns goes to the caller. -/
theorem threads {f : ClosureId} {base : Env} {body : Value}
    (closure : h.closure? f = some ⟨Prelude.threads, base⟩) (equips : h.Equips base)
    (space : stack.depth + 7 ≤ limit) (onwards : ∀ h' (t : Threads), Grows [] h h' → t.base = base →
      (∀ id ∈ [t.block, t.call], h.scopes.size ≤ id.index) → t.Stands h' .null .null →
      h'.continuation? t.home = some ⟨.undelimited, env, stack⟩ →
      FromCall limit goal w h' body t.env
        (stack.push (.argument [] 0 [] (.continuation t.home) {} t.env)) body
        [.closure t.spawn, .closure t.start, .closure t.pause] {} t.env) :
    FromCall limit goal w h v inner stack (.closure f) [body] span env := by
  have closure : h.closure? f = some ⟨Prelude.threads, [] ++ base⟩ := closure
  refine .enter ["body"] closure rfl rfl rfl (by decide) ⟨.nil, equips.serves, equips.distinct⟩
    (fits 7 space) ?_
  intro h₁ call block home grows₁ fresh fresh' sees₁ captured
  refine .declaration 0 (.literal _) (.refl h₁) sees₁ rfl (fits 7 space) ?_
  intro h₂ grows₂ sees₂
  refine .next (fits 5 space) (.declaration 0 (.literal _) (.refl h₂) sees₂ rfl (fits 6 space) ?_)
  intro h₃ grows₃ sees₃
  refine .next (fits 4 space) (.function sees₃ rfl rfl (fits 5 space) ?_)
  intro h₄ spawn grows₄ spawn₄ sees₄
  refine .next (fits 3 space) (.function sees₄ rfl rfl (fits 4 space) ?_)
  intro h₅ pause grows₅ pause₅ sees₅
  refine .next (fits 2 space) (.function sees₅ rfl rfl (fits 3 space) ?_)
  intro h₆ quit grows₆ quit₆ sees₆
  refine .next (fits 1 space) (.function sees₆ rfl rfl (fits 2 space) ?_)
  intro h₇ start grows₇ start₇ sees₇
  refine .next (fits 0 space) (.returning (sees₇.lookup? rfl) (fits 1 space) ?_)
  refine .call 0 (.sight sees₇ rfl) (.cons (.sight sees₇ rfl) (.cons (.sight sees₇ rfl)
    (.cons (.sight sees₇ rfl) .nil))) (fits 2 space) ?_
  have later₅ := grows₆.trans grows₇
  have later₄ := grows₅.trans later₅
  have later₁ := grows₂.trans <| grows₃.trans <| grows₄.trans later₄
  have grows : Grows [] h h₇ := (grows₁.trans later₁).old (by simp [fresh'])
  refine onwards h₇ ⟨base, block, call, spawn, pause, quit, start, body, home⟩ grows rfl
    (by simp [fresh, fresh']) ?_ (later₁.lasts.continuations captured)
  exact ⟨sees₇, equips.grown grows, later₄.lasts.closures spawn₄, later₅.lasts.closures pause₅,
    grows₇.lasts.closures quit₆, start₇⟩

end Threads

end SourceMachine
