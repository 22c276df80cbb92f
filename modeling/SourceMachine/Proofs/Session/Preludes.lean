import SourceMachine.Proofs.Machine.Libraries
import SourceMachine.Proofs.Program.Trees
import SourceMachine.Proofs.Session.Aborted

/-!
# The preludes of a session

The preludes are two libraries.  They are tried once, by the first request that takes up a
program, and it is noted that they were tried before they are run.

Whether they are complete depends on the room on the stack alone.  With room for sixteen
frames both come to their ends, and from then on every program finds all their functions,
unless another program of the session declares the same name.  With less room the library of
lists overflows before it has bound anything, and the request fails.  Requests after it do
not fail for that reason any more, but what they prepare finds names without values, and
nothing of the other prelude.
-/

namespace SourceMachine

/-! ## Looking for a name -/

namespace Heap

variable {h : Heap} {x : Identifier} {around : Env}

/-- Scopes that do not have a name are passed over. -/
theorem get_append_of_none (absent : ∀ id ∈ around, h.slot? id x.name = none) (env : Env) :
    h.get x (around ++ env) = h.get x env := by
  induction around with
  | nil => rfl
  | cons id rest ih =>
    rw [List.cons_append, get_cons_of_none (absent id List.mem_cons_self)]
    exact ih fun id member => absent id (List.mem_cons_of_mem _ member)

/-- A function that a scope provides is found from inside of the scope. -/
theorem Provides.get_eq {id : ScopeId} {outer : Env} {f : Function}
    (provides : h.Provides id outer f) (named : f.id.map (·.name) = some x.name) (env : Env) :
    ∃ k, h.get x (id :: env) = .ok (.closure k) ∧ h.closure? k = some ⟨f, id :: outer⟩ := by
  obtain ⟨y, k, same, bound, closure⟩ := provides
  rw [same] at named
  rw [show y.name = x.name from Option.some.inj named] at bound
  refine ⟨k, ?_, closure⟩
  rw [get, bound]

end Heap

namespace Machine

/-! ## Libraries that are run in a row -/

section Row

variable {m : Machine} {text : String} {p : Program}

theorem visits_run_load (read : Program.read text = .ok p) {m' : Machine} {budget : Nat}
    {outcome : Outcome} (ran : (m.load p).run budget = (outcome, m')) : m.Visits m' := by
  have loaded : m.Visits (m.load p) := ⟨[], Reaches.refl.load read⟩
  have visited := loaded.run budget
  rwa [ran] at visited

variable (read : Program.read text = .ok p) (library : p.IsLibrary)
  (noCaptures : m.world.heap.continuations = #[])

include read library noCaptures

/-- With enough room, the programs after a library are run on the machine that has it. -/
theorem runAll_library (room : p.body.length + 1 ≤ m.maxDepth) :
    ∃ m', (∀ rest, m.runAll (Program.read text :: rest) = m'.runAll rest ∧
        (m'.EndsAll rest → m.EndsAll (Program.read text :: rest))) ∧
      m.Visits m' ∧ m.LeavesScope m' ∧
      m'.world.heap.HasLibrary ⟨m.world.heap.scopes.size⟩ m.outer p ∧
      m'.world.console = m.world.console := by
  obtain ⟨budget, m', ran, leaves, has⟩ := run_library library noCaptures room
  obtain ⟨ends, ended⟩ := runToEnd_of_run ran (by simp)
  refine ⟨m', fun rest => ?_, visits_run_load read ran, leaves, has⟩
  simp [runAll, EndsAll, install, read, ended, ends]

/-- Without it, no program is run after the library. -/
theorem runAll_library_of_no_room (small : m.maxDepth ≤ p.body.length) :
    ∃ m', (∀ rest, m.runAll (Program.read text :: rest) =
          (.error (.overflow (max (m.maxDepth + 1) p.body.length)), m') ∧
        m.EndsAll (Program.read text :: rest)) ∧
      m.LeavesScope m' ∧ m'.world.heap.LacksLibrary ⟨m.world.heap.scopes.size⟩ p := by
  obtain ⟨budget, m', ran, leaves, lacks⟩ := run_library_of_no_room library noCaptures small
  obtain ⟨ends, ended⟩ := runToEnd_of_run ran (by simp)
  refine ⟨m', fun rest => ?_, leaves, lacks⟩
  simp [runAll, EndsAll, install, read, ended, ends]

end Row

/-! ## Both preludes -/

/-- The texts of the preludes are these two libraries. -/
structure ReadsPreludes (lists jumps : Program) : Prop where
  readLists : Program.read Prelude.lists = .ok lists
  readJumps : Program.read Prelude.jumps = .ok jumps
  listLibrary : lists.IsLibrary
  jumpLibrary : jumps.IsLibrary
  listNames : declaredNames lists.body = Prelude.listNames
  jumpNames : declaredNames jumps.body = Prelude.jumpNames

/-- Both preludes came to their ends, each in a scope of its own. -/
structure GainsPreludes (lists jumps : Program) (m m' : Machine) : Prop where
  outer : m'.outer = ⟨m.world.heap.scopes.size + 1⟩ :: ⟨m.world.heap.scopes.size⟩ :: m.outer
  listsClosed : m'.IsSealed ⟨m.world.heap.scopes.size⟩
  jumpsClosed : m'.IsSealed ⟨m.world.heap.scopes.size + 1⟩
  lists : m'.world.heap.HasLibrary ⟨m.world.heap.scopes.size⟩ m.outer lists
  jumps : m'.world.heap.HasLibrary ⟨m.world.heap.scopes.size + 1⟩
    (⟨m.world.heap.scopes.size⟩ :: m.outer) jumps
  silent : m'.world.console = m.world.console

/-- The first prelude failed before it had bound a function. -/
structure MissesPreludes (lists : Program) (m m' : Machine) : Prop where
  outer : m'.outer = ⟨m.world.heap.scopes.size⟩ :: m.outer
  listsClosed : m'.IsSealed ⟨m.world.heap.scopes.size⟩
  lists : m'.world.heap.LacksLibrary ⟨m.world.heap.scopes.size⟩ lists

theorem exists_readsPreludes : ∃ lists jumps, ReadsPreludes lists jumps := by
  obtain ⟨lists, readLists, listLibrary, listNames⟩ := Prelude.readsLibrary_lists
  obtain ⟨jumps, readJumps, jumpLibrary, jumpNames⟩ := Prelude.readsLibrary_jumps
  exact ⟨lists, jumps, readLists, readJumps, listLibrary, jumpLibrary, listNames, jumpNames⟩

section Preludes

variable {lists jumps : Program} {m : Machine}

section

variable (reads : ReadsPreludes lists jumps)

include reads

theorem ReadsPreludes.length_lists : lists.body.length = 15 := by
  rw [← length_declaredNames reads.listLibrary.functions, reads.listNames]
  rfl

theorem ReadsPreludes.length_jumps : jumps.body.length = 6 := by
  rw [← length_declaredNames reads.jumpLibrary.functions, reads.jumpNames]
  rfl

/-- With room for sixteen frames both preludes come to their ends. -/
theorem ReadsPreludes.runAll (noCaptures : m.world.heap.continuations = #[])
    (room : 16 ≤ m.maxDepth) :
    m.EndsAll Prelude.programs ∧
      ∃ m', m.runAll Prelude.programs = (.ok (), m') ∧ m.GainsPreludes lists jumps m' := by
  obtain ⟨m₁, onwards₁, visited₁, leaves₁, has₁, silent₁⟩ := runAll_library reads.readLists
    reads.listLibrary noCaptures (by rw [reads.length_lists]; exact room)
  have ⟨births₁, reached₁⟩ := visited₁
  obtain ⟨m₂, onwards₂, visited₂, leaves₂, has₂, silent₂⟩ := runAll_library reads.readJumps
    reads.jumpLibrary leaves₁.noCaptures (by
      rw [reads.length_jumps, reached₁.maxDepth]
      omega)
  obtain ⟨ran₁, ends₁⟩ := onwards₁ [Program.read Prelude.jumps]
  obtain ⟨ran₂, ends₂⟩ := onwards₂ []
  refine ⟨ends₁ (ends₂ trivial), m₂, ran₁.trans ran₂, ?_⟩
  have closed₂ := leaves₂.closed
  rw [leaves₁.size] at closed₂ has₂
  rw [leaves₁.outer] at has₂
  have ⟨births₂, reached₂⟩ := visited₂
  -- the second prelude leaves alone what the first one has bound
  refine ⟨?_, leaves₁.closed.reaches reached₂, closed₂,
    leaves₁.closed.hasLibrary visited₂ has₁, has₂, silent₂.trans silent₁⟩
  rw [leaves₂.outer, leaves₁.outer, leaves₁.size]

/-- With less room the first one overflows. -/
theorem ReadsPreludes.runAll_of_no_room (noCaptures : m.world.heap.continuations = #[])
    (small : m.maxDepth < 16) :
    m.EndsAll Prelude.programs ∧
      ∃ m', m.runAll Prelude.programs = (.error (.overflow (max (m.maxDepth + 1) 15)), m') ∧
        m.MissesPreludes lists m' := by
  obtain ⟨m₁, stops, leaves, lacks⟩ := runAll_library_of_no_room reads.readLists
    reads.listLibrary noCaptures (by rw [reads.length_lists]; omega)
  rw [reads.length_lists] at stops
  obtain ⟨ran, ends⟩ := stops [Program.read Prelude.jumps]
  exact ⟨ends, m₁, ran, leaves.outer, leaves.closed, lacks⟩

/-- What the first request that takes up a program does about the preludes. -/
theorem ReadsPreludes.runPreludes (noCaptures : m.world.heap.continuations = #[])
    (pending : m.preludePending = true) :
    m.PrepareReturns ∧
      (16 ≤ m.maxDepth →
        m.runPreludes.1 = .ok () ∧ m.GainsPreludes lists jumps m.runPreludes.2) ∧
      (m.maxDepth < 16 →
        m.runPreludes.1 = .error (.overflow (max (m.maxDepth + 1) 15)) ∧
          m.MissesPreludes lists m.runPreludes.2) := by
  rw [Machine.runPreludes, if_pos pending]
  rcases Nat.lt_or_ge m.maxDepth 16 with small | room
  · obtain ⟨ends, m', ran, misses⟩ := reads.runAll_of_no_room
      (m := { m with preludePending := false }) noCaptures small
    rw [ran]
    refine ⟨fun _ => ends, fun room => absurd small (not_lt.2 room), fun _ => ⟨rfl, ?_⟩⟩
    exact ⟨misses.outer, misses.listsClosed, misses.lists⟩
  · obtain ⟨ends, m', ran, gains⟩ := reads.runAll
      (m := { m with preludePending := false }) noCaptures room
    rw [ran]
    refine ⟨fun _ => ends, fun _ => ⟨rfl, ?_⟩, fun small => absurd small (not_lt.2 room)⟩
    exact ⟨gains.outer, gains.listsClosed, gains.jumpsClosed, gains.lists, gains.jumps,
      gains.silent⟩

end

/-! ## Names of the preludes -/

variable {m' s : Machine} {own : Env} {x : Identifier}

variable (reads : ReadsPreludes lists jumps) (visited : m'.Visits s)
  (unshadowed : ∀ id ∈ own, s.world.heap.slot? id x.name = none)

include reads visited unshadowed

/-- Where both preludes are complete, their functions are found. -/
theorem GainsPreludes.get_eq (gains : m.GainsPreludes lists jumps m') {f : Function}
    (member : .function f ∈ lists.body ++ jumps.body) (named : f.id.map (·.name) = some x.name) :
    ∃ k env, s.world.heap.get x (own ++ m'.outer) = .ok (.closure k) ∧
      s.world.heap.closure? k = some ⟨f, env⟩ := by
  have hasLists := gains.listsClosed.hasLibrary visited gains.lists
  have hasJumps := gains.jumpsClosed.hasLibrary visited gains.jumps
  rw [Heap.get_append_of_none unshadowed, gains.outer]
  rcases List.mem_append.1 member with list | jump
  · -- the scope of the jumps is passed over
    have other : x.name ∉ declaredNames jumps.body := by
      rw [reads.jumpNames]
      intro jump
      obtain ⟨y, same, name⟩ := Option.map_eq_some_iff.1 named
      have declared := mem_declaredNames list same
      rw [reads.listNames, name] at declared
      exact Prelude.not_mem_listNames jump declared
    rw [Heap.get_cons_of_none (hasJumps.others _ other)]
    obtain ⟨k, found, closure⟩ := (hasLists.provides f list).get_eq named m.outer
    exact ⟨k, _, found, closure⟩
  · obtain ⟨k, found, closure⟩ := (hasJumps.provides f jump).get_eq named
      (⟨m.world.heap.scopes.size⟩ :: m.outer)
    exact ⟨k, _, found, closure⟩

/-- Where the first one failed, its names have no values, and the scope with its names is all
    that it has left. -/
theorem MissesPreludes.get_eq (misses : m.MissesPreludes lists m') :
    s.world.heap.get x (own ++ m'.outer) =
      if x.name ∈ Prelude.listNames then .error ⟨.unassigned x.name, x.span⟩
      else s.world.heap.get x m.outer := by
  have slot := misses.listsClosed.lacksLibrary visited misses.lists x.name
  rw [reads.listNames] at slot
  rw [Heap.get_append_of_none unshadowed, misses.outer, Heap.get, slot]
  by_cases list : x.name ∈ Prelude.listNames
  · rw [if_pos list, if_pos list]
  · rw [if_neg list, if_neg list]

end Preludes

/-! ## Sessions with preludes -/

section Session

variable {start m : Machine}

/-- Taking up a program adds no scope. -/
theorem outer_load (m : Machine) (p : Program) : (m.load p).outer = m.outer :=
  rfl

theorem prepare_eq (m : Machine) (text : String) : m.prepare text = match m.runPreludes.1 with
      | .error failure => (.error failure, m.runPreludes.2)
      | .ok () => m.runPreludes.2.install (Program.read text) := by
  rw [prepare]
  obtain ⟨_ | _, m₁⟩ := m.runPreludes
  · rfl
  · rfl

/-- Whatever is prepared is prepared after the preludes were tried. -/
theorem visits_prepare (prepares : start.PrepareReturns)
    (after : m = start ∨ start.runPreludes.2.Visits m) (text : String) :
    start.runPreludes.2.Visits (m.prepare text).2 := by
  rcases after with rfl | visited
  · have tried : m.runPreludes.2.Visits m.runPreludes.2 := ⟨[], .refl⟩
    rw [prepare_eq]
    cases m.runPreludes.1 with
    | error failure => exact tried
    | ok => exact tried.install text
  · obtain ⟨births, reached⟩ := visited
    have tried := reached.preludePending (preludePending_runPreludes prepares)
    exact Visits.prepare ⟨births, reached⟩ (prepareReturns_of_tried tried) text

/-- A text that is no program leaves what the preludes have left. -/
theorem perform_of_refused {text : String} (complete : m.runPreludes.1 = .ok ())
    (refused : (Program.read text).toOption = none) :
    m.perform (.prepare text) = m.runPreludes.2 := by
  show (m.prepare text).2 = _
  rw [prepare_eq, complete]
  cases read : Program.read text with
  | error refusal => rfl
  | ok p =>
    rw [read] at refused
    cases refused

variable (idle : start.control = none) (prepares : start.PrepareReturns)
  (after : m = start ∨ start.runPreludes.2.Visits m)

include idle prepares after

/-- A machine without a program stays as it is, up to the request that tries the preludes. -/
theorem visits_perform {request : Request} (returns : m.Returns request) :
    m.perform request = start ∨ start.runPreludes.2.Visits (m.perform request) := by
  cases request with
  | prepare text => exact .inr (visits_prepare prepares after text)
  | step =>
    rcases after with rfl | visited
    · exact .inl (congrArg Prod.snd (step_of_idle idle))
    · exact .inr visited.step
  | run budget =>
    rcases after with rfl | visited
    · exact .inl (runWithin_of_idle idle budget).2
    · exact .inr (visited.runWithin returns)
  | eval text budget =>
    obtain ⟨-, runs⟩ := returns
    exact .inr (Visits.eval_of_prepare (visits_prepare prepares after text) runs)

theorem visits_foldl_perform {requests : List Request} (returned : m.ReturnsAll requests) :
    requests.foldl perform m = start ∨ start.runPreludes.2.Visits (requests.foldl perform m) := by
  induction requests generalizing m with
  | nil => exact after
  | cons request rest ih =>
    obtain ⟨first, others⟩ := returned
    exact ih (visits_perform idle prepares after first) others

end Session

section New

variable {settings : Settings} {table : Table} {world : World}

theorem continuations_new (noCaptures : world.heap.continuations = #[]) :
    (Machine.new settings table world).world.heap.continuations = #[] :=
  (Heap.Keeps.install table _ (world.heap.newScope "global" []).2).continuations.trans noCaptures

/-- No program declares anything in the scope of the builtin names. -/
theorem isSealed_new (noCaptures : world.heap.continuations = #[]) :
    (Machine.new settings table world).IsSealed ⟨world.heap.scopes.size⟩ := by
  refine ⟨?_, ⟨forall_initial (by simp [Frame.Avoids, Frame.env?]), ?_⟩, ?_⟩
  · refine Nat.lt_of_lt_of_eq ?_
      (Heap.Keeps.install table _ (world.heap.newScope "global" []).2).size.symm
    simp [Heap.newScope]
  · exact .of_eq_empty (continuations_new noCaptures)
  · rintro c ⟨⟩

theorem slot?_new {name : String} (other : name ∉ table.names) :
    (Machine.new settings table world).world.heap.slot? ⟨world.heap.scopes.size⟩ name = none :=
  (Heap.KeepsSlots.install other _ (world.heap.newScope "global" []).2 _).trans
    (Heap.slot?_newScope_next world.heap "global" [] name)

/-- What is not a builtin name is not found outside of all programs. -/
theorem get_new {s : Machine} {x : Identifier} (noCaptures : world.heap.continuations = #[])
    (visited : (Machine.new settings table world).Visits s) (other : x.name ∉ table.names) :
    s.world.heap.get x (Machine.new settings table world).outer =
      .error ⟨.undeclared x.name, x.span⟩ := by
  have absent :
      (Machine.new settings table world).world.heap.slot? ⟨world.heap.scopes.size⟩ x.name =
      none := slot?_new other
  have fixed : s.world.heap.slot? ⟨world.heap.scopes.size⟩ x.name = none := by
    rw [(isSealed_new noCaptures).slot?_eq visited (by simp [absent]), absent]
  exact Heap.get_cons_of_none fixed []

end New

/-- **The preludes need room.**  Some requests were made of a new machine that runs the
    preludes, on a heap without captured stacks, and came back; then a program was prepared.  The
    two preludes declare the functions that `Prelude.listNames` and `Prelude.jumpNames` list.

    If the stack has room for sixteen frames, both preludes came to their ends, and at any time
    after that, every one of these functions is found in the scopes that outlive their programs,
    unless the name is in one of the scopes that programs of the session have added.

    If there is less room, the first prelude has overflowed.  The program was prepared all the
    same, and finds the names of the first prelude without values, and those of the second one
    not at all. -/
theorem preludes_need_room {settings : Settings} {world : World} {requests : List Request}
    {text : String} {m s : Machine} (wanted : settings.prelude = true)
    (noCaptures : world.heap.continuations = #[])
    (returned : (Machine.new settings Table.standard world).ReturnsAll requests)
    (prepared : (requests.foldl perform (Machine.new settings Table.standard world)).prepare text =
      (.ok (), m))
    (visited : m.Visits s) :
    let start := Machine.new settings Table.standard world
    ∃ lists jumps, Program.read Prelude.lists = .ok lists ∧ Program.read Prelude.jumps = .ok jumps ∧
      declaredNames lists.body = Prelude.listNames ∧ declaredNames jumps.body = Prelude.jumpNames ∧
      ∃ own, s.outer = own ++ start.runPreludes.2.outer ∧
        (16 ≤ settings.maxDepth →
          start.runPreludes.1 = .ok () ∧ start.runPreludes.2.outerCount = 3 ∧
          ∀ f, .function f ∈ lists.body ++ jumps.body →
            ∀ x : Identifier, f.id.map (·.name) = some x.name →
              (∀ id ∈ own, s.world.heap.slot? id x.name = none) →
              ∃ k env, s.world.heap.get x s.outer = .ok (.closure k) ∧
                s.world.heap.closure? k = some ⟨f, env⟩) ∧
        (settings.maxDepth < 16 →
          start.runPreludes.1 = .error (.overflow (max (settings.maxDepth + 1) 15)) ∧
          start.runPreludes.2.outerCount = 2 ∧
          ∀ x : Identifier, (∀ id ∈ own, s.world.heap.slot? id x.name = none) →
            (x.name ∈ Prelude.listNames →
              s.world.heap.get x s.outer = .error ⟨.unassigned x.name, x.span⟩) ∧
            (x.name ∈ Prelude.jumpNames →
              s.world.heap.get x s.outer = .error ⟨.undeclared x.name, x.span⟩)) := by
  intro start
  obtain ⟨lists, jumps, reads⟩ := exists_readsPreludes
  obtain ⟨prepares, complete, failed⟩ :=
    reads.runPreludes (m := start) (continuations_new noCaptures) wanted
  -- the program was prepared after the preludes, and so was all that came after it
  have after := visits_prepare prepares (visits_foldl_perform rfl prepares (.inl rfl) returned) text
  rw [prepared] at after
  have onwards : start.runPreludes.2.Visits s := after.trans visited
  have ran : start.Visits start.runPreludes.2 := .runPreludes ⟨[], .refl⟩ prepares
  have whole : start.Visits s := ran.trans onwards
  have ⟨births, reached⟩ := onwards
  obtain ⟨past, -, passed⟩ := Passes.of_reaches reached
  refine ⟨lists, jumps, reads.readLists, reads.readJumps, reads.listNames, reads.jumpNames,
    _, passed.outer_eq, fun room => ?_, fun small => ?_⟩
  · obtain ⟨ok, gains⟩ := complete room
    refine ⟨ok, by rw [ran.outerCount_eq, gains.outer]; rfl, fun f member x named unshadowed => ?_⟩
    rw [passed.outer_eq]
    exact gains.get_eq reads onwards unshadowed member named
  · obtain ⟨overflow, misses⟩ := failed small
    refine ⟨overflow, by rw [ran.outerCount_eq, misses.outer]; rfl, fun x unshadowed => ?_⟩
    rw [passed.outer_eq, misses.get_eq reads onwards unshadowed]
    refine ⟨fun list => if_pos list, fun jump => ?_⟩
    rw [if_neg (Prelude.not_mem_listNames jump)]
    exact get_new noCaptures whole (Prelude.not_mem_standard jump)

/-- The same for a session on a machine as it usually is, in which the first text was no
    program. -/
theorem preludes_need_room_of_usual :
    let start := Machine.new {} Table.standard {}
    ∃ m, (start.perform (.prepare "(")).prepare "length;" = (.ok (), m) ∧
      ∃ k c, m.world.heap.get ⟨"length", default⟩ m.outer = .ok (.closure k) ∧
        m.world.heap.closure? k = some c ∧ c.function.displayName = "length" := by
  intro start
  obtain ⟨lists, jumps, reads⟩ := exists_readsPreludes
  obtain ⟨prepares, complete, -⟩ := reads.runPreludes (m := start) (continuations_new rfl) rfl
  obtain ⟨ok, -⟩ := complete (by decide)
  -- no step of the preludes is evaluated here: the general lemmas say what they leave
  have left : start.perform (.prepare "(") = start.runPreludes.2 :=
    perform_of_refused ok (by decide +kernel)
  obtain ⟨q, read, -⟩ := Program.exists_read (by decide +kernel :
    ∃ q ∈ (Program.read "length;").toOption, q.onlyName?.isSome)
  have prepared : start.runPreludes.2.prepare "length;" = (.ok (), start.runPreludes.2.load q) := by
    rw [prepare_of_tried (preludePending_runPreludes prepares), read]
    rfl
  have returned : start.ReturnsAll [.prepare "("] := ⟨prepares, trivial⟩
  obtain ⟨lists', jumps', read', -, names, -, own, outer, found, -⟩ :=
    preludes_need_room rfl rfl returned
      (by rw [List.foldl_cons, List.foldl_nil, left]; exact prepared)
      ⟨[], .refl⟩
  obtain rfl : lists = lists' := Except.ok.inj (reads.readLists.symm.trans read')
  rw [outer_load] at outer
  obtain rfl : own = [] := List.self_eq_append_left.1 outer
  obtain ⟨f, y, member, named, name⟩ := reads.listLibrary.exists_function
    (show "length" ∈ declaredNames lists.body by rw [names]; decide)
  obtain ⟨-, -, functions⟩ := found (by decide)
  obtain ⟨k, env, closure, function⟩ := functions f (List.mem_append_left _ member)
    ⟨"length", default⟩ (by rw [named]; exact congrArg some name) (by simp)
  refine ⟨_, left ▸ prepared, k, _, closure, function, ?_⟩
  rw [Function.displayName, named]
  exact name

/-- With room for ten frames, a program is prepared that has to do without a function of a
    prelude. -/
theorem preludes_missing_without_room :
    let start := Machine.new { maxDepth := 10 } Table.standard {}
    ∃ m, start.prepare "1;" = (.error (.overflow 15), m) ∧ (m.prepare "length;").1 = .ok () ∧
      ∃ span, (m.eval "length;" none).1 = .failed (.fault ⟨.unassigned "length", span⟩) := by
  intro start
  have limit : start.maxDepth = 10 := rfl
  have pending : start.preludePending = true := rfl
  have noCaptures : start.world.heap.continuations = #[] := continuations_new rfl
  -- the rest holds of any machine like this one, and must not evaluate it
  clear_value start
  obtain ⟨lists, jumps, reads⟩ := exists_readsPreludes
  obtain ⟨prepares, -, failed⟩ := reads.runPreludes noCaptures pending
  obtain ⟨overflow, misses⟩ := failed (by omega)
  have tried := preludePending_runPreludes prepares
  obtain ⟨q, read, x, only, named⟩ := Program.exists_read (by decide +kernel :
    ∃ q ∈ (Program.read "length;").toOption, ∃ x ∈ q.onlyName?, x.name = "length")
  obtain ⟨span, asks⟩ := Program.body_of_onlyName? only
  refine ⟨start.runPreludes.2, ?_, ?_, x.span, ?_⟩
  · rw [prepare_eq, overflow, limit]
    rfl
  · rw [prepare_of_tried tried, read]
    rfl
  · have unassigned : start.runPreludes.2.world.heap.get x ([] ++ start.runPreludes.2.outer) = _ :=
      misses.get_eq reads ⟨[], .refl⟩ (by simp)
    rw [if_pos (by rw [named]; decide), named, List.nil_append] at unassigned
    have limit' : start.runPreludes.2.maxDepth = start.maxDepth := by
      obtain ⟨births, reached⟩ : start.Visits start.runPreludes.2 :=
        Visits.runPreludes ⟨[], .refl⟩ prepares
      exact reached.maxDepth
    exact (eval_probe tried (by omega) read asks).2.2 _ unassigned

end Machine

end SourceMachine
