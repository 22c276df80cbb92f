import SourceMachine.Proofs.Machine.Attains
import SourceMachine.Proofs.Machine.Unspanned
import SourceMachine.Proofs.Program.RoundTrip
import SourceMachine.Proofs.Session.Preludes

/-!
# Programs after the preludes

The first evaluation on a new machine runs the preludes and then its program.  What the program
comes to does not depend on the places in its text, and so the program can be followed as it is
without them, in a heap where the builtin functions and those of the preludes are found
(`exists_start`).

The other lemmas say what the evaluation comes to, once the program without places has come to a
value, to a fault, or to ever more steps.
-/

namespace SourceMachine

variable {h : Heap} {id : ScopeId} {start : Machine} {base : Env} {f : Function}
  {result : Value → World → Prop}

/-! ## Texts of programs -/

namespace Outline

/-- The name of the function that makes lists. -/
def listName : Name :=
  ⟨"list", by decide, by decide⟩

/-- The name that a program gives to the function that pauses it. -/
def yieldName : Name :=
  ⟨"yld", by decide, by decide⟩

/-- No parameters. -/
def noParams : Params :=
  ⟨[], none, by decide⟩

end Outline

/-- An outline that is not nested too deep has a text. -/
theorem Outline.exists_program {body : List Outline.Stmt}
    (small : Outline.Stmt.nestingOfAll body ≤ maxNesting) :
    ∃ text p, Program.read text = .ok p ∧ p.unspanned = Outline.program body := by
  have answers := Outline.reader_gives body (decide_eq_true rfl) (Outline.shows_text body)
  obtain ⟨p, s, read, same, -⟩ := answers.exists_ok small
  refine ⟨Outline.text body, p, ?_, same⟩
  rw [Program.read, read]
  rfl

theorem Outline.nesting_strings (texts : List String) :
    Outline.Expr.nestingOfAll (texts.map .string) ≤ 2 := by
  induction texts with
  | nil => exact Nat.zero_le 2
  | cons text texts ih => exact max_le le_rfl ih

theorem Outline.trees_strings (texts : List String) :
    Outline.Expr.trees (texts.map .string) = texts.map Sketch.string := by
  rw [Outline.Expr.trees_eq_map, List.map_map]
  rfl

/-- A text that reads as a tree, but for the places. -/
theorem Program.exists_alike {text : String} {body : List Stmt}
    (check : ∃ p ∈ (Program.read text).toOption, Stmt.alikeAll p.body body = true) :
    ∃ p, Program.read text = .ok p ∧ p.unspanned.body = Stmt.unspannedAll body := by
  obtain ⟨p, read, same⟩ := Program.exists_read check
  exact ⟨p, read, Stmt.unspanned_of_alikeAll same⟩

/-! ## Builtin functions -/

namespace Table

theorem mem_primitives (f : Primitive) : f ∈ control ++ general ++ pairs ++ numeric := by
  cases f with
  | control op => cases op <;> decide
  | native g =>
    cases g with
    | test t => cases t <;> decide
    | real function => cases function <;> decide
    | _ => decide

/-- Every builtin function is in the standard table. -/
theorem mem_standard (f : Primitive) : (f.name, .builtin f 0) ∈ standard := by
  have member := mem_primitives f
  simp only [List.mem_append] at member
  have made {functions : List Primitive} (member : f ∈ functions) :
      (f.name, .builtin f 0) ∈ ofPrimitives functions := List.mem_map_of_mem member
  simp only [standard, List.mem_append]
  rcases member with ((near | near) | near) | near
  all_goals simp [made near]

/-- A scope has what a table without repetitions has put into it. -/
theorem slot?_install {table : Table} {name : String} {v : Value} (distinct : table.names.Nodup)
    (member : (name, v) ∈ table) (inside : id.index < h.scopes.size) (outer : Env) :
    (table.install (id :: outer) h).slot? id name = some (.assigned v false) := by
  induction table generalizing h with
  | nil => cases member
  | cons entry rest ih =>
    rw [Named.names, List.map_cons, List.nodup_cons] at distinct
    have kept := Heap.Keeps.bind h id entry.1 (.assigned entry.2 false)
    rcases List.mem_cons.1 member with rfl | member
    · have bound := Heap.slot?_bind_self inside name (.assigned v false)
      exact (Heap.KeepsSlots.install distinct.1 (id :: outer) _ id).trans bound
    · exact ih distinct.2 member (inside.trans_eq kept.size.symm)

end Table

/-! ## Functions of the preludes -/

namespace Heap

/-- The functions of the preludes are found in some scopes, those of the library of lists outside
    of the innermost one. -/
structure Equips (h : Heap) (base : Env) : Prop where
  serves : h.Serves base
  outside : h.Serves base.tail
  distinct : base.Nodup
  jumps : ∀ f ∈ Prelude.jumpFunctions, h.Offers base f
  lists : ∀ f ∈ Prelude.listFunctions, h.Offers base.tail f
  passes : ∀ f ∈ Prelude.listFunctions, ∀ x, f.id = some x → h.get x base = h.get x base.tail

theorem Equips.grows {h' : Heap} {touched : List ScopeId} (equips : h.Equips base)
    (grows : Grows touched h h') (apart : ∀ id ∈ base, id ∉ touched) : h'.Equips base := by
  have outer : ∀ id ∈ base.tail, id ∉ touched := fun id member =>
    apart id (List.mem_of_mem_tail member)
  refine ⟨equips.serves.grows grows apart, equips.outside.grows grows outer, equips.distinct,
    fun f member => ?_, fun f member => ?_, fun f member x named => ?_⟩
  · exact (equips.jumps f member).grows equips.serves grows apart
  · exact (equips.lists f member).grows equips.outside grows outer
  · rw [grows.get_eq equips.serves.inside apart, grows.get_eq equips.outside.inside outer]
    exact equips.passes f member x named

theorem Equips.grown {h' : Heap} (equips : h.Equips base) (grows : Grows [] h h') :
    h'.Equips base :=
  equips.grows grows fun _ _ => List.not_mem_nil

end Heap

/-- A program has come to its end, with a result as wanted. -/
def Config.Ends (result : Value → World → Prop) (x : Config) : Prop :=
  ∃ v, x.control = .value v ∧ x.stack.top? = some .halt ∧ result v x.world

theorem Heap.Serves.unspanned (serves : h.Serves base) : h.unspanned.Serves base := by
  refine ⟨serves.inside, fun f => ?_⟩
  rw [show (⟨f.name, {}⟩ : Identifier) = Identifier.unspanned ⟨f.name, {}⟩ from rfl,
    Heap.get_unspanned, serves.get_eq f]
  rfl

theorem Heap.IsListOf.of_unspanned {list : Value} {values : List Value}
    (isList : h.unspanned.IsListOf list values) : h.IsListOf list values := by
  induction isList with
  | nil => exact .nil
  | cons first _ ih => exact .cons first ih

/-- A library offers its functions, without places. -/
theorem Heap.HasLibrary.offers {outer : Env} {library : Program}
    (has : h.HasLibrary id outer library) (plain : f.unspanned = f)
    (declared : ∃ s ∈ library.body, s.alike (.function f) = true) :
    h.unspanned.Offers (id :: outer) f := by
  obtain ⟨s, declared, same⟩ := declared
  obtain ⟨g, rfl, erased⟩ := Stmt.eq_function_of_unspanned (Stmt.unspanned_of_alike same)
  obtain ⟨x, k, named, bound, closure⟩ := has.provides g declared
  have erased := erased.trans plain
  refine ⟨x.unspanned, k, ?_, ?_, ?_⟩
  · rw [← erased, Function.id_unspanned, named]
    rfl
  · rw [Heap.get_unspanned, Heap.get, bound]
    rfl
  · rw [Heap.closure?_unspanned, closure, ← erased]
    rfl

namespace Machine

variable {settings : Settings} {table : Table} {world : World} {text : String} {p : Program}
  {lists jumps : Program} {m s : Machine}

/-- A machine has only the scope of the builtin names. -/
structure IsBare (start : Machine) (id : ScopeId) : Prop where
  outer : start.outer = [id]
  closed : start.IsSealed id
  builtin : ∀ f : Primitive,
    start.world.heap.slot? id f.name = some (.assigned (.builtin f 0) false)

theorem isBare_new (noCaptures : world.heap.continuations = #[]) (distinct : table.names.Nodup)
    (builtins : ∀ f : Primitive, (f.name, .builtin f 0) ∈ table) :
    (Machine.new settings table world).IsBare ⟨world.heap.scopes.size⟩ := by
  refine ⟨rfl, isSealed_new noCaptures, fun f => ?_⟩
  have inside : world.heap.scopes.size < (world.heap.newScope "global" []).2.scopes.size := by
    rw [Heap.newScope, Array.size_push]
    exact Nat.lt_succ_self _
  exact Table.slot?_install distinct (builtins f) inside []

section

variable (bare : start.IsBare id) (gains : start.GainsPreludes lists jumps m)

include bare gains

/-- After the preludes, builtin functions are still found. -/
theorem GainsPreludes.serves (reads : ReadsPreludes lists jumps) (visited : start.Visits m)
    (later : m.Visits s) : s.world.heap.Serves m.outer ∧ s.world.heap.Serves m.outer.tail := by
  have ⟨births, reached⟩ := visited
  have ⟨_, after⟩ := later
  have global := ((bare.closed.reaches reached).reaches after).inside
  have hasLists := gains.listsClosed.hasLibrary later gains.lists
  have hasJumps := gains.jumpsClosed.hasLibrary later gains.jumps
  have builtin (f : Primitive) :
      s.world.heap.slot? id f.name = some (.assigned (.builtin f 0) false) := by
    have bound := bare.builtin f
    exact (bare.closed.slot?_eq (visited.trans later) (by simp [bound])).trans bound
  -- no function of a prelude has the name of a builtin one
  have apart (f : Primitive) : f.name ∉ Prelude.jumpNames ++ Prelude.listNames := fun used =>
    (List.nodup_append.1 Prelude.names_nodup).2.2 _ used _
      (List.mem_map_of_mem (Table.mem_standard f)) rfl
  rw [gains.outer, bare.outer, List.tail_cons]
  have around : s.world.heap.Serves [⟨start.world.heap.scopes.size⟩, id] := by
    refine ⟨?_, fun f => ?_⟩
    · simp only [List.forall_mem_cons, List.not_mem_nil, false_imp_iff, implies_true, and_true]
      exact ⟨(gains.listsClosed.reaches after).inside, global⟩
    · rw [Heap.get_cons_of_none (hasLists.others _ ?_), Heap.get, builtin]
      rw [reads.listNames]
      exact fun list => apart f (List.mem_append_right _ list)
  refine ⟨⟨?_, fun f => ?_⟩, around⟩
  · exact List.forall_mem_cons.2 ⟨(gains.jumpsClosed.reaches after).inside, around.inside⟩
  · rw [Heap.get_cons_of_none (hasJumps.others _ ?_), around.get_eq f]
    rw [reads.jumpNames]
    exact fun jump => apart f (List.mem_append_left _ jump)

theorem GainsPreludes.nodup : m.outer.Nodup := by
  have inside := bare.closed.inside
  rw [gains.outer, bare.outer]
  simp only [List.nodup_cons, List.mem_cons, List.not_mem_nil, or_false, not_or, ScopeId.mk.injEq,
    List.nodup_nil, not_false_eq_true, and_true]
  refine ⟨⟨by omega, ?_⟩, ?_⟩
  all_goals rintro rfl; simp at inside

/-- After the preludes, their functions are found without places. -/
theorem GainsPreludes.equips (reads : ReadsPreludes lists jumps) (visited : start.Visits m)
    (later : m.Visits s) : s.world.heap.unspanned.Equips m.outer := by
  obtain ⟨serves, outside⟩ := gains.serves bare reads visited later
  have hasLists := gains.listsClosed.hasLibrary later gains.lists
  have hasJumps := gains.jumpsClosed.hasLibrary later gains.jumps
  obtain ⟨lists', readLists, -, declaresLists⟩ := Prelude.exists_lists
  obtain ⟨jumps', readJumps, -, declaresJumps⟩ := Prelude.exists_jumps
  obtain rfl : lists = lists' := Except.ok.inj (reads.readLists.symm.trans readLists)
  obtain rfl : jumps = jumps' := Except.ok.inj (reads.readJumps.symm.trans readJumps)
  refine ⟨serves.unspanned, outside.unspanned, gains.nodup bare, fun f member => ?_,
    fun f member => ?_, fun f member x named => ?_⟩
  · rw [gains.outer]
    refine hasJumps.offers ?_ (declaresJumps f member)
    simp only [List.mem_cons, List.not_mem_nil, or_false] at member
    rcases member with rfl | rfl | rfl | rfl <;> rfl
  · rw [gains.outer, List.tail_cons]
    refine hasLists.offers ?_ (declaresLists f member)
    simp only [List.mem_cons, List.not_mem_nil, or_false] at member
    rcases member with rfl | rfl | rfl <;> rfl
  · rw [gains.outer, List.tail_cons]
    refine Heap.get_cons_of_none (h := s.world.heap.unspanned) (hasJumps.others _ ?_) _
    rw [reads.jumpNames]
    simp only [List.mem_cons, List.not_mem_nil, or_false] at member
    rcases member with rfl | rfl | rfl <;> cases named <;> decide

end

/-- A machine without places takes up a program. -/
theorem comes_load_unspanned (serves : m.world.heap.unspanned.Serves m.outer)
    (separate : m.outer.Nodup) (distinct : (declaredNames p.unspanned.body).Nodup)
    (room : p.unspanned.body.length + 1 ≤ m.maxDepth) :
    ∃ h program, Heap.Grows [] m.unspanned.world.heap h ∧
      h.Sees [program] [Named.declared (declaredNames p.unspanned.body)] m.outer ∧
      (m.load p).unspanned.Comes 1 ⟨.ofBody p.unspanned.body, [program] ++ m.outer,
        Stack.initial.pushAll ([program] ++ m.outer) p.unspanned.body.tail,
        m.unspanned.world.withHeap h⟩ := by
  obtain ⟨result, h, hoisted⟩ : ∃ result h, m.unspanned.declareProgram p.unspanned = (result, h) :=
    ⟨_, _, rfl⟩
  obtain ⟨rfl, known⟩ := Heap.Shows.enterBody hoisted distinct
  have grows := Heap.Grows.enterBody hoisted
  have sees : m.unspanned.world.heap.Sees [] [] m.outer := ⟨.nil, serves, separate⟩
  refine ⟨h, ⟨m.world.heap.scopes.size⟩, grows, sees.cons grows le_rfl known, ?_⟩
  rw [load_unspanned]
  refine comes_load hoisted ?_
  show (Stack.initial.pushAll _ p.unspanned.body.tail).depth ≤ m.maxDepth
  rw [Stack.depth_pushAll, List.length_tail]
  show 1 + (p.unspanned.body.length - 1) ≤ m.maxDepth
  omega

end Machine

/-- A new machine, whose table has every builtin function under its own name, has run the preludes
    to their ends. -/
structure Loads (settings : Settings) (table : Table) (world : World) (loaded : Machine) :
    Prop where
  wanted : settings.prelude = true
  noCaptures : world.heap.continuations = #[]
  distinct : table.names.Nodup
  builtins : ∀ f : Primitive, (f.name, .builtin f 0) ∈ table
  ran : (Machine.new settings table world).runPreludes = (.ok (), loaded)

namespace Loads

open Machine

variable {settings : Settings} {table : Table} {world : World} {loaded m : Machine} {text : String}
  {p : Program}

section

variable (loads : Loads settings table world loaded)

include loads

/-- The preludes have had room for sixteen frames. -/
theorem room : 16 ≤ settings.maxDepth := by
  have pending : (Machine.new settings table world).preludePending = true := loads.wanted
  have captures : (Machine.new settings table world).world.heap.continuations = #[] :=
    continuations_new loads.noCaptures
  have limit : (Machine.new settings table world).maxDepth = settings.maxDepth := rfl
  have ran := loads.ran
  -- the rest holds of any machine like this one, and must not evaluate it
  generalize Machine.new settings table world = start at *
  obtain ⟨lists, jumps, reads⟩ := exists_readsPreludes
  obtain ⟨-, -, failed⟩ := reads.runPreludes captures pending
  rw [ran, limit] at failed
  by_contra small
  cases (failed (not_le.1 small)).1

/-- Where the preludes have come to their ends, they are complete. -/
theorem gains :
    ∃ start lists jumps id, start = Machine.new settings table world ∧ IsBare start id ∧
      ReadsPreludes lists jumps ∧ start.Visits loaded ∧ start.GainsPreludes lists jumps loaded := by
  have bare : (Machine.new settings table world).IsBare _ :=
    isBare_new loads.noCaptures loads.distinct loads.builtins
  have pending : (Machine.new settings table world).preludePending = true := loads.wanted
  have captures : (Machine.new settings table world).world.heap.continuations = #[] :=
    continuations_new loads.noCaptures
  have enough : 16 ≤ (Machine.new settings table world).maxDepth := loads.room
  have ran := loads.ran
  generalize Machine.new settings table world = start at *
  obtain ⟨lists, jumps, reads⟩ := exists_readsPreludes
  obtain ⟨prepares, complete, -⟩ := reads.runPreludes captures pending
  have visited : start.Visits start.runPreludes.2 := Visits.runPreludes ⟨[], .refl⟩ prepares
  rw [ran] at visited complete
  exact ⟨start, lists, jumps, _, rfl, bare, reads, visited, (complete enough).2⟩

theorem equips (visited : loaded.Visits m) : m.world.heap.unspanned.Equips loaded.outer := by
  obtain ⟨start, lists, jumps, id, -, bare, reads, before, gains⟩ := loads.gains
  exact gains.equips bare reads before visited

theorem maxDepth_eq : loaded.maxDepth = settings.maxDepth := by
  obtain ⟨start, lists, jumps, id, new, -, -, ⟨births, reached⟩, -⟩ := loads.gains
  rw [reached.maxDepth, new]
  rfl

/-- The preludes write nothing. -/
theorem console_eq : loaded.world.console = world.console := by
  obtain ⟨start, lists, jumps, id, new, -, -, -, gains⟩ := loads.gains
  rw [gains.silent, new]
  rfl

end

/-- The standard table will do, with room for sixteen frames. -/
theorem exists_standard (wanted : settings.prelude = true)
    (noCaptures : world.heap.continuations = #[]) (enough : 16 ≤ settings.maxDepth) :
    ∃ loaded, Loads settings Table.standard world loaded := by
  have distinct : Table.standard.names.Nodup := (List.nodup_append.1 Prelude.names_nodup).2.1
  have pending : (Machine.new settings Table.standard world).preludePending = true := wanted
  have limit : (Machine.new settings Table.standard world).maxDepth = settings.maxDepth := rfl
  have captures : (Machine.new settings Table.standard world).world.heap.continuations = #[] :=
    continuations_new noCaptures
  have complete : (Machine.new settings Table.standard world).runPreludes.1 = .ok () := by
    generalize Machine.new settings Table.standard world = start at *
    obtain ⟨lists, jumps, reads⟩ := exists_readsPreludes
    obtain ⟨-, complete, -⟩ := reads.runPreludes captures pending
    exact (complete (limit ▸ enough)).1
  exact ⟨_, wanted, noCaptures, distinct, Table.mem_standard, Prod.ext complete rfl⟩

theorem eval_eq (loads : Loads settings table world loaded) (read : Program.read text = .ok p)
    (budget : Option Nat) :
    (Machine.new settings table world).eval text budget = (loaded.load p).runWithin budget := by
  have ran := loads.ran
  generalize Machine.new settings table world = start at *
  rw [eval, prepare_eq, ran, read]
  rfl

/-- The first program of a session starts where the functions of the preludes are found. -/
theorem exists_start (loads : Loads settings table world loaded)
    (distinct : (declaredNames p.unspanned.body).Nodup)
    (room : p.unspanned.body.length + 1 ≤ settings.maxDepth) :
    ∃ h program, Heap.Grows [] loaded.world.heap.unspanned h ∧
      h.Sees [program] [Named.declared (declaredNames p.unspanned.body)] loaded.outer ∧
      h.Equips loaded.outer ∧
      (loaded.load p).unspanned.Comes 1 ⟨.ofBody p.unspanned.body, [program] ++ loaded.outer,
        Stack.initial.pushAll ([program] ++ loaded.outer) p.unspanned.body.tail,
        loaded.world.unspanned.withHeap h⟩ := by
  have equips := loads.equips ⟨[], .refl⟩
  obtain ⟨h, program, grows, sees, comes⟩ := comes_load_unspanned equips.serves equips.distinct
    distinct (by rw [loads.maxDepth_eq]; exact room)
  exact ⟨h, program, grows, sees, equips.grown grows, comes⟩

end Loads

namespace Machine

/-- The same for a machine with the standard table. -/
theorem exists_start {settings : Settings} {world : World} {text : String} {p : Program}
    (wanted : settings.prelude = true) (noCaptures : world.heap.continuations = #[])
    (read : Program.read text = .ok p) (distinct : (declaredNames p.unspanned.body).Nodup)
    (enough : 16 ≤ settings.maxDepth) (room : p.unspanned.body.length + 1 ≤ settings.maxDepth) :
    ∃ m : Machine, m.maxDepth = settings.maxDepth ∧
      (∀ budget, (Machine.new settings Table.standard world).eval text budget =
        m.runWithin budget) ∧
      ∃ h program base w,
        h.Sees [program] [Named.declared (declaredNames p.unspanned.body)] base ∧
        (∀ f ∈ Prelude.jumpFunctions, h.Offers base f) ∧
        m.unspanned.Comes 1 ⟨.ofBody p.unspanned.body, [program] ++ base,
          Stack.initial.pushAll ([program] ++ base) p.unspanned.body.tail, World.withHeap w h⟩ := by
  obtain ⟨loaded, loads⟩ := Loads.exists_standard wanted noCaptures enough
  obtain ⟨h, program, -, sees, equips, comes⟩ := loads.exists_start distinct room
  exact ⟨loaded.load p, loads.maxDepth_eq, loads.eval_eq read, h, program, _, _, sees, equips.jumps,
    comes⟩

variable {m : Machine}

/-! ## What comes of a program -/

variable {count : Nat} {x : Config}

/-- A program that has come to its end without places comes to its end. -/
theorem runToEnd_of_ends (comes : m.unspanned.Comes count x) (ends : x.Ends result) :
    ∃ v m', m.runToEnd = (.finished v, m') ∧ result v m'.world.unspanned := by
  obtain ⟨v, control, top, holds⟩ := ends
  obtain ⟨m', ran⟩ := comes.finished control top
  rw [run_unspanned] at ran
  obtain ⟨outcome, final⟩ := Prod.mk.inj ran
  have finished : (m.run (count + 1)).1 = .finished v := by
    cases same : (m.run (count + 1)).1 with
    | finished u => rwa [same] at outcome
    | failed failure => rw [same] at outcome; cases outcome
    | suspended => rw [same] at outcome; cases outcome
  refine ⟨v, (m.run (count + 1)).2, ?_, ?_⟩
  · exact (runToEnd_of_run (Prod.ext finished rfl) (by simp)).2
  · have world : (m.run (count + 1)).2.world.unspanned = x.world := congrArg Machine.world final
    rwa [world]

/-- The same for a program that has still to come there. -/
theorem runToEnd_of_attains (comes : m.unspanned.Comes count x)
    (attains : x.Attains m.maxDepth (Config.Ends result)) :
    ∃ v m', m.runToEnd = (.finished v, m') ∧ result v m'.world.unspanned := by
  obtain ⟨more, y, ends, comes⟩ := attains.comes (m := m.unspanned) comes
  exact runToEnd_of_ends comes ends

/-- A program that fails without places fails somewhere. -/
theorem runToEnd_of_attains_fault (fault : Fault) (comes : m.unspanned.Comes count x)
    (attains : x.Attains m.maxDepth fun y => ∃ y', y.Fails fault y') :
    ∃ span, m.runToEnd.1 = .failed (.fault ⟨fault.cause, span⟩) := by
  obtain ⟨more, y, ⟨y', fails⟩, comes⟩ := attains.comes (m := m.unspanned) comes
  obtain ⟨m', ran, -⟩ := comes.failed fails
  rw [run_unspanned] at ran
  have outcome : (m.run (count + more + 1)).1.unspanned = .failed (.fault fault) :=
    congrArg Prod.fst ran
  have failed : ∃ span, (m.run (count + more + 1)).1 = .failed (.fault ⟨fault.cause, span⟩) := by
    cases same : (m.run (count + more + 1)).1 with
    | finished u => rw [same] at outcome; cases outcome
    | suspended => rw [same] at outcome; cases outcome
    | failed failure =>
      rw [same] at outcome
      cases failure with
      | fault f =>
        cases outcome
        exact ⟨f.span, rfl⟩
      | _ => cases outcome
  obtain ⟨span, failed⟩ := failed
  exact ⟨span, congrArg Prod.fst (runToEnd_of_run (Prod.ext failed rfl) (by simp)).2⟩

/-- A program that makes ever more steps without places does not come to its end. -/
theorem run_of_endless (endless : ∀ n, ∃ count, n ≤ count ∧ ∃ x, m.unspanned.Comes count x)
    (budget : Nat) : (m.run budget).1 = .suspended := by
  obtain ⟨count, more, x, comes⟩ := endless budget
  obtain ⟨m', ran⟩ := comes.run_eq
  by_contra ended
  rw [run_unspanned, run_of_le ended more] at ran
  have outcome : (m.run budget).1.unspanned = .suspended := congrArg Prod.fst ran
  cases same : (m.run budget).1 with
  | suspended => exact ended same
  | _ => rw [same] at outcome; cases outcome

/-- A program that comes to some place, and from there to such a place again after a step or more,
    does not come to its end. -/
theorem run_of_recurring {place : Config → Prop} (comes : m.unspanned.Comes count x)
    (attains : x.Attains m.maxDepth place)
    (recurs : ∀ y, place y → ∃ z, y.Steps z ∧ z.stack.depth ≤ m.maxDepth ∧
      z.Attains m.maxDepth place) (budget : Nat) : (m.run budget).1 = .suspended := by
  have often (n : Nat) : ∃ count y, n ≤ count ∧ place y ∧ m.unspanned.Comes count y := by
    induction n with
    | zero =>
      obtain ⟨more, y, there, comes⟩ := attains.comes (m := m.unspanned) comes
      exact ⟨count + more, y, Nat.zero_le _, there, comes⟩
    | succ n ih =>
      obtain ⟨count, y, many, there, comes⟩ := ih
      obtain ⟨z, first, fits, attains⟩ := recurs y there
      obtain ⟨more, y', there', comes'⟩ :=
        attains.comes (m := m.unspanned) (comes.step first fits)
      exact ⟨count + 1 + more, y', by omega, there', comes'⟩
  refine run_of_endless (fun n => ?_) budget
  obtain ⟨count, y, many, -, comes⟩ := often n
  exact ⟨count, many, y, comes⟩

end Machine

end SourceMachine
