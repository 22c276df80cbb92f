import SourceMachine.Proofs.Machine.ListFunctions
import SourceMachine.Proofs.Session.Calls

/-!
# The library of lists

What `append`, `reverse` and `equal` do at any time of a session, on the stack of the call and
with the places in all programs: each of them comes back to that very stack.  Pairs, bindings and
the console are as they were, and the lists that are built are of new pairs.
-/

namespace SourceMachine

open Config Heap Sketch

namespace Heap

variable {h h' : Heap} {v r last : Value} {vs : List Value}

theorem IsListOf.unspanned (list : h.IsListOf v vs) : h.unspanned.IsListOf v vs := by
  induction list with
  | nil => exact .nil
  | cons first _ ih => exact .cons first ih

theorem Builds.of_unspanned (built : Builds h.unspanned h'.unspanned r vs last) :
    Builds h h' r vs last := by
  obtain ⟨ids, distinct, fresh, chain⟩ := built
  refine ⟨ids, distinct, fresh, ?_⟩
  clear fresh distinct
  induction chain with
  | nil last => exact .nil last
  | cons first _ ih => exact .cons first ih

theorem Holds.unspanned {d : Data} (holds : h.Holds v d) : h.unspanned.Holds v d := by
  induction holds with
  | undefined => exact .undefined
  | null => exact .null
  | boolean b => exact .boolean b
  | string text => exact .string text
  | pair there _ _ first second => exact .pair there first second

end Heap

variable {settings : Settings} {table : Table} {world : World} {loaded m : Machine}

/-- A function of the library is found at any time, and what it needs with it. -/
theorem Loads.exists_list (loads : Loads settings table world loaded) (visited : loaded.Visits m)
    (fn : Function) (member : fn ∈ Prelude.listFunctions) {x : String}
    (named : fn.id = some ⟨x, {}⟩) : ∃ f, m.world.heap.get ⟨x, {}⟩ loaded.outer = .ok (.closure f) ∧
      m.world.heap.unspanned.closure? f = some ⟨fn, loaded.outer.tail⟩ ∧
      m.world.heap.unspanned.Offers loaded.outer.tail fn ∧
      m.world.heap.unspanned.Sees [] [] loaded.outer.tail := by
  have equips := loads.equips visited
  have offers := equips.lists fn member
  obtain ⟨y, f, same, found, closure⟩ := offers
  cases named.symm.trans same
  refine ⟨f, get_of_unspanned ?_, closure, equips.lists fn member, .nil, equips.outside, ?_⟩
  · rw [equips.passes fn member _ named, found]
  · exact equips.distinct.sublist (List.tail_sublist _)

/-- **Lists are built of new pairs.**  For a list, `append` comes back with a list of new pairs that
    has the same elements and ends in the other value, and `reverse` with one that has them the
    other way around.  Nothing that was there is changed. -/
theorem append_and_reverse_build_lists (loads : Loads settings table world loaded)
    (visited : loaded.Visits m) {xs : Value} {vs : List Value}
    (list : m.world.heap.IsListOf xs vs) :
    (∃ append, m.world.heap.get ⟨"append", {}⟩ loaded.outer = .ok append ∧
      ∀ ys env stack, m.Applies append [xs, ys] env stack →
        m.HasRoom (stack.depth + (2 * vs.length + 4)) →
        ∃ r m', m.ComesTo r stack m' ∧ Builds m.world.heap m'.world.heap r vs ys ∧
          m.world.Spares m'.world) ∧
      ∃ reverse, m.world.heap.get ⟨"reverse", {}⟩ loaded.outer = .ok reverse ∧
        ∀ env stack, m.Applies reverse [xs] env stack →
          m.HasRoom (stack.depth + (vs.length + 5)) →
          ∃ r m', m.ComesTo r stack m' ∧ Builds m.world.heap m'.world.heap r vs.reverse .null ∧
            m.world.Spares m'.world := by
  have list := list.unspanned
  constructor
  · obtain ⟨f, found, closure, offers, sees⟩ :=
      loads.exists_list visited Prelude.append (by simp) rfl
    refine ⟨.closure f, found, fun ys env stack applies room => ?_⟩
    obtain ⟨r, m', comes, built, spares⟩ := Machine.exists_comesTo ["xs", "ys"]
      (fun r h => Builds m.world.heap.unspanned h r vs ys) applies closure rfl rfl sees
      (Nat.le_add_right _ _) room fun h call k goal grows sees' onwards =>
        ListFunctions.append_body sees' (offers.grown sees.serves grows) (list.grows grows) le_rfl
          fun h' r env' grows' built => onwards h' r env' grows' (built.since grows)
    exact ⟨r, m', comes, built.of_unspanned, spares⟩
  · obtain ⟨f, found, closure, offers, sees⟩ :=
      loads.exists_list visited Prelude.reverse (by simp) rfl
    refine ⟨.closure f, found, fun env stack applies room => ?_⟩
    obtain ⟨r, m', comes, built, spares⟩ := Machine.exists_comesTo ["xs"]
      (fun r h => Builds m.world.heap.unspanned h r vs.reverse .null) applies closure rfl rfl sees
      (Nat.le_add_right _ _) room fun h call k goal grows sees' onwards =>
        ListFunctions.reverse_body sees' (list.grows grows) le_rfl
          fun h' r env' grows' built => onwards h' r env' grows' (built.since grows)
    exact ⟨r, m', comes, built.of_unspanned, spares⟩

/-- The same for a program that appends to a list of two strings, and one that reverses it. -/
theorem append_and_reverse_build_lists_of_two :
    ∃ loaded : Machine, Loads {} Table.standard {} loaded ∧
      (∃ m append xs env stack, loaded.Visits m ∧
        m.world.heap.get ⟨"append", {}⟩ loaded.outer = .ok append ∧
        m.world.heap.IsListOf xs [.string "a", .string "b"] ∧
        m.Applies append [xs, .string "c"] env stack ∧
        ∃ r m', m.ComesTo r stack m' ∧
          Builds m.world.heap m'.world.heap r [.string "a", .string "b"] (.string "c") ∧
          m.world.Spares m'.world) ∧
      ∃ m reverse xs env stack, loaded.Visits m ∧
        m.world.heap.get ⟨"reverse", {}⟩ loaded.outer = .ok reverse ∧
        m.world.heap.IsListOf xs [.string "a", .string "b"] ∧
        m.Applies reverse [xs] env stack ∧
        ∃ r m', m.ComesTo r stack m' ∧
          Builds m.world.heap m'.world.heap r [.string "b", .string "a"] .null ∧
          m.world.Spares m'.world := by
  obtain ⟨loaded, loads⟩ : ∃ loaded, Loads {} Table.standard {} loaded :=
    Loads.exists_standard rfl rfl (by decide)
  refine ⟨loaded, loads, ?_, ?_⟩
  · obtain ⟨p, read, written⟩ := Program.exists_alike (by decide +kernel :
      ∃ p ∈ (Program.read "append(list('a', 'b'), 'c');").toOption, Stmt.alikeAll p.body
        [run (call "append" [call "list" [string "a", string "b"], string "c"])] = true)
    obtain ⟨f, found, -⟩ := loads.exists_list ⟨[], .refl⟩ Prelude.append (by simp) rfl
    obtain ⟨m, _, env, stack, visited, limit, found, applies, shallow, xs, rfl, list⟩ :=
      loads.exists_applies 1 (fun args h => ∃ xs, args = [xs, .string "c"] ∧
        h.IsListOf xs [.string "a", .string "b"]) read written found (by decide)
        fun h program sees => ⟨_, _, .newList h _, .cons (.list sees rfl (.strings ["a", "b"]))
          (.cons (.literal (.string "c")) .nil), _, rfl, .newList h _⟩
    obtain ⟨append, same, answers⟩ :=
      (append_and_reverse_build_lists loads visited list.of_unspanned).1
    cases found.symm.trans same
    refine ⟨m, _, xs, env, stack, visited, found, list.of_unspanned, applies,
      answers _ env stack applies (.inr ?_)⟩
    rw [shallow, limit]
    decide
  · obtain ⟨p, read, written⟩ := Program.exists_alike (by decide +kernel :
      ∃ p ∈ (Program.read "reverse(list('a', 'b'));").toOption, Stmt.alikeAll p.body
        [run (call "reverse" [call "list" [string "a", string "b"]])] = true)
    obtain ⟨f, found, -⟩ := loads.exists_list ⟨[], .refl⟩ Prelude.reverse (by simp) rfl
    obtain ⟨m, _, env, stack, visited, limit, found, applies, shallow, xs, rfl, list⟩ :=
      loads.exists_applies 1 (fun args h => ∃ xs, args = [xs] ∧
        h.IsListOf xs [.string "a", .string "b"]) read written found (by decide)
        fun h program sees => ⟨_, _, .newList h _, .cons (.list sees rfl (.strings ["a", "b"]))
          .nil, _, rfl, .newList h _⟩
    obtain ⟨reverse, same, answers⟩ :=
      (append_and_reverse_build_lists loads visited list.of_unspanned).2
    cases found.symm.trans same
    refine ⟨m, _, xs, env, stack, visited, found, list.of_unspanned, applies,
      answers env stack applies (.inr ?_)⟩
    rw [shallow, limit]
    decide

/-- **Structural equality.**  For values without numbers and functions, `equal` comes back with
    whether they are data of the same shape with the same leaves. -/
theorem equal_decides_same_data (loads : Loads settings table world loaded)
    (visited : loaded.Visits m) :
    ∃ equal, m.world.heap.get ⟨"equal", {}⟩ loaded.outer = .ok equal ∧
      ∀ {xs ys : Value} {d e : Data}, m.world.heap.Holds xs d → m.world.heap.Holds ys e →
        ∀ env stack, m.Applies equal [xs, ys] env stack →
          m.HasRoom (stack.depth + (2 * d.depth + 4)) →
          ∃ m', m.ComesTo (.boolean (decide (d = e))) stack m' ∧ m.world.Spares m'.world := by
  obtain ⟨f, found, closure, offers, sees⟩ :=
    loads.exists_list visited Prelude.equal (by simp) rfl
  refine ⟨.closure f, found, fun {xs ys d e} left right env stack applies room => ?_⟩
  obtain ⟨_, m', comes, rfl, spares⟩ := Machine.exists_comesTo ["xs", "ys"]
    (fun r _ => r = .boolean (decide (d = e))) applies closure rfl rfl sees
    (Nat.le_add_right _ _) room fun h call k goal grows sees' onwards =>
      ListFunctions.equal_body sees' (left.unspanned.grows grows) (right.unspanned.grows grows)
        (fun h' env' grows' => onwards h' _ env' grows' rfl) (offers.grown sees.serves grows) le_rfl
  exact ⟨m', comes, spares⟩

/-- The same for a program that compares two lists of other pairs with the same element. -/
theorem equal_decides_same_data_of_two :
    ∃ (loaded m : Machine) (equal xs ys : Value) (env : Env) (stack : Stack),
      Loads {} Table.standard {} loaded ∧ loaded.Visits m ∧
      m.world.heap.get ⟨"equal", {}⟩ loaded.outer = .ok equal ∧
      m.world.heap.Holds xs (.pair (.string "a") .null) ∧
      m.world.heap.Holds ys (.pair (.string "a") .null) ∧ xs ≠ ys ∧
      m.Applies equal [xs, ys] env stack ∧
      ∃ m', m.ComesTo (.boolean true) stack m' ∧ m.world.Spares m'.world := by
  obtain ⟨loaded, loads⟩ : ∃ loaded, Loads {} Table.standard {} loaded :=
    Loads.exists_standard rfl rfl (by decide)
  obtain ⟨p, read, written⟩ := Program.exists_alike (by decide +kernel :
    ∃ p ∈ (Program.read "equal(pair('a', null), pair('a', null));").toOption, Stmt.alikeAll p.body
      [run (call "equal" [call "pair" [string "a", null], call "pair" [string "a", null]])] = true)
  obtain ⟨f, found, -⟩ := loads.exists_list ⟨[], .refl⟩ Prelude.equal (by simp) rfl
  obtain ⟨m, _, env, stack, visited, limit, found, applies, shallow, id, rfl, first, second⟩ :=
    loads.exists_applies 1 (fun args h => ∃ id, args = [.pair ⟨id⟩, .pair ⟨id + 1⟩] ∧
      h.pair? ⟨id⟩ = some (.string "a", .null) ∧ h.pair? ⟨id + 1⟩ = some (.string "a", .null))
      read written found (by decide) (by
        intro h program sees
        have grows := Grows.newPair h (.string "a") .null
        have later := Grows.newPair (h.newPair (.string "a") .null).2 (.string "a") .null
        have size : (h.newPair (.string "a") .null).2.pairs.size = h.pairs.size + 1 :=
          Array.size_push _
        have parts (h : Heap) : GivesAll ([program] ++ loaded.outer) 0 h [string "a", null]
            [.string "a", .null] h :=
          .cons (.literal (.string "a")) (.cons (.literal .null) .nil)
        refine ⟨_, _, grows.trans later, .cons (.library sees .pair rfl (parts h) rfl
          (Native.call_pair _ _ h)) (.cons (.library (sees.grown grows) .pair rfl (parts _) rfl
            (Native.call_pair _ _ _)) .nil), h.pairs.size, ?_, ?_, ?_⟩
        · rw [← size]
          rfl
        · exact later.pairs Array.getElem?_push_size
        · rw [← size]
          exact Array.getElem?_push_size)
  have left : m.world.heap.Holds (.pair ⟨id⟩) _ := .pair first (.string "a") .null
  have right : m.world.heap.Holds (.pair ⟨id + 1⟩) _ := .pair second (.string "a") .null
  obtain ⟨equal, same, answers⟩ := equal_decides_same_data loads visited
  cases found.symm.trans same
  refine ⟨loaded, m, _, _, _, env, stack, loads, visited, found, left, right, by simp, applies,
    answers left right env stack applies (.inr ?_)⟩
  rw [shallow, limit]
  decide

end SourceMachine
