import SourceMachine.Proofs.Machine.ListGenerator
import SourceMachine.Proofs.Session.Served

/-!
# Asking a generator for the elements of a list

The constants are `r1`, `r2` and so on, and the program that asks for them has a text.  Evaluated
on a new machine, it comes to the list of the first elements if there are enough of them.  With
one constant more than there are elements it comes to the list of `null` where there are no
elements, and to no list otherwise (`calls_of_a_list_generator`).
-/

namespace SourceMachine

open Config Heap Sketch

namespace ListGenerator

/-! ## Names for the constants -/

theorem toList_numbered (n : Nat) : ("r" ++ n.repr).toList = 'r' :: Nat.toDigits 10 n := by
  rw [String.toList_append, Nat.toList_repr]
  rfl

theorem isDigit_of_mem {n : Nat} {c : Char} (member : c ∈ Nat.toDigits 10 n) : c.isDigit = true :=
  Nat.isDigit_of_mem_toDigits (by decide) (by decide) member

/-- The name of a constant, by its place: `r1`, `r2` and so on. -/
def result (i : Nat) : Name where
  text := "r" ++ (i + 1).repr
  spelled := by
    rw [toList_numbered, isName, Bool.and_eq_true, List.all_eq_true]
    refine ⟨by decide, fun c member => ?_⟩
    simp [isIdentifierRest, isDigit_of_mem member]
  free := by
    -- every reserved word has a letter after its first one
    have letters : ∀ k ∈ Keyword.all, ¬k.text.toList.tail.all Char.isDigit := by decide
    rw [Keyword.ofText?, List.find?_eq_none]
    intro k member same
    refine letters k member ?_
    rw [of_decide_eq_true same, toList_numbered, List.tail_cons, List.all_eq_true]
    exact fun c member => isDigit_of_mem member

/-- The names of so many constants. -/
def resultNames (count : Nat) : List String :=
  (List.range count).map fun i => (result i).text

theorem length_resultNames (count : Nat) : (resultNames count).length = count := by
  rw [resultNames, List.length_map, List.length_range]

theorem nodup_resultNames (count : Nat) : (resultNames count).Nodup := by
  refine List.nodup_range.map fun i j same => ?_
  have digits := congrArg String.toList same
  simp only [result, toList_numbered, List.cons.injEq, true_and, ← Nat.toList_repr] at digits
  exact Nat.succ.inj (Nat.repr_inj.1 (String.toList_inj.1 digits))

theorem resultNames_free (count : Nat) : ∀ x ∈ resultNames count, x ∉ taken := by
  have initials : ∀ x ∈ taken, x.toList.head? ≠ some 'r' := by decide
  intro x member used
  obtain ⟨i, -, rfl⟩ := List.mem_map.1 member
  refine initials _ used ?_
  rw [result, toList_numbered]
  rfl

theorem declaredNames_source (texts names : List String) :
    declaredNames (source texts names) = "walk_list" :: "g" :: names := by
  have asked : declaredNames (asks names) = names := by
    rw [declaredNames, List.filterMap_map]
    exact (List.filterMap_congr fun _ _ => rfl).trans List.filterMap_some
  show "walk_list" :: "g" :: declaredNames (asks names ++ [lists names]) = _
  rw [declaredNames, List.filterMap_append]
  exact congrArg ("walk_list" :: "g" :: ·) ((List.append_nil _).trans asked)

/-! ## A text of the program -/

/-- A text of the program, word by word. -/
def outline (texts : List String) (names : List Name) : List Outline.Stmt :=
  let xs : Name := ⟨"xs", by decide, by decide⟩
  let yld := Outline.yieldName
  let walk : Name := ⟨"walk_list", by decide, by decide⟩
  let g : Name := ⟨"g", by decide, by decide⟩
  let list : Outline.Expr := .identifier Outline.listName
  .function walk ⟨[yld, xs], none, by decide⟩
    [.conditional (.call (.identifier ⟨"is_null", by decide, by decide⟩) [.identifier xs])
      [.returnsValue .null]
      (.block [.expression (.call (.identifier yld)
          [.call (.identifier ⟨"head", by decide, by decide⟩) [.identifier xs]]),
        .returnsValue (.call (.identifier walk) [.identifier yld,
          .call (.identifier ⟨"tail", by decide, by decide⟩) [.identifier xs]])])] ::
    .declaration .constKind g (.call (.identifier ⟨"make_generator", by decide, by decide⟩)
      [.call list (texts.map .string), .identifier walk]) ::
      ((names.map fun x => .declaration .constKind x (.call (.identifier g) [])) ++
        [.expression (.call list (names.map .identifier))])

theorem exists_text (texts : List String) (names : List Name) :
    ∃ text p, Program.read text = .ok p ∧
      p.unspanned.body = source texts (names.map Name.text) := by
  have small : Outline.Stmt.nestingOfAll (outline texts names) ≤ maxNesting := by
    have strings := Outline.nesting_strings texts
    have identifiers : Outline.Expr.nestingOfAll (names.map .identifier) ≤ 2 := by
      rw [Outline.Expr.nestingOfAll_le_iff]
      intro e member
      obtain ⟨x, -, rfl⟩ := List.mem_map.1 member
      exact le_rfl
    rw [outline, Outline.Stmt.nestingOfAll_le_iff]
    simp only [List.mem_cons, List.mem_append, List.mem_map, List.not_mem_nil, or_false]
    rintro s (rfl | rfl | ⟨x, -, rfl⟩ | rfl)
    all_goals simp only [Outline.Stmt.nesting, Outline.Else.nesting, Outline.conditionalNesting,
      Outline.Stmt.nestingOfAll, Outline.Expr.nesting, Outline.Expr.nestingOfAll, maxNesting]
    all_goals omega
  obtain ⟨text, p, read, same⟩ := Outline.exists_program small
  refine ⟨text, p, read, ?_⟩
  rw [same]
  simp only [outline, source, asks, lists, Outline.program, Outline.Stmt.trees_eq_map,
    Outline.Expr.trees_eq_map, List.map_cons, List.map_append, List.map_map, List.map_nil,
    Outline.Stmt.tree, Outline.Expr.tree]
  rfl

/-- Two names and others, and a last one. -/
theorem exists_resultNames (count : Nat) :
    ∃ todo z, todo.length = count ∧ resultNames (count + 3) = "r1" :: ("r2" :: todo ++ [z]) := by
  refine ⟨(List.range count).map fun i => (result (i + 2)).text, (result (count + 2)).text, ?_, ?_⟩
  · rw [List.length_map, List.length_range]
  · rw [resultNames, List.range_succ, List.map_append, List.range_succ_eq_map,
      List.range_succ_eq_map]
    simp only [List.map_cons, List.map_map, List.cons_append]
    rfl

/-! ## Evaluating the program -/

variable (settings : Settings) (world : World) {texts : List String} {count : Nat} {text : String}
  {p : Program}

/-- An evaluation comes to a list of values. -/
def ComesToList (m : Machine) (text : String) (values : List Value) : Prop :=
  ∃ v m', m.eval text none = (.finished v, m') ∧ m'.world.heap.IsListOf v values

section

variable (wanted : settings.prelude = true) (noCaptures : world.heap.continuations = #[])
  (room : 2 * count + 16 ≤ settings.maxDepth) (read : Program.read text = .ok p)
  (written : p.unspanned.body = source texts (resultNames count))

include wanted noCaptures room read written

/-- The program comes to a machine that can be followed, where it starts to ask. -/
theorem exists_asking :
    ∃ m : Machine, m.maxDepth = settings.maxDepth ∧
      (∀ budget, (Machine.new settings Table.standard world).eval text budget =
        m.runWithin budget) ∧
      ∃ x, m.unspanned.Comes 1 x ∧ ∀ goal : Config → Prop,
        (∀ (t : ListGenerator) h entries w, t.Stands h entries .null →
          t.generator.walk = .closure t.walk →
          h.IsListOf t.generator.data (texts.map .string) →
          Results entries [] [] (resultNames count) →
          Attains settings.maxDepth goal ⟨.value .undefined, t.env,
            (Stack.initial.push (.exec (lists (resultNames count)) t.env)).pushAll t.env
              (asks (resultNames count)), World.withHeap w h⟩) →
        Attains settings.maxDepth goal x := by
  have counted := length_resultNames count
  have free := resultNames_free count
  have declared := declaredNames_source texts (resultNames count)
  have distinct : (declaredNames (source texts (resultNames count))).Nodup := by
    have apart {x : String} (used : x ∈ taken) : x ∉ resultNames count :=
      fun member => free x member used
    rw [declared, List.nodup_cons, List.nodup_cons, List.mem_cons, not_or]
    exact ⟨⟨by decide, apart (by decide)⟩, apart (by decide), nodup_resultNames count⟩
  have length : (source texts (resultNames count)).length = count + 3 := by
    simp [source, counted]
  obtain ⟨m, limit, evaluated, h, program, base, w, sees, offers, comes⟩ :=
    Machine.exists_start wanted noCaptures read (written ▸ distinct) (by omega)
      (by rw [written, length]; omega)
  rw [written] at sees comes
  rw [declared] at sees
  obtain ⟨_, f, named, offered, closure⟩ := offers Prelude.makeGenerator (by simp)
  cases named
  have depth : Stack.initial.depth = 1 := rfl
  refine ⟨m, limit, evaluated, _, comes, fun goal onwards => ?_⟩
  refine prepares sees offered closure free (by omega) ?_
  intro t h' entries stands walk list results
  exact onwards t h' entries w stands walk list results

/-- What an evaluation of the program comes to. -/
theorem eval_source :
    let start := Machine.new settings Table.standard world
    (count ≤ texts.length → ComesToList start text ((texts.take count).map .string)) ∧
      (count = texts.length + 1 →
        (texts.length = 0 → ComesToList start text [.null]) ∧
        (texts.length = 1 → ∀ budget, (start.eval text (some budget)).1 = .suspended) ∧
        (2 ≤ texts.length →
          ∃ span, (start.eval text none).1 = .failed (.fault ⟨.redeclared "r2" false, span⟩))) := by
  intro start
  obtain ⟨m, limit, evaluated, x, comes, asking⟩ :=
    exists_asking settings world wanted noCaptures room read written
  -- what is left depends on the program only from where it starts to ask
  rw [← limit] at room asking
  have counted := length_resultNames count
  have distinct := nodup_resultNames count
  have free := resultNames_free count
  have depth : Stack.initial.depth = 1 := rfl
  have height (f : Frame) : (Stack.initial.push f).depth = 2 := rfl
  have comesToList {values : List Value}
      (ends : Attains m.maxDepth (Ends fun v w => w.heap.IsListOf v values) x) :
      ComesToList start text values := by
    obtain ⟨v, m', ran, isList⟩ := Machine.runToEnd_of_attains comes ends
    exact ⟨v, m', (evaluated none).trans ran, isList.of_unspanned⟩
  refine ⟨fun enough => comesToList (asking _ ?_), fun one => ⟨?_, ?_, ?_⟩⟩
  · intro t h entries w stands walk list results
    rw [← List.take_append_drop count texts, List.map_append] at list
    refine stands.enumerates walk list ?_ results distinct free (by omega) ?_
    · rw [counted, List.length_map, List.length_take]
      omega
    · exact fun h' _ v isList => .here ⟨v, rfl, rfl, isList⟩
  · intro none
    obtain rfl : texts = [] := List.length_eq_zero_iff.1 none
    have names : resultNames count = [(result 0).text] := by rw [one]; rfl
    rw [names] at asking free
    refine comesToList (asking _ fun t h entries w stands walk list results => ?_)
    refine stands.without_elements walk list results (free _ List.mem_cons_self) (by omega) ?_
    exact fun h' _ v isList => .here ⟨v, rfl, rfl, isList⟩
  · intro single budget
    obtain ⟨s, rfl⟩ := List.length_eq_one_iff.1 single
    have names : resultNames count = [(result 0).text, (result 1).text] := by rw [one]; rfl
    rw [names] at asking free distinct
    have free := free _ List.mem_cons_self
    have loops : Attains m.maxDepth (Loops m.maxDepth (fun env => Stack.initial.push
        (.exec (lists [(result 0).text, (result 1).text]) env)) _ _) x :=
      asking _ fun t h entries w stands walk list results =>
        stands.loops walk list results distinct free (by rw [height]; omega)
    exact (congrArg Prod.fst (evaluated (some budget))).trans
      (Machine.run_of_recurring comes loops (fun _ loops => loops.again distinct free) budget)
  · intro some
    obtain ⟨k, more⟩ : ∃ k, texts.length = k + 2 := ⟨texts.length - 2, by omega⟩
    obtain ⟨s, others, rfl⟩ := List.exists_cons_of_length_eq_add_one more
    obtain ⟨todo, z, length, names⟩ := exists_resultNames k
    rw [List.length_cons] at more one
    rw [show count = k + 3 by omega, names] at asking free distinct
    have ran : (start.eval text none).1 = m.runToEnd.1 := congrArg Prod.fst (evaluated none)
    rw [ran]
    refine Machine.runToEnd_of_attains_fault ⟨.redeclared "r2" false, {}⟩ comes (asking _ ?_)
    intro t h entries w stands walk list results
    refine stands.redeclares walk list ?_ results distinct (fun y member => free y ?_)
      (by rw [height]; omega)
    · rw [List.length_map, List.length_cons]
      omega
    · simp only [List.mem_cons, List.cons_append, List.mem_append] at member ⊢
      tauto

end

/-- **Calls of a generator for a list.**  The program asks a generator for the elements of a list
    of strings for so many constants, and lists the constants.  As long as there are no more
    constants than elements, it comes to the list of the first elements.  One call more completes
    the declaration of the first constant again, with `null`.  So the program comes to the list of
    `null` if there are no elements; it goes on forever if there is one; and it fails if there are
    more, since the second constant is declared a second time. -/
theorem calls_of_a_list_generator (texts : List String) (count : Nat)
    (wanted : settings.prelude = true) (noCaptures : world.heap.continuations = #[])
    (room : 2 * count + 16 ≤ settings.maxDepth) :
    (∃ text p, Program.read text = .ok p ∧
      p.unspanned.body = source texts (resultNames count)) ∧
      ∀ text p, Program.read text = .ok p →
        p.unspanned.body = source texts (resultNames count) →
        let start := Machine.new settings Table.standard world
        (count ≤ texts.length → ComesToList start text ((texts.take count).map .string)) ∧
          (count = texts.length + 1 →
            (texts.length = 0 → ComesToList start text [.null]) ∧
            (texts.length = 1 → ∀ budget, (start.eval text (some budget)).1 = .suspended) ∧
            (2 ≤ texts.length → ∃ span, (start.eval text none).1 =
              .failed (.fault ⟨.redeclared "r2" false, span⟩))) := by
  refine ⟨?_, fun _ _ read written =>
    eval_source settings world wanted noCaptures room read written⟩
  obtain ⟨text, p, read, written⟩ := exists_text texts ((List.range count).map result)
  rw [List.map_map] at written
  exact ⟨text, p, read, written⟩

/-- The same for a program that asks for the two elements that there are. -/
theorem calls_of_a_list_generator_for_two :
    let text := "function walk_list(yld, xs) \x7b if (is_null(xs)) \x7b return null; \x7d " ++
      "else \x7b yld(head(xs)); return walk_list(yld, tail(xs)); \x7d \x7d " ++
      "const g = make_generator(list('a', 'b'), walk_list); " ++
      "const r1 = g(); const r2 = g(); list(r1, r2);"
    (∃ p, Program.read text = .ok p ∧ p.unspanned.body = source ["a", "b"] (resultNames 2)) ∧
      ComesToList (Machine.new {} Table.standard {}) text [.string "a", .string "b"] := by
  intro text
  obtain ⟨p, read, written⟩ := Program.exists_alike (by decide +kernel :
    ∃ p ∈ (Program.read text).toOption,
      Stmt.alikeAll p.body (source ["a", "b"] (resultNames 2)) = true)
  have answers := (calls_of_a_list_generator {} {} ["a", "b"] 2 rfl rfl (by decide)).2 text p read
    written
  exact ⟨⟨p, read, written⟩, answers.1 (by decide)⟩

/-- A call more than there are elements does not come to `null`. -/
theorem third_call_redeclares :
    let text := "function walk_list(yld, xs) \x7b if (is_null(xs)) \x7b return null; \x7d " ++
      "else \x7b yld(head(xs)); return walk_list(yld, tail(xs)); \x7d \x7d " ++
      "const g = make_generator(list('a', 'b'), walk_list); " ++
      "const r1 = g(); const r2 = g(); const r3 = g(); list(r1, r2, r3);"
    (∃ p, Program.read text = .ok p ∧ p.unspanned.body = source ["a", "b"] (resultNames 3)) ∧
      ∃ span, ((Machine.new {} Table.standard {}).eval text none).1 =
        .failed (.fault ⟨.redeclared "r2" false, span⟩) := by
  intro text
  obtain ⟨p, read, written⟩ := Program.exists_alike (by decide +kernel :
    ∃ p ∈ (Program.read text).toOption,
      Stmt.alikeAll p.body (source ["a", "b"] (resultNames 3)) = true)
  have written : p.unspanned.body = source ["a", "b"] (resultNames 3) := written
  obtain ⟨-, overrun⟩ := eval_source {} {} rfl rfl (by decide) read written
  exact ⟨⟨p, read, written⟩, (overrun rfl).2.2 (by decide)⟩

end ListGenerator

end SourceMachine
