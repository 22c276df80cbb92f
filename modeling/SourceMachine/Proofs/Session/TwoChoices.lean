import SourceMachine.Proofs.Machine.Search
import SourceMachine.Proofs.Session.Served

/-!
# A search with two choices

Two choices are made one after the other, each declared as a constant, and then a condition is
asserted of both.  When the condition fails, the second choice is made once more, and its
declaration is completed again without being started again.  Only when the second choice has
nothing left is the first one made once more; then the declaration of the second one is started
again, in a scope where its name has a value, and this is refused.

So all second choices are tried with the first of the first ones, and with no other one unless
there is nothing to choose second (`search_with_two_choices`).
-/

namespace SourceMachine

open Config Heap Sketch

namespace TwoChoices

/-- What is asserted of the two choices. -/
abbrev condition (a b : String) : Expr :=
  both (equal (name "x") (string a)) (equal (name "y") (string b))

/-- The declaration of the second choice. -/
abbrev second (ys : List String) : Stmt :=
  constant "y" (call "amb" [call "list" (ys.map string)])

/-- What is done with the two choices. -/
abbrev rest (a b : String) : List Stmt :=
  [run (call "assert" [.function (arrow [] [returns (condition a b)])]),
    returns (sum (name "x") (name "y"))]

/-- A search with two choices, one after the other. -/
def body (xs ys : List String) (a b : String) : List Stmt :=
  constant "x" (call "amb" [call "list" (xs.map string)]) :: second ys :: rest a b

/-- The program that makes the search. -/
def source (xs ys : List String) (a b : String) : List Stmt :=
  [run (call "logic" [.function (arrow ["amb", "assert"] (body xs ys a b))])]

end TwoChoices

/-- Where things are that a search with two choices works with. -/
structure TwoChoices where
  block : ScopeId
  call : ScopeId
  program : ScopeId
  home : ContinuationId
  caller : Env
  stack : Stack

namespace TwoChoices

variable {t : TwoChoices} {s : Search} {p q : Point} {a b u v : String} {xs ys : List String}
  {limit : Nat} {goal : Config → Prop} {w : World} {h h' : Heap} {inner : Env} {x y : Slot}
  {points choices others left : Value} {touched old : List ScopeId} {below : Stack}

/-- The scopes of the body. -/
abbrev scopes (t : TwoChoices) : List ScopeId :=
  [t.block, t.call, t.program]

/-- The slots of the scopes of the body. -/
abbrev slots (t : TwoChoices) (s : Search) (x y : Slot) : List (Named Slot) :=
  [[("x", x), ("y", y)],
    [("amb", .assigned (.closure s.amb) true), ("assert", .assigned (.closure s.assert) true),
      (returnPoint, .assigned (.continuation t.home) false)], []]

/-- The body runs, and its two names have these slots. -/
structure Stands (t : TwoChoices) (s : Search) (h : Heap) (x y : Slot) : Prop where
  sees : h.Sees t.scopes (t.slots s x y) s.base
  home : h.continuation? t.home = some ⟨.undelimited, t.caller, t.stack⟩
  apart : ∀ id ∈ t.scopes, id ∉ [s.block, s.call]

/-- The stack that waits for the first choice. -/
abbrev first (t : TwoChoices) (s : Search) (ys : List String) (a b : String) : Stack :=
  (t.stack.pushAll (t.scopes ++ s.base) (TwoChoices.second ys :: rest a b)).push
    (.declare ⟨"x", {}⟩ false (t.scopes ++ s.base))

/-- The stack that waits for the second choice. -/
abbrev next (t : TwoChoices) (s : Search) (a b : String) : Stack :=
  (t.stack.pushAll (t.scopes ++ s.base) (rest a b)).push
    (.declare ⟨"y", {}⟩ false (t.scopes ++ s.base))

theorem cut_first {piece : Stack} (cut : t.stack.split? = some (piece, below)) (ys : List String)
    (a b : String) : ∃ piece', (t.first s ys a b).split? = some (piece', below) := by
  obtain ⟨piece', waiting⟩ := Stack.split?_pushAll cut (t.scopes ++ s.base)
    (TwoChoices.second ys :: rest a b)
  exact ⟨_, Stack.split?_push waiting (by simp)⟩

theorem Stands.grows (stands : t.Stands s h x y) (grows : Grows touched h h')
    (apart : ∀ id ∈ t.scopes ++ s.base, id ∉ touched) : t.Stands s h' x y :=
  ⟨stands.sees.grows grows apart, grows.lasts.continuations stands.home, stands.apart⟩

theorem Stands.ne_block (stands : t.Stands s h x y) : ∀ id ∈ s.env, id ∉ [t.block] := by
  intro id member same
  cases List.mem_singleton.1 same
  rcases List.mem_append.1 member with near | far
  · exact stands.apart _ List.mem_cons_self near
  · exact stands.sees.ne_of_mem (List.mem_append_right _ far) rfl

/-- The condition that is asserted. -/
theorem gives_condition {around base : Env} {slots : List (Named Slot)}
    (sees : h.Sees around slots base)
    (first : Named.seek "x" slots = some (.assigned (.string u) false))
    (second : Named.seek "y" slots = some (.assigned (.string v) false)) :
    Gives (around ++ base) 2 h (condition a b) (.boolean (decide (u = a ∧ v = b))) h := by
  have compared (left right : String) (span : Span) :
      BinaryOp.strictEq.apply (.string left) (.string right) span =
        .ok (.boolean (decide (left = right))) := by
    simp [BinaryOp.apply, Value.strictEquals]
  have left : Gives (around ++ base) 1 h (equal (name "x") (string a))
      (.boolean (decide (u = a))) h :=
    Gives.binary (.sight sees first) (.literal (.string a)) (by simp) (compared u a _)
  have right : Gives (around ++ base) 1 h (equal (name "y") (string b))
      (.boolean (decide (v = b))) h :=
    Gives.binary (.sight sees second) (.literal (.string b)) (by simp) (compared v b _)
  refine Gives.both left ?_
  by_cases same : u = a
  · simp only [same, decide_true, true_and, if_true]
    exact ⟨fun space onwards => right.attains (by omega) onwards⟩
  · simp [same]

/-- A choice leaves the body alone. -/
theorem Stands.after (stands : t.Stands s h x y) (choice : q.Stands s h old choices)
    (covers : ∀ id ∈ t.scopes, id ∈ old) (grows : Grows [q.block, q.call, s.block] h h') :
    t.Stands s h' x y := by
  refine stands.grows grows fun id member => ?_
  rcases List.mem_append.1 member with near | far
  · refine choice.apart_of_old (covers id near) ?_
    rintro rfl
    exact stands.apart _ near List.mem_cons_self
  · exact choice.apart_of_base far

/-- What is done with a second choice. -/
theorem Stands.check (stands : t.Stands s h (.assigned (.string u) false) y)
    (search : s.Stands h points) (space : t.stack.depth + 8 ≤ limit)
    (holds : u = a → v = b → ∀ h', Grows [t.block] h h' →
      From limit goal w h' (.value (.string (a ++ b))) t.caller t.stack)
    (fails : ¬(u = a ∧ v = b) → ∀ h' f inner span env' (stack : Stack), Grows [t.block] h h' →
      t.Stands s h' (.assigned (.string u) false) (.assigned (.string v) false) →
      s.Stands h' points → stack.depth = t.stack.depth + 2 →
      FromCall limit goal w h' f inner stack (.closure s.fail) [] span env') :
    From limit goal w h (.value (.string v)) inner (t.next s a b) := by
  refine .declared stands.sees (fits 2 space) ?_
  intro h₁ grows₁ sees₁
  have search₁ := search.grows grows₁ stands.ne_block
  refine .next (fits 1 space) (.runs (fits 1 space) ?_)
  refine .call 0 (.sight sees₁ rfl) (.cons (.function _) .nil) (fits 2 space) ?_
  have grows₂ := Grows.newClosure h₁ ⟨arrow [] [returns (condition a b)], t.scopes ++ s.base⟩
  have sees₂ := sees₁.grown grows₂
  refine (search₁.grown grows₂).asserts 2 (decide (u = a ∧ v = b)) Array.getElem?_push_size sees₂ ?_
    (fits 7 space) ?_ ?_
  · intro h' outer inner k sees
    exact gives_condition sees rfl rfl
  · intro both h₃ grows₃
    obtain ⟨rfl, rfl⟩ := of_decide_eq_true both
    have sees₃ := sees₂.grown grows₃
    have grows := grows₁.trans <| grows₂.trans grows₃
    have home := grows.lasts.continuations stands.home
    refine .next (fits 0 space) (.returns 1 (.binary (.sight sees₃ rfl)
      (.sight sees₃ rfl) (by simp) rfl) (sees₃.lookup? rfl) home (fits 2 space)
      (by omega) ?_)
    exact holds rfl rfl h₃ grows
  · intro neither h₃ f inner span span' k env' grows₃
    have grows := grows₁.trans <| grows₂.trans grows₃
    refine fails (of_decide_eq_false neither) h₃ f inner span' env' _ grows ?_
      (search₁.grown (grows₂.trans grows₃)) rfl
    exact ⟨sees₂.grown grows₃, grows.lasts.continuations stands.home, stands.apart⟩

section

variable {points : PairId} (search : s.Stands h (.pair points))
  (pair : h.pair? points = some (.continuation p.point, others))
  (outer : p.Stands s h t.scopes left) (space : t.stack.depth + 9 ≤ limit)
  (back : p.stack.depth + 2 ≤ limit) (found : u = a → b ∈ ys → ∀ h', h.Lasts h' →
    From limit goal w h' (.value (.string (a ++ b))) t.caller t.stack)

include search pair outer space back found

/-- The second choice is made until the condition holds or nothing is left to choose. -/
theorem Stands.second_choice (stands : t.Stands s h (.assigned (.string u) false) y)
    (inner : q.Stands s h ([p.block, p.call] ++ t.scopes) choices) (waits : q.stack = t.next s a b)
    (list : h.IsListOf choices (ys.map .string))
    (exhausted : ¬(u = a ∧ b ∈ ys) → ∀ h' touched y', Grows touched h h' →
      t.Stands s h' (.assigned (.string u) false) y' →
      (if ys = [] then y' = y else ∃ v, y' = .assigned v false) → s.Stands h' others →
      p.Stands s h' t.scopes left → From limit goal w h' (.value (.continuation p.point))
        (p.inside s) (p.waiting s)) :
    From limit goal w h (.value (.continuation q.point)) (q.inside s) (q.waiting s) := by
  have depth : q.stack.depth = t.stack.depth + 3 := by rw [waits]; rfl
  induction ys generalizing h y choices with
  | nil =>
    cases list
    refine inner.fail_of_null search (by omega) ?_
    intro h₁ f _ span env' grows₁ search₁
    refine search₁.fail_of_pair (grows₁.pairs pair) (grows₁.lasts.continuations outer.point)
      (by omega) back ?_
    intro h₂ grows₂ search₂
    have grows : Grows [q.block, q.call, s.block] h h₂ := (grows₁.trans grows₂).mono (by simp)
    exact exhausted (by simp) h₂ _ y grows (stands.after inner (by simp) grows) rfl search₂
      (outer.after inner (by simp) grows)
  | cons v ys ih =>
    cases list with
    | cons first rest =>
      refine inner.choose search first (by omega) ?_
      intro h₁ points₁ grows₁ search₁ pair₁ inner₁
      rw [waits]
      refine (stands.after inner (by simp) grows₁).check search₁ (by omega) ?_ ?_
      · rintro same rfl h₂ grows₂
        exact found same List.mem_cons_self h₂ (grows₁.trans grows₂).lasts
      · intro neither h₂ f _ span env' stack grows₂ stands₂ search₂ depth'
        have inner₂ := inner₁.grows grows₂ fun id member same =>
          inner.apart t.block (by simp) (List.mem_singleton.1 same ▸ member)
        have outer₂ := (outer.after inner (by simp) grows₁).grows grows₂ fun id member same =>
          outer.apart t.block (by simp) (List.mem_singleton.1 same ▸ member)
        refine search₂.fail_of_pair (grows₂.pairs pair₁) inner₂.point (by omega)
          (by show q.stack.depth + 2 ≤ limit; omega) ?_
        intro h₃ grows₃ search₃
        have grows := grows₁.trans <| grows₂.trans grows₃
        have stands₃ := stands₂.after inner₂ (by simp) (grows₃.mono (by simp))
        refine ih search₃ (grows.pairs pair) (outer₂.failed grows₃) ?_ stands₃
          (inner₂.failed grows₃) (rest.grows grows) ?_
        · intro same member h₄ lasts
          exact found same (List.mem_cons_of_mem v member) h₄ (grows.lasts.trans lasts)
        · intro none h₄ touched y' grows₄ stands₄ slot
          refine exhausted ?_ h₄ _ y' (grows.trans grows₄) stands₄ ?_
          · rintro ⟨same, member⟩
            rcases List.mem_cons.1 member with rfl | member
            · exact neither ⟨same, rfl⟩
            · exact none ⟨same, member⟩
          · by_cases last : ys = []
            · exact ⟨_, by simpa [last] using slot⟩
            · simpa [last] using slot

/-- Once there is a first choice, the second one is made. -/
theorem Stands.first_choice (stands : t.Stands s h x .unassigned)
    (exhausted : ¬(u = a ∧ b ∈ ys) → ∀ h' touched x' y', Grows touched h h' →
      t.Stands s h' x' y' → (if ys = [] then y' = .unassigned else ∃ v, y' = .assigned v false) →
      s.Stands h' others → p.Stands s h' t.scopes left → From limit goal w h'
        (.value (.continuation p.point)) (p.inside s) (p.waiting s)) :
    From limit goal w h (.value (.string u)) inner (t.first s ys a b) := by
  refine .declared stands.sees (fits 3 space) ?_
  intro h₁ grows₁ sees₁
  refine .next (fits 2 space) (.declares sees₁ rfl (fits 3 space) ?_)
  refine .call 1 (.sight sees₁ rfl) (.cons (.list sees₁ rfl (.strings ys)) .nil) (fits 5 space) ?_
  have grows₂ := Grows.newList h₁ (ys.map .string)
  have outer₂ := (outer.grows grows₁ fun id member same =>
    outer.apart t.block (by simp) (List.mem_singleton.1 same ▸ member)).grows grows₂ (by simp)
  have search₂ := (search.grows grows₁ stands.ne_block).grown grows₂
  have sees₂ := sees₁.grown grows₂
  have known : ∀ id ∈ [p.block, p.call] ++ t.scopes, id.index < _ := fun id member =>
    (List.mem_append.1 member).elim (outer₂.inside id) fun near =>
      sees₂.inside (List.mem_append_left s.base near)
  refine search₂.chooses _ known (fits 7 space) ?_
  intro h₃ block call point home grows₃ search₃ choice
  have grows := grows₁.trans <| grows₂.trans grows₃
  have stands₃ : t.Stands s h₃ (.assigned (.string u) false) .unassigned :=
    ⟨sees₂.grown grows₃, grows.lasts.continuations stands.home, stands.apart⟩
  refine stands₃.second_choice search₃ (grows.pairs pair) (outer₂.grows grows₃ (by simp)) space
    back ?_ choice rfl ((IsListOf.newList h₁ _).grows grows₃) ?_
  · intro same member h₄ lasts
    exact found same member h₄ (grows.lasts.trans lasts)
  · intro none h₄ touched y' grows₄ stands₄
    exact exhausted none h₄ _ _ y' (grows.trans grows₄) stands₄

end

section

variable (search : s.Stands h .null) (cut : ∃ piece, p.stack.split? = some (piece, below))

include search cut

/-- With nothing left to choose and nothing to go back to, the search is over. -/
theorem gives_up (outer : p.Stands s h old .null) (space : p.stack.depth + 4 ≤ limit)
    (nothing : ∀ h' env', h.Lasts h' → From limit goal w h' (.value (.boolean false)) env' below) :
    From limit goal w h (.value (.continuation p.point)) (p.inside s) (p.waiting s) := by
  obtain ⟨piece, cut⟩ := cut
  refine outer.fail_of_null search (by omega) ?_
  intro h₁ f inner span env grows₁ search₁
  refine search₁.fail_of_null cut space ?_
  intro h₂ env' grows₂ _
  exact nothing h₂ env' (grows₁.trans grows₂).lasts

/-- Once the second choice was made, another first choice comes to its declaration again. -/
theorem Stands.chooses_again {v : Value} (stands : t.Stands s h x (.assigned v false))
    (outer : p.Stands s h t.scopes choices) (waits : p.stack = t.first s ys a b)
    (list : h.IsListOf choices (xs.map .string)) (space : t.stack.depth + 10 ≤ limit)
    (nothing : xs = [] → ∀ h' env', h.Lasts h' →
      From limit goal w h' (.value (.boolean false)) env' below)
    (refused : xs ≠ [] → ∀ y y', y.Fails ⟨.redeclared "y" false, {}⟩ y' → goal y) :
    From limit goal w h (.value (.continuation p.point)) (p.inside s) (p.waiting s) := by
  have depth : p.stack.depth = t.stack.depth + 4 := by rw [waits]; rfl
  cases xs with
  | nil =>
    cases list
    exact gives_up search cut outer (by omega) (nothing rfl)
  | cons u xs =>
    cases list with
    | cons first rest =>
      refine outer.choose search first (by omega) ?_
      intro h₁ points grows₁ _ _ _
      have stands₁ := stands.after outer (by simp) grows₁
      rw [waits]
      refine .declared stands₁.sees (fits 3 space) ?_
      intro h₂ _ sees₂
      refine .next (fits 2 space) (.here ?_)
      exact refused (List.cons_ne_nil u xs) _ _ (fails_redeclaration sees₂ rfl)

/-- What comes of the choices between some values each. -/
theorem Stands.outcome (stands : t.Stands s h x .unassigned) (outer : p.Stands s h t.scopes choices)
    (waits : p.stack = t.first s ys a b) (list : h.IsListOf choices (xs.map .string))
    (space : t.stack.depth + 10 ≤ limit) (found : xs.head? = some a → b ∈ ys → ∀ h', h.Lasts h' →
      From limit goal w h' (.value (.string (a ++ b))) t.caller t.stack)
    (nothing : ¬(xs.head? = some a ∧ b ∈ ys) → ys = [] ∨ xs.length ≤ 1 → ∀ h' env', h.Lasts h' →
      From limit goal w h' (.value (.boolean false)) env' below)
    (refused : ¬(xs.head? = some a ∧ b ∈ ys) → ys ≠ [] → 2 ≤ xs.length →
      ∀ y y', y.Fails ⟨.redeclared "y" false, {}⟩ y' → goal y) :
    From limit goal w h (.value (.continuation p.point)) (p.inside s) (p.waiting s) := by
  have depth : p.stack.depth = t.stack.depth + 4 := by rw [waits]; rfl
  induction xs generalizing h x choices with
  | nil =>
    cases list
    exact gives_up search cut outer (by omega) (nothing (by simp) (.inr (by simp)))
  | cons u xs ih =>
    cases list with
    | cons first rest =>
      refine outer.choose search first (by omega) ?_
      intro h₁ points grows₁ search₁ pair₁ outer₁
      rw [waits]
      have stands₁ := stands.after outer (by simp) grows₁
      refine stands₁.first_choice search₁ pair₁ outer₁ (by omega) (by omega) ?_ ?_
      · rintro rfl member h₂ lasts
        exact found rfl member h₂ (grows₁.lasts.trans lasts)
      · intro none h₂ touched x' y' grows₂ stands₂ slot search₂ outer₂
        have grows := grows₁.trans grows₂
        have missed : ¬((u :: xs).head? = some a ∧ b ∈ ys) := by simpa using none
        have list := rest.grows grows
        by_cases last : ys = []
        · -- the second name never got a value, and all first choices are tried
          subst last
          cases slot
          refine ih search₂ stands₂ outer₂ list (by simp) ?_ (by simp)
          intro _ _ h₃ env' lasts
          exact nothing missed (.inl rfl) h₃ env' (grows.lasts.trans lasts)
        · rw [if_neg last] at slot
          obtain ⟨v, rfl⟩ := slot
          refine stands₂.chooses_again search₂ cut outer₂ waits list space ?_ ?_
          · rintro rfl h₃ env' lasts
            exact nothing missed (.inr le_rfl) h₃ env' (grows.lasts.trans lasts)
          · intro more
            exact refused missed last (Nat.succ_le_succ (List.length_pos_iff.2 more))

end

/-- What comes of a search with two choices. -/
theorem attains {base : Env} {program : ScopeId} {l : ClosureId} {stack : Stack}
    (sees : h.Sees [program] [[]] base)
    (logic : h.get ⟨"logic", {}⟩ ([program] ++ base) = .ok (.closure l))
    (closure : h.closure? l = some ⟨Prelude.logic, base⟩) (space : stack.depth + 14 ≤ limit)
    (found : xs.head? = some a → b ∈ ys → ∀ h',
      From limit goal w h' (.value (.string (a ++ b))) ([program] ++ base) stack)
    (nothing : ¬(xs.head? = some a ∧ b ∈ ys) → ys = [] ∨ xs.length ≤ 1 → ∀ h',
      From limit goal w h' (.value (.boolean false)) ([program] ++ base) stack)
    (refused : ¬(xs.head? = some a ∧ b ∈ ys) → ys ≠ [] → 2 ≤ xs.length →
      ∀ y y', y.Fails ⟨.redeclared "y" false, {}⟩ y' → goal y) :
    From limit goal w h (.ofBody (source xs ys a b)) ([program] ++ base) stack := by
  refine .runs (by omega) (.call 0 (.name logic) (.cons (.function _) .nil) (by omega) ?_)
  have grows₁ := Grows.newClosure h ⟨arrow ["amb", "assert"] (body xs ys a b), [program] ++ base⟩
  have sees₁ := sees.grown grows₁
  refine Search.logic (grows₁.lasts.closures closure) sees₁.tail (by omega) ?_
  intro h₂ s stack' piece below v inner span env' grows₂ same fresh search₂ depth cut onto back
  subst same
  have sees₂ := sees₁.grown grows₂
  refine .enter ["amb", "assert"] (grows₂.lasts.closures Array.getElem?_push_size) rfl rfl rfl
    (by show List.Nodup ["x", "y"]; decide) sees₂ (by show stack'.depth + 4 ≤ limit; omega) ?_
  intro h₃ call block home grows₃ fresh₃ fresh₃' sees₃ home₃
  refine .declares sees₃ rfl (by show stack'.depth + 3 + 1 ≤ limit; omega) ?_
  refine .call 1 (.sight sees₃ rfl) (.cons (.list sees₃ rfl (.strings xs)) .nil)
    (by show stack'.depth + 4 + 2 ≤ limit; omega) ?_
  have grows₄ := Grows.newList h₃ (xs.map .string)
  have search₄ := (search₂.grown grows₃).grown grows₄
  have sees₄ := sees₃.grown grows₄
  refine search₄.chooses [block, call, program]
    (fun id member => sees₄.inside (List.mem_append_left s.base member))
    (by show stack'.depth + 4 + 4 ≤ limit; omega) ?_
  intro h₅ block' call' point home' grows₅ search₅ choice
  have later := grows₃.trans <| grows₄.trans grows₅
  have apart : ∀ id ∈ [block, call, program], id ∉ [s.block, s.call] := by
    intro id member search
    have old : id.index < h₂.scopes.size :=
      search₂.sees.inside (List.mem_append_left s.base search)
    rcases List.mem_cons.1 member with rfl | member
    · omega
    rcases List.mem_cons.1 member with rfl | member
    · omega
    exact (sees₁.inside (List.mem_append_left s.base member)).not_ge (fresh id search)
  let t : TwoChoices := ⟨block, call, program, home, env', stack'⟩
  have stands : t.Stands s h₅ .unassigned .unassigned :=
    ⟨sees₄.grown grows₅, (grows₄.trans grows₅).lasts.continuations home₃, apart⟩
  refine stands.outcome search₅ (t.cut_first cut ys a b) choice rfl
    ((IsListOf.newList h₃ _).grows grows₅) (by show stack'.depth + 10 ≤ limit; omega) ?_ ?_ refused
  · intro first member h₆ lasts
    exact back.attains (later.lasts.trans lasts) (found first member h₆)
  · intro missed few h₆ env' lasts
    exact onto.attains (later.lasts.trans lasts) (nothing missed few h₆)

/-! ## The program -/

/-- A text of the program, word by word. -/
def outline (xs ys : List String) (a b : String) : List Outline.Stmt :=
  let x : Name := ⟨"x", by decide, by decide⟩
  let y : Name := ⟨"y", by decide, by decide⟩
  let amb : Name := ⟨"amb", by decide, by decide⟩
  let assert : Name := ⟨"assert", by decide, by decide⟩
  let list (texts : List String) : Outline.Expr :=
    .call (.identifier Outline.listName) (texts.map .string)
  let choice (texts : List String) : Outline.Expr := .call (.identifier amb) [list texts]
  let equal (name : Name) (text : String) : Outline.Expr :=
    .binary (.binary .strictEq) (.identifier name) (.string text)
  [.expression (.call (.identifier ⟨"logic", by decide, by decide⟩)
    [.arrow ⟨[amb, assert], none, by decide⟩
      [.declaration .constKind x (choice xs), .declaration .constKind y (choice ys),
        .expression (.call (.identifier assert) [.arrow Outline.noParams
          [.returnsValue (.binary (.logical .and) (equal x a) (equal y b))]]),
        .returnsValue (.binary (.binary .add) (.identifier x) (.identifier y))]])]

theorem exists_text (xs ys : List String) (a b : String) :
    ∃ text p, Program.read text = .ok p ∧ p.unspanned.body = source xs ys a b := by
  have small : Outline.Stmt.nestingOfAll (outline xs ys a b) ≤ maxNesting := by
    have first := Outline.nesting_strings xs
    have second := Outline.nesting_strings ys
    simp only [outline, Outline.Stmt.nestingOfAll, Outline.Stmt.nesting, Outline.Expr.nesting,
      Outline.Expr.nestingOfAll, maxNesting]
    omega
  obtain ⟨text, p, read, same⟩ := Outline.exists_program small
  refine ⟨text, p, read, ?_⟩
  rw [same]
  simp only [outline, Outline.program, Outline.Stmt.trees, Outline.Stmt.tree, Outline.Expr.tree,
    Outline.Expr.trees, Outline.trees_strings]
  rfl

variable (settings : Settings) (world : World) {text : String} {p : Program}

/-- What an evaluation of the program comes to. -/
theorem eval_source (wanted : settings.prelude = true) (noCaptures : world.heap.continuations = #[])
    (room : 16 ≤ settings.maxDepth) (read : Program.read text = .ok p)
    (written : p.unspanned.body = source xs ys a b) :
    let answer := ((Machine.new settings Table.standard world).eval text none).1
    (xs.head? = some a ∧ b ∈ ys → answer = .finished (.string (a ++ b))) ∧
      (¬(xs.head? = some a ∧ b ∈ ys) → ys = [] ∨ xs.length ≤ 1 →
        answer = .finished (.boolean false)) ∧
      (¬(xs.head? = some a ∧ b ∈ ys) → ys ≠ [] → 2 ≤ xs.length →
        ∃ span, answer = .failed (.fault ⟨.redeclared "y" false, span⟩)) := by
  intro answer
  obtain ⟨m, limit, evaluated, h, program, base, w, sees, offers, comes⟩ :=
    Machine.exists_start wanted noCaptures read (by rw [written]; exact List.nodup_nil) room
      (by rw [written]; show 2 ≤ settings.maxDepth; omega)
  rw [written] at sees comes
  obtain ⟨x, l, named, offered, closure⟩ := offers Prelude.logic (by simp)
  cases named
  have logic : h.get ⟨"logic", {}⟩ ([program] ++ base) = .ok (.closure l) :=
    (get_of_seek_none sees.shown rfl).trans offered
  have space : Stack.initial.depth + 14 ≤ m.maxDepth := by
    rw [limit]
    show 15 ≤ settings.maxDepth
    omega
  have ran : answer = m.runToEnd.1 := congrArg Prod.fst (evaluated none)
  rw [ran]
  refine ⟨fun both => ?_, fun missed few => ?_, fun missed some more => ?_⟩
  · have ends : Attains m.maxDepth (Ends fun v _ => v = .string (a ++ b)) _ :=
      attains (w := w) sees logic closure space (fun _ _ _ => .here ⟨_, rfl, rfl, rfl⟩)
        (fun missed => absurd both missed) (fun missed => absurd both missed)
    obtain ⟨v, m', ended, rfl⟩ := Machine.runToEnd_of_attains comes ends
    rw [ended]
  · have ends : Attains m.maxDepth (Ends fun v _ => v = .boolean false) _ :=
      attains (w := w) sees logic closure space (fun first member => absurd ⟨first, member⟩ missed)
        (fun _ _ _ => .here ⟨_, rfl, rfl, rfl⟩)
        (fun _ some more => absurd few (not_or.2 ⟨some, by omega⟩))
    obtain ⟨v, m', ended, rfl⟩ := Machine.runToEnd_of_attains comes ends
    rw [ended]
  · exact Machine.runToEnd_of_attains_fault ⟨.redeclared "y" false, {}⟩ comes <|
      attains (w := w) sees logic closure space (fun first member => absurd ⟨first, member⟩ missed)
        (fun _ few => absurd few (not_or.2 ⟨some, by omega⟩)) (fun _ _ _ _ y' fails => ⟨y', fails⟩)

/-- **A search with two choices.**  The search chooses `x` from `xs` and then `y` from `ys`, each
    as a constant, asserts that they are `a` and `b`, and comes to their sum.  It finds them if `a`
    is the first of `xs` and `b` is any of `ys`.  If not, it comes to `false` where nothing is
    there to be chosen second, or nothing but the first choice to go back from; and otherwise it
    fails, since `y` is declared a second time with the second of `xs`. -/
theorem search_with_two_choices (xs ys : List String) (a b : String)
    (wanted : settings.prelude = true) (noCaptures : world.heap.continuations = #[])
    (room : 16 ≤ settings.maxDepth) :
    (∃ text p, Program.read text = .ok p ∧ p.unspanned.body = source xs ys a b) ∧
      ∀ text p, Program.read text = .ok p → p.unspanned.body = source xs ys a b →
        let answer := ((Machine.new settings Table.standard world).eval text none).1
        (xs.head? = some a ∧ b ∈ ys → answer = .finished (.string (a ++ b))) ∧
          (¬(xs.head? = some a ∧ b ∈ ys) → ys = [] ∨ xs.length ≤ 1 →
            answer = .finished (.boolean false)) ∧
          (¬(xs.head? = some a ∧ b ∈ ys) → ys ≠ [] → 2 ≤ xs.length →
            ∃ span, answer = .failed (.fault ⟨.redeclared "y" false, span⟩)) :=
  ⟨exists_text xs ys a b, fun _ _ read written =>
    eval_source settings world wanted noCaptures room read written⟩

/-- The same for a search that goes back to its second choice. -/
theorem search_with_two_choices_found :
    let text := "logic((amb, assert) => \x7b const x = amb(list('a', 'b')); " ++
      "const y = amb(list('c', 'd')); assert(() => x === 'a' && y === 'd'); return x + y; \x7d);"
    (∃ p, Program.read text = .ok p ∧ p.unspanned.body = source ["a", "b"] ["c", "d"] "a" "d") ∧
      ((Machine.new {} Table.standard {}).eval text none).1 = .finished (.string "ad") := by
  intro text
  obtain ⟨p, read, written⟩ := Program.exists_alike (by decide +kernel :
    ∃ p ∈ (Program.read text).toOption,
      Stmt.alikeAll p.body (source ["a", "b"] ["c", "d"] "a" "d") = true)
  have answers := (search_with_two_choices {} {} ["a", "b"] ["c", "d"] "a" "d" rfl rfl
    (by decide)).2 text p read written
  exact ⟨⟨p, read, written⟩, answers.1 ⟨rfl, by decide⟩⟩

/-- The values that the condition asks for are there, and the search fails all the same. -/
theorem second_first_choice_redeclares :
    let text := "logic((amb, assert) => \x7b const x = amb(list('a', 'b')); " ++
      "const y = amb(list('c')); assert(() => x === 'b' && y === 'c'); return x + y; \x7d);"
    (∃ p, Program.read text = .ok p ∧ p.unspanned.body = source ["a", "b"] ["c"] "b" "c") ∧
      "b" ∈ ["a", "b"] ∧ "c" ∈ ["c"] ∧
      ∃ span, ((Machine.new {} Table.standard {}).eval text none).1 =
        .failed (.fault ⟨.redeclared "y" false, span⟩) := by
  intro text
  obtain ⟨p, read, written⟩ := Program.exists_alike (by decide +kernel :
    ∃ p ∈ (Program.read text).toOption,
      Stmt.alikeAll p.body (source ["a", "b"] ["c"] "b" "c") = true)
  have written : p.unspanned.body = source ["a", "b"] ["c"] "b" "c" := written
  obtain ⟨-, -, refused⟩ := eval_source {} {} rfl rfl (by decide) read written
  exact ⟨⟨p, read, written⟩, by decide, by decide, refused (by decide) (by decide) (by decide)⟩

end TwoChoices

end SourceMachine
