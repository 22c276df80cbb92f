import SourceMachine.Proofs.Machine.Attains

/-!
# Searching with choices

The library of jumps has a function for searches.  It gives its argument two functions, one to
choose between the elements of a list and one to assert a condition.  A choice captures the
stack and puts it on top of the choices to go back to; a failure takes the latest of them and
makes it once more, with the elements that are left.

`Search.Stands` says that a search is under way, and `Point.Stands` that a choice is there to
be made.  Here is what the functions do, on any stack: `Search.logic` starts a search,
`Stands.chooses` and the lemmas about `Point` make choices, `Stands.asserts` asserts a
condition, and `fail_of_null` and `fail_of_pair` are the two ways to fail.
-/

namespace SourceMachine

open Config Heap Sketch

/-- Where things are that a search works with. -/
structure Search where
  base : Env
  block : ScopeId
  call : ScopeId
  fail : ClosureId
  amb : ClosureId
  assert : ClosureId
  body : Value
  home : ContinuationId

namespace Search

/-- The scopes of the functions of a search. -/
abbrev env (s : Search) : Env :=
  [s.block, s.call] ++ s.base

/-- The slots of the scopes of a search. -/
abbrev slots (s : Search) (points : Value) : List (Named Slot) :=
  [[("fail_stack", .assigned points true), ("fail", .assigned (.closure s.fail) false),
      ("amb", .assigned (.closure s.amb) false), ("assert", .assigned (.closure s.assert) false)],
    [("body", .assigned s.body true), (returnPoint, .assigned (.continuation s.home) false)]]

/-- A search is under way, and these are the choices to go back to. -/
structure Stands (s : Search) (h : Heap) (points : Value) : Prop where
  sees : h.Sees [s.block, s.call] (s.slots points) s.base
  fail : h.closure? s.fail = some ⟨Prelude.fail, s.env⟩
  amb : h.closure? s.amb = some ⟨Prelude.amb, s.env⟩
  assert : h.closure? s.assert = some ⟨Prelude.assert, s.env⟩

variable {s : Search} {limit : Nat} {goal : Config → Prop} {w : World} {h h' : Heap}
  {stack below piece : Stack} {env inner : Env} {v points : Value} {span : Span}
  {touched : List ScopeId}

theorem Stands.moved {points' : Value} (stands : s.Stands h points) (grows : Grows touched h h')
    (sees : h'.Sees [s.block, s.call] (s.slots points') s.base) : s.Stands h' points' :=
  ⟨sees, grows.lasts.closures stands.fail, grows.lasts.closures stands.amb,
    grows.lasts.closures stands.assert⟩

theorem Stands.grows (stands : s.Stands h points) (grows : Grows touched h h')
    (apart : ∀ id ∈ s.env, id ∉ touched) : s.Stands h' points :=
  stands.moved grows (stands.sees.grows grows apart)

theorem Stands.grown (stands : s.Stands h points) (grows : Grows [] h h') : s.Stands h' points :=
  stands.grows grows fun _ _ => List.not_mem_nil

/-! ## Failing -/

/-- Without a choice to go back to, a failure ends the search. -/
theorem Stands.fail_of_null (stands : s.Stands h .null) (cut : stack.split? = some (piece, below))
    (space : stack.depth + 4 ≤ limit) (onwards : ∀ h' env', Grows [] h h' → s.Stands h' .null →
      From limit goal w h' (.value (.boolean false)) env' below) :
    FromCall limit goal w h v inner stack (.closure s.fail) [] span env := by
  refine .enter [] stands.fail rfl rfl rfl (by decide) stands.sees (fits 1 space) ?_
  intro h₁ outer inner _ grows₁ _ _ sees₁ _
  show Attains limit goal ⟨.statement (branch _ _ _), _, stack, _⟩
  refine .branch 2 true (.unary (.test sees₁ .pair rfl rfl rfl) (by decide) rfl) (by omega) ?_
  refine .block sees₁ (by decide) (fits 1 space) ?_
  intro h₂ block grows₂ _ sees₂
  show Attains limit goal ⟨.statement (run _), _, stack, _⟩
  refine .runs (by omega) (.jump .shift _ sees₂ rfl (by omega) ?_)
  intro h₃ f grows₃ closure sees₃
  refine .shift cut (by omega) ?_
  intro h₄ _ grows₄ _
  have fits := Stack.depth_of_split cut
  refine .enter ["k"] (grows₄.lasts.closures closure) rfl rfl rfl (by decide) (sees₃.grown grows₄)
    (by show below.depth + 1 ≤ limit; omega) ?_
  intro h₅ _ _ _ grows₅ _ _ sees₅ home
  show Attains limit goal ⟨.statement (returns _), _, below, _⟩
  refine .returns 0 (.literal _) (sees₅.lookup? rfl) home (by omega) (by omega) ?_
  have grows := grows₁.trans <| grows₂.trans <| grows₃.trans <| grows₄.trans grows₅
  exact onwards h₅ _ grows (stands.grown grows)

/-- Otherwise it goes back to the latest choice, which is no longer among those to go back to. -/
theorem Stands.fail_of_pair {points : PairId} {point : ContinuationId} {home : Env} {caller : Stack}
    {others : Value} (stands : s.Stands h (.pair points))
    (pair : h.pair? points = some (.continuation point, others))
    (captured : h.continuation? point = some ⟨.undelimited, home, caller⟩)
    (space : stack.depth + 6 ≤ limit) (back : caller.depth ≤ limit)
    (onwards : ∀ h', Grows [s.block] h h' → s.Stands h' others →
      From limit goal w h' (.value (.continuation point)) home caller) :
    FromCall limit goal w h v inner stack (.closure s.fail) [] span env := by
  refine .enter [] stands.fail rfl rfl rfl (by decide) stands.sees (fits 1 space) ?_
  intro h₁ outer inner _ grows₁ _ _ sees₁ _
  show Attains limit goal ⟨.statement (branch _ _ _), _, stack, _⟩
  refine .branch 2 false (.unary (.test sees₁ .pair rfl rfl rfl) (by decide) rfl) (by omega) ?_
  refine .block sees₁ (by decide) (fits 3 space) ?_
  intro h₂ block grows₂ fresh sees₂
  have pair₂ := grows₂.pairs (grows₁.pairs pair)
  refine .declaration 1 (.library sees₂ .head rfl (.cons (.sight sees₂ rfl) .nil) rfl
    (Native.call_head pair₂)) (.refl h₂) sees₂ rfl (fits 4 space) ?_
  intro h₃ grows₃ sees₃
  refine .next (fits 1 space) (.assign 1 (.library sees₃ .tail rfl
    (.cons (.sight sees₃ rfl) .nil) rfl (Native.call_tail (grows₃.pairs pair₂))) (.refl h₃) sees₃
    rfl rfl (fits 3 space) ?_)
  intro h₄ grows₄ sees₄
  refine .next (fits 0 space) (.runs (fits 0 space) ?_)
  refine .call 0 (.sight sees₄ rfl) (.cons (.sight sees₄ rfl) .nil) (fits 1 space) ?_
  have grows := grows₁.trans <| grows₂.trans <| grows₃.trans grows₄
  refine .resume (grows.lasts.continuations captured) back ?_
  exact onwards h₄ (grows.old (by simp [grows₁.size.trans fresh]))
    (stands.moved grows sees₄.tail.tail.tail)

/-! ## Choosing -/

end Search

/-- A choice: the scopes of the call that made it, where it is made once more, and where it goes
    on with what was chosen. -/
structure Point where
  block : ScopeId
  call : ScopeId
  point : ContinuationId
  home : ContinuationId
  env : Env
  stack : Stack

namespace Point

/-- The scopes that a choice is made in. -/
abbrev inside (p : Point) (s : Search) : Env :=
  [p.block, p.call, s.block, s.call] ++ s.base

/-- The stack on which a choice is made. -/
abbrev waiting (p : Point) (s : Search) : Stack :=
  (p.stack.push (.exec Prelude.choose (p.inside s))).push (.declare ⟨"cc", {}⟩ true (p.inside s))

/-- The slots of a call that makes a choice. -/
abbrev slots (p : Point) (choices : Value) : Named Slot :=
  [("choices", .assigned choices true), (returnPoint, .assigned (.continuation p.home) false)]

/-- The choice is there to be made, between these values, in scopes that are new to some others. -/
structure Stands (p : Point) (s : Search) (h : Heap) (old : List ScopeId) (choices : Value) :
    Prop where
  block : ∃ slot, h.Shows p.block [("cc", slot)]
  call : h.Shows p.call (p.slots choices)
  point : h.continuation? p.point = some ⟨.undelimited, p.inside s, p.waiting s⟩
  home : h.continuation? p.home = some ⟨.undelimited, p.env, p.stack⟩
  distinct : (p.inside s).Nodup
  apart : ∀ id ∈ old, id ∉ [p.block, p.call]

end Point

namespace Search

variable {s : Search} {limit : Nat} {goal : Config → Prop} {w : World} {h h' : Heap}
  {stack below piece : Stack} {env inner : Env} {v points choices : Value} {span : Span} {p : Point}
  {old : List ScopeId}

/-- A choice is made for the first time just as it is made later. -/
theorem Stands.chooses (old : List ScopeId) (stands : s.Stands h points)
    (known : ∀ id ∈ old, id.index < h.scopes.size) (space : stack.depth + 4 ≤ limit)
    (onwards : ∀ h' block call point home, Grows [] h h' → s.Stands h' points →
      Point.Stands ⟨block, call, point, home, env, stack⟩ s h' old choices →
      From limit goal w h' (.value (.continuation point))
        (Point.inside ⟨block, call, point, home, env, stack⟩ s)
        (Point.waiting ⟨block, call, point, home, env, stack⟩ s)) :
    FromCall limit goal w h v inner stack (.closure s.amb) [choices] span env := by
  refine .enter ["choices"] stands.amb rfl rfl rfl (by decide) stands.sees (fits 2 space) ?_
  intro h₁ call block home grows₁ fresh fresh' sees₁ home₁
  refine .declares sees₁ rfl (fits 2 space) ?_
  refine .capture sees₁ rfl (fits 3 space) ?_
  intro h₂ point grows₂ sees point₂
  have grows := grows₁.trans grows₂
  have new : ∀ id ∈ [block, call], h.scopes.size ≤ id.index := by simp [fresh, fresh']
  refine onwards h₂ block call point home grows (stands.grown grows) ?_
  refine ⟨⟨.unassigned, ?_⟩, ?_, point₂, grows₂.lasts.continuations home₁, sees.distinct,
    fun id member here => ?_⟩
  · exact sees.head
  · exact sees.tail.head
  · exact (known id member).not_ge (new id here)

end Search

namespace Point.Stands

variable {s : Search} {limit : Nat} {goal : Config → Prop} {w : World} {h h' : Heap}
  {stack below piece : Stack} {env inner : Env} {v points choices : Value} {span : Span} {p : Point}
  {old touched : List ScopeId}

section

variable (stands : p.Stands s h old choices) {id : ScopeId}

include stands

theorem grows (grows : Grows touched h h') (apart : ∀ id ∈ [p.block, p.call], id ∉ touched) :
    p.Stands s h' old choices := by
  obtain ⟨slot, block⟩ := stands.block
  exact ⟨⟨slot, block.grows grows (apart _ (by simp))⟩, stands.call.grows grows (apart _ (by simp)),
    grows.lasts.continuations stands.point, grows.lasts.continuations stands.home, stands.distinct,
    stands.apart⟩

theorem inside : ∀ id ∈ [p.block, p.call],
    id.index < h.scopes.size := by
  obtain ⟨slot, block⟩ := stands.block
  simp [block.inside, stands.call.inside]

theorem apart_of_old (member : id ∈ old) (other : id ≠ s.block) :
    id ∉ [p.block, p.call, s.block] := by
  have new := stands.apart id member
  simp_all

theorem apart_of_base (member : id ∈ s.base) : id ∉ [p.block, p.call, s.block] := by
  intro here
  have near : id ∈ [p.block, p.call, s.block, s.call] := List.mem_append_left [s.call] here
  exact (List.nodup_append.1 stands.distinct).2.2 id near id member rfl

theorem ne_search (member : id ∈ [p.block, p.call]) : id ≠ s.block := by
  rintro rfl
  have distinct : ([p.block, p.call] ++ s.env).Nodup := stands.distinct
  exact (List.nodup_append.1 distinct).2.2 _ member _ List.mem_cons_self rfl

/-- A failure leaves a choice alone. -/
theorem failed (grows : Grows [s.block] h h') : p.Stands s h' old choices :=
  stands.grows grows fun _ member same => stands.ne_search member (List.mem_singleton.1 same)

/-- A choice leaves an earlier one alone. -/
theorem after {q : Point} {old' : List ScopeId} {choices' : Value}
    (later : q.Stands s h old' choices') (covers : ∀ id ∈ [p.block, p.call], id ∈ old')
    (grows : Grows [q.block, q.call, s.block] h h') : p.Stands s h' old choices :=
  stands.grows grows fun id member =>
    later.apart_of_old (covers id member) (stands.ne_search member)

/-- What is seen where the choice is made. -/
theorem sees (search : s.Stands h points) :
    ∃ slot, h.Sees [p.block, p.call, s.block, s.call]
      ([("cc", slot)] :: p.slots choices :: s.slots points) s.base := by
  obtain ⟨slot, block⟩ := stands.block
  obtain ⟨apart, distinct⟩ := List.nodup_cons.1 stands.distinct
  exact ⟨slot, (search.sees.insert stands.call (List.nodup_cons.1 distinct).1).insert block apart⟩

end

/-- When nothing is left to choose, the search fails where the choice was to be made. -/
theorem fail_of_null (stands : p.Stands s h old .null) (search : s.Stands h points)
    (space : p.stack.depth + 3 ≤ limit)
    (onwards : ∀ h' v inner span env, Grows [p.block] h h' → s.Stands h' points →
      FromCall limit goal w h' v inner p.stack (.closure s.fail) [] span env) :
    From limit goal w h (.value (.continuation p.point)) (p.inside s) (p.waiting s) := by
  obtain ⟨slot, sees⟩ := stands.sees search
  refine .declared sees (fits 1 space) ?_
  intro h₁ grows₁ sees₁
  refine .next (by omega) (.branch 1 true (.test sees₁ .null rfl rfl rfl) (by omega) ?_)
  refine .block sees₁ (by decide) (fits 1 space) ?_
  intro h₂ block grows₂ fresh sees₂
  refine .runs (fits 0 space) (.call 0 (.sight sees₂ rfl) .nil (fits 1 space) ?_)
  have grows := grows₁.trans grows₂
  exact onwards h₂ _ _ _ _ grows (search.moved grows sees₂.tail.tail.tail)

/-- Otherwise the first value is chosen, and the choice between those that are left is the latest
    one to go back to. -/
theorem choose {list : PairId} {first rest : Value} (stands : p.Stands s h old (.pair list))
    (search : s.Stands h points) (pair : h.pair? list = some (first, rest))
    (space : p.stack.depth + 6 ≤ limit)
    (onwards : ∀ h' points', Grows [p.block, p.call, s.block] h h' → s.Stands h' (.pair points') →
      h'.pair? points' = some (.continuation p.point, points) → p.Stands s h' old rest →
      From limit goal w h' (.value first) p.env p.stack) :
    From limit goal w h (.value (.continuation p.point)) (p.inside s) (p.waiting s) := by
  obtain ⟨slot, sees⟩ := stands.sees search
  refine .declared sees (fits 1 space) ?_
  intro h₁ grows₁ sees₁
  refine .next (by omega) (.branch 1 false (.test sees₁ .null rfl rfl rfl) (by omega) ?_)
  refine .block sees₁ (by decide) (fits 4 space) ?_
  intro h₂ block grows₂ fresh sees₂
  have pair₂ := grows₂.pairs (grows₁.pairs pair)
  refine .declaration 1 (.library sees₂ .head rfl (.cons (.sight sees₂ rfl) .nil) rfl
    (Native.call_head pair₂)) (.refl h₂) sees₂ rfl (fits 5 space) ?_
  intro h₃ grows₃ sees₃
  refine .next (fits 2 space) (.assign 1 (.library sees₃ .tail rfl
    (.cons (.sight sees₃ rfl) .nil) rfl (Native.call_tail (grows₃.pairs pair₂))) (.refl h₃) sees₃
    rfl rfl (fits 4 space) ?_)
  intro h₄ grows₄ sees₄
  refine .next (fits 1 space) (.assign 1 (.library sees₄ .pair rfl
    (.cons (.sight sees₄ rfl) (.cons (.sight sees₄ rfl) .nil)) rfl (Native.call_pair _ _ _))
    (.newPair h₄ _ _) sees₄ rfl rfl (fits 3 space) ?_)
  intro h₅ grows₅ sees₅
  have pushed : h₅.pair? ⟨h₄.pairs.size⟩ = _ := grows₅.pairs Array.getElem?_push_size
  have grows := grows₁.trans <| grows₂.trans <| grows₃.trans <| grows₄.trans <|
    (Grows.newPair h₄ _ _).trans grows₅
  have home := grows.lasts.continuations stands.home
  refine .next (fits 0 space) (.returns 0 (.sight sees₅ rfl) (sees₅.lookup? rfl) home
    (fits 1 space) (by omega) ?_)
  have sees := sees₅.tail
  refine onwards h₅ ⟨h₄.pairs.size⟩ (grows.old (by simp [grows₁.size.trans fresh]))
    (search.moved grows sees.tail.tail) pushed ?_
  exact ⟨⟨_, sees.head⟩, sees.tail.head, grows.lasts.continuations stands.point, home,
    stands.distinct, stands.apart⟩

end Point.Stands

namespace Search

variable {s : Search} {limit : Nat} {goal : Config → Prop} {w : World} {h h' : Heap}
  {stack below piece : Stack} {env inner : Env} {v points : Value} {span : Span}

/-! ## Conditions -/

/-- A condition that is asserted either holds, or the search fails. -/
theorem Stands.asserts (room : Nat) (b : Bool) (stands : s.Stands h points) {f : ClosureId}
    {e : Expr} {around base : Env} {slots : List (Named Slot)}
    (closure : h.closure? f = some ⟨arrow [] [returns e], around ++ base⟩)
    (sees : h.Sees around slots base) (gives : ∀ h' outer inner k,
      h'.Sees (inner :: outer :: around) ([] :: Named.called [] [] k :: slots) base →
      Gives (inner :: outer :: around ++ base) room h' e (.boolean b) h')
    (space : stack.depth + (room + 4) ≤ limit) (holds : b = true → ∀ h', Grows [] h h' →
      From limit goal w h' (.value (.boolean true)) env stack)
    (fails : b = false → ∀ h' v inner span span' k env', Grows [] h h' →
      FromCall limit goal w h' v inner (stack.push (.argument [] 0 [] k span env'))
        (.closure s.fail) [] span' env') : FromCall limit goal w h v inner stack (.closure s.assert)
          [.closure f] span env := by
  have four : stack.depth + 4 ≤ limit := by omega
  refine .enter ["condition"] stands.assert rfl rfl rfl (by decide) stands.sees (fits 1 four) ?_
  intro h₁ outer inner k grows₁ _ _ sees₁ home
  refine .returning (sees₁.lookup? rfl) (fits 1 four) ?_
  refine .asks (fits 2 four) ?_
  refine .call 0 (.sight sees₁ rfl) .nil (fits 3 four) ?_
  refine .enter [] (grows₁.lasts.closures closure) rfl rfl rfl List.nodup_nil (sees.grown grows₁)
    (fits 3 four) ?_
  intro h₂ outer₂ inner₂ k₂ grows₂ _ _ sees₂ home₂
  refine .returns room (gives h₂ outer₂ inner₂ k₂ sees₂) (sees₂.lookup? rfl) home₂
    (by show stack.depth + 2 + (room + 1) ≤ limit; omega) (fits 2 four) ?_
  refine .decided b (fits 1 four) ?_
  cases b with
  | true =>
    refine (Gives.literal _).attains (show stack.depth + 1 + 0 ≤ limit by omega) ?_
    exact .returned (grows₂.lasts.continuations home) (fits 1 four)
      (by omega) (holds rfl h₂ (grows₁.trans grows₂))
  | false =>
    refine .call 0 (.sight (sees₁.grown grows₂) rfl) .nil (fits 2 four) ?_
    exact fails rfl h₂ _ _ _ _ _ _ (grows₁.trans grows₂)

/-! ## The whole search -/

/-- A search starts with nothing to go back to.  What its body comes to is what it comes to, and
    so is what comes to the stack below the mark that it leaves. -/
theorem logic {f : ClosureId} {base : Env} {body : Value}
    (closure : h.closure? f = some ⟨Prelude.logic, [] ++ base⟩) (sees : h.Sees [] [] base)
    (space : stack.depth + 9 ≤ limit)
    (onwards : ∀ h' (s : Search) (stack' piece below : Stack) v inner span env', Grows [] h h' →
      s.base = base → (∀ id ∈ [s.block, s.call], h.scopes.size ≤ id.index) →
      s.Stands h' .null → stack'.depth = stack.depth + 3 →
      stack'.split? = some (piece, below) → Leads limit h' below env stack →
      Leads limit h' stack' env stack →
      FromCall limit goal w h' v inner stack' body [.closure s.amb, .closure s.assert] span env') :
    FromCall limit goal w h v inner stack (.closure f) [body] span env := by
  refine .enter ["body"] closure rfl rfl rfl (by decide) sees (fits 5 space) ?_
  intro h₁ call block home grows₁ fresh fresh' sees₁ home₁
  refine .declaration 0 (.literal _) (.refl h₁) sees₁ rfl (fits 5 space) ?_
  intro h₂ grows₂ sees₂
  refine .next (fits 3 space) (.function sees₂ rfl rfl (fits 4 space) ?_)
  intro h₃ fail grows₃ fail₃ sees₃
  refine .next (fits 2 space) (.function sees₃ rfl rfl (fits 3 space) ?_)
  intro h₄ amb grows₄ amb₄ sees₄
  refine .next (fits 1 space) (.function sees₄ rfl rfl (fits 2 space) ?_)
  intro h₅ assert grows₅ assert₅ sees₅
  refine .next (fits 0 space) (.returning (sees₅.lookup? rfl) (fits 1 space) ?_)
  refine .jump .reset _ sees₅ rfl (fits 2 space) ?_
  intro h₆ arrow grows₆ arrow₆ sees₆
  refine .reset (fits 3 space) ?_
  refine .enter [] arrow₆ rfl rfl rfl (by decide) sees₆ (fits 3 space) ?_
  intro h₇ outer₇ inner₇ k₇ grows₇ _ _ sees₇ home₇
  refine .returning (sees₇.lookup? rfl) (fits 3 space) ?_
  refine .call 0 (.sight sees₇ rfl) (.cons (.sight sees₇ rfl) (.cons (.sight sees₇ rfl) .nil))
    (fits 4 space) ?_
  have later₆ := grows₆.trans grows₇
  have later₅ := grows₅.trans later₆
  have later₄ := grows₄.trans later₅
  have later₁ := grows₂.trans <| grows₃.trans later₄
  have back : h₇.continuation? home = _ := later₁.lasts.continuations home₁
  have search : Stands ⟨base, block, call, fail, amb, assert, body, home⟩ h₇ .null :=
    ⟨sees₇.tail.tail, later₄.lasts.closures fail₃, later₅.lasts.closures amb₄,
      later₆.lasts.closures assert₅⟩
  refine onwards h₇ _ _ (Stack.ofFrames [_]) _ _ _ _ _
    ((grows₁.trans later₁).old (by simp [fresh'])) rfl (by simp [fresh, fresh']) search rfl
    (Stack.split?_eq_some_iff.2 ⟨rfl, by simp [Stack.ofFrames]⟩) ?_ ?_
  · exact .here back (fits 1 space) (by omega)
  · exact .returned (.passed (.here back (fits 1 space) (by omega)) (fits 1 space))
      home₇ (fits 3 space) (fits 2 space)

end Search

end SourceMachine
