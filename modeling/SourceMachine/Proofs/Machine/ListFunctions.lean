import SourceMachine.Proofs.Heap.Data
import SourceMachine.Proofs.Machine.Attains

/-!
# Functions on lists

The library of lists is written in the language itself.  Here is what three of its functions do
on any stack: `append` puts the elements of a list in front of another value, `reverse` turns a
list around, and `equal` compares values part by part.  Each of them is followed from where its
body starts to where a value is handed to the return point of the call.

The recursion of a function is an induction over the list or over the data that it is called
with.  The stack grows with it, and so the induction is for every stack, and for every heap
that has the function and the list.
-/

namespace SourceMachine

open Config Heap Sketch

namespace Heap

variable {h h₀ h₁ h' : Heap} {v r last : Value} {vs : List Value} {touched : List ScopeId}
  {ids : List PairId}

/-! ## New lists -/

/-- Pairs at these addresses, with these heads, lead from a value to a last tail. -/
inductive IsChain (h : Heap) : Value → List PairId → List Value → Value → Prop where
  | nil (last : Value) : IsChain h last [] [] last
  | cons {id : PairId} {v tail last : Value} {ids : List PairId} {vs : List Value}
      (first : h.pair? id = some (v, tail)) (rest : IsChain h tail ids vs last) :
      IsChain h (.pair id) (id :: ids) (v :: vs) last

/-- A list that ends in some value was built of pairs that were not there before. -/
def Builds (h h' : Heap) (list : Value) (vs : List Value) (last : Value) : Prop :=
  ∃ ids : List PairId, ids.Nodup ∧ (∀ id ∈ ids, h.pair? id = none) ∧ h'.IsChain list ids vs last

theorem IsChain.grows (chain : h.IsChain r ids vs last) (grows : Grows touched h h') :
    h'.IsChain r ids vs last := by
  induction chain with
  | nil last => exact .nil last
  | cons first _ ih => exact .cons (grows.pairs first) ih

theorem IsChain.isSome (chain : h.IsChain r ids vs last) : ∀ id ∈ ids, (h.pair? id).isSome := by
  induction chain with
  | nil last => simp
  | cons first _ ih => exact List.forall_mem_cons.2 ⟨by rw [first]; rfl, ih⟩

/-- What is not there was not there before. -/
theorem Grows.pair?_eq_none (grows : Grows touched h h') {id : PairId}
    (absent : h'.pair? id = none) : h.pair? id = none := by
  cases found : h.pair? id with
  | none => rfl
  | some p =>
    rw [grows.pairs found] at absent
    cases absent

namespace Builds

theorem nil (h h' : Heap) (last : Value) : Builds h h' last [] last :=
  ⟨[], List.nodup_nil, by simp, .nil last⟩

/-- One more element in front. -/
theorem cons (built : Builds h h₁ r vs last) (grows : Grows touched h h₁) (v : Value) :
    Builds h (h₁.newPair v r).2 (h₁.newPair v r).1 (v :: vs) last := by
  obtain ⟨ids, distinct, fresh, chain⟩ := built
  have absent : h₁.pair? ⟨h₁.pairs.size⟩ = none := Array.getElem?_size
  refine ⟨⟨h₁.pairs.size⟩ :: ids, List.nodup_cons.2 ⟨fun member => ?_, distinct⟩,
    List.forall_mem_cons.2 ⟨grows.pair?_eq_none absent, fresh⟩, .cons Array.getElem?_push_size
      (chain.grows (.newPair h₁ v r))⟩
  have there := chain.isSome _ member
  rw [absent] at there
  cases there

theorem grows (built : Builds h h₁ r vs last) (grows : Grows touched h₁ h') :
    Builds h h' r vs last := by
  obtain ⟨ids, distinct, fresh, chain⟩ := built
  exact ⟨ids, distinct, fresh, chain.grows grows⟩

/-- What is new now is new to every heap before. -/
theorem since (built : Builds h h₁ r vs last) (grows : Grows touched h₀ h) :
    Builds h₀ h₁ r vs last := by
  obtain ⟨ids, distinct, fresh, chain⟩ := built
  exact ⟨ids, distinct, fun id member => grows.pair?_eq_none (fresh id member), chain⟩

end Builds

end Heap

/-! ## Data -/

theorem Heap.Holds.grows {h h' : Heap} {v : Value} {d : Data} {touched : List ScopeId}
    (holds : h.Holds v d) (grows : Grows touched h h') : h'.Holds v d := by
  induction holds with
  | undefined => exact .undefined
  | null => exact .null
  | boolean b => exact .boolean b
  | string text => exact .string text
  | pair there _ _ first second => exact .pair (grows.pairs there) first second

/-- Values for the same data that are not pairs are the same, and those for other data differ. -/
theorem Heap.Holds.strictEquals_of_leaf {h : Heap} {v w : Value} {d e : Data} (left : h.Holds v d)
    (right : h.Holds w e) (leaf : TypeTest.pair.holds v = false) :
    v.strictEquals w = decide (d = e) := by
  cases left with
  | pair there => cases leaf
  | _ =>
    cases right <;> simp [Value.strictEquals]

namespace ListFunctions

variable {limit : Nat} {goal : Config → Prop} {w : World} {h h₀ : Heap} {stack : Stack}
  {base env inner : Env} {call : ScopeId} {k : ContinuationId} {f : ClosureId} {v xs : Value}
  {vs us : List Value} {span : Span}

/-- A function of the library is called from inside of its own body. -/
theorem calls_self (room : Nat) (params : List String) {around : Env} {slots : List (Named Slot)}
    {x : String} {fn : Function} {exprs : List Expr} {args : List Value}
    (sees : h.Sees around slots base) (absent : Named.seek x slots = none)
    (offers : h.Offers base fn) (named : fn.id = some ⟨x, {}⟩)
    (simple : fn.params.map Param.unspanned = params.map param)
    (counted : args.length = params.length) (given : GivesAll (around ++ base) room h exprs args h)
    (space : stack.depth + (room + 1) ≤ limit)
    (onwards : ∀ h' call k, Grows [] h h' → h'.Sees [call] [Named.called params args k] base →
      h'.continuation? k = some ⟨.undelimited, around ++ base, stack⟩ →
      From limit goal w h' (.statement (.block fn.body)) ([call] ++ base) stack) :
    From limit goal w h (.expression (Sketch.call x exprs)) (around ++ base) stack := by
  obtain ⟨y, f, same, found, closure⟩ := offers
  cases named.symm.trans same
  have closure : h.closure? f = some ⟨fn, [] ++ base⟩ := closure
  refine .call room (.name ((get_of_seek_none sees.shown absent).trans found)) given space ?_
  refine .called params closure simple counted
    ⟨.nil, sees.serves, (List.nodup_append.1 sees.distinct).2.1⟩ (by omega) ?_
  intro h' call grows _ sees' home
  exact onwards h' call _ grows sees' home

/-! ## Putting a list in front -/

/-- The body of `append` hands a new list to the return point. -/
theorem append_body {ys : Value} (sees : h.Sees [call] [Named.called ["xs", "ys"] [xs, ys] k] base)
    (offers : h.Offers base Prelude.append) (list : h.IsListOf xs vs)
    (space : stack.depth + (2 * vs.length + 4) ≤ limit)
    (onwards : ∀ h' r env', Grows [] h h' → Builds h h' r vs ys →
      FromCall limit goal w h' (.continuation k) env' stack (.continuation k) [r] {} env') :
    From limit goal w h (.statement (.block Prelude.append.body)) ([call] ++ base) stack := by
  -- each element of the list adds two frames: the return, and the call of `pair`
  induction vs generalizing h xs call k stack with
  | nil =>
    have room : stack.depth + 4 ≤ limit := space
    cases list
    refine .block sees (by decide) (fits 1 room) ?_
    intro h₁ block grows₁ _ sees₁
    refine .returning (sees₁.lookup? rfl) (fits 1 room)
      (.chosen 1 true (.test sees₁ .null rfl rfl rfl) (fits 3 room) ?_)
    have given : Gives ([block, call] ++ base) 0 h₁ (name "ys") ys h₁ := .sight sees₁ rfl
    refine given.attains (fits 1 room) ?_
    exact .applied le_rfl (fits 1 room) (onwards h₁ ys _ grows₁ (.nil h h₁ ys))
  | cons v vs ih =>
    have space : stack.depth + (2 * vs.length + 6) ≤ limit := space
    have room : stack.depth + 6 ≤ limit := by omega
    obtain ⟨id, tail, rfl, first, rest⟩ := list.exists_pair
    refine .block sees (by decide) (fits 1 room) ?_
    intro h₁ block grows₁ _ sees₁
    have first₁ := grows₁.pairs first
    refine .returning (sees₁.lookup? rfl) (fits 1 room)
      (.chosen 1 false (.test sees₁ .null rfl rfl rfl) (fits 3 room) ?_)
    refine .callLast 1 [Sketch.call "head" [name "xs"]]
      (.name (sees₁.builtin (.native .pair) rfl)) (.cons (.library sees₁ .head rfl
        (.cons (.sight sees₁ rfl) .nil) rfl (Native.call_head first₁)) .nil)
      (fits 3 room) ?_
    refine calls_self 1 ["xs", "ys"] sees₁ rfl (offers.grown sees.serves grows₁) rfl rfl rfl
      (.cons (.library sees₁ .tail rfl (.cons (.sight sees₁ rfl) .nil) rfl
        (Native.call_tail first₁)) (.cons (.sight sees₁ rfl) .nil)) (fits 4 room) ?_
    intro h₂ call' k' grows₂ sees₂ home
    have grows := grows₁.trans grows₂
    refine ih sees₂ (offers.grown sees.serves grows) (rest.grows grows)
      (by show stack.depth + 2 + _ ≤ limit; omega) ?_
    intro h₃ r env' grows₃ built
    refine .resume (grows₃.lasts.continuations home) (fits 2 room) ?_
    refine .applied le_rfl (fits 2 room) ?_
    refine .native rfl (Native.call_pair v r h₃ w) (fits 1 room) ?_
    refine .applied le_rfl (fits 1 room) (onwards _ _ _ ?_ ?_)
    · exact grows.trans <| grows₃.trans (.newPair h₃ v r)
    · exact (built.since grows).cons (grows.trans grows₃) v

/-! ## Turning a list around -/

/-- Calls of the inner function of `reverse` move one element after the other. -/
theorem rev_call {original reversed last : Value} {block : ScopeId}
    (closure : h.closure? f = some ⟨Prelude.rev, [block, call] ++ base⟩)
    (sees : h.Sees [block, call]
      [[("rev", .assigned (.closure f) false)], Named.called ["xs"] [xs] k] base)
    (list : h.IsListOf original vs) (built : Builds h₀ h reversed us last) (grows₀ : Grows [] h₀ h)
    (space : stack.depth + (vs.length + 4) ≤ limit)
    (onwards : ∀ h' r, Grows [] h h' → Builds h₀ h' r (vs.reverse ++ us) last →
      From limit goal w h' (.value r) env stack) : FromCall limit goal w h v inner stack
        (.closure f) [original, reversed] span env := by
  -- each element adds one frame, that of its return
  induction vs generalizing h original reversed us stack env inner v span with
  | nil =>
    have room : stack.depth + 4 ≤ limit := space
    cases list
    refine .enter ["original", "reversed"] closure rfl rfl rfl (by decide) sees (fits 1 room) ?_
    intro h₁ call' block' _ grows₁ _ _ sees₁ home
    refine .returning (sees₁.lookup? rfl) (fits 1 room)
      (.chosen 1 true (.test sees₁ .null rfl rfl rfl) (fits 3 room) ?_)
    have given : Gives ([block', call', block, call] ++ base) 0 h₁ (name "reversed") reversed h₁ :=
      .sight sees₁ rfl
    refine given.attains (fits 1 room) ?_
    exact .returned home (fits 1 room) (fits 0 room)
      (onwards h₁ reversed grows₁ (built.grows grows₁))
  | cons u vs ih =>
    have space : stack.depth + (vs.length + 5) ≤ limit := space
    have room : stack.depth + 5 ≤ limit := by omega
    obtain ⟨id, tail, rfl, first, rest⟩ := list.exists_pair
    refine .enter ["original", "reversed"] closure rfl rfl rfl (by decide) sees (fits 1 room) ?_
    intro h₁ _ _ _ grows₁ _ _ sees₁ home
    have first₁ := grows₁.pairs first
    refine .returning (sees₁.lookup? rfl) (fits 1 room)
      (.chosen 1 false (.test sees₁ .null rfl rfl rfl) (fits 3 room) ?_)
    refine .call 2 (.sight sees₁ rfl) (.cons (.library sees₁ .tail rfl (.cons (.sight sees₁ rfl)
      .nil) rfl (Native.call_tail first₁)) (.cons (.library sees₁ .pair rfl (.cons (.library sees₁
        .head rfl (.cons (.sight sees₁ rfl) .nil) rfl (Native.call_head first₁))
          (.cons (.sight sees₁ rfl) .nil)) rfl (Native.call_pair u reversed h₁)) .nil))
      (fits 4 room) ?_
    have grows₂ := Grows.newPair h₁ u reversed
    have grows := grows₁.trans grows₂
    have built' := (built.grows grows₁).cons (grows₀.trans grows₁) u
    refine ih (grows.lasts.closures closure) (sees.grown grows) (rest.grows grows) built'
      (grows₀.trans grows) (by show stack.depth + 1 + _ ≤ limit; omega) ?_
    intro h₃ r grows₃ built₃
    refine .returned ((grows₂.trans grows₃).lasts.continuations home) (fits 1 room)
      (fits 0 room) (onwards h₃ r (grows.trans grows₃) ?_)
    rw [List.reverse_cons, List.append_assoc]
    exact built₃

/-- The body of `reverse` hands a new list to the return point. -/
theorem reverse_body (sees : h.Sees [call] [Named.called ["xs"] [xs] k] base)
    (list : h.IsListOf xs vs) (space : stack.depth + (vs.length + 5) ≤ limit)
    (onwards : ∀ h' r env', Grows [] h h' → Builds h h' r vs.reverse .null →
      FromCall limit goal w h' (.continuation k) env' stack (.continuation k) [r] {} env') :
    From limit goal w h (.statement (.block Prelude.reverse.body)) ([call] ++ base) stack := by
  have room : stack.depth + 5 ≤ limit := by omega
  refine .block sees (by decide) (fits 2 room) ?_
  intro h₁ block grows₁ fresh sees₁
  refine .function sees₁ rfl rfl (fits 2 room) ?_
  intro h₂ rev grows₂ closure sees₂
  have grows : Grows [] h h₂ := (grows₁.trans grows₂).old (by simp [fresh])
  refine .next (fits 0 room) (.returning (sees₂.lookup? rfl) (fits 1 room) ?_)
  refine .call 0 (.sight sees₂ rfl) (.cons (.sight sees₂ rfl) (.cons (.literal .null) .nil))
    (fits 2 room) ?_
  refine rev_call closure sees₂ (list.grows grows) (.nil h h₂ .null) grows
    (by show stack.depth + 1 + _ ≤ limit; omega) ?_
  intro h₃ r grows₃ built
  rw [List.append_nil] at built
  exact .applied le_rfl (fits 1 room) (onwards h₃ r _ (grows.trans grows₃) built)

/-! ## Comparing values -/

section Equal

variable {xs ys : Value} {d e : Data}

variable (sees : h.Sees [call] [Named.called ["xs", "ys"] [xs, ys] k] base) (left : h.Holds xs d)
  (right : h.Holds ys e) (onwards : ∀ h' env', Grows [] h h' →
    FromCall limit goal w h' (.continuation k) env' stack (.continuation k)
      [.boolean (decide (d = e))] {} env')

include sees left right onwards

/-- What `equal` does with a value that is not a pair. -/
theorem equal_leaf (leaf : TypeTest.pair.holds xs = false) (space : stack.depth + 4 ≤ limit) :
    From limit goal w h (.statement (.block Prelude.equal.body)) ([call] ++ base) stack := by
  refine .block sees (by decide) (fits 1 space) ?_
  intro h₁ block grows₁ _ sees₁
  refine .returning (sees₁.lookup? rfl) (fits 1 space)
    (.chosen 1 (TypeTest.pair.holds xs) (.test sees₁ .pair rfl rfl rfl) (fits 3 space) ?_)
  rw [leaf]
  have given : Gives ([block, call] ++ base) 1 h₁ (Sketch.equal (name "xs") (name "ys"))
      (.boolean (xs.strictEquals ys)) h₁ :=
    .binary (.sight sees₁ rfl) (.sight sees₁ rfl) (by simp) rfl
  refine given.attains (fits 2 space) ?_
  rw [left.strictEquals_of_leaf right leaf]
  exact .applied le_rfl (fits 1 space) (onwards h₁ _ grows₁)

/-- The body of `equal` hands to the return point whether the data are the same. -/
theorem equal_body (offers : h.Offers base Prelude.equal)
    (space : stack.depth + (2 * d.depth + 4) ≤ limit) :
    From limit goal w h (.statement (.block Prelude.equal.body)) ([call] ++ base) stack := by
  induction d generalizing h xs ys e call k stack with
  | undefined | null | boolean | string =>
    refine equal_leaf sees left right onwards ?_ space
    cases left
    rfl
  | pair head tail first second =>
    have deep : 2 * max head.depth tail.depth + 2 = 2 * (Data.pair head tail).depth := rfl
    have deepHead := le_max_left head.depth tail.depth
    have deepTail := le_max_right head.depth tail.depth
    have room : stack.depth + 6 ≤ limit := by omega
    cases left with
    | @pair id a b _ _ there heads tails =>
    refine .block sees (by decide) (fits 1 room) ?_
    intro h₁ block grows₁ _ sees₁
    have there₁ := grows₁.pairs there
    have offers₁ := offers.grown sees.serves grows₁
    have isPair : Gives ([block, call] ++ base) 1 h₁ (Sketch.call "is_pair" [name "ys"])
        (.boolean (TypeTest.pair.holds ys)) h₁ :=
      .test sees₁ .pair rfl rfl rfl
    refine .returning (sees₁.lookup? rfl) (fits 1 room)
      (.chosen 1 true (.test sees₁ .pair rfl rfl rfl) (fits 3 room) ?_)
    refine .asksBoth (fits 2 room) (.asksBoth (fits 3 room)
      (isPair.attains (fits 4 room) (.decided _ (fits 2 room) ?_)))
    cases right with
    | undefined | null | boolean | string =>
      -- the other value is not a pair, and nothing else is looked at
      refine .decided false (fits 1 room) (.applied le_rfl (fits 1 room) ?_)
      have differ := onwards h₁ ([block, call] ++ base) grows₁
      rw [decide_eq_false (by simp)] at differ
      exact differ
    | @pair id' a' b' head' tail' there' heads' tails' =>
      have there'₁ := grows₁.pairs there'
      refine calls_self 1 ["xs", "ys"] sees₁ rfl offers₁ rfl rfl rfl
        (.cons (.library sees₁ .head rfl (.cons (.sight sees₁ rfl) .nil) rfl
          (Native.call_head there₁)) (.cons (.library sees₁ .head rfl
            (.cons (.sight sees₁ rfl) .nil) rfl (Native.call_head there'₁)) .nil))
        (fits 4 room) ?_
      intro h₂ call₂ k₂ grows₂ sees₂ home₂
      have until₂ := grows₁.trans grows₂
      refine first sees₂ (heads.grows until₂) (heads'.grows until₂) ?_
        (offers.grown sees.serves until₂) (by show stack.depth + 2 + _ ≤ limit; omega)
      intro h₃ _ grows₃
      have since := grows₂.trans grows₃
      refine .resume (grows₃.lasts.continuations home₂) (fits 2 room) (.decided _ (fits 1 room) ?_)
      by_cases same : head = head'
      · subst same
        rw [decide_eq_true rfl]
        have sees₃ := sees₁.grown since
        refine calls_self 1 ["xs", "ys"] sees₃ rfl (offers₁.grown sees₁.serves since) rfl rfl rfl
          (.cons (.library sees₃ .tail rfl (.cons (.sight sees₃ rfl) .nil) rfl
            (Native.call_tail (since.pairs there₁))) (.cons (.library sees₃ .tail rfl
              (.cons (.sight sees₃ rfl) .nil) rfl (Native.call_tail (since.pairs there'₁))) .nil))
          (fits 3 room) ?_
        intro h₄ call₄ k₄ grows₄ sees₄ home₄
        have until₄ := grows₁.trans <| since.trans grows₄
        refine second sees₄ (tails.grows until₄) (tails'.grows until₄) ?_
          (offers.grown sees.serves until₄) (by show stack.depth + 1 + _ ≤ limit; omega)
        intro h₅ _ grows₅
        refine .resume (grows₅.lasts.continuations home₄) (fits 1 room)
          (.applied le_rfl (fits 1 room) ?_)
        have answer := onwards h₅ ([block, call] ++ base) (until₄.trans grows₅)
        simp only [Data.pair.injEq, true_and] at answer
        exact answer
      · rw [decide_eq_false same]
        refine .applied le_rfl (fits 1 room) ?_
        have differ := onwards h₃ ([block, call] ++ base) (grows₁.trans since)
        rw [decide_eq_false (by simp [same])] at differ
        exact differ

end Equal

end ListFunctions

end SourceMachine
