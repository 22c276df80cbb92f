import Mathlib
import SourceMachine.Primitive.Native

/-!
# Following tails

`Heap.afterTails` follows the tails of a value one after the other, through any heap: the tails
may end in `null`, end in something else, or come back to a pair.  No two of these happen
together, and one of them does after no more tails than there are pairs (`exists_verdict`).

`Heap.isListFrom` remembers the pairs it has passed.  From a value whose tails end in `null` it
never meets one of them again, because a walk that comes back to a pair goes round for ever
(`afterTails_ne_null_of_return`).
-/

namespace SourceMachine

namespace Heap

/-- The tail of a pair.  Nothing else has one, and neither has an address outside of the heap. -/
def tail? (h : Heap) : Value → Option Value
  | .pair id => (h.pair? id).map Prod.snd
  | _ => none

/-- What is reached from a value by following so many tails. -/
def afterTails (h : Heap) : Nat → Value → Option Value
  | 0, v => some v
  | n + 1, v => (h.tail? v).bind (h.afterTails n)

variable {h h' : Heap} {v u : Value} {id : PairId} {seen : Std.HashSet PairId}

theorem tail?_of_found {parts : Value × Value} (found : h.pair? id = some parts) :
    h.tail? (.pair id) = some parts.2 := by
  rw [tail?, found]
  rfl

theorem tail?_of_absent (absent : h.pair? id = none) : h.tail? (.pair id) = none := by
  rw [tail?, absent]
  rfl

theorem afterTails_succ {n : Nat} {tail : Value} (next : h.tail? v = some tail) :
    h.afterTails (n + 1) v = h.afterTails n tail := by
  rw [afterTails, next]
  rfl

theorem afterTails_succ_of_none (n : Nat) (last : h.tail? v = none) :
    h.afterTails (n + 1) v = none := by
  rw [afterTails, last]
  rfl

theorem afterTails_add (n m : Nat) (v : Value) :
    h.afterTails (n + m) v = (h.afterTails n v).bind (h.afterTails m) := by
  induction n generalizing v with
  | zero => rw [Nat.zero_add]; rfl
  | succ n ih =>
    rw [Nat.add_right_comm, afterTails, afterTails]
    cases h.tail? v with
    | none => rfl
    | some tail => exact ih tail

/-- What is reached later is reached from what is reached earlier. -/
theorem afterTails_sub {n m : Nat} (early : h.afterTails n v = some u) (before : n ≤ m) :
    h.afterTails m v = h.afterTails (m - n) u := by
  have whole := h.afterTails_add n (m - n) v
  rw [Nat.add_sub_cancel' before, early] at whole
  exact whole

/-- The walk stops at a value without a tail. -/
theorem le_of_afterTails {n m : Nat} {last : Value} (stop : h.afterTails n v = some last)
    (none : h.tail? last = .none) (reached : h.afterTails m v = some u) : m ≤ n := by
  by_contra later
  rw [afterTails_sub stop (by omega), show m - n = m - n - 1 + 1 by omega,
    afterTails_succ_of_none _ none] at reached
  cases reached

/-- A walk that comes back to where it started never reaches a value without a tail. -/
theorem tail?_ne_none_of_return {n m : Nat} (back : h.afterTails (n + 1) v = some v)
    (reached : h.afterTails m v = some u) : h.tail? u ≠ none := by
  intro last
  induction m using Nat.strong_induction_on with
  | _ m ih =>
    have long : n + 1 ≤ m := le_of_afterTails reached last back
    -- one round less leads to the same value
    rw [afterTails_sub back long] at reached
    exact ih (m - (n + 1)) (by omega) reached

/-- Pairs that come up twice come up for ever. -/
theorem tail?_ne_none_of_revisit {i j m : Nat} (between : i < j)
    (first : h.afterTails i v = some (.pair id)) (second : h.afterTails j v = some (.pair id))
    (reached : h.afterTails m v = some u) : h.tail? u ≠ none := by
  intro last
  have early : i ≤ m := le_of_afterTails reached last first
  rw [afterTails_sub first between.le, show j - i = j - i - 1 + 1 by omega] at second
  rw [afterTails_sub first early] at reached
  exact tail?_ne_none_of_return second reached last

theorem tail?_null : h.tail? .null = none := rfl

/-! ## The walk that remembers pairs -/

theorem unseenCount_empty (h : Heap) : h.unseenCount ∅ = h.pairs.size := by
  rw [unseenCount, List.countP_eq_length.2 fun _ _ => by simp, List.length_range]

/-- Whether a walk ends depends on the tails of the heap alone. -/
theorem isListFrom_congr (same : ∀ id, h'.tail? (.pair id) = h.tail? (.pair id)) (seen v) :
    h'.isListFrom seen v = h.isListFrom seen v := by
  fun_induction isListFrom h seen v with
  | case1 seen => rw [isListFrom]
  | case2 seen id inside => rw [isListFrom, dif_pos inside]
  | case3 seen id fresh head tail found ih =>
    have next := (same id).trans (tail?_of_found found)
    rw [isListFrom, dif_neg fresh]
    split
    · next head' tail' found' =>
      rw [tail?_of_found found'] at next
      cases next
      exact ih
    · next absent =>
      rw [tail?_of_absent absent] at next
      cases next
  | case4 seen id fresh absent =>
    have next := (same id).trans (tail?_of_absent absent)
    rw [isListFrom, dif_neg fresh]
    split
    · next found' =>
      rw [tail?_of_found found'] at next
      cases next
    · rfl
  | case5 seen v notNull notPair => rw [isListFrom] <;> assumption

theorem isList_congr (same : ∀ id, h'.tail? (.pair id) = h.tail? (.pair id)) (v : Value) :
    h'.isList v = h.isList v :=
  isListFrom_congr same ∅ v

/-- The walk succeeds exactly from the values whose tails end in `null` and pass no pair that
    was seen before. -/
theorem isListFrom_eq_true_iff (seen : Std.HashSet PairId) (v : Value) :
    h.isListFrom seen v = true ↔ (∃ n, h.afterTails n v = some .null) ∧
      ∀ i id, h.afterTails i v = some (.pair id) → id ∉ seen := by
  fun_induction isListFrom h seen v with
  | case1 seen =>
    refine iff_of_true rfl ⟨⟨0, rfl⟩, fun i id reached => ?_⟩
    cases i with
    | zero => cases reached
    | succ i => cases (afterTails_succ_of_none i tail?_null).symm.trans reached
  | case2 seen id inside =>
    refine iff_of_false Bool.false_ne_true ?_
    rintro ⟨-, fresh⟩
    exact fresh 0 id rfl inside
  | case3 seen id fresh head tail found ih =>
    have next := tail?_of_found found
    rw [ih]
    constructor
    · rintro ⟨⟨n, ends⟩, unseen⟩
      refine ⟨⟨n + 1, (afterTails_succ next).trans ends⟩, fun i other reached => ?_⟩
      cases i with
      | zero =>
        cases reached
        exact fresh
      | succ i =>
        rw [afterTails_succ next] at reached
        exact fun inside => unseen i other reached (Std.HashSet.mem_insert.2 (.inr inside))
    · rintro ⟨⟨n, ends⟩, unseen⟩
      refine ⟨?_, fun i other reached inside => ?_⟩
      · cases n with
        | zero => cases ends
        | succ n => exact ⟨n, (afterTails_succ next).symm.trans ends⟩
      · have later := (afterTails_succ next).trans reached
        rcases Std.HashSet.mem_insert.1 inside with same | older
        · -- the pair just passed does not come up again, since the walk ends
          cases beq_iff_eq.1 same
          exact tail?_ne_none_of_return later ends tail?_null
        · exact unseen (i + 1) other later older
  | case4 seen id fresh absent =>
    refine iff_of_false Bool.false_ne_true ?_
    rintro ⟨⟨n, ends⟩, -⟩
    cases n with
    | zero => cases ends
    | succ n => cases (afterTails_succ_of_none n (tail?_of_absent absent)).symm.trans ends
  | case5 seen v notNull notPair =>
    refine iff_of_false Bool.false_ne_true ?_
    rintro ⟨⟨n, ends⟩, -⟩
    have last : h.tail? v = none := by
      cases v with
      | pair id => exact absurd rfl (notPair id)
      | _ => rfl
    cases n with
    | zero => exact notNull (Option.some.inj ends)
    | succ n => cases (afterTails_succ_of_none n last).symm.trans ends

theorem isList_eq_true_iff (h : Heap) (v : Value) :
    h.isList v = true ↔ ∃ n, h.afterTails n v = some .null := by
  rw [isList, isListFrom_eq_true_iff, and_iff_left]
  exact fun i id _ => Std.HashSet.not_mem_empty

/-- The walk is over at a value without a tail, or at a pair that was seen before or that was
    passed since, and it gets there before it runs out of unseen pairs. -/
theorem exists_end (h : Heap) (seen : Std.HashSet PairId) (v : Value) :
    ∃ n ≤ h.unseenCount seen, ∃ u, h.afterTails n v = some u ∧
      (h.tail? u = none ∨ ∃ id, u = .pair id ∧
        (id ∈ seen ∨ ∃ i < n, h.afterTails i v = some (.pair id))) := by
  fun_induction isListFrom h seen v with
  | case1 seen => exact ⟨0, Nat.zero_le _, .null, rfl, .inl rfl⟩
  | case2 seen id inside => exact ⟨0, Nat.zero_le _, .pair id, rfl, .inr ⟨id, rfl, .inl inside⟩⟩
  | case3 seen id fresh head tail found ih =>
    have next := tail?_of_found found
    have fewer := unseenCount_insert_lt fresh found
    obtain ⟨n, short, u, reached, reason⟩ := ih
    refine ⟨n + 1, by omega, u, (afterTails_succ next).trans reached, ?_⟩
    rcases reason with last | ⟨other, rfl, inside | ⟨i, before, passed⟩⟩
    · exact .inl last
    · refine .inr ⟨other, rfl, ?_⟩
      rcases Std.HashSet.mem_insert.1 inside with same | older
      · cases beq_iff_eq.1 same
        exact .inr ⟨0, Nat.succ_pos n, rfl⟩
      · exact .inl older
    · exact .inr ⟨other, rfl, .inr ⟨i + 1, by omega, (afterTails_succ next).trans passed⟩⟩
  | case4 seen id fresh absent =>
    exact ⟨0, Nat.zero_le _, .pair id, rfl, .inl (tail?_of_absent absent)⟩
  | case5 seen v notNull notPair =>
    refine ⟨0, Nat.zero_le _, v, rfl, .inl ?_⟩
    cases v with
    | pair id => exact absurd rfl (notPair id)
    | _ => rfl

/-- A walk that does not end in `null` ends in another value without a tail, or comes back to a
    pair, and not if it does end in `null`. -/
theorem isList_eq_false_iff (h : Heap) (v : Value) : h.isList v = false ↔
      (∃ n u, h.afterTails n v = some u ∧ u ≠ .null ∧ h.tail? u = none) ∨
      ∃ i j id, i < j ∧ h.afterTails i v = some (.pair id) ∧
        h.afterTails j v = some (.pair id) := by
  rw [← Bool.not_eq_true, isList_eq_true_iff]
  constructor
  · intro never
    obtain ⟨n, -, u, reached, last | ⟨id, rfl, inside | ⟨i, before, passed⟩⟩⟩ := h.exists_end ∅ v
    · refine .inl ⟨n, u, reached, ?_, last⟩
      rintro rfl
      exact never ⟨n, reached⟩
    · exact absurd inside Std.HashSet.not_mem_empty
    · exact .inr ⟨i, n, id, before, passed, reached⟩
  · rintro (⟨n, u, reached, other, last⟩ | ⟨i, j, id, before, first, second⟩) ⟨m, ends⟩
    · have same : n = m :=
        le_antisymm (le_of_afterTails ends tail?_null reached) (le_of_afterTails reached last ends)
      rw [same, ends] at reached
      exact other (Option.some.inj reached).symm
    · exact tail?_ne_none_of_revisit before first second ends tail?_null

end Heap

/-- **Lists.**  Whatever cycles and shared pairs the heap has, `is_list` answers, and leaves the
    world as it is.  The answer is yes exactly when the tails of its argument end in `null`, and
    no exactly when they end in another value that has no tail or come back to a pair.  The walk
    is over after no more tails than there are pairs, and the heads do not matter: any heap with
    the same tails gives the same answer. -/
theorem is_list_follows_tails (args : List Value) (w : World) :
    ∃ answer, Native.isList.call args w = (.ok (.boolean answer), w) ∧
      (answer = true ↔ ∃ n, w.heap.afterTails n (argument args 0) = some .null) ∧
      (answer = false ↔
        (∃ n u, w.heap.afterTails n (argument args 0) = some u ∧ u ≠ .null ∧
          w.heap.tail? u = none) ∨
        ∃ i j id, i < j ∧ w.heap.afterTails i (argument args 0) = some (.pair id) ∧
          w.heap.afterTails j (argument args 0) = some (.pair id)) ∧
      (∃ n ≤ w.heap.pairs.size, ∃ u, w.heap.afterTails n (argument args 0) = some u ∧
        (w.heap.tail? u = none ∨ ∃ i < n, w.heap.afterTails i (argument args 0) = some u)) ∧
      ∀ h : Heap, (∀ id, h.tail? (.pair id) = w.heap.tail? (.pair id)) →
        h.isList (argument args 0) = answer := by
  refine ⟨w.heap.isList (argument args 0), rfl, w.heap.isList_eq_true_iff _,
    w.heap.isList_eq_false_iff _, ?_, fun h same => Heap.isList_congr same _⟩
  obtain ⟨n, short, u, reached, reason⟩ := w.heap.exists_end ∅ (argument args 0)
  rw [Heap.unseenCount_empty] at short
  refine ⟨n, short, u, reached, ?_⟩
  rcases reason with last | ⟨id, rfl, inside | passed⟩
  · exact .inl last
  · exact absurd inside Std.HashSet.not_mem_empty
  · exact .inr passed

end SourceMachine
