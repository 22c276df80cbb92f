import Std.Data.HashSet.Lemmas
import SourceMachine.Heap.Basic

/-!
# Lists

A list is `null`, or a pair whose tail is a list.  Whether a value is one is found by
following tails; a pair that comes up again would do so for ever, so the pairs that
were passed are remembered.
-/

namespace SourceMachine.Heap

/-- Make a list of values that goes on with a tail. -/
def newListOnto (h : Heap) (tail : Value) : (reversed : List Value) → Value × Heap
  | [] => (tail, h)
  | v :: vs =>
    let (p, h) := h.newPair v tail
    newListOnto h p vs

/-- Make a list of values. -/
def newList (h : Heap) (values : List Value) : Value × Heap :=
  h.newListOnto .null values.reverse

/-- How many pairs are not among those that were seen. -/
def unseenCount (h : Heap) (seen : Std.HashSet PairId) : Nat :=
  (List.range h.pairs.size).countP fun index => !seen.contains ⟨index⟩

theorem countP_lt_of_imp {α : Type} {p q : α → Bool} {l : List α} {a : α}
    (fewer : ∀ x, q x = true → p x = true) (member : a ∈ l) (counted : p a = true)
    (left : q a = false) : l.countP q < l.countP p := by
  induction l with
  | nil => cases member
  | cons x xs ih =>
    rw [List.countP_cons, List.countP_cons]
    cases List.mem_cons.1 member with
    | inl same =>
      have rest : xs.countP q ≤ xs.countP p := List.countP_mono_left fun x _ => fewer x
      rw [← same, if_pos counted, if_neg (by rw [left]; exact Bool.false_ne_true)]
      exact Nat.lt_succ_of_le rest
    | inr later =>
      have head : (if q x = true then 1 else 0) ≤ if p x = true then 1 else 0 := by
        by_cases here : q x = true
        · exact Nat.le_of_eq ((if_pos here).trans (if_pos (fewer x here)).symm)
        · rw [if_neg here]
          exact Nat.zero_le _
      exact Nat.add_lt_add_of_lt_of_le (ih later) head

theorem unseenCount_insert_lt {h : Heap} {seen : Std.HashSet PairId} {id : PairId}
    {parts : Value × Value} (fresh : ¬seen.contains id = true) (found : h.pair? id = some parts) :
    h.unseenCount (seen.insert id) < h.unseenCount seen := by
  obtain ⟨inside, -⟩ := Array.getElem?_eq_some_iff.1 found
  refine countP_lt_of_imp (a := id.index) (fun index unseen => ?_) (List.mem_range.2 inside) ?_ ?_
  · rw [Std.HashSet.contains_insert, Bool.not_or, Bool.and_eq_true] at unseen
    exact unseen.2
  · rw [Bool.not_eq_true']
    exact Bool.eq_false_iff.2 fresh
  · rw [Std.HashSet.contains_insert, beq_self_eq_true, Bool.true_or]
    rfl

/-- Whether following tails reaches `null` without passing a pair that was seen, or
    one pair twice. -/
def isListFrom (h : Heap) (seen : Std.HashSet PairId) : Value → Bool
  | .null => true
  | .pair id =>
    if _fresh : seen.contains id then false
    else
      match _found : h.pair? id with
      | some (_, tail) => isListFrom h (seen.insert id) tail
      | none => false
  | _ => false
termination_by h.unseenCount seen
decreasing_by exact unseenCount_insert_lt _fresh _found

/-- Whether a value is a list. -/
def isList (h : Heap) (v : Value) : Bool :=
  h.isListFrom ∅ v

/-- Change the head of a pair. -/
def setHead (h : Heap) (id : PairId) (value : Value) : Heap :=
  { h with pairs := h.pairs.modify id.index fun p => (value, p.2) }

/-- Change the tail of a pair. -/
def setTail (h : Heap) (id : PairId) (value : Value) : Heap :=
  { h with pairs := h.pairs.modify id.index fun p => (p.1, value) }

end SourceMachine.Heap
