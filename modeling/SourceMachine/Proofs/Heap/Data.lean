import Mathlib
import SourceMachine.Heap.Basic

/-!
# Data

Data are values without numbers and functions, written out as trees.  In a heap the same data can
be held by many values, and a pair that is shared is written out at every place.
-/

namespace SourceMachine

/-- A value without numbers and functions, written out. -/
inductive Data where
  | undefined
  | null
  | boolean (value : Bool)
  | string (text : String)
  | pair (head tail : Data)
deriving DecidableEq

/-- How many pairs lie one inside of the other. -/
def Data.depth : Data → Nat
  | .pair head tail => max head.depth tail.depth + 1
  | _ => 0

/-- A value stands for these data. -/
inductive Heap.Holds (h : Heap) : Value → Data → Prop where
  | undefined : Holds h .undefined .undefined
  | null : Holds h .null .null
  | boolean (value : Bool) : Holds h (.boolean value) (.boolean value)
  | string (text : String) : Holds h (.string text) (.string text)
  | pair {id : PairId} {a b : Value} {head tail : Data} (there : h.pair? id = some (a, b))
      (first : Holds h a head) (second : Holds h b tail) : Holds h (.pair id) (.pair head tail)

/-- A value holds at most one tree of data. -/
theorem Heap.Holds.unique {h : Heap} {v : Value} {d e : Data} (first : h.Holds v d)
    (second : h.Holds v e) : d = e := by
  induction first generalizing e with
  | undefined | null | boolean | string =>
    cases second
    rfl
  | pair there _ _ ihHead ihTail =>
    cases second with
    | pair there' head tail =>
      cases there.symm.trans there'
      rw [ihHead head, ihTail tail]

end SourceMachine
