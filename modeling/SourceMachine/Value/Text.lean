import Std.Data.HashSet.Basic
import SourceMachine.Heap.Basic
import SourceMachine.Number.Layout
import SourceMachine.Text.Quoted

/-!
# Values as text

A pair is written as its head and its tail between brackets.  Inside of those
brackets the pair itself is only marked, so that the text of a cyclic structure
ends.  Pairs still to be written are kept in a list of pieces, and a long list
takes no more room on the call stack than a short one.
-/

namespace SourceMachine

/-- What is left to write. -/
inductive Piece where
  /-- A value, inside of which at most `room` more pairs can be opened. -/
  | value (value : Value) (room : Nat)
  | text (text : String)
  /-- The brackets of a pair are closed, and it may be written again. -/
  | close (id : PairId)

/-- A bound on the number of pieces that writing a value takes. -/
def Piece.valueWeight : (room : Nat) → Nat
  | 0 => 1
  | room + 1 => 2 * valueWeight room + 4

/-- A bound on the number of pieces that writing a piece takes. -/
def Piece.weight : Piece → Nat
  | .value _ room => valueWeight room
  | .text _ => 1
  | .close _ => 1

/-- A bound on the number of pieces that writing a list of pieces takes. -/
def Piece.totalWeight : List Piece → Nat
  | [] => 0
  | p :: ps => p.weight + totalWeight ps

theorem Piece.totalWeight_append (ps qs : List Piece) :
    totalWeight (ps ++ qs) = totalWeight ps + totalWeight qs := by
  induction ps with
  | nil => exact (Nat.zero_add _).symm
  | cons p ps ih => rw [List.cons_append, totalWeight, totalWeight, ih, Nat.add_assoc]

theorem Piece.weight_pos (p : Piece) : 0 < p.weight := by
  cases p with
  | value v room => cases room <;> simp [weight, valueWeight]
  | text s => exact Nat.one_pos
  | close id => exact Nat.one_pos

/-- How a pair inside of itself is written. -/
def circularText : String := "...<circular>"

/-- The text of a value that is no pair. -/
def Value.leafText (h : Heap) : Value → String
  | .undefined => "undefined"
  | .null => "null"
  | .boolean b => if b then "true" else "false"
  | .number x => Number.Layout.display.write x
  | .string s => quoted s
  | .pair _ => circularText
  | .closure id => "[Function: " ++ ((h.closure? id).elim "" (·.function.displayName)) ++ "]"
  | .builtin f _ => "[Builtin: " ++ f.name ++ "]"
  | .continuation id => "[Continuation: " ++ ((h.continuation? id).elim "" (·.kind.text)) ++ "]"

/-- The pieces of a pair after its opening bracket. -/
def Piece.ofPair (id : PairId) (head tail : Value) (room : Nat) : List Piece :=
  [.value head room, .text ", ", .value tail room, .text "]", .close id]

/-- The pieces of a value, if it is a pair that can be opened: it is not open yet,
    there is room, and it is in the heap. -/
def Piece.opened? (h : Heap) (opened : Std.HashSet PairId) :
    Value → (room : Nat) → Option (PairId × List Piece)
  | .pair id, room + 1 =>
    if opened.contains id then none
    else (h.pair? id).map fun (head, tail) => (id, ofPair id head tail room)
  | _, _ => none

theorem Piece.weight_opened? {h : Heap} {opened : Std.HashSet PairId} {v : Value} {room : Nat}
    {id : PairId} {pieces : List Piece} (e : opened? h opened v room = some (id, pieces)) :
    totalWeight pieces < valueWeight room := by
  unfold opened? at e
  split at e
  · split at e
    · contradiction
    · obtain ⟨p, _, hp⟩ := Option.map_eq_some_iff.1 e
      simp only [Prod.mk.injEq] at hp
      obtain ⟨-, rfl⟩ := hp
      simp only [ofPair, totalWeight, weight, valueWeight]
      omega
  · contradiction

/-- Write the pieces that are left.  The pairs between whose brackets the writing
    stands are `opened`. -/
def writePieces (h : Heap) (opened : Std.HashSet PairId) (out : String) : List Piece → String
  | [] => out
  | .text s :: rest => writePieces h opened (out ++ s) rest
  | .close id :: rest => writePieces h (opened.erase id) out rest
  | .value v room :: rest =>
    match _e : Piece.opened? h opened v room with
    | some (id, pieces) => writePieces h (opened.insert id) (out ++ "[") (pieces ++ rest)
    | none => writePieces h opened (out ++ v.leafText h) rest
termination_by pieces => Piece.totalWeight pieces
decreasing_by
  · simp [Piece.totalWeight, Piece.weight]
  · simp [Piece.totalWeight, Piece.weight]
  · have := Piece.weight_opened? _e
    simp only [Piece.totalWeight_append, Piece.totalWeight, Piece.weight]
    omega
  · have := Piece.weight_pos (.value v room)
    simp only [Piece.totalWeight]
    omega

/-- The text of a value, with strings between quotes.  A chain of pairs, each inside
    of the one before, is no longer than there are pairs. -/
def Value.text (h : Heap) (v : Value) : String :=
  writePieces h ∅ "" [.value v h.pairs.size]

/-- The text of a value, where a string by itself is written as it is. -/
def Value.rawText (h : Heap) : Value → String
  | .string s => s
  | v => v.text h

end SourceMachine
