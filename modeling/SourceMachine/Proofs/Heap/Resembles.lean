import SourceMachine.Proofs.Heap.Tails

/-!
# Heaps that look the same

Texts and native functions look at pairs, at the texts of what is no pair, and at how many
arguments a function takes.  Heaps that agree in this (`Heap.Resembles`) are not told apart by
them: a value has the same text, and a native function does the same (`Resembles.effect`).  It
is enough if the heaps agree for values of some kind, as long as pairs hold no others.
-/

namespace SourceMachine

/-- The second heap has the pairs of the first, values of a kind look the same in both, and
    pairs hold values of this kind. -/
structure Heap.Resembles (K : Value → Prop) (h h' : Heap) : Prop where
  pairs : h'.pairs = h.pairs
  held : ∀ {id : PairId} {head tail : Value}, h.pair? id = some (head, tail) → K head ∧ K tail
  leafText : ∀ {v : Value}, K v → v.leafText h' = v.leafText h
  required : ∀ {v : Value}, K v → requiredCount h' v = requiredCount h v

namespace Heap.Resembles

variable {K : Value → Prop} {h h' : Heap} {v : Value} {args : List Value} {pieces : List Piece}

section

variable (alike : h.Resembles K h')

include alike

theorem pair?_eq (id : PairId) : h'.pair? id = h.pair? id := by
  rw [pair?, pair?, alike.pairs]

theorem opened?_eq (opened : Std.HashSet PairId) (v : Value) (room : Nat) :
    Piece.opened? h' opened v room = Piece.opened? h opened v room := by
  rw [Piece.opened?.eq_def, Piece.opened?.eq_def]
  split
  · rw [alike.pair?_eq]
  · rfl

/-- Opening a pair leads to values of the kind. -/
theorem held_of_opened? {opened : Std.HashSet PairId} {room : Nat} {id : PairId}
    (found : Piece.opened? h opened v room = some (id, pieces)) :
    ∀ u r, .value u r ∈ pieces → K u := by
  rw [Piece.opened?.eq_def] at found
  split at found
  · split at found
    · cases found
    · obtain ⟨⟨head, tail⟩, pair, same⟩ := Option.map_eq_some_iff.1 found
      cases same
      obtain ⟨first, second⟩ := alike.held pair
      intro u r member
      rcases member with _ | ⟨_, _ | ⟨_, _ | ⟨_, _ | ⟨_, _ | ⟨_, none⟩⟩⟩⟩⟩
      · exact first
      · exact second
      · cases none
  · cases found

theorem writePieces_eq (opened : Std.HashSet PairId) (out : String)
    (all : ∀ v room, .value v room ∈ pieces → K v) :
    writePieces h' opened out pieces = writePieces h opened out pieces := by
  fun_induction writePieces h opened out pieces with
  | case1 => rw [writePieces]
  | case2 opened out s rest ih | case3 opened out id rest ih =>
    rw [writePieces]
    exact ih fun v room member => all v room (List.mem_cons_of_mem _ member)
  | case4 opened out v room rest id pieces found ih =>
    -- the pairs are the same, so the same pair is opened
    rw [writePieces]
    split
    · next found' =>
      rw [alike.opened?_eq, found] at found'
      cases found'
      refine ih fun u r member => ?_
      rcases List.mem_append.1 member with inside | after
      · exact alike.held_of_opened? found u r inside
      · exact all u r (List.mem_cons_of_mem _ after)
    · next found' =>
      rw [alike.opened?_eq, found] at found'
      cases found'
  | case5 opened out v room rest found ih =>
    rw [writePieces]
    split
    · next found' =>
      rw [alike.opened?_eq, found] at found'
      cases found'
    · rw [alike.leafText (all v room List.mem_cons_self)]
      exact ih fun u r member => all u r (List.mem_cons_of_mem _ member)

theorem text_eq (kind : K v) : v.text h' = v.text h := by
  rw [Value.text, Value.text, alike.pairs]
  refine alike.writePieces_eq ∅ "" fun u r member => ?_
  cases List.mem_singleton.1 member
  exact kind

theorem rawText_eq (kind : K v) : v.rawText h' = v.rawText h := by
  cases v with
  | string s => rfl
  | _ => exact alike.text_eq kind

theorem pairArgument_eq (kind : K (argument args 0)) :
    pairArgument h' args = pairArgument h args := by
  have text := alike.text_eq kind
  rw [pairArgument, pairArgument]
  generalize argument args 0 = v at text
  cases v with
  | pair id =>
    dsimp only
    rw [text, alike.pair?_eq]
  | _ =>
    dsimp only
    rw [text]

end

/-- A native function does the same. -/
theorem effect {w : World} (alike : w.heap.Resembles K h') (f : Native)
    (kind : K (argument args 0)) : f.effect args { w with heap := h' } = f.effect args w := by
  cases f with
  | display | stringify =>
    rw [Native.effect, Native.effect]
    rw [alike.text_eq kind]
  | rawDisplay | error =>
    rw [Native.effect, Native.effect]
    rw [alike.rawText_eq kind]
  | head | tail | setHead | setTail =>
    rw [Native.effect, Native.effect]
    rw [alike.pairArgument_eq kind]
  | arityOf =>
    rw [Native.effect, Native.effect]
    rw [alike.required kind]
  | isList =>
    have same : h'.isList (argument args 0) = w.heap.isList (argument args 0) :=
      isList_congr (fun id => congrArg (Option.map _) (alike.pair?_eq id)) _
    rw [Native.effect, Native.effect]
    rw [same]
  | _ => rfl

end Heap.Resembles

end SourceMachine
