import Mathlib
import SourceMachine.Value.Text

/-!
# The text of a value graph

`Value.fragments` gives the text of a value by recursion: a pair is written as its two
parts between brackets, and inside of them, among its own parts, as a mark.  The recursion
ends because each pair that is opened joins the ancestors, of which there are no more than
pairs in the heap.

Two loops write the same text without recursion.  `Value.text` keeps a list of pieces and
counts how many pairs can still be opened; `Writer.step` has no such count, and is the loop
that one would run.  Both are followed at once (`Writes`): each round takes off the first
piece and adds to the text, and writing a whole value is a chain of rounds which comes back
to the pairs that were open before (`writes_value`).

The mark is written exactly when a cycle can be reached from the value
(`circular_mem_fragments_iff`).  A pair that is only shared has no mark.
-/

namespace SourceMachine

variable {id whole : PairId} {v head tail : Value} {ancestors : Finset PairId} {room : Nat}
  {h : Heap} {parts : Value × Value}

/-! ## Writing by recursion -/

/-- What the text of a value is made of. -/
inductive Fragment where
  | text (text : String)
  /-- The mark of a pair inside of itself. -/
  | circular
deriving DecidableEq

/-- A fragment as it is written. -/
def Fragment.written : Fragment → String
  | .text s => s
  | .circular => circularText

/-- Fragments as they are written, one after the other. -/
def Fragment.join : List Fragment → String
  | [] => ""
  | f :: fs => f.written ++ join fs

theorem Fragment.join_append (fs gs : List Fragment) : join (fs ++ gs) = join fs ++ join gs := by
  induction fs with
  | nil => exact String.empty_append.symm
  | cons f fs ih =>
    rw [List.cons_append, join, join, ih, String.append_assoc]

/-- The addresses of the pairs in a heap. -/
def Heap.pairIds (h : Heap) : Finset PairId :=
  (Finset.range h.pairs.size).image PairId.mk

theorem Heap.mem_pairIds (found : h.pair? id = some parts) : id ∈ h.pairIds := by
  obtain ⟨inside, -⟩ := Array.getElem?_eq_some_iff.1 found
  exact Finset.mem_image.2 ⟨id.index, Finset.mem_range.2 inside, rfl⟩

theorem Heap.card_pairIds (h : Heap) : h.pairIds.card = h.pairs.size := by
  have distinct : Function.Injective PairId.mk := fun _ _ same => congrArg PairId.index same
  rw [Heap.pairIds, Finset.card_image_of_injective _ distinct, Finset.card_range]

/-- Opening a pair leaves fewer pairs to open. -/
theorem Heap.card_sdiff_insert_lt (fresh : id ∉ ancestors) (found : h.pair? id = some parts) :
    (h.pairIds \ insert id ancestors).card < (h.pairIds \ ancestors).card := by
  apply Finset.card_lt_card
  rw [Finset.ssubset_iff_of_subset (Finset.sdiff_subset_sdiff subset_rfl
    (Finset.subset_insert id ancestors))]
  refine ⟨id, Finset.mem_sdiff.2 ⟨mem_pairIds found, fresh⟩, fun inside => ?_⟩
  exact (Finset.mem_sdiff.1 inside).2 (Finset.mem_insert_self id ancestors)

/-- The text of a value inside of the pairs `ancestors`.  An ancestor is marked, any other
    pair is written with its two parts, of which it is an ancestor as well, and what is no
    pair is written as a leaf.  An address outside of the heap has no parts. -/
def Value.fragments (h : Heap) (ancestors : Finset PairId) (v : Value) : List Fragment :=
  match v with
  | .pair id =>
    if _fresh : id ∈ ancestors then [.circular]
    else
      match _found : h.pair? id with
      | some (head, tail) =>
        .text "[" :: (fragments h (insert id ancestors) head ++
          .text ", " :: (fragments h (insert id ancestors) tail ++ [.text "]"]))
      | none => [.text ((Value.pair id).leafText h)]
  | leaf => [.text (leaf.leafText h)]
termination_by (h.pairIds \ ancestors).card
decreasing_by all_goals exact Heap.card_sdiff_insert_lt _fresh _found

/-! ## The loop -/

/-- Work left for writing a value. -/
inductive Task where
  | value (value : Value)
  | text (text : String)
  /-- The brackets of a pair are closed, and it may be written again. -/
  | close (id : PairId)

/-- A text that is being written: what is left to do, the first first, the pairs between
    whose brackets the writing stands, and what is written so far. -/
structure Writer where
  tasks : List Task
  opened : Std.HashSet PairId
  out : String

/-- One round of the loop. -/
def Writer.step (h : Heap) (w : Writer) : Option Writer :=
  match w.tasks with
  | [] => none
  | .text s :: rest => some ⟨rest, w.opened, w.out ++ s⟩
  | .close id :: rest => some ⟨rest, w.opened.erase id, w.out⟩
  | .value (.pair id) :: rest =>
    if w.opened.contains id then some ⟨rest, w.opened, w.out ++ circularText⟩
    else
      match h.pair? id with
      | some (head, tail) =>
        some ⟨.value head :: .text ", " :: .value tail :: .text "]" :: .close id :: rest,
          w.opened.insert id, w.out ++ "["⟩
      | none => some ⟨rest, w.opened, w.out ++ (Value.pair id).leafText h⟩
  | .value leaf :: rest => some ⟨rest, w.opened, w.out ++ leaf.leafText h⟩

/-- Some rounds of the loop. -/
def Writer.Steps (h : Heap) : Writer → Writer → Prop :=
  Relation.ReflTransGen fun w w' => w.step h = some w'

/-- A piece without its bound. -/
def Piece.task : Piece → Task
  | .value v _ => .value v
  | .text s => .text s
  | .close id => .close id

/-- Both loops get from some pieces to others, and add the same text on the way. -/
structure Writes (h : Heap) (opened : Std.HashSet PairId) (pieces : List Piece)
    (opened' : Std.HashSet PairId) (rest : List Piece) (added : String) : Prop where
  written : ∀ out, writePieces h opened out pieces = writePieces h opened' (out ++ added) rest
  steps : ∀ out, Writer.Steps h ⟨pieces.map Piece.task, opened, out⟩
    ⟨rest.map Piece.task, opened', out ++ added⟩

namespace Writes

variable {h : Heap} {opened opened' opened'' : Std.HashSet PairId}
  {pieces pieces' pieces'' rest : List Piece} {added added' : String}

theorem trans (first : Writes h opened pieces opened' pieces' added)
    (second : Writes h opened' pieces' opened'' pieces'' added') :
    Writes h opened pieces opened'' pieces'' (added ++ added') := by
  constructor
  · intro out
    rw [first.written, second.written, String.append_assoc]
  · intro out
    rw [← String.append_assoc]
    exact (first.steps out).trans (second.steps (out ++ added))

theorem text (s : String) : Writes h opened (.text s :: rest) opened rest s := by
  constructor
  · intro out
    rw [writePieces]
  · intro out
    exact .single rfl

theorem close (id : PairId) : Writes h opened (.close id :: rest) (opened.erase id) rest "" := by
  constructor
  · intro out
    rw [writePieces, String.append_empty]
  · intro out
    rw [String.append_empty]
    exact .single rfl

/-- A value that is not opened is written by itself. -/
theorem unopened (none : Piece.opened? h opened v room = none)
    (step : ∀ tasks out, Writer.step h ⟨.value v :: tasks, opened, out⟩ =
      some ⟨tasks, opened, out ++ v.leafText h⟩) :
    Writes h opened (.value v room :: rest) opened rest (v.leafText h) := by
  constructor
  · intro out
    rw [writePieces]
    split
    · next id pieces some => cases none.symm.trans some
    · rfl
  · intro out
    exact .single (step _ out)

/-- A value that is no pair. -/
theorem leaf (other : ∀ id, v ≠ .pair id) :
    Writes h opened (.value v room :: rest) opened rest (v.leafText h) := by
  cases v with
  | pair id => exact absurd rfl (other id)
  | _ => exact unopened rfl fun _ _ => rfl

/-- A pair between whose brackets the writing stands. -/
theorem mark (inside : id ∈ opened) :
    Writes h opened (.value (.pair id) room :: rest) opened rest circularText := by
  have isOpened : opened.contains id = true := inside
  refine unopened ?_ fun tasks out => ?_
  · cases room with
    | zero => rfl
    | succ room => rw [Piece.opened?, if_pos isOpened]
  · show (if opened.contains id = true then _ else _) = _
    rw [if_pos isOpened]
    rfl

/-- An address outside of the heap. -/
theorem missing (fresh : id ∉ opened) (absent : h.pair? id = none) :
    Writes h opened (.value (.pair id) room :: rest) opened rest
      ((Value.pair id).leafText h) := by
  have unmarked : ¬opened.contains id = true := fresh
  refine unopened ?_ fun tasks out => ?_
  · cases room with
    | zero => rfl
    | succ room =>
      rw [Piece.opened?, if_neg unmarked, absent]
      rfl
  · show (if opened.contains id = true then _ else _) = _
    rw [if_neg unmarked, absent]

/-- A pair that is opened. -/
theorem opening (room : Nat) (rest : List Piece) (fresh : id ∉ opened)
    (found : h.pair? id = some (head, tail)) :
    Writes h opened (.value (.pair id) (room + 1) :: rest) (opened.insert id)
      (Piece.ofPair id head tail room ++ rest) "[" := by
  have unmarked : ¬opened.contains id = true := fresh
  have some : Piece.opened? h opened (.pair id) (room + 1) =
      Option.some (id, Piece.ofPair id head tail room) := by
    rw [Piece.opened?, if_neg unmarked, found]
    rfl
  constructor
  · intro out
    rw [writePieces]
    split
    · next id' pieces' same =>
      cases some.symm.trans same
      rfl
    · next none => cases some.symm.trans none
  · intro out
    refine .single ?_
    show (if opened.contains id = true then _ else _) = _
    rw [if_neg unmarked, found]
    rfl

end Writes

/-- Writing a value adds the text of its fragments and comes back to the pairs that were
    open before.  With as much room as there are pairs that are not open, no pair is taken
    for an ancestor that is none. -/
theorem writes_value {opened : Std.HashSet PairId} (rest : List Piece)
    (same : ∀ id, id ∈ opened ↔ id ∈ ancestors) (known : ancestors ⊆ h.pairIds)
    (enough : h.pairs.size ≤ room + ancestors.card) :
    ∃ opened', (∀ id, id ∈ opened' ↔ id ∈ ancestors) ∧
      Writes h opened (.value v room :: rest) opened' rest
        (Fragment.join (v.fragments h ancestors)) := by
  have alone (s : String) : Fragment.join [.text s] = s := String.append_empty
  fun_induction Value.fragments h ancestors v generalizing opened room rest with
  | case1 ancestors id inside =>
    exact ⟨opened, same, .mark ((same id).2 inside)⟩
  | case2 ancestors id fresh head tail found ihHead ihTail =>
    have member := Heap.mem_pairIds found
    -- the pair itself is still to be opened, so there is room for it
    have fewer : ancestors.card < h.pairs.size := by
      rw [← h.card_pairIds]
      exact Finset.card_lt_card ⟨known, fun all => fresh (all member)⟩
    obtain ⟨room, rfl⟩ : ∃ n, room = n + 1 := ⟨room - 1, by omega⟩
    have known' : insert id ancestors ⊆ h.pairIds := Finset.insert_subset member known
    have enough' : h.pairs.size ≤ room + (insert id ancestors).card := by
      rw [Finset.card_insert_of_notMem fresh]
      omega
    have same' : ∀ other, other ∈ opened.insert id ↔ other ∈ insert id ancestors := by
      intro other
      rw [Std.HashSet.mem_insert, Finset.mem_insert, same other, beq_iff_eq, eq_comm]
    obtain ⟨opened₁, same₁, writesHead⟩ := ihHead _ same' known' enough'
    obtain ⟨opened₂, same₂, writesTail⟩ := ihTail _ same₁ known' enough'
    refine ⟨opened₂.erase id, fun other => ?_, ?_⟩
    · rw [Std.HashSet.mem_erase, same₂ other, Finset.mem_insert, beq_eq_false_iff_ne]
      constructor
      · rintro ⟨different, rfl | inside⟩
        · exact absurd rfl different
        · exact inside
      · intro inside
        exact ⟨fun equal => fresh (equal ▸ inside), .inr inside⟩
    · have opening := Writes.opening room rest (mt (same id).1 fresh) found
      have whole : Writes h opened _ (opened₂.erase id) rest _ :=
        (opening.trans writesHead).trans ((Writes.text ", ").trans
          (writesTail.trans ((Writes.text "]").trans (.close id))))
      simpa only [Fragment.join, Fragment.written, Fragment.join_append, String.append_empty,
        String.append_assoc] using whole
  | case3 ancestors id fresh absent =>
    rw [alone]
    exact ⟨opened, same, .missing (mt (same id).1 fresh) absent⟩
  | case4 ancestors leaf other =>
    rw [alone]
    exact ⟨opened, same, .leaf other⟩

/-! ## Cycles -/

/-- A pair has another one as its head or as its tail. -/
def Heap.HasPart (h : Heap) (whole part : PairId) : Prop :=
  ∃ head tail, h.pair? whole = some (head, tail) ∧ (head = .pair part ∨ tail = .pair part)

/-- A pair that is a value, or that is a part of it at any depth. -/
def Heap.Contains (h : Heap) (v : Value) (id : PairId) : Prop :=
  ∃ first, v = .pair first ∧ Relation.ReflTransGen h.HasPart first id

/-- A pair that is a part of itself at any depth. -/
def Heap.IsCyclic (h : Heap) (id : PairId) : Prop :=
  Relation.TransGen h.HasPart id id

variable {h : Heap}

theorem Heap.Contains.of_part {part : Value} (found : h.pair? whole = some (head, tail))
    (isPart : part = head ∨ part = tail) (inside : h.Contains part id) :
    Relation.TransGen h.HasPart whole id := by
  obtain ⟨first, rfl, path⟩ := inside
  refine .head' ⟨head, tail, found, ?_⟩ path
  rcases isPart with same | same
  · exact .inl same.symm
  · exact .inr same.symm

/-- What is inside of a pair is inside of its head or of its tail. -/
theorem Heap.contains_part (found : h.pair? whole = some (head, tail))
    (path : Relation.TransGen h.HasPart whole id) : h.Contains head id ∨ h.Contains tail id := by
  obtain ⟨part, ⟨head', tail', found', isPart⟩, onwards⟩ :=
    Relation.TransGen.head'_iff.1 path
  rw [found] at found'
  cases found'
  rcases isPart with rfl | rfl
  · exact .inl ⟨part, rfl, onwards⟩
  · exact .inr ⟨part, rfl, onwards⟩

/-- The mark of an opened pair is in the text of its head or in that of its tail. -/
theorem circular_mem_pair {head tail : List Fragment} :
    Fragment.circular ∈ Fragment.text "[" :: (head ++ .text ", " :: (tail ++ [.text "]"])) ↔
      Fragment.circular ∈ head ∨ Fragment.circular ∈ tail := by
  simp

/-- A mark is written for an ancestor, or for a pair on a cycle. -/
theorem exists_of_circular_mem (marked : Fragment.circular ∈ v.fragments h ancestors) :
    ∃ id, h.Contains v id ∧ (id ∈ ancestors ∨ h.IsCyclic id) := by
  fun_induction Value.fragments h ancestors v with
  | case1 ancestors id inside => exact ⟨id, ⟨id, rfl, .refl⟩, .inl inside⟩
  | case2 ancestors id fresh head tail found ihHead ihTail =>
    have inner : ∃ part, (part = head ∨ part = tail) ∧
        ∃ other, h.Contains part other ∧ (other ∈ insert id ancestors ∨ h.IsCyclic other) := by
      rcases circular_mem_pair.1 marked with inHead | inTail
      · exact ⟨head, .inl rfl, ihHead inHead⟩
      · exact ⟨tail, .inr rfl, ihTail inTail⟩
    obtain ⟨part, isPart, other, contained, reason⟩ := inner
    have path := Heap.Contains.of_part found isPart contained
    rcases reason with ancestor | cyclic
    · rcases Finset.mem_insert.1 ancestor with rfl | older
      · -- the mark is that of the pair just opened, which is on a cycle
        exact ⟨other, ⟨other, rfl, .refl⟩, .inr path⟩
      · exact ⟨other, ⟨id, rfl, path.to_reflTransGen⟩, .inl older⟩
    · exact ⟨other, ⟨id, rfl, path.to_reflTransGen⟩, .inr cyclic⟩
  | case3 => simp at marked
  | case4 => simp at marked

/-- A value that contains one of its ancestors is written with a mark. -/
theorem circular_mem_of_ancestor (contained : h.Contains v id) (ancestor : id ∈ ancestors) :
    Fragment.circular ∈ v.fragments h ancestors := by
  fun_induction Value.fragments h ancestors v with
  | case1 => exact List.mem_singleton_self _
  | case2 ancestors first fresh head tail found ihHead ihTail =>
    obtain ⟨_, ⟨⟩, path⟩ := contained
    have onwards : Relation.TransGen h.HasPart first id := by
      rcases Relation.reflTransGen_iff_eq_or_transGen.1 path with rfl | path
      · exact absurd ancestor fresh
      · exact path
    have still : id ∈ insert first ancestors := Finset.mem_insert_of_mem ancestor
    rw [circular_mem_pair]
    rcases Heap.contains_part found onwards with inHead | inTail
    · exact .inl (ihHead inHead still)
    · exact .inr (ihTail inTail still)
  | case3 ancestors first fresh absent =>
    obtain ⟨_, ⟨⟩, path⟩ := contained
    rcases Relation.ReflTransGen.cases_head path with rfl | ⟨_, ⟨_, _, found, _⟩, _⟩
    · exact absurd ancestor fresh
    · rw [absent] at found
      cases found
  | case4 ancestors leaf other =>
    obtain ⟨first, rfl, -⟩ := contained
    exact absurd rfl (other first)

/-- A value that contains a pair on a cycle is written with a mark. -/
theorem circular_mem_of_cyclic (contained : h.Contains v id) (cyclic : h.IsCyclic id) :
    Fragment.circular ∈ v.fragments h ancestors := by
  fun_induction Value.fragments h ancestors v with
  | case1 => exact List.mem_singleton_self _
  | case2 ancestors first fresh head tail found ihHead ihTail =>
    obtain ⟨_, ⟨⟩, path⟩ := contained
    rw [circular_mem_pair]
    rcases Relation.reflTransGen_iff_eq_or_transGen.1 path with rfl | path
    · -- the pair on the cycle is opened here, so it is an ancestor further down
      have ancestor := Finset.mem_insert_self id ancestors
      rcases Heap.contains_part found cyclic with inHead | inTail
      · exact .inl (circular_mem_of_ancestor inHead ancestor)
      · exact .inr (circular_mem_of_ancestor inTail ancestor)
    · rcases Heap.contains_part found path with inHead | inTail
      · exact .inl (ihHead inHead)
      · exact .inr (ihTail inTail)
  | case3 ancestors first fresh absent =>
    obtain ⟨_, ⟨⟩, path⟩ := contained
    have around : ∃ part, h.HasPart first part := by
      rcases Relation.ReflTransGen.cases_head path with rfl | ⟨part, isPart, -⟩
      · obtain ⟨part, isPart, -⟩ := Relation.TransGen.head'_iff.1 cyclic
        exact ⟨part, isPart⟩
      · exact ⟨part, isPart⟩
    obtain ⟨_, _, _, found, _⟩ := around
    rw [absent] at found
    cases found
  | case4 ancestors leaf other =>
    obtain ⟨first, rfl, -⟩ := contained
    exact absurd rfl (other first)

/-- The mark is in the text of a value exactly when a cycle can be reached from it. -/
theorem circular_mem_fragments_iff :
    Fragment.circular ∈ v.fragments h ∅ ↔ ∃ id, h.Contains v id ∧ h.IsCyclic id := by
  constructor
  · intro marked
    obtain ⟨id, contained, ancestor | cyclic⟩ := exists_of_circular_mem marked
    · exact absurd ancestor (Finset.notMem_empty id)
    · exact ⟨id, contained, cyclic⟩
  · rintro ⟨id, contained, cyclic⟩
    exact circular_mem_of_cyclic contained cyclic

/-- Both loops write a whole value, with no pair open before and after it. -/
theorem exists_writes (h : Heap) (v : Value) : ∃ opened,
    Writes h ∅ [.value v h.pairs.size] opened [] (Fragment.join (v.fragments h ∅)) := by
  have same : ∀ id, id ∈ (∅ : Std.HashSet PairId) ↔ id ∈ (∅ : Finset PairId) := by simp
  obtain ⟨opened, -, writes⟩ := writes_value (h := h) (v := v) [] same (Finset.empty_subset _)
    (Nat.le_add_right h.pairs.size _)
  exact ⟨opened, writes⟩

/-- The text of a value, by recursion. -/
theorem Value.text_eq_join (h : Heap) (v : Value) : v.text h = Fragment.join (v.fragments h ∅) := by
  obtain ⟨opened, writes⟩ := exists_writes h v
  rw [Value.text, writes.written, writePieces, String.empty_append]

/-- A string is written as it is quoted. -/
theorem Value.text_string (h : Heap) (s : String) : (Value.string s).text h = quoted s := by
  rw [Value.text_eq_join, Value.fragments]
  · exact String.append_empty
  · rintro id ⟨⟩

/-- **The text of a value.**  For every heap, whatever its pairs share and whatever cycles
    they form, the loop that writes a value comes to an end.  It has then written the text
    that recursion gives, which marks a pair among its own ancestors and writes any other
    pair with its two parts; and so has `Value.text`.  The mark is written exactly when a
    cycle can be reached from the value. -/
theorem text_of_value_graph (h : Heap) (v : Value) :
    v.text h = Fragment.join (v.fragments h ∅) ∧
      (∃ last : Writer, Writer.Steps h ⟨[.value v], ∅, ""⟩ last ∧ last.step h = none ∧
        last.tasks = [] ∧ last.out = Fragment.join (v.fragments h ∅)) ∧
      (Fragment.circular ∈ v.fragments h ∅ ↔ ∃ id, h.Contains v id ∧ h.IsCyclic id) := by
  obtain ⟨opened, writes⟩ := exists_writes h v
  exact ⟨v.text_eq_join h, ⟨_, writes.steps "", rfl, rfl, String.empty_append⟩,
    circular_mem_fragments_iff⟩

end SourceMachine
