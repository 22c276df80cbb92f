import SourceMachine.Proofs.Heap.Data
import SourceMachine.Proofs.Token.Words
import SourceMachine.Proofs.Value.Rendering

/-!
# Texts of data can be read in one way

`Data.text` is the text of a tree of data.  It can be told where it ends, whatever follows
(`Data.text_append_inj`): its first character says which kind of data it is, a string ends at
the quote that the scanner finds, and a pair is its two parts with fixed characters around them.

In a heap, `Heap.IsData` says what values have such a text: all values that can be reached are
data, and no pair can be reached from itself.  Such a value holds a tree, and is written as this
tree is (`exists_holds`).
-/

namespace SourceMachine

/-! ## The text of a tree -/

/-- How data are written. -/
def Data.text : Data → String
  | .undefined => "undefined"
  | .null => "null"
  | .boolean b => if b then "true" else "false"
  | .string s => quoted s
  | .pair head tail => "[" ++ (head.text ++ (", " ++ (tail.text ++ "]")))

/-- The first character of the text. -/
def Data.mark : Data → Char
  | .undefined => 'u'
  | .null => 'n'
  | .boolean b => if b then 't' else 'f'
  | .string _ => '"'
  | .pair _ _ => '['

theorem Data.exists_text (d : Data) : ∃ cs, d.text.toList = d.mark :: cs := by
  cases d with
  | undefined | null => exact ⟨_, String.toList_ofList⟩
  | boolean b => cases b <;> exact ⟨_, String.toList_ofList⟩
  | string s => exact ⟨_, String.toList_ofList⟩
  | pair head tail =>
    rw [text, String.toList_append]
    exact ⟨_, rfl⟩

variable {d : Data}

/-- Data whose texts start alike are of one kind. -/
theorem Data.mark_eq {e : Data} {rest rest' : List Char}
    (same : d.text.toList ++ rest = e.text.toList ++ rest') : d.mark = e.mark := by
  obtain ⟨cs, left⟩ := d.exists_text
  obtain ⟨cs', right⟩ := e.exists_text
  rw [left, right] at same
  exact (List.cons.inj same).1

/-- The closing quote of a string is found, whatever follows it. -/
theorem quoted_append_inj {s t : String} {rest rest' : List Char}
    (same : (quoted s).toList ++ rest = (quoted t).toList ++ rest') : s = t ∧ rest = rest' := by
  have lexemes := congrArg lexeme same
  rw [lexeme_quoted, lexeme_quoted] at lexemes
  obtain rfl : s = t := Kind.string.inj (Prod.mk.inj lexemes).1
  exact ⟨rfl, List.append_cancel_left same⟩

/-- A text of data can be read in one way, and it ends at one place. -/
theorem Data.text_append_inj {e : Data} {rest rest' : List Char}
    (same : d.text.toList ++ rest = e.text.toList ++ rest') : d = e ∧ rest = rest' := by
  induction d generalizing e rest rest' with
  | undefined =>
    have marks := mark_eq same
    cases e with
    | undefined => exact ⟨rfl, List.append_cancel_left same⟩
    | boolean b => cases b <;> cases marks
    | _ => cases marks
  | null =>
    have marks := mark_eq same
    cases e with
    | null => exact ⟨rfl, List.append_cancel_left same⟩
    | boolean b => cases b <;> cases marks
    | _ => cases marks
  | boolean b =>
    have marks := mark_eq same
    cases e with
    | boolean b' =>
      obtain rfl : b = b' := by cases b <;> cases b' <;> first | rfl | cases marks
      exact ⟨rfl, List.append_cancel_left same⟩
    | _ => cases b <;> cases marks
  | string s =>
    have marks := mark_eq same
    cases e with
    | string t =>
      obtain ⟨rfl, rests⟩ := quoted_append_inj same
      exact ⟨rfl, rests⟩
    | boolean b => cases b <;> cases marks
    | _ => cases marks
  | pair head tail ihHead ihTail =>
    have marks := mark_eq same
    cases e with
    | pair head' tail' =>
      simp only [text, String.toList_append, List.append_assoc] at same
      obtain ⟨rfl, between⟩ := ihHead (List.append_cancel_left same)
      obtain ⟨rfl, last⟩ := ihTail (List.append_cancel_left between)
      exact ⟨rfl, List.append_cancel_left last⟩
    | boolean b => cases b <;> cases marks
    | _ => cases marks

/-! ## Values that are data -/

/-- A value that is a pair, or that is written as a word or as a string. -/
def Value.isPlain : Value → Bool
  | .undefined | .null | .boolean _ | .string _ | .pair _ => true
  | .number _ | .closure _ | .builtin .. | .continuation _ => false

/-- Everything that can be reached from the value is data, and no pair is inside of itself. -/
structure Heap.IsData (h : Heap) (v : Value) : Prop where
  plain : v.isPlain = true
  parts : ∀ id, h.Contains v id → ∃ head tail, h.pair? id = some (head, tail) ∧
    head.isPlain = true ∧ tail.isPlain = true
  acyclic : ∀ id, h.Contains v id → ¬h.IsCyclic id

variable {h h' : Heap} {v w : Value} {id : PairId}

theorem Heap.Contains.of_pair {other : PairId} {head tail part : Value}
    (found : h.pair? id = some (head, tail)) (isPart : part = head ∨ part = tail)
    (inside : h.Contains part other) : h.Contains (.pair id) other :=
  ⟨id, rfl, (of_part found isPart inside).to_reflTransGen⟩

/-- The parts of a pair that is data are data. -/
theorem Heap.IsData.part {head tail part : Value} (data : h.IsData (.pair id))
    (found : h.pair? id = some (head, tail)) (isPart : part = head ∨ part = tail) :
    h.IsData part := by
  refine ⟨?_, fun other inside => data.parts other (inside.of_pair found isPart),
    fun other inside => data.acyclic other (inside.of_pair found isPart)⟩
  obtain ⟨head', tail', found', plainHead, plainTail⟩ := data.parts id ⟨id, rfl, .refl⟩
  cases found.symm.trans found'
  rcases isPart with rfl | rfl
  · exact plainHead
  · exact plainTail

/-- A part of a pair that holds a tree holds a smaller one. -/
theorem Heap.Holds.exists_part {part : PairId} (holds : h.Holds (.pair id) d)
    (isPart : h.HasPart id part) : ∃ e, h.Holds (.pair part) e ∧ e.depth < d.depth := by
  obtain ⟨head, tail, found, isPart⟩ := isPart
  cases holds with
  | @pair _ _ _ d e there first second =>
    cases there.symm.trans found
    rcases isPart with rfl | rfl
    · exact ⟨d, first, Nat.lt_succ_of_le (le_max_left _ _)⟩
    · exact ⟨e, second, Nat.lt_succ_of_le (le_max_right _ _)⟩

theorem Heap.Holds.exists_inside {inner : PairId} (holds : h.Holds (.pair id) d)
    (path : Relation.TransGen h.HasPart id inner) :
    ∃ e, h.Holds (.pair inner) e ∧ e.depth < d.depth := by
  induction path with
  | single isPart => exact holds.exists_part isPart
  | tail _ isPart ih =>
    obtain ⟨e, inside, smaller⟩ := ih
    obtain ⟨e', inside', smaller'⟩ := inside.exists_part isPart
    exact ⟨e', inside', smaller'.trans smaller⟩

/-- What holds a tree is data: a pair inside of itself would hold a tree that is deeper than
    itself. -/
theorem Heap.Holds.isData (holds : h.Holds v d) : h.IsData v := by
  have plain {u : Value} {e : Data} (holds : h.Holds u e) : u.isPlain = true := by
    cases holds <;> rfl
  have inside (id : PairId) (contained : h.Contains v id) : ∃ e, h.Holds (.pair id) e := by
    obtain ⟨first, rfl, path⟩ := contained
    rcases Relation.reflTransGen_iff_eq_or_transGen.1 path with rfl | path
    · exact ⟨d, holds⟩
    · obtain ⟨e, inner, -⟩ := holds.exists_inside path
      exact ⟨e, inner⟩
  refine ⟨plain holds, fun id contained => ?_, fun id contained cyclic => ?_⟩
  · obtain ⟨e, inner⟩ := inside id contained
    cases inner with
    | pair there first second => exact ⟨_, _, there, plain first, plain second⟩
  · obtain ⟨e, inner⟩ := inside id contained
    obtain ⟨e', again, smaller⟩ := inner.exists_inside cyclic
    rw [inner.unique again] at smaller
    exact lt_irrefl _ smaller

/-- A value that is data, and that contains none of its ancestors, holds a tree, and is written as
    the tree is. -/
theorem exists_holds {ancestors : Finset PairId} (data : h.IsData v)
    (apart : ∀ id, h.Contains v id → id ∉ ancestors) :
    ∃ d, h.Holds v d ∧ Fragment.join (v.fragments h ancestors) = d.text := by
  have alone (s : String) : Fragment.join [.text s] = s := String.append_empty
  fun_induction Value.fragments h ancestors v with
  | case1 ancestors id inside => exact absurd inside (apart id ⟨id, rfl, .refl⟩)
  | case2 ancestors id fresh head tail found ihHead ihTail =>
    -- a part that contained the pair would put it on a cycle
    have apart' (part : Value) (isPart : part = head ∨ part = tail) (other : PairId)
        (inside : h.Contains part other) : other ∉ insert id ancestors := by
      have contained : h.Contains (.pair id) other := inside.of_pair found isPart
      intro ancestor
      rcases Finset.mem_insert.1 ancestor with rfl | older
      · exact data.acyclic other contained (inside.of_part found isPart)
      · exact apart other contained older
    obtain ⟨d, holdsHead, writtenHead⟩ := ihHead (data.part found (.inl rfl)) (apart' _ (.inl rfl))
    obtain ⟨e, holdsTail, writtenTail⟩ := ihTail (data.part found (.inr rfl)) (apart' _ (.inr rfl))
    refine ⟨.pair d e, .pair found holdsHead holdsTail, ?_⟩
    simp only [Fragment.join, Fragment.join_append, Fragment.written, writtenHead, writtenTail,
      Data.text, String.append_empty]
  | case3 ancestors id fresh absent =>
    obtain ⟨_, _, found, -⟩ := data.parts id ⟨id, rfl, .refl⟩
    cases absent.symm.trans found
  | case4 ancestors leaf other =>
    rw [alone]
    have plain := data.plain
    cases leaf with
    | undefined => exact ⟨_, .undefined, rfl⟩
    | null => exact ⟨_, .null, rfl⟩
    | boolean b => exact ⟨_, .boolean b, by cases b <;> rfl⟩
    | string s => exact ⟨_, .string s, rfl⟩
    | pair id => exact absurd rfl (other id)
    | _ => cases plain

/-- A value that is data holds one tree, and is written as this tree is. -/
theorem Heap.IsData.exists_text (data : h.IsData v) : ∃ d, h.Holds v d ∧ v.text h = d.text := by
  rw [Value.text_eq_join]
  exact exists_holds data fun id _ => Finset.notMem_empty id

/-- **Texts identify data.**  Two values that are data, each in its own heap, are written alike
    exactly when they hold the same tree: the same shape, with the same leaves. -/
theorem texts_identify_data (left : h.IsData v) (right : h'.IsData w) :
    v.text h = w.text h' ↔ ∃ d, h.Holds v d ∧ h'.Holds w d := by
  obtain ⟨d, holds, written⟩ := left.exists_text
  obtain ⟨e, holds', written'⟩ := right.exists_text
  constructor
  · intro same
    have texts : d.text.toList ++ [] = e.text.toList ++ [] := by rw [← written, ← written', same]
    obtain ⟨rfl, -⟩ := Data.text_append_inj texts
    exact ⟨d, holds, holds'⟩
  · rintro ⟨tree, first, second⟩
    rw [written, written', holds.unique first, holds'.unique second]

/-- A pair of one list twice is written like a pair of two lists, and a string with this text is
    written in another way. -/
theorem texts_identify_data_of_lists :
    let h : Heap := { pairs := #[(.string "a", .null), (.string "a", .null),
      (.pair ⟨0⟩, .pair ⟨0⟩), (.pair ⟨0⟩, .pair ⟨1⟩)] }
    let text : Value := .string "[[\"a\", null], [\"a\", null]]"
    h.IsData (.pair ⟨2⟩) ∧ h.IsData (.pair ⟨3⟩) ∧ h.IsData text ∧
      (Value.pair ⟨2⟩).text h = (Value.pair ⟨3⟩).text h ∧
      (Value.pair ⟨2⟩).text h ≠ text.text h := by
  intro h text
  have list : h.Holds (.pair ⟨0⟩) (.pair (.string "a") .null) := .pair rfl (.string "a") .null
  have copy : h.Holds (.pair ⟨1⟩) (.pair (.string "a") .null) := .pair rfl (.string "a") .null
  have shared : h.Holds (.pair ⟨2⟩) _ := .pair rfl list list
  have apart : h.Holds (.pair ⟨3⟩) _ := .pair rfl list copy
  have leaf : h.Holds text _ := .string _
  refine ⟨shared.isData, apart.isData, leaf.isData,
    (texts_identify_data shared.isData apart.isData).2 ⟨_, shared, apart⟩, fun same => ?_⟩
  obtain ⟨d, first, second⟩ := (texts_identify_data shared.isData leaf.isData).1 same
  cases (shared.unique first).trans (leaf.unique second).symm

end SourceMachine
