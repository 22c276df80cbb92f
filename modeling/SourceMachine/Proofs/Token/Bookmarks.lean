import SourceMachine.Token.Cursor
import SourceMachine.Proofs.Token.Tiling

/-!
# Bookmarks

A cursor counts bytes from where it was set up last and looks ahead at its own offset.
What it keeps stays consistent (`Cursor.IsAfter`): the offset is that of the characters
it has still to take.  So it takes the same tokens as a scanner at this place
(`IsAfter.scanner_next`), whatever its dictionary keeps, and going back to a bookmark gives
the scanner of the moment when the bookmark was made (`IsAfter.scanner_restore`).

`Walk.calls` is any sequence of calls on one cursor, with all bookmarks made on the way.
-/

namespace SourceMachine

open String (utf8Len)

/-! ## Looking ahead -/

/-- The text from the offset where a first part of it ends is what follows that part. -/
theorem suffixAt_append (done ahead : List Char) :
    suffixAt (utf8Len done) (done ++ ahead) = some ahead := by
  induction done with
  | nil =>
    unfold suffixAt
    rfl
  | cons c done ih =>
    have positive := c.utf8Size_pos
    obtain ⟨n, size⟩ : ∃ n, utf8Len (c :: done) = n + 1 :=
      ⟨utf8Len (c :: done) - 1, by rw [String.utf8Len_cons]; omega⟩
    rw [size, List.cons_append, suffixAt, ← size, String.utf8Len_cons, if_pos (by omega),
      Nat.add_sub_cancel]
    exact ih

/-! ## Dictionaries -/

/-- What a dictionary gives for a text is the text. -/
theorem Dictionary.share_fst (d : Dictionary) (text : String) : (d.share text).1 = text := by
  show ((d.insert text).get? text).getD text = text
  cases found : (d.insert text).get? text with
  | none => rfl
  | some kept =>
    have same := List.find?_some found
    exact of_decide_eq_true same

theorem Kind.shared_fst (d : Dictionary) (kind : Kind) : (kind.shared d).1 = kind := by
  cases kind with
  | string text => exact congrArg Kind.string (d.share_fst text)
  | template text => exact congrArg Kind.template (d.share_fst text)
  | identifier name => exact congrArg Kind.identifier (d.share_fst name)
  | _ => rfl

/-! ## Cursors -/

namespace Cursor

variable {text done : List Char} {c c' : Cursor}

/-- The cursor without what it needs to go back. -/
def scanner (c : Cursor) : Scanner :=
  ⟨c.ahead, c.position, c.newlineBefore⟩

/-- The cursor has read the first part of a text: it stands right after it, and counts the
    bytes of this part. -/
structure IsAfter (text done : List Char) (c : Cursor) : Prop where
  whole : c.text = text
  stands : c.scanner.IsAfter text done
  counted : c.base + c.taken = utf8Len done

theorem isAfter_ofText (text : String) (d : Dictionary) : (ofText text d).IsAfter text.toList [] :=
  ⟨rfl, ⟨rfl, rfl⟩, rfl⟩

namespace IsAfter

variable (h : c.IsAfter text done)

include h

theorem offset : c.position.offset = utf8Len done := by
  have position := h.stands.position
  rw [Position.afterAll_start] at position
  exact congrArg Position.offset position

/-- Looking ahead shows what is still to be taken. -/
theorem upcoming : c.upcoming = c.ahead := by
  have split : c.text = done ++ c.ahead := h.whole.trans h.stands.split
  rw [Cursor.upcoming, h.offset, split, suffixAt_append]
  rfl

/-- Taking a character reads it. -/
theorem take :
    c.take.IsAfter text (done ++ c.ahead.take 1) ∧ c.take.ahead = c.ahead.drop 1 ∧
      c.take.position = c.position.afterAll (c.ahead.take 1) := by
  cases ahead : c.ahead with
  | nil =>
    have same : c.take = c := by
      unfold Cursor.take
      rw [ahead]
    rw [same, List.take_nil, List.append_nil]
    exact ⟨h, ahead, rfl⟩
  | cons d rest =>
    -- the offset is counted from the base, and is the one that the characters give
    have offset : c.base + (c.taken + d.utf8Size) = c.position.offset + d.utf8Size := by
      rw [← Nat.add_assoc, h.counted, h.offset]
    have moved : c.take = { c with
        ahead := rest, taken := c.taken + d.utf8Size, position := c.position.after d } := by
      unfold Cursor.take
      rw [ahead]
      dsimp only
      rw [offset, Position.after]
      split <;> rfl
    have split : text = done ++ d :: rest := by
      rw [← ahead]
      exact h.stands.split
    rw [moved]
    refine ⟨⟨h.whole, ⟨?_, ?_⟩, ?_⟩, rfl, rfl⟩
    · show text = done ++ [d] ++ rest
      rw [split, List.append_assoc]
      rfl
    · show c.position.after d = ({} : Position).afterAll (done ++ [d])
      rw [Position.afterAll_append, ← h.stands.position]
      rfl
    · show c.base + (c.taken + d.utf8Size) = utf8Len (done ++ [d])
      rw [offset, h.offset, String.utf8Len_append]
      simp

/-- Taking characters reads them. -/
theorem takeMany (n : Nat) :
    (c.takeMany n).IsAfter text (done ++ c.ahead.take n) ∧
      (c.takeMany n).ahead = c.ahead.drop n ∧
      (c.takeMany n).position = c.position.afterAll (c.ahead.take n) := by
  induction n generalizing c done with
  | zero =>
    rw [List.take_zero, List.append_nil]
    exact ⟨h, rfl, rfl⟩
  | succ n ih =>
    obtain ⟨stands, ahead, position⟩ := h.take
    obtain ⟨stands', ahead', position'⟩ := ih stands
    have parts : c.ahead.take (n + 1) = c.ahead.take 1 ++ c.take.ahead.take n := by
      rw [ahead, Nat.add_comm n 1, List.take_add]
    rw [parts, ← List.append_assoc]
    refine ⟨stands', ?_, ?_⟩
    · show (c.take.takeMany n).ahead = _
      rw [ahead', ahead, List.drop_drop, Nat.add_comm n 1]
    · show (c.take.takeMany n).position = _
      rw [position', position, Position.afterAll_append]

/-- A cursor takes the same token as a scanner at its place, and gets to the same place. -/
theorem scanner_next :
    c.next.1 = c.scanner.next.1 ∧ c.next.2.scanner = c.scanner.next.2 ∧
      c.next.2.IsAfter text (done ++ c.scanner.gap ++ c.scanner.word) := by
  obtain ⟨inside, rest, start⟩ := h.takeMany (gapLength c.ahead)
  obtain ⟨behind, rest', stop⟩ := inside.takeMany (lexeme (c.ahead.drop (gapLength c.ahead))).2
  rw [rest] at behind rest' stop
  have scanner : c.next.2.scanner = c.scanner.next.2 := by
    unfold Cursor.next
    dsimp only
    rw [h.upcoming, inside.upcoming, rest]
    rw [rest', stop, start]
    rfl
  unfold Cursor.next at scanner ⊢
  dsimp only at scanner ⊢
  rw [h.upcoming, inside.upcoming, rest] at scanner ⊢
  refine ⟨?_, scanner, behind.whole, scanner ▸ h.stands.next, behind.counted⟩
  rw [Kind.shared_fst, start, stop, start]
  rfl

/-- Going back to a bookmark gives the scanner of the moment when it was made. -/
theorem scanner_restore (same : c'.text = text) :
    (c'.restore c.bookmark).scanner = c.scanner ∧
      (c'.restore c.bookmark).IsAfter text done := by
  have ahead : (c'.restore c.bookmark).ahead = c.ahead := by
    show (suffixAt c.position.offset c'.text).getD [] = c.ahead
    rw [h.offset, same, h.stands.split, suffixAt_append]
    rfl
  have scanner : (c'.restore c.bookmark).scanner = c.scanner := by
    show Scanner.mk _ _ _ = _
    rw [ahead]
    rfl
  refine ⟨scanner, same, scanner ▸ h.stands, ?_⟩
  show c.position.offset + 0 = utf8Len done
  rw [Nat.add_zero, h.offset]

end IsAfter

/-- The cursor has read some first part of a text. -/
def IsIn (text : List Char) (c : Cursor) : Prop :=
  ∃ done, c.IsAfter text done

theorem IsIn.next (h : c.IsIn text) : c.next.2.IsIn text := by
  obtain ⟨done, stands⟩ := h
  exact ⟨_, stands.scanner_next.2.2⟩

/-! ## Several tokens -/

/-- The cursor after some tokens. -/
def after (c : Cursor) (count : Nat) : Cursor :=
  (fun c => c.next.2)^[count] c

/-- The token after some others. -/
def token (c : Cursor) (index : Nat) : Token :=
  (c.after index).next.1

theorem after_succ (c : Cursor) (count : Nat) : c.after (count + 1) = (c.after count).next.2 :=
  Function.iterate_succ_apply' _ _ _

theorem IsIn.after (h : c.IsIn text) (count : Nat) :
    (c.after count).IsIn text ∧ (c.after count).scanner = c.scanner.after count := by
  induction count with
  | zero => exact ⟨h, rfl⟩
  | succ count ih =>
    obtain ⟨inside, same⟩ := ih
    rw [after_succ, Scanner.after_succ, ← same]
    obtain ⟨done, stands⟩ := inside
    obtain ⟨-, scanner, behind⟩ := stands.scanner_next
    exact ⟨⟨_, behind⟩, scanner⟩

/-- A cursor takes the tokens of the scanner at its place. -/
theorem IsIn.token (h : c.IsIn text) (index : Nat) : c.token index = c.scanner.token index := by
  obtain ⟨⟨done, stands⟩, same⟩ := h.after index
  rw [Cursor.token, Scanner.token, ← same]
  exact stands.scanner_next.1

end Cursor

/-! ## Sequences of calls -/

/-- A cursor on its way, with the bookmarks that were made. -/
structure Walk where
  cursor : Cursor
  marks : List Bookmark := []

namespace Walk

/-- What can be asked of a cursor. -/
inductive Call where
  | next
  | bookmark
  /-- Go back to one of the bookmarks. -/
  | restore (index : Nat)

/-- The cursor after a call. -/
def call (w : Walk) : Call → Walk
  | .next => { w with cursor := w.cursor.next.2 }
  | .bookmark => { w with marks := w.marks ++ [w.cursor.bookmark] }
  | .restore index =>
    match w.marks[index]? with
    | some mark => { w with cursor := w.cursor.restore mark }
    | none => w

/-- The cursor after some calls. -/
def calls (w : Walk) (cs : List Call) : Walk :=
  cs.foldl call w

/-- The cursor stands in a text, and so do all bookmarks. -/
structure IsIn (text : List Char) (w : Walk) : Prop where
  cursor : w.cursor.IsIn text
  marks : ∀ mark ∈ w.marks, ∃ c : Cursor, c.IsIn text ∧ c.bookmark = mark

variable {text : List Char} {w : Walk}

theorem IsIn.call (h : w.IsIn text) (c : Call) : (w.call c).IsIn text := by
  cases c with
  | next => exact ⟨h.cursor.next, h.marks⟩
  | bookmark =>
    refine ⟨h.cursor, fun mark member => ?_⟩
    rcases List.mem_append.1 member with before | now
    · exact h.marks mark before
    · exact ⟨w.cursor, h.cursor, (List.mem_singleton.1 now).symm⟩
  | restore index =>
    rw [Walk.call]
    cases found : w.marks[index]? with
    | none => exact h
    | some mark =>
      obtain ⟨c, ⟨done, stands⟩, rfl⟩ := h.marks mark (List.mem_of_getElem? found)
      obtain ⟨_, here⟩ := h.cursor
      exact ⟨⟨done, (stands.scanner_restore here.whole).2⟩, h.marks⟩

theorem IsIn.calls (h : w.IsIn text) (cs : List Call) : (w.calls cs).IsIn text := by
  induction cs generalizing w with
  | nil => exact h
  | cons c cs ih => exact ih (h.call c)

theorem isIn_ofText (text : String) (d : Dictionary) :
    (Walk.mk (Cursor.ofText text d) []).IsIn text.toList :=
  ⟨⟨[], Cursor.isAfter_ofText text d⟩, by simp⟩

/-- Going back after any calls, with any dictionary, gives the scanner of the moment when
    the bookmark was made. -/
theorem IsIn.scanner_restore (h : w.IsIn text) (between : List Call) (d : Dictionary) :
    let back := { (w.calls between).cursor with dictionary := d }.restore w.cursor.bookmark
    back.scanner = w.cursor.scanner ∧ back.IsIn text := by
  intro back
  obtain ⟨done, stands⟩ := h.cursor
  obtain ⟨_, there⟩ := (h.calls between).cursor
  have same : { (w.calls between).cursor with dictionary := d }.text = text := there.whole
  obtain ⟨scanner, behind⟩ := stands.scanner_restore same
  exact ⟨scanner, done, behind⟩

end Walk

end SourceMachine
