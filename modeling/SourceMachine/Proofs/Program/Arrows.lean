import SourceMachine.Proofs.Program.SpanNesting

/-!
# Arrows and the ends of lines

An arrow function whose parameter is a name by itself has its arrow on the line of the name.
Where the parameters stand in parentheses the arrow may be on a later line: whether an arrow
function is ahead is found by reading its parameters, and the end of a line plays no part in
this (`Grammar.arrowRest_of_newline`).

That every arrow function of a program has its arrow among the tokens was found when the nodes
were placed (`Node.Fits.hasArrow`).  What is left is to say what the flag of a token means in the
text (`exists_gap_of_suffix`).
-/

namespace SourceMachine

open String (utf8Len)

/-- Between two tokens in a row is a gap, and the second one knows whether a line ends in it. -/
theorem exists_gap_of_suffix {text : String} {t u : Token} {after : List Token}
    (suffix : t :: u :: after <:+ tokensOf text) :
    ∃ done gap rest, text.toList = done ++ gap ++ rest ∧ utf8Len done = t.span.stop ∧
      utf8Len (done ++ gap) = u.span.start ∧ (u.newlineBefore = true ↔ '\n' ∈ gap) := by
  obtain ⟨before, split⟩ := suffix
  obtain ⟨count, -, -, collected⟩ := (Scanner.ofText text).exists_tokensAfter []
  have token_eq {i : Nat} {v : Token} (found : (tokensOf text)[i]? = some v) :
      (Scanner.ofText text).token i = v := by
    rw [tokensOf, collected, List.reverse_nil, List.nil_append, List.getElem?_map] at found
    obtain ⟨j, place, rfl⟩ := Option.map_eq_some_iff.1 found
    obtain ⟨-, rfl⟩ := List.getElem?_eq_some_iff.1 place
    rw [List.getElem_range]
  have first : (Scanner.ofText text).token before.length = t := token_eq (by simp [← split])
  have second : (Scanner.ofText text).token (before.length + 1) = u := token_eq (by simp [← split])
  obtain ⟨done, stands, stop⟩ := Scanner.exists_isAfter text (before.length + 1)
  have placed := stands.stands
  rw [show ((Scanner.ofText text).after (before.length + 1)).next.1 = u from second] at placed
  let s := (Scanner.ofText text).after (before.length + 1)
  refine ⟨done, s.gap, s.word ++ s.next.2.rest, ?_, stop.trans (congrArg (·.span.stop) first),
    placed.start.symm, placed.newlineBefore⟩
  rw [stands.split, s.rest_eq]
  simp only [List.append_assoc]

/-- The rest of an arrow function does not depend on whether a line ends before its arrow. -/
theorem Grammar.arrowRest_of_newline (level : Level) (params : List Param) (start : Span)
    {s : Stream} (arrow : s.current.kind = .mark .arrow) (more : s.rest ≠ []) (newline : Bool) :
    arrowRest level params start { s with current := { s.current with newlineBefore := newline } } =
      arrowRest level params start s := by
  have expects (s : Stream) (here : s.current.kind = .mark .arrow) :
      Reader.expect (.mark .arrow) s = .ok ((), s.advance) := by
    rw [Reader.expect, Reader.bind_of_ok ((Reader.accept_apply _ s).trans (if_pos here))]
    rfl
  -- the arrow is gone once it was taken
  have same : Stream.advance { s with current := { s.current with newlineBefore := newline } } =
      s.advance := by
    obtain ⟨current, rest, stop, left, left_eq⟩ := s
    cases rest with
    | nil => exact absurd rfl more
    | cons t ts => rfl
  unfold arrowRest
  rw [Reader.bind_of_ok (expects s arrow), ← same]
  exact Reader.bind_of_ok (expects _ arrow)

/-- **Arrows follow names in line.**  Every arrow function of a program that was read has its
    arrow among the tokens of the text, right before its body.  The token before the arrow is
    either the name that is its only parameter, and then no line ends between the two, or the
    end of a list of parameters in parentheses.

    Such a list is read up to the arrow whether or not a line ends there: an arrow function in
    its place is what it would be if the arrow were on the same line, or on another one. -/
theorem arrows_follow_names_in_line {text : String} {p : Program}
    (accepted : Program.read text = .ok p) {f : Function} (node : p.HasNode (.function f))
    (isArrow : f.isArrow = true) : (∃ before last arrow first after done gap rest,
      tokensOf text = before ++ last :: arrow :: first :: after ∧
        arrow.kind = .mark .arrow ∧ f.body.span.start = first.span.start ∧
        text.toList = done ++ gap ++ rest ∧ utf8Len done = last.span.stop ∧
        utf8Len (done ++ gap) = arrow.span.start ∧ (arrow.newlineBefore = true ↔ '\n' ∈ gap) ∧
        (last.kind = .mark .rParen ∨
          ∃ name, last.kind = .identifier name ∧ f.params = [⟨⟨name, last.span⟩, false⟩] ∧
            '\n' ∉ gap)) ∧
    ∀ level s s' params newline, Grammar.params s.advance = .ok (params, s') →
      s'.current.kind = .mark .arrow → s'.rest ≠ [] →
      Grammar.parenthesised level s = Grammar.arrowRest level params s.current.span
        { s' with current := { s'.current with newlineBefore := newline } } := by
  have fits := (node.fits_of_read accepted).resolve_right nofun
  obtain ⟨last, arrow, first, after, suffix, heads, kind, start⟩ := fits.hasArrow isArrow
  obtain ⟨done, gap, rest, split, stop, start', newline⟩ := exists_gap_of_suffix suffix
  refine ⟨?_, fun level s s' params newline read arrow more => ?_⟩
  · obtain ⟨before, tokens⟩ := suffix
    refine ⟨before, last, arrow, first, after, done, gap, rest, tokens.symm, kind, start, split,
      stop, start', newline, ?_⟩
    cases heads with
    | list closing => exact .inl closing
    | name named single sameLine =>
      refine .inr ⟨_, named, single, fun ended => ?_⟩
      rw [newline.2 ended] at sameLine
      cases sameLine
  · rw [Grammar.arrowRest_of_newline level params _ arrow more]
    exact Grammar.parenthesised_of_arrow read arrow

/-- The function that is the first statement of a program. -/
def Program.leading? (p : Program) : Option Function :=
  match p.body with
  | .expression (.function f) _ :: _ => some f
  | _ => none

theorem Program.hasNode_of_leading? {p : Program} {f : Function} (first : p.leading? = some f) :
    p.HasNode (.function f) := by
  unfold leading? at first
  split at first
  · next span others body =>
    cases first
    have statement : p.HasNode (.statement (.expression (.function f) span)) :=
      .child .root (List.mem_map_of_mem (body ▸ List.mem_cons_self))
    have value : p.HasNode (.expression (.function f)) := .child statement List.mem_cons_self
    exact .child value List.mem_cons_self
  · cases first

/-- An arrow after a name and a comment. -/
theorem arrows_follow_names_in_line_of_comment :
    ∃ p f, Program.read "x /* y */ => x + 1;" = .ok p ∧ p.HasNode (.function f) ∧
      f.isArrow = true ∧ ∃ before last arrow after done gap rest,
        tokensOf "x /* y */ => x + 1;" = before ++ last :: arrow :: after ∧
        arrow.kind = .mark .arrow ∧ "x /* y */ => x + 1;".toList = done ++ gap ++ rest ∧
        utf8Len done = last.span.stop ∧ utf8Len (done ++ gap) = arrow.span.start ∧
        ∃ name, f.params = [⟨⟨name, last.span⟩, false⟩] ∧ '\n' ∉ gap := by
  obtain ⟨p, accepted, f, first, isArrow⟩ := Program.exists_read
    (by decide +kernel : ∃ p ∈ (Program.read "x /* y */ => x + 1;").toOption,
      ∃ f ∈ p.leading?, f.isArrow = true)
  have node := Program.hasNode_of_leading? first
  refine ⟨p, f, accepted, node, isArrow, ?_⟩
  obtain ⟨⟨before, last, arrow, first, after, done, gap, rest, tokens, kind, -, split, stop, start,
    -, heads⟩, -⟩ := arrows_follow_names_in_line accepted node isArrow
  refine ⟨before, last, arrow, _, done, gap, rest, tokens, kind, split, stop, start, ?_⟩
  have none : ∀ t ∈ tokensOf "x /* y */ => x + 1;", t.kind ≠ .mark .rParen := by decide +kernel
  rcases heads with closing | ⟨name, -, single, sameLine⟩
  · exact absurd closing (none last (by simp [tokens]))
  · exact ⟨name, single, sameLine⟩

/-- After a list of parameters in parentheses the arrow may be on the next line, where it may not
    be after a name. -/
theorem arrow_on_the_next_line :
    (∃ p f, Program.read "(x)\n=> x;" = .ok p ∧ p.HasNode (.function f) ∧ f.isArrow = true ∧
      ∃ t ∈ tokensOf "(x)\n=> x;", t.kind = .mark .arrow ∧ t.newlineBefore = true ∧
        f.span.start < t.span.start ∧ t.span.stop < f.body.span.start) ∧
    ¬ ∃ p, Program.read "x\n=> x;" = .ok p := by
  refine ⟨?_, ?_⟩
  · obtain ⟨p, accepted, f, first, isArrow, arrow⟩ := Program.exists_read
      (by decide +kernel : ∃ p ∈ (Program.read "(x)\n=> x;").toOption,
        ∃ f ∈ p.leading?, f.isArrow = true ∧ ∃ t ∈ tokensOf "(x)\n=> x;", t.kind = .mark .arrow ∧
          t.newlineBefore = true ∧ f.span.start < t.span.start ∧
          t.span.stop < f.body.span.start)
    exact ⟨p, f, accepted, Program.hasNode_of_leading? first, isArrow, arrow⟩
  · have refused : (Program.read "x\n=> x;").toOption.isNone = true := by decide +kernel
    rintro ⟨p, accepted⟩
    rw [accepted] at refused
    cases refused

end SourceMachine
