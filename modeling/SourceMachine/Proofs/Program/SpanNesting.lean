import SourceMachine.Proofs.Program.Placed
import SourceMachine.Proofs.Program.Position

/-!
# Spans nest

A program that was read is placed as a whole: each of its nodes starts where a token starts,
stops where one stops, and holds its parts in order and disjoint.  Only the program of a text
without tokens is empty.
-/

namespace SourceMachine

open Reader
open String (utf8Len)

/-- Statements are read up to a token that ends them. -/
theorem Grammar.statements_yields_isEnd (level : Level) (isEnd : Kind → Bool) {s : Stream} :
    Yields (statements level isEnd) s fun _ s' => isEnd s'.current.kind = true := by
  rw [Grammar.statements]
  refine Yields.bind (P := fun _ s' => isEnd s'.current.kind = true) ?_
    fun body s₁ ended => .pure ended
  refine Yields.rounds (P := fun _ _ => True) (fun body s₁ _ => ?_) trivial
  refine .current (.ite (fun ended => .pure ended) fun _ => ?_)
  have any : Yields level.statement s₁ fun _ _ => True := fun _ _ _ => trivial
  refine .ite (fun _ => (Yields.unexpected _).bind_of_none) fun _ => ?_
  refine .accept (fun _ => ?_) fun _ => ?_
  · exact .pure trivial
  · exact any.bind fun a s₂ _ => .pure trivial

theorem Stream.IsEnded.rest_eq_nil {s : Stream} (ended : s.IsEnded)
    (last : s.current.kind = .eof) : s.rest = [] := by
  obtain ⟨tokens, _, split, -, earlier⟩ := ended
  cases tokens with
  | nil => exact (List.cons.inj split).2
  | cons t ts =>
    rw [(List.cons.inj split).1] at last
    exact absurd last (earlier t List.mem_cons_self)

/-- A program is placed, unless the text has no tokens. -/
theorem Program.reader_yields {T : List Token} {s : Stream} (tiled : s.IsTiled T) :
    Yields Program.reader s fun p _ => (Node.program p).Fits T ∨
      p.body = [] ∧ s.current.kind = .eof ∧
        p.span = { s.current.span with stop := s.current.span.start } := by
  refine .current (((Grammar.statements_places (Level.places_ofDepth T _) _ tiled).and
    (Grammar.statements_yields_isEnd _ _)).bind ?_)
  rintro body s' ⟨row, ended⟩
  refine .spanFrom (.pure ?_)
  rcases row.leads.eq_or_passes with rfl | passes
  · -- nothing was taken: the text has ended, and no statement was read
    right
    refine ⟨?_, of_decide_eq_true ended, ?_⟩
    · cases body with
      | nil => rfl
      | cons a body => exact absurd (of_decide_eq_true ended) (row.passes tiled).1
    · rw [max_eq_right tiled.before]
  · left
    have whole : Between T s [.program ⟨body, _⟩] s' := .node tiled passes row rfl trivial
    exact whole.fits _ List.mem_cons_self

theorem Program.HasNode.fits {T : List Token} {p : Program} {n : Node} (node : p.HasNode n)
    (whole : (Node.program p).Fits T) : n.Fits T := by
  induction node with
  | root => exact whole
  | child outer member ih => exact ih.inner _ member

/-- A program without statements has no other nodes. -/
theorem Program.HasNode.eq_program {p : Program} {n : Node} (node : p.HasNode n)
    (empty : p.body = []) : n = .program p := by
  induction node with
  | root => rfl
  | child outer member ih =>
    rw [ih] at member
    simp [Node.children, empty] at member

/-- The nodes of a program that was read fit among the tokens of the text, unless it has no
    statements. -/
theorem Program.HasNode.fits_of_read {text : String} {p : Program} {n : Node} (node : p.HasNode n)
    (accepted : Program.read text = .ok p) : n.Fits (tokensOf text) ∨
      n = .program p ∧ p.body = [] ∧
        ∃ t, tokensOf text = [t] ∧ n.span = { t.span with stop := t.span.start } := by
  have tiled := Stream.isTiled_ofText text
  rw [Program.read_eq] at accepted
  cases read : Program.reader (Stream.ofText text) with
  | error refusal =>
    rw [read] at accepted
    cases accepted
  | ok result =>
    rw [read] at accepted
    cases accepted
    rcases Program.reader_yields tiled read with fits | ⟨empty, last, span⟩
    · exact .inl (node.fits fits)
    · obtain rfl := node.eq_program empty
      refine .inr ⟨rfl, empty, (Stream.ofText text).current, ?_, span⟩
      rw [← Stream.tokens_ofText, tiled.ended.rest_eq_nil last]

/-- **Spans nest.**  Every node of a program that was read is placed among the tokens of the
    text (`Node.IsPlaced`): it starts where a token starts and stops where one stops, its parts
    lie within it, and they are disjoint and in the order of the text.  The one exception is
    the program of a text that has no tokens but its end, which is empty and stands there.  The
    line and the column of a node are those of its start: the line feeds before it are counted,
    and the characters since the last of them. -/
theorem spans_nest {text : String} {p : Program} (accepted : Program.read text = .ok p)
    {n : Node} (node : p.HasNode n) :
    (n.IsPlaced (· ∈ tokensOf text) ∨
      n = .program p ∧ p.body = [] ∧
        ∃ t, tokensOf text = [t] ∧ n.span = { t.span with stop := t.span.start }) ∧
    ∃ before after, text.toList = before ++ after ∧ n.span.start = utf8Len before ∧
      n.span.line = .ofNat (1 + before.count '\n') ∧
      n.span.column = .ofNat (1 + (currentLine before).length) := by
  have placed := (node.fits_of_read accepted).imp_left Node.Fits.placed
  refine ⟨placed, ?_⟩
  -- the place of a node is that of its first token
  obtain ⟨t, member, start, line, column⟩ : ∃ t ∈ tokensOf text, n.span.start = t.span.start ∧
      n.span.line = t.span.line ∧ n.span.column = t.span.column := by
    rcases placed with placed | ⟨-, -, t, tokens, span⟩
    · exact placed.starts
    · exact ⟨t, by rw [tokens]; exact List.mem_cons_self, by rw [span], by rw [span], by rw [span]⟩
  rw [start, line, column]
  exact exists_before_of_mem member

/-- The second statement of a text whose first statement is skipped: it starts at an opening
    parenthesis that belongs to none of its parts. -/
theorem spans_nest_of_two :
    ∃ p st, Program.read "class A {}\n(x) + f(y)" = .ok p ∧ p.HasNode (.statement st) ∧
      st.span = ⟨11, 21, 2, 1⟩ ∧
      (Node.statement st).IsPlaced (· ∈ tokensOf "class A {}\n(x) + f(y)") := by
  obtain ⟨p, accepted, st, second, span⟩ := Program.exists_read
    (by decide +kernel : ∃ p ∈ (Program.read "class A {}\n(x) + f(y)").toOption,
      ∃ st ∈ p.body[1]?, st.span = ⟨11, 21, 2, 1⟩)
  have node : p.HasNode (.statement st) :=
    .child .root (List.mem_map_of_mem (List.mem_of_getElem? second))
  refine ⟨p, st, accepted, node, span, ?_⟩
  rcases (spans_nest accepted node).1 with placed | ⟨impossible, -⟩
  · exact placed
  · cases impossible

end SourceMachine
