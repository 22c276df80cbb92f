import SourceMachine.Proofs.Program.RoundTrip
import SourceMachine.Proofs.Program.Tiled

/-!
# Texts of one expression

A text may end right after an expression: the end of the text ends the statement, and no
semicolon is needed.  Such a text is a program of one statement
(`Program.exists_of_expression`).
-/

namespace SourceMachine

namespace Grammar

open Reader Outline

/-- The end of the text. -/
def isLast (k : Kind) : Bool :=
  k = .eof

variable {level : Level} {words : List Word} {fits : Prop} {Q : Expr → Prop}

/-- A statement needs no semicolon at the end of the text. -/
theorem endOfStatement_of_last {β : Type} {f : Unit → Reader β} {P : β → Prop}
    (onwards : Gives (f ()) [] isLast fits P) : Gives (endOfStatement >>= f) [] isLast fits P := by
  refine .look (K := (· = .eof)) (P := fun _ => True) (.nil fun k last => of_decide_eq_true last)
    (fun s here _ => ⟨(), trivial, ?_⟩) fun _ _ => onwards
  show Except.bind (accept (.mark .semicolon) s) _ = _
  rw [accept_apply, if_neg (by rw [here]; simp)]
  show (if _ then _ else _ : Reader Unit) s = _
  rw [here]
  rfl

theorem statement_of_expression (opens : Opens words opensExpression)
    (h : Gives level.expression words endsExpression fits Q) :
    Gives (statement level) words isLast fits fun st =>
      ∃ e span, st = .expression e span ∧ Q e := by
  refine Gives.of_eq (expressionStatement level) ?_ fun s k kinds last shows => ?_
  · unfold expressionStatement
    refine .start fun t => h.bind_last (fun k last => ?_) fun e holds => ?_
    · obtain rfl : k = .eof := of_decide_eq_true last
      rfl
    · exact endOfStatement_of_last (.spanFrom fun span => .pure ⟨e, span, rfl, holds⟩)
  · obtain ⟨w, rest, rfl, first⟩ := opens
    exact statement_of_opensExpression (shows.kind ▸ first)

/-- One statement, and then the end of the text. -/
theorem statements_of_one {P : Stmt → Prop} (opens : Opens words opensStatement)
    (h : Gives level.statement words isLast fits P) :
    Gives (statements level (· = .eof)) words isLast fits fun body => ∃ st, body = [st] ∧ P st := by
  unfold statements
  refine Gives.bind_last (P := fun body => ∃ st, body = [st] ∧ P st) ?_ (fun _ => id) ?_
  · refine (Gives.rounds_more (P := fun body => ∃ st, body = [st] ∧ P st) isLast opens.ne_nil ?_
      (.nil fun _ => id) fun body one => .rounds_done ?_).congr (List.append_nil words).symm
      (iff_of_eq (and_true fits).symm)
    · refine .current (opens.first fun k plain => opensStatement_iff.1 plain) fun t first => ?_
      obtain ⟨⟨-, notLast, -, -⟩, -⟩ := first
      rw [if_neg (by simpa using notLast), if_neg notLast]
      refine .decline (opens.first fun k plain => (opensStatement_iff.1 plain).2.2.1) ?_
      exact h.bind_last (fun _ => id) fun st holds => .pure ⟨st, rfl, holds⟩
    · refine .current (K := (· = .eof)) (.nil fun k last => of_decide_eq_true last) fun t last => ?_
      rw [if_pos (decide_eq_true last.1)]
      exact .pure one
  · rintro _ ⟨st, rfl, holds⟩
    exact .pure ⟨st, rfl, holds⟩

end Grammar

open Reader Grammar Outline

/-- A text of one expression that is not nested too deep is a program of one statement. -/
theorem Program.exists_of_expression {text : String} {words : List Word} {fits : Prop}
    {Q : Expr → Prop} (tokens : (tokensOf text).map (fun t => (t.kind, t.newlineBefore)) =
      (words.map Word.kind ++ [Kind.eof]).map fun k => (k, false))
    (opens : Opens words opensExpression)
    (read : Gives (Level.ofDepth (maxNesting - 1)).expression words endsExpression fits Q)
    (fit : fits) : ∃ p e span, Program.read text = .ok p ∧ p.body = [.expression e span] ∧ Q e := by
  have starts : Opens words Grammar.opensStatement :=
    opens.mono fun _ => opensStatement_of_opensExpression
  have gives : Gives Program.reader words isLast fits
      fun p => ∃ e span, p.body = [.expression e span] ∧ Q e := by
    unfold Program.reader
    refine .start fun t => (statements_of_one starts (statement_of_expression opens read)).bind_last
      (fun _ => id) ?_
    rintro _ ⟨_, rfl, e, span, rfl, holds⟩
    exact .spanFrom fun whole => .pure ⟨e, span, rfl, holds⟩
  have shows : (Stream.ofText text).Shows (words.map Word.kind ++ .eof :: []) := by
    rw [Stream.Shows, Stream.tokens_ofText, tokens]
  obtain ⟨p, s, accepted, ⟨e, span, body, holds⟩, -⟩ :=
    (gives (decide_eq_true rfl) shows).exists_ok fit
  refine ⟨p, e, span, ?_, body, holds⟩
  rw [Program.read_eq, accepted]
  rfl

end SourceMachine
