import SourceMachine.Proofs.Program.Runs
import SourceMachine.Proofs.Token.Bookmarks

/-!
# Reading with one cursor

A grammar reads a stream, which holds all tokens at once, and tries again by using an
earlier stream.  A feed has no more than a cursor and the current token: it takes the next
token from the cursor, looks ahead with a bookmark, and goes back by restoring one.  Each
feed shows a stream, the tokens that it would still give (`Feed.stream`).

The moves of a feed are those of its stream: taking a token (`IsIn.stream_advance`), going
back (`IsIn.stream_rewind`), and looking ahead (`IsIn.isIterationHead`).  So an attempt to
read an arrow function leaves no trace when it fails, and the line ends that the cursor
reports are those before the current token.
-/

namespace SourceMachine

open String (utf8Len)

/-! ## Streams -/

/-- The stream of a current token and of the tokens after it. -/
def Scanner.stream (s : Scanner) (current : Token) (previousStop : Nat) : Stream :=
  let rest := if current.kind = .eof then [] else s.tokensAfter []
  ⟨current, rest, previousStop, rest.length, rfl⟩

/-- A name and then one of the words `of` and `in`. -/
def isIteration : (name word : Kind) → Bool
  | .identifier _, .identifier word => word = "of" || word = "in"
  | _, _ => false

theorem isIteration_eof (name : Kind) : isIteration name .eof = false := by
  cases name <;> rfl

variable {s : Stream}

theorem Grammar.isIterationHead_of_rest {name word : Token} {rest : List Token}
    (following : s.rest = name :: word :: rest) :
    isIterationHead s = isIteration name.kind word.kind := by
  obtain ⟨kind, _, _⟩ := name
  obtain ⟨kind', _, _⟩ := word
  rw [isIterationHead, following]
  cases kind <;> cases kind' <;> rfl

theorem Grammar.isIterationHead_of_short {name : Token} (following : s.rest = [name]) :
    isIterationHead s = false := by
  obtain ⟨kind, _, _⟩ := name
  rw [isIterationHead, following]
  cases kind <;> rfl

/-! ## Readers that only take tokens -/

/-- A stream leads to those that come from it by taking tokens, but not past the end. -/
inductive Stream.Leads (s : Stream) : Stream → Prop where
  | refl : s.Leads s
  | advance {s' : Stream} (led : s.Leads s') (more : s'.current.kind ≠ .eof) : s.Leads s'.advance

theorem Stream.Leads.trans {s' s'' : Stream} (first : s.Leads s') (second : s'.Leads s'') :
    s.Leads s'' := by
  induction second with
  | refl => exact first
  | advance _ more ih => exact ih.advance more

theorem Stream.leads_advance (more : s.current.kind ≠ .eof) : s.Leads s.advance :=
  .advance .refl more

namespace Reader

/-- The reader only takes tokens, and never the end. -/
def Leads {α : Type} (r : Reader α) : Prop :=
  ∀ ⦃s a s'⦄, r s = .ok (a, s') → s.Leads s'

namespace Leads

variable {α β : Type}

theorem pure (a : α) : Leads (Pure.pure a : Reader α) := by
  intro s b s' accepted
  cases accepted
  exact .refl

theorem bind {r : Reader α} {f : α → Reader β} (first : Leads r) (onwards : ∀ a, Leads (f a)) :
    Leads (r >>= f) := by
  intro s b s' accepted
  change (Except.bind (r s) fun result => f result.1 result.2) = _ at accepted
  cases read : r s with
  | error refusal =>
    rw [read] at accepted
    cases accepted
  | ok result =>
    obtain ⟨a, s₁⟩ := result
    rw [read] at accepted
    exact (first read).trans (onwards a accepted)

theorem ite {c : Prop} [Decidable c] {r r' : Reader α} (pos : Leads r) (neg : Leads r') :
    Leads (if c then r else r') := by
  split
  · exact pos
  · exact neg

theorem isAt (k : Kind) : Leads (Reader.isAt k) := by
  intro s b s' accepted
  cases accepted
  exact .refl

theorem throw (refusal : Refusal) : Leads (MonadExcept.throw refusal : Reader α) := by
  intro s a s' accepted
  cases accepted

theorem unexpected (expected : Expectation) : Leads (Reader.unexpected expected : Reader α) := by
  intro s a s' accepted
  cases accepted

theorem accept {k : Kind} (token : k ≠ .eof) : Leads (Reader.accept k) := by
  intro s b s' accepted
  rw [accept_apply] at accepted
  split at accepted
  · next here =>
    cases accepted
    exact Stream.leads_advance (here ▸ token)
  · cases accepted
    exact .refl

theorem expect {k : Kind} (token : k ≠ .eof) : Leads (Reader.expect k) :=
  (accept token).bind fun _ => ite (pure ()) (unexpected _)

theorem identifier : Leads Reader.identifier := by
  intro s id s' accepted
  obtain ⟨here, rfl⟩ := identifier_eq_ok accepted
  exact Stream.leads_advance (by simp [here])

theorem rounds {round : α → Reader (Round α β)} (each : ∀ state, Leads (round state)) (state : α) :
    Leads (Reader.rounds round state) := by
  intro s b s' accepted
  fun_induction Reader.rounds round state s with
  | case1 => cases accepted
  | case2 state s result s₁ read =>
    cases accepted
    exact each state read
  | case3 state s state' s₁ read shorter ih => exact (each state read).trans (ih accepted)
  | case4 => cases accepted

end Leads

end Reader

namespace Grammar

open Reader

theorem params_leads : Leads params := by
  unfold params
  refine (Leads.rounds (fun ps => ?_) []).bind fun ps =>
    (Leads.expect (by simp)).bind fun _ => .pure _
  refine (Leads.isAt _).bind fun _ => .ite (.pure _) ?_
  refine (Leads.accept (by simp)).bind fun isRest => Leads.identifier.bind fun id => ?_
  refine .ite ((Leads.throw _).bind fun _ => ?_) ?_
  all_goals exact .ite (.pure _) ((Leads.accept (by simp)).bind fun _ => .ite (.pure _) (.pure _))

end Grammar

/-! ## Feeds -/

/-- The current token of a cursor, and the offset where the one before it ended. -/
structure Feed where
  cursor : Cursor
  current : Token
  previousStop : Nat

namespace Feed

/-- The feed at the first token of a text. -/
def ofText (text : String) (d : Dictionary) : Feed :=
  let first := (Cursor.ofText text d).next
  ⟨first.2, first.1, 0⟩

/-- Take the current token. -/
def advance (f : Feed) : Feed :=
  ⟨f.cursor.next.2, f.cursor.next.1, f.current.span.stop⟩

/-- Go back to where another feed was. -/
def rewind (f : Feed) (saved : Feed) : Feed :=
  ⟨f.cursor.restore saved.cursor.bookmark, saved.current, saved.previousStop⟩

/-- Look at the next two tokens and go back. -/
def isIterationHead (f : Feed) : Bool × Feed :=
  let name := f.cursor.next
  let word := name.2.next
  (isIteration name.1.kind word.1.kind, { f with cursor := word.2.restore f.cursor.bookmark })

/-- The tokens that the cursor would still give, as a stream. -/
def stream (f : Feed) : Stream :=
  f.cursor.scanner.stream f.current f.previousStop

/-- Feeds of one text: the current token was taken from it, the cursor stands right after
    this token, and the token before it ended where the cursor stood then. -/
structure IsIn (text : List Char) (f : Feed) : Prop where
  cursor : f.cursor.IsIn text
  current : ∃ (s : Scanner) (done : List Char), s.IsAfter text done ∧
    utf8Len done = f.previousStop ∧ s.next = (f.current, f.cursor.scanner)

/-- What reading does with feeds.  The dictionary may be any at any time. -/
inductive Reaches (start : Feed) : Feed → Prop where
  | refl : Reaches start start
  | advance {f : Feed} (reached : Reaches start f) : Reaches start f.advance
  | lookAhead {f : Feed} (reached : Reaches start f) : Reaches start f.isIterationHead.2
  | rewind {f saved : Feed} (reached : Reaches start f) (earlier : Reaches start saved) :
      Reaches start (f.rewind saved)
  | keep {f : Feed} (d : Dictionary) (reached : Reaches start f) :
      Reaches start { f with cursor := { f.cursor with dictionary := d } }

variable {text : List Char} {f saved : Feed}

/-! ## Feeds stay in their text -/

theorem isIn_ofText (text : String) (d : Dictionary) : (ofText text d).IsIn text.toList := by
  have start := Cursor.isAfter_ofText text d
  obtain ⟨token, scanner, behind⟩ := start.scanner_next
  refine ⟨⟨_, behind⟩, _, [], start.stands, rfl, ?_⟩
  exact (Prod.ext token scanner).symm

namespace IsIn

theorem advance (h : f.IsIn text) : f.advance.IsIn text := by
  obtain ⟨s, done, stands, -, taken⟩ := h.current
  obtain ⟨_, here⟩ := h.cursor
  obtain ⟨token, scanner, -⟩ := here.scanner_next
  have next := stands.next
  have stop := stands.stands.stop
  rw [taken] at next stop
  exact ⟨h.cursor.next, _, _, next, stop.symm, (Prod.ext token scanner).symm⟩

theorem scanner_rewind (h : f.IsIn text) (earlier : saved.IsIn text) :
    (f.rewind saved).cursor.scanner = saved.cursor.scanner ∧
      (f.rewind saved).cursor.IsIn text := by
  obtain ⟨_, here⟩ := h.cursor
  obtain ⟨done, there⟩ := earlier.cursor
  obtain ⟨scanner, back⟩ := there.scanner_restore here.whole
  exact ⟨scanner, done, back⟩

theorem rewind (h : f.IsIn text) (earlier : saved.IsIn text) : (f.rewind saved).IsIn text := by
  obtain ⟨scanner, back⟩ := h.scanner_rewind earlier
  obtain ⟨s, done, stands, stop, taken⟩ := earlier.current
  rw [← scanner] at taken
  exact ⟨back, s, done, stands, stop, taken⟩

theorem reaches {start : Feed} (h : start.IsIn text) (reached : start.Reaches f) : f.IsIn text := by
  induction reached with
  | refl => exact h
  | advance _ ih => exact ih.advance
  | lookAhead _ ih =>
    -- looking ahead is taking two tokens and going back
    exact ih.advance.advance.rewind ih
  | rewind _ _ ih ihEarlier => exact ih.rewind ihEarlier
  | keep d _ ih =>
    obtain ⟨done, here⟩ := ih.cursor
    exact ⟨⟨done, here.whole, here.stands, here.counted⟩, ih.current⟩

/-! ## The stream that a feed shows -/

variable (h : f.IsIn text)

include h

/-- At the end of a text the cursor gives nothing but the end. -/
theorem next_eof (ended : f.current.kind = .eof) : f.advance.current.kind = .eof := by
  show f.cursor.next.1.kind = .eof
  obtain ⟨s, done, stands, -, taken⟩ := h.current
  obtain ⟨_, here⟩ := h.cursor
  have empty := (Scanner.word_eq_nil (s := s) (by rw [taken]; exact ended)).2.1
  rw [taken] at empty
  rw [here.scanner_next.1, Scanner.next_kind_eq_eof_iff, empty, List.drop_nil]

/-- The tokens of a feed are its current one and then those of the feed after it. -/
theorem rest_stream (more : f.current.kind ≠ .eof) :
    f.stream.rest = f.advance.current :: f.advance.stream.rest := by
  obtain ⟨_, here⟩ := h.cursor
  obtain ⟨token, scanner, -⟩ := here.scanner_next
  show (if f.current.kind = .eof then [] else f.cursor.scanner.tokensAfter []) =
    f.cursor.next.1 :: if f.cursor.next.1.kind = .eof then [] else
      f.cursor.next.2.scanner.tokensAfter []
  rw [if_neg more, Scanner.tokensAfter_nil, token, scanner]

theorem stream_advance (more : f.current.kind ≠ .eof) : f.advance.stream = f.stream.advance := by
  have rest := h.rest_stream more
  unfold Stream.advance
  split
  · next none => cases rest.symm.trans none
  · next t ts some =>
    cases rest.symm.trans some
    have left : f.stream.left - 1 = f.advance.stream.rest.length := by
      rw [f.stream.left_eq, rest]
      rfl
    simp only [left]
    rfl

theorem stream_rewind (earlier : saved.IsIn text) : (f.rewind saved).stream = saved.stream := by
  rw [Feed.stream, (h.scanner_rewind earlier).1]
  rfl

/-- Looking ahead sees the two tokens that follow in the stream. -/
theorem isIterationHead : f.isIterationHead.1 = Grammar.isIterationHead f.stream := by
  show isIteration f.advance.current.kind f.advance.advance.current.kind = _
  by_cases ended : f.current.kind = .eof
  · have nothing : f.stream.rest = [] := if_pos ended
    rw [Grammar.isIterationHead, nothing, h.advance.next_eof (h.next_eof ended), isIteration_eof]
  · by_cases last : f.advance.current.kind = .eof
    · have short : f.stream.rest = [f.advance.current] := by
        rw [h.rest_stream ended]
        exact congrArg _ (if_pos last)
      rw [Grammar.isIterationHead_of_short short, h.advance.next_eof last, isIteration_eof]
    · have long : f.stream.rest =
          f.advance.current :: f.advance.advance.current :: f.advance.advance.stream.rest := by
        rw [h.rest_stream ended, h.advance.rest_stream last]
      rw [Grammar.isIterationHead_of_rest long]

/-- A reader that only takes tokens ends at a feed. -/
theorem exists_of_leads {s' : Stream} (led : f.stream.Leads s') :
    ∃ f', f.Reaches f' ∧ f'.stream = s' := by
  induction led with
  | refl => exact ⟨f, .refl, rfl⟩
  | advance _ more ih =>
    obtain ⟨f', reached, rfl⟩ := ih
    exact ⟨f'.advance, reached.advance, (h.reaches reached).stream_advance more⟩

/-- The cursor knows whether a line ended before the current token. -/
theorem newlineBefore : f.cursor.newlineBefore = f.current.newlineBefore ∧
      ∃ before gap after, text = before ++ gap ++ after ∧ utf8Len before = f.previousStop ∧
        utf8Len (before ++ gap) = f.current.span.start ∧
        (f.cursor.newlineBefore = true ↔ '\n' ∈ gap) := by
  obtain ⟨s, done, stands, stop, taken⟩ := h.current
  have token : s.next.1 = f.current := congrArg Prod.fst taken
  have scanner : s.next.2 = f.cursor.scanner := congrArg Prod.snd taken
  have flag : f.cursor.newlineBefore = f.current.newlineBefore := by
    rw [← token]
    show f.cursor.scanner.newlineBefore = _
    rw [← scanner]
    rfl
  have placed := stands.stands
  rw [token] at placed
  refine ⟨flag, done, s.gap, s.word ++ s.next.2.rest, ?_, stop, placed.start.symm, ?_⟩
  · rw [stands.split, s.rest_eq]
    simp only [List.append_assoc]
  · rw [flag]
    exact placed.newlineBefore

end IsIn

theorem stream_ofText (text : String) (d : Dictionary) : (ofText text d).stream =
      (Scanner.ofText text).next.2.stream (Scanner.ofText text).next.1 0 := by
  obtain ⟨token, scanner, -⟩ := (Cursor.isAfter_ofText text d).scanner_next
  show (Cursor.ofText text d).next.2.scanner.stream (Cursor.ofText text d).next.1 0 = _
  rw [token, scanner]
  rfl

end Feed

/-- Reading a program starts with the feed at the start of the text. -/
theorem Program.read_eq_feed (text : String) (d : Dictionary) :
    Program.read text = (Program.reader (Feed.ofText text d).stream).map (·.1) := by
  rw [Feed.stream_ofText]
  rfl

/-- **Going back leaves no trace.**  After any calls on a cursor, going back to a bookmark
    gives the line end flag and the tokens that would have followed when it was made,
    whatever was read since and whatever the dictionary keeps.

    Reading a program can be done with one cursor and its current token.  At every token
    the cursor says whether a line ended between this token and the one before.  Looking
    ahead and going back do not change what is still to be read, so what follows a
    parenthesis is read as an arrow function where this succeeds, and else as if this had
    not been tried. -/
theorem backtracking_leaves_no_trace (text : String) (d : Dictionary) :
    (∀ (before between : List Walk.Call) (d' : Dictionary),
      let w := (Walk.mk (Cursor.ofText text d) []).calls before
      let back := { (w.calls between).cursor with dictionary := d' }.restore w.cursor.bookmark
      back.newlineBefore = w.cursor.newlineBefore ∧
        ∀ n, back.token n = w.cursor.token n ∧
          (back.after n).newlineBefore = (w.cursor.after n).newlineBefore) ∧
      Program.read text = (Program.reader (Feed.ofText text d).stream).map (·.1) ∧
      ∀ f, (Feed.ofText text d).Reaches f →
        (f.cursor.newlineBefore = f.current.newlineBefore ∧
          ∃ before gap after, text.toList = before ++ gap ++ after ∧
            utf8Len before = f.previousStop ∧ utf8Len (before ++ gap) = f.current.span.start ∧
            (f.cursor.newlineBefore = true ↔ '\n' ∈ gap)) ∧
        (f.current.kind ≠ .eof → f.advance.stream = f.stream.advance) ∧
        f.isIterationHead.1 = Grammar.isIterationHead f.stream ∧
        f.isIterationHead.2.stream = f.stream ∧
        (∀ f', (Feed.ofText text d).Reaches f' → (f'.rewind f).stream = f.stream ∧
          (f'.rewind f).cursor.newlineBefore = f.cursor.newlineBefore) ∧
        ∀ level, f.current.kind = .mark .lParen →
          (∀ ps s', Grammar.params f.stream.advance = .ok (ps, s') →
            s'.current.kind = .mark .arrow → ∃ f', f.Reaches f' ∧ f'.stream = s' ∧
              Grammar.parenthesised level f.stream =
                Grammar.arrowRest level ps f.current.span f'.stream) ∧
          (Grammar.isArrowAhead f.stream = false →
            ∀ f', (Feed.ofText text d).Reaches f' →
              Grammar.parenthesised level f.stream =
                Grammar.bracketed level (f'.rewind f).stream) := by
  refine ⟨fun before between d' => ?_, Program.read_eq_feed text d, fun f reached => ?_⟩
  · intro w back
    have inside := (Walk.isIn_ofText text d).calls before
    obtain ⟨scanner, there⟩ := inside.scanner_restore between d'
    refine ⟨congrArg Scanner.newlineBefore scanner, fun n => ⟨?_, ?_⟩⟩
    · rw [there.token, inside.cursor.token, scanner]
    · show (back.after n).scanner.newlineBefore = (w.cursor.after n).scanner.newlineBefore
      rw [(there.after n).2, (inside.cursor.after n).2, scanner]
  · have start := Feed.isIn_ofText text d
    have inside := start.reaches reached
    refine ⟨inside.newlineBefore, inside.stream_advance, inside.isIterationHead,
      inside.advance.advance.stream_rewind inside, fun f' reached' => ?_,
      fun level paren => ⟨fun ps s' read arrow => ?_, fun failed f' reached' => ?_⟩⟩
    · exact ⟨(start.reaches reached').stream_rewind inside, rfl⟩
    · have more : f.current.kind ≠ .eof := by simp [paren]
      have led : f.stream.Leads s' :=
        (Stream.leads_advance more).trans (Grammar.params_leads read)
      obtain ⟨f', onwards, rfl⟩ := inside.exists_of_leads led
      exact ⟨f', onwards, rfl, Grammar.parenthesised_of_arrow read arrow⟩
    · rw [(start.reaches reached').stream_rewind inside]
      exact Grammar.parenthesised_of_not_isArrowAhead failed

theorem backtracking_leaves_no_trace_paren :
    let f := Feed.ofText "(a)\n+ b" {}
    let later := f.advance.advance.advance
    f.current.kind = .mark .lParen ∧ Grammar.isArrowAhead f.stream = false ∧
      later.cursor.newlineBefore = true ∧ (later.rewind f).cursor.newlineBefore = false ∧
      (later.rewind f).stream = f.stream ∧
      ∀ level, Grammar.parenthesised level f.stream =
        Grammar.bracketed level (later.rewind f).stream := by
  intro f later
  obtain ⟨-, -, reading⟩ := backtracking_leaves_no_trace "(a)\n+ b" {}
  have reached : f.Reaches later := .advance (.advance (.advance .refl))
  obtain ⟨-, -, -, -, back, parens⟩ := reading f .refl
  obtain ⟨paren, failed, newline, none⟩ : f.current.kind = .mark .lParen ∧
      Grammar.isArrowAhead f.stream = false ∧ later.cursor.newlineBefore = true ∧
      f.cursor.newlineBefore = false := by decide +kernel
  obtain ⟨same, flag⟩ := back later reached
  exact ⟨paren, failed, newline, flag.trans none, same,
    fun level => (parens level paren).2 failed later reached⟩

end SourceMachine
