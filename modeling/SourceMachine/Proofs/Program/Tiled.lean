import SourceMachine.Proofs.Program.Feed

/-!
# Streams of a text

The tokens of a stream that comes from a text are in order and disjoint, they start after the
token that was taken last, and only the last of them is the end of the text
(`Stream.IsTiled`).  Taking tokens keeps this (`IsTiled.leads`).  A stream that has taken at
least one token stands right after a token (`IsTiled.exists_stop`), with fewer tokens left
(`IsEnded.left_lt`).
-/

namespace SourceMachine

open String (utf8Len)

namespace Stream

/-! ## Taking tokens -/

/-- A stream leads to another one by taking at least one token. -/
def Passes (s s' : Stream) : Prop :=
  s.current.kind ≠ .eof ∧ s.advance.Leads s'

theorem Passes.leads {s s' : Stream} (passes : s.Passes s') : s.Leads s' :=
  (leads_advance passes.1).trans passes.2

theorem passes_advance {s : Stream} (more : s.current.kind ≠ .eof) : s.Passes s.advance :=
  ⟨more, .refl⟩

theorem Passes.trans_leads {s s' s'' : Stream} (first : s.Passes s') (second : s'.Leads s'') :
    s.Passes s'' :=
  ⟨first.1, first.2.trans second⟩

/-- Where something was taken, a first token was. -/
theorem Leads.eq_or_passes {s s' : Stream} (led : s.Leads s') : s' = s ∨ s.Passes s' := by
  induction led with
  | refl => exact .inl rfl
  | advance _ more ih =>
    rcases ih with rfl | passes
    · exact .inr (passes_advance more)
    · exact .inr (passes.trans_leads (leads_advance more))

/-! ## Streams that tile a text -/

/-- The last token of the stream, and no other, is the end of the text. -/
def IsEnded (s : Stream) : Prop :=
  ∃ tokens last, s.current :: s.rest = tokens ++ [last] ∧ last.kind = .eof ∧
    ∀ t ∈ tokens, t.kind ≠ .eof

/-- The tokens of the stream are the last ones of `T`, they are in order and disjoint, they come
    after what was taken before, only the end of the text is empty, and only the last token is
    the end. -/
structure IsTiled (T : List Token) (s : Stream) : Prop where
  suffix : s.current :: s.rest <:+ T
  before : s.previousStop ≤ s.current.span.start
  ordered : (s.current :: s.rest).IsChain fun t u => t.span.stop ≤ u.span.start
  solid : ∀ t ∈ s.current :: s.rest, t.kind ≠ .eof → t.span.start < t.span.stop
  ended : s.IsEnded

variable {T : List Token} {s s' : Stream}

theorem IsTiled.mem (tiled : s.IsTiled T) : s.current ∈ T :=
  tiled.suffix.subset List.mem_cons_self

/-- A token that is not the end is followed by another one. -/
theorem IsEnded.exists_rest (ended : s.IsEnded) (more : s.current.kind ≠ .eof) :
    ∃ t ts, s.rest = t :: ts := by
  obtain ⟨tokens, last, split, kind, -⟩ := ended
  cases rest : s.rest with
  | cons t ts => exact ⟨t, ts, rfl⟩
  | nil =>
    rw [rest] at split
    cases tokens with
    | nil =>
      cases split
      exact absurd kind more
    | cons t ts => simp at split

theorem advance_of_rest {t : Token} {ts : List Token} (rest : s.rest = t :: ts) :
    s.advance.current = t ∧ s.advance.rest = ts ∧ s.advance.previousStop = s.current.span.stop ∧
      s.advance.left + 1 = s.left := by
  obtain ⟨current, rest', stop, left, left_eq⟩ := s
  cases rest
  refine ⟨rfl, rfl, rfl, ?_⟩
  show left - 1 + 1 = left
  rw [left_eq]
  rfl

theorem IsEnded.advance (ended : s.IsEnded) (more : s.current.kind ≠ .eof) : s.advance.IsEnded := by
  obtain ⟨t, ts, rest⟩ := ended.exists_rest more
  obtain ⟨current, others, -⟩ := advance_of_rest rest
  obtain ⟨tokens, last, split, kind, earlier⟩ := ended
  rw [rest] at split
  cases tokens with
  | nil => simp at split
  | cons u us =>
    refine ⟨us, last, ?_, kind, fun v member => earlier v (List.mem_cons_of_mem _ member)⟩
    rw [current, others]
    exact (List.cons.inj split).2

theorem IsEnded.rest_eq (ended : s.IsEnded) (more : s.current.kind ≠ .eof) :
    s.rest = s.advance.current :: s.advance.rest := by
  obtain ⟨t, ts, rest⟩ := ended.exists_rest more
  obtain ⟨current, others, -⟩ := advance_of_rest rest
  rw [rest, current, others]

section

variable (tiled : s.IsTiled T)

include tiled

theorem IsTiled.advance (more : s.current.kind ≠ .eof) : s.advance.IsTiled T := by
  obtain ⟨t, ts, rest⟩ := tiled.ended.exists_rest more
  obtain ⟨current, others, stop, -⟩ := advance_of_rest rest
  have ordered := tiled.ordered
  have solid := tiled.solid
  have suffix := tiled.suffix
  rw [rest] at ordered solid suffix
  rw [List.isChain_cons_cons] at ordered
  refine ⟨?_, ?_, ?_, ?_, tiled.ended.advance more⟩
  · rw [current, others]
    exact (List.suffix_cons _ _).trans suffix
  · rw [stop, current]
    exact ordered.1
  · rw [current, others]
    exact ordered.2
  · rw [current, others]
    exact fun u member => solid u (List.mem_cons_of_mem _ member)

theorem IsTiled.leads (led : s.Leads s') : s'.IsTiled T := by
  induction led with
  | refl => exact tiled
  | advance _ more ih => exact ih.advance more

/-- The current token is in `T`, and has a place if it is not the end. -/
theorem IsTiled.start_lt_stop (more : s.current.kind ≠ .eof) :
    s.current.span.start < s.current.span.stop :=
  tiled.solid _ List.mem_cons_self more

/-- After taking a token, the stream stands right after it and before the next one. -/
theorem IsTiled.advance_bounds (more : s.current.kind ≠ .eof) :
    s.advance.previousStop = s.current.span.stop ∧
      s.current.span.stop ≤ s.advance.current.span.start := by
  obtain ⟨t, ts, rest⟩ := tiled.ended.exists_rest more
  obtain ⟨current, -, stop, -⟩ := advance_of_rest rest
  have ordered := tiled.ordered
  rw [rest, List.isChain_cons_cons] at ordered
  rw [stop, current]
  exact ⟨rfl, ordered.1⟩

/-- Taking tokens only goes forward. -/
theorem IsTiled.le_of_leads (led : s.Leads s') :
    s.previousStop ≤ s'.previousStop ∧ s.current.span.start ≤ s'.current.span.start := by
  induction led with
  | refl => exact ⟨le_rfl, le_rfl⟩
  | advance led more ih =>
    have tiled' := tiled.leads led
    obtain ⟨stop, next⟩ := tiled'.advance_bounds more
    have before := tiled'.before
    have solid := tiled'.start_lt_stop more
    constructor <;> omega

/-- Where a token was taken, the stream stands right after the end of a token, which is not
    before the end of the first one. -/
theorem IsTiled.exists_stop (passes : s.Passes s') :
    s.current.span.stop ≤ s'.previousStop ∧
      ∃ t ∈ T, t.kind ≠ .eof ∧ t.span.stop = s'.previousStop := by
  obtain ⟨more, led⟩ := passes
  induction led with
  | refl =>
    obtain ⟨stop, -⟩ := tiled.advance_bounds more
    rw [stop]
    exact ⟨le_rfl, s.current, tiled.mem, more, rfl⟩
  | advance led more' ih =>
    have tiled' := (tiled.advance more).leads led
    obtain ⟨stop, -⟩ := tiled'.advance_bounds more'
    have before := tiled'.before
    have solid := tiled'.start_lt_stop more'
    rw [stop]
    exact ⟨by omega, _, tiled'.mem, more', rfl⟩

end

theorem IsEnded.leads (ended : s.IsEnded) (led : s.Leads s') : s'.IsEnded ∧ s'.left ≤ s.left := by
  induction led with
  | refl => exact ⟨ended, le_rfl⟩
  | advance _ more ih =>
    obtain ⟨ended', fewer⟩ := ih
    obtain ⟨t, ts, rest⟩ := ended'.exists_rest more
    obtain ⟨-, -, -, left⟩ := advance_of_rest rest
    exact ⟨ended'.advance more, by omega⟩

/-- Fewer tokens are left where one was taken. -/
theorem IsEnded.left_lt (ended : s.IsEnded) (passes : s.Passes s') : s'.left < s.left := by
  obtain ⟨more, led⟩ := passes
  obtain ⟨t, ts, rest⟩ := ended.exists_rest more
  obtain ⟨-, -, -, left⟩ := advance_of_rest rest
  obtain ⟨-, fewer⟩ := (ended.advance more).leads led
  omega

end Stream

/-! ## Texts -/

/-- What is known of the tokens that a scanner still gives. -/
structure Scanner.Tiles (done : List Char) (tokens : List Token) : Prop where
  ordered : tokens.IsChain fun t u => t.span.stop ≤ u.span.start
  solid : ∀ t ∈ tokens, t.kind ≠ .eof → t.span.start < t.span.stop
  ended : ∃ init last, tokens = init ++ [last] ∧ last.kind = .eof ∧ ∀ t ∈ init, t.kind ≠ .eof
  after : ∀ t ∈ tokens.head?, utf8Len done ≤ t.span.start

theorem Scanner.IsAfter.tiles {text done : List Char} {s : Scanner} (h : s.IsAfter text done) :
    Tiles done (s.tokensAfter []) := by
  induction size : s.rest.length using Nat.strong_induction_on generalizing s done with
  | _ n ih =>
    subst size
    have stands := h.stands
    have start : utf8Len done ≤ s.next.1.span.start := by
      rw [stands.start, String.utf8Len_append]
      exact Nat.le_add_right _ _
    rw [tokensAfter_nil]
    by_cases ended : s.next.1.kind = .eof
    · rw [if_pos ended]
      refine ⟨List.isChain_singleton _, ?_, ⟨[], _, rfl, ended, by simp⟩, ?_⟩
      · intro t member more
        rw [List.mem_singleton.1 member] at more
        exact absurd ended more
      · rintro t ⟨⟩
        exact start
    · rw [if_neg ended]
      obtain ⟨ordered, solid, ⟨init, last, split, kind, earlier⟩, after⟩ :=
        ih _ (Scanner.next_shorter ended) h.next rfl
      refine ⟨?_, ?_, ⟨s.next.1 :: init, last, by rw [split]; rfl, kind, ?_⟩, ?_⟩
      · rw [List.isChain_cons]
        refine ⟨fun t first => ?_, ordered⟩
        rw [stands.stop]
        exact after t first
      · intro t member more
        rcases List.mem_cons.1 member with rfl | later
        · have some := utf8Len_pos (word_ne_nil ended).1
          rw [stands.start, stands.stop, String.utf8Len_append (done ++ s.gap)]
          omega
        · exact solid t later more
      · intro t member
        rcases List.mem_cons.1 member with rfl | later
        · exact ended
        · exact earlier t later
      · rintro t ⟨⟩
        exact start

/-- The stream at the first token of a text. -/
def Stream.ofText (text : String) : Stream :=
  (Scanner.ofText text).next.2.stream (Scanner.ofText text).next.1 0

theorem Program.read_eq (text : String) :
    Program.read text = (Program.reader (Stream.ofText text)).map (·.1) := rfl

theorem Stream.tokens_ofText (text : String) :
    (ofText text).current :: (ofText text).rest = tokensOf text :=
  (Scanner.tokensAfter_nil _).symm

theorem Stream.isTiled_ofText (text : String) : (ofText text).IsTiled (tokensOf text) := by
  have tokens := tokens_ofText text
  have tiles : Scanner.Tiles [] (tokensOf text) := (Scanner.isAfter_ofText text).tiles
  rw [← tokens] at tiles
  exact ⟨tokens ▸ List.suffix_rfl, Nat.zero_le _, tiles.ordered, tiles.solid, tiles.ended⟩

/-- The line and the column of a token are those of the place where it starts. -/
theorem exists_before_of_mem {text : String} {t : Token} (member : t ∈ tokensOf text) :
    ∃ before after, text.toList = before ++ after ∧ t.span.start = utf8Len before ∧
      t.span.line = .ofNat (1 + before.count '\n') ∧
      t.span.column = .ofNat (1 + (currentLine before).length) := by
  obtain ⟨count, -, -, collected⟩ := (Scanner.ofText text).exists_tokensAfter []
  rw [tokensOf, collected] at member
  obtain ⟨i, -, rfl⟩ := List.mem_map.1 member
  obtain ⟨done, after, -⟩ := Scanner.exists_isAfter text i
  obtain ⟨start, -, line, column, -⟩ := after.stands
  let s := (Scanner.ofText text).after i
  refine ⟨done ++ s.gap, s.word ++ s.next.2.rest, ?_, start, line, column⟩
  rw [after.split, s.rest_eq]
  simp only [List.append_assoc]

end SourceMachine
