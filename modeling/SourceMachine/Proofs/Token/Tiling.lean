import Mathlib
import SourceMachine.Token.Scanner

/-!
# Tokens tile their text

The tokens of a text cover it from its start to its end: before each token stands a gap
of blanks and comments, and nothing else is left out (`tokens_tile`).  The position that
the scanner keeps is a function of the characters before it (`Position.afterAll_start`),
so every span says where its token really stands.

`IsGap` is the grammar of gaps.  It is not shaped like the scanner, which counts the
characters of a gap in one pass over three modes; `exists_gapFrom` relates the two, mode
by mode.  Only the last gap of a text may break off inside of a comment.
-/

namespace SourceMachine

open String (utf8Len)

/-! ## Positions -/

/-- The characters since the last line feed. -/
def currentLine (cs : List Char) : List Char :=
  (cs.reverse.takeWhile (· ≠ '\n')).reverse

theorem length_currentLine_le (cs : List Char) : (currentLine cs).length ≤ cs.length := by
  have shorter := (List.takeWhile_sublist (p := (· ≠ '\n')) (l := cs.reverse)).length_le
  simpa [currentLine] using shorter

/-- A line feed starts a line, and any other character goes on with it. -/
@[simp] theorem currentLine_concat (cs : List Char) (c : Char) :
    currentLine (cs ++ [c]) = if c = '\n' then [] else currentLine cs ++ [c] := by
  by_cases newline : c = '\n'
  · simp [currentLine, newline]
  · simp [currentLine, newline]

/-- The place that is reached from the start of a text. -/
theorem Position.afterAll_start (cs : List Char) : ({} : Position).afterAll cs =
      ⟨utf8Len cs, .ofNat (1 + cs.count '\n'), .ofNat (1 + (currentLine cs).length)⟩ := by
  induction cs using List.reverseRecOn with
  | nil => rfl
  | append_singleton cs c ih =>
    rw [Position.afterAll_append, ih, Position.afterAll_cons, Position.afterAll_nil,
      Position.after]
    by_cases newline : c = '\n'
    · subst newline
      simp [currentLine, UInt32.ofNat_add, add_assoc]
    · simp [newline, UInt32.ofNat_add, add_assoc]

theorem utf8Len_pos {cs : List Char} (h : cs ≠ []) : 0 < utf8Len cs := by
  cases cs with
  | nil => contradiction
  | cons c cs =>
    have := c.utf8Size_pos
    simp only [String.utf8Len_cons]
    omega

/-- The start of a text ends at a character boundary of the text. -/
theorem isValid_of_append {text : String} {before after : List Char}
    (split : text.toList = before ++ after) : String.Pos.Raw.IsValid text ⟨utf8Len before⟩ := by
  refine String.Pos.Raw.isValid_iff_exists_append.2 ⟨.ofList before, .ofList after, ?_, ?_⟩
  · rw [← String.ofList_append, ← split, String.ofList_toList]
  · rw [← String.utf8ByteSize_ofList]
    rfl

/-! ## Gaps -/

/-- Blanks and comments.  The last gap of a text may break off inside of a comment. -/
inductive IsGap (isLast : Bool) : List Char → Prop where
  | nil : IsGap isLast []
  | blank {c : Char} {cs : List Char} (blank : isBlank c = true) (rest : IsGap isLast cs) :
      IsGap isLast (c :: cs)
  | line {body cs : List Char} (inside : '\n' ∉ body) (rest : IsGap isLast cs) :
      IsGap isLast ('/' :: '/' :: (body ++ '\n' :: cs))
  | block {body cs : List Char} (inside : ¬['*', '/'] <:+: body) (rest : IsGap isLast cs) :
      IsGap isLast ('/' :: '*' :: (body ++ '*' :: '/' :: cs))
  | openLine {body : List Char} (last : isLast = true) (inside : '\n' ∉ body) :
      IsGap isLast ('/' :: '/' :: body)
  | openBlock {body : List Char} (last : isLast = true) (inside : ¬['*', '/'] <:+: body) :
      IsGap isLast ('/' :: '*' :: body)

/-- What a gap may go on with in a mode. -/
def GapMode.Closes (isLast : Bool) : GapMode → List Char → Prop
  | .blank, cs => IsGap isLast cs
  | .line, cs => (isLast = true ∧ '\n' ∉ cs) ∨
      ∃ body rest, cs = body ++ '\n' :: rest ∧ '\n' ∉ body ∧ IsGap isLast rest
  | .block, cs => (isLast = true ∧ ¬['*', '/'] <:+: cs) ∨
      ∃ body rest, cs = body ++ '*' :: '/' :: rest ∧ ¬['*', '/'] <:+: body ∧ IsGap isLast rest

namespace GapMode.Closes

variable {isLast : Bool} {c : Char} {cs : List Char}

theorem startLine (h : GapMode.line.Closes isLast cs) : IsGap isLast ('/' :: '/' :: cs) := by
  rcases h with ⟨last, inside⟩ | ⟨body, rest, rfl, inside, gap⟩
  · exact .openLine last inside
  · exact .line inside gap

theorem startBlock (h : GapMode.block.Closes isLast cs) : IsGap isLast ('/' :: '*' :: cs) := by
  rcases h with ⟨last, inside⟩ | ⟨body, rest, rfl, inside, gap⟩
  · exact .openBlock last inside
  · exact .block inside gap

theorem inLine (other : c ≠ '\n') (h : GapMode.line.Closes isLast cs) :
    GapMode.line.Closes isLast (c :: cs) := by
  have not_mem {body : List Char} (inside : '\n' ∉ body) : '\n' ∉ c :: body := by
    simp [inside, other.symm]
  rcases h with ⟨last, inside⟩ | ⟨body, rest, rfl, inside, gap⟩
  · exact .inl ⟨last, not_mem inside⟩
  · exact .inr ⟨c :: body, rest, rfl, not_mem inside, gap⟩

theorem endLine (h : GapMode.blank.Closes isLast cs) : GapMode.line.Closes isLast ('\n' :: cs) :=
  .inr ⟨[], cs, rfl, List.not_mem_nil, h⟩

/-- A character that does not start the end of a comment is part of the comment. -/
theorem inBlock (other : ∀ ds, c = '*' → cs ≠ '/' :: ds) (h : GapMode.block.Closes isLast cs) :
    GapMode.block.Closes isLast (c :: cs) := by
  have not_infix {body rest : List Char} (split : cs = body ++ rest)
      (inside : ¬['*', '/'] <:+: body) : ¬['*', '/'] <:+: c :: body := by
    intro found
    rcases List.infix_cons_iff.1 found with here | later
    · obtain ⟨tail, parts⟩ := here
      obtain ⟨rfl, rfl⟩ : c = '*' ∧ body = '/' :: tail := by
        simpa [eq_comm] using parts
      exact other (tail ++ rest) rfl split
    · exact inside later
  rcases h with ⟨last, inside⟩ | ⟨body, rest, rfl, inside, gap⟩
  · exact .inl ⟨last, not_infix (List.append_nil cs).symm inside⟩
  · exact .inr ⟨c :: body, rest, rfl, not_infix rfl inside, gap⟩

theorem endBlock (h : GapMode.blank.Closes isLast cs) :
    GapMode.block.Closes isLast ('*' :: '/' :: cs) :=
  .inr ⟨[], cs, rfl, by simp, h⟩

theorem nil (mode : GapMode) : mode.Closes true [] := by
  cases mode with
  | blank => exact IsGap.nil
  | line => exact .inl ⟨rfl, List.not_mem_nil⟩
  | block => exact .inl ⟨rfl, by simp⟩

end GapMode.Closes

/-- The characters that a mode counts are what a gap may go on with in this mode.  They
    may break off a comment only where the text ends.  The flag is raised where a line ends
    in them. -/
theorem exists_gapFrom (n : Nat) (newline : Bool) (mode : GapMode) (cs : List Char) :
    ∃ k, (gapFrom n newline mode cs).1 = n + k ∧
      ((gapFrom n newline mode cs).2 = true ↔ newline = true ∨ '\n' ∈ cs.take k) ∧
      mode.Closes (decide (cs.drop k = [])) (cs.take k) := by
  -- the induction is on the pass over the text; `k` is what is counted from here on
  fun_induction gapFrom n newline mode cs with
  | case1 n newline cs ih =>
    obtain ⟨k, counted, flag, closes⟩ := ih
    exact ⟨k + 2, by omega, by simpa using flag, closes.startLine⟩
  | case2 n newline cs ih =>
    obtain ⟨k, counted, flag, closes⟩ := ih
    exact ⟨k + 2, by omega, by simpa using flag, closes.startBlock⟩
  | case3 n newline cs ih =>
    obtain ⟨k, counted, flag, closes⟩ := ih
    exact ⟨k + 1, by omega, by simpa using flag, .blank rfl closes⟩
  | case4 n newline c cs _ _ other blank ih =>
    obtain ⟨k, counted, flag, closes⟩ := ih
    exact ⟨k + 1, by omega, by simpa [Ne.symm other] using flag, .blank blank closes⟩
  | case5 n newline c cs _ _ _ solid =>
    exact ⟨0, rfl, by simp, IsGap.nil⟩
  | case6 n newline cs ih =>
    obtain ⟨k, counted, flag, closes⟩ := ih
    exact ⟨k + 1, by omega, by simpa using flag, GapMode.Closes.endLine closes⟩
  | case7 n newline c cs other ih =>
    obtain ⟨k, counted, flag, closes⟩ := ih
    exact ⟨k + 1, by omega, by simpa [Ne.symm other] using flag, closes.inLine other⟩
  | case8 n newline cs ih =>
    obtain ⟨k, counted, flag, closes⟩ := ih
    exact ⟨k + 2, by omega, by simpa using flag, GapMode.Closes.endBlock closes⟩
  | case9 n newline cs ih =>
    obtain ⟨k, counted, flag, closes⟩ := ih
    exact ⟨k + 1, by omega, by simpa using flag, GapMode.Closes.inBlock (by simp) closes⟩
  | case10 n newline c cs notEnd other ih =>
    obtain ⟨k, counted, flag, closes⟩ := ih
    refine ⟨k + 1, by omega, by simpa [Ne.symm other] using flag, closes.inBlock ?_⟩
    -- a comment that ended here would have been counted by an earlier case
    rintro ds rfl taken
    have prior : '/' :: ds <+: cs := taken ▸ List.take_prefix k cs
    obtain ⟨rest, rfl⟩ := prior
    exact notEnd (ds ++ rest) rfl rfl
  | case11 n newline mode =>
    exact ⟨0, rfl, by simp, GapMode.Closes.nil _⟩

/-- What is skipped before a token is a gap. -/
theorem isGap_take (cs : List Char) :
    IsGap (decide (cs.drop (gapLength cs) = [])) (cs.take (gapLength cs)) := by
  obtain ⟨k, counted, -, closes⟩ := exists_gapFrom 0 false .blank cs
  rw [gapLength, counted, Nat.zero_add]
  exact closes

/-- The flag that goes with a gap says whether a line ends in it. -/
theorem gapNewline_iff (cs : List Char) :
    gapNewline cs = true ↔ '\n' ∈ cs.take (gapLength cs) := by
  obtain ⟨k, counted, flag, -⟩ := exists_gapFrom 0 false .blank cs
  rw [gapNewline, flag, gapLength, counted, Nat.zero_add]
  simp

/-! ## Words -/

theorem stringFrom_ne_eof (quote : Char) (n : Nat) (done : List Char) (e : Escape)
    (cs : List Char) : (stringFrom quote n done e cs).1 ≠ .eof := by
  fun_induction stringFrom quote n done e cs <;> first | assumption | simp

theorem templateFrom_ne_eof (n : Nat) (done : List Char) (b : Bool) (cs : List Char) :
    (templateFrom n done b cs).1 ≠ .eof := by
  fun_induction templateFrom n done b cs <;> first | assumption | simp

theorem numberLexeme_ne_eof (cs : List Char) : (numberLexeme cs).1 ≠ .eof := by
  have decimal : (decimalLexeme cs).1 ≠ .eof := by simp [decimalLexeme]
  unfold numberLexeme
  split
  · split
    · unfold wholeLexeme
      dsimp only
      split <;> simp
    · exact decimal
  · exact decimal

theorem nameLexeme_ne_eof (cs : List Char) : (nameLexeme cs).1 ≠ .eof := by
  unfold nameLexeme
  dsimp only
  split <;> simp

/-- Only the end of a text is no word. -/
theorem lexeme_eq_eof_iff {cs : List Char} : (lexeme cs).1 = .eof ↔ cs = [] := by
  constructor
  · intro ended
    unfold lexeme at ended
    split at ended
    · rfl
    · exfalso
      split at ended
      · exact numberLexeme_ne_eof _ ended
      · split at ended
        · cases ended
        · split at ended
          · exact stringFrom_ne_eof _ _ _ _ _ ended
          · split at ended
            · exact templateFrom_ne_eof _ _ _ _ ended
            · split at ended
              · exact nameLexeme_ne_eof _ ended
              · cases ended
  · rintro rfl
    rfl

/-! ## One token -/

namespace Scanner

/-- The scanner has read the first part of a text and stands right after it. -/
structure IsAfter (text done : List Char) (s : Scanner) : Prop where
  split : text = done ++ s.rest
  position : s.position = ({} : Position).afterAll done

/-- What is skipped before the next token. -/
def gap (s : Scanner) : List Char :=
  s.rest.take (gapLength s.rest)

/-- The characters of the next token. -/
def word (s : Scanner) : List Char :=
  (s.rest.drop (gapLength s.rest)).take (lexeme (s.rest.drop (gapLength s.rest))).2

/-- What is left is a gap, the characters of a token, and the rest. -/
theorem rest_eq (s : Scanner) : s.rest = s.gap ++ s.word ++ s.next.2.rest := by
  show _ = s.gap ++ s.word ++ List.drop _ _
  rw [List.append_assoc, word, List.take_append_drop, gap, List.take_append_drop]

variable {s : Scanner}

theorem next_kind_eq_eof_iff : s.next.1.kind = .eof ↔ s.rest.drop (gapLength s.rest) = [] :=
  lexeme_eq_eof_iff

/-- A token has characters, and the gap before it is closed. -/
theorem word_ne_nil (token : s.next.1.kind ≠ .eof) : s.word ≠ [] ∧ IsGap false s.gap := by
  have left : s.rest.drop (gapLength s.rest) ≠ [] := by
    rwa [ne_eq, next_kind_eq_eof_iff] at token
  constructor
  · have taken := lexeme_pos left
    rw [word, ne_eq, List.take_eq_nil_iff, not_or]
    exact ⟨by omega, left⟩
  · have closed := isGap_take s.rest
    rwa [decide_eq_false left] at closed

/-- The end of a text has no characters, and nothing follows it. -/
theorem word_eq_nil (ended : s.next.1.kind = .eof) :
    s.word = [] ∧ s.next.2.rest = [] ∧ IsGap true s.gap := by
  have nothing := next_kind_eq_eof_iff.1 ended
  refine ⟨?_, ?_, ?_⟩
  · rw [word, nothing, List.take_nil]
  · show List.drop _ _ = []
    rw [nothing, List.drop_nil]
  · have last := isGap_take s.rest
    rwa [decide_eq_true nothing] at last

/-- Taking a token passes its gap and its characters. -/
theorem IsAfter.next {text done : List Char} (h : s.IsAfter text done) :
    s.next.2.IsAfter text (done ++ s.gap ++ s.word) := by
  constructor
  · rw [h.split, s.rest_eq]
    simp only [List.append_assoc]
  · show (s.position.afterAll s.gap).afterAll s.word = _
    rw [h.position, Position.afterAll_append, Position.afterAll_append]

theorem isAfter_ofText (text : String) : (ofText text).IsAfter text.toList [] :=
  ⟨rfl, rfl⟩

end Scanner

/-- A token stands after what was read before it and after a gap: its span is that of its
    characters, its line and column are those of its start, and it knows whether a line
    ended in the gap. -/
structure Token.Stands (before gap word : List Char) (t : Token) : Prop where
  start : t.span.start = utf8Len (before ++ gap)
  stop : t.span.stop = utf8Len (before ++ gap ++ word)
  line : t.span.line = .ofNat (1 + (before ++ gap).count '\n')
  column : t.span.column = .ofNat (1 + (currentLine (before ++ gap)).length)
  newlineBefore : t.newlineBefore = true ↔ '\n' ∈ gap

/-- The next token stands where it says. -/
theorem Scanner.IsAfter.stands {text done : List Char} {s : Scanner} (h : s.IsAfter text done) :
    s.next.1.Stands done s.gap s.word := by
  have start : s.position.afterAll s.gap = ({} : Position).afterAll (done ++ s.gap) := by
    rw [h.position, Position.afterAll_append]
  have stop := h.next.position
  rw [Position.afterAll_start] at start stop
  exact ⟨congrArg Position.offset start, congrArg Position.offset stop,
    congrArg Position.line start, congrArg Position.column start, gapNewline_iff s.rest⟩

/-- In a text of fewer than `2 ^ 32 - 1` characters the line and the column of a token do not go
    round. -/
theorem Token.Stands.toNat {before gap word after : List Char} {t : Token} {text : String}
    (stands : t.Stands before gap word) (split : text.toList = before ++ gap ++ word ++ after)
    (short : text.length + 1 < 2 ^ 32) :
    t.span.line.toNat = 1 + (before ++ gap).count '\n' ∧
      t.span.column.toNat = 1 + (currentLine (before ++ gap)).length := by
  have whole : text.length = (before ++ gap ++ word ++ after).length := by
    rw [← split, String.length_toList]
  have lines := List.count_le_length (a := '\n') (l := before ++ gap)
  have columns := length_currentLine_le (before ++ gap)
  rw [List.length_append, List.length_append] at whole
  rw [stands.line, stands.column]
  exact ⟨UInt32.toNat_ofNat_of_lt' (show _ < 2 ^ 32 by omega),
    UInt32.toNat_ofNat_of_lt' (show _ < 2 ^ 32 by omega)⟩

/-! ## All tokens -/

namespace Scanner

/-- The scanner after some tokens. -/
def after (s : Scanner) (count : Nat) : Scanner :=
  (fun s => s.next.2)^[count] s

/-- The token after some others. -/
def token (s : Scanner) (index : Nat) : Token :=
  (s.after index).next.1

theorem after_succ (s : Scanner) (count : Nat) : s.after (count + 1) = (s.after count).next.2 :=
  Function.iterate_succ_apply' _ _ _

/-- Taking tokens comes to the end of the text, and `tokensAfter` collects them all. -/
theorem exists_tokensAfter (before : List Token) (s : Scanner) :
    ∃ count, (∀ i < count, (s.token i).kind ≠ .eof) ∧ (s.token count).kind = .eof ∧
      s.tokensAfter before = before.reverse ++ (List.range (count + 1)).map s.token := by
  fun_induction tokensAfter before s with
  | case1 before s ended =>
    exact ⟨0, fun i small => absurd small (Nat.not_lt_zero i), ended, by simp [token, after]⟩
  | case2 before s more ih =>
    obtain ⟨count, earlier, ended, collected⟩ := ih
    refine ⟨count + 1, fun i small => ?_, ended, ?_⟩
    · cases i with
      | zero => exact more
      | succ i => exact earlier i (by omega)
    · rw [collected, List.range_succ_eq_map (n := count + 1), List.map_cons, List.map_map,
        List.reverse_cons, List.append_assoc]
      rfl

theorem tokensAfter_eq_append (before : List Token) (s : Scanner) :
    s.tokensAfter before = before.reverse ++ s.tokensAfter [] := by
  obtain ⟨count, earlier, ended, collected⟩ := s.exists_tokensAfter before
  obtain ⟨count', earlier', ended', collected'⟩ := s.exists_tokensAfter []
  -- both come to the end at the same token
  obtain rfl : count = count' := by
    by_contra different
    rcases Nat.lt_or_gt_of_ne different with less | more
    · exact earlier' count less ended
    · exact earlier count' more ended'
  rw [collected, collected']
  rfl

/-- The tokens of a scanner are its next token and, unless this is the end, those after it. -/
theorem tokensAfter_nil (s : Scanner) : s.tokensAfter [] =
      s.next.1 :: if s.next.1.kind = .eof then [] else s.next.2.tokensAfter [] := by
  rw [tokensAfter]
  by_cases ended : s.next.1.kind = .eof
  · rw [if_pos ended, if_pos ended]
    rfl
  · rw [if_neg ended, if_neg ended, tokensAfter_eq_append]
    rfl

/-- The offset where the token before another one ended. -/
def previousStop (s : Scanner) : (index : Nat) → Nat
  | 0 => 0
  | index + 1 => (s.token index).span.stop

/-- After some tokens the scanner stands right after the last of them. -/
theorem exists_isAfter (text : String) (index : Nat) :
    ∃ done, ((ofText text).after index).IsAfter text.toList done ∧
      utf8Len done = (ofText text).previousStop index := by
  induction index with
  | zero => exact ⟨[], isAfter_ofText text, rfl⟩
  | succ index ih =>
    obtain ⟨done, stands, -⟩ := ih
    rw [after_succ]
    exact ⟨_, stands.next, stands.stands.stop.symm⟩

end Scanner

/-- **Tokens tile their text.**  Taking tokens comes to the end of the text after finitely
    many of them.  The text splits around each one into what was read before it, a gap of
    blanks and comments, its own characters and the rest; these give its span, its line
    and column, and whether a line ended before it, which is what the scanner says then as
    well.  Every token has characters, so spans are not empty, in order, and disjoint; the
    end of the text alone has none, and only the gap before it may break off inside of a
    comment.  Offsets are character boundaries of the text.

    Lines and columns are counted in thirty-two bits.  As long as the text has fewer than
    `2 ^ 32 - 1` characters, they are the numbers that are counted. -/
theorem tokens_tile (text : String) :
    let s := Scanner.ofText text
    ∃ count, (∀ i < count, (s.token i).kind ≠ .eof) ∧ (s.token count).kind = .eof ∧
      tokensOf text = (List.range (count + 1)).map s.token ∧
      (∀ i ≤ count, ∃ before gap word after,
        text.toList = before ++ gap ++ word ++ after ∧
          utf8Len before = s.previousStop i ∧ (s.token i).Stands before gap word ∧
          (text.length + 1 < 2 ^ 32 →
            (s.token i).span.line.toNat = 1 + (before ++ gap).count '\n' ∧
            (s.token i).span.column.toNat = 1 + (currentLine (before ++ gap)).length) ∧
          ((s.after (i + 1)).newlineBefore = true ↔ '\n' ∈ gap) ∧
          (i < count → word ≠ [] ∧ IsGap false gap) ∧
          (i = count → word = [] ∧ after = [] ∧ IsGap true gap)) ∧
      (∀ i < count, (s.token i).span.start < (s.token i).span.stop ∧
        (s.token i).span.stop ≤ (s.token (i + 1)).span.start) ∧
      (∀ i ≤ count, String.Pos.Raw.IsValid text ⟨(s.token i).span.start⟩ ∧
        String.Pos.Raw.IsValid text ⟨(s.token i).span.stop⟩) ∧
      (s.token count).span.start = text.utf8ByteSize ∧
      (s.token count).span.stop = text.utf8ByteSize := by
  intro s
  obtain ⟨count, earlier, ended, collected⟩ := s.exists_tokensAfter []
  have tile (i : Nat) : ∃ before gap word after, text.toList = before ++ gap ++ word ++ after ∧
      utf8Len before = s.previousStop i ∧ (s.token i).Stands before gap word ∧
      ((s.after (i + 1)).newlineBefore = true ↔ '\n' ∈ gap) ∧
      ((s.token i).kind ≠ .eof → word ≠ [] ∧ IsGap false gap) ∧
      ((s.token i).kind = .eof → word = [] ∧ after = [] ∧ IsGap true gap) := by
    obtain ⟨done, stands, stop⟩ := Scanner.exists_isAfter text i
    refine ⟨done, (s.after i).gap, (s.after i).word, (s.after i).next.2.rest, stands.next.split,
      stop, stands.stands, ?_, Scanner.word_ne_nil, Scanner.word_eq_nil⟩
    rw [s.after_succ]
    exact stands.stands.newlineBefore
  refine ⟨count, earlier, ended, collected, fun i _ => ?_, fun i small => ⟨?_, ?_⟩,
    fun i _ => ?_, ?_⟩
  · obtain ⟨before, gap, word, after, split, stop, stands, newline, inner, last⟩ := tile i
    exact ⟨before, gap, word, after, split, stop, stands, stands.toNat split, newline,
      fun small => inner (earlier i small), fun same => last (same ▸ ended)⟩
  · obtain ⟨before, gap, word, after, -, -, stands, -, inner, -⟩ := tile i
    have some := utf8Len_pos (inner (earlier i small)).1
    rw [stands.start, stands.stop, String.utf8Len_append (before ++ gap)]
    omega
  · obtain ⟨before, gap, word, after, -, stop, stands, -⟩ := tile (i + 1)
    rw [stands.start, String.utf8Len_append, stop]
    exact Nat.le_add_right _ _
  · obtain ⟨before, gap, word, after, split, -, stands, -⟩ := tile i
    rw [stands.start, stands.stop]
    refine ⟨?_, isValid_of_append split⟩
    rw [List.append_assoc] at split
    exact isValid_of_append split
  · obtain ⟨before, gap, word, after, split, -, stands, -, -, last⟩ := tile count
    obtain ⟨rfl, rfl, -⟩ := last ended
    have size : text.utf8ByteSize = utf8Len (before ++ gap) := by
      rw [← String.ofList_toList (s := text), String.utf8ByteSize_ofList, split]
      simp only [List.append_nil]
    rw [stands.start, stands.stop, size, List.append_nil]
    exact ⟨rfl, rfl⟩

/-- Line feeds are a gap, all of them. -/
theorem gapFrom_newlines (n : Nat) (newline : Bool) (count : Nat) :
    (gapFrom n newline .blank (List.replicate count '\n')).1 = n + count := by
  induction count generalizing n newline with
  | zero => rfl
  | succ count ih =>
    rw [List.replicate_succ, gapFrom, ih]
    omega

/-- A text of line feeds is one gap, and its end is in the line after them. -/
theorem token_of_newlines (count : Nat) :
    let t := (Scanner.ofText (.ofList (List.replicate count '\n'))).token 0
    t.kind = .eof ∧ t.span.line = .ofNat (1 + count) := by
  intro t
  obtain ⟨s, hs⟩ : ∃ s, s = Scanner.ofText (.ofList (List.replicate count '\n')) := ⟨_, rfl⟩
  have rest : s.rest = List.replicate count '\n' := hs ▸ String.toList_ofList
  have whole : gapLength s.rest = count := by
    rw [rest, gapLength, gapFrom_newlines, Nat.zero_add]
  have stands := (hs ▸ Scanner.isAfter_ofText _ : s.IsAfter _ []).stands
  have line := stands.line
  rw [Scanner.gap, whole, rest, List.nil_append, List.take_of_length_le (by simp),
    List.count_replicate_self] at line
  show (Scanner.ofText _).next.1.kind = _ ∧ (Scanner.ofText _).next.1.span.line = _
  rw [← hs]
  refine ⟨Scanner.next_kind_eq_eof_iff.2 ?_, line⟩
  rw [whole, rest, List.drop_of_length_le (by simp)]

/-- One character more is too much: after as many line feeds as the largest number of thirty-two
    bits, the text ends in line zero. -/
theorem line_goes_round :
    let text := String.ofList (List.replicate (2 ^ 32 - 1) '\n')
    let t := (Scanner.ofText text).token 0
    text.length = 2 ^ 32 - 1 ∧ t.kind = .eof ∧ t.span.line = 0 := by
  intro text t
  obtain ⟨ended, line⟩ := token_of_newlines (2 ^ 32 - 1)
  refine ⟨?_, ended, line.trans rfl⟩
  rw [String.length_ofList, List.length_replicate]

end SourceMachine
