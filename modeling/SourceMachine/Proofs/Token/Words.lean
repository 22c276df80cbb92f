import SourceMachine.Proofs.Token.Tiling
import SourceMachine.Text.Quoted

/-!
# Words

A word is what a token is written as: a reserved word, a mark, a name, a number in decimal
digits, or a string between quotes.  In a text of words that are separated by blanks, every
token is the token of its word: a word ends where the blank after it starts, whatever
follows (`lexeme_word`), so the scanner takes one word after another (`tokensAfter_words`).
-/

namespace SourceMachine

variable {c : Char} {cs ds : List Char} {count : Nat} {s : Scanner}

/-! ## What words are made of -/

/-- A text that starts like an identifier and goes on like one. -/
def isName : List Char → Bool
  | c :: cs => isIdentifierStart c && cs.all isIdentifierRest
  | [] => false

/-- A name that is no reserved word. -/
structure Name where
  text : String
  spelled : isName text.toList = true
  free : Keyword.ofText? text = none

/-- A number in decimal digits, perhaps with digits after a decimal point. -/
structure Numeral where
  whole : List Char
  fraction : List Char := []
  nonempty : whole ≠ []
  whole_digits : whole.all (Number.isDigit 10) = true
  fraction_digits : fraction.all (Number.isDigit 10) = true

/-- The part after the whole digits.  A decimal point stands only before digits. -/
def Numeral.tail (n : Numeral) : List Char :=
  match n.fraction with
  | [] => []
  | d :: ds => '.' :: d :: ds

/-- How a number is written. -/
def Numeral.text (n : Numeral) : List Char :=
  n.whole ++ n.tail

/-- The number that the digits stand for. -/
def Numeral.value (n : Numeral) : Float :=
  Number.ofDecimal (Number.ofDigits 10 (n.whole ++ n.fraction)) (-(n.fraction.length : Int))

/-- What one token is written as. -/
inductive Word where
  | keyword (word : Keyword)
  | mark (mark : Mark)
  | name (name : Name)
  | number (numeral : Numeral)
  | string (text : String)

/-- How a word is written. -/
def Word.text : Word → List Char
  | .keyword k => k.text.toList
  | .mark m => m.text.toList
  | .name x => x.text.toList
  | .number n => n.text
  | .string s => (quoted s).toList

/-- The token that a word stands for. -/
@[simp] def Word.kind : Word → Kind
  | .keyword k => .keyword k
  | .mark m => .mark m
  | .name x => .identifier x.text
  | .number n => .number n.value
  | .string s => .string s

/-- Words with a blank after each of them. -/
def spaced (words : List Word) : List Char :=
  words.flatMap fun w => w.text ++ [' ']

/-- Phrases with commas between them. -/
def separated : List (List Word) → List Word
  | [] => []
  | [words] => words
  | words :: next :: others => words ++ .mark .comma :: separated (next :: others)

/-! ## Digits and starts of names -/

/-- The decimal digits. -/
def decimalDigits : List Char :=
  ['0', '1', '2', '3', '4', '5', '6', '7', '8', '9']

theorem mem_decimalDigits (digit : Number.isDigit 10 c = true) : c ∈ decimalDigits := by
  have bounds : '0' ≤ c ∧ c ≤ '9' := by
    by_contra outside
    rw [Number.isDigit, Number.digit?, if_neg outside] at digit
    -- a letter stands for ten at least
    split_ifs at digit <;> simp at digit
  have low : 48 ≤ c.toNat := bounds.1
  have high : c.toNat ≤ 57 := bounds.2
  rw [← Char.ofNat_toNat c]
  interval_cases c.toNat <;> decide

/-- What a digit is not. -/
theorem digit_facts (digit : Number.isDigit 10 c = true) :
    isBlank c = false ∧ c ≠ '/' ∧ c ≠ '.' ∧ c ≠ '_' ∧ announcedBase? c = none := by
  have facts : ∀ c ∈ decimalDigits,
      isBlank c = false ∧ c ≠ '/' ∧ c ≠ '.' ∧ c ≠ '_' ∧ announcedBase? c = none := by
    simp [decimalDigits, isBlank, announcedBase?]
  exact facts c (mem_decimalDigits digit)

set_option maxRecDepth 8000 in
/-- The blanks beyond ASCII are no letters. -/
theorem identifierLetters_blanks :
    identifierLetters.contains '\u00a0' = false ∧ identifierLetters.contains '\ufeff' = false := by
  cbv

/-- The characters that start something else than a name. -/
def otherStarts : List Char :=
  decimalDigits ++ [' ', '\t', '\n', '\r', '\x0b', '\x0c', '/', '.', '"', '\'', templateQuote]

theorem not_mem_otherStarts (start : isIdentifierStart c = true) : c ∉ otherStarts := by
  have others : ∀ d ∈ otherStarts, isIdentifierStart d = false := by
    simp [otherStarts, decimalDigits, isIdentifierStart, templateQuote]
  intro member
  rw [others c member] at start
  cases start

theorem isBlank_of_identifierStart (start : isIdentifierStart c = true) : isBlank c = false := by
  by_contra blank
  have apart := not_mem_otherStarts start
  simp only [otherStarts, List.mem_append, List.mem_cons, not_or] at apart
  simp only [isBlank, Bool.not_eq_false, Bool.or_eq_true, decide_eq_true_eq] at blank
  have beyond : c = '\u00a0' ∨ c = '\ufeff' := by tauto
  rcases beyond with rfl | rfl
  · simp [isIdentifierStart, identifierLetters_blanks.1] at start
  · simp [isIdentifierStart, identifierLetters_blanks.2] at start

/-! ## Gaps before words -/

/-- A text does not start with a gap: the pass over a gap stops here. -/
def IsSolid (cs : List Char) : Prop :=
  ∀ n newline, gapFrom n newline .blank cs = (n, newline)

theorem gapFrom_blanks (n : Nat) (newline : Bool) (count : Nat) (cs : List Char) :
    gapFrom n newline .blank (List.replicate count ' ' ++ cs) =
      gapFrom (n + count) newline .blank cs := by
  induction count generalizing n with
  | zero => rfl
  | succ count ih =>
    rw [List.replicate_succ, List.cons_append, Nat.add_comm count, ← Nat.add_assoc]
    exact ih (n + 1)

/-- A gap ends before a character that is neither a blank nor a slash. -/
theorem isSolid_cons (cs : List Char) (solid : isBlank c = false) (notSlash : c ≠ '/') :
    IsSolid (c :: cs) := by
  intro n newline
  rw [gapFrom, solid]
  · rfl
  · rintro _ rfl
    contradiction
  · rintro _ rfl
    contradiction
  · rintro rfl
    cases solid

/-! ## Lexemes of words -/

theorem Mark.longest?_eq_none (other : ∀ p ∈ Mark.spellings, p.1.head? ≠ some c) :
    Mark.longest? (c :: cs) = none := by
  have spelled : ∀ p ∈ Mark.spellings, p.1 ≠ [] := by decide +kernel
  rw [Mark.longest?, Option.map_eq_none_iff, List.find?_eq_none]
  rintro ⟨spelling, m⟩ member isPrefix
  cases spelling with
  | nil => exact spelled _ member rfl
  | cons d ds =>
    simp only [List.isPrefixOf, Bool.and_eq_true, beq_iff_eq] at isPrefix
    exact other _ member (congrArg some isPrefix.1)

theorem startsNumber_of_not_digit (notPoint : c ≠ '.') (notDigit : Number.isDigit 10 c = false) :
    startsNumber (c :: cs) = false := by
  unfold startsNumber
  split
  · next heq =>
    cases heq
    contradiction
  · next heq =>
    cases heq
    exact notDigit
  · rfl

/-! ### Names -/

theorem lexeme_of_isName (tail : List Char) (spelled : isName cs = true) :
    lexeme (cs ++ tail) = nameLexeme (cs ++ tail) := by
  cases cs with
  | nil => cases spelled
  | cons c cs =>
    have start : isIdentifierStart c = true := (Bool.and_eq_true_iff.1 spelled).1
    have apart := not_mem_otherStarts start
    have notDigit : Number.isDigit 10 c = false := by
      by_contra digit
      rw [Bool.not_eq_false] at digit
      exact apart (List.mem_append_left _ (mem_decimalDigits digit))
    have notMark : Mark.longest? (c :: (cs ++ tail)) = none := by
      have marks : Mark.spellings.all (fun p => p.1.head?.all (!isIdentifierStart ·)) = true := by
        decide +kernel
      refine Mark.longest?_eq_none fun p member first => ?_
      have := List.all_eq_true.1 marks p member
      simp [first, start] at this
    simp only [otherStarts, List.mem_append, List.mem_cons, not_or] at apart
    rw [List.cons_append, lexeme,
      startsNumber_of_not_digit (by tauto) notDigit, notMark]
    rw [if_neg (by simp), if_neg (by tauto), if_neg (by tauto), if_pos start]

theorem takeWhile_isName {tail : List Char} (spelled : isName cs = true)
    (ends : ∀ c ∈ tail.head?, isIdentifierRest c = false) :
    (cs ++ tail).takeWhile isIdentifierRest = cs := by
  have all : ∀ c ∈ cs, isIdentifierRest c = true := by
    cases cs with
    | nil => simp
    | cons c cs =>
      simp only [isName, Bool.and_eq_true, List.all_eq_true] at spelled
      intro d member
      rcases List.mem_cons.1 member with rfl | later
      · exact isIdentifierRest_of_start spelled.1
      · exact spelled.2 d later
  rw [List.takeWhile_append_of_pos all]
  cases tail with
  | nil => exact List.append_nil cs
  | cons c tail =>
    rw [List.takeWhile_cons, ends c rfl]
    exact List.append_nil cs

/-- A name does not go on with a blank. -/
theorem ends_blank (cs : List Char) : ∀ c ∈ (' ' :: cs).head?, isIdentifierRest c = false := by
  rintro _ ⟨⟩
  decide

/-- The token of a text that is spelled like a name. -/
def nameKind (text : String) : Kind :=
  match Keyword.ofText? text with
  | some k => .keyword k
  | none => .identifier text

/-- A text that is spelled like a name is one lexeme, if the name does not go on. -/
theorem lexeme_name {text : String} {tail : List Char} (spelled : isName text.toList = true)
    (ends : ∀ c ∈ tail.head?, isIdentifierRest c = false) :
    lexeme (text.toList ++ tail) = (nameKind text, text.toList.length) := by
  rw [lexeme_of_isName tail spelled, nameLexeme, takeWhile_isName spelled ends,
    String.ofList_toList, nameKind]
  cases Keyword.ofText? text <;> rfl

/-! ### Strings -/

theorem stringFrom_quoteChar (c : Char) (n : Nat) (done cs : List Char) :
    stringFrom '"' n done .none (quoteChar c ++ cs) =
      stringFrom '"' (n + (quoteChar c).length) (c :: done) .none cs := by
  unfold quoteChar
  split_ifs with quote backslash newline tab
  · rw [quote]
    rfl
  · rw [backslash]
    rfl
  · rw [newline]
    rfl
  · rw [tab]
    rfl
  · rw [List.cons_append, stringFrom, if_neg quote, if_neg backslash, if_neg newline]
    rfl

theorem stringFrom_quoted (s rest : List Char) (n : Nat) (done : List Char) :
    stringFrom '"' n done .none (s.flatMap quoteChar ++ '"' :: rest) =
      (.string (String.ofList (done.reverse ++ s)), n + (s.flatMap quoteChar).length + 1) := by
  induction s generalizing n done with
  | nil => simp [stringFrom]
  | cons c s ih =>
    rw [List.flatMap_cons, List.append_assoc, stringFrom_quoteChar, ih, List.reverse_cons,
      List.append_assoc, List.length_append, Nat.add_assoc n]
    rfl

theorem lexeme_quoted (s : String) (rest : List Char) :
    lexeme ((quoted s).toList ++ rest) = (.string s, (quoted s).toList.length) := by
  have notMark (cs : List Char) : Mark.longest? ('"' :: cs) = none :=
    Mark.longest?_eq_none (by decide +kernel)
  have taken := stringFrom_quoted s.toList rest 1 []
  rw [quoted, String.toList_ofList, List.cons_append, List.append_assoc, lexeme,
    startsNumber_of_not_digit (by decide) (by decide), notMark]
  simp only [List.cons_append, List.nil_append, true_or, if_true, Bool.false_eq_true, if_false]
  rw [taken]
  simp [Nat.add_comm]

/-! ### Numbers -/

theorem digitRun_digits (cs : List Char) (all : ds.all (Number.isDigit 10) = true)
    (stop : (Number.isDigit 10 c || decide (c = '_')) = false) :
    digitRun 10 (ds ++ c :: cs) = ds := by
  have run : ∀ d ∈ ds, (Number.isDigit 10 d || decide (d = '_')) = true := by
    intro d member
    rw [List.all_eq_true.1 all d member, Bool.true_or]
  rw [digitRun, List.takeWhile_append_of_pos run, List.takeWhile_cons, stop]
  simp

theorem runDigits_digits (all : ds.all (Number.isDigit 10) = true) : runDigits ds = ds := by
  rw [runDigits, List.filter_eq_self]
  intro d member
  have digit := digit_facts (List.all_eq_true.1 all d member)
  simp [digit]

theorem exponent?_blank (cs : List Char) : exponent? (' ' :: cs) = none := by
  rw [exponent?, if_neg (by decide)]

/-- A literal without exponent, from its parts. -/
theorem decimalLexeme_of_parts {whole tail fraction : List Char} {point : Nat}
    (run : digitRun 10 cs = whole) (behind : cs.drop whole.length = tail)
    (pointed : pointLength tail = point) (digits : digitRun 10 (tail.drop point) = fraction)
    (plain : exponent? (tail.drop (point + fraction.length)) = none) :
    decimalLexeme cs = (.number (decimalValue (runDigits whole) (runDigits fraction) none),
      whole.length + point + fraction.length) := by
  subst run behind pointed digits
  rw [decimalLexeme, plain]
  rfl

theorem decimalLexeme_numeral (n : Numeral) (rest : List Char) :
    decimalLexeme (n.text ++ ' ' :: rest) = (.number n.value, n.text.length) := by
  obtain ⟨whole, fraction, nonempty, wholeDigits, fractionDigits⟩ := n
  have value : decimalValue (runDigits whole) (runDigits fraction) none =
      Number.ofDecimal (Number.ofDigits 10 (whole ++ fraction)) (-(fraction.length : Int)) := by
    rw [runDigits_digits wholeDigits, runDigits_digits fractionDigits]
    rfl
  have digits : digitRun 10 (fraction ++ ' ' :: rest) = fraction :=
    digitRun_digits rest fractionDigits (by decide)
  have plain := exponent?_blank rest
  rw [Numeral.value, ← value, Numeral.text, List.append_assoc]
  cases fraction with
  | nil =>
    have run : digitRun 10 (whole ++ ' ' :: rest) = whole :=
      digitRun_digits rest wholeDigits (by decide)
    rw [show Numeral.tail _ = [] from rfl, List.append_nil]
    exact decimalLexeme_of_parts run (List.drop_left ..) rfl digits plain
  | cons d ds =>
    have run : digitRun 10 (whole ++ '.' :: (d :: ds ++ ' ' :: rest)) = whole :=
      digitRun_digits _ wholeDigits (by decide)
    have point : pointLength ('.' :: (d :: ds ++ ' ' :: rest)) = 1 := by
      have digit := List.all_eq_true.1 fractionDigits d List.mem_cons_self
      simp [pointLength, digit]
    have behind : exponent? (('.' :: (d :: ds ++ ' ' :: rest)).drop (1 + (d :: ds).length)) =
        none := by
      rw [Nat.add_comm, List.drop_succ_cons, List.drop_left, plain]
    refine (decimalLexeme_of_parts run (List.drop_left ..) point digits behind).trans ?_
    rw [show Numeral.tail _ = '.' :: d :: ds from rfl, List.length_append, Nat.add_assoc,
      Nat.add_comm 1]
    rfl

theorem numberLexeme_of_plain {d : Char} (cs : List Char) (plain : announcedBase? d = none) :
    numberLexeme (c :: d :: cs) = decimalLexeme (c :: d :: cs) := by
  unfold numberLexeme
  split
  · next heq =>
    cases heq
    rw [plain]
  · rfl

theorem lexeme_numeral (n : Numeral) (rest : List Char) :
    lexeme (n.text ++ ' ' :: rest) = (.number n.value, n.text.length) := by
  rw [← decimalLexeme_numeral]
  -- the first character is a digit, and the second one announces no other base
  obtain ⟨c, d, cs, eq, digit, plain⟩ : ∃ c d cs, n.text ++ ' ' :: rest = c :: d :: cs ∧
      Number.isDigit 10 c = true ∧ announcedBase? d = none := by
    obtain ⟨whole, fraction, nonempty, wholeDigits, fractionDigits⟩ := n
    cases whole with
    | nil => contradiction
    | cons c whole =>
      simp only [List.all_cons, Bool.and_eq_true] at wholeDigits
      cases whole with
      | cons d ds =>
        simp only [List.all_cons, Bool.and_eq_true] at wholeDigits
        exact ⟨c, d, _, rfl, wholeDigits.1, (digit_facts wholeDigits.2.1).2.2.2.2⟩
      | nil =>
        cases fraction with
        | nil => exact ⟨c, ' ', _, rfl, wholeDigits.1, by decide⟩
        | cons d ds => exact ⟨c, '.', _, rfl, wholeDigits.1, by decide⟩
  have starts : startsNumber (c :: d :: cs) = true := by
    rw [startsNumber, digit]
    intro e _ point
    exact absurd point (digit_facts digit).2.2.1
  rw [eq, lexeme, if_pos starts, numberLexeme_of_plain cs plain]

/-! ### All words -/

theorem Mark.lexeme_text (m : Mark) (rest : List Char) :
    lexeme (m.text.toList ++ ' ' :: rest) = (.mark m, m.text.toList.length) := by
  cases m <;> rfl

theorem Keyword.isName_text (k : Keyword) : isName k.text.toList = true := by
  cases k <;> decide

theorem Keyword.nameKind_text (k : Keyword) : nameKind k.text = .keyword k := by
  cases k <;> rfl

/-- A word before a blank is one lexeme, whatever follows. -/
theorem lexeme_word (w : Word) (rest : List Char) :
    lexeme (w.text ++ ' ' :: rest) = (w.kind, w.text.length) := by
  cases w with
  | keyword k =>
    rw [Word.text, lexeme_name k.isName_text (ends_blank rest), k.nameKind_text, Word.kind]
  | mark m => exact m.lexeme_text rest
  | name x => rw [Word.text, lexeme_name x.spelled (ends_blank rest), nameKind, x.free, Word.kind]
  | number n => exact lexeme_numeral n rest
  | string s => exact lexeme_quoted s (' ' :: rest)

/-! ## Texts of words -/

/-- A name ends the gap before it. -/
theorem isSolid_name (tail : List Char) (spelled : isName cs = true) : IsSolid (cs ++ tail) := by
  cases cs with
  | nil => cases spelled
  | cons c cs =>
    have start : isIdentifierStart c = true := (Bool.and_eq_true_iff.1 spelled).1
    have apart := not_mem_otherStarts start
    simp only [otherStarts, List.mem_append, List.mem_cons, not_or] at apart
    exact isSolid_cons _ (isBlank_of_identifierStart start) (by tauto)

/-- A word ends the gap before it. -/
theorem isSolid_word (w : Word) (rest : List Char) : IsSolid (w.text ++ ' ' :: rest) := by
  cases w with
  | keyword k => exact isSolid_name _ k.isName_text
  | mark m => cases m <;> exact fun _ _ => rfl
  | name x => exact isSolid_name _ x.spelled
  | number m =>
    obtain ⟨whole, fraction, nonempty, wholeDigits, _⟩ := m
    cases whole with
    | nil => contradiction
    | cons c whole =>
      have digit := digit_facts (List.all_eq_true.1 wholeDigits c List.mem_cons_self)
      exact isSolid_cons _ digit.1 digit.2.1
  | string s =>
    rw [Word.text, quoted, String.toList_ofList, List.cons_append]
    exact isSolid_cons _ (by decide) (by decide)

namespace Scanner

/-- Blanks before a text that is solid are the gap, and no line ends in them. -/
theorem gap_of_blanks (count : Nat) {tail : List Char}
    (here : s.rest = List.replicate count ' ' ++ tail) (solid : IsSolid tail) :
    gapLength s.rest = count ∧ gapNewline s.rest = false := by
  rw [gapLength, gapNewline, here, gapFrom_blanks, solid]
  exact ⟨Nat.zero_add count, rfl⟩

/-- The scanner takes the blanks before a lexeme and the lexeme. -/
theorem next_lexeme (count : Nat) {word tail : List Char} {kind : Kind}
    (here : s.rest = List.replicate count ' ' ++ (word ++ tail))
    (solid : IsSolid (word ++ tail)) (taken : lexeme (word ++ tail) = (kind, word.length)) :
    s.next.1.kind = kind ∧ s.next.1.newlineBefore = false ∧ s.next.2.rest = tail := by
  obtain ⟨gap, newline⟩ := gap_of_blanks count here solid
  have text : s.rest.drop count = word ++ tail := by
    rw [here, List.drop_left' List.length_replicate]
  simp only [next, gap, newline, text, taken, List.drop_left, and_self]

/-- The scanner takes the blanks before a word and the word. -/
theorem next_word {w : Word} {rest : List Char}
    (here : s.rest = List.replicate count ' ' ++ (w.text ++ ' ' :: rest)) :
    s.next.1.kind = w.kind ∧ s.next.1.newlineBefore = false ∧ s.next.2.rest = ' ' :: rest :=
  next_lexeme count here (isSolid_word w rest) (lexeme_word w rest)

theorem next_end (here : s.rest = List.replicate count ' ') :
    s.next.1.kind = .eof ∧ s.next.1.newlineBefore = false := by
  obtain ⟨gap, newline⟩ := gap_of_blanks count (here.trans (List.append_nil _).symm) fun _ _ => rfl
  have text : s.rest.drop count = [] := by
    rw [here, List.drop_of_length_le (by simp)]
  simp only [next, gap, newline, text, lexeme, and_self]

/-- The scanner takes one word after another, all in one line. -/
theorem tokensAfter_words {words : List Word}
    (here : s.rest = List.replicate count ' ' ++ spaced words) :
    (s.tokensAfter []).map (fun t => (t.kind, t.newlineBefore)) =
      (words.map Word.kind ++ [Kind.eof]).map fun k => (k, false) := by
  induction words generalizing s count with
  | nil =>
    obtain ⟨kind, newline⟩ := next_end (here.trans (List.append_nil _))
    rw [tokensAfter_nil, if_pos kind]
    simp [kind, newline]
  | cons w words ih =>
    have split : spaced (w :: words) = w.text ++ ' ' :: spaced words := by simp [spaced]
    rw [split] at here
    obtain ⟨kind, newline, rest⟩ := next_word here
    have more : s.next.1.kind ≠ .eof := by
      rw [kind]
      cases w <;> simp [Word.kind]
    have blank : s.next.2.rest = List.replicate 1 ' ' ++ spaced words := rest
    rw [tokensAfter_nil, if_neg more, List.map_cons, ih blank, kind, newline]
    rfl

end Scanner

end SourceMachine
