import SourceMachine.Number.Arithmetic
import SourceMachine.Number.Reading
import SourceMachine.Text.Identifier
import SourceMachine.Token.Basic

/-!
# Lexemes: the shape of one token

Each function here looks at the start of a text and says what stands there and
how many characters it takes.  Taking and dropping that many characters is left
to the caller, so nothing of the text can be lost or read twice.

`lexeme_pos` states that a lexeme is never empty.
-/

namespace SourceMachine

/-! ## Gaps -/

/-- The blanks between tokens. -/
def isBlank (c : Char) : Bool :=
  c = ' ' || c = '\t' || c = '\n' || c = '\r' || c = '\x0b' || c = '\x0c' ||
    c = '\u00a0' || c = '\ufeff'

/-- Where a gap between tokens stands: outside of comments, in one that ends with
    the line, or in one that ends with its closing mark. -/
inductive GapMode where
  | blank
  | line
  | block
deriving DecidableEq, Repr

/-- Go through the blanks and comments that a text starts with.  `n` characters were
    taken so far, and `newline` says whether a line has ended since the start.  A block
    comment without an end goes on to the end of the text. -/
def gapFrom (n : Nat) (newline : Bool) : GapMode → List Char → Nat × Bool
  | .blank, '/' :: '/' :: cs => gapFrom (n + 2) newline .line cs
  | .blank, '/' :: '*' :: cs => gapFrom (n + 2) newline .block cs
  | .blank, '\n' :: cs => gapFrom (n + 1) true .blank cs
  | .blank, c :: cs => if isBlank c then gapFrom (n + 1) newline .blank cs else (n, newline)
  | .line, '\n' :: cs => gapFrom (n + 1) true .blank cs
  | .line, _ :: cs => gapFrom (n + 1) newline .line cs
  | .block, '*' :: '/' :: cs => gapFrom (n + 2) newline .blank cs
  | .block, '\n' :: cs => gapFrom (n + 1) true .block cs
  | .block, _ :: cs => gapFrom (n + 1) newline .block cs
  | _, [] => (n, newline)

/-- The length of the blanks and comments that a text starts with. -/
def gapLength (cs : List Char) : Nat :=
  (gapFrom 0 false .blank cs).1

/-- Whether a line ends in the blanks and comments that a text starts with. -/
def gapNewline (cs : List Char) : Bool :=
  (gapFrom 0 false .blank cs).2

/-! ## Strings and templates -/

/-- What a string literal is in the middle of. -/
inductive Escape where
  | none
  /-- A backslash was read. -/
  | started
  /-- A code in hexadecimal digits was read in part, and `left + 1` digits are
      still to come. -/
  | code (left : Nat) (value : Nat)
deriving DecidableEq, Repr

/-- The escapes that stand for one fixed character. -/
def escaped? (c : Char) : Option Char :=
  match c with
  | 'n' => some '\n'
  | 'r' => some '\r'
  | 't' => some '\t'
  | 'b' => some '\x08'
  | 'f' => some '\x0c'
  | 'v' => some '\x0b'
  | '0' => some '\x00'
  | _ => none

/-- The text of a code point, empty for the halves of a surrogate pair. -/
def ofCodePoint (code : Nat) : List Char :=
  if code.isValidChar then [Char.ofNat code] else []

/-- Go through a string literal after its opening quote.  `n` characters were
    taken so far, and `done` holds those of the value, last one first.  A code
    that breaks off adds nothing, and a line may only end after a backslash. -/
def stringFrom (quote : Char) (n : Nat) (done : List Char) : Escape → List Char → Kind × Nat
  | _, [] => (.invalid quote, n)
  | .started, c :: cs =>
    match escaped? c with
    | some d => stringFrom quote (n + 1) (d :: done) .none cs
    | none =>
      if c = 'x' then stringFrom quote (n + 1) done (.code 1 0) cs
      else if c = 'u' then stringFrom quote (n + 1) done (.code 3 0) cs
      else if c = '\n' then stringFrom quote (n + 1) done .none cs
      else stringFrom quote (n + 1) (c :: done) .none cs
  | .code left value, c :: cs =>
    match Number.digit? 16 c, left with
    | some d, left + 1 => stringFrom quote (n + 1) done (.code left (16 * value + d)) cs
    | some d, 0 => stringFrom quote (n + 1) (ofCodePoint (16 * value + d) ++ done) .none cs
    | none, _ =>
      if c = quote then (.string (String.ofList done.reverse), n + 1)
      else if c = '\\' then stringFrom quote (n + 1) done .started cs
      else if c = '\n' then (.invalid quote, n + 1)
      else stringFrom quote (n + 1) (c :: done) .none cs
  | .none, c :: cs =>
    if c = quote then (.string (String.ofList done.reverse), n + 1)
    else if c = '\\' then stringFrom quote (n + 1) done .started cs
    else if c = '\n' then (.invalid quote, n + 1)
    else stringFrom quote (n + 1) (c :: done) .none cs

/-- The quote of template literals. -/
def templateQuote : Char := '\x60'

/-- Go through a template literal after its opening quote.  A backslash keeps the
    character after it, and all else stands for itself. -/
def templateFrom (n : Nat) (done : List Char) : (afterBackslash : Bool) → List Char → Kind × Nat
  | _, [] => (.invalid templateQuote, n)
  | true, c :: cs => templateFrom (n + 1) (c :: done) false cs
  | false, c :: cs =>
    if c = templateQuote then (.template (String.ofList done.reverse), n + 1)
    else if c = '\\' then templateFrom (n + 1) done true cs
    else templateFrom (n + 1) (c :: done) false cs

/-! ## Numbers -/

/-- Digits of a base and the underscores between them. -/
def digitRun (base : Nat) (cs : List Char) : List Char :=
  cs.takeWhile fun c => Number.isDigit base c || c = '_'

/-- The digits of a run, without the underscores. -/
def runDigits (run : List Char) : List Char :=
  run.filter (· ≠ '_')

/-- The base that a letter after a leading zero announces. -/
def announcedBase? (c : Char) : Option Nat :=
  if c = 'x' ∨ c = 'X' then some 16
  else if c = 'o' ∨ c = 'O' then some 8
  else if c = 'b' ∨ c = 'B' then some 2
  else none

/-- A whole number in an announced base, given what follows the letter.  It needs
    a digit and has to fit into sixty-four bits. -/
def wholeLexeme (base : Nat) (cs : List Char) : Kind × Nat :=
  let run := digitRun base cs
  let value := Number.ofDigits base (runDigits run)
  if (runDigits run).isEmpty ∨ Number.twoPow 64 ≤ value then (.invalid '0', 2 + run.length)
  else (.number (Number.ofNat value), 2 + run.length)

/-- The letter that starts an exponent. -/
def isExponentMark (c : Char) : Bool :=
  c = 'e' || c = 'E'

/-- The length of the decimal point after the whole part: it belongs to the
    number only before a digit or an exponent. -/
def pointLength : List Char → Nat
  | '.' :: c :: _ => if Number.isDigit 10 c || isExponentMark c then 1 else 0
  | _ => 0

/-- The exponent that a text starts with: whether it is negative, its digits, and
    the length of all of it. -/
def exponent? : List Char → Option (Bool × List Char × Nat)
  | c :: cs =>
    if isExponentMark c then
      let negative := cs.head? = some '-'
      let signLength := if negative ∨ cs.head? = some '+' then 1 else 0
      let run := digitRun 10 (cs.drop signLength)
      some (negative, runDigits run, 1 + signLength + run.length)
    else none
  | [] => none

/-- The value of a decimal literal.  An exponent without digits makes it no
    number. -/
def decimalValue (whole fraction : List Char) (exponent : Option (Bool × List Char × Nat)) :
    Float :=
  let digits := Number.ofDigits 10 (whole ++ fraction)
  let places : Int := fraction.length
  match exponent with
  | none => Number.ofDecimal digits (-places)
  | some (_, [], _) => Number.notANumber
  | some (negative, ds, _) =>
    let e : Int := Number.ofDigits 10 ds
    Number.ofDecimal digits ((if negative then -e else e) - places)

/-- A decimal literal: a whole part, a fraction and an exponent, the last two
    optional.  A literal may also start with its decimal point. -/
def decimalLexeme (cs : List Char) : Kind × Nat :=
  let whole := digitRun 10 cs
  let afterWhole := cs.drop whole.length
  let point := pointLength afterWhole
  let fraction := digitRun 10 (afterWhole.drop point)
  let exponent := exponent? (afterWhole.drop (point + fraction.length))
  let length := whole.length + point + fraction.length +
    (exponent.elim 0 fun e => e.2.2)
  (.number (decimalValue (runDigits whole) (runDigits fraction) exponent), length)

/-- A number literal. -/
def numberLexeme (cs : List Char) : Kind × Nat :=
  match cs with
  | '0' :: c :: rest =>
    match announcedBase? c with
    | some base => wholeLexeme base rest
    | none => decimalLexeme cs
  | _ => decimalLexeme cs

/-- Whether a number literal starts here. -/
def startsNumber : List Char → Bool
  | '.' :: c :: _ => Number.isDigit 10 c
  | c :: _ => Number.isDigit 10 c
  | [] => false

/-! ## Names, and all lexemes -/

/-- A name: a reserved word or an identifier. -/
def nameLexeme (cs : List Char) : Kind × Nat :=
  let name := cs.takeWhile isIdentifierRest
  let text := String.ofList name
  match Keyword.ofText? text with
  | some k => (.keyword k, name.length)
  | none => (.identifier text, name.length)

/-- The token that a text starts with, and how many characters it takes. -/
def lexeme (cs : List Char) : Kind × Nat :=
  match cs with
  | [] => (.eof, 0)
  | c :: rest =>
    if startsNumber cs then numberLexeme cs
    else match Mark.longest? cs with
      | some (m, n) => (.mark m, n)
      | none =>
        if c = '"' ∨ c = '\'' then stringFrom c 1 [] .none rest
        else if c = templateQuote then templateFrom 1 [] false rest
        else if isIdentifierStart c then nameLexeme cs
        else (.invalid c, 1)

/-! ## A lexeme is never empty -/

theorem stringFrom_ge (quote : Char) (n : Nat) (done : List Char) (e : Escape) (cs : List Char) :
    n ≤ (stringFrom quote n done e cs).2 := by
  fun_induction stringFrom quote n done e cs <;> omega

theorem templateFrom_ge (n : Nat) (done : List Char) (b : Bool) (cs : List Char) :
    n ≤ (templateFrom n done b cs).2 := by
  fun_induction templateFrom n done b cs <;> omega

theorem Mark.length_pos_of_longest? {cs : List Char} {m : Mark} {n : Nat}
    (h : Mark.longest? cs = some (m, n)) : 0 < n := by
  have spelled : ∀ p ∈ Mark.spellings, 0 < p.1.length := by decide +kernel
  obtain ⟨p, hp, heq⟩ := Option.map_eq_some_iff.1 h
  have := spelled p (List.mem_of_find?_eq_some hp)
  simp only [Prod.mk.injEq] at heq
  omega

theorem wholeLexeme_pos (base : Nat) (cs : List Char) : 0 < (wholeLexeme base cs).2 := by
  simp only [wholeLexeme]
  split <;> simp only <;> omega

theorem decimalLexeme_pos {cs : List Char} (h : startsNumber cs = true) :
    0 < (decimalLexeme cs).2 := by
  unfold startsNumber at h
  split at h
  · -- the literal starts with its point
    have hdot : (Number.isDigit 10 '.' || decide ('.' = '_')) = false := by decide
    simp only [decimalLexeme, digitRun, List.takeWhile_cons, hdot, List.length_nil,
      List.drop_zero, pointLength, h, Bool.true_or, if_true, Bool.false_eq_true, if_false]
    omega
  · -- the literal has a first digit
    simp only [decimalLexeme, digitRun, List.takeWhile_cons, h, Bool.true_or, if_true,
      List.length_cons]
    omega
  · simp at h

theorem numberLexeme_pos {cs : List Char} (h : startsNumber cs = true) :
    0 < (numberLexeme cs).2 := by
  unfold numberLexeme
  split
  · split
    · exact wholeLexeme_pos _ _
    · exact decimalLexeme_pos h
  · exact decimalLexeme_pos h

theorem nameLexeme_pos {c : Char} {rest : List Char} (h : isIdentifierStart c = true) :
    0 < (nameLexeme (c :: rest)).2 := by
  have hrest := isIdentifierRest_of_start h
  unfold nameLexeme
  simp only [List.takeWhile_cons, hrest, if_true]
  split <;> simp

theorem lexeme_pos {cs : List Char} (h : cs ≠ []) : 0 < (lexeme cs).2 := by
  match cs with
  | [] => contradiction
  | c :: rest =>
    unfold lexeme
    split
    · contradiction
    · next heq =>
      obtain ⟨rfl, rfl⟩ := List.cons.inj heq
      split
      · next hn => exact numberLexeme_pos hn
      · split
        · next hm => exact Mark.length_pos_of_longest? hm
        · split
          · exact stringFrom_ge _ 1 _ _ _
          · split
            · exact templateFrom_ge 1 _ _ _
            · split
              · next hi => exact nameLexeme_pos hi
              · exact Nat.one_pos

end SourceMachine
