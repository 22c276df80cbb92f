import SourceMachine.Proofs.Number.Floats
import SourceMachine.Token.Scanner

/-!
# Number literals

A decimal literal is collected into a text before it is read as a number: underscores are left
out, a point at the start gets a zero before it, and either mark of an exponent becomes `e`
(`decimalText`).  `WritesDecimal` says which texts are decimals and what they stand for.

What is collected is a decimal unless an exponent has no digits (`decimalValue_cases`).  Such a
text ends after the mark or the sign of the exponent (`BreaksOff`), and no decimal does.
-/

namespace SourceMachine

open Number (isDigit ofDigits ofDecimal notANumber)

/-! ## Decimals as they are written -/

/-- The characters are decimal digits. -/
def AreDigits (ds : List Char) : Prop :=
  ∀ d ∈ ds, isDigit 10 d = true

/-- The sign of an exponent, which may be missing. -/
def exponentSigns : List (List Char) := [[], ['+'], ['-']]

/-- An exponent as it is written, with its value.  It may be missing, but after a mark it has
    digits. -/
inductive WritesExponent : List Char → Int → Prop where
  | none : WritesExponent [] 0
  | some {sign ds : List Char} (known : sign ∈ exponentSigns) (digits : AreDigits ds)
      (any : ds ≠ []) : WritesExponent ('e' :: (sign ++ ds))
        (if sign = ['-'] then -(ofDigits 10 ds : Int) else ofDigits 10 ds)

/-- A decimal number as it is written, with its value: digits, perhaps a point and the digits of
    a fraction, and an exponent. -/
inductive WritesDecimal : List Char → Float → Prop where
  | whole {ds t : List Char} {e : Int} (digits : AreDigits ds) (any : ds ≠ [])
      (exponent : WritesExponent t e) : WritesDecimal (ds ++ t) (ofDecimal (ofDigits 10 ds) e)
  | point {ds fs t : List Char} {e : Int} (digits : AreDigits ds) (any : ds ≠ [])
      (fraction : AreDigits fs) (exponent : WritesExponent t e) :
      WritesDecimal (ds ++ '.' :: (fs ++ t)) (ofDecimal (ofDigits 10 (ds ++ fs)) (e - fs.length))

/-- The text ends within an exponent, after its mark or its sign. -/
def BreaksOff (text : List Char) : Prop :=
  ∃ init, ∃ sign ∈ exponentSigns, text = init ++ 'e' :: sign

/-- If the text ends, then with a digit or a point. -/
def Closes (text : List Char) : Prop :=
  ∀ c ∈ text.getLast?, isDigit 10 c = true ∨ c = '.'

theorem Closes.append {as bs : List Char} (first : Closes as) (second : Closes bs) :
    Closes (as ++ bs) := by
  intro c last
  rw [List.getLast?_append, Option.mem_def, Option.or_eq_some_iff] at last
  exact last.elim (second c) fun last => first c last.2

theorem AreDigits.closes {ds : List Char} (digits : AreDigits ds) : Closes ds :=
  fun c last => .inl (digits c (List.mem_of_getLast? last))

theorem WritesExponent.closes {t : List Char} {e : Int} (writes : WritesExponent t e) :
    Closes t := by
  cases writes with
  | none => exact nofun
  | some _ digits any =>
    rw [Closes, ← List.cons_append, List.getLast?_append_of_ne_nil _ any]
    exact digits.closes

variable {text : List Char}

theorem WritesDecimal.closes {x : Float} (writes : WritesDecimal text x) : Closes text := by
  cases writes with
  | whole digits _ exponent => exact digits.closes.append exponent.closes
  | point digits _ fraction exponent =>
    have point : Closes ['.'] := fun c last => .inr (Option.some.inj last).symm
    exact digits.closes.append (point.append (fraction.closes.append exponent.closes))

theorem BreaksOff.last (broken : BreaksOff text) :
    text.getLast? = some 'e' ∨ text.getLast? = some '+' ∨ text.getLast? = some '-' := by
  obtain ⟨init, sign, known, rfl⟩ := broken
  rw [List.getLast?_append_of_ne_nil _ (List.cons_ne_nil _ _)]
  simp only [exponentSigns, List.mem_cons, List.not_mem_nil, or_false] at known
  rcases known with rfl | rfl | rfl
  · exact .inl rfl
  · exact .inr (.inl rfl)
  · exact .inr (.inr rfl)

/-- A text that breaks off writes no number. -/
theorem BreaksOff.not_writes (broken : BreaksOff text) (x : Float) : ¬WritesDecimal text x := by
  intro writes
  rcases broken.last with last | last | last
  · exact absurd (writes.closes _ last) (by decide)
  · exact absurd (writes.closes _ last) (by decide)
  · exact absurd (writes.closes _ last) (by decide)

/-! ## Collecting a literal -/

/-- What is collected of an exponent: its mark, its sign and its digits. -/
def exponentText : List Char → List Char
  | c :: cs =>
    if isExponentMark c then
      let sign := if cs.head? = some '-' ∨ cs.head? = some '+' then cs.take 1 else []
      'e' :: (sign ++ runDigits (digitRun 10 (cs.drop sign.length)))
    else []
  | [] => []

/-- What is collected of a decimal literal: its characters without the underscores, and a zero
    before a point at its start. -/
def decimalText (cs : List Char) : List Char :=
  let whole := digitRun 10 cs
  let afterWhole := cs.drop whole.length
  let point := pointLength afterWhole
  let fraction := digitRun 10 (afterWhole.drop point)
  (if whole.isEmpty then ['0'] else runDigits whole) ++ (afterWhole.take point ++
    (runDigits fraction ++ exponentText (afterWhole.drop (point + fraction.length))))

theorem areDigits_runDigits (cs : List Char) : AreDigits (runDigits (digitRun 10 cs)) := by
  intro d member
  obtain ⟨member, other⟩ := List.mem_filter.1 member
  have run := List.mem_takeWhile_imp member
  simp only [Bool.or_eq_true, decide_eq_true_eq] at run other
  exact run.resolve_right other

theorem digitRun_drop (cs : List Char) : digitRun 10 (cs.drop (digitRun 10 cs).length) = [] := by
  induction cs with
  | nil => rfl
  | cons c cs ih =>
    by_cases run : (isDigit 10 c || decide (c = '_')) = true
    · rwa [show digitRun 10 (c :: cs) = c :: digitRun 10 cs from List.takeWhile_cons_of_pos run,
        List.length_cons, List.drop_succ_cons]
    · have none : digitRun 10 (c :: cs) = [] := List.takeWhile_cons_of_neg run
      rw [none, List.length_nil, List.drop_zero, none]

theorem exponent_cases (cs : List Char) : exponent? cs = none ∧ exponentText cs = [] ∨
    ∃ sign ∈ exponentSigns, ∃ ds n, exponent? cs = some (decide (sign = ['-']), ds, n) ∧
      AreDigits ds ∧ exponentText cs = 'e' :: (sign ++ ds) := by
  cases cs with
  | nil => exact .inl ⟨rfl, rfl⟩
  | cons c cs =>
    rw [exponent?, exponentText]
    split
    · right
      by_cases minus : cs.head? = some '-'
      · obtain ⟨cs, rfl⟩ : ∃ rest, cs = '-' :: rest := List.head?_eq_some_iff.1 minus
        exact ⟨['-'], by decide, _, _, rfl, areDigits_runDigits _, rfl⟩
      by_cases plus : cs.head? = some '+'
      · obtain ⟨cs, rfl⟩ : ∃ rest, cs = '+' :: rest := List.head?_eq_some_iff.1 plus
        exact ⟨['+'], by decide, _, _, rfl, areDigits_runDigits _, rfl⟩
      · refine ⟨[], by decide, runDigits (digitRun 10 cs), 1 + 0 + (digitRun 10 cs).length, ?_,
          areDigits_runDigits _, ?_⟩
        · simp [minus, plus]
        · simp [minus, plus]
    · exact .inl ⟨rfl, rfl⟩

/-- A fraction has a point before it. -/
theorem point_cases {cs : List Char} (stopped : digitRun 10 cs = []) :
    let fraction := runDigits (digitRun 10 (cs.drop (pointLength cs)))
    cs.take (pointLength cs) = [] ∧ fraction = [] ∨
      cs.take (pointLength cs) = ['.'] ∧ AreDigits fraction := by
  have length : pointLength cs = 0 ∨ pointLength cs = 1 ∧ cs.take 1 = ['.'] := by
    unfold pointLength
    split
    · split
      · exact .inr ⟨rfl, rfl⟩
      · exact .inl rfl
    · exact .inl rfl
  rcases length with none | ⟨one, point⟩
  · rw [none, List.drop_zero, stopped]
    exact .inl ⟨rfl, rfl⟩
  · rw [one]
    exact .inr ⟨point, areDigits_runDigits _⟩

/-- The whole part that is collected has digits, and stands for the same number. -/
theorem whole_cases {cs ds : List Char} (starts : startsNumber cs = true)
    (collected : (if (digitRun 10 cs).isEmpty then ['0'] else runDigits (digitRun 10 cs)) = ds) :
    AreDigits ds ∧ ds ≠ [] ∧
      ∀ fs, ofDigits 10 (runDigits (digitRun 10 cs) ++ fs) = ofDigits 10 (ds ++ fs) := by
  subst collected
  split
  · next empty =>
    rw [List.isEmpty_iff.1 empty]
    exact ⟨List.forall_mem_singleton.2 (by decide), List.cons_ne_nil _ _, fun fs => rfl⟩
  · next more =>
    refine ⟨areDigits_runDigits _, ?_, fun fs => rfl⟩
    -- the first character is in the run, and a literal does not start with an underscore
    obtain ⟨c, run, split⟩ := List.exists_cons_of_ne_nil (mt List.isEmpty_iff.2 more)
    obtain ⟨cs, rfl⟩ : ∃ rest, cs = c :: rest := by
      obtain ⟨rest, whole⟩ := List.takeWhile_prefix (l := cs) fun c => isDigit 10 c || c = '_'
      exact ⟨run ++ rest, by rw [← whole, ← digitRun, split, List.cons_append]⟩
    rw [split, runDigits, List.filter_cons_of_pos]
    · exact List.cons_ne_nil _ _
    · rw [decide_eq_true_eq]
      rintro rfl
      cases starts

/-- A whole part, a fraction with a point before it, and an exponent make a decimal. -/
theorem WritesDecimal.of_parts {ds point fs t : List Char} {e : Int} (digits : AreDigits ds)
    (any : ds ≠ []) (pointed : point = [] ∧ fs = [] ∨ point = ['.'] ∧ AreDigits fs)
    (exponent : WritesExponent t e) : WritesDecimal (ds ++ (point ++ (fs ++ t)))
      (ofDecimal (ofDigits 10 (ds ++ fs)) (e - fs.length)) := by
  rcases pointed with ⟨rfl, rfl⟩ | ⟨rfl, fraction⟩
  · have writes := WritesDecimal.whole digits any exponent
    rwa [List.append_nil, List.length_nil, Nat.cast_zero, sub_zero]
  · exact .point digits any fraction exponent

/-- The value of what was collected, unless it breaks off. -/
theorem decimalValue_cases {ws ds point fs : List Char} (tail : List Char) (digits : AreDigits ds)
    (any : ds ≠ []) (same : ofDigits 10 (ws ++ fs) = ofDigits 10 (ds ++ fs))
    (pointed : point = [] ∧ fs = [] ∨ point = ['.'] ∧ AreDigits fs) :
    let text := ds ++ (point ++ (fs ++ exponentText tail))
    let x := decimalValue ws fs (exponent? tail)
    WritesDecimal text x ∧ x.isNaN = false ∨ BreaksOff text ∧ x = notANumber := by
  intro text x
  rcases exponent_cases tail with ⟨none, rest⟩ | ⟨sign, known, es, n, some, others, rest⟩
  · have writes := WritesDecimal.of_parts digits any pointed .none
    rw [zero_sub, ← same] at writes
    refine .inl ?_
    simp only [text, x, none, rest, decimalValue]
    exact ⟨writes, Number.isNaN_ofDecimal ..⟩
  · cases es with
    | nil =>
      refine .inr ⟨⟨ds ++ (point ++ fs), sign, known, ?_⟩, ?_⟩
      · simp only [text, rest, List.append_assoc, List.append_nil]
      · simp only [x, some, decimalValue]
    | cons e es =>
      have writes := WritesDecimal.of_parts digits any pointed
        (.some known others (List.cons_ne_nil e es))
      rw [← same] at writes
      refine .inl ?_
      simp only [text, x, some, rest, decimalValue, decide_eq_true_eq]
      exact ⟨writes, Number.isNaN_ofDecimal ..⟩

/-! ## All number literals -/

/-- What a literal in an announced base may be: the number that its digits spell, or invalid if
    it has none or does not fit into sixty-four bits. -/
def IsWhole (base : Nat) (digits : List Char) (kind : Kind) : Prop :=
  (digits ≠ [] ∧ ofDigits base digits < 2 ^ 64 ∧
    ∃ x, kind = .number x ∧ x = Number.ofNat (ofDigits base digits) ∧ x.isNaN = false) ∨
  ((digits = [] ∨ 2 ^ 64 ≤ ofDigits base digits) ∧ kind = .invalid '0')

/-- What any other literal may be: the number that the collected text writes or, if the text
    breaks off and so writes none, the float that is not a number. -/
def IsDecimal (text : List Char) (kind : Kind) : Prop :=
  ∃ x, kind = .number x ∧ (WritesDecimal text x ∧ x.isNaN = false ∨
    BreaksOff text ∧ (∀ y, ¬WritesDecimal text y) ∧ x.isNaN = true)

theorem isWhole_wholeLexeme (base : Nat) (cs : List Char) :
    IsWhole base (runDigits (digitRun base cs)) (wholeLexeme base cs).1 := by
  rw [wholeLexeme]
  split
  · next bad => exact .inr ⟨bad.imp_left List.isEmpty_iff.1, rfl⟩
  · next good =>
    obtain ⟨any, fits⟩ := not_or.1 good
    exact .inl ⟨mt List.isEmpty_iff.2 any, Nat.lt_of_not_le fits, _, rfl, rfl,
      Number.isNaN_ofRatio ..⟩

theorem isDecimal_decimalLexeme {cs : List Char} (starts : startsNumber cs = true) :
    IsDecimal (decimalText cs) (decimalLexeme cs).1 := by
  obtain ⟨digits, any, same⟩ := whole_cases starts rfl
  refine ⟨_, rfl, ?_⟩
  rcases decimalValue_cases _ digits any (same _) (point_cases (digitRun_drop cs)) with
    ⟨writes, number⟩ | ⟨broken, value⟩
  · exact .inl ⟨writes, number⟩
  · exact .inr ⟨broken, broken.not_writes, by rw [value]; exact Number.isNaN_notANumber⟩

/-- **Number literals denote numbers, unless an exponent breaks off.**  A literal in an announced
    base is the number that its digits spell, and invalid if it has none or is too large.  Of any
    other literal a text is collected.  If it does not break off, it writes a decimal, and the
    literal is the value of this.  If it breaks off after the mark or the sign of an exponent, it
    writes none, and yet the literal is not invalid: it is the float that is not a number. -/
theorem number_literals_denote {cs : List Char} (starts : startsNumber cs = true) :
    (∃ c base rest, cs = '0' :: c :: rest ∧ announcedBase? c = some base ∧
      IsWhole base (runDigits (digitRun base rest)) (lexeme cs).1) ∨
    (∀ c rest, cs = '0' :: c :: rest → announcedBase? c = none) ∧
      IsDecimal (decimalText cs) (lexeme cs).1 := by
  have number : lexeme cs = numberLexeme cs := by
    cases cs with
    | nil => cases starts
    | cons c rest => rw [lexeme, if_pos starts]
  have decimal := isDecimal_decimalLexeme starts
  rw [number]
  unfold numberLexeme
  split
  · next c rest =>
    split
    · next base announced =>
      exact .inl ⟨c, base, rest, rfl, announced, isWhole_wholeLexeme base rest⟩
    · next plain =>
      refine .inr ⟨fun d others split => ?_, decimal⟩
      cases split
      exact plain
  · next other => exact .inr ⟨fun c rest split => absurd split (other c rest), decimal⟩

/-- A literal with underscores, a fraction and an exponent. -/
theorem number_literals_denote_of_exponent : startsNumber "1_0.5E+3;".toList = true ∧
      ∃ x, (lexeme "1_0.5E+3;".toList).1 = .number x ∧ WritesDecimal "10.5e+3".toList x ∧
        x.isNaN = false := by
  have text : decimalText "1_0.5E+3;".toList = "10.5e+3".toList := by decide
  have starts : startsNumber "1_0.5E+3;".toList = true := by decide
  refine ⟨starts, ?_⟩
  rcases number_literals_denote starts with
    ⟨c, base, rest, split, -⟩ | ⟨-, x, kind, ⟨writes, number⟩ | ⟨broken, -⟩⟩
  · cases split
  · exact ⟨x, kind, text ▸ writes, number⟩
  · exact absurd broken.last (by rw [text]; decide)

/-- An exponent without digits: the literal is neither invalid nor a number. -/
theorem exponent_without_digits_is_no_number :
    (tokensOf "1e").map (·.kind) = [.number notANumber, .eof] ∧ notANumber.isNaN = true := by
  decide +kernel

end SourceMachine
