import SourceMachine.Proofs.Program.Position
import SourceMachine.Proofs.Program.Precedence
import SourceMachine.Proofs.Program.Sound
import SourceMachine.Proofs.Program.Tiled

/-!
# Import declarations

An import is a construct of which only the place is kept.  What is skipped goes on to a semicolon
outside of braces, or through the brace that closes the first one opened.  So an import of one
name ends at its semicolon, and the rest of the text is read as if it stood alone.  But an import
of names in braces ends at the closing brace: the word `from` is a statement then, and the
string after it is refused.
-/

namespace SourceMachine

open Reader

variable {s s' : Scanner} {count : Nat} {tail : List Char}

/-! ## Texts of imports -/

/-- A string literal: a quote, and all that follows it through the closing one. -/
structure StringLiteral where
  quote : Char
  inner : List Char
  value : String
  isQuote : quote = '"' ∨ quote = '\''
  reads : stringFrom quote 1 [] .none inner = (.string value, inner.length + 1)

/-- How a string literal is written. -/
def StringLiteral.text (lit : StringLiteral) : String :=
  String.ofList (lit.quote :: lit.inner)

/-- Names with commas between them. -/
def nameList : List Name → String
  | [] => ""
  | [x] => x.text
  | x :: y :: others => x.text ++ ", " ++ nameList (y :: others)

/-- An import of one name, up to the string. -/
def importOf (x : Name) : String :=
  "import " ++ x.text ++ " from "

/-- An import of names in braces, up to the string. -/
def importOfAll (names : List Name) : String :=
  "import \x7b " ++ nameList names ++ " \x7d from "

/-! ## Tokens of imports -/

theorem stringFrom_append {quote : Char} {n m : Nat} {done cs : List Char} {e : Escape}
    {value : String} (closed : stringFrom quote n done e cs = (.string value, m))
    (more : List Char) : stringFrom quote n done e (cs ++ more) = (.string value, m) := by
  fun_induction stringFrom quote n done e cs <;> simp_all [stringFrom]

/-- A string literal is one lexeme, whatever follows. -/
theorem StringLiteral.lexeme_text (lit : StringLiteral) (tail : List Char) :
    lexeme (lit.text.toList ++ tail) = (.string lit.value, lit.text.toList.length) := by
  have notMark : Mark.longest? (lit.quote :: (lit.inner ++ tail)) = none := by
    refine Mark.longest?_eq_none ?_
    rcases lit.isQuote with quote | quote <;> rw [quote] <;> decide +kernel
  have notNumber : startsNumber (lit.quote :: (lit.inner ++ tail)) = false := by
    apply startsNumber_of_not_digit <;>
      rcases lit.isQuote with quote | quote <;> rw [quote] <;> decide
  rw [StringLiteral.text, String.toList_ofList, List.cons_append, lexeme, notNumber, notMark]
  simp only [Bool.false_eq_true, if_false, if_pos lit.isQuote]
  exact stringFrom_append lit.reads tail

/-- A quote ends the gap before it. -/
theorem StringLiteral.isSolid (lit : StringLiteral) (tail : List Char) :
    IsSolid (lit.text.toList ++ tail) := by
  rw [StringLiteral.text, String.toList_ofList, List.cons_append]
  rcases lit.isQuote with quote | quote <;> rw [quote] <;>
    exact isSolid_cons _ (by decide) (by decide)

namespace Scanner

/-- The scanner takes these tokens, and there are more. -/
inductive Takes : Scanner → List Token → Scanner → Prop where
  | nil {s : Scanner} : Takes s [] s
  | cons {s s' : Scanner} {tokens : List Token} (more : s.next.1.kind ≠ .eof)
      (others : Takes s.next.2 tokens s') : Takes s (s.next.1 :: tokens) s'

section

variable {tokens : List Token} (takes : s.Takes tokens s')

include takes

theorem Takes.tokensAfter_eq : s.tokensAfter [] = tokens ++ s'.tokensAfter [] := by
  induction takes with
  | nil => rfl
  | cons more _ ih => rw [tokensAfter_nil, if_neg more, ih, List.cons_append]

theorem Takes.append {s'' : Scanner} {more : List Token} (onwards : s'.Takes more s'') :
    s.Takes (tokens ++ more) s'' := by
  induction takes with
  | nil => exact onwards
  | cons notLast _ ih => exact .cons notLast (ih onwards)

theorem Takes.exists_isAfter {text done : List Char} (stands : s.IsAfter text done) :
    ∃ before, s'.IsAfter text before := by
  induction takes generalizing done with
  | nil => exact ⟨done, stands⟩
  | cons _ _ ih => exact ih stands.next

end

/-- After some tokens and some blanks, the place reached follows from what is left. -/
theorem Takes.position_eq {text : String} {front : List Char} {tokens : List Token}
    (takes : (ofText text).Takes tokens s') (split : text.toList = front ++ tail)
    (left : s'.rest = List.replicate count ' ' ++ tail) :
    s'.position.afterAll (List.replicate count ' ') = ({} : Position).afterAll front := by
  obtain ⟨before, stands⟩ := takes.exists_isAfter (isAfter_ofText text)
  have same : before ++ List.replicate count ' ' = front := by
    have both := stands.split.symm.trans split
    rw [left, ← List.append_assoc] at both
    exact List.append_cancel_right both
  rw [stands.position, ← Position.afterAll_append, same]

/-- One more lexeme. -/
theorem exists_takes_lexeme {word : List Char} {kind : Kind}
    (here : s.rest = List.replicate count ' ' ++ (word ++ tail))
    (solid : IsSolid (word ++ tail)) (taken : lexeme (word ++ tail) = (kind, word.length))
    (more : kind ≠ .eof) :
    ∃ t s', s.Takes [t] s' ∧ t.kind = kind ∧ t.newlineBefore = false ∧ s'.rest = tail := by
  obtain ⟨same, line, rest⟩ := next_lexeme _ here solid taken
  exact ⟨_, _, .cons (same ▸ more) .nil, same, line, rest⟩

/-- Words with a blank after each of them. -/
theorem exists_takes_spaced (count : Nat) (words : List Word)
    (here : s.rest = List.replicate count ' ' ++ (spaced words ++ tail)) :
    ∃ tokens s' count', s.Takes tokens s' ∧ tokens.map Token.kind = words.map Word.kind ∧
      s'.rest = List.replicate count' ' ' ++ tail := by
  induction words generalizing s count with
  | nil => exact ⟨[], s, count, .nil, rfl, here⟩
  | cons w words ih =>
    have split : spaced (w :: words) ++ tail = w.text ++ ' ' :: (spaced words ++ tail) := by
      simp [spaced]
    rw [split] at here
    obtain ⟨kind, -, rest⟩ := next_word here
    have more : s.next.1.kind ≠ .eof := by
      rw [kind]
      cases w <;> simp [Word.kind]
    have blank : s.next.2.rest = List.replicate 1 ' ' ++ (spaced words ++ tail) := rest
    obtain ⟨tokens, s', count', takes, kinds, rest⟩ := ih 1 blank
    exact ⟨_, s', count', .cons more takes, congrArg₂ List.cons kind kinds, rest⟩

end Scanner

/-- The token neither opens nor closes braces, and it ends nothing. -/
def Kind.isPlain (k : Kind) : Bool :=
  k ≠ .eof ∧ k ≠ .mark .semicolon ∧ k ≠ .mark .lBrace ∧ k ≠ .mark .rBrace

/-- Names with commas between them are plain tokens. -/
theorem Scanner.exists_takes_nameList (names : List Name)
    (here : s.rest = List.replicate count ' ' ++ ((nameList names).toList ++ ' ' :: tail)) :
    ∃ tokens s' count', s.Takes tokens s' ∧ (∀ k ∈ tokens.map Token.kind, k.isPlain = true) ∧
      s'.rest = List.replicate count' ' ' ++ tail := by
  induction names generalizing s count with
  | nil =>
    refine ⟨[], s, count + 1, .nil, nofun, ?_⟩
    rw [here, List.replicate_succ', List.append_assoc]
    rfl
  | cons x names ih =>
    cases names with
    | nil =>
      have word : s.rest = List.replicate count ' ' ++ (spaced [.name x] ++ tail) := by
        simpa [spaced, nameList, Word.text] using here
      obtain ⟨tokens, s', count', takes, kinds, rest⟩ := exists_takes_spaced count _ word
      exact ⟨tokens, s', count', takes, by rw [kinds]; exact List.forall_mem_singleton.2 rfl, rest⟩
    | cons y names =>
      rw [nameList, String.toList_append, String.toList_append, List.append_assoc,
        List.append_assoc] at here
      obtain ⟨t, s₁, first, kind, -, rest⟩ := exists_takes_lexeme here
        (isSolid_name _ x.spelled) (lexeme_name x.spelled (by simp; decide))
        (by rw [nameKind, x.free]; simp)
      have comma : s₁.rest = List.replicate 0 ' ' ++ (spaced [.mark .comma] ++
          ((nameList (y :: names)).toList ++ ' ' :: tail)) := rest
      obtain ⟨commas, s₂, count₂, second, isComma, rest⟩ := exists_takes_spaced 0 _ comma
      obtain ⟨tokens, s', count', takes, plain, rest⟩ := ih rest
      refine ⟨t :: (commas ++ tokens), s', count', first.append (second.append takes), ?_, rest⟩
      rw [List.map_cons, List.map_append, isComma, kind, nameKind, x.free]
      exact List.forall_mem_cons.2 ⟨rfl, List.forall_mem_cons.2 ⟨rfl, plain⟩⟩

/-- The word before the string. -/
def Name.fromWord : Name :=
  ⟨"from", by decide, by decide⟩

theorem importOf_eq (x : Name) :
    (importOf x).toList = spaced [.keyword .importWord, .name x, .name .fromWord] := by
  simp [importOf, spaced, Word.text, Keyword.text, Name.fromWord]

theorem importOfAll_eq (names : List Name) :
    (importOfAll names).toList = spaced [.keyword .importWord, .mark .lBrace] ++
      ((nameList names).toList ++ ' ' :: spaced [.mark .rBrace, .name .fromWord]) := by
  simp [importOfAll, spaced, Word.text, Keyword.text, Mark.text, Name.fromWord]

/-- The tokens of an import of one name. -/
theorem Scanner.exists_takes_importOf (x : Name) (lit : StringLiteral)
    (here : s.rest = (importOf x).toList ++ (lit.text.toList ++ ';' :: tail)) :
    ∃ first tokens last s', s.Takes (first :: (tokens ++ [last])) s' ∧
      first.kind = .keyword .importWord ∧ (∀ t ∈ tokens, t.kind.isPlain = true) ∧
      last.kind = .mark .semicolon ∧ s'.rest = tail := by
  rw [importOf_eq, ← List.nil_append (spaced _ ++ _)] at here
  obtain ⟨words, s₁, count, takes₁, kinds, rest⟩ := exists_takes_spaced 0 _ here
  obtain ⟨first, others, rfl, isImport, kinds⟩ := List.map_eq_cons_iff.1 kinds
  obtain ⟨string, s₂, takes₂, isString, -, rest⟩ := exists_takes_lexeme rest (lit.isSolid _)
    (lit.lexeme_text _) (by simp)
  have semicolon : s₂.rest = List.replicate 0 ' ' ++ ([';'] ++ tail) := rest
  obtain ⟨last, s₃, takes₃, isLast, -, rest⟩ := exists_takes_lexeme semicolon (fun _ _ => rfl)
    (rfl : lexeme ([';'] ++ tail) = (.mark .semicolon, 1)) (by simp)
  refine ⟨first, others ++ [string], last, s₃, ?_, isImport, ?_, isLast, rest⟩
  · simpa using takes₁.append (takes₂.append takes₃)
  · refine (List.forall_mem_map (P := (Kind.isPlain · = true))).1 ?_
    rw [List.map_append, kinds, List.map_singleton, isString]
    simp [Kind.isPlain]

/-- The tokens of an import of names in braces, up to its string. -/
theorem Scanner.exists_takes_importOfAll (names : List Name)
    (here : s.rest = (importOfAll names).toList ++ tail) :
    ∃ first opening tokens closing word s' count,
      s.Takes (first :: opening :: (tokens ++ [closing, word])) s' ∧
      first.kind = .keyword .importWord ∧ opening.kind = .mark .lBrace ∧
      (∀ t ∈ tokens, t.kind.isPlain = true) ∧ closing.kind = .mark .rBrace ∧
      word.kind = .identifier "from" ∧ s'.rest = List.replicate count ' ' ++ tail := by
  rw [importOfAll_eq, List.append_assoc, List.append_assoc, List.cons_append,
    ← List.nil_append (spaced _ ++ _)] at here
  obtain ⟨words, s₁, count, takes₁, kinds, rest⟩ := exists_takes_spaced 0 _ here
  obtain ⟨first, _, rfl, isImport, kinds⟩ := List.map_eq_cons_iff.1 kinds
  obtain ⟨opening, _, rfl, isOpening, kinds⟩ := List.map_eq_cons_iff.1 kinds
  obtain rfl := List.map_eq_nil_iff.1 kinds
  obtain ⟨tokens, s₂, count, takes₂, plain, rest⟩ := exists_takes_nameList names rest
  obtain ⟨words, s₃, count, takes₃, kinds, rest⟩ := exists_takes_spaced count _ rest
  obtain ⟨closing, _, rfl, isClosing, kinds⟩ := List.map_eq_cons_iff.1 kinds
  obtain ⟨word, _, rfl, isWord, kinds⟩ := List.map_eq_cons_iff.1 kinds
  obtain rfl := List.map_eq_nil_iff.1 kinds
  exact ⟨first, opening, tokens, closing, word, s₃, count, takes₁.append (takes₂.append takes₃),
    isImport, isOpening, List.forall_mem_map.1 plain, isClosing, isWord, rest⟩

/-- The last token that was taken ends where the scanner stands. -/
theorem Scanner.stop_of_takes (tokens : List Token) {last : Token}
    (takes : s.Takes (tokens ++ [last]) s') : last.span.stop = s'.position.offset := by
  induction tokens generalizing s with
  | nil =>
    cases takes with
    | cons _ others =>
      cases others
      rfl
  | cons t tokens ih =>
    cases takes with
    | cons _ others => exact ih others

/-- A first token without a gap before it. -/
theorem Scanner.Takes.place_of_solid {text : String} {first : Token} {tokens : List Token}
    (takes : (Scanner.ofText text).Takes (first :: tokens) s') (solid : gapLength text.toList = 0) :
    first.span.start = 0 ∧ first.span.line = 1 ∧ first.span.column = 1 := by
  cases takes with
  | cons _ _ =>
    simp only [next, ofText, solid]
    exact ⟨rfl, rfl, rfl⟩

/-- Scanners with the same text left take the same tokens, each at its own place. -/
theorem Scanner.tokensAfter_twin (same : s.rest = s'.rest) :
    List.Forall₂ Token.Twin (s.tokensAfter []) (s'.tokensAfter []) := by
  induction left : s.rest.length using Nat.strong_induction_on generalizing s s' with
  | _ n ih =>
    have twin : s.next.1.Twin s'.next.1 := by
      refine ⟨?_, ?_, s.next_isSpelled⟩ <;> simp only [next, same]
    rw [tokensAfter_nil s, tokensAfter_nil s', ← twin.kind]
    refine .cons twin ?_
    split
    · exact .nil
    · next more =>
      refine ih _ (left ▸ Scanner.next_shorter more) ?_ rfl
      simp only [next, same]

/-! ## Reading imports -/

namespace Grammar

variable {s : Stream} {t next : Token} {tokens skipped : List Token} {stop depth : Nat}

/-- Some tokens later there are fewer left. -/
theorem left_lt_left {s' : Stream} (skipped : List Token) {stop' : Nat}
    (holds : s.Holds (t :: (skipped ++ tokens)) stop) (behind : s'.Holds tokens stop') :
    s'.left < s.left := by
  have before := holds.left
  have after := behind.left
  rw [List.length_cons, List.length_append] at before
  omega

/-- After a token comes the next one. -/
theorem holds_advance (holds : s.Holds (t :: (skipped ++ next :: tokens)) stop) :
    s.advance.Holds (skipped ++ next :: tokens) t.span.stop := by
  cases skipped with
  | nil => exact holds.advance
  | cons => exact holds.advance

section

variable (plain : ∀ t ∈ skipped, t.kind.isPlain = true)

include plain

/-- Plain tokens are skipped. -/
theorem skip_plain (depth : Nat) (holds : s.Holds (skipped ++ next :: tokens) stop) :
    ∃ s' stop', s'.Holds (next :: tokens) stop' ∧
      rounds skippedRound depth s = rounds skippedRound depth s' := by
  induction skipped generalizing s stop with
  | nil => exact ⟨s, stop, holds, rfl⟩
  | cons t skipped ih =>
    obtain ⟨first, others⟩ := List.forall_mem_cons.1 plain
    have onwards := holds_advance holds
    have fewer : s.advance.left < s.left := left_lt_left [] holds onwards
    obtain ⟨s', stop', here, same⟩ := ih others onwards
    have skipped : skippedRound depth s = .ok (.more depth, s.advance) := by
      rw [skippedRound, bind_of_ok (rfl : current s = .ok (s.current, s)), holds.current]
      generalize t.kind = k at first
      cases k with
      | mark m => cases m <;> first | rfl | cases first
      | eof => cases first
      | _ => rfl
    exact ⟨s', stop', here, (rounds_of_more skipped fewer).trans same⟩

/-- What is skipped ends at a semicolon outside of braces. -/
theorem skip_to_semicolon (isSemicolon : t.kind = .mark .semicolon)
    (holds : s.Holds (skipped ++ t :: next :: tokens) stop) :
    ∃ s', rounds skippedRound 0 s = .ok ((), s') ∧ s'.Holds (next :: tokens) t.span.stop := by
  obtain ⟨s', stop', here, same⟩ := skip_plain plain 0 holds
  refine ⟨s'.advance, ?_, here.advance⟩
  rw [same, rounds_of_done]
  rw [skippedRound, bind_of_ok (rfl : current s' = .ok (s'.current, s')), here.current, isSemicolon]
  rfl

/-- What is skipped ends at the brace that closes the first one. -/
theorem skip_braces {opening : Token} (isOpening : opening.kind = .mark .lBrace)
    (isClosing : t.kind = .mark .rBrace)
    (holds : s.Holds (opening :: (skipped ++ t :: next :: tokens)) stop) :
    ∃ s', rounds skippedRound 0 s = .ok ((), s') ∧ s'.Holds (next :: tokens) t.span.stop := by
  have onwards := holds_advance holds
  have fewer : s.advance.left < s.left := left_lt_left [] holds onwards
  have opened : skippedRound 0 s = .ok (.more 1, s.advance) := by
    rw [skippedRound, bind_of_ok (rfl : current s = .ok (s.current, s)), holds.current, isOpening]
    rfl
  obtain ⟨s', stop', here, same⟩ := skip_plain plain 1 onwards
  refine ⟨s'.advance, ?_, here.advance⟩
  rw [rounds_of_more opened fewer, same, rounds_of_done]
  rw [skippedRound, bind_of_ok (rfl : current s' = .ok (s'.current, s')), here.current, isClosing]
  rfl

end

/-- An import is skipped, and only its place is kept. -/
theorem statement_import (level : Level) {s' : Stream} (here : s.current = t)
    (isImport : t.kind = .keyword .importWord)
    (ended : rounds skippedRound 0 s.advance = .ok ((), s')) :
    statement level s = .ok (.skipped "import declaration"
      ⟨t.span.start, max s'.previousStop t.span.start, t.span.line, t.span.column⟩, s') := by
  subst here
  have skipped : statement level s = skippedStatement "import declaration" s := by
    rw [statement, bind_of_ok (rfl : current s = .ok (s.current, s)), isImport]
  rw [skipped, Grammar.skippedStatement, bind_of_ok (rfl : current s = .ok (s.current, s)),
    bind_of_ok (rfl : advance s = .ok ((), s.advance)), bind_of_ok ended]
  rfl

/-- A name is no statement when a string follows it in the same line. -/
theorem statement_of_name_and_string (depth : Nat) {word string : Token} {name value : String}
    (holds : s.Holds (word :: string :: tokens) stop) (isName : word.kind = .identifier name)
    (isString : string.kind = .string value) (line : string.newlineBefore = false) :
    statement (Level.ofDepth (depth + 2)) s = .error
      ⟨.unexpected (.string value) .semicolon, string.span.line, string.span.column⟩ := by
  have plain : statement (Level.ofDepth (depth + 2)) s =
      expressionStatement (Level.ofDepth (depth + 2)) s := by
    rw [statement, bind_of_ok (rfl : current s = .ok (s.current, s)), holds.current, isName]
  let atom : Atom := ⟨word, .identifier ⟨name, word.span⟩, by rw [atom?, isName]⟩
  have ends : string.extendsExpression = false := by
    simp [Token.extendsExpression, Token.extendsOperand, isString, operator?, assignOp?, updateOp?]
  have alone : s.Holds (atom.token :: (chainTokens [] ++ string :: tokens)) stop := holds
  obtain ⟨_, s', -, -, read, onwards⟩ := expression_of_chain (Level.ofDepth (depth + 1))
    (Level.ofDepth depth) ends rfl alone
  have refused : endOfStatement s' = .error
      ⟨.unexpected (.string value) .semicolon, string.span.line, string.span.column⟩ := by
    have here := onwards.current
    rw [endOfStatement, bind_of_ok ((accept_apply _ _).trans (if_neg (by simp [here, isString]))),
      if_neg Bool.false_ne_true, bind_of_ok (rfl : current s' = .ok (s'.current, s')),
      if_neg (by simp [here, isString, line]), unexpected,
      bind_of_ok (rfl : current s' = .ok (s'.current, s')), refuse, here, isString]
  have read : (Level.ofDepth (depth + 2)).expression s = .ok (_, s') := read
  rw [plain, expressionStatement, bind_of_ok (rfl : current s = .ok (s.current, s)),
    bind_of_ok read, bind_of_error refused]

/-- One turn of a list of statements at the start of one. -/
theorem statementsRound_of_statement {level : Level} (body : List Stmt)
    (starts : s.current.kind ≠ .eof ∧ s.current.kind ≠ .mark .semicolon) :
    statementsRound level (· = .eof) body s =
      (level.statement >>= fun st => pure (.more (st :: body))) s := by
  obtain ⟨notLast, notSemicolon⟩ := starts
  rw [statementsRound, bind_of_ok (rfl : current s = .ok (s.current, s)),
    if_neg (by simp [notLast]), if_neg notLast]
  show (accept (.mark .semicolon) >>= _) s = _
  rw [bind_of_ok ((accept_apply _ _).trans (if_neg notSemicolon)), if_neg Bool.false_ne_true]

/-- Statements that were read so far, the last of them first: there is one more in the second
    place, which was read before the others. -/
def Behind (k : Nat) (earliest : Stmt) (a b : List Stmt) : Prop :=
  ∃ c, b = c ++ [earliest] ∧ List.Forall₂ (Stmt.Twin k) a c

theorem Behind.cons {k : Nat} {earliest x y : Stmt} {a b : List Stmt} :
    Behind k earliest a b → Stmt.Twin k x y → Behind k earliest (x :: a) (y :: b) := by
  rintro ⟨c, rfl, twins⟩ more
  exact ⟨y :: c, rfl, .cons more twins⟩

section

variable {level : Level} {s₁ : Stream} {st : Stmt}
  (starts : s.current.kind ≠ .eof ∧ s.current.kind ≠ .mark .semicolon)
  (first : level.statement s = .ok (st, s₁)) (fewer : s₁.left < s.left)
include starts first fewer

theorem rounds_after (body : List Stmt) : rounds (statementsRound level (· = .eof)) body s =
    rounds (statementsRound level (· = .eof)) (st :: body) s₁ := by
  refine rounds_of_more ?_ fewer
  rw [statementsRound_of_statement body starts, bind_of_ok first]
  rfl

/-- After a first statement, the others are those of a twin of what is left. -/
theorem statements_after {k : Nat} (sound : level.IsSound k) {u u' : Stream} {body : List Stmt}
    (twin : u.Twin s₁) (others : statements level (· = .eof) u = .ok (body, u')) :
    ∃ body' s', statements level (· = .eof) s = .ok (st :: body', s') ∧
      List.Forall₂ (Stmt.Twin k) body body' := by
  rw [Grammar.statements] at others ⊢
  obtain ⟨before, u₁, read, done⟩ := exists_of_bind_ok others
  cases done
  -- the lists are built up from the end, so the first statement stays last
  obtain ⟨_, s', read', ⟨c, rfl, twins⟩, -⟩ := Agrees.rounds (P := Behind k st) (b := [st])
    (fun a b behind => statementsRound_agrees sound _ .cons behind) ⟨[], rfl, .nil⟩ twin read
  refine ⟨c.reverse, s', ?_, List.rel_reverse twins⟩
  rw [bind_of_ok ((rounds_after starts first fewer []).trans read'), List.reverse_append]
  rfl

/-- A second statement is refused. -/
theorem statements_refused {refusal : Refusal}
    (starts₁ : s₁.current.kind ≠ .eof ∧ s₁.current.kind ≠ .mark .semicolon)
    (refused : level.statement s₁ = .error refusal) :
    statements level (· = .eof) s = .error refusal := by
  have again : statementsRound level (· = .eof) [st] s₁ = .error refusal := by
    rw [statementsRound_of_statement [st] starts₁, bind_of_error refused]
  rw [Grammar.statements,
    bind_of_error ((rounds_after starts first fewer []).trans (rounds_of_error again))]

end

end Grammar

/-! ## Programs that start with an import -/

open Grammar

open String (utf8Len)

/-- A program is the statements of its text. -/
theorem Program.read_eq_map (text : String) : Program.read text =
      (statements (Level.ofDepth maxNesting) (· = .eof) (Stream.ofText text)).map fun result =>
        let start := (Stream.ofText text).current.span
        ⟨result.1, { start with stop := max result.2.previousStop start.start }⟩ := by
  rw [read_eq, Program.reader, bind_of_ok (rfl : current _ = .ok _), bind_apply]
  cases statements (Level.ofDepth maxNesting) (· = .eof) (Stream.ofText text) <;> rfl

/-- A text and what is left of another one give twin streams. -/
theorem Stream.twin_of_rest {rest : String} {u : Stream} {stop : Nat}
    (left : s.rest = rest.toList) (holds : u.Holds (s.tokensAfter []) stop) :
    (Stream.ofText rest).Twin u := by
  have twins := Scanner.tokensAfter_twin (s := Scanner.ofText rest) left.symm
  rw [← holds.tokens, ← tokensOf, ← Stream.tokens_ofText] at twins
  cases twins with
  | cons current others => exact ⟨current, others⟩

/-- An import of one name is skipped through its semicolon, and the statements after it are those
    of the rest of the text. -/
theorem Program.exists_read_importOf (x : Name) (lit : StringLiteral) {rest : String} {p : Program}
    (accepted : Program.read rest = .ok p) :
    ∃ q body, Program.read (importOf x ++ lit.text ++ ";" ++ rest) = .ok q ∧
      q.body = .skipped "import declaration"
        ⟨0, utf8Len (importOf x ++ lit.text ++ ";").toList, 1, 1⟩ :: body ∧
      Stmt.unspannedAll body = Stmt.unspannedAll p.body := by
  generalize whole : importOf x ++ lit.text ++ ";" ++ rest = text
  have here : (Scanner.ofText text).rest =
      (importOf x).toList ++ (lit.text.toList ++ ';' :: rest.toList) := by
    simp [Scanner.ofText, ← whole]
  obtain ⟨first, tokens, last, s', takes, isImport, plain, isLast, left⟩ :=
    Scanner.exists_takes_importOf x lit here
  obtain ⟨next, others, after⟩ : ∃ next others, s'.tokensAfter [] = next :: others :=
    ⟨_, _, s'.tokensAfter_nil⟩
  have holds : (Stream.ofText text).Holds (first :: (tokens ++ last :: next :: others)) 0 := by
    refine ⟨?_, rfl⟩
    rw [Stream.tokens_ofText, tokensOf, takes.tokensAfter_eq, after]
    simp
  have onwards := holds_advance holds
  obtain ⟨s₁, skipped, behind⟩ := skip_to_semicolon plain isLast onwards
  have read : (Level.ofDepth maxNesting).statement (Stream.ofText text) = .ok (_, s₁) :=
    statement_import (Level.ofDepth 199) holds.current isImport skipped
  have fewer : s₁.left < (Stream.ofText text).left :=
    left_lt_left (tokens ++ [last]) (by simpa using holds) behind
  obtain ⟨_, statements⟩ : ∃ u, statements (Level.ofDepth maxNesting) (· = .eof)
      (Stream.ofText rest) = .ok (p.body, u) := by
    rw [Program.read_eq_map] at accepted
    cases result : statements (Level.ofDepth maxNesting) (· = .eof) (Stream.ofText rest) with
    | error refusal =>
      rw [result] at accepted
      cases accepted
    | ok pair =>
      rw [result] at accepted
      cases accepted
      exact ⟨pair.2, rfl⟩
  obtain ⟨body, _, all, twins⟩ := statements_after (by simp [holds.current, isImport]) read fewer
    (Level.isSound_ofDepth maxNesting) (Stream.twin_of_rest left (after ▸ behind)) statements
  refine ⟨_, body, by rw [Program.read_eq_map, all]; rfl, ?_,
    (TreeTwin.all twins Stmt.unspannedAll fun _ _ => rfl).1.symm⟩
  have ended : s₁.previousStop = utf8Len (importOf x ++ lit.text ++ ";").toList := by
    have split : text.toList = (importOf x ++ lit.text ++ ";").toList ++ rest.toList := by
      rw [← whole, String.toList_append]
    have gapless : s'.rest = List.replicate 0 ' ' ++ rest.toList := left
    have place := takes.position_eq split gapless
    rw [behind.stop, Scanner.stop_of_takes (first :: tokens) takes]
    exact (congrArg Position.offset place).trans
      (congrArg Position.offset (Position.afterAll_start _))
  have solid : gapLength text.toList = 0 := by
    rw [show text.toList = _ from here, importOf, String.toList_append, String.toList_append,
      List.append_assoc, List.append_assoc]
    exact congrArg Prod.fst (isSolid_cons _ (by decide) (by decide) 0 false)
  obtain ⟨start, line, column⟩ := takes.place_of_solid solid
  rw [ended, start, line, column, Nat.max_zero]

/-- An import of names in braces is refused at its string. -/
theorem Program.read_importOfAll (names : List Name) (lit : StringLiteral) (rest : String) :
    Program.read (importOfAll names ++ lit.text ++ ";" ++ rest) =
      .error ⟨.unexpected (.string lit.value) .semicolon,
        (({} : Position).afterAll (importOfAll names).toList).line,
        (({} : Position).afterAll (importOfAll names).toList).column⟩ := by
  generalize whole : importOfAll names ++ lit.text ++ ";" ++ rest = text
  have here : (Scanner.ofText text).rest =
      (importOfAll names).toList ++ (lit.text.toList ++ ';' :: rest.toList) := by
    simp [Scanner.ofText, ← whole]
  obtain ⟨first, opening, tokens, closing, word, s', count, takes, isImport, isOpening, plain,
    isClosing, isWord, left⟩ := Scanner.exists_takes_importOfAll names here
  -- the string comes next
  obtain ⟨isString, line, -⟩ := Scanner.next_lexeme count left (lit.isSolid _)
    (lit.lexeme_text _)
  have after : s'.tokensAfter [] = s'.next.1 :: s'.next.2.tokensAfter [] := by
    rw [s'.tokensAfter_nil, if_neg (by simp [isString])]
  have holds : (Stream.ofText text).Holds (first :: ((opening :: tokens) ++ closing :: word ::
      s'.next.1 :: s'.next.2.tokensAfter [])) 0 := by
    refine ⟨?_, rfl⟩
    rw [Stream.tokens_ofText, tokensOf, takes.tokensAfter_eq, after]
    simp
  have onwards := holds_advance holds
  obtain ⟨s₁, skipped, behind⟩ := skip_braces plain isOpening isClosing onwards
  have read : (Level.ofDepth maxNesting).statement (Stream.ofText text) = .ok (_, s₁) :=
    statement_import (Level.ofDepth 199) holds.current isImport skipped
  have fewer : s₁.left < (Stream.ofText text).left :=
    left_lt_left (opening :: tokens ++ [closing]) (by simpa using holds) behind
  have refused : (Level.ofDepth maxNesting).statement s₁ = _ :=
    statement_of_name_and_string 197 behind isWord isString line
  have place : s'.position.afterAll (s'.rest.take (gapLength s'.rest)) =
      ({} : Position).afterAll (importOfAll names).toList := by
    rw [(Scanner.gap_of_blanks count left (lit.isSolid _)).1, left,
      List.take_left' List.length_replicate]
    exact takes.position_eq here left
  rw [Program.read_eq_map, statements_refused (by simp [holds.current, isImport]) read fewer
    (by simp [behind.current, isWord]) refused, ← place]
  rfl

/-- An import of one name is one statement that ends at its semicolon, and the statements after
    it are those of the rest of the text.  An import of names in braces is refused at its string,
    whatever the names are, and whatever follows. -/
theorem Program.imports_end_at_braces (x : Name) (names : List Name) (lit : StringLiteral)
    (rest : String) :
    (∀ p, Program.read rest = .ok p →
      ∃ q body, Program.read (importOf x ++ lit.text ++ ";" ++ rest) = .ok q ∧
        q.body = .skipped "import declaration"
          ⟨0, utf8Len (importOf x ++ lit.text ++ ";").toList, 1, 1⟩ :: body ∧
        Stmt.unspannedAll body = Stmt.unspannedAll p.body) ∧
    Program.read (importOfAll names ++ lit.text ++ ";" ++ rest) =
      .error ⟨.unexpected (.string lit.value) .semicolon,
        (({} : Position).afterAll (importOfAll names).toList).line,
        (({} : Position).afterAll (importOfAll names).toList).column⟩ :=
  ⟨fun _ => Program.exists_read_importOf x lit, Program.read_importOfAll names lit rest⟩

/-- The name `a`, and a string with one character. -/
theorem Program.imports_end_at_braces_of_one :
    ∃ p q body, Program.read "f(1);" = .ok p ∧
      Program.read "import a from \"m\";f(1);" = .ok q ∧
      q.body = .skipped "import declaration" ⟨0, 18, 1, 1⟩ :: body ∧
      Stmt.unspannedAll body = Stmt.unspannedAll p.body := by
  obtain ⟨p, accepted, -⟩ := Program.exists_read
    (by decide +kernel : ∃ p ∈ (Program.read "f(1);").toOption, p.body.length = 1)
  obtain ⟨q, body, read, same⟩ := (Program.imports_end_at_braces ⟨"a", by decide, by decide⟩ []
    ⟨'"', ['m', '"'], "m", .inl rfl, by decide⟩ "f(1);").1 p accepted
  exact ⟨p, q, body, accepted, read, same⟩

/-- Imports of names in braces are not skipped as a whole. -/
theorem Program.import_of_names_is_refused :
    ¬ ∀ (names : List Name) (lit : StringLiteral) (rest : String) (p : Program),
      Program.read rest = .ok p →
      ∃ q span body, Program.read (importOfAll names ++ lit.text ++ ";" ++ rest) = .ok q ∧
        q.body = .skipped "import declaration" span :: body := by
  intro all
  obtain ⟨p, accepted, -⟩ := Program.exists_read
    (by decide +kernel : ∃ p ∈ (Program.read "").toOption, p.body.length = 0)
  obtain ⟨q, _, _, read, -⟩ := all [⟨"a", by decide, by decide⟩]
    ⟨'"', ['m', '"'], "m", .inl rfl, by decide⟩ "" p accepted
  rw [Program.read_importOfAll] at read
  cases read

end SourceMachine
