import SourceMachine.Proofs.Program.OneExpression
import SourceMachine.Proofs.Session.Leftovers
import SourceMachine.Proofs.Session.Served
import SourceMachine.Proofs.Value.Rendering

/-!
# String literals

What `stringify` writes for a string value is a string literal: its text is a single token that
stands for the string (`tokensOf_quoted`), and as a program it comes to the string
(`eval_of_literal`).
-/

namespace SourceMachine

open String (utf8Len utf8Len_toList)

/-! ## The text of a string value -/

/-- A line feed is not written as it is. -/
theorem not_mem_quoteChar (c : Char) : '\n' ∉ quoteChar c := by
  unfold quoteChar
  split_ifs with quote backslash newline tab
  · decide
  · decide
  · decide
  · decide
  · rw [List.mem_singleton]
    exact fun same => newline same.symm

theorem not_mem_quoted (s : String) : '\n' ∉ (quoted s).toList := by
  rw [quoted, String.toList_ofList, List.mem_cons, List.mem_append, List.mem_singleton,
    List.mem_flatMap]
  rintro (first | ⟨c, -, inside⟩ | last)
  · cases first
  · exact not_mem_quoteChar c inside
  · cases last

theorem currentLine_of_not_mem {cs : List Char} (inside : '\n' ∉ cs) : currentLine cs = cs := by
  have all : ∀ c ∈ cs.reverse, decide (c ≠ '\n') = true := by
    intro c member
    refine decide_eq_true ?_
    rintro rfl
    exact inside (List.mem_reverse.1 member)
  rw [currentLine, List.takeWhile_eq_self_iff.2 all, List.reverse_reverse]

/-- The place after a text of one line. -/
theorem Position.afterAll_line {cs : List Char} (inside : '\n' ∉ cs) :
    ({} : Position).afterAll cs = ⟨utf8Len cs, 1, .ofNat (1 + cs.length)⟩ := by
  rw [afterAll_start, List.count_eq_zero_of_not_mem inside, currentLine_of_not_mem inside]
  rfl

/-! ## Its token -/

/-- The one token of the text of a string value. -/
def stringToken (s : String) : Token :=
  ⟨.string s, ⟨0, (quoted s).utf8ByteSize, 1, 1⟩, false⟩

/-- The end of the text of a string value. -/
def endAfterString (s : String) : Token :=
  ⟨.eof, ⟨(quoted s).utf8ByteSize, (quoted s).utf8ByteSize, 1, .ofNat (1 + (quoted s).length)⟩,
    false⟩

theorem Scanner.next_quoted (s : String) : (Scanner.ofText (quoted s)).next =
      (stringToken s, ⟨[], ({} : Position).afterAll (quoted s).toList, false⟩) := by
  have gap : gapFrom 0 false .blank (quoted s).toList = (0, false) := by
    rw [quoted, String.toList_ofList]
    exact isSolid_cons _ (by decide) (by decide) 0 false
  have found := lexeme_quoted s []
  rw [List.append_nil] at found
  have place := Position.afterAll_line (not_mem_quoted s)
  simp only [Scanner.next, Scanner.ofText, gapLength, gapNewline, gap, List.take_zero,
    List.drop_zero, found, List.take_length, List.drop_length, Position.afterAll_nil, place,
    utf8Len_toList]
  rfl

theorem tokensOf_quoted (s : String) : tokensOf (quoted s) = [stringToken s, endAfterString s] := by
  have place := Position.afterAll_line (not_mem_quoted s)
  rw [tokensOf, Scanner.tokensAfter_nil, Scanner.next_quoted, if_neg (by simp [stringToken]),
    Scanner.tokensAfter_nil, place, utf8Len_toList, String.length_toList]
  rfl

/-! ## Its value -/

theorem exists_of_unspanned_literal {e : Expr} {value : Literal}
    (same : e.unspanned = .literal value {}) : ∃ span, e = .literal value span := by
  cases e with
  | literal value' span =>
    cases same
    exact ⟨span, rfl⟩
  | _ => simp [Expr.unspanned] at same

open Outline in
/-- The text of a string value is a program that is a literal. -/
theorem Program.exists_of_quoted (s : String) : ∃ p span span', Program.read (quoted s) = .ok p ∧
      p.body = [.expression (.literal (.string s) span) span'] := by
  have tokens : (tokensOf (quoted s)).map (fun t => (t.kind, t.newlineBefore)) =
      ([Word.string s].map Word.kind ++ [Kind.eof]).map fun k => (k, false) := by
    rw [tokensOf_quoted]
    rfl
  have reads := (Outline.Expr.reads (.string s)).expression (maxNesting - 1)
  obtain ⟨p, e, span, accepted, body, same⟩ :=
    Program.exists_of_expression tokens ⟨_, _, rfl, rfl⟩ reads
      (by show 0 + 2 ≤ maxNesting - 1; decide)
  obtain ⟨span', rfl⟩ := exists_of_unspanned_literal same
  exact ⟨p, span', span, accepted, body⟩

namespace Machine

open Config in
/-- A program that is a literal comes to its value, if there is room for a stack at all. -/
theorem runToEnd_of_literal {m : Machine} {p : Program} {value : Literal} {span span' : Span}
    (room : 0 < m.maxDepth) (body : p.body = [.expression (.literal value span) span']) :
    ∃ m', (m.load p).runToEnd = (.finished value.value, m') := by
  obtain ⟨h, hoisted⟩ : ∃ h, m.declareProgram p = (.ok (), h) := by
    rw [declareProgram, body]
    exact ⟨_, rfl⟩
  have config : m.programConfig p h = ⟨.statement (.expression (.literal value span) span'),
      m.programEnv, .initial, m.world.withHeap h⟩ := by
    rw [programConfig, body]
    rfl
  have started : (m.load p).Comes 1 _ := config ▸ comes_load hoisted (by rw [config]; exact room)
  have executed := started.step (y := ⟨.expression (.literal value span), _, _, _⟩)
    ⟨not_isFinal_statement, fun _ => rfl⟩ room
  have evaluated := executed.step (y := ⟨.value value.value, _, _, _⟩)
    ⟨not_isFinal_expression, fun _ => rfl⟩ room
  obtain ⟨m', ran⟩ := evaluated.finished rfl rfl
  exact ⟨_, (runToEnd_of_run ran (by simp)).2⟩

end Machine

/-- **String literals.**  For every string, `stringify` writes a text that is one token and then
    its end: the token stands for the string and reaches over the whole text.  Evaluated as a
    program, on any machine whose preludes run through and that has room for a stack, the text
    gives back the string. -/
theorem string_literals_round_trip (s : String) (w : World) :
    ∃ text, Native.stringify.call [.string s] w = (.ok (.string text), w) ∧
      tokensOf text =
        [⟨.string s, ⟨0, text.utf8ByteSize, 1, 1⟩, false⟩,
          ⟨.eof, ⟨text.utf8ByteSize, text.utf8ByteSize, 1, .ofNat (1 + text.length)⟩, false⟩] ∧
      ∀ m : Machine, m.runPreludes.1 = .ok () → 0 < m.runPreludes.2.maxDepth →
        ∃ m', m.eval text none = (.finished (.string s), m') := by
  refine ⟨quoted s, ?_, tokensOf_quoted s, fun m complete room => ?_⟩
  · show (Except.ok (Value.string ((Value.string s).text w.heap)), w) = _
    rw [Value.text_string]
  · obtain ⟨p, span, span', accepted, body⟩ := Program.exists_of_quoted s
    rw [Machine.eval_of_read complete accepted]
    exact Machine.runToEnd_of_literal room body

/-- A string with quotes, backslashes before letters and control characters, written and
    evaluated on a new machine. -/
theorem string_literals_round_trip_of_escapes :
    ∃ text, Native.stringify.call [.string "\\n\"\n\t\\u0041\r\x00"] {} = (.ok (.string text), {}) ∧
      (Machine.new {} Table.standard {}).runPreludes.1 = .ok () ∧
      0 < (Machine.new {} Table.standard {}).runPreludes.2.maxDepth ∧
      ∃ m', (Machine.new {} Table.standard {}).eval text none =
        (.finished (.string "\\n\"\n\t\\u0041\r\x00"), m') := by
  obtain ⟨text, written, -, evaluates⟩ :=
    string_literals_round_trip "\\n\"\n\t\\u0041\r\x00" {}
  obtain ⟨loaded, loads⟩ : ∃ loaded, Loads {} Table.standard {} loaded :=
    Loads.exists_standard rfl rfl (by decide)
  have limit := loads.maxDepth_eq
  have ran := loads.ran
  refine ⟨text, written, ?_⟩
  generalize Machine.new {} Table.standard {} = start at ran
  have complete : start.runPreludes.1 = .ok () := by rw [ran]
  have room : 0 < start.runPreludes.2.maxDepth := by
    rw [ran, limit]
    decide
  exact ⟨complete, room, evaluates start complete room⟩

end SourceMachine
