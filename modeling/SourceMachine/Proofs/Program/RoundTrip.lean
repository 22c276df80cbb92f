import SourceMachine.Proofs.Program.Phrases

/-!
# Reading what was written

The written form of an outline is read back as its tree, whatever follows it, if the levels
suffice; otherwise it is refused as nested too deep.  There is one lemma for each kind of
expression and of statement (`Expr.Reads`, `Stmt.Reads`), and they meet in one induction
over outlines (`Expr.reads`, `Stmt.reads`).
-/

namespace SourceMachine

open Reader Grammar

variable {body : List Stmt} {ps : Params} {a : Else} {args : List Expr} {k : Kind} {level : Level}
  {s : Stream} {value : Literal} {w : Word} {x : Name}

/-- The literal that a word stands for. -/
def Word.literal? : Word → Option Literal
  | .keyword .nullWord => some .null
  | .keyword .trueWord => some (.boolean true)
  | .keyword .falseWord => some (.boolean false)
  | .number numeral => some (.number numeral.value)
  | .string text => some (.string text)
  | _ => none

namespace Outline

/-! ## First words -/

/-- An expression that stands by itself starts with one of these tokens. -/
def opensExpression : Kind → Bool
  | .number _ | .string _ | .identifier _ | .mark .lParen => true
  | .keyword .nullWord | .keyword .trueWord | .keyword .falseWord => true
  | _ => false

theorem Expr.opens (e : Expr) : Opens e.words opensExpression := by
  cases e with
  | boolean value => cases value <;> exact ⟨_, _, rfl, rfl⟩
  | _ => exact ⟨_, _, rfl, rfl⟩

theorem opensOperand_of_opensExpression (opens : opensExpression k = true) :
    opensOperand k = true := by
  cases k with
  | keyword word => cases word <;> first | rfl | cases opens
  | mark m => cases m <;> first | rfl | cases opens
  | eof | invalid c | template text => cases opens
  | _ => rfl

theorem Expr.opensOperand (e : Expr) : Opens e.words Grammar.opensOperand :=
  e.opens.mono fun _ => opensOperand_of_opensExpression

theorem opensStatement_of_opensExpression (opens : opensExpression k = true) :
    Grammar.opensStatement k = true := by
  rw [opensStatement_iff]
  refine ⟨?_, ?_, ?_, ?_⟩ <;> rintro rfl <;> cases opens

theorem Expr.opensStatement (e : Expr) : Opens e.words Grammar.opensStatement :=
  e.opens.mono fun _ => opensStatement_of_opensExpression

theorem Stmt.opens (s : Stmt) : Opens s.words Grammar.opensStatement := by
  cases s with
  | declaration kind => cases kind <;> exact ⟨_, _, rfl, rfl⟩
  | expression e => exact e.opensStatement.append _
  | _ => exact ⟨_, _, rfl, rfl⟩

theorem isInner_parens (words rest : List Word) : IsInner (parens words ++ rest) := by
  cases words with
  | nil => exact ⟨.mark .lParen, .mark .rParen, rest, rfl, rfl⟩
  | cons w words => exact ⟨.mark .lParen, w, _, rfl, rfl⟩

/-- An expression before a mark that is neither a comma nor a parenthesis does not start
    parameters. -/
theorem Expr.isInner (e : Expr) {m : Mark} (rest : List Word)
    (other : m ≠ .comma ∧ m ≠ .rParen) : IsInner (e.words ++ .mark m :: rest) := by
  cases e with
  | null | number | string => exact ⟨_, _, _, rfl, rfl⟩
  | boolean value => cases value <;> exact ⟨_, _, _, rfl, rfl⟩
  | identifier x =>
    refine ⟨.name x, .mark m, rest, rfl, ?_⟩
    obtain ⟨notComma, notParen⟩ := other
    cases m <;> first | rfl | contradiction
  | _ => exact isInner_parens _ _

/-! ## Blocks -/

theorem map_eq_map_of_forall₂ {α β γ : Type} {f : β → γ} {g : α → γ} {xs : List α} {ys : List β}
    (each : List.Forall₂ (fun x y => f y = g x) xs ys) : ys.map f = xs.map g := by
  induction each with
  | nil => rfl
  | cons same _ ih => rw [List.map_cons, List.map_cons, same, ih]

/-- The statement is read back at every depth, and needs as many levels as it is nested. -/
def Stmt.Reads (s : Stmt) : Prop :=
  ∀ depth, Gives (Level.ofDepth depth).statement s.words endsStatement (s.nesting ≤ depth)
    (·.unspanned = s.tree)

theorem block_reads (all : ∀ s ∈ body, s.Reads) (depth : Nat) :
    Gives (Grammar.block (Level.ofDepth depth)) (braces (Stmt.wordsOfAll body)) (fun _ => true)
      (Stmt.nestingOfAll body ≤ depth) (·.unspanned = ⟨Stmt.trees body, {}⟩) := by
  have read := block_of_all (fun s _ => s.opens) fun s member => all s member depth
  rw [Stmt.wordsOfAll_eq_flatMap]
  refine (read.congr rfl Stmt.nestingOfAll_le_iff).mono fun b each => ?_
  obtain ⟨found, span⟩ := b
  rw [Block.unspanned, Stmt.unspannedAll_eq_map, map_eq_map_of_forall₂ each, Stmt.trees_eq_map]

/-! ## Expressions -/

theorem primary_of_literal (is : w.literal? = some value) (here : s.current.kind = w.kind) :
    primary level s = .ok (.literal value s.current.span, s.advance) := by
  obtain ⟨⟨kind, span, newline⟩, rest, stop, left, left_eq⟩ := s
  cases here
  cases w with
  | keyword word => cases word <;> cases is <;> rfl
  | mark | name => cases is
  | number | string =>
    cases is
    rfl

/-- The expression is read back at every depth, and needs as many levels as it is nested. -/
def Expr.Reads (e : Expr) : Prop :=
  ∀ depth, Gives (primary (Level.ofDepth depth)) e.words endsPrimary (e.nesting ≤ depth)
    (·.unspanned = e.tree)

namespace Expr.Reads

variable {e : Expr}

theorem operand (reads : e.Reads) (depth : Nat) :
    Gives (Level.ofDepth depth).operand e.words endsOperand (e.nesting + 1 ≤ depth)
      (·.unspanned = e.tree) := by
  refine Gives.operand (fun depth => ?_) depth
  exact operand_of_call e.opensOperand (callExpression_of_primary e.opensOperand (reads depth))

theorem expression (reads : e.Reads) (depth : Nat) :
    Gives (Level.ofDepth depth).expression e.words endsExpression (e.nesting + 2 ≤ depth)
      (·.unspanned = e.tree) := by
  refine Gives.expression (fun depth => ?_) depth
  exact expression_of_binary (binary_of_operand (reads.operand depth))

section

variable {words : List Word} (written : e.words = parens words) {n : Nat}

include written

/-- What is read as an expression is read in parentheses with one more level. -/
theorem of_inner (counted : e.nesting = n + 1) (inner : IsInner words)
    (reads : ∀ depth, Gives (Grammar.expression (Level.ofDepth depth)) words endsExpression
      (n ≤ depth) (·.unspanned = e.tree)) : e.Reads := by
  intro depth
  rw [written, counted]
  exact primary_of_inner inner (Gives.expression reads depth)

/-- What is read as an operand is an expression too, with one more level. -/
theorem of_operand (counted : e.nesting = n + 2) (inner : IsInner words)
    (reads : ∀ depth, Gives (Grammar.operand (Level.ofDepth depth)) words endsOperand (n ≤ depth)
      (·.unspanned = e.tree)) : e.Reads := by
  refine of_inner written counted inner fun depth => ?_
  refine expression_of_binary (binary_of_operand ?_)
  exact Gives.operand reads depth

theorem of_primary (counted : e.nesting = n + 2) (inner : IsInner words)
    (opens : Opens words Grammar.opensOperand)
    (reads : ∀ depth, Gives (primary (Level.ofDepth depth)) words (fun _ => true) (n ≤ depth)
      (·.unspanned = e.tree)) : e.Reads := by
  refine of_operand written counted inner fun depth => ?_
  exact operand_of_call opens (callExpression_of_primary opens
    ((reads depth).of_ends fun _ _ => rfl))

end

theorem unary {op : UnaryOp} (operand : e.Reads) : (Expr.unary op e).Reads := by
  refine of_operand rfl rfl ?_ fun depth => operand_of_unary (operand.operand depth) ?_
  · obtain ⟨w, rest, eq, -⟩ := e.opens
    exact ⟨_, w, rest, by rw [eq], by cases op <;> rfl⟩
  · intro a span same
    rw [Expr.unspanned, same, Expr.tree]

theorem binary {op : Operator} {l r : Expr} (left : l.Reads) (right : r.Reads) :
    (Expr.binary op l r).Reads := by
  refine of_inner (n := max l.nesting r.nesting + 1) rfl rfl ?_ fun depth => ?_
  · refine l.isInner _ ?_
    cases op with
    | binary op => cases op <;> decide
    | logical op => cases op <;> decide
  · refine expression_of_binary ?_
    refine (binary_of_join (left.operand depth) (right.operand depth) ?_).congr rfl (by omega)
    intro a b span first second
    rw [unspanned_join, first, second]
    cases op <;> rfl

theorem conditional {t c a : Expr} (test : t.Reads) (consequent : c.Reads) (alternate : a.Reads) :
    (Expr.conditional t c a).Reads := by
  refine of_inner (n := max t.nesting (max c.nesting a.nesting + 1) + 1) rfl rfl
    (t.isInner _ (by decide)) fun depth => ?_
  refine expression_of_conditional ?_
  refine (conditional_of_branches (binary_of_operand (test.operand depth))
    (consequent.expression depth) (alternate.expression depth) ?_).congr rfl (by omega)
  intro x y z span first second third
  rw [Expr.unspanned, first, second, third, Expr.tree]

theorem assignment {op : AssignOp} {v : Expr} (target : (Expr.identifier x).Reads)
    (value : v.Reads) : (Expr.assignment op x v).Reads := by
  refine of_inner (n := v.nesting + 2) rfl rfl ⟨_, _, _, rfl, ?_⟩ fun depth => ?_
  · cases op <;> rfl
  · -- the name alone is read as an expression first, and then found to be a target
    have named : Gives (Grammar.conditional (Level.ofDepth depth)) [.name x] endsConditional
        (1 ≤ depth) fun e => ∃ id : Identifier, e = .identifier id ∧ id.name = x.text :=
      (conditional_of_binary (binary_of_operand (target.operand depth))).mono fun _ same =>
        Expr.eq_identifier_of_unspanned same
    refine (expression_of_assignment named (value.expression depth) ?_).congr rfl (by omega)
    intro id a span same same'
    rw [Expr.unspanned, Target.unspanned, Identifier.unspanned, same, same', Expr.tree,
      Outline.identifier]

theorem arguments (all : ∀ e ∈ args, e.Reads) (depth : Nat) :
    Gives (Grammar.arguments (Level.ofDepth depth))
      (separated (Expr.wordLists args) ++ [.mark .rParen]) (fun _ => true)
      (Expr.nestingOfAll args ≤ depth) (Expr.unspannedAll · = Expr.trees args) := by
  have read : Gives (commaList .rParen (Level.ofDepth depth).expression)
      (separated (args.map Expr.words) ++ [.mark .rParen]) (fun _ => true)
      (∀ e ∈ args, e.nesting + 2 ≤ depth)
      (List.Forall₂ (fun (e : Expr) t => t.unspanned = e.tree) args) := by
    refine .commaList (by decide) (fun e _ => e.opens.mono fun k opens => ?_) (by decide)
      fun e member => (all e member).expression depth
    rw [decide_eq_true_eq]
    rintro rfl
    cases opens
  rw [Expr.wordLists_eq_map]
  refine (read.congr rfl Expr.nestingOfAll_le_iff).mono fun as each => ?_
  rw [Expr.unspannedAll_eq_map, map_eq_map_of_forall₂ each, Expr.trees_eq_map]

theorem call {f : Expr} (callee : f.Reads) (all : ∀ e ∈ args, e.Reads) :
    (Expr.call f args).Reads := by
  refine of_operand (n := max f.nesting (Expr.nestingOfAll args)) rfl rfl
    (f.isInner _ (by decide)) fun depth => ?_
  refine operand_of_call (f.opensOperand.append _) ?_
  refine (callExpression_of_call f.opensOperand (callee depth) (arguments all depth) ?_).congr rfl
    max_le_iff
  intro e as span same each
  rw [Expr.unspanned, same, each, Expr.tree]

theorem function {name : Option Name} (all : ∀ s ∈ body, s.Reads) :
    (Expr.function name ps body).Reads := by
  refine of_primary rfl rfl ?_ ⟨.keyword .functionWord, _, rfl, rfl⟩ fun depth => ?_
  · cases name <;> exact ⟨_, _, _, rfl, rfl⟩
  · rw [Expr.tree]
    exact primary_of_function (block_reads all depth)

theorem arrow (all : ∀ s ∈ body, s.Reads) : (Expr.arrow ps body).Reads := by
  refine of_primary rfl rfl (isInner_parens _ _) ⟨.mark .lParen, _, rfl, rfl⟩ fun depth => ?_
  rw [Expr.tree]
  exact primary_of_arrow (block_reads all depth)

theorem identifier (x : Name) : (Expr.identifier x).Reads := by
  intro depth
  refine Gives.congr ?_ rfl (iff_of_true (Nat.zero_le depth) trivial)
  unfold primary
  refine .current (K := (· = .identifier x.text)) (.cons rfl) fun t here => ?_
  rw [here.1]
  refine .advance (.current (.nil fun k ended => of_decide_eq_true ended) fun t' next => ?_)
  rw [if_neg (by simp [next.1])]
  exact .pure rfl

theorem of_literal (is : w.literal? = some value) (written : e.words = [w]) (flat : e.nesting = 0)
    (built : e.tree = .literal value {}) : e.Reads := by
  intro depth s k kinds _ shows
  rw [written] at shows
  rw [flat, primary_of_literal is shows.kind, built]
  exact ⟨Nat.zero_le depth, rfl, shows.advance⟩

end Expr.Reads

/-! ## Statements -/

/-- The statement that follows `else`. -/
def Else.statement? : Else → Option Stmt
  | .nothing => none
  | .block body => some (.block body)
  | .conditional test consequent alternate => some (.conditional test consequent alternate)

theorem Else.words_of_none (none : a.statement? = none) :
    a.words = [] ∧ a.tree? = Option.none ∧ a.nesting = 0 := by
  cases a <;> cases none
  exact ⟨rfl, rfl, rfl⟩

theorem Else.words_of_some {s : Stmt} (some : a.statement? = some s) :
    a.words = .keyword .elseWord :: s.words ∧ a.tree? = Option.some s.tree ∧
      a.nesting = s.nesting := by
  cases a <;> cases some <;> exact ⟨rfl, rfl, rfl⟩

theorem statement_of_opensExpression (opens : opensExpression s.current.kind = true) :
    Grammar.statement level s = expressionStatement level s := by
  obtain ⟨⟨kind, span, newline⟩, rest, stop, left, left_eq⟩ := s
  cases kind with
  | keyword word => cases word <;> first | rfl | cases opens
  | mark m => cases m <;> first | rfl | cases opens
  | _ => rfl

namespace Stmt.Reads

theorem declaration {kind : DeclarationKind} {e : Expr} (init : e.Reads) :
    (Stmt.declaration kind x e).Reads := by
  refine Gives.statement fun depth => ?_
  have read : Gives (Grammar.declaration (Level.ofDepth depth) kind)
      (Stmt.declaration kind x e).words endsStatement (e.nesting + 2 ≤ depth)
      (·.unspanned = (Stmt.declaration kind x e).tree) := by
    unfold Grammar.declaration
    refine .start fun t => .advance (.identifier fun id named => .accept (w := .mark .eq) ?_)
    refine (init.expression depth).bind_flat (.cons (by decide)) fun a same => ?_
    refine .isNotAt (.cons (by simp)) (.endOfStatement (.spanFrom fun span => .pure ?_))
    rw [Stmt.unspanned, Identifier.unspanned, named, same, Stmt.tree, Outline.identifier]
  unfold Grammar.statement
  refine .current (K := (· = .keyword kind.keyword)) (.cons rfl) fun t here => ?_
  rw [here.1]
  cases kind <;> exact read

theorem function (all : ∀ s ∈ body, s.Reads) : (Stmt.function x ps body).Reads := by
  refine Gives.statement fun depth => ?_
  unfold Grammar.statement
  refine .current (K := (· = .keyword .functionWord)) (.cons rfl) fun t here => ?_
  rw [here.1]
  unfold functionDeclaration
  refine .start fun t => .advance ?_
  refine .current (K := (· = .identifier x.text)) (.cons rfl) fun t here => ?_
  rw [here.1]
  refine .identifier fun id named => ?_
  refine (functionRest_of_body (block_reads all depth)).bind_last (fun _ _ => rfl)
    fun f same => .pure ?_
  rw [Stmt.unspanned, same, Option.map_some, Identifier.unspanned, named, Stmt.tree,
    Outline.identifier]

theorem block_statement (all : ∀ s ∈ body, s.Reads) (depth : Nat) :
    Gives (Level.ofDepth depth).statement (Stmt.block body).words (fun _ => true)
      ((Stmt.block body).nesting ≤ depth) (·.unspanned = (Stmt.block body).tree) := by
  refine Gives.statement (fun depth => ?_) depth
  unfold Grammar.statement
  refine .current (K := (· = .mark .lBrace)) (.cons rfl) fun t here => ?_
  rw [here.1]
  refine (block_reads all depth).bind_last (fun _ _ => rfl) fun b same => .pure ?_
  rw [Stmt.unspanned, same, Stmt.tree]

theorem block (all : ∀ s ∈ body, s.Reads) : (Stmt.block body).Reads :=
  fun depth => (block_statement all depth).of_ends fun _ _ => rfl

theorem returns : Stmt.returns.Reads := by
  refine Gives.statement (n := 0) fun depth => ?_
  refine Gives.congr ?_ rfl (iff_of_true (Nat.zero_le depth) trivial)
  unfold Grammar.statement
  refine .current (K := (· = .keyword .returnWord)) (.cons rfl) fun t here => ?_
  rw [here.1]
  unfold returnStatement
  refine .start fun t => .advance ?_
  refine .current (K := (· = .mark .semicolon)) (.cons rfl) fun t here => ?_
  rw [if_pos (by simp [here.1])]
  exact .pure_bind (.endOfStatement (.spanFrom fun span => .pure rfl))

theorem returnsValue {e : Expr} (value : e.Reads) : (Stmt.returnsValue e).Reads := by
  refine Gives.statement fun depth => ?_
  unfold Grammar.statement
  refine .current (K := (· = .keyword .returnWord)) (.cons rfl) fun t here => ?_
  rw [here.1]
  unfold returnStatement
  refine .start fun t => .advance ?_
  refine .current ((e.opens.append _).first fun k => id) fun t here => ?_
  have other {k : Kind} (closed : opensExpression k = false) : t.kind ≠ k := by
    rintro rfl
    rw [here.1] at closed
    cases closed
  rw [if_neg (by simp [here.2, other (k := .mark .semicolon) rfl, other (k := .mark .rBrace) rfl,
    other (k := .eof) rfl])]
  refine (value.expression depth).bind_flat (.cons (by decide)) fun a same => ?_
  refine .pure_bind (.endOfStatement (.spanFrom fun span => .pure ?_))
  rw [Stmt.unspanned, Expr.unspanned?, same, Stmt.tree]

theorem expression {e : Expr} (reads : e.Reads) : (Stmt.expression e).Reads := by
  refine Gives.statement fun depth => ?_
  refine Gives.of_eq (expressionStatement (Level.ofDepth depth)) ?_ fun s k kinds ended shows => ?_
  · unfold expressionStatement
    refine .start fun t => (reads.expression depth).bind_flat (.cons (by decide)) fun a same => ?_
    refine .endOfStatement (.spanFrom fun span => .pure ?_)
    rw [Stmt.unspanned, same, Stmt.tree]
  · obtain ⟨w, rest, eq, opens⟩ := e.opens
    rw [Stmt.words, eq] at shows
    exact statement_of_opensExpression (shows.kind ▸ opens)

theorem conditional {t : Expr} {c : List Stmt} (test : t.Reads)
    (consequent : ∀ s ∈ c, s.Reads) (alternate : ∀ s, a.statement? = some s → s.Reads) :
    (Stmt.conditional t c a).Reads := by
  refine Gives.statement fun depth => ?_
  unfold Grammar.statement
  refine .current (K := (· = .keyword .ifWord)) (.cons rfl) fun first here => ?_
  rw [here.1]
  have shape : (Stmt.conditional t c a).words = .keyword .ifWord :: .mark .lParen ::
      (t.words ++ .mark .rParen :: ((Stmt.block c).words ++ a.words)) := by
    simp [Stmt.words, conditionalWords, parens]
  rw [shape]
  unfold conditionalStatement
  refine .start fun _ => .advance (.expect (w := .mark .lParen) ?_)
  refine ((test.expression depth).bind (.cons (by decide)) fun x same =>
    .expect (w := .mark .rParen) ((block_statement consequent depth).bind (fun _ _ => rfl)
      fun y same' => (?_ : Gives _ _ _ (a.nesting ≤ depth) _))).congr rfl ?_
  · cases next : a.statement? with
    | none =>
      obtain ⟨written, built, flat⟩ := Else.words_of_none next
      rw [written, flat]
      refine Gives.congr ?_ rfl (iff_of_true (Nat.zero_le depth) trivial)
      refine .decline (.nil fun k ended => of_decide_eq_true ended) ?_
      refine .pure_bind (.spanFrom fun span => .pure ?_)
      rw [Stmt.unspanned, same, same', Stmt.unspanned?, Stmt.tree, Stmt.tree, built]
    | some s =>
      obtain ⟨written, built, counted⟩ := Else.words_of_some next
      rw [written, counted]
      refine .accept (w := .keyword .elseWord) ?_
      refine (alternate s next depth).bind_last (fun _ => id) fun z same'' => ?_
      refine .pure_bind (.spanFrom fun span => .pure ?_)
      rw [Stmt.unspanned, same, same', Stmt.unspanned?, same'', Stmt.tree, Stmt.tree,
        built]
  · rw [max_le_iff, max_le_iff]
    rfl

end Stmt.Reads

/-! ## All outlines -/

mutual

/-- Every expression is read back. -/
theorem Expr.reads : (e : Expr) → e.Reads
  | .null => .of_literal (w := .keyword .nullWord) rfl rfl rfl rfl
  | .boolean true => .of_literal (w := .keyword .trueWord) rfl rfl rfl rfl
  | .boolean false => .of_literal (w := .keyword .falseWord) rfl rfl rfl rfl
  | .number numeral => .of_literal (w := .number numeral) rfl rfl rfl rfl
  | .string text => .of_literal (w := .string text) rfl rfl rfl rfl
  | .identifier x => .identifier x
  | .unary _ operand => .unary operand.reads
  | .binary _ left right => .binary left.reads right.reads
  | .conditional test consequent alternate =>
    .conditional test.reads consequent.reads alternate.reads
  | .call callee arguments => .call callee.reads (Expr.all_read arguments)
  | .assignment _ x value => .assignment (.identifier x) value.reads
  | .arrow _ body => .arrow (Stmt.all_read body)
  | .function _ _ body => .function (Stmt.all_read body)

theorem Expr.all_read : (es : List Expr) → ∀ e ∈ es, e.Reads
  | [] => by simp
  | e :: es => List.forall_mem_cons.2 ⟨e.reads, Expr.all_read es⟩

/-- Every statement is read back. -/
theorem Stmt.reads : (s : Stmt) → s.Reads
  | .declaration _ _ init => .declaration init.reads
  | .function _ _ body => .function (Stmt.all_read body)
  | .block body => .block (Stmt.all_read body)
  | .conditional test consequent alternate =>
    .conditional test.reads (Stmt.all_read consequent) alternate.reads
  | .returns => .returns
  | .returnsValue value => .returnsValue value.reads
  | .expression expr => .expression expr.reads

theorem Stmt.all_read : (ss : List Stmt) → ∀ s ∈ ss, s.Reads
  | [] => by simp
  | s :: ss => List.forall_mem_cons.2 ⟨s.reads, Stmt.all_read ss⟩

/-- Every second branch is read back. -/
theorem Else.reads : (a : Else) → ∀ s, a.statement? = some s → s.Reads
  | .nothing, s, next => by cases next
  | .block body, s, next => by
    cases next
    exact .block (Stmt.all_read body)
  | .conditional test consequent alternate, s, next => by
    cases next
    exact .conditional test.reads (Stmt.all_read consequent) alternate.reads

end

/-! ## Programs -/

/-- The text of a program: its words, with a blank after each. -/
def text (body : List Stmt) : String :=
  String.ofList (spaced (Stmt.wordsOfAll body))

/-- The tree of a program. -/
def program (body : List Stmt) : Program :=
  ⟨Stmt.trees body, {}⟩

theorem reader_gives (body : List Stmt) : Gives Program.reader (Stmt.wordsOfAll body) (· = .eof)
      (Stmt.nestingOfAll body ≤ maxNesting) (·.unspanned = program body) := by
  have last : ∀ k : Kind, decide (k = .eof) = true →
      opensStatement k = false ∧ endsStatement k = true := by
    intro k ended
    obtain rfl : k = .eof := of_decide_eq_true ended
    decide
  have read := statements_of_all (fun s _ => Stmt.opens s)
    (fun s member => Stmt.all_read body s member maxNesting) (· = .eof) last
  unfold Program.reader
  rw [Stmt.wordsOfAll_eq_flatMap]
  refine .start fun t => ?_
  refine (read.congr rfl Stmt.nestingOfAll_le_iff).bind_last (fun _ => id) fun found each => ?_
  refine .spanFrom fun span => .pure ?_
  rw [Program.unspanned, Stmt.unspannedAll_eq_map, map_eq_map_of_forall₂ each, program,
    Stmt.trees_eq_map]

theorem shows_text (body : List Stmt) : let first := (Scanner.ofText (text body)).next
    (Stream.ofTokens first.1 (if first.1.kind = .eof then [] else first.2.tokensAfter [])).Shows
      ((Stmt.wordsOfAll body).map Word.kind ++ [.eof]) := by
  intro first
  have start : (Scanner.ofText (text body)).rest =
      List.replicate 0 ' ' ++ spaced (Stmt.wordsOfAll body) := String.toList_ofList
  have tokens := Scanner.tokensAfter_words start
  rw [Scanner.tokensAfter_nil] at tokens
  exact tokens

/-- **Reading what was written.**  The text of an outline is read back as its tree if it is
    nested no deeper than is allowed; otherwise it is refused, and for this reason. -/
theorem read_text (body : List Stmt) :
    (Stmt.nestingOfAll body ≤ maxNesting →
      ∃ p, Program.read (text body) = .ok p ∧ p.unspanned = program body) ∧
    (maxNesting < Stmt.nestingOfAll body →
      ∃ refusal, Program.read (text body) = .error refusal ∧ refusal.cause = .tooDeep) := by
  have answers := reader_gives body (decide_eq_true rfl) (shows_text body)
  constructor
  · intro small
    obtain ⟨p, s, read, same, -⟩ := answers.exists_ok small
    refine ⟨p, ?_, same⟩
    rw [Program.read, read]
    rfl
  · intro deep
    obtain ⟨refusal, refused, cause⟩ := answers.exists_error (Nat.not_le.2 deep)
    refine ⟨refusal, ?_, cause⟩
    rw [Program.read, refused]
    rfl

theorem read_text_nested :
    let x : Name := ⟨"x", by decide, by decide⟩
    let xs : Name := ⟨"xs", by decide, by decide⟩
    let test : Expr := .binary (.binary .lt) (.unary .minus (.identifier x))
      (.number ⟨['1', '0'], ['5'], by decide, by decide, by decide⟩)
    let body : List Stmt :=
      [.declaration .constKind x (.arrow ⟨[x], some xs, by decide⟩
        [.conditional test [.returnsValue (.string "a\"\\\n")]
          (.conditional test [] (.block [.returns]))]),
       .expression (.call (.identifier x) [.assignment .assign x .null,
        .conditional (.boolean true) test (.function none ⟨[], none, by decide⟩ [])])]
    let nested (count : Nat) : List Stmt := (fun inner => [.block inner])^[count] []
    (∃ p, Program.read (text body) = .ok p ∧ p.unspanned = program body) ∧
      (∃ p, Program.read (text (nested 200)) = .ok p ∧ p.unspanned = program (nested 200)) ∧
      ∃ refusal, Program.read (text (nested 201)) = .error refusal ∧
        refusal.cause = .tooDeep := by
  intro x xs test body nested
  refine ⟨(read_text body).1 ?_, (read_text (nested 200)).1 ?_, (read_text (nested 201)).2 ?_⟩
  · decide +kernel
  · decide +kernel
  · decide +kernel

end Outline

end SourceMachine
