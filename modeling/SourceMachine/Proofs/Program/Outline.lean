import SourceMachine.Program.Grammar
import SourceMachine.Proofs.Token.Words

/-!
# Outlines of programs

An outline is a program without the places where its parts stand: the trees that can be
evaluated, with numbers kept as they are written.  It has a written form (`words`), in which
every expression that is not a single word stands in parentheses and every statement ends
with a semicolon or a brace, and it has a tree (`tree`), in which all stretches of text are
the same.  Trees that differ only in the stretches of text become equal when those are
dropped (`unspanned`).

`nesting` counts the levels that a reader needs for the written form: statements, whole
expressions and operands are a level each, and parentheses hold a whole expression.
-/

namespace SourceMachine

/-! ## Trees without their places -/

/-- A name without its place. -/
def Identifier.unspanned (id : Identifier) : Identifier :=
  ⟨id.name, {}⟩

/-- A parameter without its place. -/
def Param.unspanned (p : Param) : Param :=
  ⟨p.id.unspanned, p.isRest⟩

mutual

/-- An expression without its places. -/
def Expr.unspanned : Expr → Expr
  | .literal value _ => .literal value {}
  | .identifier id => .identifier id.unspanned
  | .unary op operand _ => .unary op operand.unspanned {}
  | .binary op left right _ => .binary op left.unspanned right.unspanned {}
  | .logical op left right _ => .logical op left.unspanned right.unspanned {}
  | .conditional test consequent alternate _ =>
    .conditional test.unspanned consequent.unspanned alternate.unspanned {}
  | .call callee arguments _ => .call callee.unspanned (Expr.unspannedAll arguments) {}
  | .assignment op target value _ => .assignment op target.unspanned value.unspanned {}
  | .function function => .function function.unspanned
  | .array elements _ => .array (Expr.unspannedAll elements) {}
  | .object properties _ => .object (Expr.unspannedProperties properties) {}
  | .member access => .member access.unspanned
  | .new callee arguments _ => .new callee.unspanned (Expr.unspannedAll arguments) {}
  | .update increment before argument _ => .update increment before argument.unspanned {}
  | .template text _ => .template text {}
  | .this _ => .this {}

/-- Expressions without their places. -/
def Expr.unspannedAll : List Expr → List Expr
  | [] => []
  | e :: es => e.unspanned :: Expr.unspannedAll es

/-- The properties of an object without their places. -/
def Expr.unspannedProperties : List (String × Expr) → List (String × Expr)
  | [] => []
  | (key, e) :: properties => (key, e.unspanned) :: Expr.unspannedProperties properties

/-- An expression that may be missing, without its places. -/
def Expr.unspanned? : Option Expr → Option Expr
  | none => none
  | some e => some e.unspanned

/-- The left side of an assignment without its places. -/
def Target.unspanned : Target → Target
  | .identifier id => .identifier id.unspanned
  | .member access => .member access.unspanned

/-- A member without its places. -/
def Member.unspanned : Member → Member
  | ⟨object, property, _⟩ => ⟨object.unspanned, property.unspanned, {}⟩

/-- How a member is named, without its places. -/
def Property.unspanned : Property → Property
  | .identifier id => .identifier id.unspanned
  | .computed key => .computed key.unspanned

/-- A statement without its places. -/
def Stmt.unspanned : Stmt → Stmt
  | .declaration kind id init _ => .declaration kind id.unspanned init.unspanned {}
  | .function function => .function function.unspanned
  | .block block => .block block.unspanned
  | .conditional test consequent alternate _ =>
    .conditional test.unspanned consequent.unspanned (Stmt.unspanned? alternate) {}
  | .returns argument _ => .returns (Expr.unspanned? argument) {}
  | .expression expr _ => .expression expr.unspanned {}
  | .whileLoop test body _ => .whileLoop test.unspanned body.unspanned {}
  | .doWhileLoop body test _ => .doWhileLoop body.unspanned test.unspanned {}
  | .forLoop init test update body _ =>
    .forLoop (Stmt.unspanned? init) (Expr.unspanned? test) (Expr.unspanned? update)
      body.unspanned {}
  | .breaks _ => .breaks {}
  | .continues _ => .continues {}
  | .throws argument _ => .throws argument.unspanned {}
  | .tries block param handler finalizer _ =>
    .tries block.unspanned (param.map Identifier.unspanned) (Block.unspanned? handler)
      (Block.unspanned? finalizer) {}
  | .skipped construct _ => .skipped construct {}

/-- Statements without their places. -/
def Stmt.unspannedAll : List Stmt → List Stmt
  | [] => []
  | s :: ss => s.unspanned :: Stmt.unspannedAll ss

/-- A statement that may be missing, without its places. -/
def Stmt.unspanned? : Option Stmt → Option Stmt
  | none => none
  | some s => some s.unspanned

/-- A function without its places. -/
def Function.unspanned : Function → Function
  | ⟨id, params, body, isArrow, _⟩ =>
    ⟨id.map Identifier.unspanned, params.map Param.unspanned, body.unspanned, isArrow, {}⟩

/-- A block without its places. -/
def Block.unspanned : Block → Block
  | ⟨body, _⟩ => ⟨Stmt.unspannedAll body, {}⟩

/-- A block that may be missing, without its places. -/
def Block.unspanned? : Option Block → Option Block
  | none => none
  | some b => some b.unspanned

end

/-- A program without its places. -/
def Program.unspanned (p : Program) : Program :=
  ⟨Stmt.unspannedAll p.body, {}⟩

theorem Expr.unspannedAll_eq_map (es : List Expr) :
    Expr.unspannedAll es = es.map Expr.unspanned := by
  induction es with
  | nil => rfl
  | cons e es ih => rw [Expr.unspannedAll, ih, List.map_cons]

theorem Stmt.unspannedAll_eq_map (ss : List Stmt) :
    Stmt.unspannedAll ss = ss.map Stmt.unspanned := by
  induction ss with
  | nil => rfl
  | cons s ss ih => rw [Stmt.unspannedAll, ih, List.map_cons]

theorem Expr.eq_identifier_of_unspanned {e : Expr} {id : Identifier}
    (same : e.unspanned = .identifier id) : ∃ id', e = .identifier id' ∧ id'.name = id.name := by
  cases e <;> rw [Expr.unspanned] at same <;> cases same
  exact ⟨_, rfl, rfl⟩

theorem Stmt.eq_function_of_unspanned {s : Stmt} {f : Function}
    (same : s.unspanned = .function f) : ∃ g, s = .function g ∧ g.unspanned = f := by
  cases s <;> rw [Stmt.unspanned] at same <;> cases same
  exact ⟨_, rfl, rfl⟩

theorem Grammar.unspanned_join (op : Operator) (left right : Expr) (span : Span) :
    (join op left right span).unspanned = join op left.unspanned right.unspanned {} := by
  cases op <;> rfl

/-! ## Words for operators -/

/-- The word for an operator before one operand. -/
def UnaryOp.word : UnaryOp → Word
  | .not => .mark .bang
  | .minus => .mark .minus
  | .plus => .mark .plus
  | .typeof => .keyword .typeofWord

/-- The mark for an operator between two operands. -/
def Operator.mark : Operator → Mark
  | .binary .add => .plus
  | .binary .sub => .minus
  | .binary .mul => .star
  | .binary .div => .slash
  | .binary .rem => .percent
  | .binary .strictEq => .eqEqEq
  | .binary .strictNotEq => .bangEqEq
  | .binary .lt => .lt
  | .binary .le => .ltEq
  | .binary .gt => .gt
  | .binary .ge => .gtEq
  | .binary .looseEq => .eqEq
  | .binary .looseNotEq => .bangEq
  | .logical .and => .ampAmp
  | .logical .or => .pipePipe
  | .logical .nullish => .questionQuestion

/-- The mark for an assignment. -/
def AssignOp.mark : AssignOp → Mark
  | .assign => .eq
  | .add => .plusEq
  | .sub => .minusEq
  | .mul => .starEq
  | .div => .slashEq
  | .rem => .percentEq

/-- The word that a declaration starts with. -/
def DeclarationKind.keyword : DeclarationKind → Keyword
  | .letKind => .letWord
  | .constKind => .constWord

namespace Outline

/-- Words between parentheses. -/
def parens (words : List Word) : List Word :=
  .mark .lParen :: (words ++ [.mark .rParen])

/-- Words between braces. -/
def braces (words : List Word) : List Word :=
  .mark .lBrace :: (words ++ [.mark .rBrace])

/-! ## Outlines -/

/-- The parameters of a function: names that differ, and perhaps one more name for all
    arguments that are left. -/
structure Params where
  names : List Name
  rest : Option Name := none
  distinct : ((names ++ rest.toList).map Name.text).Nodup

mutual

/-- The outline of an expression. -/
inductive Expr where
  | null
  | boolean (value : Bool)
  | number (numeral : Numeral)
  | string (text : String)
  | identifier (name : Name)
  | unary (op : UnaryOp) (operand : Expr)
  | binary (op : Operator) (left right : Expr)
  | conditional (test consequent alternate : Expr)
  | call (callee : Expr) (arguments : List Expr)
  | assignment (op : AssignOp) (name : Name) (value : Expr)
  | arrow (params : Params) (body : List Stmt)
  | function (name : Option Name) (params : Params) (body : List Stmt)

/-- The outline of a statement. -/
inductive Stmt where
  | declaration (kind : DeclarationKind) (name : Name) (init : Expr)
  | function (name : Name) (params : Params) (body : List Stmt)
  | block (body : List Stmt)
  | conditional (test : Expr) (consequent : List Stmt) (alternate : Else)
  | returns
  | returnsValue (value : Expr)
  | expression (expr : Expr)

/-- What follows the first branch of a conditional statement: nothing, a block, or another
    conditional statement. -/
inductive Else where
  | nothing
  | block (body : List Stmt)
  | conditional (test : Expr) (consequent : List Stmt) (alternate : Else)

end

/-! ## The written form -/

/-- The parameters in order, and which of them is the one for all that is left. -/
def Params.all (ps : Params) : List (Name × Bool) :=
  ps.names.map (·, false) ++ ps.rest.toList.map (·, true)

/-- How a parameter is written. -/
def paramWords : Name × Bool → List Word
  | (x, false) => [.name x]
  | (x, true) => [.mark .dotDotDot, .name x]

/-- How parameters are written. -/
def Params.words (ps : Params) : List Word :=
  separated (ps.all.map paramWords)

/-- Parameters and a body. -/
def functionWords (ps : Params) (body : List Word) : List Word :=
  parens ps.words ++ braces body

/-- A test, a branch and what follows it. -/
def conditionalWords (test consequent alternate : List Word) : List Word :=
  .keyword .ifWord :: (parens test ++ (braces consequent ++ alternate))

mutual

/-- How an expression is written. -/
def Expr.words : Expr → List Word
  | .null => [.keyword .nullWord]
  | .boolean true => [.keyword .trueWord]
  | .boolean false => [.keyword .falseWord]
  | .number numeral => [.number numeral]
  | .string text => [.string text]
  | .identifier name => [.name name]
  | .unary op operand => parens (op.word :: operand.words)
  | .binary op left right => parens (left.words ++ .mark op.mark :: right.words)
  | .conditional test consequent alternate =>
    parens (test.words ++ .mark .question :: (consequent.words ++ .mark .colon :: alternate.words))
  | .call callee arguments => parens (callee.words ++ parens (separated (Expr.wordLists arguments)))
  | .assignment op name value => parens (.name name :: .mark op.mark :: value.words)
  | .arrow params body =>
    parens (parens params.words ++ .mark .arrow :: braces (Stmt.wordsOfAll body))
  | .function name params body =>
    parens (.keyword .functionWord ::
      (name.toList.map .name ++ functionWords params (Stmt.wordsOfAll body)))

/-- How each of some expressions is written. -/
def Expr.wordLists : List Expr → List (List Word)
  | [] => []
  | e :: es => e.words :: Expr.wordLists es

/-- How a statement is written. -/
def Stmt.words : Stmt → List Word
  | .declaration kind name init =>
    .keyword kind.keyword :: .name name :: .mark .eq :: (init.words ++ [.mark .semicolon])
  | .function name params body =>
    .keyword .functionWord :: .name name :: functionWords params (Stmt.wordsOfAll body)
  | .block body => braces (Stmt.wordsOfAll body)
  | .conditional test consequent alternate =>
    conditionalWords test.words (Stmt.wordsOfAll consequent) alternate.words
  | .returns => [.keyword .returnWord, .mark .semicolon]
  | .returnsValue value => .keyword .returnWord :: (value.words ++ [.mark .semicolon])
  | .expression expr => expr.words ++ [.mark .semicolon]

/-- How statements are written. -/
def Stmt.wordsOfAll : List Stmt → List Word
  | [] => []
  | s :: ss => s.words ++ Stmt.wordsOfAll ss

/-- How the second branch is written. -/
def Else.words : Else → List Word
  | .nothing => []
  | .block body => .keyword .elseWord :: braces (Stmt.wordsOfAll body)
  | .conditional test consequent alternate =>
    .keyword .elseWord :: conditionalWords test.words (Stmt.wordsOfAll consequent) alternate.words

end

/-! ## The tree -/

/-- A name as a part of a tree. -/
def identifier (x : Name) : Identifier :=
  ⟨x.text, {}⟩

/-- A parameter of a tree. -/
def param (p : Name × Bool) : Param :=
  ⟨identifier p.1, p.2⟩

/-- The parameters of a tree. -/
def Params.tree (ps : Params) : List Param :=
  ps.all.map param

mutual

/-- The tree of an expression. -/
def Expr.tree : Expr → SourceMachine.Expr
  | .null => .literal .null {}
  | .boolean value => .literal (.boolean value) {}
  | .number numeral => .literal (.number numeral.value) {}
  | .string text => .literal (.string text) {}
  | .identifier name => .identifier (identifier name)
  | .unary op operand => .unary op operand.tree {}
  | .binary (.binary op) left right => .binary op left.tree right.tree {}
  | .binary (.logical op) left right => .logical op left.tree right.tree {}
  | .conditional test consequent alternate =>
    .conditional test.tree consequent.tree alternate.tree {}
  | .call callee arguments => .call callee.tree (Expr.trees arguments) {}
  | .assignment op name value => .assignment op (.identifier (identifier name)) value.tree {}
  | .arrow params body => .function ⟨none, params.tree, ⟨Stmt.trees body, {}⟩, true, {}⟩
  | .function name params body =>
    .function ⟨name.map identifier, params.tree, ⟨Stmt.trees body, {}⟩, false, {}⟩

/-- The trees of some expressions. -/
def Expr.trees : List Expr → List SourceMachine.Expr
  | [] => []
  | e :: es => e.tree :: Expr.trees es

/-- The tree of a statement. -/
def Stmt.tree : Stmt → SourceMachine.Stmt
  | .declaration kind name init => .declaration kind (identifier name) init.tree {}
  | .function name params body =>
    .function ⟨some (identifier name), params.tree, ⟨Stmt.trees body, {}⟩, false, {}⟩
  | .block body => .block ⟨Stmt.trees body, {}⟩
  | .conditional test consequent alternate =>
    .conditional test.tree (.block ⟨Stmt.trees consequent, {}⟩) alternate.tree? {}
  | .returns => .returns none {}
  | .returnsValue value => .returns (some value.tree) {}
  | .expression expr => .expression expr.tree {}

/-- The trees of some statements. -/
def Stmt.trees : List Stmt → List SourceMachine.Stmt
  | [] => []
  | s :: ss => s.tree :: Stmt.trees ss

/-- The tree of the second branch. -/
def Else.tree? : Else → Option SourceMachine.Stmt
  | .nothing => none
  | .block body => some (.block ⟨Stmt.trees body, {}⟩)
  | .conditional test consequent alternate =>
    some (.conditional test.tree (.block ⟨Stmt.trees consequent, {}⟩) alternate.tree? {})

end

/-! ## Nesting -/

/-- The levels of a conditional statement, from those of its parts. -/
def conditionalNesting (test consequent alternate : Nat) : Nat :=
  max (test + 2) (max (consequent + 1) alternate) + 1

mutual

/-- The levels in an expression, the level that it is as an operand left out. -/
def Expr.nesting : Expr → Nat
  | .null | .boolean _ | .number _ | .string _ | .identifier _ => 0
  | .unary _ operand => operand.nesting + 3
  | .binary _ left right => max left.nesting right.nesting + 2
  | .conditional test consequent alternate =>
    max test.nesting (max consequent.nesting alternate.nesting + 1) + 2
  | .call callee arguments => max callee.nesting (Expr.nestingOfAll arguments) + 2
  | .assignment _ _ value => value.nesting + 3
  | .arrow _ body | .function _ _ body => Stmt.nestingOfAll body + 2

/-- The levels in the arguments of a call, which are whole expressions. -/
def Expr.nestingOfAll : List Expr → Nat
  | [] => 0
  | e :: es => max (e.nesting + 2) (Expr.nestingOfAll es)

/-- The levels of a statement, its own among them. -/
def Stmt.nesting : Stmt → Nat
  | .declaration _ _ value | .returnsValue value | .expression value => value.nesting + 3
  | .function _ _ body | .block body => Stmt.nestingOfAll body + 1
  | .conditional test consequent alternate =>
    conditionalNesting test.nesting (Stmt.nestingOfAll consequent) alternate.nesting
  | .returns => 1

/-- The levels of statements that follow each other. -/
def Stmt.nestingOfAll : List Stmt → Nat
  | [] => 0
  | s :: ss => max s.nesting (Stmt.nestingOfAll ss)

/-- The levels of the second branch. -/
def Else.nesting : Else → Nat
  | .nothing => 0
  | .block body => Stmt.nestingOfAll body + 1
  | .conditional test consequent alternate =>
    conditionalNesting test.nesting (Stmt.nestingOfAll consequent) alternate.nesting

end

/-! ## Lists of outlines -/

theorem Expr.wordLists_eq_map (es : List Expr) : Expr.wordLists es = es.map Expr.words := by
  induction es with
  | nil => rfl
  | cons e es ih => rw [Expr.wordLists, ih, List.map_cons]

theorem Expr.trees_eq_map (es : List Expr) : Expr.trees es = es.map Expr.tree := by
  induction es with
  | nil => rfl
  | cons e es ih => rw [Expr.trees, ih, List.map_cons]

theorem Expr.nestingOfAll_le_iff {es : List Expr} {n : Nat} :
    Expr.nestingOfAll es ≤ n ↔ ∀ e ∈ es, e.nesting + 2 ≤ n := by
  induction es with
  | nil => simp [Expr.nestingOfAll]
  | cons e es ih => rw [Expr.nestingOfAll, max_le_iff, ih, List.forall_mem_cons]

theorem Stmt.wordsOfAll_eq_flatMap (ss : List Stmt) :
    Stmt.wordsOfAll ss = ss.flatMap Stmt.words := by
  induction ss with
  | nil => rfl
  | cons s ss ih => rw [Stmt.wordsOfAll, ih, List.flatMap_cons]

theorem Stmt.trees_eq_map (ss : List Stmt) : Stmt.trees ss = ss.map Stmt.tree := by
  induction ss with
  | nil => rfl
  | cons s ss ih => rw [Stmt.trees, ih, List.map_cons]

theorem Stmt.nestingOfAll_le_iff {ss : List Stmt} {n : Nat} :
    Stmt.nestingOfAll ss ≤ n ↔ ∀ s ∈ ss, s.nesting ≤ n := by
  induction ss with
  | nil => simp [Stmt.nestingOfAll]
  | cons s ss ih => rw [Stmt.nestingOfAll, max_le_iff, ih, List.forall_mem_cons]

end Outline

end SourceMachine
