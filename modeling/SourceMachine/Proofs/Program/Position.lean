import Mathlib
import SourceMachine.Program.Grammar

/-!
# Positions in a program

Where a phrase stands in the tree of a program: inside of which blocks and which
functions.  `Occurs p layers a` says that the phrase `a` stands in the program `p`
inside of `layers`, the innermost first.  The body of a function is a block, so a
statement of it has two layers more than the function itself.

Only phrases that are run have parts here.  What a phrase that is read but never run
is made of is never reached.
-/

namespace SourceMachine

/-- A node of the tree of a program. -/
inductive Phrase where
  | statement (stmt : Stmt)
  | expression (expr : Expr)
  | function (function : Function)

/-- What a phrase stands inside of. -/
inductive Layer where
  | block (block : Block)
  | function (function : Function)

/-- A phrase and a part of it that stands inside of the same blocks and functions. -/
inductive Part : Phrase → Phrase → Prop where
  | init (kind : DeclarationKind) (id : Identifier) (init : Expr) (span : Span) :
      Part (.statement (.declaration kind id init span)) (.expression init)
  | test (test : Expr) (consequent : Stmt) (alternate : Option Stmt) (span : Span) :
      Part (.statement (.conditional test consequent alternate span)) (.expression test)
  | consequent (test : Expr) (consequent : Stmt) (alternate : Option Stmt) (span : Span) :
      Part (.statement (.conditional test consequent alternate span)) (.statement consequent)
  | alternate (test : Expr) (consequent alternate : Stmt) (span : Span) :
      Part (.statement (.conditional test consequent (some alternate) span)) (.statement alternate)
  | returned (argument : Expr) (span : Span) :
      Part (.statement (.returns (some argument) span)) (.expression argument)
  | expression (e : Expr) (span : Span) :
      Part (.statement (.expression e span)) (.expression e)
  | declared (f : Function) : Part (.statement (.function f)) (.function f)
  | made (f : Function) : Part (.expression (.function f)) (.function f)
  | operand (op : UnaryOp) (operand : Expr) (span : Span) :
      Part (.expression (.unary op operand span)) (.expression operand)
  | left (op : BinaryOp) (left right : Expr) (span : Span) :
      Part (.expression (.binary op left right span)) (.expression left)
  | right (op : BinaryOp) (left right : Expr) (span : Span) :
      Part (.expression (.binary op left right span)) (.expression right)
  | first (op : LogicalOp) (left right : Expr) (span : Span) :
      Part (.expression (.logical op left right span)) (.expression left)
  | second (op : LogicalOp) (left right : Expr) (span : Span) :
      Part (.expression (.logical op left right span)) (.expression right)
  | condition (test consequent alternate : Expr) (span : Span) :
      Part (.expression (.conditional test consequent alternate span)) (.expression test)
  | positive (test consequent alternate : Expr) (span : Span) :
      Part (.expression (.conditional test consequent alternate span)) (.expression consequent)
  | negative (test consequent alternate : Expr) (span : Span) :
      Part (.expression (.conditional test consequent alternate span)) (.expression alternate)
  | callee (callee : Expr) (arguments : List Expr) (span : Span) :
      Part (.expression (.call callee arguments span)) (.expression callee)
  | argument (callee : Expr) {arguments : List Expr} {e : Expr} (span : Span)
      (member : e ∈ arguments) : Part (.expression (.call callee arguments span)) (.expression e)
  | assigned (op : AssignOp) (target : Target) (value : Expr) (span : Span) :
      Part (.expression (.assignment op target value span)) (.expression value)

/-- A phrase stands in a program, inside of some blocks and functions. -/
inductive Occurs (p : Program) : List Layer → Phrase → Prop where
  | top {s : Stmt} (member : s ∈ p.body) : Occurs p [] (.statement s)
  | inBlock {layers : List Layer} {b : Block} {s : Stmt}
      (outer : Occurs p layers (.statement (.block b))) (member : s ∈ b.body) :
      Occurs p (.block b :: layers) (.statement s)
  | inFunction {layers : List Layer} {f : Function} (outer : Occurs p layers (.function f)) :
      Occurs p (.function f :: layers) (.statement (.block f.body))
  | part {layers : List Layer} {a b : Phrase} (whole : Occurs p layers a) (part : Part a b) :
      Occurs p layers b

/-- The program was read from some text. -/
def Program.IsRead (p : Program) : Prop :=
  ∃ text, Program.read text = .ok p

/-- A program that was read from a text, with what evaluation says about it. -/
theorem Program.exists_read {text : String} {property : Program → Prop}
    (holds : ∃ p ∈ (Program.read text).toOption, property p) :
    ∃ p, Program.read text = .ok p ∧ property p := by
  obtain ⟨p, accepted, held⟩ := holds
  cases read : Program.read text with
  | error =>
    rw [read] at accepted
    cases accepted
  | ok q =>
    rw [read] at accepted
    cases accepted
    exact ⟨p, rfl, held⟩

/-- The functions among the layers that a phrase stands inside of, the innermost
    first. -/
def Layer.functions (layers : List Layer) : List Function :=
  layers.filterMap fun
    | .block _ => none
    | .function f => some f

end SourceMachine
