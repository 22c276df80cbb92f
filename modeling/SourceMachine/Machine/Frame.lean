import SourceMachine.Program.Basic
import SourceMachine.Value.Basic

/-!
# Control and pending work

`Control` is what the machine works on: something of the program that is still to
be evaluated, or a value.  A `Frame` says what to do with the next value.
-/

namespace SourceMachine

/-- What the machine works on. -/
inductive Control where
  | program (program : Program)
  | statement (stmt : Stmt)
  | expression (expr : Expr)
  | value (value : Value)

/-- What to do with the next value.  Every frame but the first and the last kind
    keeps the scopes that were current when it was made. -/
inductive Frame where
  /-- The value is the result of the program. -/
  | halt
  /-- Forget the value and run the next statement of a block. -/
  | exec (stmt : Stmt) (env : Env)
  /-- The value is the operand. -/
  | unaryOperand (op : UnaryOp) (span : Span) (env : Env)
  /-- The value is the left operand, and the right one is next. -/
  | leftOperand (op : BinaryOp) (right : Expr) (span : Span) (env : Env)
  /-- The value is the right operand. -/
  | rightOperand (op : BinaryOp) (left : Value) (span : Span) (env : Env)
  /-- The value initializes a declared name. -/
  | declare (id : Identifier) (isMutable : Bool) (env : Env)
  /-- The value is assigned to a name. -/
  | assign (id : Identifier) (env : Env)
  /-- The value is what is called. -/
  | callee (arguments : List Expr) (span : Span) (env : Env)
  /-- The value is an argument: the one after those already `evaluated`, the latest
      of which comes first, and the argument at position `next` comes after it. -/
  | argument (arguments : List Expr) (next : Nat) (evaluated : List Value) (callee : Value)
      (span : Span) (env : Env)
  /-- Forget the value and make the call, for which everything is there. -/
  | apply (callee : Value) (arguments : List Value) (span : Span) (env : Env)
  /-- The value decides between two ways to go on. -/
  | branch (consequent alternate : Control) (span : Span) (env : Env)
  /-- The place of a `reset`, which passes the value on. -/
  | delimiter

/-- The scopes that a frame keeps. -/
def Frame.env? : Frame → Option Env
  | .halt | .delimiter => none
  | .exec _ env | .unaryOperand _ _ env | .leftOperand _ _ _ env | .rightOperand _ _ _ env
  | .declare _ _ env | .assign _ env | .callee _ _ env | .argument _ _ _ _ _ env
  | .apply _ _ _ env | .branch _ _ _ env => some env

/-- Whether a frame is the place of a `reset`. -/
def Frame.isDelimiter : Frame → Bool
  | .delimiter => true
  | _ => false

end SourceMachine
