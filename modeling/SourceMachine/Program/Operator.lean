/-!
# Operators

The operators of the language, how they are written, and how tightly the ones
between two operands bind.
-/

namespace SourceMachine

/-- The operators before one operand. -/
inductive UnaryOp where
  | not
  | minus
  | plus
  | typeof
deriving DecidableEq, Repr

/-- The operators between two operands that are both evaluated.  The two loose
    comparisons are read but never evaluated. -/
inductive BinaryOp where
  | add | sub | mul | div | rem
  | strictEq | strictNotEq
  | lt | le | gt | ge
  | looseEq | looseNotEq
deriving DecidableEq, Repr

/-- The operators that may leave out their second operand. -/
inductive LogicalOp where
  | and
  | or
  | nullish
deriving DecidableEq, Repr

/-- The operators of assignments.  Only the first one is evaluated. -/
inductive AssignOp where
  | assign | add | sub | mul | div | rem
deriving DecidableEq, Repr

/-- How an operator is written. -/
def UnaryOp.text : UnaryOp → String
  | .not => "!"
  | .minus => "-"
  | .plus => "+"
  | .typeof => "typeof"

/-- How an operator is written. -/
def BinaryOp.text : BinaryOp → String
  | .add => "+"
  | .sub => "-"
  | .mul => "*"
  | .div => "/"
  | .rem => "%"
  | .strictEq => "==="
  | .strictNotEq => "!=="
  | .lt => "<"
  | .le => "<="
  | .gt => ">"
  | .ge => ">="
  | .looseEq => "=="
  | .looseNotEq => "!="

/-- How an operator is written. -/
def LogicalOp.text : LogicalOp → String
  | .and => "&&"
  | .or => "||"
  | .nullish => "??"

/-- How an operator is written. -/
def AssignOp.text : AssignOp → String
  | .assign => "="
  | .add => "+="
  | .sub => "-="
  | .mul => "*="
  | .div => "/="
  | .rem => "%="

/-- An operator between two operands. -/
inductive Operator where
  | binary (op : BinaryOp)
  | logical (op : LogicalOp)
deriving DecidableEq, Repr

/-- How tightly an operator binds; a larger number binds tighter. -/
def Operator.precedence : Operator → Nat
  | .logical .nullish => 1
  | .logical .or => 2
  | .logical .and => 3
  | .binary .looseEq | .binary .looseNotEq | .binary .strictEq | .binary .strictNotEq => 4
  | .binary .lt | .binary .le | .binary .gt | .binary .ge => 5
  | .binary .add | .binary .sub => 6
  | .binary .mul | .binary .div | .binary .rem => 7

/-- One more than the precedence of the operators that bind most tightly. -/
def Operator.precedenceBound : Nat := 8

theorem Operator.precedence_lt (op : Operator) : op.precedence < Operator.precedenceBound := by
  cases op with
  | binary op => cases op <;> decide
  | logical op => cases op <;> decide

end SourceMachine
