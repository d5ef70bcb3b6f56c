import CalcLang.Ty

/-!
# Operators

The thirteen binary and two unary operators. An operator is written the same way in a source
text and in C. `BinaryOp.operand?` and `BinaryOp.result` are its typing: arithmetic and ordering
work on integers, `&&` and `||` on booleans, `==` and `!=` on two values of either type.
-/

namespace CalcLang

/-- A binary operator. -/
inductive BinaryOp
  | add
  | sub
  | mul
  | div
  | rem
  | eq
  | ne
  | lt
  | le
  | gt
  | ge
  | and
  | or
  deriving DecidableEq, Repr, Inhabited

namespace BinaryOp

/-- The spelling of an operator. -/
def symbol : BinaryOp → String
  | add => "+"
  | sub => "-"
  | mul => "*"
  | div => "/"
  | rem => "%"
  | eq => "=="
  | ne => "!="
  | lt => "<"
  | le => "<="
  | gt => ">"
  | ge => ">="
  | and => "&&"
  | or => "||"

/-- The type of both operands, or `none` if they may have either type. -/
def operand? : BinaryOp → Option Ty
  | add | sub | mul | div | rem | lt | le | gt | ge => some .int
  | and | or => some .bool
  | eq | ne => none

/-- The type of the result. -/
def result : BinaryOp → Ty
  | add | sub | mul | div | rem => .int
  | eq | ne | lt | le | gt | ge | and | or => .bool

end BinaryOp

/-- A unary operator. -/
inductive UnaryOp
  /-- Negation of an integer. -/
  | neg
  /-- Negation of a boolean. -/
  | not
  deriving DecidableEq, Repr, Inhabited

namespace UnaryOp

/-- The spelling of an operator. -/
def symbol : UnaryOp → String
  | neg => "-"
  | not => "!"

/-- The type of the operand, which is also that of the result. -/
def operand : UnaryOp → Ty
  | neg => .int
  | not => .bool

end UnaryOp

end CalcLang
