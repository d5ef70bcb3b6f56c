import CalcLang.Package

/-!
# C programs

The part of C that generated code uses. Expressions are literals, temporaries, unary operations
and calls; a binary operation stands only on the right of a declaration, with operands that need
no parentheses. A function computes statements and returns one expression, and the program ends
with a `main` that prints the value of the entry declaration.
-/

namespace CalcLang.C

/-- A C type. -/
inductive CType
  /-- `int32_t` -/
  | int32
  /-- `bool` -/
  | bool
  /-- `int`, for a value whose type could not be found. -/
  | int
  deriving DecidableEq, Repr, Inhabited

/-- The C type of the values of a type. -/
def CType.ofTy : Option Ty → CType
  | some .int => int32
  | some .bool => bool
  | none => int

/-- A temporary of a function. -/
inductive Temp
  /-- The temporary of a tagged node or symbol. -/
  | tagged (tag : Tag)
  /-- A copy of a value that a later operand could change. -/
  | spill (number : Nat)
  /-- Stands where a tag is missing. -/
  | missing
  deriving DecidableEq, Repr, Inhabited

/-- A C expression. -/
inductive Expr
  | int (value : Word)
  | bool (value : Bool)
  | temp (temp : Temp)
  | unary (op : UnaryOp) (operand : Expr)
  /-- A call of the function of the declaration `name`. -/
  | call (name : String) (args : List Expr)
  deriving Repr, Inhabited

namespace Expr

/-- The literal of a value. -/
def ofValue : Value → Expr
  | .int w => int w
  | .bool b => bool b

/-- The value that a temporary of a type has before anything is assigned to it. -/
def zero : Option Ty → Expr
  | some .bool => bool false
  | _ => int Word.zero

end Expr

/-- What a temporary is declared with. -/
inductive Init
  | expr (value : Expr)
  | binary (op : BinaryOp) (lhs rhs : Expr)
  deriving Repr, Inhabited

/-- A C statement. -/
inductive Stmt
  | declare (ty : CType) (temp : Temp) (init : Init)
  | assign (temp : Temp) (value : Expr)
  /-- Evaluates an expression for its effects. -/
  | eval (value : Expr)
  | ifThen (test : Expr) (yes : List Stmt)
  | ifThenElse (test : Expr) (yes no : List Stmt)
  deriving Repr, Inhabited

/-- The head of the function of a declaration. -/
structure Signature where
  ret : CType
  name : String
  params : List (CType × Temp)
  deriving DecidableEq, Repr, Inhabited

/-- The function of a declaration. -/
structure Function where
  signature : Signature
  body : List Stmt
  result : Expr
  deriving Repr, Inhabited

/-- The call with which a program starts: a declaration and its arguments. -/
structure Entry where
  name : String
  args : List Expr
  deriving Repr, Inhabited

/-- A C program: heads of functions, the functions, and the entry if there is one. -/
structure Program where
  heads : List Signature
  functions : List Function
  entry : Option Entry
  deriving Repr, Inhabited

end CalcLang.C
