import CalcLang.Span
import CalcLang.Value

/-!
# Expressions and declarations

The tree of a source text. Names are plain strings here, bound to declarations, parameters and
variables only when a package is built. Every node carries the position that it was read from.
-/

namespace CalcLang

/-- A written name. -/
structure Ident where
  name : String
  pos : Pos
  deriving DecidableEq, Repr, Inhabited

/-- A written type. -/
structure TypeExpr where
  ty : Ty
  pos : Pos
  deriving DecidableEq, Repr, Inhabited

/-- An expression. -/
inductive Expr
  | int (value : Word) (pos : Pos)
  | bool (value : Bool) (pos : Pos)
  /-- A name that is read. -/
  | name (ident : Ident)
  | binary (op : BinaryOp) (lhs rhs : Expr) (pos : Pos)
  | unary (op : UnaryOp) (operand : Expr) (pos : Pos)
  /-- `(if test [type] yes)` -/
  | ifThen (test : Expr) (ty : Option TypeExpr) (yes : Expr) (pos : Pos)
  /-- `(if test [type] yes no)` -/
  | ifThenElse (test : Expr) (ty : Option TypeExpr) (yes no : Expr) (pos : Pos)
  /-- `(var name type)`: a variable that starts as the zero of its type. -/
  | declare (name : Ident) (ty : TypeExpr) (pos : Pos)
  /-- `(var (= name init) [type])`: a variable with an initial value. -/
  | define (name : Ident) (ty : Option TypeExpr) (init : Expr) (pos : Pos)
  /-- `(= name value)` -/
  | assign (name : Ident) (value : Expr) (pos : Pos)
  /-- `(name args...)` -/
  | call (name : Ident) (args : List Expr) (pos : Pos)
  /-- `(expr expr ...)`: its value is that of its last element. -/
  | block (exprs : List Expr) (pos : Pos)
  deriving Repr, Inhabited

namespace Expr

/-- The position of an expression. -/
def pos : Expr → Pos
  | name ident => ident.pos
  | int _ pos | bool _ pos | binary _ _ _ pos | unary _ _ pos | ifThen _ _ _ pos
  | ifThenElse _ _ _ _ pos | declare _ _ pos | define _ _ _ pos | assign _ _ pos
  | call _ _ pos | block _ pos => pos

/-- Whether an expression is a block. -/
def isBlock : Expr → Bool
  | block _ _ => true
  | _ => false

/-- The chain `(op first rest...)`, which groups to the left. All its nodes have the position of
the whole form. -/
def chain (op : BinaryOp) (first : Expr) (rest : List Expr) (pos : Pos) : Expr :=
  rest.foldl (fun acc rhs => binary op acc rhs pos) first

end Expr

/-- A parameter of a declaration. -/
structure Param where
  name : Ident
  ty : TypeExpr
  deriving DecidableEq, Repr, Inhabited

/-- `(decl name (params...) type body)`: a function. -/
structure Decl where
  name : Ident
  params : List Param
  ret : TypeExpr
  body : Expr
  pos : Pos
  deriving Repr, Inhabited

end CalcLang
