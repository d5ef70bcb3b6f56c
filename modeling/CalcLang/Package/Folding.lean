import CalcLang.Package

/-!
# Constant folding

`Package.fold` replaces an operator node whose operands are constants by the value of the
operation, from the leaves up, at the position of the node. An operation without a value stays,
and so does one whose value does not have the type recorded on the node. An `if` is never
replaced.
-/

namespace CalcLang

namespace Folding

/-- The constant that replaces a node of the given type, if `value` has that type. -/
def constant? (value : Option Value) (ty : Option Ty) (pos : Pos) : Option Node :=
  (value.filter fun v => some v.ty == ty).map fun v => .const v pos

/-- The value of a binary operation on nodes, if both are constants. -/
def binary? (op : BinaryOp) (lhs rhs : Node) : Option Value := do
  let a ← lhs.constant?
  let b ← rhs.constant?
  Value.binary op a b

/-- The value of a unary operation on a node, if it is a constant. -/
def unary? (op : UnaryOp) (operand : Node) : Option Value := do
  let a ← operand.constant?
  Value.unary op a

mutual

/-- Folds a node. -/
def fold : Node → Node
  | .const value pos => .const value pos
  | .read name symbol ty pos => .read name symbol ty pos
  | .error pos => .error pos
  | .binary op lhs rhs ty tag pos =>
    let lhs := fold lhs
    let rhs := fold rhs
    (constant? (binary? op lhs rhs) ty pos).getD (.binary op lhs rhs ty tag pos)
  | .unary op operand ty pos =>
    let operand := fold operand
    (constant? (unary? op operand) ty pos).getD (.unary op operand ty pos)
  | .call name callee args ty pos => .call name callee (foldAll args) ty pos
  | .ifThen test written yes ty tag pos => .ifThen (fold test) written (fold yes) ty tag pos
  | .ifThenElse test written yes no ty tag pos =>
    .ifThenElse (fold test) written (fold yes) (fold no) ty tag pos
  | .block nodes ty pos => .block (foldAll nodes) ty pos
  | .assign name target value ty pos => .assign name target (fold value) ty pos
  | .declare name symbol written pos => .declare name symbol written pos
  | .define name symbol written init pos => .define name symbol written (fold init) pos

/-- Folds each of a list of nodes. -/
def foldAll : List Node → List Node
  | [] => []
  | node :: nodes => fold node :: foldAll nodes

end

mutual

/-- The number of operator nodes in a node. Each replacement takes one of them away. -/
def operators : Node → Nat
  | .const _ _ | .read _ _ _ _ | .error _ | .declare _ _ _ _ => 0
  | .binary _ lhs rhs _ _ _ => operators lhs + operators rhs + 1
  | .unary _ operand _ _ => operators operand + 1
  | .call _ _ args _ _ => operatorsAll args
  | .ifThen test _ yes _ _ _ => operators test + operators yes
  | .ifThenElse test _ yes no _ _ _ => operators test + operators yes + operators no
  | .block nodes _ _ => operatorsAll nodes
  | .assign _ _ value _ _ => operators value
  | .define _ _ _ init _ => operators init

/-- The number of operator nodes in a list of nodes. -/
def operatorsAll : List Node → Nat
  | [] => 0
  | node :: nodes => operators node + operatorsAll nodes

end

/-- Folds the body of a declaration. -/
def foldDecl (d : Declaration) : Declaration := { d with body := fold d.body }

end Folding

namespace Package

/-- Folds a package that has been checked and carries no tags. -/
def fold (p : Package) (_ : p.stage.IsFoldable) : Package :=
  { p with decls := p.decls.map Folding.foldDecl, stage := .folded }

/-- Folds a package, if its stage allows it. -/
def fold? (p : Package) : Except Fault Package :=
  if h : p.stage.IsFoldable then .ok (p.fold h) else .error (.notFoldable p.name)

/-- The number of operator nodes of a package. -/
def operators (p : Package) : Nat :=
  p.decls.foldr (fun d count => Folding.operators d.body + count) 0

end Package

end CalcLang
