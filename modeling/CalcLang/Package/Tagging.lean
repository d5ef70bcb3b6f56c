import CalcLang.Package

/-!
# Tagging

`Package.tag` numbers everything that becomes a named temporary in generated code: parameters,
local variables, binary operations and `if`s. Numbers are given in the order declarations, then
the parameters of each, then its body from the root down and from left to right. The caller says
which number comes first and gets back the one that comes next, so that several packages can
share one sequence of numbers. Earlier tags are overwritten.
-/

namespace CalcLang

namespace Tagging

/-- The number of the first tag of a fresh sequence. -/
def first : Nat := 1

/-- A tagged tree, the next number, and the symbols with their tags. -/
abbrev Tagged (α : Type) := α × Nat × Symbols

mutual

/-- Tags a node. -/
def tag : Node → Nat → Symbols → Tagged Node
  | .const value pos, k, s => (.const value pos, k, s)
  | .read name symbol ty pos, k, s => (.read name symbol ty pos, k, s)
  | .error pos, k, s => (.error pos, k, s)
  | .binary op lhs rhs ty _ pos, k, s =>
    let (lhs, next, s) := tag lhs (k + 1) s
    let (rhs, next, s) := tag rhs next s
    (.binary op lhs rhs ty (some ⟨k⟩) pos, next, s)
  | .unary op operand ty pos, k, s =>
    let (operand, k, s) := tag operand k s
    (.unary op operand ty pos, k, s)
  | .call name callee args ty pos, k, s =>
    let (args, k, s) := tagAll args k s
    (.call name callee args ty pos, k, s)
  | .ifThen test written yes ty _ pos, k, s =>
    let (test, next, s) := tag test (k + 1) s
    let (yes, next, s) := tag yes next s
    (.ifThen test written yes ty (some ⟨k⟩) pos, next, s)
  | .ifThenElse test written yes no ty _ pos, k, s =>
    let (test, next, s) := tag test (k + 1) s
    let (yes, next, s) := tag yes next s
    let (no, next, s) := tag no next s
    (.ifThenElse test written yes no ty (some ⟨k⟩) pos, next, s)
  | .block nodes ty pos, k, s =>
    let (nodes, k, s) := tagAll nodes k s
    (.block nodes ty pos, k, s)
  | .assign name target value ty pos, k, s =>
    let (value, k, s) := tag value k s
    (.assign name target value ty pos, k, s)
  | .declare name symbol written pos, k, s =>
    (.declare name symbol written pos, k + 1, s.setTag symbol ⟨k⟩)
  | .define name symbol written init pos, k, s =>
    let (init, next, s) := tag init (k + 1) (s.setTag symbol ⟨k⟩)
    (.define name symbol written init pos, next, s)

/-- Tags nodes one after the other. -/
def tagAll : List Node → Nat → Symbols → Tagged (List Node)
  | [], k, s => ([], k, s)
  | node :: nodes, k, s =>
    let (node, k, s) := tag node k s
    let (nodes, k, s) := tagAll nodes k s
    (node :: nodes, k, s)

end

/-- Tags the parameters of a declaration. -/
def tagParams : List SymbolId → Nat → Symbols → Nat × Symbols
  | [], k, s => (k, s)
  | symbol :: symbols, k, s => tagParams symbols (k + 1) (s.setTag symbol ⟨k⟩)

/-- Tags declarations one after the other. -/
def tagDecls : List Declaration → Nat → Symbols → Tagged (List Declaration)
  | [], k, s => ([], k, s)
  | decl :: decls, k, s =>
    let (k, s) := tagParams decl.params k s
    let (body, k, s) := tag decl.body k s
    let (decls, k, s) := tagDecls decls k s
    ({ decl with body := body } :: decls, k, s)

end Tagging

namespace Package

/-- Tags a checked package with the numbers from `first` on, and gives the number behind the
last. -/
def tag (p : Package) (_ : p.stage.IsChecked) (first : Nat) : Package × Nat :=
  let (decls, next, symbols) := Tagging.tagDecls p.decls first p.symbols
  ({ p with decls := decls, symbols := symbols, stage := .tagged }, next)

/-- Tags a package, if it has been checked. -/
def tag? (p : Package) (first : Nat) : Except Fault (Package × Nat) :=
  if h : p.stage.IsChecked then .ok (p.tag h first) else .error (.notChecked p.name)

theorem stage_tag (p : Package) (h : p.stage.IsChecked) (first : Nat) :
    (p.tag h first).1.stage = .tagged := rfl

end Package

end CalcLang
