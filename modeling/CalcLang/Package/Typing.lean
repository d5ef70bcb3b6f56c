import CalcLang.Diagnostic
import CalcLang.Package

/-!
# Type checking

`Package.check` finds the type of every node from the types of its parts, records it on the node
or, for a variable, on its symbol, and reports every disagreement. A node whose parts have no
type gets none itself without a report, so that one mistake makes one diagnostic. The type of a
call is the return type of its declaration, even if the arguments are wrong, and a variable keeps
the type written on it.
-/

namespace CalcLang

namespace Typing

/-- The types of a declaration: those of its parameters and of its result. -/
structure Signature where
  name : String
  params : List (Option Ty)
  ret : Ty
  deriving DecidableEq, Repr, Inhabited

/-- The signatures of the declarations of a package, by number. -/
abbrev Signatures := List Signature

/-- The signatures of declarations whose symbols are given. -/
def signatures (symbols : Symbols) (decls : List Declaration) : Signatures :=
  decls.map fun d => ⟨d.name, d.params.map symbols.ty, d.ret⟩

/-- The report that `found` should be `expected`. -/
def mismatch (expected found : Ty) (context : Diagnostic.Context) (pos : Pos) : Diagnostic :=
  ⟨.typeMismatch expected.name found.name context, pos⟩

/-- The report of two types that disagree. A missing type agrees with everything. -/
def expect (expected found : Option Ty) (context : Diagnostic.Context) (pos : Pos) :
    List Diagnostic :=
  match expected, found with
  | some e, some f => if e = f then [] else [mismatch e f context pos]
  | _, _ => []

/-- The type that two types have in common: both are known and equal. -/
def agreed (expected found : Option Ty) : Option Ty :=
  if expected = found then expected else none

/-- The type of a binary operation on operands of the given types. -/
def binary (op : BinaryOp) (lhs rhs : Option Ty) (pos : Pos) : Option Ty × List Diagnostic :=
  match lhs, rhs with
  | some l, some r =>
    if l ≠ r then (none, [mismatch l r .operand pos])
    else
      let wanted := op.operand?.getD l
      if wanted ≠ l then (none, [mismatch wanted l .operand pos]) else (some op.result, [])
  | _, _ => (none, [])

/-- The reports about the arguments of a call, the first of which has number `index`. -/
def arguments (index : Nat) : List (Option Ty) → List (Option Ty × Pos) → List Diagnostic
  | expected :: es, (found, pos) :: fs =>
    expect expected found (.argument index) pos ++ arguments (index + 1) es fs
  | _, _ => []

/-- The type of a call, given the types and positions of its arguments. -/
def call (signature : Signature) (args : List (Option Ty × Pos)) (pos : Pos) :
    List Diagnostic :=
  if args.length = signature.params.length then arguments 0 signature.params args
  else [⟨.arityMismatch signature.name signature.params.length args.length, pos⟩]

/-- The type of an `if` whose branches have the type `unified`, when the type `written` may stand
on it. -/
def written (written unified : Option Ty) (pos : Pos) : Option Ty × List Diagnostic :=
  match written, unified with
  | some w, some u => (agreed (some w) (some u), expect (some w) (some u) .branches pos)
  | _, _ => (unified, [])

/-- A checked node, its type, the symbols with the types found so far, and the diagnostics of the
node. -/
abbrev Checked (α τ : Type) := α × τ × Symbols × List Diagnostic

mutual

/-- Checks a node. -/
def check (sigs : Signatures) : Node → Symbols → Checked Node (Option Ty)
  | .const value pos, s => (.const value pos, some value.ty, s, [])
  | .error pos, s => (.error pos, none, s, [])
  | .read name symbol _ pos, s =>
    let ty := s.ty symbol
    (.read name symbol ty pos, ty, s, [])
  | .binary op lhs rhs _ tag pos, s =>
    let (lhs, lty, s, d₁) := check sigs lhs s
    let (rhs, rty, s, d₂) := check sigs rhs s
    let (ty, d₃) := binary op lty rty pos
    (.binary op lhs rhs ty tag pos, ty, s, d₁ ++ d₂ ++ d₃)
  | .unary op operand _ pos, s =>
    let (operand, found, s, d) := check sigs operand s
    let ty := agreed (some op.operand) found
    (.unary op operand ty pos, ty, s, d ++ expect (some op.operand) found .operand pos)
  | .ifThen test wty yes _ tag pos, s =>
    let (test, tty, s, d₁) := check sigs test s
    let (yes, yty, s, d₂) := check sigs yes s
    let (ty, d₃) := written wty yty pos
    (.ifThen test wty yes ty tag pos, ty, s,
      d₁ ++ expect (some .bool) tty .condition test.pos ++ d₂ ++ d₃)
  | .ifThenElse test wty yes no _ tag pos, s =>
    let (test, tty, s, d₁) := check sigs test s
    let (yes, yty, s, d₂) := check sigs yes s
    let (no, nty, s, d₃) := check sigs no s
    let (ty, d₄) := written wty (agreed yty nty) pos
    (.ifThenElse test wty yes no ty tag pos, ty, s,
      d₁ ++ expect (some .bool) tty .condition test.pos ++ d₂ ++ d₃
        ++ expect yty nty .branches no.pos ++ d₄)
  | .block nodes _ pos, s =>
    let (nodes, tys, s, d) := checkAll sigs nodes s
    let ty := tys.getLast?.bind Prod.fst
    (.block nodes ty pos, ty, s, d)
  | .assign name target value _ pos, s =>
    let (value, found, s, d) := check sigs value s
    let ty := agreed (s.ty target) found
    (.assign name target value ty pos, ty, s,
      d ++ expect (s.ty target) found .assignment value.pos)
  | .declare name symbol wty pos, s =>
    (.declare name symbol wty pos, some wty, s.setTy symbol (some wty), [])
  | .define name symbol wty init pos, s =>
    let (init, found, s, d) := check sigs init s
    let ty := wty.or found
    (.define name symbol wty init pos, ty, s.setTy symbol ty,
      d ++ expect wty found .initializer init.pos)
  | .call name callee args _ pos, s =>
    let (args, tys, s, d) := checkAll sigs args s
    match sigs[callee.index]? with
    | some sig =>
      (.call name callee args (some sig.ret) pos, some sig.ret, s, d ++ call sig tys pos)
    | none => (.call name callee args none pos, none, s, d)

/-- Checks nodes one after the other. Each type comes with the position of its node. -/
def checkAll (sigs : Signatures) :
    List Node → Symbols → Checked (List Node) (List (Option Ty × Pos))
  | [], s => ([], [], s, [])
  | node :: nodes, s =>
    let (node, ty, s, d₁) := check sigs node s
    let (nodes, tys, s, d₂) := checkAll sigs nodes s
    (node :: nodes, (ty, node.pos) :: tys, s, d₁ ++ d₂)

end

/-- Checks declarations one after the other. -/
def checkDecls (sigs : Signatures) :
    List Declaration → Symbols → List Declaration × Symbols × List Diagnostic
  | [], s => ([], s, [])
  | decl :: decls, s =>
    let (body, ty, s, d₁) := check sigs decl.body s
    let (decls, s, d₂) := checkDecls sigs decls s
    ({ decl with body := body } :: decls, s,
      d₁ ++ expect (some decl.ret) ty .result body.pos ++ d₂)

end Typing

namespace Package

/-- Type checks a package that has just been built. -/
def check (p : Package) (_ : p.stage = .built) : Package × List Diagnostic :=
  let sigs := Typing.signatures p.symbols p.decls
  let (decls, symbols, d) := Typing.checkDecls sigs p.decls p.symbols
  ({ p with decls := decls, symbols := symbols, stage := .checked }, d)

/-- Type checks a package, unless that has been done already. -/
def check? (p : Package) : Except Fault (Package × List Diagnostic) :=
  if h : p.stage = .built then .ok (p.check h) else .error (.alreadyChecked p.name p.stage)

theorem stage_check (p : Package) (h : p.stage = .built) : (p.check h).1.stage = .checked := rfl

end Package

end CalcLang
