import CalcLang.C.Effects
import CalcLang.C.Print
import CalcLang.Diagnostic

/-!
# Lowering packages to C

`lower` turns a node into a C expression for its value and the statements that have to run first.
A binary operation, an `if` and a variable each get the temporary of their tag; a discarded
element of a block leaves only its effects. `Package.toC` lowers a whole package, and
`Package.generate?` gives the text of the result.

The generator never stops: a node that it cannot lower is reported and reads as zero.
-/

namespace CalcLang.C

/-- The report of a node for which no code can be generated. -/
def unreachable (what : String) (pos : Pos) : List Diagnostic :=
  [⟨.internalUnreachable what, pos⟩]

/-- The temporary of a tag, with a report if the tag is missing. -/
def tempOf (tag : Option Tag) (pos : Pos) : Temp × List Diagnostic :=
  match tag with
  | some tag => (.tagged tag, [])
  | none => (.missing, unreachable "untagged node" pos)

/-- A lowered node: its value, the statements that run before the value is used, the number of
spills so far, and the diagnostics of the node. -/
structure Lowered (α : Type) where
  value : α
  stmts : List Stmt
  spills : Nat
  diags : List Diagnostic
  deriving Repr, Inhabited

/-- Copies the value of an operand if the operands behind it call for that. -/
def spillFor (symbols : Symbols) (operand : Node) (later : List Node) (r : Lowered Expr) :
    Lowered Expr :=
  if mustSpill operand later then
    let copy := Temp.spill (r.spills + 1)
    { value := .temp copy
      stmts := r.stmts ++ [.declare (.ofTy (operand.ty symbols)) copy (.expr r.value)]
      spills := r.spills + 1
      diags := r.diags }
  else r

/-- What remains of the value of a discarded node: a call still has to be made. -/
def discard (node : Node) (value : Expr) : List Stmt :=
  if valueCalls node then [.eval value] else []

mutual

/-- Lowers a node after a number of spills. -/
def lower (symbols : Symbols) : Node → Nat → Lowered Expr
  | .const value _, k => ⟨.ofValue value, [], k, []⟩
  | .error pos, k => ⟨.int .zero, [], k, unreachable "unresolved form" pos⟩
  | .read _ symbol _ pos, k =>
    let (t, d) := tempOf (symbols.tag symbol) pos
    ⟨.temp t, [], k, d⟩
  | .binary op lhs rhs ty tag pos, k =>
    let l := spillFor symbols lhs [rhs] (lower symbols lhs k)
    let r := lower symbols rhs l.spills
    let (t, d) := tempOf tag pos
    ⟨.temp t, l.stmts ++ r.stmts ++ [.declare (.ofTy ty) t (.binary op l.value r.value)],
      r.spills, l.diags ++ r.diags ++ d⟩
  | .unary op operand _ _, k =>
    let r := lower symbols operand k
    { r with value := .unary op r.value }
  | .call name _ args _ _, k =>
    let r := lowerOperands symbols args k
    ⟨.call name r.value, r.stmts, r.spills, r.diags⟩
  | .ifThen test _ yes ty tag pos, k =>
    let (t, d) := tempOf tag pos
    let c := lower symbols test k
    let y := lower symbols yes c.spills
    ⟨.temp t,
      .declare (.ofTy ty) t (.expr (.zero ty)) :: c.stmts
        ++ [.ifThen c.value (y.stmts ++ [.assign t y.value])],
      y.spills, d ++ c.diags ++ y.diags⟩
  | .ifThenElse test _ yes no ty tag pos, k =>
    let (t, d) := tempOf tag pos
    let c := lower symbols test k
    let y := lower symbols yes c.spills
    let n := lower symbols no y.spills
    ⟨.temp t,
      .declare (.ofTy ty) t (.expr (.zero ty)) :: c.stmts
        ++ [.ifThenElse c.value (y.stmts ++ [.assign t y.value]) (n.stmts ++ [.assign t n.value])],
      n.spills, d ++ c.diags ++ y.diags ++ n.diags⟩
  | .block nodes _ pos, k => lowerBlock symbols pos nodes k
  | .assign _ target value _ pos, k =>
    let r := lower symbols value k
    let (t, d) := tempOf (symbols.tag target) pos
    ⟨.temp t, r.stmts ++ [.assign t r.value], r.spills, r.diags ++ d⟩
  | .declare _ symbol _ pos, k =>
    let (t, d) := tempOf (symbols.tag symbol) pos
    let ty := symbols.ty symbol
    ⟨.temp t, [.declare (.ofTy ty) t (.expr (.zero ty))], k, d⟩
  | .define _ symbol _ init pos, k =>
    let r := lower symbols init k
    let (t, d) := tempOf (symbols.tag symbol) pos
    ⟨.temp t, r.stmts ++ [.declare (.ofTy (symbols.ty symbol)) t (.expr r.value)], r.spills,
      r.diags ++ d⟩

/-- Lowers the elements of a block. Its value is that of the last one. -/
def lowerBlock (symbols : Symbols) (pos : Pos) : List Node → Nat → Lowered Expr
  | [], k => ⟨.int .zero, [], k, unreachable "empty block" pos⟩
  | [node], k => lower symbols node k
  | node :: next :: nodes, k =>
    let first := lower symbols node k
    let others := lowerBlock symbols pos (next :: nodes) first.spills
    ⟨others.value, first.stmts ++ discard node first.value ++ others.stmts, others.spills,
      first.diags ++ others.diags⟩

/-- Lowers operands from left to right. -/
def lowerOperands (symbols : Symbols) : List Node → Nat → Lowered (List Expr)
  | [], k => ⟨[], [], k, []⟩
  | node :: nodes, k =>
    let first := spillFor symbols node nodes (lower symbols node k)
    let others := lowerOperands symbols nodes first.spills
    ⟨first.value :: others.value, first.stmts ++ others.stmts, others.spills,
      first.diags ++ others.diags⟩

end

/-! ## Declarations and programs -/

/-- The parameters of a function. -/
def lowerParams (symbols : Symbols) : List SymbolId → List (CType × Temp) × List Diagnostic
  | [] => ([], [])
  | param :: params =>
    let (t, d₁) := tempOf (symbols.tag param) (symbols.pos param)
    let (rest, d₂) := lowerParams symbols params
    ((.ofTy (symbols.ty param), t) :: rest, d₁ ++ d₂)

/-- The head of the function of a declaration. -/
def lowerSignature (symbols : Symbols) (d : Declaration) : Signature × List Diagnostic :=
  let (params, diags) := lowerParams symbols d.params
  (⟨.ofTy (some d.ret), d.name, params⟩, diags)

/-- The heads of the functions of declarations. -/
def lowerSignatures (symbols : Symbols) (decls : List Declaration) :
    List Signature × List Diagnostic :=
  let lowered := decls.map (lowerSignature symbols)
  (lowered.map Prod.fst, lowered.flatMap Prod.snd)

/-- The functions of declarations. Spills are numbered through all of them. -/
def lowerDecls (symbols : Symbols) : List Declaration → Nat → List Function × List Diagnostic
  | [], _ => ([], [])
  | decl :: decls, k =>
    let (signature, d₁) := lowerSignature symbols decl
    let body := lower symbols decl.body k
    let (functions, d₂) := lowerDecls symbols decls body.spills
    (⟨signature, body.stmts, body.value⟩ :: functions, d₁ ++ body.diags ++ d₂)

/-- The name of the declaration that a program starts with. -/
def entryName : String := "main"

/-- The entry of a program. Its parameters receive zeros. -/
def lowerEntry (p : Package) : Option Entry × List Diagnostic :=
  match p.lookup? entryName with
  | some d => (some ⟨d.name, d.params.map fun param => .zero (p.symbols.ty param)⟩, [])
  | none => (none, [⟨.missingEntry entryName, .origin⟩])

end C

namespace Package

/-- The C program of a package. -/
def toC (p : Package) : C.Program × List Diagnostic :=
  let (heads, d₁) := C.lowerSignatures p.symbols p.decls
  let (functions, d₂) := C.lowerDecls p.symbols p.decls 0
  let (entry, d₃) := C.lowerEntry p
  (⟨heads, functions, entry⟩, d₁ ++ d₂ ++ d₃)

/-- The C text of a tagged package. -/
def generate (p : Package) (_ : p.stage = .tagged) : String × List Diagnostic :=
  let (program, d) := p.toC
  (program.text, d)

/-- The C text of a package, if it has been tagged. -/
def generate? (p : Package) : Except Fault (String × List Diagnostic) :=
  if h : p.stage = .tagged then .ok (p.generate h) else .error (.notTagged p.name p.stage)

/-- The diagnostics of generating C into a place that refuses to be written, with the reason for
that. -/
def generateInto? (p : Package) (refusal : String) : Except Fault (List Diagnostic) :=
  p.generate?.map fun r => r.2 ++ [⟨.write refusal, .origin⟩]

end Package

end CalcLang
