import CalcLang.Diagnostic
import CalcLang.Package

/-!
# Lexical scoping

What names stand for, said without tables of scopes. A point in a program is inside some frames, the
innermost first, and each frame lists the names that it binds. `Lexical.resolve` walks through an
expression in the order of evaluation and takes the frames along: a variable is bound in the
innermost frame once its initial value has been resolved, and a block or a branch of an `if` has a
frame of its own that is dropped at its end. A name stands for what the innermost frame that has it
binds it to, at the moment when it is looked up; that of a call or an assignment is looked up behind
the arguments or the value.

The outermost frame holds the first declaration of every name (`Lexical.firsts`), so declarations
see each other wherever they stand. Whatever binds a name becomes a symbol, numbered in order.
-/

namespace CalcLang.Lexical

/-- What a name is bound to: a symbol, and its number. -/
structure Binding where
  id : SymbolId
  symbol : Symbol

/-- The names that one frame binds, in the order in which they were bound. -/
abbrev Frame := List (String × Binding)

/-- The frames around a point, innermost first, and all symbols so far. -/
structure Point where
  frames : List Frame
  symbols : List Symbol

/-- A part of a program with resolved names, the point behind it, and its diagnostics. -/
abbrev Outcome (α : Type) := α × Point × List Diagnostic

/-- The innermost binding of a name. -/
def find? (frames : List Frame) (name : String) : Option Binding :=
  frames.findSome? fun frame => frame.lookup name

namespace Point

/-- Enters a new frame. -/
def enter (p : Point) : Point := { p with frames := [] :: p.frames }

/-- Drops the innermost frame. -/
def leave (p : Point) : Point := { p with frames := p.frames.tail }

/-- Makes a symbol and binds its name in the innermost frame. A name that the frame binds already
keeps its binding, and is reported. -/
def bind (p : Point) (ident : Ident) (kind : SymbolKind) (ty : Option Ty) :
    Point × List Diagnostic :=
  let symbol : Symbol := ⟨ident.name, kind, ty, none, ident.pos⟩
  let symbols := p.symbols ++ [symbol]
  match p.frames with
  | [] => (⟨[], symbols⟩, [])
  | frame :: frames =>
    match frame.lookup ident.name with
    | some first =>
      (⟨frame :: frames, symbols⟩, [⟨.redeclaration ident.name first.symbol.pos, ident.pos⟩])
    | none => (⟨(frame ++ [(ident.name, ⟨⟨p.symbols.length⟩, symbol⟩)]) :: frames, symbols⟩, [])

/-- The parameter or variable that a name stands for. A declaration is reported as `misuse`. -/
def var? (p : Point) (ident : Ident) (misuse : String → Diagnostic.Kind) :
    Except Diagnostic SymbolId :=
  match find? p.frames ident.name with
  | none => .error ⟨.unresolvedName ident.name, ident.pos⟩
  | some b =>
    match b.symbol.kind with
    | .declaration _ => .error ⟨misuse ident.name, ident.pos⟩
    | .param | .variable => .ok b.id

/-- The declaration that a name stands for. -/
def declaration? (p : Point) (ident : Ident) : Except Diagnostic DeclId :=
  match find? p.frames ident.name with
  | none => .error ⟨.unresolvedName ident.name, ident.pos⟩
  | some b =>
    match b.symbol.kind with
    | .declaration id => .ok id
    | .param | .variable => .error ⟨.notCallable ident.name, ident.pos⟩

end Point

/-! ## Expressions -/

mutual

/-- Resolves the names of an expression. -/
def resolve : Expr → Point → Outcome Node
  | .int value pos, p => (.const (.int value) pos, p, [])
  | .bool value pos, p => (.const (.bool value) pos, p, [])
  | .name ident, p =>
    match p.var? ident .notAValue with
    | .ok x => (.read ident.name x none ident.pos, p, [])
    | .error d => (.error ident.pos, p, [d])
  | .binary op lhs rhs pos, p =>
    let (lhs, p, d₁) := resolve lhs p
    let (rhs, p, d₂) := resolve rhs p
    (.binary op lhs rhs none none pos, p, d₁ ++ d₂)
  | .unary op operand pos, p =>
    let (operand, p, d) := resolve operand p
    (.unary op operand none pos, p, d)
  | .ifThen test ty yes pos, p =>
    let (test, p, d₁) := resolve test p
    let (yes, p, d₂) := resolve yes p.enter
    (.ifThen test (ty.map TypeExpr.ty) yes none none pos, p.leave, d₁ ++ d₂)
  | .ifThenElse test ty yes no pos, p =>
    let (test, p, d₁) := resolve test p
    let (yes, p, d₂) := resolve yes p.enter
    let (no, p, d₃) := resolve no p.leave.enter
    (.ifThenElse test (ty.map TypeExpr.ty) yes no none none pos, p.leave, d₁ ++ d₂ ++ d₃)
  | .declare name ty pos, p =>
    let (p', d) := p.bind name .variable (some ty.ty)
    (.declare name.name ⟨p.symbols.length⟩ ty.ty pos, p', d)
  | .define name ty init pos, p =>
    let (init, p, d₁) := resolve init p
    let (p', d₂) := p.bind name .variable (ty.map TypeExpr.ty)
    (.define name.name ⟨p.symbols.length⟩ (ty.map TypeExpr.ty) init pos, p', d₁ ++ d₂)
  | .assign name value pos, p =>
    let (value, p, d) := resolve value p
    match p.var? name .notAssignable with
    | .ok x => (.assign name.name x value none pos, p, d)
    | .error e => (.error pos, p, d ++ [e])
  | .call name args pos, p =>
    let (args, p, d) := resolveAll args p
    match p.declaration? name with
    | .ok callee => (.call name.name callee args none pos, p, d)
    | .error e => (.error pos, p, d ++ [e])
  | .block exprs pos, p =>
    let (nodes, p, d) := resolveAll exprs p.enter
    (.block nodes none pos, p.leave, d)

/-- Resolves the names of expressions one after the other. -/
def resolveAll : List Expr → Point → Outcome (List Node)
  | [], p => ([], p, [])
  | e :: es, p =>
    let (node, p, d₁) := resolve e p
    let (nodes, p, d₂) := resolveAll es p
    (node :: nodes, p, d₁ ++ d₂)

end

/-! ## Declarations -/

/-- A declaration with resolved names. -/
structure Function where
  name : String
  symbol : SymbolId
  params : List SymbolId
  ret : Ty
  body : Node
  pos : Pos

/-- Binds parameters. -/
def resolveParams : List Param → Point → Outcome (List SymbolId)
  | [], p => ([], p, [])
  | param :: params, p =>
    let (p', d₁) := p.bind param.name .param (some param.ty.ty)
    let (xs, p', d₂) := resolveParams params p'
    (⟨p.symbols.length⟩ :: xs, p', d₁ ++ d₂)

/-- Resolves the names of the body of a declaration. A block shares the frame of the parameters. -/
def resolveBody : Expr → Point → Outcome Node
  | .block exprs pos, p =>
    let (nodes, p, d) := resolveAll exprs p
    (.block nodes none pos, p, d)
  | body, p => resolve body p

/-- Resolves the names of a declaration, which is bound to `symbol`. -/
def resolveDecl (decl : Decl) (symbol : SymbolId) (p : Point) : Outcome Function :=
  let (params, p, d₁) := resolveParams decl.params p.enter
  let (body, p, d₂) := resolveBody decl.body p
  (⟨decl.name.name, symbol, params, decl.ret.ty, body, decl.pos⟩, p.leave, d₁ ++ d₂)

/-- Resolves the names of declarations one after the other. -/
def resolveDecls : List (Decl × SymbolId) → Point → Outcome (List Function)
  | [], p => ([], p, [])
  | (decl, symbol) :: decls, p =>
    let (function, p, d₁) := resolveDecl decl symbol p
    let (functions, p, d₂) := resolveDecls decls p
    (function :: functions, p, d₁ ++ d₂)

/-! ## Packages -/

/-- Whether two declarations have the same name. -/
def sameName (d e : Decl) : Bool := d.name.name == e.name.name

/-- The declarations whose name none before them has, given those that come `earlier`. -/
def firsts (earlier : List Decl) : List Decl → List Decl
  | [] => []
  | d :: ds =>
    match earlier.find? (sameName d) with
    | some _ => firsts (earlier ++ [d]) ds
    | none => d :: firsts (earlier ++ [d]) ds

/-- A report for every declaration whose name one before it has, which points to the first one of
that name. -/
def repeats (earlier : List Decl) : List Decl → List Diagnostic
  | [] => []
  | d :: ds =>
    match earlier.find? (sameName d) with
    | some first =>
      ⟨.redeclaration d.name.name first.name.pos, d.name.pos⟩ :: repeats (earlier ++ [d]) ds
    | none => repeats (earlier ++ [d]) ds

/-- Declarations with their numbers from `k` on, as the numbers of their symbols. -/
def number (k : Nat) (ds : List Decl) : List (Decl × SymbolId) :=
  (ds.zipIdx k).map fun d => (d.1, ⟨d.2⟩)

theorem number_cons (k : Nat) (d : Decl) (ds : List Decl) :
    number k (d :: ds) = (d, ⟨k⟩) :: number (k + 1) ds := by
  simp [number, List.zipIdx_cons]

theorem number_concat (k : Nat) (ds : List Decl) (d : Decl) :
    number k (ds ++ [d]) = number k ds ++ [(d, ⟨k + ds.length⟩)] := by
  simp [number, List.zipIdx_append]

theorem getElem?_number (k : Nat) (ds : List Decl) (i : Nat) :
    (number k ds)[i]? = ds[i]?.map fun d => (d, ⟨k + i⟩) := by
  simp [number, List.getElem?_zipIdx, Function.comp_def]

theorem length_number (k : Nat) (ds : List Decl) : (number k ds).length = ds.length := by
  simp [number]

theorem map_fst_number (k : Nat) (ds : List Decl) : (number k ds).map Prod.fst = ds := by
  rw [number, List.map_map]
  exact List.zipIdx_map_fst k ds

theorem map_name_number (k : Nat) (ds : List Decl) :
    (number k ds).map (fun d => d.1.name.name) = ds.map fun d => d.name.name := by
  have hnames := congrArg (List.map fun d : Decl => d.name.name) (map_fst_number k ds)
  rwa [List.map_map] at hnames

/-- The symbol of a declaration. -/
def symbolOf (d : Decl × SymbolId) : Symbol :=
  ⟨d.1.name.name, .declaration ⟨d.2.index⟩, some d.1.ret.ty, none, d.1.name.pos⟩

/-- The point outside of all declarations. -/
def outermost (ds : List (Decl × SymbolId)) : Point :=
  ⟨[ds.map fun d => (d.1.name.name, ⟨d.2, symbolOf d⟩)], ds.map symbolOf⟩

/-- Resolves the names of all declarations of a package. -/
def resolvePackage (ds : List Decl) : Outcome (List Function) :=
  let kept := number 0 (firsts [] ds)
  let (functions, p, d) := resolveDecls kept (outermost kept)
  (functions, p, repeats [] ds ++ d)

end CalcLang.Lexical
