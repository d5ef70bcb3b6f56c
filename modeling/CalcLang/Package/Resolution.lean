import CalcLang.Diagnostic
import CalcLang.Package

/-!
# Name resolution

`Package.build` makes a package of the declarations of its files. It first binds the name of
every declaration in the package scope, so that calls may refer to later declarations and to
other files; a declaration whose name is taken is reported and dropped. It then lowers parameters
and bodies, each declaration in a scope of its own. A nested block opens a scope, and so does a
branch of an `if`; the block that is the whole body of a declaration shares the scope of the
parameters.

Resolution goes on after a mistake: a form whose names do not resolve becomes `Node.error`.
-/

namespace CalcLang

namespace Resolution

/-- The scopes and symbols that have been made so far. -/
structure Names where
  scopes : ScopeTable
  symbols : Symbols
  deriving Repr, Inhabited

namespace Names

/-- The names of a package without declarations. -/
def initial : Names := ⟨.initial, #[]⟩

/-- The number that the next symbol gets. -/
def nextSymbol (n : Names) : SymbolId := ⟨n.symbols.size⟩

/-- Opens a scope inside `parent`. -/
def push (n : Names) (parent : ScopeId) : Names := { n with scopes := n.scopes.push parent }

/-- Adds a symbol without binding its name. -/
def addSymbol (n : Names) (ident : Ident) (kind : SymbolKind) (ty : Option Ty) : Names :=
  { n with symbols := n.symbols.push ⟨ident.name, kind, ty, none, ident.pos⟩ }

/-- Adds a symbol and binds its name in `scope`. A name that the scope binds already keeps its
binding and is reported; the new symbol is made all the same. -/
def bind (n : Names) (scope : ScopeId) (ident : Ident) (kind : SymbolKind) (ty : Option Ty) :
    Names × List Diagnostic :=
  let added := n.addSymbol ident kind ty
  match n.scopes.lookupLocal scope ident.name with
  | .ok (some previous) =>
    (added, [⟨.redeclaration ident.name (n.symbols.pos previous), ident.pos⟩])
  | _ => ({ added with scopes := n.scopes.bind scope ident.name n.nextSymbol }, [])

/-- The symbol that a name stands for in `scope`. A name without one is reported. -/
def resolve (n : Names) (scope : ScopeId) (ident : Ident) :
    Except Diagnostic (SymbolId × Symbol) :=
  match n.scopes.resolve? scope ident.name with
  | none => .error ⟨.unresolvedName ident.name, ident.pos⟩
  | some id =>
    match n.symbols.get? id with
    | none => .error ⟨.unresolvedName ident.name, ident.pos⟩
    | some symbol => .ok (id, symbol)

/-- The parameter or variable that a name stands for. A declaration is reported as `misuse`. -/
def resolveVariable (n : Names) (scope : ScopeId) (ident : Ident)
    (misuse : String → Diagnostic.Kind) : Except Diagnostic SymbolId := do
  let (id, symbol) ← n.resolve scope ident
  match symbol.declaration? with
  | none => .ok id
  | some _ => .error ⟨misuse ident.name, ident.pos⟩

/-- The declaration that a name stands for. -/
def resolveDeclaration (n : Names) (scope : ScopeId) (ident : Ident) :
    Except Diagnostic DeclId := do
  let (_, symbol) ← n.resolve scope ident
  match symbol.declaration? with
  | some id => .ok id
  | none => .error ⟨.notCallable ident.name, ident.pos⟩

/-- The scope in which a branch of an `if` is lowered. A block opens a scope by itself. -/
def enterBranch (n : Names) (scope : ScopeId) (branch : Expr) : ScopeId × Names :=
  if branch.isBlock then (scope, n) else (n.scopes.nextId, n.push scope)

end Names

/-- A lowered expression, the names made so far, and the diagnostics of the expression. -/
abbrev Lowered (α : Type) := α × Names × List Diagnostic

mutual

/-- Lowers an expression in a scope. -/
def lower (scope : ScopeId) : Expr → Names → Lowered Node
  | .int value pos, n => (.const (.int value) pos, n, [])
  | .bool value pos, n => (.const (.bool value) pos, n, [])
  | .name ident, n =>
    match n.resolveVariable scope ident .notAValue with
    | .ok symbol => (.read ident.name symbol none ident.pos, n, [])
    | .error d => (.error ident.pos, n, [d])
  | .binary op lhs rhs pos, n =>
    let (lhs, n, d₁) := lower scope lhs n
    let (rhs, n, d₂) := lower scope rhs n
    (.binary op lhs rhs none none pos, n, d₁ ++ d₂)
  | .unary op operand pos, n =>
    let (operand, n, d) := lower scope operand n
    (.unary op operand none pos, n, d)
  | .ifThen test ty yes pos, n =>
    let (test, n, d₁) := lower scope test n
    let (inner, n) := n.enterBranch scope yes
    let (yes, n, d₂) := lower inner yes n
    (.ifThen test (ty.map TypeExpr.ty) yes none none pos, n, d₁ ++ d₂)
  | .ifThenElse test ty yes no pos, n =>
    let (test, n, d₁) := lower scope test n
    let (inner, n) := n.enterBranch scope yes
    let (yes, n, d₂) := lower inner yes n
    let (inner, n) := n.enterBranch scope no
    let (no, n, d₃) := lower inner no n
    (.ifThenElse test (ty.map TypeExpr.ty) yes no none none pos, n, d₁ ++ d₂ ++ d₃)
  | .declare name ty pos, n =>
    let symbol := n.nextSymbol
    let (n, d) := n.bind scope name .variable (some ty.ty)
    (.declare name.name symbol ty.ty pos, n, d)
  | .define name ty init pos, n =>
    -- The initial value cannot see the variable.
    let (init, n, d₁) := lower scope init n
    let symbol := n.nextSymbol
    let (n, d₂) := n.bind scope name .variable (ty.map TypeExpr.ty)
    (.define name.name symbol (ty.map TypeExpr.ty) init pos, n, d₁ ++ d₂)
  | .assign name value pos, n =>
    let (value, n, d) := lower scope value n
    match n.resolveVariable scope name .notAssignable with
    | .ok target => (.assign name.name target value none pos, n, d)
    | .error e => (.error pos, n, d ++ [e])
  | .call name args pos, n =>
    let (args, n, d) := lowerAll scope args n
    match n.resolveDeclaration scope name with
    | .ok callee => (.call name.name callee args none pos, n, d)
    | .error e => (.error pos, n, d ++ [e])
  | .block exprs pos, n =>
    let (nodes, n, d) := lowerAll n.scopes.nextId exprs (n.push scope)
    (.block nodes none pos, n, d)

/-- Lowers expressions one after the other in a scope. -/
def lowerAll (scope : ScopeId) : List Expr → Names → Lowered (List Node)
  | [], n => ([], n, [])
  | e :: es, n =>
    let (node, n, d₁) := lower scope e n
    let (nodes, n, d₂) := lowerAll scope es n
    (node :: nodes, n, d₁ ++ d₂)

end

/-- Lowers the body of a declaration: a block shares the scope of the parameters. -/
def lowerBody (scope : ScopeId) (body : Expr) (n : Names) : Lowered Node :=
  match body with
  | .block exprs pos =>
    let (nodes, n, d) := lowerAll scope exprs n
    (.block nodes none pos, n, d)
  | body => lower scope body n

theorem lowerBody_of_isBlock {e : Expr} (h : e.isBlock = false) (scope : ScopeId) (n : Names) :
    lowerBody scope e n = lower scope e n := by
  cases e with
  | block => cases h
  | _ => rfl

/-- Binds the parameters of a declaration. -/
def bindParams (scope : ScopeId) : List Param → Names → Lowered (List SymbolId)
  | [], n => ([], n, [])
  | p :: ps, n =>
    let symbol := n.nextSymbol
    let (n, d₁) := n.bind scope p.name .param (some p.ty.ty)
    let (symbols, n, d₂) := bindParams scope ps n
    (symbol :: symbols, n, d₁ ++ d₂)

/-- Lowers a declaration whose name is bound to `symbol`. -/
def lowerDecl (decl : Decl) (symbol : SymbolId) (n : Names) : Lowered Declaration :=
  let scope := n.scopes.nextId
  let n := n.push .package
  let (params, n, d₁) := bindParams scope decl.params n
  let (body, n, d₂) := lowerBody scope decl.body n
  (⟨decl.name.name, symbol, params, decl.ret.ty, scope, body, decl.pos⟩, n, d₁ ++ d₂)

/-- Lowers declarations one after the other. -/
def lowerDecls : List (Decl × SymbolId) → Names → Lowered (List Declaration)
  | [], n => ([], n, [])
  | (decl, symbol) :: rest, n =>
    let (declaration, n, d₁) := lowerDecl decl symbol n
    let (declarations, n, d₂) := lowerDecls rest n
    (declaration :: declarations, n, d₁ ++ d₂)

/-- Binds the names of declarations in the package scope, where `accepted` of them are bound
already. A declaration whose name is taken is reported and left out. -/
def declareAll (accepted : Nat) : List Decl → Names → Lowered (List (Decl × SymbolId))
  | [], n => ([], n, [])
  | decl :: decls, n =>
    match n.scopes.lookupLocal .package decl.name.name with
    | .ok (some previous) =>
      let (rest, n', d) := declareAll accepted decls n
      (rest, n', ⟨.redeclaration decl.name.name (n.symbols.pos previous), decl.name.pos⟩ :: d)
    | _ =>
      let symbol := n.nextSymbol
      let (n, _) := n.bind .package decl.name (.declaration ⟨accepted⟩) (some decl.ret.ty)
      let (rest, n, d) := declareAll (accepted + 1) decls n
      ((decl, symbol) :: rest, n, d)

end Resolution

open Resolution in
/-- The package of the declarations of some files, and the mistakes found on the way. -/
def Package.build (name : String) (files : List (List Decl)) : Package × List Diagnostic :=
  let (accepted, n, d₁) := declareAll 0 files.flatten .initial
  let (decls, n, d₂) := lowerDecls accepted n
  (⟨name, n.scopes, n.symbols, decls, .built⟩, d₁ ++ d₂)

theorem Package.stage_build (name : String) (files : List (List Decl)) :
    (Package.build name files).1.stage = .built := rfl

end CalcLang
