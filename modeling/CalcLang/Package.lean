import CalcLang.Expr
import CalcLang.Scope
import CalcLang.Stage

/-!
# Packages

A package is a compilation unit after its names have been resolved: a list of declarations whose
bodies are trees of `Node`s, the table of symbols that the nodes refer to, and the table of
scopes that bound them. A node whose names could not be resolved is `Node.error`.

Types and tags are missing at first. Type checking records the types on nodes and symbols,
tagging records the tags.
-/

namespace CalcLang

/-- The number of a declaration in its package. -/
structure DeclId where
  index : Nat
  deriving DecidableEq, Repr, Inhabited

/-- The number of a named temporary in generated code. -/
structure Tag where
  number : Nat
  deriving DecidableEq, Repr, Inhabited

/-- What a symbol stands for. -/
inductive SymbolKind
  | declaration (id : DeclId)
  | param
  | variable
  deriving DecidableEq, Repr, Inhabited

/-- Something that a name can be bound to. The type of a declaration is its return type; the
type of a variable without a written one is missing until it is inferred. -/
structure Symbol where
  name : String
  kind : SymbolKind
  ty : Option Ty
  tag : Option Tag
  pos : Pos
  deriving DecidableEq, Repr, Inhabited

namespace Symbol

/-- The declaration that a symbol stands for. -/
def declaration? (s : Symbol) : Option DeclId :=
  match s.kind with
  | .declaration id => some id
  | _ => none

theorem declaration?_eq_some_iff {s : Symbol} {id : DeclId} :
    s.declaration? = some id ↔ s.kind = .declaration id := by
  unfold declaration?
  cases s.kind <;> simp

end Symbol

/-- An expression with resolved names. -/
inductive Node
  | const (value : Value) (pos : Pos)
  /-- A parameter or variable that is read. -/
  | read (name : String) (symbol : SymbolId) (ty : Option Ty) (pos : Pos)
  | binary (op : BinaryOp) (lhs rhs : Node) (ty : Option Ty) (tag : Option Tag) (pos : Pos)
  | unary (op : UnaryOp) (operand : Node) (ty : Option Ty) (pos : Pos)
  | call (name : String) (callee : DeclId) (args : List Node) (ty : Option Ty) (pos : Pos)
  | ifThen (test : Node) (written : Option Ty) (yes : Node) (ty : Option Ty)
      (tag : Option Tag) (pos : Pos)
  | ifThenElse (test : Node) (written : Option Ty) (yes no : Node) (ty : Option Ty)
      (tag : Option Tag) (pos : Pos)
  | block (nodes : List Node) (ty : Option Ty) (pos : Pos)
  /-- An assignment; its value is that of the variable. -/
  | assign (name : String) (target : SymbolId) (value : Node) (ty : Option Ty) (pos : Pos)
  /-- A variable that starts as the zero of its written type. Its type and tag are those of its
  symbol. -/
  | declare (name : String) (symbol : SymbolId) (written : Ty) (pos : Pos)
  /-- A variable with an initial value. Its type and tag are those of its symbol. -/
  | define (name : String) (symbol : SymbolId) (written : Option Ty) (init : Node) (pos : Pos)
  /-- A form whose names could not be resolved. -/
  | error (pos : Pos)
  deriving Repr, Inhabited

/-- A function of a package. -/
structure Declaration where
  name : String
  symbol : SymbolId
  params : List SymbolId
  ret : Ty
  scope : ScopeId
  body : Node
  pos : Pos
  deriving Repr, Inhabited

/-- The symbols of a package, by number. -/
abbrev Symbols := Array Symbol

namespace Symbols

/-- The symbol with a given number. -/
def get? (symbols : Symbols) (id : SymbolId) : Option Symbol := symbols[id.index]?

/-- The type of a symbol. -/
def ty (symbols : Symbols) (id : SymbolId) : Option Ty := (symbols.get? id).bind Symbol.ty

/-- The tag of a symbol. -/
def tag (symbols : Symbols) (id : SymbolId) : Option Tag := (symbols.get? id).bind Symbol.tag

/-- Where the name of a symbol was bound. -/
def pos (symbols : Symbols) (id : SymbolId) : Pos :=
  match symbols.get? id with
  | some s => s.pos
  | none => .origin

/-- Records the type of a symbol. -/
def setTy (symbols : Symbols) (id : SymbolId) (ty : Option Ty) : Symbols :=
  symbols.modify id.index fun s => { s with ty := ty }

/-- Records the tag of a symbol. -/
def setTag (symbols : Symbols) (id : SymbolId) (tag : Tag) : Symbols :=
  symbols.modify id.index fun s => { s with tag := some tag }

end Symbols

namespace Node

/-- The position of a node. -/
def pos : Node → Pos
  | const _ pos | read _ _ _ pos | binary _ _ _ _ _ pos | unary _ _ _ pos | call _ _ _ _ pos
  | ifThen _ _ _ _ _ pos | ifThenElse _ _ _ _ _ _ pos | block _ _ pos | assign _ _ _ _ pos
  | declare _ _ _ pos | define _ _ _ _ pos | error pos => pos

/-- The type of a node as last recorded. -/
def ty (symbols : Symbols) : Node → Option Ty
  | const value _ => some value.ty
  | read _ _ ty _ | binary _ _ _ ty _ _ | unary _ _ ty _ | call _ _ _ ty _
  | ifThen _ _ _ ty _ _ | ifThenElse _ _ _ _ ty _ _ | block _ ty _ | assign _ _ _ ty _ => ty
  | declare _ symbol _ _ | define _ symbol _ _ _ => symbols.ty symbol
  | error _ => none

/-- The value of a constant node. -/
def constant? : Node → Option Value
  | const value _ => some value
  | _ => none

end Node

/-- A compilation unit with resolved names. -/
structure Package where
  name : String
  scopes : ScopeTable
  symbols : Symbols
  decls : List Declaration
  stage : Stage
  deriving Repr, Inhabited

namespace Package

/-- The number of the declaration with a given name. -/
def lookupId? (p : Package) (name : String) : Option DeclId := do
  let symbol ← p.scopes.scopes[ScopeId.package.index]?.bind fun s => s.find? name
  let symbol ← p.symbols.get? symbol
  symbol.declaration?

/-- The declaration with a given name. -/
def lookup? (p : Package) (name : String) : Option Declaration :=
  (p.lookupId? name).bind fun id => p.decls[id.index]?

end Package

end CalcLang
