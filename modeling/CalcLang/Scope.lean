import CalcLang.Fault

/-!
# Scopes

The scopes of a package live in one table and refer to the scope around them by number. The
package scope has number 0 and no parent. `ScopeTable.lookup` finds a name in a scope or in the
nearest scope around it that binds it.

The operations that take the number of a scope fault if the table has no such scope. A parent
need not exist when a scope is pushed: a missing parent is a fault once a lookup reaches it.
-/

namespace CalcLang

/-- The number of a symbol in its package. -/
structure SymbolId where
  index : Nat
  deriving DecidableEq, Repr, Inhabited

/-- The number of a scope in its table. -/
structure ScopeId where
  index : Nat
  deriving DecidableEq, Repr, Inhabited

/-- The scope of the declarations of a package. -/
def ScopeId.package : ScopeId := ⟨0⟩

/-- The names bound in one scope, in the order in which they were bound. -/
structure Scope where
  parent : Option ScopeId
  names : List (String × SymbolId)
  deriving DecidableEq, Repr, Inhabited

namespace Scope

/-- The symbol that a name is bound to in a scope. -/
def find? (s : Scope) (name : String) : Option SymbolId := s.names.lookup name

/-- Binds a name that the scope does not bind yet. -/
def bind (s : Scope) (name : String) (symbol : SymbolId) : Scope :=
  { s with names := s.names ++ [(name, symbol)] }

end Scope

/-- All scopes of a package. -/
structure ScopeTable where
  scopes : Array Scope
  deriving DecidableEq, Repr, Inhabited

namespace ScopeTable

/-- The table that holds only the package scope. -/
def initial : ScopeTable := ⟨#[⟨none, []⟩]⟩

/-- The number that the next pushed scope gets. -/
def nextId (t : ScopeTable) : ScopeId := ⟨t.scopes.size⟩

/-- Adds a scope inside `parent`. -/
def push (t : ScopeTable) (parent : ScopeId) : ScopeTable := ⟨t.scopes.push ⟨some parent, []⟩⟩

/-- The scope with a given number. -/
def get (t : ScopeTable) (id : ScopeId) : Except Fault Scope :=
  match t.scopes[id.index]? with
  | some s => .ok s
  | none => .error (.outOfBounds t.scopes.size id.index)

/-- The symbol that a name is bound to in one scope. -/
def lookupLocal (t : ScopeTable) (id : ScopeId) (name : String) : Except Fault (Option SymbolId) :=
  (t.get id).map fun s => s.find? name

/-- Binds a name in a scope that does not bind it yet. -/
def bind (t : ScopeTable) (id : ScopeId) (name : String) (symbol : SymbolId) : ScopeTable :=
  ⟨t.scopes.modify id.index fun s => s.bind name symbol⟩

/-- Binds a name in a scope, or gives the symbol that the name is bound to there already. Outer
bindings do not conflict. -/
def insert (t : ScopeTable) (id : ScopeId) (name : String) (symbol : SymbolId) :
    Except Fault (Except SymbolId ScopeTable) :=
  (t.lookupLocal id name).map fun
    | some existing => .error existing
    | none => .ok (t.bind id name symbol)

/-- Looks a name up in a scope and in the scopes around it, visiting at most `steps` scopes. -/
def lookupWithin (t : ScopeTable) (name : String) :
    Nat → ScopeId → Except Fault (Option SymbolId)
  | 0, _ => .ok none
  | steps + 1, id =>
    match t.get id with
    | .error fault => .error fault
    | .ok s =>
      match s.find? name, s.parent with
      | some symbol, _ => .ok (some symbol)
      | none, none => .ok none
      | none, some parent => lookupWithin t name steps parent

/-- Looks a name up in a scope and in the scopes around it. A chain of parents that visits no
scope twice is at most as long as the table, so only a chain without an end is cut short. -/
def lookup (t : ScopeTable) (id : ScopeId) (name : String) : Except Fault (Option SymbolId) :=
  t.lookupWithin name (t.scopes.size + 1) id

/-- The symbol that a name stands for in a scope, if there is one. -/
def resolve? (t : ScopeTable) (id : ScopeId) (name : String) : Option SymbolId :=
  match t.lookup id name with
  | .ok found => found
  | .error _ => none

end ScopeTable

end CalcLang
