import CalcLang.Proofs.Guarded.Reading
import CalcLang.Proofs.SoundNames

/-!
# Guarded naming

Names are resolved through tables of scopes and symbols, which are entered by number. In
`Guarded.build` every entry faults if its number is not in the table, and so does a lookup that runs
through more scopes than there are, because it would never end. In tables that are sound no number
is out of range and every chain of scopes ends at the package scope (`Guarded.lookup_eq`). Lowering
keeps the tables sound, so a package is built without a fault whatever its declarations are, and it
is the package that `Package.build` makes (`Guarded.build_eq`).
-/

namespace CalcLang

namespace Guarded

open Resolution (Names)

/-! ## Tables -/

/-- The symbol with a given number. -/
def symbol (symbols : Symbols) (id : SymbolId) : Except Fault Symbol :=
  match symbols.get? id with
  | some s => .ok s
  | none => .error (.outOfBounds symbols.size id.index)

theorem symbol_eq {symbols : Symbols} {id : SymbolId} {s : Symbol} (h : symbols.get? id = some s) :
    symbol symbols id = .ok s := by
  rw [symbol, h]

/-- Looks a name up in a scope and in the scopes around it. A chain that does not end within `steps`
scopes goes round in circles. -/
def lookupWithin (t : ScopeTable) (name : String) :
    Nat → ScopeId → Except Fault (Option SymbolId)
  | 0, id => .error (.outOfBounds t.scopes.size id.index)
  | steps + 1, id => do
    let s ← t.get id
    match s.find? name, s.parent with
    | some symbol, _ => .ok (some symbol)
    | none, none => .ok none
    | none, some parent => lookupWithin t name steps parent

/-- Looks a name up in a scope and in the scopes around it. -/
def lookup (t : ScopeTable) (id : ScopeId) (name : String) : Except Fault (Option SymbolId) :=
  lookupWithin t name (t.scopes.size + 1) id

section

variable {names : List String} {n : Names} {scope : ScopeId}

theorem exists_scope (hlt : scope.index < n.scopes.scopes.size) :
    ∃ s, n.scopes.scopes[scope.index]? = some s ∧ n.scopes.get scope = .ok s :=
  ⟨_, Array.getElem?_eq_getElem hlt, ScopeTable.get_of_getElem? (Array.getElem?_eq_getElem hlt)⟩

/-- A chain of scopes gets to smaller numbers with each step. -/
theorem lookupWithin_eq (h : n.Sound names) (name : String) {steps : Nat}
    (hlt : scope.index < n.scopes.scopes.size) (hsteps : scope.index < steps) :
    ∃ found, lookupWithin n.scopes name steps scope = .ok found ∧
      n.scopes.lookupWithin name steps scope = .ok found := by
  induction steps generalizing scope with
  | zero => exact absurd hsteps (Nat.not_lt_zero _)
  | succ steps ih =>
    obtain ⟨s, hs, hget⟩ := exists_scope hlt
    rw [lookupWithin, ScopeTable.lookupWithin, hget, ok_bind]
    dsimp only
    cases hfind : s.find? name with
    | some x => exact ⟨some x, rfl, rfl⟩
    | none =>
      cases hparent : s.parent with
      | none => exact ⟨none, rfl, rfl⟩
      | some parent =>
        have hne : scope.index ≠ ScopeId.package.index := by
          intro heq
          obtain ⟨own, hown⟩ := h.outermost
          rw [heq, hown] at hs
          cases hs
          cases hparent
        obtain ⟨parent', hparent', hinner⟩ := h.parents _ s hs hne
        rw [hparent] at hparent'
        cases hparent'
        have hless : parent.index < scope.index := hinner
        exact @ih parent (by omega) (by omega)

theorem lookup_eq (h : n.Sound names) (hlt : scope.index < n.scopes.scopes.size) (name : String) :
    ∃ found, lookup n.scopes scope name = .ok found ∧ n.scopes.lookup scope name = .ok found :=
  lookupWithin_eq h name hlt (Nat.lt_succ_of_lt hlt)

end

/-! ## Names -/

/-- Adds a symbol and binds its name in `scope`, unless the scope binds the name already. -/
def bind (n : Names) (scope : ScopeId) (ident : Ident) (kind : SymbolKind) (ty : Option Ty) :
    Except Fault (Names × List Diagnostic) := do
  let added := n.addSymbol ident kind ty
  match ← n.scopes.insert scope ident.name n.nextSymbol with
  | .ok scopes => .ok ({ added with scopes := scopes }, [])
  | .error previous => do
    let existing ← symbol added.symbols previous
    .ok (added, [⟨.redeclaration ident.name existing.pos, ident.pos⟩])

/-- The symbol that a name stands for in `scope`. -/
def resolve (n : Names) (scope : ScopeId) (ident : Ident) :
    Except Fault (Except Diagnostic (SymbolId × Symbol)) := do
  match ← lookup n.scopes scope ident.name with
  | none => .ok (.error ⟨.unresolvedName ident.name, ident.pos⟩)
  | some id => do
    let existing ← symbol n.symbols id
    .ok (.ok (id, existing))

/-- The parameter or variable that a name stands for. -/
def resolveVariable (n : Names) (scope : ScopeId) (ident : Ident)
    (misuse : String → Diagnostic.Kind) : Except Fault (Except Diagnostic SymbolId) := do
  let found ← resolve n scope ident
  .ok do
    let (id, symbol) ← found
    match symbol.declaration? with
    | none => .ok id
    | some _ => .error ⟨misuse ident.name, ident.pos⟩

/-- The declaration that a name stands for. -/
def resolveDeclaration (n : Names) (scope : ScopeId) (ident : Ident) :
    Except Fault (Except Diagnostic DeclId) := do
  let found ← resolve n scope ident
  .ok do
    let (_, symbol) ← found
    match symbol.declaration? with
    | some id => .ok id
    | none => .error ⟨.notCallable ident.name, ident.pos⟩

section

variable {names : List String} {n : Names} {scope : ScopeId}

theorem bind_eq (h : n.Sound names) (hlt : scope.index < n.scopes.scopes.size) (ident : Ident)
    (kind : SymbolKind) (ty : Option Ty) :
    bind n scope ident kind ty = .ok (n.bind scope ident kind ty) := by
  obtain ⟨s, hs, hget⟩ := exists_scope hlt
  have hlocal : n.scopes.lookupLocal scope ident.name = .ok (s.find? ident.name) := by
    rw [ScopeTable.lookupLocal, hget, map_ok]
  rw [bind, ScopeTable.insert, Names.bind, hlocal, map_ok, ok_bind]
  cases hfind : s.find? ident.name with
  | none => rfl
  | some previous =>
    obtain ⟨before, after, hnames, -⟩ := List.lookup_eq_some_iff.1 hfind
    obtain ⟨e, he, -⟩ := h.bindings _ s hs (ident.name, previous) (by simp [hnames])
    have hadded : (n.addSymbol ident kind ty).symbols.get? previous = some e := by
      have hsize := (Array.getElem?_eq_some_iff.1 he).1
      rw [Symbols.get?, (Names.Grows.of_addSymbol scope n ident kind ty).symbols _ hsize]
      exact he
    dsimp only
    rw [symbol_eq hadded, ok_bind, Symbols.pos, he]

theorem resolve_eq (h : n.Sound names) (hlt : scope.index < n.scopes.scopes.size)
    (ident : Ident) : resolve n scope ident = .ok (n.resolve scope ident) := by
  obtain ⟨found, hfound, hfound'⟩ := lookup_eq h hlt ident.name
  rw [resolve, hfound, ok_bind, Names.resolve, ScopeTable.resolve?, hfound']
  cases found with
  | none => rfl
  | some x =>
    obtain ⟨e, he, -⟩ := h.name_of_lookupWithin hfound'
    dsimp only
    rw [symbol_eq he, ok_bind, he]

theorem resolveVariable_eq (h : n.Sound names) (hlt : scope.index < n.scopes.scopes.size)
    (ident : Ident) (misuse : String → Diagnostic.Kind) :
    resolveVariable n scope ident misuse = .ok (n.resolveVariable scope ident misuse) := by
  rw [resolveVariable, resolve_eq h hlt, ok_bind]
  rfl

theorem resolveDeclaration_eq (h : n.Sound names) (hlt : scope.index < n.scopes.scopes.size)
    (ident : Ident) :
    resolveDeclaration n scope ident = .ok (n.resolveDeclaration scope ident) := by
  rw [resolveDeclaration, resolve_eq h hlt, ok_bind]
  rfl

end

/-! ## Expressions -/

mutual

/-- Lowers an expression in a scope. -/
def lower (scope : ScopeId) : Expr → Names → Except Fault (Resolution.Lowered Node)
  | .int value pos, n => .ok (.const (.int value) pos, n, [])
  | .bool value pos, n => .ok (.const (.bool value) pos, n, [])
  | .name ident, n => do
    match ← resolveVariable n scope ident .notAValue with
    | .ok symbol => .ok (.read ident.name symbol none ident.pos, n, [])
    | .error d => .ok (.error ident.pos, n, [d])
  | .binary op lhs rhs pos, n => do
    let (lhs, n, d₁) ← lower scope lhs n
    let (rhs, n, d₂) ← lower scope rhs n
    .ok (.binary op lhs rhs none none pos, n, d₁ ++ d₂)
  | .unary op operand pos, n => do
    let (operand, n, d) ← lower scope operand n
    .ok (.unary op operand none pos, n, d)
  | .ifThen test ty yes pos, n => do
    let (test, n, d₁) ← lower scope test n
    let (inner, n) := n.enterBranch scope yes
    let (yes, n, d₂) ← lower inner yes n
    .ok (.ifThen test (ty.map TypeExpr.ty) yes none none pos, n, d₁ ++ d₂)
  | .ifThenElse test ty yes no pos, n => do
    let (test, n, d₁) ← lower scope test n
    let (inner, n) := n.enterBranch scope yes
    let (yes, n, d₂) ← lower inner yes n
    let (inner, n) := n.enterBranch scope no
    let (no, n, d₃) ← lower inner no n
    .ok (.ifThenElse test (ty.map TypeExpr.ty) yes no none none pos, n, d₁ ++ d₂ ++ d₃)
  | .declare name ty pos, n => do
    let symbol := n.nextSymbol
    let (n, d) ← bind n scope name .variable (some ty.ty)
    .ok (.declare name.name symbol ty.ty pos, n, d)
  | .define name ty init pos, n => do
    let (init, n, d₁) ← lower scope init n
    let symbol := n.nextSymbol
    let (n, d₂) ← bind n scope name .variable (ty.map TypeExpr.ty)
    .ok (.define name.name symbol (ty.map TypeExpr.ty) init pos, n, d₁ ++ d₂)
  | .assign name value pos, n => do
    let (value, n, d) ← lower scope value n
    match ← resolveVariable n scope name .notAssignable with
    | .ok target => .ok (.assign name.name target value none pos, n, d)
    | .error e => .ok (.error pos, n, d ++ [e])
  | .call name args pos, n => do
    let (args, n, d) ← lowerAll scope args n
    match ← resolveDeclaration n scope name with
    | .ok callee => .ok (.call name.name callee args none pos, n, d)
    | .error e => .ok (.error pos, n, d ++ [e])
  | .block exprs pos, n => do
    let (nodes, n, d) ← lowerAll n.scopes.nextId exprs (n.push scope)
    .ok (.block nodes none pos, n, d)

/-- Lowers expressions one after the other in a scope. -/
def lowerAll (scope : ScopeId) :
    List Expr → Names → Except Fault (Resolution.Lowered (List Node))
  | [], n => .ok ([], n, [])
  | e :: es, n => do
    let (node, n, d₁) ← lower scope e n
    let (nodes, n, d₂) ← lowerAll scope es n
    .ok (node :: nodes, n, d₁ ++ d₂)

end

section

variable {names : List String}

mutual

/-- An expression is lowered without a fault. -/
theorem lower_eq {scope : ScopeId} {n : Names} (h : n.Sound names)
    (hlt : scope.index < n.scopes.scopes.size) (e : Expr) :
    lower scope e n = .ok (Resolution.lower scope e n) := by
  match e with
  | .int value pos => rfl
  | .bool value pos => rfl
  | .name ident =>
    rw [lower, resolveVariable_eq h hlt, ok_bind, Resolution.lower]
    cases n.resolveVariable scope ident .notAValue <;> rfl
  | .binary op lhs rhs pos =>
    have hl := Resolution.lower_lowers h hlt lhs
    rw [lower, lower_eq h hlt lhs, ok_bind]
    dsimp only
    rw [lower_eq hl.sound (hl.index_lt hlt) rhs, ok_bind]
    rfl
  | .unary op operand pos =>
    rw [lower, lower_eq h hlt operand, ok_bind]
    rfl
  | .ifThen test written yes pos =>
    have ht := Resolution.lower_lowers h hlt test
    rw [lower, lower_eq h hlt test, ok_bind]
    dsimp only
    rw [branch_eq ht.sound (ht.index_lt hlt) yes, ok_bind]
    rfl
  | .ifThenElse test written yes no pos =>
    have ht := Resolution.lower_lowers h hlt test
    have hy := Resolution.branch_lowers ht.sound (ht.index_lt hlt) yes
    rw [lower, lower_eq h hlt test, ok_bind]
    dsimp only
    rw [branch_eq ht.sound (ht.index_lt hlt) yes, ok_bind,
      branch_eq hy.sound (hy.index_lt (ht.index_lt hlt)) no, ok_bind]
    rfl
  | .declare name ty pos =>
    rw [lower, bind_eq h hlt, ok_bind]
    rfl
  | .define name ty init pos =>
    have hi := Resolution.lower_lowers h hlt init
    rw [lower, lower_eq h hlt init, ok_bind]
    dsimp only
    rw [bind_eq hi.sound (hi.index_lt hlt), ok_bind]
    rfl
  | .assign name value pos =>
    have hv := Resolution.lower_lowers h hlt value
    rw [lower, lower_eq h hlt value, ok_bind, Resolution.lower]
    dsimp only
    rw [resolveVariable_eq hv.sound (hv.index_lt hlt), ok_bind]
    cases (Resolution.lower scope value n).2.1.resolveVariable scope name .notAssignable <;> rfl
  | .call name args pos =>
    have ha := Resolution.lowerAll_lowers h hlt args
    rw [lower, lowerAll_eq h hlt args, ok_bind, Resolution.lower]
    dsimp only
    rw [resolveDeclaration_eq ha.sound (ha.index_lt hlt), ok_bind]
    cases (Resolution.lowerAll scope args n).2.1.resolveDeclaration scope name <;> rfl
  | .block exprs pos =>
    rw [lower, lowerAll_eq (h.push hlt) (Resolution.Names.nextId_lt_push n scope) exprs, ok_bind]
    rfl
termination_by (sizeOf e, 0)

theorem branch_eq {scope : ScopeId} {n : Names} (h : n.Sound names)
    (hlt : scope.index < n.scopes.scopes.size) (e : Expr) :
    lower (n.enterBranch scope e).1 e (n.enterBranch scope e).2 =
      .ok (Resolution.lower (n.enterBranch scope e).1 e (n.enterBranch scope e).2) := by
  cases hblock : e.isBlock with
  | false =>
    simp only [Names.enterBranch, hblock, Bool.false_eq_true, if_false]
    exact lower_eq (h.push hlt) (Resolution.Names.nextId_lt_push n scope) e
  | true =>
    simp only [Names.enterBranch, hblock, if_true]
    exact lower_eq h hlt e
termination_by (sizeOf e, 1)

theorem lowerAll_eq {scope : ScopeId} {n : Names} (h : n.Sound names)
    (hlt : scope.index < n.scopes.scopes.size) (es : List Expr) :
    lowerAll scope es n = .ok (Resolution.lowerAll scope es n) := by
  match es with
  | [] => rfl
  | e :: es =>
    have he := Resolution.lower_lowers h hlt e
    rw [lowerAll, lower_eq h hlt e, ok_bind]
    dsimp only
    rw [lowerAll_eq he.sound (he.index_lt hlt) es, ok_bind]
    rfl
termination_by (sizeOf es, 0)

end

end

/-! ## Declarations -/

/-- Lowers the body of a declaration. -/
def lowerBody (scope : ScopeId) (body : Expr) (n : Names) :
    Except Fault (Resolution.Lowered Node) :=
  match body with
  | .block exprs pos => do
    let (nodes, n, d) ← lowerAll scope exprs n
    .ok (.block nodes none pos, n, d)
  | body => lower scope body n

/-- Binds the parameters of a declaration. -/
def bindParams (scope : ScopeId) :
    List Param → Names → Except Fault (Resolution.Lowered (List SymbolId))
  | [], n => .ok ([], n, [])
  | p :: ps, n => do
    let symbol := n.nextSymbol
    let (n, d₁) ← bind n scope p.name .param (some p.ty.ty)
    let (symbols, n, d₂) ← bindParams scope ps n
    .ok (symbol :: symbols, n, d₁ ++ d₂)

/-- Lowers a declaration whose name is bound to `symbol`. -/
def lowerDecl (decl : Decl) (symbol : SymbolId) (n : Names) :
    Except Fault (Resolution.Lowered Declaration) := do
  let scope := n.scopes.nextId
  let (params, n, d₁) ← bindParams scope decl.params (n.push .package)
  let (body, n, d₂) ← lowerBody scope decl.body n
  .ok (⟨decl.name.name, symbol, params, decl.ret.ty, scope, body, decl.pos⟩, n, d₁ ++ d₂)

/-- Lowers declarations one after the other. -/
def lowerDecls :
    List (Decl × SymbolId) → Names → Except Fault (Resolution.Lowered (List Declaration))
  | [], n => .ok ([], n, [])
  | (decl, symbol) :: rest, n => do
    let (declaration, n, d₁) ← lowerDecl decl symbol n
    let (declarations, n, d₂) ← lowerDecls rest n
    .ok (declaration :: declarations, n, d₁ ++ d₂)

/-- Binds the names of declarations in the package scope, where `accepted` of them are bound. -/
def declareAll (accepted : Nat) :
    List Decl → Names → Except Fault (Resolution.Lowered (List (Decl × SymbolId)))
  | [], n => .ok ([], n, [])
  | decl :: decls, n => do
    match ← n.scopes.lookupLocal .package decl.name.name with
    | some previous => do
      let existing ← symbol n.symbols previous
      let (rest, n, d) ← declareAll accepted decls n
      .ok (rest, n, ⟨.redeclaration decl.name.name existing.pos, decl.name.pos⟩ :: d)
    | none => do
      let symbol := n.nextSymbol
      let (n, _) ← bind n .package decl.name (.declaration ⟨accepted⟩) (some decl.ret.ty)
      let (rest, n, d) ← declareAll (accepted + 1) decls n
      .ok ((decl, symbol) :: rest, n, d)

/-- The package of the declarations of some files, and the mistakes found on the way. -/
def build (name : String) (files : List (List Decl)) :
    Except Fault (Package × List Diagnostic) := do
  let (accepted, n, d₁) ← declareAll 0 files.flatten .initial
  let (decls, n, d₂) ← lowerDecls accepted n
  .ok (⟨name, n.scopes, n.symbols, decls, .built⟩, d₁ ++ d₂)

section

variable {names : List String}

theorem lowerBody_eq {scope : ScopeId} {n : Names} (h : n.Sound names)
    (hlt : scope.index < n.scopes.scopes.size) (body : Expr) :
    lowerBody scope body n = .ok (Resolution.lowerBody scope body n) := by
  cases body with
  | block exprs pos =>
    rw [lowerBody, lowerAll_eq h hlt exprs, ok_bind]
    rfl
  | _ => exact lower_eq h hlt _

theorem bindParams_eq {scope : ScopeId} {n : Names} (h : n.Sound names)
    (hlt : scope.index < n.scopes.scopes.size) (ps : List Param) :
    bindParams scope ps n = .ok (Resolution.bindParams scope ps n) := by
  induction ps generalizing n with
  | nil => rfl
  | cons p ps ih =>
    have hp : Names.Lowers names scope n [.owns .param n.nextSymbol] _ :=
      .of_bind h scope p.name (some p.ty.ty) nofun
    rw [bindParams, bind_eq h hlt, ok_bind]
    dsimp only
    rw [ih hp.sound (hp.index_lt hlt), ok_bind]
    rfl

theorem lowerDecl_eq {n : Names} (h : n.Sound names)
    (hlt : ScopeId.package.index < n.scopes.scopes.size) (decl : Decl) (symbol : SymbolId) :
    lowerDecl decl symbol n = .ok (Resolution.lowerDecl decl symbol n) := by
  have hnew := Names.nextId_lt_push n .package
  have hps := Resolution.bindParams_lowers (h.push hlt) n.scopes.nextId decl.params
  rw [lowerDecl, bindParams_eq (h.push hlt) hnew, ok_bind]
  dsimp only
  rw [lowerBody_eq hps.sound (hps.index_lt hnew), ok_bind]
  rfl

theorem lowerDecls_eq {n : Names} (h : n.Sound names)
    (hlt : ScopeId.package.index < n.scopes.scopes.size) (ds : List (Decl × SymbolId)) :
    lowerDecls ds n = .ok (Resolution.lowerDecls ds n) := by
  induction ds generalizing n with
  | nil => rfl
  | cons d ds ih =>
    have hd := Resolution.lowerDecl_lowers h hlt d.1 d.2
    rw [lowerDecls, lowerDecl_eq h hlt, ok_bind]
    dsimp only
    rw [ih hd.sound (hd.index_lt hlt), ok_bind]
    rfl

end

theorem declareAll_eq (kept ds : List Decl) :
    declareAll kept.length ds (Resolution.declared kept) =
      .ok (Resolution.declareAll kept.length ds (Resolution.declared kept)) := by
  induction ds generalizing kept with
  | nil => rfl
  | cons d ds ih =>
    have hsound := Resolution.sound_declared kept
    have hlt : ScopeId.package.index < (Resolution.declared kept).scopes.scopes.size :=
      Nat.zero_lt_one
    have hbind := bind_eq hsound hlt d.name (.declaration ⟨kept.length⟩) (some d.ret.ty)
    rw [declareAll, Resolution.declareAll, Resolution.lookupLocal_declared, ok_bind]
    dsimp only
    cases hfound :
        ((Lexical.number 0 kept).map Resolution.bindingOf).lookup d.name.name with
    | some previous =>
      obtain ⟨before, after, hnames, -⟩ := List.lookup_eq_some_iff.1 hfound
      obtain ⟨e, he, -⟩ := hsound.bindings 0
        ⟨none, (Lexical.number 0 kept).map Resolution.bindingOf⟩ rfl
        (d.name.name, previous) (by simp [hnames])
      dsimp only
      rw [symbol_eq he, ok_bind, ih kept, ok_bind, Symbols.pos, he]
    | none =>
      have hrest := ih (kept ++ [d])
      rw [List.length_append, List.length_singleton] at hrest
      dsimp only
      rw [hbind, ok_bind, Resolution.bind_declared hfound]
      dsimp only
      rw [hrest, ok_bind]

/-- **A package is built without a fault**, whatever its declarations are. -/
theorem build_eq (name : String) (files : List (List Decl)) :
    build name files = .ok (Package.build name files) := by
  have hkept : Resolution.declareAll 0 files.flatten .initial = _ :=
    Resolution.declareAll_eq_firsts [] [] files.flatten fun _ => rfl
  have hdeclare : declareAll 0 files.flatten .initial =
      .ok (Resolution.declareAll 0 files.flatten .initial) := declareAll_eq [] files.flatten
  rw [build, hdeclare, ok_bind, Package.build, hkept]
  dsimp only
  rw [lowerDecls_eq (Resolution.sound_declared _) Nat.zero_lt_one, ok_bind]

end Guarded

end CalcLang
