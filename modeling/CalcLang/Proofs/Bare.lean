import CalcLang.Package.Resolution
import CalcLang.Package.Typing
import Mathlib.Data.Option.Basic

/-!
# Packages without positions

Building and checking pass positions on and never look at them. So all positions may be dropped
before or after it, with the same result (`Package.build_bare`, `Package.check_bare`).
-/

namespace CalcLang

/-! ## What has positions -/

/-- The name alone. -/
def Ident.bare (x : Ident) : Ident := ⟨x.name, .origin⟩

/-- The type alone. -/
def TypeExpr.bare (ty : TypeExpr) : TypeExpr := ⟨ty.ty, .origin⟩

mutual

/-- The expression without positions. -/
def Expr.bare : Expr → Expr
  | .int value _ => .int value .origin
  | .bool value _ => .bool value .origin
  | .name x => .name x.bare
  | .binary op lhs rhs _ => .binary op lhs.bare rhs.bare .origin
  | .unary op operand _ => .unary op operand.bare .origin
  | .ifThen test ty yes _ => .ifThen test.bare (ty.map TypeExpr.bare) yes.bare .origin
  | .ifThenElse test ty yes no _ =>
    .ifThenElse test.bare (ty.map TypeExpr.bare) yes.bare no.bare .origin
  | .declare x ty _ => .declare x.bare ty.bare .origin
  | .define x ty init _ => .define x.bare (ty.map TypeExpr.bare) init.bare .origin
  | .assign x value _ => .assign x.bare value.bare .origin
  | .call x args _ => .call x.bare (Expr.allBare args) .origin
  | .block exprs _ => .block (Expr.allBare exprs) .origin

/-- The expressions without positions. -/
def Expr.allBare : List Expr → List Expr
  | [] => []
  | e :: es => e.bare :: Expr.allBare es

end

/-- The parameter without positions. -/
def Param.bare (p : Param) : Param := ⟨p.name.bare, p.ty.bare⟩

/-- The declaration without positions. -/
def Decl.bare (d : Decl) : Decl :=
  ⟨d.name.bare, d.params.map Param.bare, d.ret.bare, d.body.bare, .origin⟩

mutual

/-- The node without positions. -/
def Node.bare : Node → Node
  | .const value _ => .const value .origin
  | .error _ => .error .origin
  | .read name x ty _ => .read name x ty .origin
  | .binary op lhs rhs ty tag _ => .binary op lhs.bare rhs.bare ty tag .origin
  | .unary op operand ty _ => .unary op operand.bare ty .origin
  | .call name callee args ty _ => .call name callee (Node.allBare args) ty .origin
  | .ifThen test written yes ty tag _ => .ifThen test.bare written yes.bare ty tag .origin
  | .ifThenElse test written yes no ty tag _ =>
    .ifThenElse test.bare written yes.bare no.bare ty tag .origin
  | .block nodes ty _ => .block (Node.allBare nodes) ty .origin
  | .assign name x value ty _ => .assign name x value.bare ty .origin
  | .declare name x written _ => .declare name x written .origin
  | .define name x written init _ => .define name x written init.bare .origin

/-- The nodes without positions. -/
def Node.allBare : List Node → List Node
  | [] => []
  | n :: ns => n.bare :: Node.allBare ns

end

/-- The symbol without its position. -/
def Symbol.bare (s : Symbol) : Symbol := { s with pos := .origin }

/-- The symbols without positions. -/
def Symbols.bare (s : Symbols) : Symbols := s.map Symbol.bare

/-- The declaration without positions. -/
def Declaration.bare (d : Declaration) : Declaration :=
  { d with body := d.body.bare, pos := .origin }

/-- The package without positions. -/
def Package.bare (p : Package) : Package :=
  { p with symbols := p.symbols.bare, decls := p.decls.map Declaration.bare }

namespace Diagnostic

/-- The cause without the other place that it tells. -/
def Kind.bare : Kind → Kind
  | .redeclaration name _ => .redeclaration name .origin
  | kind => kind

/-- The diagnostic without positions. -/
def bare (d : Diagnostic) : Diagnostic := ⟨d.kind.bare, .origin⟩

end Diagnostic

theorem Node.pos_bare (n : Node) : n.bare.pos = .origin := by
  cases n <;> rfl

theorem Expr.isBlock_bare (e : Expr) : e.bare.isBlock = e.isBlock := by
  cases e <;> rfl

namespace Symbols

variable (s : Symbols) (x : SymbolId)

theorem size_bare : s.bare.size = s.size := Array.size_map ..

theorem get?_bare : s.bare.get? x = (s.get? x).map Symbol.bare := Array.getElem?_map ..

theorem ty_bare : s.bare.ty x = s.ty x := by
  rw [ty, get?_bare, ty]
  cases s.get? x <;> rfl

theorem pos_bare : s.bare.pos x = .origin := by
  rw [pos, get?_bare]
  cases s.get? x <;> rfl

theorem setTy_bare (ty : Option Ty) : s.bare.setTy x ty = (s.setTy x ty).bare := by
  refine Array.ext_getElem? fun i => ?_
  simp only [setTy, bare, Array.getElem?_modify, Array.getElem?_map]
  split
  · rw [Option.map_map, Option.map_map]
    rfl
  · rfl

end Symbols

/-! ## Building -/

namespace Resolution

open Names

/-- The names made so far, without positions. -/
def Names.bare (n : Names) : Names := ⟨n.scopes, n.symbols.bare⟩

/-- What is lowered, without positions. -/
def Lowered.bare {α : Type} (f : α → α) (r : Lowered α) : Lowered α :=
  (f r.1, r.2.1.bare, r.2.2.map Diagnostic.bare)

variable (scope : ScopeId)

theorem nextSymbol_bare (n : Names) : n.bare.nextSymbol = n.nextSymbol := by
  simp [nextSymbol, Names.bare, Symbols.size_bare]

theorem addSymbol_bare (n : Names) (x : Ident) (kind : SymbolKind) (ty : Option Ty) :
    n.bare.addSymbol x.bare kind ty = (n.addSymbol x kind ty).bare := by
  simp only [Names.bare, addSymbol, Symbols.bare, Array.map_push]
  rfl

theorem bind_bare (n : Names) (x : Ident) (kind : SymbolKind) (ty : Option Ty) :
    n.bare.bind scope x.bare kind ty =
      ((n.bind scope x kind ty).1.bare, (n.bind scope x kind ty).2.map Diagnostic.bare) := by
  rw [Names.bind, Names.bind, addSymbol_bare, nextSymbol_bare]
  have hscopes : n.bare.scopes.lookupLocal scope x.bare.name =
    n.scopes.lookupLocal scope x.name := rfl
  rw [hscopes]
  split
  · next previous _ =>
    have hprevious : n.bare.symbols.pos previous = .origin := Symbols.pos_bare n.symbols previous
    rw [hprevious]
    rfl
  · rfl

theorem resolve_bare (n : Names) (x : Ident) : n.bare.resolve scope x.bare =
    ((n.resolve scope x).map fun r => (r.1, r.2.bare)).mapError Diagnostic.bare := by
  have hscopes : n.bare.scopes.resolve? scope x.bare.name = n.scopes.resolve? scope x.name := rfl
  rw [resolve, resolve, hscopes]
  cases n.scopes.resolve? scope x.name with
  | none => rfl
  | some id =>
    have hsymbol : n.bare.symbols.get? id = _ := Symbols.get?_bare n.symbols id
    simp only [hsymbol]
    cases n.symbols.get? id <;> rfl

theorem resolveVariable_bare (n : Names) (x : Ident) {misuse : String → Diagnostic.Kind}
    (hmisuse : ∀ name, (misuse name).bare = misuse name) :
    n.bare.resolveVariable scope x.bare misuse =
      (n.resolveVariable scope x misuse).mapError Diagnostic.bare := by
  rw [resolveVariable, resolveVariable, resolve_bare]
  cases n.resolve scope x with
  | error d => rfl
  | ok r =>
    obtain ⟨id, symbol⟩ := r
    simp only [Except.map, Except.mapError, Bind.bind, Except.bind]
    have hdeclaration : symbol.bare.declaration? = symbol.declaration? := rfl
    rw [hdeclaration]
    cases symbol.declaration? with
    | none => rfl
    | some id => exact congrArg Except.error (congrArg₂ Diagnostic.mk (hmisuse x.name).symm rfl)

theorem resolveDeclaration_bare (n : Names) (x : Ident) :
    n.bare.resolveDeclaration scope x.bare =
      (n.resolveDeclaration scope x).mapError Diagnostic.bare := by
  rw [resolveDeclaration, resolveDeclaration, resolve_bare]
  cases n.resolve scope x with
  | error d => rfl
  | ok r =>
    obtain ⟨id, symbol⟩ := r
    simp only [Except.map, Except.mapError, Bind.bind, Except.bind]
    have hdeclaration : symbol.bare.declaration? = symbol.declaration? := rfl
    rw [hdeclaration]
    cases symbol.declaration? <;> rfl

theorem enterBranch_bare (n : Names) (branch : Expr) :
    n.bare.enterBranch scope branch.bare =
      ((n.enterBranch scope branch).1, (n.enterBranch scope branch).2.bare) := by
  rw [enterBranch, enterBranch, Expr.isBlock_bare]
  split <;> rfl

mutual

theorem lower_bare (scope : ScopeId) : ∀ (e : Expr) (n : Names),
    lower scope e.bare n.bare = (lower scope e n).bare Node.bare
  | .int .., _ | .bool .., _ => rfl
  | .name x, n => by
    rw [Expr.bare, lower, lower, resolveVariable_bare scope n x fun _ => rfl]
    cases n.resolveVariable scope x .notAValue <;> rfl
  | .binary op lhs rhs pos, n => by
    simp only [Expr.bare, lower, lower_bare scope lhs, lower_bare scope rhs, Lowered.bare,
      List.map_append]
    rfl
  | .unary op operand pos, n => by
    simp only [Expr.bare, lower, lower_bare scope operand, Lowered.bare]
    rfl
  | .ifThen test ty yes pos, n => by
    simp only [Expr.bare, lower, lower_bare scope test, Lowered.bare, enterBranch_bare]
    simp only [lower_bare _ yes, Lowered.bare, List.map_append, Option.map_map]
    rfl
  | .ifThenElse test ty yes no pos, n => by
    simp only [Expr.bare, lower, lower_bare scope test, Lowered.bare, enterBranch_bare]
    simp only [lower_bare _ yes, Lowered.bare, enterBranch_bare]
    simp only [lower_bare _ no, Lowered.bare, List.map_append, Option.map_map]
    rfl
  | .declare x ty pos, n => by
    simp only [Expr.bare, lower, nextSymbol_bare, TypeExpr.bare, bind_bare]
    rfl
  | .define x ty init pos, n => by
    simp only [Expr.bare, lower, lower_bare scope init, Lowered.bare, nextSymbol_bare,
      Option.map_map, bind_bare, List.map_append]
    rfl
  | .assign x value pos, n => by
    have hresolve := resolveVariable_bare scope (lower scope value n).2.1 x
      (show ∀ name, Diagnostic.Kind.bare (.notAssignable name) = _ from fun _ => rfl)
    simp only [Expr.bare, lower, lower_bare scope value, Lowered.bare, hresolve]
    cases (lower scope value n).2.1.resolveVariable scope x .notAssignable with
    | ok target => rfl
    | error d => simp [Except.mapError, Node.bare]
  | .call x args pos, n => by
    simp only [Expr.bare, lower, lowerAll_bare scope args, Lowered.bare,
      resolveDeclaration_bare scope _ x]
    cases (lowerAll scope args n).2.1.resolveDeclaration scope x with
    | ok callee => rfl
    | error d => simp [Except.mapError, Node.bare]
  | .block exprs pos, n => by
    have hall := lowerAll_bare n.scopes.nextId exprs (n.push scope)
    have hpush : n.bare.push scope = (n.push scope).bare := rfl
    simp only [Expr.bare, lower, hpush]
    rw [show n.bare.scopes.nextId = n.scopes.nextId from rfl, hall]
    rfl

theorem lowerAll_bare (scope : ScopeId) : ∀ (es : List Expr) (n : Names),
    lowerAll scope (Expr.allBare es) n.bare = (lowerAll scope es n).bare Node.allBare
  | [], _ => rfl
  | e :: es, n => by
    simp only [Expr.allBare, lowerAll, lower_bare scope e, lowerAll_bare scope es, Lowered.bare,
      List.map_append]
    rfl

end

theorem lowerBody_bare (body : Expr) (n : Names) :
    lowerBody scope body.bare n.bare = (lowerBody scope body n).bare Node.bare := by
  cases body with
  | block exprs pos =>
    simp only [Expr.bare, lowerBody, lowerAll_bare scope exprs n, Lowered.bare]
    rfl
  | _ => exact lower_bare scope _ n

theorem bindParams_bare (ps : List Param) (n : Names) :
    bindParams scope (ps.map Param.bare) n.bare = (bindParams scope ps n).bare id := by
  induction ps generalizing n with
  | nil => rfl
  | cons p ps ih =>
    simp only [List.map_cons, bindParams, Param.bare, nextSymbol_bare, TypeExpr.bare, bind_bare, ih,
      Lowered.bare, List.map_append]
    rfl

theorem lowerDecl_bare (decl : Decl) (symbol : SymbolId) (n : Names) :
    lowerDecl decl.bare symbol n.bare = (lowerDecl decl symbol n).bare Declaration.bare := by
  have hpush : n.bare.push .package = (n.push .package).bare := rfl
  have hnext : n.bare.scopes.nextId = n.scopes.nextId := rfl
  simp only [lowerDecl, Decl.bare, hpush, hnext, bindParams_bare, Lowered.bare, lowerBody_bare,
    List.map_append]
  rfl

theorem lowerDecls_bare (ds : List (Decl × SymbolId)) (n : Names) :
    lowerDecls (ds.map fun d => (d.1.bare, d.2)) n.bare =
      (lowerDecls ds n).bare (List.map Declaration.bare) := by
  induction ds generalizing n with
  | nil => rfl
  | cons d ds ih =>
    simp only [List.map_cons, lowerDecls, lowerDecl_bare, Lowered.bare, ih, List.map_append]

theorem declareAll_bare (accepted : Nat) (ds : List Decl) (n : Names) :
    declareAll accepted (ds.map Decl.bare) n.bare =
      (declareAll accepted ds n).bare (List.map fun d => (d.1.bare, d.2)) := by
  induction ds generalizing accepted n with
  | nil => rfl
  | cons d ds ih =>
    have hscopes : n.bare.scopes.lookupLocal .package d.bare.name.name =
      n.scopes.lookupLocal .package d.name.name := rfl
    have hbind := bind_bare .package n d.name (.declaration ⟨accepted⟩) (some d.ret.ty)
    rw [List.map_cons, declareAll, declareAll, hscopes]
    split
    · next previous _ =>
      have hprevious : n.bare.symbols.pos previous = .origin := Symbols.pos_bare n.symbols previous
      simp only [ih, hprevious, Lowered.bare]
      rfl
    · simp only [Decl.bare, TypeExpr.bare, hbind, ih, nextSymbol_bare, Lowered.bare]
      rfl

end Resolution

open Resolution in
/-- **Building does not look at positions.** -/
theorem Package.build_bare (name : String) (files : List (List Decl)) :
    Package.build name (files.map (List.map Decl.bare)) =
      ((Package.build name files).1.bare,
        (Package.build name files).2.map Diagnostic.bare) := by
  have hinitial : Names.initial.bare = Names.initial := by
    simp [Names.bare, Names.initial, Symbols.bare]
  have hflatten : (files.map (List.map Decl.bare)).flatten = files.flatten.map Decl.bare :=
    List.map_flatten.symm
  have hdeclare := declareAll_bare 0 files.flatten .initial
  rw [hinitial] at hdeclare
  simp only [Package.build, hflatten, hdeclare, Lowered.bare, lowerDecls_bare, List.map_append]
  rfl

/-! ## Checking -/

namespace Typing

/-- What is checked, without positions. -/
def Checked.bare {α τ : Type} (f : α → α) (g : τ → τ) (r : Checked α τ) : Checked α τ :=
  (f r.1, g r.2.1, r.2.2.1.bare, r.2.2.2.map Diagnostic.bare)

theorem expect_bare (expected found : Option Ty) (context : Diagnostic.Context) (pos : Pos) :
    (expect expected found context pos).map Diagnostic.bare =
      expect expected found context .origin := by
  unfold expect
  split
  · split <;> rfl
  · rfl

theorem binary_bare (op : BinaryOp) (lhs rhs : Option Ty) (pos : Pos) :
    binary op lhs rhs .origin =
      ((binary op lhs rhs pos).1, (binary op lhs rhs pos).2.map Diagnostic.bare) := by
  unfold binary
  split
  · split
    · rfl
    · dsimp only
      split <;> rfl
  · rfl

theorem written_bare (wty unified : Option Ty) (pos : Pos) :
    written wty unified .origin =
      ((written wty unified pos).1, (written wty unified pos).2.map Diagnostic.bare) := by
  unfold written
  split
  · rw [expect_bare]
  · rfl

/-- The types of arguments, without the positions of these. -/
def bareTypes (tys : List (Option Ty × Pos)) : List (Option Ty × Pos) :=
  tys.map fun t => (t.1, .origin)

theorem arguments_bare (index : Nat) (expected : List (Option Ty))
    (found : List (Option Ty × Pos)) : arguments index expected (bareTypes found) =
      (arguments index expected found).map Diagnostic.bare := by
  induction expected generalizing index found with
  | nil => rfl
  | cons e es ih =>
    cases found with
    | nil => rfl
    | cons f fs =>
      rw [arguments, List.map_append, expect_bare, ← ih]
      rfl

theorem call_bare (sig : Signature) (tys : List (Option Ty × Pos)) (pos : Pos) :
    call sig (bareTypes tys) .origin = (call sig tys pos).map Diagnostic.bare := by
  rw [call, call, bareTypes, List.length_map]
  split
  · exact arguments_bare 0 sig.params tys
  · rfl

theorem getLast?_bareTypes (tys : List (Option Ty × Pos)) :
    (bareTypes tys).getLast?.bind Prod.fst = tys.getLast?.bind Prod.fst := by
  rw [bareTypes, List.getLast?_map]
  cases tys.getLast? <;> rfl

variable (sigs : Signatures)

mutual

theorem check_bare : ∀ (n : Node) (s : Symbols),
    check sigs n.bare s.bare = (check sigs n s).bare Node.bare id
  | .const .., _ | .error .., _ => rfl
  | .read name x ty pos, s => by
    simp only [Node.bare, check, Symbols.ty_bare]
    rfl
  | .binary op lhs rhs ty tag pos, s => by
    simp only [Node.bare, check, check_bare lhs, Checked.bare, check_bare rhs, id,
      binary_bare op _ _ pos, List.map_append]
  | .unary op operand ty pos, s => by
    simp only [Node.bare, check, check_bare operand, Checked.bare, id, List.map_append, expect_bare]
  | .ifThen test wty yes ty tag pos, s => by
    simp only [Node.bare, check, check_bare test, Checked.bare, check_bare yes, id,
      written_bare wty _ pos, Node.pos_bare, List.map_append, expect_bare]
  | .ifThenElse test wty yes no ty tag pos, s => by
    simp only [Node.bare, check, check_bare test, Checked.bare, check_bare yes, check_bare no, id,
      written_bare wty _ pos, Node.pos_bare, List.map_append, expect_bare]
  | .block nodes ty pos, s => by
    simp only [Node.bare, check, checkAll_bare nodes, Checked.bare, id, getLast?_bareTypes]
  | .assign name x value ty pos, s => by
    simp only [Node.bare, check, check_bare value, Checked.bare, id, Symbols.ty_bare, Node.pos_bare,
      List.map_append, expect_bare]
  | .declare name x wty pos, s => by
    simp only [Node.bare, check, Checked.bare, id, Symbols.setTy_bare, List.map_nil]
  | .define name x wty init pos, s => by
    simp only [Node.bare, check, check_bare init, Checked.bare, id, Symbols.setTy_bare,
      Node.pos_bare, List.map_append, expect_bare]
  | .call name callee args ty pos, s => by
    simp only [Node.bare, check, checkAll_bare args, Checked.bare]
    cases sigs[callee.index]? with
    | none => rfl
    | some sig => simp only [Node.bare, id, call_bare sig _ pos, List.map_append]

theorem checkAll_bare : ∀ (ns : List Node) (s : Symbols),
    checkAll sigs (Node.allBare ns) s.bare = (checkAll sigs ns s).bare Node.allBare bareTypes
  | [], _ => rfl
  | n :: ns, s => by
    simp only [Node.allBare, checkAll, check_bare n, Checked.bare, checkAll_bare ns, id,
      Node.pos_bare, List.map_append, bareTypes, List.map_cons]

end

theorem checkDecls_bare (ds : List Declaration) (s : Symbols) :
    checkDecls sigs (ds.map Declaration.bare) s.bare =
      ((checkDecls sigs ds s).1.map Declaration.bare, (checkDecls sigs ds s).2.1.bare,
        (checkDecls sigs ds s).2.2.map Diagnostic.bare) := by
  induction ds generalizing s with
  | nil => rfl
  | cons d ds ih =>
    simp only [List.map_cons, checkDecls, Declaration.bare, check_bare, Checked.bare, id, ih,
      Node.pos_bare, List.map_append, expect_bare]

theorem signatures_bare (symbols : Symbols) (ds : List Declaration) :
    signatures symbols.bare (ds.map Declaration.bare) = signatures symbols ds := by
  rw [signatures, signatures, List.map_map]
  refine List.map_congr_left fun d _ => ?_
  have hty : symbols.bare.ty = symbols.ty := funext symbols.ty_bare
  simp only [Function.comp_apply, Declaration.bare, hty]

end Typing

/-- **Checking does not look at positions.** -/
theorem Package.check_bare (p : Package) (h : p.stage = .built) (h' : p.bare.stage = .built) :
    p.bare.check h' = ((p.check h).1.bare, (p.check h).2.map Diagnostic.bare) := by
  simp only [Package.check, Package.bare, Typing.signatures_bare, Typing.checkDecls_bare]

end CalcLang
