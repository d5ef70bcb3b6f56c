import CalcLang.Package.Listing
import CalcLang.Proofs.Bare
import CalcLang.Proofs.CheckedPackage
import CalcLang.Proofs.Lexemes
import CalcLang.Proofs.NewNames
import CalcLang.Proofs.Placement
import CalcLang.Proofs.References

/-!
# Packages with all types written

`Node.source` is the expression that a node stands for, where a variable has the type written that
was found for it. Lowering that expression gives the node again, and what was found about types is
already there (`Resolution.Resolves.source`).
-/

namespace CalcLang

/-! ## Nodes as expressions -/

/-- A name that is written nowhere. -/
def Ident.of (name : String) : Ident := ⟨name, .origin⟩

/-- A type that is written nowhere. -/
def TypeExpr.of (ty : Ty) : TypeExpr := ⟨ty, .origin⟩

mutual

/-- The expression that a node stands for, with the types of all variables written on them. -/
def Node.source (S : Symbols) : Node → Expr
  | .const (.int value) _ => .int value .origin
  | .const (.bool value) _ => .bool value .origin
  -- What was not resolved has no expression any more.
  | .error _ => .block [] .origin
  | .read name _ _ _ => .name (.of name)
  | .binary op lhs rhs _ _ _ => .binary op (lhs.source S) (rhs.source S) .origin
  | .unary op operand _ _ => .unary op (operand.source S) .origin
  | .call name _ args _ _ => .call (.of name) (Node.allSource S args) .origin
  | .ifThen test written yes _ _ _ =>
    .ifThen (test.source S) (written.map .of) (yes.source S) .origin
  | .ifThenElse test written yes no _ _ _ =>
    .ifThenElse (test.source S) (written.map .of) (yes.source S) (no.source S) .origin
  | .block nodes _ _ => .block (Node.allSource S nodes) .origin
  | .assign name _ value _ _ => .assign (.of name) (value.source S) .origin
  | .declare name _ written _ => .declare (.of name) (.of written) .origin
  | .define name x _ init _ => .define (.of name) ((S.ty x).map .of) (init.source S) .origin

/-- The expressions that nodes stand for. -/
def Node.allSource (S : Symbols) : List Node → List Expr
  | [] => []
  | n :: ns => n.source S :: Node.allSource S ns

end

mutual

/-- The node without positions, and with the types of all variables written on them. -/
def Node.explicit (S : Symbols) : Node → Node
  | .const value _ => .const value .origin
  | .error _ => .error .origin
  | .read name x ty _ => .read name x ty .origin
  | .binary op lhs rhs ty tag _ => .binary op (lhs.explicit S) (rhs.explicit S) ty tag .origin
  | .unary op operand ty _ => .unary op (operand.explicit S) ty .origin
  | .call name callee args ty _ => .call name callee (Node.allExplicit S args) ty .origin
  | .ifThen test written yes ty tag _ =>
    .ifThen (test.explicit S) written (yes.explicit S) ty tag .origin
  | .ifThenElse test written yes no ty tag _ =>
    .ifThenElse (test.explicit S) written (yes.explicit S) (no.explicit S) ty tag .origin
  | .block nodes ty _ => .block (Node.allExplicit S nodes) ty .origin
  | .assign name x value ty _ => .assign name x (value.explicit S) ty .origin
  | .declare name x written _ => .declare name x written .origin
  | .define name x _ init _ => .define name x (S.ty x) (init.explicit S) .origin

/-- The nodes without positions, and with the types of all variables written on them. -/
def Node.allExplicit (S : Symbols) : List Node → List Node
  | [] => []
  | n :: ns => n.explicit S :: Node.allExplicit S ns

end

/-- The parameter that a symbol stands for. -/
def Symbols.param (S : Symbols) (x : SymbolId) : Param :=
  ⟨.of (Listing.nameText S x), .of ((S.ty x).getD .int)⟩

/-- The declaration of a source text that a declaration stands for. -/
def Declaration.source (S : Symbols) (d : Declaration) : Decl :=
  ⟨.of d.name, d.params.map S.param, .of d.ret, d.body.source S, .origin⟩

/-- The declaration without positions, and with the types of all variables written on them. -/
def Declaration.explicit (S : Symbols) (d : Declaration) : Declaration :=
  { d with body := d.body.explicit S, pos := .origin }

/-- The package without positions, and with the types of all variables written on them. -/
def Package.explicit (p : Package) : Package :=
  { p with symbols := p.symbols.bare, decls := p.decls.map (Declaration.explicit p.symbols) }

/-! ## Expressions that can be written -/

/-- What a token that is a name is spelled like. -/
def IsIdent (name : String) : Prop := Token.Lexeme .ident name.toList

/-- An expression that is written between parentheses. -/
def Expr.isList : Expr → Bool
  | .int .. | .bool .. | .name _ => false
  | _ => true

/-- Whether expressions start with one between parentheses. -/
def Expr.startsWithList : List Expr → Bool
  | [] => false
  | e :: _ => e.isList

mutual

/-- The expression can be written: its names can, and its blocks are not taken for calls. -/
def Expr.Writable : Expr → Prop
  | .int .. | .bool .. => True
  | .name x | .declare x _ _ => IsIdent x.name
  | .binary _ lhs rhs _ => lhs.Writable ∧ rhs.Writable
  | .unary _ operand _ => operand.Writable
  | .ifThen test _ yes _ => test.Writable ∧ yes.Writable
  | .ifThenElse test _ yes no _ => test.Writable ∧ yes.Writable ∧ no.Writable
  | .define x _ init _ => IsIdent x.name ∧ init.Writable
  | .assign x value _ => IsIdent x.name ∧ value.Writable
  | .call x args _ => IsIdent x.name ∧ Expr.AllWritable args
  | .block exprs _ => Expr.startsWithList exprs ∧ Expr.AllWritable exprs

/-- The expressions can be written. -/
def Expr.AllWritable : List Expr → Prop
  | [] => True
  | e :: es => e.Writable ∧ Expr.AllWritable es

end

/-- The declaration can be written. -/
structure Decl.Writable (d : Decl) : Prop where
  name : IsIdent d.name.name
  params : ∀ p ∈ d.params, IsIdent p.name.name
  body : d.body.Writable

/-! ## Lowering again -/

namespace Resolution

open Names

/-- The names made so far, without positions, and with the types that are found in the end. -/
def Names.explicit (S : Symbols) (n : Names) : Names :=
  ⟨n.scopes, n.symbols.mapIdx fun i s => { s with ty := S.ty ⟨i⟩, pos := .origin }⟩

variable {S : Symbols} {scope : ScopeId} {n n' : Names}

theorem get?_explicit (S : Symbols) (n : Names) (x : SymbolId) : (n.explicit S).symbols.get? x =
    (n.symbols.get? x).map fun s => { s with ty := S.ty x, pos := .origin } :=
  Array.getElem?_mapIdx ..

theorem nextSymbol_explicit (S : Symbols) (n : Names) :
    (n.explicit S).nextSymbol = n.nextSymbol := by
  simp [nextSymbol, Names.explicit]

/-- What is bound with the type that is found in the end. -/
theorem bind_explicit (S : Symbols) {x : Ident} {kind : SymbolKind} {ty : Option Ty}
    (h : n.bind scope x kind ty = (n', [])) :
    (n.explicit S).bind scope (.of x.name) kind (S.ty n.nextSymbol) = (n'.explicit S, []) := by
  have hadd : (n.explicit S).addSymbol (.of x.name) kind (S.ty n.nextSymbol) =
      (n.addSymbol x kind ty).explicit S := by
    simp [addSymbol, Names.explicit, Array.mapIdx_push, nextSymbol, Ident.of]
  rw [Names.bind] at h ⊢
  rw [hadd, nextSymbol_explicit]
  have hscopes : (n.explicit S).scopes.lookupLocal scope (Ident.of x.name).name =
    n.scopes.lookupLocal scope x.name := rfl
  rw [hscopes]
  split at h
  · cases h
  · cases h
    rfl

theorem resolve_explicit (S : Symbols) {x : Ident} {id : SymbolId} {symbol : Symbol}
    (h : n.resolve scope x = .ok (id, symbol)) :
    (n.explicit S).resolve scope (.of x.name) =
      .ok (id, { symbol with ty := S.ty id, pos := .origin }) := by
  obtain ⟨hid, hsymbol⟩ := resolve_eq_ok_iff.1 h
  exact resolve_eq_ok_iff.2 ⟨hid, by rw [get?_explicit, hsymbol]; rfl⟩

theorem resolveVariable_explicit (S : Symbols) {x : Ident} {id : SymbolId}
    {misuse : String → Diagnostic.Kind} (h : n.resolveVariable scope x misuse = .ok id) :
    (n.explicit S).resolveVariable scope (.of x.name) misuse = .ok id := by
  obtain ⟨symbol, hresolve, hnone⟩ := resolveVariable_eq_ok_iff.1 h
  exact resolveVariable_eq_ok_iff.2 ⟨_, resolve_explicit S hresolve, hnone⟩

theorem resolveDeclaration_explicit (S : Symbols) {x : Ident} {id : DeclId}
    (h : n.resolveDeclaration scope x = .ok id) :
    (n.explicit S).resolveDeclaration scope (.of x.name) = .ok id := by
  obtain ⟨y, symbol, hresolve, hsome⟩ := resolveDeclaration_eq_ok_iff.1 h
  exact resolveDeclaration_eq_ok_iff.2 ⟨y, _, resolve_explicit S hresolve, hsome⟩

/-- What a node that an expression has been lowered to has of it. -/
structure Reread (S : Symbols) (lowering : Expr → Names → Lowered Node) (e : Expr) (n : Names)
    (m : Node) (n' : Names) : Prop where
  /-- Lowering the expression of the node gives the node again. -/
  lower : lowering (m.source S) (n.explicit S) = (m.explicit S, n'.explicit S, [])
  isBlock : (m.source S).isBlock = e.isBlock
  isList : (m.source S).isList = e.isList
  writable : e.Writable → (m.source S).Writable
  untyped : m.untyped = m
  untagged : m.untagged = m

/-- What nodes that expressions have been lowered to have of them. -/
structure RereadAll (S : Symbols) (scope : ScopeId) (es : List Expr) (n : Names) (ms : List Node)
    (n' : Names) : Prop where
  lower : lowerAll scope (Node.allSource S ms) (n.explicit S) =
    (Node.allExplicit S ms, n'.explicit S, [])
  startsWithList : Expr.startsWithList (Node.allSource S ms) = Expr.startsWithList es
  writable : Expr.AllWritable es → Expr.AllWritable (Node.allSource S ms)
  untyped : Node.allUntyped ms = ms
  untagged : Node.allUntagged ms = ms

theorem Reread.resolves {e : Expr} {m : Node} (h : Reread S (Resolution.lower scope) e n m n') :
    Resolves scope (m.source S) (n.explicit S) (m.explicit S) (n'.explicit S) :=
  resolves_of_lower h.lower

theorem RereadAll.resolve {es : List Expr} {ms : List Node} (h : RereadAll S scope es n ms n') :
    AllResolve scope (Node.allSource S ms) (n.explicit S) (Node.allExplicit S ms) (n'.explicit S) :=
  allResolve_of_lowerAll h.lower

theorem map_ty_of (ty : Option Ty) : (ty.map TypeExpr.of).map TypeExpr.ty = ty := by
  cases ty <;> rfl

/-- The branch is lowered again in the scope in which it was lowered. -/
theorem Reread.branch {e : Expr} {m : Node}
    (h : Reread S (Resolution.lower (n.enterBranch scope e).1) e (n.enterBranch scope e).2 m n') :
    Resolves ((n.explicit S).enterBranch scope (m.source S)).1 (m.source S)
      ((n.explicit S).enterBranch scope (m.source S)).2 (m.explicit S) (n'.explicit S) := by
  have henter : (n.explicit S).enterBranch scope (m.source S) =
      ((n.enterBranch scope e).1, (n.enterBranch scope e).2.explicit S) := by
    rw [Names.enterBranch, Names.enterBranch, h.isBlock]
    cases e.isBlock <;> rfl
  rw [henter]
  exact h.resolves

open Typing

variable {sigs : Signatures} {P : Node → Ty → Prop}

mutual

/-- **A node is the node of its own expression**, if its types are those that are written there. -/
theorem Resolves.source {scope : ScopeId} {e : Expr} {n n' : Names} {m : Node} {τ : Ty} :
    Resolves scope e n m n' → HasType sigs S.ty P m τ → Reread S (lower scope) e n m n'
  | .int, _ | .bool, _ => ⟨by rw [Node.source, lower]; rfl, rfl, rfl, id, rfl, rfl⟩
  | .name hx, _ =>
    ⟨(Resolves.name (resolveVariable_explicit S hx)).lower_eq, rfl, rfl, id, rfl, rfl⟩
  | .binary hl hr, ht => by
    cases ht with
    | binary htl htr =>
      have h₁ := hl.source htl
      have h₂ := hr.source htr
      refine ⟨(Resolves.binary h₁.resolves h₂.resolves).lower_eq, rfl, rfl,
        fun hw => ⟨h₁.writable hw.1, h₂.writable hw.2⟩, ?_, ?_⟩
      · rw [Node.untyped, h₁.untyped, h₂.untyped]
      · rw [Node.untagged, h₁.untagged, h₂.untagged]
  | .unary ho, ht => by
    cases ht with
    | unary hto =>
      have h₁ := ho.source hto
      refine ⟨(Resolves.unary h₁.resolves).lower_eq, rfl, rfl, h₁.writable, ?_, ?_⟩
      · rw [Node.untyped, h₁.untyped]
      · rw [Node.untagged, h₁.untagged]
  | @Resolves.ifThen _ _ ty _ _ n test _ yes _ hc hy, ht => by
    cases ht with
    | ifThen htc hty =>
      have h₁ := hc.source htc
      have h₂ := hy.source hty
      refine ⟨?_, rfl, rfl, fun hw => ⟨h₁.writable hw.1, h₂.writable hw.2⟩, ?_, ?_⟩
      · have hlower : lower _ (.ifThen (test.source S) ((ty.map TypeExpr.ty).map .of)
          (yes.source S) .origin) (n.explicit S) = _ :=
            (Resolves.ifThen h₁.resolves h₂.branch).lower_eq
        rw [map_ty_of] at hlower
        exact hlower
      · rw [Node.untyped, h₁.untyped, h₂.untyped]
      · rw [Node.untagged, h₁.untagged, h₂.untagged]
  | @Resolves.ifThenElse _ _ ty _ _ _ n test _ yes _ no _ hc hy hn, ht => by
    cases ht with
    | ifThenElse htc hty htn =>
      have h₁ := hc.source htc
      have h₂ := hy.source hty
      have h₃ := hn.source htn
      refine ⟨?_, rfl, rfl, fun hw => ⟨h₁.writable hw.1, h₂.writable hw.2.1, h₃.writable hw.2.2⟩,
        ?_, ?_⟩
      · have hlower : lower _ (.ifThenElse (test.source S) ((ty.map TypeExpr.ty).map .of)
          (yes.source S) (no.source S) .origin) (n.explicit S) = _ :=
            (Resolves.ifThenElse h₁.resolves h₂.branch h₃.branch).lower_eq
        rw [map_ty_of] at hlower
        exact hlower
      · rw [Node.untyped, h₁.untyped, h₂.untyped, h₃.untyped]
      · rw [Node.untagged, h₁.untagged, h₂.untagged, h₃.untagged]
  | @Resolves.declare _ ident ty _ n _ hb, ht => by
    cases ht with
    | declare hx =>
      have hbind := bind_explicit S hb
      rw [hx] at hbind
      have hlower : lower _ (.declare (.of ident.name) (.of ty.ty) .origin) (n.explicit S) = _ :=
        (Resolves.declare hbind).lower_eq
      rw [nextSymbol_explicit] at hlower
      exact ⟨hlower, rfl, rfl, id, rfl, rfl⟩
  | @Resolves.define _ ident _ _ _ n init n₁ _ hi hb, ht => by
    cases ht with
    | define hti =>
      have h₁ := hi.source hti
      -- The type that is written now is the one found in the end, not the one that was written.
      have hbind := bind_explicit S hb
      rw [← map_ty_of (S.ty n₁.nextSymbol)] at hbind
      refine ⟨?_, rfl, rfl, fun hw => ⟨hw.1, h₁.writable hw.2⟩, ?_, ?_⟩
      · have hlower : lower _ (.define (.of ident.name) ((S.ty n₁.nextSymbol).map .of)
          (init.source S) .origin) (n.explicit S) = _ :=
            (Resolves.define h₁.resolves hbind).lower_eq
        rw [map_ty_of, nextSymbol_explicit] at hlower
        exact hlower
      · rw [Node.untyped, h₁.untyped]
      · rw [Node.untagged, h₁.untagged]
  | .assign hv hx, ht => by
    cases ht with
    | assign htv =>
      have h₁ := hv.source htv
      refine ⟨(Resolves.assign h₁.resolves (resolveVariable_explicit S hx)).lower_eq, rfl, rfl,
        fun hw => ⟨hw.1, h₁.writable hw.2⟩, ?_, ?_⟩
      · rw [Node.untyped, h₁.untyped]
      · rw [Node.untagged, h₁.untagged]
  | .call ha hx, ht => by
    cases ht with
    | call _ hta =>
      have h₁ := ha.source hta
      refine ⟨(Resolves.call h₁.resolve (resolveDeclaration_explicit S hx)).lower_eq, rfl, rfl,
        fun hw => ⟨hw.1, h₁.writable hw.2⟩, ?_, ?_⟩
      · rw [Node.untyped, h₁.untyped]
      · rw [Node.untagged, h₁.untagged]
  | .block ha, ht => by
    cases ht with
    | block htn =>
      have h₁ := ha.source htn
      refine ⟨(Resolves.block h₁.resolve).lower_eq, rfl, rfl,
        fun hw => ⟨h₁.startsWithList.trans hw.1, h₁.writable hw.2⟩, ?_, ?_⟩
      · rw [Node.untyped, h₁.untyped]
      · rw [Node.untagged, h₁.untagged]

theorem AllResolve.source {scope : ScopeId} {es : List Expr} {n n' : Names} {ms : List Node}
    {τs : List Ty} :
    AllResolve scope es n ms n' → HaveTypes sigs S.ty P ms τs → RereadAll S scope es n ms n'
  | .nil, _ => ⟨by rw [Node.allSource, lowerAll]; rfl, rfl, id, rfl, rfl⟩
  | .cons he hes, ht => by
    cases ht with
    | cons ht hts =>
      have h₁ := he.source ht
      have h₂ := hes.source hts
      refine ⟨(AllResolve.cons h₁.resolves h₂.resolve).lowerAll_eq, h₁.isList,
        fun hw => ⟨h₁.writable hw.1, h₂.writable hw.2⟩, ?_, ?_⟩
      · rw [Node.allUntyped, h₁.untyped, h₂.untyped]
      · rw [Node.allUntagged, h₁.untagged, h₂.untagged]

end

/-! ## Declarations -/

theorem BodyResolves.source {scope : ScopeId} {n n' : Names} {m : Node} {τ : Ty} {e : Expr}
    (h : BodyResolves scope e n m n') (ht : HasType sigs S.ty P m τ) :
    Reread S (lowerBody scope) e n m n' := by
  cases h with
  | block ha =>
    cases ht with
    | block htn =>
      have h₁ := ha.source htn
      refine ⟨bodyResolves_iff.1 (.block h₁.resolve), rfl, rfl,
        fun hw => ⟨h₁.startsWithList.trans hw.1, h₁.writable hw.2⟩, ?_, ?_⟩
      · rw [Node.untyped, h₁.untyped]
      · rw [Node.untagged, h₁.untagged]
  | other hblock h =>
    have hbody := h.source ht
    exact { hbody with
      lower := bodyResolves_iff.1 (.other (hbody.isBlock.trans hblock) hbody.resolves) }

/-- A symbol that has been made stays. -/
theorem kept_symbol (x : SymbolId) (e : Symbol) : Kept fun n => n.symbols.get? x = some e := by
  refine Kept.of_symbols (P := fun s => s.get? x = some e) fun s e' _ hs => ?_
  have hlt : x.index < s.size := (Array.getElem?_eq_some_iff.1 hs).1
  rw [Symbols.get?, Array.getElem?_push, if_neg (Nat.ne_of_lt hlt)]
  exact hs

/-- The symbol of a parameter stays, with its type. -/
structure Stays (S : Symbols) (n : Names) (x : SymbolId) : Prop where
  name : Listing.nameText S x = Listing.nameText n.symbols x
  ty : S.ty x = n.symbols.ty x

theorem Stays.before {x : SymbolId} (h : Stays S n' x) (hx : x.index < n.symbols.size)
    (hkept : ∀ e, n.symbols.get? x = some e → n'.symbols.get? x = some e) : Stays S n x := by
  have hget : n.symbols.get? x = some n.symbols[x.index] := Array.getElem?_eq_getElem hx
  have hget' := hkept _ hget
  refine ⟨?_, ?_⟩
  · rw [h.name, Listing.nameText, Listing.nameText, hget, hget']
  · rw [h.ty, Symbols.ty, Symbols.ty, hget, hget']

theorem ParamsResolve.source {scope : ScopeId} {n n' : Names} {ps : List Param}
    {xs : List SymbolId} (h : ParamsResolve scope ps n xs n') (hS : ∀ x ∈ xs, Stays S n' x) :
    xs.map S.param = ps.map Param.bare ∧
      ParamsResolve scope (xs.map S.param) (n.explicit S) xs (n'.explicit S) := by
  induction h with
  | nil => exact ⟨rfl, .nil⟩
  | @cons p ps n n₁ xs n₂ hb hps ih =>
    obtain ⟨hstays, hrest⟩ := List.forall_mem_cons.1 hS
    obtain ⟨hparams, hagain⟩ := ih hrest
    -- The parameters that are bound later leave the symbol of this one as it is.
    have hget : n₂.symbols.get? n.nextSymbol =
        some ⟨p.name.name, .param, some p.ty.ty, none, p.name.pos⟩ := by
      have hkept := (kept_symbol n.nextSymbol _).bindParams scope ps n₁
        (show n₁.symbols.get? n.nextSymbol = _ by
          rw [(grows_of_bind hb).2, Symbols.get?, nextSymbol, Array.getElem?_push_size])
      rwa [paramsResolve_iff.1 hps] at hkept
    have hname : Listing.nameText S n.nextSymbol = p.name.name := by
      rw [hstays.name, Listing.nameText, hget]
    have hty : S.ty n.nextSymbol = some p.ty.ty := by
      rw [hstays.ty, Symbols.ty, hget]
      rfl
    have hparam : S.param n.nextSymbol = p.bare := by
      rw [Symbols.param, hname, hty]
      rfl
    have hfirst := bind_explicit S hb
    rw [hty] at hfirst
    have hfirst : (n.explicit S).bind scope p.bare.name .param (some p.bare.ty.ty) = _ := hfirst
    refine ⟨by rw [List.map_cons, List.map_cons, hparam, hparams], ?_⟩
    have hcons := ParamsResolve.cons hfirst hagain
    rw [nextSymbol_explicit] at hcons
    rwa [List.map_cons, hparam]

/-- What a declaration that has been lowered has of its source. -/
structure RereadDecl (S : Symbols) (d : Decl) (symbol : SymbolId) (n : Names) (m : Declaration)
    (n' : Names) : Prop where
  lower : lowerDecl (m.source S) symbol (n.explicit S) = (m.explicit S, n'.explicit S, [])
  writable : d.Writable → (m.source S).Writable
  untyped : m.body.untyped = m.body
  untagged : m.body.untagged = m.body

/-- The symbols that there are when the parameters have been bound stay. -/
theorem BodyResolves.kept_symbol {e : Expr} {m : Node} (h : BodyResolves scope e n m n')
    {x : SymbolId} {s : Symbol} (hx : n.symbols.get? x = some s) :
    n'.symbols.get? x = some s := by
  have hkept := (Resolution.kept_symbol x s).lowerBody scope e n hx
  rwa [bodyResolves_iff.1 h] at hkept

theorem ParamsResolve.index_lt {ps : List Param} {xs : List SymbolId}
    (h : ParamsResolve scope ps n xs n') {x : SymbolId} (hx : x ∈ xs) :
    x.index < n'.symbols.size := by
  obtain ⟨hnumbered, hsize, -⟩ := h.passes [] []
  rw [hnumbered, mem_numbered] at hx
  omega

theorem DeclResolves.source {d : Decl} {symbol : SymbolId} {n n' : Names} {m : Declaration}
    (h : DeclResolves d symbol n m n') (hS : ∀ x ∈ m.params, Stays S n' x)
    (ht : HasType sigs S.ty P m.body m.ret) : RereadDecl S d symbol n m n' := by
  cases h with
  | @intro params n₁ _ _ hps hbody =>
    have hstays : ∀ x ∈ params, Stays S n₁ x := fun x hx =>
      (hS x hx).before (hps.index_lt hx) fun _ => hbody.kept_symbol
    obtain ⟨hparams, hagain⟩ := hps.source hstays
    have hbody := hbody.source ht
    refine ⟨declResolves_iff.1 (.intro hagain (bodyResolves_iff.2 hbody.lower)),
      fun hw => ⟨hw.name, fun p hp => ?_, hbody.writable hw.body⟩, hbody.untyped, hbody.untagged⟩
    have hp : p ∈ params.map S.param := hp
    rw [hparams] at hp
    obtain ⟨q, hq, rfl⟩ := List.mem_map.1 hp
    exact hw.params q hq

/-- The parameters of a declaration have symbols. -/
theorem DeclResolves.index_lt {d : Decl} {symbol : SymbolId} {n n' : Names} {m : Declaration}
    (h : DeclResolves d symbol n m n') {x : SymbolId} (hx : x ∈ m.params) :
    x.index < n'.symbols.size := by
  obtain ⟨hps, hbody⟩ := h
  have hkept := hbody.kept_symbol (Array.getElem?_eq_getElem (hps.index_lt hx))
  exact (Array.getElem?_eq_some_iff.1 hkept).1

/-- What declarations that have been lowered have of their sources. -/
structure RereadDecls (S : Symbols) (ds : List (Decl × SymbolId)) (n : Names)
    (ms : List Declaration) (n' : Names) : Prop where
  lower : lowerDecls (ms.map fun m => (m.source S, m.symbol)) (n.explicit S) =
    (ms.map (Declaration.explicit S), n'.explicit S, [])
  writable : (∀ d ∈ ds, d.1.Writable) → ∀ m ∈ ms, (m.source S).Writable
  untyped : ∀ m ∈ ms, m.body.untyped = m.body
  untagged : ∀ m ∈ ms, m.body.untagged = m.body

theorem DeclsResolve.source {ds : List (Decl × SymbolId)} {n n' : Names}
    {ms : List Declaration} (h : DeclsResolve ds n ms n')
    (hS : ∀ m ∈ ms, ∀ x ∈ m.params, Stays S n' x)
    (ht : ∀ m ∈ ms, HasType sigs S.ty P m.body m.ret) : RereadDecls S ds n ms n' := by
  induction h with
  | nil =>
    exact ⟨rfl, fun _ => List.forall_mem_nil _, List.forall_mem_nil _, List.forall_mem_nil _⟩
  | @cons d symbol ds n m n₁ ms n₂ hd hds ih =>
    obtain ⟨hSm, hSrest⟩ := List.forall_mem_cons.1 hS
    obtain ⟨htm, htrest⟩ := List.forall_mem_cons.1 ht
    have hstays : ∀ x ∈ m.params, Stays S n₁ x := by
      refine fun x hx => (hSm x hx).before (hd.index_lt hx) fun e he => ?_
      have hkept := (kept_symbol x e).lowerDecls ds n₁ he
      rwa [declsResolve_iff.1 hds] at hkept
    have h₁ := hd.source hstays htm
    have h₂ := ih hSrest htrest
    refine ⟨?_, fun hw => ?_, List.forall_mem_cons.2 ⟨h₁.untyped, h₂.untyped⟩,
      List.forall_mem_cons.2 ⟨h₁.untagged, h₂.untagged⟩⟩
    · obtain rfl : m.symbol = symbol := by
        cases hd
        rfl
      exact declsResolve_iff.1 (.cons (declResolves_iff.2 h₁.lower) (declsResolve_iff.2 h₂.lower))
    · obtain ⟨hwd, hwds⟩ := List.forall_mem_cons.1 hw
      exact List.forall_mem_cons.2 ⟨h₁.writable hwd, h₂.writable hwds⟩

end Resolution

end CalcLang
