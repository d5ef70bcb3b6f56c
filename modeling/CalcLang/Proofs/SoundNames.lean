import CalcLang.Proofs.LexicalResolution
import CalcLang.Proofs.References

/-!
# Sound tables of names

While a package is built its tables stay sound (`Names.Sound`): scopes are inside scopes with
smaller numbers, and names are bound to symbols of that name. Lowering keeps them so whatever is
lowered, also where names do not resolve or are bound twice, and the references of what comes out
resolve in the tables (`lower_lowers`). A symbol is made for each parameter and variable, so no two
of them share one. Some symbols are left over: those of nodes that are dropped.
-/

namespace CalcLang

/-! ## What lowering makes sure of -/

/-- What a reference points to stays as the tables grow. -/
theorem Reference.Resolves.mono {names : List String} {n n' : Resolution.Names} {scope : ScopeId}
    {added : ScopeTable.Bindings} {r : Reference} (h : r.Resolves names n.symbols)
    (hg : n.Grows scope n' added) : r.Resolves names n'.symbols := by
  refine h.of_kept fun {x e} he => ⟨e, ?_, rfl, rfl⟩
  rw [Symbols.get?, hg.symbols _ (Array.getElem?_eq_some_iff.1 he).1]
  exact he

namespace Resolution

open Names

/-- The symbols that references are the owners of. -/
def owned (rs : List Reference) : List SymbolId := rs.filterMap Reference.owned?

theorem owned_append (rs rs' : List Reference) : owned (rs ++ rs') = owned rs ++ owned rs' :=
  List.filterMap_append

namespace Names

/-- Scopes are inside scopes with smaller numbers and bind names to symbols of that name, and the
symbol of a declaration has the name of the declaration. -/
structure Sound (names : List String) (n : Names) : Prop where
  outermost : ∃ own, n.scopes.scopes[ScopeId.package.index]? = some ⟨none, own⟩
  parents : ∀ (i : Nat) (s : Scope), n.scopes.scopes[i]? = some s → i ≠ ScopeId.package.index →
    ∃ parent, s.parent = some parent ∧ parent.index < i
  bindings : ∀ (i : Nat) (s : Scope), n.scopes.scopes[i]? = some s → ∀ b ∈ s.names,
    ∃ e, n.symbols.get? b.2 = some e ∧ e.name = b.1
  named : ∀ (x : SymbolId) (e : Symbol) (id : DeclId), n.symbols.get? x = some e →
    e.kind = .declaration id → names[id.index]? = some e.name

namespace Sound

variable {names : List String} {n : Names}

theorem addSymbol (h : n.Sound names) (ident : Ident) {kind : SymbolKind} (ty : Option Ty)
    (hk : ∀ id, kind ≠ .declaration id) : (n.addSymbol ident kind ty).Sound names where
  outermost := h.outermost
  parents := h.parents
  bindings i s hs b hb := by
    obtain ⟨e, he, hname⟩ := h.bindings i s hs b hb
    have hlt : b.2.index < n.symbols.size := (Array.getElem?_eq_some_iff.1 he).1
    refine ⟨e, ?_, hname⟩
    rw [Symbols.get?, (Grows.of_addSymbol .package n ident kind ty).symbols _ hlt]
    exact he
  named x e id he hkind := by
    simp only [Names.addSymbol, Symbols.get?, Array.getElem?_push] at he
    split at he
    · cases he
      exact absurd hkind (hk id)
    · exact h.named x e id he hkind

theorem push (h : n.Sound names) {scope : ScopeId} (hlt : scope.index < n.scopes.scopes.size) :
    (n.push scope).Sound names where
  outermost := by
    obtain ⟨own, hown⟩ := h.outermost
    have := (Array.getElem?_eq_some_iff.1 hown).1
    exact ⟨own, by simp [Names.push, ScopeTable.push, Array.getElem?_push, hown, Nat.ne_of_lt this]⟩
  parents i s hs hne := by
    simp only [Names.push, ScopeTable.push, Array.getElem?_push] at hs
    split at hs
    · next hi =>
      cases hs
      exact ⟨scope, rfl, hi ▸ hlt⟩
    · exact h.parents i s hs hne
  bindings i s hs b hb := by
    simp only [Names.push, ScopeTable.push, Array.getElem?_push] at hs
    split at hs
    · cases hs
      cases hb
    · exact h.bindings i s hs b hb
  named := h.named

/-- Binding a name to a symbol of that name. -/
theorem bindScope (h : n.Sound names) (scope : ScopeId) {name : String} {x : SymbolId} {e : Symbol}
    (he : n.symbols.get? x = some e) (hname : e.name = name) :
    Sound names { n with scopes := n.scopes.bind scope name x } where
  outermost := by
    obtain ⟨own, hown⟩ := h.outermost
    simp only [ScopeTable.bind, Array.getElem?_modify, hown, Option.map_some]
    split
    · exact ⟨_, rfl⟩
    · exact ⟨_, rfl⟩
  parents i s hs hne := by
    simp only [ScopeTable.bind, Array.getElem?_modify] at hs
    split at hs
    · obtain ⟨s', hs', rfl⟩ := Option.map_eq_some_iff.1 hs
      exact h.parents i s' hs' hne
    · exact h.parents i s hs hne
  bindings i s hs b hb := by
    simp only [ScopeTable.bind, Array.getElem?_modify] at hs
    split at hs
    · obtain ⟨s', hs', rfl⟩ := Option.map_eq_some_iff.1 hs
      rcases List.mem_append.1 hb with hb | hb
      · exact h.bindings i s' hs' b hb
      · obtain rfl := List.mem_singleton.1 hb
        exact ⟨e, he, hname⟩
    · exact h.bindings i s hs b hb
  named := h.named

/-- A name that is found is that of its symbol. -/
theorem name_of_lookupWithin (h : n.Sound names) {name : String} {x : SymbolId} {steps : Nat}
    {scope : ScopeId} (hl : n.scopes.lookupWithin name steps scope = .ok (some x)) :
    ∃ e, n.symbols.get? x = some e ∧ e.name = name := by
  induction steps generalizing scope with
  | zero => cases hl
  | succ steps ih =>
    rw [ScopeTable.lookupWithin] at hl
    cases hs : n.scopes.scopes[scope.index]? with
    | none => simp [ScopeTable.get, hs] at hl
    | some s =>
      rw [ScopeTable.get_of_getElem? hs] at hl
      cases hf : s.find? name with
      | some y =>
        simp only [hf, Except.ok.injEq, Option.some.injEq] at hl
        subst hl
        obtain ⟨before, after, hnames, -⟩ := List.lookup_eq_some_iff.1 hf
        exact h.bindings scope.index s hs (name, y) (by simp [hnames])
      | none =>
        cases hp : s.parent with
        | none => simp [hf, hp] at hl
        | some parent =>
          simp only [hf, hp] at hl
          exact ih hl

theorem name_of_resolve (h : n.Sound names) {scope : ScopeId} {ident : Ident} {x : SymbolId}
    {e : Symbol} (hr : n.resolve scope ident = .ok (x, e)) :
    n.symbols.get? x = some e ∧ e.name = ident.name := by
  obtain ⟨hx, he⟩ := Names.resolve_eq_ok_iff.1 hr
  unfold ScopeTable.resolve? at hx
  split at hx
  · next hl =>
    subst hx
    obtain ⟨e', he', hname⟩ := h.name_of_lookupWithin hl
    obtain rfl := Option.some.inj (he.symm.trans he')
    exact ⟨he, hname⟩
  · cases hx

/-- The name of a variable that is found resolves. -/
theorem uses_of_resolveVariable (h : n.Sound names) {scope : ScopeId} {ident : Ident}
    {misuse : String → Diagnostic.Kind} {x : SymbolId}
    (hr : n.resolveVariable scope ident misuse = .ok x) :
    (Reference.uses ident.name x).Resolves names n.symbols := by
  obtain ⟨e, hres, hnone⟩ := Names.resolveVariable_eq_ok_iff.1 hr
  obtain ⟨he, hname⟩ := h.name_of_resolve hres
  rw [Symbol.declaration?] at hnone
  cases hkind : e.kind with
  | declaration id => simp [hkind] at hnone
  | param => exact ⟨e, he, hname, .inl hkind⟩
  | «variable» => exact ⟨e, he, hname, .inr hkind⟩

/-- The name of a declaration that is found resolves. -/
theorem calls_of_resolveDeclaration (h : n.Sound names) {scope : ScopeId} {ident : Ident}
    {id : DeclId} (hr : n.resolveDeclaration scope ident = .ok id) :
    (Reference.calls ident.name id).Resolves names n.symbols := by
  obtain ⟨x, e, hres, hsome⟩ := Names.resolveDeclaration_eq_ok_iff.1 hr
  obtain ⟨he, hname⟩ := h.name_of_resolve hres
  have hkind := Symbol.declaration?_eq_some_iff.1 hsome
  exact hname ▸ h.named x e id he hkind

end Sound

/-- A name is bound to a new symbol, or reported with a new symbol for it all the same. -/
theorem bind_cases (n : Names) (scope : ScopeId) (ident : Ident) (kind : SymbolKind)
    (ty : Option Ty) :
    (n.bind scope ident kind ty).1 = n.addSymbol ident kind ty ∨
      (n.bind scope ident kind ty).1 =
        { n.addSymbol ident kind ty with scopes := n.scopes.bind scope ident.name n.nextSymbol } ∧
      (n.bind scope ident kind ty).2 = [] := by
  unfold Names.bind
  split
  · exact .inl rfl
  · exact .inr ⟨rfl, rfl⟩

theorem get?_addSymbol (n : Names) (ident : Ident) (kind : SymbolKind) (ty : Option Ty) :
    (n.addSymbol ident kind ty).symbols.get? n.nextSymbol =
      some ⟨ident.name, kind, ty, none, ident.pos⟩ := by
  simp [Names.addSymbol, Names.nextSymbol, Symbols.get?]

/-- What lowering something in `scope` does that comes out with the references `rs`. -/
structure Lowers (names : List String) (scope : ScopeId) (n : Names) (rs : List Reference)
    (n' : Names) : Prop where
  sound : n'.Sound names
  grows : ∃ added, Grows scope n n' added
  resolves : ∀ r ∈ rs, r.Resolves names n'.symbols
  within : ∀ x ∈ owned rs, x.Within n.symbols.size n'.symbols.size
  nodup : (owned rs).Nodup

namespace Lowers

variable {names : List String} {scope : ScopeId} {n n' n'' : Names} {rs rs' : List Reference}

theorem refl (h : n.Sound names) (scope : ScopeId) : Lowers names scope n [] n where
  sound := h
  grows := ⟨_, .refl scope n⟩
  resolves := by simp
  within := by simp [owned]
  nodup := List.nodup_nil

/-- A form that refers to nothing else than `rs` does not change the names. -/
theorem reference (h : Lowers names scope n rs n') {r : Reference} (hr : r.owned? = none)
    (hres : r.Resolves names n'.symbols) : Lowers names scope n (rs ++ [r]) n' where
  sound := h.sound
  grows := h.grows
  resolves r' hr' := by
    rcases List.mem_append.1 hr' with hr' | hr'
    · exact h.resolves r' hr'
    · obtain rfl := List.mem_singleton.1 hr'
      exact hres
  within := by simpa [owned, hr] using h.within
  nodup := by simpa [owned, hr] using h.nodup

/-- A form that is dropped leaves its symbols behind. -/
theorem drop (h : Lowers names scope n rs n') : Lowers names scope n [] n' where
  sound := h.sound
  grows := h.grows
  resolves := by simp
  within := by simp [owned]
  nodup := List.nodup_nil

theorem trans (h : Lowers names scope n rs n') (h' : Lowers names scope n' rs' n'') :
    Lowers names scope n (rs ++ rs') n'' := by
  obtain ⟨added, hg⟩ := h.grows
  obtain ⟨added', hg'⟩ := h'.grows
  refine ⟨h'.sound, ⟨_, hg.trans hg'⟩, ?_, ?_, ?_⟩
  · intro r hr
    rcases List.mem_append.1 hr with hr | hr
    · exact (h.resolves r hr).mono hg'
    · exact h'.resolves r hr
  · intro x hx
    rw [owned_append] at hx
    rcases List.mem_append.1 hx with hx | hx
    · exact ⟨(h.within x hx).1, Nat.lt_of_lt_of_le (h.within x hx).2 hg'.symbols_le⟩
    · exact ⟨Nat.le_trans hg.symbols_le (h'.within x hx).1, (h'.within x hx).2⟩
  · rw [owned_append]
    refine List.nodup_append.2 ⟨h.nodup, h'.nodup, fun x hx y hy hxy => ?_⟩
    exact absurd (h.within x hx).2 (Nat.not_lt.2 (hxy ▸ (h'.within y hy).1))

/-- What is lowered in a scope inside `scope` is lowered. -/
theorem of_push (h : Lowers names n.scopes.nextId (n.push scope) rs n')
    (hlt : scope.index < n.scopes.scopes.size) : Lowers names scope n rs n' := by
  obtain ⟨added, hg⟩ := h.grows
  exact ⟨h.sound, ⟨_, hg.of_push hlt⟩, h.resolves, h.within, h.nodup⟩

/-- A parameter or variable gets a new symbol, also where its name is taken. -/
theorem of_bind (h : n.Sound names) (scope : ScopeId) (ident : Ident) {kind : SymbolKind}
    (ty : Option Ty) (hk : ∀ id, kind ≠ .declaration id) :
    Lowers names scope n [.owns kind n.nextSymbol] (n.bind scope ident kind ty).1 := by
  have hnew := get?_addSymbol n ident kind ty
  have hsize : (n.addSymbol ident kind ty).symbols.size = n.symbols.size + 1 := by
    simp [Names.addSymbol]
  have hwithin : n.nextSymbol.Within n.symbols.size (n.symbols.size + 1) :=
    ⟨Nat.le_refl _, Nat.lt_succ_self _⟩
  obtain hb | ⟨hb, hd⟩ := bind_cases n scope ident kind ty
  · rw [hb]
    refine ⟨h.addSymbol ident ty hk, ⟨_, .of_addSymbol scope n ident kind ty⟩, ?_, ?_, ?_⟩
    · simpa [Reference.Resolves] using ⟨_, hnew, rfl⟩
    · simpa [owned, Reference.owned?, hsize] using hwithin
    · simp [owned, Reference.owned?]
  · have hg : Grows scope n (n.bind scope ident kind ty).1 _ := (grows_of_bind (Prod.ext rfl hd)).1
    simp only [hb] at hg ⊢
    refine ⟨(h.addSymbol ident ty hk).bindScope scope hnew rfl, ⟨_, hg⟩, ?_, ?_, ?_⟩
    · simpa [Reference.Resolves] using ⟨_, hnew, rfl⟩
    · simpa [owned, Reference.owned?, hsize] using hwithin
    · simp [owned, Reference.owned?]

theorem index_lt (h : Lowers names scope n rs n') {i : Nat} (hi : i < n.scopes.scopes.size) :
    i < n'.scopes.scopes.size := by
  obtain ⟨_, hg⟩ := h.grows
  exact Nat.lt_of_lt_of_le hi hg.scopes_le

end Lowers

theorem nextId_lt_push (n : Names) (scope : ScopeId) :
    n.scopes.nextId.index < (n.push scope).scopes.scopes.size := by
  simp [ScopeTable.nextId, Names.push, ScopeTable.push]

end Names

/-! ## Expressions -/

variable {names : List String}

mutual

/-- Whatever an expression is, what its node refers to is there. -/
theorem lower_lowers {scope : ScopeId} {n : Names} (h : n.Sound names)
    (hlt : scope.index < n.scopes.scopes.size) (e : Expr) :
    Lowers names scope n (lower scope e n).1.references (lower scope e n).2.1 := by
  match e with
  | .int value pos => exact .refl h scope
  | .bool value pos => exact .refl h scope
  | .name ident =>
    rw [lower]
    cases hr : n.resolveVariable scope ident .notAValue with
    | ok x => exact (Lowers.refl h scope).reference rfl (h.uses_of_resolveVariable hr)
    | error d => exact .refl h scope
  | .binary op lhs rhs pos =>
    have hl := lower_lowers h hlt lhs
    exact hl.trans (lower_lowers hl.sound (hl.index_lt hlt) rhs)
  | .unary op operand pos => exact lower_lowers h hlt operand
  | .ifThen test written yes pos =>
    have ht := lower_lowers h hlt test
    exact ht.trans (branch_lowers ht.sound (ht.index_lt hlt) yes)
  | .ifThenElse test written yes no pos =>
    have ht := lower_lowers h hlt test
    have hy := branch_lowers ht.sound (ht.index_lt hlt) yes
    have hn := branch_lowers hy.sound (hy.index_lt (ht.index_lt hlt)) no
    exact (ht.trans hy).trans hn
  | .declare name ty pos => exact .of_bind h scope name _ nofun
  | .define name ty init pos =>
    have hi := lower_lowers h hlt init
    exact hi.trans (.of_bind hi.sound scope name _ nofun)
  | .assign name value pos =>
    have hv := lower_lowers h hlt value
    rw [lower]
    rcases hval : lower scope value n with ⟨value', n₁, d⟩
    rw [hval] at hv
    cases hr : n₁.resolveVariable scope name .notAssignable with
    | ok x =>
      simp only [hr]
      exact hv.reference rfl (hv.sound.uses_of_resolveVariable hr)
    | error e =>
      simp only [hr]
      exact hv.drop
  | .call name args pos =>
    have ha := lowerAll_lowers h hlt args
    rw [lower]
    rcases hargs : lowerAll scope args n with ⟨args', n₁, d⟩
    rw [hargs] at ha
    cases hr : n₁.resolveDeclaration scope name with
    | ok callee =>
      simp only [hr]
      exact ha.reference rfl (ha.sound.calls_of_resolveDeclaration hr)
    | error e =>
      simp only [hr]
      exact ha.drop
  | .block exprs pos =>
    exact (lowerAll_lowers (h.push hlt) (nextId_lt_push n scope) exprs).of_push hlt
termination_by (sizeOf e, 0)

/-- A branch may have a scope of its own. -/
theorem branch_lowers {scope : ScopeId} {n : Names} (h : n.Sound names)
    (hlt : scope.index < n.scopes.scopes.size) (e : Expr) :
    let inner := n.enterBranch scope e
    Lowers names scope n (lower inner.1 e inner.2).1.references (lower inner.1 e inner.2).2.1 := by
  cases hblock : e.isBlock with
  | false =>
    simp only [Names.enterBranch, hblock, Bool.false_eq_true, if_false]
    exact (lower_lowers (h.push hlt) (nextId_lt_push n scope) e).of_push hlt
  | true =>
    simp only [Names.enterBranch, hblock, if_true]
    exact lower_lowers h hlt e
termination_by (sizeOf e, 1)

theorem lowerAll_lowers {scope : ScopeId} {n : Names} (h : n.Sound names)
    (hlt : scope.index < n.scopes.scopes.size) (es : List Expr) :
    Lowers names scope n (Node.allReferences (lowerAll scope es n).1)
      (lowerAll scope es n).2.1 := by
  match es with
  | [] => exact .refl h scope
  | e :: es =>
    have he := lower_lowers h hlt e
    exact he.trans (lowerAll_lowers he.sound (he.index_lt hlt) es)
termination_by (sizeOf es, 0)

end

/-! ## Declarations -/

theorem bindParams_lowers {n : Names} (h : n.Sound names) (scope : ScopeId) (ps : List Param) :
    Lowers names scope n ((bindParams scope ps n).1.map (.owns .param))
      (bindParams scope ps n).2.1 := by
  induction ps generalizing n with
  | nil => exact .refl h scope
  | cons p ps ih =>
    have hp : Lowers names scope n [.owns .param n.nextSymbol] _ :=
      .of_bind h scope p.name (some p.ty.ty) nofun
    exact hp.trans (ih hp.sound)

theorem lowerBody_lowers {scope : ScopeId} {n : Names} (h : n.Sound names)
    (hlt : scope.index < n.scopes.scopes.size) (body : Expr) :
    Lowers names scope n (lowerBody scope body n).1.references (lowerBody scope body n).2.1 := by
  cases body with
  | block exprs pos => exact lowerAll_lowers h hlt exprs
  | _ => exact lower_lowers h hlt _

theorem lowerDecl_lowers {n : Names} (h : n.Sound names)
    (hlt : ScopeId.package.index < n.scopes.scopes.size) (decl : Decl) (symbol : SymbolId) :
    Lowers names .package n (lowerDecl decl symbol n).1.references
      (lowerDecl decl symbol n).2.1 := by
  have hps := bindParams_lowers (h.push hlt) n.scopes.nextId decl.params
  have hbody := lowerBody_lowers hps.sound (hps.index_lt (nextId_lt_push n _)) decl.body
  exact (hps.trans hbody).of_push hlt

theorem lowerDecls_lowers {n : Names} (h : n.Sound names)
    (hlt : ScopeId.package.index < n.scopes.scopes.size) (ds : List (Decl × SymbolId)) :
    Lowers names .package n ((lowerDecls ds n).1.flatMap Declaration.references)
      (lowerDecls ds n).2.1 := by
  induction ds generalizing n with
  | nil => exact .refl h _
  | cons d ds ih =>
    have hd := lowerDecl_lowers h hlt d.1 d.2
    exact hd.trans (ih hd.sound (hd.index_lt hlt))

/-- The scope of a declaration is in the table. -/
theorem scope_of_mem_lowerDecls {n : Names} (h : n.Sound names)
    (hlt : ScopeId.package.index < n.scopes.scopes.size) {ds : List (Decl × SymbolId)}
    {d : Declaration} (hd : d ∈ (lowerDecls ds n).1) :
    d.scope.index < (lowerDecls ds n).2.1.scopes.scopes.size := by
  induction ds generalizing n with
  | nil => cases hd
  | cons decl ds ih =>
    have hl := lowerDecl_lowers h hlt decl.1 decl.2
    have hrest := lowerDecls_lowers hl.sound (hl.index_lt hlt) ds
    rcases List.mem_cons.1 hd with rfl | hd
    · have hps := bindParams_lowers (h.push hlt) n.scopes.nextId decl.1.params
      have hbody := lowerBody_lowers hps.sound (hps.index_lt (nextId_lt_push n _)) decl.1.body
      exact hrest.index_lt (hbody.index_lt (hps.index_lt (nextId_lt_push n _)))
    · exact ih hl.sound (hl.index_lt hlt) hd

/-- The names and symbols of declarations are kept in their order. -/
theorem map_name_lowerDecls (ds : List (Decl × SymbolId)) (n : Names) :
    (lowerDecls ds n).1.map (fun d => (d.name, d.symbol)) =
      ds.map fun d => (d.1.name.name, d.2) := by
  induction ds generalizing n with
  | nil => rfl
  | cons d ds ih => exact congrArg ((d.1.name.name, d.2) :: ·) (ih _)

open Lexical

theorem find?_eq_none_of_mem_firsts {earlier ds : List Decl} {d : Decl}
    (hd : d ∈ firsts earlier ds) : earlier.find? (sameName d) = none := by
  induction ds generalizing earlier with
  | nil => cases hd
  | cons e ds ih =>
    have hlater : d ∈ firsts (earlier ++ [e]) ds → earlier.find? (sameName d) = none := fun h =>
      (Option.or_eq_none_iff.1 (List.find?_append ▸ ih h)).1
    rw [firsts] at hd
    cases he : earlier.find? (sameName e) with
    | some _ =>
      rw [he] at hd
      exact hlater hd
    | none =>
      rw [he] at hd
      rcases List.mem_cons.1 hd with rfl | hd
      · exact he
      · exact hlater hd

/-- No two of the declarations that are kept have the same name. -/
theorem nodup_firsts (earlier ds : List Decl) :
    ((firsts earlier ds).map fun d => d.name.name).Nodup := by
  induction ds generalizing earlier with
  | nil => exact List.nodup_nil
  | cons d ds ih =>
    rw [firsts]
    split
    · exact ih _
    · refine List.nodup_cons.2 ⟨fun hmem => ?_, ih _⟩
      obtain ⟨e, he, hname⟩ := List.mem_map.1 hmem
      have hnone := find?_eq_none_of_mem_firsts he
      rw [List.find?_append] at hnone
      simp [sameName, hname] at hnone

/-- A declared name is bound to the symbol of its declaration. -/
theorem lookupLocal_declared_of_nodup {ds : List Decl}
    (hnodup : (ds.map fun d => d.name.name).Nodup) {i : Nat} {d : Decl} (hd : ds[i]? = some d) :
    (declared ds).scopes.lookupLocal .package d.name.name = .ok (some ⟨i⟩) := by
  have hmem : (d, ⟨i⟩) ∈ number 0 ds :=
    List.mem_of_getElem? (i := i) (by rw [getElem?_number, hd, Option.map_some, Nat.zero_add])
  rw [lookupLocal_declared]
  exact congrArg _ (ScopeTable.lookup_map_of_nodup (by rwa [map_name_number]) hmem)

/-- A name that a scope binds stays bound to its symbol. -/
theorem lookupLocal_of_grows {scope : ScopeId} {n n' : Names} {added : ScopeTable.Bindings}
    (hg : n.Grows scope n' added) {name : String} {x : SymbolId}
    (hx : n.scopes.lookupLocal scope name = .ok (some x)) :
    n'.scopes.lookupLocal scope name = .ok (some x) := by
  unfold ScopeTable.lookupLocal at hx ⊢
  cases hs : n.scopes.scopes[scope.index]? with
  | none => simp [ScopeTable.get, hs, Except.map] at hx
  | some s =>
    rw [ScopeTable.get_of_getElem? hs] at hx
    rw [ScopeTable.get_of_getElem? (hg.here s hs)]
    have hfind : s.names.lookup name = some x := Except.ok.inj hx
    simp [Except.map, Scope.find?, List.lookup_append, hfind]

theorem eq_zero_of_scope_declared {ds : List Decl} {i : Nat} {s : Scope}
    (hs : (declared ds).scopes.scopes[i]? = some s) : i = 0 := by
  have hlt := (Array.getElem?_eq_some_iff.1 hs).1
  simpa [declared] using hlt

theorem sound_declared (ds : List Decl) :
    (declared ds).Sound (ds.map fun d => d.name.name) where
  outermost := ⟨_, rfl⟩
  parents i s hs hne := absurd (eq_zero_of_scope_declared hs) hne
  bindings i s hs b hb := by
    obtain rfl := eq_zero_of_scope_declared hs
    cases hs
    obtain ⟨⟨d, x⟩, hd, rfl⟩ := List.mem_map.1 hb
    obtain ⟨i, hi⟩ := List.mem_iff_getElem?.1 hd
    rw [getElem?_number, Option.map_eq_some_iff] at hi
    obtain ⟨e, he, hx⟩ := hi
    cases hx
    exact ⟨_, by rw [Nat.zero_add, bindingOf, get?_declared, he]; rfl, rfl⟩
  named x e id he hkind := by
    obtain ⟨i⟩ := x
    rw [get?_declared, Option.map_eq_some_iff] at he
    obtain ⟨d, hd, rfl⟩ := he
    cases hkind
    simp [hd, symbolOf]

end Resolution

end CalcLang
