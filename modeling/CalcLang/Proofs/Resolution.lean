import CalcLang.Proofs.Resolving
import CalcLang.Proofs.ScopeChain
import CalcLang.Proofs.Scoping
import CalcLang.Proofs.Solid

/-!
# Resolution makes scoped nodes

Lowering an expression adds symbols and scopes to the names made before, and binds names in the
scope that it goes on in (`Names.Grows`). As long as that scope and those around it bind only what
is visible (`Names.Sees`), an expression that is lowered without a mistake is scoped
(`Resolves.scoped`). `Package.resolved_of_build` puts this together for packages.

Expressions are taken to have no empty blocks, as those that are read from texts.
-/

namespace CalcLang

namespace Resolution

namespace Names

/-! ## What lowering does to the names -/

/-- `n'` comes from `n` by adding symbols and scopes and by binding `added` in `scope`. -/
structure Grows (scope : ScopeId) (n n' : Names) (added : ScopeTable.Bindings) : Prop where
  symbols_le : n.symbols.size ≤ n'.symbols.size
  symbols : ∀ j, j < n.symbols.size → n'.symbols[j]? = n.symbols[j]?
  scopes_le : n.scopes.scopes.size ≤ n'.scopes.scopes.size
  others : ∀ j, j < n.scopes.scopes.size → j ≠ scope.index →
    n'.scopes.scopes[j]? = n.scopes.scopes[j]?
  here : ∀ s, n.scopes.scopes[scope.index]? = some s →
    n'.scopes.scopes[scope.index]? = some { s with names := s.names ++ added }

namespace Grows

variable {scope : ScopeId} {n n' n'' : Names} {added added' : ScopeTable.Bindings}

theorem refl (scope : ScopeId) (n : Names) : Grows scope n n [] :=
  ⟨Nat.le_refl _, fun _ _ => rfl, Nat.le_refl _, fun _ _ _ => rfl, fun s h => by simp [h]⟩

theorem trans (h : Grows scope n n' added) (h' : Grows scope n' n'' added') :
    Grows scope n n'' (added ++ added') where
  symbols_le := Nat.le_trans h.symbols_le h'.symbols_le
  symbols j hj := by
    rw [h'.symbols j (Nat.lt_of_lt_of_le hj h.symbols_le), h.symbols j hj]
  scopes_le := Nat.le_trans h.scopes_le h'.scopes_le
  others j hj hne := by
    rw [h'.others j (Nat.lt_of_lt_of_le hj h.scopes_le) hne, h.others j hj hne]
  here s hs := by
    rw [h'.here _ (h.here s hs), List.append_assoc]

theorem of_addSymbol (scope : ScopeId) (n : Names) (ident : Ident) (kind : SymbolKind)
    (ty : Option Ty) : Grows scope n (n.addSymbol ident kind ty) [] where
  symbols_le := by simp [addSymbol]
  symbols j hj := by simp [addSymbol, Array.getElem?_push, Nat.ne_of_lt hj]
  scopes_le := Nat.le_refl _
  others _ _ _ := rfl
  here s hs := by simpa [addSymbol] using hs

/-- What happens in a new scope inside `scope` binds nothing in `scope`. -/
theorem of_push (h : Grows n.scopes.nextId (n.push scope) n' added)
    (hlt : scope.index < n.scopes.scopes.size) : Grows scope n n' [] := by
  have hsize : (n.push scope).scopes.scopes.size = n.scopes.scopes.size + 1 := by
    simp [Names.push, ScopeTable.push]
  have hold : ∀ j, j < n.scopes.scopes.size →
      n'.scopes.scopes[j]? = n.scopes.scopes[j]? := by
    intro j hj
    rw [h.others j (by omega) (by simp only [ScopeTable.nextId]; omega)]
    simp [Names.push, ScopeTable.push, Array.getElem?_push, Nat.ne_of_lt hj]
  refine ⟨h.symbols_le, h.symbols, ?_, fun j hj _ => hold j hj, fun s hs => ?_⟩
  · have := h.scopes_le
    omega
  · rw [hold _ hlt, hs]
    simp

end Grows

/-! ## What is visible -/

/-- A name is bound to a visible variable or to the declaration of that name. -/
def Bound (names : List String) (symbols : Symbols) (V : List SymbolId)
    (b : String × SymbolId) : Prop :=
  ∃ s, symbols.get? b.2 = some s ∧
    ((s.declaration? = none ∧ b.2 ∈ V) ∨
      ∃ id, s.declaration? = some id ∧ names[id.index]? = some b.1)

theorem Bound.mono {names : List String} {n n' : Names} {scope : ScopeId}
    {added : ScopeTable.Bindings} {V V' : List SymbolId} {b : String × SymbolId}
    (h : Bound names n.symbols V b) (hg : Grows scope n n' added) (hV : V ⊆ V') :
    Bound names n'.symbols V' b := by
  obtain ⟨s, hs, h⟩ := h
  have hlt : b.2.index < n.symbols.size := (Array.getElem?_eq_some_iff.1 hs).1
  refine ⟨s, ?_, h.imp (fun ⟨hd, hmem⟩ => ⟨hd, hV hmem⟩) id⟩
  rw [Symbols.get?, hg.symbols _ hlt]
  exact hs

/-- In `scope` a name stands for a variable of `V` or for a declaration. -/
def Sees (names : List String) (n : Names) (scope : ScopeId) (V : List SymbolId) : Prop :=
  ∃ own outer, ScopeTable.Chain n.scopes scope (own :: outer) ∧
    ∀ bs ∈ own :: outer, ∀ b ∈ bs, Bound names n.symbols V b

namespace Sees

variable {names : List String} {n n' : Names} {scope : ScopeId} {V V' : List SymbolId}
  {added : ScopeTable.Bindings}

theorem index_lt (h : Sees names n scope V) : scope.index < n.scopes.scopes.size := by
  obtain ⟨own, outer, hc, -⟩ := h
  exact hc.index_lt

theorem grow (h : Sees names n scope V) (hg : Grows scope n n' added) (hV : V ⊆ V')
    (ha : ∀ b ∈ added, Bound names n'.symbols V' b) : Sees names n' scope V' := by
  obtain ⟨own, outer, hc, hb⟩ := h
  have hlt := hc.index_lt
  refine ⟨own ++ added, outer,
    hc.append (fun j hj => hg.others j (by omega) (by omega)) hg.here, ?_⟩
  intro bs hbs b hmem
  rcases List.mem_cons.1 hbs with rfl | hbs
  · rcases List.mem_append.1 hmem with hmem | hmem
    · exact (hb _ (by simp) b hmem).mono hg hV
    · exact ha b hmem
  · exact (hb _ (by simp [hbs]) b hmem).mono hg hV

theorem push (h : Sees names n scope V) : Sees names (n.push scope) n.scopes.nextId V := by
  obtain ⟨own, outer, hc, hb⟩ := h
  refine ⟨[], own :: outer, hc.push, ?_⟩
  intro bs hbs b hmem
  rcases List.mem_cons.1 hbs with rfl | hbs
  · simp at hmem
  · exact hb bs hbs b hmem

/-- A name that is found is bound as it should be. -/
theorem bound_of_resolve (h : Sees names n scope V) {ident : Ident} {x : SymbolId} {s : Symbol}
    (hr : n.resolve scope ident = .ok (x, s)) :
    n.symbols.get? x = some s ∧ Bound names n.symbols V (ident.name, x) := by
  obtain ⟨own, outer, hc, hb⟩ := h
  obtain ⟨hx, hs⟩ := resolve_eq_ok_iff.1 hr
  rw [hc.resolve?_eq] at hx
  obtain ⟨bs, hbs, hmem⟩ := ScopeTable.mem_of_find hx
  exact ⟨hs, hb bs hbs _ hmem⟩

theorem mem_of_resolveVariable (h : Sees names n scope V) {ident : Ident}
    {misuse : String → Diagnostic.Kind} {x : SymbolId}
    (hr : n.resolveVariable scope ident misuse = .ok x) : x ∈ V := by
  obtain ⟨s, hres, hnone⟩ := resolveVariable_eq_ok_iff.1 hr
  obtain ⟨hs, s', hs', hb⟩ := h.bound_of_resolve hres
  obtain rfl : s' = s := Option.some.inj (hs'.symm.trans hs)
  rcases hb with ⟨-, hmem⟩ | ⟨id, hid, -⟩
  · exact hmem
  · cases hnone.symm.trans hid

theorem name_of_resolveDeclaration (h : Sees names n scope V) {ident : Ident} {id : DeclId}
    (hr : n.resolveDeclaration scope ident = .ok id) : names[id.index]? = some ident.name := by
  obtain ⟨x, s, hres, hsome⟩ := resolveDeclaration_eq_ok_iff.1 hr
  obtain ⟨hs, s', hs', hb⟩ := h.bound_of_resolve hres
  obtain rfl : s' = s := Option.some.inj (hs'.symm.trans hs)
  rcases hb with ⟨hnone, -⟩ | ⟨id', hid, hname⟩
  · cases hnone.symm.trans hsome
  · obtain rfl := Option.some.inj (hid.symm.trans hsome)
    exact hname

end Sees

/-- A name that is bound without a report is bound to a new symbol. -/
theorem grows_of_bind {n n' : Names} {scope : ScopeId} {ident : Ident} {kind : SymbolKind}
    {ty : Option Ty} (h : n.bind scope ident kind ty = (n', [])) :
    Grows scope n n' [(ident.name, n.nextSymbol)] ∧
      n'.symbols = n.symbols.push ⟨ident.name, kind, ty, none, ident.pos⟩ := by
  unfold Names.bind at h
  split at h
  · simp at h
  · simp only [Prod.mk.injEq, and_true] at h
    subst h
    refine ⟨⟨?_, ?_, ?_, ?_, ?_⟩, rfl⟩
    · simp [addSymbol]
    · intro j hj
      simp [addSymbol, Array.getElem?_push, Nat.ne_of_lt hj]
    · simp [ScopeTable.bind]
    · intro j hj hne
      simp [ScopeTable.bind, Array.getElem?_modify, Ne.symm hne]
    · intro s hs
      simp [ScopeTable.bind, Array.getElem?_modify, hs, Scope.bind]

/-- `n'` comes from `n`, with `V'` visible in `scope` where `V` was. -/
def Passes (names : List String) (scope : ScopeId) (n : Names) (V : List SymbolId) (n' : Names)
    (V' : List SymbolId) : Prop :=
  ∃ added, Grows scope n n' added ∧ V ⊆ V' ∧ ∀ b ∈ added, Bound names n'.symbols V' b

namespace Passes

variable {names : List String} {scope : ScopeId} {n n' n'' : Names} {V V' V'' : List SymbolId}

theorem refl (names : List String) (scope : ScopeId) (n : Names) (V : List SymbolId) :
    Passes names scope n V n V :=
  ⟨[], .refl scope n, List.Subset.refl V, by simp⟩

theorem trans (h : Passes names scope n V n' V') (h' : Passes names scope n' V' n'' V'') :
    Passes names scope n V n'' V'' := by
  obtain ⟨added, hg, hV, hb⟩ := h
  obtain ⟨added', hg', hV', hb'⟩ := h'
  refine ⟨added ++ added', hg.trans hg', List.Subset.trans hV hV', ?_⟩
  intro b hmem
  rcases List.mem_append.1 hmem with hmem | hmem
  · exact (hb b hmem).mono hg' hV'
  · exact hb' b hmem

/-- What becomes visible in a new scope is not visible outside. -/
theorem of_push (h : Passes names n.scopes.nextId (n.push scope) V n' V')
    (hs : Sees names n scope V) : Passes names scope n V n' V := by
  obtain ⟨added, hg, -, -⟩ := h
  exact ⟨[], hg.of_push hs.index_lt, List.Subset.refl V, by simp⟩

theorem sees (h : Passes names scope n V n' V') (hs : Sees names n scope V) :
    Sees names n' scope V' := by
  obtain ⟨added, hg, hV, hb⟩ := h
  exact hs.grow hg hV hb

/-- A variable that is bound without a report becomes visible. -/
theorem of_bind {ident : Ident} {kind : SymbolKind} {ty : Option Ty}
    (h : n.bind scope ident kind ty = (n', [])) (hk : ∀ id, kind ≠ .declaration id)
    (names : List String) (V : List SymbolId) :
    Passes names scope n V n' (n.nextSymbol :: V) ∧ n'.symbols.size = n.symbols.size + 1 := by
  obtain ⟨hg, hsym⟩ := grows_of_bind h
  refine ⟨⟨_, hg, List.subset_cons_self _ _, ?_⟩, by simp [hsym]⟩
  intro b hmem
  obtain rfl := List.mem_singleton.1 hmem
  refine ⟨_, by rw [Symbols.get?, hsym, nextSymbol, Array.getElem?_push_size], .inl ⟨?_, by simp⟩⟩
  cases kind with
  | declaration id => exact absurd rfl (hk id)
  | _ => rfl

end Passes

end Names

/-! ## Lowering -/

section Lowering

open Names

variable {names : List String}

/-- The result of lowering an expression without a mistake. -/
def Makes (names : List String) (scope : ScopeId) (V : List SymbolId) (n : Names) (node : Node)
    (n' : Names) (V' : List SymbolId) : Prop :=
  Passes names scope n V n' V' ∧ Scoped names V n.symbols.size node V' n'.symbols.size

/-- A branch is scoped, and leaves nothing visible behind it. -/
theorem branch_scoped {e : Expr} {scope : ScopeId} {n n' : Names} {node : Node}
    {V : List SymbolId} (hs : Sees names n scope V)
    (h : Resolves (n.enterBranch scope e).1 e (n.enterBranch scope e).2 node n')
    (ih : Sees names (n.enterBranch scope e).2 (n.enterBranch scope e).1 V →
      ∃ V', Makes names (n.enterBranch scope e).1 V (n.enterBranch scope e).2 node n' V') :
    Passes names scope n V n' V ∧ ∃ V', Scoped names V n.symbols.size node V' n'.symbols.size := by
  cases hblock : e.isBlock with
  | true =>
    simp only [enterBranch, hblock, if_true] at h ih
    obtain ⟨V', hp, hsc⟩ := ih hs
    cases h with
    | block =>
      cases hsc with
      | block hne hall => exact ⟨hp, _, .block hne hall⟩
    | _ => cases hblock
  | false =>
    simp only [enterBranch, hblock, Bool.false_eq_true, if_false] at ih
    obtain ⟨V', hp, hsc⟩ := ih hs.push
    exact ⟨hp.of_push hs, V', hsc⟩

theorem AllResolve.ne_nil {es : List Expr} {scope : ScopeId} {n n' : Names} {nodes : List Node}
    (h : AllResolve scope es n nodes n') (hne : es ≠ []) : nodes ≠ [] := by
  cases h with
  | nil => exact absurd rfl hne
  | cons => exact List.cons_ne_nil _ _

mutual

/-- An expression that is lowered without a mistake is scoped. -/
theorem Resolves.scoped {scope : ScopeId} {e : Expr} {n n' : Names} {node : Node}
    {V : List SymbolId} : Resolves scope e n node n' → e.Solid → Sees names n scope V →
      ∃ V', Makes names scope V n node n' V'
  | .int, _, _ | .bool, _, _ => ⟨V, .refl .., .const⟩
  | .name hx, _, hs => ⟨V, .refl .., .read (hs.mem_of_resolveVariable hx)⟩
  | .binary hl hr, hsolid, hs => by
    obtain ⟨V₁, hp₁, hsc₁⟩ := hl.scoped hsolid.1 hs
    obtain ⟨V₂, hp₂, hsc₂⟩ := hr.scoped hsolid.2 (hp₁.sees hs)
    exact ⟨V₂, hp₁.trans hp₂, .binary hsc₁ hsc₂⟩
  | .unary ho, hsolid, hs => by
    obtain ⟨V₁, hp₁, hsc₁⟩ := ho.scoped hsolid hs
    exact ⟨V₁, hp₁, .unary hsc₁⟩
  | .ifThen ht hy, hsolid, hs => by
    obtain ⟨V₁, hp₁, hsc₁⟩ := ht.scoped hsolid.1 hs
    obtain ⟨hp₂, V₂, hsc₂⟩ := branch_scoped (hp₁.sees hs) hy (hy.scoped hsolid.2)
    exact ⟨V₁, hp₁.trans hp₂, .ifThen hsc₁ hsc₂⟩
  | .ifThenElse ht hy hn, hsolid, hs => by
    obtain ⟨V₁, hp₁, hsc₁⟩ := ht.scoped hsolid.1 hs
    have hs₁ := hp₁.sees hs
    obtain ⟨hp₂, V₂, hsc₂⟩ := branch_scoped hs₁ hy (hy.scoped hsolid.2.1)
    obtain ⟨hp₃, V₃, hsc₃⟩ := branch_scoped (hp₂.sees hs₁) hn (hn.scoped hsolid.2.2)
    exact ⟨V₁, (hp₁.trans hp₂).trans hp₃, .ifThenElse hsc₁ hsc₂ hsc₃⟩
  | .declare hb, _, _ => by
    obtain ⟨hp, hsize⟩ := Passes.of_bind hb (by simp) names V
    exact ⟨_, hp, hsize ▸ .declare⟩
  | .define hi hb, hsolid, hs => by
    obtain ⟨V₁, hp₁, hsc₁⟩ := hi.scoped hsolid hs
    obtain ⟨hp₂, hsize⟩ := Passes.of_bind hb (by simp) names V₁
    exact ⟨_, hp₁.trans hp₂, hsize ▸ .define hsc₁⟩
  | .assign hv hx, hsolid, hs => by
    obtain ⟨V₁, hp₁, hsc₁⟩ := hv.scoped hsolid hs
    exact ⟨V₁, hp₁, .assign hsc₁ ((hp₁.sees hs).mem_of_resolveVariable hx)⟩
  | .call ha hx, hsolid, hs => by
    obtain ⟨V₁, hp₁, hsc₁⟩ := ha.scoped hsolid hs
    exact ⟨V₁, hp₁, .call ((hp₁.sees hs).name_of_resolveDeclaration hx) hsc₁⟩
  | .block ha, hsolid, hs => by
    obtain ⟨V₁, hp₁, hsc₁⟩ := ha.scoped hsolid.2 hs.push
    exact ⟨V, hp₁.of_push hs, .block (ha.ne_nil hsolid.1) hsc₁⟩

theorem AllResolve.scoped {scope : ScopeId} {es : List Expr} {n n' : Names} {nodes : List Node}
    {V : List SymbolId} : AllResolve scope es n nodes n' → Expr.AllSolid es →
      Sees names n scope V → ∃ V', Passes names scope n V n' V' ∧
        ScopedAll names V n.symbols.size nodes V' n'.symbols.size
  | .nil, _, _ => ⟨V, .refl .., .nil⟩
  | .cons he hes, hsolid, hs => by
    obtain ⟨V₁, hp₁, hsc₁⟩ := he.scoped hsolid.1 hs
    obtain ⟨V₂, hp₂, hsc₂⟩ := hes.scoped hsolid.2 (hp₁.sees hs)
    exact ⟨V₂, hp₁.trans hp₂, .cons hsc₁ hsc₂⟩

end

end Lowering

end Resolution

end CalcLang
