import CalcLang.Package.Resolution

/-!
# Resolution without a mistake

`Resolution.Resolves scope e n m n'` holds if every name in the expression `e` stands for what the
expression asks for and none is bound twice in one scope; the expression is lowered to the node `m`
then. It has one rule for each form of an expression, and lowering gives no diagnostic exactly by
these rules (`Resolution.resolves_iff`). What is true of packages without mistakes is proved by
cases of them, so that `lower` is looked into once.
-/

namespace CalcLang

namespace Resolution

/-! ## Names -/

namespace Names

variable {n : Names} {scope : ScopeId} {ident : Ident} {misuse : String → Diagnostic.Kind}
  {d : Diagnostic}

theorem resolve_eq_ok_iff {x : SymbolId} {symbol : Symbol} :
    n.resolve scope ident = .ok (x, symbol) ↔
      n.scopes.resolve? scope ident.name = some x ∧ n.symbols.get? x = some symbol := by
  unfold resolve
  split
  · next hx => simp [hx]
  · next y hx =>
    split
    · next hsymbol =>
      rw [hx, Option.some.injEq]
      refine iff_of_false nofun ?_
      rintro ⟨rfl, hx⟩
      cases hsymbol.symm.trans hx
    · next found hsymbol =>
      rw [hx, Except.ok.injEq, Prod.mk.injEq, Option.some.injEq]
      refine and_congr_right ?_
      rintro rfl
      rw [hsymbol, Option.some.injEq]

theorem error_of_resolve (h : n.resolve scope ident = .error d) :
    d = ⟨.unresolvedName ident.name, ident.pos⟩ := by
  unfold resolve at h
  split at h
  · exact (Except.error.inj h).symm
  · split at h
    · exact (Except.error.inj h).symm
    · cases h

/-- A name stands for a variable if its symbol is none of a declaration. -/
theorem resolveVariable_eq_ok_iff {x : SymbolId} :
    n.resolveVariable scope ident misuse = .ok x ↔
      ∃ symbol, n.resolve scope ident = .ok (x, symbol) ∧ symbol.declaration? = none := by
  unfold resolveVariable
  cases hr : n.resolve scope ident with
  | error e => simp [Bind.bind, Except.bind]
  | ok r =>
    obtain ⟨y, symbol⟩ := r
    simp only [Bind.bind, Except.bind]
    cases hdeclaration : symbol.declaration? with
    | none =>
      constructor
      · rintro ⟨⟩
        exact ⟨symbol, rfl, hdeclaration⟩
      · rintro ⟨_, ⟨⟩, -⟩
        rfl
    | some id =>
      refine iff_of_false nofun ?_
      rintro ⟨_, ⟨⟩, hnone⟩
      cases hdeclaration.symm.trans hnone

/-- Why a name does not stand for a variable. -/
theorem error_of_resolveVariable (h : n.resolveVariable scope ident misuse = .error d) :
    d = ⟨.unresolvedName ident.name, ident.pos⟩ ∨ d = ⟨misuse ident.name, ident.pos⟩ := by
  unfold resolveVariable at h
  cases hr : n.resolve scope ident with
  | error e =>
    rw [hr] at h
    cases h
    exact .inl (error_of_resolve hr)
  | ok r =>
    simp only [hr, Bind.bind, Except.bind] at h
    split at h
    · cases h
    · exact .inr (Except.error.inj h).symm

/-- A name stands for a declaration if its symbol is that of the declaration. -/
theorem resolveDeclaration_eq_ok_iff {id : DeclId} :
    n.resolveDeclaration scope ident = .ok id ↔
      ∃ x symbol, n.resolve scope ident = .ok (x, symbol) ∧ symbol.declaration? = some id := by
  unfold resolveDeclaration
  cases hr : n.resolve scope ident with
  | error e => simp [Bind.bind, Except.bind]
  | ok r =>
    obtain ⟨y, symbol⟩ := r
    simp only [Bind.bind, Except.bind]
    cases hdeclaration : symbol.declaration? with
    | none =>
      refine iff_of_false nofun ?_
      rintro ⟨_, _, ⟨⟩, hsome⟩
      cases hdeclaration.symm.trans hsome
    | some id' =>
      constructor
      · rintro ⟨⟩
        exact ⟨y, symbol, rfl, hdeclaration⟩
      · rintro ⟨_, _, ⟨⟩, hsome⟩
        exact congrArg Except.ok (Option.some.inj (hdeclaration.symm.trans hsome))

/-- Why a name does not stand for a declaration. -/
theorem error_of_resolveDeclaration (h : n.resolveDeclaration scope ident = .error d) :
    d = ⟨.unresolvedName ident.name, ident.pos⟩ ∨ d = ⟨.notCallable ident.name, ident.pos⟩ := by
  unfold resolveDeclaration at h
  cases hr : n.resolve scope ident with
  | error e =>
    rw [hr] at h
    cases h
    exact .inl (error_of_resolve hr)
  | ok r =>
    simp only [hr, Bind.bind, Except.bind] at h
    split at h
    · cases h
    · exact .inr (Except.error.inj h).symm

end Names

/-! ## Rules -/

open Names

mutual

/-- `Resolves scope e n m n'`: in `scope`, where the names `n` have been made, the expression `e` is
lowered to the node `m` without a mistake. Behind it the names are `n'`. -/
inductive Resolves : ScopeId → Expr → Names → Node → Names → Prop
  | int {scope value pos n} : Resolves scope (.int value pos) n (.const (.int value) pos) n
  | bool {scope value pos n} : Resolves scope (.bool value pos) n (.const (.bool value) pos) n
  | name {scope ident n x} : n.resolveVariable scope ident .notAValue = .ok x →
    Resolves scope (.name ident) n (.read ident.name x none ident.pos) n
  | binary {scope op lhs rhs pos n lhs' n₁ rhs' n₂} : Resolves scope lhs n lhs' n₁ →
    Resolves scope rhs n₁ rhs' n₂ →
    Resolves scope (.binary op lhs rhs pos) n (.binary op lhs' rhs' none none pos) n₂
  | unary {scope op operand pos n operand' n₁} : Resolves scope operand n operand' n₁ →
    Resolves scope (.unary op operand pos) n (.unary op operand' none pos) n₁
  | ifThen {scope test ty yes pos n test' n₁ yes' n₂} : Resolves scope test n test' n₁ →
    Resolves (n₁.enterBranch scope yes).1 yes (n₁.enterBranch scope yes).2 yes' n₂ →
    Resolves scope (.ifThen test ty yes pos) n
      (.ifThen test' (ty.map TypeExpr.ty) yes' none none pos) n₂
  | ifThenElse {scope test ty yes no pos n test' n₁ yes' n₂ no' n₃} :
    Resolves scope test n test' n₁ →
    Resolves (n₁.enterBranch scope yes).1 yes (n₁.enterBranch scope yes).2 yes' n₂ →
    Resolves (n₂.enterBranch scope no).1 no (n₂.enterBranch scope no).2 no' n₃ →
    Resolves scope (.ifThenElse test ty yes no pos) n
      (.ifThenElse test' (ty.map TypeExpr.ty) yes' no' none none pos) n₃
  | declare {scope ident ty pos n n₁} : n.bind scope ident .variable (some ty.ty) = (n₁, []) →
    Resolves scope (.declare ident ty pos) n (.declare ident.name n.nextSymbol ty.ty pos) n₁
  | define {scope ident ty init pos n init' n₁ n₂} : Resolves scope init n init' n₁ →
    n₁.bind scope ident .variable (ty.map TypeExpr.ty) = (n₂, []) →
    Resolves scope (.define ident ty init pos) n
      (.define ident.name n₁.nextSymbol (ty.map TypeExpr.ty) init' pos) n₂
  | assign {scope ident value pos n value' n₁ x} : Resolves scope value n value' n₁ →
    n₁.resolveVariable scope ident .notAssignable = .ok x →
    Resolves scope (.assign ident value pos) n (.assign ident.name x value' none pos) n₁
  | call {scope ident args pos n args' n₁ callee} : AllResolve scope args n args' n₁ →
    n₁.resolveDeclaration scope ident = .ok callee →
    Resolves scope (.call ident args pos) n (.call ident.name callee args' none pos) n₁
  | block {scope exprs pos n nodes n₁} :
    AllResolve n.scopes.nextId exprs (n.push scope) nodes n₁ →
    Resolves scope (.block exprs pos) n (.block nodes none pos) n₁

/-- `Resolves` for expressions one after the other. -/
inductive AllResolve : ScopeId → List Expr → Names → List Node → Names → Prop
  | nil {scope n} : AllResolve scope [] n [] n
  | cons {scope e es n m n₁ ms n₂} : Resolves scope e n m n₁ → AllResolve scope es n₁ ms n₂ →
    AllResolve scope (e :: es) n (m :: ms) n₂

end

/-! ## Expressions -/

mutual

theorem resolves_of_lower {scope : ScopeId} {n n' : Names} {m : Node} :
    ∀ {e : Expr}, lower scope e n = (m, n', []) → Resolves scope e n m n'
  | .int .., h => by
    simp only [lower, Prod.mk.injEq, and_true] at h
    obtain ⟨rfl, rfl⟩ := h
    exact .int
  | .bool .., h => by
    simp only [lower, Prod.mk.injEq, and_true] at h
    obtain ⟨rfl, rfl⟩ := h
    exact .bool
  | .name ident, h => by
    rw [lower] at h
    cases hx : n.resolveVariable scope ident .notAValue with
    | error d => simp [hx] at h
    | ok x =>
      simp only [hx, Prod.mk.injEq, and_true] at h
      obtain ⟨rfl, rfl⟩ := h
      exact .name hx
  | .binary op lhs rhs pos, h => by
    rw [lower] at h
    rcases hl : lower scope lhs n with ⟨lhs', n₁, d₁⟩
    rcases hr : lower scope rhs n₁ with ⟨rhs', n₂, d₂⟩
    simp only [hl, hr, Prod.mk.injEq, List.append_eq_nil_iff] at h
    obtain ⟨rfl, rfl, rfl, rfl⟩ := h
    exact .binary (resolves_of_lower hl) (resolves_of_lower hr)
  | .unary op operand pos, h => by
    rw [lower] at h
    rcases ho : lower scope operand n with ⟨operand', n₁, d₁⟩
    simp only [ho, Prod.mk.injEq] at h
    obtain ⟨rfl, rfl, rfl⟩ := h
    exact .unary (resolves_of_lower ho)
  | .ifThen test ty yes pos, h => by
    rw [lower] at h
    rcases ht : lower scope test n with ⟨test', n₁, d₁⟩
    rcases hy : lower (n₁.enterBranch scope yes).1 yes (n₁.enterBranch scope yes).2 with
      ⟨yes', n₂, d₂⟩
    simp only [ht, hy, Prod.mk.injEq, List.append_eq_nil_iff] at h
    obtain ⟨rfl, rfl, rfl, rfl⟩ := h
    exact .ifThen (resolves_of_lower ht) (resolves_of_lower hy)
  | .ifThenElse test ty yes no pos, h => by
    rw [lower] at h
    rcases ht : lower scope test n with ⟨test', n₁, d₁⟩
    rcases hy : lower (n₁.enterBranch scope yes).1 yes (n₁.enterBranch scope yes).2 with
      ⟨yes', n₂, d₂⟩
    rcases hn : lower (n₂.enterBranch scope no).1 no (n₂.enterBranch scope no).2 with
      ⟨no', n₃, d₃⟩
    simp only [ht, hy, hn, Prod.mk.injEq, List.append_eq_nil_iff] at h
    obtain ⟨rfl, rfl, ⟨rfl, rfl⟩, rfl⟩ := h
    exact .ifThenElse (resolves_of_lower ht) (resolves_of_lower hy) (resolves_of_lower hn)
  | .declare ident ty pos, h => by
    rw [lower] at h
    rcases hb : n.bind scope ident .variable (some ty.ty) with ⟨n₁, d⟩
    simp only [hb, Prod.mk.injEq] at h
    obtain ⟨rfl, rfl, rfl⟩ := h
    exact .declare hb
  | .define ident ty init pos, h => by
    rw [lower] at h
    rcases hi : lower scope init n with ⟨init', n₁, d₁⟩
    rcases hb : n₁.bind scope ident .variable (ty.map TypeExpr.ty) with ⟨n₂, d₂⟩
    simp only [hi, hb, Prod.mk.injEq, List.append_eq_nil_iff] at h
    obtain ⟨rfl, rfl, rfl, rfl⟩ := h
    exact .define (resolves_of_lower hi) hb
  | .assign ident value pos, h => by
    rw [lower] at h
    rcases hv : lower scope value n with ⟨value', n₁, d⟩
    cases hx : n₁.resolveVariable scope ident .notAssignable with
    | error e => simp [hv, hx] at h
    | ok x =>
      simp only [hv, hx, Prod.mk.injEq] at h
      obtain ⟨rfl, rfl, rfl⟩ := h
      exact .assign (resolves_of_lower hv) hx
  | .call ident args pos, h => by
    rw [lower] at h
    rcases ha : lowerAll scope args n with ⟨args', n₁, d⟩
    cases hx : n₁.resolveDeclaration scope ident with
    | error e => simp [ha, hx] at h
    | ok callee =>
      simp only [ha, hx, Prod.mk.injEq] at h
      obtain ⟨rfl, rfl, rfl⟩ := h
      exact .call (allResolve_of_lowerAll ha) hx
  | .block exprs pos, h => by
    rw [lower] at h
    rcases ha : lowerAll n.scopes.nextId exprs (n.push scope) with ⟨nodes, n₁, d⟩
    simp only [ha, Prod.mk.injEq] at h
    obtain ⟨rfl, rfl, rfl⟩ := h
    exact .block (allResolve_of_lowerAll ha)

theorem allResolve_of_lowerAll {scope : ScopeId} {n n' : Names} {ms : List Node} :
    ∀ {es : List Expr}, lowerAll scope es n = (ms, n', []) → AllResolve scope es n ms n'
  | [], h => by
    simp only [lowerAll, Prod.mk.injEq, and_true] at h
    obtain ⟨rfl, rfl⟩ := h
    exact .nil
  | e :: es, h => by
    rw [lowerAll] at h
    rcases he : lower scope e n with ⟨m, n₁, d₁⟩
    rcases hes : lowerAll scope es n₁ with ⟨ms', n₂, d₂⟩
    simp only [he, hes, Prod.mk.injEq, List.append_eq_nil_iff] at h
    obtain ⟨rfl, rfl, rfl, rfl⟩ := h
    exact .cons (resolves_of_lower he) (allResolve_of_lowerAll hes)

end

mutual

theorem Resolves.lower_eq {scope : ScopeId} {e : Expr} {n n' : Names} {m : Node} :
    Resolves scope e n m n' → lower scope e n = (m, n', [])
  | .int | .bool => by rw [lower]
  | .name hx => by rw [lower, hx]
  | .binary hl hr => by simp only [lower, hl.lower_eq, hr.lower_eq, List.append_nil]
  | .unary ho => by simp only [lower, ho.lower_eq]
  | .ifThen ht hy => by simp only [lower, ht.lower_eq, hy.lower_eq, List.append_nil]
  | .ifThenElse ht hy hn => by
    simp only [lower, ht.lower_eq, hy.lower_eq, hn.lower_eq, List.append_nil]
  | .declare hb => by simp only [lower, hb]
  | .define hi hb => by simp only [lower, hi.lower_eq, hb, List.append_nil]
  | .assign hv hx => by simp only [lower, hv.lower_eq, hx]
  | .call ha hx => by simp only [lower, ha.lowerAll_eq, hx]
  | .block ha => by simp only [lower, ha.lowerAll_eq]

theorem AllResolve.lowerAll_eq {scope : ScopeId} {es : List Expr} {n n' : Names}
    {ms : List Node} : AllResolve scope es n ms n' → lowerAll scope es n = (ms, n', [])
  | .nil => by rw [lowerAll]
  | .cons he hes => by simp only [lowerAll, he.lower_eq, hes.lowerAll_eq, List.append_nil]

end

/-- **Lowering makes no mistake exactly by the rules.** -/
theorem resolves_iff {scope : ScopeId} {e : Expr} {n n' : Names} {m : Node} :
    Resolves scope e n m n' ↔ lower scope e n = (m, n', []) :=
  ⟨Resolves.lower_eq, resolves_of_lower⟩

/-! ## Declarations -/

/-- `Resolves` for the body of a declaration. A block shares the scope of the parameters. -/
inductive BodyResolves (scope : ScopeId) : Expr → Names → Node → Names → Prop
  | block {exprs pos n nodes n₁} : AllResolve scope exprs n nodes n₁ →
    BodyResolves scope (.block exprs pos) n (.block nodes none pos) n₁
  | other {e n m n₁} : e.isBlock = false → Resolves scope e n m n₁ → BodyResolves scope e n m n₁

/-- The parameters have different names. -/
inductive ParamsResolve (scope : ScopeId) : List Param → Names → List SymbolId → Names → Prop
  | nil {n} : ParamsResolve scope [] n [] n
  | cons {p ps n n₁ xs n₂} : n.bind scope p.name .param (some p.ty.ty) = (n₁, []) →
    ParamsResolve scope ps n₁ xs n₂ → ParamsResolve scope (p :: ps) n (n.nextSymbol :: xs) n₂

/-- `Resolves` for a declaration with a symbol. -/
inductive DeclResolves : Decl → SymbolId → Names → Declaration → Names → Prop
  | intro {d symbol n params n₁ body n₂} :
    ParamsResolve n.scopes.nextId d.params (n.push .package) params n₁ →
    BodyResolves n.scopes.nextId d.body n₁ body n₂ →
    DeclResolves d symbol n
      ⟨d.name.name, symbol, params, d.ret.ty, n.scopes.nextId, body, d.pos⟩ n₂

/-- `Resolves` for declarations one after the other. -/
inductive DeclsResolve : List (Decl × SymbolId) → Names → List Declaration → Names → Prop
  | nil {n} : DeclsResolve [] n [] n
  | cons {d symbol ds n m n₁ ms n₂} : DeclResolves d symbol n m n₁ → DeclsResolve ds n₁ ms n₂ →
    DeclsResolve ((d, symbol) :: ds) n (m :: ms) n₂

theorem bodyResolves_iff {scope : ScopeId} {e : Expr} {n n' : Names} {m : Node} :
    BodyResolves scope e n m n' ↔ lowerBody scope e n = (m, n', []) := by
  constructor
  · rintro (hall | ⟨hblock, hbody⟩)
    · rw [lowerBody, hall.lowerAll_eq]
    · rw [lowerBody_of_isBlock hblock, hbody.lower_eq]
  · intro h
    cases hblock : e.isBlock with
    | false =>
      rw [lowerBody_of_isBlock hblock] at h
      exact .other hblock (resolves_of_lower h)
    | true =>
      cases e with
      | block exprs pos =>
        rw [lowerBody] at h
        rcases ha : lowerAll scope exprs n with ⟨nodes, n₁, d⟩
        simp only [ha, Prod.mk.injEq] at h
        obtain ⟨rfl, rfl, rfl⟩ := h
        exact .block (allResolve_of_lowerAll ha)
      | _ => cases hblock

theorem paramsResolve_iff {scope : ScopeId} {ps : List Param} {n n' : Names}
    {xs : List SymbolId} :
    ParamsResolve scope ps n xs n' ↔ bindParams scope ps n = (xs, n', []) := by
  constructor
  · intro h
    induction h with
    | nil => rw [bindParams]
    | cons hb _ ih => simp only [bindParams, hb, ih, List.append_nil]
  · intro h
    induction ps generalizing n xs with
    | nil =>
      simp only [bindParams, Prod.mk.injEq, and_true] at h
      obtain ⟨rfl, rfl⟩ := h
      exact .nil
    | cons p ps ih =>
      rw [bindParams] at h
      rcases hb : n.bind scope p.name .param (some p.ty.ty) with ⟨n₁, d₁⟩
      rcases hps : bindParams scope ps n₁ with ⟨rest, n₂, d₂⟩
      simp only [hb, hps, Prod.mk.injEq, List.append_eq_nil_iff] at h
      obtain ⟨rfl, rfl, rfl, rfl⟩ := h
      exact .cons hb (ih hps)

theorem declResolves_iff {d : Decl} {symbol : SymbolId} {n n' : Names} {m : Declaration} :
    DeclResolves d symbol n m n' ↔ lowerDecl d symbol n = (m, n', []) := by
  constructor
  · rintro ⟨hparams, hbody⟩
    simp only [lowerDecl, paramsResolve_iff.1 hparams, bodyResolves_iff.1 hbody, List.append_nil]
  · intro h
    rw [lowerDecl] at h
    rcases hp : bindParams n.scopes.nextId d.params (n.push .package) with ⟨params, n₁, d₁⟩
    rcases hb : lowerBody n.scopes.nextId d.body n₁ with ⟨body, n₂, d₂⟩
    simp only [hp, hb, Prod.mk.injEq, List.append_eq_nil_iff] at h
    obtain ⟨rfl, rfl, rfl, rfl⟩ := h
    exact .intro (paramsResolve_iff.2 hp) (bodyResolves_iff.2 hb)

theorem declsResolve_iff {ds : List (Decl × SymbolId)} {n n' : Names} {ms : List Declaration} :
    DeclsResolve ds n ms n' ↔ lowerDecls ds n = (ms, n', []) := by
  constructor
  · intro h
    induction h with
    | nil => rw [lowerDecls]
    | cons hd _ ih => simp only [lowerDecls, declResolves_iff.1 hd, ih, List.append_nil]
  · intro h
    induction ds generalizing n ms with
    | nil =>
      simp only [lowerDecls, Prod.mk.injEq, and_true] at h
      obtain ⟨rfl, rfl⟩ := h
      exact .nil
    | cons d ds ih =>
      obtain ⟨d, symbol⟩ := d
      rw [lowerDecls] at h
      rcases hd : lowerDecl d symbol n with ⟨m, n₁, d₁⟩
      rcases hds : lowerDecls ds n₁ with ⟨rest, n₂, d₂⟩
      simp only [hd, hds, Prod.mk.injEq, List.append_eq_nil_iff] at h
      obtain ⟨rfl, rfl, rfl, rfl⟩ := h
      exact .cons (declResolves_iff.2 hd) (ih hds)

end Resolution

end CalcLang
