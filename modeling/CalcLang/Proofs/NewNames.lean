import CalcLang.Package.Resolution

/-!
# What new names keep

Lowering makes scopes and symbols and never takes one back: it changes the names of a package by
`Names.push` and `Names.bind` only. So what these two keep is kept by all of lowering
(`Names.Kept.lower`), whether or not names resolve, and holds of the tables of every package that is
built (`Names.Kept.build`).
-/

namespace CalcLang

namespace Resolution

/-- New scopes and new symbols keep a property of names. -/
structure Names.Kept (P : Names → Prop) : Prop where
  push : ∀ (n : Names) (scope : ScopeId), P n → P (n.push scope)
  bind : ∀ (n : Names) (scope : ScopeId) (ident : Ident) (kind : SymbolKind) (ty : Option Ty),
    P n → P (n.bind scope ident kind ty).1

namespace Names.Kept

variable {P : Names → Prop}

theorem enterBranch (h : Kept P) (scope : ScopeId) (branch : Expr) (n : Names) (hn : P n) :
    P (n.enterBranch scope branch).2 := by
  unfold Names.enterBranch
  split
  · exact hn
  · exact h.push n scope hn

mutual

/-- What new scopes and symbols keep is kept by lowering. -/
theorem lower (h : Kept P) (scope : ScopeId) : ∀ (e : Expr) (n : Names), P n →
    P (Resolution.lower scope e n).2.1
  | .int .., _, hn | .bool .., _, hn => hn
  | .name ident, n, hn => by
    rw [Resolution.lower]
    split
    · exact hn
    · exact hn
  | .binary _ lhs rhs _, n, hn => h.lower scope rhs _ (h.lower scope lhs n hn)
  | .unary _ operand _, n, hn => h.lower scope operand n hn
  | .ifThen test _ yes _, n, hn =>
    h.lower _ yes _ (h.enterBranch scope yes _ (h.lower scope test n hn))
  | .ifThenElse test _ yes no _, n, hn =>
    h.lower _ no _ (h.enterBranch scope no _
      (h.lower _ yes _ (h.enterBranch scope yes _ (h.lower scope test n hn))))
  | .declare .., n, hn => h.bind n scope _ _ _ hn
  | .define _ _ init _, n, hn => h.bind _ scope _ _ _ (h.lower scope init n hn)
  | .assign name value _, n, hn => by
    have hvalue := h.lower scope value n hn
    rw [Resolution.lower]
    dsimp only
    split
    · exact hvalue
    · exact hvalue
  | .call name args _, n, hn => by
    have hargs := h.lowerAll scope args n hn
    rw [Resolution.lower]
    dsimp only
    split
    · exact hargs
    · exact hargs
  | .block exprs _, n, hn => h.lowerAll _ exprs _ (h.push n scope hn)

theorem lowerAll (h : Kept P) (scope : ScopeId) : ∀ (es : List Expr) (n : Names), P n →
    P (Resolution.lowerAll scope es n).2.1
  | [], _, hn => hn
  | e :: es, n, hn => h.lowerAll scope es _ (h.lower scope e n hn)

end

theorem branch (h : Kept P) (scope : ScopeId) (branch : Expr) (n : Names) (hn : P n) :
    P (Resolution.lower (n.enterBranch scope branch).1 branch
      (n.enterBranch scope branch).2).2.1 :=
  h.lower _ branch _ (h.enterBranch scope branch n hn)

theorem lowerBody (h : Kept P) (scope : ScopeId) (body : Expr) (n : Names) (hn : P n) :
    P (Resolution.lowerBody scope body n).2.1 := by
  unfold Resolution.lowerBody
  split
  · exact h.lowerAll scope _ n hn
  · exact h.lower scope _ n hn

theorem bindParams (h : Kept P) (scope : ScopeId) (ps : List Param) (n : Names) (hn : P n) :
    P (Resolution.bindParams scope ps n).2.1 := by
  induction ps generalizing n with
  | nil => exact hn
  | cons p ps ih => exact ih _ (h.bind n scope _ _ _ hn)

theorem lowerDecls (h : Kept P) (ds : List (Decl × SymbolId)) (n : Names) (hn : P n) :
    P (Resolution.lowerDecls ds n).2.1 := by
  induction ds generalizing n with
  | nil => exact hn
  | cons d ds ih =>
    exact ih _ (h.lowerBody _ d.1.body _ (h.bindParams _ d.1.params _ (h.push n .package hn)))

theorem declareAll (h : Kept P) (accepted : Nat) (ds : List Decl) (n : Names) (hn : P n) :
    P (Resolution.declareAll accepted ds n).2.1 := by
  induction ds generalizing accepted n with
  | nil => exact hn
  | cons decl ds ih =>
    rw [Resolution.declareAll]
    split
    · exact ih accepted n hn
    · exact ih _ _ (h.bind n _ _ _ _ hn)

/-- What holds without names and is kept by new ones holds of the tables of every package. -/
theorem build (h : Kept P) (hinitial : P .initial) (name : String) (files : List (List Decl)) :
    P ⟨(Package.build name files).1.scopes, (Package.build name files).1.symbols⟩ :=
  h.lowerDecls _ _ (h.declareAll 0 files.flatten .initial hinitial)

/-- A new symbol has no tag. -/
theorem of_symbols {P : Symbols → Prop}
    (h : ∀ (s : Symbols) (e : Symbol), e.tag = none → P s → P (s.push e)) :
    Kept fun n => P n.symbols where
  push _ _ hn := hn
  bind n scope ident kind ty hn := by
    have hbind : (n.bind scope ident kind ty).1.symbols =
        (n.addSymbol ident kind ty).symbols := by
      unfold Names.bind
      split <;> rfl
    rw [hbind]
    exact h n.symbols _ rfl hn

end Names.Kept

end Resolution

end CalcLang
