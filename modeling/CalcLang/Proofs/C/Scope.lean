import CalcLang.Proofs.C.Functions

/-!
# Scopes of generated functions

A temporary is declared before it is used, and in a block that is still open. `Stmt.InScope` is the
rule of C: behind a statement more is declared than before it, and what a block declares ends with
the block. A scope of the source gets no block of its own unless it is a branch of an `if`, so in a
generated function more is in scope than in its source: all variables that are visible (`Covers`),
and the temporaries of values that are still to be used. Functions are in scope everywhere.
-/

namespace CalcLang.C

/-! ## Identifiers -/

/-- What an identifier of generated code stands for. -/
inductive Identifier
  | temp (temp : Temp)
  /-- The function of the declaration `name`. -/
  | function (name : String)
  deriving DecidableEq, Repr

mutual

/-- The identifiers in an expression. -/
def Expr.identifiers : Expr → List Identifier
  | .int _ | .bool _ => []
  | .temp t => [.temp t]
  | .unary _ operand => operand.identifiers
  | .call name args => .function name :: Expr.allIdentifiers args

/-- The identifiers in a list of expressions. -/
def Expr.allIdentifiers : List Expr → List Identifier
  | [] => []
  | e :: es => e.identifiers ++ Expr.allIdentifiers es

end

/-- The identifiers in what a temporary is declared with. -/
def Init.identifiers : Init → List Identifier
  | expr value => value.identifiers
  | binary _ lhs rhs => lhs.identifiers ++ rhs.identifiers

@[simp]
theorem identifiers_ofValue (v : Value) : (Expr.ofValue v).identifiers = [] := by
  cases v <;> rfl

@[simp]
theorem identifiers_zero (ty : Option Ty) : (Expr.zero ty).identifiers = [] := by
  unfold Expr.zero
  split <;> rfl

/-! ## Scopes -/

section

variable (F : List String)

/-- A temporary is one of those that are declared, `Δ`, and a function belongs to one of the
declarations `F`. -/
inductive Identifier.Declared (Δ : List Temp) : Identifier → Prop
  | temp {t} : t ∈ Δ → Declared Δ (.temp t)
  | function {name} : name ∈ F → Declared Δ (.function name)

/-- `Identifier.Declared` for a list of identifiers. -/
def Declared (Δ : List Temp) (ids : List Identifier) : Prop := ∀ id ∈ ids, id.Declared F Δ

mutual

/-- `Stmt.InScope Δ s Δ'`: where the temporaries `Δ` are declared, the statement `s` uses no others,
and behind it the temporaries `Δ'` are declared. -/
inductive Stmt.InScope : List Temp → Stmt → List Temp → Prop
  | declare {Δ ty t init} : Declared F Δ init.identifiers → InScope Δ (.declare ty t init) (t :: Δ)
  | assign {Δ t value} : t ∈ Δ → Declared F Δ value.identifiers → InScope Δ (.assign t value) Δ
  | eval {Δ value} : Declared F Δ value.identifiers → InScope Δ (.eval value) Δ
  | ifThen {Δ test yes Δ'} : Declared F Δ test.identifiers → AllInScope Δ yes Δ' →
    InScope Δ (.ifThen test yes) Δ
  | ifThenElse {Δ test yes Δ₁ no Δ₂} : Declared F Δ test.identifiers → AllInScope Δ yes Δ₁ →
    AllInScope Δ no Δ₂ → InScope Δ (.ifThenElse test yes no) Δ

/-- `Stmt.InScope` for statements one after the other. -/
inductive Stmt.AllInScope : List Temp → List Stmt → List Temp → Prop
  | nil {Δ} : AllInScope Δ [] Δ
  | cons {Δ s Δ₁ ss Δ₂} : InScope Δ s Δ₁ → AllInScope Δ₁ ss Δ₂ → AllInScope Δ (s :: ss) Δ₂

end

/-- A function uses its parameters and what it has declared. -/
def Function.InScope (f : Function) : Prop :=
  ∃ Δ, Stmt.AllInScope F (f.signature.params.map Prod.snd) f.body Δ ∧
    Declared F Δ f.result.identifiers

end

section

variable {F : List String} {Δ Δ₁ Δ₂ : List Temp} {ids ids' : List Identifier} {ss ss' : List Stmt}

theorem Declared.mono (h : Declared F Δ ids) (hΔ : Δ ⊆ Δ₁) : Declared F Δ₁ ids := by
  intro id hid
  cases h id hid with
  | temp ht => exact .temp (hΔ ht)
  | function hf => exact .function hf

theorem declared_nil : Declared F Δ [] := nofun

theorem Declared.cons {id : Identifier} (h : id.Declared F Δ) (hs : Declared F Δ ids) :
    Declared F Δ (id :: ids) := by
  intro id' hid
  rcases List.mem_cons.1 hid with rfl | hid
  · exact h
  · exact hs id' hid

theorem declared_temp {t : Temp} (h : t ∈ Δ) : Declared F Δ [.temp t] :=
  Declared.cons (.temp h) declared_nil

theorem Declared.append (h : Declared F Δ ids) (h' : Declared F Δ ids') :
    Declared F Δ (ids ++ ids') :=
  fun id hid => (List.mem_append.1 hid).elim (h id) (h' id)

theorem Declared.function_mem {name : String} (h : Declared F Δ ids)
    (hmem : .function name ∈ ids) : name ∈ F := by
  cases h _ hmem with
  | function hname => exact hname

theorem Stmt.AllInScope.append (h : AllInScope F Δ ss Δ₁) (h' : AllInScope F Δ₁ ss' Δ₂) :
    AllInScope F Δ (ss ++ ss') Δ₂ := by
  induction ss generalizing Δ with
  | nil =>
    cases h
    exact h'
  | cons s ss ih =>
    cases h with
    | cons hs hss => exact .cons hs (ih hss)

theorem Stmt.AllInScope.concat {s : Stmt} (h : AllInScope F Δ ss Δ₁) (hs : InScope F Δ₁ s Δ₂) :
    AllInScope F Δ (ss ++ [s]) Δ₂ :=
  h.append (.cons hs .nil)

end

/-! ## Lowered nodes -/

/-- The temporaries of the variables `V` are declared. -/
def Covers (S : Symbols) (V : List SymbolId) (Δ : List Temp) : Prop :=
  ∀ x ∈ V, ∃ tag, S.tag x = some tag ∧ .tagged tag ∈ Δ

/-- Where the temporaries `Δ` are declared, the statements `ss` may run. Behind them more is
declared: what the identifiers `ids` of a value stand for, and the variables `V`. -/
def Opens (F : List String) (S : Symbols) (Δ : List Temp) (ss : List Stmt)
    (ids : List Identifier) (V : List SymbolId) : Prop :=
  ∃ Δ', Δ ⊆ Δ' ∧ Stmt.AllInScope F Δ ss Δ' ∧ Declared F Δ' ids ∧ Covers S V Δ'

section

variable {F : List String} {S : Symbols} {Δ Δ' : List Temp} {V V' : List SymbolId}

theorem Covers.mono (h : Covers S V Δ) (hΔ : Δ ⊆ Δ') : Covers S V Δ' := by
  intro x hx
  obtain ⟨tag, htag, hmem⟩ := h x hx
  exact ⟨tag, htag, hΔ hmem⟩

theorem Covers.cons {x : SymbolId} {tag : Tag} (h : Covers S V Δ) (htag : S.tag x = some tag) :
    Covers S (x :: V) (.tagged tag :: Δ) := by
  intro y hy
  rcases List.mem_cons.1 hy with rfl | hy
  · exact ⟨tag, htag, List.mem_cons_self⟩
  · exact h.mono (List.subset_cons_self ..) y hy

theorem Opens.nil {ids : List Identifier} (hids : Declared F Δ ids) (hc : Covers S V Δ) :
    Opens F S Δ [] ids V :=
  ⟨Δ, List.Subset.refl Δ, .nil, hids, hc⟩

/-- An operand is copied to a temporary that is declared behind its statements. -/
theorem Opens.spillFor {r : Lowered Expr} (h : Opens F S Δ r.stmts r.value.identifiers V) (n : Node)
    (later : List Node) :
    Opens F S Δ (spillFor S n later r).stmts (spillFor S n later r).value.identifiers V := by
  rw [C.spillFor]
  split
  · obtain ⟨Δ', hΔ, hss, hv, hc⟩ := h
    exact ⟨_, List.subset_cons_of_subset _ hΔ, hss.concat (.declare hv),
      declared_temp List.mem_cons_self, hc.mono (List.subset_cons_self ..)⟩
  · exact h

mutual

/-- **What a lowered node uses is in scope.** -/
theorem lower_inScope {V V' : List SymbolId} {k k' lo hi : Nat} {Δ : List Temp} :
    ∀ {n : Node} (j : Nat), Scoped F V k n V' k' → HasTags S lo n hi → Covers S V Δ →
      Opens F S Δ (lower S n j).stmts (lower S n j).value.identifiers V'
  | .const value _, _, hsc, _, hc => by
    cases hsc
    exact .nil (by rw [lower, identifiers_ofValue]; exact declared_nil) hc
  | .error .., _, hsc, _, _ => by cases hsc
  | .read .., _, hsc, _, hc => by
    cases hsc with
    | read hx =>
      obtain ⟨tag, htag, ht⟩ := hc _ hx
      rw [lower, htag]
      exact .nil (declared_temp ht) hc
  | .binary _ lhs rhs .., j, hsc, htag, hc => by
    cases hsc with
    | binary hscl hscr =>
      cases htag with
      | binary htagl htagr =>
        obtain ⟨Δ₁, hΔ₁, hl, hvl, hc₁⟩ := (lower_inScope j hscl htagl hc).spillFor lhs [rhs]
        obtain ⟨Δ₂, hΔ₂, hr, hvr, hc₂⟩ := lower_inScope _ hscr htagr hc₁
        exact ⟨_, List.subset_cons_of_subset _ (List.Subset.trans hΔ₁ hΔ₂),
          (hl.append hr).concat (.declare ((hvl.mono hΔ₂).append hvr)),
          declared_temp List.mem_cons_self, hc₂.mono (List.subset_cons_self ..)⟩
  | .unary _ operand .., j, hsc, htag, hc => by
    cases hsc with
    | unary hsc =>
      cases htag with
      | unary htag =>
        have h := lower_inScope (n := operand) j hsc htag hc
        exact h
  | .call .., j, hsc, htag, hc => by
    cases hsc with
    | call hname hscs =>
      cases htag with
      | call htags =>
        obtain ⟨Δ₁, hΔ₁, hss, hvs, hc₁⟩ := lowerOperands_inScope j hscs htags hc
        exact ⟨Δ₁, hΔ₁, hss, Declared.cons (.function (List.mem_of_getElem? hname)) hvs, hc₁⟩
  | .ifThen .., j, hsc, htag, hc => by
    cases hsc with
    | ifThen hsct hscy =>
      cases htag with
      | ifThen htagt htagy =>
        obtain ⟨Δ₁, hΔ₁, ht, hvt, hc₁⟩ :=
          lower_inScope j hsct htagt (hc.mono (List.subset_cons_self (.tagged ⟨lo⟩) Δ))
        obtain ⟨Δ₂, hΔ₂, hy, hvy, -⟩ := lower_inScope _ hscy htagy hc₁
        have hmem : .tagged ⟨lo⟩ ∈ Δ₁ := hΔ₁ List.mem_cons_self
        refine ⟨Δ₁, List.Subset.trans (List.subset_cons_self ..) hΔ₁,
          .cons (.declare ?_) (ht.concat (.ifThen hvt (hy.concat (.assign (hΔ₂ hmem) hvy)))),
          declared_temp hmem, hc₁⟩
        rw [Init.identifiers, identifiers_zero]
        exact declared_nil
  | .ifThenElse .., j, hsc, htag, hc => by
    cases hsc with
    | ifThenElse hsct hscy hscn =>
      cases htag with
      | ifThenElse htagt htagy htagn =>
        obtain ⟨Δ₁, hΔ₁, ht, hvt, hc₁⟩ :=
          lower_inScope j hsct htagt (hc.mono (List.subset_cons_self (.tagged ⟨lo⟩) Δ))
        obtain ⟨Δ₂, hΔ₂, hy, hvy, -⟩ := lower_inScope _ hscy htagy hc₁
        obtain ⟨Δ₃, hΔ₃, hn, hvn, -⟩ := lower_inScope _ hscn htagn hc₁
        have hmem : .tagged ⟨lo⟩ ∈ Δ₁ := hΔ₁ List.mem_cons_self
        refine ⟨Δ₁, List.Subset.trans (List.subset_cons_self ..) hΔ₁,
          .cons (.declare ?_) (ht.concat (.ifThenElse hvt (hy.concat (.assign (hΔ₂ hmem) hvy))
            (hn.concat (.assign (hΔ₃ hmem) hvn)))), declared_temp hmem, hc₁⟩
        rw [Init.identifiers, identifiers_zero]
        exact declared_nil
  | .block _ _ pos, j, hsc, htag, hc => by
    cases hsc with
    | block hne hscs =>
      cases htag with
      | block htags =>
        obtain ⟨Δ₁, hΔ₁, hss, hv, -⟩ := lowerBlock_inScope pos j hne hscs htags hc
        exact ⟨Δ₁, hΔ₁, hss, hv, hc.mono hΔ₁⟩
  | .assign .., j, hsc, htag, hc => by
    cases hsc with
    | assign hsc hx =>
      cases htag with
      | assign htag =>
        obtain ⟨Δ₁, hΔ₁, hss, hv, hc₁⟩ := lower_inScope j hsc htag hc
        obtain ⟨tag, htag, ht⟩ := hc₁ _ hx
        rw [lower, htag]
        exact ⟨Δ₁, hΔ₁, hss.concat (.assign ht hv), declared_temp ht, hc₁⟩
  | .declare .., _, hsc, htag, hc => by
    cases hsc
    cases htag with
    | declare htag =>
      rw [lower, htag]
      refine ⟨_, List.subset_cons_self .., .cons (.declare ?_) .nil,
        declared_temp List.mem_cons_self, hc.cons htag⟩
      rw [Init.identifiers, identifiers_zero]
      exact declared_nil
  | .define .., j, hsc, htag, hc => by
    cases hsc with
    | define hsc =>
      cases htag with
      | define htag htagi =>
        obtain ⟨Δ₁, hΔ₁, hss, hv, hc₁⟩ := lower_inScope j hsc htagi hc
        rw [lower, htag]
        exact ⟨_, List.subset_cons_of_subset _ hΔ₁, hss.concat (.declare hv),
          declared_temp List.mem_cons_self, hc₁.cons htag⟩

theorem lowerBlock_inScope {V V' : List SymbolId} {k k' lo hi : Nat} {Δ : List Temp} (pos : Pos) :
    ∀ {ns : List Node} (j : Nat), ns ≠ [] → ScopedAll F V k ns V' k' → HaveTags S lo ns hi →
      Covers S V Δ →
      Opens F S Δ (lowerBlock S pos ns j).stmts (lowerBlock S pos ns j).value.identifiers V'
  | [], _, hne, _, _, _ => absurd rfl hne
  | [_], j, _, hsc, htag, hc => by
    cases hsc with
    | cons hsc hnil =>
      cases hnil
      cases htag with
      | cons htag hnil =>
        cases hnil
        exact lower_inScope j hsc htag hc
  | n :: n' :: ns, j, _, hsc, htag, hc => by
    cases hsc with
    | cons hsc hscs =>
      cases htag with
      | cons htag htags =>
        obtain ⟨Δ₁, hΔ₁, hss, hv, hc₁⟩ := lower_inScope j hsc htag hc
        obtain ⟨Δ₂, hΔ₂, hss', hv', hc₂⟩ :=
          lowerBlock_inScope pos _ (List.cons_ne_nil n' ns) hscs htags hc₁
        have hdiscard : Stmt.AllInScope F Δ₁ (discard n (lower S n j).value) Δ₁ := by
          unfold discard
          split
          · exact .cons (.eval hv) .nil
          · exact .nil
        exact ⟨Δ₂, List.Subset.trans hΔ₁ hΔ₂, (hss.append hdiscard).append hss', hv', hc₂⟩

theorem lowerOperands_inScope {V V' : List SymbolId} {k k' lo hi : Nat} {Δ : List Temp} :
    ∀ {ns : List Node} (j : Nat), ScopedAll F V k ns V' k' → HaveTags S lo ns hi →
      Covers S V Δ →
      Opens F S Δ (lowerOperands S ns j).stmts (Expr.allIdentifiers (lowerOperands S ns j).value) V'
  | [], _, hsc, _, hc => by
    cases hsc
    exact .nil declared_nil hc
  | n :: ns, j, hsc, htag, hc => by
    cases hsc with
    | cons hsc hscs =>
      cases htag with
      | cons htag htags =>
        obtain ⟨Δ₁, hΔ₁, hss, hv, hc₁⟩ := (lower_inScope j hsc htag hc).spillFor n ns
        obtain ⟨Δ₂, hΔ₂, hss', hv', hc₂⟩ := lowerOperands_inScope _ hscs htags hc₁
        exact ⟨Δ₂, List.Subset.trans hΔ₁ hΔ₂, hss.append hss', (hv.mono hΔ₂).append hv', hc₂⟩

end

end

/-! ## Functions -/

theorem lowerParams_eq (S : Symbols) (xs : List SymbolId) :
    (lowerParams S xs).1 = xs.map fun x => (.ofTy (S.ty x), (tempOf (S.tag x) (S.pos x)).1) := by
  induction xs with
  | nil => rfl
  | cons x xs ih => rw [lowerParams, List.map_cons, ← ih]

section

variable {F : List String} {sigs : Typing.Signatures} {S : Symbols} {d : Declaration} {k lo : Nat}

/-- Parameters have consecutive tags. -/
theorem tag_params (h : d.Ready F sigs S k lo) :
    d.params.map S.tag = (List.range' lo d.params.length).map fun i => some ⟨i⟩ := by
  calc d.params.map S.tag = (numbered k d.params.length).map S.tag := congrArg _ h.params
    _ = (List.range d.params.length).map fun i => S.tag ⟨k + i⟩ := by
      rw [numbered, List.range'_eq_map_range, List.map_map, List.map_map]
      rfl
    _ = (List.range d.params.length).map fun i => some ⟨lo + i⟩ :=
      List.map_congr_left fun i hi => h.paramTags i (List.mem_range.1 hi)
    _ = _ := by
      rw [List.range'_eq_map_range, List.map_map]
      rfl

theorem exists_tag_of_mem {α : Type} {tag : α → Option Tag} {l : List α} {is : List Nat}
    (h : l.map tag = is.map fun i => some ⟨i⟩) {a : α} (ha : a ∈ l) :
    ∃ t, tag a = some t := by
  have hmem : tag a ∈ l.map tag := List.mem_map_of_mem ha
  rw [h] at hmem
  obtain ⟨i, -, hi⟩ := List.mem_map.1 hmem
  exact ⟨⟨i⟩, hi.symm⟩

/-- **What a generated function uses is in scope.** -/
theorem inScope_functionOf (h : d.Ready F sigs S k lo) (j : Nat) :
    (functionOf S d j).InScope F := by
  obtain ⟨V, k', hsc⟩ := h.scope
  obtain ⟨hi, htags⟩ := h.tags
  have hcovers : Covers S d.params.reverse ((lowerParams S d.params).1.map Prod.snd) := by
    intro x hx
    have hx := List.mem_reverse.1 hx
    obtain ⟨tag, htag⟩ := exists_tag_of_mem (tag_params h) hx
    refine ⟨tag, htag, ?_⟩
    rw [lowerParams_eq, List.map_map]
    exact List.mem_map.2 ⟨x, hx, by simp only [Function.comp_apply, htag, tempOf]⟩
  obtain ⟨Δ, -, hss, hv, -⟩ := lower_inScope j hsc htags hcovers
  exact ⟨Δ, hss, hv⟩

end

end CalcLang.C
