import CalcLang.Proofs.C.Execution

/-!
# Expressions whose order of evaluation does not matter

`Denotes call ρ e w T`: reads and operators of the expression `e` are defined in the store `ρ`, its
calls are nested in one another, so that no two of them are operands of the same expression, and
`T` is what is seen of them. Such an expression has the value `w` and shows the calls `T` in
whatever order C evaluates it (`Denotes.always_evaluate`), because a step keeps what an expression
denotes (`Denotes.keeps`).
-/

namespace CalcLang.C

/-! ## Executions with one outcome -/

/-- Whatever way is taken, the result is `a`, after the calls `T`. -/
def Always {α : Type} (ws : Ways α) (T : List Call) (a : α) : Prop :=
  ws ≠ [] ∧ ∀ r, List.Mem r ws → r.Returns T a

section Always

variable {α β γ : Type}

theorem always_pure (a : α) : Always (pure a) [] a := by
  refine ⟨List.cons_ne_nil _ _, fun r hr => ?_⟩
  obtain rfl := List.mem_singleton.1 hr
  rfl

theorem always_make (c : Call) : Always (Ways.make c) [c] () := by
  refine ⟨List.cons_ne_nil _ _, fun r hr => ?_⟩
  obtain rfl := List.mem_singleton.1 hr
  rfl

theorem always_ofOption {o : Option α} {a : α} (h : o = some a) :
    Always (Ways.ofOption o) [] a := by
  rw [h]
  exact always_pure a

theorem always_bind {ws : Ways α} {next : α → Ways β} {T T' : List Call} {a : α} {b : β}
    (h : Always ws T a) (h' : Always (next a) T' b) : Always (ws >>= next) (T ++ T') b := by
  obtain ⟨hne, hall⟩ := h
  obtain ⟨hne', hall'⟩ := h'
  constructor
  · obtain ⟨r, hr⟩ := List.exists_mem_of_ne_nil ws hne
    obtain ⟨r', hr'⟩ := List.exists_mem_of_ne_nil (next a) hne'
    refine List.ne_nil_of_mem (a := ⟨r.events ++ r'.events, r'.result⟩)
      (List.mem_flatMap.2 ⟨r, hr, ?_⟩)
    rw [hall r hr]
    exact List.mem_map.2 ⟨r', hr', rfl⟩
  · intro r hr
    obtain ⟨r₁, hr₁, hr⟩ := List.mem_flatMap.1 hr
    rw [hall r₁ hr₁] at hr
    obtain ⟨r₂, hr₂, rfl⟩ := List.mem_map.1 hr
    rw [hall' r₂ hr₂]
    rfl

theorem Always.then {ws : Ways α} {next : α → Ways β} {T : List Call} {a : α} {b : β}
    (h : Always ws T a) (h' : Always (next a) [] b) : Always (ws >>= next) T b := by
  have := always_bind h h'
  rwa [List.append_nil] at this

theorem always_choose {l : List (Ways α)} {T : List Call} {a : α} (hne : l ≠ [])
    (h : ∀ ws ∈ l, Always ws T a) : Always (Ways.choose l) T a := by
  constructor
  · obtain ⟨ws, hws⟩ := List.exists_mem_of_ne_nil l hne
    obtain ⟨r, hr⟩ := List.exists_mem_of_ne_nil ws (h ws hws).1
    exact List.ne_nil_of_mem (List.mem_flatten.2 ⟨ws, hws, hr⟩)
  · intro r hr
    obtain ⟨ws, hws, hr⟩ := List.mem_flatten.1 hr
    exact (h ws hws).2 r hr

theorem Always.det {ws : Ways α} {T T' : List Call} {a a' : α} (h : Always ws T a)
    (h' : Always ws T' a') : T = T' ∧ a = a' := by
  obtain ⟨r, hr⟩ := List.exists_mem_of_ne_nil ws h.1
  exact (h.2 r hr).det (h'.2 r hr)

end Always

/-! ## What an expression denotes -/

section Denotes

variable (call : Call → Ways Word)

mutual

/-- The expression has the value `w` and shows the calls `T`, in any order of evaluation. -/
inductive Denotes (ρ : Store) : Expr → Word → List Call → Prop
  | int {w} : Denotes ρ (.int w) w []
  | bool {b} : Denotes ρ (.bool b) (ofBool b) []
  | temp {t v} : ρ t = some v → Denotes ρ (.temp t) v.2 []
  | unary {op e w w' T} : Denotes ρ e w T → unary op w = some w' → Denotes ρ (.unary op e) w' T
  | call {name args ws w T T'} : DenoteAll ρ args ws T → Always (call ⟨name, ws⟩) T' w →
    Denotes ρ (.call name args) w (T ++ ⟨name, ws⟩ :: T')

/-- The expressions have the values `ws` and show the calls `T`. At most one of them has calls. -/
inductive DenoteAll (ρ : Store) : List Expr → List Word → List Call → Prop
  | nil : DenoteAll ρ [] [] []
  | cons {e w T es ws T'} : Denotes ρ e w T → DenoteAll ρ es ws T' → T = [] ∨ T' = [] →
    DenoteAll ρ (e :: es) (w :: ws) (T ++ T')

end

/-- What a step may do if the whole denotes something: `P` says what the rest denotes and `size`
bounds the steps that are left. -/
inductive Step.Keeps {α : Type} (P : α → List Call → Prop) (size : α → Nat) (bound : Nat) :
    List Call → Step α → Prop
  | silent {T next} : P next T → size next < bound → Step.Keeps P size bound T (.silent next)
  | call {c w T T' resume} : Always (call c) T w → P (resume w) T' →
    (∀ w, size (resume w) < bound) → Step.Keeps P size bound (c :: T ++ T') (.call c resume)

end Denotes

section Steps

variable {call : Call → Ways Word} {ρ : Store}

/-- A step of a part is a step of the whole. -/
theorem Step.Keeps.map {α β : Type} {P : α → List Call → Prop} {Q : β → List Call → Prop}
    {size : α → Nat} {size' : β → Nat} {bound bound' : Nat} {f : α → β} {T : List Call}
    {s : Step α} (g : List Call → List Call) (h : Step.Keeps call P size bound T s)
    (hP : ∀ a T', T' <:+ T → P a T' → Q (f a) (g T'))
    (hg : ∀ c T₁ T₂, T = c :: T₁ ++ T₂ → g T = c :: T₁ ++ g T₂)
    (hsize : ∀ a, size a < bound → size' (f a) < bound') :
    Step.Keeps call Q size' bound' (g T) (s.map f) := by
  cases h with
  | silent h hlt => exact .silent (hP _ _ List.suffix_rfl h) (hsize _ hlt)
  | call hc h hlt =>
    rw [hg _ _ _ rfl]
    exact .call hc (hP _ _ (List.suffix_append _ _) h) fun w => hsize _ (hlt w)

theorem Step.Keeps.pos {α : Type} {P : α → List Call → Prop} {size : α → Nat} {bound : Nat}
    {T : List Call} {s : Step α} (h : Step.Keeps call P size bound T s) : 0 < bound := by
  cases h with
  | silent _ hlt => exact Nat.zero_lt_of_lt hlt
  | call _ _ hlt => exact Nat.zero_lt_of_lt (hlt .zero)

theorem eq_int_of_value? {e : Expr} {w : Word} (h : e.value? = some w) : e = .int w := by
  cases e <;> cases h
  rfl

theorem values?_cons_eq_some {e : Expr} {es : List Expr} {ws : List Word}
    (h : values? (e :: es) = some ws) :
    ∃ w ws', e = .int w ∧ values? es = some ws' ∧ ws = w :: ws' := by
  simp only [values?, Option.bind_eq_bind, Option.bind_eq_some_iff, Option.some.injEq] at h
  obtain ⟨w, hw, ws', hws, rfl⟩ := h
  exact ⟨w, ws', eq_int_of_value? hw, hws, rfl⟩

theorem DenoteAll.of_values? {es : List Expr} {ws ws' : List Word} {T : List Call}
    (h : DenoteAll call ρ es ws T) (hv : values? es = some ws') : ws = ws' ∧ T = [] := by
  induction es generalizing ws ws' T with
  | nil =>
    cases h
    cases hv
    exact ⟨rfl, rfl⟩
  | cons e es ih =>
    obtain ⟨w, ws'', rfl, hes, rfl⟩ := values?_cons_eq_some hv
    cases h with
    | cons he hes' _ =>
      cases he
      obtain ⟨rfl, rfl⟩ := ih hes' hes
      exact ⟨rfl, rfl⟩

mutual

/-- An expression that denotes something is a value or can take a step. -/
theorem Denotes.steps_ne_nil {w : Word} {T : List Call} : ∀ e : Expr, Denotes call ρ e w T →
    e.value? = none → steps ρ e ≠ []
  | .int _, _, hv => nomatch hv
  | .bool _, _, _ => List.cons_ne_nil _ _
  | .temp _, _, _ => List.cons_ne_nil _ _
  | .unary _ e, h, _ => by
    cases h with
    | unary he _ =>
      rw [steps]
      split
      · exact List.cons_ne_nil _ _
      · next hv => exact fun h => he.steps_ne_nil e hv (List.map_eq_nil_iff.1 h)
  | .call _ args, h, _ => by
    cases h with
    | call hargs _ =>
      rw [steps]
      split
      · exact List.cons_ne_nil _ _
      · next hv => exact fun h => hargs.steps_ne_nil args hv (List.map_eq_nil_iff.1 h)

theorem DenoteAll.steps_ne_nil {ws : List Word} {T : List Call} : ∀ es : List Expr,
    DenoteAll call ρ es ws T → values? es = none → stepsAll ρ es ≠ []
  | [], _, hv => nomatch hv
  | e :: es, h, hv => by
    cases h with
    | cons he hes _ =>
      intro hnil
      obtain ⟨h₁, h₂⟩ := List.append_eq_nil_iff.1 hnil
      rw [List.map_eq_nil_iff] at h₁ h₂
      cases hve : e.value? with
      | none => exact he.steps_ne_nil e hve h₁
      | some w =>
        cases hves : values? es with
        | none => exact hes.steps_ne_nil es hves h₂
        | some ws => simp [values?, hve, hves] at hv

end

mutual

/-- A step keeps what an expression denotes. -/
theorem Denotes.keeps {w : Word} {T : List Call} : ∀ e : Expr, Denotes call ρ e w T →
    ∀ s ∈ steps ρ e, Step.Keeps call (Denotes call ρ · w) Expr.size e.size T s
  | .int _, _, s, hs => nomatch hs
  | .bool b, h, s, hs => by
    obtain rfl := List.mem_singleton.1 hs
    cases h
    exact .silent .int (by simp [Expr.size])
  | .temp t, h, s, hs => by
    obtain rfl := List.mem_singleton.1 hs
    cases h with
    | temp ht =>
      rw [ht]
      exact .silent .int (by simp [Expr.size])
  | .unary op e, h, s, hs => by
    cases h with
    | unary he hw =>
      rw [steps] at hs
      split at hs
      · next hv =>
        obtain rfl := List.mem_singleton.1 hs
        obtain rfl := eq_int_of_value? hv
        cases he
        rw [hw]
        exact .silent .int (by simp [Expr.size])
      · obtain ⟨s, he', rfl⟩ := List.mem_map.1 hs
        exact (he.keeps e s he').map id (fun _ _ _ h => .unary h hw) (fun _ _ _ h => h)
          fun _ h => by simpa [Expr.size] using h
  | .call name args, h, s, hs => by
    cases h with
    | @call _ _ ws _ _ T' hargs hc =>
      rw [steps] at hs
      split at hs
      · next hv =>
        obtain rfl := List.mem_singleton.1 hs
        obtain ⟨rfl, rfl⟩ := hargs.of_values? hv
        have h : Step.Keeps call (Denotes call ρ · w) Expr.size (Expr.call name args).size
            (⟨name, ws⟩ :: T' ++ []) (.call ⟨name, ws⟩ .int) :=
          .call hc .int fun _ => by simp [Expr.size]
        rwa [List.append_nil] at h
      · obtain ⟨s, ha, rfl⟩ := List.mem_map.1 hs
        exact (hargs.keeps args s ha).map (· ++ ⟨name, ws⟩ :: T') (fun _ _ _ h => .call h hc)
          (fun c T₁ T₂ h => by simp [h]) fun _ h => by simpa [Expr.size] using h

theorem DenoteAll.keeps {ws : List Word} {T : List Call} : ∀ es : List Expr,
    DenoteAll call ρ es ws T →
    ∀ s ∈ stepsAll ρ es, Step.Keeps call (DenoteAll call ρ · ws) Expr.sizes (Expr.sizes es) T s
  | [], _, s, hs => nomatch hs
  | e :: es, h, s, hs => by
    cases h with
    | @cons _ _ T _ _ T' he hes hsep =>
      rw [stepsAll, List.mem_append] at hs
      rcases hs with hs | hs <;> obtain ⟨s, hs', rfl⟩ := List.mem_map.1 hs
      · refine (he.keeps e s hs').map (· ++ T') (fun e' T₁ hT₁ h => .cons h hes ?_)
          (fun c T₁ T₂ h => by simp [h]) fun _ h => by simpa [Expr.sizes] using h
        exact hsep.imp_left fun hT : T = [] => List.suffix_nil.1 (hT ▸ hT₁)
      · refine (hes.keeps es s hs').map (T ++ ·) (fun es' T₁ hT₁ h => .cons he h ?_)
          (fun c T₁ T₂ h => ?_) fun _ h => by simpa [Expr.sizes] using h
        · exact hsep.imp_right fun hT' : T' = [] => List.suffix_nil.1 (hT' ▸ hT₁)
        · -- a call of a later expression comes first only if no earlier one makes a call
          rcases hsep with rfl | rfl
          · exact h
          · cases h

end

/-- All orders of evaluation lead to what the expressions denote. -/
theorem DenoteAll.always_evaluateWithin {n : Nat} {es : List Expr} {ws : List Word}
    {T : List Call} (h : DenoteAll call ρ es ws T) (hn : Expr.sizes es ≤ n) :
    Always (evaluateWithin call ρ n es) T ws := by
  induction n generalizing es T with
  | zero =>
    cases hv : values? es with
    | none =>
      obtain ⟨s, hs⟩ := List.exists_mem_of_ne_nil _ (h.steps_ne_nil es hv)
      exact absurd (h.keeps es s hs).pos (by omega)
    | some ws' =>
      obtain ⟨rfl, rfl⟩ := h.of_values? hv
      exact always_ofOption hv
  | succ n ih =>
    rw [evaluateWithin]
    split
    · next hv =>
      obtain ⟨rfl, rfl⟩ := h.of_values? hv
      exact always_pure _
    · next hv =>
      refine always_choose (fun hnil => h.steps_ne_nil es hv (List.map_eq_nil_iff.1 hnil)) ?_
      intro ways hways
      obtain ⟨s, hs, rfl⟩ := List.mem_map.1 hways
      cases h.keeps es s hs with
      | silent h hlt => exact ih h (by omega)
      | call hc hr hlt =>
        refine always_bind (T := [_]) (always_make _) (always_bind hc (ih hr ?_))
        exact Nat.le_of_lt_succ (Nat.lt_of_lt_of_le (hlt _) hn)

theorem DenoteAll.always_evaluateAll {es : List Expr} {ws : List Word} {T : List Call}
    (h : DenoteAll call ρ es ws T) : Always (evaluateAll call ρ es) T ws :=
  h.always_evaluateWithin (Nat.le_refl _)

theorem Denotes.always_evaluate {e : Expr} {w : Word} {T : List Call} (h : Denotes call ρ e w T) :
    Always (evaluate call ρ e) T w := by
  have hes := (DenoteAll.cons h .nil (.inr rfl)).always_evaluateAll
  rw [List.append_nil] at hes
  exact hes.then (always_ofOption rfl)

end Steps

/-! ## What a temporary is declared with -/

section Init

variable {call : Call → Ways Word} {ρ : Store} {op : BinaryOp} {lhs rhs : Expr} {a b w : Word}
  {T T' : List Call}

theorem always_evaluateInit_binary (hop : sequenced op = false)
    (h : DenoteAll call ρ [lhs, rhs] [a, b] T) (hw : binary op a b = some w) :
    Always (evaluateInit call ρ (.binary op lhs rhs)) T w := by
  rw [evaluateInit, if_neg (by simp [hop])]
  exact h.always_evaluateAll.then (always_ofOption hw)

/-- A right operand that decides nothing is not evaluated. -/
theorem always_evaluateInit_decided (hop : sequenced op = true) (hl : Denotes call ρ lhs a T)
    (hw : shortcut? op a = some w) : Always (evaluateInit call ρ (.binary op lhs rhs)) T w := by
  rw [evaluateInit, if_pos hop]
  refine hl.always_evaluate.then ?_
  rw [hw]
  exact always_pure w

theorem always_evaluateInit_undecided (hop : sequenced op = true) (hl : Denotes call ρ lhs a T)
    (hs : shortcut? op a = none) (hr : Denotes call ρ rhs b T') (hw : binary op a b = some w) :
    Always (evaluateInit call ρ (.binary op lhs rhs)) (T ++ T') w := by
  rw [evaluateInit, if_pos hop]
  refine always_bind hl.always_evaluate ?_
  rw [hs]
  exact hr.always_evaluate.then (always_ofOption hw)

end Init

end CalcLang.C
