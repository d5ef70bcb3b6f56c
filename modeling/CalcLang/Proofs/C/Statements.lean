import CalcLang.Proofs.C.Operands
import CalcLang.Proofs.C.Stores

/-!
# Statements of generated functions

`Executes` says what a part of a generated function does that has been lowered from nodes with the
tags from `lo` up to `hi` and makes the spills after `k` up to `k'`. Parts are put together by
`Executes.append`; the other lemmas add one statement, as lowering does, or a branch.
-/

namespace CalcLang.C

open Evaluation

/-! ## Sequences -/

namespace Ways

variable {α β γ : Type}

theorem pure_bind (a : α) (next : α → Ways β) : (pure a : Ways α) >>= next = next a :=
  (List.flatMap_singleton (follow next) _).trans (List.map_id _)

theorem follow_append (E : List Call) (next : α → Ways β) (r : Run Call Halt α) :
    follow next ⟨E ++ r.events, r.result⟩ =
      List.map (fun r' => ⟨E ++ r'.events, r'.result⟩) (follow next r) := by
  obtain ⟨E', a | a⟩ := r
  · rfl
  · refine Eq.trans (List.map_congr_left fun r _ => ?_) List.map_map.symm
    simp only [Function.comp_apply, List.append_assoc]

theorem bind_assoc (ws : Ways α) (f : α → Ways β) (g : β → Ways γ) :
    ws >>= f >>= g = ws >>= fun a => f a >>= g := by
  refine List.flatMap_assoc.trans (congrArg (List.flatMap · ws) (funext fun r => ?_))
  obtain ⟨E, reason | a⟩ := r
  · exact List.flatMap_singleton ..
  · refine (List.flatMap_map ..).trans (Eq.trans ?_ List.map_flatMap.symm)
    exact congrArg (List.flatMap · (f a)) (funext fun r => follow_append E g r)

end Ways

section Statements

variable {call : Call → Ways Word}

theorem execAll_append (ss ss' : List Stmt) (ρ : Store) :
    execAll call (ss ++ ss') ρ = execAll call ss ρ >>= execAll call ss' := by
  induction ss generalizing ρ with
  | nil => exact (Ways.pure_bind ρ (execAll call ss')).symm
  | cons s ss ih =>
    rw [List.cons_append, execAll, execAll, Ways.bind_assoc]
    congr 1
    funext ρ'
    exact ih ρ'

theorem always_append {ss ss' : List Stmt} {ρ ρ' ρ'' : Store} {T T' : List Call}
    (h : Always (execAll call ss ρ) T ρ') (h' : Always (execAll call ss' ρ') T' ρ'') :
    Always (execAll call (ss ++ ss') ρ) (T ++ T') ρ'' := by
  rw [execAll_append]
  exact always_bind h h'

theorem always_singleton {s : Stmt} {ρ ρ' : Store} {T : List Call}
    (h : Always (exec call s ρ) T ρ') : Always (execAll call [s] ρ) T ρ' :=
  h.then (always_pure ρ')

/-- A test decides which of two ways an execution takes. -/
theorem always_test {test : Expr} {ρ σ : Store} {b : Bool} {T T' : List Call} {yes no : Ways Store}
    (ht : Denotes call ρ test (ofBool b) T) (h : Always (if b = true then yes else no) T' σ) :
    Always (do
      let w ← evaluate call ρ test
      if w.val ≠ 0 then yes else no) (T ++ T') σ := by
  refine always_bind ht.always_evaluate ?_
  simpa only [val_ofBool_ne_zero] using h

/-- A branch of an `if` ends with an assignment of its value. -/
theorem always_branch {ss : List Stmt} {ρ ρ' : Store} {T T' : List Call} {e : Expr} {w : Word}
    {t : Temp} {c : CType × Word} (h : Always (execAll call ss ρ) T ρ')
    (he : Denotes call ρ' e w T') (ht : ρ' t = some c) :
    Always (do
      let inner ← execAll call (ss ++ [.assign t e]) ρ
      pure (inner.leave ρ)) (T ++ T') ((ρ'.set t (c.1, c.1.convert w)).leave ρ) := by
  have hassign : Always (exec call (.assign t e) ρ') T' (ρ'.set t (c.1, c.1.convert w)) :=
    he.always_evaluate.then (always_ofOption (Store.assign_eq ht))
  exact (always_append h (always_singleton hassign)).then (always_pure _)

end Statements

/-! ## Parts of functions -/

section Executes

variable (call : Call → Ways Word) (S : Symbols)

/-- The statements take the store `ρ` to the store `ρ'` and show the calls `T`, whatever C does
first where it has a choice. In `ρ'` the variables `V'` have the values of the frame `f'`. -/
structure Executes (V V' : List SymbolId) (lo hi k k' : Nat) (all : Bool) (stmts : List Stmt)
    (f' : Frame) (ρ ρ' : Store) (T : List Call) : Prop where
  always : Always (execAll call stmts ρ) T ρ'
  holds : ρ'.Holds S V' hi k' f'
  grows : ρ'.Extends ρ lo hi k k'
  keeps : ρ.Keeps ρ' S V all
  visible : V ⊆ V' ∧ ∀ x ∈ V', x ∈ V ∨ TagWithin S lo hi x
  le_tags : lo ≤ hi
  le_spills : k ≤ k'

end Executes

namespace Executes

variable {call : Call → Ways Word} {S : Symbols} {V V₁ V₂ : List SymbolId}
  {lo lo₁ m hi k k₁ k₂ : Nat} {all all' : Bool} {ss ss' : List Stmt} {f f₁ f₂ : Frame}
  {ρ ρ₁ ρ₂ : Store} {T T' : List Call}

theorem nil (hρ : ρ.Holds S V lo k f) : Executes call S V V lo lo k k true [] f ρ ρ [] where
  always := always_pure ρ
  holds := hρ
  grows := .refl ρ lo lo k k
  keeps := .refl ρ S V true
  visible := ⟨fun _ hx => hx, fun _ hx => .inl hx⟩
  le_tags := Nat.le_refl _
  le_spills := Nat.le_refl _

theorem append (hρ : ρ.Holds S V lo k f)
    (h : Executes call S V V₁ lo m k k₁ all ss f₁ ρ ρ₁ T)
    (h' : Executes call S V₁ V₂ m hi k₁ k₂ all' ss' f₂ ρ₁ ρ₂ T') :
    Executes call S V V₂ lo hi k k₂ (all && all') (ss ++ ss') f₂ ρ ρ₂ (T ++ T') where
  always := always_append h.always h'.always
  holds := h'.holds
  grows := by
    have h₁ := h.grows.mono (Nat.le_refl _) h'.le_tags (Nat.le_refl _) h'.le_spills
    exact h₁.trans (h'.grows.mono h.le_tags (Nat.le_refl _) h.le_spills (Nat.le_refl _))
  keeps := .trans hρ h.visible.2 h.keeps h'.keeps
  visible := by
    refine ⟨fun x hx => h'.visible.1 (h.visible.1 hx), fun x hx => ?_⟩
    rcases h'.visible.2 x hx with hx | hx
    · exact (h.visible.2 x hx).imp_right fun hx => hx.mono (Nat.le_refl _) h'.le_tags
    · exact .inr (hx.mono h.le_tags (Nat.le_refl _))
  le_tags := Nat.le_trans h.le_tags h'.le_tags
  le_spills := Nat.le_trans h.le_spills h'.le_spills

/-- A block of the language hides its variables. -/
theorem hide (h : Executes call S V V₁ lo hi k k₁ all ss f₁ ρ ρ₁ T) :
    Executes call S V V lo hi k k₁ all ss f₁ ρ ρ₁ T :=
  { h with
    holds := h.holds.subset h.visible.1
    visible := ⟨fun _ hx => hx, fun _ hx => .inl hx⟩ }

theorem mono (h : Executes call S V V₁ lo m k k₁ all ss f₁ ρ ρ₁ T) (hlo : m ≤ hi)
    (hk : k₁ ≤ k₂) (hall : all' = true → all = true) :
    Executes call S V V₁ lo hi k k₂ all' ss f₁ ρ ρ₁ T where
  always := h.always
  holds := h.holds.mono hlo hk
  grows := h.grows.mono (Nat.le_refl _) hlo (Nat.le_refl _) hk
  keeps := h.keeps.mono hall
  visible := ⟨h.visible.1, fun x hx => (h.visible.2 x hx).imp_right fun hx =>
    hx.mono (Nat.le_refl _) hlo⟩
  le_tags := Nat.le_trans h.le_tags hlo
  le_spills := Nat.le_trans h.le_spills hk

/-- A temporary that is not declared is declared. -/
theorem declare (h : Executes call S V V₁ lo₁ hi k k₁ all ss f₁ ρ ρ₁ T) {t : Temp} {w : Word}
    (ty : CType) (init : Init) (hlo : lo ≤ lo₁) (hk : k₁ ≤ k₂) (ht : ρ₁ t = none)
    (hin : t.Within lo hi k k₂) (hinit : Always (evaluateInit call ρ₁ init) T' w) :
    Executes call S V V₁ lo hi k k₂ all (ss ++ [.declare ty t init]) f₁ ρ
      (ρ₁.set t (ty, ty.convert w)) (T ++ T') where
  always := by
    refine always_append h.always (always_singleton (hinit.then (always_ofOption ?_)))
    refine Store.declare_eq ?_ ht
    rintro rfl
    exact hin
  holds := h.holds.declare ht (Nat.le_refl _) hk
    (hin.mono (Nat.zero_le _) (Nat.le_refl _) (Nat.zero_le _) (Nat.le_refl _))
  grows := (h.grows.mono hlo (Nat.le_refl _) (Nat.le_refl _) hk).set (.inr hin)
  keeps := by
    refine h.keeps.set ?_
    cases hρ : ρ t with
    | none => rfl
    | some c =>
      have := h.grows.declared t (by rw [hρ, Option.isSome_some])
      rw [ht] at this
      cases this
  visible := ⟨h.visible.1, fun x hx => (h.visible.2 x hx).imp_right fun hx =>
    hx.mono hlo (Nat.le_refl _)⟩
  le_tags := Nat.le_trans hlo h.le_tags
  le_spills := Nat.le_trans h.le_spills hk

/-- A tag that is not declared yet comes into use last. -/
theorem tagged_eq_none (hρ : ρ.Holds S V lo k f)
    (h : Executes call S V V₁ (lo + 1) hi k k₁ all ss f₁ ρ ρ₁ T) : ρ₁ (.tagged ⟨lo⟩) = none := by
  cases hρ₁ : ρ₁ (.tagged ⟨lo⟩) with
  | none => rfl
  | some c =>
    rcases h.grows.added (.tagged ⟨lo⟩) (by rw [hρ₁, Option.isSome_some]) with hs | hs
    · rw [hρ.tagged_eq_none (Nat.le_refl _)] at hs
      cases hs
    · exact absurd hs.1 (Nat.not_succ_le_self lo)

/-- A variable is introduced with a value. -/
theorem introduce (hρ : ρ.Holds S V lo k f)
    (h : Executes call S V V₁ (lo + 1) hi k k₁ all ss f₁ ρ ρ₁ T) {x : SymbolId} {v : Value}
    (init : Init) (htag : S.tag x = some ⟨lo⟩) (hty : S.ty x = some v.ty)
    (hinit : Always (evaluateInit call ρ₁ init) T' (encode v)) :
    Executes call S V (x :: V₁) lo hi k k₁ all
      (ss ++ [.declare (.ofTy (some v.ty)) (.tagged ⟨lo⟩) init]) (f₁.set x v) ρ
      (ρ₁.set (.tagged ⟨lo⟩) (.ofTy (some v.ty), encode v)) (T ++ T') := by
  have hnone := tagged_eq_none hρ h
  have h' := h.declare (.ofTy (some v.ty)) init (Nat.le_succ lo) (Nat.le_refl _) hnone
    ⟨Nat.le_refl _, h.le_tags⟩ hinit
  rw [convert_encode] at h'
  refine { h' with
    holds := h.holds.introduce hnone h.le_tags htag hty
    visible := ⟨fun y hy => List.mem_cons_of_mem _ (h'.visible.1 hy), fun y hy => ?_⟩ }
  rcases List.mem_cons.1 hy with rfl | hy
  · exact .inr ⟨lo, htag, Nat.le_refl _, h.le_tags⟩
  · exact h'.visible.2 y hy

/-- A visible variable is assigned to. -/
theorem assign (hρ : ρ.Holds S V lo k f)
    (h : Executes call S V V₁ lo hi k k₁ all ss f₁ ρ ρ₁ T) {x : SymbolId} {tag : Tag} {v : Value}
    {e : Expr} (hx : x ∈ V₁) (htag : S.tag x = some tag) (hty : S.ty x = some v.ty)
    (he : Denotes call ρ₁ e (encode v) T') :
    Executes call S V V₁ lo hi k k₁ false (ss ++ [.assign (.tagged tag) e]) (f₁.set x v) ρ
      (ρ₁.set (.tagged tag) (.ofTy (some v.ty), encode v)) (T ++ T') := by
  obtain ⟨tag', u, htag', hty', -, hu⟩ := h.holds.value x hx
  obtain rfl : tag = tag' := Option.some.inj (htag.symm.trans htag')
  have huv : u.ty = v.ty := Option.some.inj (hty'.symm.trans hty)
  rw [huv] at hu
  refine { h with
    always := ?_, holds := h.holds.assign hx htag hty, grows := h.grows.set (.inl ?_), keeps := ?_ }
  · refine always_append h.always
      (always_singleton (he.always_evaluate.then (always_ofOption ?_)))
    rw [Store.assign_eq hu, convert_encode]
  · rw [hu, Option.isSome_some]
  · intro t c ht ht'
    rw [Store.set_of_ne]
    · exact h.keeps t c ht (ht'.imp_left nofun)
    · rintro rfl
      rcases h.visible.2 x hx with hx | ⟨j, hj, hlo, -⟩
      · exact ht'.elim nofun fun hnot => hnot ⟨x, hx, tag, htag, rfl⟩
      · obtain rfl : tag = ⟨j⟩ := Option.some.inj (htag.symm.trans hj)
        have := hρ.below _ (by rw [ht, Option.isSome_some])
        exact Nat.not_lt.2 hlo this.2

/-- A statement changes nothing. -/
theorem stay (h : Executes call S V V₁ lo hi k k₁ all ss f₁ ρ ρ₁ T) {s : Stmt}
    (hs : Always (exec call s ρ₁) T' ρ₁) :
    Executes call S V V₁ lo hi k k₁ all (ss ++ [s]) f₁ ρ ρ₁ (T ++ T') :=
  { h with always := always_append h.always (always_singleton hs) }

/-- A branch of an `if` is executed, which hides its variables and leaves its value in the
temporary `t`. -/
theorem branch (hρ : ρ.Holds S V lo k f)
    (h : Executes call S V V₁ lo m k k₁ all ss f₁ ρ ρ₁ T)
    (h' : Executes call S V₁ V₂ m hi k₁ k₂ all' ss' f₂ ρ₁ ρ₂ T') {t : Temp} (ht : ρ t = none)
    (hnot : ¬ t.IsOf S V₁) {s : Stmt} {c : CType × Word}
    {U : List Call} (hs : Always (exec call s ρ₁) U ((ρ₂.set t c).leave ρ₁)) :
    Executes call S V V₁ lo hi k k₂ (all && all') (ss ++ [s]) f₂ ρ ((ρ₂.set t c).leave ρ₁)
      (T ++ U) where
  always := always_append h.always (always_singleton hs)
  holds := by
    refine (h'.holds.subset h'.visible.1).congr (fun u hu => ?_) (fun _ _ => rfl) fun u hu => ?_
    · rw [Store.leave_eq (h.holds.isSome hu), Store.set_of_ne]
      rintro rfl
      exact hnot hu
    · exact (h.holds.below u (Store.isSome_of_isSome_leave hu)).mono (Nat.le_refl _) h'.le_tags
        (Nat.le_refl _) h'.le_spills
  grows := by
    have h₁ := h.grows.mono (Nat.le_refl _) h'.le_tags (Nat.le_refl _) h'.le_spills
    exact h₁.leave fun u hu => Store.isSome_set_iff.2 (.inr (h'.grows.declared u hu))
  keeps := ((Store.Keeps.trans hρ h.visible.2 h.keeps h'.keeps).set ht).leave h.grows
  visible := ⟨h.visible.1, fun x hx => (h.visible.2 x hx).imp_right fun hx =>
    hx.mono (Nat.le_refl _) h'.le_tags⟩
  le_tags := Nat.le_trans h.le_tags h'.le_tags
  le_spills := Nat.le_trans h.le_spills h'.le_spills

end Executes

end CalcLang.C
