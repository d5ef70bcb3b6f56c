import CalcLang.Proofs.C.Operators
import CalcLang.Proofs.Tagging

/-!
# Stores of generated functions

How the store of a generated function stands to the frame of a call. `Store.Holds` says that the
temporaries of the visible variables have the values of the variables, and that the tags and spills
of nodes still to come are not in use. A part of a function that is executed declares temporaries
of its own tags and spills only (`Store.Extends`), and of what is declared it changes at most the
visible variables (`Store.Keeps`).
-/

namespace CalcLang.C

open Evaluation

/-- The temporary is one of the tags from `lo` up to `hi` or of the spills after `k` up to `k'`. -/
def Temp.Within (lo hi k k' : Nat) : Temp → Prop
  | .tagged tag => lo ≤ tag.number ∧ tag.number < hi
  | .spill number => k < number ∧ number ≤ k'
  | .missing => False

theorem Temp.Within.mono {t : Temp} {lo lo' hi hi' k k₁ k' k₁' : Nat} (h : t.Within lo hi k k')
    (hlo : lo' ≤ lo) (hhi : hi ≤ hi') (hk : k₁ ≤ k) (hk' : k' ≤ k₁') : t.Within lo' hi' k₁ k₁' := by
  cases t with
  | tagged tag => exact ⟨Nat.le_trans hlo h.1, Nat.lt_of_lt_of_le h.2 hhi⟩
  | spill number => exact ⟨Nat.lt_of_le_of_lt hk h.1, Nat.le_trans h.2 hk'⟩
  | missing => exact h

/-- The temporary belongs to one of the variables. -/
def Temp.IsOf (t : Temp) (S : Symbols) (V : List SymbolId) : Prop :=
  ∃ x ∈ V, ∃ tag, S.tag x = some tag ∧ t = .tagged tag

namespace Store

/-- The store `ρ` holds the variables `V` of the frame `f`, and of the tags from `lo` on and the
spills after `k` none is in use. -/
structure Holds (ρ : Store) (S : Symbols) (V : List SymbolId) (lo k : Nat) (f : Frame) : Prop where
  value : ∀ x ∈ V, ∃ tag v, S.tag x = some tag ∧ S.ty x = some v.ty ∧ f x = some v ∧
    ρ (.tagged tag) = some (.ofTy (some v.ty), encode v)
  tag_inj : ∀ x ∈ V, ∀ y ∈ V, S.tag x = S.tag y → x = y
  below : ∀ t, (ρ t).isSome → t.Within 0 lo 0 k

/-- What is declared in `ρ` is declared in `ρ'`, which adds temporaries of the tags from `lo` up to
`hi` and of the spills after `k` up to `k'`. -/
structure Extends (ρ' ρ : Store) (lo hi k k' : Nat) : Prop where
  declared : ∀ t, (ρ t).isSome → (ρ' t).isSome
  added : ∀ t, (ρ' t).isSome → (ρ t).isSome ∨ t.Within lo hi k k'

/-- What is declared in `ρ` is the same in `ρ'`. The variables `V` are excepted unless `all` is
set. -/
def Keeps (ρ ρ' : Store) (S : Symbols) (V : List SymbolId) (all : Bool) : Prop :=
  ∀ t v, ρ t = some v → (all = true ∨ ¬ t.IsOf S V) → ρ' t = some v

section

variable {ρ ρ' ρ₁ ρ₂ : Store} {S : Symbols} {V V₁ V₂ : List SymbolId} {lo lo' hi k k' : Nat}
  {f f' : Frame} {t : Temp} {c : CType × Word} {all all' : Bool}

/-! ## Declarations and assignments -/

@[simp]
theorem set_self : ρ.set t c t = some c := if_pos rfl

@[simp]
theorem set_of_ne {u : Temp} (h : u ≠ t) : ρ.set t c u = ρ u := if_neg h

theorem isSome_set_iff {u : Temp} : (ρ.set t c u).isSome ↔ u = t ∨ (ρ u).isSome := by
  by_cases h : u = t
  · subst h
    simp
  · simp [h]

theorem declare_eq {ty : CType} {w : Word} (hne : t ≠ .missing) (h : ρ t = none) :
    ρ.declare ty t w = some (ρ.set t (ty, ty.convert w)) := by
  rw [declare, if_neg]
  simp [hne, h]

theorem assign_eq {w : Word} (h : ρ t = some c) :
    ρ.assign t w = some (ρ.set t (c.1, c.1.convert w)) := by
  rw [assign, h, Option.map_some]

theorem leave_eq {inner : Store} (h : (ρ t).isSome) : inner.leave ρ t = inner t := if_pos h

theorem isSome_of_isSome_leave {inner : Store} (h : (inner.leave ρ t).isSome) : (ρ t).isSome := by
  unfold leave at h
  split at h
  · assumption
  · cases h

/-! ## What a store holds -/

namespace Holds

theorem isSome (h : ρ.Holds S V lo k f) (ht : t.IsOf S V) : (ρ t).isSome := by
  obtain ⟨x, hx, tag, htag, rfl⟩ := ht
  obtain ⟨tag', v, htag', -, -, hρ⟩ := h.value x hx
  obtain rfl : tag = tag' := Option.some.inj (htag.symm.trans htag')
  rw [hρ, Option.isSome_some]

theorem tag_lt (h : ρ.Holds S V lo k f) {x : SymbolId} (hx : x ∈ V) {tag : Tag}
    (htag : S.tag x = some tag) : tag.number < lo :=
  (h.below _ (h.isSome ⟨x, hx, tag, htag, rfl⟩)).2

theorem eq_none (h : ρ.Holds S V lo k f) (ht : ¬ t.Within 0 lo 0 k) : ρ t = none := by
  cases hρ : ρ t with
  | none => rfl
  | some c => exact absurd (h.below t (by rw [hρ, Option.isSome_some])) ht

theorem tagged_eq_none (h : ρ.Holds S V lo k f) (hle : lo ≤ lo') : ρ (.tagged ⟨lo'⟩) = none :=
  h.eq_none fun ht => Nat.not_lt.2 hle ht.2

theorem spill_eq_none (h : ρ.Holds S V lo k f) : ρ (.spill (k + 1)) = none :=
  h.eq_none fun ht => Nat.not_succ_le_self k ht.2

/-- Temporaries of no variable may be declared and changed. -/
theorem congr (h : ρ.Holds S V lo k f) (hρ : ∀ t, t.IsOf S V → ρ' t = ρ t)
    (hf : ∀ x ∈ V, f' x = f x) (hbelow : ∀ t, (ρ' t).isSome → t.Within 0 lo' 0 k') :
    ρ'.Holds S V lo' k' f' := by
  refine ⟨fun x hx => ?_, h.tag_inj, hbelow⟩
  obtain ⟨tag, v, htag, hty, hv, hvalue⟩ := h.value x hx
  refine ⟨tag, v, htag, hty, (hf x hx).trans hv, ?_⟩
  rw [hρ _ ⟨x, hx, tag, htag, rfl⟩, hvalue]

theorem mono (h : ρ.Holds S V lo k f) (hlo : lo ≤ lo') (hk : k ≤ k') : ρ.Holds S V lo' k' f :=
  h.congr (fun _ _ => rfl) (fun _ _ => rfl) fun t ht =>
    (h.below t ht).mono (Nat.le_refl _) hlo (Nat.le_refl _) hk

theorem subset (h : ρ.Holds S V₁ lo k f) (hV : V ⊆ V₁) : ρ.Holds S V lo k f :=
  ⟨fun x hx => h.value x (hV hx), fun x hx y hy => h.tag_inj x (hV hx) y (hV hy), h.below⟩

/-- A temporary that is not declared yet is declared. -/
theorem declare (h : ρ.Holds S V lo k f) (ht : ρ t = none) (hlo : lo ≤ lo') (hk : k ≤ k')
    (hin : t.Within 0 lo' 0 k') : (ρ.set t c).Holds S V lo' k' f := by
  refine h.congr (fun u hu => set_of_ne ?_) (fun _ _ => rfl) fun u hu => ?_
  · rintro rfl
    have := h.isSome hu
    rw [ht] at this
    cases this
  · rcases isSome_set_iff.1 hu with rfl | hu
    · exact hin
    · exact (h.below u hu).mono (Nat.le_refl _) hlo (Nat.le_refl _) hk

/-- A variable is introduced. -/
theorem introduce (h : ρ.Holds S V lo k f) {tag : Tag} (ht : ρ (.tagged tag) = none)
    (hin : tag.number < lo) {x : SymbolId} {v : Value} (htag : S.tag x = some tag)
    (hty : S.ty x = some v.ty) :
    (ρ.set (.tagged tag) (.ofTy (some v.ty), encode v)).Holds S (x :: V) lo k (f.set x v) := by
  have hnew : ∀ y ∈ V, S.tag y ≠ some tag := by
    intro y hy hytag
    have := h.isSome ⟨y, hy, tag, hytag, rfl⟩
    rw [ht] at this
    cases this
  have hne : ∀ y ∈ V, y ≠ x := fun y hy hyx => hnew y hy (hyx ▸ htag)
  have h' : (ρ.set (.tagged tag) (.ofTy (some v.ty), encode v)).Holds S V lo k f :=
    h.declare ht (Nat.le_refl _) (Nat.le_refl _) ⟨Nat.zero_le _, hin⟩
  refine ⟨fun y hy => ?_, fun y hy z hz hyz => ?_, h'.below⟩
  · rcases List.mem_cons.1 hy with rfl | hy
    · exact ⟨tag, v, htag, hty, if_pos rfl, set_self⟩
    · obtain ⟨tag', v', htag', hty', hv', hρ⟩ := h'.value y hy
      exact ⟨tag', v', htag', hty', (if_neg (hne y hy)).trans hv', hρ⟩
  · rcases List.mem_cons.1 hy with hyx | hy' <;> rcases List.mem_cons.1 hz with hzx | hz'
    · exact hyx.trans hzx.symm
    · exact absurd (hyz.symm.trans (hyx ▸ htag)) (hnew z hz')
    · exact absurd (hyz.trans (hzx ▸ htag)) (hnew y hy')
    · exact h.tag_inj y hy' z hz' hyz

/-- A visible variable is assigned to. -/
theorem assign (h : ρ.Holds S V lo k f) {x : SymbolId} (hx : x ∈ V) {tag : Tag} {v : Value}
    (htag : S.tag x = some tag) (hty : S.ty x = some v.ty) :
    (ρ.set (.tagged tag) (.ofTy (some v.ty), encode v)).Holds S V lo k (f.set x v) := by
  refine ⟨fun y hy => ?_, h.tag_inj, fun t ht => ?_⟩
  · by_cases hyx : y = x
    · subst hyx
      exact ⟨tag, v, htag, hty, if_pos rfl, set_self⟩
    · obtain ⟨tag', v', htag', hty', hv', hρ⟩ := h.value y hy
      refine ⟨tag', v', htag', hty', (if_neg hyx).trans hv', ?_⟩
      rw [set_of_ne, hρ]
      intro htt
      cases htt
      exact hyx (h.tag_inj y hy x hx (htag'.trans htag.symm))
  · rcases isSome_set_iff.1 ht with rfl | ht
    · exact ⟨Nat.zero_le _, h.tag_lt hx htag⟩
    · exact h.below t ht

end Holds

/-! ## What a store adds -/

namespace Extends

theorem refl (ρ : Store) (lo hi k k' : Nat) : ρ.Extends ρ lo hi k k' :=
  ⟨fun _ h => h, fun _ h => .inl h⟩

theorem mono {hi' k₁ k₁' : Nat} (h : ρ'.Extends ρ lo hi k k') (hlo : lo' ≤ lo) (hhi : hi ≤ hi')
    (hk : k₁ ≤ k) (hk' : k' ≤ k₁') : ρ'.Extends ρ lo' hi' k₁ k₁' :=
  ⟨h.declared, fun t ht => (h.added t ht).imp_right fun h => h.mono hlo hhi hk hk'⟩

theorem trans (h : ρ₁.Extends ρ lo hi k k') (h' : ρ₂.Extends ρ₁ lo hi k k') :
    ρ₂.Extends ρ lo hi k k' := by
  refine ⟨fun t ht => h'.declared t (h.declared t ht), fun t ht => ?_⟩
  rcases h'.added t ht with ht | ht
  · exact h.added t ht
  · exact .inr ht

theorem set (h : ρ'.Extends ρ lo hi k k') (ht : (ρ' t).isSome ∨ t.Within lo hi k k') :
    (ρ'.set t c).Extends ρ lo hi k k' := by
  refine ⟨fun u hu => isSome_set_iff.2 (.inr (h.declared u hu)), fun u hu => ?_⟩
  rcases isSome_set_iff.1 hu with rfl | hu
  · rcases ht with ht | ht
    · exact h.added u ht
    · exact .inr ht
  · exact h.added u hu

/-- A block leaves nothing behind that is declared in it. -/
theorem leave (h : ρ₁.Extends ρ lo hi k k') (h' : ∀ t, (ρ₁ t).isSome → (ρ₂ t).isSome) :
    (ρ₂.leave ρ₁).Extends ρ lo hi k k' := by
  refine ⟨fun t ht => ?_, fun t ht => h.added t (isSome_of_isSome_leave ht)⟩
  have ht := h.declared t ht
  rw [leave_eq ht]
  exact h' t ht

end Extends

/-! ## What a store keeps -/

namespace Keeps

theorem refl (ρ : Store) (S : Symbols) (V : List SymbolId) (all : Bool) : ρ.Keeps ρ S V all :=
  fun _ _ h _ => h

theorem mono (h : ρ.Keeps ρ' S V all) (hall : all' = true → all = true) : ρ.Keeps ρ' S V all' :=
  fun t v ht ht' => h t v ht (ht'.imp_left hall)

/-- More variables may be excepted. -/
theorem subset (h : ρ.Keeps ρ' S V all) (hV : V ⊆ V₁) : ρ.Keeps ρ' S V₁ all := by
  refine fun t v ht ht' => h t v ht (ht'.imp_right fun hnot => ?_)
  rintro ⟨x, hx, hx'⟩
  exact hnot ⟨x, hV hx, hx'⟩

/-- Variables that become visible in between are none of those that were declared before. -/
theorem trans (hρ : ρ.Holds S V lo k f) (hV : ∀ x ∈ V₁, x ∈ V ∨ TagWithin S lo hi x)
    (h : ρ.Keeps ρ₁ S V all) (h' : ρ₁.Keeps ρ₂ S V₁ all') : ρ.Keeps ρ₂ S V (all && all') := by
  intro t v ht ht'
  refine h' t v (h t v ht (ht'.imp_left fun h => (Bool.and_eq_true_iff.1 h).1)) ?_
  refine ht'.imp (fun h => (Bool.and_eq_true_iff.1 h).2) fun hnot => ?_
  rintro ⟨x, hx, tag, htag, rfl⟩
  rcases hV x hx with hx | ⟨j, hj, hlo, -⟩
  · exact hnot ⟨x, hx, tag, htag, rfl⟩
  · obtain rfl : tag = ⟨j⟩ := Option.some.inj (htag.symm.trans hj)
    have := hρ.below _ (by rw [ht, Option.isSome_some])
    exact Nat.not_lt.2 hlo this.2

/-- A temporary that was not declared may be set. -/
theorem set (h : ρ.Keeps ρ' S V all) (ht : ρ t = none) : ρ.Keeps (ρ'.set t c) S V all := by
  intro u v hu hu'
  rw [set_of_ne]
  · exact h u v hu hu'
  · rintro rfl
    rw [ht] at hu
    cases hu

theorem leave (h : ρ.Keeps ρ₂ S V all) (h' : ρ₁.Extends ρ lo hi k k') :
    ρ.Keeps (ρ₂.leave ρ₁) S V all := by
  intro t v ht ht'
  rw [leave_eq (h'.declared t (by rw [ht, Option.isSome_some]))]
  exact h t v ht ht'

end Keeps

end

end Store

end CalcLang.C
