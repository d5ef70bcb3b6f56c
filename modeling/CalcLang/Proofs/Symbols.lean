import CalcLang.Package

/-!
# Records on symbols

What `Symbols.setTy` and `Symbols.setTag` change: one entry of the table, and of that entry the
type or the tag.
-/

namespace CalcLang

namespace Symbols

variable (s : Symbols) (x y : SymbolId) (ty : Option Ty) (tag : Tag)

@[simp]
theorem size_setTy : (s.setTy x ty).size = s.size := by
  simp [setTy]

@[simp]
theorem size_setTag : (s.setTag x tag).size = s.size := by
  simp [setTag]

theorem get?_setTy : (s.setTy x ty).get? y =
    if y = x then (s.get? y).map fun e => { e with ty := ty } else s.get? y := by
  obtain ⟨i⟩ := x
  obtain ⟨j⟩ := y
  simp only [get?, setTy, Array.getElem?_modify, SymbolId.mk.injEq, eq_comm]

theorem get?_setTag : (s.setTag x tag).get? y =
    if y = x then (s.get? y).map fun e => { e with tag := some tag } else s.get? y := by
  obtain ⟨i⟩ := x
  obtain ⟨j⟩ := y
  simp only [get?, setTag, Array.getElem?_modify, SymbolId.mk.injEq, eq_comm]

variable {s x y}

theorem get?_setTy_of_ne (h : y ≠ x) : (s.setTy x ty).get? y = s.get? y := by
  rw [get?_setTy, if_neg h]

theorem get?_setTag_of_ne (h : y ≠ x) : (s.setTag x tag).get? y = s.get? y := by
  rw [get?_setTag, if_neg h]

theorem ty_setTy_of_ne (h : y ≠ x) : (s.setTy x ty).ty y = s.ty y := by
  rw [Symbols.ty, get?_setTy_of_ne ty h, Symbols.ty]

theorem ty_setTy_self (h : x.index < s.size) : (s.setTy x ty).ty x = ty := by
  rw [Symbols.ty, get?_setTy, if_pos rfl, get?, Array.getElem?_eq_getElem h]
  rfl

theorem tag_setTag_self (h : x.index < s.size) : (s.setTag x tag).tag x = some tag := by
  rw [Symbols.tag, get?_setTag, if_pos rfl, get?, Array.getElem?_eq_getElem h]
  rfl

@[simp]
theorem ty_setTag : (s.setTag x tag).ty y = s.ty y := by
  rw [Symbols.ty, get?_setTag, Symbols.ty]
  split
  · rw [Option.bind_map]
    rfl
  · rfl

end Symbols

end CalcLang
