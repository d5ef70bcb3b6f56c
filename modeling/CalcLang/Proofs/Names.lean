import CalcLang.Proofs.Scanning
import CalcLang.Proofs.Solid

/-!
# Names in source texts

The names of the declarations of a source text are made of ASCII letters, digits and underscores
(`Parse.isName_of_mem_decls`), so they can go into identifiers of C. A tree put together by hand may
have other names.
-/

namespace CalcLang

/-- What the scanner takes for a name, keywords aside. -/
def IsName (name : String) : Prop :=
  ∃ c cs, name = String.ofList (c :: cs) ∧ Token.isNameStart c ∧ ∀ d ∈ cs, Token.isNameChar d

theorem IsName.isNameChar {name : String} (h : IsName name) :
    ∀ c ∈ name.toList, Token.isNameChar c := by
  obtain ⟨c, cs, rfl, hc, hcs⟩ := h
  intro d hd
  rw [String.toList_ofList] at hd
  rcases List.mem_cons.1 hd with rfl | hd
  · exact Token.isNameChar_of_isNameStart hc
  · exact hcs d hd

namespace Token

/-- A token that is a name starts as one and goes on as one. -/
theorem munch_eq_name {c : Char} {cs : List Char} (h : (munch c cs).kind = .ident) :
    isNameStart c ∧ munch c cs = .name c cs := by
  fun_cases munch c cs
  case case17 _ hc => exact ⟨hc, rfl⟩
  all_goals exfalso
  all_goals simp_all only [munch, if_true]
  all_goals first
    | exact Munch.kind_number_ne (by decide) (by decide) cs h
    | exact Munch.kind_either_ne (by decide) (by decide) _ cs h
    | cases h

theorem isName_of_munch {c : Char} {cs : List Char} (h : (munch c cs).kind = .ident) :
    IsName (String.ofList (c :: (munch c cs).taken)) := by
  obtain ⟨hc, heq⟩ := munch_eq_name h
  rw [heq]
  exact ⟨c, _, rfl, hc, List.all_eq_true.1 List.all_takeWhile⟩

/-- The tokens of a text that are names. -/
theorem isName_of_mem_scan {text : String} {t : Token} (ht : t ∈ scan text)
    (hk : t.kind = .ident) : IsName t.text := by
  unfold scan at ht
  generalize 0 = offset, text.toList = cs at ht
  induction offset, cs using scanFrom.induct with
  | case1 offset =>
    rw [scanFrom] at ht
    obtain rfl := List.mem_singleton.1 ht
    cases hk
  | case2 offset c cs hblank ih =>
    rw [scanFrom, if_pos hblank] at ht
    exact ih ht
  | case3 offset c cs hblank m stop ih =>
    rw [scanFrom, if_neg hblank] at ht
    rcases List.mem_cons.1 ht with rfl | ht
    · exact isName_of_munch hk
    · exact ih ht

end Token

namespace Parse

variable {file : FileId}

/-- The tokens of a form stand side by side among those of the forms around it. -/
theorem isInfix_flatten {f : Form} {fs : List Form} (h : f ∈ fs) :
    f.flatten <:+: Form.flattenAll fs := by
  induction fs with
  | nil => cases h
  | cons g fs ih =>
    rw [Form.flattenAll]
    rcases List.mem_cons.1 h with rfl | h
    · exact (List.prefix_append ..).isInfix
    · exact (ih h).trans (List.suffix_append ..).isInfix

theorem form_mem_of_mem_formItems {item : Item} {fs : List Form} (h : item ∈ formItems file fs) :
    item.form ∈ fs := by
  induction fs with
  | nil => cases h
  | cons f fs ih =>
    rw [formItems] at h
    rcases List.mem_cons.1 h with rfl | h
    · exact List.mem_cons_self
    · exact List.mem_cons_of_mem _ (ih h)

theorem ident_eq_ok {closing : Token} {items rest : List Item} {name : Ident}
    (h : ident file closing items = .ok (name, rest)) :
    ∃ item ∈ items, ∃ t, item.form = .atom t ∧ t.kind = .ident ∧ name.name = t.text := by
  unfold ident at h
  split at h
  · split at h
    · next hk =>
      cases h
      exact ⟨_, List.mem_cons_self, _, rfl, hk, rfl⟩
    · cases h
  · cases h

theorem decl_eq_ok {opening closing : Token} {items : List Item} {d : Decl}
    (h : decl file opening closing items = .ok d) :
    ∃ item ∈ items, ∃ t, item.form = .atom t ∧ t.kind = .ident ∧ d.name.name = t.text := by
  unfold decl at h
  split at h
  · split at h
    · cases h
    · obtain ⟨⟨name, items₁⟩, hi, h⟩ := bind_eq_ok_iff.1 h
      obtain ⟨⟨ps, items₂⟩, -, h⟩ := bind_eq_ok_iff.1 h
      obtain ⟨⟨ret, items₃⟩, -, h⟩ := bind_eq_ok_iff.1 h
      obtain ⟨⟨body, items₄⟩, -, h⟩ := bind_eq_ok_iff.1 h
      obtain ⟨_, -, h⟩ := bind_eq_ok_iff.1 h
      cases h
      obtain ⟨item, hitem, t, ht⟩ := ident_eq_ok hi
      exact ⟨item, List.mem_cons_of_mem _ hitem, t, ht⟩
  · cases h

theorem topLevel_ok {inRun : Bool} {fs : List Form} {d : Decl}
    (h : .ok d ∈ topLevel file inRun fs) :
    ∃ opening items closing, .list opening items closing ∈ fs ∧
      decl file opening closing (formItems file items) = .ok d := by
  induction fs generalizing inRun with
  | nil => simp [topLevel] at h
  | cons f fs ih =>
    cases f with
    | atom t =>
      have htail : ∃ inRun', .ok d ∈ topLevel file inRun' fs := by
        rw [topLevel] at h
        split at h
        · exact ⟨_, h⟩
        · rcases List.mem_cons.1 h with h | h
          · cases h
          · exact ⟨_, h⟩
      obtain ⟨inRun', h⟩ := htail
      obtain ⟨opening, items, closing, hmem, hd⟩ := ih h
      exact ⟨opening, items, closing, List.mem_cons_of_mem _ hmem, hd⟩
    | list opening items closing =>
      rw [topLevel] at h
      rcases List.mem_cons.1 h with h | h
      · exact ⟨opening, items, closing, List.mem_cons_self, h.symm⟩
      · obtain ⟨opening', items', closing', hmem, hd⟩ := ih h
        exact ⟨opening', items', closing', List.mem_cons_of_mem _ hmem, hd⟩

/-- **The declarations of a source text have names.** -/
theorem isName_of_mem_decls {text : String} {d : Decl} (h : d ∈ (Parse.ofText file text).decls) :
    IsName d.name.name := by
  obtain ⟨r, hr, hd⟩ := List.mem_filterMap.1 h
  cases r with
  | error e => cases hd
  | ok d' =>
    cases hd
    obtain ⟨opening, items, closing, hlist, hdecl⟩ := topLevel_ok hr
    obtain ⟨item, hitem, t, hform, hk, hname⟩ := decl_eq_ok hdecl
    have hatom : t ∈ Form.flattenAll items :=
      (isInfix_flatten (form_mem_of_mem_formItems hitem)).subset
        (by rw [hform]; simp [Form.flatten])
    have htop := (isInfix_flatten hlist).subset (a := t) (by
      rw [Form.flatten]
      exact List.mem_cons_of_mem _ (List.mem_append_left _ hatom))
    rw [Form.flatten_ofTokens] at htop
    have hscan := (List.mem_filter.1 (List.takeWhile_subset _ htop)).1
    rw [hname]
    exact Token.isName_of_mem_scan hscan hk

end Parse

end CalcLang
