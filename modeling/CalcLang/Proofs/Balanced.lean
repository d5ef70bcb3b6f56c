import CalcLang.Form

/-!
# Balanced forms

The parentheses of a balanced form match, so reading its tokens gives the form again, whatever
stands before and behind it (`foldr_step_flatten`). Tokens that open nothing are read as they
stand. So the forms of a text are known once its tokens are divided into balanced forms and other
tokens (`forms_foldr_flatten`, `forms_step_atom`).

Conversely no closing parenthesis stands inside a form that is read from tokens
(`nested_of_mem_ofTokens`).
-/

namespace CalcLang

namespace Form

mutual

/-- Every parenthesis of a form opens or closes a list of it. -/
def Balanced : Form → Prop
  | atom t => t.kind ≠ .leftParen ∧ t.kind ≠ .rightParen ∧ t.kind ≠ .eof
  | list opening items closing =>
    opening.kind = .leftParen ∧ AllBalanced items ∧ closing.kind = .rightParen

/-- Every form of a list is balanced. -/
def AllBalanced : List Form → Prop
  | [] => True
  | f :: fs => f.Balanced ∧ AllBalanced fs

end

theorem allBalanced_iff {fs : List Form} : AllBalanced fs ↔ ∀ f ∈ fs, f.Balanced := by
  induction fs with
  | nil => simp [AllBalanced]
  | cons f fs ih => simp [AllBalanced, ih]

/-! ## Reading balanced forms -/

namespace Reading

/-- Forms that stand first are read first. -/
theorem forms_append (fs : List Form) (r : Reading) :
    forms { r with current := fs ++ r.current } = fs ++ r.forms := by
  obtain ⟨current, levels, eof⟩ := r
  simp only [forms]
  induction levels generalizing current with
  | nil => rfl
  | cons level levels ih =>
    rw [List.foldl_cons, List.foldl_cons, List.append_assoc, ih]

/-- A token that opens no list is read as it stands. -/
theorem forms_step_atom {t : Token} (hopen : t.kind ≠ .leftParen) (heof : t.kind ≠ .eof)
    (r : Reading) : (step t r).forms = .atom t :: r.forms := by
  unfold step
  split
  · exact absurd ‹_› heof
  · exact forms_append [.atom t] r
  · exact absurd ‹_› hopen
  · exact forms_append [.atom t] r

end Reading

mutual

/-- The tokens of a balanced form are read as the form. -/
theorem foldr_step_flatten : ∀ {f : Form}, f.Balanced → ∀ r : Reading,
    f.flatten.foldr Reading.step r = { r with current := f :: r.current }
  | .atom t, ⟨hopen, hclose, heof⟩, r => by
    rw [flatten, List.foldr_cons, List.foldr_nil]
    unfold Reading.step
    split
    · exact absurd ‹_› heof
    · exact absurd ‹_› hclose
    · exact absurd ‹_› hopen
    · rfl
  | .list opening items closing, ⟨hopening, hitems, hclosing⟩, r => by
    have hclose : Reading.step closing r =
        { r with current := [], levels := ⟨closing, r.current⟩ :: r.levels } := by
      rw [Reading.step, hclosing]
    rw [flatten, hclosing, if_neg (by decide), List.foldr_cons, List.foldr_append, List.foldr_cons,
      List.foldr_nil, hclose, foldr_step_flattenAll hitems, Reading.step, hopening]
    simp

/-- The tokens of balanced forms are read as the forms. -/
theorem foldr_step_flattenAll : ∀ {fs : List Form}, AllBalanced fs → ∀ r : Reading,
    (flattenAll fs).foldr Reading.step r = { r with current := fs ++ r.current }
  | [], _, _ => rfl
  | f :: fs, ⟨hf, hfs⟩, r => by
    rw [flattenAll, List.foldr_append, foldr_step_flattenAll hfs, foldr_step_flatten hf]
    rfl

end

/-- The tokens of a balanced form are read as the form, whatever follows. -/
theorem forms_foldr_flatten {f : Form} (hf : f.Balanced) (r : Reading) :
    (f.flatten.foldr Reading.step r).forms = f :: r.forms := by
  rw [foldr_step_flatten hf]
  exact Reading.forms_append [f] r

/-- Balanced forms are the forms of their tokens. -/
theorem ofTokens_flattenAll {fs : List Form} (hfs : AllBalanced fs) (eof : Token)
    (heof : eof.kind = .eof) : ofTokens (flattenAll fs ++ [eof]) = fs := by
  rw [ofTokens, List.foldr_append, foldr_step_flattenAll hfs, Reading.forms_append, List.foldr_cons,
    List.foldr_nil, Reading.step, heof]
  exact List.append_nil fs

/-! ## Forms that are read -/

mutual

/-- No closing parenthesis stands inside a form. -/
def Nested : Form → Prop
  | atom t => t.kind ≠ .rightParen
  | list opening items _ => opening.kind = .leftParen ∧ AllNested items

/-- Every form of a list is nested. -/
def AllNested : List Form → Prop
  | [] => True
  | f :: fs => f.Nested ∧ AllNested fs

end

/-- What stands behind a closing parenthesis is nested. -/
def Reading.Nested (r : Reading) : Prop :=
  AllNested r.current ∧ ∀ level ∈ r.levels, AllNested level.after

theorem Reading.Nested.step {r : Reading} (h : r.Nested) (t : Token) : (r.step t).Nested := by
  obtain ⟨hcurrent, hlevels⟩ := h
  unfold Reading.step
  split
  · exact ⟨trivial, by simp [Reading.start]⟩
  · refine ⟨trivial, fun level hlevel => ?_⟩
    rcases List.mem_cons.1 hlevel with rfl | hlevel
    · exact hcurrent
    · exact hlevels level hlevel
  · next hopen =>
    split
    · next hnil => exact ⟨⟨⟨hopen, hcurrent⟩, trivial⟩, by simp [hnil]⟩
    · next level levels hcons =>
      rw [hcons] at hlevels
      exact ⟨⟨⟨hopen, hcurrent⟩, hlevels level (by simp)⟩, fun l hl => hlevels l (by simp [hl])⟩
  · next hclose _ => exact ⟨⟨hclose, hcurrent⟩, hlevels⟩

theorem Reading.nested_foldr_step (ts : List Token) {r : Reading} (h : r.Nested) :
    (ts.foldr Reading.step r).Nested := by
  induction ts with
  | nil => exact h
  | cons t ts ih => exact ih.step t

theorem nested_of_mem {fs : List Form} (h : AllNested fs) {f : Form} (hf : f ∈ fs) :
    f.Nested := by
  induction fs with
  | nil => cases hf
  | cons g fs ih =>
    rcases List.mem_cons.1 hf with rfl | hf
    · exact h.1
    · exact ih h.2 hf

/-- The lists of a nested reading are nested. The tokens between its levels are not, but they are no
lists. -/
theorem Reading.Nested.of_mem_forms {r : Reading} (h : r.Nested) {opening closing : Token}
    {items : List Form} (hmem : .list opening items closing ∈ r.forms) :
    (list opening items closing).Nested := by
  have hforms : ∀ (levels : List Level) (current : List Form),
      (∀ level ∈ levels, AllNested level.after) →
      (.list opening items closing ∈ current → (list opening items closing).Nested) →
      .list opening items closing ∈
        levels.foldl (fun forms level => forms ++ .atom level.closing :: level.after) current →
      (list opening items closing).Nested := by
    intro levels
    induction levels with
    | nil => exact fun current _ hcurrent hmem => hcurrent hmem
    | cons level levels ih =>
      intro current hlevels hcurrent hmem
      refine ih _ (fun l hl => hlevels l (by simp [hl])) (fun hmem => ?_) hmem
      rcases List.mem_append.1 hmem with hmem | hmem
      · exact hcurrent hmem
      · rcases List.mem_cons.1 hmem with heq | hmem
        · cases heq
        · exact nested_of_mem (hlevels level (by simp)) hmem
  exact hforms _ _ h.2 (nested_of_mem h.1) hmem

/-- A list that is read from tokens is nested. -/
theorem nested_of_mem_ofTokens {ts : List Token} {opening closing : Token} {items : List Form}
    (h : .list opening items closing ∈ ofTokens ts) : (list opening items closing).Nested := by
  have hstart : (Reading.start ⟨.eof, ⟨0, 0⟩, ""⟩).Nested := ⟨trivial, by simp [Reading.start]⟩
  exact (Reading.nested_foldr_step ts hstart).of_mem_forms h

end Form

end CalcLang
