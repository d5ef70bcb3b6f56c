/-!
# Stages of a package

A package of declarations is first built from its parsed files, then type checked, then
(optionally) folded, then numbered with tags. `Stage` records how far it has come; the
operations on packages state the stages they accept through `Stage.rank`.
-/

namespace CalcLang

/-- How far a package has come on its way to generated code. -/
inductive Stage
  /-- Names are resolved, types are not known yet. -/
  | built
  /-- Every node carries its type. -/
  | checked
  /-- Constant operator nodes have been replaced by their values. -/
  | folded
  /-- Every value that needs a named temporary carries its number. -/
  | tagged
  deriving DecidableEq, Repr, Inhabited

namespace Stage

/-- The place of a stage in the order in which a package passes through them. -/
def rank : Stage → Nat
  | built => 0
  | checked => 1
  | folded => 2
  | tagged => 3

/-- The name of a stage in messages. -/
def name : Stage → String
  | built => "Built"
  | checked => "Checked"
  | folded => "Folded"
  | tagged => "Tagged"

/-- A package at stage `s` has been type checked. -/
def IsChecked (s : Stage) : Prop := checked.rank ≤ s.rank

instance (s : Stage) : Decidable s.IsChecked := inferInstanceAs (Decidable (_ ≤ _))

/-- A package at stage `s` may be folded: it is checked and carries no tags. -/
def IsFoldable (s : Stage) : Prop := s = checked ∨ s = folded

instance (s : Stage) : Decidable s.IsFoldable := inferInstanceAs (Decidable (_ ∨ _))

theorem isChecked_checked : checked.IsChecked := by decide

theorem isChecked_folded : folded.IsChecked := by decide

theorem IsFoldable.of_eq_checked {s : Stage} (h : s = checked) : s.IsFoldable := .inl h

theorem IsFoldable.isChecked {s : Stage} (h : s.IsFoldable) : s.IsChecked := by
  rcases h with rfl | rfl <;> decide

end Stage

end CalcLang
