import CalcLang.Proofs.C.Execution
import CalcLang.Proofs.Evaluation

/-!
# Values and operators in C

Where an operator of the language gives a value, the C operator that is generated for it is defined
on the encoded operands and gives the encoded value (`binary_encode`, `unary_encode`). A logical
operation that C decides by its left operand alone is one that `Evaluation.decides`.
-/

namespace CalcLang.C

/-! ## Values -/

@[simp]
theorem val_ofBool_ne_zero (b : Bool) : (ofBool b).val ≠ 0 ↔ b = true := by
  cases b <;> decide

/-- A value fits into the C type of its type. -/
theorem convert_encode (v : Value) : (CType.ofTy (some v.ty)).convert (encode v) = encode v := by
  cases v with
  | int w => rfl
  | bool b => cases b <;> rfl

/-! ## Operators -/

theorem word_eq_ok {n : Int} {v : Value} (h : Evaluation.word n = .ok v) :
    ∃ w, Word.ofInt? n = some w ∧ v = .int w := by
  unfold Evaluation.word at h
  split at h
  · next w hw => exact ⟨w, hw, (Except.ok.inj h).symm⟩
  · cases h

theorem binary_int {op : BinaryOp} {a b : Word} {v : Value}
    (h : Evaluation.onInts op a.val b.val = .ok v) : binary op a b = some (encode v) := by
  cases op <;> simp only [Evaluation.onInts] at h <;> simp only [binary]
  case add | sub | mul =>
    obtain ⟨w, hw, rfl⟩ := word_eq_ok h
    exact hw
  case div =>
    split at h
    · cases h
    · next hb =>
      obtain ⟨w, hw, rfl⟩ := word_eq_ok h
      rw [if_neg hb]
      exact hw
  case rem =>
    split at h
    · cases h
    · next hb =>
      cases hq : Evaluation.word (a.val.tdiv b.val) with
      | error reason =>
        rw [hq] at h
        cases h
      | ok q =>
        rw [hq] at h
        obtain ⟨w, hw, -⟩ := word_eq_ok hq
        obtain ⟨w', hw', rfl⟩ := word_eq_ok h
        rw [if_neg hb, hw, Option.bind_some, Word.ofInt?_eq_some_iff.1 hw]
        exact hw'
  case and | or => cases h
  all_goals
    cases h
    rfl

theorem binary_bool {op : BinaryOp} {a b : Bool} {v : Value}
    (h : Evaluation.onBools op a b = .ok v) :
    binary op (ofBool a) (ofBool b) = some (encode v) := by
  cases op <;> cases h <;> cases a <;> cases b <;> decide

theorem binary_encode {op : BinaryOp} {a b v : Value} (h : Evaluation.binary op a b = .ok v) :
    binary op (encode a) (encode b) = some (encode v) := by
  cases a <;> cases b
  · exact binary_int h
  · cases h
  · cases h
  · exact binary_bool h

theorem unary_encode {op : UnaryOp} {a v : Value} (h : Evaluation.unary op a = .ok v) :
    unary op (encode a) = some (encode v) := by
  cases op <;> cases a
  case neg.int =>
    obtain ⟨w, hw, rfl⟩ := word_eq_ok h
    exact hw
  case not.bool b =>
    cases h
    cases b <;> decide
  all_goals cases h

/-- Where the left operand decides, C does not go on to the right one. -/
theorem shortcut?_of_decides {op : BinaryOp} {a b v : Value}
    (h : Evaluation.binary op a b = .ok v) (hd : Evaluation.decides op a = true) :
    shortcut? op (encode a) = some (encode v) := by
  cases a with
  | int a => cases op <;> cases hd
  | bool a =>
    cases b with
    | int b => cases h
    | bool b => cases op <;> cases a <;> cases hd <;> cases h <;> cases b <;> decide

theorem shortcut?_of_not_decides {op : BinaryOp} {a b v : Value}
    (h : Evaluation.binary op a b = .ok v) (hd : Evaluation.decides op a = false) :
    shortcut? op (encode a) = none := by
  cases a with
  | int a =>
    cases b with
    | int b => cases op <;> first | rfl | cases h
    | bool b => cases h
  | bool a => cases op <;> cases a <;> first | rfl | cases hd

theorem sequenced_of_decides {op : BinaryOp} {a : Value} (h : Evaluation.decides op a = true) :
    sequenced op = true := by
  cases op <;> cases a <;> first | rfl | cases h

end CalcLang.C
