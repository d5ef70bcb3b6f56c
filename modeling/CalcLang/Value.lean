import CalcLang.Operator
import CalcLang.Word

/-!
# Values

What an expression evaluates to, and the operators on values. An operator gives no value where
its operands have the wrong types and where the operation is undefined at run time: a result
that does not fit into a word, or a zero divisor.
-/

namespace CalcLang

/-- A value of the language. -/
inductive Value
  | int (w : Word)
  | bool (b : Bool)
  deriving DecidableEq, Repr, Inhabited

namespace Value

/-- The type of a value. -/
def ty : Value → Ty
  | int _ => .int
  | bool _ => .bool

/-- The text of a value in source texts. -/
def text : Value → String
  | int w => w.text
  | bool true => "true"
  | bool false => "false"

/-- The integer value `n`, if it fits into a word. -/
def ofInt? (n : Int) : Option Value := (Word.ofInt? n).map int

/-- The integer value that `f` gives for a nonzero divisor, if the quotient fits into a word. -/
def divided? (a b : Word) (f : Int → Int → Int) : Option Value :=
  if b.val = 0 then none
  else (ofInt? (a.val.tdiv b.val)).bind fun _ => ofInt? (f a.val b.val)

/-- An operator on two integers. Division truncates toward zero, and the remainder has the sign
of the dividend; it is undefined where the quotient is. -/
def binaryInt (op : BinaryOp) (a b : Word) : Option Value :=
  match op with
  | .add => ofInt? (a.val + b.val)
  | .sub => ofInt? (a.val - b.val)
  | .mul => ofInt? (a.val * b.val)
  | .div => divided? a b Int.tdiv
  | .rem => divided? a b Int.tmod
  | .eq => some (bool (a.val == b.val))
  | .ne => some (bool (a.val != b.val))
  | .lt => some (bool (decide (a.val < b.val)))
  | .le => some (bool (decide (a.val ≤ b.val)))
  | .gt => some (bool (decide (b.val < a.val)))
  | .ge => some (bool (decide (b.val ≤ a.val)))
  | .and | .or => none

/-- An operator on two booleans. -/
def binaryBool (op : BinaryOp) (a b : Bool) : Option Value :=
  match op with
  | .eq => some (bool (a == b))
  | .ne => some (bool (a != b))
  | .and => some (bool (a && b))
  | .or => some (bool (a || b))
  | _ => none

/-- A binary operator on two values. -/
def binary (op : BinaryOp) : Value → Value → Option Value
  | int a, int b => binaryInt op a b
  | bool a, bool b => binaryBool op a b
  | _, _ => none

/-- A unary operator on a value. -/
def unary : UnaryOp → Value → Option Value
  | .neg, int a => ofInt? (-a.val)
  | .not, bool b => some (bool !b)
  | _, _ => none

theorem ty_ofInt? {n : Int} {v : Value} (h : ofInt? n = some v) : v.ty = .int := by
  simp only [ofInt?, Option.map_eq_some_iff] at h
  obtain ⟨w, -, rfl⟩ := h
  rfl

theorem ty_divided? {a b : Word} {f : Int → Int → Int} {v : Value}
    (h : divided? a b f = some v) : v.ty = .int := by
  unfold divided? at h
  split at h
  · cases h
  · obtain ⟨_, _, h⟩ := Option.bind_eq_some_iff.1 h
    exact ty_ofInt? h

theorem ty_binary {op : BinaryOp} {a b v : Value} (h : binary op a b = some v) :
    v.ty = op.result := by
  cases a <;> cases b <;> cases op <;>
    simp only [binary, binaryInt, binaryBool, reduceCtorEq, Option.some.injEq] at h <;>
    first | exact ty_ofInt? h | exact ty_divided? h | (subst h; rfl)

theorem ty_unary {op : UnaryOp} {a v : Value} (h : unary op a = some v) : v.ty = op.operand := by
  cases a <;> cases op <;>
    simp only [unary, reduceCtorEq, Option.some.injEq] at h <;>
    first | exact ty_ofInt? h | (subst h; rfl)

end Value

end CalcLang
