import CalcLang.Package.Resolution
import CalcLang.Package.Typing
import CalcLang.Proofs.Run

/-!
# Evaluation

The meaning of packages. Operands, arguments and the elements of blocks are evaluated strictly from
left to right, `&&` and `||` evaluate both of their operands, every call runs in a frame of its
own, an `if` without a second branch gives the zero of its type when its test fails, a variable
without an initial value starts as the zero of its type, and an assignment gives the value
assigned.

Arithmetic is that of the integers with a check that the result fits into 32 bits
(`Evaluation.onInts`); it does not go through the operators that folding uses. An evaluation that
does not give a value says why: it traps on an overflow or a zero divisor, it nests calls deeper
than it may (`Package.invoke` has a bound), or it is stuck where the language says nothing.
-/

namespace CalcLang

namespace Evaluation

/-- Why an evaluation gives no value. -/
inductive Halt
  /-- An overflow or a zero divisor. -/
  | trap
  /-- More nested calls than allowed. -/
  | tooDeep
  /-- An operand of a wrong type, a variable that has not been introduced, a call that fits no
  declaration, an empty block or a form that could not be resolved. -/
  | stuck
  deriving DecidableEq, Repr

/-- What can be seen of an evaluation. -/
inductive Event
  | call (callee : DeclId) (args : List Value)
  /-- A variable is introduced with a value. -/
  | introduce (symbol : SymbolId) (value : Value)
  | assign (symbol : SymbolId) (value : Value)
  /-- The left operand of a logical operation alone decides its value. The right operand has been
  evaluated all the same. -/
  | decided (right : Node)

/-- An evaluation that may give an `α`. -/
abbrev Eval (α : Type) := Run Event Halt α

/-! ## Operators -/

/-- The value of an exact result, which traps if it does not fit into a word. -/
def word (n : Int) : Except Halt Value :=
  match Word.ofInt? n with
  | some w => .ok (.int w)
  | none => .error .trap

/-- An operator on two integers. A quotient is truncated toward zero. -/
def onInts (op : BinaryOp) (a b : Int) : Except Halt Value :=
  match op with
  | .add => word (a + b)
  | .sub => word (a - b)
  | .mul => word (a * b)
  | .div => if b = 0 then .error .trap else word (a.tdiv b)
  -- A remainder overflows where the quotient does, which it is computed from.
  | .rem => if b = 0 then .error .trap else (word (a.tdiv b)).bind fun _ => word (a - b * a.tdiv b)
  | .eq => .ok (.bool (a = b))
  | .ne => .ok (.bool (a ≠ b))
  | .lt => .ok (.bool (a < b))
  | .le => .ok (.bool (a ≤ b))
  | .gt => .ok (.bool (b < a))
  | .ge => .ok (.bool (b ≤ a))
  | .and | .or => .error .stuck

/-- An operator on two booleans. -/
def onBools (op : BinaryOp) (a b : Bool) : Except Halt Value :=
  match op with
  | .eq => .ok (.bool (a = b))
  | .ne => .ok (.bool (a ≠ b))
  | .and => .ok (.bool (a ∧ b))
  | .or => .ok (.bool (a ∨ b))
  | _ => .error .stuck

/-- A binary operator on two values. -/
def binary (op : BinaryOp) : Value → Value → Except Halt Value
  | .int a, .int b => onInts op a.val b.val
  | .bool a, .bool b => onBools op a b
  | _, _ => .error .stuck

/-- A unary operator on a value. -/
def unary : UnaryOp → Value → Except Halt Value
  | .neg, .int a => word (-a.val)
  | .not, .bool b => .ok (.bool (¬ b))
  | _, _ => .error .stuck

/-- Whether the left operand of an operation alone decides its value. -/
def decides : BinaryOp → Value → Bool
  | .and, .bool a => !a
  | .or, .bool a => a
  | _, _ => false

/-- What is seen of a logical operation that its left operand decides. -/
def shortcut (op : BinaryOp) (left : Value) (right : Node) : List Event :=
  if decides op left then [.decided right] else []

/-- The truth value of a test. -/
def truth : Value → Eval Bool
  | .bool b => pure b
  | .int _ => .fail .stuck

/-- The value of a variable that nothing has been assigned to. -/
def zero : Ty → Value
  | .int => .int .zero
  | .bool => .bool false

theorem ty_zero (τ : Ty) : (zero τ).ty = τ := by
  cases τ <;> rfl

/-! ## Nodes -/

/-- The values of the variables that a call has introduced so far. -/
abbrev Frame := SymbolId → Option Value

/-- Gives a variable a value. -/
def Frame.set (f : Frame) (symbol : SymbolId) (value : Value) : Frame :=
  fun x => if x = symbol then some value else f x

/-- The frame that a call starts in. -/
def Frame.ofArgs (params : List SymbolId) (args : List Value) : Frame :=
  fun x => (params.zip args).lookup x

/-- The value of an operation. -/
def outcome (r : Except Halt Value) : Eval Value := ⟨[], r⟩

mutual

/-- Evaluates a node in a frame. Calls of declarations are made by `invoke`. -/
def eval (invoke : DeclId → List Value → Eval Value) : Node → Frame → Eval (Value × Frame)
  | .const v _, f => pure (v, f)
  | .error _, _ => .fail .stuck
  | .read _ x _ _, f => do
    let v ← .ofOption .stuck (f x)
    pure (v, f)
  | .binary op lhs rhs _ _ _, f => do
    let (a, f) ← eval invoke lhs f
    let (b, f) ← eval invoke rhs f
    .log (shortcut op a rhs)
    let v ← outcome (binary op a b)
    pure (v, f)
  | .unary op operand _ _, f => do
    let (a, f) ← eval invoke operand f
    let v ← outcome (unary op a)
    pure (v, f)
  | .call _ callee args _ _, f => do
    let (vs, f) ← evalAll invoke args f
    .log [.call callee vs]
    let v ← invoke callee vs
    pure (v, f)
  | .ifThen test _ yes ty _ _, f => do
    let (c, f) ← eval invoke test f
    if ← truth c then eval invoke yes f
    else do
      let v ← .ofOption .stuck (ty.map zero)
      pure (v, f)
  | .ifThenElse test _ yes no _ _ _, f => do
    let (c, f) ← eval invoke test f
    if ← truth c then eval invoke yes f else eval invoke no f
  | .block nodes _ _, f => do
    let (vs, f) ← evalAll invoke nodes f
    let v ← .ofOption .stuck vs.getLast?
    pure (v, f)
  | .assign _ x value _ _, f => do
    let (v, f) ← eval invoke value f
    let _ ← .ofOption .stuck (f x)
    .log [.assign x v]
    pure (v, f.set x v)
  | .declare _ x written _, f => do
    .log [.introduce x (zero written)]
    pure (zero written, f.set x (zero written))
  | .define _ x _ init _, f => do
    let (v, f) ← eval invoke init f
    .log [.introduce x v]
    pure (v, f.set x v)

/-- Evaluates nodes one after the other. -/
def evalAll (invoke : DeclId → List Value → Eval Value) :
    List Node → Frame → Eval (List Value × Frame)
  | [], f => pure ([], f)
  | node :: nodes, f => do
    let (v, f) ← eval invoke node f
    let (vs, f) ← evalAll invoke nodes f
    pure (v :: vs, f)

end

/-! ## Evaluations that give a value -/

theorem returns_outcome_iff {r : Except Halt Value} {E : List Event} {v : Value} :
    (outcome r).Returns E v ↔ E = [] ∧ r = .ok v := by
  simp [outcome, Run.Returns, eq_comm]

theorem returns_truth_iff {v : Value} {E : List Event} {b : Bool} :
    (truth v).Returns E b ↔ E = [] ∧ v = .bool b := by
  cases v <;> simp [truth]

section Inversion

variable {invoke : DeclId → List Value → Eval Value} {f f' : Frame} {E : List Event} {v : Value}
  {name : String} {x : SymbolId} {ty : Option Ty} {tag : Option Tag} {pos : Pos}

theorem eval_const_inv {w : Value} (h : (eval invoke (.const w pos) f).Returns E (v, f')) :
    v = w ∧ f' = f ∧ E = [] := by
  obtain ⟨rfl, heq⟩ := Run.returns_pure_iff.1 h
  cases heq
  exact ⟨rfl, rfl, rfl⟩

theorem eval_read_inv (h : (eval invoke (.read name x ty pos) f).Returns E (v, f')) :
    f x = some v ∧ f' = f ∧ E = [] := by
  rw [eval] at h
  obtain ⟨_, w, _, hw, h₁, rfl⟩ := Run.returns_bind_iff.1 h
  obtain ⟨rfl, hx⟩ := Run.returns_ofOption_iff.1 hw
  obtain ⟨rfl, heq⟩ := Run.returns_pure_iff.1 h₁
  cases heq
  exact ⟨hx, rfl, rfl⟩

theorem eval_binary_inv {op : BinaryOp} {lhs rhs : Node}
    (h : (eval invoke (.binary op lhs rhs ty tag pos) f).Returns E (v, f')) :
    ∃ E₁ a f₁ E₂ b, (eval invoke lhs f).Returns E₁ (a, f₁) ∧
      (eval invoke rhs f₁).Returns E₂ (b, f') ∧ binary op a b = .ok v ∧
      E = E₁ ++ E₂ ++ shortcut op a rhs := by
  rw [eval] at h
  obtain ⟨E₁, ⟨a, f₁⟩, _, hl, h₁, rfl⟩ := Run.returns_bind_iff.1 h
  obtain ⟨E₂, ⟨b, f₂⟩, _, hr, h₂, rfl⟩ := Run.returns_bind_iff.1 h₁
  obtain ⟨_, _, _, hlog, h₃, rfl⟩ := Run.returns_bind_iff.1 h₂
  obtain rfl := Run.returns_log_iff.1 hlog
  obtain ⟨_, w, _, hw, h₄, rfl⟩ := Run.returns_bind_iff.1 h₃
  obtain ⟨rfl, hv⟩ := returns_outcome_iff.1 hw
  obtain ⟨rfl, heq⟩ := Run.returns_pure_iff.1 h₄
  cases heq
  exact ⟨E₁, a, f₁, E₂, b, hl, hr, hv, by simp⟩

theorem eval_unary_inv {op : UnaryOp} {operand : Node}
    (h : (eval invoke (.unary op operand ty pos) f).Returns E (v, f')) :
    ∃ a, (eval invoke operand f).Returns E (a, f') ∧ unary op a = .ok v := by
  rw [eval] at h
  obtain ⟨E₁, ⟨a, f₁⟩, _, ho, h₁, rfl⟩ := Run.returns_bind_iff.1 h
  obtain ⟨_, w, _, hw, h₂, rfl⟩ := Run.returns_bind_iff.1 h₁
  obtain ⟨rfl, hv⟩ := returns_outcome_iff.1 hw
  obtain ⟨rfl, heq⟩ := Run.returns_pure_iff.1 h₂
  cases heq
  exact ⟨a, by simpa using ho, hv⟩

theorem eval_call_inv {callee : DeclId} {args : List Node}
    (h : (eval invoke (.call name callee args ty pos) f).Returns E (v, f')) :
    ∃ E₁ vs E₂, (evalAll invoke args f).Returns E₁ (vs, f') ∧ (invoke callee vs).Returns E₂ v ∧
      E = E₁ ++ .call callee vs :: E₂ := by
  rw [eval] at h
  obtain ⟨E₁, ⟨vs, f₁⟩, _, hargs, h₁, rfl⟩ := Run.returns_bind_iff.1 h
  obtain ⟨_, _, _, hlog, h₂, rfl⟩ := Run.returns_bind_iff.1 h₁
  obtain rfl := Run.returns_log_iff.1 hlog
  obtain ⟨E₂, w, _, hw, h₃, rfl⟩ := Run.returns_bind_iff.1 h₂
  obtain ⟨rfl, heq⟩ := Run.returns_pure_iff.1 h₃
  cases heq
  exact ⟨E₁, vs, E₂, hargs, hw, by simp⟩

theorem eval_ifThen_inv {test yes : Node} {written : Option Ty}
    (h : (eval invoke (.ifThen test written yes ty tag pos) f).Returns E (v, f')) :
    (∃ E₁ f₁ E₂, (eval invoke test f).Returns E₁ (.bool true, f₁) ∧
      (eval invoke yes f₁).Returns E₂ (v, f') ∧ E = E₁ ++ E₂) ∨
    (eval invoke test f).Returns E (.bool false, f') ∧ ty.map zero = some v := by
  rw [eval] at h
  obtain ⟨E₁, ⟨c, f₁⟩, _, ht, h₁, rfl⟩ := Run.returns_bind_iff.1 h
  obtain ⟨_, b, E₂, hb, h₂, rfl⟩ := Run.returns_bind_iff.1 h₁
  obtain ⟨rfl, rfl⟩ := returns_truth_iff.1 hb
  cases b with
  | true => exact .inl ⟨E₁, f₁, E₂, ht, h₂, rfl⟩
  | false =>
    obtain ⟨_, w, _, hw, h₃, rfl⟩ := Run.returns_bind_iff.1 h₂
    obtain ⟨rfl, hzero⟩ := Run.returns_ofOption_iff.1 hw
    obtain ⟨rfl, heq⟩ := Run.returns_pure_iff.1 h₃
    cases heq
    exact .inr ⟨by simpa using ht, hzero⟩

theorem eval_ifThenElse_inv {test yes no : Node} {written : Option Ty}
    (h : (eval invoke (.ifThenElse test written yes no ty tag pos) f).Returns E (v, f')) :
    ∃ E₁ b f₁ E₂, (eval invoke test f).Returns E₁ (.bool b, f₁) ∧
      (eval invoke (if b then yes else no) f₁).Returns E₂ (v, f') ∧ E = E₁ ++ E₂ := by
  rw [eval] at h
  obtain ⟨E₁, ⟨c, f₁⟩, _, ht, h₁, rfl⟩ := Run.returns_bind_iff.1 h
  obtain ⟨_, b, E₂, hb, h₂, rfl⟩ := Run.returns_bind_iff.1 h₁
  obtain ⟨rfl, rfl⟩ := returns_truth_iff.1 hb
  refine ⟨E₁, b, f₁, E₂, ht, ?_, rfl⟩
  cases b <;> exact h₂

theorem eval_block_inv {nodes : List Node}
    (h : (eval invoke (.block nodes ty pos) f).Returns E (v, f')) :
    ∃ vs, (evalAll invoke nodes f).Returns E (vs, f') ∧ vs.getLast? = some v := by
  rw [eval] at h
  obtain ⟨E₁, ⟨vs, f₁⟩, _, hns, h₁, rfl⟩ := Run.returns_bind_iff.1 h
  obtain ⟨_, w, _, hw, h₂, rfl⟩ := Run.returns_bind_iff.1 h₁
  obtain ⟨rfl, hlast⟩ := Run.returns_ofOption_iff.1 hw
  obtain ⟨rfl, heq⟩ := Run.returns_pure_iff.1 h₂
  cases heq
  exact ⟨vs, by simpa using hns, hlast⟩

theorem eval_assign_inv {value : Node}
    (h : (eval invoke (.assign name x value ty pos) f).Returns E (v, f')) :
    ∃ E₁ f₁, (eval invoke value f).Returns E₁ (v, f₁) ∧ (f₁ x).isSome ∧ f' = f₁.set x v ∧
      E = E₁ ++ [.assign x v] := by
  rw [eval] at h
  obtain ⟨E₁, ⟨w, f₁⟩, _, hv, h₁, rfl⟩ := Run.returns_bind_iff.1 h
  obtain ⟨_, old, _, hold, h₂, rfl⟩ := Run.returns_bind_iff.1 h₁
  obtain ⟨rfl, hx⟩ := Run.returns_ofOption_iff.1 hold
  obtain ⟨_, _, _, hlog, h₃, rfl⟩ := Run.returns_bind_iff.1 h₂
  obtain rfl := Run.returns_log_iff.1 hlog
  obtain ⟨rfl, heq⟩ := Run.returns_pure_iff.1 h₃
  cases heq
  exact ⟨E₁, f₁, hv, Option.isSome_of_eq_some hx, rfl, by simp⟩

theorem eval_declare_inv {written : Ty}
    (h : (eval invoke (.declare name x written pos) f).Returns E (v, f')) :
    v = zero written ∧ f' = f.set x (zero written) ∧ E = [.introduce x (zero written)] := by
  rw [eval] at h
  obtain ⟨_, _, _, hlog, h₁, rfl⟩ := Run.returns_bind_iff.1 h
  obtain rfl := Run.returns_log_iff.1 hlog
  obtain ⟨rfl, heq⟩ := Run.returns_pure_iff.1 h₁
  cases heq
  exact ⟨rfl, rfl, rfl⟩

theorem eval_define_inv {written : Option Ty} {init : Node}
    (h : (eval invoke (.define name x written init pos) f).Returns E (v, f')) :
    ∃ E₁ f₁, (eval invoke init f).Returns E₁ (v, f₁) ∧ f' = f₁.set x v ∧
      E = E₁ ++ [.introduce x v] := by
  rw [eval] at h
  obtain ⟨E₁, ⟨w, f₁⟩, _, hv, h₁, rfl⟩ := Run.returns_bind_iff.1 h
  obtain ⟨_, _, _, hlog, h₂, rfl⟩ := Run.returns_bind_iff.1 h₁
  obtain rfl := Run.returns_log_iff.1 hlog
  obtain ⟨rfl, heq⟩ := Run.returns_pure_iff.1 h₂
  cases heq
  exact ⟨E₁, f₁, hv, rfl, by simp⟩

theorem evalAll_nil_inv {vs : List Value} (h : (evalAll invoke [] f).Returns E (vs, f')) :
    vs = [] ∧ f' = f ∧ E = [] := by
  obtain ⟨rfl, heq⟩ := Run.returns_pure_iff.1 h
  cases heq
  exact ⟨rfl, rfl, rfl⟩

theorem evalAll_cons_inv {n : Node} {ns : List Node} {vs : List Value}
    (h : (evalAll invoke (n :: ns) f).Returns E (vs, f')) :
    ∃ E₁ v f₁ E₂ vs', (eval invoke n f).Returns E₁ (v, f₁) ∧
      (evalAll invoke ns f₁).Returns E₂ (vs', f') ∧ vs = v :: vs' ∧ E = E₁ ++ E₂ := by
  rw [evalAll] at h
  obtain ⟨E₁, ⟨v, f₁⟩, _, hn, h₁, rfl⟩ := Run.returns_bind_iff.1 h
  obtain ⟨E₂, ⟨vs', f₂⟩, _, hns, h₂, rfl⟩ := Run.returns_bind_iff.1 h₁
  obtain ⟨rfl, heq⟩ := Run.returns_pure_iff.1 h₂
  cases heq
  exact ⟨E₁, v, f₁, E₂, vs', hn, hns, rfl, by simp⟩

end Inversion

end Evaluation

open Evaluation in
/-- The evaluation of a call of a declaration, which may nest `depth` calls, itself included. -/
def Package.invoke (p : Package) : Nat → DeclId → List Value → Eval Value
  | 0, _, _ => .fail .tooDeep
  | depth + 1, id, args =>
    match p.decls[id.index]? with
    | none => .fail .stuck
    | some d =>
      if args.length = d.params.length then do
        let (v, _) ← eval (p.invoke depth) d.body (Frame.ofArgs d.params args)
        pure v
      else .fail .stuck

/-- For examples: `twice` adds its parameter to itself, and `main` calls it on a variable with the
value `3 + 4`. -/
def doubling : List Decl :=
  [⟨⟨"twice", .origin⟩, [⟨⟨"n", .origin⟩, ⟨.int, .origin⟩⟩], ⟨.int, .origin⟩,
      .binary .add (.name ⟨"n", .origin⟩) (.name ⟨"n", .origin⟩) .origin, .origin⟩,
    ⟨⟨"main", .origin⟩, [], ⟨.int, .origin⟩,
      .block [.define ⟨"x", .origin⟩ none
          (.binary .add (.int ⟨3, by decide⟩ .origin) (.int ⟨4, by decide⟩ .origin) .origin)
          .origin,
        .call ⟨"twice", .origin⟩ [.name ⟨"x", .origin⟩] .origin] .origin, .origin⟩]

/-- The checked package of `doubling`. -/
def doublingPackage : Package :=
  ((Package.build "doubling" [doubling]).1.check (Package.stage_build ..)).1

example : (doublingPackage.invoke 2 ⟨1⟩ []).result = .ok (.int ⟨14, by decide⟩) := rfl

end CalcLang
