import CalcLang.Package.Typing

/-!
# The type system

The typing rules of the language. An environment `Γ` gives every parameter and variable of a
declaration one type; resolved names tell variables of the same name apart, so it does not change
from one part of the declaration to the next. A variable without a written type has the type of
its initial value (`HasType.define`).

`HasType sigs Γ P n τ` says that the node `n` has the type `τ` by these rules, and also that every
node of the derivation and its type meet the condition `P`. `Typing.Derives` is the type system
alone; with the condition that the type is the one recorded on the node (`Typing.Records`) it says
that `n` is annotated with the types that it has.
-/

namespace CalcLang

mutual

/-- The node without the types recorded on it and on the nodes inside it. -/
def Node.untyped : Node → Node
  | .const v pos => .const v pos
  | .error pos => .error pos
  | .read name x _ pos => .read name x none pos
  | .binary op lhs rhs _ tag pos => .binary op lhs.untyped rhs.untyped none tag pos
  | .unary op operand _ pos => .unary op operand.untyped none pos
  | .call name callee args _ pos => .call name callee (Node.allUntyped args) none pos
  | .ifThen test written yes _ tag pos => .ifThen test.untyped written yes.untyped none tag pos
  | .ifThenElse test written yes no _ tag pos =>
    .ifThenElse test.untyped written yes.untyped no.untyped none tag pos
  | .block nodes _ pos => .block (Node.allUntyped nodes) none pos
  | .assign name x value _ pos => .assign name x value.untyped none pos
  | .declare name x written pos => .declare name x written pos
  | .define name x written init pos => .define name x written init.untyped pos

/-- The nodes without the types recorded on them. -/
def Node.allUntyped : List Node → List Node
  | [] => []
  | n :: ns => n.untyped :: Node.allUntyped ns

end

namespace Typing

/-- `Operation op l r τ`: on operands of the types `l` and `r` the operator gives a `τ`. -/
inductive Operation : BinaryOp → Ty → Ty → Ty → Prop
  | arithmetic {op} : op ∈ [.add, .sub, .mul, .div, .rem] → Operation op .int .int .int
  | ordering {op} : op ∈ [.lt, .le, .gt, .ge] → Operation op .int .int .bool
  | equality {op τ} : op ∈ [.eq, .ne] → Operation op τ τ .bool
  | logic {op} : op ∈ [.and, .or] → Operation op .bool .bool .bool

/-- `Negation op τ`: on an operand of the type `τ` the operator gives a `τ`. -/
inductive Negation : UnaryOp → Ty → Prop
  | neg : Negation .neg .int
  | not : Negation .not .bool

section Rules

variable (sigs : Signatures) (Γ : SymbolId → Option Ty) (P : Node → Ty → Prop)

mutual

/-- The typing rules, with a condition on every node and its type. -/
inductive HasType : Node → Ty → Prop
  | const {v pos} : P (.const v pos) v.ty → HasType (.const v pos) v.ty
  | read {name x ty pos τ} : Γ x = some τ → P (.read name x ty pos) τ →
    HasType (.read name x ty pos) τ
  | binary {op lhs rhs ty tag pos l r τ} : HasType lhs l → HasType rhs r → Operation op l r τ →
    P (.binary op lhs rhs ty tag pos) τ → HasType (.binary op lhs rhs ty tag pos) τ
  | unary {op operand ty pos τ} : HasType operand τ → Negation op τ →
    P (.unary op operand ty pos) τ → HasType (.unary op operand ty pos) τ
  | call {name callee args ty pos sig τs} : sigs[callee.index]? = some sig → HaveTypes args τs →
    sig.params = τs.map some → P (.call name callee args ty pos) sig.ret →
    HasType (.call name callee args ty pos) sig.ret
  | ifThen {test written yes ty tag pos τ} : HasType test .bool → HasType yes τ →
    (∀ w, written = some w → w = τ) → P (.ifThen test written yes ty tag pos) τ →
    HasType (.ifThen test written yes ty tag pos) τ
  | ifThenElse {test written yes no ty tag pos τ} : HasType test .bool → HasType yes τ →
    HasType no τ → (∀ w, written = some w → w = τ) →
    P (.ifThenElse test written yes no ty tag pos) τ →
    HasType (.ifThenElse test written yes no ty tag pos) τ
  | block {nodes ty pos τs τ} : HaveTypes nodes τs → τs.getLast? = some τ →
    P (.block nodes ty pos) τ → HasType (.block nodes ty pos) τ
  | assign {name x value ty pos τ} : HasType value τ → Γ x = some τ →
    P (.assign name x value ty pos) τ → HasType (.assign name x value ty pos) τ
  | declare {name x written pos} : Γ x = some written → P (.declare name x written pos) written →
    HasType (.declare name x written pos) written
  | define {name x written init pos τ} : HasType init τ → (∀ w, written = some w → w = τ) →
    Γ x = some τ → P (.define name x written init pos) τ →
    HasType (.define name x written init pos) τ

/-- The nodes have the types, one by one. -/
inductive HaveTypes : List Node → List Ty → Prop
  | nil : HaveTypes [] []
  | cons {n ns τ τs} : HasType n τ → HaveTypes ns τs → HaveTypes (n :: ns) (τ :: τs)

end

/-- The typing rules alone. -/
abbrev Derives (n : Node) (τ : Ty) : Prop := HasType sigs Γ (fun _ _ => True) n τ

end Rules

/-- The type is the one recorded on the node. -/
def Records (symbols : Symbols) (n : Node) (τ : Ty) : Prop := n.ty symbols = some τ

/-! ## Operators -/

theorem Operation.result_eq {op : BinaryOp} {l r τ : Ty} (h : Operation op l r τ) :
    τ = op.result := by
  cases h with
  | arithmetic h => revert h; cases op <;> decide
  | ordering h => revert h; cases op <;> decide
  | equality h => revert h; cases op <;> decide
  | logic h => revert h; cases op <;> decide

theorem Operation.operands_eq {op : BinaryOp} {l r τ : Ty} (h : Operation op l r τ) : l = r := by
  cases h <;> rfl

theorem Operation.operand_eq {op : BinaryOp} {l r τ : Ty} (h : Operation op l r τ) :
    op.operand?.getD l = l := by
  cases h with
  | arithmetic h => revert h; cases op <;> decide
  | ordering h => revert h; cases op <;> decide
  | equality h => revert h; cases op <;> simp [BinaryOp.operand?]
  | logic h => revert h; cases op <;> decide

theorem operation_of_operand_eq {op : BinaryOp} {l : Ty} (h : op.operand?.getD l = l) :
    Operation op l l op.result := by
  cases op <;> simp only [BinaryOp.operand?, Option.getD_some, Option.getD_none] at h <;>
    first
      | exact h ▸ .arithmetic (by decide)
      | exact h ▸ .ordering (by decide)
      | exact .equality (by decide)
      | exact h ▸ .logic (by decide)

theorem Negation.operand_eq {op : UnaryOp} {τ : Ty} (h : Negation op τ) : τ = op.operand := by
  cases h <;> rfl

theorem negation_operand (op : UnaryOp) : Negation op op.operand := by
  cases op
  · exact .neg
  · exact .not

/-! ## Derivations -/

section Derivations

variable {sigs : Signatures} {Γ : SymbolId → Option Ty} {P Q : Node → Ty → Prop}

theorem HasType.meets {n : Node} {τ : Ty} (h : HasType sigs Γ P n τ) : P n τ := by
  cases h <;> assumption

mutual

/-- A node has at most one type. -/
theorem HasType.unique {τ τ' : Ty} : ∀ {n : Node}, HasType sigs Γ P n τ → HasType sigs Γ Q n τ' →
    τ = τ'
  | .const .., h, h' => by cases h; cases h'; rfl
  | .read .., h, h' => by
    cases h with
    | read hx _ =>
      cases h' with
      | read hx' _ => exact Option.some.inj (hx.symm.trans hx')
  | .binary .., h, h' => by
    cases h with
    | binary _ _ ho _ =>
      cases h' with
      | binary _ _ ho' _ => rw [ho.result_eq, ho'.result_eq]
  | .unary .., h, h' => by
    cases h with
    | unary _ hn _ =>
      cases h' with
      | unary _ hn' _ => rw [hn.operand_eq, hn'.operand_eq]
  | .call .., h, h' => by
    cases h with
    | call hs _ _ _ =>
      cases h' with
      | call hs' _ _ _ =>
        rw [hs] at hs'
        cases hs'
        rfl
  | .ifThen .., h, h' => by
    cases h with
    | ifThen _ hy _ _ =>
      cases h' with
      | ifThen _ hy' _ _ => exact hy.unique hy'
  | .ifThenElse .., h, h' => by
    cases h with
    | ifThenElse _ hy _ _ _ =>
      cases h' with
      | ifThenElse _ hy' _ _ _ => exact hy.unique hy'
  | .block .., h, h' => by
    cases h with
    | block hs hl _ =>
      cases h' with
      | block hs' hl' _ =>
        rw [hs.unique hs', hl'] at hl
        exact (Option.some.inj hl).symm
  | .assign .., h, h' => by
    cases h with
    | assign hv _ _ =>
      cases h' with
      | assign hv' _ _ => exact hv.unique hv'
  | .declare .., h, h' => by cases h; cases h'; rfl
  | .define .., h, h' => by
    cases h with
    | define hi _ _ _ =>
      cases h' with
      | define hi' _ _ _ => exact hi.unique hi'
  | .error .., h, _ => by cases h

theorem HaveTypes.unique {τs τs' : List Ty} : ∀ {ns : List Node}, HaveTypes sigs Γ P ns τs →
    HaveTypes sigs Γ Q ns τs' → τs = τs'
  | [], h, h' => by cases h; cases h'; rfl
  | _ :: _, h, h' => by
    cases h with
    | cons h hs =>
      cases h' with
      | cons h' hs' => rw [h.unique h', hs.unique hs']

end

end Derivations

end Typing

end CalcLang
