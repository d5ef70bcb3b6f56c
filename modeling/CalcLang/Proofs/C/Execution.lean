import CalcLang.C.Lower
import CalcLang.Proofs.Run

/-!
# Execution of C programs

What the C language says about the part of it that generated code uses, with `int` and `int32_t`
of 32 bits. The temporaries of a call live in a `Store`; functions have names of their own, so a
function and a temporary never hide each other.

C leaves open in which order the operands of an expression are evaluated, down to the reads and
calls inside them; only a call runs to its end once it has begun, and `&&` and `||` evaluate their
right operand after the left one and only if they have to. An execution is therefore one of several
`Ways`. An expression is evaluated by steps that may happen anywhere in it (`stepsAll`), and
`evaluateWithin` collects what all orders of these steps lead to.

Undefined behaviour ends an execution: an overflow, a zero divisor, a temporary that is read or
assigned outside of its scope or declared again inside it, and a call that fits no function.
-/

namespace CalcLang.C

/-- Why an execution gives no result. -/
inductive Halt
  /-- The behaviour is undefined. -/
  | undefined
  /-- More nested calls than allowed. -/
  | tooDeep
  deriving DecidableEq, Repr

/-- A call of a function. -/
structure Call where
  name : String
  args : List Word
  deriving DecidableEq, Repr

/-- The runs among which an execution is one. -/
def Ways (α : Type) := List (Run Call Halt α)

namespace Ways

variable {α β : Type}

/-- The runs that begin with a given one. -/
def follow (next : α → Ways β) (r : Run Call Halt α) : List (Run Call Halt β) :=
  match r.result with
  | .ok a => List.map (fun r' => ⟨r.events ++ r'.events, r'.result⟩) (next a)
  | .error reason => [⟨r.events, .error reason⟩]

/-- The executions that first go one way and then on from there. -/
def bind (ws : Ways α) (next : α → Ways β) : Ways β := List.flatMap (follow next) ws

instance : Monad Ways where
  pure a := [pure a]
  bind := bind

/-- The execution that ends at once. -/
def fail (reason : Halt) : Ways α := [Run.fail reason]

/-- The execution that is undefined if there is no result. -/
def ofOption : Option α → Ways α
  | some a => pure a
  | none => fail .undefined

/-- The execution that shows a call. -/
def make (c : Call) : Ways Unit := [Run.log [c]]

/-- The executions of several kinds. -/
def choose (l : List (Ways α)) : Ways α := List.flatten l

end Ways

/-! ## Values -/

/-- A truth value as an integer. -/
def ofBool (b : Bool) : Word := if b then ⟨1, by decide⟩ else .zero

/-- A value as C represents it. -/
def encode : Value → Word
  | .int w => w
  | .bool b => ofBool b

/-- What a type makes of a value that is stored in it. -/
def CType.convert : CType → Word → Word
  | .int32, w | .int, w => w
  | .bool, w => ofBool (w.val ≠ 0)

/-- A binary operator, if its behaviour is defined. A remainder is defined where the quotient is. -/
def binary (op : BinaryOp) (a b : Word) : Option Word :=
  match op with
  | .add => Word.ofInt? (a.val + b.val)
  | .sub => Word.ofInt? (a.val - b.val)
  | .mul => Word.ofInt? (a.val * b.val)
  | .div => if b.val = 0 then none else Word.ofInt? (a.val.tdiv b.val)
  | .rem =>
    if b.val = 0 then none
    else (Word.ofInt? (a.val.tdiv b.val)).bind fun q => Word.ofInt? (a.val - b.val * q.val)
  | .eq => some (ofBool (a.val = b.val))
  | .ne => some (ofBool (a.val ≠ b.val))
  | .lt => some (ofBool (a.val < b.val))
  | .le => some (ofBool (a.val ≤ b.val))
  | .gt => some (ofBool (a.val > b.val))
  | .ge => some (ofBool (a.val ≥ b.val))
  | .and => some (ofBool (a.val ≠ 0 ∧ b.val ≠ 0))
  | .or => some (ofBool (a.val ≠ 0 ∨ b.val ≠ 0))

/-- A unary operator, if its behaviour is defined. -/
def unary (op : UnaryOp) (a : Word) : Option Word :=
  match op with
  | .neg => Word.ofInt? (-a.val)
  | .not => some (ofBool (a.val = 0))

/-- The value of an operation that does not evaluate its right operand. -/
def shortcut? : BinaryOp → Word → Option Word
  | .and, a => if a.val = 0 then some (ofBool false) else none
  | .or, a => if a.val = 0 then none else some (ofBool true)
  | _, _ => none

/-- Whether the left operand is evaluated before the right one. -/
def sequenced : BinaryOp → Bool
  | .and | .or => true
  | _ => false

/-! ## Stores -/

/-- The types and values of the temporaries that are declared. -/
abbrev Store := Temp → Option (CType × Word)

namespace Store

/-- The store in which nothing is declared. -/
def empty : Store := fun _ => none

/-- Gives a temporary a type and a value. -/
def set (ρ : Store) (t : Temp) (v : CType × Word) : Store :=
  fun t' => if t' = t then some v else ρ t'

/-- Declares a temporary that is not declared yet. -/
def declare (ρ : Store) (ty : CType) (t : Temp) (w : Word) : Option Store :=
  if t = .missing ∨ (ρ t).isSome then none else some (ρ.set t (ty, ty.convert w))

/-- Assigns to a temporary that is declared. -/
def assign (ρ : Store) (t : Temp) (w : Word) : Option Store :=
  (ρ t).map fun v => ρ.set t (v.1, v.1.convert w)

/-- The store behind a block that was entered with the store `outer`. -/
def leave (inner outer : Store) : Store := fun t => if (outer t).isSome then inner t else none

/-- The store that a call starts with. -/
def ofArgs : List (CType × Temp) → List Word → Option Store
  | [], [] => some empty
  | (ty, t) :: params, w :: ws => (ofArgs params ws).bind fun ρ => ρ.declare ty t w
  | _, _ => none

end Store

/-! ## Expressions -/

/-- Something that may happen next in an evaluation. -/
inductive Step (α : Type)
  | undefined
  | silent (next : α)
  | call (c : Call) (resume : Word → α)

/-- A step of a part as a step of the whole. -/
def Step.map {α β : Type} (f : α → β) : Step α → Step β
  | undefined => undefined
  | silent next => silent (f next)
  | call c resume => call c fun w => f (resume w)

/-- A step without a call, to a result if the behaviour is defined. -/
def Step.ofOption {α : Type} : Option α → Step α
  | some next => silent next
  | none => undefined

/-- The value of an expression that has been evaluated. -/
def Expr.value? : Expr → Option Word
  | .int w => some w
  | _ => none

/-- The values of expressions that have all been evaluated. -/
def values? : List Expr → Option (List Word)
  | [] => some []
  | e :: es => do
    let w ← e.value?
    let ws ← values? es
    some (w :: ws)

mutual

/-- The steps that an expression can take. -/
def steps (ρ : Store) : Expr → List (Step Expr)
  | .int _ => []
  | .bool b => [.silent (.int (ofBool b))]
  | .temp t => [.ofOption ((ρ t).map fun v => .int v.2)]
  | .unary op e =>
    match e.value? with
    | some w => [.ofOption ((unary op w).map .int)]
    | none => (steps ρ e).map (.map (.unary op))
  | .call name args =>
    match values? args with
    | some ws => [.call ⟨name, ws⟩ .int]
    | none => (stepsAll ρ args).map (.map (.call name))

/-- The steps that can be taken in one of several expressions. -/
def stepsAll (ρ : Store) : List Expr → List (Step (List Expr))
  | [] => []
  | e :: es => (steps ρ e).map (.map (· :: es)) ++ (stepsAll ρ es).map (.map (e :: ·))

end

mutual

/-- The number of steps that an expression takes. -/
def Expr.size : Expr → Nat
  | .int _ => 0
  | .bool _ | .temp _ => 1
  | .unary _ e => e.size + 1
  | .call _ args => Expr.sizes args + 1

/-- The number of steps that expressions take. -/
def Expr.sizes : List Expr → Nat
  | [] => 0
  | e :: es => e.size + Expr.sizes es

end

section Execution

variable (call : Call → Ways Word)

/-- Evaluates expressions in any order, in at most the given number of steps. Calls are made by
`call`. -/
def evaluateWithin (ρ : Store) : Nat → List Expr → Ways (List Word)
  | 0, es => .ofOption (values? es)
  | n + 1, es =>
    match values? es with
    | some ws => pure ws
    | none => .choose <| (stepsAll ρ es).map fun
      | .undefined => .fail .undefined
      | .silent next => evaluateWithin ρ n next
      | .call c resume => do
        Ways.make c
        let w ← call c
        evaluateWithin ρ n (resume w)

/-- Evaluates expressions in any order. -/
def evaluateAll (ρ : Store) (es : List Expr) : Ways (List Word) :=
  evaluateWithin call ρ (Expr.sizes es) es

/-- Evaluates an expression. -/
def evaluate (ρ : Store) (e : Expr) : Ways Word := do
  let ws ← evaluateAll call ρ [e]
  .ofOption ws.head?

/-- Evaluates what a temporary is declared with. -/
def evaluateInit (ρ : Store) : Init → Ways Word
  | .expr e => evaluate call ρ e
  | .binary op lhs rhs =>
    if sequenced op then do
      let a ← evaluate call ρ lhs
      match shortcut? op a with
      | some w => pure w
      | none => do
        let b ← evaluate call ρ rhs
        .ofOption (binary op a b)
    else do
      match ← evaluateAll call ρ [lhs, rhs] with
      | [a, b] => .ofOption (binary op a b)
      | _ => .fail .undefined

mutual

/-- Executes a statement. -/
def exec : Stmt → Store → Ways Store
  | .declare ty t init, ρ => do
    let w ← evaluateInit call ρ init
    .ofOption (ρ.declare ty t w)
  | .assign t e, ρ => do
    let w ← evaluate call ρ e
    .ofOption (ρ.assign t w)
  | .eval e, ρ => do
    let _ ← evaluate call ρ e
    pure ρ
  | .ifThen test yes, ρ => do
    let w ← evaluate call ρ test
    if w.val ≠ 0 then do
      let inner ← execAll yes ρ
      pure (inner.leave ρ)
    else pure ρ
  | .ifThenElse test yes no, ρ => do
    let w ← evaluate call ρ test
    if w.val ≠ 0 then do
      let inner ← execAll yes ρ
      pure (inner.leave ρ)
    else do
      let inner ← execAll no ρ
      pure (inner.leave ρ)

/-- Executes statements one after the other. -/
def execAll : List Stmt → Store → Ways Store
  | [], ρ => pure ρ
  | s :: ss, ρ => do
    let ρ ← exec s ρ
    execAll ss ρ

end

/-- The execution of a function. -/
def Function.run (f : Function) (args : List Word) : Ways Word := do
  let ρ ← .ofOption (Store.ofArgs f.signature.params args)
  let ρ ← execAll call f.body ρ
  let w ← evaluate call ρ f.result
  pure (f.signature.ret.convert w)

end Execution

/-! ## Programs -/

namespace Program

/-- The function with a given name. -/
def find? (p : Program) (name : String) : Option Function :=
  p.functions.find? fun f => f.signature.name == name

/-- The execution of a call, which may nest `depth` calls, itself included. -/
def call (p : Program) : Nat → Call → Ways Word
  | 0, _ => .fail .tooDeep
  | depth + 1, c =>
    match p.find? c.name with
    | none => .fail .undefined
    | some f => f.run (call p depth) c.args

/-- What the program prints: the value of the entry, as a decimal number on a line. -/
def output (p : Program) (depth : Nat) : Ways String :=
  match p.entry with
  | none => .fail .undefined
  | some e => do
    let w ← evaluate (p.call depth) .empty (.call e.name e.args)
    pure (w.text ++ "\n")

end Program

end CalcLang.C
