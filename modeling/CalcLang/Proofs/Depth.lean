import CalcLang.Proofs.Evaluation

/-!
# Bounds on nested calls

A call that gives a value within a bound on nested calls gives it within every greater one
(`Package.invoke_mono`). So `Package.Evaluates` can leave the bound out.
-/

namespace CalcLang

namespace Evaluation

section

variable {invoke invoke' : DeclId → List Value → Eval Value}

mutual

/-- A node whose calls may go on evaluates as before where it had a value. -/
theorem eval_below (h : ∀ id args, (invoke id args).Below (invoke' id args)) :
    ∀ (n : Node) (f : Frame), (eval invoke n f).Below (eval invoke' n f)
  | .const .., f => by rw [eval, eval]; exact .refl _
  | .error .., f => by rw [eval, eval]; exact .refl _
  | .read .., f => by rw [eval, eval]; exact .refl _
  | .binary _ lhs rhs .., f => by
    rw [eval, eval]
    exact (eval_below h lhs f).bind fun ⟨_, f⟩ => (eval_below h rhs f).bind fun _ => .refl _
  | .unary _ operand .., f => by
    rw [eval, eval]
    exact (eval_below h operand f).bind fun _ => .refl _
  | .call _ callee args .., f => by
    rw [eval, eval]
    refine (evalAll_below h args f).bind fun ⟨vs, f⟩ => ?_
    exact (Run.Below.refl _).bind fun _ => (h callee vs).bind fun _ => .refl _
  | .ifThen test _ yes .., f => by
    rw [eval, eval]
    refine (eval_below h test f).bind fun ⟨c, f⟩ => (Run.Below.refl _).bind fun b => ?_
    cases b
    · exact .refl _
    · exact eval_below h yes f
  | .ifThenElse test _ yes no .., f => by
    rw [eval, eval]
    refine (eval_below h test f).bind fun ⟨c, f⟩ => (Run.Below.refl _).bind fun b => ?_
    cases b
    · exact eval_below h no f
    · exact eval_below h yes f
  | .block nodes .., f => by
    rw [eval, eval]
    exact (evalAll_below h nodes f).bind fun _ => .refl _
  | .assign _ _ value .., f => by
    rw [eval, eval]
    exact (eval_below h value f).bind fun _ => .refl _
  | .declare .., f => by rw [eval, eval]; exact .refl _
  | .define _ _ _ init _, f => by
    rw [eval, eval]
    exact (eval_below h init f).bind fun _ => .refl _

theorem evalAll_below (h : ∀ id args, (invoke id args).Below (invoke' id args)) :
    ∀ (ns : List Node) (f : Frame), (evalAll invoke ns f).Below (evalAll invoke' ns f)
  | [], f => by rw [evalAll, evalAll]; exact .refl _
  | n :: ns, f => by
    rw [evalAll, evalAll]
    exact (eval_below h n f).bind fun ⟨_, f⟩ => (evalAll_below h ns f).bind fun _ => .refl _

end

end

end Evaluation

namespace Package

open Evaluation

theorem invoke_below_succ (p : Package) (depth : Nat) (id : DeclId) (args : List Value) :
    (p.invoke depth id args).Below (p.invoke (depth + 1) id args) := by
  induction depth generalizing id args with
  | zero => exact fun E v h => absurd h Run.not_returns_fail
  | succ depth ih =>
    rw [invoke, invoke]
    split
    · exact .refl _
    · next d _ =>
      split
      · exact (eval_below ih d.body _).bind fun _ => .refl _
      · exact .refl _

/-- More nested calls than are needed change nothing. -/
theorem invoke_mono (p : Package) {depth depth' : Nat} (h : depth ≤ depth') (id : DeclId)
    (args : List Value) : (p.invoke depth id args).Below (p.invoke depth' id args) := by
  induction h with
  | refl => exact .refl _
  | step _ ih => exact fun E v hv => p.invoke_below_succ _ id args (ih hv)

/-- The call of a declaration shows the events `E` and gives the value `v`. -/
def Evaluates (p : Package) (id : DeclId) (args : List Value) (E : List Event) (v : Value) : Prop :=
  ∃ depth, (p.invoke depth id args).Returns E v

/-- The evaluation of a call has one outcome. -/
theorem Evaluates.det {p : Package} {id : DeclId} {args : List Value} {E E' : List Event}
    {v v' : Value} (h : p.Evaluates id args E v) (h' : p.Evaluates id args E' v') :
    E = E' ∧ v = v' := by
  obtain ⟨depth, h⟩ := h
  obtain ⟨depth', h'⟩ := h'
  exact (p.invoke_mono (Nat.le_max_left depth depth') id args h).det
    (p.invoke_mono (Nat.le_max_right depth depth') id args h')

end Package

end CalcLang
