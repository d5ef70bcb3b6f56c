import CalcLang.Package.Folding
import CalcLang.Proofs.Evaluation

/-!
# Folding preserves behaviour

The operators that folding uses give a value exactly where evaluation does (`binary_eq_ok_iff`,
`unary_eq_ok_iff`), so a folded node evaluates like the node it comes from: with the same value or
the same failure, and with the same calls, introductions and assignments on the way (`eval_fold`).
By induction on the bound on nested calls this holds of the calls of a package.

`Folds` says what folding does to a tree: some operator nodes become constants of their type at
their position, and all else stays.
-/

namespace CalcLang

namespace Evaluation

/-! ## Operators -/

theorem word_eq_ok_iff {n : Int} {v : Value} : word n = .ok v ↔ Value.ofInt? n = some v := by
  unfold word Value.ofInt?
  cases Word.ofInt? n <;> simp

/-- A value out of range traps, and does nothing else. -/
theorem word_cases (n : Int) : (∃ v, word n = .ok v ∧ Value.ofInt? n = some v) ∨
    (word n = .error .trap ∧ Value.ofInt? n = none) := by
  unfold word Value.ofInt?
  cases h : Word.ofInt? n with
  | none => exact .inr ⟨rfl, rfl⟩
  | some w => exact .inl ⟨_, rfl, rfl⟩

theorem onInts_eq_ok_iff {op : BinaryOp} {a b : Word} {v : Value} :
    onInts op a.val b.val = .ok v ↔ Value.binaryInt op a b = some v := by
  cases op <;> simp only [onInts, Value.binaryInt]
  case add => exact word_eq_ok_iff
  case sub => exact word_eq_ok_iff
  case mul => exact word_eq_ok_iff
  case div =>
    rw [Value.divided?]
    split
    · simp
    · obtain ⟨q, hq, hq'⟩ | ⟨hq, hq'⟩ := word_cases (a.val.tdiv b.val) <;> simp [hq, hq']
  case rem =>
    rw [Value.divided?]
    split
    · simp
    · rw [Int.tmod_def]
      obtain ⟨q, hq, hq'⟩ | ⟨hq, hq'⟩ := word_cases (a.val.tdiv b.val)
      · rw [hq, hq']
        exact word_eq_ok_iff
      · rw [hq, hq']
        simp [Except.bind]
  all_goals simp
  all_goals grind

/-- Evaluation and folding agree on the binary operators. -/
theorem binary_eq_ok_iff {op : BinaryOp} {a b v : Value} :
    binary op a b = .ok v ↔ Value.binary op a b = some v := by
  cases a <;> cases b
  case int.int a b => exact onInts_eq_ok_iff
  case bool.bool a b =>
    cases op <;> cases a <;> cases b <;>
      simp [binary, onBools, Value.binary, Value.binaryBool]
  all_goals simp [binary, Value.binary]

/-- Evaluation and folding agree on the unary operators. -/
theorem unary_eq_ok_iff {op : UnaryOp} {a v : Value} :
    unary op a = .ok v ↔ Value.unary op a = some v := by
  cases op <;> cases a
  case neg.int a => exact word_eq_ok_iff
  case not.bool a => cases a <;> simp [unary, Value.unary]
  all_goals simp [unary, Value.unary]

/-! ## Evaluation -/

/-- Whether an event is a call, an introduction or an assignment. -/
def Event.isEffect : Event → Bool
  | .decided _ => false
  | .call _ _ | .introduce _ _ | .assign _ _ => true

/-- Two evaluations end alike and have the same calls, introductions and assignments. -/
def Alike {α : Type} (r r' : Eval α) : Prop :=
  r.restrict Event.isEffect = r'.restrict Event.isEffect

theorem Alike.refl {α : Type} (r : Eval α) : Alike r r := rfl

theorem Alike.trans {α : Type} {r r' r'' : Eval α} (h : Alike r r') (h' : Alike r' r'') :
    Alike r r'' := Eq.trans h h'

theorem Alike.bind {α β : Type} {r r' : Eval α} {next next' : α → Eval β} (h : Alike r r')
    (hn : ∀ a, Alike (next a) (next' a)) : Alike (r >>= next) (r' >>= next') :=
  Run.restrict_bind_congr h hn

/-- Which operand is seen to decide an operation makes no difference. -/
theorem alike_shortcut (op : BinaryOp) (a : Value) (n n' : Node) :
    Alike (Run.log (shortcut op a n)) (Run.log (shortcut op a n')) := by
  unfold shortcut
  split <;> rfl

theorem eq_const_of_constant? {n : Node} {v : Value} (h : n.constant? = some v) :
    ∃ pos, n = .const v pos := by
  cases n <;> cases h
  exact ⟨_, rfl⟩

theorem constant?_eq_some {value : Option Value} {ty : Option Ty} {pos : Pos} {n : Node}
    (h : Folding.constant? value ty pos = some n) :
    ∃ v, value = some v ∧ ty = some v.ty ∧ n = .const v pos := by
  simp only [Folding.constant?, Option.map_eq_some_iff, Option.filter_eq_some_iff, beq_iff_eq] at h
  obtain ⟨v, ⟨hv, hty⟩, rfl⟩ := h
  exact ⟨v, hv, hty.symm, rfl⟩

open Folding in
/-- A binary operation stays, or it is one on constants and becomes its value. -/
theorem fold_binary_cases (op : BinaryOp) (lhs rhs : Node) (ty : Option Ty) (tag : Option Tag)
    (pos : Pos) :
    fold (.binary op lhs rhs ty tag pos) = .binary op (fold lhs) (fold rhs) ty tag pos ∨
    ∃ a b v p q, fold lhs = .const a p ∧ fold rhs = .const b q ∧ Value.binary op a b = some v ∧
      ty = some v.ty ∧ fold (.binary op lhs rhs ty tag pos) = .const v pos := by
  rw [fold]
  cases hc : Folding.constant? (binary? op (fold lhs) (fold rhs)) ty pos with
  | none => exact .inl rfl
  | some n =>
    obtain ⟨v, hv, hty, rfl⟩ := constant?_eq_some hc
    simp only [binary?, Option.bind_eq_bind, Option.bind_eq_some_iff] at hv
    obtain ⟨a, ha, b, hb, hv⟩ := hv
    obtain ⟨p, hp⟩ := eq_const_of_constant? ha
    obtain ⟨q, hq⟩ := eq_const_of_constant? hb
    exact .inr ⟨a, b, v, p, q, hp, hq, hv, hty, rfl⟩

open Folding in
/-- A unary operation stays, or it is one on a constant and becomes its value. -/
theorem fold_unary_cases (op : UnaryOp) (operand : Node) (ty : Option Ty) (pos : Pos) :
    fold (.unary op operand ty pos) = .unary op (fold operand) ty pos ∨
    ∃ a v p, fold operand = .const a p ∧ Value.unary op a = some v ∧ ty = some v.ty ∧
      fold (.unary op operand ty pos) = .const v pos := by
  rw [fold]
  cases hc : Folding.constant? (unary? op (fold operand)) ty pos with
  | none => exact .inl rfl
  | some n =>
    obtain ⟨v, hv, hty, rfl⟩ := constant?_eq_some hc
    simp only [unary?, Option.bind_eq_bind, Option.bind_eq_some_iff] at hv
    obtain ⟨a, ha, hv⟩ := hv
    obtain ⟨p, hp⟩ := eq_const_of_constant? ha
    exact .inr ⟨a, v, p, hp, hv, hty, rfl⟩

section Eval

variable {invoke invoke' : DeclId → List Value → Eval Value}

/-- An operation on constants with a value is as good as that value. -/
theorem alike_binary_const {op : BinaryOp} {a b v : Value} (h : Value.binary op a b = some v)
    (p q pos : Pos) (ty : Option Ty) (tag : Option Tag) (f : Frame) :
    Alike (eval invoke (.const v pos) f)
      (eval invoke (.binary op (.const a p) (.const b q) ty tag pos) f) := by
  have hv : binary op a b = .ok v := binary_eq_ok_iff.2 h
  simp only [eval, outcome, pure_bind, hv]
  unfold shortcut
  split <;> rfl

theorem eval_unary_const {op : UnaryOp} {a v : Value} (h : Value.unary op a = some v)
    (p pos : Pos) (ty : Option Ty) (f : Frame) :
    eval invoke (.unary op (.const a p) ty pos) f = eval invoke (.const v pos) f := by
  have hv : unary op a = .ok v := unary_eq_ok_iff.2 h
  simp only [eval, outcome, pure_bind, hv]
  rfl

/-- Calls that are alike make evaluations alike. -/
abbrev AlikeCalls (invoke invoke' : DeclId → List Value → Eval Value) : Prop :=
  ∀ id args, Alike (invoke id args) (invoke' id args)

theorem alike_binary (op : BinaryOp) {lhs lhs' rhs rhs' : Node} (ty : Option Ty)
    (tag : Option Tag) (pos : Pos) (hl : ∀ f, Alike (eval invoke lhs f) (eval invoke' lhs' f))
    (hr : ∀ f, Alike (eval invoke rhs f) (eval invoke' rhs' f)) (f : Frame) :
    Alike (eval invoke (.binary op lhs rhs ty tag pos) f)
      (eval invoke' (.binary op lhs' rhs' ty tag pos) f) := by
  rw [eval, eval]
  refine (hl f).bind ?_
  rintro ⟨a, f⟩
  refine (hr f).bind ?_
  rintro ⟨b, f⟩
  exact (alike_shortcut ..).bind fun _ => .refl _

theorem alike_unary (op : UnaryOp) {operand operand' : Node} (ty : Option Ty) (pos : Pos)
    (h : ∀ f, Alike (eval invoke operand f) (eval invoke' operand' f)) (f : Frame) :
    Alike (eval invoke (.unary op operand ty pos) f)
      (eval invoke' (.unary op operand' ty pos) f) := by
  rw [eval, eval]
  exact (h f).bind fun _ => .refl _

mutual

/-- A folded node evaluates like the node. -/
theorem eval_fold (h : AlikeCalls invoke invoke') : ∀ (n : Node) (f : Frame),
    Alike (eval invoke n f) (eval invoke' (Folding.fold n) f)
  | .const v pos, f => by rw [Folding.fold, eval, eval]; exact .refl _
  | .error pos, f => by rw [Folding.fold, eval, eval]; exact .refl _
  | .read name x ty pos, f => by rw [Folding.fold, eval, eval]; exact .refl _
  | .binary op lhs rhs ty tag pos, f => by
    have hop := alike_binary op ty tag pos (eval_fold h lhs) (eval_fold h rhs) f
    obtain hf | ⟨a, b, v, p, q, hl, hr, hv, hty, hf⟩ := fold_binary_cases op lhs rhs ty tag pos
    · rw [hf]
      exact hop
    · rw [hf]
      rw [hl, hr] at hop
      exact hop.trans (alike_binary_const hv p q pos ty tag f).symm
  | .unary op operand ty pos, f => by
    have hop := alike_unary op ty pos (eval_fold h operand) f
    obtain hf | ⟨a, v, p, ha, hv, hty, hf⟩ := fold_unary_cases op operand ty pos
    · rw [hf]
      exact hop
    · rw [hf]
      rwa [ha, eval_unary_const hv] at hop
  | .call name callee args ty pos, f => by
    rw [Folding.fold, eval, eval]
    refine (evalAll_foldAll h args f).bind fun ⟨vs, f⟩ => ?_
    exact (Alike.refl _).bind fun _ => (h callee vs).bind fun _ => .refl _
  | .ifThen test written yes ty tag pos, f => by
    rw [Folding.fold, eval, eval]
    refine (eval_fold h test f).bind fun ⟨c, f⟩ => (Alike.refl _).bind fun b => ?_
    cases b
    · exact .refl _
    · exact eval_fold h yes f
  | .ifThenElse test written yes no ty tag pos, f => by
    rw [Folding.fold, eval, eval]
    refine (eval_fold h test f).bind fun ⟨c, f⟩ => (Alike.refl _).bind fun b => ?_
    cases b
    · exact eval_fold h no f
    · exact eval_fold h yes f
  | .block nodes ty pos, f => by
    rw [Folding.fold, eval, eval]
    exact (evalAll_foldAll h nodes f).bind fun _ => .refl _
  | .assign name x value ty pos, f => by
    rw [Folding.fold, eval, eval]
    exact (eval_fold h value f).bind fun _ => .refl _
  | .declare name x written pos, f => by rw [Folding.fold, eval, eval]; exact .refl _
  | .define name x written init pos, f => by
    rw [Folding.fold, eval, eval]
    exact (eval_fold h init f).bind fun _ => .refl _

/-- Folded nodes evaluate like the nodes. -/
theorem evalAll_foldAll (h : AlikeCalls invoke invoke') : ∀ (ns : List Node) (f : Frame),
    Alike (evalAll invoke ns f) (evalAll invoke' (Folding.foldAll ns) f)
  | [], f => by rw [Folding.foldAll, evalAll, evalAll]; exact .refl _
  | n :: ns, f => by
    rw [Folding.foldAll, evalAll, evalAll]
    refine (eval_fold h n f).bind fun ⟨v, f⟩ => ?_
    exact (evalAll_foldAll h ns f).bind fun _ => .refl _

end

end Eval

end Evaluation

/-! ## Trees -/

namespace Folding

mutual

/-- `Folds n n'`: some operator nodes of `n` are constants of the same type and position in `n'`,
and all other nodes are the same, with the same type and position. -/
inductive Folds : Node → Node → Prop
  | binaryConst {op lhs rhs tag pos} (v : Value) :
    Folds (.binary op lhs rhs (some v.ty) tag pos) (.const v pos)
  | unaryConst {op operand pos} (v : Value) :
    Folds (.unary op operand (some v.ty) pos) (.const v pos)
  | const {v pos} : Folds (.const v pos) (.const v pos)
  | read {name x ty pos} : Folds (.read name x ty pos) (.read name x ty pos)
  | binary {op lhs lhs' rhs rhs' ty tag pos} : Folds lhs lhs' → Folds rhs rhs' →
    Folds (.binary op lhs rhs ty tag pos) (.binary op lhs' rhs' ty tag pos)
  | unary {op operand operand' ty pos} : Folds operand operand' →
    Folds (.unary op operand ty pos) (.unary op operand' ty pos)
  | call {name callee args args' ty pos} : FoldsAll args args' →
    Folds (.call name callee args ty pos) (.call name callee args' ty pos)
  | ifThen {test test' written yes yes' ty tag pos} : Folds test test' → Folds yes yes' →
    Folds (.ifThen test written yes ty tag pos) (.ifThen test' written yes' ty tag pos)
  | ifThenElse {test test' written yes yes' no no' ty tag pos} :
    Folds test test' → Folds yes yes' → Folds no no' →
    Folds (.ifThenElse test written yes no ty tag pos)
      (.ifThenElse test' written yes' no' ty tag pos)
  | block {nodes nodes' ty pos} : FoldsAll nodes nodes' →
    Folds (.block nodes ty pos) (.block nodes' ty pos)
  | assign {name x value value' ty pos} : Folds value value' →
    Folds (.assign name x value ty pos) (.assign name x value' ty pos)
  | declare {name x written pos} :
    Folds (.declare name x written pos) (.declare name x written pos)
  | define {name x written init init' pos} : Folds init init' →
    Folds (.define name x written init pos) (.define name x written init' pos)
  | error {pos} : Folds (.error pos) (.error pos)

/-- `Folds` for the nodes of two lists, one by one. -/
inductive FoldsAll : List Node → List Node → Prop
  | nil : FoldsAll [] []
  | cons {n n' ns ns'} : Folds n n' → FoldsAll ns ns' → FoldsAll (n :: ns) (n' :: ns')

end

mutual

theorem folds_fold : ∀ n : Node, Folds n (fold n)
  | .const v pos => .const
  | .error pos => .error
  | .read name x ty pos => .read
  | .binary op lhs rhs ty tag pos => by
    obtain h | ⟨a, b, v, p, q, hl, hr, hv, rfl, h⟩ :=
      Evaluation.fold_binary_cases op lhs rhs ty tag pos
    · rw [h]
      exact .binary (folds_fold lhs) (folds_fold rhs)
    · rw [h]
      exact .binaryConst v
  | .unary op operand ty pos => by
    obtain h | ⟨a, v, p, ha, hv, rfl, h⟩ := Evaluation.fold_unary_cases op operand ty pos
    · rw [h]
      exact .unary (folds_fold operand)
    · rw [h]
      exact .unaryConst v
  | .call name callee args ty pos => .call (foldsAll_foldAll args)
  | .ifThen test written yes ty tag pos => .ifThen (folds_fold test) (folds_fold yes)
  | .ifThenElse test written yes no ty tag pos =>
    .ifThenElse (folds_fold test) (folds_fold yes) (folds_fold no)
  | .block nodes ty pos => .block (foldsAll_foldAll nodes)
  | .assign name x value ty pos => .assign (folds_fold value)
  | .declare name x written pos => .declare
  | .define name x written init pos => .define (folds_fold init)

theorem foldsAll_foldAll : ∀ ns : List Node, FoldsAll ns (foldAll ns)
  | [] => .nil
  | n :: ns => .cons (folds_fold n) (foldsAll_foldAll ns)

end

end Folding

/-! ## Packages -/

namespace Package

open Evaluation

theorem decls_fold (p : Package) (h : p.stage.IsFoldable) (i : Nat) :
    (p.fold h).decls[i]? = p.decls[i]?.map Folding.foldDecl := List.getElem?_map

/-- A call in a folded package goes like the call in the package. -/
theorem invoke_fold (p : Package) (h : p.stage.IsFoldable) (depth : Nat) (id : DeclId)
    (args : List Value) : Alike (p.invoke depth id args) ((p.fold h).invoke depth id args) := by
  induction depth generalizing id args with
  | zero => exact .refl _
  | succ depth ih =>
    rw [invoke, invoke, decls_fold]
    cases p.decls[id.index]? with
    | none => exact .refl _
    | some d =>
      simp only [Option.map_some, Folding.foldDecl]
      split
      · exact (eval_fold ih d.body _).bind fun _ => .refl _
      · exact .refl _

/-- **Folding preserves behaviour.** Whatever the bound on nested calls, a call in the folded
package ends as in the package, with the same value or for the same reason, after the same calls,
introductions and assignments. The bodies of the folded package are those of the package up to
operator nodes that have become constants of their type at their position. -/
theorem fold_preserves_behaviour (p : Package) (h : p.stage.IsFoldable) :
    (∀ depth id args, Alike (p.invoke depth id args) ((p.fold h).invoke depth id args)) ∧
    (p.fold h).symbols = p.symbols ∧ (p.fold h).scopes = p.scopes ∧
    (p.fold h).decls.length = p.decls.length ∧
    ∀ (i : Nat) (d : Declaration), p.decls[i]? = some d →
      ∃ body, (p.fold h).decls[i]? = some { d with body := body } ∧ Folding.Folds d.body body := by
  refine ⟨p.invoke_fold h, rfl, rfl, List.length_map _, ?_⟩
  intro i d hd
  refine ⟨Folding.fold d.body, ?_, Folding.folds_fold d.body⟩
  rw [decls_fold, hd]
  rfl

theorem fold_preserves_behaviour_doubling : doublingPackage.stage.IsFoldable ∧
    Alike (doublingPackage.invoke 2 ⟨1⟩ [])
      ((doublingPackage.fold (.of_eq_checked rfl)).invoke 2 ⟨1⟩ []) :=
  ⟨.of_eq_checked rfl,
    (fold_preserves_behaviour doublingPackage (.of_eq_checked rfl)).1 2 ⟨1⟩ []⟩

end Package

end CalcLang
