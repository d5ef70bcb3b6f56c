import CalcLang.Proofs.C.Declarations
import CalcLang.Proofs.Excerpts
import CalcLang.Proofs.Frames
import CalcLang.Proofs.Numbering
import CalcLang.Proofs.Parsing
import CalcLang.Proofs.Policy
import CalcLang.Proofs.Unresolved
import Mathlib.Algebra.GroupWithZero.Nat
import Mathlib.Algebra.Order.BigOperators.Group.List
import Mathlib.Algebra.Order.Group.Nat

/-!
# Weights of trees

A compilation counts the entries of its tables, the tags that it gives and the operands that it
copies. All these counts are at most the number of tokens of the source texts, but for the scope
around the program. They are bounded by sums over trees in which names and binary operations count
differently: `weight leaf step` counts `leaf` for each name or literal, `step` for each binary
operation, 2 for an `if` with two branches and 1 for every other form. A chain of operands makes one
operation less than it has operands, so as long as `leaf` and `step` are at most 1 together, the
weight of an expression and one more `step` are paid by its tokens
(`Grammar.Phrase.weight_tree_le`). Lowering and folding drop nodes at most, and the other stages
keep them.
-/

namespace CalcLang

section

variable (leaf step : Nat)

mutual

/-- The weight of an expression. -/
def Expr.weight : Expr → Nat
  | .int .. | .bool .. | .name .. => leaf
  | .binary _ lhs rhs _ => lhs.weight + rhs.weight + step
  | .unary _ operand _ => operand.weight + 1
  | .ifThen test _ yes _ => test.weight + yes.weight + 1
  | .ifThenElse test _ yes no _ => test.weight + yes.weight + no.weight + 2
  | .declare .. => 1
  | .define _ _ init _ => init.weight + 1
  | .assign _ value _ => value.weight + 1
  | .call _ args _ => Expr.allWeight args + 1
  | .block exprs _ => Expr.allWeight exprs + 1

/-- The weight of expressions. -/
def Expr.allWeight : List Expr → Nat
  | [] => 0
  | e :: es => e.weight + Expr.allWeight es

end

mutual

/-- The weight of a node. -/
def Node.weight : Node → Nat
  | .const .. | .read .. => leaf
  | .error .. => 0
  | .binary _ lhs rhs .. => lhs.weight + rhs.weight + step
  | .unary _ operand .. => operand.weight + 1
  | .ifThen test _ yes .. => test.weight + yes.weight + 1
  | .ifThenElse test _ yes no .. => test.weight + yes.weight + no.weight + 2
  | .declare .. => 1
  | .define _ _ _ init _ => init.weight + 1
  | .assign _ _ value .. => value.weight + 1
  | .call _ _ args .. => Node.allWeight args + 1
  | .block nodes .. => Node.allWeight nodes + 1

/-- The weight of nodes. -/
def Node.allWeight : List Node → Nat
  | [] => 0
  | n :: ns => n.weight + Node.allWeight ns

end

/-- The weight of a declaration, which counts 1, as each of its parameters does. -/
def Decl.weight (d : Decl) : Nat := d.params.length + d.body.weight leaf step + 1

/-- The weight of a declaration of a package. -/
def Declaration.weight (d : Declaration) : Nat := d.params.length + d.body.weight leaf step + 1

/-- The weight of declarations. -/
def Decl.totalWeight (ds : List Decl) : Nat := (ds.map (Decl.weight leaf step)).sum

/-- The weight of a package. -/
def Package.weight (p : Package) : Nat := (p.decls.map (Declaration.weight leaf step)).sum

end

variable {leaf step : Nat}

/-! ## What is counted -/

mutual

/-- There are not more tags than a node weighs. -/
theorem Node.length_named_le : ∀ n : Node, n.named.length ≤ n.weight leaf 1
  | .const .. | .read .. | .error .. => Nat.zero_le _
  | .binary _ lhs rhs .. => by
    have hl := lhs.length_named_le
    have hr := rhs.length_named_le
    simp only [Node.named, Node.weight, List.length_cons, List.length_append]
    omega
  | .unary _ operand .. => Nat.le_succ_of_le operand.length_named_le
  | .ifThen test _ yes .. => by
    have ht := test.length_named_le
    have hy := yes.length_named_le
    simp only [Node.named, Node.weight, List.length_cons, List.length_append]
    omega
  | .ifThenElse test _ yes no .. => by
    have ht := test.length_named_le
    have hy := yes.length_named_le
    have hn := no.length_named_le
    simp only [Node.named, Node.weight, List.length_cons, List.length_append]
    omega
  | .declare .. => Nat.le_refl _
  | .define _ _ _ init _ => Nat.succ_le_succ init.length_named_le
  | .assign _ _ value .. => Nat.le_succ_of_le value.length_named_le
  | .call _ _ args .. => Nat.le_succ_of_le (Node.length_allNamed_le args)
  | .block nodes .. => Nat.le_succ_of_le (Node.length_allNamed_le nodes)

theorem Node.length_allNamed_le : ∀ ns : List Node,
    (Node.allNamed ns).length ≤ Node.allWeight leaf 1 ns
  | [] => Nat.le_refl _
  | n :: ns => by
    have hn := n.length_named_le
    have hns := Node.length_allNamed_le ns
    simp only [Node.allNamed, Node.allWeight, List.length_append]
    omega

end

namespace C

theorem length_copyOf_le (n : Node) (later : List Node) : (copyOf n later).length ≤ 1 := by
  unfold copyOf
  split <;> simp

/-- The value of a node that is no name and no call is not copied. -/
theorem copyOf_eq_nil {n : Node} (hr : readsVariable n = false) (hc : valueCalls n = false)
    (later : List Node) : copyOf n later = [] := by
  simp [copyOf, mustSpill, hr, hc]

mutual

/-- An operand weighs at least as much as the copies that are made inside it and of itself. -/
theorem length_operand_le : ∀ (n : Node) (later : List Node),
    (copied n).length + (copyOf n later).length ≤ n.weight 1 step
  | .const value pos, later => by
    have hown := @copyOf_eq_nil (.const value pos) rfl rfl later
    simp [copied, hown]
  | .error pos, later => by
    have hown := @copyOf_eq_nil (.error pos) rfl rfl later
    simp [copied, hown]
  | .read name x ty pos, later => by
    have hown := length_copyOf_le (.read name x ty pos) later
    simpa [copied, Node.weight] using hown
  | .binary op lhs rhs ty tag pos, later => by
    have hown := @copyOf_eq_nil (.binary op lhs rhs ty tag pos) rfl rfl later
    have hl := length_operand_le lhs [rhs]
    have hr := length_operand_le rhs []
    simp only [copied, Node.weight, hown, List.length_append, List.length_nil]
    omega
  | .unary op operand ty pos, later => by
    have hown := length_copyOf_le (.unary op operand ty pos) later
    have ho := length_operand_le operand []
    simp only [copied, Node.weight]
    omega
  | .ifThen test written yes ty tag pos, later => by
    have hown := @copyOf_eq_nil (.ifThen test written yes ty tag pos) rfl rfl later
    have ht := length_operand_le test []
    have hy := length_operand_le yes []
    simp only [copied, Node.weight, hown, List.length_append, List.length_nil]
    omega
  | .ifThenElse test written yes no ty tag pos, later => by
    have hown := @copyOf_eq_nil (.ifThenElse test written yes no ty tag pos) rfl rfl later
    have ht := length_operand_le test []
    have hy := length_operand_le yes []
    have hn := length_operand_le no []
    simp only [copied, Node.weight, hown, List.length_append, List.length_nil]
    omega
  | .declare name x written pos, later => by
    have hown := length_copyOf_le (.declare name x written pos) later
    simpa [copied, Node.weight] using hown
  | .define name x written init pos, later => by
    have hown := length_copyOf_le (.define name x written init pos) later
    have hi := length_operand_le init []
    simp only [copied, Node.weight]
    omega
  | .assign name x value ty pos, later => by
    have hown := length_copyOf_le (.assign name x value ty pos) later
    have hv := length_operand_le value []
    simp only [copied, Node.weight]
    omega
  | .call name callee args ty pos, later => by
    have hown := length_copyOf_le (.call name callee args ty pos) later
    have ha := length_copiedOperands_le args
    simp only [copied, Node.weight]
    omega
  | .block nodes ty pos, later => by
    have hown := length_copyOf_le (.block nodes ty pos) later
    have hns := length_copiedAll_le nodes
    simp only [copied, Node.weight]
    omega

theorem length_copiedOperands_le : ∀ ns : List Node,
    (copiedOperands ns).length ≤ Node.allWeight 1 step ns
  | [] => Nat.le_refl _
  | n :: ns => by
    have hn := length_operand_le n ns
    have hns := length_copiedOperands_le ns
    simp only [copiedOperands, Node.allWeight, List.length_append]
    omega

theorem length_copiedAll_le : ∀ ns : List Node,
    (copiedAll ns).length ≤ Node.allWeight 1 step ns
  | [] => Nat.le_refl _
  | n :: ns => by
    have hn := length_operand_le n []
    have hns := length_copiedAll_le ns
    simp only [copiedAll, Node.allWeight, List.length_append]
    omega

end

/-- There are not more copies in a node than it weighs. -/
theorem length_copied_le (n : Node) : (copied n).length ≤ n.weight 1 step :=
  Nat.le_of_add_right_le (length_operand_le n [])

end C

/-! ## Stages -/

mutual

theorem Node.weight_untyped : ∀ n : Node, n.untyped.weight leaf step = n.weight leaf step
  | .const .. | .error .. | .read .. | .declare .. => rfl
  | .binary _ lhs rhs .. => by
    simp only [Node.untyped, Node.weight, lhs.weight_untyped, rhs.weight_untyped]
  | .unary _ operand .. => by simp only [Node.untyped, Node.weight, operand.weight_untyped]
  | .ifThen test _ yes .. => by
    simp only [Node.untyped, Node.weight, test.weight_untyped, yes.weight_untyped]
  | .ifThenElse test _ yes no .. => by
    simp only [Node.untyped, Node.weight, test.weight_untyped, yes.weight_untyped,
      no.weight_untyped]
  | .define _ _ _ init _ => by simp only [Node.untyped, Node.weight, init.weight_untyped]
  | .assign _ _ value .. => by simp only [Node.untyped, Node.weight, value.weight_untyped]
  | .call _ _ args .. => by simp only [Node.untyped, Node.weight, Node.allWeight_allUntyped args]
  | .block nodes .. => by simp only [Node.untyped, Node.weight, Node.allWeight_allUntyped nodes]

theorem Node.allWeight_allUntyped : ∀ ns : List Node,
    Node.allWeight leaf step (Node.allUntyped ns) = Node.allWeight leaf step ns
  | [] => rfl
  | n :: ns => by
    simp only [Node.allUntyped, Node.allWeight, n.weight_untyped, Node.allWeight_allUntyped ns]

end

mutual

theorem Node.weight_untagged : ∀ n : Node, n.untagged.weight leaf step = n.weight leaf step
  | .const .. | .error .. | .read .. | .declare .. => rfl
  | .binary _ lhs rhs .. => by
    simp only [Node.untagged, Node.weight, lhs.weight_untagged, rhs.weight_untagged]
  | .unary _ operand .. => by simp only [Node.untagged, Node.weight, operand.weight_untagged]
  | .ifThen test _ yes .. => by
    simp only [Node.untagged, Node.weight, test.weight_untagged, yes.weight_untagged]
  | .ifThenElse test _ yes no .. => by
    simp only [Node.untagged, Node.weight, test.weight_untagged, yes.weight_untagged,
      no.weight_untagged]
  | .define _ _ _ init _ => by simp only [Node.untagged, Node.weight, init.weight_untagged]
  | .assign _ _ value .. => by simp only [Node.untagged, Node.weight, value.weight_untagged]
  | .call _ _ args .. => by
    simp only [Node.untagged, Node.weight, Node.allWeight_allUntagged args]
  | .block nodes .. => by
    simp only [Node.untagged, Node.weight, Node.allWeight_allUntagged nodes]

theorem Node.allWeight_allUntagged : ∀ ns : List Node,
    Node.allWeight leaf step (Node.allUntagged ns) = Node.allWeight leaf step ns
  | [] => rfl
  | n :: ns => by
    simp only [Node.allUntagged, Node.allWeight, n.weight_untagged, Node.allWeight_allUntagged ns]

end

mutual

/-- An operation that becomes a value weighs at least as much as the value does. -/
theorem Folding.weight_fold_le : ∀ n : Node, (fold n).weight leaf step ≤ n.weight leaf step
  | .const .. | .error .. | .read .. | .declare .. => Nat.le_refl _
  | .binary op lhs rhs ty tag pos => by
    have hl := weight_fold_le lhs
    have hr := weight_fold_le rhs
    rcases Evaluation.fold_binary_cases op lhs rhs ty tag pos with
      h | ⟨a, b, v, p, q, hlhs, hrhs, -, -, h⟩
    · rw [h]
      simp only [Node.weight]
      omega
    · rw [hlhs] at hl
      rw [h]
      simp only [Node.weight] at hl ⊢
      omega
  | .unary op operand ty pos => by
    have ho := weight_fold_le operand
    rcases Evaluation.fold_unary_cases op operand ty pos with h | ⟨a, v, p, hoperand, -, -, h⟩
    · rw [h]
      exact Nat.succ_le_succ ho
    · rw [hoperand] at ho
      rw [h]
      exact Nat.le_succ_of_le ho
  | .ifThen test _ yes .. => by
    have ht := weight_fold_le test
    have hy := weight_fold_le yes
    simp only [fold, Node.weight]
    omega
  | .ifThenElse test _ yes no .. => by
    have ht := weight_fold_le test
    have hy := weight_fold_le yes
    have hn := weight_fold_le no
    simp only [fold, Node.weight]
    omega
  | .define _ _ _ init _ => Nat.succ_le_succ (weight_fold_le init)
  | .assign _ _ value .. => Nat.succ_le_succ (weight_fold_le value)
  | .call _ _ args .. => Nat.succ_le_succ (allWeight_foldAll_le args)
  | .block nodes .. => Nat.succ_le_succ (allWeight_foldAll_le nodes)

theorem Folding.allWeight_foldAll_le : ∀ ns : List Node,
    Node.allWeight leaf step (foldAll ns) ≤ Node.allWeight leaf step ns
  | [] => Nat.le_refl _
  | n :: ns => Nat.add_le_add (weight_fold_le n) (allWeight_foldAll_le ns)

end

namespace Resolution

mutual

/-- A node weighs at most as much as its expression. One that does not resolve weighs nothing. -/
theorem weight_lower_le (scope : ScopeId) : ∀ (e : Expr) (n : Names),
    (lower scope e n).1.weight leaf step ≤ e.weight leaf step
  | .int .., _ | .bool .., _ | .declare .., _ => Nat.le_refl _
  | .name ident, n => by
    rw [lower]
    cases n.resolveVariable scope ident .notAValue with
    | ok x => exact Nat.le_refl _
    | error d => exact Nat.zero_le _
  | .binary _ lhs rhs _, n => Nat.add_le_add_right
    (Nat.add_le_add (weight_lower_le scope lhs n) (weight_lower_le scope rhs _)) step
  | .unary _ operand _, n => Nat.succ_le_succ (weight_lower_le scope operand n)
  | .ifThen test _ yes _, n => Nat.succ_le_succ
    (Nat.add_le_add (weight_lower_le scope test n) (weight_lower_le _ yes _))
  | .ifThenElse test _ yes no _, n => Nat.add_le_add_right
    (Nat.add_le_add (Nat.add_le_add (weight_lower_le scope test n) (weight_lower_le _ yes _))
      (weight_lower_le _ no _)) 2
  | .define _ _ init _, n => Nat.succ_le_succ (weight_lower_le scope init n)
  | .assign name value _, n => by
    have hv := weight_lower_le scope value n
    rw [lower]
    dsimp only
    cases (lower scope value n).2.1.resolveVariable scope name .notAssignable with
    | ok x => exact Nat.succ_le_succ hv
    | error d => exact Nat.zero_le _
  | .call name args _, n => by
    have ha := allWeight_lowerAll_le scope args n
    rw [lower]
    dsimp only
    cases (lowerAll scope args n).2.1.resolveDeclaration scope name with
    | ok callee => exact Nat.succ_le_succ ha
    | error d => exact Nat.zero_le _
  | .block exprs _, n => Nat.succ_le_succ (allWeight_lowerAll_le _ exprs _)

theorem allWeight_lowerAll_le (scope : ScopeId) : ∀ (es : List Expr) (n : Names),
    Node.allWeight leaf step (lowerAll scope es n).1 ≤ Expr.allWeight leaf step es
  | [], _ => Nat.le_refl _
  | e :: es, n => Nat.add_le_add (weight_lower_le scope e n) (allWeight_lowerAll_le scope es _)

end

theorem weight_lowerBody_le (scope : ScopeId) (body : Expr) (n : Names) :
    (lowerBody scope body n).1.weight leaf step ≤ body.weight leaf step := by
  cases body with
  | block exprs pos => exact Nat.succ_le_succ (allWeight_lowerAll_le scope exprs n)
  | _ => exact weight_lower_le scope _ n

theorem length_bindParams (scope : ScopeId) (ps : List Param) (n : Names) :
    (bindParams scope ps n).1.length = ps.length := by
  induction ps generalizing n with
  | nil => rfl
  | cons p ps ih => exact congrArg (· + 1) (ih _)

theorem weight_lowerDecls_le (ds : List (Decl × SymbolId)) (n : Names) :
    ((lowerDecls ds n).1.map (Declaration.weight leaf step)).sum ≤
      Decl.totalWeight leaf step (ds.map Prod.fst) := by
  induction ds generalizing n with
  | nil => exact Nat.le_refl _
  | cons d ds ih =>
    have hd : (lowerDecl d.1 d.2 n).1.weight leaf step ≤ d.1.weight leaf step := by
      refine Nat.succ_le_succ (Nat.add_le_add (Nat.le_of_eq (length_bindParams ..)) ?_)
      exact weight_lowerBody_le ..
    exact Nat.add_le_add hd (ih _)

end Resolution

/-! ## Tables -/

theorem Expr.length_branchFrames_le (e : Expr) (inner : List (List Ident)) :
    (e.branchFrames inner).length ≤ inner.length + 1 := by
  unfold branchFrames
  split
  · exact Nat.le_succ _
  · exact Nat.le_refl _

mutual

/-- An expression opens no more scopes than it weighs. -/
theorem Expr.length_frames_le : ∀ e : Expr, e.frames.length ≤ e.weight leaf step
  | .int .. | .bool .. | .name .. | .declare .. => Nat.zero_le _
  | .binary _ lhs rhs _ => by
    have hl := lhs.length_frames_le
    have hr := rhs.length_frames_le
    rw [frames, List.length_append, weight]
    omega
  | .unary _ operand _ => operand.length_frames_le.trans (Nat.le_succ _)
  | .ifThen test _ yes _ => by
    have ht := test.length_frames_le
    have hy := yes.length_frames_le
    have hbranch := yes.length_branchFrames_le yes.frames
    rw [frames, List.length_append, weight]
    omega
  | .ifThenElse test _ yes no _ => by
    have ht := test.length_frames_le
    have hy := yes.length_frames_le
    have hn := no.length_frames_le
    have hyes := yes.length_branchFrames_le yes.frames
    have hno := no.length_branchFrames_le no.frames
    rw [frames, List.length_append, List.length_append, weight]
    omega
  | .define _ _ init _ => init.length_frames_le.trans (Nat.le_succ _)
  | .assign _ value _ => value.length_frames_le.trans (Nat.le_succ _)
  | .call _ args _ => (Expr.length_allFrames_le args).trans (Nat.le_succ _)
  | .block exprs _ => Nat.succ_le_succ (Expr.length_allFrames_le exprs)

theorem Expr.length_allFrames_le : ∀ es : List Expr,
    (Expr.allFrames es).length ≤ Expr.allWeight leaf step es
  | [] => Nat.le_refl _
  | e :: es => by
    have he := e.length_frames_le
    have hes := Expr.length_allFrames_le es
    rw [allFrames, List.length_append, allWeight]
    omega

end

theorem Decl.length_frames_le (d : Decl) : d.frames.length ≤ d.weight leaf step := by
  have hbody : d.body.bodyFrames.2.length ≤ d.body.weight leaf step := by
    cases d.body with
    | block exprs _ => exact (Expr.length_allFrames_le exprs).trans (Nat.le_succ _)
    | _ => exact Expr.length_frames_le _
  rw [frames, List.length_cons, weight]
  omega

namespace Resolution

theorem size_symbols_bind (n : Names) (scope : ScopeId) (ident : Ident) (kind : SymbolKind)
    (ty : Option Ty) : (n.bind scope ident kind ty).1.symbols.size = n.symbols.size + 1 := by
  unfold Names.bind
  split <;> exact Array.size_push _

theorem size_symbols_branch_le (scope : ScopeId) (branch : Expr) (n : Names) {weight : Nat}
    (h : ∀ (inner : ScopeId) (n' : Names),
      (lower inner branch n').2.1.symbols.size ≤ n'.symbols.size + weight) :
    (lower (n.enterBranch scope branch).1 branch (n.enterBranch scope branch).2).2.1.symbols.size ≤
      n.symbols.size + weight := by
  have hsymbols : (n.enterBranch scope branch).2.symbols = n.symbols := by
    unfold Names.enterBranch
    split <;> rfl
  have hbranch := h (n.enterBranch scope branch).1 (n.enterBranch scope branch).2
  rwa [hsymbols] at hbranch

mutual

/-- Lowering an expression makes no more symbols than the expression weighs. -/
theorem size_symbols_lower_le (scope : ScopeId) : ∀ (e : Expr) (n : Names),
    (lower scope e n).2.1.symbols.size ≤ n.symbols.size + e.weight leaf step
  | .int .., _ | .bool .., _ => Nat.le_add_right _ _
  | .name ident, n => by
    rw [lower]
    split
    · exact Nat.le_add_right _ _
    · exact Nat.le_add_right _ _
  | .binary _ lhs rhs _, n => by
    have hl := size_symbols_lower_le scope lhs n
    refine (size_symbols_lower_le scope rhs (lower scope lhs n).2.1).trans ?_
    rw [Expr.weight]
    omega
  | .unary _ operand _, n => (size_symbols_lower_le scope operand n).trans (Nat.le_succ _)
  | .ifThen test _ yes _, n => by
    have ht := size_symbols_lower_le scope test n
    refine (size_symbols_branch_le scope yes (lower scope test n).2.1
      fun inner n' => size_symbols_lower_le inner yes n').trans ?_
    rw [Expr.weight]
    omega
  | .ifThenElse test _ yes no _, n => by
    have ht := size_symbols_lower_le scope test n
    let entered := (lower scope test n).2.1.enterBranch scope yes
    have hy : (lower entered.1 yes entered.2).2.1.symbols.size ≤ _ :=
      size_symbols_branch_le scope yes (lower scope test n).2.1
        fun inner n' => size_symbols_lower_le inner yes n'
    refine (size_symbols_branch_le scope no (lower entered.1 yes entered.2).2.1
      fun inner n' => size_symbols_lower_le inner no n').trans ?_
    rw [Expr.weight]
    omega
  | .declare name ty _, n => Nat.le_of_eq (size_symbols_bind ..)
  | .define _ _ init _, n =>
    (Nat.le_of_eq (size_symbols_bind ..)).trans
      (Nat.succ_le_succ (size_symbols_lower_le scope init n))
  | .assign name value _, n => by
    have hv := (size_symbols_lower_le scope value n).trans (Nat.le_succ _)
    rw [lower]
    dsimp only
    split
    · exact hv
    · exact hv
  | .call name args _, n => by
    have ha := (size_symbols_lowerAll_le scope args n).trans (Nat.le_succ _)
    rw [lower]
    dsimp only
    split
    · exact ha
    · exact ha
  | .block exprs _, n =>
    (size_symbols_lowerAll_le n.scopes.nextId exprs (n.push scope)).trans (Nat.le_succ _)

theorem size_symbols_lowerAll_le (scope : ScopeId) : ∀ (es : List Expr) (n : Names),
    (lowerAll scope es n).2.1.symbols.size ≤ n.symbols.size + Expr.allWeight leaf step es
  | [], _ => Nat.le_refl _
  | e :: es, n => by
    have he := size_symbols_lower_le scope e n
    refine (size_symbols_lowerAll_le scope es (lower scope e n).2.1).trans ?_
    rw [Expr.allWeight]
    omega

end

theorem size_symbols_lowerBody_le (scope : ScopeId) (body : Expr) (n : Names) :
    (lowerBody scope body n).2.1.symbols.size ≤ n.symbols.size + body.weight leaf step := by
  cases body with
  | block exprs _ => exact (size_symbols_lowerAll_le scope exprs n).trans (Nat.le_succ _)
  | _ => exact size_symbols_lower_le scope _ n

theorem size_symbols_bindParams (scope : ScopeId) (ps : List Param) (n : Names) :
    (bindParams scope ps n).2.1.symbols.size = n.symbols.size + ps.length := by
  induction ps generalizing n with
  | nil => rfl
  | cons p ps ih =>
    rw [bindParams, List.length_cons]
    dsimp only
    rw [ih, size_symbols_bind]
    omega

/-- Lowering declarations makes no more symbols than they weigh without being counted
themselves. -/
theorem size_symbols_lowerDecls_le (ds : List (Decl × SymbolId)) (n : Names) :
    (lowerDecls ds n).2.1.symbols.size + ds.length ≤
      n.symbols.size + Decl.totalWeight leaf step (ds.map Prod.fst) := by
  induction ds generalizing n with
  | nil => exact Nat.le_refl _
  | cons d ds ih =>
    let bound := bindParams n.scopes.nextId d.1.params (n.push .package)
    have hparams : bound.2.1.symbols.size = n.symbols.size + d.1.params.length :=
      size_symbols_bindParams ..
    have hbody := @size_symbols_lowerBody_le leaf step n.scopes.nextId d.1.body bound.2.1
    have hds := ih (lowerBody n.scopes.nextId d.1.body bound.2.1).2.1
    rw [List.length_cons, List.map_cons, Decl.totalWeight, List.map_cons, List.sum_cons,
      Decl.weight]
    rw [Decl.totalWeight] at hds
    change (lowerDecls ds (lowerBody n.scopes.nextId d.1.body bound.2.1).2.1).2.1.symbols.size +
      (ds.length + 1) ≤ _
    omega

theorem size_symbols_declareAll (accepted : Nat) (ds : List Decl) (n : Names) :
    (declareAll accepted ds n).2.1.symbols.size =
      n.symbols.size + (declareAll accepted ds n).1.length := by
  induction ds generalizing accepted n with
  | nil => rfl
  | cons d ds ih =>
    rw [declareAll]
    split
    · exact ih accepted n
    · dsimp only
      rw [ih, size_symbols_bind, List.length_cons]
      omega

end Resolution

namespace Package

variable {p : Package}

theorem weight_build_le (name : String) (files : List (List Decl)) :
    (Package.build name files).1.weight leaf step ≤ Decl.totalWeight leaf step files.flatten := by
  have hkept := Resolution.sublist_declareAll 0 files.flatten .initial
  exact (Resolution.weight_lowerDecls_le ..).trans ((hkept.map _).sum_le_sum (by simp))

/-- There are not more symbols than the declarations weigh. -/
theorem size_symbols_build_le (name : String) (files : List (List Decl)) :
    (Package.build name files).1.symbols.size ≤ Decl.totalWeight leaf step files.flatten := by
  let declared := Resolution.declareAll 0 files.flatten .initial
  have hdeclared : declared.2.1.symbols.size = 0 + declared.1.length :=
    Resolution.size_symbols_declareAll ..
  have hlowered := @Resolution.size_symbols_lowerDecls_le leaf step declared.1 declared.2.1
  have hkept : Decl.totalWeight leaf step (declared.1.map Prod.fst) ≤
      Decl.totalWeight leaf step files.flatten :=
    ((Resolution.sublist_declareAll 0 files.flatten .initial).map _).sum_le_sum (by simp)
  change (Resolution.lowerDecls declared.1 declared.2.1).2.1.symbols.size ≤ _
  omega

/-- There are not more scopes than the declarations weigh, but for that around the program. -/
theorem size_scopes_build_le (name : String) (files : List (List Decl)) :
    (Package.build name files).1.scopes.scopes.size ≤
      Decl.totalWeight leaf step files.flatten + 1 := by
  have hsize : (build name files).1.scopes.scopes.size = _ := (framed_build name files).1.size
  rw [hsize, frames, List.length_cons, List.length_flatMap]
  refine Nat.succ_le_succ ?_
  exact (List.sum_le_sum fun d _ => d.length_frames_le).trans
    (((Lexical.sublist_firsts [] files.flatten).map _).sum_le_sum (by simp))

/-- There are not more declarations than the package weighs. -/
theorem length_decls_le (p : Package) : p.decls.length ≤ p.weight leaf step := by
  have hone : ∀ w ∈ p.decls.map (Declaration.weight leaf step), 1 ≤ w := fun w hw => by
    obtain ⟨d, -, rfl⟩ := List.mem_map.1 hw
    exact Nat.succ_pos _
  have hlength := List.length_le_sum_of_one_le _ hone
  rwa [List.length_map] at hlength

theorem weight_untyped (p : Package) : p.untyped.weight leaf step = p.weight leaf step := by
  simp only [weight, untyped, map, List.map_map, Function.comp_def, Declaration.weight,
    Node.weight_untyped]
  rfl

theorem weight_untagged (p : Package) : p.untagged.weight leaf step = p.weight leaf step := by
  simp only [weight, untagged, map, List.map_map, Function.comp_def, Declaration.weight,
    Node.weight_untagged]
  rfl

theorem weight_check (p : Package) (hb : p.stage = .built) :
    (p.check hb).1.weight leaf step = p.weight leaf step := by
  rw [← weight_untyped, untyped_check, ← weight_untyped p]
  rfl

theorem weight_tag (p : Package) (hc : p.stage.IsChecked) (first : Nat) :
    (p.tag hc first).1.weight leaf step = p.weight leaf step := by
  rw [← weight_untagged, untagged_tag, ← weight_untagged p]
  rfl

theorem weight_fold_le (p : Package) (hf : p.stage.IsFoldable) :
    (p.fold hf).weight leaf step ≤ p.weight leaf step := by
  simp only [weight, fold, List.map_map]
  exact List.sum_le_sum fun d _ =>
    Nat.succ_le_succ (Nat.add_le_add_left (Folding.weight_fold_le d.body) _)

/-- There are not more tags than a package weighs. -/
theorem length_holders_le (p : Package) : p.holders.length ≤ p.weight leaf 1 := by
  rw [holders, List.length_flatMap]
  refine List.sum_le_sum fun d _ => ?_
  have hbody : d.body.named.length ≤ d.body.weight leaf 1 := d.body.length_named_le
  simp only [Declaration.holders, Node.holders, Declaration.weight, List.length_append,
    List.length_map]
  omega

end Package

/-! ## Tokens -/

theorem Expr.weight_chain (op : BinaryOp) (pos : Pos) (first : Expr) (rest : List Expr) :
    (rest.foldl (fun lhs rhs => Expr.binary op lhs rhs pos) first).weight leaf step =
      first.weight leaf step + Expr.allWeight leaf step rest + step * rest.length := by
  induction rest generalizing first with
  | nil => rfl
  | cons e rest ih =>
    rw [List.foldl_cons, ih, List.length_cons, Nat.mul_succ, Expr.weight, Expr.allWeight]
    omega

namespace Grammar

variable {file : FileId}

theorem Phrase.length_trees (ps : List Phrase) : (Phrase.trees file ps).length = ps.length := by
  induction ps with
  | nil => rfl
  | cons p ps ih => exact congrArg (· + 1) ih

mutual

/-- The tokens of an expression pay for its weight, and for being an operand. -/
theorem Phrase.weight_tree_le (h : leaf + step ≤ 1) : ∀ p : Phrase,
    (p.tree file).weight leaf step + step ≤ p.tokens.length
  | .int .. | .truth _ | .falsehood _ | .name _ => h
  | .list opening content closing => by
    have hcontent := content.weight_tree_le h (place file opening.token closing.token)
    simp only [Phrase.tree, Phrase.tokens, List.length_cons, List.length_append, List.length_nil]
    omega

theorem Content.weight_tree_le (h : leaf + step ≤ 1) : ∀ (c : Content) (pos : Pos),
    (c.tree file pos).weight leaf step + step ≤ c.tokens.length + 2
  | .unary op operator operand, pos => by
    have ho := operand.weight_tree_le h
    simp only [Content.tree, Expr.weight, Content.tokens, List.length_cons]
    omega
  | .chain op operator first second rest, pos => by
    have hfirst := first.weight_tree_le h
    have hsecond := second.weight_tree_le h
    have hrest := Phrase.allWeight_trees_le h rest
    simp only [Content.tree, Expr.weight_chain, Expr.allWeight, Phrase.length_trees,
      Content.tokens, List.length_cons, List.length_append, Nat.mul_succ]
    omega
  | .ifThen word test type yes, pos => by
    have ht := test.weight_tree_le h
    have hy := yes.weight_tree_le h
    simp only [Content.tree, Expr.weight, Content.tokens, List.length_cons, List.length_append]
    omega
  | .ifThenElse word test type yes no, pos => by
    have ht := test.weight_tree_le h
    have hy := yes.weight_tree_le h
    have hn := no.weight_tree_le h
    simp only [Content.tree, Expr.weight, Content.tokens, List.length_cons, List.length_append]
    omega
  | .declare word name type, pos => by
    simp only [Content.tree, Expr.weight, Content.tokens, List.length_cons]
    omega
  | .define word opening equals name init closing type, pos => by
    have hi := init.weight_tree_le h
    simp only [Content.tree, Expr.weight, Content.tokens, List.length_cons, List.length_append]
    omega
  | .assign equals name value, pos => by
    have hv := value.weight_tree_le h
    simp only [Content.tree, Expr.weight, Content.tokens, List.length_cons]
    omega
  | .call name args, pos => by
    have ha := Phrase.allWeight_trees_le h args
    simp only [Content.tree, Expr.weight, Content.tokens, List.length_cons]
    omega
  | .block opening first closing rest, pos => by
    have hfirst := first.weight_tree_le h (place file opening.token closing.token)
    have hrest := Phrase.allWeight_trees_le h rest
    simp only [Content.tree, Expr.weight, Expr.allWeight, Content.tokens, List.length_cons,
      List.length_append]
    omega

theorem Phrase.allWeight_trees_le (h : leaf + step ≤ 1) : ∀ ps : List Phrase,
    Expr.allWeight leaf step (Phrase.trees file ps) + step * ps.length ≤
      (Phrase.allTokens ps).length
  | [] => Nat.le_refl _
  | p :: ps => by
    have hp := p.weight_tree_le h
    have hps := Phrase.allWeight_trees_le h ps
    simp only [Phrase.trees, Expr.allWeight, Phrase.allTokens, List.length_append,
      List.length_cons, Nat.mul_succ]
    omega

end

theorem length_paramsTree_le : ∀ ps : Option Params,
    (paramsTree file ps).length ≤ (paramsTokens ps).length
  | none => Nat.le_refl _
  | some ps => by
    have hgroups : (ps.groups.flatMap (Group.tree file)).length ≤
        (ps.groups.flatMap Group.tokens).length := by
      rw [List.length_flatMap, List.length_flatMap]
      exact List.sum_le_sum fun g _ => by simp [Group.tree, Group.tokens]
    simp only [paramsTree, paramsTokens, Params.tokens, List.length_cons, List.length_append]
    omega

theorem Definition.weight_tree_le (h : leaf + step ≤ 1) (d : Definition) :
    (d.tree file).weight leaf step ≤ d.tokens.length := by
  have hparams := @length_paramsTree_le file d.params
  have hbody := @Phrase.weight_tree_le leaf step file h d.body
  simp only [Definition.tree, Decl.weight, Definition.tokens, List.length_cons, List.length_append]
  omega

theorem File.totalWeight_tree_le (h : leaf + step ≤ 1) (f : File) :
    Decl.totalWeight leaf step (f.tree file) ≤ f.tokens.length := by
  rw [Decl.totalWeight, File.tree, List.map_map, File.tokens, List.length_flatMap]
  exact List.sum_le_sum fun d _ => d.weight_tree_le h

end Grammar

theorem Token.length_significant_le (text : String) :
    (significant text).length ≤ text.utf8ByteSize := by
  obtain ⟨eof, -, hscan⟩ := filter_scan text
  have hfilter := congrArg List.length hscan
  have hle := List.length_filter_le (fun t : Token => t.kind ≠ .comment) (scan text)
  have hall := length_scanFrom_le 0 text.toList
  rw [Text.byteLength_toList] at hall
  rw [List.length_append, List.length_singleton] at hfilter
  change (scan text).length ≤ _ at hall
  omega

/-- The declarations of a text that is read without an error weigh at most as much as the text has
bytes. -/
theorem Parse.totalWeight_decls_le (h : leaf + step ≤ 1) {file : FileId} {text : String}
    (herrors : (ofText file text).errors = []) :
    Decl.totalWeight leaf step (ofText file text).decls ≤ text.utf8ByteSize := by
  obtain ⟨f, hf⟩ := exists_derivation herrors
  rw [(ofText_of_tokens file hf).2]
  refine (f.totalWeight_tree_le h).trans ?_
  rw [hf]
  exact Token.length_significant_le text

/-- The number of bytes of all texts together. -/
def SourceMap.byteSize (sources : SourceMap) : Nat :=
  (sources.files.toList.map fun f => f.text.utf8ByteSize).sum

theorem SourceMap.utf8ByteSize_le {sources : SourceMap} {f : SourceFile}
    (hf : f ∈ sources.files.toList) : f.text.utf8ByteSize ≤ sources.byteSize :=
  List.single_le_sum (by simp) _ (List.mem_map_of_mem hf)

/-- The declarations of texts without syntax errors weigh at most as much as the texts have
bytes. -/
theorem Compile.totalWeight_declarations_le (h : leaf + step ≤ 1) {sources : SourceMap}
    (herrors : syntaxErrors sources = []) :
    Decl.totalWeight leaf step (declarations sources).flatten ≤ sources.byteSize := by
  have hfile : ∀ p ∈ parseAll sources,
      Decl.totalWeight leaf step p.2.2.decls ≤ p.1.text.utf8ByteSize := by
    intro p hp
    have hnone := List.flatMap_eq_nil_iff.1 herrors p hp
    obtain ⟨f, hf, rfl⟩ := List.mem_map.1 hp
    exact Parse.totalWeight_decls_le h (List.map_eq_nil_iff.1 hnone)
  have htexts : (parseAll sources).map (fun p => p.1.text.utf8ByteSize) =
      sources.files.toList.map fun f => f.text.utf8ByteSize := by
    have hfiles := List.zipIdx_map_fst 0 sources.files.toList
    conv_rhs => rw [← hfiles]
    rw [parseAll, List.map_map, List.map_map]
    rfl
  rw [Decl.totalWeight, declarations, List.map_flatten, List.sum_flatten, List.map_map,
    List.map_map, SourceMap.byteSize, ← htexts]
  exact List.sum_le_sum hfile

end CalcLang
