import CalcLang.Proofs.NewNames
import CalcLang.Proofs.Reports
import CalcLang.Proofs.WellFormed

/-!
# Errors do not cascade

A node is *pruned* when some of the nodes inside it become error nodes of the same positions
(`Pruned`). Less is known about a pruned node: its type is *below* the one of the whole node, that
is, missing or the same (`Typing.Below`), and so are the types that checking records on symbols. As
a missing type agrees with everything, checking reports less (`Pruned.check`).

A node that is cut off does not record the types of its variables any more. They keep those that
they had, which must be below those that the node records. That is so because building gives every
variable a symbol of its own with the type that is written on it (`Package.fresh_build`).
`Package.errors_do_not_cascade` is the result about packages.
-/

namespace CalcLang

namespace Typing

/-! ## Less is known -/

/-- The first type is missing or is the second one. -/
def Below (a b : Option Ty) : Prop := a = none ∨ a = b

namespace Below

variable {a b c : Option Ty}

theorem refl (a : Option Ty) : Below a a := .inr rfl

theorem none (a : Option Ty) : Below .none a := .inl rfl

theorem trans (h : Below a b) (h' : Below b c) : Below a c := by
  rcases h with rfl | rfl
  · exact .none c
  · exact h'

theorem or (w : Option Ty) (h : Below a b) : Below (w.or a) (w.or b) := by
  cases w with
  | none => exact h
  | some w => exact .refl _

theorem self_or (w a : Option Ty) : Below w (w.or a) := by
  cases w with
  | none => exact .none _
  | some w => exact .refl _

end Below

section

variable {a a' b b' : Option Ty}

theorem sublist_expect (context : Diagnostic.Context) {pos pos' : Pos} (hpos : pos' = pos)
    (ha : Below a' a) (hb : Below b' b) :
    (expect a' b' context pos').Sublist (expect a b context pos) := by
  subst hpos
  rcases ha with rfl | rfl
  · exact List.nil_sublist _
  · rcases hb with rfl | rfl
    · cases a' <;> exact List.nil_sublist _
    · exact .refl _

theorem below_agreed (ha : Below a' a) (hb : Below b' b) :
    Below (agreed a' b') (agreed a b) := by
  unfold agreed
  split
  · next heq =>
    subst heq
    rcases ha with rfl | rfl
    · exact .none _
    · rcases hb with rfl | rfl
      · exact .none _
      · rw [if_pos rfl]
        exact .refl _
  · exact .none _

theorem below_binary (op : BinaryOp) (pos : Pos) (ha : Below a' a) (hb : Below b' b) :
    Below (binary op a' b' pos).1 (binary op a b pos).1 := by
  rcases ha with rfl | rfl
  · exact .none _
  · rcases hb with rfl | rfl
    · cases a' <;> exact .none _
    · exact .refl _

theorem sublist_binary (op : BinaryOp) (pos : Pos) (ha : Below a' a) (hb : Below b' b) :
    (binary op a' b' pos).2.Sublist (binary op a b pos).2 := by
  rcases ha with rfl | rfl
  · exact List.nil_sublist _
  · rcases hb with rfl | rfl
    · cases a' <;> exact List.nil_sublist _
    · exact .refl _

theorem below_written (w : Option Ty) (pos : Pos) (ha : Below a' a) :
    Below (written w a' pos).1 (written w a pos).1 := by
  rcases ha with rfl | rfl
  · cases w <;> exact .none _
  · exact .refl _

theorem sublist_written (w : Option Ty) (pos : Pos) (ha : Below a' a) :
    (written w a' pos).2.Sublist (written w a pos).2 := by
  rcases ha with rfl | rfl
  · cases w <;> exact List.nil_sublist _
  · exact .refl _

end

/-- `Below` for the types of nodes, which come with positions. -/
inductive AllBelow : List (Option Ty × Pos) → List (Option Ty × Pos) → Prop
  | nil : AllBelow [] []
  | cons {a b : Option Ty} {pos : Pos} {as bs : List (Option Ty × Pos)} (h : Below a b)
      (hs : AllBelow as bs) : AllBelow ((a, pos) :: as) ((b, pos) :: bs)

namespace AllBelow

variable {as bs : List (Option Ty × Pos)}

theorem length_eq (h : AllBelow as bs) : as.length = bs.length := by
  induction h with
  | nil => rfl
  | cons _ _ ih => exact congrArg Nat.succ ih

theorem getLast? (h : AllBelow as bs) :
    Below (as.getLast?.bind Prod.fst) (bs.getLast?.bind Prod.fst) := by
  induction h with
  | nil => exact .none _
  | @cons a b pos as bs h hs ih =>
    cases hs with
    | nil => exact h
    | cons h' hs' =>
      rw [List.getLast?_cons_cons, List.getLast?_cons_cons]
      exact ih

theorem arguments (h : AllBelow as bs) (index : Nat) (params : List (Option Ty)) :
    (Typing.arguments index params as).Sublist (Typing.arguments index params bs) := by
  induction h generalizing index params with
  | nil => exact .refl _
  | cons h hs ih =>
    cases params with
    | nil => exact .refl _
    | cons e es => exact (sublist_expect _ rfl (.refl e) h).append (ih _ es)

theorem call (h : AllBelow as bs) (sig : Signature) (pos : Pos) :
    (Typing.call sig as pos).Sublist (Typing.call sig bs pos) := by
  unfold Typing.call
  rw [h.length_eq]
  split
  · exact h.arguments 0 sig.params
  · exact .refl _

end AllBelow

end Typing

open Typing

namespace Symbols

variable {s s' : Symbols} {x : SymbolId} {ty ty' : Option Ty}

/-- A table in which less types are known. -/
structure Below (s' s : Symbols) : Prop where
  size : s'.size = s.size
  ty : ∀ x, Typing.Below (s'.ty x) (s.ty x)

theorem Below.refl (s : Symbols) : s.Below s := ⟨rfl, fun _ => .refl _⟩

theorem Below.trans {s'' : Symbols} (h : s''.Below s') (h' : s'.Below s) : s''.Below s :=
  ⟨h.size.trans h'.size, fun x => (h.ty x).trans (h'.ty x)⟩

theorem ty_setTy_of_size_le (h : s.size ≤ x.index) : (s.setTy x ty).ty x = none := by
  have hnone : s.get? x = none := Array.getElem?_eq_none h
  rw [Symbols.ty, get?_setTy, if_pos rfl, hnone]
  rfl

theorem Below.setTy (h : s'.Below s) (x : SymbolId) (hty : Typing.Below ty' ty) :
    (s'.setTy x ty').Below (s.setTy x ty) := by
  refine ⟨by simp [h.size], fun y => ?_⟩
  by_cases hy : y = x
  · subst hy
    by_cases hlt : y.index < s.size
    · rw [ty_setTy_self _ hlt, ty_setTy_self _ (h.size ▸ hlt)]
      exact hty
    · rw [ty_setTy_of_size_le (by rw [h.size]; omega)]
      exact .none _
  · rw [ty_setTy_of_ne _ hy, ty_setTy_of_ne _ hy]
    exact h.ty y

/-- To record a type on a symbol that has none or this one. -/
theorem below_setTy (hty : Typing.Below (s.ty x) ty) : s.Below (s.setTy x ty) := by
  refine ⟨by simp, fun y => ?_⟩
  by_cases hy : y = x
  · subst hy
    by_cases hlt : y.index < s.size
    · rw [ty_setTy_self _ hlt]
      exact hty
    · have hnone : s.get? y = none := Array.getElem?_eq_none (Nat.not_lt.1 hlt)
      rw [Symbols.ty, hnone]
      exact .none _
  · rw [ty_setTy_of_ne _ hy]
    exact .refl _

end Symbols

/-! ## Variables -/

mutual

/-- The variables that a node introduces, with the types written on them. -/
def Node.introductions : Node → List (SymbolId × Option Ty)
  | .const .. | .error .. | .read .. => []
  | .binary _ lhs rhs .. => lhs.introductions ++ rhs.introductions
  | .unary _ operand .. => operand.introductions
  | .call _ _ args .. => Node.allIntroductions args
  | .ifThen test _ yes .. => test.introductions ++ yes.introductions
  | .ifThenElse test _ yes no .. =>
    test.introductions ++ yes.introductions ++ no.introductions
  | .block nodes .. => Node.allIntroductions nodes
  | .assign _ _ value .. => value.introductions
  | .declare _ x written _ => [(x, some written)]
  | .define _ x written init _ => init.introductions ++ [(x, written)]

/-- The variables that nodes introduce. -/
def Node.allIntroductions : List Node → List (SymbolId × Option Ty)
  | [] => []
  | n :: ns => n.introductions ++ Node.allIntroductions ns

end

mutual

theorem Node.map_fst_introductions : ∀ n : Node,
    n.introductions.map Prod.fst = Resolution.owned n.references
  | .const .. | .error .. | .read .. | .declare .. => rfl
  | .binary _ lhs rhs .. => by
    simp [introductions, references, Resolution.owned_append, lhs.map_fst_introductions,
      rhs.map_fst_introductions]
  | .unary _ operand .. => operand.map_fst_introductions
  | .call _ _ args .. => by
    rw [references, Resolution.owned_append]
    exact (Node.map_fst_allIntroductions args).trans (List.append_nil _).symm
  | .ifThen test _ yes .. => by
    simp [introductions, references, Resolution.owned_append, test.map_fst_introductions,
      yes.map_fst_introductions]
  | .ifThenElse test _ yes no .. => by
    simp [introductions, references, Resolution.owned_append, test.map_fst_introductions,
      yes.map_fst_introductions, no.map_fst_introductions]
  | .block nodes .. => Node.map_fst_allIntroductions nodes
  | .assign _ _ value .. => by
    rw [references, Resolution.owned_append]
    exact value.map_fst_introductions.trans (List.append_nil _).symm
  | .define _ x _ init _ => by
    rw [introductions, references, Resolution.owned_append, List.map_append,
      init.map_fst_introductions]
    rfl

theorem Node.map_fst_allIntroductions : ∀ ns : List Node,
    (Node.allIntroductions ns).map Prod.fst = Resolution.owned (Node.allReferences ns)
  | [] => rfl
  | n :: ns => by
    simp [allIntroductions, allReferences, Resolution.owned_append, n.map_fst_introductions,
      Node.map_fst_allIntroductions ns]

end

namespace Typing

mutual

/-- Checking records types on the variables of the node only. -/
theorem ty_check_of_notMem (sigs : Signatures) {x : SymbolId} : ∀ (n : Node) (s : Symbols),
    x ∉ n.introductions.map Prod.fst → (check sigs n s).2.2.1.ty x = s.ty x
  | .const .., _, _ | .error .., _, _ | .read .., _, _ => rfl
  | .binary _ lhs rhs .., s, h => by
    simp only [Node.introductions, List.map_append, List.mem_append, not_or] at h
    exact (ty_check_of_notMem sigs rhs _ h.2).trans (ty_check_of_notMem sigs lhs s h.1)
  | .unary _ operand .., s, h => ty_check_of_notMem sigs operand s h
  | .call _ callee args .., s, h => by
    have hargs := ty_checkAll_of_notMem sigs args s h
    rw [check]
    cases hsig : sigs[callee.index]? <;> simpa [hsig] using hargs
  | .ifThen test _ yes .., s, h => by
    simp only [Node.introductions, List.map_append, List.mem_append, not_or] at h
    exact (ty_check_of_notMem sigs yes _ h.2).trans (ty_check_of_notMem sigs test s h.1)
  | .ifThenElse test _ yes no .., s, h => by
    simp only [Node.introductions, List.map_append, List.mem_append, not_or] at h
    obtain ⟨⟨ht, hy⟩, hn⟩ := h
    exact (ty_check_of_notMem sigs no _ hn).trans
      ((ty_check_of_notMem sigs yes _ hy).trans (ty_check_of_notMem sigs test s ht))
  | .block nodes .., s, h => ty_checkAll_of_notMem sigs nodes s h
  | .assign _ _ value .., s, h => ty_check_of_notMem sigs value s h
  | .declare .., _, h => Symbols.ty_setTy_of_ne _ fun hx => h (hx ▸ List.mem_singleton_self _)
  | .define _ y _ init _, s, h => by
    simp only [Node.introductions, List.map_append, List.mem_append, not_or] at h
    have hne : x ≠ y := fun hx => h.2 (List.mem_singleton.2 hx)
    exact (Symbols.ty_setTy_of_ne _ hne).trans (ty_check_of_notMem sigs init s h.1)

theorem ty_checkAll_of_notMem (sigs : Signatures) {x : SymbolId} : ∀ (ns : List Node) (s : Symbols),
    x ∉ (Node.allIntroductions ns).map Prod.fst → (checkAll sigs ns s).2.2.1.ty x = s.ty x
  | [], _, _ => rfl
  | n :: ns, s, h => by
    simp only [Node.allIntroductions, List.map_append, List.mem_append, not_or] at h
    exact (ty_checkAll_of_notMem sigs ns _ h.2).trans (ty_check_of_notMem sigs n s h.1)

end

/-- The variables are different ones and their symbols know no more than what is written. -/
structure Fresh (vars : List (SymbolId × Option Ty)) (s : Symbols) : Prop where
  nodup : (vars.map Prod.fst).Nodup
  below : ∀ v ∈ vars, Below (s.ty v.1) v.2

namespace Fresh

variable {vars vars' : List (SymbolId × Option Ty)} {s s' : Symbols}

theorem of_sublist (h : Fresh vars s) (hsub : vars'.Sublist vars) : Fresh vars' s :=
  ⟨h.nodup.sublist (hsub.map _), fun v hv => h.below v (hsub.subset hv)⟩

theorem left (h : Fresh (vars ++ vars') s) : Fresh vars s :=
  h.of_sublist (List.sublist_append_left ..)

/-- Variables are fresh until they are introduced. -/
theorem right (h : Fresh (vars ++ vars') s)
    (hkeep : ∀ x, x ∉ vars.map Prod.fst → s'.ty x = s.ty x) : Fresh vars' s' := by
  obtain ⟨hnodup, hbelow⟩ := h
  rw [List.map_append, List.nodup_append] at hnodup
  refine ⟨hnodup.2.1, fun v hv => ?_⟩
  have hmem : v.1 ∈ vars'.map Prod.fst := List.mem_map_of_mem hv
  rw [hkeep v.1 fun h => hnodup.2.2 v.1 h v.1 hmem rfl]
  exact hbelow v (List.mem_append_right _ hv)

/-- `Fresh.right` for what is checked next. -/
theorem after_check {n : Node} (h : Fresh (n.introductions ++ vars) s) (sigs : Signatures) :
    Fresh vars (check sigs n s).2.2.1 :=
  h.right fun _ hx => ty_check_of_notMem sigs n s hx

end Fresh

mutual

/-- Checking a node with fresh variables makes more types known. -/
theorem below_check (sigs : Signatures) : ∀ (n : Node) {s : Symbols}, Fresh n.introductions s →
    s.Below (check sigs n s).2.2.1
  | .const .., s, _ | .error .., s, _ | .read .., s, _ => .refl s
  | .binary _ lhs rhs .., _, h =>
    (below_check sigs lhs h.left).trans (below_check sigs rhs (h.after_check sigs))
  | .unary _ operand .., _, h => below_check sigs operand h
  | .call _ callee args .., s, h => by
    have hargs := below_checkAll sigs args h
    rw [check]
    cases hsig : sigs[callee.index]? <;> simpa [hsig] using hargs
  | .ifThen test _ yes .., _, h =>
    (below_check sigs test h.left).trans (below_check sigs yes (h.after_check sigs))
  | .ifThenElse test _ yes no .., s, h => by
    rw [Node.introductions, List.append_assoc] at h
    have hbranches := h.after_check sigs
    exact ((below_check sigs test h.left).trans (below_check sigs yes hbranches.left)).trans
      (below_check sigs no (hbranches.after_check sigs))
  | .block nodes .., _, h => below_checkAll sigs nodes h
  | .assign _ _ value .., _, h => below_check sigs value h
  | .declare _ x written _, _, h => Symbols.below_setTy (h.below _ List.mem_cons_self)
  | .define _ x written init _, _, h =>
    (below_check sigs init h.left).trans
      (Symbols.below_setTy (((h.after_check sigs).below _ List.mem_cons_self).trans (.self_or ..)))

theorem below_checkAll (sigs : Signatures) : ∀ (ns : List Node) {s : Symbols},
    Fresh (Node.allIntroductions ns) s → s.Below (checkAll sigs ns s).2.2.1
  | [], s, _ => .refl s
  | n :: ns, _, h => (below_check sigs n h.left).trans (below_checkAll sigs ns (h.after_check sigs))

end

end Typing

/-! ## Pruned nodes -/

mutual

/-- The first node is the second one with some of the nodes inside it, or all of it, replaced by
error nodes of the same positions. -/
inductive Pruned : Node → Node → Prop
  | error (n : Node) : Pruned (.error n.pos) n
  | const (v : Value) (pos : Pos) : Pruned (.const v pos) (.const v pos)
  | read (name : String) (x : SymbolId) (ty : Option Ty) (pos : Pos) :
    Pruned (.read name x ty pos) (.read name x ty pos)
  | binary {op : BinaryOp} {lhs rhs lhs' rhs' : Node} {ty : Option Ty} {tag : Option Tag}
    {pos : Pos} (hl : Pruned lhs' lhs) (hr : Pruned rhs' rhs) :
    Pruned (.binary op lhs' rhs' ty tag pos) (.binary op lhs rhs ty tag pos)
  | unary {op : UnaryOp} {operand operand' : Node} {ty : Option Ty} {pos : Pos}
    (ho : Pruned operand' operand) : Pruned (.unary op operand' ty pos) (.unary op operand ty pos)
  | call {name : String} {callee : DeclId} {args args' : List Node} {ty : Option Ty} {pos : Pos}
    (ha : AllPruned args' args) :
    Pruned (.call name callee args' ty pos) (.call name callee args ty pos)
  | ifThen {test yes test' yes' : Node} {written ty : Option Ty} {tag : Option Tag} {pos : Pos}
    (ht : Pruned test' test) (hy : Pruned yes' yes) :
    Pruned (.ifThen test' written yes' ty tag pos) (.ifThen test written yes ty tag pos)
  | ifThenElse {test yes no test' yes' no' : Node} {written ty : Option Ty} {tag : Option Tag}
    {pos : Pos} (ht : Pruned test' test) (hy : Pruned yes' yes) (hn : Pruned no' no) :
    Pruned (.ifThenElse test' written yes' no' ty tag pos)
      (.ifThenElse test written yes no ty tag pos)
  | block {nodes nodes' : List Node} {ty : Option Ty} {pos : Pos} (hns : AllPruned nodes' nodes) :
    Pruned (.block nodes' ty pos) (.block nodes ty pos)
  | assign {name : String} {x : SymbolId} {value value' : Node} {ty : Option Ty} {pos : Pos}
    (hv : Pruned value' value) : Pruned (.assign name x value' ty pos) (.assign name x value ty pos)
  | declare (name : String) (x : SymbolId) (written : Ty) (pos : Pos) :
    Pruned (.declare name x written pos) (.declare name x written pos)
  | define {name : String} {x : SymbolId} {written : Option Ty} {init init' : Node} {pos : Pos}
    (hi : Pruned init' init) :
    Pruned (.define name x written init' pos) (.define name x written init pos)

/-- `Pruned` for each of some nodes. -/
inductive AllPruned : List Node → List Node → Prop
  | nil : AllPruned [] []
  | cons {n n' : Node} {ns ns' : List Node} (h : Pruned n' n) (hs : AllPruned ns' ns) :
    AllPruned (n' :: ns') (n :: ns)

end

/-- Pruning does not move a node. -/
theorem Pruned.pos_check {n n' : Node} (h : Pruned n' n) (sigs : Signatures) (s' s : Symbols) :
    (Typing.check sigs n' s').1.pos = (Typing.check sigs n s).1.pos := by
  rw [Typing.pos_check, Typing.pos_check]
  cases h <;> rfl

/-- A check that knows and reports less than another one. -/
structure Weaker {α τ : Type} (below : τ → τ → Prop) (r' r : Checked α τ) : Prop where
  ty : below r'.2.1 r.2.1
  symbols : r'.2.2.1.Below r.2.2.1
  reports : r'.2.2.2.Sublist r.2.2.2

mutual

/-- **Checking a pruned node reports less.** -/
theorem Pruned.check (sigs : Signatures) : ∀ {n n' : Node} {s s' : Symbols}, Pruned n' n →
    s'.Below s → Fresh n.introductions s →
      Weaker Below (Typing.check sigs n' s') (Typing.check sigs n s)
  | n, _, _, _, .error _, hs, hf => ⟨.none _, hs.trans (below_check sigs n hf), List.nil_sublist _⟩
  | _, _, _, _, .const .., hs, _ => ⟨.refl _, hs, .refl _⟩
  | _, _, _, _, .read _ x .., hs, _ => ⟨hs.ty x, hs, .refl _⟩
  | _, _, _, _, .binary hl hr, hs, hf => by
    have l := Pruned.check sigs hl hs hf.left
    have r := Pruned.check sigs hr l.symbols (hf.after_check sigs)
    exact ⟨below_binary _ _ l.ty r.ty, r.symbols,
      (l.reports.append r.reports).append (sublist_binary _ _ l.ty r.ty)⟩
  | _, _, _, _, .unary ho, hs, hf => by
    have o := Pruned.check sigs ho hs hf
    exact ⟨below_agreed (.refl _) o.ty, o.symbols,
      o.reports.append (sublist_expect _ rfl (.refl _) o.ty)⟩
  | .call _ callee .., _, _, _, .call ha, hs, hf => by
    have a := AllPruned.check sigs ha hs hf
    rw [Typing.check, Typing.check]
    cases hsig : sigs[callee.index]? with
    | none => exact ⟨.refl _, a.symbols, a.reports⟩
    | some sig => exact ⟨.refl _, a.symbols, a.reports.append (a.ty.call sig _)⟩
  | _, _, s, s', .ifThen ht hy, hs, hf => by
    have t := Pruned.check sigs ht hs hf.left
    have y := Pruned.check sigs hy t.symbols (hf.after_check sigs)
    have cond := sublist_expect .condition (ht.pos_check sigs s' s) (.refl (some .bool)) t.ty
    exact ⟨below_written _ _ y.ty, y.symbols,
      ((t.reports.append cond).append y.reports).append (sublist_written _ _ y.ty)⟩
  | _, _, s, s', .ifThenElse ht hy hn, hs, hf => by
    rw [Node.introductions, List.append_assoc] at hf
    have hbranches := hf.after_check sigs
    have t := Pruned.check sigs ht hs hf.left
    have y := Pruned.check sigs hy t.symbols hbranches.left
    have n := Pruned.check sigs hn y.symbols (hbranches.after_check sigs)
    have cond := sublist_expect .condition (ht.pos_check sigs s' s) (.refl (some .bool)) t.ty
    have unified := below_agreed y.ty n.ty
    exact ⟨below_written _ _ unified, n.symbols,
      ((((t.reports.append cond).append y.reports).append n.reports).append
        (sublist_expect _ (hn.pos_check sigs _ _) y.ty n.ty)).append
          (sublist_written _ _ unified)⟩
  | _, _, _, _, .block hns, hs, hf => by
    have ns := AllPruned.check sigs hns hs hf
    exact ⟨ns.ty.getLast?, ns.symbols, ns.reports⟩
  | _, _, s, s', .assign hv, hs, hf => by
    have v := Pruned.check sigs hv hs hf
    exact ⟨below_agreed (v.symbols.ty _) v.ty, v.symbols,
      v.reports.append (sublist_expect _ (hv.pos_check sigs s' s) (v.symbols.ty _) v.ty)⟩
  | _, _, _, _, .declare .., hs, _ => ⟨.refl _, hs.setTy _ (.refl _), .refl _⟩
  | _, _, s, s', .define hi, hs, hf => by
    have i := Pruned.check sigs hi hs hf.left
    exact ⟨i.ty.or _, i.symbols.setTy _ (i.ty.or _),
      i.reports.append (sublist_expect _ (hi.pos_check sigs s' s) (.refl _) i.ty)⟩

theorem AllPruned.check (sigs : Signatures) : ∀ {ns ns' : List Node} {s s' : Symbols},
    AllPruned ns' ns → s'.Below s → Fresh (Node.allIntroductions ns) s →
      Weaker AllBelow (Typing.checkAll sigs ns' s') (Typing.checkAll sigs ns s)
  | _, _, _, _, .nil, hs, _ => ⟨.nil, hs, .refl _⟩
  | _, _, s, s', .cons h hns, hs, hf => by
    have first := Pruned.check sigs h hs hf.left
    have rest := AllPruned.check sigs hns first.symbols (hf.after_check sigs)
    rw [Typing.checkAll, Typing.checkAll]
    refine ⟨?_, rest.symbols, first.reports.append rest.reports⟩
    simp only [h.pos_check sigs s' s]
    exact .cons first.ty rest.ty

end

mutual

theorem Pruned.refl : ∀ n : Node, Pruned n n
  | .const v pos => .const v pos
  | .error pos => .error (.error pos)
  | .read name x ty pos => .read name x ty pos
  | .binary _ lhs rhs .. => .binary (.refl lhs) (.refl rhs)
  | .unary _ operand .. => .unary (.refl operand)
  | .call _ _ args .. => .call (.refl args)
  | .ifThen test _ yes .. => .ifThen (.refl test) (.refl yes)
  | .ifThenElse test _ yes no .. => .ifThenElse (.refl test) (.refl yes) (.refl no)
  | .block nodes .. => .block (.refl nodes)
  | .assign _ _ value .. => .assign (.refl value)
  | .declare name x written pos => .declare name x written pos
  | .define _ _ _ init _ => .define (.refl init)

theorem AllPruned.refl : ∀ ns : List Node, AllPruned ns ns
  | [] => .nil
  | n :: ns => .cons (.refl n) (.refl ns)

end

mutual

/-- Variables inside nodes that are cut off are gone. -/
theorem Pruned.sublist_introductions : ∀ {n n' : Node}, Pruned n' n →
    n'.introductions.Sublist n.introductions
  | _, _, .error _ => List.nil_sublist _
  | _, _, .const .. => .refl _
  | _, _, .read .. => .refl _
  | _, _, .binary hl hr => hl.sublist_introductions.append hr.sublist_introductions
  | _, _, .unary ho => ho.sublist_introductions
  | _, _, .call ha => ha.sublist_introductions
  | _, _, .ifThen ht hy => ht.sublist_introductions.append hy.sublist_introductions
  | _, _, .ifThenElse ht hy hn =>
    (ht.sublist_introductions.append hy.sublist_introductions).append hn.sublist_introductions
  | _, _, .block hns => hns.sublist_introductions
  | _, _, .assign hv => hv.sublist_introductions
  | _, _, .declare .. => .refl _
  | _, _, .define hi => hi.sublist_introductions.append (.refl _)

theorem AllPruned.sublist_introductions : ∀ {ns ns' : List Node}, AllPruned ns' ns →
    (Node.allIntroductions ns').Sublist (Node.allIntroductions ns)
  | _, _, .nil => .refl _
  | _, _, .cons h hs => h.sublist_introductions.append hs.sublist_introductions

end

/-! ## Pruned packages -/

/-- The variables that declarations introduce. -/
def Declaration.introductions (d : Declaration) : List (SymbolId × Option Ty) :=
  d.body.introductions

/-- The first declarations are the second ones with pruned bodies. -/
inductive DeclsPruned : List Declaration → List Declaration → Prop
  | nil : DeclsPruned [] []
  | cons {d : Declaration} {body : Node} {ds ds' : List Declaration} (h : Pruned body d.body)
    (hs : DeclsPruned ds' ds) : DeclsPruned ({ d with body := body } :: ds') (d :: ds)

namespace DeclsPruned

variable {ds ds' : List Declaration}

theorem refl (ds : List Declaration) : DeclsPruned ds ds := by
  induction ds with
  | nil => exact .nil
  | cons d ds ih => exact .cons (.refl d.body) ih

theorem signatures (h : DeclsPruned ds' ds) (s : Symbols) :
    Typing.signatures s ds' = Typing.signatures s ds := by
  induction h with
  | nil => rfl
  | cons _ _ ih => exact congrArg (_ :: ·) ih

theorem sublist_introductions (h : DeclsPruned ds' ds) :
    (ds'.flatMap Declaration.introductions).Sublist (ds.flatMap Declaration.introductions) := by
  induction h with
  | nil => exact .refl _
  | cons h _ ih => exact h.sublist_introductions.append ih

theorem check (h : DeclsPruned ds' ds) (sigs : Signatures) {s s' : Symbols} (hs : s'.Below s)
    (hf : Fresh (ds.flatMap Declaration.introductions) s) :
    (Typing.checkDecls sigs ds' s').2.2.Sublist (Typing.checkDecls sigs ds s).2.2 := by
  induction h generalizing s s' with
  | nil => exact .refl _
  | cons h _ ih =>
    have body := h.check sigs hs hf.left
    exact (body.reports.append (sublist_expect _ (h.pos_check sigs s' s) (.refl _) body.ty)).append
      (ih body.symbols (hf.after_check sigs))

end DeclsPruned

/-- The first package is the second one with expressions in the bodies of declarations replaced by
error nodes of the same positions. -/
def Package.Pruned (p' p : Package) : Prop :=
  ∃ decls, DeclsPruned decls p.decls ∧ p' = { p with decls := decls }

/-- The variables of the package are different ones and their symbols know no more than what is
written. -/
def Package.Fresh (p : Package) : Prop :=
  Typing.Fresh (p.decls.flatMap Declaration.introductions) p.symbols

namespace Package

variable {p p' : Package}

theorem Pruned.refl (p : Package) : p.Pruned p := ⟨p.decls, .refl _, rfl⟩

theorem Pruned.fresh (h : p'.Pruned p) (hf : p.Fresh) : p'.Fresh := by
  obtain ⟨decls, hdecls, rfl⟩ := h
  exact hf.of_sublist hdecls.sublist_introductions

theorem Pruned.sublist_check (h : p'.Pruned p) (hf : p.Fresh) (hb : p.stage = .built)
    (hb' : p'.stage = .built) : (p'.check hb').2.Sublist (p.check hb).2 := by
  obtain ⟨decls, hdecls, rfl⟩ := h
  change (Typing.checkDecls (Typing.signatures p.symbols decls) decls p.symbols).2.2.Sublist _
  rw [hdecls.signatures]
  exact hdecls.check _ (.refl p.symbols) hf

end Package

/-! ## Packages as they are built -/

namespace Resolution

/-- The symbols of the variables have the types written on them. -/
def Introduced (vars : List (SymbolId × Option Ty)) (s : Symbols) : Prop :=
  ∀ v ∈ vars, ∃ e, s.get? v.1 = some e ∧ e.ty = v.2

theorem Introduced.append {vars vars' : List (SymbolId × Option Ty)} {s : Symbols}
    (h : Introduced vars s) (h' : Introduced vars' s) : Introduced (vars ++ vars') s :=
  List.forall_mem_append.2 ⟨h, h'⟩

theorem kept_introduced (vars : List (SymbolId × Option Ty)) :
    Names.Kept fun n => Introduced vars n.symbols := by
  refine .of_symbols fun s e _ hs v hv => ?_
  obtain ⟨e', he', hty⟩ := hs v hv
  have hlt : v.1.index < s.size := (Array.getElem?_eq_some_iff.1 he').1
  refine ⟨e', ?_, hty⟩
  rw [Symbols.get?, Array.getElem?_push, if_neg (Nat.ne_of_lt hlt)]
  exact he'

/-- A variable gets the next symbol, with the type written on it. -/
theorem introduced_bind (n : Names) (scope : ScopeId) (ident : Ident) (kind : SymbolKind)
    (ty : Option Ty) : Introduced [(n.nextSymbol, ty)] (n.bind scope ident kind ty).1.symbols := by
  have hnew := Names.get?_addSymbol n ident kind ty
  obtain h | ⟨h, -⟩ := Names.bind_cases n scope ident kind ty
  · rw [h]
    exact List.forall_mem_singleton.2 ⟨_, hnew, rfl⟩
  · rw [h]
    exact List.forall_mem_singleton.2 ⟨_, hnew, rfl⟩

mutual

/-- The variables of a lowered expression have symbols with the types written on them. -/
theorem introduced_lower (scope : ScopeId) : ∀ (e : Expr) (n : Names),
    Introduced (lower scope e n).1.introductions (lower scope e n).2.1.symbols
  | .int .., _ | .bool .., _ => nofun
  | .name ident, n => by
    rw [lower]
    split
    · exact nofun
    · exact nofun
  | .binary _ lhs rhs _, n =>
    ((kept_introduced _).lower scope rhs _ (introduced_lower scope lhs n)).append
      (introduced_lower scope rhs _)
  | .unary _ operand _, n => introduced_lower scope operand n
  | .ifThen test _ yes _, n =>
    ((kept_introduced _).branch scope yes _ (introduced_lower scope test n)).append
      (introduced_lower _ yes _)
  | .ifThenElse test _ yes no _, n => by
    have hbefore := ((kept_introduced _).branch scope yes _ (introduced_lower scope test n)).append
      (introduced_lower _ yes _)
    exact ((kept_introduced _).branch scope no _ hbefore).append (introduced_lower _ no _)
  | .declare .., n => introduced_bind n scope _ _ _
  | .define _ _ init _, n =>
    ((kept_introduced _).bind _ scope _ _ _ (introduced_lower scope init n)).append
      (introduced_bind _ scope _ _ _)
  | .assign name value _, n => by
    have hvalue := introduced_lower scope value n
    rw [lower]
    dsimp only
    split
    · exact hvalue
    · exact nofun
  | .call name args _, n => by
    have hargs := introduced_lowerAll scope args n
    rw [lower]
    dsimp only
    split
    · exact hargs
    · exact nofun
  | .block exprs _, n => introduced_lowerAll _ exprs _

theorem introduced_lowerAll (scope : ScopeId) : ∀ (es : List Expr) (n : Names),
    Introduced (Node.allIntroductions (lowerAll scope es n).1) (lowerAll scope es n).2.1.symbols
  | [], _ => nofun
  | e :: es, n =>
    ((kept_introduced _).lowerAll scope es _ (introduced_lower scope e n)).append
      (introduced_lowerAll scope es _)

end

theorem introduced_lowerBody (scope : ScopeId) (body : Expr) (n : Names) :
    Introduced (lowerBody scope body n).1.introductions (lowerBody scope body n).2.1.symbols := by
  unfold lowerBody
  split
  · exact introduced_lowerAll scope _ n
  · exact introduced_lower scope _ n

theorem introduced_lowerDecls (ds : List (Decl × SymbolId)) (n : Names) :
    Introduced ((lowerDecls ds n).1.flatMap Declaration.introductions)
      (lowerDecls ds n).2.1.symbols := by
  induction ds generalizing n with
  | nil => exact nofun
  | cons d ds ih =>
    have hbody := introduced_lowerBody n.scopes.nextId d.1.body
      (bindParams n.scopes.nextId d.1.params (n.push .package)).2.1
    exact ((kept_introduced _).lowerDecls ds _ hbody).append (ih _)

end Resolution

namespace Package

/-- The variables of a built package are fresh. -/
theorem fresh_build (name : String) (files : List (List Decl)) :
    (Package.build name files).1.Fresh := by
  have howned := (wellFormed_build name files).owned
  have hvars : Resolution.Introduced
      ((Package.build name files).1.decls.flatMap Declaration.introductions)
      (Package.build name files).1.symbols :=
    Resolution.introduced_lowerDecls _ _
  generalize (Package.build name files).1 = p at howned hvars
  refine ⟨howned.sublist ?_, fun v hv => ?_⟩
  · -- Beside its variables a declaration owns its parameters.
    induction p.decls with
    | nil => exact .refl _
    | cons d ds ih =>
      rw [List.flatMap_cons, List.flatMap_cons, List.map_append, Resolution.owned_append,
        Declaration.references, Resolution.owned_append, Declaration.introductions,
        d.body.map_fst_introductions]
      exact (List.sublist_append_right ..).append ih
  · obtain ⟨e, he, hty⟩ := hvars v hv
    rw [Symbols.ty, he]
    exact .inr hty

/-- **Errors do not cascade.** In a package as it is built of any files, perhaps with some
expressions replaced by error nodes already, to replace more expressions takes reports of type
checking away and adds none. And what type checking reports of types is always that one of `int` and
`bool` was found where the other one was expected. -/
theorem errors_do_not_cascade (name : String) (files : List (List Decl)) (p p' : Package)
    (hp : p.Pruned (Package.build name files).1) (hp' : p'.Pruned p) (hb : p.stage = .built)
    (hb' : p'.stage = .built) :
    (p'.check hb').2.Sublist (p.check hb).2 ∧
      ∀ (q : Package) (hq : q.stage = .built), ∀ d ∈ (q.check hq).2, ∀ expected found context,
        d.kind = .typeMismatch expected found context →
          (expected, found) = ("int", "bool") ∨ (expected, found) = ("bool", "int") := by
  refine ⟨hp'.sublist_check (hp.fresh (fresh_build name files)) hb hb', ?_⟩
  intro q hq d hd expected found context hkind
  cases (q.disagreements_check hq).of_mem d hd with
  | @types e f _ _ hne _ =>
    cases hkind
    cases e <;> cases f
    · exact absurd rfl hne
    · exact .inl rfl
    · exact .inr rfl
    · exact absurd rfl hne
  | arity => cases hkind

/-- For an example: a variable of the wrong type that is added to itself. -/
def wrongVariable : List Decl :=
  let x : Ident := ⟨"x", .origin⟩
  [⟨⟨"main", .origin⟩, [], ⟨.int, .origin⟩,
    .block [.define x none (.bool true .origin) .origin,
      .binary .add (.binary .add (.name x) (.name x) .origin) (.name x) .origin] .origin, .origin⟩]

/-- Replaces the first node of a block. -/
def cutFirst : Node → Node
  | .block (n :: ns) ty pos => .block (.error n.pos :: ns) ty pos
  | n => n

/-- Replaces the first node of each body that is a block. -/
def cutFirsts (p : Package) : Package :=
  { p with decls := p.decls.map fun d => { d with body := cutFirst d.body } }

theorem pruned_cutFirsts (p : Package) : (cutFirsts p).Pruned p := by
  refine ⟨_, ?_, rfl⟩
  induction p.decls with
  | nil => exact .nil
  | cons d ds ih =>
    refine .cons ?_ ih
    generalize d.body = n
    unfold cutFirst
    split
    · exact .block (.cons (.error _) (.refl _))
    · exact .refl n

/-- Without the variable nothing is known about what is added to it. -/
theorem errors_do_not_cascade_wrongVariable :
    let p := (Package.build "main" [wrongVariable]).1
    (cutFirsts p).Pruned p ∧ ((cutFirsts p).check rfl).2.Sublist (p.check rfl).2 ∧
      (p.check rfl).2 = [mismatch .int .bool .operand .origin] ∧
      ((cutFirsts p).check rfl).2 = [] := by
  have hcut := pruned_cutFirsts (Package.build "main" [wrongVariable]).1
  have h := errors_do_not_cascade "main" [wrongVariable] _ _ (.refl _) hcut rfl rfl
  exact ⟨hcut, h.1, by decide, by decide⟩

end Package

end CalcLang
