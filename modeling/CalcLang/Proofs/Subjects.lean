import CalcLang.Proofs.C.Gaps
import CalcLang.Proofs.Frames
import CalcLang.Proofs.Origins
import CalcLang.Proofs.Unresolved
import CalcLang.Proofs.WellFormed

/-!
# What diagnostics are about

Resolution reports names: each of its diagnostics is at a name of the declarations, and tells it
(`Package.about_build`). Checking and generation report nodes, and these stand where the expressions
do that they are made of (`Package.places_build`, `Package.WellFormed.isGap_toC`).
-/

namespace CalcLang

open Diagnostic

/-! ## Names -/

/-- The name that a report of resolution is about. -/
def Diagnostic.Kind.subject? : Kind → Option String
  | .unresolvedName name | .redeclaration name _ | .notCallable name | .notAssignable name
  | .notAValue name => some name
  | _ => none

/-- A report is at one of some names and tells the name. -/
def Diagnostic.IsAbout (xs : List Ident) (d : Diagnostic) : Prop :=
  ∃ x ∈ xs, d.pos = x.pos ∧ d.kind.subject? = some x.name

namespace Resolution

variable {xs : List Ident}

theorem about_bind (n : Names) (scope : ScopeId) {x : Ident} (kind : SymbolKind) (ty : Option Ty)
    (hx : x ∈ xs) : All (IsAbout xs) (n.bind scope x kind ty).2 := by
  unfold Names.bind
  split
  · exact .one ⟨x, hx, rfl, rfl⟩
  · exact .nil

theorem about_resolveVariable {n : Names} {scope : ScopeId} {x : Ident}
    {misuse : String → Diagnostic.Kind} {d : Diagnostic}
    (h : n.resolveVariable scope x misuse = .error d) (hx : x ∈ xs)
    (hmisuse : (misuse x.name).subject? = some x.name) : d.IsAbout xs := by
  rcases Names.error_of_resolveVariable h with rfl | rfl
  · exact ⟨x, hx, rfl, rfl⟩
  · exact ⟨x, hx, rfl, hmisuse⟩

theorem about_resolveDeclaration {n : Names} {scope : ScopeId} {x : Ident} {d : Diagnostic}
    (h : n.resolveDeclaration scope x = .error d) (hx : x ∈ xs) : d.IsAbout xs := by
  rcases Names.error_of_resolveDeclaration h with rfl | rfl
  · exact ⟨x, hx, rfl, rfl⟩
  · exact ⟨x, hx, rfl, rfl⟩

mutual

/-- What is reported about an expression is about its names. -/
theorem about_lower (scope : ScopeId) : ∀ (e : Expr) (n : Names), e.idents ⊆ xs →
    All (IsAbout xs) (lower scope e n).2.2
  | .int .., _, _ | .bool .., _, _ => .nil
  | .name x, n, h => by
    rw [lower]
    split
    · exact .nil
    · next hd => exact .one (about_resolveVariable hd (h (List.mem_singleton_self x)) rfl)
  | .binary _ lhs rhs _, n, h => by
    obtain ⟨hl, hr⟩ := List.append_subset.1 h
    exact (about_lower scope lhs n hl).append (about_lower scope rhs _ hr)
  | .unary _ operand _, n, h => about_lower scope operand n h
  | .ifThen test _ yes _, n, h => by
    obtain ⟨ht, hy⟩ := List.append_subset.1 h
    exact (about_lower scope test n ht).append (about_lower _ yes _ hy)
  | .ifThenElse test _ yes no _, n, h => by
    obtain ⟨ht, h⟩ := List.append_subset.1 h
    obtain ⟨hy, hn⟩ := List.append_subset.1 h
    exact ((about_lower scope test n ht).append (about_lower _ yes _ hy)).append
      (about_lower _ no _ hn)
  | .declare x ty _, n, h =>
    about_bind n scope .variable (some ty.ty) (h (List.mem_singleton_self x))
  | .define x _ init _, n, h => by
    obtain ⟨hx, hv⟩ := List.cons_subset.1 h
    exact (about_lower scope init n hv).append (about_bind _ scope .variable _ hx)
  | .assign x value _, n, h => by
    obtain ⟨hx, hv⟩ := List.cons_subset.1 h
    have hvalue := about_lower scope value n hv
    rw [lower]
    dsimp only
    split
    · exact hvalue
    · next hd => exact hvalue.append (.one (about_resolveVariable hd hx rfl))
  | .call x args _, n, h => by
    obtain ⟨hx, ha⟩ := List.cons_subset.1 h
    have hargs := about_lowerAll scope args n ha
    rw [lower]
    dsimp only
    split
    · exact hargs
    · next hd => exact hargs.append (.one (about_resolveDeclaration hd hx))
  | .block exprs _, n, h => about_lowerAll _ exprs _ h

theorem about_lowerAll (scope : ScopeId) : ∀ (es : List Expr) (n : Names), Expr.allIdents es ⊆ xs →
    All (IsAbout xs) (lowerAll scope es n).2.2
  | [], _, _ => .nil
  | e :: es, n, h => by
    obtain ⟨he, hes⟩ := List.append_subset.1 h
    exact (about_lower scope e n he).append (about_lowerAll scope es _ hes)

end

theorem about_lowerBody (scope : ScopeId) (body : Expr) (n : Names) (h : body.idents ⊆ xs) :
    All (IsAbout xs) (lowerBody scope body n).2.2 := by
  cases body with
  | block exprs pos => exact about_lowerAll scope exprs n h
  | _ => exact about_lower scope _ n h

theorem about_bindParams (scope : ScopeId) (ps : List Param) (n : Names)
    (h : ps.map Param.name ⊆ xs) : All (IsAbout xs) (bindParams scope ps n).2.2 := by
  induction ps generalizing n with
  | nil => exact .nil
  | cons p ps ih =>
    obtain ⟨hp, hps⟩ := List.cons_subset.1 h
    exact (about_bind n scope .param _ hp).append (ih _ hps)

theorem about_lowerDecls (ds : List (Decl × SymbolId)) (n : Names)
    (h : ∀ d ∈ ds, d.1.idents ⊆ xs) : All (IsAbout xs) (lowerDecls ds n).2.2 := by
  induction ds generalizing n with
  | nil => exact .nil
  | cons d ds ih =>
    obtain ⟨hd, hds⟩ := List.forall_mem_cons.1 h
    obtain ⟨hp, hb⟩ := List.append_subset.1 (List.cons_subset.1 hd).2
    exact ((about_bindParams _ d.1.params _ hp).append (about_lowerBody _ d.1.body _ hb)).append
      (ih _ hds)

theorem about_declareAll (accepted : Nat) (ds : List Decl) (n : Names)
    (h : ∀ d ∈ ds, d.name ∈ xs) : All (IsAbout xs) (declareAll accepted ds n).2.2 := by
  induction ds generalizing accepted n with
  | nil => exact .nil
  | cons d ds ih =>
    obtain ⟨hd, hds⟩ := List.forall_mem_cons.1 h
    rw [declareAll]
    split
    · exact .cons ⟨d.name, hd, rfl, rfl⟩ (ih accepted n hds)
    · exact ih _ _ hds

end Resolution

/-- Resolution reports names of the declarations, and tells them. -/
theorem Package.about_build (name : String) (files : List (List Decl)) :
    All (IsAbout (files.flatten.flatMap Decl.idents)) (Package.build name files).2 := by
  have hidents : ∀ d ∈ files.flatten, d.idents ⊆ files.flatten.flatMap Decl.idents :=
    fun d hd x hx => List.mem_flatMap.2 ⟨d, hd, hx⟩
  refine .append (Resolution.about_declareAll _ _ _ fun d hd => hidents d hd List.mem_cons_self)
    (Resolution.about_lowerDecls _ _ fun d hd => hidents d.1 ?_)
  exact (Resolution.sublist_declareAll ..).subset (List.mem_map_of_mem hd)

/-! ## Places -/

namespace Resolution

variable {P : Pos → Prop}

mutual

/-- Nodes stand where the expressions do that they are made of. -/
theorem places_lower (scope : ScopeId) : ∀ (e : Expr) (n : Names), (∀ q ∈ e.places, P q) →
    ∀ q ∈ (lower scope e n).1.positions, P q
  | .int .., _, h | .bool .., _, h | .declare .., _, h => h
  | .name _, n, h => by
    rw [lower]
    split
    · exact h
    · exact h
  | .binary _ lhs rhs _, n, h => by
    obtain ⟨hpos, h⟩ := List.forall_mem_cons.1 h
    obtain ⟨hl, hr⟩ := List.forall_mem_append.1 h
    exact List.forall_mem_cons.2 ⟨hpos, List.forall_mem_append.2
      ⟨places_lower scope lhs n hl, places_lower scope rhs _ hr⟩⟩
  | .unary _ operand _, n, h => by
    obtain ⟨hpos, ho⟩ := List.forall_mem_cons.1 h
    exact List.forall_mem_cons.2 ⟨hpos, places_lower scope operand n ho⟩
  | .ifThen test _ yes _, n, h => by
    obtain ⟨hpos, h⟩ := List.forall_mem_cons.1 h
    obtain ⟨ht, hy⟩ := List.forall_mem_append.1 h
    exact List.forall_mem_cons.2 ⟨hpos, List.forall_mem_append.2
      ⟨places_lower scope test n ht, places_lower _ yes _ hy⟩⟩
  | .ifThenElse test _ yes no _, n, h => by
    obtain ⟨hpos, h⟩ := List.forall_mem_cons.1 h
    obtain ⟨ht, h⟩ := List.forall_mem_append.1 h
    obtain ⟨hy, hn⟩ := List.forall_mem_append.1 h
    exact List.forall_mem_cons.2 ⟨hpos, List.forall_mem_append.2 ⟨places_lower scope test n ht,
      List.forall_mem_append.2 ⟨places_lower _ yes _ hy, places_lower _ no _ hn⟩⟩⟩
  | .define _ _ init _, n, h => by
    obtain ⟨hpos, hv⟩ := List.forall_mem_cons.1 h
    exact List.forall_mem_cons.2 ⟨hpos, places_lower scope init n hv⟩
  | .assign _ value _, n, h => by
    obtain ⟨hpos, hv⟩ := List.forall_mem_cons.1 h
    have hvalue := places_lower scope value n hv
    rw [lower]
    dsimp only
    split
    · exact List.forall_mem_cons.2 ⟨hpos, hvalue⟩
    · exact List.forall_mem_singleton.2 hpos
  | .call _ args _, n, h => by
    obtain ⟨hpos, ha⟩ := List.forall_mem_cons.1 h
    have hargs := places_lowerAll scope args n ha
    rw [lower]
    dsimp only
    split
    · exact List.forall_mem_cons.2 ⟨hpos, hargs⟩
    · exact List.forall_mem_singleton.2 hpos
  | .block exprs _, n, h => by
    obtain ⟨hpos, he⟩ := List.forall_mem_cons.1 h
    exact List.forall_mem_cons.2 ⟨hpos, places_lowerAll _ exprs _ he⟩

theorem places_lowerAll (scope : ScopeId) : ∀ (es : List Expr) (n : Names),
    (∀ q ∈ Expr.allPlaces es, P q) → ∀ q ∈ Node.allPositions (lowerAll scope es n).1, P q
  | [], _, h => h
  | e :: es, n, h => by
    obtain ⟨he, hes⟩ := List.forall_mem_append.1 h
    exact List.forall_mem_append.2 ⟨places_lower scope e n he, places_lowerAll scope es _ hes⟩

end

theorem places_lowerBody (scope : ScopeId) (body : Expr) (n : Names)
    (h : ∀ q ∈ body.places, P q) : ∀ q ∈ (lowerBody scope body n).1.positions, P q := by
  cases body with
  | block exprs pos =>
    obtain ⟨hpos, he⟩ := List.forall_mem_cons.1 h
    exact List.forall_mem_cons.2 ⟨hpos, places_lowerAll scope exprs n he⟩
  | _ => exact places_lower scope _ n h

theorem places_lowerDecls (ds : List (Decl × SymbolId)) (n : Names)
    (h : ∀ d ∈ ds, ∀ q ∈ d.1.body.places, P q) :
    ∀ d ∈ (lowerDecls ds n).1, ∀ q ∈ d.body.positions, P q := by
  induction ds generalizing n with
  | nil => exact nofun
  | cons d ds ih =>
    obtain ⟨hd, hds⟩ := List.forall_mem_cons.1 h
    exact List.forall_mem_cons.2 ⟨places_lowerBody _ d.1.body _ hd, ih _ hds⟩

end Resolution

theorem Package.places_build (name : String) (files : List (List Decl)) {P : Pos → Prop}
    (h : ∀ d ∈ files.flatten, ∀ q ∈ d.body.places, P q) :
    ∀ q ∈ (Package.build name files).1.positions, P q := by
  intro q hq
  obtain ⟨d, hd, hq⟩ := List.mem_flatMap.1 hq
  refine Resolution.places_lowerDecls _ _ (fun d hd => h d.1 ?_) d hd q hq
  exact (Resolution.sublist_declareAll ..).subset (List.mem_map_of_mem hd)

/-! ## Stages -/

mutual

theorem positions_untyped : ∀ n : Node, n.untyped.positions = n.positions
  | .const .. | .error .. | .read .. | .declare .. => rfl
  | .binary _ lhs rhs .. => by
    simp only [Node.untyped, Node.positions, positions_untyped lhs, positions_untyped rhs]
  | .unary _ operand .. => by simp only [Node.untyped, Node.positions, positions_untyped operand]
  | .call _ _ args .. => by
    simp only [Node.untyped, Node.positions, allPositions_allUntyped args]
  | .ifThen test _ yes .. => by
    simp only [Node.untyped, Node.positions, positions_untyped test, positions_untyped yes]
  | .ifThenElse test _ yes no .. => by
    simp only [Node.untyped, Node.positions, positions_untyped test, positions_untyped yes,
      positions_untyped no]
  | .block nodes .. => by simp only [Node.untyped, Node.positions, allPositions_allUntyped nodes]
  | .assign _ _ value .. => by simp only [Node.untyped, Node.positions, positions_untyped value]
  | .define _ _ _ init _ => by simp only [Node.untyped, Node.positions, positions_untyped init]

theorem allPositions_allUntyped : ∀ ns : List Node,
    Node.allPositions (Node.allUntyped ns) = Node.allPositions ns
  | [] => rfl
  | n :: ns => by
    simp only [Node.allUntyped, Node.allPositions, positions_untyped n, allPositions_allUntyped ns]

end

/-- Checking moves nothing. -/
theorem Package.positions_check (p : Package) (h : p.stage = .built) :
    (p.check h).1.positions = p.positions := by
  have huntyped : ∀ q : Package, q.untyped.positions = q.positions := fun q => by
    simp only [positions, untyped, map, List.flatMap_map, positions_untyped]
  rw [← huntyped, untyped_check, ← huntyped p]
  rfl

/-! ## Gaps -/

/-- A report of generation at one of some places. -/
def Diagnostic.IsGap (places : List Pos) (d : Diagnostic) : Prop :=
  d.pos ∈ places ∧ ∃ what, d.kind = .internalUnreachable what

section Gaps

variable {places : List Pos} (tagged : SymbolId → Bool)

theorem isGap_unreachable {what : String} {pos : Pos} (h : pos ∈ places) :
    All (IsGap places) (C.unreachable what pos) := .one ⟨h, what, rfl⟩

theorem isGap_untaggedGap (x : SymbolId) {pos : Pos} (h : pos ∈ places) :
    All (IsGap places) (untaggedGap tagged x pos) := by
  unfold untaggedGap
  split
  · exact .nil
  · exact isGap_unreachable h

theorem isGap_emptyGap (nodes : List Node) {pos : Pos} (h : pos ∈ places) :
    All (IsGap places) (emptyGap nodes pos) := by
  unfold emptyGap
  split
  · exact isGap_unreachable h
  · exact .nil

mutual

/-- The gaps of a node are at its position and at those of the nodes inside it. -/
theorem isGap_gaps : ∀ n : Node, n.positions ⊆ places → All (IsGap places) (n.gaps tagged)
  | .const .., _ => .nil
  | .error _, h => isGap_unreachable (h (List.mem_singleton_self _))
  | .read _ x .., h => isGap_untaggedGap tagged x (h (List.mem_singleton_self _))
  | .binary _ lhs rhs .., h => by
    obtain ⟨hl, hr⟩ := List.append_subset.1 (List.cons_subset.1 h).2
    exact (isGap_gaps lhs hl).append (isGap_gaps rhs hr)
  | .unary _ operand .., h => isGap_gaps operand (List.cons_subset.1 h).2
  | .call _ _ args .., h => isGap_allGaps args (List.cons_subset.1 h).2
  | .ifThen test _ yes .., h => by
    obtain ⟨ht, hy⟩ := List.append_subset.1 (List.cons_subset.1 h).2
    exact (isGap_gaps test ht).append (isGap_gaps yes hy)
  | .ifThenElse test _ yes no .., h => by
    obtain ⟨ht, h⟩ := List.append_subset.1 (List.cons_subset.1 h).2
    obtain ⟨hy, hn⟩ := List.append_subset.1 h
    exact ((isGap_gaps test ht).append (isGap_gaps yes hy)).append (isGap_gaps no hn)
  | .block nodes .., h => by
    obtain ⟨hpos, hns⟩ := List.cons_subset.1 h
    exact (isGap_emptyGap nodes hpos).append (isGap_allGaps nodes hns)
  | .assign _ x value .., h => by
    obtain ⟨hpos, hv⟩ := List.cons_subset.1 h
    exact (isGap_gaps value hv).append (isGap_untaggedGap tagged x hpos)
  | .declare _ x .., h => isGap_untaggedGap tagged x (h (List.mem_singleton_self _))
  | .define _ x _ init _, h => by
    obtain ⟨hpos, hv⟩ := List.cons_subset.1 h
    exact (isGap_gaps init hv).append (isGap_untaggedGap tagged x hpos)

theorem isGap_allGaps : ∀ ns : List Node, Node.allPositions ns ⊆ places →
    All (IsGap places) (Node.allGaps tagged ns)
  | [], _ => .nil
  | n :: ns, h => by
    obtain ⟨hn, hns⟩ := List.append_subset.1 h
    exact (isGap_gaps n hn).append (isGap_allGaps ns hns)

end

end Gaps

namespace Package

variable {p : Package}

/-- Tagging leaves no parameter out. -/
theorem WellFormed.headGaps_eq_nil (h : p.WellFormed) (hc : p.stage.IsChecked) (first : Nat)
    {d : Declaration} (hd : d ∈ p.decls) :
    d.headGaps p.symbols (p.tag hc first).1.symbols.tagged = [] := by
  refine List.flatMap_eq_nil_iff.2 fun x hx => ?_
  have hholder : some x ∈ p.holders := List.mem_flatMap.2
    ⟨d, hd, List.mem_append_left _ (List.mem_map_of_mem hx)⟩
  obtain ⟨e, he, -⟩ := h.references d hd (.owns .param x)
    (List.mem_append_left _ (List.mem_map_of_mem hx))
  have htagged : (p.tag hc first).1.symbols.tagged x = true := by
    rw [tagged_tag, if_pos hholder, he]
    rfl
  rw [untaggedGap, htagged]
  rfl

/-- Generation reports places in a well-formed package, or a missing entry. -/
theorem WellFormed.isGap_toC (h : p.WellFormed) (hc : p.stage.IsChecked) (first : Nat) :
    All (fun d => d.IsGap p.positions ∨ d = Compile.missingEntry) (p.tag hc first).1.toC.2 := by
  have hheads : p.decls.flatMap
      (Declaration.headGaps p.symbols (p.tag hc first).1.symbols.tagged) = [] :=
    List.flatMap_eq_nil_iff.2 fun d hd => h.headGaps_eq_nil hc first hd
  rw [diagnostics_toC_tag, gaps, hheads, List.nil_append]
  refine .append ⟨fun d hd => .inl ?_⟩ ?_
  · obtain ⟨decl, hdecl, hd⟩ := List.mem_flatMap.1 hd
    rw [h.headGaps_eq_nil hc first hdecl, List.nil_append] at hd
    exact (isGap_gaps _ decl.body fun q hq => List.mem_flatMap.2 ⟨decl, hdecl, hq⟩).of_mem d hd
  · unfold C.lowerEntry
    split
    · exact .nil
    · exact .one (.inr rfl)

end Package

end CalcLang
