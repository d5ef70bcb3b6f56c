import CalcLang.Proofs.Stages

/-!
# Which stage reports what

Parsing, the resolution of names and the checking of types report kinds of mistakes of their own.
What checking reports is at the position of a node (`Package.disagreements_check`). The generator
finds nothing wrong with a package that is ready for it, except that it may have no entry
(`Package.Ready.diagnostics_toC`).
-/

namespace CalcLang

namespace Diagnostic

/-- What resolution reports. -/
def IsNaming (d : Diagnostic) : Prop :=
  match d.kind with
  | .unresolvedName _ | .redeclaration .. | .notCallable _ | .notAssignable _ | .notAValue _ => True
  | _ => False

/-- What checking reports. -/
def IsTyping (d : Diagnostic) : Prop :=
  match d.kind with
  | .typeMismatch .. | .arityMismatch .. => True
  | _ => False

/-- All of some diagnostics are of one sort. -/
structure All (sort : Diagnostic → Prop) (ds : List Diagnostic) : Prop where
  of_mem : ∀ d ∈ ds, sort d

namespace All

variable {sort : Diagnostic → Prop}

theorem nil : All sort [] := ⟨nofun⟩

theorem one {d : Diagnostic} (h : sort d) : All sort [d] := ⟨List.forall_mem_singleton.2 h⟩

theorem cons {d : Diagnostic} {ds : List Diagnostic} (h : sort d) (hs : All sort ds) :
    All sort (d :: ds) := ⟨List.forall_mem_cons.2 ⟨h, hs.of_mem⟩⟩

theorem append {ds es : List Diagnostic} (h : All sort ds) (h' : All sort es) :
    All sort (ds ++ es) :=
  ⟨List.forall_mem_append.2 ⟨h.of_mem, h'.of_mem⟩⟩

end All

end Diagnostic

open Diagnostic

/-! ## Names -/

namespace Resolution

namespace Names

variable {n : Names} {scope : ScopeId} {ident : Ident} {d : Diagnostic}

theorem all_bind (n : Names) (scope : ScopeId) (ident : Ident) (kind : SymbolKind)
    (ty : Option Ty) : All IsNaming (n.bind scope ident kind ty).2 := by
  unfold bind
  split
  · exact .one trivial
  · exact .nil

theorem naming_resolveVariable {misuse : String → Diagnostic.Kind}
    (h : n.resolveVariable scope ident misuse = .error d)
    (hmisuse : IsNaming ⟨misuse ident.name, ident.pos⟩) : d.IsNaming := by
  rcases error_of_resolveVariable h with rfl | rfl
  · trivial
  · exact hmisuse

theorem naming_resolveDeclaration (h : n.resolveDeclaration scope ident = .error d) :
    d.IsNaming := by
  rcases error_of_resolveDeclaration h with rfl | rfl
  · trivial
  · trivial

end Names

mutual

theorem all_lower (scope : ScopeId) : ∀ (e : Expr) (n : Names), All IsNaming (lower scope e n).2.2
  | .int .., _ => .nil
  | .bool .., _ => .nil
  | .name ident, n => by
    rw [lower]
    split
    · exact .nil
    · next h => exact .one (Names.naming_resolveVariable h trivial)
  | .binary op lhs rhs pos, n => (all_lower scope lhs n).append (all_lower scope rhs _)
  | .unary op operand pos, n => all_lower scope operand n
  | .ifThen test ty yes pos, n => (all_lower scope test n).append (all_lower _ yes _)
  | .ifThenElse test ty yes no pos, n =>
    ((all_lower scope test n).append (all_lower _ yes _)).append (all_lower _ no _)
  | .declare name ty pos, n => Names.all_bind ..
  | .define name ty init pos, n => (all_lower scope init n).append (Names.all_bind ..)
  | .assign name value pos, n => by
    have hvalue := all_lower scope value n
    rw [lower]
    dsimp only
    split
    · exact hvalue
    · next h => exact hvalue.append (.one (Names.naming_resolveVariable h trivial))
  | .call name args pos, n => by
    have hargs := all_lowerAll scope args n
    rw [lower]
    dsimp only
    split
    · exact hargs
    · next h => exact hargs.append (.one (Names.naming_resolveDeclaration h))
  | .block exprs pos, n => all_lowerAll _ exprs _

theorem all_lowerAll (scope : ScopeId) : ∀ (es : List Expr) (n : Names),
    All IsNaming (lowerAll scope es n).2.2
  | [], _ => .nil
  | e :: es, n => (all_lower scope e n).append (all_lowerAll scope es _)

end

theorem all_lowerBody (scope : ScopeId) (body : Expr) (n : Names) :
    All IsNaming (lowerBody scope body n).2.2 := by
  unfold lowerBody
  split
  · exact all_lowerAll scope _ n
  · exact all_lower scope _ n

theorem all_bindParams (scope : ScopeId) : ∀ (ps : List Param) (n : Names),
    All IsNaming (bindParams scope ps n).2.2
  | [], _ => .nil
  | _ :: ps, _ => (Names.all_bind ..).append (all_bindParams scope ps _)

theorem all_lowerDecls : ∀ (ds : List (Decl × SymbolId)) (n : Names),
    All IsNaming (lowerDecls ds n).2.2
  | [], _ => .nil
  | _ :: ds, _ =>
    ((all_bindParams ..).append (all_lowerBody ..)).append (all_lowerDecls ds _)

theorem all_declareAll (accepted : Nat) (ds : List Decl) (n : Names) :
    All IsNaming (declareAll accepted ds n).2.2 := by
  induction ds generalizing accepted n with
  | nil => exact .nil
  | cons decl ds ih =>
    rw [declareAll]
    split
    · exact .cons trivial (ih accepted n)
    · exact ih _ _

end Resolution

/-- What is wrong with the names of a package is reported by its resolution. -/
theorem Package.all_build (name : String) (files : List (List Decl)) :
    All IsNaming (build name files).2 :=
  (Resolution.all_declareAll ..).append (Resolution.all_lowerDecls ..)

/-! ## Types -/

mutual

/-- Where a node and the nodes inside it are. -/
def Node.positions : Node → List Pos
  | .const _ pos | .error pos | .read _ _ _ pos | .declare _ _ _ pos => [pos]
  | .binary _ lhs rhs _ _ pos => pos :: (lhs.positions ++ rhs.positions)
  | .unary _ operand _ pos => pos :: operand.positions
  | .call _ _ args _ pos => pos :: Node.allPositions args
  | .ifThen test _ yes _ _ pos => pos :: (test.positions ++ yes.positions)
  | .ifThenElse test _ yes no _ _ pos =>
    pos :: (test.positions ++ (yes.positions ++ no.positions))
  | .block nodes _ pos => pos :: Node.allPositions nodes
  | .assign _ _ value _ pos => pos :: value.positions
  | .define _ _ _ init pos => pos :: init.positions

/-- Where nodes and the nodes inside them are. -/
def Node.allPositions : List Node → List Pos
  | [] => []
  | n :: ns => n.positions ++ Node.allPositions ns

end

theorem Node.pos_mem_positions (n : Node) : n.pos ∈ n.positions := by
  cases n <;> exact List.mem_cons_self

theorem Node.pos_mem_allPositions {n : Node} {ns : List Node} (h : n ∈ ns) :
    n.pos ∈ Node.allPositions ns := by
  induction ns with
  | nil => cases h
  | cons m ms ih =>
    rcases List.mem_cons.1 h with rfl | h
    · exact List.mem_append_left _ n.pos_mem_positions
    · exact List.mem_append_right _ (ih h)

namespace Typing

/-- What checking reports at some positions: that two types are known and differ, or a wrong number
of arguments. -/
inductive Disagreement (places : List Pos) : Diagnostic → Prop
  | types {expected found : Ty} {context : Context} {pos : Pos} (hne : expected ≠ found)
      (hpos : pos ∈ places) : Disagreement places (mismatch expected found context pos)
  | arity {name : String} {expected found : Nat} {pos : Pos} (hne : found ≠ expected)
      (hpos : pos ∈ places) : Disagreement places ⟨.arityMismatch name expected found, pos⟩

section

variable {places : List Pos} {pos : Pos}

theorem Disagreement.isTyping {d : Diagnostic} (h : Disagreement places d) : d.IsTyping := by
  cases h <;> trivial

theorem Disagreement.pos_mem {d : Diagnostic} (h : Disagreement places d) : d.pos ∈ places := by
  cases h <;> assumption

theorem all_expect (expected found : Option Ty) (context : Context) (hpos : pos ∈ places) :
    All (Disagreement places) (expect expected found context pos) := by
  unfold expect
  split
  · split
    · exact .nil
    · next hne => exact .one (.types hne hpos)
  · exact .nil

theorem all_binary (op : BinaryOp) (lhs rhs : Option Ty) (hpos : pos ∈ places) :
    All (Disagreement places) (binary op lhs rhs pos).2 := by
  unfold binary
  split
  · split
    · next hne => exact .one (.types hne hpos)
    · dsimp only
      split
      · next hne => exact .one (.types hne hpos)
      · exact .nil
  · exact .nil

theorem all_arguments (index : Nat) (expected : List (Option Ty)) (found : List (Option Ty × Pos))
    (hpos : ∀ f ∈ found, f.2 ∈ places) :
    All (Disagreement places) (arguments index expected found) := by
  induction expected generalizing index found with
  | nil => exact .nil
  | cons e es ih =>
    cases found with
    | nil => exact .nil
    | cons f fs =>
      obtain ⟨hf, hfs⟩ := List.forall_mem_cons.1 hpos
      exact (all_expect _ _ _ hf).append (ih _ _ hfs)

theorem all_call (signature : Signature) (args : List (Option Ty × Pos)) (hpos : pos ∈ places)
    (hargs : ∀ f ∈ args, f.2 ∈ places) : All (Disagreement places) (call signature args pos) := by
  unfold call
  split
  · exact all_arguments _ _ _ hargs
  · next hne => exact .one (.arity hne hpos)

theorem all_written (wty unified : Option Ty) (hpos : pos ∈ places) :
    All (Disagreement places) (written wty unified pos).2 := by
  unfold written
  split
  · dsimp only
    exact all_expect _ _ _ hpos
  · exact .nil

/-- A checked node is where the node was. -/
theorem pos_check (sigs : Signatures) (n : Node) (s : Symbols) :
    (check sigs n s).1.pos = n.pos := by
  cases n with
  | call _ callee args _ pos =>
    rw [check]
    cases sigs[callee.index]? <;> rfl
  | _ => rfl

theorem map_snd_checkAll (sigs : Signatures) (ns : List Node) (s : Symbols) :
    (checkAll sigs ns s).2.1.map Prod.snd = ns.map Node.pos := by
  induction ns generalizing s with
  | nil => rfl
  | cons n ns ih => exact congr (congrArg List.cons (pos_check sigs n s)) (ih _)

theorem pos_mem_of_mem_checkAll {sigs : Signatures} {ns : List Node} {s : Symbols}
    (hsub : Node.allPositions ns ⊆ places) :
    ∀ f ∈ (checkAll sigs ns s).2.1, f.2 ∈ places := by
  intro f hf
  have hmem : f.2 ∈ ns.map Node.pos := by
    rw [← map_snd_checkAll sigs ns s]
    exact List.mem_map_of_mem hf
  obtain ⟨n, hn, heq⟩ := List.mem_map.1 hmem
  exact hsub (heq ▸ Node.pos_mem_allPositions hn)

end

mutual

/-- Checking reports disagreements at positions of the node. -/
theorem all_check (sigs : Signatures) {places : List Pos} : ∀ (n : Node) (s : Symbols),
    n.positions ⊆ places → All (Disagreement places) (check sigs n s).2.2.2
  | .const .., _, _ => .nil
  | .error .., _, _ => .nil
  | .read .., _, _ => .nil
  | .declare .., _, _ => .nil
  | .binary op lhs rhs ty tag pos, s, h => by
    simp only [Node.positions, List.cons_subset, List.append_subset] at h
    obtain ⟨hpos, hl, hr⟩ := h
    exact ((all_check sigs lhs s hl).append (all_check sigs rhs _ hr)).append
      (all_binary _ _ _ hpos)
  | .unary op operand ty pos, s, h => by
    obtain ⟨hpos, ho⟩ := List.cons_subset.1 h
    exact (all_check sigs operand s ho).append (all_expect _ _ _ hpos)
  | .ifThen test wty yes ty tag pos, s, h => by
    simp only [Node.positions, List.cons_subset, List.append_subset] at h
    obtain ⟨hpos, ht, hy⟩ := h
    exact (((all_check sigs test s ht).append
      (all_expect _ _ _ (pos_check sigs test s ▸ ht test.pos_mem_positions))).append
        (all_check sigs yes _ hy)).append (all_written _ _ hpos)
  | .ifThenElse test wty yes no ty tag pos, s, h => by
    simp only [Node.positions, List.cons_subset, List.append_subset] at h
    obtain ⟨hpos, ht, hy, hn⟩ := h
    exact (((((all_check sigs test s ht).append
      (all_expect _ _ _ (pos_check sigs test s ▸ ht test.pos_mem_positions))).append
        (all_check sigs yes _ hy)).append (all_check sigs no _ hn)).append
          (all_expect _ _ _ (pos_check sigs no _ ▸ hn no.pos_mem_positions))).append
            (all_written _ _ hpos)
  | .block nodes ty pos, s, h => all_checkAll sigs nodes s (List.cons_subset.1 h).2
  | .assign name target value ty pos, s, h => by
    obtain ⟨-, hv⟩ := List.cons_subset.1 h
    exact (all_check sigs value s hv).append
      (all_expect _ _ _ (pos_check sigs value s ▸ hv value.pos_mem_positions))
  | .define name symbol wty init pos, s, h => by
    obtain ⟨-, hi⟩ := List.cons_subset.1 h
    exact (all_check sigs init s hi).append
      (all_expect _ _ _ (pos_check sigs init s ▸ hi init.pos_mem_positions))
  | .call name callee args ty pos, s, h => by
    obtain ⟨hpos, hargs⟩ := List.cons_subset.1 h
    have hall := all_checkAll sigs args s hargs
    rw [check]
    dsimp only
    split
    · exact hall.append (all_call _ _ hpos (pos_mem_of_mem_checkAll hargs))
    · exact hall

theorem all_checkAll (sigs : Signatures) {places : List Pos} : ∀ (ns : List Node) (s : Symbols),
    Node.allPositions ns ⊆ places → All (Disagreement places) (checkAll sigs ns s).2.2.2
  | [], _, _ => .nil
  | n :: ns, s, h => by
    obtain ⟨hn, hns⟩ := List.append_subset.1 h
    exact (all_check sigs n s hn).append (all_checkAll sigs ns _ hns)

end

theorem all_checkDecls (sigs : Signatures) {places : List Pos} (ds : List Declaration)
    (s : Symbols) (h : ∀ d ∈ ds, d.body.positions ⊆ places) :
    All (Disagreement places) (checkDecls sigs ds s).2.2 := by
  induction ds generalizing s with
  | nil => exact .nil
  | cons d ds ih =>
    obtain ⟨hd, hds⟩ := List.forall_mem_cons.1 h
    exact ((all_check sigs d.body s hd).append
      (all_expect _ _ _ (pos_check sigs d.body s ▸ hd d.body.pos_mem_positions))).append
        (ih _ hds)

end Typing

/-- Where the nodes of a package are. -/
def Package.positions (p : Package) : List Pos := p.decls.flatMap fun d => d.body.positions

/-- Checking reports disagreements at positions of the package. -/
theorem Package.disagreements_check (p : Package) (h : p.stage = .built) :
    All (Typing.Disagreement p.positions) (p.check h).2 :=
  Typing.all_checkDecls _ _ _ fun d hd _ hpos => List.mem_flatMap.2 ⟨d, hd, hpos⟩

/-- What is wrong with the types of a package is reported by its checking. -/
theorem Package.all_check (p : Package) (h : p.stage = .built) : All IsTyping (p.check h).2 :=
  ⟨fun d hd => ((p.disagreements_check h).of_mem d hd).isTyping⟩

/-! ## Generation -/

namespace C

variable {S : Symbols} {names : List String}

/-- The symbols have tags. -/
def AllTagged (S : Symbols) (xs : List SymbolId) : Prop := ∀ x ∈ xs, ∃ tag, S.tag x = some tag

/-- What is visible behind a node is tagged. -/
theorem AllTagged.behind {V V' : List SymbolId} {k k' lo hi : Nat} {n : Node}
    (h : AllTagged S V) (hsc : Scoped names V k n V' k') (ht : HasTags S lo n hi) :
    AllTagged S V' := by
  intro x hx
  rcases ht.visible hsc hx with hx | ⟨j, hj, -⟩
  · exact h x hx
  · exact ⟨_, hj⟩

theorem AllTagged.tempOf {xs : List SymbolId} {x : SymbolId} (h : AllTagged S xs) (hx : x ∈ xs)
    (pos : Pos) : (tempOf (S.tag x) pos).2 = [] := by
  obtain ⟨tag, htag⟩ := h x hx
  rw [htag]
  rfl

theorem diags_spillFor (operand : Node) (later : List Node) (r : Lowered Expr) :
    (spillFor S operand later r).diags = r.diags := by
  unfold spillFor
  split <;> rfl

mutual

theorem diags_lower {V V' : List SymbolId} {k k' lo hi : Nat} : ∀ {n : Node} (spills : Nat),
    Scoped names V k n V' k' → HasTags S lo n hi → AllTagged S V →
      (lower S n spills).diags = []
  | .const .., _, _, _, _ => rfl
  | .error .., _, h, _, _ => by cases h
  | .read .., _, hsc, _, hV => by
    cases hsc with
    | read hx => exact hV.tempOf hx _
  | .binary .., spills, hsc, ht, hV => by
    cases hsc with
    | binary hl hr =>
      cases ht with
      | binary htl htr =>
        have h₁ := diags_lower spills hl htl hV
        have h₂ := fun spills => diags_lower spills hr htr (hV.behind hl htl)
        simp [lower, diags_spillFor, h₁, h₂, tempOf]
  | .unary .., spills, hsc, ht, hV => by
    cases hsc with
    | unary ho =>
      cases ht with
      | unary hto =>
        rw [lower]
        exact diags_lower spills ho hto hV
  | .call .., spills, hsc, ht, hV => by
    cases hsc with
    | call _ ha =>
      cases ht with
      | call hta => exact diags_lowerOperands spills ha hta hV
  | .ifThen .., spills, hsc, ht, hV => by
    cases hsc with
    | ifThen hc hy =>
      cases ht with
      | ifThen htc hty =>
        have h₁ := diags_lower spills hc htc hV
        have h₂ := fun spills => diags_lower spills hy hty (hV.behind hc htc)
        simp [lower, h₁, h₂, tempOf]
  | .ifThenElse .., spills, hsc, ht, hV => by
    cases hsc with
    | ifThenElse hc hy hn =>
      cases ht with
      | ifThenElse htc hty htn =>
        have h₁ := diags_lower spills hc htc hV
        have h₂ := fun spills => diags_lower spills hy hty (hV.behind hc htc)
        have h₃ := fun spills => diags_lower spills hn htn (hV.behind hc htc)
        simp [lower, h₁, h₂, h₃, tempOf]
  | .block .., spills, hsc, ht, hV => by
    cases hsc with
    | block hne hns =>
      cases ht with
      | block htns => exact diags_lowerBlock _ spills hne hns htns hV
  | .assign .., spills, hsc, ht, hV => by
    cases hsc with
    | assign hv hx =>
      cases ht with
      | assign htv =>
        have h₁ := diags_lower spills hv htv hV
        have h₂ := (hV.behind hv htv).tempOf hx
        simp [lower, h₁, h₂]
  | .declare .., _, _, ht, _ => by
    cases ht with
    | declare hx => simp [lower, hx, tempOf]
  | .define .., spills, hsc, ht, hV => by
    cases hsc with
    | define hi =>
      cases ht with
      | define hx hti =>
        have h₁ := diags_lower spills hi hti hV
        simp [lower, h₁, hx, tempOf]

theorem diags_lowerBlock {V V' : List SymbolId} {k k' lo hi : Nat} (pos : Pos) :
    ∀ {ns : List Node} (spills : Nat), ns ≠ [] → ScopedAll names V k ns V' k' →
      HaveTags S lo ns hi → AllTagged S V → (lowerBlock S pos ns spills).diags = []
  | [], _, hne, _, _, _ => absurd rfl hne
  | [n], spills, _, hsc, ht, hV => by
    cases hsc with
    | cons h _ =>
      cases ht with
      | cons ht _ => exact diags_lower spills h ht hV
  | n :: m :: ns, spills, _, hsc, ht, hV => by
    cases hsc with
    | cons h hs =>
      cases ht with
      | cons ht hts =>
        have h₁ := diags_lower spills h ht hV
        have h₂ := fun spills =>
          diags_lowerBlock pos spills (List.cons_ne_nil m ns) hs hts (hV.behind h ht)
        simp [lowerBlock, h₁, h₂]

theorem diags_lowerOperands {V V' : List SymbolId} {k k' lo hi : Nat} :
    ∀ {ns : List Node} (spills : Nat), ScopedAll names V k ns V' k' → HaveTags S lo ns hi →
      AllTagged S V → (lowerOperands S ns spills).diags = []
  | [], _, _, _, _ => rfl
  | n :: ns, spills, hsc, ht, hV => by
    cases hsc with
    | cons h hs =>
      cases ht with
      | cons ht hts =>
        have h₁ := diags_lower spills h ht hV
        have h₂ := fun spills => diags_lowerOperands spills hs hts (hV.behind h ht)
        simp [lowerOperands, diags_spillFor, h₁, h₂]

end

theorem diags_lowerParams {xs : List SymbolId} (h : AllTagged S xs) :
    (lowerParams S xs).2 = [] := by
  induction xs with
  | nil => rfl
  | cons x xs ih =>
    have h₁ := h.tempOf List.mem_cons_self (S.pos x)
    have h₂ := ih fun y hy => h y (List.mem_cons_of_mem _ hy)
    simp [lowerParams, h₁, h₂]

end C

namespace Declaration

variable {names : List String} {sigs : Typing.Signatures} {S : Symbols} {d : Declaration}
  {k lo : Nat}

theorem Ready.allTagged (h : d.Ready names sigs S k lo) : C.AllTagged S d.params := by
  rintro ⟨j⟩ hx
  rw [h.params, mem_numbered] at hx
  obtain ⟨i, rfl⟩ := Nat.exists_eq_add_of_le hx.1
  exact ⟨_, h.paramTags i (Nat.add_lt_add_iff_left.1 hx.2)⟩

theorem Ready.diags_lowerSignature (h : d.Ready names sigs S k lo) :
    (C.lowerSignature S d).2 = [] :=
  C.diags_lowerParams h.allTagged

theorem Ready.diags_lower (h : d.Ready names sigs S k lo) (spills : Nat) :
    (C.lower S d.body spills).diags = [] := by
  obtain ⟨V, k', hsc⟩ := h.scope
  obtain ⟨hi, ht⟩ := h.tags
  exact C.diags_lower spills hsc ht fun x hx => h.allTagged x (List.mem_reverse.1 hx)

end Declaration

namespace Package

variable {p : Package}

/-- **The generator reports nothing but a missing entry** about a package that is ready for it. -/
theorem Ready.diagnostics_toC (h : p.Ready) : p.toC.2 = (C.lowerEntry p).2 := by
  have hheads : (C.lowerSignatures p.symbols p.decls).2 = [] := by
    refine List.flatMap_eq_nil_iff.2 fun r hr => ?_
    obtain ⟨d, hd, rfl⟩ := List.mem_map.1 hr
    obtain ⟨k, lo, hready⟩ := h.decls d hd
    exact hready.diags_lowerSignature
  have hbodies : ∀ (ds : List Declaration) (spills : Nat), ds ⊆ p.decls →
      (C.lowerDecls p.symbols ds spills).2 = [] := by
    intro ds
    induction ds with
    | nil => exact fun _ _ => rfl
    | cons d ds ih =>
      intro spills hds
      obtain ⟨k, lo, hready⟩ := h.decls d (hds List.mem_cons_self)
      have hrest := fun spills => ih spills (List.subset_of_cons_subset hds)
      simp [C.lowerDecls, hready.diags_lowerSignature, hready.diags_lower, hrest]
  change (C.lowerSignatures p.symbols p.decls).2 ++ (C.lowerDecls p.symbols p.decls 0).2 ++ _ = _
  rw [hheads, hbodies p.decls 0 (List.Subset.refl _)]
  rfl

end Package

end CalcLang
