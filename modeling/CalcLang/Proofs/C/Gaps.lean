import CalcLang.Proofs.Numbering
import CalcLang.Proofs.Policy
import Mathlib.Data.List.Basic
import Mathlib.Data.Option.Basic

/-!
# Gaps that generation reports

The generator reports what it finds no code for: forms whose names did not resolve, blocks without
elements, variables without tags, and a program without its entry. In a tagged package these are the
gaps that `Node.gaps` lists, and they depend on the tree and on which symbols have a tag, but not on
the numbers of the tags and not on how operands are copied (`Package.diagnostics_toC_tag`).

Folding replaces nodes without gaps by nodes without gaps and leaves every variable where it is. So
it changes no verdict of a compilation (`Compile.optimize_keeps_verdict`), not even where output is
made of a package with mistakes.
-/

namespace CalcLang

/-! ## Gaps of nodes -/

/-- The report of a symbol at `pos`, unless it is one of those that have a tag. -/
def untaggedGap (tagged : SymbolId → Bool) (x : SymbolId) (pos : Pos) : List Diagnostic :=
  if tagged x then [] else C.unreachable "untagged node" pos

/-- The report of a block without elements. -/
def emptyGap (nodes : List Node) (pos : Pos) : List Diagnostic :=
  if nodes.isEmpty then C.unreachable "empty block" pos else []

mutual

/-- What generation finds no code for in a node, in the order of evaluation. -/
def Node.gaps (tagged : SymbolId → Bool) : Node → List Diagnostic
  | .const .. => []
  | .error pos => C.unreachable "unresolved form" pos
  | .read _ x _ pos => untaggedGap tagged x pos
  | .binary _ lhs rhs .. => lhs.gaps tagged ++ rhs.gaps tagged
  | .unary _ operand .. => operand.gaps tagged
  | .call _ _ args .. => Node.allGaps tagged args
  | .ifThen test _ yes .. => test.gaps tagged ++ yes.gaps tagged
  | .ifThenElse test _ yes no .. => test.gaps tagged ++ yes.gaps tagged ++ no.gaps tagged
  | .block nodes _ pos => emptyGap nodes pos ++ Node.allGaps tagged nodes
  | .assign _ x value _ pos => value.gaps tagged ++ untaggedGap tagged x pos
  | .declare _ x _ pos => untaggedGap tagged x pos
  | .define _ x _ init pos => init.gaps tagged ++ untaggedGap tagged x pos

/-- What generation finds no code for in nodes. -/
def Node.allGaps (tagged : SymbolId → Bool) : List Node → List Diagnostic
  | [] => []
  | n :: ns => n.gaps tagged ++ Node.allGaps tagged ns

end

/-- The symbols that have a tag. -/
def Symbols.tagged (S : Symbols) (x : SymbolId) : Bool := (S.tag x).isSome

theorem Symbols.pos_setTags (S : Symbols) (marks : List (SymbolId × Tag)) (x : SymbolId) :
    (S.setTags marks).pos x = S.pos x := by
  unfold pos
  by_cases hx : x ∈ marks.map Prod.fst
  · obtain ⟨tag, htag⟩ := get?_setTags_of_mem hx
    rw [htag]
    cases S.get? x <;> rfl
  · rw [get?_setTags_of_notMem _ hx]

/-! ## Folding -/

namespace Folding

theorem isEmpty_foldAll (ns : List Node) : (foldAll ns).isEmpty = ns.isEmpty := by
  cases ns <;> rfl

mutual

/-- Folding leaves all gaps. An operation that becomes a value has none. -/
theorem gaps_fold (tagged : SymbolId → Bool) : ∀ n : Node, (fold n).gaps tagged = n.gaps tagged
  | .const .. | .error .. | .read .. | .declare .. => rfl
  | .binary op lhs rhs ty tag pos => by
    rw [Node.gaps, ← gaps_fold tagged lhs, ← gaps_fold tagged rhs]
    rcases Evaluation.fold_binary_cases op lhs rhs ty tag pos with
      h | ⟨a, b, v, p, q, hl, hr, -, -, h⟩
    · rw [h, Node.gaps]
    · rw [h, hl, hr]
      rfl
  | .unary op operand ty pos => by
    rw [Node.gaps, ← gaps_fold tagged operand]
    rcases Evaluation.fold_unary_cases op operand ty pos with h | ⟨a, v, p, ho, -, -, h⟩
    · rw [h, Node.gaps]
    · rw [h, ho]
      rfl
  | .call _ _ args .. => allGaps_foldAll tagged args
  | .ifThen test _ yes .. => by
    simp only [fold, Node.gaps, gaps_fold tagged test, gaps_fold tagged yes]
  | .ifThenElse test _ yes no .. => by
    simp only [fold, Node.gaps, gaps_fold tagged test, gaps_fold tagged yes, gaps_fold tagged no]
  | .block nodes .. => by
    simp only [fold, Node.gaps, emptyGap, isEmpty_foldAll, allGaps_foldAll tagged nodes]
  | .assign _ _ value .. => by simp only [fold, Node.gaps, gaps_fold tagged value]
  | .define _ _ _ init _ => by simp only [fold, Node.gaps, gaps_fold tagged init]

theorem allGaps_foldAll (tagged : SymbolId → Bool) : ∀ ns : List Node,
    Node.allGaps tagged (foldAll ns) = Node.allGaps tagged ns
  | [] => rfl
  | n :: ns => by
    simp only [foldAll, Node.allGaps, gaps_fold tagged n, allGaps_foldAll tagged ns]

end

end Folding

/-! ## Generation -/

namespace C

open Tagging (tag tagAll)

theorem diags_tempOf (S : Symbols) (x : SymbolId) (pos : Pos) :
    (tempOf (S.tag x) pos).2 = untaggedGap S.tagged x pos := by
  unfold untaggedGap Symbols.tagged
  cases S.tag x <;> rfl

mutual

/-- A tagged node has the reports of its gaps. -/
theorem diags_lower_tag {S : Symbols} : ∀ (n : Node) (k : Nat) (s : Symbols) (spills : Nat),
    (lower S (tag n k s).1 spills).diags = n.gaps S.tagged
  | .const .., _, _, _ | .error .., _, _, _ => rfl
  | .read _ x _ pos, _, _, _ => diags_tempOf S x pos
  | .binary _ lhs rhs .., k, s, spills => by
    simp only [tag, lower, diags_spillFor, diags_lower_tag lhs, diags_lower_tag rhs, Node.gaps,
      tempOf, List.append_nil]
  | .unary _ operand .., k, s, spills => diags_lower_tag operand k s spills
  | .call _ _ args .., k, s, spills => diags_lowerOperands_tagAll args k s spills
  | .ifThen test _ yes .., k, s, spills => by
    simp only [tag, lower, diags_lower_tag test, diags_lower_tag yes, Node.gaps, tempOf,
      List.nil_append]
  | .ifThenElse test _ yes no .., k, s, spills => by
    simp only [tag, lower, diags_lower_tag test, diags_lower_tag yes, diags_lower_tag no, Node.gaps,
      tempOf, List.nil_append]
  | .block nodes _ pos, k, s, spills => diags_lowerBlock_tagAll pos nodes k s spills
  | .assign _ x value _ pos, k, s, spills => by
    simp only [tag, lower, diags_lower_tag value, diags_tempOf, Node.gaps]
  | .declare _ x _ pos, _, _, _ => diags_tempOf S x pos
  | .define _ x _ init pos, k, s, spills => by
    simp only [tag, lower, diags_lower_tag init, diags_tempOf, Node.gaps]

theorem diags_lowerBlock_tagAll {S : Symbols} (pos : Pos) :
    ∀ (ns : List Node) (k : Nat) (s : Symbols) (spills : Nat),
      (lowerBlock S pos (tagAll ns k s).1 spills).diags =
        emptyGap ns pos ++ Node.allGaps S.tagged ns
  | [], _, _, _ => rfl
  | [n], k, s, spills => (diags_lower_tag n k s spills).trans (List.append_nil _).symm
  | n :: n' :: ns, k, s, spills => by
    change (lower S (tag n k s).1 spills).diags ++
      (lowerBlock S pos (tagAll (n' :: ns) _ _).1 _).diags =
        n.gaps S.tagged ++ Node.allGaps S.tagged (n' :: ns)
    rw [diags_lower_tag n, diags_lowerBlock_tagAll pos (n' :: ns)]
    rfl

theorem diags_lowerOperands_tagAll {S : Symbols} :
    ∀ (ns : List Node) (k : Nat) (s : Symbols) (spills : Nat),
      (lowerOperands S (tagAll ns k s).1 spills).diags = Node.allGaps S.tagged ns
  | [], _, _, _ => rfl
  | n :: ns, k, s, spills => by
    simp only [tagAll, lowerOperands, diags_spillFor, diags_lower_tag n,
      diags_lowerOperands_tagAll ns, Node.allGaps]

end

end C

/-! ## Packages -/

/-- What generation finds no code for in the head of a declaration. -/
def Declaration.headGaps (S : Symbols) (tagged : SymbolId → Bool) (d : Declaration) :
    List Diagnostic :=
  d.params.flatMap fun x => untaggedGap tagged x (S.pos x)

/-- What generation finds no code for in a package. The head of a function is generated twice: once
before all functions, and once with its body. -/
def Package.gaps (p : Package) (tagged : SymbolId → Bool) : List Diagnostic :=
  p.decls.flatMap (Declaration.headGaps p.symbols tagged) ++
    p.decls.flatMap (fun d => d.headGaps p.symbols tagged ++ d.body.gaps tagged) ++
    (C.lowerEntry p).2

namespace C

theorem diags_lowerSignature (S : Symbols) (d : Declaration) :
    (lowerSignature S d).2 = d.headGaps S S.tagged := by
  change (lowerParams S d.params).2 = _
  rw [Declaration.headGaps]
  induction d.params with
  | nil => rfl
  | cons x xs ih => rw [lowerParams, List.flatMap_cons, ← ih, ← diags_tempOf]

theorem diags_lowerSignatures (S : Symbols) (ds : List Declaration) :
    (lowerSignatures S ds).2 = ds.flatMap (Declaration.headGaps S S.tagged) := by
  simp only [lowerSignatures, List.flatMap_map, diags_lowerSignature]

theorem diags_lowerDecls_tagDecls {S : Symbols} (ds : List Declaration) (k : Nat) (s : Symbols)
    (spills : Nat) : (lowerDecls S (Tagging.tagDecls ds k s).1 spills).2 =
      ds.flatMap fun d => d.headGaps S S.tagged ++ d.body.gaps S.tagged := by
  induction ds generalizing k s spills with
  | nil => rfl
  | cons d ds ih =>
    simp only [Tagging.tagDecls, lowerDecls, diags_lower_tag, diags_lowerSignature, ih,
      List.flatMap_cons]
    rfl

/-- The report of a missing entry depends on whether the package has one. -/
theorem diags_lowerEntry_congr {p q : Package}
    (h : (p.lookup? entryName).isSome = (q.lookup? entryName).isSome) :
    (lowerEntry p).2 = (lowerEntry q).2 := by
  unfold lowerEntry
  split <;> split <;> simp_all

end C

namespace Package

variable {p : Package}

/-- Names lead to the same declarations when bodies and symbols change, but for the kinds of
symbols. -/
theorem lookup?_map {f : Node → Node} {g : Symbol → Symbol} (hg : ∀ e, (g e).kind = e.kind)
    (p : Package) (name : String) :
    (p.map f g).lookup? name = (p.lookup? name).map fun d => { d with body := f d.body } := by
  have hid : (p.map f g).lookupId? name = p.lookupId? name := by
    simp [lookupId?, map, Symbols.get?, Symbol.declaration?, Option.bind_map, hg]
  rw [lookup?, lookup?, hid]
  simp [map, Option.map_bind]

theorem isSome_lookup?_untagged (p : Package) (name : String) :
    (p.untagged.lookup? name).isSome = (p.lookup? name).isSome := by
  rw [untagged, lookup?_map (g := fun e => { e with tag := none }) (fun _ => rfl),
    Option.isSome_map]

theorem isSome_lookup?_tag (p : Package) (hc : p.stage.IsChecked) (first : Nat) (name : String) :
    ((p.tag hc first).1.lookup? name).isSome = (p.lookup? name).isSome := by
  rw [← isSome_lookup?_untagged, untagged_tag]
  exact isSome_lookup?_untagged p name

theorem isSome_lookup?_fold (p : Package) (hf : p.stage.IsFoldable) (name : String) :
    ((p.fold hf).lookup? name).isSome = (p.lookup? name).isSome := by
  have hid : (p.fold hf).lookupId? name = p.lookupId? name := rfl
  rw [lookup?, lookup?, hid]
  cases p.lookupId? name <;> simp [fold]

/-- Only parameters and variables of a package get a tag. -/
theorem tagged_tag (p : Package) (hc : p.stage.IsChecked) (first : Nat) (x : SymbolId) :
    (p.tag hc first).1.symbols.tagged x =
      if some x ∈ p.holders then (p.symbols.get? x).isSome else p.symbols.tagged x := by
  rw [Symbols.tagged, Symbols.tag, symbols_tag]
  split
  · next hx =>
    have hmem : x ∈ (Tagging.marks first p.holders).map Prod.fst := by
      simpa [Tagging.map_fst_marks] using hx
    obtain ⟨tag, htag⟩ := Symbols.get?_setTags_of_mem hmem
    rw [htag]
    cases p.symbols.get? x <;> rfl
  · next hx =>
    rw [Symbols.get?_setTags_of_notMem _ (by simpa [Tagging.map_fst_marks] using hx)]
    rfl

/-- The parameters and variables of a package stay when it is folded. -/
theorem mem_holders_fold (p : Package) (hf : p.stage.IsFoldable) (x : SymbolId) :
    some x ∈ (p.fold hf).holders ↔ some x ∈ p.holders := by
  have hrefs : (p.fold hf).decls.flatMap Declaration.references =
      p.decls.flatMap Declaration.references := by
    simp only [fold, Folding.foldDecl, List.flatMap_map, Declaration.references, references_fold]
    rfl
  rw [mem_holders_iff, mem_holders_iff, hrefs]

theorem tagged_tag_fold (p : Package) (hf : p.stage.IsFoldable) (hc : (p.fold hf).stage.IsChecked)
    (hc' : p.stage.IsChecked) (first : Nat) :
    ((p.fold hf).tag hc first).1.symbols.tagged = (p.tag hc' first).1.symbols.tagged := by
  funext x
  rw [tagged_tag, tagged_tag, if_congr (mem_holders_fold p hf x) rfl rfl]
  rfl

theorem gaps_fold (p : Package) (hf : p.stage.IsFoldable) (tagged : SymbolId → Bool) :
    (p.fold hf).gaps tagged = p.gaps tagged := by
  rw [gaps, C.diags_lowerEntry_congr (p.isSome_lookup?_fold hf _)]
  simp only [fold, List.flatMap_map, Folding.foldDecl, Declaration.headGaps, Folding.gaps_fold]
  rfl

/-- **Generation reports the gaps of a tagged package.** -/
theorem diagnostics_toC_tag (p : Package) (hc : p.stage.IsChecked) (first : Nat) :
    (p.tag hc first).1.toC.2 = p.gaps (p.tag hc first).1.symbols.tagged := by
  generalize htagged : (p.tag hc first).1.symbols.tagged = tagged
  have hhead : Declaration.headGaps (p.tag hc first).1.symbols tagged =
      Declaration.headGaps p.symbols tagged := by
    funext d
    simp only [Declaration.headGaps, symbols_tag, Symbols.pos_setTags]
  have hheads : (p.tag hc first).1.decls.flatMap (Declaration.headGaps p.symbols tagged) =
      p.decls.flatMap (Declaration.headGaps p.symbols tagged) := by
    have h := congrArg (List.flatMap (Declaration.headGaps p.symbols tagged))
      (map_head_tagDecls p.decls first p.symbols)
    rwa [List.flatMap_map, List.flatMap_map] at h
  change (C.lowerSignatures _ _).2 ++ (C.lowerDecls _ (Tagging.tagDecls p.decls first _).1 0).2 ++
    (C.lowerEntry _).2 = _
  rw [C.diags_lowerSignatures, C.diags_lowerDecls_tagDecls, htagged, hhead, hheads,
    C.diags_lowerEntry_congr (p.isSome_lookup?_tag hc first _)]
  rfl

/-- Folding changes nothing in what generation reports. -/
theorem diagnostics_toC_fold (p : Package) (hf : p.stage.IsFoldable)
    (hc : (p.fold hf).stage.IsChecked) (first : Nat) :
    ((p.fold hf).tag hc first).1.toC.2 = (p.tag hf.isChecked first).1.toC.2 := by
  rw [diagnostics_toC_tag, diagnostics_toC_tag, gaps_fold, tagged_tag_fold p hf hc hf.isChecked]

/-- What generation reports about a compiled package does not depend on whether it was folded. -/
theorem diagnostics_toC_compiled (name : String) (files : List (List Decl)) (first : Nat) :
    (compiled name files true first).toC.2 = (compiled name files false first).toC.2 :=
  diagnostics_toC_fold ((build name files).1.check (stage_build name files)).1
    (.of_eq_checked (stage_check ..)) Stage.isChecked_folded first

end Package

namespace Compile

/-- What making output reports. A listing always goes well. -/
def generationErrors (name : String) (sources : SourceMap) (options : CompileOptions) :
    List Diagnostic :=
  match options.format with
  | .listing => []
  | .c => (Package.compiled name (declarations sources) options.optimize Tagging.first).toC.2

/-- A compilation ends before its output is made if the syntax is wrong, or if anything is wrong and
the policy asks for that. -/
def IsStopped (name : String) (sources : SourceMap) (policy : ErrorPolicy) : Prop :=
  syntaxErrors sources ≠ [] ∨ errors name sources ≠ [] ∧ policy = .abort

/-- What a compilation reports, and whether it has output. -/
theorem compile_outcome (name : String) (sources : SourceMap) (options : CompileOptions) :
    ((compile name sources options).output.isSome ↔ ¬ IsStopped name sources options.policy) ∧
    (compile name sources options).diagnostics =
      if syntaxErrors sources ≠ [] then syntaxErrors sources
      else if errors name sources ≠ [] ∧ options.policy = .abort then errors name sources
      else errors name sources ++ generationErrors name sources options := by
  obtain ⟨e₁, e₂, e₃, heq⟩ := compile_eq name sources options
  have hgenerated : (output (Package.compiled name (declarations sources) options.optimize
      Tagging.first) (Package.stage_tag ..) options.format).2.1 =
        generationErrors name sources options := by
    unfold generationErrors
    cases options.format <;> rfl
  rw [heq]
  by_cases hparsed : syntaxErrors sources = []
  · by_cases herrors : errors name sources = []
    · simp [IsStopped, hparsed, herrors, hgenerated]
    · by_cases hpolicy : options.policy = .abort
      · simp [IsStopped, hparsed, herrors, hpolicy]
      · simp [IsStopped, hparsed, herrors, hpolicy, hgenerated]
  · simp [IsStopped, hparsed]

/-- Folding changes nothing in what making output reports. -/
theorem generationErrors_optimize (name : String) (sources : SourceMap) (policy : ErrorPolicy)
    (format : OutputFormat) :
    generationErrors name sources ⟨true, policy, format⟩ =
      generationErrors name sources ⟨false, policy, format⟩ := by
  cases format with
  | listing => rfl
  | c => exact Package.diagnostics_toC_compiled name (declarations sources) Tagging.first

/-- **Optimisation changes no verdict.** Whatever the files, the policy and the format are, a
compilation has the same diagnostics with and without folding, and output in both cases or in
neither. -/
theorem optimize_keeps_verdict (name : String) (sources : SourceMap) (policy : ErrorPolicy)
    (format : OutputFormat) :
    (compile name sources ⟨true, policy, format⟩).diagnostics =
        (compile name sources ⟨false, policy, format⟩).diagnostics ∧
      ((compile name sources ⟨true, policy, format⟩).output.isSome ↔
        (compile name sources ⟨false, policy, format⟩).output.isSome) := by
  obtain ⟨hout, hdiags⟩ := compile_outcome name sources ⟨true, policy, format⟩
  obtain ⟨hout', hdiags'⟩ := compile_outcome name sources ⟨false, policy, format⟩
  exact ⟨by rw [hdiags, hdiags', generationErrors_optimize], hout.trans hout'.symm⟩

end Compile

end CalcLang
