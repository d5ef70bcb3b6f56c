import CalcLang.Proofs.Checking
import CalcLang.Proofs.Folding
import CalcLang.Proofs.Tagging

/-!
# References of nodes

What a node refers to in the tables of its package: `Node.references` lists the symbols that are
read, assigned and introduced and the declarations that are called, with the names that stand on
the nodes. Checking and tagging change no node but for its type or its tag (`untyped_check`,
`untagged_tag`), and what folding replaces refers to nothing, so all stages keep the references.
-/

namespace CalcLang

/-- An entry in a table of a package that a node or a declaration refers to. -/
inductive Reference
  /-- A parameter or variable that is read or assigned under a name. -/
  | uses (name : String) (symbol : SymbolId)
  /-- A declaration that is called by its name. -/
  | calls (name : String) (callee : DeclId)
  /-- A symbol of the given kind that belongs to a single parameter or variable. -/
  | owns (kind : SymbolKind) (symbol : SymbolId)

namespace Reference

/-- The symbol that a reference is the owner of. -/
def owned? : Reference → Option SymbolId
  | .owns _ symbol => some symbol
  | .uses .. | .calls .. => none

/-- What a reference points to is there and fits: declarations have the names `names`. -/
def Resolves (names : List String) (symbols : Symbols) : Reference → Prop
  | .uses name x =>
    ∃ e, symbols.get? x = some e ∧ e.name = name ∧ (e.kind = .param ∨ e.kind = .variable)
  | .calls name callee => names[callee.index]? = some name
  | .owns kind x => ∃ e, symbols.get? x = some e ∧ e.kind = kind

/-- References resolve as long as symbols keep their names and kinds. -/
theorem Resolves.of_kept {names : List String} {s s' : Symbols} {r : Reference}
    (h : r.Resolves names s)
    (hkeep : ∀ {x : SymbolId} {e : Symbol}, s.get? x = some e →
      ∃ e', s'.get? x = some e' ∧ e'.name = e.name ∧ e'.kind = e.kind) :
    r.Resolves names s' := by
  cases r with
  | uses name x =>
    obtain ⟨e, he, hname, hkind⟩ := h
    obtain ⟨e', he', hname', hkind'⟩ := hkeep he
    exact ⟨e', he', hname'.trans hname, hkind' ▸ hkind⟩
  | calls name callee => exact h
  | owns kind x =>
    obtain ⟨e, he, hkind⟩ := h
    obtain ⟨e', he', -, hkind'⟩ := hkeep he
    exact ⟨e', he', hkind'.trans hkind⟩

end Reference

mutual

/-- What a node and the nodes inside it refer to, in the order of evaluation. -/
def Node.references : Node → List Reference
  | .const .. | .error .. => []
  | .read name x .. => [.uses name x]
  | .binary _ lhs rhs .. => lhs.references ++ rhs.references
  | .unary _ operand .. => operand.references
  | .call name callee args .. => Node.allReferences args ++ [.calls name callee]
  | .ifThen test _ yes .. => test.references ++ yes.references
  | .ifThenElse test _ yes no .. => test.references ++ yes.references ++ no.references
  | .block nodes .. => Node.allReferences nodes
  | .assign name x value .. => value.references ++ [.uses name x]
  | .declare _ x .. => [.owns .variable x]
  | .define _ x _ init _ => init.references ++ [.owns .variable x]

/-- What nodes refer to. -/
def Node.allReferences : List Node → List Reference
  | [] => []
  | n :: ns => n.references ++ Node.allReferences ns

end

/-- What a declaration refers to: its parameters, and what its body does. -/
def Declaration.references (d : Declaration) : List Reference :=
  d.params.map (.owns .param) ++ d.body.references

/-! ## Types -/

mutual

theorem references_untyped : ∀ n : Node, n.untyped.references = n.references
  | .const .. | .error .. | .read .. | .declare .. => rfl
  | .binary _ lhs rhs .. => by
    simp [Node.untyped, Node.references, references_untyped lhs, references_untyped rhs]
  | .unary _ operand .. => by simp [Node.untyped, Node.references, references_untyped operand]
  | .call _ _ args .. => by simp [Node.untyped, Node.references, allReferences_allUntyped args]
  | .ifThen test _ yes .. => by
    simp [Node.untyped, Node.references, references_untyped test, references_untyped yes]
  | .ifThenElse test _ yes no .. => by
    simp [Node.untyped, Node.references, references_untyped test, references_untyped yes,
      references_untyped no]
  | .block nodes .. => by simp [Node.untyped, Node.references, allReferences_allUntyped nodes]
  | .assign _ _ value .. => by simp [Node.untyped, Node.references, references_untyped value]
  | .define _ _ _ init _ => by simp [Node.untyped, Node.references, references_untyped init]

theorem allReferences_allUntyped : ∀ ns : List Node,
    Node.allReferences (Node.allUntyped ns) = Node.allReferences ns
  | [] => rfl
  | n :: ns => by
    simp [Node.allUntyped, Node.allReferences, references_untyped n, allReferences_allUntyped ns]

end

/-- The symbols without their types. -/
def Symbols.untyped (s : Symbols) : Symbols := s.map fun e => { e with ty := none }

@[simp]
theorem untyped_setTy (s : Symbols) (x : SymbolId) (ty : Option Ty) :
    (s.setTy x ty).untyped = s.untyped := by
  refine Array.ext_getElem? fun i => ?_
  simp only [Symbols.untyped, Symbols.setTy, Array.getElem?_map, Array.getElem?_modify]
  split
  · rw [Option.map_map]
    rfl
  · rfl

mutual

theorem symbols_untyped_check (sigs : Typing.Signatures) : ∀ (n : Node) (s : Symbols),
    (Typing.check sigs n s).2.2.1.untyped = s.untyped
  | .const .., _ | .error .., _ | .read .., _ => rfl
  | .binary _ lhs rhs .., s =>
    (symbols_untyped_check sigs rhs _).trans (symbols_untyped_check sigs lhs s)
  | .unary _ operand .., s => symbols_untyped_check sigs operand s
  | .call _ callee args .., s => by
    rw [Typing.check]
    cases hs : sigs[callee.index]? <;> simpa [hs] using symbols_untyped_checkAll sigs args s
  | .ifThen test _ yes .., s =>
    (symbols_untyped_check sigs yes _).trans (symbols_untyped_check sigs test s)
  | .ifThenElse test _ yes no .., s =>
    (symbols_untyped_check sigs no _).trans
      ((symbols_untyped_check sigs yes _).trans (symbols_untyped_check sigs test s))
  | .block nodes .., s => symbols_untyped_checkAll sigs nodes s
  | .assign _ _ value .., s => symbols_untyped_check sigs value s
  | .declare _ x .., s => untyped_setTy ..
  | .define _ _ _ init _, s => (untyped_setTy ..).trans (symbols_untyped_check sigs init s)

theorem symbols_untyped_checkAll (sigs : Typing.Signatures) : ∀ (ns : List Node) (s : Symbols),
    (Typing.checkAll sigs ns s).2.2.1.untyped = s.untyped
  | [], _ => rfl
  | n :: ns, s =>
    (symbols_untyped_checkAll sigs ns _).trans (symbols_untyped_check sigs n s)

end

/-! ## Folding -/

mutual

/-- A node that becomes a constant has constants for operands, which refer to nothing. -/
theorem references_fold : ∀ n : Node, (Folding.fold n).references = n.references
  | .const .. | .error .. | .read .. | .declare .. => rfl
  | .binary op lhs rhs ty tag pos => by
    have hl := references_fold lhs
    have hr := references_fold rhs
    obtain h | ⟨a, b, v, p, q, hlc, hrc, -, -, h⟩ :=
      Evaluation.fold_binary_cases op lhs rhs ty tag pos
    · rw [h, Node.references, Node.references, hl, hr]
    · rw [hlc] at hl
      rw [hrc] at hr
      rw [h, Node.references, Node.references, ← hl, ← hr]
      rfl
  | .unary op operand ty pos => by
    have ho := references_fold operand
    obtain h | ⟨a, v, p, hoc, -, -, h⟩ := Evaluation.fold_unary_cases op operand ty pos
    · rw [h, Node.references, Node.references, ho]
    · rw [hoc] at ho
      rw [h, Node.references, Node.references, ← ho]
      rfl
  | .call _ _ args .. => by simp [Folding.fold, Node.references, allReferences_foldAll args]
  | .ifThen test _ yes .. => by
    simp [Folding.fold, Node.references, references_fold test, references_fold yes]
  | .ifThenElse test _ yes no .. => by
    simp [Folding.fold, Node.references, references_fold test, references_fold yes,
      references_fold no]
  | .block nodes .. => by simp [Folding.fold, Node.references, allReferences_foldAll nodes]
  | .assign _ _ value .. => by simp [Folding.fold, Node.references, references_fold value]
  | .define _ _ _ init _ => by simp [Folding.fold, Node.references, references_fold init]

theorem allReferences_foldAll : ∀ ns : List Node,
    Node.allReferences (Folding.foldAll ns) = Node.allReferences ns
  | [] => rfl
  | n :: ns => by
    simp [Folding.foldAll, Node.allReferences, references_fold n, allReferences_foldAll ns]

end

/-! ## Tags -/

mutual

/-- The node without the tags on it and on the nodes inside it. -/
def Node.untagged : Node → Node
  | .const v pos => .const v pos
  | .error pos => .error pos
  | .read name x ty pos => .read name x ty pos
  | .binary op lhs rhs ty _ pos => .binary op lhs.untagged rhs.untagged ty none pos
  | .unary op operand ty pos => .unary op operand.untagged ty pos
  | .call name callee args ty pos => .call name callee (Node.allUntagged args) ty pos
  | .ifThen test written yes ty _ pos => .ifThen test.untagged written yes.untagged ty none pos
  | .ifThenElse test written yes no ty _ pos =>
    .ifThenElse test.untagged written yes.untagged no.untagged ty none pos
  | .block nodes ty pos => .block (Node.allUntagged nodes) ty pos
  | .assign name x value ty pos => .assign name x value.untagged ty pos
  | .declare name x written pos => .declare name x written pos
  | .define name x written init pos => .define name x written init.untagged pos

/-- The nodes without the tags on them. -/
def Node.allUntagged : List Node → List Node
  | [] => []
  | n :: ns => n.untagged :: Node.allUntagged ns

end

mutual

theorem references_untagged : ∀ n : Node, n.untagged.references = n.references
  | .const .. | .error .. | .read .. | .declare .. => rfl
  | .binary _ lhs rhs .. => by
    simp [Node.untagged, Node.references, references_untagged lhs, references_untagged rhs]
  | .unary _ operand .. => by simp [Node.untagged, Node.references, references_untagged operand]
  | .call _ _ args .. => by simp [Node.untagged, Node.references, allReferences_allUntagged args]
  | .ifThen test _ yes .. => by
    simp [Node.untagged, Node.references, references_untagged test, references_untagged yes]
  | .ifThenElse test _ yes no .. => by
    simp [Node.untagged, Node.references, references_untagged test, references_untagged yes,
      references_untagged no]
  | .block nodes .. => by simp [Node.untagged, Node.references, allReferences_allUntagged nodes]
  | .assign _ _ value .. => by simp [Node.untagged, Node.references, references_untagged value]
  | .define _ _ _ init _ => by simp [Node.untagged, Node.references, references_untagged init]

theorem allReferences_allUntagged : ∀ ns : List Node,
    Node.allReferences (Node.allUntagged ns) = Node.allReferences ns
  | [] => rfl
  | n :: ns => by
    simp [Node.allUntagged, Node.allReferences, references_untagged n,
      allReferences_allUntagged ns]

end

/-- The symbols without their tags. -/
def Symbols.untagged (s : Symbols) : Symbols := s.map fun e => { e with tag := none }

@[simp]
theorem untagged_setTag (s : Symbols) (x : SymbolId) (tag : Tag) :
    (s.setTag x tag).untagged = s.untagged := by
  refine Array.ext_getElem? fun i => ?_
  simp only [Symbols.untagged, Symbols.setTag, Array.getElem?_map, Array.getElem?_modify]
  split
  · rw [Option.map_map]
    rfl
  · rfl

mutual

theorem untagged_tag : ∀ (n : Node) (k : Nat) (s : Symbols),
    (Tagging.tag n k s).1.untagged = n.untagged ∧ (Tagging.tag n k s).2.2.untagged = s.untagged
  | .const .., _, _ | .error .., _, _ | .read .., _, _ => ⟨rfl, rfl⟩
  | .binary op lhs rhs ty tag pos, k, s => by
    obtain ⟨hl, hls⟩ := untagged_tag lhs (k + 1) s
    obtain ⟨hr, hrs⟩ := untagged_tag rhs (Tagging.tag lhs (k + 1) s).2.1
      (Tagging.tag lhs (k + 1) s).2.2
    exact ⟨by simp [Tagging.tag, Node.untagged, hl, hr], hrs.trans hls⟩
  | .unary _ operand .., k, s => by
    obtain ⟨ho, hos⟩ := untagged_tag operand k s
    exact ⟨by simp [Tagging.tag, Node.untagged, ho], hos⟩
  | .call _ _ args .., k, s => by
    obtain ⟨ha, has⟩ := untagged_tagAll args k s
    exact ⟨by simp [Tagging.tag, Node.untagged, ha], has⟩
  | .ifThen test _ yes .., k, s => by
    obtain ⟨ht, hts⟩ := untagged_tag test (k + 1) s
    obtain ⟨hy, hys⟩ := untagged_tag yes (Tagging.tag test (k + 1) s).2.1
      (Tagging.tag test (k + 1) s).2.2
    exact ⟨by simp [Tagging.tag, Node.untagged, ht, hy], hys.trans hts⟩
  | .ifThenElse test _ yes no .., k, s => by
    obtain ⟨ht, hts⟩ := untagged_tag test (k + 1) s
    rcases hrt : Tagging.tag test (k + 1) s with ⟨test', l, s₁⟩
    rw [hrt] at ht hts
    obtain ⟨hy, hys⟩ := untagged_tag yes l s₁
    rcases hry : Tagging.tag yes l s₁ with ⟨yes', m, s₂⟩
    rw [hry] at hy hys
    obtain ⟨hn, hns⟩ := untagged_tag no m s₂
    simp only [Tagging.tag, hrt, hry]
    exact ⟨by simp only [Node.untagged, ht, hy, hn], hns.trans (hys.trans hts)⟩
  | .block nodes .., k, s => by
    obtain ⟨hn, hns⟩ := untagged_tagAll nodes k s
    exact ⟨by simp [Tagging.tag, Node.untagged, hn], hns⟩
  | .assign _ _ value .., k, s => by
    obtain ⟨hv, hvs⟩ := untagged_tag value k s
    exact ⟨by simp [Tagging.tag, Node.untagged, hv], hvs⟩
  | .declare _ x .., k, s => ⟨rfl, untagged_setTag ..⟩
  | .define _ x _ init _, k, s => by
    obtain ⟨hi, his⟩ := untagged_tag init (k + 1) (s.setTag x ⟨k⟩)
    exact ⟨by simp [Tagging.tag, Node.untagged, hi], his.trans (untagged_setTag ..)⟩

theorem untagged_tagAll : ∀ (ns : List Node) (k : Nat) (s : Symbols),
    Node.allUntagged (Tagging.tagAll ns k s).1 = Node.allUntagged ns ∧
      (Tagging.tagAll ns k s).2.2.untagged = s.untagged
  | [], _, _ => ⟨rfl, rfl⟩
  | n :: ns, k, s => by
    obtain ⟨hn, hs⟩ := untagged_tag n k s
    obtain ⟨hns, hss⟩ := untagged_tagAll ns (Tagging.tag n k s).2.1 (Tagging.tag n k s).2.2
    exact ⟨by simp [Tagging.tagAll, Node.allUntagged, hn, hns], hss.trans hs⟩

end

theorem untagged_tagParams (xs : List SymbolId) (k : Nat) (s : Symbols) :
    (Tagging.tagParams xs k s).2.untagged = s.untagged := by
  induction xs generalizing k s with
  | nil => rfl
  | cons x xs ih => exact (ih _ _).trans (untagged_setTag ..)

end CalcLang
