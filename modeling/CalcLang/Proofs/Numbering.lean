import CalcLang.Proofs.Stages
import CalcLang.Proofs.WellFormed

/-!
# Numbering

Tagging gives the numbers from the first one on, each once: to the parameters of a declaration, then
to the binary operations, `if`s and variables of its body, from the root down and from left to
right. The tag of a parameter or variable stands on its symbol. So the numbers that a package gets
depend on its *holders* only, the list of the symbols that are tagged and of the nodes that carry
their tag themselves: tagging writes `marks first holders` into the table of symbols. In a
well-formed package no two parameters or variables share a symbol, so no mark overwrites another one
and the tags are dense (`Package.WellFormed.tags_tag`).
-/

namespace CalcLang

/-! ## Several tags at once -/

namespace Symbols

/-- Records tags one after the other. -/
def setTags (s : Symbols) (marks : List (SymbolId × Tag)) : Symbols :=
  marks.foldl (fun s mark => s.setTag mark.1 mark.2) s

theorem setTags_cons (s : Symbols) (mark : SymbolId × Tag) (marks : List (SymbolId × Tag)) :
    s.setTags (mark :: marks) = (s.setTag mark.1 mark.2).setTags marks := rfl

theorem setTags_append (s : Symbols) (marks marks' : List (SymbolId × Tag)) :
    s.setTags (marks ++ marks') = (s.setTags marks).setTags marks' := by
  simp only [setTags, List.foldl_append]

theorem get?_setTags_of_notMem (s : Symbols) {marks : List (SymbolId × Tag)} {x : SymbolId}
    (hx : x ∉ marks.map Prod.fst) : (s.setTags marks).get? x = s.get? x := by
  induction marks generalizing s with
  | nil => rfl
  | cons mark marks ih =>
    simp only [List.map_cons, List.mem_cons, not_or] at hx
    rw [setTags_cons, ih _ hx.2, get?_setTag_of_ne _ hx.1]

/-- A symbol has the last of the tags that are recorded for it, whatever the table was before. -/
theorem get?_setTags_of_mem {marks : List (SymbolId × Tag)} {x : SymbolId}
    (hx : x ∈ marks.map Prod.fst) : ∃ tag, ∀ s : Symbols,
      (s.setTags marks).get? x = (s.get? x).map fun e => { e with tag := some tag } := by
  induction marks with
  | nil => cases hx
  | cons mark marks ih =>
    by_cases hlater : x ∈ marks.map Prod.fst
    · obtain ⟨tag, htag⟩ := ih hlater
      refine ⟨tag, fun s => ?_⟩
      rw [setTags_cons, htag, get?_setTag]
      split
      · rw [Option.map_map]
        rfl
      · rfl
    · obtain rfl : x = mark.1 := by simpa [hlater] using hx
      refine ⟨mark.2, fun s => ?_⟩
      rw [setTags_cons, get?_setTags_of_notMem _ hlater, get?_setTag, if_pos rfl]

theorem ext_get? {s s' : Symbols} (h : ∀ x, s.get? x = s'.get? x) : s = s' :=
  Array.ext_getElem? fun i => h ⟨i⟩

/-- To record the same tags again changes nothing. -/
theorem setTags_setTags (s : Symbols) (marks : List (SymbolId × Tag)) :
    (s.setTags marks).setTags marks = s.setTags marks := by
  refine ext_get? fun x => ?_
  by_cases hx : x ∈ marks.map Prod.fst
  · obtain ⟨tag, htag⟩ := get?_setTags_of_mem hx
    rw [htag, htag, Option.map_map]
    rfl
  · rw [get?_setTags_of_notMem _ hx]

/-- Tags of different symbols do not overwrite each other. -/
theorem tag_setTags {marks : List (SymbolId × Tag)} (hnodup : (marks.map Prod.fst).Nodup)
    {s : Symbols} (hsize : ∀ x ∈ marks.map Prod.fst, x.index < s.size)
    {mark : SymbolId × Tag} (hmark : mark ∈ marks) :
    (s.setTags marks).tag mark.1 = some mark.2 := by
  induction marks generalizing s with
  | nil => cases hmark
  | cons first marks ih =>
    simp only [List.map_cons, List.nodup_cons, List.forall_mem_cons] at hnodup hsize
    rw [setTags_cons]
    rcases List.mem_cons.1 hmark with rfl | hmark
    · rw [Symbols.tag, get?_setTags_of_notMem _ hnodup.1]
      exact tag_setTag_self _ hsize.1
    · exact ih hnodup.2 (by simpa using hsize.2) hmark

end Symbols

/-! ## Holders of tags -/

/-- The symbol that the tag of a node stands on, if it is not the node itself. -/
def Node.holderSymbol? : Node → Option SymbolId
  | .declare _ x _ _ | .define _ x _ _ _ => some x
  | _ => none

/-- What the tags of a body stand on: symbols of variables, and nodes. -/
def Node.holders (n : Node) : List (Option SymbolId) := n.named.map Node.holderSymbol?

/-- What the tags of nodes stand on. -/
def Node.allHolders (ns : List Node) : List (Option SymbolId) :=
  (Node.allNamed ns).map Node.holderSymbol?

section

variable {op : BinaryOp} {test lhs rhs yes no init : Node} {written ty : Option Ty}
  {tag : Option Tag} {pos : Pos} {name : String} {x : SymbolId}

@[simp]
theorem Node.holders_binary : (Node.binary op lhs rhs ty tag pos).holders =
    none :: (lhs.holders ++ rhs.holders) := by
  simp [holders, named, holderSymbol?]

@[simp]
theorem Node.holders_ifThen : (Node.ifThen test written yes ty tag pos).holders =
    none :: (test.holders ++ yes.holders) := by
  simp [holders, named, holderSymbol?]

@[simp]
theorem Node.holders_ifThenElse : (Node.ifThenElse test written yes no ty tag pos).holders =
    none :: (test.holders ++ (yes.holders ++ no.holders)) := by
  simp [holders, named, holderSymbol?]

@[simp]
theorem Node.holders_define : (Node.define name x written init pos).holders =
    some x :: init.holders := rfl

@[simp]
theorem Node.allHolders_cons (n : Node) (ns : List Node) :
    Node.allHolders (n :: ns) = n.holders ++ Node.allHolders ns := by
  simp [allHolders, holders, allNamed]

end

/-- What the tags of a declaration stand on: the symbols of its parameters come first. -/
def Declaration.holders (d : Declaration) : List (Option SymbolId) :=
  d.params.map some ++ d.body.holders

/-- What the tags of a package stand on, in the order in which they are given. -/
def Package.holders (p : Package) : List (Option SymbolId) := p.decls.flatMap Declaration.holders

namespace Tagging

/-- The tags that symbols get when holders are numbered from `k` on. -/
def marks (k : Nat) (holders : List (Option SymbolId)) : List (SymbolId × Tag) :=
  (holders.zipIdx k).filterMap fun h => h.1.map fun x => (x, ⟨h.2⟩)

theorem marks_append (k : Nat) (hs hs' : List (Option SymbolId)) :
    marks k (hs ++ hs') = marks k hs ++ marks (k + hs.length) hs' := by
  simp only [marks, List.zipIdx_append, List.filterMap_append]

theorem marks_none (k : Nat) (hs : List (Option SymbolId)) :
    marks k (none :: hs) = marks (k + 1) hs := rfl

theorem marks_some (k : Nat) (x : SymbolId) (hs : List (Option SymbolId)) :
    marks k (some x :: hs) = (x, ⟨k⟩) :: marks (k + 1) hs := rfl

/-- Marks are for the symbols among the holders. -/
theorem map_fst_marks (k : Nat) (hs : List (Option SymbolId)) :
    (marks k hs).map Prod.fst = hs.filterMap id := by
  induction hs generalizing k with
  | nil => rfl
  | cons h hs ih =>
    cases h with
    | none => rw [marks_none, ih, List.filterMap_cons_none rfl]
    | some x =>
      rw [marks_some, List.map_cons, ih]
      rfl

mutual

/-- A node takes as many numbers as it has holders. -/
theorem next_tag : ∀ (n : Node) (k : Nat) (s : Symbols),
    (tag n k s).2.1 = k + n.holders.length
  | .const .., _, _ | .error .., _, _ | .read .., _, _ => rfl
  | .binary _ lhs rhs .., k, s => by
    simp only [tag, next_tag lhs, next_tag rhs, Node.holders_binary, List.length_cons,
      List.length_append]
    omega
  | .unary _ operand .., k, s => next_tag operand k s
  | .call _ _ args .., k, s => next_tagAll args k s
  | .ifThen test _ yes .., k, s => by
    simp only [tag, next_tag test, next_tag yes, Node.holders_ifThen, List.length_cons,
      List.length_append]
    omega
  | .ifThenElse test _ yes no .., k, s => by
    simp only [tag, next_tag test, next_tag yes, next_tag no, Node.holders_ifThenElse,
      List.length_cons, List.length_append]
    omega
  | .block nodes .., k, s => next_tagAll nodes k s
  | .assign _ _ value .., k, s => next_tag value k s
  | .declare .., _, _ => rfl
  | .define _ _ _ init _, k, s => by
    simp only [tag, next_tag init, Node.holders_define, List.length_cons]
    omega

theorem next_tagAll : ∀ (ns : List Node) (k : Nat) (s : Symbols),
    (tagAll ns k s).2.1 = k + (Node.allHolders ns).length
  | [], _, _ => rfl
  | n :: ns, k, s => by
    simp only [tagAll, next_tag n, next_tagAll ns, Node.allHolders_cons, List.length_append]
    omega

end

mutual

/-- The tags that a node records on symbols. -/
theorem symbols_tag : ∀ (n : Node) (k : Nat) (s : Symbols),
    (tag n k s).2.2 = s.setTags (marks k n.holders)
  | .const .., _, _ | .error .., _, _ | .read .., _, _ => rfl
  | .binary _ lhs rhs .., k, s => by
    simp only [tag, symbols_tag lhs, symbols_tag rhs, next_tag lhs, Node.holders_binary,
      marks_none, marks_append, Symbols.setTags_append]
  | .unary _ operand .., k, s => symbols_tag operand k s
  | .call _ _ args .., k, s => symbols_tagAll args k s
  | .ifThen test _ yes .., k, s => by
    simp only [tag, symbols_tag test, symbols_tag yes, next_tag test, Node.holders_ifThen,
      marks_none, marks_append, Symbols.setTags_append]
  | .ifThenElse test _ yes no .., k, s => by
    simp only [tag, symbols_tag test, symbols_tag yes, symbols_tag no, next_tag test, next_tag yes,
      Node.holders_ifThenElse, marks_none, marks_append, Symbols.setTags_append]
  | .block nodes .., k, s => symbols_tagAll nodes k s
  | .assign _ _ value .., k, s => symbols_tag value k s
  | .declare .., _, _ => rfl
  | .define _ x _ init _, k, s => by
    simp only [tag, symbols_tag init, Node.holders_define, marks_some, Symbols.setTags_cons]

theorem symbols_tagAll : ∀ (ns : List Node) (k : Nat) (s : Symbols),
    (tagAll ns k s).2.2 = s.setTags (marks k (Node.allHolders ns))
  | [], _, _ => rfl
  | n :: ns, k, s => by
    simp only [tagAll, symbols_tag n, symbols_tagAll ns, next_tag n, Node.allHolders_cons,
      marks_append, Symbols.setTags_append]

end

/-- Parameters are tagged one after the other. -/
theorem tagParams_eq (xs : List SymbolId) (k : Nat) (s : Symbols) :
    tagParams xs k s = (k + xs.length, s.setTags (marks k (xs.map some))) := by
  induction xs generalizing k s with
  | nil => rfl
  | cons x xs ih =>
    rw [tagParams, ih, List.map_cons, marks_some, Symbols.setTags_cons, List.length_cons]
    exact congrArg (·, _) (by omega)

/-- What declarations take and record on symbols. -/
theorem tagDecls_eq (ds : List Declaration) (k : Nat) (s : Symbols) :
    (tagDecls ds k s).2 = (k + (ds.flatMap Declaration.holders).length,
      s.setTags (marks k (ds.flatMap Declaration.holders))) := by
  induction ds generalizing k s with
  | nil => rfl
  | cons d ds ih =>
    simp only [tagDecls, tagParams_eq, ih, next_tag, symbols_tag, List.flatMap_cons,
      Declaration.holders, marks_append, Symbols.setTags_append, List.length_append,
      List.length_map, Nat.add_assoc]

/-! ## The tags of a tagged tree -/

mutual

/-- If the symbols have their marks, the nodes with temporaries of a tagged node have the numbers
from the first one on. -/
theorem tags_tag {S : Symbols} : ∀ (n : Node) (k : Nat) (s : Symbols),
    (∀ mark ∈ marks k n.holders, S.tag mark.1 = some mark.2) →
      (tag n k s).1.named.map (Node.tag? S) = tagsFrom k (k + n.holders.length)
  | .const .., k, _, _ | .error .., k, _, _ | .read .., k, _, _ => (tagsFrom_self k).symm
  | .binary _ lhs rhs .., k, s, h => by
    simp only [Node.holders_binary, marks_none, marks_append, List.forall_mem_append] at h
    simp only [tag, Node.named, List.map_cons, List.map_append, Node.tag?, tags_tag lhs _ _ h.1]
    rw [tags_tag rhs _ _ (by rw [next_tag]; exact h.2), next_tag,
      tagsFrom_append (by omega) (by omega), tagsFrom_cons (by omega)]
    simp only [Node.holders_binary, List.length_cons, List.length_append]
    congr 1
    omega
  | .unary _ operand .., k, s, h => tags_tag operand k s h
  | .call _ _ args .., k, s, h => tags_tagAll args k s h
  | .ifThen test _ yes .., k, s, h => by
    simp only [Node.holders_ifThen, marks_none, marks_append, List.forall_mem_append] at h
    simp only [tag, Node.named, List.map_cons, List.map_append, Node.tag?, tags_tag test _ _ h.1]
    rw [tags_tag yes _ _ (by rw [next_tag]; exact h.2), next_tag,
      tagsFrom_append (by omega) (by omega), tagsFrom_cons (by omega)]
    simp only [Node.holders_ifThen, List.length_cons, List.length_append]
    congr 1
    omega
  | .ifThenElse test _ yes no .., k, s, h => by
    simp only [Node.holders_ifThenElse, marks_none, marks_append, List.forall_mem_append] at h
    obtain ⟨ht, hy, hn⟩ := h
    simp only [tag, Node.named, List.map_cons, List.map_append, Node.tag?, tags_tag test _ _ ht]
    rw [tags_tag yes _ _ (by rw [next_tag]; exact hy),
      tags_tag no _ _ (by rw [next_tag, next_tag]; exact hn), next_tag, next_tag,
      tagsFrom_append (by omega) (by omega), tagsFrom_append (by omega) (by omega),
      tagsFrom_cons (by omega)]
    simp only [Node.holders_ifThenElse, List.length_cons, List.length_append]
    congr 1
    omega
  | .block nodes .., k, s, h => tags_tagAll nodes k s h
  | .assign _ _ value .., k, s, h => tags_tag value k s h
  | .declare _ x .., k, s, h => by
    have hx : S.tag x = some ⟨k⟩ := h (x, ⟨k⟩) (List.mem_singleton_self _)
    simp [tag, Node.named, Node.tag?, hx, Node.holders, Node.holderSymbol?, tagsFrom]
  | .define _ x _ init _, k, s, h => by
    simp only [Node.holders_define, marks_some, List.forall_mem_cons] at h
    simp only [tag, Node.named, List.map_cons, Node.tag?, h.1, tags_tag init _ _ h.2]
    rw [tagsFrom_cons (by omega)]
    simp only [Node.holders_define, List.length_cons]
    congr 1
    omega

theorem tags_tagAll {S : Symbols} : ∀ (ns : List Node) (k : Nat) (s : Symbols),
    (∀ mark ∈ marks k (Node.allHolders ns), S.tag mark.1 = some mark.2) →
      (Node.allNamed (tagAll ns k s).1).map (Node.tag? S) =
        tagsFrom k (k + (Node.allHolders ns).length)
  | [], k, _, _ => (tagsFrom_self k).symm
  | n :: ns, k, s, h => by
    simp only [Node.allHolders_cons, marks_append, List.forall_mem_append] at h
    simp only [tagAll, Node.allNamed, List.map_append, tags_tag n _ _ h.1]
    rw [tags_tagAll ns _ _ (by rw [next_tag]; exact h.2), next_tag,
      tagsFrom_append (by omega) (by omega), Node.allHolders_cons, List.length_append,
      Nat.add_assoc]

end

theorem tags_params {S : Symbols} (xs : List SymbolId) (k : Nat)
    (h : ∀ mark ∈ marks k (xs.map some), S.tag mark.1 = some mark.2) :
    xs.map S.tag = tagsFrom k (k + xs.length) := by
  induction xs generalizing k with
  | nil => exact (tagsFrom_self k).symm
  | cons x xs ih =>
    simp only [List.map_cons, marks_some, List.forall_mem_cons] at h
    rw [List.map_cons, h.1, ih (k + 1) h.2, List.length_cons, tagsFrom_cons (by omega)]
    congr 1
    omega

end Tagging

/-- The tags of a declaration, in the order in which they are given. -/
def Declaration.tags (S : Symbols) (d : Declaration) : List (Option Tag) :=
  d.params.map S.tag ++ d.body.named.map (Node.tag? S)

/-- The tags of the parameters of a package and of its nodes with temporaries, in the order in which
they are given. -/
def Package.tags (p : Package) : List (Option Tag) := p.decls.flatMap (Declaration.tags p.symbols)

theorem Tagging.tags_tagDecls {S : Symbols} (ds : List Declaration) (k : Nat) (s : Symbols)
    (h : ∀ mark ∈ marks k (ds.flatMap Declaration.holders), S.tag mark.1 = some mark.2) :
    (tagDecls ds k s).1.flatMap (Declaration.tags S) =
      tagsFrom k (k + (ds.flatMap Declaration.holders).length) := by
  induction ds generalizing k s with
  | nil => exact (tagsFrom_self k).symm
  | cons d ds ih =>
    simp only [List.flatMap_cons, Declaration.holders, marks_append, List.forall_mem_append,
      List.length_append, List.length_map] at h
    obtain ⟨⟨hparams, hbody⟩, hds⟩ := h
    simp only [tagDecls, tagParams_eq, next_tag, List.flatMap_cons, Declaration.tags,
      Declaration.holders, List.length_append, List.length_map]
    rw [tags_params _ _ hparams, tags_tag _ _ _ hbody,
      ih _ _ (by rwa [Nat.add_assoc]), tagsFrom_append (by omega) (by omega),
      tagsFrom_append (by omega) (by omega)]
    congr 1
    omega

/-! ## No symbol holds two tags -/

mutual

/-- The symbols that hold the tags of a body are those that belong to its variables. -/
theorem Node.perm_holders : ∀ n : Node,
    (n.holders.filterMap id).Perm (Resolution.owned n.references)
  | .const .. | .error .. | .read .. | .declare .. => .refl _
  | .binary _ lhs rhs .. => by
    simpa [references, Resolution.owned_append] using lhs.perm_holders.append rhs.perm_holders
  | .unary _ operand .. => operand.perm_holders
  | .call _ _ args .. => by
    rw [references, Resolution.owned_append]
    exact (List.append_nil _).symm ▸ Node.perm_allHolders args
  | .ifThen test _ yes .. => by
    simpa [references, Resolution.owned_append] using test.perm_holders.append yes.perm_holders
  | .ifThenElse test _ yes no .. => by
    simpa [references, Resolution.owned_append] using
      test.perm_holders.append (yes.perm_holders.append no.perm_holders)
  | .block nodes .. => Node.perm_allHolders nodes
  | .assign _ _ value .. => by
    rw [references, Resolution.owned_append]
    exact (List.append_nil _).symm ▸ value.perm_holders
  | .define _ x _ init _ => by
    -- The variable is tagged before its initial value and introduced after it.
    simpa [references, Resolution.owned, Reference.owned?] using
      (init.perm_holders.cons x).trans (List.perm_append_singleton x _).symm

theorem Node.perm_allHolders : ∀ ns : List Node,
    ((Node.allHolders ns).filterMap id).Perm (Resolution.owned (Node.allReferences ns))
  | [] => .refl _
  | n :: ns => by
    simpa [allReferences, Resolution.owned_append] using
      n.perm_holders.append (Node.perm_allHolders ns)

end

theorem length_tags (p : Package) : p.tags.length = p.holders.length := by
  simp [Package.tags, Package.holders, Declaration.tags, Declaration.holders, Node.holders]

namespace Package

variable {p : Package}

theorem perm_holders (p : Package) : (p.holders.filterMap id).Perm
    (Resolution.owned (p.decls.flatMap Declaration.references)) := by
  unfold holders
  induction p.decls with
  | nil => exact .refl _
  | cons d ds ih =>
    have hparams : (d.params.map some).filterMap id =
        Resolution.owned (d.params.map (.owns .param)) := by
      simp [Resolution.owned, Reference.owned?, List.filterMap_map, Function.comp_def]
    simp only [List.flatMap_cons, Declaration.holders, Declaration.references,
      List.filterMap_append, Resolution.owned_append, hparams]
    exact (d.body.perm_holders.append_left _).append ih

/-- The symbols that hold tags are those that belong to a parameter or variable. -/
theorem mem_holders_iff (p : Package) (x : SymbolId) :
    some x ∈ p.holders ↔ x ∈ Resolution.owned (p.decls.flatMap Declaration.references) := by
  rw [← p.perm_holders.mem_iff, List.mem_filterMap]
  simp

theorem next_tag (p : Package) (hc : p.stage.IsChecked) (k : Nat) :
    (p.tag hc k).2 = k + p.holders.length :=
  congrArg Prod.fst (Tagging.tagDecls_eq p.decls k p.symbols)

theorem symbols_tag (p : Package) (hc : p.stage.IsChecked) (k : Nat) :
    (p.tag hc k).1.symbols = p.symbols.setTags (Tagging.marks k p.holders) :=
  congrArg Prod.snd (Tagging.tagDecls_eq p.decls k p.symbols)

/-- In a well-formed package every symbol gets the tag that its place among the holders gives. -/
theorem WellFormed.tag_symbols_tag (h : p.WellFormed) (hc : p.stage.IsChecked) (k : Nat) :
    ∀ mark ∈ Tagging.marks k p.holders, (p.tag hc k).1.symbols.tag mark.1 = some mark.2 := by
  have hperm := p.perm_holders
  intro mark hmark
  rw [symbols_tag]
  refine Symbols.tag_setTags ?_ ?_ hmark
  · rw [Tagging.map_fst_marks]
    exact hperm.nodup_iff.2 h.owned
  · intro x hx
    rw [Tagging.map_fst_marks, hperm.mem_iff, Resolution.owned, List.mem_filterMap] at hx
    obtain ⟨r, hr, hx⟩ := hx
    obtain ⟨d, hd, hr⟩ := List.mem_flatMap.1 hr
    obtain ⟨kind, rfl⟩ : ∃ kind, r = .owns kind x := by
      cases r with
      | owns kind y => exact ⟨kind, congrArg _ (Option.some.inj hx)⟩
      | uses name y => cases hx
      | calls name callee => cases hx
    obtain ⟨e, he, -⟩ := h.references d hd _ hr
    exact (Array.getElem?_eq_some_iff.1 he).1

/-- **A tagged package has the tags from the first one on**, each once and in order. -/
theorem WellFormed.tags_tag (h : p.WellFormed) (hc : p.stage.IsChecked) (k : Nat) :
    (p.tag hc k).1.tags = tagsFrom k (p.tag hc k).2 := by
  rw [next_tag]
  exact Tagging.tags_tagDecls p.decls k p.symbols (h.tag_symbols_tag hc k)

/-- Symbols that hold no tag are left alone. -/
theorem get?_symbols_tag (p : Package) (hc : p.stage.IsChecked) (k : Nat) {x : SymbolId}
    (hx : some x ∉ p.holders) : (p.tag hc k).1.symbols.get? x = p.symbols.get? x := by
  rw [symbols_tag]
  refine Symbols.get?_setTags_of_notMem _ ?_
  rw [Tagging.map_fst_marks]
  simpa using hx

end Package

end CalcLang
