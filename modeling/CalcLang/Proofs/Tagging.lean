import CalcLang.Package.Tagging
import CalcLang.Proofs.Scoping
import CalcLang.Proofs.Symbols

/-!
# Tags of nodes

`HasTags S lo n hi` says that the tags of the node `n` and of the variables that it introduces are
the numbers from `lo` to `hi`, each given once. It describes trees as `Package.tag` makes them
(`Tagging.hasTags_tag`).
-/

namespace CalcLang

mutual

/-- The tags of the node and of its variables, which stand in the table `S`, are the numbers from
`lo` up to `hi`, from the root down and from left to right. -/
inductive HasTags (S : Symbols) : Nat → Node → Nat → Prop
  | const {lo v pos} : HasTags S lo (.const v pos) lo
  | read {lo name x ty pos} : HasTags S lo (.read name x ty pos) lo
  | binary {lo op lhs l rhs hi ty pos} : HasTags S (lo + 1) lhs l → HasTags S l rhs hi →
    HasTags S lo (.binary op lhs rhs ty (some ⟨lo⟩) pos) hi
  | unary {lo op operand hi ty pos} : HasTags S lo operand hi →
    HasTags S lo (.unary op operand ty pos) hi
  | call {lo name callee args hi ty pos} : HaveTags S lo args hi →
    HasTags S lo (.call name callee args ty pos) hi
  | ifThen {lo test t written yes hi ty pos} : HasTags S (lo + 1) test t → HasTags S t yes hi →
    HasTags S lo (.ifThen test written yes ty (some ⟨lo⟩) pos) hi
  | ifThenElse {lo test t written yes y no hi ty pos} : HasTags S (lo + 1) test t →
    HasTags S t yes y → HasTags S y no hi →
    HasTags S lo (.ifThenElse test written yes no ty (some ⟨lo⟩) pos) hi
  | block {lo nodes hi ty pos} : HaveTags S lo nodes hi → HasTags S lo (.block nodes ty pos) hi
  | assign {lo name x value hi ty pos} : HasTags S lo value hi →
    HasTags S lo (.assign name x value ty pos) hi
  | declare {lo name x written pos} : S.tag x = some ⟨lo⟩ →
    HasTags S lo (.declare name x written pos) (lo + 1)
  | define {lo name x written init hi pos} : S.tag x = some ⟨lo⟩ → HasTags S (lo + 1) init hi →
    HasTags S lo (.define name x written init pos) hi

/-- `HasTags` for nodes one after the other. -/
inductive HaveTags (S : Symbols) : Nat → List Node → Nat → Prop
  | nil {lo} : HaveTags S lo [] lo
  | cons {lo n m ns hi} : HasTags S lo n m → HaveTags S m ns hi → HaveTags S lo (n :: ns) hi

end

section

variable {S : Symbols}

mutual

theorem HasTags.le {lo hi : Nat} : ∀ {n : Node}, HasTags S lo n hi → lo ≤ hi
  | .const .., h => by cases h; exact Nat.le_refl _
  | .error .., h => by cases h
  | .read .., h => by cases h; exact Nat.le_refl _
  | .binary .., h => by
    cases h with
    | binary hl hr => exact Nat.le_trans (Nat.le_of_succ_le hl.le) hr.le
  | .unary .., h => by cases h with | unary h => exact h.le
  | .call .., h => by cases h with | call h => exact h.le
  | .ifThen .., h => by
    cases h with
    | ifThen ht hy => exact Nat.le_trans (Nat.le_of_succ_le ht.le) hy.le
  | .ifThenElse .., h => by
    cases h with
    | ifThenElse ht hy hn =>
      exact Nat.le_trans (Nat.le_of_succ_le ht.le) (Nat.le_trans hy.le hn.le)
  | .block .., h => by cases h with | block h => exact h.le
  | .assign .., h => by cases h with | assign h => exact h.le
  | .declare .., h => by cases h; exact Nat.le_succ _
  | .define .., h => by cases h with | define _ h => exact Nat.le_of_succ_le h.le

theorem HaveTags.le {lo hi : Nat} : ∀ {ns : List Node}, HaveTags S lo ns hi → lo ≤ hi
  | [], h => by cases h; exact Nat.le_refl _
  | _ :: _, h => by cases h with | cons h hs => exact Nat.le_trans h.le hs.le

end

/-- The symbol has a tag at least `lo` and below `hi`. -/
def TagWithin (S : Symbols) (lo hi : Nat) (x : SymbolId) : Prop :=
  ∃ j, S.tag x = some ⟨j⟩ ∧ lo ≤ j ∧ j < hi

theorem TagWithin.mono {lo lo' hi hi' : Nat} {x : SymbolId} (h : TagWithin S lo hi x)
    (hlo : lo' ≤ lo) (hhi : hi ≤ hi') : TagWithin S lo' hi' x := by
  obtain ⟨j, hj, h₁, h₂⟩ := h
  exact ⟨j, hj, Nat.le_trans hlo h₁, Nat.lt_of_lt_of_le h₂ hhi⟩

variable {names : List String}

mutual

/-- What becomes visible behind a node has a tag of the node. -/
theorem HasTags.visible {V V' : List SymbolId} {k k' lo hi : Nat} {x : SymbolId} :
    ∀ {n : Node}, HasTags S lo n hi → Scoped names V k n V' k' → x ∈ V' →
      x ∈ V ∨ TagWithin S lo hi x
  | .const .., _, hsc, hx => by cases hsc; exact .inl hx
  | .error .., _, hsc, _ => by cases hsc
  | .read .., _, hsc, hx => by cases hsc; exact .inl hx
  | .binary .., ht, hsc, hx => by
    cases ht with
    | binary hl hr =>
      have hle := hl.le
      have hle' := hr.le
      cases hsc with
      | binary hscl hscr =>
        rcases hr.visible hscr hx with hx | hx
        · exact (hl.visible hscl hx).imp id fun h => h.mono (Nat.le_succ _) hle'
        · exact .inr (hx.mono (Nat.le_of_succ_le hle) (Nat.le_refl _))
  | .unary .., ht, hsc, hx => by
    cases ht with
    | unary h => cases hsc with | unary hsc => exact h.visible hsc hx
  | .call .., ht, hsc, hx => by
    cases ht with
    | call h => cases hsc with | call _ hsc => exact h.visible hsc hx
  | .ifThen .., ht, hsc, hx => by
    cases ht with
    | ifThen ht hy =>
      have hle := hy.le
      cases hsc with
      | ifThen hsct _ =>
        exact (ht.visible hsct hx).imp id fun h => h.mono (Nat.le_succ _) hle
  | .ifThenElse .., ht, hsc, hx => by
    cases ht with
    | ifThenElse ht hy hn =>
      have hle := Nat.le_trans hy.le hn.le
      cases hsc with
      | ifThenElse hsct _ _ =>
        exact (ht.visible hsct hx).imp id fun h => h.mono (Nat.le_succ _) hle
  | .block .., _, hsc, hx => by cases hsc; exact .inl hx
  | .assign .., ht, hsc, hx => by
    cases ht with
    | assign h => cases hsc with | assign hsc _ => exact h.visible hsc hx
  | .declare .., ht, hsc, hx => by
    cases ht with
    | declare hx' =>
      cases hsc
      rcases List.mem_cons.1 hx with rfl | hx
      · exact .inr ⟨_, hx', Nat.le_refl _, Nat.lt_succ_self _⟩
      · exact .inl hx
  | .define .., ht, hsc, hx => by
    cases ht with
    | define hx' h =>
      have hle := h.le
      cases hsc with
      | define hsc =>
        rcases List.mem_cons.1 hx with rfl | hx
        · exact .inr ⟨_, hx', Nat.le_refl _, hle⟩
        · exact (h.visible hsc hx).imp id fun h => h.mono (Nat.le_succ _) (Nat.le_refl _)

theorem HaveTags.visible {V V' : List SymbolId} {k k' lo hi : Nat} {x : SymbolId} :
    ∀ {ns : List Node}, HaveTags S lo ns hi → ScopedAll names V k ns V' k' → x ∈ V' →
      x ∈ V ∨ TagWithin S lo hi x
  | [], _, hsc, hx => by cases hsc; exact .inl hx
  | _ :: _, ht, hsc, hx => by
    cases ht with
    | cons h hs =>
      have hle := h.le
      have hle' := hs.le
      cases hsc with
      | cons hscn hscns =>
        rcases hs.visible hscns hx with hx | hx
        · exact (h.visible hscn hx).imp id fun h => h.mono (Nat.le_refl _) hle'
        · exact .inr (hx.mono hle (Nat.le_refl _))

end

end

/-! ## Nodes with temporaries -/

mutual

/-- The nodes that have a temporary: binary operations, `if`s and variables, from the root down and
from left to right. -/
def Node.named : Node → List Node
  | .const .. | .read .. | .error .. => []
  | .binary op lhs rhs ty tag pos =>
    .binary op lhs rhs ty tag pos :: (lhs.named ++ rhs.named)
  | .unary _ operand _ _ => operand.named
  | .call _ _ args _ _ => Node.allNamed args
  | .ifThen test written yes ty tag pos =>
    .ifThen test written yes ty tag pos :: (test.named ++ yes.named)
  | .ifThenElse test written yes no ty tag pos =>
    .ifThenElse test written yes no ty tag pos :: (test.named ++ yes.named ++ no.named)
  | .block nodes _ _ => Node.allNamed nodes
  | .assign _ _ value _ _ => value.named
  | .declare name x written pos => [.declare name x written pos]
  | .define name x written init pos => .define name x written init pos :: init.named

/-- `Node.named` for a list of nodes. -/
def Node.allNamed : List Node → List Node
  | [] => []
  | n :: ns => n.named ++ Node.allNamed ns

end

/-- The tag of a node that has a temporary. That of a variable is the tag of its symbol. -/
def Node.tag? (S : Symbols) : Node → Option Tag
  | .binary _ _ _ _ tag _ | .ifThen _ _ _ _ tag _ | .ifThenElse _ _ _ _ _ tag _ => tag
  | .declare _ x _ _ | .define _ x _ _ _ => S.tag x
  | .const .. | .read .. | .unary .. | .call .. | .block .. | .assign .. | .error .. => none

/-- The tags from `lo` up to `hi`. -/
def tagsFrom (lo hi : Nat) : List (Option Tag) := (List.range' lo (hi - lo)).map fun i => some ⟨i⟩

theorem tagsFrom_self (lo : Nat) : tagsFrom lo lo = [] := by
  rw [tagsFrom, Nat.sub_self]
  rfl

theorem tagsFrom_append {lo mid hi : Nat} (h : lo ≤ mid) (h' : mid ≤ hi) :
    tagsFrom lo mid ++ tagsFrom mid hi = tagsFrom lo hi := by
  have hmid : lo + (mid - lo) = mid := by omega
  have hcount : mid - lo + (hi - mid) = hi - lo := by omega
  have happend := List.range'_append_1 (s := lo) (m := mid - lo) (n := hi - mid)
  rw [hmid, hcount] at happend
  rw [tagsFrom, tagsFrom, tagsFrom, ← List.map_append, happend]

theorem tagsFrom_cons {lo hi : Nat} (h : lo + 1 ≤ hi) :
    some ⟨lo⟩ :: tagsFrom (lo + 1) hi = tagsFrom lo hi := by
  have hone : tagsFrom lo (lo + 1) = [some ⟨lo⟩] := by simp [tagsFrom]
  rw [← tagsFrom_append (Nat.le_succ lo) h, hone, List.singleton_append]

section

variable {S : Symbols}

mutual

/-- Nodes with temporaries have the tags of a node, each once and in their order. -/
theorem HasTags.tags_named {lo hi : Nat} : ∀ {n : Node}, HasTags S lo n hi →
    n.named.map (Node.tag? S) = tagsFrom lo hi
  | .const .., h => by cases h; exact (tagsFrom_self lo).symm
  | .error .., h => by cases h
  | .read .., h => by cases h; exact (tagsFrom_self lo).symm
  | .binary .., h => by
    cases h with
    | binary hl hr =>
      rw [Node.named, List.map_cons, List.map_append, hl.tags_named, hr.tags_named,
        tagsFrom_append hl.le hr.le]
      exact tagsFrom_cons (Nat.le_trans hl.le hr.le)
  | .unary .., h => by cases h with | unary h => exact h.tags_named
  | .call .., h => by cases h with | call h => exact h.tags_allNamed
  | .ifThen .., h => by
    cases h with
    | ifThen ht hy =>
      rw [Node.named, List.map_cons, List.map_append, ht.tags_named, hy.tags_named,
        tagsFrom_append ht.le hy.le]
      exact tagsFrom_cons (Nat.le_trans ht.le hy.le)
  | .ifThenElse .., h => by
    cases h with
    | ifThenElse ht hy hn =>
      have hle := Nat.le_trans ht.le hy.le
      rw [Node.named, List.map_cons, List.map_append, List.map_append, ht.tags_named,
        hy.tags_named, hn.tags_named, tagsFrom_append ht.le hy.le, tagsFrom_append hle hn.le]
      exact tagsFrom_cons (Nat.le_trans hle hn.le)
  | .block .., h => by cases h with | block h => exact h.tags_allNamed
  | .assign .., h => by cases h with | assign h => exact h.tags_named
  | .declare .., h => by
    cases h with
    | declare htag =>
      rw [← tagsFrom_cons (Nat.le_refl _), tagsFrom_self]
      exact congrArg (· :: []) htag
  | .define .., h => by
    cases h with
    | define htag h =>
      rw [Node.named, List.map_cons, h.tags_named, ← tagsFrom_cons h.le]
      exact congrArg (· :: _) htag

theorem HaveTags.tags_allNamed {lo hi : Nat} : ∀ {ns : List Node}, HaveTags S lo ns hi →
    (Node.allNamed ns).map (Node.tag? S) = tagsFrom lo hi
  | [], h => by cases h; exact (tagsFrom_self lo).symm
  | _ :: _, h => by
    cases h with
    | cons h hs =>
      rw [Node.allNamed, List.map_append, h.tags_named, hs.tags_allNamed,
        tagsFrom_append h.le hs.le]

end

/-- A node takes as many tags as it has nodes with temporaries. -/
theorem HasTags.next {n : Node} {lo hi : Nat} (h : HasTags S lo n hi) :
    hi = lo + n.named.length := by
  have hlength := congrArg List.length h.tags_named
  rw [List.length_map, tagsFrom, List.length_map, List.length_range'] at hlength
  have := h.le
  omega

end

namespace Tagging

variable {names : List String}

/-! ## What tagging records -/

mutual

theorem size_tag : ∀ (n : Node) (k : Nat) (s : Symbols), (tag n k s).2.2.size = s.size
  | .const .., _, _ | .error .., _, _ | .read .., _, _ => rfl
  | .binary _ lhs rhs .., _, s => (size_tag rhs _ _).trans (size_tag lhs _ s)
  | .unary _ operand .., k, s => size_tag operand k s
  | .call _ _ args .., k, s => size_tagAll args k s
  | .ifThen test _ yes .., _, s => (size_tag yes _ _).trans (size_tag test _ s)
  | .ifThenElse test _ yes no .., _, s =>
    (size_tag no _ _).trans ((size_tag yes _ _).trans (size_tag test _ s))
  | .block nodes .., k, s => size_tagAll nodes k s
  | .assign _ _ value .., k, s => size_tag value k s
  | .declare .., _, _ => Symbols.size_setTag ..
  | .define _ _ _ init _, _, _ => (size_tag init _ _).trans (Symbols.size_setTag ..)

theorem size_tagAll : ∀ (ns : List Node) (k : Nat) (s : Symbols),
    (tagAll ns k s).2.2.size = s.size
  | [], _, _ => rfl
  | n :: ns, k, s => (size_tagAll ns _ _).trans (size_tag n k s)

end

mutual

/-- Tagging does not touch types. -/
theorem ty_tag {x : SymbolId} : ∀ (n : Node) (k : Nat) (s : Symbols),
    (tag n k s).2.2.ty x = s.ty x
  | .const .., _, _ | .error .., _, _ | .read .., _, _ => rfl
  | .binary _ lhs rhs .., _, s => (ty_tag rhs _ _).trans (ty_tag lhs _ s)
  | .unary _ operand .., k, s => ty_tag operand k s
  | .call _ _ args .., k, s => ty_tagAll args k s
  | .ifThen test _ yes .., _, s => (ty_tag yes _ _).trans (ty_tag test _ s)
  | .ifThenElse test _ yes no .., _, s =>
    (ty_tag no _ _).trans ((ty_tag yes _ _).trans (ty_tag test _ s))
  | .block nodes .., k, s => ty_tagAll nodes k s
  | .assign _ _ value .., k, s => ty_tag value k s
  | .declare .., _, _ => Symbols.ty_setTag ..
  | .define _ _ _ init _, _, _ => (ty_tag init _ _).trans (Symbols.ty_setTag ..)

theorem ty_tagAll {x : SymbolId} : ∀ (ns : List Node) (k : Nat) (s : Symbols),
    (tagAll ns k s).2.2.ty x = s.ty x
  | [], _, _ => rfl
  | n :: ns, k, s => (ty_tagAll ns _ _).trans (ty_tag n k s)

end

mutual

/-- Tagging a node changes the symbols that the node introduces only. -/
theorem get?_tag {V V' : List SymbolId} {k k' : Nat} {x : SymbolId} : ∀ {n : Node} (lo : Nat)
    (s : Symbols), Scoped names V k n V' k' → ¬ x.Within k k' → (tag n lo s).2.2.get? x = s.get? x
  | .const .., _, _, _, _ => rfl
  | .error .., _, _, _, _ => rfl
  | .read .., _, _, _, _ => rfl
  | .binary .., _, s, h, hx => by
    cases h with
    | binary hl hr =>
      exact (get?_tag _ _ hr (not_within_right hx hl.le)).trans
        (get?_tag _ s hl (not_within_left hx hr.le))
  | .unary .., lo, s, h, hx => by cases h with | unary h => exact (get?_tag lo s h hx :)
  | .call .., lo, s, h, hx => by cases h with | call _ h => exact get?_tagAll lo s h hx
  | .ifThen .., _, s, h, hx => by
    cases h with
    | ifThen ht hy =>
      exact (get?_tag _ _ hy (not_within_right hx ht.le)).trans
        (get?_tag _ s ht (not_within_left hx hy.le))
  | .ifThenElse .., _, s, h, hx => by
    cases h with
    | ifThenElse ht hy hn =>
      have hx' := not_within_right hx ht.le
      exact (get?_tag _ _ hn (not_within_right hx' hy.le)).trans
        ((get?_tag _ _ hy (not_within_left hx' hn.le)).trans
          (get?_tag _ s ht (not_within_left hx (Nat.le_trans hy.le hn.le))))
  | .block .., lo, s, h, hx => by cases h with | block _ h => exact get?_tagAll lo s h hx
  | .assign .., lo, s, h, hx => by cases h with | assign h _ => exact (get?_tag lo s h hx :)
  | .declare .., _, s, h, hx => by
    cases h
    refine Symbols.get?_setTag_of_ne _ ?_
    rintro rfl
    exact hx ⟨Nat.le_refl _, Nat.lt_succ_self _⟩
  | .define .., _, s, h, hx => by
    cases h with
    | define h =>
      refine (get?_tag _ _ h (not_within_left hx (Nat.le_succ _))).trans
        (Symbols.get?_setTag_of_ne _ ?_)
      rintro rfl
      exact hx ⟨h.le, Nat.lt_succ_self _⟩

theorem get?_tagAll {V V' : List SymbolId} {k k' : Nat} {x : SymbolId} : ∀ {ns : List Node}
    (lo : Nat) (s : Symbols), ScopedAll names V k ns V' k' → ¬ x.Within k k' →
      (tagAll ns lo s).2.2.get? x = s.get? x
  | [], _, _, _, _ => rfl
  | _ :: _, lo, s, h, hx => by
    cases h with
    | cons h hs =>
      exact (get?_tagAll _ _ hs (not_within_right hx h.le)).trans
        (get?_tag lo s h (not_within_left hx hs.le))

end

theorem tag_tag {V V' : List SymbolId} {k k' : Nat} {x : SymbolId} {n : Node} (lo : Nat)
    (s : Symbols) (h : Scoped names V k n V' k') (hx : ¬ x.Within k k') :
    (tag n lo s).2.2.tag x = s.tag x := by
  rw [Symbols.tag, get?_tag lo s h hx, Symbols.tag]

theorem tag_tagAll {V V' : List SymbolId} {k k' : Nat} {x : SymbolId} {ns : List Node} (lo : Nat)
    (s : Symbols) (h : ScopedAll names V k ns V' k') (hx : ¬ x.Within k k') :
    (tagAll ns lo s).2.2.tag x = s.tag x := by
  rw [Symbols.tag, get?_tagAll lo s h hx, Symbols.tag]

/-- Two tables have the same tags for the symbols between two numbers. -/
def SameTags (S s : Symbols) (k k' : Nat) : Prop :=
  ∀ x : SymbolId, x.Within k k' → S.tag x = s.tag x

theorem SameTags.right {S s : Symbols} {k k₁ k₂ : Nat} (h : SameTags S s k k₂) (hle : k ≤ k₁) :
    SameTags S s k₁ k₂ := fun x hx => h x ⟨Nat.le_trans hle hx.1, hx.2⟩

/-- Tags stay when the next node is tagged. -/
theorem SameTags.before {S s s' : Symbols} {k k₁ k₂ : Nat} (h : SameTags S s' k k₂)
    (hle : k₁ ≤ k₂) (hkeep : ∀ x : SymbolId, ¬ x.Within k₁ k₂ → s'.tag x = s.tag x) :
    SameTags S s k k₁ := fun x hx =>
  (h x ⟨hx.1, Nat.lt_of_lt_of_le hx.2 hle⟩).trans
    (hkeep x fun h => Nat.not_lt.2 h.1 hx.2)

mutual

/-- **Tagging gives every number once**, as the table says in the end. -/
theorem hasTags_tag {S : Symbols} {V V' : List SymbolId} {k k' : Nat} : ∀ {n : Node} (lo : Nat)
    (s : Symbols), Scoped names V k n V' k' → k' ≤ s.size →
      SameTags S (tag n lo s).2.2 k k' → HasTags S lo (tag n lo s).1 (tag n lo s).2.1
  | .const .., _, _, _, _, _ => .const
  | .error .., _, _, h, _, _ => by cases h
  | .read .., _, _, _, _, _ => .read
  | .binary .., lo, s, h, hsize, hS => by
    cases h with
    | binary hl hr =>
      have hle := hr.le
      refine .binary (hasTags_tag (lo + 1) s hl (Nat.le_trans hle hsize) ?_)
        (hasTags_tag _ _ hr (by rwa [size_tag]) (hS.right hl.le))
      exact hS.before hle fun x hx => tag_tag _ _ hr hx
  | .unary .., lo, s, h, hsize, hS => by
    cases h with
    | unary h => exact .unary (hasTags_tag lo s h hsize hS)
  | .call .., lo, s, h, hsize, hS => by
    cases h with
    | call _ h => exact .call (haveTags_tagAll lo s h hsize hS)
  | .ifThen .., lo, s, h, hsize, hS => by
    cases h with
    | ifThen ht hy =>
      have hle := hy.le
      refine .ifThen (hasTags_tag (lo + 1) s ht (Nat.le_trans hle hsize) ?_)
        (hasTags_tag _ _ hy (by rwa [size_tag]) (hS.right ht.le))
      exact hS.before hle fun x hx => tag_tag _ _ hy hx
  | .ifThenElse test _ yes .., lo, s, h, hsize, hS => by
    cases h with
    | ifThenElse ht hy hn =>
      have hle := hy.le
      have hle' := hn.le
      have hS₂ : SameTags S (tag yes _ (tag test (lo + 1) s).2.2).2.2 k _ :=
        hS.before hle' fun x hx => tag_tag _ _ hn hx
      refine .ifThenElse (hasTags_tag (lo + 1) s ht (by omega) ?_)
        (hasTags_tag _ _ hy (by rw [size_tag]; omega) (hS₂.right ht.le))
        (hasTags_tag _ _ hn (by rw [size_tag, size_tag]; omega)
          (hS.right (Nat.le_trans ht.le hle)))
      exact hS₂.before hle fun x hx => tag_tag _ _ hy hx
  | .block .., lo, s, h, hsize, hS => by
    cases h with
    | block _ h => exact .block (haveTags_tagAll lo s h hsize hS)
  | .assign .., lo, s, h, hsize, hS => by
    cases h with
    | assign h _ => exact .assign (hasTags_tag lo s h hsize hS)
  | .declare .., lo, s, h, hsize, hS => by
    cases h
    refine .declare ((hS _ ⟨Nat.le_refl _, Nat.lt_succ_self _⟩).trans ?_)
    exact Symbols.tag_setTag_self _ hsize
  | .define .., lo, s, h, hsize, hS => by
    cases h with
    | @define _ _ _ _ _ V₁ k₁ _ h =>
      have hx : ¬ SymbolId.Within ⟨k₁⟩ k k₁ := fun h => Nat.lt_irrefl _ h.2
      refine .define ((hS ⟨k₁⟩ ⟨h.le, Nat.lt_succ_self _⟩).trans ?_)
        (hasTags_tag (lo + 1) _ h (by rw [Symbols.size_setTag]; omega) fun x hx => ?_)
      · exact (tag_tag _ _ h hx).trans (Symbols.tag_setTag_self _ hsize)
      · exact hS x ⟨hx.1, Nat.lt_succ_of_lt hx.2⟩

theorem haveTags_tagAll {S : Symbols} {V V' : List SymbolId} {k k' : Nat} : ∀ {ns : List Node}
    (lo : Nat) (s : Symbols), ScopedAll names V k ns V' k' → k' ≤ s.size →
      SameTags S (tagAll ns lo s).2.2 k k' → HaveTags S lo (tagAll ns lo s).1 (tagAll ns lo s).2.1
  | [], _, _, _, _, _ => .nil
  | _ :: _, lo, s, h, hsize, hS => by
    cases h with
    | cons h hs =>
      have hle := hs.le
      refine .cons (hasTags_tag lo s h (Nat.le_trans hle hsize) ?_)
        (haveTags_tagAll _ _ hs (by rwa [size_tag]) (hS.right h.le))
      exact hS.before hle fun x hx => tag_tagAll _ _ hs hx

end

end Tagging

end CalcLang
