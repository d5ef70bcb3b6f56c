import CalcLang.Package

/-!
# Scoping

`Scoped` is what resolution makes sure of: every variable that a node reads or assigns is visible
there, every call names its declaration, and variables get the numbers of their symbols one after
the other in the order in which they are introduced. What a branch of an `if` or a block
introduces is visible up to its end.
-/

namespace CalcLang

/-- The number of the symbol is at least `k` and below `k'`. -/
def SymbolId.Within (x : SymbolId) (k k' : Nat) : Prop := k ≤ x.index ∧ x.index < k'

theorem SymbolId.Within.split {x : SymbolId} {k k₁ k₂ : Nat} (h : x.Within k k₂) :
    x.Within k k₁ ∨ x.Within k₁ k₂ := by
  by_cases hlt : x.index < k₁
  · exact .inl ⟨h.1, hlt⟩
  · exact .inr ⟨Nat.not_lt.1 hlt, h.2⟩

theorem not_within_left {x : SymbolId} {k k₁ k₂ : Nat} (h : ¬ x.Within k k₂) (hle : k₁ ≤ k₂) :
    ¬ x.Within k k₁ := fun hx => h ⟨hx.1, Nat.lt_of_lt_of_le hx.2 hle⟩

theorem not_within_right {x : SymbolId} {k k₁ k₂ : Nat} (h : ¬ x.Within k k₂) (hle : k ≤ k₁) :
    ¬ x.Within k₁ k₂ := fun hx => h ⟨Nat.le_trans hle hx.1, hx.2⟩

mutual

/-- `Scoped names V k n V' k'`: the node `n` is scoped where the variables `V` are visible and the
next symbol has the number `k`. Behind it the variables `V'` are visible and the next symbol has
the number `k'`. The declarations have the names `names`. -/
inductive Scoped (names : List String) : List SymbolId → Nat → Node → List SymbolId → Nat → Prop
  | const {V k v pos} : Scoped names V k (.const v pos) V k
  | read {V k name x ty pos} : x ∈ V → Scoped names V k (.read name x ty pos) V k
  | binary {V k op lhs V₁ k₁ rhs V₂ k₂ ty tag pos} : Scoped names V k lhs V₁ k₁ →
    Scoped names V₁ k₁ rhs V₂ k₂ → Scoped names V k (.binary op lhs rhs ty tag pos) V₂ k₂
  | unary {V k op operand V₁ k₁ ty pos} : Scoped names V k operand V₁ k₁ →
    Scoped names V k (.unary op operand ty pos) V₁ k₁
  | call {V k name callee args V₁ k₁ ty pos} : names[callee.index]? = some name →
    ScopedAll names V k args V₁ k₁ → Scoped names V k (.call name callee args ty pos) V₁ k₁
  | ifThen {V k test V₁ k₁ written yes V₂ k₂ ty tag pos} : Scoped names V k test V₁ k₁ →
    Scoped names V₁ k₁ yes V₂ k₂ → Scoped names V k (.ifThen test written yes ty tag pos) V₁ k₂
  | ifThenElse {V k test V₁ k₁ written yes V₂ k₂ no V₃ k₃ ty tag pos} :
    Scoped names V k test V₁ k₁ → Scoped names V₁ k₁ yes V₂ k₂ → Scoped names V₁ k₂ no V₃ k₃ →
    Scoped names V k (.ifThenElse test written yes no ty tag pos) V₁ k₃
  | block {V k nodes V₁ k₁ ty pos} : nodes ≠ [] → ScopedAll names V k nodes V₁ k₁ →
    Scoped names V k (.block nodes ty pos) V k₁
  | assign {V k name x value V₁ k₁ ty pos} : Scoped names V k value V₁ k₁ → x ∈ V₁ →
    Scoped names V k (.assign name x value ty pos) V₁ k₁
  | declare {V k name written pos} :
    Scoped names V k (.declare name ⟨k⟩ written pos) (⟨k⟩ :: V) (k + 1)
  | define {V k name written init V₁ k₁ pos} : Scoped names V k init V₁ k₁ →
    Scoped names V k (.define name ⟨k₁⟩ written init pos) (⟨k₁⟩ :: V₁) (k₁ + 1)

/-- `Scoped` for nodes one after the other. -/
inductive ScopedAll (names : List String) :
    List SymbolId → Nat → List Node → List SymbolId → Nat → Prop
  | nil {V k} : ScopedAll names V k [] V k
  | cons {V k n V₁ k₁ ns V₂ k₂} : Scoped names V k n V₁ k₁ → ScopedAll names V₁ k₁ ns V₂ k₂ →
    ScopedAll names V k (n :: ns) V₂ k₂

end

section Scoped

variable {names : List String}

theorem visible_trans {V V₁ : List SymbolId} {k k₁ k₂ : Nat} {x : SymbolId} (hle : k ≤ k₁)
    (hle' : k₁ ≤ k₂) (h : x ∈ V₁ → x ∈ V ∨ x.Within k k₁) (h' : x ∈ V₁ ∨ x.Within k₁ k₂) :
    x ∈ V ∨ x.Within k k₂ := by
  rcases h' with h' | ⟨h₁, h₂⟩
  · exact (h h').imp id fun h => ⟨h.1, Nat.lt_of_lt_of_le h.2 hle'⟩
  · exact .inr ⟨Nat.le_trans hle h₁, h₂⟩

mutual

/-- Symbols are numbered upward. -/
theorem Scoped.le {V V' : List SymbolId} {k k' : Nat} :
    ∀ {n : Node}, Scoped names V k n V' k' → k ≤ k'
  | .const .., h => by cases h; exact Nat.le_refl _
  | .error .., h => by cases h
  | .read .., h => by cases h; exact Nat.le_refl _
  | .binary .., h => by cases h with | binary hl hr => exact Nat.le_trans hl.le hr.le
  | .unary .., h => by cases h with | unary h => exact h.le
  | .call .., h => by cases h with | call _ h => exact h.le
  | .ifThen .., h => by cases h with | ifThen ht hy => exact Nat.le_trans ht.le hy.le
  | .ifThenElse .., h => by
    cases h with
    | ifThenElse ht hy hn => exact Nat.le_trans ht.le (Nat.le_trans hy.le hn.le)
  | .block .., h => by cases h with | block _ h => exact h.le
  | .assign .., h => by cases h with | assign h _ => exact h.le
  | .declare .., h => by cases h; exact Nat.le_succ _
  | .define .., h => by cases h with | define h => exact Nat.le_succ_of_le h.le

theorem ScopedAll.le {V V' : List SymbolId} {k k' : Nat} :
    ∀ {ns : List Node}, ScopedAll names V k ns V' k' → k ≤ k'
  | [], h => by cases h; exact Nat.le_refl _
  | _ :: _, h => by cases h with | cons h hs => exact Nat.le_trans h.le hs.le

end

mutual

/-- What is visible behind a node was visible before or is introduced by it. -/
theorem Scoped.visible {V V' : List SymbolId} {k k' : Nat} : ∀ {n : Node},
    Scoped names V k n V' k' → V ⊆ V' ∧ ∀ x ∈ V', x ∈ V ∨ x.Within k k'
  | .const .., h => by cases h; exact ⟨fun _ hx => hx, fun _ hx => .inl hx⟩
  | .error .., h => by cases h
  | .read .., h => by cases h; exact ⟨fun _ hx => hx, fun _ hx => .inl hx⟩
  | .binary .., h => by
    cases h with
    | binary hl hr =>
      have hle := hl.le
      have hle' := hr.le
      obtain ⟨hV, hx⟩ := hl.visible
      obtain ⟨hV', hx'⟩ := hr.visible
      exact ⟨fun x h => hV' (hV h), fun x h => visible_trans hle hle' (hx x) (hx' x h)⟩
  | .unary .., h => by cases h with | unary h => exact h.visible
  | .call .., h => by cases h with | call _ h => exact h.visible
  | .ifThen .., h => by
    cases h with
    | ifThen ht hy =>
      have hle := hy.le
      obtain ⟨hV, hx⟩ := ht.visible
      exact ⟨hV, fun x h => (hx x h).imp id fun h => ⟨h.1, Nat.lt_of_lt_of_le h.2 hle⟩⟩
  | .ifThenElse .., h => by
    cases h with
    | ifThenElse ht hy hn =>
      have hle := Nat.le_trans hy.le hn.le
      obtain ⟨hV, hx⟩ := ht.visible
      exact ⟨hV, fun x h => (hx x h).imp id fun h => ⟨h.1, Nat.lt_of_lt_of_le h.2 hle⟩⟩
  | .block .., h => by cases h; exact ⟨fun _ hx => hx, fun _ hx => .inl hx⟩
  | .assign .., h => by cases h with | assign h _ => exact h.visible
  | .declare .., h => by
    cases h
    refine ⟨fun _ hx => List.mem_cons_of_mem _ hx, fun x hx => ?_⟩
    rcases List.mem_cons.1 hx with rfl | hx
    · exact .inr ⟨Nat.le_refl _, Nat.lt_succ_self _⟩
    · exact .inl hx
  | .define .., h => by
    cases h with
    | define h =>
      have hle := h.le
      obtain ⟨hV, hx⟩ := h.visible
      refine ⟨fun x h => List.mem_cons_of_mem _ (hV h), fun x h => ?_⟩
      rcases List.mem_cons.1 h with rfl | h
      · exact .inr ⟨hle, Nat.lt_succ_self _⟩
      · exact (hx x h).imp id fun h => ⟨h.1, Nat.lt_succ_of_lt h.2⟩

theorem ScopedAll.visible {V V' : List SymbolId} {k k' : Nat} : ∀ {ns : List Node},
    ScopedAll names V k ns V' k' → V ⊆ V' ∧ ∀ x ∈ V', x ∈ V ∨ x.Within k k'
  | [], h => by cases h; exact ⟨fun _ hx => hx, fun _ hx => .inl hx⟩
  | _ :: _, h => by
    cases h with
    | cons h hs =>
      have hle := h.le
      have hle' := hs.le
      obtain ⟨hV, hx⟩ := h.visible
      obtain ⟨hV', hx'⟩ := hs.visible
      exact ⟨fun x h => hV' (hV h), fun x h => visible_trans hle hle' (hx x) (hx' x h)⟩

end

end Scoped

end CalcLang
