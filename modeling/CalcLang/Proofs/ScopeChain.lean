import CalcLang.Scope

/-!
# Chains of scopes

The scope that a name is looked up in, the scope around it, and so on out to the package scope:
`ScopeTable.Chain` lists what each of them binds. Parents have smaller numbers than the scopes
inside them, so a lookup visits a chain once and finds the innermost binding
(`Chain.resolve?_eq`). Opening a scope and binding a name change a chain at its inner end only.
-/

namespace CalcLang

namespace ScopeTable

/-- The names that one scope binds. -/
abbrev Bindings := List (String × SymbolId)

/-- `Chain t id frames`: the scope `id` and the scopes around it bind the names `frames`,
innermost first. -/
inductive Chain (t : ScopeTable) : ScopeId → List Bindings → Prop
  | outermost {id : ScopeId} {names : Bindings} :
    t.scopes[id.index]? = some ⟨none, names⟩ → Chain t id [names]
  | inside {id parent : ScopeId} {names : Bindings} {frames : List Bindings} :
    t.scopes[id.index]? = some ⟨some parent, names⟩ → parent.index < id.index →
    Chain t parent frames → Chain t id (names :: frames)

/-- The innermost binding of a name. -/
def find (frames : List Bindings) (name : String) : Option SymbolId :=
  frames.findSome? fun names => names.lookup name

theorem mem_of_find {frames : List Bindings} {name : String} {x : SymbolId}
    (h : find frames name = some x) : ∃ bs ∈ frames, (name, x) ∈ bs := by
  obtain ⟨bs, hbs, h⟩ := List.exists_of_findSome?_eq_some h
  obtain ⟨before, after, rfl, -⟩ := List.lookup_eq_some_iff.1 h
  exact ⟨_, hbs, by simp⟩

/-- Names that are bound once are found. -/
theorem lookup_map_of_nodup {α β : Type} {name : α → String} {x : α → β} {l : List α}
    (hnodup : (l.map name).Nodup) {a : α} (ha : a ∈ l) :
    (l.map fun a => (name a, x a)).lookup (name a) = some (x a) := by
  induction l with
  | nil => cases ha
  | cons b l ih =>
    obtain ⟨hnot, hnodup⟩ := List.nodup_cons.1 hnodup
    rw [List.map_cons, List.lookup_cons]
    rcases List.mem_cons.1 ha with rfl | ha
    · rw [beq_self_eq_true]
    · have hne : name a ≠ name b := fun heq => hnot (heq ▸ List.mem_map_of_mem ha)
      rw [beq_eq_false_iff_ne.2 hne]
      exact ih hnodup ha

theorem get_of_getElem? {t : ScopeTable} {id : ScopeId} {s : Scope}
    (h : t.scopes[id.index]? = some s) : t.get id = .ok s := by
  unfold get
  rw [h]

namespace Chain

variable {t t' : ScopeTable} {id : ScopeId} {names : Bindings} {frames : List Bindings}

theorem index_lt (h : Chain t id frames) : id.index < t.scopes.size := by
  cases h with
  | outermost h => exact (Array.getElem?_eq_some_iff.1 h).1
  | inside h _ _ => exact (Array.getElem?_eq_some_iff.1 h).1

theorem lookupWithin_eq (h : Chain t id frames) (name : String) {steps : Nat}
    (hs : id.index < steps) : t.lookupWithin name steps id = .ok (find frames name) := by
  induction h generalizing steps with
  | @outermost id names hid =>
    obtain ⟨steps, rfl⟩ : ∃ k, steps = k + 1 := ⟨steps - 1, by omega⟩
    rw [lookupWithin, get_of_getElem? hid]
    cases hn : names.lookup name <;> simp [Scope.find?, find, hn]
  | @inside id parent names frames hid hlt _ ih =>
    obtain ⟨steps, rfl⟩ : ∃ k, steps = k + 1 := ⟨steps - 1, by omega⟩
    rw [lookupWithin, get_of_getElem? hid]
    cases hn : names.lookup name with
    | none => simpa [Scope.find?, find, hn] using ih (by omega)
    | some x => simp [Scope.find?, find, hn]

/-- A lookup finds the innermost binding. -/
theorem resolve?_eq (h : Chain t id frames) (name : String) :
    t.resolve? id name = find frames name := by
  have := h.index_lt
  rw [resolve?, lookup, h.lookupWithin_eq name (by omega)]

theorem lookupLocal_eq (h : Chain t id (names :: frames)) (name : String) :
    t.lookupLocal id name = .ok (names.lookup name) := by
  cases h with
  | outermost h => rw [lookupLocal, get_of_getElem? h]; rfl
  | inside h _ _ => rw [lookupLocal, get_of_getElem? h]; rfl

/-- A chain depends only on the scopes up to its inner end. -/
theorem congr (h : Chain t id frames)
    (heq : ∀ j, j ≤ id.index → t'.scopes[j]? = t.scopes[j]?) : Chain t' id frames := by
  induction h with
  | outermost hid => exact .outermost (by rw [heq _ (Nat.le_refl _), hid])
  | inside hid hlt _ ih =>
    exact .inside (by rw [heq _ (Nat.le_refl _), hid]) hlt (ih fun j hj => heq j (by omega))

/-- What a scope binds in addition is added to the chain that starts there. -/
theorem append (h : Chain t id (names :: frames)) {added : Bindings}
    (heq : ∀ j, j < id.index → t'.scopes[j]? = t.scopes[j]?)
    (hid : ∀ s, t.scopes[id.index]? = some s →
      t'.scopes[id.index]? = some { s with names := s.names ++ added }) :
    Chain t' id ((names ++ added) :: frames) := by
  cases h with
  | outermost h => exact .outermost (hid _ h)
  | inside h hlt hp => exact .inside (hid _ h) hlt (hp.congr fun j hj => heq j (by omega))

/-- A scope opened inside another one binds nothing yet. -/
theorem push (h : Chain t id frames) : Chain (t.push id) t.nextId ([] :: frames) := by
  have hlt := h.index_lt
  have hnew : (t.push id).scopes[t.nextId.index]? = some ⟨some id, []⟩ := by
    simp [ScopeTable.push, nextId]
  refine .inside hnew hlt (h.congr fun j hj => ?_)
  have : j < t.scopes.size := by omega
  simp [ScopeTable.push, Array.getElem?_push, this, Nat.ne_of_lt this]

end Chain

end ScopeTable

end CalcLang
