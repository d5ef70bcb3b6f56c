import CalcLang.Proofs.ScopeChain

/-!
# Histories of scope tables

A scope table can be told by the operations that made it. `ScopeTable.History` is the list of these
operations with their answers; it says which scopes are around a scope (`Around`), and what a name
was bound to in a scope first (`firstBinding`). If every scope was opened inside one that existed,
a lookup ends after looking into some of the scopes around, and it finds the first binding in the
nearest of them that has one. So binding a name is seen only from inside its scope, up to scopes
that bind the name themselves (`ScopeTable.lookup_follows_history`).
-/

namespace CalcLang

namespace ScopeTable

/-! ## Operations and their answers -/

/-- An operation that may change a table. -/
inductive Operation
  | push (parent : ScopeId)
  | insert (id : ScopeId) (name : String) (symbol : SymbolId)
  deriving DecidableEq, Repr

/-- What an operation answers. -/
inductive Answer
  /-- The number of the scope that was opened. -/
  | opened (id : ScopeId)
  | bound
  /-- The name is bound to another symbol in the same scope. -/
  | rejected (existing : SymbolId)
  | fault (fault : Fault)
  deriving DecidableEq, Repr

/-- The answer of an operation, and the table behind it. -/
def perform (t : ScopeTable) : Operation → Answer × ScopeTable
  | .push parent => (.opened t.nextId, t.push parent)
  | .insert id name symbol =>
    match t.insert id name symbol with
    | .error fault => (.fault fault, t)
    | .ok (.error existing) => (.rejected existing, t)
    | .ok (.ok t') => (.bound, t')

/-- Scopes are opened only inside scopes that exist. -/
def Allows (t : ScopeTable) : Operation → Prop
  | .push parent => parent.index < t.scopes.size
  | .insert _ _ _ => True

/-- Operations with their answers, oldest first. -/
abbrev Log := List (Operation × Answer)

/-- `History log t`: the operations of `log`, carried out on a new table one after the other, have
the answers of `log` and make the table `t`. -/
inductive History : Log → ScopeTable → Prop
  | new : History [] initial
  | step {log : Log} {t : ScopeTable} {op : Operation} : History log t → t.Allows op →
    History (log ++ [(op, (t.perform op).1)]) (t.perform op).2

/-! ## What a log says -/

/-- The symbol that one operation bound a name to in a scope. -/
def boundBy (id : ScopeId) (name : String) : Operation × Answer → Option SymbolId
  | (.insert id' name' symbol, .bound) => if id' = id ∧ name' = name then some symbol else none
  | _ => none

/-- The symbol that a name was bound to in a scope first. -/
def firstBinding (log : Log) (id : ScopeId) (name : String) : Option SymbolId :=
  log.findSome? (boundBy id name)

/-- `Around log id ids`: the scopes from `id` out to the package scope are `ids`, each opened inside
the next. -/
inductive Around (log : Log) : ScopeId → List ScopeId → Prop
  | package : Around log .package [.package]
  | inside {id parent : ScopeId} {ids : List ScopeId} : (.push parent, .opened id) ∈ log →
    Around log parent ids → Around log id (id :: ids)

/-- The first binding of a name in the nearest of some scopes that has one. -/
def nearest (log : Log) (ids : List ScopeId) (name : String) : Option SymbolId :=
  ids.findSome? fun id => firstBinding log id name

/-- From where the scopes `ids` are around one, a name in the scope `id` can be seen: no scope
before it binds the name. -/
def Sees (log : Log) (ids : List ScopeId) (id : ScopeId) (name : String) : Prop :=
  ∃ inner outer, ids = inner ++ id :: outer ∧ ∀ i ∈ inner, firstBinding log i name = none

/-! ## Looking a name up, scope by scope -/

/-- `Walk t name id visited found`: who looks a name up from the scope `id` outward looks into the
scopes `visited` one after the other and then stops with `found`. On a chain of parents that does
not end there is no such walk. -/
inductive Walk (t : ScopeTable) (name : String) :
    ScopeId → List ScopeId → Option SymbolId → Prop
  | found {id : ScopeId} {s : Scope} {x : SymbolId} : t.get id = .ok s → s.find? name = some x →
    Walk t name id [id] (some x)
  | outermost {id : ScopeId} {s : Scope} : t.get id = .ok s → s.find? name = none →
    s.parent = none → Walk t name id [id] none
  | outward {id parent : ScopeId} {s : Scope} {visited : List ScopeId}
    {found : Option SymbolId} : t.get id = .ok s → s.find? name = none → s.parent = some parent →
    Walk t name parent visited found → Walk t name id (id :: visited) found

theorem Walk.lookupWithin_eq {t : ScopeTable} {name : String} {id : ScopeId}
    {visited : List ScopeId} {found : Option SymbolId} (h : Walk t name id visited found)
    {steps : Nat} (hsteps : visited.length ≤ steps) : t.lookupWithin name steps id = .ok found := by
  induction h generalizing steps with
  | found hget hfind =>
    obtain ⟨steps, rfl⟩ := Nat.exists_eq_add_of_le' hsteps
    rw [List.length_singleton, lookupWithin, hget]
    simp only [hfind]
  | outermost hget hfind hparent =>
    obtain ⟨steps, rfl⟩ := Nat.exists_eq_add_of_le' hsteps
    rw [List.length_singleton, lookupWithin, hget]
    simp only [hfind, hparent]
  | outward hget hfind hparent _ ih =>
    obtain ⟨steps, rfl⟩ := Nat.exists_eq_add_of_le' hsteps
    rw [List.length_cons, ← Nat.add_assoc, lookupWithin, hget]
    simp only [hfind, hparent]
    exact ih (Nat.le_add_left _ _)

/-! ## Inserting -/

section Insert

variable {t : ScopeTable} {id : ScopeId} {s : Scope} {name : String} {symbol : SymbolId}

theorem perform_insert_of_none (h : t.scopes[id.index]? = none) :
    t.perform (.insert id name symbol) =
      (.fault (.outOfBounds t.scopes.size id.index), t) := by
  simp only [perform, insert, lookupLocal, get, h, Except.map]

theorem perform_insert_of_find? (h : t.scopes[id.index]? = some s) {existing : SymbolId}
    (hfind : s.find? name = some existing) :
    t.perform (.insert id name symbol) = (.rejected existing, t) := by
  simp only [perform, insert, lookupLocal, get_of_getElem? h, hfind, Except.map]

theorem perform_insert_of_find?_none (h : t.scopes[id.index]? = some s)
    (hfind : s.find? name = none) :
    t.perform (.insert id name symbol) = (.bound, t.bind id name symbol) := by
  simp only [perform, insert, lookupLocal, get_of_getElem? h, hfind, Except.map]

theorem find?_bind (s : Scope) (name other : String) (symbol : SymbolId) :
    (s.bind name symbol).find? other =
      (s.find? other).or (if name = other then some symbol else none) := by
  rw [Scope.find?, Scope.bind, List.lookup_append, Scope.find?]
  congr 1
  rw [List.lookup_cons, List.lookup_nil]
  by_cases h : name = other
  · simp [h]
  · simp [h, beq_eq_false_iff_ne.2 (Ne.symm h)]

theorem getElem?_bind (t : ScopeTable) (id : ScopeId) (name : String) (symbol : SymbolId)
    (i : Nat) : (t.bind id name symbol).scopes[i]? =
      t.scopes[i]?.map fun s => if id.index = i then s.bind name symbol else s := by
  rw [bind, Array.getElem?_modify]
  split <;> simp [*]

end Insert

/-! ## What a history keeps -/

section

variable {log : Log} {id : ScopeId} {name : String}

theorem firstBinding_concat (log : Log) (e : Operation × Answer) (id : ScopeId) (name : String) :
    firstBinding (log ++ [e]) id name = (firstBinding log id name).or (boundBy id name e) := by
  rw [firstBinding, List.findSome?_append]
  cases h : boundBy id name e <;> simp [firstBinding, h]

theorem firstBinding_concat_of_none {e : Operation × Answer} (h : boundBy id name e = none) :
    firstBinding (log ++ [e]) id name = firstBinding log id name := by
  rw [firstBinding_concat, h, Option.or_none]

theorem Around.mono {log' : Log} {ids : List ScopeId} (h : Around log id ids) (hlog : log ⊆ log') :
    Around log' id ids := by
  induction h with
  | package => exact .package
  | inside hmem _ ih => exact .inside (hlog hmem) ih

end

/-- A log tells the scopes of a table and what they bind. -/
structure Records (log : Log) (t : ScopeTable) : Prop where
  package : ∃ names, t.scopes[ScopeId.package.index]? = some ⟨none, names⟩
  opened : ∀ {parent id}, (.push parent, .opened id) ∈ log →
    parent.index < id.index ∧ ∃ names, t.scopes[id.index]? = some ⟨some parent, names⟩
  inner : ∀ {id s}, t.scopes[id.index]? = some s → id ≠ .package →
    ∃ parent, (.push parent, .opened id) ∈ log
  names : ∀ {id s}, t.scopes[id.index]? = some s →
    ∀ name, s.find? name = firstBinding log id name
  unknown : ∀ {id}, t.scopes[id.index]? = none → ∀ name, firstBinding log id name = none

namespace Records

variable {log : Log} {t : ScopeTable}

theorem initial : Records [] initial where
  package := ⟨[], rfl⟩
  opened := nofun
  inner := by
    rintro ⟨_ | i⟩ s hs hne
    · exact absurd rfl hne
    · exact absurd (Array.getElem?_eq_some_iff.1 hs).1 (by simp [ScopeTable.initial])
  names := by
    rintro ⟨_ | i⟩ s hs name
    · cases hs
      rfl
    · exact absurd (Array.getElem?_eq_some_iff.1 hs).1 (by simp [ScopeTable.initial])
  unknown := fun _ _ => rfl

/-- An operation that binds nothing and opens nothing adds nothing to what is recorded. -/
theorem quiet (h : Records log t) {e : Operation × Answer}
    (hbound : ∀ id name, boundBy id name e = none)
    (hopened : ∀ parent id, e ≠ (.push parent, .opened id)) : Records (log ++ [e]) t where
  package := h.package
  opened := fun {parent id} hmem =>
    (List.mem_append.1 hmem).elim h.opened fun he =>
      absurd (List.mem_singleton.1 he).symm (hopened parent id)
  inner := fun hs hne =>
    let ⟨parent, hmem⟩ := h.inner hs hne
    ⟨parent, List.mem_append_left _ hmem⟩
  names := fun hs name => by rw [firstBinding_concat_of_none (hbound _ _), h.names hs]
  unknown := fun hs name => by rw [firstBinding_concat_of_none (hbound _ _), h.unknown hs]

theorem push (h : Records log t) {parent : ScopeId} (hparent : parent.index < t.scopes.size) :
    Records (log ++ [(.push parent, .opened t.nextId)]) (t.push parent) := by
  have hold : ∀ {i : Nat} {s : Scope}, t.scopes[i]? = some s →
      (t.push parent).scopes[i]? = some s := by
    intro i s hs
    have hi := (Array.getElem?_eq_some_iff.1 hs).1
    rw [ScopeTable.push, Array.getElem?_push, if_neg (Nat.ne_of_lt hi), hs]
  have hnew : ∀ {id : ScopeId} {s : Scope}, (t.push parent).scopes[id.index]? = some s →
      t.scopes[id.index]? = some s ∨ id = t.nextId ∧ s = ⟨some parent, []⟩ := by
    intro id s hs
    rw [ScopeTable.push, Array.getElem?_push] at hs
    split at hs
    · next hid => exact .inr ⟨congrArg ScopeId.mk hid, (Option.some.inj hs).symm⟩
    · exact .inl hs
  have hquiet : ∀ id name, firstBinding (log ++ [(.push parent, .opened t.nextId)]) id name =
      firstBinding log id name := fun _ _ => firstBinding_concat_of_none rfl
  constructor
  · obtain ⟨names, hnames⟩ := h.package
    exact ⟨names, hold hnames⟩
  · intro parent' id hmem
    rcases List.mem_append.1 hmem with hmem | hmem
    · obtain ⟨hlt, names, hnames⟩ := h.opened hmem
      exact ⟨hlt, names, hold hnames⟩
    · cases List.mem_singleton.1 hmem
      refine ⟨hparent, [], ?_⟩
      rw [ScopeTable.push, nextId, Array.getElem?_push_size]
  · intro id s hs hne
    rcases hnew hs with hs | ⟨rfl, -⟩
    · obtain ⟨parent', hmem⟩ := h.inner hs hne
      exact ⟨parent', List.mem_append_left _ hmem⟩
    · exact ⟨parent, by simp⟩
  · intro id s hs name
    rw [hquiet]
    rcases hnew hs with hs | ⟨rfl, rfl⟩
    · exact h.names hs name
    · exact (h.unknown (by simp [nextId]) name).symm
  · intro id hs name
    rw [hquiet]
    refine h.unknown ?_ name
    cases hs' : t.scopes[id.index]? with
    | none => rfl
    | some s => rw [hold hs'] at hs; cases hs

theorem bind (h : Records log t) {id : ScopeId} {s : Scope} (hs : t.scopes[id.index]? = some s)
    (name : String) (symbol : SymbolId) :
    Records (log ++ [(.insert id name symbol, .bound)]) (t.bind id name symbol) := by
  constructor
  · obtain ⟨names, hnames⟩ := h.package
    rw [getElem?_bind, hnames, Option.map_some]
    split <;> exact ⟨_, rfl⟩
  · intro parent id' hmem
    rcases List.mem_append.1 hmem with hmem | hmem
    · obtain ⟨hlt, names, hnames⟩ := h.opened hmem
      refine ⟨hlt, ?_⟩
      rw [getElem?_bind, hnames, Option.map_some]
      split <;> exact ⟨_, rfl⟩
    · cases List.mem_singleton.1 hmem
  · intro id' s' hs' hne
    rw [getElem?_bind] at hs'
    obtain ⟨s'', hs'', -⟩ := Option.map_eq_some_iff.1 hs'
    obtain ⟨parent, hmem⟩ := h.inner hs'' hne
    exact ⟨parent, List.mem_append_left _ hmem⟩
  · intro id' s' hs' name'
    rw [getElem?_bind] at hs'
    obtain ⟨s'', hs'', rfl⟩ := Option.map_eq_some_iff.1 hs'
    rw [firstBinding_concat, ← h.names hs'' name']
    split
    · next hid =>
      obtain rfl : id = id' := congrArg ScopeId.mk hid
      simp [find?_bind, boundBy]
    · next hid =>
      have hne : id ≠ id' := fun heq => hid (heq ▸ rfl)
      simp [boundBy, hne]
  · intro id' hs' name'
    rw [getElem?_bind, Option.map_eq_none_iff] at hs'
    have hne : id ≠ id' := by
      rintro rfl
      rw [hs] at hs'
      cases hs'
    rw [firstBinding_concat_of_none (by simp [boundBy, hne]), h.unknown hs']

theorem step (h : Records log t) {op : Operation} (hop : t.Allows op) :
    Records (log ++ [(op, (t.perform op).1)]) (t.perform op).2 := by
  cases op with
  | push parent => exact h.push hop
  | insert id name symbol =>
    cases hs : t.scopes[id.index]? with
    | none =>
      rw [perform_insert_of_none hs]
      exact h.quiet (fun _ _ => rfl) nofun
    | some s =>
      cases hfind : s.find? name with
      | some existing =>
        rw [perform_insert_of_find? hs hfind]
        exact h.quiet (fun _ _ => rfl) nofun
      | none =>
        rw [perform_insert_of_find?_none hs hfind]
        exact h.bind hs name symbol

end Records

theorem History.records {log : Log} {t : ScopeTable} (h : History log t) : Records log t := by
  induction h with
  | new => exact .initial
  | step _ hop ih => exact ih.step hop

/-! ## Lookups -/

theorem nearest_cons (log : Log) (id : ScopeId) (ids : List ScopeId) (name : String) :
    nearest log (id :: ids) name = (firstBinding log id name).or (nearest log ids name) := by
  rw [nearest, List.findSome?_cons]
  cases firstBinding log id name <;> rfl

namespace Records

variable {log : Log} {t : ScopeTable} {id : ScopeId} {ids : List ScopeId}

theorem exists_around (h : Records log t) (hid : id.index < t.scopes.size) :
    ∃ ids, Around log id ids := by
  -- Parents have smaller numbers.
  induction hi : id.index using Nat.strongRecOn generalizing id with
  | ind i ih =>
    by_cases hpackage : id = .package
    · exact ⟨[id], hpackage ▸ .package⟩
    · obtain ⟨parent, hmem⟩ := h.inner (Array.getElem?_eq_getElem hid) hpackage
      have hlt := (h.opened hmem).1
      obtain ⟨ids, hids⟩ := ih parent.index (hi ▸ hlt) (Nat.lt_trans hlt hid) rfl
      exact ⟨id :: ids, .inside hmem hids⟩

theorem ne_package (h : Records log t) {parent : ScopeId}
    (hmem : (.push parent, .opened id) ∈ log) : id ≠ .package := by
  rintro rfl
  exact absurd (h.opened hmem).1 (Nat.not_lt_zero _)

theorem around_unique (h : Records log t) (hids : Around log id ids) {ids' : List ScopeId}
    (hids' : Around log id ids') : ids' = ids := by
  induction hids generalizing ids' with
  | package =>
    cases hids' with
    | package => rfl
    | inside hmem _ => exact absurd rfl (h.ne_package hmem)
  | inside hmem _ ih =>
    cases hids' with
    | package => exact absurd rfl (h.ne_package hmem)
    | inside hmem' hids' =>
      obtain ⟨-, names, hs⟩ := h.opened hmem
      obtain ⟨-, names', hs'⟩ := h.opened hmem'
      cases hs.symm.trans hs'
      rw [ih hids']

theorem length_le (h : Records log t) (hids : Around log id ids) : ids.length ≤ id.index + 1 := by
  induction hids with
  | package => exact Nat.le_refl _
  | inside hmem _ ih => exact Nat.succ_le_succ (Nat.le_trans ih (h.opened hmem).1)

theorem index_lt (h : Records log t) (hids : Around log id ids) : id.index < t.scopes.size := by
  cases hids with
  | package =>
    obtain ⟨names, hs⟩ := h.package
    exact (Array.getElem?_eq_some_iff.1 hs).1
  | inside hmem _ =>
    obtain ⟨-, names, hs⟩ := h.opened hmem
    exact (Array.getElem?_eq_some_iff.1 hs).1

/-- A lookup ends, having looked into some of the scopes around. -/
theorem exists_walk (h : Records log t) (hids : Around log id ids) (name : String) :
    ∃ visited, visited <+: ids ∧ Walk t name id visited (nearest log ids name) := by
  induction hids with
  | package =>
    obtain ⟨names, hs⟩ := h.package
    have hfind := h.names hs name
    refine ⟨[.package], List.prefix_refl _, ?_⟩
    rw [nearest_cons, ← hfind]
    cases hx : Scope.find? ⟨none, names⟩ name with
    | some x => exact .found (get_of_getElem? hs) hx
    | none => exact .outermost (get_of_getElem? hs) hx rfl
  | @inside id parent ids hmem _ ih =>
    obtain ⟨-, names, hs⟩ := h.opened hmem
    have hfind := h.names hs name
    rw [nearest_cons, ← hfind]
    cases hx : Scope.find? ⟨some parent, names⟩ name with
    | some x =>
      exact ⟨[id], List.prefix_append [id] ids, .found (get_of_getElem? hs) hx⟩
    | none =>
      obtain ⟨visited, hprefix, hwalk⟩ := ih
      exact ⟨id :: visited, List.cons_prefix_cons.2 ⟨rfl, hprefix⟩,
        .outward (get_of_getElem? hs) hx rfl hwalk⟩

/-- A lookup finds the first binding in the nearest scope that has one. -/
theorem lookup_eq (h : Records log t) (hids : Around log id ids) (name : String) :
    t.lookup id name = .ok (nearest log ids name) := by
  obtain ⟨visited, hprefix, hwalk⟩ := h.exists_walk hids name
  have hvisited := hprefix.length_le
  have hlength := h.length_le hids
  have hid := h.index_lt hids
  exact hwalk.lookupWithin_eq (by omega)

end Records

/-! ## What a new binding changes -/

section Bind

variable {log : Log} {id : ScopeId} {name : String} {symbol : SymbolId} {ids : List ScopeId}

theorem nearest_bind_of_sees (hfirst : firstBinding log id name = none)
    (hsees : Sees log ids id name) :
    nearest (log ++ [(.insert id name symbol, .bound)]) ids name = some symbol := by
  obtain ⟨inner, outer, rfl, hinner⟩ := hsees
  induction inner with
  | nil => simp [nearest_cons, firstBinding_concat, hfirst, boundBy]
  | cons i inner ih =>
    rw [List.cons_append, nearest_cons, firstBinding_concat, hinner i (by simp),
      ih fun j hj => hinner j (List.mem_cons_of_mem _ hj)]
    by_cases hi : id = i <;> simp [boundBy, hi]

theorem nearest_bind_of_not_sees {other : String}
    (hsees : ¬ (other = name ∧ Sees log ids id name)) :
    nearest (log ++ [(.insert id name symbol, .bound)]) ids other = nearest log ids other := by
  induction ids with
  | nil => rfl
  | cons i ids ih =>
    rw [nearest_cons, nearest_cons, firstBinding_concat]
    cases hfirst : firstBinding log i other with
    | some x => rfl
    | none =>
      have hquiet : boundBy i other (.insert id name symbol, .bound) = none := by
        refine if_neg ?_
        rintro ⟨rfl, rfl⟩
        exact hsees ⟨rfl, [], ids, rfl, nofun⟩
      rw [hquiet, ih]
      · rfl
      · rintro ⟨rfl, inner, outer, rfl, hinner⟩
        exact hsees ⟨rfl, i :: inner, outer, rfl, List.forall_mem_cons.2 ⟨hfirst, hinner⟩⟩

end Bind

/-! ## Opening a scope -/

section Push

variable {log : Log} {t : ScopeTable} {parent id : ScopeId}

theorem nearest_push (ids : List ScopeId) (name : String) :
    nearest (log ++ [(.push parent, .opened id)]) ids name = nearest log ids name :=
  congrArg ids.findSome? (funext fun _ => firstBinding_concat_of_none rfl)

/-- The scopes that exist are not changed. -/
theorem Records.lookup_push (h : Records log t) (hparent : parent.index < t.scopes.size)
    (hid : id.index < t.scopes.size) (name : String) :
    (t.push parent).lookup id name = t.lookup id name := by
  obtain ⟨ids, hids⟩ := h.exists_around hid
  rw [(h.push hparent).lookup_eq (hids.mono (List.subset_append_left ..)), h.lookup_eq hids,
    nearest_push]

/-- In the new scope one finds what is found around it. -/
theorem Records.lookup_nextId_push (h : Records log t) (hparent : parent.index < t.scopes.size)
    (name : String) : (t.push parent).lookup t.nextId name = t.lookup parent name := by
  obtain ⟨ids, hids⟩ := h.exists_around hparent
  have hnew : Around (log ++ [(.push parent, .opened t.nextId)]) t.nextId (t.nextId :: ids) :=
    .inside List.mem_concat_self (hids.mono (List.subset_append_left ..))
  have hunbound : firstBinding log t.nextId name = none := h.unknown (by simp [nextId]) name
  rw [(h.push hparent).lookup_eq hnew, nearest_cons, nearest_push, h.lookup_eq hids,
    firstBinding_concat_of_none rfl, hunbound, Option.none_or]

end Push

/-- **A lookup finds the first binding in the nearest scope that has one.** In a table whose scopes
were opened inside scopes that existed, the scopes around one are a list, and a lookup that starts
there ends. A name that a scope binds already is rejected with its symbol, and nothing changes; any
other one is bound, and that changes only what the name stands for in this scope and in those inside
it from which one sees it. Opening a scope changes no lookup in the others, and finds in the new
scope what is found around it. -/
theorem lookup_follows_history {log : Log} {t : ScopeTable} (h : History log t) :
    (∀ id : ScopeId, id.index < t.scopes.size →
      ∃ ids, Around log id ids ∧ (∀ ids', Around log id ids' → ids' = ids) ∧
        ∀ name, t.lookup id name = .ok (nearest log ids name) ∧
          ∃ visited, visited <+: ids ∧ Walk t name id visited (nearest log ids name)) ∧
    (∀ (id : ScopeId) (name : String) (symbol : SymbolId), id.index < t.scopes.size →
      let after := t.perform (.insert id name symbol)
      (∀ existing, firstBinding log id name = some existing → after = (.rejected existing, t)) ∧
      (firstBinding log id name = none → after.1 = .bound ∧
        ∀ id' ids other, Around log id' ids →
          (other = name ∧ Sees log ids id name →
            after.2.lookup id' other = .ok (some symbol)) ∧
          (¬ (other = name ∧ Sees log ids id name) →
            after.2.lookup id' other = t.lookup id' other))) ∧
    ∀ parent : ScopeId, parent.index < t.scopes.size →
      let after := (t.perform (.push parent)).2
      ∀ name, after.lookup t.nextId name = t.lookup parent name ∧
        ∀ id : ScopeId, id.index < t.scopes.size → after.lookup id name = t.lookup id name := by
  have hrecords := h.records
  refine ⟨fun id hid => ?_, fun id name symbol hid => ⟨?_, ?_⟩, fun parent hparent name => ?_⟩
  · obtain ⟨ids, hids⟩ := hrecords.exists_around hid
    exact ⟨ids, hids, fun _ => hrecords.around_unique hids, fun name =>
      ⟨hrecords.lookup_eq hids name, hrecords.exists_walk hids name⟩⟩
  · intro existing hexisting
    have hs := Array.getElem?_eq_getElem hid
    exact perform_insert_of_find? hs ((hrecords.names hs name).trans hexisting)
  · intro hnone
    have hs := Array.getElem?_eq_getElem hid
    have hperform : t.perform (.insert id name symbol) = (.bound, t.bind id name symbol) :=
      perform_insert_of_find?_none hs ((hrecords.names hs name).trans hnone)
    have hafter := hrecords.bind hs name symbol
    rw [hperform]
    refine ⟨rfl, fun id' ids other hids => ?_⟩
    rw [hafter.lookup_eq (hids.mono (List.subset_append_left ..)), hrecords.lookup_eq hids]
    refine ⟨?_, fun hsees => by rw [nearest_bind_of_not_sees hsees]⟩
    rintro ⟨rfl, hsees⟩
    rw [nearest_bind_of_sees hnone hsees]
  · exact ⟨hrecords.lookup_nextId_push hparent name,
      fun id hid => hrecords.lookup_push hparent hid name⟩

/-- A name that is bound in two scopes, and rejected when it is bound in the inner one again. -/
theorem lookup_follows_history_shadowing :
    let inner : ScopeId := ⟨1⟩
    let log : Log := [(.push .package, .opened inner), (.insert .package "a" ⟨0⟩, .bound),
      (.insert inner "a" ⟨1⟩, .bound), (.insert inner "a" ⟨2⟩, .rejected ⟨1⟩)]
    let t : ScopeTable := ⟨#[⟨none, [("a", ⟨0⟩)]⟩, ⟨some .package, [("a", ⟨1⟩)]⟩]⟩
    History log t ∧
      t.lookup inner "a" = .ok (some ⟨1⟩) ∧ t.lookup .package "a" = .ok (some ⟨0⟩) ∧
      t.perform (.insert inner "a" ⟨3⟩) = (.rejected ⟨1⟩, t) ∧
      (t.perform (.insert .package "b" ⟨3⟩)).2.lookup inner "b" = .ok (some ⟨3⟩) ∧
      (t.perform (.push inner)).2.lookup ⟨2⟩ "a" = .ok (some ⟨1⟩) := by
  intro inner log t
  have history : History log t :=
    have opened := @History.step _ _ (.push .package) .new Nat.one_pos
    have bound := @History.step _ _ (.insert .package "a" ⟨0⟩) opened trivial
    have rebound := @History.step _ _ (.insert inner "a" ⟨1⟩) bound trivial
    @History.step _ _ (.insert inner "a" ⟨2⟩) rebound trivial
  obtain ⟨hlookup, hinsert, hpush⟩ := lookup_follows_history history
  have around : Around log inner [inner, .package] := .inside (by simp [log, inner]) .package
  obtain ⟨ids, hids, hunique, hinner⟩ := hlookup inner Nat.one_lt_two
  obtain rfl := hunique _ around
  obtain ⟨ids', hids', hunique', houter⟩ := hlookup .package Nat.two_pos
  obtain rfl := hunique' _ .package
  have hb := ((hinsert .package "b" ⟨3⟩ Nat.two_pos).2 rfl).2 inner _ "b" around
  have hsees : Sees log [inner, .package] .package "b" :=
    ⟨[inner], [], rfl, by simp only [List.mem_singleton, forall_eq]; rfl⟩
  exact ⟨history, (hinner "a").1, (houter "a").1, (hinsert inner "a" ⟨3⟩ Nat.one_lt_two).1 ⟨1⟩ rfl,
    hb.1 ⟨rfl, hsees⟩, (hpush inner Nat.one_lt_two "a").1.trans (hinner "a").1⟩

end ScopeTable

end CalcLang
