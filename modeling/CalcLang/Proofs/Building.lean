import CalcLang.Proofs.Lexical
import CalcLang.Proofs.Resolution

/-!
# Built packages

What `Package.build` makes of declarations that it has nothing to report about: the package scope
binds the names of the declarations, which all differ, parameters and variables are numbered
through all declarations behind the symbols of the declarations themselves, and every body is
scoped (`Package.resolved_of_build`).
-/

namespace CalcLang

/-- The numbers of `count` symbols from `k` on. -/
def numbered (k count : Nat) : List SymbolId := (List.range' k count).map SymbolId.mk

@[simp]
theorem length_numbered (k count : Nat) : (numbered k count).length = count := by
  simp [numbered]

theorem numbered_succ (k count : Nat) : numbered k (count + 1) = ⟨k⟩ :: numbered (k + 1) count := by
  simp [numbered, List.range'_succ]

@[simp]
theorem mem_numbered {k count : Nat} {x : SymbolId} :
    x ∈ numbered k count ↔ k ≤ x.index ∧ x.index < k + count := by
  obtain ⟨j⟩ := x
  simp [numbered]

/-- `ScopedDecls names k ds k'`: the parameters and variables of the declarations `ds` are the
symbols from `k` up to `k'`, and the bodies are scoped. -/
inductive ScopedDecls (names : List String) : Nat → List Declaration → Nat → Prop
  | nil {k} : ScopedDecls names k [] k
  | cons {k d V k₁ ds k₂} : d.params = numbered k d.params.length →
    Scoped names d.params.reverse (k + d.params.length) d.body V k₁ →
    ScopedDecls names k₁ ds k₂ → ScopedDecls names k (d :: ds) k₂

theorem ScopedDecls.le {names : List String} {k k' : Nat} {ds : List Declaration}
    (h : ScopedDecls names k ds k') : k ≤ k' := by
  induction h with
  | nil => exact Nat.le_refl _
  | cons _ hsc _ ih =>
    have := hsc.le
    omega

/-- Each declaration has parameters of its own and a scoped body. -/
theorem ScopedDecls.exists_scoped {names : List String} {k k' : Nat} {ds : List Declaration}
    (h : ScopedDecls names k ds k') {d : Declaration} (hd : d ∈ ds) :
    ∃ l V l', d.params = numbered l d.params.length ∧
      Scoped names d.params.reverse (l + d.params.length) d.body V l' := by
  induction h with
  | nil => cases hd
  | cons hp hsc _ ih =>
    rcases List.mem_cons.1 hd with rfl | hd
    · exact ⟨_, _, _, hp, hsc⟩
    · exact ih hd

namespace Resolution

open Names
open Lexical (number number_cons symbolOf)

variable {names : List String}

/-! ## Declarations -/

theorem BodyResolves.scoped {scope : ScopeId} {n n' : Names} {node : Node} {V : List SymbolId}
    {e : Expr} (h : BodyResolves scope e n node n') (hsolid : e.Solid)
    (hs : Sees names n scope V) :
    (∃ V', Passes names scope n V n' V') ∧
      ∃ V', Scoped names V n.symbols.size node V' n'.symbols.size := by
  cases h with
  | block ha =>
    obtain ⟨V₁, hp, hsc⟩ := ha.scoped hsolid.2 hs
    exact ⟨⟨V₁, hp⟩, V, .block (ha.ne_nil hsolid.1) hsc⟩
  | other _ h =>
    obtain ⟨V₁, hp, hsc⟩ := h.scoped hsolid hs
    exact ⟨⟨V₁, hp⟩, V₁, hsc⟩

/-- Parameters are bound one after the other, with their types. -/
theorem ParamsResolve.passes {scope : ScopeId} {n n' : Names} {ps : List Param}
    {symbols : List SymbolId} (h : ParamsResolve scope ps n symbols n') (names : List String)
    (V : List SymbolId) :
    symbols = numbered n.symbols.size ps.length ∧
      n'.symbols.size = n.symbols.size + ps.length ∧
      (∀ x ∈ symbols, (n'.symbols.ty x).isSome) ∧
      Passes names scope n V n' (symbols.reverse ++ V) := by
  induction h generalizing V with
  | nil => exact ⟨rfl, rfl, by simp, .refl ..⟩
  | @cons p ps n n₁ rest n₂ hb _ ih =>
    obtain ⟨hp₁, hsize⟩ := Passes.of_bind hb (by simp) names V
    obtain ⟨rfl, hsize', hty, hp₂⟩ := ih (n.nextSymbol :: V)
    refine ⟨by rw [List.length_cons, numbered_succ, hsize]; rfl, ?_, ?_, ?_⟩
    · rw [hsize', hsize, List.length_cons]
      omega
    · intro x hx
      rcases List.mem_cons.1 hx with rfl | hx
      · obtain ⟨_, hg, -⟩ := hp₂
        rw [Symbols.ty, Symbols.get?, hg.symbols _ (by simp [nextSymbol, hsize]),
          (grows_of_bind hb).2, nextSymbol, Array.getElem?_push_size]
        rfl
      · exact hty x hx
    · rw [List.reverse_cons, List.append_assoc]
      exact hp₁.trans hp₂

/-- Tables of symbols that agree below `k`. -/
theorem ty_congr {s s' : Symbols} {x : SymbolId} (h : s'[x.index]? = s[x.index]?) :
    s'.ty x = s.ty x := by
  rw [Symbols.ty, Symbols.ty, Symbols.get?, Symbols.get?, h]

/-- What a lowered declaration keeps of its source: its name, its symbol and its return type. -/
def head (d : Decl × SymbolId) : String × SymbolId × Ty := (d.1.name.name, d.2, d.1.ret.ty)

theorem DeclResolves.scoped {d : Decl} {symbol : SymbolId} {n n' : Names} {d' : Declaration}
    (h : DeclResolves d symbol n d' n') (hsolid : d.body.Solid) (hs : Sees names n .package []) :
    (d'.name, d'.symbol, d'.ret) = head (d, symbol) ∧ Grows .package n n' [] ∧
      d'.params = numbered n.symbols.size d'.params.length ∧
      (∀ x ∈ d'.params, (n'.symbols.ty x).isSome) ∧
      ∃ V, Scoped names d'.params.reverse (n.symbols.size + d'.params.length) d'.body V
        n'.symbols.size := by
  obtain ⟨hparams, hbody⟩ := h
  obtain ⟨rfl, hsize, hty, hp₁⟩ := hparams.passes names []
  rw [List.append_nil] at hp₁
  obtain ⟨⟨V₁, hp₂⟩, V₂, hsc⟩ := hbody.scoped hsolid (hp₁.sees hs.push)
  refine ⟨rfl, ?_, ?_, ?_, V₂, ?_⟩
  · obtain ⟨added, hg, -, -⟩ := hp₁.trans hp₂
    exact hg.of_push hs.index_lt
  · rw [length_numbered]
    rfl
  · intro x hx
    obtain ⟨_, hg, -⟩ := hp₂
    rw [ty_congr (hg.symbols _ ?_)]
    · exact hty x hx
    · rw [hsize]
      exact (mem_numbered.1 hx).2
  · rw [length_numbered]
    exact hsize ▸ hsc

theorem DeclsResolve.scoped {ds : List (Decl × SymbolId)} {n n' : Names}
    {ds' : List Declaration} (h : DeclsResolve ds n ds' n') (hsolid : ∀ d ∈ ds, d.1.body.Solid)
    (hs : Sees names n .package []) :
    ds'.map (fun d => (d.name, d.symbol, d.ret)) = ds.map head ∧ Grows .package n n' [] ∧
      (∀ d ∈ ds', ∀ x ∈ d.params, (n'.symbols.ty x).isSome) ∧
      ScopedDecls names n.symbols.size ds' n'.symbols.size := by
  induction h with
  | nil => exact ⟨rfl, .refl .., by simp, .nil⟩
  | @cons d symbol ds n d' n₁ ds' n₂ hd _ ih =>
    obtain ⟨hc, hg, hparams, hty, V, hsc⟩ := hd.scoped (hsolid (d, symbol) (by simp)) hs
    have hs₁ : Sees names n₁ .package [] := hs.grow hg (List.Subset.refl _) (by simp)
    obtain ⟨hcs, hgs, htys, hscs⟩ := ih (fun d hd => hsolid d (by simp [hd])) hs₁
    refine ⟨by rw [List.map_cons, List.map_cons, hc, hcs], hg.trans hgs, ?_,
      .cons hparams hsc hscs⟩
    intro e he x hx
    rcases List.mem_cons.1 he with rfl | he
    · have hlt : x.index < n₁.symbols.size := by
        have := hsc.le
        rw [hparams] at hx
        have := (mem_numbered.1 hx).2
        omega
      rw [ty_congr (hgs.symbols _ hlt)]
      exact hty x hx
    · exact htys e he x hx

/-! ## The package scope -/

/-- What the package scope binds the name of a declaration to. -/
def bindingOf (d : Decl × SymbolId) : String × SymbolId := (d.1.name.name, d.2)

theorem not_mem_of_lookup_eq_none {bs : ScopeTable.Bindings} {name : String}
    (h : bs.lookup name = none) : name ∉ bs.map Prod.fst := by
  intro hmem
  obtain ⟨b, hb, rfl⟩ := List.mem_map.1 hmem
  have := List.lookup_eq_none_iff.1 h b hb
  simp at this

/-- Declarations that are declared without a report have symbols one after the other, and new
names. -/
theorem declareAll_eq {ds : List Decl} {rest : List (Decl × SymbolId)} {k : Nat} {n n' : Names}
    {own : ScopeTable.Bindings} (hscopes : n.scopes.scopes = #[⟨none, own⟩])
    (hsize : n.symbols.size = k) (h : declareAll k ds n = (rest, n', [])) :
    rest = number k ds ∧
      n'.scopes.scopes = #[⟨none, own ++ (number k ds).map bindingOf⟩] ∧
      n'.symbols = n.symbols ++ ((number k ds).map symbolOf).toArray ∧
      ((own.map Prod.fst).Nodup →
        ((own ++ (number k ds).map bindingOf).map Prod.fst).Nodup) := by
  induction ds generalizing k n rest own with
  | nil =>
    simp only [declareAll, Prod.mk.injEq, and_true] at h
    obtain ⟨rfl, rfl⟩ := h
    simp [number, hscopes]
  | cons d ds ih =>
    have hloc : n.scopes.lookupLocal .package d.name.name = .ok (own.lookup d.name.name) := by
      simp [ScopeTable.lookupLocal, ScopeTable.get, hscopes, ScopeId.package, Except.map,
        Scope.find?]
    rw [declareAll, hloc] at h
    cases hl : own.lookup d.name.name with
    | some previous => simp [hl] at h
    | none =>
      simp only [hl, Names.bind, hloc] at h
      generalize hn₁ : (Names.mk _ _) = n₁ at h
      rcases hds : declareAll (k + 1) ds n₁ with ⟨rest', n₂, d₂⟩
      simp only [hds, Prod.mk.injEq] at h
      obtain ⟨rfl, rfl, rfl⟩ := h
      have hnew : bindingOf (d, ⟨k⟩) = (d.name.name, n.nextSymbol) := by
        simp [bindingOf, nextSymbol, hsize]
      have hscopes₁ : n₁.scopes.scopes = #[⟨none, own ++ [bindingOf (d, ⟨k⟩)]⟩] := by
        subst hn₁
        rw [hnew]
        simp [ScopeTable.bind, hscopes, ScopeId.package, Scope.bind, Array.modify, Array.modifyM]
      have hsymbols₁ : n₁.symbols = n.symbols.push (symbolOf (d, ⟨k⟩)) := by
        subst hn₁
        rfl
      obtain ⟨rfl, hsc, hsy, hnd⟩ := ih hscopes₁ (by simp [hsymbols₁, hsize]) hds
      refine ⟨?_, ?_, ?_, fun hown => ?_⟩
      · rw [number_cons, nextSymbol, hsize]
      · rw [hsc, number_cons, List.map_cons, List.append_assoc]
        rfl
      · rw [hsy, hsymbols₁, number_cons, List.map_cons]
        simp
      · rw [number_cons, List.map_cons, List.append_cons]
        refine hnd ?_
        rw [List.map_append, List.nodup_append]
        refine ⟨hown, by simp, ?_⟩
        have := not_mem_of_lookup_eq_none hl
        rintro a ha b hb rfl
        simp only [List.map_cons, List.map_nil, List.mem_singleton] at hb
        subst hb
        exact this ha

end Resolution

/-! ## Packages -/

namespace Package

/-- What `Package.build` makes sure of if it has nothing to report. -/
structure Resolved (p : Package) : Prop where
  names_nodup : (p.decls.map Declaration.name).Nodup
  scope : p.scopes.scopes[ScopeId.package.index]? =
    some ⟨none, p.decls.map fun d => (d.name, d.symbol)⟩
  /-- A declaration stands at the number of its symbol. -/
  symbols : ∀ i d, p.decls[i]? = some d → d.symbol = ⟨i⟩ ∧
    ∃ s, p.symbols.get? ⟨i⟩ = some s ∧ s.kind = .declaration ⟨i⟩ ∧ s.ty = some d.ret
  params : ∀ d ∈ p.decls, ∀ x ∈ d.params, (p.symbols.ty x).isSome
  bodies : ScopedDecls (p.decls.map Declaration.name) p.decls.length p.decls p.symbols.size

open Resolution Resolution.Names in
open Lexical (number getElem?_number length_number symbolOf) in
/-- **Building resolves all names.** -/
theorem resolved_of_build {name : String} {files : List (List Decl)}
    (hsolid : ∀ d ∈ files.flatten, d.body.Solid) (h : (Package.build name files).2 = []) :
    (Package.build name files).1.Resolved := by
  unfold Package.build at h ⊢
  rcases ha : declareAll 0 files.flatten .initial with ⟨accepted, n₁, d₁⟩
  rcases hl : lowerDecls accepted n₁ with ⟨decls, n₂, d₂⟩
  simp only [ha, hl, List.append_eq_nil_iff] at h ⊢
  obtain ⟨rfl, rfl⟩ := h
  obtain ⟨rfl, hscopes, hsymbols, hnodup⟩ := declareAll_eq (n := .initial) (k := 0) rfl rfl ha
  have hsize : n₁.symbols.size = files.flatten.length := by
    rw [hsymbols]
    simp [Names.initial, length_number]
  have hsymbol : ∀ d ∈ number 0 files.flatten, n₁.symbols.get? d.2 = some (symbolOf d) ∧
      ((number 0 files.flatten).map fun d => d.1.name.name)[d.2.index]? =
        some d.1.name.name := by
    intro d hd
    obtain ⟨i, hi⟩ := List.mem_iff_getElem?.1 hd
    obtain ⟨e, he, rfl⟩ : ∃ e, files.flatten[i]? = some e ∧ (e, ⟨i⟩) = d := by
      simpa [getElem?_number] using hi
    constructor
    · rw [hsymbols, Symbols.get?]
      simp [Names.initial, getElem?_number, he]
    · simp [getElem?_number, he]
  have hsees : Sees ((number 0 files.flatten).map fun d => d.1.name.name) n₁ .package [] := by
    refine ⟨_, [], .outermost (by rw [hscopes]; rfl), ?_⟩
    intro bs hbs b hb
    obtain rfl := List.mem_singleton.1 hbs
    rw [List.nil_append] at hb
    obtain ⟨d, hd, rfl⟩ := List.mem_map.1 hb
    obtain ⟨hget, hname⟩ := hsymbol d hd
    exact ⟨_, hget, .inr ⟨_, rfl, hname⟩⟩
  have hacc : ∀ d ∈ number 0 files.flatten, d.1.body.Solid := by
    intro d hd
    simp only [number, List.mem_map, Prod.exists] at hd
    obtain ⟨e, i, he, rfl⟩ := hd
    exact hsolid e (List.fst_mem_of_mem_zipIdx he)
  obtain ⟨hheads, hg, htys, hscoped⟩ := (declsResolve_iff.2 hl).scoped hacc hsees
  have hnames : decls.map Declaration.name =
      (number 0 files.flatten).map fun d => d.1.name.name := by
    have := congrArg (List.map Prod.fst) hheads
    simpa [head, Function.comp_def] using this
  have hlen : decls.length = files.flatten.length := by
    simpa [length_number] using congrArg List.length hheads
  have hbindings : decls.map (fun d => (d.name, d.symbol)) =
      (number 0 files.flatten).map bindingOf := by
    have := congrArg (List.map fun h => (h.1, h.2.1)) hheads
    rw [List.map_map, List.map_map] at this
    exact this
  refine ⟨?_, ?_, ?_, htys, ?_⟩
  · rw [hnames]
    simpa [bindingOf, Function.comp_def] using hnodup (by simp)
  · rw [hg.here ⟨none, (number 0 files.flatten).map bindingOf⟩ (by rw [hscopes]; rfl),
      hbindings, List.append_nil]
  · intro i d hd
    have hhead := congrArg (fun l => l[i]?) hheads
    simp only [List.getElem?_map, hd, Option.map_some, getElem?_number] at hhead
    cases he : files.flatten[i]? with
    | none => simp [he] at hhead
    | some e =>
      simp only [he, Option.map_some, head, Option.some.injEq, Prod.mk.injEq,
        Nat.zero_add] at hhead
      obtain ⟨-, hsym, hret⟩ := hhead
      have hmem : (e, (⟨i⟩ : SymbolId)) ∈ number 0 files.flatten :=
        List.mem_iff_getElem?.2 ⟨i, by simp [getElem?_number, he]⟩
      have hlt : i < n₁.symbols.size := by
        rw [hsize]
        exact (List.getElem?_eq_some_iff.1 he).1
      refine ⟨hsym, symbolOf (e, ⟨i⟩), ?_, rfl, by rw [hret]; rfl⟩
      rw [Symbols.get?, hg.symbols i hlt]
      exact (hsymbol _ hmem).1
  · rw [hnames, hlen, ← hsize]
    exact hscoped

end Package

end CalcLang
