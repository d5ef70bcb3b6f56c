import CalcLang.Proofs.SoundNames

/-!
# Well-formed packages

A package is a tree of nodes and some tables, and the nodes refer to the tables by number.
`Package.WellFormed` says that every number leads to an entry of the right kind and name, and that
no two parameters or variables share a symbol. Building makes it so whatever the source texts are
(`Package.wellFormed_build`), and checking, folding and tagging keep it, because they keep scopes,
names, kinds and references (`Package.WellFormed.of_tables`). So it holds of all packages on the
way through the stages (`Package.stages_keep_wellFormed`).
-/

namespace CalcLang

namespace Package

/-- Every number in a package leads to an entry of its tables that fits. -/
structure WellFormed (p : Package) : Prop where
  /-- The package scope is in no other scope. -/
  outermost : ∃ own, p.scopes.scopes[ScopeId.package.index]? = some ⟨none, own⟩
  /-- The other scopes are in scopes with smaller numbers. -/
  parents : ∀ (i : Nat) (s : Scope), p.scopes.scopes[i]? = some s → i ≠ ScopeId.package.index →
    ∃ parent, s.parent = some parent ∧ parent.index < i
  /-- A name is bound to a symbol of that name. -/
  bindings : ∀ (i : Nat) (s : Scope), p.scopes.scopes[i]? = some s → ∀ b ∈ s.names,
    ∃ e, p.symbols.get? b.2 = some e ∧ e.name = b.1
  /-- The symbol of a declaration has its name. -/
  declared : ∀ (x : SymbolId) (e : Symbol) (id : DeclId), p.symbols.get? x = some e →
    e.kind = .declaration id → ∃ d, p.decls[id.index]? = some d ∧ d.name = e.name
  /-- A declaration has a symbol, which the package scope binds its name to. -/
  symbols : ∀ (i : Nat) (d : Declaration), p.decls[i]? = some d →
    (∃ e, p.symbols.get? d.symbol = some e ∧ e.name = d.name ∧ e.kind = .declaration ⟨i⟩) ∧
      p.scopes.lookupLocal .package d.name = .ok (some d.symbol)
  /-- A declaration is found under its name. -/
  lookup : ∀ d ∈ p.decls, p.lookup? d.name = some d
  /-- A declaration has a scope. -/
  scopes : ∀ d ∈ p.decls, d.scope.index < p.scopes.scopes.size
  /-- Parameters, variables and calls refer to symbols and declarations of their names. -/
  references : ∀ d ∈ p.decls, ∀ r ∈ d.references,
    r.Resolves (p.decls.map Declaration.name) p.symbols
  /-- No symbol belongs to two parameters or variables. -/
  owned : (Resolution.owned (p.decls.flatMap Declaration.references)).Nodup

/-- The name and kind of a symbol, which stay as they are. -/
def nameAndKind (e : Symbol) : String × SymbolKind := (e.name, e.kind)

/-- What refers to the tables in a declaration and stays as it is. -/
def links (d : Declaration) : String × SymbolId × ScopeId × List Reference :=
  (d.name, d.symbol, d.scope, d.references)

theorem get?_of_map_nameAndKind {s s' : Symbols} (h : s'.map nameAndKind = s.map nameAndKind)
    {x : SymbolId} {e : Symbol} (he : s.get? x = some e) :
    ∃ e', s'.get? x = some e' ∧ e'.name = e.name ∧ e'.kind = e.kind := by
  have hx := congrArg (fun s => s[x.index]?) h
  rw [Symbols.get?] at he
  simp only [Array.getElem?_map, he, Option.map_some] at hx
  obtain ⟨e', he', hsame⟩ := Option.map_eq_some_iff.1 hx
  exact ⟨e', he', congrArg Prod.fst hsame, congrArg Prod.snd hsame⟩

theorem getElem?_of_map_links {ds ds' : List Declaration} (h : ds'.map links = ds.map links)
    {i : Nat} {d : Declaration} (hd : ds[i]? = some d) :
    ∃ d', ds'[i]? = some d' ∧ links d' = links d := by
  have hi := congrArg (fun l => l[i]?) h
  simp only [List.getElem?_map, hd, Option.map_some] at hi
  exact Option.map_eq_some_iff.1 hi

/-- Declarations whose names are bound to their symbols are found. -/
theorem lookup?_of_mem {p : Package} (h : ∀ (i : Nat) (d : Declaration), p.decls[i]? = some d →
      (∃ e, p.symbols.get? d.symbol = some e ∧ e.name = d.name ∧ e.kind = .declaration ⟨i⟩) ∧
        p.scopes.lookupLocal .package d.name = .ok (some d.symbol))
    {d : Declaration} (hd : d ∈ p.decls) : p.lookup? d.name = some d := by
  obtain ⟨i, hi⟩ := List.mem_iff_getElem?.1 hd
  obtain ⟨⟨e, he, -, hkind⟩, hbound⟩ := h i d hi
  unfold ScopeTable.lookupLocal ScopeTable.get at hbound
  split at hbound
  · next s hs =>
    have hfind : s.find? d.name = some d.symbol := Except.ok.inj hbound
    have hid : p.lookupId? d.name = some ⟨i⟩ := by
      simp [lookupId?, hs, hfind, he, Symbol.declaration?, hkind]
    rw [lookup?, hid, Option.bind_some, hi]
  · cases hbound

namespace WellFormed

variable {p q : Package}

/-- Well-formedness depends on scopes, on the names and kinds of symbols and on what declarations
refer to. -/
theorem of_tables (h : p.WellFormed) (hscopes : q.scopes = p.scopes)
    (hsymbols : q.symbols.map nameAndKind = p.symbols.map nameAndKind)
    (hdecls : q.decls.map links = p.decls.map links) : q.WellFormed := by
  have hnames : q.decls.map Declaration.name = p.decls.map Declaration.name := by
    simpa [links, Function.comp_def] using congrArg (List.map Prod.fst) hdecls
  have hrefs : q.decls.flatMap Declaration.references = p.decls.flatMap Declaration.references := by
    have := congrArg (List.map fun l => l.2.2.2) hdecls
    simp only [List.map_map] at this
    exact congrArg List.flatten this
  have hsymbol : ∀ (i : Nat) (d : Declaration), q.decls[i]? = some d →
      (∃ e, q.symbols.get? d.symbol = some e ∧ e.name = d.name ∧ e.kind = .declaration ⟨i⟩) ∧
        q.scopes.lookupLocal .package d.name = .ok (some d.symbol) := by
    intro i d hd
    obtain ⟨d', hd', hlinks⟩ := getElem?_of_map_links hdecls.symm hd
    simp only [links, Prod.mk.injEq] at hlinks
    obtain ⟨hname, hsymbol, -⟩ := hlinks
    obtain ⟨⟨e, he, hename, hkind⟩, hbound⟩ := h.symbols i d' hd'
    obtain ⟨e', he', hename', hkind'⟩ := get?_of_map_nameAndKind hsymbols he
    rw [hscopes, ← hname, ← hsymbol]
    exact ⟨⟨e', he', hename'.trans hename, hkind'.trans hkind⟩, hbound⟩
  refine ⟨?_, ?_, ?_, ?_, hsymbol, fun d hd => lookup?_of_mem hsymbol hd, ?_, ?_, ?_⟩
  · rw [hscopes]
    exact h.outermost
  · rw [hscopes]
    exact h.parents
  · rw [hscopes]
    intro i s hs b hb
    obtain ⟨e, he, hname⟩ := h.bindings i s hs b hb
    obtain ⟨e', he', hname', -⟩ := get?_of_map_nameAndKind hsymbols he
    exact ⟨e', he', hname'.trans hname⟩
  · intro x e id he hkind
    obtain ⟨e', he', hname, hkind'⟩ := get?_of_map_nameAndKind hsymbols.symm he
    obtain ⟨d, hd, hdname⟩ := h.declared x e' id he' (hkind'.trans hkind)
    obtain ⟨d', hd', hlinks⟩ := getElem?_of_map_links hdecls hd
    exact ⟨d', hd', (congrArg Prod.fst hlinks).trans (hdname.trans hname)⟩
  · intro d hd
    obtain ⟨i, hi⟩ := List.mem_iff_getElem?.1 hd
    obtain ⟨d', hd', hlinks⟩ := getElem?_of_map_links hdecls.symm hi
    have hscope : d'.scope = d.scope := congrArg (fun l => l.2.2.1) hlinks
    rw [hscopes, ← hscope]
    exact h.scopes d' (List.mem_of_getElem? hd')
  · intro d hd r hr
    obtain ⟨i, hi⟩ := List.mem_iff_getElem?.1 hd
    obtain ⟨d', hd', hlinks⟩ := getElem?_of_map_links hdecls.symm hi
    have hsame : d'.references = d.references := congrArg (fun l => l.2.2.2) hlinks
    have hres := h.references d' (List.mem_of_getElem? hd') r (hsame ▸ hr)
    rw [hnames]
    exact hres.of_kept (get?_of_map_nameAndKind hsymbols)
  · rw [hrefs]
    exact h.owned

end WellFormed

/-! ## Building -/

open Resolution Lexical in
theorem wellFormed_build (name : String) (files : List (List Decl)) :
    (Package.build name files).1.WellFormed := by
  have ha : declareAll 0 files.flatten .initial = _ :=
    declareAll_eq_firsts [] [] files.flatten fun _ => rfl
  have hnodup := nodup_firsts [] files.flatten
  simp only [Package.build, ha, List.nil_append, List.length_nil]
  generalize firsts [] files.flatten = kept at hnodup
  have hl := lowerDecls_lowers (sound_declared kept) (Nat.zero_lt_one) (number 0 kept)
  have hscope := @scope_of_mem_lowerDecls _ _ (sound_declared kept) (Nat.zero_lt_one)
    (number 0 kept)
  have hmap := map_name_lowerDecls (number 0 kept) (declared kept)
  generalize lowerDecls (number 0 kept) (declared kept) = lowered at hl hscope hmap
  obtain ⟨ds, n, d⟩ := lowered
  obtain ⟨added, hg⟩ := hl.grows
  have hnames : ds.map Declaration.name = kept.map fun d => d.name.name := by
    have := congrArg (List.map Prod.fst) hmap
    rw [List.map_map, List.map_map] at this
    exact this.trans (map_name_number 0 kept)
  have hsymbol : ∀ (i : Nat) (d : Declaration), ds[i]? = some d →
      (∃ e, n.symbols.get? d.symbol = some e ∧ e.name = d.name ∧ e.kind = .declaration ⟨i⟩) ∧
        n.scopes.lookupLocal .package d.name = .ok (some d.symbol) := by
    intro i d hd
    have hi := congrArg (fun l => l[i]?) hmap
    simp only [List.getElem?_map, hd, getElem?_number, Option.map_map] at hi
    obtain ⟨decl, hdecl, heq⟩ := Option.map_eq_some_iff.1 hi.symm
    obtain ⟨hname, hsym⟩ := Prod.mk.inj heq
    have hdeclared := get?_declared kept i
    rw [hdecl, Option.map_some, Symbols.get?] at hdeclared
    have hkept := (hg.symbols i (Array.getElem?_eq_some_iff.1 hdeclared).1).trans hdeclared
    rw [← hname, ← hsym, Nat.zero_add]
    exact ⟨⟨_, hkept, rfl, rfl⟩,
      lookupLocal_of_grows hg (lookupLocal_declared_of_nodup hnodup hdecl)⟩
  refine ⟨hl.sound.outermost, hl.sound.parents, hl.sound.bindings, ?_, hsymbol,
    fun d hd => lookup?_of_mem hsymbol hd, fun d hd => hscope hd, ?_, hl.nodup⟩
  · intro x e id he hkind
    have hname := hl.sound.named x e id he hkind
    rw [← hnames, List.getElem?_map] at hname
    exact Option.map_eq_some_iff.1 hname
  · intro d hd r hr
    rw [hnames]
    exact hl.resolves r (List.mem_flatMap.2 ⟨d, hd, hr⟩)

/-! ## The stages -/

/-- The package with other bodies and symbols. -/
def map (p : Package) (f : Node → Node) (g : Symbol → Symbol) : Package :=
  { p with
    symbols := p.symbols.map g
    decls := p.decls.map fun d => { d with body := f d.body } }

/-- The package without the types that checking records. -/
def untyped (p : Package) : Package := p.map Node.untyped fun e => { e with ty := none }

/-- The package without the tags. -/
def untagged (p : Package) : Package := p.map Node.untagged fun e => { e with tag := none }

/-- Bodies and symbols may change, but for references, names and kinds. -/
theorem wellFormed_map {f : Node → Node} {g : Symbol → Symbol}
    (hf : ∀ n, (f n).references = n.references) (hg : ∀ e, nameAndKind (g e) = nameAndKind e)
    (p : Package) : (p.map f g).WellFormed ↔ p.WellFormed := by
  have hsymbols : (p.map f g).symbols.map nameAndKind = p.symbols.map nameAndKind := by
    simp [map, Function.comp_def, hg]
  have hdecls : (p.map f g).decls.map links = p.decls.map links := by
    simp [map, links, Declaration.references, Function.comp_def, hf]
  exact ⟨fun h => h.of_tables rfl hsymbols.symm hdecls.symm,
    fun h => h.of_tables rfl hsymbols hdecls⟩

theorem wellFormed_untyped (p : Package) : p.untyped.WellFormed ↔ p.WellFormed :=
  wellFormed_map (g := fun e => { e with ty := none }) references_untyped (fun _ => rfl) p

theorem wellFormed_untagged (p : Package) : p.untagged.WellFormed ↔ p.WellFormed :=
  wellFormed_map (g := fun e => { e with tag := none }) references_untagged (fun _ => rfl) p

/-- Well-formedness does not depend on the stage. -/
theorem WellFormed.withStage {p : Package} (h : p.WellFormed) (stage : Stage) :
    WellFormed { p with stage := stage } :=
  h.of_tables rfl rfl rfl

theorem untyped_checkDecls (sigs : Typing.Signatures) (ds : List Declaration) (s : Symbols) :
    (Typing.checkDecls sigs ds s).1.map (fun d => { d with body := d.body.untyped }) =
        ds.map (fun d => { d with body := d.body.untyped }) ∧
      (Typing.checkDecls sigs ds s).2.1.untyped = s.untyped := by
  induction ds generalizing s with
  | nil => exact ⟨rfl, rfl⟩
  | cons d ds ih =>
    obtain ⟨hds, hs⟩ := ih (Typing.check sigs d.body s).2.2.1
    refine ⟨?_, hs.trans (symbols_untyped_check sigs d.body s)⟩
    simp only [Typing.checkDecls, List.map_cons, hds, Typing.untyped_check]

theorem untagged_tagDecls (ds : List Declaration) (k : Nat) (s : Symbols) :
    (Tagging.tagDecls ds k s).1.map (fun d => { d with body := d.body.untagged }) =
        ds.map (fun d => { d with body := d.body.untagged }) ∧
      (Tagging.tagDecls ds k s).2.2.untagged = s.untagged := by
  induction ds generalizing k s with
  | nil => exact ⟨rfl, rfl⟩
  | cons d ds ih =>
    rcases hps : Tagging.tagParams d.params k s with ⟨k₁, s₁⟩
    have hs₁ : s₁.untagged = s.untagged := by simpa [hps] using untagged_tagParams d.params k s
    rcases hbody : Tagging.tag d.body k₁ s₁ with ⟨body, k₂, s₂⟩
    obtain ⟨hb, hs₂⟩ := CalcLang.untagged_tag d.body k₁ s₁
    rw [hbody] at hb hs₂
    obtain ⟨hds, hs⟩ := ih k₂ s₂
    simp only [Tagging.tagDecls, hps, hbody]
    refine ⟨?_, hs.trans (hs₂.trans hs₁)⟩
    simp only [List.map_cons, hds, hb]

/-- Checking changes types only. -/
theorem untyped_check (p : Package) (hb : p.stage = .built) :
    (p.check hb).1.untyped = { p.untyped with stage := .checked } := by
  obtain ⟨hds, hs⟩ :=
    untyped_checkDecls (Typing.signatures p.symbols p.decls) p.decls p.symbols
  exact (Package.mk.injEq ..).mpr ⟨rfl, rfl, hs, hds, rfl⟩

/-- Tagging changes tags only. -/
theorem untagged_tag (p : Package) (hc : p.stage.IsChecked) (first : Nat) :
    (p.tag hc first).1.untagged = { p.untagged with stage := .tagged } := by
  obtain ⟨hds, hs⟩ := untagged_tagDecls p.decls first p.symbols
  exact (Package.mk.injEq ..).mpr ⟨rfl, rfl, hs, hds, rfl⟩

namespace WellFormed

variable {p : Package}

theorem check (h : p.WellFormed) (hb : p.stage = .built) : (p.check hb).1.WellFormed := by
  rw [← wellFormed_untyped, untyped_check]
  exact ((wellFormed_untyped p).2 h).withStage .checked

theorem fold (h : p.WellFormed) (hf : p.stage.IsFoldable) : (p.fold hf).WellFormed :=
  h.of_tables rfl rfl (by
    simp [Package.fold, Folding.foldDecl, links, Declaration.references, references_fold])

theorem tag (h : p.WellFormed) (hc : p.stage.IsChecked) (first : Nat) :
    (p.tag hc first).1.WellFormed := by
  rw [← wellFormed_untagged, untagged_tag]
  exact ((wellFormed_untagged p).2 h).withStage .tagged

end WellFormed

/-! ## Runs -/

/-- What a stage makes of a package. -/
inductive Advances : Package → Package → Prop
  | check {p : Package} (hb : p.stage = .built) : Advances p (p.check hb).1
  | fold {p : Package} (hf : p.stage.IsFoldable) : Advances p (p.fold hf)
  | tag {p : Package} (hc : p.stage.IsChecked) (first : Nat) : Advances p (p.tag hc first).1

/-- A package comes from another one through some stages. -/
inductive Reaches (p : Package) : Package → Prop
  | refl : Reaches p p
  | step {q r : Package} : Reaches p q → Advances q r → Reaches p r

theorem WellFormed.advances {p q : Package} (h : p.WellFormed) (hpq : p.Advances q) :
    q.WellFormed := by
  cases hpq with
  | check hb => exact h.check hb
  | fold hf => exact h.fold hf
  | tag hc first => exact h.tag hc first

theorem WellFormed.reaches {p q : Package} (h : p.WellFormed) (hpq : p.Reaches q) :
    q.WellFormed := by
  induction hpq with
  | refl => exact h
  | step _ hadvances ih => exact ih.advances hadvances

/-- **Packages are well-formed.** Whatever the files are, the package that is built of them and all
packages that come from it through the stages are well-formed. Every stage keeps packages
well-formed, also those that are not built from files. Checking changes nothing but types, folding
nothing but operator nodes in bodies, and tagging nothing but tags. -/
theorem stages_keep_wellFormed (name : String) (files : List (List Decl)) :
    (Package.build name files).1.WellFormed ∧
      (∀ q, (Package.build name files).1.Reaches q → q.WellFormed) ∧
      (∀ p q : Package, p.WellFormed → p.Advances q → q.WellFormed) ∧
      (∀ (p : Package) (hb : p.stage = .built),
        (p.check hb).1.untyped = { p.untyped with stage := .checked }) ∧
      (∀ (p : Package) (hf : p.stage.IsFoldable),
        p.fold hf = { p with decls := (p.fold hf).decls, stage := .folded } ∧
        (p.fold hf).decls.length = p.decls.length ∧
        ∀ (i : Nat) (d : Declaration), p.decls[i]? = some d → ∃ body,
          (p.fold hf).decls[i]? = some { d with body := body } ∧ Folding.Folds d.body body) ∧
      ∀ (p : Package) (hc : p.stage.IsChecked) (first : Nat),
        (p.tag hc first).1.untagged = { p.untagged with stage := .tagged } := by
  have hbuild := wellFormed_build name files
  refine ⟨hbuild, fun q hq => hbuild.reaches hq, fun p q hp hpq => hp.advances hpq, untyped_check,
    fun p hf => ⟨rfl, ?_, ?_⟩, untagged_tag⟩
  · exact List.length_map ..
  · intro i d hd
    refine ⟨Folding.fold d.body, ?_, Folding.folds_fold d.body⟩
    rw [decls_fold, hd, Option.map_some, Folding.foldDecl]

/-- For an example: a declaration whose parameters have the same name and which assigns to a
variable that is not there. -/
def mistaken : List Decl :=
  let n : Param := ⟨⟨"n", .origin⟩, ⟨.int, .origin⟩⟩
  [⟨⟨"main", .origin⟩, [n, n], ⟨.int, .origin⟩,
    .assign ⟨"x", .origin⟩ (.name n.name) .origin, .origin⟩]

/-- The second file declares `main` again. -/
theorem stages_keep_wellFormed_mistaken :
    let built := (Package.build "mistaken" [mistaken, doubling]).1
    let folded := (built.check rfl).1.fold (.inl rfl)
    built.WellFormed ∧ folded.WellFormed ∧ (folded.tag (by decide) 1).1.WellFormed := by
  obtain ⟨hbuild, hreaches, hadvances, -⟩ :=
    stages_keep_wellFormed "mistaken" [mistaken, doubling]
  have hfolded := hreaches _ (.step (.step .refl (.check rfl)) (.fold (.inl rfl)))
  exact ⟨hbuild, hfolded, hadvances _ _ hfolded (.tag (by decide) 1)⟩

end Package

end CalcLang
