import CalcLang.Proofs.Guarded.Naming
import CalcLang.Proofs.Pointers
import CalcLang.Proofs.Weights
import CalcLang.Report

/-!
# Guarded compilation

`Guarded.compile` takes the files of a package through all stages and stops where a stage would
break a rule of the machine it runs on: it reads texts and builds packages as `Guarded.parse` and
`Guarded.build` do, starts no stage on a package that is not ready for it, looks up everything that
a package refers to before a stage runs, and counts tables, tags and copies in words of 32 bits.
`Guarded.report` also finds the places of all diagnostics. None of this faults for texts that are
shorter together than the largest word (`Compile.never_faults`), because built packages are well
formed, the stages keep them so, and the tokens pay for everything that is counted.

The stages themselves count with natural numbers. `Compile.never_faults` says that the guarded
compilation, in which offsets, tags and the numbers of scopes, symbols, declarations and copies are
words, gives what `compile` gives, so texts in these bounds need no number of `2 ^ 32` or above. The
number of a file is its place in the source map; a map of `2 ^ 32` files is not considered. Nor is
the call stack part of the model: the stages recurse as deep as a tree is nested, and how much of a
stack that takes is not counted.
-/

namespace CalcLang

namespace Guarded

/-! ## Stages -/

/-- Counts the scopes, symbols and declarations of a package, which are referred to by their
numbers. -/
def number (p : Package) : Except Fault Unit := do
  let _ ← word p.scopes.scopes.size
  let _ ← word p.symbols.size
  let _ ← word p.decls.length
  .ok ()

/-- The entry of a table that a reference leads to. -/
def look (p : Package) : Reference → Except Fault Unit
  | .uses _ x | .owns _ x => (symbol p.symbols x).map fun _ => ()
  | .calls _ id => (entry p.decls id.index).map fun _ => ()

/-- Looks up everything that the declarations of a package refer to. No stage makes a table shorter,
so this is what a stage finds whenever it gets to a reference. -/
def lookAll (p : Package) : Except Fault Unit :=
  (p.decls.flatMap Declaration.references).forM (look p)

/-- The declaration with a given name. -/
def lookDecl (p : Package) (name : String) : Except Fault (Option Declaration) := do
  match ← p.scopes.lookupLocal .package name with
  | none => .ok none
  | some x => do
    let s ← symbol p.symbols x
    match s.declaration? with
    | none => .ok none
    | some id => (entry p.decls id.index).map some

/-- The number of copies that the functions of some declarations make, after `count` others. -/
def copies (symbols : Symbols) (count : Nat) (ds : List Declaration) : Nat :=
  ds.foldl (fun count d => (C.lower symbols d.body count).spills) count

/-- Folds a checked package if `optimize` is set. -/
def optimized (optimize : Bool) (p : Package) : Except Fault (Package × List Log.Event) :=
  if optimize then do
    let folded ← p.fold?
    .ok (folded, [.folded p.name (p.operators - folded.operators)])
  else .ok (p, [])

/-- The output of a tagged package. -/
def output (p : Package) (format : OutputFormat) :
    Except Fault (String × List Diagnostic × List Log.Event) :=
  match format with
  | .listing => .ok (p.listing, [], [])
  | .c => do
    let (text, d) ← p.generate?
    let _ ← word (copies p.symbols 0 p.decls)
    let _ ← lookDecl p C.entryName
    .ok (text, d, [.generated p.name text.utf8ByteSize])

/-- Tags a checked package, after folding it if the options say so, and makes its output. -/
def finish (options : CompileOptions) (p : Package) :
    Except Fault (String × List Diagnostic × List Log.Event) := do
  let (folded, folding) ← optimized options.optimize p
  lookAll folded
  let (tagged, next) ← folded.tag? Tagging.first
  let _ ← word next
  lookAll tagged
  let (text, d, emitting) ← output tagged options.format
  .ok (text, d, folding ++ [.tagged p.name (next - Tagging.first)] ++ emitting)

/-- The parsed files of a source map, with the numbers of the files. -/
def parseAll (sources : SourceMap) : Except Fault (List (SourceFile × FileId × Parse)) :=
  sources.files.toList.zipIdx.mapM fun f =>
    (parse ⟨f.2⟩ f.1.text).map fun p => (f.1, ⟨f.2⟩, p)

/-- Compiles the files of `sources` as the package `name`. -/
def compile (name : String) (sources : SourceMap) (options : CompileOptions) :
    Except Fault Compilation := do
  let parses ← parseAll sources
  let syntaxErrors := parses.flatMap fun p => p.2.2.diagnostics p.2.1
  let parsing := parses.map fun p => .parsed p.1.name p.2.2.decls.length
  if !syntaxErrors.isEmpty then .ok ⟨syntaxErrors, none, parsing⟩
  else do
    let files := parses.map fun p => p.2.2.decls
    let built ← build name files
    number built.1
    lookAll built.1
    let checked ← built.1.check?
    let errors := built.2 ++ checked.2
    let events := parsing ++ [.built name built.1.decls.length built.1.symbols.size,
      .checked name checked.2.length]
    if !errors.isEmpty && options.policy == .abort then
      .ok ⟨errors, none, events ++ [.skipped errors.length]⟩
    else do
      let (text, d, finishing) ← finish options checked.1
      .ok ⟨errors ++ d, some text, events ++ finishing⟩

/-- The positions that a diagnostic tells. -/
def positions (d : Diagnostic) : List Pos := d.pos :: (Report.previous? d.kind).toList

/-- Compiles files and finds the places of the positions that the diagnostics tell. -/
def report (name : String) (sources : SourceMap) (options : CompileOptions) :
    Except Fault (Compilation × List Location) := do
  let c ← compile name sources options
  let places ← (c.diagnostics.flatMap positions).mapM (location sources)
  .ok (c, places)

/-! ## Packages without faults -/

section

variable {p : Package}

theorem lookAll_eq (h : p.WellFormed) : lookAll p = .ok () := by
  refine forM_eq fun r hr => ?_
  obtain ⟨d, hd, hr⟩ := List.mem_flatMap.1 hr
  have hresolves := h.references d hd r hr
  cases r with
  | uses name x =>
    obtain ⟨e, he, -⟩ := hresolves
    rw [look, symbol_eq he, map_ok]
  | owns kind x =>
    obtain ⟨e, he, -⟩ := hresolves
    rw [look, symbol_eq he, map_ok]
  | calls name id =>
    have hname : (p.decls.map Declaration.name)[id.index]? = some name := hresolves
    rw [List.getElem?_map] at hname
    obtain ⟨callee, hcallee, -⟩ := Option.map_eq_some_iff.1 hname
    rw [look, entry_eq hcallee, map_ok]

theorem lookDecl_eq (h : p.WellFormed) (name : String) :
    lookDecl p name = .ok (p.lookup? name) := by
  obtain ⟨own, hown⟩ := h.outermost
  have hlocal : p.scopes.lookupLocal .package name = .ok (own.lookup name) := by
    rw [ScopeTable.lookupLocal, ScopeTable.get_of_getElem? hown]
    rfl
  rw [lookDecl, hlocal, ok_bind, Package.lookup?, Package.lookupId?, hown]
  cases hfound : own.lookup name with
  | none => simp [Scope.find?, hfound]
  | some x =>
    obtain ⟨before, after, hnames, -⟩ := List.lookup_eq_some_iff.1 hfound
    obtain ⟨e, he, -⟩ := h.bindings _ _ hown (name, x) (by simp [hnames])
    dsimp only
    rw [symbol_eq he, ok_bind]
    cases hkind : e.kind with
    | declaration id =>
      obtain ⟨d, hd, -⟩ := h.declared x e id he hkind
      simp [Scope.find?, hfound, he, Symbol.declaration?, hkind, entry_eq hd, map_ok, hd]
    | param => simp [Scope.find?, hfound, he, Symbol.declaration?, hkind]
    | «variable» => simp [Scope.find?, hfound, he, Symbol.declaration?, hkind]

/-- There are not more copies than declarations weigh. -/
theorem copies_le (symbols : Symbols) (count : Nat) (ds : List Declaration) :
    copies symbols count ds ≤ count + (ds.map (Declaration.weight 1 0)).sum := by
  induction ds generalizing count with
  | nil => exact Nat.le_refl _
  | cons d ds ih =>
    have hspills := (C.declares_lower (S := symbols) d.body count).spills
    have hbody : (C.copied d.body).length ≤ d.body.weight 1 0 := C.length_copied_le d.body
    have hrest := ih (C.lower symbols d.body count).spills
    rw [List.map_cons, List.sum_cons, Declaration.weight]
    change copies symbols (C.lower symbols d.body count).spills ds ≤ _
    omega

theorem output_eq (h : p.WellFormed) (ht : p.stage = .tagged) (hcopies : p.weight 1 0 < words)
    (format : OutputFormat) : output p format = .ok (Compile.output p ht format) := by
  cases format with
  | listing => rfl
  | c =>
    have hgenerate : p.generate? = .ok (p.generate ht) := dif_pos ht
    have hcount : copies p.symbols 0 p.decls < words := by
      have := copies_le p.symbols 0 p.decls
      rw [Package.weight] at hcopies
      omega
    rw [output, hgenerate, ok_bind]
    dsimp only
    rw [word_eq hcount, ok_bind, lookDecl_eq h, ok_bind]
    rfl

theorem optimized_eq (optimize : Bool) (hc : p.stage = .checked) :
    optimized optimize p = .ok (Compile.optimized optimize p hc) := by
  cases optimize with
  | false => rfl
  | true =>
    have hfold : p.fold? = .ok (p.fold (.of_eq_checked hc)) := dif_pos _
    rw [optimized, if_pos rfl, hfold, ok_bind]
    rfl

theorem wellFormed_optimized (h : p.WellFormed) (optimize : Bool) (hc : p.stage = .checked) :
    (Compile.optimized optimize p hc).1.WellFormed := by
  cases optimize with
  | false => exact h
  | true => exact h.fold (.of_eq_checked hc)

theorem weight_optimized_le {leaf step : Nat} (optimize : Bool) (hc : p.stage = .checked) :
    (Compile.optimized optimize p hc).1.weight leaf step ≤ p.weight leaf step := by
  cases optimize with
  | false => exact Nat.le_refl _
  | true => exact p.weight_fold_le (.of_eq_checked hc)

theorem finish_eq (h : p.WellFormed) (hc : p.stage = .checked) (htags : p.weight 0 1 + 1 < words)
    (hcopies : p.weight 1 0 < words) (options : CompileOptions) :
    finish options p = .ok (Compile.finish options p hc) := by
  have hchecked := Compile.optimized_isChecked options.optimize p hc
  let folded := (Compile.optimized options.optimize p hc).1
  let tagging := folded.tag hchecked Tagging.first
  have hfolded : folded.WellFormed := wellFormed_optimized h options.optimize hc
  have htagged : tagging.1.WellFormed := hfolded.tag hchecked Tagging.first
  have htag : folded.tag? Tagging.first = .ok tagging := dif_pos hchecked
  have hnext : tagging.2 < words := by
    have hweight : folded.weight 0 1 ≤ p.weight 0 1 := weight_optimized_le options.optimize hc
    have hholders : folded.holders.length ≤ folded.weight 0 1 := folded.length_holders_le
    rw [Package.next_tag, Tagging.first]
    omega
  have houtput : output tagging.1 options.format =
      .ok (Compile.output tagging.1 (Package.stage_tag ..) options.format) := by
    have hweight : folded.weight 1 0 ≤ p.weight 1 0 := weight_optimized_le options.optimize hc
    refine output_eq htagged _ ?_ _
    rw [Package.weight_tag]
    omega
  rw [finish, optimized_eq options.optimize hc, ok_bind]
  dsimp only
  rw [lookAll_eq hfolded, ok_bind, htag, ok_bind]
  rw [word_eq hnext, ok_bind, lookAll_eq htagged, ok_bind, houtput, ok_bind]
  rfl

end

/-! ## Compilations without faults -/

variable {sources : SourceMap}

theorem parseAll_eq (h : sources.byteSize + 1 < words) :
    parseAll sources = .ok (Compile.parseAll sources) := by
  refine mapM_eq fun f hf => ?_
  have hfile : f.1 ∈ sources.files.toList := List.fst_mem_of_mem_zipIdx hf
  have hsize := SourceMap.utf8ByteSize_le hfile
  rw [parse_eq _ (by omega), map_ok]

theorem weight_build_le {leaf step : Nat} (h : leaf + step ≤ 1)
    (hparsed : Compile.syntaxErrors sources = []) (name : String) :
    (Package.build name (Compile.declarations sources)).1.weight leaf step ≤ sources.byteSize :=
  (Package.weight_build_le name _).trans (Compile.totalWeight_declarations_le h hparsed)

theorem number_build_eq (h : sources.byteSize + 1 < words)
    (hparsed : Compile.syntaxErrors sources = []) (name : String) :
    number (Package.build name (Compile.declarations sources)).1 = .ok () := by
  have htokens := @Compile.totalWeight_declarations_le 0 1 (by decide) sources hparsed
  have hscopes := @Package.size_scopes_build_le 0 1 name (Compile.declarations sources)
  have hsymbols := @Package.size_symbols_build_le 0 1 name (Compile.declarations sources)
  have hdecls := @Package.length_decls_le 0 1
    (Package.build name (Compile.declarations sources)).1
  have hweight := @weight_build_le sources 0 1 (by decide) hparsed name
  rw [number, word_eq (by omega), ok_bind, word_eq (by omega), ok_bind, word_eq (by omega), ok_bind]

/-- Texts that are short enough are compiled without a fault. -/
theorem compile_eq (h : sources.byteSize + 1 < words) (name : String) (options : CompileOptions) :
    compile name sources options = .ok (CalcLang.compile name sources options) := by
  rw [compile, parseAll_eq h, ok_bind, CalcLang.compile]
  change (if !(Compile.syntaxErrors sources).isEmpty then _ else _) =
    Except.ok (if !(Compile.syntaxErrors sources).isEmpty then _ else _)
  by_cases hparsed : Compile.syntaxErrors sources = []
  · have hnone : ¬ (!(Compile.syntaxErrors sources).isEmpty) = true := by simp [hparsed]
    rw [if_neg hnone, if_neg hnone]
    have hwf := Package.wellFormed_build name (Compile.declarations sources)
    have hb := Package.stage_build name (Compile.declarations sources)
    have htags := @weight_build_le sources 0 1 (by decide) hparsed name
    have hcopies := @weight_build_le sources 1 0 (by decide) hparsed name
    have hcheck : (Package.build name (Compile.declarations sources)).1.check? =
      .ok ((Package.build name (Compile.declarations sources)).1.check hb) := dif_pos hb
    change (build name (Compile.declarations sources) >>= _) = _
    rw [build_eq, ok_bind, number_build_eq h hparsed, ok_bind, lookAll_eq hwf, ok_bind, hcheck,
      ok_bind]
    dsimp only
    rw [finish_eq (hwf.check hb) (Package.stage_check ..) (by rw [Package.weight_check]; omega)
      (by rw [Package.weight_check]; omega)]
    exact (apply_ite Except.ok _ _ _).symm
  · have hsome : (!(Compile.syntaxErrors sources).isEmpty) = true := by simp [hparsed]
    rw [if_pos hsome, if_pos hsome]

/-! ## Places of diagnostics -/

variable {pos : Pos}

theorem exists_location (h : sources.byteSize + 1 < words)
    (hpos : ∀ file, sources.get? pos.file = some file → pos.span.start ≤ file.text.utf8ByteSize) :
    ∃ place, location sources pos = .ok place ∧ sources.location pos = .ok place := by
  cases hfile : sources.get? pos.file with
  | none => exact ⟨.unknown, by rw [location, hfile], by rw [SourceMap.location, hfile]⟩
  | some file =>
    have hmem : file ∈ sources.files.toList := by
      rw [SourceMap.get?, ← Array.getElem?_toList] at hfile
      exact List.mem_of_getElem? hfile
    have hsize := SourceMap.utf8ByteSize_le hmem
    exact location_eq hfile (by omega) (hpos file hfile)

theorem start_le_of_reads {text : String} (h : sources.Reads pos text) (file : SourceFile)
    (hfile : sources.get? pos.file = some file) : pos.span.start ≤ file.text.utf8ByteSize := by
  obtain ⟨file', before, behind, hfile', htext, hspan⟩ := h
  obtain rfl : file' = file := Option.some.inj (hfile'.symm.trans hfile)
  rw [hspan, htext, String.utf8ByteSize_append, String.utf8ByteSize_append]
  dsimp only
  omega

/-- What a diagnostic refers to starts in its file, if the file is there. -/
theorem start_le_of_mem_positions {name : String} {options : CompileOptions} {d : Diagnostic}
    (hd : d ∈ (CalcLang.compile name sources options).diagnostics) (hpos : pos ∈ positions d)
    (file : SourceFile) (hfile : sources.get? pos.file = some file) :
    pos.span.start ≤ file.text.utf8ByteSize := by
  by_cases hentry : d = Compile.missingEntry
  · subst hentry
    obtain rfl : pos = .origin := List.mem_singleton.1 hpos
    exact Nat.zero_le _
  have hpoints : Compile.PointsAtText name sources d := by
    rcases Compile.mem_diagnostics hd with hd | hd | hd
    · exact Compile.pointsAtText_syntaxErrors hd
    · exact Compile.pointsAtText_errors hd
    · exact Compile.pointsAtText_generationErrors hd hentry
  rcases List.mem_cons.1 hpos with rfl | hprevious
  · obtain ⟨text, hreads, -⟩ := hpoints.reads
    exact start_le_of_reads hreads file hfile
  · obtain ⟨x, hkind⟩ : ∃ x, d.kind = .redeclaration x pos := by
      cases hkind : d.kind <;>
        simp_all [Report.previous?]
    exact start_le_of_reads (hpoints.redeclares x pos hkind).reads file hfile

end Guarded

/-- **A compilation never faults.** Files with texts that are shorter together than the largest word
are compiled under any name and with any options: no stage breaks a rule of the machine, and all
positions that the diagnostics tell have places. The compilation on words is the one on natural
numbers. -/
theorem Compile.never_faults (name : String) (sources : SourceMap) (options : CompileOptions)
    (h : sources.byteSize < 2 ^ 32 - 1) :
    ∃ places,
      Guarded.report name sources options = .ok (compile name sources options, places) ∧
      ((compile name sources options).diagnostics.flatMap Guarded.positions).mapM
        sources.location = .ok places := by
  have hsize : sources.byteSize + 1 < Guarded.words := by
    rw [Guarded.words]
    omega
  have hplace : ∀ pos ∈ (compile name sources options).diagnostics.flatMap Guarded.positions,
      ∃ place, Guarded.location sources pos = .ok place ∧ sources.location pos = .ok place := by
    intro pos hpos
    obtain ⟨d, hd, hpos⟩ := List.mem_flatMap.1 hpos
    exact Guarded.exists_location hsize (Guarded.start_le_of_mem_positions hd hpos)
  obtain ⟨places, hguarded, hplaces⟩ := Guarded.exists_mapM hplace
  refine ⟨places, ?_, hplaces⟩
  rw [Guarded.report, Guarded.compile_eq hsize, Guarded.ok_bind, hguarded, Guarded.ok_bind]

/-- A parameter is bound twice behind a comment with a letter of two bytes, and the body is a name
that stands for nothing. Output is made all the same, and the positions that the diagnostics tell
have places, among them that of the missing entry. -/
theorem Compile.never_faults_anyway :
    let sources : SourceMap := .ofList [("main.calc", "; é\n(decl f (x int x bool) int y)\n")]
    let options : CompileOptions := ⟨true, .emitAnyway, .c⟩
    let places : List Location := [⟨"main.calc", 2, 16⟩, ⟨"main.calc", 2, 10⟩,
      ⟨"main.calc", 2, 28⟩, ⟨"main.calc", 2, 28⟩, ⟨"main.calc", 1, 1⟩]
    sources.byteSize < 2 ^ 32 - 1 ∧
      Guarded.report "main" sources options = .ok (compile "main" sources options, places) := by
  intro sources options places
  have hsize : sources.byteSize < 2 ^ 32 - 1 := by decide
  have hplaces : ((compile "main" sources options).diagnostics.flatMap Guarded.positions).mapM
      sources.location = .ok places := by decide +kernel
  obtain ⟨places', hreport, hplaces'⟩ := Compile.never_faults "main" sources options hsize
  obtain rfl : places = places' := Except.ok.inj (hplaces.symm.trans hplaces')
  exact ⟨hsize, hreport⟩

end CalcLang
