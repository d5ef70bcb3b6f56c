import CalcLang.Files.Tree
import CalcLang.Project
import CalcLang.Proofs.Reports
import CalcLang.Proofs.Solid

/-!
# The error policy

The policy is asked once, behind type checking. So a compilation that is to be aborted has output
exactly if parsing, building and checking report nothing, and the only report that can come with
output is that of a program without its entry (`Compile.isSome_output_iff`). A project that fails
for any other reason leaves all files as they are, since output is the only thing that is ever
written (`Project.abort_leaves_files`).
-/

namespace CalcLang

namespace Compile

/-! ## Reports of a compilation -/

/-- The declarations of all files. -/
def declarations (sources : SourceMap) : List (List Decl) :=
  (parseAll sources).map fun p => p.2.2.decls

/-- What parsing reports about all files. -/
def syntaxErrors (sources : SourceMap) : List Diagnostic :=
  (parseAll sources).flatMap fun p => p.2.2.diagnostics p.2.1

/-- What building and checking report about the declarations of all files. -/
def errors (name : String) (sources : SourceMap) : List Diagnostic :=
  let built := Package.build name (declarations sources)
  built.2 ++ (built.1.check (Package.stage_build name (declarations sources))).2

/-- The report of a program without its entry. -/
def missingEntry : Diagnostic := ⟨.missingEntry C.entryName, .origin⟩

theorem missingEntry_notMem_syntaxErrors (sources : SourceMap) :
    missingEntry ∉ syntaxErrors sources := by
  intro h
  obtain ⟨p, -, hp⟩ := List.mem_flatMap.1 h
  obtain ⟨e, -, he⟩ := List.mem_map.1 hp
  cases he

theorem missingEntry_notMem_errors (name : String) (sources : SourceMap) :
    missingEntry ∉ errors name sources := by
  intro h
  rcases List.mem_append.1 h with h | h
  · exact (Package.all_build ..).of_mem _ h
  · exact (Package.all_check ..).of_mem _ h

/-- The declarations of files without mistakes are accepted. -/
theorem accepts_of_errors {name : String} {sources : SourceMap} (h : errors name sources = []) :
    Package.Accepts name (declarations sources) where
  solid := by
    intro d hd
    obtain ⟨ds, hds, hd⟩ := List.mem_flatten.1 hd
    obtain ⟨p, hp, rfl⟩ := List.mem_map.1 hds
    obtain ⟨f, -, rfl⟩ := List.mem_map.1 hp
    exact Parse.solid_of_mem_decls hd
  build := (List.append_eq_nil_iff.1 h).1
  check := (List.append_eq_nil_iff.1 h).2

/-! ## Output of a compilation -/

/-- What a compilation has for an output and for diagnostics, whatever its events are. -/
theorem compile_eq (name : String) (sources : SourceMap) (options : CompileOptions) :
    ∃ e₁ e₂ e₃, compile name sources options =
      if !(syntaxErrors sources).isEmpty then ⟨syntaxErrors sources, none, e₁⟩
      else if !(errors name sources).isEmpty && options.policy == .abort then
        ⟨errors name sources, none, e₂⟩
      else
        let generated := output (Package.compiled name (declarations sources) options.optimize
          Tagging.first) (Package.stage_tag ..) options.format
        ⟨errors name sources ++ generated.2.1, some generated.1, e₃⟩ :=
  ⟨_, _, _, rfl⟩

/-- Generation reports nothing about accepted declarations but a missing entry. -/
theorem diagnostics_output {p : Package} (hready : p.Ready) (h : p.stage = .tagged)
    (format : OutputFormat) :
    (output p h format).2.1 = [] ∨
      format = .c ∧ (output p h format).2.1 = [missingEntry] := by
  cases format with
  | listing => exact .inl rfl
  | c =>
    change p.toC.2 = [] ∨ _ ∧ p.toC.2 = _
    rw [hready.diagnostics_toC, C.lowerEntry]
    split
    · exact .inl rfl
    · exact .inr ⟨rfl, rfl⟩

/-- **A compilation that is to be aborted has output exactly if it reports nothing**, or if nothing
is wrong but that the C program has no entry. -/
theorem isSome_output_iff (name : String) (sources : SourceMap) {options : CompileOptions}
    (habort : options.policy = .abort) :
    (compile name sources options).output.isSome ↔
      (compile name sources options).diagnostics = [] ∨
        options.format = .c ∧ (compile name sources options).diagnostics = [missingEntry] := by
  obtain ⟨e₁, e₂, e₃, heq⟩ := compile_eq name sources options
  rw [heq]
  by_cases hparsed : syntaxErrors sources = []
  · by_cases herrors : errors name sources = []
    -- The policy has been asked by now, so a missing entry does not keep the output back.
    · have hgenerated := diagnostics_output
        ((accepts_of_errors herrors).ready options.optimize Tagging.first) (Package.stage_tag ..)
        options.format
      simpa [hparsed, herrors] using hgenerated
    · have hmissing : errors name sources ≠ [missingEntry] := fun h =>
        absurd (h ▸ List.mem_singleton_self _) (missingEntry_notMem_errors name sources)
      simp [hparsed, herrors, habort, hmissing]
  · have hmissing : syntaxErrors sources ≠ [missingEntry] := fun h =>
      absurd (h ▸ List.mem_singleton_self _) (missingEntry_notMem_syntaxErrors sources)
    simp [hparsed, hmissing]

end Compile

/-! ## Operations that write nothing -/

/-- The result of an operation in a file tree, and the file tree behind it. -/
def FileTree.run {α : Type} (t : FileTree) (x : StateM FileTree α) : α × FileTree := StateT.run x t

theorem FileTree.run_bind {α β : Type} (t : FileTree) (x : StateM FileTree α)
    (f : α → StateM FileTree β) : t.run (x >>= f) = (t.run x).2.run (f (t.run x).1) := rfl

/-- An operation that leaves all files as they are. -/
def ReadOnly {α : Type} (x : StateM FileTree α) : Prop := ∀ t : FileTree, (t.run x).2 = t

namespace ReadOnly

variable {α β : Type} {x : StateM FileTree α} {f : α → StateM FileTree β}

theorem pure (a : α) : ReadOnly (Pure.pure a : StateM FileTree α) := fun _ => rfl

theorem run_bind (hx : ReadOnly x) (f : α → StateM FileTree β) (t : FileTree) :
    t.run (x >>= f) = t.run (f (t.run x).1) := by
  rw [t.run_bind, hx]

theorem bind (hx : ReadOnly x) (hf : ∀ a, ReadOnly (f a)) : ReadOnly (x >>= f) := fun t => by
  rw [hx.run_bind]
  exact hf _ t

theorem kind? (path : Path) : ReadOnly (Files.kind? path) := fun _ => rfl

theorem read (path : Path) : ReadOnly (Files.read path) := fun _ => rfl

theorem list (path : Path) : ReadOnly (Files.list path) := fun _ => rfl

theorem directoryName? (path : Path) : ReadOnly (Files.directoryName? path) := fun _ => rfl

end ReadOnly

namespace Project

theorem readOnly_packageName (path : Path) : ReadOnly (packageName path) := by
  refine .bind (.kind? path) fun kind => ?_
  split
  · exact .bind (.directoryName? path) fun _ => .pure _
  · exact .pure _

theorem readOnly_readManifest (parse : Manifest.Parser) (dir : Path) :
    ReadOnly (readManifest parse dir) := by
  refine .bind (.kind? _) fun kind => ?_
  split
  · refine .bind (.read _) fun text => ?_
    split <;> exact .pure _
  · exact .pure _

theorem readOnly_sourcePaths (dir : Path) (names : List String) :
    ReadOnly (sourcePaths dir names) := by
  induction names with
  | nil => exact .pure _
  | cons name names ih =>
    refine .bind ih fun rest => ?_
    split
    · refine .bind (.kind? _) fun kind => ?_
      split <;> exact .pure _
    · exact .pure _

theorem readOnly_readSources (sources : SourceMap) (paths : List Path) :
    ReadOnly (readSources sources paths) := by
  induction paths generalizing sources with
  | nil => exact .pure _
  | cons path paths ih =>
    refine .bind (.read path) fun text => ?_
    split
    · exact .pure _
    · exact ih _

/-! ## Failures under the policy -/

section WriteOutput

variable {c : Compilation} {sources : SourceMap} {path : Path} {t : FileTree} {text : String}

theorem run_write_ok {t' : FileTree} (h : t.write path text = .ok t') :
    t.run (Files.write path text) = (.ok (), t') := by
  simp only [FileTree.run, Files.write, StateT.run_bind, StateT.run_get, pure_bind, h]
  rfl

theorem run_write_error {fault : OsFault} (h : t.write path text = .error fault) :
    t.run (Files.write path text) = (.error fault, t) := by
  simp only [FileTree.run, Files.write, StateT.run_bind, StateT.run_get, pure_bind, h]
  rfl

theorem run_writeOutput_none (h : c.output = none) :
    t.run (writeOutput c sources path) =
      (⟨.error (.failed c.diagnostics sources), c.events⟩, t) := by
  rw [writeOutput, h]
  rfl

theorem run_writeOutput_written (h : c.output = some text) {t' : FileTree}
    (hwrite : t.write path text = .ok t') :
    t.run (writeOutput c sources path) =
      (⟨if c.diagnostics = [] then .ok path else .error (.failed c.diagnostics sources),
        c.events ++ [.wrote path.text]⟩, t') := by
  rw [writeOutput, h]
  dsimp only
  rw [t.run_bind, run_write_ok hwrite]
  cases c.diagnostics <;> rfl

theorem run_writeOutput_refused (h : c.output = some text) {fault : OsFault}
    (hwrite : t.write path text = .error fault) :
    t.run (writeOutput c sources path) =
      (⟨.error (.failed (c.diagnostics ++
        [⟨.write (path.text ++ ": " ++ fault.message), .origin⟩]) sources), c.events⟩, t) := by
  rw [writeOutput, h]
  dsimp only
  rw [t.run_bind, run_write_error hwrite]
  rfl

/-- Files stay as they are if there is no output, or if it cannot be written, and otherwise there is
no failure but through the reports that come with the output. -/
theorem writeOutput_failed {ds : List Diagnostic} {sources' : SourceMap}
    (h : (t.run (writeOutput c sources path)).1.result = .error (.failed ds sources')) :
    (t.run (writeOutput c sources path)).2 = t ∨
      c.output.isSome ∧ c.diagnostics ≠ [] ∧ ds = c.diagnostics := by
  cases houtput : c.output with
  | none =>
    left
    rw [run_writeOutput_none houtput]
  | some text =>
    cases hwrite : t.write path text with
    | error fault =>
      left
      rw [run_writeOutput_refused houtput hwrite]
    | ok t' =>
      right
      rw [run_writeOutput_written houtput hwrite] at h
      by_cases hd : c.diagnostics = []
      · rw [if_pos hd] at h
        cases h
      · rw [if_neg hd] at h
        cases h
        exact ⟨rfl, hd, rfl⟩

end WriteOutput

/-- A compilation that is to be aborted leaves all files as they are when it fails, unless nothing
is wrong but that the C program has no entry. -/
theorem writeOutput_abort {name : String} {sources sources' : SourceMap} {options : CompileOptions}
    (habort : options.policy = .abort) {path : Path} {t : FileTree} {ds : List Diagnostic}
    (h : (t.run (writeOutput (compile name sources options) sources path)).1.result =
      .error (.failed ds sources')) :
    (t.run (writeOutput (compile name sources options) sources path)).2 = t ∨
      options.format = .c ∧ ds = [Compile.missingEntry] := by
  refine (writeOutput_failed h).imp_right fun ⟨houtput, hne, hds⟩ => ?_
  rcases (Compile.isSome_output_iff name sources habort).1 houtput with hnone | ⟨hc, hmissing⟩
  · exact absurd hnone hne
  · exact ⟨hc, hds.trans hmissing⟩

theorem run_compileFile {t : FileTree} {path : Path} {text : String}
    (hread : t.read path = .ok text) (options : Options) :
    t.run (compileFile path options) =
      let sources := SourceMap.empty.add path.text text
      t.run (writeOutput (compile (t.run (packageName path)).1 sources options.compile) sources
        (options.output.getD (path.withExtension options.compile.format.extension))) := by
  have hrun : (t.run (Files.read path)).1 = .ok text := hread
  rw [compileFile, (ReadOnly.read path).run_bind, hrun]
  exact (readOnly_packageName path).run_bind _ t

theorem compileFile_abort {path : Path} {options : Options}
    (habort : options.compile.policy = .abort) {t : FileTree} {ds : List Diagnostic}
    {sources : SourceMap}
    (h : (t.run (compileFile path options)).1.result = .error (.failed ds sources)) :
    (t.run (compileFile path options)).2 = t ∨
      options.compile.format = .c ∧ ds = [Compile.missingEntry] := by
  cases hread : t.read path with
  | error fault =>
    have hrun : (t.run (Files.read path)).1 = .error fault := hread
    rw [compileFile, (ReadOnly.read path).run_bind, hrun]
    exact .inl rfl
  | ok text =>
    rw [run_compileFile hread] at h ⊢
    exact writeOutput_abort habort h

theorem run_compileSources {t : FileTree} {paths : List Path} {sources : SourceMap}
    (hread : (t.run (readSources .empty paths)).1 = .ok sources) (dir : Path) (name : String)
    (options : Options) :
    let written := t.run (writeOutput (compile name sources options.compile) sources
      (options.output.getD (dir.join ⟨name ++ "." ++ options.compile.format.extension⟩)))
    t.run (compileSources dir name paths options) =
      (⟨written.1.result, .loadedSources dir.text sources.files.size :: written.1.events⟩,
        written.2) := by
  rw [compileSources, (readOnly_readSources _ paths).run_bind, hread]
  rfl

theorem compileSources_abort {dir : Path} {name : String} {paths : List Path} {options : Options}
    (habort : options.compile.policy = .abort) {t : FileTree} {ds : List Diagnostic}
    {sources : SourceMap}
    (h : (t.run (compileSources dir name paths options)).1.result = .error (.failed ds sources)) :
    (t.run (compileSources dir name paths options)).2 = t ∨
      options.compile.format = .c ∧ ds = [Compile.missingEntry] := by
  cases hread : (t.run (readSources .empty paths)).1 with
  | error e =>
    rw [compileSources, (readOnly_readSources _ paths).run_bind, hread]
    exact .inl rfl
  | ok sources =>
    rw [run_compileSources hread] at h ⊢
    exact writeOutput_abort habort h

theorem format_underManifest (options : CompileOptions) (manifest : Option Manifest) :
    (underManifest options manifest).format = options.format := by
  cases manifest <;> rfl

theorem compileDirectory_abort {parse : Manifest.Parser} {dir : Path} {options : Options}
    {t : FileTree} {manifest : Option Manifest}
    (hmanifest : (t.run (readManifest parse dir)).1 = .ok manifest)
    (habort : (underManifest options.compile manifest).policy = .abort) {ds : List Diagnostic}
    {sources : SourceMap}
    (h : (t.run (compileDirectory parse dir options)).1.result = .error (.failed ds sources)) :
    (t.run (compileDirectory parse dir options)).2 = t ∨
      options.compile.format = .c ∧ ds = [Compile.missingEntry] := by
  unfold compileDirectory at h ⊢
  rw [(readOnly_readManifest parse dir).run_bind, hmanifest] at h ⊢
  dsimp only at h ⊢
  rw [(readOnly_packageName dir).run_bind, (ReadOnly.list dir).run_bind] at h ⊢
  split at h
  · cases h
  · rw [(readOnly_sourcePaths dir _).run_bind] at h ⊢
    split at h
    · cases h
    · next names _ hpaths =>
      rw [if_neg hpaths]
      rw [← format_underManifest options.compile manifest]
      exact compileSources_abort habort h

/-- **A compilation that is to be aborted leaves nothing behind**, unless nothing is wrong but that
the C program has no entry. It has output exactly if it reports nothing, or nothing but that; so a
file or a directory whose compilation fails otherwise leaves all files as they are. The policy is
what a manifest makes of that of the options. -/
theorem abort_leaves_files :
    (∀ (name : String) (sources : SourceMap) (options : CompileOptions), options.policy = .abort →
      ((compile name sources options).output.isSome ↔
        (compile name sources options).diagnostics = [] ∨
          options.format = .c ∧
            (compile name sources options).diagnostics = [Compile.missingEntry])) ∧
    (∀ (t : FileTree) (path : Path) (options : Options) (ds : List Diagnostic)
      (sources : SourceMap), options.compile.policy = .abort →
      (t.run (compileFile path options)).1.result = .error (.failed ds sources) →
        (t.run (compileFile path options)).2 = t ∨
          options.compile.format = .c ∧ ds = [Compile.missingEntry]) ∧
    ∀ (parse : Manifest.Parser) (t : FileTree) (dir : Path) (options : Options)
      (manifest : Option Manifest) (ds : List Diagnostic) (sources : SourceMap),
      (t.run (readManifest parse dir)).1 = .ok manifest →
      (underManifest options.compile manifest).policy = .abort →
      (t.run (compileDirectory parse dir options)).1.result = .error (.failed ds sources) →
        (t.run (compileDirectory parse dir options)).2 = t ∨
          options.compile.format = .c ∧ ds = [Compile.missingEntry] :=
  ⟨fun name sources _ habort => Compile.isSome_output_iff name sources habort,
    fun _ _ _ _ _ habort h => compileFile_abort habort h,
    fun _ _ _ _ _ _ _ hmanifest habort h => compileDirectory_abort hmanifest habort h⟩

/-- For examples: a source file, and a directory with the same source file. -/
def twice (text : String) : FileTree :=
  ⟨[(["lib.calc"], .file (.text text)), (["lib"], .directory),
    (["lib", "a.calc"], .file (.text text))], []⟩

/-- For examples: C is made, and nothing if there are mistakes. -/
def strict : Options := ⟨⟨false, .abort, .c⟩, none⟩

theorem run_compileFile_twice (text : String) :
    (twice text).run (compileFile ⟨"lib.calc"⟩ strict) =
      (twice text).run (writeOutput (compile "lib" (.add .empty "lib.calc" text) strict.compile)
        (.add .empty "lib.calc" text) ⟨"lib.c"⟩) := by
  have hread : (twice text).read ⟨"lib.calc"⟩ = .ok text := rfl
  exact run_compileFile hread strict

theorem run_compileDirectory_twice (parse : Manifest.Parser) (text : String) :
    (twice text).run (compileDirectory parse ⟨"lib"⟩ strict) =
      (twice text).run (compileSources ⟨"lib"⟩ "lib" [⟨"lib/a.calc"⟩] strict) := by
  have hmanifest : ((twice text).run (readManifest parse ⟨"lib"⟩)).1 = .ok none := rfl
  have hname : ((twice text).run (packageName ⟨"lib"⟩)).1 = "lib" := rfl
  have hlist : ((twice text).run (Files.list ⟨"lib"⟩)).1 = .ok ["a.calc"] := rfl
  have hpaths : ((twice text).run (sourcePaths ⟨"lib"⟩ ["a.calc"])).1 = [⟨"lib/a.calc"⟩] := rfl
  rw [compileDirectory, (readOnly_readManifest parse _).run_bind, hmanifest]
  dsimp only
  rw [(readOnly_packageName _).run_bind, hname, (ReadOnly.list _).run_bind, hlist]
  dsimp only
  rw [List.mergeSort_singleton, (readOnly_sourcePaths _ _).run_bind, hpaths]
  rfl

theorem abort_leaves_files_twice :
    let t := twice "(decl main int true)\n"
    (compile "lib" (.add .empty "lib.calc" "(decl main int true)\n") strict.compile).output = none ∧
      (t.run (compileFile ⟨"lib.calc"⟩ strict)).2 = t ∧
      (t.run (compileDirectory Manifest.parse ⟨"lib"⟩ strict)).2 = t := by
  intro t
  let sources (path : String) : SourceMap := .add .empty path "(decl main int true)\n"
  let mismatch : Diagnostic := ⟨.typeMismatch "int" "bool" .result, ⟨⟨0⟩, ⟨15, 19⟩⟩⟩
  obtain ⟨hcompile, hfile, hdirectory⟩ := abort_leaves_files
  have hentry : ¬ (strict.compile.format = .c ∧ [mismatch] = [Compile.missingEntry]) := by
    simp [mismatch, Compile.missingEntry]
  have hdiagnostics : ∀ path ∈ ["lib.calc", "lib/a.calc"],
      (compile "lib" (sources path) strict.compile).diagnostics = [mismatch] := by decide +kernel
  have houtput : ∀ path ∈ ["lib.calc", "lib/a.calc"],
      (compile "lib" (sources path) strict.compile).output = none := by
    intro path hpath
    have hsome := hcompile "lib" (sources path) strict.compile rfl
    rw [hdiagnostics path hpath, or_iff_right (List.cons_ne_nil _ _)] at hsome
    exact Option.not_isSome_iff_eq_none.1 fun h => hentry (hsome.1 h)
  refine ⟨houtput "lib.calc" (by simp), ?_, ?_⟩
  · have hrun := run_compileFile_twice "(decl main int true)\n"
    rw [run_writeOutput_none (houtput "lib.calc" (by simp)),
      hdiagnostics "lib.calc" (by simp)] at hrun
    exact (hfile t ⟨"lib.calc"⟩ strict [mismatch] _ rfl
      (congrArg (fun r => r.1.result) hrun)).resolve_right hentry
  · have hread : (t.run (readSources .empty [⟨"lib/a.calc"⟩])).1 = .ok (sources "lib/a.calc") := rfl
    have hrun := run_compileDirectory_twice Manifest.parse "(decl main int true)\n"
    rw [run_compileSources hread, run_writeOutput_none (houtput "lib/a.calc" (by simp)),
      hdiagnostics "lib/a.calc" (by simp)] at hrun
    exact (hdirectory Manifest.parse t ⟨"lib"⟩ strict none [mismatch] _ rfl rfl
      (congrArg (fun r => r.1.result) hrun)).resolve_right hentry

/-- A program without its entry is written, although that is a mistake. -/
theorem not_abort_leaves_files :
    (¬ ∀ (name : String) (sources : SourceMap) (options : CompileOptions),
      options.policy = .abort → ((compile name sources options).output.isSome ↔
        (compile name sources options).diagnostics = [])) ∧
    ¬ ∀ (t : FileTree) (path : Path) (options : Options) (ds : List Diagnostic)
      (sources : SourceMap), options.compile.policy = .abort →
      (t.run (compileFile path options)).1.result = .error (.failed ds sources) →
      (∀ d ∈ ds, ∀ message, d.kind ≠ .write message) →
        (t.run (compileFile path options)).2 = t := by
  let sources : SourceMap := .add .empty "lib.calc" "(decl f int 1)\n"
  have hdiagnostics : (compile "lib" sources strict.compile).diagnostics =
      [Compile.missingEntry] := by decide +kernel
  have houtput : (compile "lib" sources strict.compile).output.isSome := by decide +kernel
  refine ⟨fun h => ?_, fun h => ?_⟩
  · have hnil := (h "lib" sources strict.compile rfl).1 houtput
    rw [hdiagnostics] at hnil
    cases hnil
  · obtain ⟨text, htext⟩ := Option.isSome_iff_exists.1 houtput
    have hrun := run_compileFile_twice "(decl f int 1)\n"
    have hwrite : (twice "(decl f int 1)\n").write ⟨"lib.c"⟩ text =
      .ok ((twice "(decl f int 1)\n").put ["lib.c"] (.file (.text text))) := rfl
    rw [run_writeOutput_written htext hwrite, hdiagnostics] at hrun
    have htree := h (twice "(decl f int 1)\n") ⟨"lib.calc"⟩ strict [Compile.missingEntry] sources
      rfl (by rw [hrun]; rfl) (by simp [Compile.missingEntry])
    rw [hrun] at htree
    have hlength : 4 = 3 := congrArg (fun t => t.entries.length) htree
    exact absurd hlength (by decide)

end Project

end CalcLang
