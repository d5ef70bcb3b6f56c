import CalcLang.Proofs.Projects

/-!
# Where output goes by default

Without a path for the output, a file is compiled into the directory in which it lies, under its own
name with another extension, and a directory into the file that has the name of the package. The
first is a new file unless the source has the extension of the output already: then the source is
overwritten. The second is never a source, since its extension is not that of sources, but the name
may have slashes and lead out of the directory (`default_output_places`).
-/

namespace CalcLang

theorem OutputFormat.isExtension (format : OutputFormat) :
    Path.IsExtension format.extension := by
  cases format <;> exact ⟨by decide, by decide, by decide⟩

theorem OutputFormat.extension_ne (format : OutputFormat) :
    format.extension ≠ Project.sourceExtension := by
  cases format <;> decide

namespace Project

variable {parse : Manifest.Parser} {t : FileTree} {dir path : Path} {options : Options}

/-! ## Files -/

theorem start_withExtension {before : List String} {name ext : String}
    (h : path.components = before ++ [name]) (hname : IsEntryName name)
    (hext : Path.IsExtension ext) : t.start (path.withExtension ext) = t.start path := by
  rw [FileTree.start, FileTree.start, Path.isAbsolute_eq h,
    Path.isAbsolute_eq (Path.components_withExtension h hname hext)]

/-- The output of a file goes into the directory of the file, under the name of the file with the
extension of the output. -/
theorem compileFile_writesOnly (ht : t.WellFormed) (hdefault : options.output = none)
    (path : Path) :
    let after := (t.run (compileFile path options)).2
    let ext := options.compile.format.extension
    after = t ∨ ∃ home name, t.locate path = .ok (home ++ [name]) ∧
      t.WritesOnly after (home ++ [Path.renamed name ext]) ∧
      (Path.renamed name ext = name ↔ path.extension? = some ext) := by
  intro after ext
  have hext : Path.IsExtension ext := options.compile.format.isExtension
  refine (run_compileFile_cases t path hdefault).imp_right ?_
  rintro ⟨place, content, text, hfind, hwrite⟩
  obtain ⟨before, home, name, hcomponents, hname, hhome, -, rfl⟩ := ht.find_file hfind
  refine ⟨home, name, (FileTree.find_eq_ok_iff.1 hfind).1, ?_, ?_⟩
  · have hlocate := @FileTree.locateFile_eq_follow t _ _ _
      (Path.components_withExtension hcomponents hname hext)
      (Path.isEntryName_renamed hname hext)
    rw [start_withExtension hcomponents hname hext] at hlocate
    obtain ⟨home', hhome', honly⟩ :=
      ht.writesOnly hwrite hlocate (Path.isEntryName_renamed hname hext)
    obtain rfl := Except.ok.inj (hhome.symm.trans hhome')
    exact honly
  · rw [Path.extension?_eq hcomponents hname]
    exact Path.renamed_eq_self_iff hname

/-! ## Directories -/

/-- The output of a directory goes to where the name of the package leads from there. It is never
one of the sources, and in the directory itself if the name is that of a file. -/
theorem compileDirectory_writesOnly (ht : t.WellFormed) (hdefault : options.output = none)
    (dir : Path) :
    let after := (t.run (compileDirectory parse dir options)).2
    let ext := options.compile.format.extension
    let name : Path := ⟨nameIn parse t dir⟩
    after = t ∨ ∃ d folders last home, t.find dir = .ok (d, .directory) ∧
      name.components = folders ++ [last] ∧
      t.follow (if name.isAbsolute then [] else d) folders = .ok home ∧
      t.WritesOnly after (home ++ [last ++ "." ++ ext]) ∧
      (∀ source ∈ sourcesIn t dir, t.locate source ≠ .ok (home ++ [last ++ "." ++ ext])) ∧
      ('/' ∉ name.text.toList → home = d) := by
  intro after ext name
  have hext : Path.IsExtension ext := options.compile.format.isExtension
  obtain ⟨folders, last, hcomponents⟩ := name.exists_components
  have hslash : '/' ∉ last.toList :=
    Path.slash_notMem_of_mem_components (hcomponents ▸ List.mem_append_right _ List.mem_cons_self)
  have hfile := hext.isEntryName hslash
  refine (run_compileDirectory_cases parse t dir options).imp_right ?_
  rintro ⟨d, text, hdir, hwrite⟩
  let output : Path := ⟨nameIn parse t dir ++ "." ++ ext⟩
  -- The name is not checked: its slashes are those of the path of the output.
  have houtput : output.components = folders ++ [last ++ "." ++ ext] := by
    have hsuffix : '/' ∉ ("." ++ ext).toList := by simpa using hext.slash
    have happend := Path.components_append_of_notMem hcomponents hsuffix
    rwa [← String.append_assoc, ← String.append_assoc] at happend
  have hlocate : t.locateFile (dir.join output) =
      t.follow (if name.isAbsolute then [] else d) (folders ++ [last ++ "." ++ ext]) := by
    have hp := FileTree.text_ne_empty (FileTree.find_eq_ok_iff.1 hdir).1
    obtain ⟨before, hjoin⟩ := Path.exists_components_join hp output
    rw [houtput, ← List.append_assoc] at hjoin
    rw [FileTree.locateFile_eq hjoin hfile, FileTree.locate_join hdir (by simp [output]), houtput,
      Path.isAbsolute_eq houtput, Path.isAbsolute_eq hcomponents]
  rw [outputIn, hdefault] at hwrite
  obtain ⟨home, hhome, honly⟩ := ht.writesOnly hwrite hlocate hfile
  refine ⟨d, folders, last, home, hdir, hcomponents, hhome, honly, fun source hsource heq => ?_,
    fun hname => ?_⟩
  -- A source has another extension.
  · obtain ⟨file, -, hmem, hfile⟩ := exists_of_mem_sourcesIn ht hdir hsource
    obtain ⟨hextension, -⟩ := (mem_sourceNames_iff ht hdir).1 hmem
    rw [heq] at hfile
    obtain ⟨-, hlast⟩ := List.append_inj' (Except.ok.inj hfile) rfl
    rw [← List.singleton_inj.1 hlast, Path.extension?_append hext hslash] at hextension
    split_ifs at hextension
    exact options.compile.format.extension_ne (Option.some.inj hextension)
  · have hsingle : [name.text] = folders ++ [last] :=
      (Path.components_of_notMem hname).symm.trans hcomponents
    obtain ⟨rfl, -⟩ := (List.singleton_eq_append_iff.1 hsingle).resolve_right (by simp)
    rw [Path.isAbsolute_eq hcomponents] at hhome
    exact (Except.ok.inj hhome).symm

/-- **Where output goes if no path is given for it.** A compiled file changes nothing, or it writes
one file in the directory of the source. That is the source itself exactly if the extension of the
source is that of the output. A compiled directory changes nothing, or it writes one file, which is
none of the sources that were read, where the name of the package leads from the directory, however
manifests are read. So the file lies in the directory itself if the name has no slash. -/
theorem default_output_places {t : FileTree} (ht : t.WellFormed) {options : Options}
    (hdefault : options.output = none) :
    let ext := options.compile.format.extension
    (∀ path : Path,
      let after := (t.run (compileFile path options)).2
      after = t ∨ ∃ home name, t.locate path = .ok (home ++ [name]) ∧
        t.WritesOnly after (home ++ [Path.renamed name ext]) ∧
        (Path.renamed name ext = name ↔ path.extension? = some ext)) ∧
    ∀ (parse : Manifest.Parser) (dir : Path),
      let after := (t.run (compileDirectory parse dir options)).2
      let name : Path := ⟨nameIn parse t dir⟩
      after = t ∨ ∃ d folders last home, t.find dir = .ok (d, .directory) ∧
        name.components = folders ++ [last] ∧
        t.follow (if name.isAbsolute then [] else d) folders = .ok home ∧
        t.WritesOnly after (home ++ [last ++ "." ++ ext]) ∧
        (∀ source ∈ sourcesIn t dir, t.locate source ≠ .ok (home ++ [last ++ "." ++ ext])) ∧
        ('/' ∉ name.text.toList → home = d) :=
  ⟨compileFile_writesOnly ht hdefault, fun _ => compileDirectory_writesOnly ht hdefault⟩

theorem default_output_places_twice :
    let t := twice "(decl main int 1)\n"
    t.WellFormed ∧ strict.output = none ∧
      t.WritesOnly (t.run (compileFile ⟨"lib.calc"⟩ strict)).2 ["lib.c"] ∧
      t.WritesOnly (t.run (compileDirectory Manifest.parse ⟨"lib"⟩ strict)).2 ["lib", "lib.c"] := by
  intro t
  obtain ⟨hfile, hdirectory⟩ := default_output_places (wellFormed_twice "(decl main int 1)\n")
    (rfl : strict.output = none)
  refine ⟨wellFormed_twice _, rfl, ?_, ?_⟩
  · let sources : SourceMap := .add .empty "lib.calc" "(decl main int 1)\n"
    obtain ⟨text, htext⟩ := Option.isSome_iff_exists.1
      (by decide +kernel : (compile "lib" sources strict.compile).output.isSome)
    have hwrite : t.write ⟨"lib.c"⟩ text = .ok (t.put ["lib.c"] (.file (.text text))) := rfl
    have hrun := run_compileFile_twice "(decl main int 1)\n"
    rw [run_writeOutput_written htext hwrite] at hrun
    obtain ⟨home, name, hlocate, honly, -⟩ := (hfile ⟨"lib.calc"⟩).resolve_left fun h =>
      FileTree.put_ne_self (by simp) rfl _ ((congrArg Prod.snd hrun).symm.trans h)
    have hplace : [] ++ ["lib.calc"] = home ++ [name] := Except.ok.inj hlocate
    obtain ⟨rfl, hname⟩ := List.append_inj' hplace rfl
    obtain rfl := List.singleton_inj.1 hname
    exact honly
  · let sources : SourceMap := .add .empty "lib/a.calc" "(decl main int 1)\n"
    obtain ⟨text, htext⟩ := Option.isSome_iff_exists.1
      (by decide +kernel : (compile "lib" sources strict.compile).output.isSome)
    have hread : (t.run (readSources .empty [⟨"lib/a.calc"⟩])).1 = .ok sources := rfl
    have hwrite : t.write ⟨"lib/lib.c"⟩ text =
      .ok (t.put ["lib", "lib.c"] (.file (.text text))) := rfl
    have hrun := run_compileDirectory_twice Manifest.parse "(decl main int 1)\n"
    rw [run_compileSources hread] at hrun
    have hafter : (t.run (compileDirectory Manifest.parse ⟨"lib"⟩ strict)).2 =
        t.put ["lib", "lib.c"] (.file (.text text)) :=
      (congrArg Prod.snd hrun).trans (congrArg Prod.snd (run_writeOutput_written htext hwrite))
    obtain ⟨d, folders, last, home, hdir, hname, -, honly, -, hhome⟩ :=
      (hdirectory Manifest.parse ⟨"lib"⟩).resolve_left fun h =>
        FileTree.put_ne_self (by simp) rfl _ (hafter.symm.trans h)
    have hd : (["lib"], Entry.directory) = (d, .directory) := Except.ok.inj hdir
    have hlast : [] ++ ["lib"] = folders ++ [last] := hname
    obtain ⟨-, hlast⟩ := List.append_inj' hlast rfl
    obtain rfl := List.singleton_inj.1 hlast
    obtain rfl := (hhome (by decide)).trans (congrArg Prod.fst hd).symm
    exact honly

/-- For examples: a source file with the extension of its output, and a directory whose manifest
gives a name that leads out of it. -/
def astray : FileTree :=
  ⟨[(["x.c"], .file (.text "(decl main int 1)\n")), (["pkg"], .directory),
    (["pkg", "a.calc"], .file (.text "(decl main int 1)\n")),
    (["pkg", "calc.toml"], .file (.text "[package]\nname = \"../up\"\n"))], []⟩

theorem wellFormed_astray : astray.WellFormed where
  nodup := by simp [astray]
  exists_name := by
    intro e he
    simp only [astray, List.mem_cons, List.not_mem_nil, or_false] at he
    rcases he with rfl | rfl | rfl | rfl
    · exact ⟨[], "x.c", rfl, ⟨by decide, by decide, by decide, by decide⟩, rfl⟩
    · exact ⟨[], "pkg", rfl, ⟨by decide, by decide, by decide, by decide⟩, rfl⟩
    · exact ⟨["pkg"], "a.calc", rfl, ⟨by decide, by decide, by decide, by decide⟩, rfl⟩
    · exact ⟨["pkg"], "calc.toml", rfl, ⟨by decide, by decide, by decide, by decide⟩, rfl⟩
  working := rfl

/-- A source file can be overwritten, and a file outside of a compiled directory can be made. -/
theorem not_default_output_places :
    (¬ ∀ (t : FileTree) (path : Path) (options : Options), t.WellFormed → options.output = none →
      ∀ place, FileTree.entry? (t.run (compileFile path options)).2 place ≠ t.entry? place →
        t.locate path ≠ .ok place) ∧
    ¬ ∀ (t : FileTree) (dir : Path) (options : Options) (d : Place), t.WellFormed →
      options.output = none → t.find dir = .ok (d, .directory) →
      ∀ place, FileTree.entry? (t.run (compileDirectory Manifest.parse dir options)).2 place ≠
          t.entry? place →
        place.dropLast = d := by
  constructor
  · intro h
    let sources : SourceMap := .add .empty "x.c" "(decl main int 1)\n"
    have houtput : (compile "x" sources strict.compile).output.any fun text =>
        text.startsWith "#" := by
      decide +kernel
    obtain ⟨text, htext, hstart⟩ := (Option.any_eq_true _ _).1 houtput
    have hread : astray.read ⟨"x.c"⟩ = .ok "(decl main int 1)\n" := rfl
    have hwrite : astray.write ⟨"x.c"⟩ text =
      .ok (astray.put ["x.c"] (.file (.text text))) := rfl
    have hafter : (astray.run (compileFile ⟨"x.c"⟩ strict)).2 =
        astray.put ["x.c"] (.file (.text text)) :=
      (congrArg Prod.snd (run_compileFile hread strict)).trans
        (congrArg Prod.snd (run_writeOutput_written htext hwrite))
    refine h astray ⟨"x.c"⟩ strict wellFormed_astray rfl ["x.c"] (fun heq => ?_) rfl
    rw [hafter, FileTree.entry?_put (by simp), if_pos rfl] at heq
    have hsame : text = "(decl main int 1)\n" := by
      simpa [FileTree.entry?, astray] using heq
    rw [hsame, String.startsWith_string_iff] at hstart
    simp at hstart
  · intro h
    let sources : SourceMap := .add .empty "pkg/a.calc" "(decl main int 1)\n"
    obtain ⟨text, htext⟩ := Option.isSome_iff_exists.1
      (by decide +kernel : (compile "../up" sources strict.compile).output.isSome)
    have hparse : Manifest.parse "[package]\nname = \"../up\"\n" =
      .ok ⟨some "../up", false, false⟩ := by decide +kernel
    have hmanifest : (astray.run (readManifest Manifest.parse ⟨"pkg"⟩)).1 =
        .ok (some ⟨some "../up", false, false⟩) := by
      have hkind : astray.kind? (Path.join ⟨"pkg"⟩ ⟨Manifest.fileName⟩) = some .file := rfl
      have hread : astray.read (Path.join ⟨"pkg"⟩ ⟨Manifest.fileName⟩) =
        .ok "[package]\nname = \"../up\"\n" := rfl
      rw [run_readManifest, hkind, hread]
      dsimp only
      rw [hparse]
      rfl
    have hname : nameIn Manifest.parse astray ⟨"pkg"⟩ = "../up" := by
      rw [nameIn, manifestIn, hmanifest]
      rfl
    have hlist : astray.list ⟨"pkg"⟩ = .ok ["a.calc", "calc.toml"] := rfl
    have hsources : sourcesIn astray ⟨"pkg"⟩ = [⟨"pkg/a.calc"⟩] := by
      rw [sourcesIn_eq, sourceNames, hlist]
      dsimp only
      rw [List.mergeSort_of_pairwise (by simp)]
      rfl
    have hread : (astray.run (readSources .empty (sourcesIn astray ⟨"pkg"⟩))).1 = .ok sources := by
      rw [hsources]
      rfl
    have houtput : outputIn Manifest.parse astray ⟨"pkg"⟩ strict = ⟨"pkg/../up.c"⟩ := by
      rw [outputIn, hname]
      rfl
    have hrun := @run_compileDirectory_read Manifest.parse astray ⟨"pkg"⟩ strict _ _ sources
      hmanifest hlist (by simp [hsources]) hread
    rw [houtput, hname] at hrun
    have hwrite : astray.write ⟨"pkg/../up.c"⟩ text =
      .ok (astray.put ["up.c"] (.file (.text text))) := rfl
    have hafter : (astray.run (compileDirectory Manifest.parse ⟨"pkg"⟩ strict)).2 =
        astray.put ["up.c"] (.file (.text text)) :=
      (congrArg Prod.snd hrun).trans (congrArg Prod.snd (run_writeOutput_written htext hwrite))
    have hinside := h astray ⟨"pkg"⟩ strict ["pkg"] wellFormed_astray rfl rfl ["up.c"] fun heq => by
      rw [hafter, FileTree.entry?_put (by simp), if_pos rfl] at heq
      cases heq
    cases hinside

end Project

end CalcLang
