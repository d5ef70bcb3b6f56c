import CalcLang.Proofs.ByteOrder
import CalcLang.Proofs.Placement
import CalcLang.Proofs.Projects
import CalcLang.Proofs.Repeats

/-!
# Directories are compiled from their own files

Two runs on a directory are alike if its manifest, its sources and the entries on the way to its
output are the same (`SameInput.alike`). No other entry counts
(`sameInput_of_sameFiles`), nor does the order in which entries are listed (`sameInput_of_perm`):
sources are numbered in the byte order of their names.
-/

namespace CalcLang

namespace FileTree

/-! ## Alike runs -/

/-- An operation has the same result in two trees and puts the same entry into both, if any. -/
def Alike {α : Type} (x : StateM FileTree α) (t t' : FileTree) : Prop :=
  (t'.run x).1 = (t.run x).1 ∧
    ((t.run x).2 = t ∧ (t'.run x).2 = t' ∨
      ∃ place entry, (t.run x).2 = t.put place entry ∧ (t'.run x).2 = t'.put place entry)

end FileTree

namespace Project

open FileTree (Alike AgreeAlong)

variable {parse : Manifest.Parser} {t t' : FileTree} {dir path : Path} {options : Options}
  {d : Place}

theorem alike_writeOutput (h : AgreeAlong t t' path) (c : Compilation) (sources : SourceMap) :
    Alike (writeOutput c sources path) t t' := by
  cases houtput : c.output with
  | none =>
    rw [Alike, run_writeOutput_none houtput, run_writeOutput_none houtput]
    exact ⟨rfl, .inl ⟨rfl, rfl⟩⟩
  | some text =>
    rcases h.write text with ⟨fault, hwrite, hwrite'⟩ | ⟨place, hwrite, hwrite'⟩
    · rw [Alike, run_writeOutput_refused houtput hwrite, run_writeOutput_refused houtput hwrite']
      exact ⟨rfl, .inl ⟨rfl, rfl⟩⟩
    · rw [Alike, run_writeOutput_written houtput hwrite, run_writeOutput_written houtput hwrite']
      exact ⟨rfl, .inr ⟨place, _, rfl, rfl⟩⟩

/-- What a directory is compiled from is the same in two trees. -/
structure SameInput (parse : Manifest.Parser) (t t' : FileTree) (dir : Path) : Prop where
  manifest : (t'.run (readManifest parse dir)).1 = (t.run (readManifest parse dir)).1
  name : (t'.run (packageName dir)).1 = (t.run (packageName dir)).1
  list : ∀ fault, t'.list dir = .error fault ↔ t.list dir = .error fault
  sources : sourcesIn t' dir = sourcesIn t dir
  texts : ∀ source ∈ sourcesIn t dir, t'.read source = t.read source

theorem SameInput.nameIn (h : SameInput parse t t' dir) :
    nameIn parse t' dir = nameIn parse t dir := by
  rw [Project.nameIn, Project.nameIn, manifestIn, manifestIn, h.manifest, h.name]

theorem SameInput.outputIn (h : SameInput parse t t' dir) (options : Options) :
    outputIn parse t' dir options = outputIn parse t dir options := by
  rw [Project.outputIn, Project.outputIn, h.nameIn]

theorem SameInput.exists_list (h : SameInput parse t t' dir) {names : List String}
    (hlist : t.list dir = .ok names) : ∃ names', t'.list dir = .ok names' := by
  cases hlist' : t'.list dir with
  | error fault => cases hlist.symm.trans ((h.list fault).1 hlist')
  | ok names' => exact ⟨names', rfl⟩

theorem SameInput.readSources (h : SameInput parse t t' dir) :
    (t'.run (readSources .empty (sourcesIn t' dir))).1 =
      (t.run (readSources .empty (sourcesIn t dir))).1 := by
  rw [h.sources]
  exact readSources_congr h.texts .empty

/-- If the sources can be read, the same is written in the other tree. -/
theorem SameInput.run_compileDirectory_read (h : SameInput parse t t' dir)
    {manifest : Option Manifest} {names : List String} {sources : SourceMap}
    (hmanifest : (t.run (readManifest parse dir)).1 = .ok manifest) (hlist : t.list dir = .ok names)
    (hnil : sourcesIn t dir ≠ [])
    (hread : (t.run (Project.readSources .empty (sourcesIn t dir))).1 = .ok sources) :
    let written := t'.run (writeOutput (compile (Project.nameIn parse t dir) sources
      (underManifest options.compile manifest)) sources (Project.outputIn parse t dir options))
    t'.run (compileDirectory parse dir options) =
      (⟨written.1.result, .loadedSources dir.text sources.files.size :: written.1.events⟩,
        written.2) := by
  obtain ⟨names', hlist'⟩ := h.exists_list hlist
  rw [← h.nameIn, ← h.outputIn]
  exact Project.run_compileDirectory_read (h.manifest.trans hmanifest) hlist' (h.sources ▸ hnil)
    (h.readSources.trans hread)

/-- What a directory is compiled from, and where its output can go, decides the run. -/
theorem SameInput.alike (h : SameInput parse t t' dir)
    (houtput : AgreeAlong t t' (Project.outputIn parse t dir options)) :
    Alike (compileDirectory parse dir options) t t' := by
  rw [Alike]
  cases hmanifest : (t.run (readManifest parse dir)).1 with
  | error problem =>
    rw [run_compileDirectory_manifest hmanifest,
      run_compileDirectory_manifest (h.manifest.trans hmanifest)]
    exact ⟨rfl, .inl ⟨rfl, rfl⟩⟩
  | ok manifest =>
    have hmanifest' := h.manifest.trans hmanifest
    cases hlist : t.list dir with
    | error fault =>
      have hlist' := (h.list fault).2 hlist
      rw [run_compileDirectory_list hmanifest hlist, run_compileDirectory_list hmanifest' hlist']
      exact ⟨rfl, .inl ⟨rfl, rfl⟩⟩
    | ok names =>
      obtain ⟨names', hlist'⟩ := h.exists_list hlist
      by_cases hnil : sourcesIn t dir = []
      · rw [run_compileDirectory hmanifest hlist, run_compileDirectory hmanifest' hlist',
          h.sources, if_pos hnil, if_pos hnil]
        exact ⟨rfl, .inl ⟨rfl, rfl⟩⟩
      · cases hread : (t.run (Project.readSources .empty (sourcesIn t dir))).1 with
        | error e =>
          rw [run_compileDirectory hmanifest hlist, run_compileDirectory hmanifest' hlist',
            if_neg hnil, if_neg (h.sources ▸ hnil), run_compileSources_unread hread,
            run_compileSources_unread (h.readSources.trans hread)]
          exact ⟨rfl, .inl ⟨rfl, rfl⟩⟩
        | ok sources =>
          obtain ⟨hresult, htrees⟩ := alike_writeOutput houtput
            (compile (Project.nameIn parse t dir) sources (underManifest options.compile manifest))
            sources
          rw [Project.run_compileDirectory_read hmanifest hlist hnil hread,
            h.run_compileDirectory_read hmanifest hlist hnil hread]
          refine ⟨?_, htrees⟩
          dsimp only
          rw [hresult]

/-! ## Entries that do not matter -/

/-- Two trees have the same manifest in a directory, and there the same regular files with the
extension of sources. -/
structure SameFiles (t t' : FileTree) (d : Place) : Prop where
  manifest : t'.entry? (d ++ [Manifest.fileName]) = t.entry? (d ++ [Manifest.fileName])
  sources : ∀ name, Path.extension? ⟨name⟩ = some sourceExtension → ∀ content,
    t'.entry? (d ++ [name]) = some (.file content) ↔ t.entry? (d ++ [name]) = some (.file content)

/-- An entry in the directory that is neither the manifest nor a source does not matter. -/
theorem sameFiles_put (t : FileTree) (d : Place) {name : String}
    (hmanifest : name ≠ Manifest.fileName) (hsource : Path.extension? ⟨name⟩ ≠ some sourceExtension)
    (entry : Entry) : SameFiles t (t.put (d ++ [name]) entry) d := by
  have hother {place : Place} (h : place ≠ d ++ [name]) :
      FileTree.entry? (t.put (d ++ [name]) entry) place = t.entry? place := by
    rw [FileTree.entry?_put (by simp), if_neg h]
  refine ⟨hother fun heq => ?_, fun other hext content => ?_⟩
  · exact hmanifest (List.singleton_inj.1 (List.append_inj' heq rfl).2).symm
  · rw [hother fun heq => hsource ?_]
    rwa [← List.singleton_inj.1 (List.append_inj' heq rfl).2]

theorem find_join_congr (hdir : t.find dir = .ok (d, .directory))
    (hdir' : t'.find dir = .ok (d, .directory)) {name : String} (hname : IsEntryName name)
    (h : t'.entry? (d ++ [name]) = t.entry? (d ++ [name])) :
    t'.find (dir.join ⟨name⟩) = t.find (dir.join ⟨name⟩) := by
  rw [FileTree.find_join_name hdir hname, FileTree.find_join_name hdir' hname, h]

theorem sameInput_of_sameFiles (ht : t.WellFormed) (ht' : t'.WellFormed)
    (hdir : t.find dir = .ok (d, .directory)) (hdir' : t'.find dir = .ok (d, .directory))
    (h : SameFiles t t' d) : SameInput parse t t' dir where
  manifest := by
    have hname : IsEntryName Manifest.fileName := ⟨by decide, by decide, by decide, by decide⟩
    have hfind := find_join_congr hdir hdir' hname h.manifest
    rw [run_readManifest, run_readManifest, FileTree.kind?, FileTree.kind?, FileTree.read,
      FileTree.read, hfind]
  name := by
    rw [run_packageName, run_packageName, FileTree.kind?, FileTree.kind?, FileTree.directoryName?,
      FileTree.directoryName?, hdir, hdir']
  list := by
    intro fault
    simp [list_eq_ok_iff.2 ⟨d, hdir, rfl⟩, list_eq_ok_iff.2 ⟨d, hdir', rfl⟩]
  sources := by
    have hnames : sourceNames t' dir = sourceNames t dir := by
      refine (pairwise_sourceNames ht' hdir').eq_of_mem_iff (pairwise_sourceNames ht hdir)
        fun name => ?_
      rw [mem_sourceNames_iff ht' hdir', mem_sourceNames_iff ht hdir]
      exact and_congr_right fun hext => exists_congr (h.sources name hext)
    rw [sourcesIn_eq, sourcesIn_eq, hnames]
  texts := by
    intro source hsource
    obtain ⟨name, rfl, hmem, -⟩ := exists_of_mem_sourcesIn ht hdir hsource
    obtain ⟨hext, content, hentry⟩ := (mem_sourceNames_iff ht hdir).1 hmem
    have hentry' := (h.sources name hext content).2 hentry
    rw [FileTree.read, FileTree.read,
      find_join_congr hdir hdir' (ht.isEntryName hentry) (hentry'.trans hentry.symm)]

/-! ## Listing order -/

theorem sameInput_of_perm (hnodup : (t.entries.map Prod.fst).Nodup)
    (hperm : t'.entries.Perm t.entries) (hworking : t'.workingDirectory = t.workingDirectory)
    (dir : Path) : SameInput parse t t' dir := by
  have hagree (p : Path) : AgreeAlong t t' p :=
    ⟨hworking, fun _ _ => FileTree.entry?_perm hnodup hperm _⟩
  have hkind (p : Path) : t'.kind? p = t.kind? p := by
    rw [FileTree.kind?, FileTree.kind?, (hagree p).find]
  have hread (p : Path) : t'.read p = t.read p := by
    rw [FileTree.read, FileTree.read, (hagree p).find]
  refine ⟨?_, ?_, fun fault => ?_, ?_, fun _ _ => hread _⟩
  · rw [run_readManifest, run_readManifest, hkind, hread]
  · rw [run_packageName, run_packageName, hkind, FileTree.directoryName?, FileTree.directoryName?,
      (hagree dir).find]
  · rw [FileTree.list, FileTree.list, (hagree dir).find]
    split <;> simp
  · have hsource : isSource t' dir = isSource t dir := funext fun name => by
      rw [isSource, isSource, hkind]
    rw [sourcesIn_eq, sourcesIn_eq, sourceNames, sourceNames, hsource, FileTree.list,
      FileTree.list, (hagree dir).find]
    rcases t.find dir with fault | ⟨place, content | _⟩
    · rfl
    · rfl
    · have hnames : (t'.names place).Perm (t.names place) := by
        rw [FileTree.names_eq, FileTree.names_eq]
        exact (hperm.map _).filterMap _
      -- Sorting forgets the order in which the names were listed.
      have hsorted := (((List.mergeSort_perm (t'.names place) fun a b => a ≤ b).trans hnames).trans
        (List.mergeSort_perm (t.names place) fun a b => a ≤ b).symm).eq_of_pairwise'
          (List.pairwise_mergeSort' (· ≤ ·) _) (List.pairwise_mergeSort' (· ≤ ·) _)
      dsimp only
      rw [hsorted]

/-! ## Numbers of files -/

/-- The files of a source map are the sources of a directory, numbered in the byte order of their
names. -/
structure NumberedByName (t : FileTree) (dir : Path) (d : Place) (names : List String)
    (sources : SourceMap) : Prop where
  increasing : names.Pairwise fun a b => Text.bytes a < Text.bytes b
  mem_iff : ∀ name, name ∈ names ↔ Path.extension? ⟨name⟩ = some sourceExtension ∧
    ∃ content, t.entry? (d ++ [name]) = some (.file content)
  size : sources.files.size = names.length
  get : ∀ (i : Nat) (name : String), names[i]? = some name → ∃ text,
    t.entry? (d ++ [name]) = some (.file (.text text)) ∧
      sources.get? ⟨i⟩ = some ⟨(dir.join ⟨name⟩).text, text⟩

theorem numberedByName (ht : t.WellFormed) (hdir : t.find dir = .ok (d, .directory))
    {sources : SourceMap}
    (hread : (t.run (readSources .empty (sourcesIn t dir))).1 = .ok sources) :
    NumberedByName t dir d (sourceNames t dir) sources := by
  obtain ⟨files, hfiles, hpairs⟩ := readSources_inv hread
  obtain rfl : sources.files.toList = files := hfiles
  rw [sourcesIn_eq, List.forall₂_map_left_iff] at hpairs
  refine ⟨(pairwise_sourceNames ht hdir).imp fun h => (Text.bytes_lt_iff _ _).2 h,
    fun _ => mem_sourceNames_iff ht hdir, hpairs.length_eq.symm, fun i name hname => ?_⟩
  obtain ⟨hi, hget⟩ := List.getElem?_eq_some_iff.1 hname
  have hsize : i < sources.files.toList.length := hpairs.length_eq ▸ hi
  obtain ⟨hfile, htext⟩ := hpairs.get hi hsize
  simp only [List.get_eq_getElem, hget] at hfile htext
  obtain ⟨place, hfind⟩ := FileTree.read_eq_ok_iff.1 htext
  obtain ⟨-, content, hentry⟩ := (mem_sourceNames_iff ht hdir).1 (List.mem_of_getElem? hname)
  rw [FileTree.find_join_name hdir (ht.isEntryName hentry), hentry] at hfind
  refine ⟨sources.files.toList[i].text, ?_, ?_⟩
  · rw [hentry]
    exact congrArg some (Prod.mk.inj (Except.ok.inj hfind)).2
  · rw [SourceMap.get?, ← Array.getElem?_toList, List.getElem?_eq_getElem hsize, ← hfile]

theorem getElem?_declarations (sources : SourceMap) (i : Nat) :
    (Compile.declarations sources)[i]? =
      (sources.get? ⟨i⟩).map fun file => (Parse.ofText ⟨i⟩ file.text).decls := by
  simp [Compile.declarations, Compile.parseAll, SourceMap.get?, List.getElem?_zipIdx,
    Function.comp_def]

/-- Declarations that are read from files have positions in these files. -/
theorem declaresFirst_declarations (name : String) (sources : SourceMap) :
    (Package.build name (Compile.declarations sources)).1.DeclaresFirst
      (Compile.declarations sources) := by
  refine Package.declaresFirst_build name fun i file hfile e he => ?_
  rw [getElem?_declarations, Option.map_eq_some_iff] at hfile
  obtain ⟨source, -, rfl⟩ := hfile
  rw [(Parse.spread_ofText ⟨i⟩ source.text).2 e he]

/-- The run of a directory either ends before anything is compiled, or the sources are compiled
under numbers in the order of their names. -/
theorem run_compileDirectory_numbered (ht : t.WellFormed)
    (hdir : t.find dir = .ok (d, .directory)) (parse : Manifest.Parser) (options : Options) :
    (∃ e, t.run (compileDirectory parse dir options) = (⟨.error e, []⟩, t) ∧
      ∀ diagnostics sources, e ≠ .failed diagnostics sources) ∨
    ∃ manifest names sources, NumberedByName t dir d names sources ∧
      let written := t.run (writeOutput (compile (nameIn parse t dir) sources
        (underManifest options.compile manifest)) sources (outputIn parse t dir options))
      t.run (compileDirectory parse dir options) =
        (⟨written.1.result, .loadedSources dir.text sources.files.size :: written.1.events⟩,
          written.2) := by
  cases hmanifest : (t.run (readManifest parse dir)).1 with
  | error problem => exact .inl ⟨_, run_compileDirectory_manifest hmanifest, nofun⟩
  | ok manifest =>
    have hlist := list_eq_ok_iff.2 ⟨d, hdir, rfl⟩
    by_cases hnil : sourcesIn t dir = []
    · exact .inl ⟨_, (run_compileDirectory hmanifest hlist).trans (if_pos hnil), nofun⟩
    · cases hread : (t.run (readSources .empty (sourcesIn t dir))).1 with
      | error e =>
        refine .inl ⟨e, ?_, ?_⟩
        · rw [run_compileDirectory hmanifest hlist, if_neg hnil, run_compileSources_unread hread]
        · obtain ⟨path, fault, rfl⟩ := readSources_error hread
          exact nofun
      | ok sources =>
        exact .inr ⟨manifest, _, sources, numberedByName ht hdir hread,
          run_compileDirectory_read hmanifest hlist hnil hread⟩

/-- **A directory is compiled from its own files**, however manifests are read. First, runs in two
trees are alike if the trees agree along the path of the directory and along the path of the output,
and have the same manifest and the same sources in the directory. Second, they are alike if the
trees list the same entries in another order. Third, a run that compiles anything numbers the
sources in the byte order of their names, and of the declarations of a name the one in the file with
the least number counts. -/
theorem compileDirectory_own_files (parse : Manifest.Parser) :
    (∀ (t t' : FileTree) (dir : Path) (d : Place) (options : Options),
      t.WellFormed → t'.WellFormed →
      t.find dir = .ok (d, .directory) → AgreeAlong t t' dir → SameFiles t t' d →
      AgreeAlong t t' (outputIn parse t dir options) →
        Alike (compileDirectory parse dir options) t t') ∧
    (∀ (t t' : FileTree) (dir : Path) (options : Options), (t.entries.map Prod.fst).Nodup →
      t'.entries.Perm t.entries → t'.workingDirectory = t.workingDirectory →
        Alike (compileDirectory parse dir options) t t') ∧
    ∀ (t : FileTree) (dir : Path) (d : Place) (options : Options), t.WellFormed →
      t.find dir = .ok (d, .directory) →
        (∃ e, t.run (compileDirectory parse dir options) = (⟨.error e, []⟩, t) ∧
          ∀ diagnostics sources, e ≠ .failed diagnostics sources) ∨
        ∃ manifest names sources, NumberedByName t dir d names sources ∧
          (let written := t.run (writeOutput (compile (nameIn parse t dir) sources
            (underManifest options.compile manifest)) sources (outputIn parse t dir options))
          t.run (compileDirectory parse dir options) =
            (⟨written.1.result, .loadedSources dir.text sources.files.size :: written.1.events⟩,
              written.2)) ∧
          (Package.build (nameIn parse t dir) (Compile.declarations sources)).1.DeclaresFirst
            (Compile.declarations sources) := by
  refine ⟨fun t t' dir d options ht ht' hdir halong hsame hagree => ?_,
    fun t t' dir options hnodup hperm hworking => ?_, fun t dir d options ht hdir => ?_⟩
  · exact (sameInput_of_sameFiles ht ht' hdir (halong.find.trans hdir) hsame).alike hagree
  · exact (sameInput_of_perm hnodup hperm hworking dir).alike
      ⟨hworking, fun _ _ => FileTree.entry?_perm hnodup hperm _⟩
  · refine (run_compileDirectory_numbered ht hdir parse options).imp_right ?_
    rintro ⟨manifest, names, sources, hnumbered, hrun⟩
    exact ⟨manifest, names, sources, hnumbered, hrun, declaresFirst_declarations _ sources⟩

/-- For examples: a directory with one more directory in it. -/
def nested : FileTree := (twice "(decl main int 1)\n").put ["lib", "sub"] .directory

theorem wellFormed_nested : nested.WellFormed := by
  have hhome : FileTree.entry? (twice "(decl main int 1)\n") ["lib"] = some .directory := rfl
  have hname : IsEntryName "sub" := ⟨by decide, by decide, by decide, by decide⟩
  have hfree : FileTree.entry? (twice "(decl main int 1)\n") (["lib"] ++ ["sub"]) = none := rfl
  exact (wellFormed_twice _).put hhome hname (by rw [hfree]; nofun) .directory

theorem sameFiles_nested : SameFiles (twice "(decl main int 1)\n") nested ["lib"] :=
  sameFiles_put _ ["lib"] (by decide) (by decide) .directory

theorem entry?_nested {place : Place} (h : place ≠ ["lib", "sub"]) :
    nested.entry? place = FileTree.entry? (twice "(decl main int 1)\n") place := by
  rw [nested, FileTree.entry?_put (by simp), if_neg h]

theorem agreeAlong_nested : AgreeAlong (twice "(decl main int 1)\n") nested ⟨"lib"⟩ := by
  refine ⟨rfl, fun place hplace => entry?_nested ?_⟩
  have hpassed : FileTree.passed (twice "(decl main int 1)\n") [] (Path.components ⟨"lib"⟩) =
    [[], ["lib"]] := rfl
  change place ∈ FileTree.passed _ [] _ at hplace
  rw [hpassed] at hplace
  rintro rfl
  simp at hplace

theorem readManifest_twice (text : String) :
    ((twice text).run (readManifest parse ⟨"lib"⟩)).1 = .ok none := rfl

theorem list_twice (text : String) : (twice text).list ⟨"lib"⟩ = .ok ["a.calc"] := rfl

theorem sourcesIn_twice (text : String) : sourcesIn (twice text) ⟨"lib"⟩ = [⟨"lib/a.calc"⟩] := by
  rw [sourcesIn_eq, sourceNames, list_twice]
  dsimp only
  rw [List.mergeSort_singleton]
  rfl

theorem readSources_twice (text : String) :
    ((twice text).run (readSources .empty (sourcesIn (twice text) ⟨"lib"⟩))).1 =
      .ok (.add .empty "lib/a.calc" text) := by
  rw [sourcesIn_twice]
  rfl

theorem nameIn_twice (text : String) : nameIn parse (twice text) ⟨"lib"⟩ = "lib" := by
  rw [nameIn, manifestIn, readManifest_twice]
  rfl

theorem outputIn_twice (text : String) :
    outputIn parse (twice text) ⟨"lib"⟩ strict = ⟨"lib/lib.c"⟩ := by
  rw [outputIn, nameIn_twice]
  rfl

theorem compileDirectory_own_files_nested :
    let t := twice "(decl main int 1)\n"
    let listed : FileTree := ⟨t.entries.reverse, []⟩
    t.WellFormed ∧ nested.WellFormed ∧ AgreeAlong t nested ⟨"lib"⟩ ∧
      SameFiles t nested ["lib"] ∧
      Alike (compileDirectory Manifest.parse ⟨"lib"⟩ strict) t nested ∧
      Alike (compileDirectory Manifest.parse ⟨"lib"⟩ strict) t listed ∧
      ∃ names sources, NumberedByName t ⟨"lib"⟩ ["lib"] names sources := by
  intro t listed
  have ht : t.WellFormed := wellFormed_twice _
  obtain ⟨hsame, hperm, hnumbered⟩ := compileDirectory_own_files Manifest.parse
  refine ⟨ht, wellFormed_nested, agreeAlong_nested, sameFiles_nested, ?_, ?_, ?_⟩
  · refine hsame t nested ⟨"lib"⟩ ["lib"] strict ht wellFormed_nested rfl agreeAlong_nested
      sameFiles_nested ⟨rfl, fun place hplace => entry?_nested ?_⟩
    have hpassed : t.passed (t.start ⟨"lib/lib.c"⟩) (Path.components ⟨"lib/lib.c"⟩) =
      [[], ["lib"], ["lib", "lib.c"]] := rfl
    rw [outputIn_twice, hpassed] at hplace
    rintro rfl
    simp at hplace
  · exact hperm t listed ⟨"lib"⟩ strict ht.nodup (List.reverse_perm _) rfl
  · obtain ⟨e, hrun, -⟩ | ⟨_, names, sources, hnames, -⟩ :=
      hnumbered t ⟨"lib"⟩ ["lib"] strict ht rfl
    · let sources : SourceMap := .add .empty "lib/a.calc" "(decl main int 1)\n"
      have hread : (t.run (readSources .empty [⟨"lib/a.calc"⟩])).1 = .ok sources := rfl
      rw [run_compileDirectory_twice, run_compileSources hread] at hrun
      cases congrArg (fun r => r.1.events) hrun
    · exact ⟨names, sources, hnames⟩

/-- An entry through which the path of the output leads does matter. -/
theorem not_compileDirectory_own_files :
    ¬ ∀ (t t' : FileTree) (dir : Path) (d : Place) (options : Options),
      t.WellFormed → t'.WellFormed →
      t.find dir = .ok (d, .directory) → AgreeAlong t t' dir → SameFiles t t' d →
      (∀ place, ¬ (d <+: place ∧ place ≠ d) → t'.entry? place = t.entry? place) →
      (∀ place, t.locate (outputIn Manifest.parse t dir options) = .ok place ∨
        t'.locate (outputIn Manifest.parse t dir options) = .ok place →
          t'.entry? place = t.entry? place) →
        Alike (compileDirectory Manifest.parse dir options) t t' := by
  intro h
  let t := twice "(decl main int 1)\n"
  let sources : SourceMap := .add .empty "lib/a.calc" "(decl main int 1)\n"
  let options : Options := { strict with output := some ⟨"lib/sub/out.c"⟩ }
  obtain ⟨text, htext⟩ := Option.isSome_iff_exists.1
    (by decide +kernel : (compile "lib" sources strict.compile).output.isSome)
  have hdiagnostics : (compile "lib" sources strict.compile).diagnostics = [] := by decide +kernel
  have hinput : SameInput Manifest.parse t nested ⟨"lib"⟩ :=
    sameInput_of_sameFiles (wellFormed_twice _) wellFormed_nested rfl rfl sameFiles_nested
  have houtput : outputIn Manifest.parse t ⟨"lib"⟩ options = ⟨"lib/sub/out.c"⟩ := rfl
  have hnil : sourcesIn t ⟨"lib"⟩ ≠ [] := by simp [t, sourcesIn_twice]
  have hrun := @run_compileDirectory_read Manifest.parse t ⟨"lib"⟩ options _ _ sources
    (readManifest_twice _) (list_twice _) hnil (readSources_twice _)
  have hrun' := @SameInput.run_compileDirectory_read Manifest.parse t nested ⟨"lib"⟩ options hinput
    _ _ sources (readManifest_twice _) (list_twice _) hnil (readSources_twice _)
  -- Only the second tree has the directory of the output.
  have hwrite : t.write ⟨"lib/sub/out.c"⟩ text = .error .notFound := rfl
  have hwrite' : nested.write ⟨"lib/sub/out.c"⟩ text =
    .ok (nested.put ["lib", "sub", "out.c"] (.file (.text text))) := rfl
  rw [nameIn_twice, houtput] at hrun hrun'
  have hfailed : ∃ e,
      (t.run (compileDirectory Manifest.parse ⟨"lib"⟩ options)).1.result = .error e :=
    ⟨_, (congrArg (fun r => r.1.result) hrun).trans
      (congrArg (fun r => r.1.result) (run_writeOutput_refused htext hwrite))⟩
  have hdone : (nested.run (compileDirectory Manifest.parse ⟨"lib"⟩ options)).1.result =
      .ok ⟨"lib/sub/out.c"⟩ := by
    refine (congrArg (fun r => r.1.result) hrun').trans
      ((congrArg (fun r => r.1.result) (run_writeOutput_written htext hwrite')).trans ?_)
    exact if_pos hdiagnostics
  have halike := h t nested ⟨"lib"⟩ ["lib"] options (wellFormed_twice _) wellFormed_nested rfl
    agreeAlong_nested sameFiles_nested (fun place hplace => entry?_nested ?_) fun place hplace => ?_
  · have hsame := congrArg Outcome.result halike.1
    obtain ⟨e, he⟩ := hfailed
    rw [he, hdone] at hsame
    cases hsame
  · rintro rfl
    exact hplace ⟨⟨["sub"], rfl⟩, by decide⟩
  · have hlocate : t.locate ⟨"lib/sub/out.c"⟩ = .error .notFound := rfl
    have hlocate' : nested.locate ⟨"lib/sub/out.c"⟩ = .ok ["lib", "sub", "out.c"] := rfl
    rw [houtput, hlocate, hlocate'] at hplace
    obtain rfl := Except.ok.inj (hplace.resolve_left (by simp))
    rfl

end Project

end CalcLang
