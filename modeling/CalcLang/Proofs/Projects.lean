import CalcLang.Proofs.Policy
import CalcLang.Proofs.Trees
import Mathlib.Data.List.Sort
import Mathlib.Data.String.Basic

/-!
# Runs of projects

What compiling a file or a directory does to a well-formed file tree, with the parts that are read
before anything is written under names of their own: the name of the package in a directory, the
names of its sources (`mem_sourceNames_iff`) and where its output goes. Nothing is written but the
output, at the place to which its path leads (`write_eq_ok_iff`).
-/

namespace CalcLang

namespace Project

variable {parse : Manifest.Parser} {t : FileTree} {dir path : Path} {options : Options}
  {names : List String} {manifest : Option Manifest}

/-! ## What a directory is compiled from -/

theorem run_readManifest (parse : Manifest.Parser) (t : FileTree) (dir : Path) :
    (t.run (readManifest parse dir)).1 =
      match t.kind? (dir.join ⟨Manifest.fileName⟩) with
      | some .file =>
        match t.read (dir.join ⟨Manifest.fileName⟩) with
        | .ok text => ((parse text).mapError .invalid).map some
        | .error fault =>
          .error (.unreadable (dir.join ⟨Manifest.fileName⟩).text fault.message)
      | _ => .ok none := by
  have hkind : (t.run (Files.kind? (dir.join ⟨Manifest.fileName⟩))).1 =
      t.kind? (dir.join ⟨Manifest.fileName⟩) := rfl
  rw [readManifest, (ReadOnly.kind? _).run_bind, hkind]
  cases t.kind? (dir.join ⟨Manifest.fileName⟩) with
  | none => rfl
  | some kind =>
    cases kind with
    | directory => rfl
    | file =>
      have hread : (t.run (Files.read (dir.join ⟨Manifest.fileName⟩))).1 =
          t.read (dir.join ⟨Manifest.fileName⟩) := rfl
      dsimp only
      rw [(ReadOnly.read _).run_bind, hread]
      cases t.read (dir.join ⟨Manifest.fileName⟩) <;> rfl

theorem run_packageName (t : FileTree) (path : Path) :
    (t.run (packageName path)).1 =
      match t.kind? path with
      | some .directory => (t.directoryName? path).getD defaultName
      | _ => nameOfFile path := by
  have hkind : (t.run (Files.kind? path)).1 = t.kind? path := rfl
  rw [packageName, (ReadOnly.kind? path).run_bind, hkind]
  rcases t.kind? path with _ | _ | _ <;> rfl

/-- The manifest of a directory, if there is one that can be read. -/
def manifestIn (parse : Manifest.Parser) (t : FileTree) (dir : Path) : Option Manifest :=
  match (t.run (readManifest parse dir)).1 with
  | .ok manifest => manifest
  | .error _ => none

/-- The name of the package in a directory. -/
def nameIn (parse : Manifest.Parser) (t : FileTree) (dir : Path) : String :=
  ((manifestIn parse t dir).bind Manifest.packageName).getD (t.run (packageName dir)).1

/-- Where the output of a directory goes. -/
def outputIn (parse : Manifest.Parser) (t : FileTree) (dir : Path) (options : Options) : Path :=
  options.output.getD (dir.join ⟨nameIn parse t dir ++ "." ++ options.compile.format.extension⟩)

/-- The paths of the source files of a directory, in the order in which they are read. -/
def sourcesIn (t : FileTree) (dir : Path) : List Path :=
  match t.list dir with
  | .ok names => (t.run (sourcePaths dir (names.mergeSort fun a b => a ≤ b))).1
  | .error _ => []

/-- Whether a name in a directory is that of a source file. -/
def isSource (t : FileTree) (dir : Path) (name : String) : Bool :=
  (dir.join ⟨name⟩).extension? = some sourceExtension ∧ t.kind? (dir.join ⟨name⟩) = some .file

theorem sourcePaths_eq (t : FileTree) (dir : Path) (names : List String) :
    (t.run (sourcePaths dir names)).1 =
      (names.filter (isSource t dir)).map fun name => dir.join ⟨name⟩ := by
  induction names with
  | nil => rfl
  | cons name names ih =>
    have hkind : (t.run (Files.kind? (dir.join ⟨name⟩))).1 = t.kind? (dir.join ⟨name⟩) := rfl
    rw [sourcePaths, (readOnly_sourcePaths dir names).run_bind, ih, List.filter_cons, isSource]
    by_cases hext : (dir.join ⟨name⟩).extension? = some sourceExtension
    · rw [if_pos hext, (ReadOnly.kind? _).run_bind, hkind]
      by_cases hfile : t.kind? (dir.join ⟨name⟩) = some .file
      · rw [if_pos (decide_eq_true ⟨hext, hfile⟩), hfile]
        rfl
      · rw [if_neg (by simp [hfile])]
        split
        · next h => exact absurd h hfile
        · rfl
    · rw [if_neg hext, if_neg (by simp [hext])]
      rfl

theorem list_eq_ok_iff : t.list dir = .ok names ↔
    ∃ d, t.find dir = .ok (d, .directory) ∧ names = t.names d := by
  rw [FileTree.list]
  cases t.find dir with
  | error fault => simp
  | ok found =>
    obtain ⟨d, entry⟩ := found
    cases entry <;> simp [eq_comm]

/-- The sources in a directory are its regular files with the extension of sources. -/
theorem isSource_iff {d : Place} (hdir : t.find dir = .ok (d, .directory))
    {name : String} (hname : IsEntryName name) :
    isSource t dir name ↔ Path.extension? ⟨name⟩ = some sourceExtension ∧
      ∃ content, t.entry? (d ++ [name]) = some (.file content) := by
  have hkind : t.kind? (dir.join ⟨name⟩) = some .file ↔
      ∃ content, t.entry? (d ++ [name]) = some (.file content) := by
    rw [FileTree.kind?, FileTree.find_join_name hdir hname]
    rcases t.entry? (d ++ [name]) with _ | _ | _ <;> simp
  have hp := FileTree.text_ne_empty (FileTree.find_eq_ok_iff.1 hdir).1
  rw [isSource, decide_eq_true_iff, Path.extension?_join hp hname, hkind]

/-- The names of the source files of a directory, in the order in which they are read. -/
def sourceNames (t : FileTree) (dir : Path) : List String :=
  match t.list dir with
  | .ok names => (names.mergeSort fun a b => a ≤ b).filter (isSource t dir)
  | .error _ => []

theorem sourcesIn_eq (t : FileTree) (dir : Path) :
    sourcesIn t dir = (sourceNames t dir).map fun name => dir.join ⟨name⟩ := by
  rw [sourcesIn, sourceNames]
  cases t.list dir with
  | error fault => rfl
  | ok names => exact sourcePaths_eq ..

section Directory

variable {d : Place}

/-- The sources of a directory are its regular files with the extension of sources. -/
theorem mem_sourceNames_iff (ht : t.WellFormed) (hdir : t.find dir = .ok (d, .directory))
    {name : String} : name ∈ sourceNames t dir ↔
      Path.extension? ⟨name⟩ = some sourceExtension ∧
        ∃ content, t.entry? (d ++ [name]) = some (.file content) := by
  rw [sourceNames, list_eq_ok_iff.2 ⟨d, hdir, rfl⟩]
  dsimp only
  rw [List.mem_filter, (List.mergeSort_perm ..).mem_iff, ht.mem_names_iff]
  constructor
  · rintro ⟨⟨entry, hentry⟩, hsource⟩
    exact (isSource_iff hdir (ht.isEntryName hentry)).1 hsource
  · rintro ⟨hext, content, hentry⟩
    exact ⟨⟨_, hentry⟩, (isSource_iff hdir (ht.isEntryName hentry)).2 ⟨hext, content, hentry⟩⟩

theorem pairwise_sourceNames (ht : t.WellFormed) (hdir : t.find dir = .ok (d, .directory)) :
    (sourceNames t dir).Pairwise (· < ·) := by
  rw [sourceNames, list_eq_ok_iff.2 ⟨d, hdir, rfl⟩]
  dsimp only
  have hnodup := (List.mergeSort_perm (t.names d) fun a b => a ≤ b).nodup_iff.2 (ht.nodup_names d)
  have hsorted := List.pairwise_mergeSort' (· ≤ ·) (t.names d)
  refine (List.Pairwise.and hsorted hnodup).imp (fun ⟨hle, hne⟩ => ?_) |>.filter _
  exact lt_of_le_of_ne hle hne

theorem exists_of_mem_sourcesIn (ht : t.WellFormed) (hdir : t.find dir = .ok (d, .directory))
    {source : Path} (h : source ∈ sourcesIn t dir) :
    ∃ name, source = dir.join ⟨name⟩ ∧ name ∈ sourceNames t dir ∧
      t.locate source = .ok (d ++ [name]) := by
  rw [sourcesIn_eq] at h
  obtain ⟨name, hname, rfl⟩ := List.mem_map.1 h
  obtain ⟨-, content, hentry⟩ := (mem_sourceNames_iff ht hdir).1 hname
  exact ⟨name, rfl, hname, FileTree.locate_join_name hdir (ht.isEntryName hentry)⟩

end Directory

/-! ## Reading sources -/

theorem run_readSources_cons (t : FileTree) (sources : SourceMap) (path : Path)
    (paths : List Path) :
    (t.run (readSources sources (path :: paths))).1 = match t.read path with
      | .error fault => .error (.unreadable path fault)
      | .ok text => (t.run (readSources (sources.add path.text text) paths)).1 := by
  have hrun : (t.run (Files.read path)).1 = t.read path := rfl
  rw [readSources, (ReadOnly.read path).run_bind, hrun]
  cases t.read path <;> rfl

theorem readSources_congr {t' : FileTree} {paths : List Path}
    (h : ∀ path ∈ paths, t'.read path = t.read path) (sources : SourceMap) :
    (t'.run (readSources sources paths)).1 = (t.run (readSources sources paths)).1 := by
  induction paths generalizing sources with
  | nil => rfl
  | cons path paths ih =>
    obtain ⟨hread, hrest⟩ := List.forall_mem_cons.1 h
    rw [run_readSources_cons, run_readSources_cons, hread]
    cases t.read path with
    | error fault => rfl
    | ok text => exact ih hrest _

theorem readSources_inv {paths : List Path} {sources sources' : SourceMap}
    (h : (t.run (readSources sources paths)).1 = .ok sources') :
    ∃ files, sources'.files.toList = sources.files.toList ++ files ∧
      List.Forall₂ (fun path file => file.name = path.text ∧ t.read path = .ok file.text)
        paths files := by
  induction paths generalizing sources with
  | nil => exact ⟨[], by rw [← Except.ok.inj h, List.append_nil], .nil⟩
  | cons path paths ih =>
    rw [run_readSources_cons] at h
    cases hread : t.read path with
    | error fault =>
      rw [hread] at h
      cases h
    | ok text =>
      rw [hread] at h
      obtain ⟨files, hfiles, hpairs⟩ := ih h
      refine ⟨⟨path.text, text⟩ :: files, ?_, .cons ⟨rfl, hread⟩ hpairs⟩
      rw [hfiles, SourceMap.add, Array.toList_push, List.append_assoc]
      rfl

theorem readSources_error {paths : List Path} {sources : SourceMap} {e : ProjectError}
    (h : (t.run (readSources sources paths)).1 = .error e) :
    ∃ path fault, e = .unreadable path fault := by
  induction paths generalizing sources with
  | nil => cases h
  | cons path paths ih =>
    rw [run_readSources_cons] at h
    cases hread : t.read path with
    | error fault =>
      rw [hread] at h
      exact ⟨path, fault, (Except.error.inj h).symm⟩
    | ok text =>
      rw [hread] at h
      exact ih h

/-! ## Runs -/

theorem run_compileFile_unread {fault : OsFault} (h : t.read path = .error fault) :
    t.run (compileFile path options) = (⟨.error (.unreadable path fault), []⟩, t) := by
  have hrun : (t.run (Files.read path)).1 = .error fault := h
  rw [compileFile, (ReadOnly.read path).run_bind, hrun]
  rfl

theorem run_compileDirectory_manifest {problem : Manifest.Problem}
    (h : (t.run (readManifest parse dir)).1 = .error problem) :
    t.run (compileDirectory parse dir options) = (⟨.error (.manifest problem), []⟩, t) := by
  rw [compileDirectory, (readOnly_readManifest parse dir).run_bind, h]
  rfl

theorem run_compileDirectory_list {fault : OsFault}
    (hmanifest : (t.run (readManifest parse dir)).1 = .ok manifest)
    (hlist : t.list dir = .error fault) :
    t.run (compileDirectory parse dir options) = (⟨.error (.unreadable dir fault), []⟩, t) := by
  have hrun : (t.run (Files.list dir)).1 = .error fault := hlist
  rw [compileDirectory, (readOnly_readManifest parse dir).run_bind, hmanifest]
  dsimp only
  rw [(readOnly_packageName dir).run_bind, (ReadOnly.list dir).run_bind, hrun]
  rfl

/-- The options for the sources of a directory. -/
def optionsUnder (options : Options) (manifest : Option Manifest) : Options :=
  { options with compile := underManifest options.compile manifest }

theorem run_compileDirectory (hmanifest : (t.run (readManifest parse dir)).1 = .ok manifest)
    (hlist : t.list dir = .ok names) :
    t.run (compileDirectory parse dir options) =
      if sourcesIn t dir = [] then (⟨.error (.noSources dir), []⟩, t)
      else t.run (compileSources dir (nameIn parse t dir) (sourcesIn t dir)
        (optionsUnder options manifest)) := by
  have hrun : (t.run (Files.list dir)).1 = .ok names := hlist
  have hin : manifestIn parse t dir = manifest := by rw [manifestIn, hmanifest]
  have hsources :
      (t.run (sourcePaths dir (names.mergeSort fun a b => a ≤ b))).1 = sourcesIn t dir := by
    rw [sourcesIn, hlist]
  rw [compileDirectory, (readOnly_readManifest parse dir).run_bind, hmanifest]
  dsimp only
  rw [(readOnly_packageName dir).run_bind, (ReadOnly.list dir).run_bind, hrun]
  dsimp only
  rw [(readOnly_sourcePaths dir _).run_bind, hsources, nameIn, hin]
  by_cases hnil : sourcesIn t dir = []
  · rw [if_pos hnil, hnil]
    rfl
  · rw [if_neg hnil, if_neg (by simpa using hnil)]
    rfl

theorem run_compileSources_unread {paths : List Path} {e : ProjectError} {name : String}
    (hread : (t.run (readSources .empty paths)).1 = .error e) :
    t.run (compileSources dir name paths options) = (⟨.error e, []⟩, t) := by
  rw [compileSources, (readOnly_readSources _ paths).run_bind, hread]
  rfl

/-- The run of a directory whose sources can be read. -/
theorem run_compileDirectory_read {sources : SourceMap}
    (hmanifest : (t.run (readManifest parse dir)).1 = .ok manifest) (hlist : t.list dir = .ok names)
    (hnil : sourcesIn t dir ≠ [])
    (hread : (t.run (readSources .empty (sourcesIn t dir))).1 = .ok sources) :
    let written := t.run (writeOutput (compile (nameIn parse t dir) sources
      (underManifest options.compile manifest)) sources (outputIn parse t dir options))
    t.run (compileDirectory parse dir options) =
      (⟨written.1.result, .loadedSources dir.text sources.files.size :: written.1.events⟩,
        written.2) := by
  have houtput : outputIn parse t dir (optionsUnder options manifest) =
      outputIn parse t dir options := by
    rw [outputIn, outputIn, optionsUnder, format_underManifest]
  rw [run_compileDirectory hmanifest hlist, if_neg hnil, ← houtput]
  exact run_compileSources hread dir (nameIn parse t dir) (optionsUnder options manifest)

/-! ## What is written -/

/-- Nothing is written but the output. -/
theorem run_writeOutput_cases (t : FileTree) (c : Compilation) (sources : SourceMap) (path : Path) :
    (t.run (writeOutput c sources path)).2 = t ∨ ∃ text, c.output = some text ∧
      t.write path text = .ok (t.run (writeOutput c sources path)).2 := by
  cases houtput : c.output with
  | none => exact .inl (by rw [run_writeOutput_none houtput])
  | some text =>
    cases hwrite : t.write path text with
    | error fault => exact .inl (by rw [run_writeOutput_refused houtput hwrite])
    | ok after => exact .inr ⟨text, rfl, by rw [run_writeOutput_written houtput hwrite, hwrite]⟩

/-- What a compiled file writes. -/
theorem run_compileFile_cases (t : FileTree) (path : Path) {options : Options}
    (hdefault : options.output = none) :
    let output := path.withExtension options.compile.format.extension
    (t.run (compileFile path options)).2 = t ∨ ∃ place content text,
      t.find path = .ok (place, .file content) ∧
        t.write output text = .ok (t.run (compileFile path options)).2 := by
  intro output
  cases hread : t.read path with
  | error fault => exact .inl (by rw [run_compileFile_unread hread])
  | ok source =>
    obtain ⟨place, hfind⟩ := FileTree.read_eq_ok_iff.1 hread
    rw [run_compileFile hread, hdefault]
    refine (run_writeOutput_cases ..).imp_right fun ⟨text, _, hwrite⟩ => ?_
    exact ⟨place, _, text, hfind, hwrite⟩

/-- What a compiled directory writes. -/
theorem run_compileDirectory_cases (parse : Manifest.Parser) (t : FileTree) (dir : Path)
    (options : Options) :
    (t.run (compileDirectory parse dir options)).2 = t ∨
      ∃ d text, t.find dir = .ok (d, .directory) ∧
        t.write (outputIn parse t dir options) text =
          .ok (t.run (compileDirectory parse dir options)).2 := by
  cases hmanifest : (t.run (readManifest parse dir)).1 with
  | error problem => exact .inl (by rw [run_compileDirectory_manifest hmanifest])
  | ok manifest =>
    cases hlist : t.list dir with
    | error fault => exact .inl (by rw [run_compileDirectory_list hmanifest hlist])
    | ok names =>
      obtain ⟨d, hdir, -⟩ := list_eq_ok_iff.1 hlist
      by_cases hnil : sourcesIn t dir = []
      · exact .inl (by rw [run_compileDirectory hmanifest hlist, if_pos hnil])
      · cases hread : (t.run (readSources .empty (sourcesIn t dir))).1 with
        | error e =>
          refine .inl ?_
          rw [run_compileDirectory hmanifest hlist, if_neg hnil, run_compileSources_unread hread]
        | ok sources =>
          rw [run_compileDirectory_read hmanifest hlist hnil hread]
          exact (run_writeOutput_cases ..).imp_right fun ⟨text, _, hwrite⟩ =>
            ⟨d, text, hdir, hwrite⟩

theorem wellFormed_twice (text : String) : (twice text).WellFormed where
  nodup := by simp [twice]
  exists_name := by
    intro e he
    simp only [twice, List.mem_cons, List.not_mem_nil, or_false] at he
    rcases he with rfl | rfl | rfl
    · exact ⟨[], "lib.calc", rfl, ⟨by decide, by decide, by decide, by decide⟩, rfl⟩
    · exact ⟨[], "lib", rfl, ⟨by decide, by decide, by decide, by decide⟩, rfl⟩
    · exact ⟨["lib"], "a.calc", rfl, ⟨by decide, by decide, by decide, by decide⟩, rfl⟩
  working := rfl

end Project

end CalcLang
