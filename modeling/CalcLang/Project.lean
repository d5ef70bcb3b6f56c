import CalcLang.Compilation
import CalcLang.Files
import CalcLang.Manifest

/-!
# Projects

A project is what a path leads to: a source text given directly, a source file, or a directory
whose source files form one package. `Project.compileFile` and `Project.compileDirectory` read the
sources, compile them and write the output, by default next to the source file or into the
directory. Files of a directory are taken in the order of their names, so the result does not
depend on the order in which the system lists them. How manifests are read is up to the caller.
-/

namespace CalcLang

/-- Why a project could not be compiled. -/
inductive ProjectError
  /-- Something could not be read. -/
  | unreadable (path : Path) (fault : OsFault)
  | manifest (problem : Manifest.Problem)
  /-- A directory without source files. -/
  | noSources (dir : Path)
  /-- The compilation has diagnostics. -/
  | failed (diagnostics : List Diagnostic) (sources : SourceMap)
  deriving Repr

/-- The text of an error. -/
def ProjectError.message : ProjectError → String
  | unreadable path fault => "failed to read '" ++ path.text ++ "': " ++ fault.message
  | manifest problem => problem.message
  | noSources dir => "no '.calc' files found in '" ++ dir.text ++ "'"
  | failed diagnostics _ => Compilation.failureMessage diagnostics

namespace Project

/-- The extension of source files. -/
def sourceExtension : String := "calc"

/-- The choices of a user about a project. -/
structure Options where
  compile : CompileOptions
  /-- Where to write the output, if not at the default place. -/
  output : Option Path
  deriving DecidableEq, Repr, Inhabited

/-- The result of an operation on a project, with the events on the way. -/
structure Outcome (α : Type) where
  result : Except ProjectError α
  events : List Log.Event

/-- The name of a package that has no other one. -/
def defaultName : String := "main"

/-- The name of the package in a file at `path`. -/
def nameOfFile (path : Path) : String := path.fileStem?.getD defaultName

/-! ## Texts -/

/-- Compiles a text under the name of a file. -/
def compileText (path : Path) (text : String) (options : CompileOptions) : Outcome String :=
  let sources := SourceMap.empty.add path.text text
  let c := compile (nameOfFile path) sources options
  ⟨match c.success? with
    | some output => .ok output
    | none => .error (.failed c.diagnostics sources), c.events⟩

variable {m : Type → Type} [Monad m] [Files m]

/-! ## Output -/

/-- Writes the output of a compilation, if there is any. -/
def writeOutput (c : Compilation) (sources : SourceMap) (output : Path) : m (Outcome Path) := do
  match c.output with
  | none => return ⟨.error (.failed c.diagnostics sources), c.events⟩
  | some text =>
    match ← Files.write output text with
    | .ok () =>
      let events := c.events ++ [.wrote output.text]
      if c.diagnostics.isEmpty then return ⟨.ok output, events⟩
      else return ⟨.error (.failed c.diagnostics sources), events⟩
    | .error fault =>
      let refusal : Diagnostic := ⟨.write (output.text ++ ": " ++ fault.message), .origin⟩
      return ⟨.error (.failed (c.diagnostics ++ [refusal]) sources), c.events⟩

/-! ## Files -/

/-- The name of the package at a path. -/
def packageName (path : Path) : m String := do
  match ← Files.kind? path with
  | some .directory => return (← Files.directoryName? path).getD defaultName
  | _ => return nameOfFile path

/-- Compiles a source file. Gives the path of the output. -/
def compileFile (path : Path) (options : Options) : m (Outcome Path) := do
  match ← Files.read path with
  | .error fault => return ⟨.error (.unreadable path fault), []⟩
  | .ok text =>
    let sources := SourceMap.empty.add path.text text
    let name ← packageName path
    let output := options.output.getD (path.withExtension options.compile.format.extension)
    writeOutput (compile name sources options.compile) sources output

/-! ## Directories -/

/-- The manifest of a directory, if it has one. -/
def readManifest (parse : Manifest.Parser) (dir : Path) :
    m (Except Manifest.Problem (Option Manifest)) := do
  let path := dir.join ⟨Manifest.fileName⟩
  match ← Files.kind? path with
  | some .file =>
    match ← Files.read path with
    | .ok text => return ((parse text).mapError .invalid).map some
    | .error fault => return .error (.unreadable path.text fault.message)
  | _ => return .ok none

/-- The options of a compilation under a manifest, which can only switch things on. -/
def underManifest (options : CompileOptions) (manifest : Option Manifest) : CompileOptions :=
  match manifest with
  | none => options
  | some manifest =>
    { options with
      optimize := options.optimize || manifest.optimize
      policy := if manifest.emitOnError then .emitAnyway else options.policy }

/-- The paths of the source files among the entries of a directory. -/
def sourcePaths (dir : Path) : List String → m (List Path)
  | [] => return []
  | name :: names => do
    let path := dir.join ⟨name⟩
    let rest ← sourcePaths dir names
    if path.extension? = some sourceExtension then
      match ← Files.kind? path with
      | some .file => return path :: rest
      | _ => return rest
    else return rest

/-- Reads files one after the other, up to the first that cannot be read. -/
def readSources (sources : SourceMap) : List Path → m (Except ProjectError SourceMap)
  | [] => return .ok sources
  | path :: paths => do
    match ← Files.read path with
    | .error fault => return .error (.unreadable path fault)
    | .ok text => readSources (sources.add path.text text) paths

/-- Compiles the sources at given paths as the package `name`. -/
def compileSources (dir : Path) (name : String) (paths : List Path) (options : Options) :
    m (Outcome Path) := do
  match ← readSources .empty paths with
  | .error e => return ⟨.error e, []⟩
  | .ok sources =>
    let output := options.output.getD
      (dir.join ⟨name ++ "." ++ options.compile.format.extension⟩)
    let outcome ← writeOutput (compile name sources options.compile) sources output
    return { outcome with
      events := .loadedSources dir.text sources.files.size :: outcome.events }

/-- Compiles the source files of a directory as one package. Gives the path of the output. -/
def compileDirectory (parse : Manifest.Parser) (dir : Path) (options : Options) :
    m (Outcome Path) := do
  match ← readManifest parse dir with
  | .error problem => return ⟨.error (.manifest problem), []⟩
  | .ok manifest =>
    let ownName ← packageName dir
    let name := (manifest.bind Manifest.packageName).getD ownName
    match ← Files.list dir with
    | .error fault => return ⟨.error (.unreadable dir fault), []⟩
    | .ok names =>
      let paths ← sourcePaths dir (names.mergeSort fun a b => a ≤ b)
      let below : Options := { options with compile := underManifest options.compile manifest }
      if paths.isEmpty then return ⟨.error (.noSources dir), []⟩
      else compileSources dir name paths below

end Project

end CalcLang
