import CalcLang.Command.Options
import CalcLang.Log.Filter
import CalcLang.Report

/-!
# The command

`Command.run` does what a command line asks for and gives what is to be printed and the exit code
of the process. It works in any monad with files, so that it can be run on the files of the system
as well as on a file tree.
-/

namespace CalcLang.Command

/-- What a run leaves behind: the exit code and the lines of its two outputs. -/
structure Output where
  exitCode : Nat
  stdout : List String
  stderr : List String
  deriving DecidableEq, Repr, Inhabited

/-- The name of the command. -/
def commandName : String := "calcc"

/-- The line that states the version. -/
def versionLine : String := commandName ++ " 0.1.0"

/-- How the command is used. -/
def usage : List String :=
  ["The calc compiler",
    "",
    "Usage: calcc [OPTIONS] build [BUILD OPTIONS] <PATH>",
    "",
    "Options:",
    "  -v, --verbose  Increase logging verbosity (-v, -vv, -vvv)",
    "  -h, --help     Print help",
    "  -V, --version  Print version",
    "",
    "Build options:",
    "  -O, --optimize       Fold constant expressions before generating code",
    "      --emit-on-error  Generate output even if type checking reported errors",
    "      --emit <EMIT>    Output format [default: c] [possible values: c, ir]",
    "  -o, --output <PATH>  Output path (defaults to next to the input)",
    "      --json           Output diagnostics as JSON (one object per line)",
    "      --no-color       Disable colorized output"]

/-- The exit code of a process that was stopped by a fault. -/
def faultCode : Nat := 101

/-- The line of an event, dimmed where colors are wanted. -/
def eventLine (color : Bool) (e : Log.Event) : String :=
  if color then "\x1b[2m" ++ e.line ++ "\x1b[0m" else e.line

/-- The lines that show a diagnostic. -/
def diagnosticLines (json color : Bool) (sources : SourceMap) (d : Diagnostic) :
    Except Fault (List String) :=
  if json then (Report.json d sources).map fun line => [line] else Report.lines d sources color

/-- The lines that show diagnostics one after the other, up to the first that cannot be shown. -/
def diagnosticsLines (json color : Bool) (sources : SourceMap) :
    List Diagnostic → List String × Option Fault
  | [] => ([], none)
  | d :: ds =>
    match diagnosticLines json color sources d with
    | .error fault => ([], some fault)
    | .ok first =>
      let (others, fault) := diagnosticsLines json color sources ds
      (first ++ others, fault)

/-- The last line of a run that fails. -/
def errorLine (json : Bool) (message : String) : String :=
  if json then (Report.jsonError "C0001" message [] []).compact else "error: " ++ message

/-- The output of a run that a fault stops after it has printed some lines. -/
def stopped (lines : List String) (fault : Fault) : Output :=
  ⟨faultCode, [], lines ++ [fault.message]⟩

/-- The output for the error of a project, behind the lines of the log. -/
def errorOutput (json color : Bool) (log : List String) (e : ProjectError) : Output :=
  match e with
  | .failed diagnostics sources =>
    match diagnosticsLines json color sources diagnostics with
    | (lines, some fault) => stopped (log ++ lines) fault
    | (lines, none) => ⟨1, [], log ++ lines ++ [errorLine json
        s!"Compilation failed due to {diagnostics.length} error(s) above."]⟩
  | e => ⟨1, [], log ++ [errorLine json e.message]⟩

/-- The output for the outcome of a project. -/
def outcomeOutput (json color : Bool) (filter : Log.Filter) (outcome : Project.Outcome Path) :
    Output :=
  let log := (outcome.events.filter filter.shows).map (eventLine color)
  match outcome.result with
  | .ok path => ⟨0, [], log ++ ["  Compiled: " ++ path.text]⟩
  | .error e => errorOutput json color log e

variable {m : Type → Type} [Monad m] [Files m]

/-- Compiles what is at a path. -/
def build (path : Path) (options : Project.Options) (json color : Bool) (filter : Log.Filter) :
    m Output := do
  match ← Files.kind? path with
  | none => return ⟨1, [], [errorLine json ("Path '" ++ path.text ++ "' does not exist")]⟩
  | some .directory =>
    return outcomeOutput json color filter (← Project.compileDirectory Manifest.parse path options)
  | some .file => return outcomeOutput json color filter (← Project.compileFile path options)

/-- Does what a request asks for. `log` is the log filter that the user has set. -/
def perform (log : Option String) : Request → m Output
  | .help => return ⟨0, usage, []⟩
  | .version => return ⟨0, [versionLine], []⟩
  | .misuse => return ⟨2, [], usage⟩
  | .build path options json color verbosity =>
    match Log.Filter.ofSettings verbosity log with
    | .ok filter => build path options json color filter
    | .error fault => return stopped [] fault

/-- Runs the command with arguments. -/
def run (args : List String) (log : Option String) : m Output :=
  perform log (Request.ofArguments args)

end CalcLang.Command
