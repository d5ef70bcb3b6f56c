import CalcLang.Project

/-!
# Command lines

A command line is read from left to right, and the first thing that decides its meaning wins: a
mistake, or a request for help or for the version. Options may stand before and after the path;
`--` ends them. Short options can share a dash, and the value of an option may follow it directly,
behind an equals sign, or as the next argument, which must not look like an option.
-/

namespace CalcLang.Command

/-- What a command line asks for. -/
inductive Request
  /-- Compile what is at a path. -/
  | build (path : Path) (options : Project.Options) (json color : Bool) (verbosity : Nat)
  | help
  | version
  /-- The command line has no meaning. -/
  | misuse
  deriving Repr, Inhabited

/-- The options of `build` that have been read. -/
structure Given where
  path : Option String
  optimize : Bool
  emitOnError : Bool
  format : Option OutputFormat
  output : Option String
  json : Bool
  noColor : Bool
  verbosity : Nat
  deriving DecidableEq, Repr, Inhabited

namespace Given

/-- No options. -/
def nothing : Given := ⟨none, false, false, none, none, false, false, 0⟩

/-- Gives the path, once. A path is not empty. -/
def setPath (g : Given) (path : String) : Option Given :=
  if g.path.isSome || path.isEmpty then none else some { g with path := some path }

/-- Gives the output path, once. A path is not empty. -/
def setOutput (g : Given) (path : String) : Option Given :=
  if g.output.isSome || path.isEmpty then none else some { g with output := some path }

/-- Gives the output format, once. -/
def setFormat (g : Given) (name : String) : Option Given :=
  if g.format.isSome then none
  else if name = OutputFormat.c.extension then some { g with format := some .c }
  else if name = OutputFormat.listing.extension then some { g with format := some .listing }
  else none

/-- The request that the options make, when `outer` is the verbosity given before the command.
The verbosity given behind the command counts, if there is one. -/
def request (g : Given) (outer : Nat) : Request :=
  match g.path with
  | none => .misuse
  | some path =>
    .build ⟨path⟩
      ⟨⟨g.optimize, if g.emitOnError then .emitAnyway else .abort, g.format.getD .c⟩,
        g.output.map Path.mk⟩
      g.json (!g.noColor && !g.json) (if g.verbosity = 0 then outer else g.verbosity)

end Given

/-- An option without a value. -/
inductive Flag
  | optimize
  | emitOnError
  | json
  | noColor
  | verbose
  | help
  deriving DecidableEq, Repr

/-- An option with a value. -/
inductive Setting
  | format
  | output
  deriving DecidableEq, Repr

/-- The flag with a long name. -/
def longFlag? (name : String) : Option Flag :=
  match name with
  | "optimize" => some .optimize
  | "emit-on-error" => some .emitOnError
  | "json" => some .json
  | "no-color" => some .noColor
  | "verbose" => some .verbose
  | "help" => some .help
  | _ => none

/-- The setting with a long name. -/
def longSetting? (name : String) : Option Setting :=
  match name with
  | "emit" => some .format
  | "output" => some .output
  | _ => none

/-- The flag with a short name. -/
def shortFlag? (name : Char) : Option Flag :=
  match name with
  | 'O' => some .optimize
  | 'v' => some .verbose
  | 'h' => some .help
  | _ => none

/-- How the reading of a command line goes on: with more options, or not at all. -/
abbrev Step := Except Request Given

/-- Goes on if a value could be set. -/
def orMisuse : Option Given → Step
  | some g => .ok g
  | none => .error .misuse

/-- Sets a flag. Only the verbosity can be raised more than once. -/
def setFlag (g : Given) : Flag → Step
  | .optimize => if g.optimize then .error .misuse else .ok { g with optimize := true }
  | .emitOnError => if g.emitOnError then .error .misuse else .ok { g with emitOnError := true }
  | .json => if g.json then .error .misuse else .ok { g with json := true }
  | .noColor => if g.noColor then .error .misuse else .ok { g with noColor := true }
  | .verbose => .ok { g with verbosity := g.verbosity + 1 }
  | .help => .error .help

/-- Gives a value to a setting. -/
def setSetting (g : Given) (setting : Setting) (value : String) : Step :=
  orMisuse <|
    match setting with
    | .format => g.setFormat value
    | .output => g.setOutput value

/-- Whether an argument looks like an option. A single dash is a value. -/
def looksLikeOption (arg : String) : Bool :=
  match arg.toList with
  | '-' :: _ :: _ => true
  | _ => false

/-- A setting whose value is still to come. -/
abbrev Pending := Option Setting

/-- Reads short options that share a dash. -/
def shortOptions (g : Given) : List Char → Except Request (Given × Pending)
  | [] => .ok (g, none)
  | 'o' :: rest =>
    match rest with
    | [] => .ok (g, some .output)
    | '=' :: value => (setSetting g .output (String.ofList value)).map (·, none)
    | value => (setSetting g .output (String.ofList value)).map (·, none)
  | c :: rest =>
    match shortFlag? c with
    | none => .error .misuse
    | some flag => do
      let g ← setFlag g flag
      shortOptions g rest

/-- Reads a long option, without its dashes. -/
def longOption (g : Given) (text : List Char) : Except Request (Given × Pending) :=
  let name := String.ofList (text.takeWhile (· != '='))
  match text.dropWhile (· != '=') with
  | [] =>
    match longFlag? name, longSetting? name with
    | some flag, _ => (setFlag g flag).map (·, none)
    | none, some setting => .ok (g, some setting)
    | none, none => .error .misuse
  | _ :: value =>
    match longSetting? name with
    | some setting => (setSetting g setting (String.ofList value)).map (·, none)
    | none => .error .misuse

/-- Reads the arguments behind `--`. -/
def pathArguments (g : Given) : List String → Step
  | [] => .ok g
  | arg :: args => do
    let g ← orMisuse (g.setPath arg)
    pathArguments g args

/-- Reads the arguments behind the command. -/
def buildArguments (g : Given) (pending : Pending) : List String → Step
  | [] => if pending.isSome then .error .misuse else .ok g
  | arg :: args =>
    match pending with
    | some setting =>
      if looksLikeOption arg then .error .misuse
      else do
        let g ← setSetting g setting arg
        buildArguments g none args
    | none =>
      match arg.toList with
      | ['-', '-'] => pathArguments g args
      | '-' :: '-' :: text => do
        let (g, pending) ← longOption g text
        buildArguments g pending args
      | '-' :: c :: text => do
        let (g, pending) ← shortOptions g (c :: text)
        buildArguments g pending args
      | _ => do
        let g ← orMisuse (g.setPath arg)
        buildArguments g none args

/-- Reads the arguments behind `build`. -/
def buildRequest (outer : Nat) (args : List String) : Request :=
  match buildArguments .nothing none args with
  | .ok g => g.request outer
  | .error request => request

/-- Reads the arguments behind `help`: the name of a command, or nothing. -/
def helpRequest : List String → Request
  | [] => .help
  | [name] => if name = "build" ∨ name = "help" then .help else .misuse
  | _ => .misuse

/-- Reads short options that stand before the command: gives the verbosity or the request that
they make. -/
def outerShort (verbosity : Nat) : List Char → Except Request Nat
  | [] => .ok verbosity
  | 'v' :: rest => outerShort (verbosity + 1) rest
  | 'V' :: _ => .error .version
  | 'h' :: _ => .error .help
  | _ => .error .misuse

/-- Reads a command line behind options with a given verbosity. -/
def requestFrom (verbosity : Nat) : List String → Request
  | [] => .misuse
  | arg :: args =>
    if arg = "build" then buildRequest verbosity args
    else if arg = "help" then helpRequest args
    else if arg = "--verbose" then requestFrom (verbosity + 1) args
    else if arg = "--version" then .version
    else if arg = "--help" then .help
    else
      match arg.toList with
      | '-' :: '-' :: _ => .misuse
      | '-' :: c :: rest =>
        match outerShort verbosity (c :: rest) with
        | .ok verbosity => requestFrom verbosity args
        | .error request => request
      | _ => .misuse

/-- Reads a command line. -/
def Request.ofArguments (args : List String) : Request := requestFrom 0 args

end CalcLang.Command
