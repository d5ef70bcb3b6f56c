import CalcLang.Command

/-!
# The program

The command on the files of the system: paths are taken from the working directory, the log
filter from the environment, and what `Command.run` gives is printed.
-/

namespace CalcLang

/-- The failure that the system reports. -/
def OsFault.ofError : IO.Error → OsFault
  | .noFileOrDirectory _ _ _ => .notFound
  | .inappropriateType (some _) 20 _ | .inappropriateType none 20 _ => .notDirectory
  | .inappropriateType _ 21 _ => .isDirectory
  | e => .other (toString e)

/-- The outcome of an action of the system. -/
def OsFault.catching {α : Type} (action : IO α) : IO (Except OsFault α) := do
  match ← action.toBaseIO with
  | .ok a => return .ok a
  | .error e => return .error (.ofError e)

/-- The empty path leads nowhere, although it is the working directory seen from there. -/
def Path.guarded {α : Type} (p : Path) (action : IO α) : IO (Except OsFault α) :=
  if p.text.isEmpty then return .error .notFound else OsFault.catching action

/-- The files of the system. -/
instance : Files IO where
  kind? p := do
    match ← p.guarded (do ((← IO.currentDir) / p.text).metadata) with
    | .ok data => return some (if data.type == .dir then .directory else .file)
    | .error _ => return none
  read p := do
    match ← p.guarded (do IO.FS.readBinFile ((← IO.currentDir) / p.text)) with
    | .ok bytes => return (String.fromUTF8? bytes).elim (.error .notText) .ok
    | .error fault => return .error fault
  write p text := p.guarded do IO.FS.writeFile ((← IO.currentDir) / p.text) text
  list p := p.guarded do
    let entries ← ((← IO.currentDir) / p.text).readDir
    return entries.toList.map fun entry => entry.fileName
  directoryName? p := do
    match ← p.guarded (do IO.FS.realPath ((← IO.currentDir) / p.text)) with
    | .ok place => return place.fileName
    | .error _ => return none

end CalcLang

/-- Runs the command with the arguments of the process. -/
def main (args : List String) : IO UInt32 := do
  let output : CalcLang.Command.Output ← CalcLang.Command.run args (← IO.getEnv "CALCC_LOG")
  output.stdout.forM fun line => IO.println line
  output.stderr.forM fun line => IO.eprintln line
  return output.exitCode.toUInt32
