import CalcLang.Path

/-!
# Files

What the compiler needs of a file system: `Files m` gives the operations in a monad `m`. A
failure of an operation is an `OsFault`, whose text is that of the operating system.
-/

namespace CalcLang

/-- Why an operation on a file failed. -/
inductive OsFault
  | notFound
  | notDirectory
  | isDirectory
  /-- The file is not valid UTF-8. -/
  | notText
  | other (message : String)
  deriving DecidableEq, Repr, Inhabited

/-- The text of a failure. -/
def OsFault.message : OsFault → String
  | notFound => "No such file or directory (os error 2)"
  | notDirectory => "Not a directory (os error 20)"
  | isDirectory => "Is a directory (os error 21)"
  | notText => "stream did not contain valid UTF-8"
  | other message => message

/-- What a path leads to. -/
inductive FileKind
  | file
  | directory
  deriving DecidableEq, Repr, Inhabited

/-- The operations on files that the compiler uses. -/
class Files (m : Type → Type) where
  /-- What is at a path, if anything. -/
  kind? : Path → m (Option FileKind)
  /-- The text of a file. -/
  read : Path → m (Except OsFault String)
  /-- Replaces the text of a file, which is made if there is none. -/
  write : Path → String → m (Except OsFault Unit)
  /-- The names of the entries of a directory, in no particular order. -/
  list : Path → m (Except OsFault (List String))
  /-- The name of a directory in the directory that it is in. The root has none. -/
  directoryName? : Path → m (Option String)

end CalcLang
