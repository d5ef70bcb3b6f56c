/-!
# Paths

Paths of files as texts with slashes. Empty components and components `.` do not count when the
name of a file is looked for, and `..` names no file.
-/

namespace CalcLang

/-- A path of a file or a directory. -/
structure Path where
  text : String
  deriving DecidableEq, Repr, Inhabited

namespace Path

/-- The pieces of a text between slashes. -/
def splitSlashes : List Char → List (List Char)
  | [] => [[]]
  | c :: cs =>
    match splitSlashes cs with
    | [] => [[c]]
    | piece :: pieces => if c = '/' then [] :: piece :: pieces else (c :: piece) :: pieces

/-- The components of a path, as written. -/
def components (p : Path) : List String := (splitSlashes p.text.toList).map String.ofList

/-- Whether a path starts at the root. -/
def isAbsolute (p : Path) : Bool := p.text.toList.head? == some '/'

/-- The path `q` seen from the directory `p`. -/
def join (p q : Path) : Path :=
  if q.isAbsolute then q
  else if p.text.isEmpty || p.text.toList.getLast? == some '/' then ⟨p.text ++ q.text⟩
  else ⟨p.text ++ "/" ++ q.text⟩

/-- Drops slashes and components `.` from the end of a text that is given in reverse. -/
def trimReversed : List Char → List Char
  | '/' :: cs => trimReversed cs
  | '.' :: '/' :: cs => trimReversed cs
  | cs => cs

/-- The text of a path without slashes and components `.` at its end, split behind the last slash
that remains. -/
def splitLast (p : Path) : List Char × List Char :=
  let cs := trimReversed p.text.toList.reverse
  ((cs.dropWhile (· != '/')).reverse, (cs.takeWhile (· != '/')).reverse)

/-- The directory part of a path and the name of the file, if the path ends in one. -/
def splitName? (p : Path) : Option (List Char × List Char) :=
  let (dir, name) := p.splitLast
  if name == [] || name == ['.'] || name == ['.', '.'] then none else some (dir, name)

/-- A file name split at its last dot. A dot at the start does not count. -/
def splitDot (name : List Char) : List Char × Option (List Char) :=
  match name.reverse.dropWhile (· != '.') with
  | [] => (name, none)
  | [_] => (name, none)
  | _ :: stem => (stem.reverse, some (name.reverse.takeWhile (· != '.')).reverse)

/-- The name of the file without its extension. -/
def fileStem? (p : Path) : Option String := p.splitName?.map fun s => String.ofList (splitDot s.2).1

/-- What follows the last dot of the file name. -/
def extension? (p : Path) : Option String :=
  p.splitName?.bind fun s => (splitDot s.2).2.map String.ofList

/-- The path with another extension. A path without a file name stays as it is. -/
def withExtension (p : Path) (extension : String) : Path :=
  match p.splitName? with
  | none => p
  | some (dir, name) => ⟨String.ofList (dir ++ (splitDot name).1) ++ "." ++ extension⟩

end Path

end CalcLang
