import CalcLang.Assoc
import CalcLang.Files

/-!
# File trees

A file tree is a file system as a value: the entries below a root, each by the list of names that
leads to it, and the working directory. It is the state of the instance of `Files` in which the
compiler can be reasoned about. An entry is a file or a directory. There are no links, so an entry
has one place only, `..` leads to the directory around a place, and what is written at one place is
not seen at another.
-/

namespace CalcLang

/-- The content of a file. -/
inductive Content
  | text (text : String)
  /-- Bytes that are no text. -/
  | binary (bytes : ByteArray)

/-- An entry of a file tree. -/
inductive Entry
  | file (content : Content)
  | directory

/-- The names that lead from the root to an entry. -/
abbrev Place := List String

/-- A file system. The root is a directory without an entry of its own. -/
structure FileTree where
  entries : List (Place × Entry)
  workingDirectory : Place

namespace FileTree

/-- The entry at a place. -/
def entry? (t : FileTree) (place : Place) : Option Entry :=
  if place.isEmpty then some .directory else t.entries.lookup place

/-- Puts an entry at a place. -/
def put (t : FileTree) (place : Place) (entry : Entry) : FileTree :=
  { t with entries := Assoc.put t.entries place entry }

/-- The names of the entries in the directory at a place. -/
def names (t : FileTree) (place : Place) : List String :=
  t.entries.filterMap fun e =>
    match e.1.getLast? with
    | some name => if e.1.dropLast = place then some name else none
    | none => none

/-- Follows the components of a path. Every component but the last has to lead to a directory, and
so has what an empty component or `.` stands for. -/
def follow (t : FileTree) (place : Place) : List String → Except OsFault Place
  | [] => .ok place
  | name :: rest =>
    match t.entry? place with
    | none => .error .notFound
    | some (.file _) => .error .notDirectory
    | some .directory =>
      if name = "" ∨ name = "." then follow t place rest
      else if name = ".." then follow t place.dropLast rest
      else follow t (place ++ [name]) rest

/-- The place at which a path starts. -/
def start (t : FileTree) (p : Path) : Place := if p.isAbsolute then [] else t.workingDirectory

/-- The place that a path leads to, which need not have an entry. -/
def locate (t : FileTree) (p : Path) : Except OsFault Place :=
  if p.text.isEmpty then .error .notFound else t.follow (t.start p) p.components

/-- The entry that a path leads to. -/
def find (t : FileTree) (p : Path) : Except OsFault (Place × Entry) :=
  match t.locate p with
  | .error fault => .error fault
  | .ok place =>
    match t.entry? place with
    | some entry => .ok (place, entry)
    | none => .error .notFound

/-- The kind of the entry that a path leads to. -/
def kind? (t : FileTree) (p : Path) : Option FileKind :=
  match t.find p with
  | .ok (_, .file _) => some .file
  | .ok (_, .directory) => some .directory
  | .error _ => none

/-- The text of a file. -/
def read (t : FileTree) (p : Path) : Except OsFault String :=
  match t.find p with
  | .ok (_, .file (.text text)) => .ok text
  | .ok (_, .file (.binary _)) => .error .notText
  | .ok (_, .directory) => .error .isDirectory
  | .error fault => .error fault

/-- The names of the entries of a directory. -/
def list (t : FileTree) (p : Path) : Except OsFault (List String) :=
  match t.find p with
  | .ok (place, .directory) => .ok (t.names place)
  | .ok (_, .file _) => .error .notDirectory
  | .error fault => .error fault

/-- The place that a path leads to, if it is to become a file. A slash at the end asks for a
directory. -/
def locateFile (t : FileTree) (p : Path) : Except OsFault Place :=
  if p.text.isEmpty then .error .notFound
  else if p.components.getLast? = some "" then
    match t.follow (t.start p) (p.components.reverse.dropWhile (· == "")).reverse with
    | .ok _ => .error .isDirectory
    | .error fault => .error fault
  else t.locate p

/-- Replaces the text of a file. -/
def write (t : FileTree) (p : Path) (text : String) : Except OsFault FileTree :=
  match t.locateFile p with
  | .error fault => .error fault
  | .ok place =>
    match t.entry? place with
    | some .directory => .error .isDirectory
    | _ => .ok (t.put place (.file (.text text)))

/-- The name of the directory that a path leads to. -/
def directoryName? (t : FileTree) (p : Path) : Option String :=
  match t.find p with
  | .ok (place, _) => place.getLast?
  | .error _ => none

/-- The files of a tree as operations on the tree. -/
instance : Files (StateM FileTree) where
  kind? p := do return (← get).kind? p
  read p := do return (← get).read p
  write p text := do
    match (← get).write p text with
    | .ok t =>
      set t
      return .ok ()
    | .error fault => return .error fault
  list p := do return (← get).list p
  directoryName? p := do return (← get).directoryName? p

end FileTree

end CalcLang
