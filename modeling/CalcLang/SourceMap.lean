import CalcLang.Assoc
import CalcLang.Span

/-!
# Source maps

A source map holds the files of a compilation in the order in which they were added; the number
of a file is its place in that order. An index of the names knows the last file of every name.
`SourceMap.location` turns a position into a file name, a line and a column: lines end at line feeds
only, columns count bytes, and both start at 1. Numbers of files and offsets are natural numbers
that are taken to be below `2 ^ 32`; a column is counted one past an offset and has to fit as well.
-/

namespace CalcLang

/-- A named source text. -/
structure SourceFile where
  name : String
  text : String
  deriving DecidableEq, Repr, Inhabited

/-- The offsets at which lines start, behind the line feeds of a text that starts at `offset`. -/
def lineStartsFrom (offset : Nat) : List Char → List Nat
  | [] => []
  | c :: rest =>
    if c = '\n' then (offset + 1) :: lineStartsFrom (offset + 1) rest
    else lineStartsFrom (offset + c.utf8Size) rest

/-- The offsets at which the lines of a text start. -/
def lineStarts (text : String) : List Nat := 0 :: lineStartsFrom 0 text.toList

/-- Line and column of a byte offset, both counted from 1. An offset behind the end of the text
is on the last line. The column has to fit into 32 bits. -/
def lineColumn (text : String) (offset : Nat) : Except Fault (Nat × Nat) :=
  let before := (lineStarts text).takeWhile (· ≤ offset)
  let column := offset - before.getLastD 0 + 1
  if column < 4294967296 then .ok (before.length, column) else .error .addOverflow

/-- A place in a source text in the form that is shown to a user. -/
structure Location where
  file : String
  line : Nat
  column : Nat
  deriving DecidableEq, Repr

namespace Location

/-- The place of a position in a file that is not known. -/
def unknown : Location := ⟨"<unknown>", 0, 0⟩

/-- The text of a place: file, line and column between colons. -/
def text (l : Location) : String := l.file ++ s!":{l.line}:{l.column}"

end Location

/-- The number of the last file of a name. -/
def lastNamed? (files : List SourceFile) (name : String) : Option FileId :=
  (files.zipIdx.findRev? fun f => f.1.name == name).map fun f => ⟨f.2⟩

theorem lastNamed?_concat (files : List SourceFile) (file : SourceFile) (name : String) :
    lastNamed? (files ++ [file]) name =
      if name = file.name then some ⟨files.length⟩ else lastNamed? files name := by
  simp only [lastNamed?, List.zipIdx_append, List.findRev?_eq_find?_reverse, List.reverse_append,
    List.zipIdx_singleton, List.reverse_singleton, List.singleton_append]
  split
  · next h => simp [h]
  · next h => rw [List.find?_cons_of_neg (by simpa using Ne.symm h)]

/-- The files of a compilation, in the order in which they were added, with an index of their
names. -/
structure SourceMap where
  files : Array SourceFile
  byName : List (String × FileId)
  /-- The index has the last file of every name. -/
  lookup_byName : ∀ name, byName.lookup name = lastNamed? files.toList name
  deriving DecidableEq, Repr

namespace SourceMap

/-- The source map without files. -/
def empty : SourceMap := ⟨#[], [], fun _ => rfl⟩

instance : Inhabited SourceMap := ⟨empty⟩

/-- The number that the next added file gets. -/
def nextId (m : SourceMap) : FileId := ⟨m.files.size⟩

/-- Adds a file behind the others. From now on its name stands for it. -/
def add (m : SourceMap) (name text : String) : SourceMap where
  files := m.files.push ⟨name, text⟩
  byName := Assoc.put m.byName name m.nextId
  lookup_byName other := by
    rw [Array.toList_push, lastNamed?_concat]
    split
    · next h => rw [h, Assoc.lookup_put_self, nextId, Array.length_toList]
    · next h => rw [Assoc.lookup_put_of_ne _ h, m.lookup_byName]

/-- The source map of a list of names and texts. -/
def ofList (files : List (String × String)) : SourceMap :=
  files.foldl (fun m f => m.add f.1 f.2) empty

/-- The file with a given number. -/
def get? (m : SourceMap) (id : FileId) : Option SourceFile := m.files[id.index]?

/-- The number of the latest file with a given name. -/
def lookup? (m : SourceMap) (name : String) : Option FileId := m.byName.lookup name

/-- The place of a position. A position in an unknown file is at `Location.unknown`. -/
def location (m : SourceMap) (pos : Pos) : Except Fault Location :=
  match m.get? pos.file with
  | none => .ok .unknown
  | some file =>
    (lineColumn file.text pos.span.start).map fun at' => ⟨file.name, at'.1, at'.2⟩

end SourceMap

end CalcLang
