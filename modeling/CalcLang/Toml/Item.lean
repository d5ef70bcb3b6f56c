/-!
# TOML items

The tree that a TOML document denotes, and the rules by which its lines build it. A table knows
how it came about, since that decides what may still be added to it:

* a header opens a table once, and only if the table was at most implied by the headers of its
  subtables;
* a dotted key adds to tables that dotted keys have made, and to no others;
* what is written as a value is complete.

`Entries.update` is the one walk along a path that all three kinds of line use.
-/

namespace CalcLang.Toml

/-- How a table came about. -/
inductive Origin
  /-- By a header of its own, or as an element of an array of tables. -/
  | header
  /-- By the header of a table inside it. -/
  | implied
  /-- By a dotted key. -/
  | dotted
  deriving DecidableEq, Repr, Inhabited

/-- What a key stands for. Of floats and dates only the kind is kept. -/
inductive Item
  | string (text : String)
  | integer (value : Int)
  | float
  | boolean (value : Bool)
  | datetime
  | array (items : List Item)
  /-- A table that is written as a value. -/
  | inlineTable (entries : List (String × Item))
  | table (origin : Origin) (entries : List (String × Item))
  /-- An array of tables made by headers, in which only the last one can still grow. -/
  | tables (elements : List (List (String × Item)))
  deriving Repr, Inhabited

/-- The entries of a table. -/
abbrev Entries := List (String × Item)

namespace Entries

/-- Gives a key another item, or adds the key behind the others. -/
def put (entries : Entries) (key : String) (item : Item) : Entries :=
  match entries with
  | [] => [(key, item)]
  | (k, old) :: rest => if k = key then (k, item) :: rest else (k, old) :: put rest key item

/-- Adds a key that the table does not have yet. -/
def add? (entries : Entries) (key : String) (item : Item) : Option Entries :=
  match entries.lookup key with
  | some _ => none
  | none => some (entries.put key item)

/-- Changes the table that a path leads to. Tables on the path that do not exist yet are made
with the origin `made`; those that exist have to satisfy `enters`. The change is told the origin
of its table, or `none` if the path is empty. -/
def update (made : Origin) (enters : Origin → Bool)
    (change : Option Origin → Entries → Option Entries) :
    Option Origin → List String → Entries → Option Entries
  | origin, [], entries => change origin entries
  | _, key :: path, entries =>
    match entries.lookup key with
    | none =>
      (update made enters change (some made) path []).map fun inner =>
        entries.put key (.table made inner)
    | some (.table origin inner) =>
      if enters origin then
        (update made enters change (some origin) path inner).map fun inner =>
          entries.put key (.table origin inner)
      else none
    | some (.tables elements) =>
      match elements.getLast? with
      | none => none
      | some last =>
        (update made enters change (some .header) path last).map fun last =>
          entries.put key (.tables (elements.dropLast ++ [last]))
    | some _ => none

/-- Adds an entry below a path of dotted keys. -/
def insert? (path : List String) (key : String) (item : Item) (entries : Entries) :
    Option Entries :=
  entries.update .dotted (· != .header)
    (fun origin table =>
      if origin = none ∨ origin = some .dotted then table.add? key item else none)
    none path

/-- Changes the table that the path of a header leads to. -/
def atHeader? (path : List String) (change : Entries → Option Entries) (entries : Entries) :
    Option Entries :=
  entries.update .implied (fun _ => true) (fun _ => change) none path

/-- Opens the table `key` for a header. -/
def openTable? (key : String) (entries : Entries) : Option Entries :=
  match entries.lookup key with
  | none => some (entries.put key (.table .header []))
  | some (.table .implied inner) => some (entries.put key (.table .header inner))
  | some _ => none

/-- Adds an element to the array of tables `key` for a header. -/
def openElement? (key : String) (entries : Entries) : Option Entries :=
  match entries.lookup key with
  | none => some (entries.put key (.tables [[]]))
  | some (.tables elements) => some (entries.put key (.tables (elements ++ [[]])))
  | some _ => none

end Entries

/-- A key with dots: the keys before the last one, and the last one. -/
structure Key where
  path : List String
  last : String
  deriving DecidableEq, Repr, Inhabited

/-- A line of a document. -/
inductive Line
  | blank
  /-- `key = value` -/
  | entry (key : Key) (item : Item)
  /-- `[key]` -/
  | header (key : Key)
  /-- `[[key]]` -/
  | elementHeader (key : Key)
  deriving Repr, Inhabited

/-- A document up to some line: its entries, and the path of the last header. -/
structure Document where
  root : Entries
  current : List String
  deriving Repr, Inhabited

namespace Document

/-- The document without lines. -/
def empty : Document := ⟨[], []⟩

/-- Adds a line, unless it contradicts the lines before it. -/
def addLine? (d : Document) : Line → Option Document
  | .blank => some d
  | .entry key item =>
    (d.root.atHeader? d.current (Entries.insert? key.path key.last item)).map fun root =>
      { d with root := root }
  | .header key =>
    (d.root.atHeader? key.path (Entries.openTable? key.last)).map fun root =>
      ⟨root, key.path ++ [key.last]⟩
  | .elementHeader key =>
    (d.root.atHeader? key.path (Entries.openElement? key.last)).map fun root =>
      ⟨root, key.path ++ [key.last]⟩

/-- The entries that the lines of a document make. -/
def ofLines? (lines : List Line) : Option Entries :=
  (lines.foldlM addLine? empty).map Document.root

end Document

end CalcLang.Toml
