import CalcLang.Toml

/-!
# Manifests

A directory may hold a manifest, a TOML document with two tables of interest: `package`, whose
`name` names the package, and `build`, which switches on options of the compilation. Everything
else in it is ignored. Instead of a table either may be written as an array of its fields in
order.

What uses manifests takes the reader as an argument (`Manifest.Parser`). The program has
`Manifest.parse`, which knows why a file could not be read but not what is wrong with a document.
-/

namespace CalcLang

/-- The settings of a manifest. -/
structure Manifest where
  packageName : Option String
  optimize : Bool
  emitOnError : Bool
  deriving DecidableEq, Repr, Inhabited

namespace Manifest

open Toml

/-- The name of the file that holds the manifest of a directory. -/
def fileName : String := "calc.toml"

/-- The text of an item that is a string. -/
def string? : Item → Option String
  | .string text => some text
  | _ => none

/-- The value of an item that is a boolean. A missing one is `false`. -/
def flag? : Option Item → Option Bool
  | none => some false
  | some (.boolean value) => some value
  | some _ => none

/-- The fields of an item, given the names of the fields that count: those of a table by name,
those of an array by place. A date is a table without any of them. -/
def fields? (names : List String) : Item → Option (List (Option Item))
  | .inlineTable entries | .table _ entries => some (names.map fun name => entries.lookup name)
  | .array items => some (names.zipIdx.map fun n => items[n.2]?)
  | .datetime => some (names.map fun _ => none)
  | _ => none

/-- The name of the package, from the item `package`. -/
def packageName? (item : Item) : Option String := do
  match ← fields? ["name"] item with
  | [some name] => string? name
  | _ => none

/-- The options, from the item `build`. -/
def build? (item : Item) : Option (Bool × Bool) := do
  match ← fields? ["optimize", "emit-on-error"] item with
  | [optimize, emitOnError] => return (← flag? optimize, ← flag? emitOnError)
  | _ => none

/-- The manifest with given entries. -/
def ofEntries? (entries : Entries) : Option Manifest := do
  let packageName ← match entries.lookup "package" with
    | none => pure none
    | some item => (packageName? item).map some
  let (optimize, emitOnError) ← match entries.lookup "build" with
    | none => pure (false, false)
    | some item => build? item
  return ⟨packageName, optimize, emitOnError⟩

/-- Why a manifest cannot be used. -/
inductive Problem
  | unreadable (path reason : String)
  | invalid (reason : String)
  deriving DecidableEq, Repr

/-- The text of a problem. -/
def Problem.message : Problem → String
  | unreadable path reason => "Failed to read " ++ path ++ ": " ++ reason
  | invalid reason => "Failed to parse manifest: " ++ reason

/-- A way to read manifests. It gives the settings of a document, or the reason why there are
none. -/
abbrev Parser := String → Except String Manifest

/-- Reads a manifest from a TOML document. -/
def parse : Parser := fun text =>
  match (Toml.parse? text).bind ofEntries? with
  | some manifest => .ok manifest
  | none => .error "not a valid document"

end Manifest

end CalcLang
