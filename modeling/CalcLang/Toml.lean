import CalcLang.Toml.Scalar

/-!
# TOML documents

`Toml.parse?` reads a text in the configuration language TOML 1.0: lines that hold entries,
headers of tables, headers of elements of arrays of tables, or nothing. A text that is no such
document, or whose lines contradict each other, has no reading.
-/

namespace CalcLang.Toml

open Reader

/-- An array of values, which may go over several lines. -/
def array (value : Reader Item) : Reader Item := do
  let _ ← char '['
  let items ← optional (separated (char ',') do
    arrayBlanks
    let item ← value
    arrayBlanks
    return item)
  if items.isSome then
    let _ ← optional (char ',')
  arrayBlanks
  let _ ← char ']'
  return .array (items.getD [])

/-- An entry of a table: a key and its value. -/
def entry (value : Reader Item) : Reader (Key × Item) := do
  let key ← key
  let _ ← char '='
  blanks
  let item ← value
  return (key, item)

/-- A table that is written as a value, on one line. -/
def inlineTable (value : Reader Item) : Reader Item := do
  let _ ← char '\x7b'
  let entries ← optional (separated (char ',') do
    let e ← entry value
    blanks
    return e)
  blanks
  let _ ← char '\x7d'
  let table := (entries.getD []).foldlM
    (fun table e => Entries.insert? e.1.path e.1.last e.2 table) ([] : Entries)
  match table with
  | some table => return .inlineTable table
  | none => failure

/-- A value with at most `depth` levels of values inside it. -/
def value : Nat → Reader Item
  | 0 => scalar
  | depth + 1 => scalar <|> array (value depth) <|> inlineTable (value depth)

/-- A line and its end. -/
def line : Reader Line := do
  blanks
  let content ← (do
        literal ['[', '[']
        let k ← key
        literal [']', ']']
        return .elementHeader k)
    <|> (do
        let _ ← char '['
        let k ← key
        let _ ← char ']'
        return .header k)
    <|> (do
        let (k, item) ← entry (value (depthLimit - 1))
        return .entry k item)
    <|> pure .blank
  lineEnd
  return content

/-- The characters of a text without the mark that may stand at its start. -/
def withoutMark (text : String) : List Char :=
  match text.toList with
  | c :: cs => if c.toNat = 0xFEFF then cs else c :: cs
  | [] => []

/-- The entries of a document. -/
def parse? (text : String) : Option Entries :=
  match manyFrom line (withoutMark text) with
  | (lines, []) => Document.ofLines? lines
  | _ => none

end CalcLang.Toml
