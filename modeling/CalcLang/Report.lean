import CalcLang.Diagnostic
import CalcLang.Report.Section
import CalcLang.Text.Json

/-!
# Reports

A diagnostic is shown either as a JSON object on one line (`Report.json`) or as a report for a
human reader (`Report`, with its text in `Report.render`). The JSON form keeps spans as they are.
A report marks a range of the text, so it first clamps the span to its file and, unless the
file ends there, makes it non-empty (`rangeIn`).
-/

namespace CalcLang

/-- What a report says at an earlier declaration of the same name. -/
def previousLabel : String := "previously declared here"

/-- A diagnostic in the form of a report: the title and the sections under it. -/
structure Report where
  title : String
  sections : List Report.Section
  deriving DecidableEq, Repr

namespace Report

/-! ## JSON -/

/-- A span with its location and label. -/
def jsonSpan (sources : SourceMap) (pos : Pos) (label : String) : Except Fault Text.Json :=
  (sources.location pos).map fun l =>
    .object [("file", .str l.file), ("start", .num pos.span.start), ("end", .num pos.span.stop),
      ("line", .num l.line), ("column", .num l.column), ("label", .str label)]

/-- The span of an earlier declaration that a diagnostic refers to. -/
def previous? (kind : Diagnostic.Kind) : Option Pos :=
  match kind with
  | .redeclaration _ previous => some previous
  | _ => none

/-- An error as a JSON object. -/
def jsonError (code message : String) (spans : List Text.Json) (more : List (String × Text.Json)) :
    Text.Json :=
  .object ([("code", .str code), ("severity", .str "error"), ("message", .str message),
    ("spans", .arr spans)] ++ more)

/-- A diagnostic as a JSON object on one line. -/
def json (d : Diagnostic) (sources : SourceMap) : Except Fault String := do
  let location ← sources.location d.pos
  let first ← jsonSpan sources d.pos d.kind.label
  let others ← match previous? d.kind with
    | some previous => (jsonSpan sources previous previousLabel).map fun s => [s]
    | none => pure []
  let message ← d.message?
  .ok (jsonError d.code message (first :: others) [("location", .str location.text)]).compact

/-! ## Ranges -/

/-- The span of a position, clamped to its file and, unless it is at the end of the file, not
empty. -/
def rangeIn (sources : SourceMap) (pos : Pos) : Option (SourceFile × Span) :=
  (sources.get? pos.file).map fun file =>
    let length := file.text.utf8ByteSize
    let start := min pos.span.start length
    let stop := max (min pos.span.stop length) start
    (file, if start = stop then ⟨start, min (stop + 1) length⟩ else ⟨start, stop⟩)

/-! ## Reports for human readers -/

/-- The mark of a position: its range, clamped to the file. -/
def markAt? (sources : SourceMap) (pos : Pos) (label : String) : Option Mark :=
  (rangeIn sources pos).map fun (file, range) => ⟨file.name, range, label⟩

/-- The report of a diagnostic, unless its file is unknown. It marks the position of the diagnostic
and, where there is one, the earlier declaration of the name. -/
def ofDiagnostic? (d : Diagnostic) (sources : SourceMap) : Except Fault (Option Report) :=
  match markAt? sources d.pos d.kind.label with
  | none => .ok none
  | some main => do
    let message ← d.message?
    let earlier := (previous? d.kind).bind fun pos => markAt? sources pos previousLabel
    let found ← findMarks sources (main :: earlier.toList)
    let sections ← sectionsOf main found
    .ok (some ⟨"[" ++ d.code ++ "] Error: " ++ message, sections⟩)

/-- A text in red, if colors are wanted. -/
def red (color : Bool) (text : String) : String :=
  if color then "\x1b[31m" ++ text ++ "\x1b[0m" else text

/-- The lines of a section: its head behind the given corner, and its labels. -/
def Section.lines (corner : String) (s : Section) : List String :=
  ("   " ++ corner ++ "─[ " ++ s.place ++ " ]") :: s.labels.map fun l => "   │ " ++ l

/-- The lines of a report: the title and a box with the sections, if there are any. -/
def render (r : Report) (color : Bool) : List String :=
  red color r.title ::
    match r.sections with
    | [] => []
    | s :: more => s.lines "╭" ++ more.flatMap (·.lines "├") ++ ["───╯"]

/-- The line for a diagnostic in an unknown file. -/
def fallback (d : Diagnostic) (location : Location) : String :=
  "error[" ++ d.code ++ "]: " ++ d.message ++ " (" ++ location.text ++ ")"

/-- The lines that show a diagnostic to a human reader. -/
def lines (d : Diagnostic) (sources : SourceMap) (color : Bool) :
    Except Fault (List String) := do
  let location ← sources.location d.pos
  let report ← ofDiagnostic? d sources
  match report with
  | some r => .ok (r.render color)
  | none =>
    let _ ← d.message?
    .ok [fallback d location]

end Report

end CalcLang
