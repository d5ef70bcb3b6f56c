import CalcLang.SourceMap
import CalcLang.Text.Lines

/-!
# Sections of a report

A report marks ranges of texts and says something about each. It knows a text by the name of its
file only, as `SourceMap.lookup?` does: when several files share a name, a mark in any of them is
looked for in the latest. `Mark.place` finds a mark there; a mark that reaches behind the end of
the text is left out. The marks in one file make a section of the report, with a head that names a
place and the labels of the marks.

A mark is short when it is on one line and long when it spans several. A short mark has its label
under its line. A long mark has it where it ends, next to the bracket drawn beside the text. One
line has room for one such bracket, so a label may be left out where two long marks meet.
-/

namespace CalcLang.Report

/-- A range of bytes of a file, and what is said about it. -/
structure Mark where
  file : String
  range : Span
  label : String
  deriving DecidableEq, Repr

/-- A mark in a text: its range in characters and the numbers of its first and last line. -/
structure PlacedMark where
  label : String
  range : Span
  firstLine : Nat
  lastLine : Nat
  deriving DecidableEq, Repr, Inhabited

namespace PlacedMark

/-- Whether a mark spans several lines. -/
def isLong (m : PlacedMark) : Bool := m.firstLine != m.lastLine

/-- The last character of a mark, or the place of a mark without characters. -/
def lastChar (m : PlacedMark) : Nat := max (m.range.stop - 1) m.range.start

end PlacedMark

/-- Finds a mark in a text, unless it reaches behind the end. Both ends of the mark have to be
between characters. -/
def Mark.place (m : Mark) (text : String) : Except Fault (Option PlacedMark) :=
  match Text.lineAtByte? text m.range.start with
  | none => .ok none
  | some first => do
    let start ← first.charsBefore m.range.start
    if m.range.stop ≤ m.range.start then
      .ok (some ⟨m.label, ⟨start, start⟩, first.number, first.number⟩)
    else
      match Text.lineAtByte? text (m.range.stop - 1) with
      | none => .ok none
      | some last => do
        let before ← Text.takeBytes (m.range.stop - last.startByte) last.chars
        .ok (some ⟨m.label, ⟨start, last.start + before.length⟩, first.number, last.number⟩)

/-! ## Brackets -/

/-- The bracket of a long mark where it meets a line: its column, the mark, and whether the mark
ends there. -/
structure Bracket where
  column : Nat
  mark : PlacedMark
  ends : Bool
  deriving DecidableEq, Repr

/-- The bracket of a long mark on a line, if the mark starts or ends there. -/
def PlacedMark.bracket? (m : PlacedMark) (line : Text.Line) : Option Bracket :=
  if line.contains m.range.start then some ⟨m.range.start - line.start, m, false⟩
  else if line.contains m.lastChar then some ⟨m.lastChar - line.start, m, true⟩
  else none

/-- Whether a bracket is drawn rather than another on the same line: the leftmost one goes first,
of two in one column the one of the mark that starts later. -/
def Bracket.precedes (a b : Bracket) : Bool :=
  a.column < b.column || (a.column == b.column && b.mark.range.start < a.mark.range.start)

/-- The bracket that is drawn among some brackets; of equal ones the first. -/
def Bracket.choose : List Bracket → Option Bracket
  | [] => none
  | b :: bs => some (bs.foldl (fun best b => if b.precedes best then b else best) b)

/-- The long marks among some marks, the longest first. -/
def longMarks (marks : List PlacedMark) : List PlacedMark :=
  (marks.filter PlacedMark.isLong).mergeSort fun a b =>
    b.range.stop - b.range.start ≤ a.range.stop - a.range.start

/-- The bracket that is drawn beside a line. -/
def bracketBeside (marks : List PlacedMark) (line : Text.Line) : Option Bracket :=
  Bracket.choose ((longMarks marks).filterMap fun m => m.bracket? line)

/-! ## Labels -/

/-- The labels at a line: that of the long mark whose bracket ends there, and those of the short
marks on it. A mark without characters between two lines is on both. -/
def labelsAt (marks : List PlacedMark) (line : Text.Line) : List String :=
  (match bracketBeside marks line with
    | some b => if b.ends then [b.mark.label] else []
    | none => []) ++
  (marks.filter fun m =>
    !m.isLong && line.start ≤ m.range.start && m.range.stop ≤ line.stop).map (·.label)

/-- The characters that some marks span together. -/
def spanned : List PlacedMark → Span
  | [] => ⟨0, 0⟩
  | m :: ms => ms.foldl (fun span m => span.cover m.range) m.range

/-- The lines of a text that a section of some marks shows. -/
def linesShown (text : String) (marks : List PlacedMark) : List Text.Line :=
  let span := spanned marks
  match Text.lineAtChar? text span.start,
    Text.lineAtChar? text (max (span.stop - 1) span.start) with
  | some first, some last =>
    (Text.linesOf text).filter fun l => first.number ≤ l.number && l.number ≤ last.number
  | _, _ => []

/-! ## Sections -/

/-- A section of a report: the place that its head names and its labels from top to bottom. -/
structure Section where
  place : String
  labels : List String
  deriving DecidableEq, Repr, Inhabited

/-- The head for an offset in a file: file, line and column, with question marks for the last two
when the offset is behind the end of the text. -/
def placeText (file text : String) (offset : Nat) : Except Fault String :=
  match Text.lineAtByte? text offset with
  | none => .ok (file ++ ":?:?")
  | some line => do
    let before ← line.charsBefore offset
    .ok (file ++ s!":{line.number}:{before - line.start + 1}")

/-- The section of the marks in one file. The head of the file that the report is about names the
start of the report's own range. The head of another file names the start of its first mark, whose
number of characters is taken for an offset in bytes. -/
def Section.ofMarks (main : Mark) (file text : String) (marks : List PlacedMark) :
    Except Fault Section := do
  let offset := if file == main.file then main.range.start
    else (marks.head?.map (·.range.start)).getD 0
  let place ← placeText file text offset
  .ok ⟨place, (linesShown text marks).flatMap (labelsAt marks)⟩

/-- The text that a report shows under the name of a file. -/
def textNamed? (sources : SourceMap) (file : String) : Option String :=
  ((sources.lookup? file).bind sources.get?).map (·.text)

/-- A placed mark with its file and the text of the file. -/
structure FoundMark where
  file : String
  text : String
  mark : PlacedMark
  deriving DecidableEq, Repr

/-- Finds a mark in the sources. -/
def Mark.find (m : Mark) (sources : SourceMap) : Except Fault (Option FoundMark) :=
  match textNamed? sources m.file with
  | none => .ok none
  | some text => (m.place text).map fun placed => placed.map fun p => ⟨m.file, text, p⟩

/-- The marks of a list that are found in the sources. -/
def findMarks (sources : SourceMap) : List Mark → Except Fault (List FoundMark)
  | [] => .ok []
  | m :: ms => do
    let found ← m.find sources
    let others ← findMarks sources ms
    .ok (found.toList ++ others)

/-- One section for each file in which marks were found, in the order of the marks. -/
def sectionsOf (main : Mark) (marks : List FoundMark) : Except Fault (List Section) :=
  let firsts := (marks.map fun m => (m.file, m.text)).eraseDups
  firsts.mapM fun f =>
    Section.ofMarks main f.1 f.2 ((marks.filter fun m => m.file == f.1).map (·.mark))

end CalcLang.Report
