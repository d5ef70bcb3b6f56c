import CalcLang.Text.Bytes

/-!
# Lines of a text, as a report counts them

A report for a human reader counts lines by every separator that Unicode knows and columns by
characters. A line owns the separator that ends it, so the place behind the last separator of a
text is still on the last line. Every text has a line, an empty one if it has no characters.
`Text.lineAtByte?` and `Text.lineAtChar?` find the line of an offset.
-/

namespace CalcLang.Text

/-- Whether a character ends a line of a report: line feed, vertical tab, form feed, carriage
return, next line, line separator or paragraph separator. -/
def isLineEnd (c : Char) : Bool :=
  (0x0A ≤ c.toNat && c.toNat ≤ 0x0D) || c.toNat == 0x85 || c.toNat == 0x2028 || c.toNat == 0x2029

/-- Whether the line ends behind `c` when `rest` follows: a carriage return and a line feed are
one separator. -/
def endsLine (c : Char) (rest : List Char) : Bool :=
  isLineEnd c && !(c == '\r' && rest.head? == some '\n')

/-- The lines of some characters, each with the separator that ends it. -/
def splitLines : List Char → List (List Char)
  | [] => []
  | c :: rest =>
    if endsLine c rest then [c] :: splitLines rest
    else
      match splitLines rest with
      | [] => [[c]]
      | line :: lines => (c :: line) :: lines

/-- A line of a text. -/
structure Line where
  /-- The place of the line among the lines of the text, counted from 1. -/
  number : Nat
  /-- The number of characters in front of the line. -/
  start : Nat
  /-- The number of bytes in front of the line. -/
  startByte : Nat
  /-- The characters of the line, with the separator that ends it. -/
  chars : List Char
  deriving DecidableEq, Repr, Inhabited

namespace Line

/-- The number of characters in front of the end of a line. -/
def stop (l : Line) : Nat := l.start + l.chars.length

/-- Whether an offset in characters is on a line. -/
def contains (l : Line) (offset : Nat) : Bool := l.start ≤ offset && offset < l.stop

/-- The number of characters of a text in front of a byte of a line. A byte behind the line counts
as its end. -/
def charsBefore (l : Line) (byte : Nat) : Except Fault Nat :=
  (takeBytes (min (byte - l.startByte) (byteLength l.chars)) l.chars).map fun cs =>
    l.start + cs.length

end Line

/-- Puts lines behind the first lines of a text, which have the given sizes. -/
def placeLines (number start startByte : Nat) : List (List Char) → List Line
  | [] => []
  | cs :: more =>
    ⟨number, start, startByte, cs⟩ ::
      placeLines (number + 1) (start + cs.length) (startByte + byteLength cs) more

/-- The lines of a text. -/
def linesOf (text : String) : List Line :=
  placeLines 1 0 0 (if text.isEmpty then [[]] else splitLines text.toList)

/-- The line of an offset in bytes, unless the text is shorter. -/
def lineAtByte? (text : String) (offset : Nat) : Option Line :=
  if offset ≤ text.utf8ByteSize then (linesOf text).findRev? fun l => l.startByte ≤ offset
  else none

/-- The line of an offset in characters, unless the text is shorter. -/
def lineAtChar? (text : String) (offset : Nat) : Option Line :=
  if offset ≤ text.length then (linesOf text).findRev? fun l => l.start ≤ offset else none

end CalcLang.Text
