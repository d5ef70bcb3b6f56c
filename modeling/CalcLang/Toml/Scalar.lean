import CalcLang.Toml.Item
import CalcLang.Toml.Reader

/-!
# TOML scalars

Readers for blanks, comments, keys, strings, numbers, dates and booleans. Control characters are
allowed nowhere but for tabs and the ends of lines. Integers fit into 64 bits with a sign, a float
must not overflow upwards, and dates exist in the calendar.
-/

namespace CalcLang.Toml

open Reader

/-! ## Blanks, line ends and comments -/

/-- Whether a character is a blank inside a line. -/
def isInlineBlank (c : Char) : Bool := c == ' ' || c == '\t'

/-- Whether a character may stand in a comment. -/
def isCommentChar (c : Char) : Bool := c == '\t' || (0x20 ≤ c.toNat && c.toNat != 0x7F)

/-- Blanks inside a line. -/
def blanks : Reader Unit := do
  let _ ← takeWhile isInlineBlank

/-- The end of a line that is not the last one. -/
def newline : Reader Unit := literal ['\n'] <|> literal ['\r', '\n']

/-- A comment, without the end of its line. -/
def comment : Reader Unit := do
  let _ ← char '#'
  let _ ← takeWhile isCommentChar

/-- What may follow on a line that is complete, and the end of the line. -/
def lineEnd : Reader Unit := do
  blanks
  let _ ← optional comment
  newline <|> eof

/-- Blanks, line ends and comments inside an array. -/
def arrayBlanks : Reader Unit := do
  let _ ← many ((do let _ ← takeSome isInlineBlank) <|> newline <|> (do comment; newline))

/-! ## Strings -/

/-- The value of a hexadecimal digit. -/
def hexValue (c : Char) : Nat :=
  if c.isDigit then c.toNat - '0'.toNat else c.toLower.toNat - 'a'.toNat + 10

/-- Whether a character is a hexadecimal digit. -/
def isHexDigit (c : Char) : Bool :=
  c.isDigit || ('a' ≤ c.toLower && c.toLower ≤ 'f')

/-- The number that digits denote in a base. -/
def number (base : Nat) (digits : List Char) : Nat :=
  digits.foldl (fun n c => base * n + hexValue c) 0

/-- The character whose number has the given count of hexadecimal digits. -/
def codePoint (count : Nat) : Reader Char := fun cs =>
  let digits := (cs.take count).takeWhile isHexDigit
  let n := number 16 digits
  if digits.length = count ∧ n.isValidChar then some (Char.ofNat n, cs.drop count) else none

/-- What follows the backslash of an escape. -/
def escape : Reader Char := do
  match ← satisfy fun _ => true with
  | 'b' => return '\x08'
  | 't' => return '\t'
  | 'n' => return '\n'
  | 'f' => return '\x0c'
  | 'r' => return '\r'
  | '"' => return '"'
  | '\\' => return '\\'
  | 'u' => codePoint 4
  | 'U' => codePoint 8
  | _ => failure

/-- Whether a character stands for itself in a string with escapes. -/
def isPlainChar (c : Char) : Bool := isCommentChar c && c != '"' && c != '\\'

/-- Whether a character stands for itself in a string without escapes. -/
def isLiteralChar (c : Char) : Bool := isCommentChar c && c != '\x27'

/-- A backslash and its escape. -/
def escaped : Reader Char := do
  let _ ← char '\\'
  escape

/-- A string with escapes on one line. -/
def basicString : Reader String := do
  let _ ← char '"'
  let cs ← many (satisfy isPlainChar <|> escaped)
  let _ ← char '"'
  return String.ofList cs

/-- A string without escapes on one line. -/
def literalString : Reader String := do
  let _ ← char '\x27'
  let cs ← takeWhile isLiteralChar
  let _ ← char '\x27'
  return String.ofList cs

/-- One or two quotes in a string of several lines, if no further quote follows. -/
def innerQuotes (quote : Char) : Reader (List Char) := do
  let quotes ← takeSome (· == quote)
  require (quotes.length ≤ 2)
  return quotes

/-- The three quotes that close a string of several lines, and up to two quotes before them that
belong to the string. -/
def closingQuotes (quote : Char) : Reader (List Char) := fun cs =>
  let count := (cs.takeWhile (· == quote)).length
  if count < 3 then none
  else
    let inside := min (count - 3) 2
    some (List.replicate inside quote, cs.drop (inside + 3))

/-- A string of several lines made of pieces. A line end behind the opening quotes does not
count. -/
def multiline (quote : Char) (piece : Reader (List Char)) : Reader String := do
  literal [quote, quote, quote]
  let _ ← optional newline
  let pieces ← many (piece <|> innerQuotes quote)
  let last ← closingQuotes quote
  return String.ofList (pieces.flatten ++ last)

/-- A line end in a string of several lines. -/
def newlineText : Reader (List Char) := do
  newline
  return ['\n']

/-- A backslash at the end of a line, with all blanks and line ends behind it. -/
def continuation : Reader (List Char) := do
  let _ ← char '\\'
  blanks
  newline
  let _ ← many ((do let _ ← takeSome isInlineBlank) <|> newline)
  return []

/-- A string. -/
def string : Reader String :=
  multiline '"' (takeSome isPlainChar <|> newlineText <|> continuation <|> do return [← escaped])
    <|> basicString
    <|> multiline '\x27' (takeSome isLiteralChar <|> newlineText)
    <|> literalString

/-! ## Keys -/

/-- Whether a character may stand in a key without quotes. -/
def isBareKeyChar (c : Char) : Bool := c.isAlphanum || c == '-' || c == '_'

/-- A key without dots. -/
def simpleKey : Reader String :=
  basicString <|> literalString <|> do return String.ofList (← takeSome isBareKeyChar)

/-- The depth that keys and values must not reach. -/
def depthLimit : Nat := 80

/-- A key with dots. -/
def key : Reader Key := do
  let parts ← separated (char '.') do
    blanks
    let part ← simpleKey
    blanks
    return part
  require (parts.length < depthLimit)
  match parts.getLast? with
  | some last => return ⟨parts.dropLast, last⟩
  | none => failure

/-! ## Numbers -/

/-- Digits, which may have an underscore between any two of them. -/
def digits (isDigit : Char → Bool) : Reader (List Char) := do
  let first ← satisfy isDigit
  let others ← many (satisfy isDigit <|> do
    let _ ← char '_'
    satisfy isDigit)
  return first :: others

/-- A sign; says whether it is a minus. -/
def sign : Reader Bool := do
  match ← optional (satisfy fun c => c == '+' || c == '-') with
  | some c => return c == '-'
  | none => return false

/-- A sign and decimal digits without leading zeros. -/
def decimal : Reader (Bool × List Char) := do
  let negative ← sign
  let ds ← (do
      let zero ← char '0'
      return [zero])
    <|> digits Char.isDigit
  return (negative, ds)

/-- An integer that fits into 64 bits with a sign. -/
def fitted (n : Int) : Reader Item := do
  require (-9223372036854775808 ≤ n && n ≤ 9223372036854775807)
  return .integer n

/-- An integer in a base other than ten. -/
def based (mark : Char) (base : Nat) (isDigit : Char → Bool) : Reader Item := do
  literal ['0', mark]
  let ds ← digits isDigit
  fitted (number base ds)

/-- An integer. -/
def integer : Reader Item :=
  based 'x' 16 isHexDigit
    <|> based 'o' 8 (fun c => '0' ≤ c && c ≤ '7')
    <|> based 'b' 2 (fun c => c == '0' || c == '1')
    <|> do
      let (negative, ds) ← decimal
      fitted (if negative then -(number 10 ds : Int) else number 10 ds)

/-- Whether `significand * 10 ^ exponent` rounds to infinity as a float of 64 bits. -/
def overflows (significand : Nat) (exponent : Int) : Bool :=
  let magnitude := (Nat.toDigits 10 significand).length + exponent
  let bound := Nat.pow 2 1024 - Nat.pow 2 970
  if significand = 0 ∨ magnitude < 300 then false
  else if 320 < magnitude then true
  else if 0 ≤ exponent then bound ≤ significand * Nat.pow 10 exponent.toNat
  else bound * Nat.pow 10 (-exponent).toNat ≤ significand

/-- The digits behind a decimal point. -/
def fraction : Reader (List Char) := do
  let _ ← char '.'
  digits Char.isDigit

/-- The exponent of a float. -/
def exponent : Reader Int := do
  let _ ← satisfy fun c => c == 'e' || c == 'E'
  let negative ← sign
  let ds ← digits Char.isDigit
  return if negative then -(number 10 ds : Int) else number 10 ds

/-- A float with a fraction or an exponent. -/
def decimalFloat : Reader Item := do
  let (negative, whole) ← decimal
  let behind ← optional fraction
  let scale ← optional exponent
  require (behind.isSome || scale.isSome)
  let places := behind.getD []
  require (negative || !overflows (number 10 (whole ++ places)) (scale.getD 0 - places.length))
  return .float

/-- A float. -/
def float : Reader Item :=
  decimalFloat <|> do
    let _ ← sign
    literal ['i', 'n', 'f'] <|> literal ['n', 'a', 'n']
    return .float

/-! ## Dates -/

/-- A number of exactly `count` digits. -/
def fixedNumber (count : Nat) : Reader Nat := fun cs =>
  let ds := (cs.take count).takeWhile Char.isDigit
  if ds.length = count then some (number 10 ds, cs.drop count) else none

/-- The number of days of a month. -/
def daysInMonth (year month : Nat) : Nat :=
  if month = 2 then
    if year % 4 = 0 ∧ (year % 100 ≠ 0 ∨ year % 400 = 0) then 29 else 28
  else if month = 4 ∨ month = 6 ∨ month = 9 ∨ month = 11 then 30
  else 31

/-- A day of the calendar. -/
def date : Reader Unit := do
  let year ← fixedNumber 4
  let _ ← char '-'
  let month ← fixedNumber 2
  require (1 ≤ month && month ≤ 12)
  let _ ← char '-'
  let day ← fixedNumber 2
  require (1 ≤ day && day ≤ daysInMonth year month)

/-- Hour and minute. -/
def hourMinute : Reader Unit := do
  let hour ← fixedNumber 2
  require (hour ≤ 23)
  let _ ← char ':'
  let minute ← fixedNumber 2
  require (minute ≤ 59)

/-- A time of the day. -/
def time : Reader Unit := do
  hourMinute
  let _ ← char ':'
  let second ← fixedNumber 2
  require (second ≤ 60)
  let _ ← optional do
    let _ ← char '.'
    takeSome Char.isDigit

/-- An offset from universal time. -/
def offset : Reader Unit :=
  (do let _ ← satisfy fun c => c == 'Z' || c == 'z') <|> do
    let _ ← satisfy fun c => c == '+' || c == '-'
    hourMinute

/-- A date, a time, or both. -/
def datetime : Reader Item := do
  (do
      date
      let _ ← optional do
        let _ ← satisfy fun c => c == 'T' || c == 't' || c == ' '
        time
        optional offset)
    <|> time
  return .datetime

/-! ## All scalars -/

/-- A boolean. -/
def boolean : Reader Item :=
  (do
      literal ['t', 'r', 'u', 'e']
      return .boolean true)
    <|> do
      literal ['f', 'a', 'l', 's', 'e']
      return .boolean false

/-- A value without parts. -/
def scalar : Reader Item :=
  (do return .string (← string)) <|> boolean <|> datetime <|> float <|> integer

end CalcLang.Toml
