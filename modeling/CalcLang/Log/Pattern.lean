import CalcLang.Text.Alphanumeric
import CalcLang.Text.Blank

/-!
# Patterns

A log filter may ask for a field whose value matches a pattern, which is a regular expression.
The compiler has no values to match, but a filter with a malformed pattern is refused.
`Pattern.isValid` decides which texts are patterns. They have

* characters, `.`, `^`, `$`, alternatives `|`, groups, and the repetitions `?`, `*` and `+`, which
  may be stacked and, each with a further `?`, made lazy;
* sets in brackets, which may be nested, negated, combined by `&&`, `--` and `~~`, and contain
  ranges and the named sets of ASCII;
* escapes for characters that would have a meaning, for control characters, for code points and for
  the start and the end of the text;
* groups with a name, groups with flags, and flags for the rest of a group.

No tables of Unicode properties come with the patterns. What would need one is malformed: `\w` and
its kin, the edges of words, and all letter matching that ignores case, unless the flag `u` is off.
With `u` off, nothing may match half of a character. A pattern stands in braces, so it contains no
closing brace, and what would need one (a counted repetition, say) is malformed as well.
-/

namespace CalcLang.Log.Pattern

/-! ## Modes -/

/-- The flags that decide whether a pattern is well-formed. -/
structure Mode where
  /-- Flag `i`: letters match regardless of case. -/
  ignoreCase : Bool
  /-- Flag `u`: what is matched is characters, not bytes. -/
  unicode : Bool
  /-- Flag `x`: blanks and comments in the pattern mean nothing. -/
  verbose : Bool
  deriving DecidableEq, Repr, Inhabited

namespace Mode

/-- The flags at the start of a pattern. -/
def initial : Mode := ⟨false, true, false⟩

/-- Turns a flag on or off. -/
def set (m : Mode) (flag : Char) (on : Bool) : Mode :=
  if flag = 'i' then { m with ignoreCase := on }
  else if flag = 'u' then { m with unicode := on }
  else if flag = 'x' then { m with verbose := on }
  else m

/-- Leaves out blanks and comments. A comment goes up to the end of its line. -/
def skipFrom (inComment : Bool) : List Char → List Char
  | [] => []
  | c :: cs =>
    if inComment then skipFrom (c != '\n') cs
    else if Text.isBlank c then skipFrom false cs
    else if c = '#' then skipFrom true cs
    else c :: cs

/-- Leaves out what means nothing. -/
def skip (m : Mode) (cs : List Char) : List Char := if m.verbose then skipFrom false cs else cs

/-- Whether a character may stand for itself. `isByte` says that it is written as a byte. -/
def admits (m : Mode) (c : Char) (isByte : Bool) : Bool :=
  if m.unicode then !m.ignoreCase else !isByte || c.toNat < 0x80

/-- Whether a character may stand for itself in a set. -/
def admitsInSet (m : Mode) (c : Char) : Bool := m.unicode || c.toNat < 0x80

end Mode

/-! ## Escapes -/

/-- What an escape stands for. -/
inductive Escape
  /-- A character, perhaps written as a byte. -/
  | char (c : Char) (isByte : Bool)
  /-- All digits, blanks or word characters, or all other characters. -/
  | property (negated : Bool)
  /-- The start or the end of the text. -/
  | textEdge
  /-- A place where a word starts or ends, or where none does. -/
  | wordEdge
  deriving DecidableEq, Repr

/-- The value of a hexadecimal digit. -/
def hexValue? (c : Char) : Option Nat :=
  if '0' ≤ c && c ≤ '9' then some (c.toNat - '0'.toNat)
  else if 'a' ≤ c && c ≤ 'f' then some (c.toNat - 'a'.toNat + 10)
  else if 'A' ≤ c && c ≤ 'F' then some (c.toNat - 'A'.toNat + 10)
  else none

/-- Reads a number of hexadecimal digits behind a value. -/
def hexDigits? (m : Mode) (value : Nat) : Nat → List Char → Option (Nat × List Char)
  | 0, cs => some (value, cs)
  | count + 1, cs =>
    match m.skip cs with
    | [] => none
    | c :: rest => (hexValue? c).bind fun d => hexDigits? m (16 * value + d) count rest

/-- Reads the code point of a character in a number of hexadecimal digits. -/
def codePoint? (m : Mode) (digits : Nat) (cs : List Char) : Option (Escape × List Char) :=
  match hexDigits? m 0 digits cs with
  | none => none
  | some (n, rest) =>
    if h : n.isValidChar then some (.char (Char.ofNatAux n h) (digits == 2), rest) else none

/-- The control character that a letter stands for in an escape. -/
def control? (c : Char) : Option Char :=
  if c = 'a' then some '\x07'
  else if c = 'f' then some '\x0c'
  else if c = 't' then some '\t'
  else if c = 'n' then some '\n'
  else if c = 'r' then some '\r'
  else if c = 'v' then some '\x0b'
  else none

/-- Whether an escape may turn a character into itself: all of ASCII but letters, digits and the
angle brackets. -/
def isEscapable (c : Char) : Bool :=
  c.toNat < 0x80 && !c.isAlphanum && c != '<' && c != '>'

/-- Reads an escape behind its backslash. -/
def escape? (m : Mode) : List Char → Option (Escape × List Char)
  | [] => none
  | c :: rest =>
    if isEscapable c then some (.char c false, rest)
    else if c = 'x' then codePoint? m 2 rest
    else if c = 'u' then codePoint? m 4 rest
    else if c = 'U' then codePoint? m 8 rest
    else if c = 'd' || c = 's' || c = 'w' then some (.property false, rest)
    else if c = 'D' || c = 'S' || c = 'W' then some (.property true, rest)
    else if c = 'A' || c = 'z' then some (.textEdge, rest)
    else if c = 'b' || c = 'B' || c = '<' || c = '>' then some (.wordEdge, rest)
    else (control? c).map fun c => (.char c false, rest)

/-- Whether an escape may stand by itself. -/
def Escape.isAdmitted (m : Mode) : Escape → Bool
  | .char c isByte => m.admits c isByte
  | .property negated => !m.unicode && !negated
  | .textEdge => true
  | .wordEdge => !m.unicode

/-- Whether an escape may stand in a set. -/
def Escape.isAdmittedInSet (m : Mode) : Escape → Bool
  | .char c _ => m.admitsInSet c
  | .property negated => !m.unicode && !negated
  | .textEdge => false
  | .wordEdge => false

/-! ## Sets -/

/-- The named sets of ASCII. -/
def setNames : List String :=
  ["alnum", "alpha", "ascii", "blank", "cntrl", "digit", "graph", "lower", "print", "punct",
    "space", "upper", "word", "xdigit"]

/-- Reads the name of a set, between colons in brackets, behind the opening bracket. Gives whether
the set is negated. -/
def namedSet? : List Char → Option (Bool × List Char)
  | ':' :: cs =>
    let negated := cs.head? == some '^'
    let name := if negated then cs.tail else cs
    match name.dropWhile (· != ':') with
    | ':' :: ']' :: rest =>
      if setNames.contains (String.ofList (name.takeWhile (· != ':'))) then some (negated, rest)
      else none
    | _ => none
  | _ => none

/-- Leaves out the minus signs at the start of a set, which stand for themselves. -/
def skipMinuses (m : Mode) : List Char → List Char
  | [] => []
  | c :: cs => if c = '-' || (m.verbose && Text.isBlank c) then skipMinuses m cs else c :: cs

/-- Reads the start of a set behind its opening bracket: a sign of negation, and a closing bracket
that stands for itself. -/
def setStart? (m : Mode) (cs : List Char) : Option (List Char) :=
  let start := m.skip cs
  let negated := start.head? == some '^'
  let items := if negated then m.skip start.tail else start
  if negated && !m.unicode then none
  else
    match items with
    | '-' :: _ => some (skipMinuses m items)
    | ']' :: rest => some rest
    | _ => some items

/-- Reads a member of a set. -/
def setMember? (m : Mode) : List Char → Option (Escape × List Char)
  | [] => none
  | '\\' :: rest => escape? m rest
  | c :: rest => some (.char c false, rest)

/-- Whether two members may be the ends of a range. -/
def isRange (m : Mode) : Escape → Escape → Bool
  | .char low _, .char high _ => low ≤ high && m.admitsInSet low && m.admitsInSet high
  | _, _ => false

/-- Reads a member or a range of a set. A minus sign in front of a closing bracket or of another
minus sign makes no range. -/
def setItem? (m : Mode) (cs : List Char) : Option (List Char) :=
  (setMember? m cs).bind fun (low, rest) =>
    let single := if low.isAdmittedInSet m then some rest else none
    match m.skip rest with
    | '-' :: more =>
      match m.skip more with
      | ']' :: _ => single
      | '-' :: _ => single
      | ending =>
        (setMember? m ending).bind fun (high, rest) =>
          if isRange m low high then some rest else none
    | _ => single

/-- Reads the rest of a set up to its closing bracket, inside `depth` further sets. The first number
bounds the steps. -/
def setRest? (m : Mode) : Nat → Nat → List Char → Option (List Char)
  | 0, _, _ => none
  | fuel + 1, depth, cs =>
    match m.skip cs with
    | [] => none
    | ']' :: rest =>
      match depth with
      | 0 => some rest
      | depth + 1 => setRest? m fuel depth rest
    | '[' :: rest =>
      match namedSet? rest with
      | some (negated, rest) => if negated && !m.unicode then none else setRest? m fuel depth rest
      | none => (setStart? m rest).bind fun rest => setRest? m fuel (depth + 1) rest
    | '&' :: '&' :: rest => setRest? m fuel depth rest
    | '-' :: '-' :: rest => setRest? m fuel depth rest
    | '~' :: '~' :: rest => setRest? m fuel depth rest
    | cs => (setItem? m cs).bind fun rest => setRest? m fuel depth rest

/-- Reads a set behind its opening bracket. -/
def set? (m : Mode) (cs : List Char) : Option (List Char) :=
  if m.unicode && m.ignoreCase then none
  else (setStart? m cs).bind fun rest => setRest? m (cs.length + 1) 0 rest

/-! ## Groups -/

/-- What is known in the middle of a pattern. -/
structure State where
  mode : Mode
  /-- The modes to go back to at the ends of the open groups, the innermost first. -/
  outer : List Mode
  /-- The names of groups so far. -/
  names : List (List Char)
  /-- Whether there is something in front that can be repeated. -/
  repeatable : Bool
  deriving DecidableEq, Repr

/-- Opens a group. -/
def State.enter (s : State) (mode : Mode) : State :=
  { s with mode := mode, outer := s.mode :: s.outer, repeatable := false }

/-- Whether a text may be the name of a group. -/
def isGroupName : List Char → Bool
  | [] => false
  | c :: cs =>
    (c == '_' || Text.isAlphabetic c) &&
      cs.all fun c => c == '_' || c == '.' || c == '[' || c == ']' || Text.isAlphanumeric c

/-- Opens a group whose name follows. -/
def namedGroup? (s : State) (cs : List Char) : Option (State × List Char) :=
  let name := cs.takeWhile (· != '>')
  match cs.dropWhile (· != '>') with
  | [] => none
  | _ :: rest =>
    if isGroupName name && !s.names.contains name then
      some ({ s.enter s.mode with names := name :: s.names }, rest)
    else none

/-- Whether a text may be a list of flags: no flag and no minus sign occurs twice, and something
follows the minus sign. -/
def areFlags : List Char → Bool
  | [] => true
  | c :: cs =>
    ['i', 'm', 's', 'U', 'u', 'R', 'x', '-'].contains c && !cs.contains c &&
      !(c == '-' && cs.isEmpty) && areFlags cs

/-- Sets flags. Those behind the minus sign are turned off. -/
def setFlags (m : Mode) (flags : List Char) : Mode :=
  let on := (flags.takeWhile (· != '-')).foldl (fun m c => m.set c true) m
  (flags.dropWhile (· != '-')).foldl (fun m c => m.set c false) on

/-- Reads flags and what they are for: the group that starts behind a colon, or else the rest of the
group that they are in. -/
def flags? (s : State) (cs : List Char) : Option (State × List Char) :=
  let isFlag (c : Char) : Bool := c != ':' && c != ')'
  let flags := cs.takeWhile isFlag
  if !areFlags flags then none
  else
    let mode := setFlags s.mode flags
    match cs.dropWhile isFlag with
    | ':' :: rest => some (s.enter mode, rest)
    | ')' :: rest =>
      if flags.isEmpty then none else some ({ s with mode := mode, repeatable := false }, rest)
    | _ => none

/-- Reads the start of a group behind its opening parenthesis. A group cannot look around. -/
def group? (s : State) (cs : List Char) : Option (State × List Char) :=
  match s.mode.skip cs with
  | '?' :: '=' :: _ => none
  | '?' :: '!' :: _ => none
  | '?' :: '<' :: '=' :: _ => none
  | '?' :: '<' :: '!' :: _ => none
  | '?' :: 'P' :: '<' :: rest => namedGroup? s rest
  | '?' :: '<' :: rest => namedGroup? s rest
  | '?' :: rest => flags? s rest
  | rest => some (s.enter s.mode, rest)

/-! ## Patterns -/

/-- Goes on behind something that can be repeated. -/
def State.behindItem (s : State) (rest : List Char) : State × List Char :=
  ({ s with repeatable := true }, rest)

/-- Leaves out the sign of a lazy repetition. -/
def dropLazy : List Char → List Char
  | '?' :: cs => cs
  | cs => cs

/-- Reads one item of a pattern. -/
def step (s : State) (c : Char) (rest : List Char) : Option (State × List Char) :=
  if c = '(' then group? s rest
  else if c = ')' then
    match s.outer with
    | [] => none
    | mode :: outer => some ({ s with mode := mode, outer := outer }.behindItem rest)
  else if c = '|' then some ({ s with repeatable := false }, rest)
  else if c = '[' then (set? s.mode rest).map s.behindItem
  else if c = '?' || c = '*' || c = '+' then
    if s.repeatable then some (s, dropLazy rest) else none
  else if c = '\x7b' then none
  else if c = '\\' then
    (escape? s.mode rest).bind fun (e, rest) =>
      if e.isAdmitted s.mode then some (s.behindItem rest) else none
  else if c = '.' then if s.mode.unicode then some (s.behindItem rest) else none
  else if c = '^' || c = '$' then some (s.behindItem rest)
  else if s.mode.admits c false then some (s.behindItem rest)
  else none

/-- Whether the rest of a pattern is well-formed. The number bounds the steps. -/
def restIsValid : Nat → State → List Char → Bool
  | 0, _, _ => false
  | fuel + 1, s, cs =>
    match s.mode.skip cs with
    | [] => s.outer.isEmpty
    | c :: rest =>
      match step s c rest with
      | some (s, rest) => restIsValid fuel s rest
      | none => false

/-- Whether a text is a pattern. -/
def isValid (text : List Char) : Bool :=
  restIsValid (text.length + 1) ⟨.initial, [], [], false⟩ text

end CalcLang.Log.Pattern
