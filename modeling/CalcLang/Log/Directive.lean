import CalcLang.Log.Event
import CalcLang.Log.Pattern
import CalcLang.Text.Bytes

/-!
# Directives of log filters

A directive such as `debug`, `calc_ir=debug` or `calc_ir[{path}]=off` sets a level for some events:
those whose target starts with a given text and that have a given field. What stands in brackets
may also name a span that the event has to be in, or a value that the field must have. The
compiler opens no spans and only spans have values to compare, so such a directive is about no
event; but it has to be well-formed.

A directive may have blanks around it. They are read in an odd way: the places of the signs in a
directive are counted without them, while its parts are cut from the text with them. So a directive
with a blank in front is about other events than one without.
-/

namespace CalcLang.Log

/-- A rule of a filter. -/
structure Directive where
  /-- What the target of an event has to start with. -/
  target : Option (List Char)
  /-- The field that an event has to have. -/
  field : Option String
  /-- Whether the rule is about spans or about values of fields, and so about no event. -/
  ofSpans : Bool
  /-- The rank of the last level that is shown, where 0 shows nothing. -/
  rank : Nat
  deriving DecidableEq, Repr, Inhabited

namespace Directive

/-- Whether a directive is about an event. -/
def isAbout (d : Directive) (e : Event) : Bool :=
  !d.ofSpans && d.target.all (fun t => t.isPrefixOf e.target.toList) &&
    d.field.all fun f => e.fields.contains f

/-- How long a target is. No target is shorter than any. -/
def targetLength (d : Directive) : Nat :=
  match d.target with
  | none => 0
  | some t => t.length + 1

/-- Whether another directive about the same event says more about it: it has a longer target, or
the same target and a field, or a field that is later in order. -/
def isLessParticular (d other : Directive) : Bool :=
  d.targetLength < other.targetLength ||
    (d.targetLength == other.targetLength &&
      match d.field, other.field with
      | none, some _ => true
      | some f, some g => f < g
      | _, none => false)

end Directive

/-! ## Levels -/

/-- The rank that a decimal numeral denotes, if it is one of a level or 0. -/
def numeralRank? (digits : List Char) : Option Nat :=
  if digits.isEmpty || !digits.all Char.isDigit then none
  else
    let n := digits.foldl (fun n c => 10 * n + (c.toNat - '0'.toNat)) 0
    if n ≤ 5 then some n else none

/-- The rank of a level written by name, in any case, or by number. -/
def levelRank? (text : List Char) : Option Nat :=
  match numeralRank? (if text.head? = some '+' then text.tail else text) with
  | some rank => some rank
  | none =>
    match String.ofList (text.map Char.toLower) with
    | "off" => some 0
    | "error" => some Level.error.rank
    | "warn" => some Level.warn.rank
    | "info" => some Level.info.rank
    | "debug" => some Level.debug.rank
    | "trace" => some Level.trace.rank
    | _ => none

/-! ## Values of fields -/

/-- Whether a text is an exponent with its sign, or nothing. -/
def isExponent : List Char → Bool
  | [] => true
  | e :: cs =>
    let digits := if cs.head? == some '+' || cs.head? == some '-' then cs.tail else cs
    e.toLower == 'e' && !digits.isEmpty && digits.all Char.isDigit

/-- Whether a text is a number without a sign, perhaps with a fraction and an exponent. -/
def isNumber (text : List Char) : Bool :=
  let whole := text.takeWhile Char.isDigit
  let rest := text.dropWhile Char.isDigit
  if rest.head? == some '.' then
    let fraction := rest.tail.takeWhile Char.isDigit
    !(whole.isEmpty && fraction.isEmpty) && isExponent (rest.tail.dropWhile Char.isDigit)
  else
    (!whole.isEmpty && isExponent rest) ||
      ["inf", "infinity", "nan"].contains (String.ofList (text.map Char.toLower))

/-- Whether a text may be the value of a field: a number, a truth value or a pattern. All of these
are patterns, but for numbers with a plus sign. -/
def isFieldValue : List Char → Bool
  | '+' :: cs => isNumber cs
  | cs => Pattern.isValid cs

/-! ## Reading -/

/-- Why a list of directives cannot be read. -/
inductive DirectiveError
  /-- It is not a list of directives. -/
  | malformed
  /-- A part of a directive would start or end inside a character. -/
  | cut (fault : Fault)
  deriving DecidableEq, Repr

/-- The part of a text between two offsets. -/
def part (text : List Char) (start stop : Nat) : Except DirectiveError (List Char) :=
  (Text.sliceBytes start stop text).mapError .cut

/-- The part of a text behind an offset. -/
def partBehind (text : List Char) (start : Nat) : Except DirectiveError (List Char) :=
  (Text.dropBytes start text).mapError .cut

/-- The level behind the equals sign of a directive. Nothing there means everything. -/
def levelBehind (text : List Char) (start : Nat) : Except DirectiveError Nat := do
  let level ← partBehind text start
  if level.isEmpty then .ok Level.trace.rank
  else
    match levelRank? level with
    | some rank => .ok rank
    | none => .error .malformed

/-- The level of a directive behind its brackets, of which `rest` is left at the given offset. -/
def levelBehindBrackets (text : List Char) (offset : Nat) (rest : List Char) :
    Except DirectiveError Nat :=
  match rest with
  | [] => .ok Level.trace.rank
  | c :: _ => if c = '=' then levelBehind text (offset + 1) else .error .malformed

/-- Reads a field in braces: a name, perhaps with an equals sign and a value. Gives the name, and
whether there is a value. -/
def fieldOf (field : List Char) : Except DirectiveError (String × Bool) :=
  let name := field.takeWhile (· != '=')
  match field.dropWhile (· != '=') with
  | [] => if field.isEmpty then .error .malformed else .ok (String.ofList name, false)
  | _ :: value =>
    if isFieldValue (value.takeWhile (· != '=')) then .ok (String.ofList name, true)
    else .error .malformed

/-- Reads the brackets of a directive and what is behind them. `rest` is what follows the opening
bracket, and `start` the offset of it. -/
def bracketsDirective (text : List Char) (target : Option (List Char)) (start : Nat)
    (rest : List Char) : Except DirectiveError Directive := do
  let isName (c : Char) : Bool := c != ']' && c != '\x7b'
  let stop := start + Text.byteLength (rest.takeWhile isName)
  match rest.dropWhile isName with
  | [] => .error .malformed
  | sign :: inner =>
    let span ← part text start stop
    if sign = ']' then
      let rank ← levelBehindBrackets text (stop + 1) inner
      .ok ⟨target, none, true, rank⟩
    else
      let isField (c : Char) : Bool := c != '\x7d'
      let fieldStop := stop + 1 + Text.byteLength (inner.takeWhile isField)
      match inner.dropWhile isField with
      | [] => .error .malformed
      | _ :: after =>
        let (field, hasValue) ← fieldOf (← part text (stop + 1) fieldStop)
        match after with
        | ']' :: behind =>
          let rank ← levelBehindBrackets text (fieldStop + 2) behind
          .ok ⟨target, some field, hasValue || !span.isEmpty, rank⟩
        | _ => .error .malformed

/-- A text without the blanks around it. -/
def trim (text : List Char) : List Char :=
  ((text.dropWhile Text.isBlank).reverse.dropWhile Text.isBlank).reverse

/-- Whether a directive may start with `c`. -/
def isDirectiveStart (c : Char) : Bool :=
  c == '[' || c == '-' || c == ':' || c == '_' || Text.isAlphanumeric c

/-- Reads a directive. -/
def directive (text : List Char) : Except DirectiveError Directive :=
  let tight := trim text
  let isTarget (c : Char) : Bool := c != '=' && c != '['
  let stop := Text.byteLength (tight.takeWhile isTarget)
  if !tight.head?.any isDirectiveStart then .error .malformed
  else
    match tight.dropWhile isTarget with
    | [] =>
      match levelRank? text with
      | some rank => .ok ⟨none, none, false, rank⟩
      | none => .ok ⟨some text, none, false, Level.trace.rank⟩
    | sign :: rest => do
      let target ← part text 0 stop
      if sign = '=' then
        let rank ← levelBehind text (stop + 1)
        .ok ⟨some target, none, false, rank⟩
      else bracketsDirective text (if stop = 0 then none else some target) (stop + 1) rest

/-- The pieces of a text between commas. -/
def splitCommas : List Char → List (List Char)
  | [] => [[]]
  | c :: cs =>
    match splitCommas cs with
    | [] => [[c]]
    | piece :: pieces => if c = ',' then [] :: piece :: pieces else (c :: piece) :: pieces

/-- Reads the pieces of a list of directives. -/
def directivesOf : List (List Char) → Except DirectiveError (List Directive)
  | [] => .ok []
  | piece :: pieces => do
    let d ← directive piece
    let ds ← directivesOf pieces
    .ok (d :: ds)

/-- Reads a list of directives with commas between them; empty ones are skipped. -/
def directives? (text : String) : Except DirectiveError (List Directive) :=
  directivesOf ((splitCommas text.toList).filter fun piece => !piece.isEmpty)

end CalcLang.Log
