import CalcLang.Expr
import CalcLang.Form
import CalcLang.Parse.Error
import CalcLang.Token.Scan

/-!
# Parsing

A source text is scanned into tokens, the tokens are put together into forms, and each top-level
form is read as a declaration. A form that is no declaration gives exactly one error and does not
touch the forms around it; so does a run of tokens outside all forms.

Inside a form the first mistake counts. `Form.expr` reads a form as an expression: it first reads
every item of the form as an expression, and `listExpr` then picks, by the head of the form, the
readings that it needs, in source order.
-/

namespace CalcLang

namespace Parse

/-- The outcome of reading a part of a form. -/
abbrev Result := Except ParseError

/-- The error that `t` does not fit its place. -/
def unexpected (expected : ParseError.Expected) (t : Token) : ParseError :=
  ⟨.unexpected expected t.kind, t.span⟩

/-- An item of a form, and its reading as an expression. -/
structure Item where
  form : Form
  expr : Result Expr

/-- The first token of the items, or the token that closes the form if no item is left. -/
def next (closing : Token) : List Item → Token
  | [] => closing
  | item :: _ => item.form.head

/-- Checks that a form ends here with a parenthesis. -/
def close (opening closing : Token) (items : List Item) : Result Unit :=
  let t := next closing items
  if t.kind = .rightParen then .ok () else .error ⟨.unclosed t.kind opening.span, t.span⟩

/-- Reads the next item as an expression. -/
def expression (closing : Token) : List Item → Result (Expr × List Item)
  | [] => .error (unexpected .expression closing)
  | item :: rest => item.expr.map (·, rest)

/-- Reads all items that are left as expressions. -/
def operands : List Item → Result (List Expr)
  | [] => .ok []
  | item :: rest => do
    let first ← item.expr
    let others ← operands rest
    .ok (first :: others)

variable (file : FileId)

/-- The position of a token. -/
def tokenPos (t : Token) : Pos := ⟨file, t.span⟩

/-- The position of a form. -/
def formPos (opening closing : Token) : Pos := ⟨file, opening.span.cover closing.span⟩

/-- Reads the next item as a name. -/
def ident (closing : Token) : List Item → Result (Ident × List Item)
  | ⟨.atom t, _⟩ :: rest =>
    if t.kind = .ident then .ok (⟨t.text, tokenPos file t⟩, rest)
    else .error (unexpected (.token .ident) t)
  | items => .error (unexpected (.token .ident) (next closing items))

/-- The type that a token names. -/
def typeOf? (t : Token) : Option TypeExpr :=
  match t.kind with
  | .intWord => some ⟨.int, tokenPos file t⟩
  | .boolWord => some ⟨.bool, tokenPos file t⟩
  | _ => none

/-- Reads the next item as a type if it is one. -/
def optionalType : List Item → Option TypeExpr × List Item
  | ⟨.atom t, expr⟩ :: rest =>
    match typeOf? file t with
    | some ty => (some ty, rest)
    | none => (none, ⟨.atom t, expr⟩ :: rest)
  | items => (none, items)

/-- Reads the next item as a type. -/
def requiredType (closing : Token) (items : List Item) : Result (TypeExpr × List Item) :=
  match optionalType file items with
  | (some ty, rest) => .ok (ty, rest)
  | (none, _) => .error (unexpected .typeName (next closing items))

/-! ## Atoms -/

/-- The number that a list of decimal digits denotes. -/
def digitsValue (digits : List Char) : Nat :=
  digits.foldl (fun n c => 10 * n + (c.toNat - '0'.toNat)) 0

/-- The number that an integer literal denotes. -/
def literalValue : List Char → Int
  | '-' :: digits => -(digitsValue digits : Int)
  | digits => digitsValue digits

/-- Reads a single token as an expression. -/
def atomExpr (t : Token) : Result Expr :=
  match t.kind with
  | .intLiteral =>
    match Word.ofInt? (literalValue t.text.toList) with
    | some w => .ok (.int w (tokenPos file t))
    | none => .error ⟨.outOfRange t.text, t.span⟩
  | .trueWord => .ok (.bool true (tokenPos file t))
  | .falseWord => .ok (.bool false (tokenPos file t))
  | .ident => .ok (.name ⟨t.text, tokenPos file t⟩)
  | _ => .error (unexpected .expression t)

/-! ## Lists -/

/-- The binary operator that a token denotes at the head of a form. -/
def binaryOp? : TokenKind → Option BinaryOp
  | .plus => some .add
  | .minus => some .sub
  | .star => some .mul
  | .slash => some .div
  | .percent => some .rem
  | .eqEq => some .eq
  | .notEq => some .ne
  | .lt => some .lt
  | .ltEq => some .le
  | .gt => some .gt
  | .gtEq => some .ge
  | .ampAmp => some .and
  | .pipePipe => some .or
  | _ => none

/-- The unary operator that a token denotes at the head of a form with a single operand. -/
def unaryOp? : TokenKind → Option UnaryOp
  | .minus => some .neg
  | .bang => some .not
  | _ => none

/-- The expression that an operator makes of its operands. -/
def operation (operator : Token) (pos : Pos) (exprs : List Expr) : Result Expr :=
  match unaryOp? operator.kind, exprs with
  | some op, [operand] => .ok (.unary op operand pos)
  | _, _ =>
    match binaryOp? operator.kind, exprs with
    | none, _ => .error ⟨.notUnary operator.kind, operator.span⟩
    | some op, first :: second :: rest => .ok (.chain op first (second :: rest) pos)
    | some op, _ => .error ⟨.tooFewOperands op, operator.span⟩

/-- Reads a form with an operator at its head. -/
def operatorForm (opening operator closing : Token) (items : List Item) : Result Expr := do
  let exprs ← operands items
  close opening closing []
  operation operator (formPos file opening closing) exprs

/-- Reads the rest of an `if` form. -/
def ifForm (opening closing : Token) (items : List Item) : Result Expr := do
  let (test, items) ← expression closing items
  let (ty, items) := optionalType file items
  let (yes, items) ← expression closing items
  if (next closing items).kind = .rightParen then
    .ok (.ifThen test ty yes (formPos file opening closing))
  else
    let (no, items) ← expression closing items
    close opening closing items
    .ok (.ifThenElse test ty yes no (formPos file opening closing))

/-- Reads the rest of an assignment. -/
def assignForm (opening closing : Token) (items : List Item) : Result Expr := do
  let (name, items) ← ident file closing items
  let (value, items) ← expression closing items
  close opening closing items
  .ok (.assign name value (formPos file opening closing))

/-- Reads what a `var` form introduces: a name, or an assignment that gives the name and its
initial value. -/
def introduced (closing : Token) : List Item → Result ((Ident × Option Expr) × List Item)
  | ⟨.atom t, _⟩ :: rest =>
    if t.kind = .ident then .ok ((⟨t.text, tokenPos file t⟩, none), rest)
    else .error (unexpected .variableName t)
  | ⟨.list _ items inner, expr⟩ :: rest =>
    let first := match items with
      | [] => inner
      | item :: _ => item.head
    if first.kind = .eq then do
      match ← expr with
      | .assign name value _ => .ok ((name, some value), rest)
      | _ => .error (unexpected (.token .eq) first)
    else .error (unexpected (.token .eq) first)
  | [] => .error (unexpected .variableName closing)

/-- Reads the rest of a `var` form. -/
def varForm (opening closing : Token) (items : List Item) : Result Expr := do
  let ((name, init), items) ← introduced file closing items
  let (ty, items) := optionalType file items
  close opening closing items
  match init, ty with
  | some init, ty => .ok (.define name ty init (formPos file opening closing))
  | none, some ty => .ok (.declare name ty (formPos file opening closing))
  | none, none => .error ⟨.untypedVariable name.name, name.pos.span⟩

/-- Reads a call. -/
def callForm (opening closing : Token) (items : List Item) : Result Expr := do
  let (name, items) ← ident file closing items
  let args ← operands items
  close opening closing []
  .ok (.call name args (formPos file opening closing))

/-- Reads a block. -/
def blockForm (opening closing : Token) (items : List Item) : Result Expr := do
  let exprs ← operands items
  close opening closing []
  .ok (.block exprs (formPos file opening closing))

/-- Reads a list of items as an expression. -/
def listExpr (opening closing : Token) : List Item → Result Expr
  | [] =>
    if closing.kind = .rightParen then
      .error ⟨.emptyForm, opening.span.cover closing.span⟩
    else .error (unexpected .formHead closing)
  | ⟨.list o items c, expr⟩ :: rest =>
    blockForm file opening closing (⟨.list o items c, expr⟩ :: rest)
  | ⟨.atom t, expr⟩ :: rest =>
    match t.kind with
    | .ifWord => ifForm file opening closing rest
    | .var => varForm file opening closing rest
    | .eq => assignForm file opening closing rest
    | .ident => callForm file opening closing (⟨.atom t, expr⟩ :: rest)
    | .decl => .error ⟨.nestedDeclaration, t.span⟩
    | kind =>
      if kind.isOperator then operatorForm file opening t closing rest
      else .error (unexpected .formHead t)

mutual

/-- Reads a form as an expression. -/
def formExpr : Form → Result Expr
  | .atom t => atomExpr file t
  | .list opening items closing => listExpr file opening closing (formItems items)

/-- Reads each of a list of forms as an expression. -/
def formItems : List Form → List Item
  | [] => []
  | form :: rest => ⟨form, formExpr form⟩ :: formItems rest

end

/-! ## Declarations -/

/-- Reads a parameter list. A type applies to all names before it that have none yet, which are
`waiting`. -/
def params (closing : Token) (waiting : List Ident) : List Form → Result (List Param)
  | [] =>
    if closing.kind = .rightParen then
      match waiting with
      | [] => .ok []
      | first :: _ => .error ⟨.nameWithoutType first.name, first.pos.span⟩
    else .error (unexpected .parameter closing)
  | .atom t :: rest =>
    if t.kind = .ident then params closing (waiting ++ [⟨t.text, tokenPos file t⟩]) rest
    else
      match typeOf? file t with
      | none => .error (unexpected .parameter t)
      | some ty =>
        if waiting.isEmpty then .error ⟨.typeWithoutNames ty.ty, t.span⟩
        else do
          let others ← params closing [] rest
          .ok (waiting.map (⟨·, ty⟩) ++ others)
  | .list opening _ _ :: _ => .error (unexpected .parameter opening)

/-- Reads the parameter list of a declaration, if it has one. -/
def optionalParams : List Item → Result (List Param × List Item)
  | ⟨.list _ items closing, _⟩ :: rest => (params file closing [] items).map (·, rest)
  | items => .ok ([], items)

/-- Reads the items of a top-level form as a declaration. -/
def decl (opening closing : Token) : List Item → Result Decl
  | ⟨.atom t, _⟩ :: items => do
    if t.kind ≠ .decl then .error (unexpected (.token .decl) t)
    let (name, items) ← ident file closing items
    let (params, items) ← optionalParams file items
    let (ret, items) ← requiredType file closing items
    let (body, items) ← expression closing items
    close opening closing items
    .ok ⟨name, params, ret, body, formPos file opening closing⟩
  | items => .error (unexpected (.token .decl) (next closing items))

/-- What the top-level forms of a text give: for each list a declaration or an error, and an
error for each run of other tokens. `inRun` says that such a run has started. -/
def topLevel (inRun : Bool) : List Form → List (Result Decl)
  | [] => []
  | .atom t :: rest =>
    if inRun then topLevel true rest
    else .error (unexpected .declaration t) :: topLevel true rest
  | .list opening items closing :: rest =>
    decl file opening closing (formItems file items) :: topLevel false rest

end Parse

/-- What one source text gives: the declarations that could be read, and the errors. -/
structure Parse where
  decls : List Decl
  errors : List ParseError
  deriving Repr, Inhabited

namespace Parse

/-- The successes of a list of outcomes. -/
def successes {ε α : Type} (rs : List (Except ε α)) : List α :=
  rs.filterMap fun
    | .ok a => some a
    | .error _ => none

/-- The failures of a list of outcomes. -/
def failures {ε α : Type} (rs : List (Except ε α)) : List ε :=
  rs.filterMap fun
    | .ok _ => none
    | .error e => some e

/-- Parses a list of tokens that is in the given file. Comments are skipped. -/
def ofTokens (file : FileId) (tokens : List Token) : Parse :=
  let outcomes := topLevel file false
    (Form.ofTokens (tokens.filter fun t => t.kind ≠ .comment))
  ⟨successes outcomes, failures outcomes⟩

/-- Parses a source text. -/
def ofText (file : FileId) (text : String) : Parse := ofTokens file (Token.scan text)

/-- The errors of a source text as diagnostics in its file. -/
def diagnostics (p : Parse) (file : FileId) : List Diagnostic :=
  p.errors.map fun e => e.toDiagnostic file

end Parse

end CalcLang
