import CalcLang.Parse

/-!
# Reading tokens one by one

`Parse` puts the tokens of a text together into forms and reads each form on its own. This module
reads the same language by recursive descent: a `Descent.Reader` has no more than a position in a
list of tokens, looks at the token there, and decides by its kind alone what comes next. It learns
where a form ends by getting there.

Nothing bounds the recursion. A loop that does not move its position does not end, and the result of
a reader that does not end is `none`.

At the top level a position may also go back: when a declaration cannot be read,
`Descent.Input.recover` returns to the parenthesis where it started and skips to the one that closes
it.
-/

namespace CalcLang

namespace Descent

/-- Reads something from a position on. The outcome comes with the position that is reached, also
if it is an error. There is no result at all if the reader does not end. -/
abbrev Reader := ExceptT ParseError (StateT Nat Option)

/-- The tokens of a text in a file. -/
structure Input where
  file : FileId
  tokens : List Token

/-! ## Single tokens -/

/-- The token at a position. Behind the last token the text has ended. -/
def tokenAt (tokens : List Token) (p : Nat) : Token :=
  tokens[p]?.getD ⟨.eof, (tokens.getLast?.map Token.span).getD ⟨0, 0⟩, ""⟩

/-- The position behind that of a token. The end of the text is never passed. -/
def behind (t : Token) (p : Nat) : Nat := if t.kind = .eof then p else p + 1

/-- The position of the next token. -/
def position : Reader Nat := fun p => some (.ok p, p)

/-- Goes to a position. -/
def moveTo (p : Nat) : Reader Unit := fun _ => some (.ok (), p)

/-- The outcome of a reader, which may be an error. -/
def attempt {α : Type} (x : Reader α) : Reader (Parse.Result α) := fun p =>
  (x p).map fun r => (.ok r.1, r.2)

namespace Input

/-- Looks at the next token. -/
def current (s : Input) : Reader Token := fun p => some (.ok (tokenAt s.tokens p), p)

/-- Takes the next token. -/
def advance (s : Input) : Reader Token := fun p =>
  some (.ok (tokenAt s.tokens p), behind (tokenAt s.tokens p) p)

/-- Takes a token of one kind. -/
def expect (s : Input) (kind : TokenKind) : Reader Token := do
  let t ← s |>.current
  if t.kind = kind then s |>.advance
  else throw (Parse.unexpected (.token kind) t)

/-- Takes the parenthesis that closes a list. -/
def expectClose (s : Input) (opening : Token) : Reader Token := do
  let t ← s |>.current
  if t.kind = .rightParen then s |>.advance
  else throw ⟨.unclosed t.kind opening.span, t.span⟩

/-- Reads a name. -/
def ident (s : Input) : Reader Ident := do
  let t ← s |>.expect .ident
  return ⟨t.text, Parse.tokenPos s.file t⟩

/-- Reads a type. -/
def typeName (s : Input) : Reader TypeExpr := do
  let t ← s |>.current
  match Parse.typeOf? s.file t with
  | some ty => do
    let _ ← s |>.advance
    return ty
  | none => throw (Parse.unexpected .typeName t)

/-- Reads a type if there is one. -/
def optionalType (s : Input) : Reader (Option TypeExpr) := do
  let t ← s |>.current
  if (Parse.typeOf? s.file t).isSome then do
    let ty ← s |>.typeName
    return some ty
  else return none

/-! ## Expressions -/

mutual

/-- Reads an expression. -/
def expr (s : Input) : Reader Expr := do
  let t ← s |>.current
  match t.kind with
  | .leftParen => s |>.listForm
  | .intLiteral | .trueWord | .falseWord | .ident => do
    let t ← s |>.advance
    ofExcept (Parse.atomExpr s.file t)
  | _ => throw (Parse.unexpected .expression t)
partial_fixpoint

/-- Reads an expression in parentheses. -/
def listForm (s : Input) : Reader Expr := do
  let opening ← s |>.advance
  let t ← s |>.current
  match t.kind with
  | .ifWord => s |>.ifForm opening
  | .var => s |>.varForm opening
  | .eq => s |>.assignForm opening
  | .ident => s |>.callForm opening
  | .leftParen => s |>.blockForm opening
  | .rightParen => throw ⟨.emptyForm, opening.span.cover t.span⟩
  | .decl => throw ⟨.nestedDeclaration, t.span⟩
  | kind =>
    if kind.isOperator then s |>.operatorForm opening
    else throw (Parse.unexpected .formHead t)
partial_fixpoint

/-- Reads expressions up to a parenthesis that closes something. -/
def operands (s : Input) : Reader (List Expr) := do
  let t ← s |>.current
  if t.kind = .rightParen ∨ t.kind = .eof then return []
  else do
    let first ← s |>.expr
    let others ← s |>.operands
    return first :: others
partial_fixpoint

/-- Reads an operation behind its opening parenthesis. -/
def operatorForm (s : Input) (opening : Token) : Reader Expr := do
  let operator ← s |>.advance
  let exprs ← s |>.operands
  let closing ← s |>.expectClose opening
  ofExcept (Parse.operation operator (Parse.formPos s.file opening closing) exprs)
partial_fixpoint

/-- Reads an `if` behind its opening parenthesis. -/
def ifForm (s : Input) (opening : Token) : Reader Expr := do
  let _ ← s |>.advance
  let test ← s |>.expr
  let ty ← s |>.optionalType
  let yes ← s |>.expr
  let t ← s |>.current
  if t.kind = .rightParen then do
    let closing ← s |>.expectClose opening
    return .ifThen test ty yes (Parse.formPos s.file opening closing)
  else do
    let no ← s |>.expr
    let closing ← s |>.expectClose opening
    return .ifThenElse test ty yes no (Parse.formPos s.file opening closing)
partial_fixpoint

/-- Reads what a `var` form introduces. -/
def introduced (s : Input) : Reader (Ident × Option Expr) := do
  let t ← s |>.current
  match t.kind with
  | .ident => do
    let name ← s |>.ident
    return (name, none)
  | .leftParen => do
    let opening ← s |>.advance
    let _ ← s |>.expect .eq
    let name ← s |>.ident
    let init ← s |>.expr
    let _ ← s |>.expectClose opening
    return (name, some init)
  | _ => throw (Parse.unexpected .variableName t)
partial_fixpoint

/-- Reads a `var` form behind its opening parenthesis. -/
def varForm (s : Input) (opening : Token) : Reader Expr := do
  let _ ← s |>.advance
  let (name, init) ← s |>.introduced
  let ty ← s |>.optionalType
  let closing ← s |>.expectClose opening
  match init, ty with
  | some init, ty => return .define name ty init (Parse.formPos s.file opening closing)
  | none, some ty => return .declare name ty (Parse.formPos s.file opening closing)
  | none, none => throw ⟨.untypedVariable name.name, name.pos.span⟩
partial_fixpoint

/-- Reads an assignment behind its opening parenthesis. -/
def assignForm (s : Input) (opening : Token) : Reader Expr := do
  let _ ← s |>.advance
  let name ← s |>.ident
  let value ← s |>.expr
  let closing ← s |>.expectClose opening
  return .assign name value (Parse.formPos s.file opening closing)
partial_fixpoint

/-- Reads a call behind its opening parenthesis. -/
def callForm (s : Input) (opening : Token) : Reader Expr := do
  let name ← s |>.ident
  let args ← s |>.operands
  let closing ← s |>.expectClose opening
  return .call name args (Parse.formPos s.file opening closing)
partial_fixpoint

/-- Reads a block behind its opening parenthesis. -/
def blockForm (s : Input) (opening : Token) : Reader Expr := do
  let exprs ← s |>.operands
  let closing ← s |>.expectClose opening
  return .block exprs (Parse.formPos s.file opening closing)
partial_fixpoint

end

/-! ## Declarations -/

/-- Reads parameters up to the parenthesis that closes their list. The names that are `waiting` have
no type yet. -/
def paramItems (s : Input) (waiting : List Ident) : Reader (List Param) := do
  let t ← s |>.current
  match t.kind with
  | .ident => do
    let name ← s |>.ident
    s |>.paramItems (waiting ++ [name])
  | .intWord | .boolWord => do
    let ty ← s |>.typeName
    if waiting.isEmpty then throw ⟨.typeWithoutNames ty.ty, ty.pos.span⟩
    else do
      let others ← s |>.paramItems []
      return waiting.map (⟨·, ty⟩) ++ others
  | .rightParen => do
    let _ ← s |>.advance
    match waiting with
    | [] => return []
    | first :: _ => throw ⟨.nameWithoutType first.name, first.pos.span⟩
  | _ => throw (Parse.unexpected .parameter t)
partial_fixpoint

/-- Reads a parameter list if there is one. -/
def optionalParams (s : Input) : Reader (List Param) := do
  let t ← s |>.current
  if t.kind = .leftParen then do
    let _ ← s |>.advance
    s |>.paramItems []
  else return []

/-- Reads a declaration. -/
def decl (s : Input) : Reader Decl := do
  let opening ← s |>.expect .leftParen
  let _ ← s |>.expect .decl
  let name ← s |>.ident
  let params ← s |>.optionalParams
  let ret ← s |>.typeName
  let body ← s |>.expr
  let closing ← s |>.expectClose opening
  return ⟨name, params, ret, body, Parse.formPos s.file opening closing⟩

/-! ## Whole texts -/

/-- Skips tokens until as many parentheses are closed as are opened. The `depth` is the number of
those that are open. -/
def skipForm (s : Input) (depth : Nat) : Reader Unit := do
  let t ← s |>.current
  if t.kind = .eof then return ()
  else do
    let _ ← s |>.advance
    if t.kind = .leftParen then s |>.skipForm (depth + 1)
    else if t.kind = .rightParen then
      if depth - 1 = 0 then return () else s |>.skipForm (depth - 1)
    else s |>.skipForm depth
partial_fixpoint

/-- Goes back to the start of a form and skips it. -/
def recover (s : Input) (start : Nat) : Reader Unit := do
  moveTo start
  s |>.skipForm 0

/-- Skips tokens up to an opening parenthesis. -/
def skipRun (s : Input) : Reader Unit := do
  let t ← s |>.current
  if t.kind = .leftParen ∨ t.kind = .eof then return ()
  else do
    let _ ← s |>.advance
    s |>.skipRun
partial_fixpoint

/-- Reads what stands at the top level: a form, or a run of tokens outside all forms. There is
nothing to read at the end of the text. -/
def topItem (s : Input) : Reader (Option (Parse.Result Decl)) := do
  let t ← s |>.current
  if t.kind = .eof then return none
  else if t.kind = .leftParen then do
    let start ← position
    match ← attempt (s |>.decl) with
    | .ok d => return some (.ok d)
    | .error e => do
      s |>.recover start
      return some (.error e)
  else do
    let _ ← s |>.advance
    s |>.skipRun
    return some (.error (Parse.unexpected .declaration t))

/-- Reads a whole text. The result tells for each round of the loop where it started and what it
read. -/
def text (s : Input) : Reader (List (Nat × Parse.Result Decl)) := do
  let start ← position
  match ← s |>.topItem with
  | none => return []
  | some outcome => do
    let others ← s |>.text
    return (start, outcome) :: others
partial_fixpoint

end Input

end Descent

end CalcLang
