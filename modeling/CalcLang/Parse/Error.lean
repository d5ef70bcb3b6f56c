import CalcLang.Diagnostic
import CalcLang.Operator
import CalcLang.Token

/-!
# Parse errors

What can be wrong with a top-level form of a source text. An error keeps its cause and the span
it is about; the wording is in `ParseError.message`.
-/

namespace CalcLang

namespace ParseError

/-- What a place in a form calls for. -/
inductive Expected
  /-- A token of one kind. -/
  | token (kind : TokenKind)
  /-- The start of a declaration. -/
  | declaration
  /-- The name of a type. -/
  | typeName
  /-- A parameter name or the type of the parameters before it. -/
  | parameter
  /-- An expression. -/
  | expression
  /-- What may stand behind the opening parenthesis of an expression. -/
  | formHead
  /-- The variable that `var` introduces. -/
  | variableName
  deriving DecidableEq, Repr

/-- What is expected, in words. -/
def Expected.describe : Expected → String
  | token kind => kind.describe
  | declaration => "`(` to start a declaration"
  | typeName => "type `int` or `bool`"
  | parameter => "parameter name or type"
  | expression => "expression"
  | formHead => "operator, keyword or name after `(`"
  | variableName => "variable name or `(= name value)`"

/-- The cause of a parse error. -/
inductive Cause
  /-- A token that does not fit its place. -/
  | unexpected (expected : Expected) (found : TokenKind)
  /-- A token where the list opened at `opening` should be closed. -/
  | unclosed (found : TokenKind) (opening : Span)
  /-- A parameter type without names before it. -/
  | typeWithoutNames (ty : Ty)
  /-- A parameter name without a type behind it. -/
  | nameWithoutType (name : String)
  /-- An integer literal that does not fit into a word. -/
  | outOfRange (literal : String)
  /-- The form `()`. -/
  | emptyForm
  /-- A declaration inside an expression. -/
  | nestedDeclaration
  /-- An operator of one operand with another number of them. -/
  | notUnary (operator : TokenKind)
  /-- A binary operator with less than two operands. -/
  | tooFewOperands (op : BinaryOp)
  /-- A variable with neither a type nor an initial value. -/
  | untypedVariable (name : String)
  deriving DecidableEq, Repr

end ParseError

/-- A mistake inside one top-level form. -/
structure ParseError where
  cause : ParseError.Cause
  span : Span
  deriving DecidableEq, Repr

namespace ParseError

/-- The message of an error. -/
def message (e : ParseError) : String :=
  match e.cause with
  | .unexpected expected found =>
    "expected " ++ expected.describe ++ ", found " ++ found.describe
  | .unclosed found _ => "expected `)`, found " ++ found.describe
  | .typeWithoutNames ty => "type `" ++ ty.name ++ "` has no parameter names before it"
  | .nameWithoutType name => "parameter `" ++ name ++ "` is missing a type"
  | .outOfRange literal => "integer literal `" ++ literal ++ "` is out of range"
  | .emptyForm => "empty expression `()`"
  | .nestedDeclaration => "`decl` is only allowed at top level"
  | .notUnary operator => operator.describe ++ " takes exactly one operand"
  | .tooFewOperands op => "`" ++ op.symbol ++ "` needs at least two operands"
  | .untypedVariable name => "variable `" ++ name ++ "` needs a type or an initializer"

/-- The error as a diagnostic in the file that it was found in. -/
def toDiagnostic (e : ParseError) (file : FileId) : Diagnostic :=
  ⟨.parse e.message, ⟨file, e.span⟩⟩

end ParseError

end CalcLang
