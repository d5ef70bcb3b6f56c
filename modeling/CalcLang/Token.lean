import CalcLang.Span

/-!
# Tokens

The tokens of a source text. A token keeps the characters it was read from, so that later stages
need the source text no more.
-/

namespace CalcLang

/-- The kinds of tokens. -/
inductive TokenKind
  | decl
  | var
  | ifWord
  | trueWord
  | falseWord
  /-- The type name `int`. -/
  | intWord
  /-- The type name `bool`. -/
  | boolWord
  | plus
  | minus
  | star
  | slash
  | percent
  | eqEq
  | notEq
  | lt
  | gt
  | ltEq
  | gtEq
  | ampAmp
  | pipePipe
  | bang
  | eq
  | leftParen
  | rightParen
  | intLiteral
  | ident
  /-- A comment: from `;` to the end of the line. -/
  | comment
  /-- The end of the text. -/
  | eof
  /-- Characters that are no token of the language. -/
  | error
  deriving DecidableEq, Repr, Inhabited

namespace TokenKind

/-- Whether a token is an operator that may head a form. -/
def isOperator : TokenKind → Bool
  | plus | minus | star | slash | percent | eqEq | notEq | lt | gt | ltEq | gtEq | ampAmp
  | pipePipe | bang => true
  | _ => false

/-- The name of a kind of token in messages. -/
def describe : TokenKind → String
  | decl => "`decl`"
  | var => "`var`"
  | ifWord => "`if`"
  | trueWord => "`true`"
  | falseWord => "`false`"
  | intWord => "`int`"
  | boolWord => "`bool`"
  | plus => "`+`"
  | minus => "`-`"
  | star => "`*`"
  | slash => "`/`"
  | percent => "`%`"
  | eqEq => "`==`"
  | notEq => "`!=`"
  | lt => "`<`"
  | gt => "`>`"
  | ltEq => "`<=`"
  | gtEq => "`>=`"
  | ampAmp => "`&&`"
  | pipePipe => "`||`"
  | bang => "`!`"
  | eq => "`=`"
  | leftParen => "`(`"
  | rightParen => "`)`"
  | intLiteral => "integer literal"
  | ident => "identifier"
  | comment => "comment"
  | eof => "end of file"
  | error => "invalid character"

/-- The keyword with a given spelling. -/
def keyword? (text : String) : Option TokenKind :=
  match text with
  | "decl" => some decl
  | "var" => some var
  | "if" => some ifWord
  | "true" => some trueWord
  | "false" => some falseWord
  | "int" => some intWord
  | "bool" => some boolWord
  | _ => none

end TokenKind

/-- A token: its kind, its place and its characters. -/
structure Token where
  kind : TokenKind
  span : Span
  text : String
  deriving DecidableEq, Repr, Inhabited

end CalcLang
