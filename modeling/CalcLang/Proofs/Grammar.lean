import CalcLang.Parse
import CalcLang.Proofs.Balanced

/-!
# The grammar of source texts

    file    := decl*
    decl    := "(" "decl" NAME params? type expr ")"
    params  := "(" (NAME+ type)* ")"
    type    := "int" | "bool"
    expr    := INT | "true" | "false" | NAME | "(" content ")"
    content := unary expr | binary expr expr+
             | "if" expr type? expr | "if" expr type? expr expr
             | "var" NAME type | "var" "(" "=" NAME expr ")" type?
             | "=" NAME expr | NAME expr* | "(" content ")" expr*

A derivation is a tree with the tokens of the text at its leaves, and there is a type of
derivations for each rule. `tokens` is the text that is derived and `tree` is what it stands for.
A literal is derived only if its number is a word, and the first element of a block is a list.

The derivations know their forms, and these are balanced.
-/

namespace CalcLang

namespace Grammar

/-- A token of one kind. -/
@[ext]
structure Terminal (kind : TokenKind) where
  token : Token
  kind_eq : token.kind = kind

/-- `type`. -/
inductive TypeName
  | int (word : Terminal .intWord)
  | bool (word : Terminal .boolWord)

/-- The token that an operator with two operands is written as. -/
def binaryKind : BinaryOp → TokenKind
  | .add => .plus
  | .sub => .minus
  | .mul => .star
  | .div => .slash
  | .rem => .percent
  | .eq => .eqEq
  | .ne => .notEq
  | .lt => .lt
  | .le => .ltEq
  | .gt => .gt
  | .ge => .gtEq
  | .and => .ampAmp
  | .or => .pipePipe

/-- The token that an operator with a single operand is written as. -/
def unaryKind : UnaryOp → TokenKind
  | .neg => .minus
  | .not => .bang

/-- The number that a decimal numeral denotes. -/
def numeral : List Char → Int
  | '-' :: digits => -(Nat.ofDigitChars 10 digits 0 : Int)
  | digits => Nat.ofDigitChars 10 digits 0

mutual

/-- `expr`. -/
inductive Phrase
  | int (literal : Terminal .intLiteral) (value : Word)
    (denotes : numeral literal.token.text.toList = value.val)
  | truth (word : Terminal .trueWord)
  | falsehood (word : Terminal .falseWord)
  | name (name : Terminal .ident)
  | list (opening : Terminal .leftParen) (content : Content) (closing : Terminal .rightParen)

/-- `content`. -/
inductive Content
  | unary (op : UnaryOp) (operator : Terminal (unaryKind op)) (operand : Phrase)
  | chain (op : BinaryOp) (operator : Terminal (binaryKind op)) (first second : Phrase)
    (rest : List Phrase)
  | ifThen (word : Terminal .ifWord) (test : Phrase) (type : Option TypeName) (yes : Phrase)
  | ifThenElse (word : Terminal .ifWord) (test : Phrase) (type : Option TypeName)
    (yes no : Phrase)
  | declare (word : Terminal .var) (name : Terminal .ident) (type : TypeName)
  | define (word : Terminal .var) (opening : Terminal .leftParen) (equals : Terminal .eq)
    (name : Terminal .ident) (init : Phrase) (closing : Terminal .rightParen)
    (type : Option TypeName)
  | assign (equals : Terminal .eq) (name : Terminal .ident) (value : Phrase)
  | call (name : Terminal .ident) (args : List Phrase)
  | block (opening : Terminal .leftParen) (first : Content) (closing : Terminal .rightParen)
    (rest : List Phrase)

end

/-- `NAME+ type`. -/
structure Group where
  first : Terminal .ident
  others : List (Terminal .ident)
  type : TypeName

/-- `params`. -/
structure Params where
  opening : Terminal .leftParen
  groups : List Group
  closing : Terminal .rightParen

/-- `decl`. -/
structure Definition where
  opening : Terminal .leftParen
  word : Terminal .decl
  name : Terminal .ident
  params : Option Params
  type : TypeName
  body : Phrase
  closing : Terminal .rightParen

/-- `file`. -/
abbrev File := List Definition

/-! ## What is derived -/

/-- The token of a type. -/
def TypeName.token : TypeName → Token
  | int word => word.token
  | bool word => word.token

/-- The tokens of a type that may be left out. -/
def typeTokens : Option TypeName → List Token
  | none => []
  | some type => [type.token]

mutual

/-- The tokens of an expression. -/
def Phrase.tokens : Phrase → List Token
  | .int literal _ _ => [literal.token]
  | .truth word => [word.token]
  | .falsehood word => [word.token]
  | .name name => [name.token]
  | .list opening content closing => opening.token :: (content.tokens ++ [closing.token])

/-- The tokens between two parentheses. -/
def Content.tokens : Content → List Token
  | .unary _ operator operand => operator.token :: operand.tokens
  | .chain _ operator first second rest =>
    operator.token :: (first.tokens ++ (second.tokens ++ Phrase.allTokens rest))
  | .ifThen word test type yes => word.token :: (test.tokens ++ (typeTokens type ++ yes.tokens))
  | .ifThenElse word test type yes no =>
    word.token :: (test.tokens ++ (typeTokens type ++ (yes.tokens ++ no.tokens)))
  | .declare word name type => [word.token, name.token, type.token]
  | .define word opening equals name init closing type =>
    word.token :: opening.token :: equals.token :: name.token ::
      (init.tokens ++ closing.token :: typeTokens type)
  | .assign equals name value => equals.token :: name.token :: value.tokens
  | .call name args => name.token :: Phrase.allTokens args
  | .block opening first closing rest =>
    opening.token :: (first.tokens ++ closing.token :: Phrase.allTokens rest)

/-- The tokens of expressions. -/
def Phrase.allTokens : List Phrase → List Token
  | [] => []
  | p :: ps => p.tokens ++ Phrase.allTokens ps

end

/-- The names of a group. -/
def Group.names (g : Group) : List (Terminal .ident) := g.first :: g.others

/-- The tokens of a group. -/
def Group.tokens (g : Group) : List Token := g.names.map Terminal.token ++ [g.type.token]

/-- The tokens of a parameter list. -/
def Params.tokens (p : Params) : List Token :=
  p.opening.token :: (p.groups.flatMap Group.tokens ++ [p.closing.token])

/-- The tokens of a parameter list that may be left out. -/
def paramsTokens : Option Params → List Token
  | none => []
  | some params => params.tokens

/-- The tokens of a declaration. -/
def Definition.tokens (d : Definition) : List Token :=
  d.opening.token :: d.word.token :: d.name.token ::
    (paramsTokens d.params ++ d.type.token :: (d.body.tokens ++ [d.closing.token]))

/-- The tokens of a file. -/
def File.tokens (f : File) : List Token := f.flatMap Definition.tokens

/-! ## What is denoted -/

section Trees

variable (file : FileId)

/-- The written name. -/
def Terminal.ident (t : Terminal .ident) : Ident := ⟨t.token.text, ⟨file, t.token.span⟩⟩

/-- The written type. -/
def TypeName.tree : TypeName → TypeExpr
  | int word => ⟨.int, ⟨file, word.token.span⟩⟩
  | bool word => ⟨.bool, ⟨file, word.token.span⟩⟩

/-- The position of what stands between two tokens, these included. -/
def place (opening closing : Token) : Pos := ⟨file, opening.span.cover closing.span⟩

mutual

/-- What an expression stands for. -/
def Phrase.tree : Phrase → Expr
  | .int literal value _ => .int value ⟨file, literal.token.span⟩
  | .truth word => .bool true ⟨file, word.token.span⟩
  | .falsehood word => .bool false ⟨file, word.token.span⟩
  | .name name => .name (name.ident file)
  | .list opening content closing => content.tree (place file opening.token closing.token)

/-- What the list at a position stands for. Chains of operands are grouped to the left. -/
def Content.tree : Content → Pos → Expr
  | .unary op _ operand, pos => .unary op operand.tree pos
  | .chain op _ first second rest, pos =>
    (second.tree :: Phrase.trees rest).foldl (fun lhs rhs => .binary op lhs rhs pos) first.tree
  | .ifThen _ test type yes, pos =>
    .ifThen test.tree (type.map (TypeName.tree file)) yes.tree pos
  | .ifThenElse _ test type yes no, pos =>
    .ifThenElse test.tree (type.map (TypeName.tree file)) yes.tree no.tree pos
  | .declare _ name type, pos => .declare (name.ident file) (type.tree file) pos
  | .define _ _ _ name init _ type, pos =>
    .define (name.ident file) (type.map (TypeName.tree file)) init.tree pos
  | .assign _ name value, pos => .assign (name.ident file) value.tree pos
  | .call name args, pos => .call (name.ident file) (Phrase.trees args) pos
  | .block opening first closing rest, pos =>
    .block (first.tree (place file opening.token closing.token) :: Phrase.trees rest) pos

/-- What expressions stand for. -/
def Phrase.trees : List Phrase → List Expr
  | [] => []
  | p :: ps => p.tree :: Phrase.trees ps

end

/-- The parameters of a group: all its names have the type behind them. -/
def Group.tree (g : Group) : List Param := g.names.map fun n => ⟨n.ident file, g.type.tree file⟩

/-- The parameters of a list that may be left out. -/
def paramsTree : Option Params → List Param
  | none => []
  | some params => params.groups.flatMap (Group.tree file)

/-- The declaration that is derived. -/
def Definition.tree (d : Definition) : Decl :=
  ⟨d.name.ident file, paramsTree file d.params, d.type.tree file, d.body.tree file,
    place file d.opening.token d.closing.token⟩

/-- The declarations of a file. -/
def File.tree (f : File) : List Decl := f.map (Definition.tree file)

end Trees

/-! ## Forms of derivations -/

/-- The forms of a type that may be left out. -/
def typeForms (type : Option TypeName) : List Form := (typeTokens type).map .atom

mutual

/-- The form of an expression. -/
def Phrase.form : Phrase → Form
  | .int literal _ _ => .atom literal.token
  | .truth word => .atom word.token
  | .falsehood word => .atom word.token
  | .name name => .atom name.token
  | .list opening content closing => .list opening.token content.forms closing.token

/-- The forms between two parentheses. -/
def Content.forms : Content → List Form
  | .unary _ operator operand => [.atom operator.token, operand.form]
  | .chain _ operator first second rest =>
    .atom operator.token :: first.form :: second.form :: Phrase.forms rest
  | .ifThen word test type yes => .atom word.token :: test.form :: (typeForms type ++ [yes.form])
  | .ifThenElse word test type yes no =>
    .atom word.token :: test.form :: (typeForms type ++ [yes.form, no.form])
  | .declare word name type => [.atom word.token, .atom name.token, .atom type.token]
  | .define word opening equals name init closing type =>
    .atom word.token ::
      .list opening.token [.atom equals.token, .atom name.token, init.form] closing.token ::
      typeForms type
  | .assign equals name value => [.atom equals.token, .atom name.token, value.form]
  | .call name args => .atom name.token :: Phrase.forms args
  | .block opening first closing rest =>
    .list opening.token first.forms closing.token :: Phrase.forms rest

/-- The forms of expressions. -/
def Phrase.forms : List Phrase → List Form
  | [] => []
  | p :: ps => p.form :: Phrase.forms ps

end

/-- The forms of a group. -/
def Group.forms (g : Group) : List Form := g.tokens.map .atom

/-- The form of a parameter list. -/
def Params.form (p : Params) : Form :=
  .list p.opening.token (p.groups.flatMap Group.forms) p.closing.token

/-- The forms of a parameter list that may be left out. -/
def paramsForms : Option Params → List Form
  | none => []
  | some params => [params.form]

/-- The forms between the parentheses of a declaration. -/
def Definition.items (d : Definition) : List Form :=
  .atom d.word.token :: .atom d.name.token ::
    (paramsForms d.params ++ [.atom d.type.token, d.body.form])

/-- The form of a declaration. -/
def Definition.form (d : Definition) : Form := .list d.opening.token d.items d.closing.token

end Grammar

end CalcLang
