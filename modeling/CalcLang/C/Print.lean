import CalcLang.C.Program

/-!
# The text of C programs

Statements take a line each and are indented by four blanks for each block around them.
-/

namespace CalcLang.C

/-- The name of a C type. -/
def CType.text : CType → String
  | int32 => "int32_t"
  | bool => "bool"
  | int => "int"

/-- The name of a temporary. A missing one reads as zero. -/
def Temp.text : Temp → String
  | tagged tag => s!"_v{tag.number}"
  | spill number => s!"_t{number}"
  | missing => "0"

/-- The name of the function of a declaration. -/
def functionName (name : String) : String := "_" ++ name

/-- A list of arguments or parameters in parentheses. -/
def parens (items : List String) : String := "(" ++ ", ".intercalate items ++ ")"

/-- The text of an integer literal. The least word has no literal of its own in C, where the
sign is an operator and the digits alone are out of range. -/
def wordText (w : Word) : String :=
  if w = .least then "(-2147483647 - 1)" else w.text

mutual

/-- The text of an expression. -/
def Expr.text : Expr → String
  | .int value => wordText value
  | .bool value => if value then "true" else "false"
  | .temp t => t.text
  | .unary op operand => op.symbol ++ "(" ++ Expr.text operand ++ ")"
  | .call name args => functionName name ++ parens (Expr.texts args)

/-- The texts of a list of expressions. -/
def Expr.texts : List Expr → List String
  | [] => []
  | e :: es => Expr.text e :: Expr.texts es

end

/-- The text of what a temporary is declared with. -/
def Init.text : Init → String
  | expr value => value.text
  | binary op lhs rhs => lhs.text ++ " " ++ op.symbol ++ " " ++ rhs.text

/-- A line at a given depth of blocks. -/
def line (depth : Nat) (text : String) : String :=
  String.ofList (List.replicate (4 * depth) ' ') ++ text ++ "\n"

mutual

/-- The lines of a statement. -/
def Stmt.text (depth : Nat) : Stmt → String
  | .declare ty t init => line depth (ty.text ++ " " ++ t.text ++ " = " ++ init.text ++ ";")
  | .assign t value => line depth (t.text ++ " = " ++ value.text ++ ";")
  | .eval value => line depth (value.text ++ ";")
  | .ifThen test yes =>
    line depth ("if (" ++ test.text ++ ") \x7b") ++ Stmt.texts (depth + 1) yes ++ line depth "\x7d"
  | .ifThenElse test yes no =>
    line depth ("if (" ++ test.text ++ ") \x7b") ++ Stmt.texts (depth + 1) yes
      ++ line depth "\x7d else \x7b" ++ Stmt.texts (depth + 1) no ++ line depth "\x7d"

/-- The lines of statements one after the other. -/
def Stmt.texts (depth : Nat) : List Stmt → String
  | [] => ""
  | s :: ss => Stmt.text depth s ++ Stmt.texts depth ss

end

/-- The head of a function. -/
def Signature.text (s : Signature) : String :=
  let params := s.params.map fun p => p.1.text ++ " " ++ p.2.text
  s.ret.text ++ " " ++ functionName s.name ++ parens (if params.isEmpty then ["void"] else params)

/-- The lines of a function. -/
def Function.text (f : Function) : String :=
  line 0 (f.signature.text ++ " \x7b") ++ Stmt.texts 1 f.body
    ++ line 1 ("return " ++ f.result.text ++ ";") ++ line 0 "\x7d"

/-- The lines of the `main` function that prints the value of the entry. -/
def Entry.text (e : Entry) : String :=
  line 0 "int main(void) \x7b"
    ++ line 1 ("printf(\"%d\\n\", " ++ functionName e.name ++ parens (Expr.texts e.args) ++ ");")
    ++ line 1 "return 0;" ++ line 0 "\x7d"

/-- What every program starts with. -/
def preamble : String :=
  line 0 "#include <stdio.h>" ++ line 0 "#include <stdint.h>" ++ line 0 "#include <stdbool.h>"

/-- The text of a program. -/
def Program.text (p : Program) : String :=
  preamble ++ "\n" ++ String.join (p.heads.map fun s => line 0 (s.text ++ ";"))
    ++ String.join (p.functions.map fun f => "\n" ++ f.text) ++ "\n"
    ++ match p.entry with
      | some e => e.text
      | none => ""

end CalcLang.C
