import CalcLang.Package

/-!
# Listings

`Package.listing` writes a package in the syntax of source texts, one declaration a line. A node
that carries a tag is followed by `#` and its number, and a variable shows the type that was
found for it.
-/

namespace CalcLang

namespace Listing

/-- A tag behind its node. -/
def tagText : Option Tag → String
  | some tag => s!"#{tag.number}"
  | none => ""

/-- The type on an `if`, with the blank before it. -/
def writtenText : Option Ty → String
  | some ty => " " ++ ty.name
  | none => ""

/-- The type and the tag of a variable. -/
def variableEnd (symbols : Symbols) (symbol : SymbolId) : String :=
  " " ++ Ty.nameOf (symbols.ty symbol) ++ ")" ++ tagText (symbols.tag symbol)

mutual

/-- The text of a node. -/
def nodeText (symbols : Symbols) : Node → String
  | .const value _ => value.text
  | .read name _ _ _ => name
  | .error _ => "<error>"
  | .binary op lhs rhs _ tag _ =>
    "(" ++ op.symbol ++ " " ++ nodeText symbols lhs ++ " " ++ nodeText symbols rhs ++ ")"
      ++ tagText tag
  | .unary op operand _ _ => "(" ++ op.symbol ++ " " ++ nodeText symbols operand ++ ")"
  | .call name _ args _ _ => "(" ++ " ".intercalate (name :: nodeTexts symbols args) ++ ")"
  | .ifThen test written yes _ tag _ =>
    "(if " ++ nodeText symbols test ++ writtenText written ++ " " ++ nodeText symbols yes ++ ")"
      ++ tagText tag
  | .ifThenElse test written yes no _ tag _ =>
    "(if " ++ nodeText symbols test ++ writtenText written ++ " " ++ nodeText symbols yes ++ " "
      ++ nodeText symbols no ++ ")" ++ tagText tag
  | .block nodes _ _ => "(" ++ " ".intercalate (nodeTexts symbols nodes) ++ ")"
  | .assign name _ value _ _ => "(= " ++ name ++ " " ++ nodeText symbols value ++ ")"
  | .declare name symbol _ _ => "(var " ++ name ++ variableEnd symbols symbol
  | .define name symbol _ init _ =>
    "(var (= " ++ name ++ " " ++ nodeText symbols init ++ ")" ++ variableEnd symbols symbol

/-- The texts of a list of nodes. -/
def nodeTexts (symbols : Symbols) : List Node → List String
  | [] => []
  | node :: nodes => nodeText symbols node :: nodeTexts symbols nodes

end

/-- The name of a symbol. -/
def nameText (symbols : Symbols) (symbol : SymbolId) : String :=
  match symbols.get? symbol with
  | some s => s.name
  | none => ""

/-- The text of a parameter. -/
def paramText (symbols : Symbols) (param : SymbolId) : String :=
  "(" ++ nameText symbols param ++ variableEnd symbols param

/-- The line of a declaration. -/
def declText (symbols : Symbols) (d : Declaration) : String :=
  "(decl " ++ d.name ++ " (" ++ " ".intercalate (d.params.map (paramText symbols)) ++ ") "
    ++ d.ret.name ++ " " ++ nodeText symbols d.body ++ ")\n"

end Listing

/-- The text of a package. -/
def Package.listing (p : Package) : String :=
  "package " ++ p.name ++ "\n" ++ String.join (p.decls.map (Listing.declText p.symbols))

end CalcLang
