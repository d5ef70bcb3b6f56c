/-!
# Types

The language has the two scalar types `int` and `bool`. A node or a symbol whose type could not
be found, or has not been looked for yet, has the type `none : Option Ty`; its name in messages
and listings is `invalid`.
-/

namespace CalcLang

/-- A scalar type. -/
inductive Ty
  | int
  | bool
  deriving DecidableEq, Repr, Inhabited

namespace Ty

/-- The name of a type in source texts and messages. -/
def name : Ty → String
  | int => "int"
  | bool => "bool"

/-- The name of a type that may be missing. -/
def nameOf : Option Ty → String
  | some t => t.name
  | none => "invalid"

end Ty

end CalcLang
