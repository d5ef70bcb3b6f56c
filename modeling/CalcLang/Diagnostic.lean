import CalcLang.Span

/-!
# Diagnostics

A diagnostic is a mistake in a source text, or a failure to write the result, with the place it
is about. Its kind is the cause; `Diagnostic.Kind.code` and `Diagnostic.Kind.message` are the
wording. Every diagnostic is an error. Numbers in a diagnostic are words of 64 bits, and a message
counts arguments from 1: the last index of a word has no message, which `Diagnostic.message?`
reports as a fault.
-/

namespace CalcLang.Diagnostic

/-- Where two types were found to disagree. -/
inductive Context
  /-- An operand of an operator. -/
  | operand
  /-- The condition of an `if`. -/
  | condition
  /-- The branches of an `if`, or a branch and the type written on the `if`. -/
  | branches
  /-- The value of an assignment. -/
  | assignment
  /-- The initial value of a variable with a written type. -/
  | initializer
  /-- An argument of a call, counted from 0. -/
  | argument (index : Nat)
  /-- The body of a declaration. -/
  | result
  deriving DecidableEq, Repr

/-- The name of a context in messages. -/
def Context.text : Context → String
  | .operand => "operand"
  | .condition => "condition"
  | .branches => "if branches"
  | .assignment => "assignment"
  | .initializer => "initializer"
  | .argument index => s!"argument {index + 1}"
  | .result => "return value"

/-- Whether what a context counts fits into 64 bits. -/
def Context.IsCountable : Context → Prop
  | .argument index => index + 1 < 18446744073709551616
  | _ => True

instance : (context : Context) → Decidable context.IsCountable
  | .argument index => inferInstanceAs (Decidable (index + 1 < 18446744073709551616))
  | .operand | .condition | .branches | .assignment | .initializer | .result => .isTrue trivial

/-- The cause of a diagnostic. -/
inductive Kind
  /-- Malformed source text. -/
  | parse (message : String)
  /-- A name that no enclosing scope binds. -/
  | unresolvedName (name : String)
  /-- A name that its own scope binds already, at `previous`. -/
  | redeclaration (name : String) (previous : Pos)
  /-- Two types, given by name, that should agree. -/
  | typeMismatch (expected found : String) (context : Context)
  /-- A call with a wrong number of arguments. -/
  | arityMismatch (name : String) (expected found : Nat)
  /-- A call of something that is not a declaration. -/
  | notCallable (name : String)
  /-- An assignment to a declaration. -/
  | notAssignable (name : String)
  /-- A declaration read as if it were a variable. -/
  | notAValue (name : String)
  /-- A package without the declaration that a program starts with. -/
  | missingEntry (name : String)
  /-- A node for which no code can be generated. -/
  | internalUnreachable (what : String)
  /-- A failure to write the output. -/
  | write (message : String)
  deriving DecidableEq, Repr

namespace Kind

/-- The code that identifies a kind of diagnostic. -/
def code : Kind → String
  | parse _ => "E0001"
  | unresolvedName _ => "E0002"
  | redeclaration _ _ => "E0003"
  | typeMismatch _ _ _ => "E0004"
  | arityMismatch _ _ _ => "E0005"
  | notCallable _ => "E0006"
  | notAssignable _ => "E0007"
  | missingEntry _ => "E0008"
  | notAValue _ => "E0009"
  | internalUnreachable _ => "E0900"
  | write _ => "E0901"

/-- The message of a diagnostic. -/
def message : Kind → String
  | parse message => message
  | unresolvedName name => "unresolved name `" ++ name ++ "`"
  | redeclaration name _ => "`" ++ name ++ "` is already declared in this scope"
  | typeMismatch expected found context =>
    "type mismatch in " ++ context.text ++ ": expected " ++ expected ++ ", found " ++ found
  | arityMismatch name expected found =>
    "`" ++ name ++ s!"` expects {expected} argument(s), found {found}"
  | notCallable name => "`" ++ name ++ "` is not a declaration and cannot be called"
  | notAssignable name => "cannot assign to `" ++ name ++ "`: not a variable or parameter"
  | notAValue name => "`" ++ name ++ "` is a declaration and must be called"
  | missingEntry name => "no entry declaration `" ++ name ++ "` in package"
  | internalUnreachable what => "internal compiler error: unreachable " ++ what
  | write message => "failed to write output: " ++ message

/-- Whether all that the message of a kind counts fits into 64 bits. -/
def IsCountable : Kind → Prop
  | typeMismatch _ _ context => context.IsCountable
  | _ => True

instance : (kind : Kind) → Decidable kind.IsCountable
  | typeMismatch _ _ context => inferInstanceAs (Decidable context.IsCountable)
  | parse _ | unresolvedName _ | redeclaration _ _ | arityMismatch _ _ _ | notCallable _
  | notAssignable _ | notAValue _ | missingEntry _ | internalUnreachable _ | write _ =>
    .isTrue trivial

/-- What a report writes beside the place of a diagnostic. -/
def label : Kind → String
  | typeMismatch expected found _ => "expected " ++ expected ++ ", found " ++ found
  | redeclaration name _ => "`" ++ name ++ "` declared again here"
  | unresolvedName _ => "not found in this scope"
  | arityMismatch _ expected _ => s!"expected {expected} argument(s)"
  | kind => kind.message

end Kind

end Diagnostic

/-- A mistake and its place. -/
structure Diagnostic where
  kind : Diagnostic.Kind
  pos : Pos
  deriving DecidableEq, Repr

namespace Diagnostic

/-- The code of a diagnostic. -/
def code (d : Diagnostic) : String := d.kind.code

/-- The message of a diagnostic. -/
def message (d : Diagnostic) : String := d.kind.message

/-- The message of a diagnostic, provided that what it counts fits into a word. -/
def message? (d : Diagnostic) : Except Fault String :=
  if d.kind.IsCountable then .ok d.message else .error .addOverflow

end Diagnostic

end CalcLang
