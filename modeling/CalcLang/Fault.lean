import CalcLang.Stage
import CalcLang.Text.Quoted

/-!
# Faults

A fault says that a caller broke a precondition: it asked for an inverted span, for a scope
that does not exist, for a number that does not fit into a word, for a text cut in the middle of
a character, or for a stage of the compiler on a package that is not ready for it. Faults are not
diagnostics: they never describe a mistake in a source text.
-/

namespace CalcLang

/-- An end of a part of a text. -/
inductive Bound
  | start
  | stop
  deriving DecidableEq, Repr

/-- The name of an end in messages. -/
def Bound.name : Bound → String
  | .start => "start"
  | .stop => "end"

/-- A broken precondition. -/
inductive Fault
  /-- A span that would end before it starts. -/
  | invertedSpan (start stop : Nat)
  /-- An index past the end of a table. -/
  | outOfBounds (length index : Nat)
  /-- A sum that does not fit into a word. -/
  | addOverflow
  /-- A part of a text that starts or ends at an offset inside the character `c`, which takes the
  bytes from `start` up to `stop`. -/
  | cutInside (bound : Bound) (offset : Nat) (c : Char) (start stop : Nat)
  /-- A part of a text that starts or ends behind the end of the text. -/
  | cutBeyond (bound : Bound) (offset length : Nat)
  /-- A package was to be type checked at a stage other than `Stage.built`. -/
  | alreadyChecked (package : String) (stage : Stage)
  /-- A package was to be folded before it was checked or after it was tagged. -/
  | notFoldable (package : String)
  /-- A package was to be tagged before it was checked. -/
  | notChecked (package : String)
  /-- Code was to be generated for a package that carries no tags. -/
  | notTagged (package : String) (stage : Stage)
  deriving DecidableEq, Repr

namespace Fault

/-- The report of two values that were required to be equal. -/
def unequal (what left right : String) : String :=
  "assertion `left == right` failed: " ++ what ++ "\n  left: " ++ left ++ "\n right: " ++ right

/-- The text of a fault. -/
def message : Fault → String
  | invertedSpan start stop => s!"inverted span {start}..{stop}"
  | outOfBounds length index =>
    s!"index out of bounds: the len is {length} but the index is {index}"
  | addOverflow => "attempt to add with overflow"
  | cutInside bound offset c start stop =>
    s!"{bound.name} byte index {offset} is not a char boundary; it is inside " ++
      Text.quotedAlone c ++ s!" (bytes {start}..{stop} of string)"
  | cutBeyond bound offset length =>
    s!"{bound.name} byte index {offset} is out of bounds for string of length {length}"
  | alreadyChecked package stage =>
    unequal ("package `" ++ package ++ "` checked twice") stage.name Stage.built.name
  | notFoldable package => "package `" ++ package ++ "` must be checked and untagged before folding"
  | notChecked package => "package `" ++ package ++ "` must be checked before tagging"
  | notTagged package stage =>
    unequal ("package `" ++ package ++ "` must be tagged before code generation")
      stage.name Stage.tagged.name

end Fault

end CalcLang
