/-!
# Readers

A reader takes a beginning off a list of characters, or fails. Readers are put together in the
monad of a state that can fail; `many` repeats a reader as long as it makes progress, so a
repetition always ends.
-/

namespace CalcLang.Toml

/-- Reads an `α` off the beginning of a list of characters. -/
abbrev Reader (α : Type) := StateT (List Char) Option α

namespace Reader

/-- A character that satisfies `p`. -/
def satisfy (p : Char → Bool) : Reader Char
  | [] => none
  | c :: cs => if p c then some (c, cs) else none

/-- The character `c`. -/
def char (c : Char) : Reader Char := satisfy (· == c)

/-- The characters of a list. -/
def literal : List Char → Reader Unit
  | [] => pure ()
  | c :: cs => do
    let _ ← char c
    literal cs

/-- The longest beginning whose characters satisfy `p`. -/
def takeWhile (p : Char → Bool) : Reader (List Char) := fun cs =>
  some (cs.takeWhile p, cs.dropWhile p)

/-- The longest beginning whose characters satisfy `p`, if it is not empty. -/
def takeSome (p : Char → Bool) : Reader (List Char) := do
  let first ← satisfy p
  let rest ← takeWhile p
  return first :: rest

/-- The end of the text. -/
def eof : Reader Unit := fun cs => if cs.isEmpty then some ((), cs) else none

/-- Fails unless a condition holds. -/
def require (condition : Bool) : Reader Unit := if condition then pure () else failure

/-- Repeats a reader on a list of characters until it fails or makes no progress. -/
def manyFrom {α : Type} (p : Reader α) (cs : List Char) : List α × List Char :=
  match p cs with
  | none => ([], cs)
  | some (a, rest) =>
    if rest.length < cs.length then
      let others := manyFrom p rest
      (a :: others.1, others.2)
    else ([a], rest)
termination_by cs.length

/-- Repeats a reader until it fails or makes no progress. -/
def many {α : Type} (p : Reader α) : Reader (List α) := fun cs => some (manyFrom p cs)

/-- Items with separators between them, at least one. -/
def separated {α β : Type} (separator : Reader β) (item : Reader α) : Reader (List α) := do
  let first ← item
  let others ← many do
    let _ ← separator
    item
  return first :: others

end Reader

end CalcLang.Toml
