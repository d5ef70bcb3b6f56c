/-!
# Words

The integers of the language: those that fit into 32 bits with a sign. `Word.ofInt?` is the one
way into the type, so an operation on words is an operation on integers followed by a range
check.
-/

namespace CalcLang

/-- An integer between `-2147483648` and `2147483647`. -/
structure Word where
  val : Int
  inRange : -2147483648 ≤ val ∧ val ≤ 2147483647
  deriving DecidableEq, Repr

namespace Word

/-- The word with a given value, if it is in range. -/
def ofInt? (n : Int) : Option Word :=
  if h : -2147483648 ≤ n ∧ n ≤ 2147483647 then some ⟨n, h⟩ else none

/-- The word `0`. -/
def zero : Word := ⟨0, by decide⟩

instance : Inhabited Word := ⟨zero⟩

/-- The least word. -/
def least : Word := ⟨-2147483648, by decide⟩

/-- The decimal numeral of a word. -/
def text (w : Word) : String := toString w.val

@[ext]
theorem ext {v w : Word} (h : v.val = w.val) : v = w := by
  cases v; cases w; cases h; rfl

@[simp]
theorem ofInt?_val (w : Word) : ofInt? w.val = some w := by
  simp [ofInt?, w.inRange]

theorem ofInt?_eq_some_iff {n : Int} {w : Word} : ofInt? n = some w ↔ w.val = n := by
  constructor
  · intro h
    unfold ofInt? at h
    split at h
    · cases h; rfl
    · cases h
  · rintro rfl
    exact ofInt?_val w

end Word

end CalcLang
