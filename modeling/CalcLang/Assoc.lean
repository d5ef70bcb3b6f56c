/-!
# Association lists

A list of keys with values stands for the map that `List.lookup` reads from it.
-/

namespace CalcLang.Assoc

variable {α β : Type} [BEq α] [LawfulBEq α]

/-- Gives a key a value, in place of the one that it had. -/
def put (entries : List (α × β)) (key : α) (value : β) : List (α × β) :=
  (key, value) :: entries.filter fun e => e.1 != key

theorem lookup_filter_of_ne {entries : List (α × β)} {key other : α} (hne : other ≠ key) :
    (entries.filter fun e => e.1 != key).lookup other = entries.lookup other := by
  induction entries with
  | nil => rfl
  | cons e entries ih =>
    by_cases he : e.1 = key
    · have hother : (other == e.1) = false := beq_false_of_ne (he ▸ hne)
      rw [List.filter_cons_of_neg (by simp [he]), ih, List.lookup_cons, hother]
    · rw [List.filter_cons_of_pos (by simp [he]), List.lookup_cons, List.lookup_cons, ih]

theorem lookup_put_self (entries : List (α × β)) (key : α) (value : β) :
    (put entries key value).lookup key = some value := List.lookup_cons_self

theorem lookup_put_of_ne (entries : List (α × β)) {key other : α} (hne : other ≠ key) (value : β) :
    (put entries key value).lookup other = entries.lookup other := by
  rw [put, List.lookup_cons, beq_false_of_ne hne, lookup_filter_of_ne hne]

end CalcLang.Assoc
