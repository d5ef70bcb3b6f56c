import CalcLang.C.Effects
import CalcLang.Proofs.C.Operators

/-!
# Calls of evaluations and of executions

Both an evaluation and an execution show the calls that are made. They make the same calls in the
same order but for one case: C does not evaluate the right operand of `&&` and `||` if the left one
decides, so what is still pending of the right operand (`valueCalls`) is skipped there.
`Follows names E T` compares the events `E` of an evaluation with the calls `T` of an execution.
-/

namespace CalcLang.C

open Evaluation

/-- What C shows of an event. The declarations have the names `names`. -/
def seen (names : List String) : Event → Option Call
  | .call callee args => names[callee.index]?.map fun name => ⟨name, args.map encode⟩
  | _ => none

/-- Whether C skips a call at an event. -/
def skips : Event → Bool
  | .decided right => valueCalls right
  | _ => false

/-- The calls are some of those in the events, in their order, and all of them exactly if C skips
none. -/
structure Follows (names : List String) (E : List Event) (T : List Call) : Prop where
  sublist : T.Sublist (E.filterMap (seen names))
  eq_iff : T = E.filterMap (seen names) ↔ E.any skips = false

namespace Follows

variable {names : List String} {E E' : List Event} {T T' : List Call}

theorem nil : Follows names [] [] := ⟨.refl _, by simp⟩

theorem append (h : Follows names E T) (h' : Follows names E' T') :
    Follows names (E ++ E') (T ++ T') := by
  constructor
  · rw [List.filterMap_append]
    exact h.sublist.append h'.sublist
  · rw [List.filterMap_append, List.any_append, Bool.or_eq_false_iff, ← h.eq_iff, ← h'.eq_iff]
    constructor
    · intro heq
      have hlen : T.length = (E.filterMap (seen names)).length := by
        have := congrArg List.length heq
        rw [List.length_append, List.length_append] at this
        have := h.sublist.length_le
        have := h'.sublist.length_le
        omega
      exact List.append_inj heq hlen
    · rintro ⟨h₁, h₂⟩
      exact h₁ ▸ h₂ ▸ rfl

/-- A call and what is seen of it. -/
theorem call {callee : DeclId} {name : String} (hname : names[callee.index]? = some name)
    (args : List Value) (h : Follows names E T) :
    Follows names (.call callee args :: E) (⟨name, args.map encode⟩ :: T) := by
  have hseen : seen names (.call callee args) = some ⟨name, args.map encode⟩ := by
    rw [seen, hname, Option.map_some]
  constructor
  · rw [List.filterMap_cons_some hseen]
    exact h.sublist.cons_cons _
  · have hskips : skips (.call callee args) = false := rfl
    rw [List.filterMap_cons_some hseen, List.cons.injEq, h.eq_iff, List.any_cons, hskips,
      Bool.false_or]
    exact and_iff_right rfl

/-- Events that are no calls add nothing. -/
theorem silent (h : Follows names E T) {e : Event} (he : seen names e = none)
    (hs : skips e = false) : Follows names (E ++ [e]) T := by
  constructor
  · simpa [List.filterMap_append, he] using h.sublist
  · simpa [List.filterMap_append, he, hs] using h.eq_iff

/-- The calls `T'` that are pending on the right are skipped. -/
theorem decided (h : Follows names E (T ++ T')) {right : Node}
    (hpending : T' = [] ↔ valueCalls right = false) : Follows names (E ++ [.decided right]) T := by
  have hE : (E ++ [Event.decided right]).filterMap (seen names) = E.filterMap (seen names) := by
    simp [List.filterMap_append, seen]
  constructor
  · rw [hE]
    exact (List.sublist_append_left T T').trans h.sublist
  · rw [hE, List.any_append, Bool.or_eq_false_iff, List.any_cons, List.any_nil, Bool.or_false,
      skips, ← hpending]
    constructor
    · intro heq
      have hnil : T' = [] := by
        have := h.sublist.length_le
        rw [← heq, List.length_append] at this
        exact List.eq_nil_of_length_eq_zero (by omega)
      rw [hnil, List.append_nil] at h
      exact ⟨h.eq_iff.1 heq, hnil⟩
    · rintro ⟨hE', rfl⟩
      rw [List.append_nil] at h
      exact h.eq_iff.2 hE'

end Follows

end CalcLang.C
