import CalcLang.Proofs.Relocation
import CalcLang.Proofs.Scanning
import Mathlib.Data.List.TakeWhile

/-!
# Excerpts

A token depends on its own characters and on the one behind them (`Token.munch_local`). So a text
that is cut off behind a closing parenthesis keeps its tokens up to there, and what is left of it
from the start of a token on has the tokens from there on. Together: the part of a text between the
ends of two of its tokens, the last of them a closing parenthesis, has the same tokens as the text
has there, up to the offset (`Token.scan_excerpt`).
-/

namespace CalcLang

/-- A span lies between two offsets, and does not end before it starts. -/
def Span.Within (s : Span) (lo hi : Nat) : Prop := lo ≤ s.start ∧ s.start ≤ s.stop ∧ s.stop ≤ hi

namespace Token

open Text (byteLength byteLength_append byteLength_cons byteLength_eq)

/-! ## Characters behind a token -/

theorem dropWhile_eq_of_append {p : Char → Bool} {cs kept behind : List Char} (hkept : kept ≠ [])
    (h : (cs ++ behind).dropWhile p = kept ++ behind) :
    cs.dropWhile p = kept ∧ (cs ++ behind).takeWhile p = cs.takeWhile p := by
  have hdrop : cs.dropWhile p = kept := by
    rw [List.dropWhile_append] at h
    split at h
    · have hlength := congrArg List.length h
      have hle := (List.dropWhile_sublist (l := behind) p).length_le
      rw [List.length_append] at hlength
      exact absurd (List.length_eq_zero_iff.1 (by omega)) hkept
    · exact List.append_cancel_right h
  refine ⟨hdrop, ?_⟩
  have hsplit := List.takeWhile_append_dropWhile (p := p) (l := cs ++ behind)
  rw [h, ← List.append_assoc] at hsplit
  have hcs := (List.append_cancel_right hsplit).trans
    (List.takeWhile_append_dropWhile (p := p) (l := cs)).symm
  rw [hdrop] at hcs
  exact List.append_cancel_right hcs

namespace Munch

/-- A rule for tokens looks no further than one character behind the token. -/
def Local (rule : List Char → Munch) : Prop :=
  ∀ cs kept behind, kept ≠ [] → (rule (cs ++ behind)).rest = kept ++ behind →
    rule cs = ⟨(rule (cs ++ behind)).kind, (rule (cs ++ behind)).taken, kept⟩

theorem ne_nil_of_rest {m : Munch} {cs kept behind : List Char} (hkept : kept ≠ [])
    (hrest : m.rest = kept ++ behind) (hsplit : m.taken ++ m.rest = cs ++ behind) : cs ≠ [] := by
  rintro rfl
  have hlength := congrArg List.length hsplit
  rw [hrest] at hlength
  simp only [List.length_append, List.length_nil] at hlength
  exact hkept (List.length_eq_zero_iff.1 (by omega))

theorem ite_local {p : Prop} [Decidable p] {f g : List Char → Munch} (hf : Local f) (hg : Local g) :
    Local fun cs => if p then f cs else g cs := by
  by_cases h : p
  · simpa only [if_pos h] using hf
  · simpa only [if_neg h] using hg

theorem single_local (kind : TokenKind) : Local (single kind) := by
  intro cs kept behind _ hrest
  rw [← List.append_cancel_right hrest]
  rfl

theorem run_local (kind : TokenKind) (p : Char → Bool) : Local (run kind p) := by
  intro cs kept behind hkept hrest
  obtain ⟨hdrop, htake⟩ := dropWhile_eq_of_append hkept hrest
  simp only [run, hdrop, htake]

theorem either_local (second : Char) (double lone : TokenKind) :
    Local (either second double lone) := by
  intro cs kept behind hkept hrest
  cases cs with
  | nil => exact absurd rfl (ne_nil_of_rest hkept hrest (either_taken_append_rest ..))
  | cons c cs =>
    rw [List.cons_append, either] at hrest ⊢
    rw [either]
    split at hrest
    · next hc => rw [if_pos hc, if_pos hc, List.append_cancel_right hrest]
    · next hc =>
      rw [if_neg hc, if_neg hc]
      exact single_local lone (c :: cs) kept behind hkept hrest

theorem name_local (c : Char) : Local (name c) := by
  intro cs kept behind hkept hrest
  obtain ⟨hdrop, htake⟩ := dropWhile_eq_of_append hkept hrest
  simp only [name, run, hdrop, htake]

theorem number_local : Local number := by
  intro cs kept behind hkept hrest
  cases hdigits : cs.dropWhile Char.isDigit with
  | nil =>
    -- A number that takes all of the characters leaves nothing of them.
    have hall : ∀ c ∈ cs, c.isDigit := List.dropWhile_eq_nil_iff.1 hdigits
    have hleft : ∀ (kind : TokenKind) (p : Char → Bool), (∀ c ∈ cs, p c) →
        (run kind p (cs ++ behind)).rest ≠ kept ++ behind := by
      intro kind p hp hrun
      obtain ⟨hdrop, -⟩ := dropWhile_eq_of_append hkept hrun
      exact hkept (hdrop.symm.trans (List.dropWhile_eq_nil_iff.2 hp))
    have hname : ∀ c ∈ cs, isNameChar c := fun c hc => by
      simp [isNameChar, Char.isAlphanum, hall c hc]
    unfold number at hrest
    split at hrest
    · exact absurd hrest (hleft _ _ hall)
    · split at hrest
      · exact absurd hrest (hleft _ _ hname)
      · exact absurd hrest (hleft _ _ hall)
  | cons c rest =>
    have hbehind : (cs ++ behind).dropWhile Char.isDigit = c :: (rest ++ behind) := by
      simp [List.dropWhile_append, hdigits]
    simp only [number, hbehind, hdigits] at hrest ⊢
    exact ite_local (run_local _ _) (run_local _ _) _ _ _ hkept hrest

end Munch

theorem munch_local (c : Char) : Munch.Local (munch c) := by
  intro cs kept behind hkept hrest
  have hdigit : startsWithDigit (cs ++ behind) = startsWithDigit cs := by
    cases cs with
    | nil => exact absurd rfl (Munch.ne_nil_of_rest hkept hrest (munch_taken_append_rest c _))
    | cons d cs => rfl
  unfold munch at hrest ⊢
  rw [hdigit] at hrest ⊢
  split at hrest
  all_goals first
    | exact Munch.single_local _ _ _ _ hkept hrest
    | exact Munch.either_local _ _ _ _ _ _ hkept hrest
    | exact Munch.run_local _ _ _ _ _ hkept hrest
    | skip
  · exact Munch.ite_local Munch.number_local (Munch.single_local _) _ _ _ hkept hrest
  · exact Munch.ite_local Munch.number_local
      (Munch.ite_local (Munch.name_local _) (Munch.single_local _)) _ _ _ hkept hrest

/-! ## Parts of texts -/

/-- A text has no more tokens than bytes, the end of the text aside. -/
theorem length_scanFrom_le (offset : Nat) (cs : List Char) :
    (scanFrom offset cs).length ≤ byteLength cs + 1 := by
  induction offset, cs using scanFrom.induct with
  | case1 offset => simp [scanFrom, byteLength]
  | case2 offset c cs hblank ih =>
    rw [scanFrom, if_pos hblank, byteLength_cons]
    omega
  | case3 offset c cs hblank m stop ih =>
    have hsize := c.utf8Size_pos
    have hlength : byteLength m.taken + byteLength m.rest = byteLength cs := by
      rw [← byteLength_append, munch_taken_append_rest]
    rw [scanFrom, if_neg hblank, byteLength_cons, List.length_cons]
    change (scanFrom stop m.rest).length + 1 ≤ _
    omega

/-- A text can be scanned in two parts, the second of which starts with a given token. -/
theorem scanFrom_split {offset : Nat} {cs : List Char} {ts us : List Token} {t : Token}
    (h : scanFrom offset cs = ts ++ t :: us) (ht : t.kind ≠ .eof) :
    ∃ before behind, cs = before ++ behind ∧ offset + byteLength before = t.span.start ∧
      scanFrom t.span.start behind = t :: us := by
  induction offset, cs using scanFrom.induct generalizing ts with
  | case1 offset =>
    rw [scanFrom] at h
    cases ts with
    | nil =>
      cases h
      exact absurd rfl ht
    | cons u ts => simp at h
  | case2 offset c cs hblank ih =>
    rw [scanFrom, if_pos hblank] at h
    obtain ⟨before, behind, rfl, hstart, hscan⟩ := ih h
    exact ⟨c :: before, behind, rfl, by rw [← hstart, byteLength_cons, Nat.add_assoc], hscan⟩
  | case3 offset c cs hblank m stop =>
    rename_i ih
    have hscan := h
    rw [scanFrom, if_neg hblank] at h
    cases ts with
    | nil =>
      cases h
      exact ⟨[], c :: cs, rfl, rfl, hscan⟩
    | cons u ts =>
      obtain ⟨before, behind, hrest, hstart, hscan⟩ := ih (List.cons.inj h).2
      refine ⟨c :: (m.taken ++ before), behind, ?_, ?_, hscan⟩
      · rw [List.cons_append, List.append_assoc, ← hrest, munch_taken_append_rest]
      · rw [← hstart, byteLength_cons, byteLength_append]
        simp only [stop, Nat.add_assoc]

/-- A text that is cut off behind a closing parenthesis has the same tokens up to there. -/
theorem scanFrom_cut {offset : Nat} {cs : List Char} {ts us : List Token} {t : Token}
    (h : scanFrom offset cs = ts ++ t :: us) (ht : t.kind = .rightParen) :
    ∃ before behind, cs = before ++ behind ∧ offset + byteLength before = t.span.stop ∧
      before ≠ [] ∧
      scanFrom offset before = ts ++ [t, ⟨.eof, ⟨t.span.stop, t.span.stop⟩, ""⟩] := by
  induction offset, cs using scanFrom.induct generalizing ts with
  | case1 offset =>
    rw [scanFrom] at h
    cases ts with
    | nil =>
      cases h
      cases ht
    | cons u ts => simp at h
  | case2 offset c cs hblank ih =>
    rw [scanFrom, if_pos hblank] at h
    obtain ⟨before, behind, rfl, hstop, -, hscan⟩ := ih h
    refine ⟨c :: before, behind, rfl, ?_, List.cons_ne_nil _ _, ?_⟩
    · rw [← hstop, byteLength_cons, Nat.add_assoc]
    · rw [scanFrom, if_pos hblank, hscan]
  | case3 offset c cs hblank m stop =>
    rename_i ih
    rw [scanFrom, if_neg hblank] at h
    cases ts with
    | nil =>
      obtain ⟨rfl, -⟩ := List.cons.inj h
      obtain rfl := eq_of_munch_kind ht
      refine ⟨[')'], cs, rfl, rfl, List.cons_ne_nil _ _, ?_⟩
      rw [scanFrom, if_neg hblank]
      simp [munch, Munch.single, scanFrom]
    | cons u ts =>
      obtain ⟨hu, hts⟩ := List.cons.inj h
      obtain ⟨before, behind, hrest, hstop, hne, hscan⟩ := ih hts
      have hcs : cs = m.taken ++ before ++ behind := by
        rw [List.append_assoc, ← hrest, munch_taken_append_rest]
      have hm := munch_local c (m.taken ++ before) before behind hne (by rw [← hcs]; exact hrest)
      refine ⟨c :: (m.taken ++ before), behind, by rw [hcs]; rfl, ?_, List.cons_ne_nil _ _, ?_⟩
      · rw [← hstop, byteLength_cons, byteLength_append]
        simp only [stop, Nat.add_assoc]
      · rw [← hcs] at hm
        rw [scanFrom, if_neg hblank, hm, List.cons_append, ← hscan, ← hu]

/-- A text further to the right has the same tokens further to the right. -/
theorem scanFrom_shift (k offset : Nat) (cs : List Char) :
    scanFrom (offset + k) cs = (scanFrom offset cs).map (Relocation.shift k).token := by
  induction offset, cs using scanFrom.induct with
  | case1 offset =>
    rw [scanFrom, scanFrom]
    rfl
  | case2 offset c cs hblank ih =>
    rw [scanFrom, scanFrom, if_pos hblank, if_pos hblank, ← ih, Nat.add_right_comm]
  | case3 offset c cs hblank m stop ih =>
    have hstop : offset + k + c.utf8Size + byteLength (munch c cs).taken = stop + k := by
      simp only [stop, m]
      omega
    rw [scanFrom, scanFrom, if_neg hblank, if_neg hblank, List.map_cons, ← ih]
    simp only [hstop]
    rfl

/-- The tokens of a text do not leave it. -/
theorem within_of_mem_scanFrom {offset : Nat} {cs : List Char} {t : Token}
    (h : t ∈ scanFrom offset cs) : t.span.Within offset (offset + byteLength cs) := by
  induction offset, cs using scanFrom.induct with
  | case1 offset =>
    rw [scanFrom, List.mem_singleton] at h
    subst h
    exact ⟨Nat.le_refl _, Nat.le_refl _, Nat.le_refl _⟩
  | case2 offset c cs hblank ih =>
    rw [scanFrom, if_pos hblank] at h
    obtain ⟨hstart, hordered, hstop⟩ := ih h
    rw [byteLength_cons]
    exact ⟨by omega, hordered, by omega⟩
  | case3 offset c cs hblank m stop ih =>
    have hlength : byteLength m.taken + byteLength m.rest = byteLength cs := by
      rw [← byteLength_append, munch_taken_append_rest]
    rw [scanFrom, if_neg hblank] at h
    rw [byteLength_cons]
    rcases List.mem_cons.1 h with rfl | h
    · change offset ≤ offset ∧ offset ≤ stop ∧ stop ≤ _
      exact ⟨Nat.le_refl _, by omega, by omega⟩
    · obtain ⟨hstart, hordered, hstop⟩ := ih h
      exact ⟨by omega, hordered, by omega⟩

theorem within_of_mem_scan {text : String} {t : Token} (h : t ∈ scan text) :
    t.span.Within 0 text.utf8ByteSize := by
  have hwithin := within_of_mem_scanFrom h
  rwa [byteLength_eq, String.ofList_toList, Nat.zero_add] at hwithin

/-- The part of a text from one of its tokens to a closing parenthesis has the tokens that the text
has there. -/
theorem scan_excerpt {text : String} {ts us vs : List Token} {first last : Token}
    (h : scan text = ts ++ first :: (us ++ last :: vs)) (hfirst : first.kind ≠ .eof)
    (hlast : last.kind = .rightParen) :
    ∃ before excerpt behind : String, text = before ++ excerpt ++ behind ∧
      before.utf8ByteSize = first.span.start ∧
      first.span.start + excerpt.utf8ByteSize = last.span.stop ∧
      ∃ eof : Token, eof.kind = .eof ∧
        (scan excerpt).map (Relocation.shift first.span.start).token =
          first :: (us ++ [last, eof]) := by
  obtain ⟨before, rest, htext, hstart, hrest⟩ := scanFrom_split h hfirst
  rw [← List.cons_append] at hrest
  obtain ⟨excerpt, behind, rfl, hstop, -, hscan⟩ := scanFrom_cut hrest hlast
  refine ⟨.ofList before, .ofList excerpt, .ofList behind, ?_, ?_, ?_,
    ⟨.eof, ⟨last.span.stop, last.span.stop⟩, ""⟩, rfl, ?_⟩
  · rw [← String.ofList_append, ← String.ofList_append, List.append_assoc, ← htext,
      String.ofList_toList]
  · rw [← byteLength_eq, ← hstart, Nat.zero_add]
  · rw [← byteLength_eq, hstop]
  · rw [scan, String.toList_ofList, ← scanFrom_shift, Nat.zero_add, hscan]
    rfl

/-- The part of a text from one of its tokens to a closing parenthesis has the tokens that count in
the text there. -/
theorem significant_excerpt {text : String} {ts us vs : List Token} {first last : Token}
    (h : significant text = ts ++ first :: (us ++ last :: vs)) (hlast : last.kind = .rightParen) :
    ∃ before excerpt behind : String, text = before ++ excerpt ++ behind ∧
      before.utf8ByteSize = first.span.start ∧
      first.span.start + excerpt.utf8ByteSize = last.span.stop ∧
      (significant excerpt).map (Relocation.shift first.span.start).token =
        first :: (us ++ [last]) := by
  -- The tokens that do not count stand somewhere between those that do.
  obtain ⟨ts', rest, hscan, -, hrest⟩ := List.filter_eq_append_iff.1 h
  obtain ⟨skipped, rest, rfl, -, hfirst, hrest⟩ := List.filter_eq_cons_iff.1 hrest
  obtain ⟨us', rest, rfl, hus, hrest⟩ := List.filter_eq_append_iff.1 hrest
  obtain ⟨skipped', vs', rfl, hskipped, -, -⟩ := List.filter_eq_cons_iff.1 hrest
  rw [← List.append_assoc, ← List.append_assoc us'] at hscan
  obtain ⟨before, excerpt, behind, htext, hstart, hstop, eof, heof, htokens⟩ :=
    scan_excerpt hscan (of_decide_eq_true hfirst).2 hlast
  refine ⟨before, excerpt, behind, htext, hstart, hstop, ?_⟩
  have hmap := congrArg (List.filter fun t => decide (t.kind ≠ .comment ∧ t.kind ≠ .eof)) htokens
  rw [List.filter_map, List.filter_cons, if_pos hfirst, List.filter_append, List.filter_append, hus,
    List.filter_eq_nil_iff.2 hskipped] at hmap
  refine hmap.trans ?_
  simp [hlast, heof]

end Token

end CalcLang
