import CalcLang.Proofs.Placement
import CalcLang.Proofs.Recovery
import Mathlib.Data.Nat.Find
import Mathlib.Order.MinMax

/-!
# The text at a position

`SourceMap.Reads` says which text a source map has at a position. The characters of a token are the
text at its place (`Token.exists_append_of_mem_scan`). All spans that parsing makes are put together
from spans of tokens, so they start and stop between two characters (`Parse.cuts_of_mem_errors`),
and what they are around is a text (`SourceMap.exists_reads`).
-/

namespace CalcLang

/-- A source map has a text at a position: the file of the position is there, and the text stands
in it between the two ends of the span. -/
def SourceMap.Reads (sources : SourceMap) (pos : Pos) (text : String) : Prop :=
  ∃ file before behind, sources.get? pos.file = some file ∧
    file.text = before ++ text ++ behind ∧
    pos.span = ⟨before.utf8ByteSize, before.utf8ByteSize + text.utf8ByteSize⟩

/-- An offset between two characters of a text, or at one of its ends. -/
def IsBoundary (text : String) (offset : Nat) : Prop :=
  ∃ before behind, text = before ++ behind ∧ before.utf8ByteSize = offset

/-- A span starts and stops between two characters of a text, and does not end before it starts. -/
structure Span.Cuts (s : Span) (text : String) : Prop where
  ordered : s.Ordered
  start : IsBoundary text s.start
  stop : IsBoundary text s.stop

namespace Span.Cuts

variable {text : String} {s s' : Span}

/-- A span that cuts a text has some of the text in it. -/
theorem exists_text (h : s.Cuts text) : ∃ before excerpt behind : String,
    text = before ++ excerpt ++ behind ∧
      s = ⟨before.utf8ByteSize, before.utf8ByteSize + excerpt.utf8ByteSize⟩ := by
  obtain ⟨start, stop⟩ := s
  obtain ⟨hordered, ⟨before, rest, htext, rfl⟩, ⟨upTo, behind, htext', rfl⟩⟩ := h
  have hlists : before.toList ++ rest.toList = upTo.toList ++ behind.toList := by
    rw [← String.toList_append, ← String.toList_append, ← htext, htext']
  rcases List.append_eq_append_iff.1 hlists with ⟨excerpt, hupTo, -⟩ | ⟨more, hbefore, -⟩
  · have hupTo : upTo = before ++ String.ofList excerpt := by
      rw [← String.toList_inj, hupTo, String.toList_append, String.toList_ofList]
    subst hupTo
    exact ⟨before, String.ofList excerpt, behind, htext', by rw [String.utf8ByteSize_append]⟩
  · -- The span is empty.
    have hbefore : before = upTo ++ String.ofList more := by
      rw [← String.toList_inj, hbefore, String.toList_append, String.toList_ofList]
    have hsize : before.utf8ByteSize = upTo.utf8ByteSize + (String.ofList more).utf8ByteSize := by
      rw [hbefore, String.utf8ByteSize_append]
    have hle : before.utf8ByteSize ≤ upTo.utf8ByteSize := hordered
    refine ⟨before, "", rest, by rw [String.append_empty]; exact htext, ?_⟩
    simp only [Span.mk.injEq, String.utf8ByteSize_empty, true_and]
    omega

theorem cover (h : s.Cuts text) (h' : s'.Cuts text) : (s.cover s').Cuts text where
  ordered := h.ordered.cover s'
  start := by
    rw [Span.cover]
    rcases min_choice s.start s'.start with hmin | hmin
    · exact hmin.symm ▸ h.start
    · exact hmin.symm ▸ h'.start
  stop := by
    rw [Span.cover]
    rcases max_choice s.stop s'.stop with hmax | hmax
    · exact hmax.symm ▸ h.stop
    · exact hmax.symm ▸ h'.stop

end Span.Cuts

theorem SourceMap.exists_reads {sources : SourceMap} {pos : Pos} {file : SourceFile}
    (hfile : sources.get? pos.file = some file) (h : pos.span.Cuts file.text) :
    ∃ text, sources.Reads pos text := by
  obtain ⟨before, text, behind, htext, hspan⟩ := h.exists_text
  exact ⟨text, file, before, behind, hfile, htext, hspan⟩

/-! ## Tokens -/

namespace Token

open Text (byteLength byteLength_append byteLength_cons byteLength_eq)

/-- The characters of a token stand at its place. -/
theorem exists_append_of_mem_scanFrom {offset : Nat} {cs : List Char} {t : Token}
    (h : t ∈ scanFrom offset cs) : ∃ before behind, cs = before ++ t.text.toList ++ behind ∧
      t.span = ⟨offset + byteLength before, offset + byteLength (before ++ t.text.toList)⟩ := by
  induction offset, cs using scanFrom.induct with
  | case1 offset =>
    rw [scanFrom, List.mem_singleton] at h
    subst h
    exact ⟨[], [], rfl, rfl⟩
  | case2 offset c cs hblank ih =>
    rw [scanFrom, if_pos hblank] at h
    obtain ⟨before, behind, rfl, hspan⟩ := ih h
    refine ⟨c :: before, behind, rfl, ?_⟩
    rw [hspan, List.cons_append, byteLength_cons, byteLength_cons, Nat.add_assoc, Nat.add_assoc]
  | case3 offset c cs hblank m stop ih =>
    rw [scanFrom, if_neg hblank] at h
    rcases List.mem_cons.1 h with rfl | h
    · refine ⟨[], m.rest, ?_, ?_⟩
      · simp [m, munch_taken_append_rest]
      · simp [Nat.add_assoc, byteLength]
    · obtain ⟨before, behind, hrest, hspan⟩ := ih h
      refine ⟨c :: (m.taken ++ before), behind, ?_, ?_⟩
      · rw [← munch_taken_append_rest c cs]
        simp [m, hrest]
      · rw [hspan]
        simp only [stop, List.cons_append, byteLength_cons, byteLength_append, List.append_assoc,
          Span.mk.injEq]
        omega

/-- The text of a token stands at its place. -/
theorem exists_append_of_mem_scan {text : String} {t : Token} (h : t ∈ scan text) :
    ∃ before behind : String, text = before ++ t.text ++ behind ∧
      t.span = ⟨before.utf8ByteSize, before.utf8ByteSize + t.text.utf8ByteSize⟩ := by
  obtain ⟨before, behind, htext, hspan⟩ := exists_append_of_mem_scanFrom h
  refine ⟨String.ofList before, String.ofList behind, ?_, ?_⟩
  · rw [← String.toList_inj, htext]
    simp
  · rw [hspan, byteLength_append, byteLength_eq, byteLength_eq, String.ofList_toList, Nat.zero_add,
      Nat.zero_add]

theorem cuts_of_mem_scan {text : String} {t : Token} (h : t ∈ scan text) : t.span.Cuts text := by
  obtain ⟨before, behind, htext, hspan⟩ := exists_append_of_mem_scan h
  rw [hspan]
  exact ⟨Nat.le_add_right .., ⟨before, t.text ++ behind, by rw [htext, String.append_assoc], rfl⟩,
    ⟨before ++ t.text, behind, htext, String.utf8ByteSize_append⟩⟩

end Token

/-! ## Errors -/

/-- Both ends of a span are moved to the left, to the nearest offset with a property. -/
noncomputable def Relocation.snap (p : Nat → Prop) [DecidablePred p] : Relocation where
  span s := ⟨Nat.findGreatest p s.start, Nat.findGreatest p s.stop⟩
  cover a b := by
    have hmono : Monotone (Nat.findGreatest p) := fun _ _ => Nat.findGreatest_mono_right p
    simp only [Span.cover, hmono.map_min, hmono.map_max]

namespace Parse

variable (file : FileId)

/-- If all tokens start and stop at offsets with a property, then so do the errors. -/
theorem ends_of_error {p : Nat → Prop} (hzero : p 0) {ts : List Token} {eof : Token}
    (heof : eof.kind = .eof) (hts : ∀ t ∈ ts ++ [eof], p t.span.start ∧ p t.span.stop)
    {inRun : Bool} {e : ParseError}
    (he : .error e ∈ topLevel file inRun (Form.ofTokens (ts ++ [eof]))) :
    p e.span.start ∧ p e.span.stop := by
  classical
  have hsnap : ∀ {n : Nat}, Nat.findGreatest p n = n → p n := fun {n} h => by
    rcases Nat.eq_zero_or_pos n with rfl | hn
    · exact hzero
    · exact (Nat.findGreatest_eq_iff.1 h).2.1 hn.ne'
  have hagree := Relocation.topLevel_congr (g := .snap p) (h := .shift 0) file heof
    (fun t ht => by
      obtain ⟨hstart, hstop⟩ := hts t ht
      simp only [Relocation.snap, Relocation.shift, Nat.findGreatest_eq hstart,
        Nat.findGreatest_eq hstop, Nat.add_zero]) inRun
  have hspan := congrArg ParseError.span (Except.error.inj (List.map_inj_left.1 hagree _ he))
  exact ⟨hsnap (congrArg Span.start hspan), hsnap (congrArg Span.stop hspan)⟩

theorem mem_failures_iff {ε α : Type} {rs : List (Except ε α)} {e : ε} :
    e ∈ failures rs ↔ .error e ∈ rs := by
  rw [failures, List.mem_filterMap]
  refine ⟨?_, fun h => ⟨_, h, rfl⟩⟩
  rintro ⟨_ | _, hr, h⟩
  · cases h
    exact hr
  · cases h

/-- Errors start and stop between two characters of the text. -/
theorem cuts_of_mem_errors {text : String} {e : ParseError} (he : e ∈ (ofText file text).errors) :
    e.span.Cuts text := by
  obtain ⟨eof, heof, hscan, htext⟩ := ofText_eq file text
  rw [htext] at he
  have he := mem_failures_iff.1 he
  have hcuts := fun t ht => Token.cuts_of_mem_scan (hscan t ht)
  obtain ⟨hstart, hstop⟩ := ends_of_error file (p := IsBoundary text)
    ⟨"", text, (String.empty_append).symm, rfl⟩ heof
    (fun t ht => ⟨(hcuts t ht).start, (hcuts t ht).stop⟩) he
  have hwithin := within_of_error file heof
    (fun t ht => Token.within_of_mem_scan (hscan t ht)) he
  exact ⟨hwithin.2.1, hstart, hstop⟩

end Parse

end CalcLang
