import CalcLang.Proofs.Pointers
import CalcLang.Report

/-!
# The ranges that reports mark

A report cuts the text that it marks out of a file. For that both ends of the range have to be
between two characters, and there should be something to mark (`Span.Marks`). `Report.rangeIn`
leaves a span alone that is not empty and widens an empty one by a byte, without a look at the text.

Two kinds of diagnostics have an empty span (`Compile.span_cases`). A mistake in the syntax may be
found at the end of a text, behind which there is no byte left. And a missing entry is put at the
start of the first file, where the byte may be the first one of several that make up a character.
The other ranges can be marked (`Compile.marks_rangeIn_iff`).
-/

namespace CalcLang

/-- The empty span at the end of a text. -/
def endSpan (text : String) : Span := ⟨text.utf8ByteSize, text.utf8ByteSize⟩

/-- The first character of a text takes several bytes. -/
def StartsWide (text : String) : Prop := ∃ c cs, text.toList = c :: cs ∧ 1 < c.utf8Size

/-- A range can be marked in a text: it is cut between characters, and it is empty only if the whole
text is. -/
structure Span.Marks (s : Span) (text : String) : Prop where
  cuts : s.Cuts text
  nonempty : text ≠ "" → s.start < s.stop

/-! ## Boundaries -/

theorem isBoundary_zero (text : String) : IsBoundary text 0 :=
  ⟨"", text, String.empty_append.symm, rfl⟩

theorem isBoundary_end (text : String) : IsBoundary text text.utf8ByteSize :=
  ⟨text, "", String.append_empty.symm, rfl⟩

theorem IsBoundary.le {text : String} {offset : Nat} (h : IsBoundary text offset) :
    offset ≤ text.utf8ByteSize := by
  obtain ⟨before, behind, rfl, rfl⟩ := h
  rw [String.utf8ByteSize_append]
  exact Nat.le_add_right ..

theorem utf8ByteSize_of_toList {text : String} {c : Char} {cs : List Char}
    (h : text.toList = c :: cs) :
    text.utf8ByteSize = c.utf8Size + (String.ofList cs).utf8ByteSize := by
  rw [← Text.byteLength_toList, h, Text.byteLength_cons, Text.byteLength_eq]

/-- The first byte of a text is a character if the first character has no other bytes. -/
theorem isBoundary_one_iff {text : String} (h : text ≠ "") :
    IsBoundary text 1 ↔ ¬ StartsWide text := by
  obtain ⟨c, cs, htext⟩ : ∃ c cs, text.toList = c :: cs :=
    List.exists_cons_of_ne_nil fun hnil => h (String.toList_eq_nil_iff.1 hnil)
  have hpos := c.utf8Size_pos
  constructor
  · rintro ⟨before, behind, rfl, hsize⟩ ⟨d, ds, hstart, hwide⟩
    rw [String.toList_append] at hstart
    cases hbefore : before.toList with
    | nil =>
      rw [String.toList_eq_nil_iff.1 hbefore] at hsize
      cases hsize
    | cons b bs =>
      -- The one byte in front of the boundary is the first character.
      rw [hbefore] at hstart
      obtain rfl : b = d := (List.cons.inj hstart).1
      rw [utf8ByteSize_of_toList hbefore] at hsize
      omega
  · intro hnarrow
    have hone : c.utf8Size = 1 := by
      by_contra hne
      exact hnarrow ⟨c, cs, htext, by omega⟩
    refine ⟨String.ofList [c], String.ofList cs, ?_, ?_⟩
    · rw [← String.toList_inj, htext]
      simp
    · rw [← Text.byteLength_eq, Text.byteLength_cons, hone]
      rfl

theorem Span.cuts_endSpan (text : String) : (endSpan text).Cuts text :=
  ⟨Nat.le_refl _, isBoundary_end text, isBoundary_end text⟩

/-! ## Clamped spans -/

namespace Report

variable {sources : SourceMap} {pos : Pos} {file : SourceFile}

/-- A span that is not empty is marked as it is. -/
theorem rangeIn_of_lt (hfile : sources.get? pos.file = some file)
    (hlt : pos.span.start < pos.span.stop) (hstop : pos.span.stop ≤ file.text.utf8ByteSize) :
    rangeIn sources pos = some (file, pos.span) := by
  have hstart : min pos.span.start file.text.utf8ByteSize = pos.span.start := by omega
  have hmax : max (min pos.span.stop file.text.utf8ByteSize) pos.span.start = pos.span.stop := by
    omega
  simp only [rangeIn, hfile, Option.map_some, hstart, hmax, if_neg hlt.ne]

/-- An empty span is marked with the byte behind it, if there is one. -/
theorem rangeIn_of_empty (hfile : sources.get? pos.file = some file) {n : Nat}
    (hspan : pos.span = ⟨n, n⟩) (hn : n ≤ file.text.utf8ByteSize) :
    rangeIn sources pos = some (file, ⟨n, min (n + 1) file.text.utf8ByteSize⟩) := by
  have hmin : min n file.text.utf8ByteSize = n := by omega
  simp only [rangeIn, hfile, hspan, Option.map_some, hmin, Nat.max_self, if_true]

end Report

/-! ## Spans of tokens -/

namespace Token

open Text (byteLength byteLength_append byteLength_cons byteLength_toList)

/-- Only the end of a text is an empty token. -/
theorem span_of_mem_scanFrom {offset : Nat} {cs : List Char} {t : Token}
    (h : t ∈ scanFrom offset cs) :
    if t.kind = .eof then t.span = ⟨offset + byteLength cs, offset + byteLength cs⟩
    else t.span.start < t.span.stop := by
  induction offset, cs using scanFrom.induct with
  | case1 offset =>
    rw [scanFrom, List.mem_singleton] at h
    subst h
    rfl
  | case2 offset c cs hblank ih =>
    rw [scanFrom, if_pos hblank] at h
    rw [byteLength_cons, ← Nat.add_assoc]
    exact ih h
  | case3 offset c cs hblank m stop ih =>
    rw [scanFrom, if_neg hblank] at h
    rcases List.mem_cons.1 h with rfl | h
    · have hpos := c.utf8Size_pos
      rw [if_neg (munch_kind_ne c cs)]
      change offset < offset + c.utf8Size + byteLength m.taken
      omega
    · have hend : stop + byteLength m.rest = offset + byteLength (c :: cs) := by
        rw [byteLength_cons, ← munch_taken_append_rest c cs, byteLength_append]
        simp only [stop, m]
        omega
      rw [← hend]
      exact ih h

theorem span_of_mem_scan {text : String} {t : Token} (h : t ∈ scan text) :
    if t.kind = .eof then t.span = endSpan text else t.span.start < t.span.stop := by
  have hspan := span_of_mem_scanFrom h
  rwa [byteLength_toList, Nat.zero_add] at hspan

/-- Tokens that count are not empty. -/
theorem span_of_mem_significant {text : String} {t : Token} (h : t ∈ significant text) :
    t.span.start < t.span.stop := by
  have hspan := span_of_mem_scan (Compile.mem_scan_of_mem_significant h)
  rwa [if_neg (kind_ne_of_mem_significant h)] at hspan

end Token

/-- A mistake is found at some text or at the end of the text. -/
theorem Parse.span_of_mem_errors {file : FileId} {text : String} {e : ParseError}
    (he : e ∈ (ofText file text).errors) :
    e.span.start < e.span.stop ∨ e.span = endSpan text := by
  have hcuts := cuts_of_mem_errors file he
  obtain ⟨eof, heof, hscan, htext⟩ := ofText_eq file text
  rw [htext] at he
  rcases hcuts.start.le.lt_or_eq with hlt | hend
  · -- Every token goes beyond the place where the mistake starts, to the left or to the right.
    have hbeyond := Relocation.error_span_iff file
      (p := fun s => s.start < e.span.start ∨ e.span.start < s.stop) (c := True)
      (fun a b => by simp only [Span.cover]; omega) heof
      (fun t ht => by
        have hspan := Token.span_of_mem_scan (hscan t ht)
        split at hspan
        · rw [hspan]
          exact iff_of_true (.inr hlt) trivial
        · exact iff_of_true (by omega) trivial)
      (mem_failures_iff.1 he)
    exact .inl ((hbeyond.2 trivial).resolve_left (Nat.lt_irrefl _))
  · have hle := hcuts.stop.le
    have hordered : e.span.start ≤ e.span.stop := hcuts.ordered
    have hstop : e.span.stop = text.utf8ByteSize := by omega
    exact .inr ((Span.mk.injEq ..).mpr ⟨hend, hstop⟩)

/-! ## Spans of diagnostics -/

/-- A position in a source map that has some text, between two characters. -/
def SourceMap.HasPart (sources : SourceMap) (pos : Pos) : Prop :=
  ∃ file, sources.get? pos.file = some file ∧ pos.span.Cuts file.text ∧
    pos.span.start < pos.span.stop

namespace Compile

open Grammar Parse

variable {name : String} {sources : SourceMap} {options : CompileOptions} {d : Diagnostic}

theorem hasPart_of_around {id : FileId} {file : SourceFile} (hfile : sources.get? id = some file)
    {q : Pos} (hq : Around id (Token.significant file.text) q) : sources.HasPart q := by
  obtain ⟨t, ht, u, hu, rfl⟩ := hq
  have hcuts := fun t ht => Token.cuts_of_mem_scan (@mem_scan_of_mem_significant file.text t ht)
  have hlt := Token.span_of_mem_significant ht
  refine ⟨file, hfile, (hcuts t ht).cover (hcuts u hu), ?_⟩
  simp only [place, Span.cover]
  omega

theorem hasPart_of_mem_idents {x : Ident} (hx : x ∈ idents sources) : sources.HasPart x.pos := by
  obtain ⟨decl, hdecl, hx⟩ := List.mem_flatMap.1 hx
  obtain ⟨file, id, hfile, hdecl⟩ := exists_of_mem_declarations hdecl
  have hmem := (origins_ofText id file.text).1.subset (List.mem_flatMap.2 ⟨decl, hdecl, hx⟩)
  obtain ⟨t, ht, rfl⟩ := List.mem_map.1 hmem
  exact hasPart_of_around hfile (around_token ht)

theorem hasPart_of_mem_positions {q : Pos}
    (hq : q ∈ (Package.build name (declarations sources)).1.positions) : sources.HasPart q := by
  refine Package.places_build name (declarations sources) (fun decl hdecl q hq => ?_) q hq
  obtain ⟨file, id, hfile, hdecl⟩ := exists_of_mem_declarations hdecl
  exact hasPart_of_around hfile ((origins_ofText id file.text).2 decl hdecl q hq)

/-- What resolution and checking report stands at some text. -/
theorem hasPart_of_mem_errors (hd : d ∈ errors name sources) : sources.HasPart d.pos := by
  rcases List.mem_append.1 hd with hd | hd
  · obtain ⟨x, hx, hpos, -⟩ := (Package.about_build name (declarations sources)).of_mem d hd
    exact hpos ▸ hasPart_of_mem_idents hx
  · exact hasPart_of_mem_positions ((Package.disagreements_check _ _).of_mem d hd).pos_mem

/-- What generation reports stands at some text, unless it is a missing entry. -/
theorem hasPart_of_mem_generationErrors (hd : d ∈ generationErrors name sources options)
    (hentry : d ≠ missingEntry) : sources.HasPart d.pos :=
  hasPart_of_mem_positions (isGap_of_mem_generationErrors hd hentry).1

/-- A diagnostic stands at some text, or it is a mistake in the syntax at the end of its file, or
it is a missing entry. -/
theorem span_cases {file : SourceFile} (hd : d ∈ (compile name sources options).diagnostics)
    (hfile : sources.get? d.pos.file = some file) :
    (d.pos.span.Cuts file.text ∧ d.pos.span.start < d.pos.span.stop) ∨
      (d ∈ syntaxErrors sources ∧ d.pos.span = endSpan file.text) ∨ d = missingEntry := by
  have hpart : sources.HasPart d.pos →
      d.pos.span.Cuts file.text ∧ d.pos.span.start < d.pos.span.stop := by
    rintro ⟨other, hother, hcuts, hlt⟩
    obtain rfl : file = other := Option.some.inj (hfile.symm.trans hother)
    exact ⟨hcuts, hlt⟩
  rcases mem_diagnostics hd with hmistake | hd | hd
  · obtain ⟨p, hp, hd⟩ := List.mem_flatMap.1 hmistake
    obtain ⟨e, he, rfl⟩ := List.mem_map.1 hd
    obtain ⟨hsource, hparse⟩ := mem_parseAll hp
    obtain rfl : file = p.1 := Option.some.inj (hfile.symm.trans hsource)
    rw [hparse] at he
    rcases span_of_mem_errors he with hlt | hend
    · exact .inl ⟨cuts_of_mem_errors _ he, hlt⟩
    · exact .inr (.inl ⟨hmistake, hend⟩)
  · exact .inl (hpart (hasPart_of_mem_errors hd))
  · by_cases hentry : d = missingEntry
    · exact .inr (.inr hentry)
    · exact .inl (hpart (hasPart_of_mem_generationErrors hd hentry))

/-! ## Ranges of diagnostics -/

/-- **A report can mark a diagnostic, except at the end of a file and in front of a wide
character.** The range of a diagnostic in a known file is within the file and starts between two
characters; it is the span of the diagnostic unless that is empty. It can be marked unless a mistake
in the syntax is at the end of a file that is not empty, or the entry is missing and the first file
starts with a character of several bytes. -/
theorem marks_rangeIn_iff (name : String) (sources : SourceMap) (options : CompileOptions)
    {file : SourceFile} (hd : d ∈ (compile name sources options).diagnostics)
    (hfile : sources.get? d.pos.file = some file) :
    ∃ range, Report.rangeIn sources d.pos = some (file, range) ∧
      range.Within 0 file.text.utf8ByteSize ∧ IsBoundary file.text range.start ∧
      (d.pos.span.start < d.pos.span.stop → range = d.pos.span) ∧
      (range.Marks file.text ↔
        ¬ (d ∈ syntaxErrors sources ∧ d.pos.span = endSpan file.text ∧ file.text ≠ "") ∧
          ¬ (d = missingEntry ∧ StartsWide file.text)) := by
  rcases span_cases hd hfile with ⟨hcuts, hlt⟩ | ⟨hmistake, hend⟩ | rfl
  · refine ⟨d.pos.span, Report.rangeIn_of_lt hfile hlt hcuts.stop.le,
      ⟨Nat.zero_le _, hlt.le, hcuts.stop.le⟩, hcuts.start, fun _ => rfl,
      iff_of_true ⟨hcuts, fun _ => hlt⟩ ⟨?_, ?_⟩⟩
    · rintro ⟨-, hspan, -⟩
      rw [hspan] at hlt
      exact absurd hlt (Nat.lt_irrefl _)
    · rintro ⟨rfl, -⟩
      exact absurd hlt (Nat.lt_irrefl _)
  · have hrange := Report.rangeIn_of_empty hfile hend (Nat.le_refl _)
    rw [Nat.min_eq_right (Nat.le_succ _)] at hrange
    refine ⟨endSpan file.text, hrange, ⟨Nat.zero_le _, Nat.le_refl _, Nat.le_refl _⟩,
      isBoundary_end _, fun _ => hend.symm, fun h => ⟨?_, ?_⟩, fun h => ⟨Span.cuts_endSpan _, ?_⟩⟩
    · exact fun ⟨_, _, hne⟩ => absurd (h.nonempty hne) (Nat.lt_irrefl _)
    · rintro ⟨rfl, -⟩
      exact missingEntry_notMem_syntaxErrors sources hmistake
    · exact fun hne => absurd ⟨hmistake, hend, hne⟩ h.1
  · have hspan : missingEntry.pos.span = ⟨0, 0⟩ := rfl
    have hrange := Report.rangeIn_of_empty hfile hspan (Nat.zero_le _)
    refine ⟨_, hrange, ⟨Nat.le_refl _, Nat.zero_le _, Nat.min_le_right ..⟩, isBoundary_zero _,
      fun h => absurd h (Nat.lt_irrefl _), ?_⟩
    have hmistake := missingEntry_notMem_syntaxErrors sources
    by_cases hempty : file.text = ""
    · have hnarrow : ¬ StartsWide file.text := by
        rintro ⟨c, cs, htext, -⟩
        rw [hempty] at htext
        cases htext
      refine iff_of_true ⟨?_, fun hne => absurd hempty hne⟩
        ⟨fun h => hmistake h.1, fun h => hnarrow h.2⟩
      rw [hempty]
      exact Span.cuts_endSpan ""
    · have hone : min (0 + 1) file.text.utf8ByteSize = 1 := by
        have := String.utf8ByteSize_eq_zero_iff.not.2 hempty
        omega
      rw [hone]
      refine ⟨fun h => ⟨fun h' => hmistake h'.1, fun h' => ?_⟩, fun h => ⟨⟨Nat.zero_le _,
        isBoundary_zero _, ?_⟩, fun _ => Nat.zero_lt_one⟩⟩
      · exact (isBoundary_one_iff hempty).1 h.cuts.stop h'.2
      · exact (isBoundary_one_iff hempty).2 fun hwide => h.2 ⟨rfl, hwide⟩

/-- For an example: a file with a character that is no token, and a file that ends too early. -/
def brokenSources : SourceMap :=
  .ofList [("a.calc", "(decl f int é)\n"), ("b.calc", "(decl main int 1")]

/-- A wide character is marked as a whole, and nothing is marked at the end of the other file. -/
theorem marks_rangeIn_iff_broken :
    let misplaced : Diagnostic :=
      ⟨.parse "expected expression, found invalid character", ⟨⟨0⟩, ⟨12, 14⟩⟩⟩
    let unclosed : Diagnostic := ⟨.parse "expected `)`, found end of file", ⟨⟨1⟩, ⟨16, 16⟩⟩⟩
    (compile "p" brokenSources ⟨false, .abort, .c⟩).diagnostics = [misplaced, unclosed] ∧
      (∃ file, Report.rangeIn brokenSources misplaced.pos = some (file, ⟨12, 14⟩) ∧
        Span.Marks ⟨12, 14⟩ file.text) ∧
      ∃ file range, Report.rangeIn brokenSources unclosed.pos = some (file, range) ∧
        ¬ range.Marks file.text := by
  intro misplaced unclosed
  let options : CompileOptions := ⟨false, .abort, .c⟩
  let first : SourceFile := ⟨"a.calc", "(decl f int é)\n"⟩
  let second : SourceFile := ⟨"b.calc", "(decl main int 1"⟩
  have hdiagnostics : (compile "p" brokenSources options).diagnostics =
      [misplaced, unclosed] := by decide +kernel
  have hmistake : unclosed ∈ syntaxErrors brokenSources := by
    have hall : syntaxErrors brokenSources = [misplaced, unclosed] := by decide +kernel
    rw [hall]
    exact .tail _ (.head _)
  have hmisplaced : misplaced ∈ (compile "p" brokenSources options).diagnostics :=
    hdiagnostics ▸ .head _
  have hfirst : brokenSources.get? misplaced.pos.file = some first := rfl
  have hunclosed : unclosed ∈ (compile "p" brokenSources options).diagnostics :=
    hdiagnostics ▸ .tail _ (.head _)
  have hsecond : brokenSources.get? unclosed.pos.file = some second := rfl
  obtain ⟨range, hrange, -, -, hspan, hmarks⟩ :=
    marks_rangeIn_iff "p" brokenSources options hmisplaced hfirst
  obtain rfl : range = ⟨12, 14⟩ := hspan (by decide)
  obtain ⟨last, hlast, -, -, -, hunmarked⟩ :=
    marks_rangeIn_iff "p" brokenSources options hunclosed hsecond
  refine ⟨hdiagnostics, ⟨first, hrange, hmarks.2 ⟨?_, ?_⟩⟩, second, last, hlast, fun h => ?_⟩
  · exact fun h => absurd (congrArg Span.start h.2.1) (by decide)
  · exact fun h => absurd (congrArg (fun d => d.pos.span.start) h.1) (by decide)
  · exact (hunmarked.1 h).1 ⟨hmistake, rfl, by decide⟩

/-- The range of a diagnostic may be empty in a file that is not, and it may end inside a
character. -/
theorem not_marks_rangeIn :
    (¬ ∀ (name : String) (sources : SourceMap) (options : CompileOptions) (d : Diagnostic)
      (file : SourceFile), d ∈ (compile name sources options).diagnostics →
      sources.get? d.pos.file = some file →
      ∃ range, Report.rangeIn sources d.pos = some (file, range) ∧
        (file.text ≠ "" → range.start < range.stop)) ∧
    ¬ ∀ (name : String) (sources : SourceMap) (options : CompileOptions) (d : Diagnostic)
      (file : SourceFile), d ∈ (compile name sources options).diagnostics →
      sources.get? d.pos.file = some file →
      ∃ range, Report.rangeIn sources d.pos = some (file, range) ∧ range.Cuts file.text := by
  let options : CompileOptions := ⟨false, .abort, .c⟩
  constructor
  · intro h
    let sources : SourceMap := .ofList [("main.calc", "(decl main int 1")]
    let unclosed : Diagnostic := ⟨.parse "expected `)`, found end of file", ⟨⟨0⟩, ⟨16, 16⟩⟩⟩
    have hdiagnostics : (compile "main" sources options).diagnostics = [unclosed] := by
      decide +kernel
    obtain ⟨range, hrange, hlt⟩ := h "main" sources options unclosed
      ⟨"main.calc", "(decl main int 1"⟩ (hdiagnostics ▸ .head _) rfl
    have hempty : Report.rangeIn sources unclosed.pos =
      some (⟨"main.calc", "(decl main int 1"⟩, ⟨16, 16⟩) := rfl
    obtain rfl : (⟨16, 16⟩ : Span) = range :=
      congrArg Prod.snd (Option.some.inj (hempty.symm.trans hrange))
    exact absurd (hlt (by decide)) (by decide)
  · intro h
    -- The file starts with a space that takes two bytes.
    let sources : SourceMap := .ofList [("lib.calc", "\u00a0(decl f int 1)\n")]
    have hdiagnostics : (compile "lib" sources options).diagnostics = [missingEntry] := by
      decide +kernel
    obtain ⟨range, hrange, hcuts⟩ := h "lib" sources options missingEntry
      ⟨"lib.calc", "\u00a0(decl f int 1)\n"⟩ (hdiagnostics ▸ .head _) rfl
    have hbyte : Report.rangeIn sources missingEntry.pos =
      some (⟨"lib.calc", "\u00a0(decl f int 1)\n"⟩, ⟨0, 1⟩) := rfl
    obtain rfl : (⟨0, 1⟩ : Span) = range :=
      congrArg Prod.snd (Option.some.inj (hbyte.symm.trans hrange))
    exact (isBoundary_one_iff (by decide)).1 hcuts.stop ⟨'\u00a0', _, rfl, by decide⟩

end Compile

end CalcLang
