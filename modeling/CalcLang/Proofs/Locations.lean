import CalcLang.Proofs.Guarded.Reading
import Mathlib.Data.List.DropRight

/-!
# Locations are counted

Lines and columns are looked up in the table of the offsets at which the lines of a text start. They
are what counting the bytes one by one gives: the line of an offset is one more than the number of
line feeds before it, and the column is one more than the number of bytes since the last of these
(`lineColumn_eq`). An offset can be found again from its line and its column
(`offsetAt_counted`), and a later offset is at a later place.

A source map numbers its files in the order in which they are added and keeps them as they are
(`SourceMap.get?_ofList`), and it knows the last file of every name (`SourceMap.lookup?_ofList`).
-/

namespace CalcLang

/-! ## Bytes -/

/-- The bytes of a text. -/
def Text.bytes (text : String) : List UInt8 := text.toUTF8.data.toList

/-- The byte that ends a line. -/
def lineFeed : UInt8 := 10

theorem Text.bytes_eq (text : String) :
    bytes text = text.toList.flatMap String.utf8EncodeChar := by
  rw [bytes, String.toUTF8_eq_toByteArray, ← String.utf8Encode_toList, List.utf8Encode,
    List.toList_data_toByteArray]

/-- A byte of a character is the character itself, or it is not ASCII. -/
theorem toNat_of_mem_utf8EncodeChar {c : Char} {b : UInt8} (h : b ∈ String.utf8EncodeChar c) :
    b.toNat = c.toNat ∨ 128 ≤ b.toNat := by
  have hval : c.val.toNat = c.toNat := rfl
  unfold String.utf8EncodeChar at h
  dsimp only at h
  split_ifs at h <;> simp only [List.mem_cons, List.not_mem_nil, or_false] at h
  · subst h
    rw [UInt8.toNat_ofNat']
    omega
  · rcases h with rfl | rfl <;> rw [UInt8.toNat_ofNat'] <;> omega
  · rcases h with rfl | rfl | rfl <;> rw [UInt8.toNat_ofNat'] <;> omega
  · rcases h with rfl | rfl | rfl | rfl <;> rw [UInt8.toNat_ofNat'] <;> omega

/-- The byte of a line feed is in no other character. -/
theorem lineFeed_notMem_utf8EncodeChar {c : Char} (hc : c ≠ '\n') :
    lineFeed ∉ String.utf8EncodeChar c := by
  intro hmem
  have hten : lineFeed.toNat = 10 := rfl
  rcases toNat_of_mem_utf8EncodeChar hmem with h | h
  · apply hc
    apply Char.toNat_inj.1
    exact h.symm
  · omega

/-! ## Ends of lines -/

/-- The offsets behind the line feeds among some bytes, the first of which is at `offset`. -/
def lineEnds (offset : Nat) : List UInt8 → List Nat
  | [] => []
  | b :: bs =>
    if b = lineFeed then (offset + 1) :: lineEnds (offset + 1) bs else lineEnds (offset + 1) bs

theorem lineEnds_append (offset : Nat) (bs cs : List UInt8) :
    lineEnds offset (bs ++ cs) = lineEnds offset bs ++ lineEnds (offset + bs.length) cs := by
  induction bs generalizing offset with
  | nil => rfl
  | cons b bs ih =>
    rw [List.cons_append, lineEnds, lineEnds, ih, List.length_cons, Nat.add_assoc,
      Nat.add_comm 1]
    split <;> rfl

theorem lineEnds_eq_nil {bs : List UInt8} (h : lineFeed ∉ bs) (offset : Nat) :
    lineEnds offset bs = [] := by
  induction bs generalizing offset with
  | nil => rfl
  | cons b bs ih =>
    rw [List.mem_cons, not_or] at h
    rw [lineEnds, if_neg (Ne.symm h.1), ih h.2]

/-- The lines of a text start where lines end in its bytes. -/
theorem lineStartsFrom_eq (offset : Nat) (cs : List Char) :
    lineStartsFrom offset cs = lineEnds offset (cs.flatMap String.utf8EncodeChar) := by
  induction cs generalizing offset with
  | nil => rfl
  | cons c cs ih =>
    rw [List.flatMap_cons, lineEnds_append, String.length_utf8EncodeChar, lineStartsFrom]
    split
    · next h =>
      subst h
      rw [ih]
      rfl
    · next h => rw [lineEnds_eq_nil (lineFeed_notMem_utf8EncodeChar h), ih, List.nil_append]

theorem length_lineEnds (offset : Nat) (bs : List UInt8) :
    (lineEnds offset bs).length = bs.count lineFeed := by
  induction bs generalizing offset with
  | nil => rfl
  | cons b bs ih =>
    rw [lineEnds, List.count_cons]
    split
    · next h => simp [h, ih]
    · next h => simp [h, ih]

theorem lt_of_mem_lineEnds {offset stop : Nat} {bs : List UInt8} (h : stop ∈ lineEnds offset bs) :
    offset < stop := by
  induction bs generalizing offset with
  | nil => cases h
  | cons b bs ih =>
    rw [lineEnds] at h
    split at h
    · rcases List.mem_cons.1 h with rfl | h
      · omega
      · have := ih h
        omega
    · have := ih h
      omega

theorem pairwise_lineEnds (offset : Nat) (bs : List UInt8) :
    (lineEnds offset bs).Pairwise (· < ·) := by
  induction bs generalizing offset with
  | nil => exact .nil
  | cons b bs ih =>
    rw [lineEnds]
    split
    · exact List.pairwise_cons.2 ⟨fun _ => lt_of_mem_lineEnds, ih _⟩
    · exact ih _

/-- The lines that have ended at an offset end in the bytes before it. -/
theorem takeWhile_lineEnds (offset count : Nat) (bs : List UInt8) :
    (lineEnds offset bs).takeWhile (· ≤ offset + count) = lineEnds offset (bs.take count) := by
  induction bs generalizing offset count with
  | nil => simp [lineEnds]
  | cons b bs ih =>
    cases count with
    | zero =>
      rw [List.take_zero, lineEnds, List.takeWhile_eq_nil_iff]
      intro hpos
      have hlt := lt_of_mem_lineEnds (List.getElem_mem hpos)
      simpa using hlt
    | succ count =>
      have hnext : offset + (count + 1) = offset + 1 + count := by omega
      rw [List.take_succ_cons, lineEnds, lineEnds, hnext]
      split
      · rw [List.takeWhile_cons_of_pos (by simp), ih]
      · exact ih ..

/-- The last line starts behind the last line feed, or at the beginning. -/
theorem getLastD_lineEnds (bs : List UInt8) :
    (lineEnds 0 bs).getLastD 0 = (bs.rdropWhile (· ≠ lineFeed)).length := by
  induction bs using List.reverseRecOn with
  | nil => rfl
  | append_singleton bs b ih =>
    rw [lineEnds_append, List.rdropWhile_concat, Nat.zero_add]
    by_cases hb : b = lineFeed
    · simp [lineEnds, hb]
    · rw [lineEnds, if_neg hb, lineEnds, List.append_nil, ih, if_pos (by simpa using hb)]

/-! ## Lines and columns -/

/-- The line of an offset, counted: one more than the number of line feeds before it. -/
def countedLine (text : String) (offset : Nat) : Nat :=
  1 + ((Text.bytes text).take offset).count lineFeed

/-- The offset behind the last line feed before an offset, or the beginning of the text. -/
def countedStart (text : String) (offset : Nat) : Nat :=
  (((Text.bytes text).take offset).rdropWhile (· ≠ lineFeed)).length

/-- The column of an offset, counted: one more than the number of bytes since the last line feed
before it or since the beginning of the text. -/
def countedColumn (text : String) (offset : Nat) : Nat :=
  1 + (offset - countedStart text offset)

/-- The offset at a line and a column. -/
def offsetAt (text : String) (line column : Nat) : Nat :=
  (lineStarts text).getD (line - 1) 0 + (column - 1)

variable {text : String} {offset offset' : Nat}

/-- Lines start one behind the other. -/
theorem pairwise_lineStarts (text : String) : (lineStarts text).Pairwise (· < ·) := by
  rw [lineStarts, lineStartsFrom_eq]
  exact List.pairwise_cons.2 ⟨fun _ => lt_of_mem_lineEnds, pairwise_lineEnds _ _⟩

/-- The lines up to the first that starts behind an offset are all that do not. So their number is
the point at which the offset cuts the table of the starts, however it is searched for. -/
theorem takeWhile_lineStarts_eq_filter (text : String) (offset : Nat) :
    (lineStarts text).takeWhile (· ≤ offset) = (lineStarts text).filter (· ≤ offset) := by
  have hsorted := pairwise_lineStarts text
  generalize lineStarts text = starts at hsorted ⊢
  induction starts with
  | nil => rfl
  | cons start starts ih =>
    obtain ⟨hlt, hsorted⟩ := List.pairwise_cons.1 hsorted
    by_cases hstart : start ≤ offset
    · rw [List.takeWhile_cons_of_pos (by simpa), List.filter_cons_of_pos (by simpa), ih hsorted]
    · have hbehind : ∀ next ∈ starts, ¬ decide (next ≤ offset) = true := by
        intro next hnext
        have hnext := hlt next hnext
        simp only [decide_eq_true_eq]
        omega
      rw [List.takeWhile_cons_of_neg (by simpa using hstart),
        List.filter_cons_of_neg (by simpa using hstart), List.filter_eq_nil_iff.2 hbehind]

/-- The lines that have started at an offset. -/
theorem takeWhile_lineStarts (text : String) (offset : Nat) :
    (lineStarts text).takeWhile (· ≤ offset) =
      0 :: lineEnds 0 ((Text.bytes text).take offset) := by
  have hends := takeWhile_lineEnds 0 offset (Text.bytes text)
  rw [Nat.zero_add] at hends
  rw [lineStarts, List.takeWhile_cons_of_pos (by simp), lineStartsFrom_eq, ← Text.bytes_eq, hends]

theorem getLastD_takeWhile_lineStarts (text : String) (offset : Nat) :
    ((lineStarts text).takeWhile (· ≤ offset)).getLastD 0 = countedStart text offset := by
  rw [takeWhile_lineStarts, List.getLastD_cons, getLastD_lineEnds, countedStart]

theorem length_takeWhile_lineStarts (text : String) (offset : Nat) :
    ((lineStarts text).takeWhile (· ≤ offset)).length = countedLine text offset := by
  rw [takeWhile_lineStarts, List.length_cons, length_lineEnds, countedLine, Nat.add_comm]

/-- **Line and column of an offset are the counted ones.** -/
theorem lineColumn_eq (text : String) (h : offset + 1 < 4294967296) :
    lineColumn text offset = .ok (countedLine text offset, countedColumn text offset) := by
  have hcolumn : offset - countedStart text offset + 1 < 4294967296 := by omega
  rw [lineColumn, getLastD_takeWhile_lineStarts, length_takeWhile_lineStarts, if_pos hcolumn,
    countedColumn, Nat.add_comm 1]

/-- An offset can be found from its line and its column. -/
theorem offsetAt_counted (text : String) (offset : Nat) :
    offsetAt text (countedLine text offset) (countedColumn text offset) = offset := by
  obtain ⟨earlier, start, behind, hbefore, hstarts, hle⟩ := Guarded.exists_line text offset
  have hline : countedLine text offset - 1 = earlier.length := by
    rw [← length_takeWhile_lineStarts, hbefore]
    simp
  have hstart : countedStart text offset = start := by
    rw [← getLastD_takeWhile_lineStarts, hbefore, List.getLastD_concat]
  have hget : (lineStarts text).getD earlier.length 0 = start := by
    rw [hstarts]
    simp
  rw [offsetAt, hline, hget, countedColumn, hstart]
  omega

/-- A later offset is at a later place. -/
theorem counted_lt (text : String) (h : offset < offset') :
    countedLine text offset < countedLine text offset' ∨
      countedLine text offset = countedLine text offset' ∧
        countedColumn text offset < countedColumn text offset' := by
  have hle : countedLine text offset ≤ countedLine text offset' := by
    have hcount := (List.take_prefix_take_left (l := Text.bytes text) h.le).sublist.count_le
      lineFeed
    rw [countedLine, countedLine]
    omega
  rcases hle.lt_or_eq with hlt | heq
  · exact .inl hlt
  · -- On one line the columns differ as the offsets do.
    refine .inr ⟨heq, ?_⟩
    have hoffset := offsetAt_counted text offset
    have hoffset' := offsetAt_counted text offset'
    have hpos : 1 ≤ countedColumn text offset := Nat.le_add_right 1 _
    rw [offsetAt] at hoffset hoffset'
    rw [heq] at hoffset
    omega

/-! ## Source maps -/

namespace SourceMap

theorem ofList_concat (files : List (String × String)) (f : String × String) :
    ofList (files ++ [f]) = (ofList files).add f.1 f.2 := by
  rw [ofList, List.foldl_append]
  rfl

theorem files_ofList (files : List (String × String)) :
    (ofList files).files.toList = files.map fun f => ⟨f.1, f.2⟩ := by
  induction files using List.reverseRecOn with
  | nil => rfl
  | append_singleton files f ih => simp [ofList_concat, add, ih]

/-- The next file gets the next number. -/
theorem nextId_ofList (files : List (String × String)) :
    (ofList files).nextId = ⟨files.length⟩ := by
  rw [nextId, ← Array.length_toList, files_ofList, List.length_map]

/-- Files are numbered in the order in which they are added. -/
theorem get?_ofList (files : List (String × String)) (id : FileId) :
    (ofList files).get? id = files[id.index]?.map fun f => ⟨f.1, f.2⟩ := by
  rw [get?, ← Array.getElem?_toList, files_ofList, List.getElem?_map]

theorem lookup?_add (m : SourceMap) (name text other : String) :
    (m.add name text).lookup? other = if name = other then some m.nextId else m.lookup? other := by
  split_ifs with h
  · exact h ▸ Assoc.lookup_put_self ..
  · exact Assoc.lookup_put_of_ne _ (Ne.symm h) _

/-- Where an element stands in a list that has got one more at its end. -/
theorem concat_eq_append_cons_iff {α : Type} {xs earlier later : List α} {x y : α} :
    xs ++ [x] = earlier ++ y :: later ↔
      later = [] ∧ xs = earlier ∧ x = y ∨
        ∃ rest, later = rest ++ [x] ∧ xs = earlier ++ y :: rest := by
  constructor
  · intro h
    rcases later.eq_nil_or_concat' with rfl | ⟨rest, z, rfl⟩
    · obtain ⟨hxs, hx⟩ := List.append_inj' h rfl
      exact .inl ⟨rfl, hxs, List.singleton_inj.1 hx⟩
    · rw [← List.cons_append, ← List.append_assoc] at h
      obtain ⟨hxs, hx⟩ := List.append_inj' h rfl
      obtain rfl := List.singleton_inj.1 hx
      exact .inr ⟨rest, rfl, hxs⟩
  · rintro (⟨rfl, rfl, rfl⟩ | ⟨rest, rfl, rfl⟩)
    · rfl
    · simp

/-- A name stands for the last file that was added under it. -/
theorem lookup?_ofList (files : List (String × String)) (name : String) (id : FileId) :
    (ofList files).lookup? name = some id ↔ ∃ earlier text later,
      files = earlier ++ (name, text) :: later ∧ id = ⟨earlier.length⟩ ∧
        ∀ f ∈ later, f.1 ≠ name := by
  induction files using List.reverseRecOn with
  | nil => simp [ofList, lookup?, empty]
  | append_singleton files f ih =>
    rw [ofList_concat, lookup?_add, nextId_ofList]
    split
    · next hname =>
      subst hname
      constructor
      · rintro ⟨⟩
        exact ⟨files, f.2, [], rfl, rfl, nofun⟩
      · rintro ⟨earlier, text, later, hfiles, rfl, hlater⟩
        rcases concat_eq_append_cons_iff.1 hfiles with ⟨-, rfl, -⟩ | ⟨rest, rfl, -⟩
        · rfl
        · exact absurd rfl (hlater f (by simp))
    · next hname =>
      rw [ih]
      constructor
      · rintro ⟨earlier, text, later, rfl, rfl, hlater⟩
        refine ⟨earlier, text, later ++ [f], by simp, rfl, ?_⟩
        intro g hg
        rcases List.mem_append.1 hg with hg | hg
        · exact hlater g hg
        · exact List.mem_singleton.1 hg ▸ hname
      · rintro ⟨earlier, text, later, hfiles, rfl, hlater⟩
        rcases concat_eq_append_cons_iff.1 hfiles with ⟨-, -, rfl⟩ | ⟨rest, rfl, rfl⟩
        · exact absurd rfl hname
        · exact ⟨earlier, text, rest, rfl, rfl, fun g hg => hlater g (List.mem_append_left _ hg)⟩

/-- What is shown of a position in a file. -/
structure Shows (m : SourceMap) (pos : Pos) (file : SourceFile) (l : Location) : Prop where
  location : m.location pos = .ok l
  name : l.file = file.name
  line : l.line = countedLine file.text pos.span.start
  column : l.column = countedColumn file.text pos.span.start
  /-- The offset is known from the place. -/
  offset : offsetAt file.text l.line l.column = pos.span.start

theorem exists_shows {m : SourceMap} {pos : Pos} {file : SourceFile}
    (hfile : m.get? pos.file = some file) (hstart : pos.span.start + 1 < 4294967296) :
    ∃ l, m.Shows pos file l := by
  let start := pos.span.start
  refine ⟨⟨file.name, countedLine file.text start, countedColumn file.text start⟩, ?_, rfl, rfl,
    rfl, offsetAt_counted file.text start⟩
  rw [SourceMap.location, hfile]
  dsimp only
  rw [lineColumn_eq file.text hstart]
  rfl

/-- **Locations are the counted ones.** The files of a source map are numbered from 0 on in the
order in which they are added, none of them changes when others follow, and a name stands for the
last one that has it. A position in one of them is at the line and the column that counting line
feeds and bytes gives, behind the end of the text too; from these its offset is known, and what
starts later in the file is at a later place. -/
theorem locations_are_counted (files : List (String × String)) :
    let m : SourceMap := ofList files
    (∀ earlier name text later, files = earlier ++ (name, text) :: later →
      (ofList earlier).nextId = ⟨earlier.length⟩ ∧
        m.get? ⟨earlier.length⟩ = some ⟨name, text⟩) ∧
    (∀ name id, m.lookup? name = some id ↔ ∃ earlier text later,
      files = earlier ++ (name, text) :: later ∧ id = ⟨earlier.length⟩ ∧
        ∀ f ∈ later, f.1 ≠ name) ∧
    ∀ pos file, m.get? pos.file = some file → pos.span.start + 1 < 4294967296 →
      ∃ l, m.Shows pos file l ∧
        ∀ pos' l', pos'.file = pos.file → pos'.span.start + 1 < 4294967296 →
          m.location pos' = .ok l' → pos.span.start < pos'.span.start →
            l.line < l'.line ∨ l.line = l'.line ∧ l.column < l'.column := by
  intro m
  refine ⟨?_, lookup?_ofList files, ?_⟩
  · rintro earlier name text later rfl
    exact ⟨nextId_ofList earlier, by simp [m, get?_ofList]⟩
  · intro pos file hfile hstart
    obtain ⟨l, hl⟩ := exists_shows hfile hstart
    refine ⟨l, hl, ?_⟩
    intro pos' l' hsame hstart' hlocation hlt
    obtain ⟨l'', hl'⟩ := exists_shows (hsame ▸ hfile) hstart'
    obtain rfl : l' = l'' := Except.ok.inj (hlocation.symm.trans hl'.location)
    rw [hl.line, hl.column, hl'.line, hl'.column]
    exact counted_lt file.text hlt

/-- Of two files with one name the second one is found, and an offset behind its end is shown on its
last line, where a character of two bytes counts twice. -/
theorem locations_are_counted_behindEnd :
    let files := [("a.calc", "x"), ("b.calc", ""), ("a.calc", "1\né")]
    let m := ofList files
    m.get? ⟨2⟩ = some ⟨"a.calc", "1\né"⟩ ∧ m.lookup? "a.calc" = some ⟨2⟩ ∧
      m.location ⟨⟨2⟩, 7, 7⟩ = .ok ⟨"a.calc", 2, 6⟩ ∧ offsetAt "1\né" 2 6 = 7 := by
  intro files m
  obtain ⟨hfiles, hnames, hplaces⟩ := locations_are_counted files
  have hfile := (hfiles [("a.calc", "x"), ("b.calc", "")] "a.calc" "1\né" [] rfl).2
  have hname := (hnames "a.calc" ⟨2⟩).2
    ⟨[("a.calc", "x"), ("b.calc", "")], "1\né", [], rfl, rfl, nofun⟩
  obtain ⟨l, hl, -⟩ := hplaces ⟨⟨2⟩, 7, 7⟩ ⟨"a.calc", "1\né"⟩ hfile (by decide)
  obtain ⟨file, line, column⟩ := l
  obtain ⟨hlocation, rfl, rfl, rfl, hoffset⟩ := hl
  have hline : countedLine "1\né" 7 = 2 := by decide +kernel
  have hcolumn : countedColumn "1\né" 7 = 6 := by decide +kernel
  rw [hline, hcolumn] at hlocation hoffset
  exact ⟨hfile, hname, hlocation, hoffset⟩

end SourceMap

end CalcLang
