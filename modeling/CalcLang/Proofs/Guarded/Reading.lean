import CalcLang.Proofs.SourceText
import CalcLang.Text.Bytes

/-!
# Guarded reading

A text can be read with words of 32 bits for offsets and for depths, with its parts cut out at
their bytes, and with spans that are refused when their ends are the wrong way round. Each of these
steps can fault. `Guarded.parse` and `Guarded.location` take them one by one and stop at the first
fault; for a text that is short enough for its offsets there is none, and they give what
`Parse.ofText` and `SourceMap.location` give (`Guarded.parse_eq`, `Guarded.location_eq`).

The spans that are merged are those of the two ends of a list, and the parts that are cut out are
the tokens. Here this is done for every list and every token of a text, whether or not the list
turns out to be an expression and the characters of the token count.
-/

namespace CalcLang

namespace Guarded

/-! ## Steps without a fault -/

section

variable {ε α β : Type}

theorem ok_bind (a : α) (f : α → Except ε β) : (Except.ok a >>= f) = f a := rfl

theorem map_ok (f : α → β) (a : α) : Except.map f (Except.ok a : Except ε α) = .ok (f a) := rfl

theorem mapM_eq {f : α → Except ε β} {g : α → β} {l : List α} (h : ∀ a ∈ l, f a = .ok (g a)) :
    l.mapM f = .ok (l.map g) := by
  induction l with
  | nil => rfl
  | cons a l ih =>
    obtain ⟨ha, hl⟩ := List.forall_mem_cons.1 h
    rw [List.mapM_cons, ha, ok_bind, ih hl, ok_bind]
    rfl

theorem forM_eq {f : α → Except ε Unit} {l : List α} (h : ∀ a ∈ l, f a = .ok ()) :
    l.forM f = .ok () := by
  induction l with
  | nil => rfl
  | cons a l ih =>
    obtain ⟨ha, hl⟩ := List.forall_mem_cons.1 h
    change (f a >>= fun _ => l.forM f) = _
    rw [ha, ok_bind, ih hl]

theorem exists_mapM {f g : α → Except ε β} {l : List α}
    (h : ∀ a ∈ l, ∃ b, f a = .ok b ∧ g a = .ok b) :
    ∃ bs, l.mapM f = .ok bs ∧ l.mapM g = .ok bs := by
  induction l with
  | nil => exact ⟨[], rfl, rfl⟩
  | cons a l ih =>
    obtain ⟨⟨b, hf, hg⟩, hl⟩ := List.forall_mem_cons.1 h
    obtain ⟨bs, hfs, hgs⟩ := ih hl
    refine ⟨b :: bs, ?_, ?_⟩
    · rw [List.mapM_cons, hf, ok_bind, hfs, ok_bind]
      rfl
    · rw [List.mapM_cons, hg, ok_bind, hgs, ok_bind]
      rfl

end

end Guarded

/-! ## Parts of texts -/

namespace Text

/-- An offset behind some characters is between them and the others. -/
theorem cutFrom_append (position : Nat) (before behind : List Char) :
    cutFrom position (byteLength before) (before ++ behind) = .between before behind := by
  induction before generalizing position with
  | nil => cases behind <;> rfl
  | cons c before ih =>
    obtain ⟨size, hsize⟩ : ∃ size, c.utf8Size = size + 1 :=
      ⟨c.utf8Size - 1, by have := c.utf8Size_pos; omega⟩
    have hrest : size + byteLength before + 1 - (size + 1) = byteLength before := by omega
    rw [byteLength_cons, hsize, Nat.add_right_comm, List.cons_append, cutFrom, hsize,
      if_neg (by omega), hrest, ih]

/-- The part of a text between two of its characters can be cut out. -/
theorem sliceBytes_append (before part behind : List Char) :
    sliceBytes (byteLength before) (byteLength (before ++ part)) (before ++ part ++ behind) =
      .ok part := by
  have hdrop : dropBytes (byteLength before) (before ++ part ++ behind) = .ok (part ++ behind) := by
    rw [dropBytes, cutAt, List.append_assoc, cutFrom_append]
  have htake : takeBytes (byteLength (before ++ part)) (before ++ part ++ behind) =
      .ok (before ++ part) := by
    rw [takeBytes, cutAt, cutFrom_append]
  have hlength : (before ++ part ++ behind).length - (part ++ behind).length = before.length := by
    simp only [List.length_append]
    omega
  rw [sliceBytes, hdrop, Guarded.ok_bind, htake, Guarded.ok_bind, hlength, List.drop_left]

end Text

namespace Guarded

/-! ## Words and tables -/

/-- The number of words of 32 bits. -/
def words : Nat := 4294967296

/-- A number that has been counted up to, provided that it fits into a word. -/
def word (count : Nat) : Except Fault Nat :=
  if count < words then .ok count else .error .addOverflow

/-- The sum of two numbers, provided that it fits into a word. -/
def add (a b : Nat) : Except Fault Nat := word (a + b)

theorem word_eq {count : Nat} (h : count < words) : word count = .ok count := if_pos h

theorem add_eq {a b : Nat} (h : a + b < words) : add a b = .ok (a + b) := word_eq h

/-- The entry of a table with a given index. -/
def entry {α : Type} (table : List α) (index : Nat) : Except Fault α :=
  match table[index]? with
  | some a => .ok a
  | none => .error (.outOfBounds table.length index)

theorem entry_eq {α : Type} {table : List α} {index : Nat} {a : α} (h : table[index]? = some a) :
    entry table index = .ok a := by
  rw [entry, h]

/-! ## Tokens -/

/-- The offset behind some characters that start at an offset. -/
def advance (offset : Nat) : List Char → Except Fault Nat
  | [] => .ok offset
  | c :: cs => do
    let next ← add offset c.utf8Size
    advance next cs

/-- The tokens of the characters behind an offset of a text. -/
def scanFrom (text : List Char) (offset : Nat) : List Char → Except Fault (List Token)
  | [] => do
    let span ← Span.ofBounds? offset offset
    .ok [⟨.eof, span, ""⟩]
  | c :: cs =>
    if Text.isBlank c then do
      let next ← add offset c.utf8Size
      scanFrom text next cs
    else do
      let m := Token.munch c cs
      let stop ← advance offset (c :: m.taken)
      let span ← Span.ofBounds? offset stop
      let part ← Text.sliceBytes span.start span.stop text
      let rest ← scanFrom text stop m.rest
      .ok (⟨m.kind, span, String.ofList part⟩ :: rest)
termination_by cs => cs.length
decreasing_by
  · simp
  · have := Token.munch_rest_length_le c cs
    simp only [List.length_cons]
    omega

theorem advance_eq {offset : Nat} {cs : List Char} (h : offset + Text.byteLength cs < words) :
    advance offset cs = .ok (offset + Text.byteLength cs) := by
  induction cs generalizing offset with
  | nil => rfl
  | cons c cs ih =>
    rw [Text.byteLength_cons, ← Nat.add_assoc] at h
    rw [advance, add_eq (by omega), ok_bind, ih h, Text.byteLength_cons, Nat.add_assoc]

/-- A text that is short enough is scanned without a fault. -/
theorem scanFrom_eq {text : List Char} (hsize : Text.byteLength text < words) (before : List Char)
    {offset : Nat} {cs : List Char} (htext : text = before ++ cs)
    (hoffset : Text.byteLength before = offset) :
    scanFrom text offset cs = .ok (Token.scanFrom offset cs) := by
  induction offset, cs using Token.scanFrom.induct generalizing before with
  | case1 offset =>
    rw [scanFrom, Span.ofBounds?, if_pos (Nat.le_refl _), Token.scanFrom]
    rfl
  | case2 offset c cs hblank ih =>
    have hnext : Text.byteLength (before ++ [c]) = offset + c.utf8Size := by
      rw [Text.byteLength_append, hoffset]
      rfl
    have htext' : text = (before ++ [c]) ++ cs := by
      rw [htext, List.append_assoc, List.singleton_append]
    have hle : Text.byteLength text = offset + c.utf8Size + Text.byteLength cs := by
      rw [htext', Text.byteLength_append, hnext]
    rw [scanFrom, if_pos hblank, add_eq (by omega), ok_bind, ih _ htext' hnext, Token.scanFrom,
      if_pos hblank]
  | case3 offset c cs hblank m stop ih =>
    have hcs : c :: cs = (c :: m.taken) ++ m.rest := by
      rw [List.cons_append, Token.munch_taken_append_rest]
    have hstop : offset + Text.byteLength (c :: m.taken) = stop := by
      rw [Text.byteLength_cons, ← Nat.add_assoc]
    have hnext : Text.byteLength (before ++ c :: m.taken) = stop := by
      rw [Text.byteLength_append, hoffset, hstop]
    have htext' : text = (before ++ c :: m.taken) ++ m.rest := by
      rw [htext, hcs, List.append_assoc]
    have hle : Text.byteLength text = stop + Text.byteLength m.rest := by
      rw [htext', Text.byteLength_append, hnext]
    have hordered : offset ≤ stop := by omega
    have hadvance : advance offset (c :: m.taken) = .ok stop := by
      rw [advance_eq (by omega), hstop]
    have hslice : Text.sliceBytes offset stop text = .ok (c :: m.taken) := by
      rw [← hoffset, ← hnext, htext']
      exact Text.sliceBytes_append before (c :: m.taken) m.rest
    rw [scanFrom, if_neg hblank]
    dsimp only
    rw [hadvance, ok_bind, Span.ofBounds?, if_pos hordered, ok_bind, hslice, ok_bind,
      ih _ htext' hnext, ok_bind, Token.scanFrom, if_neg hblank]

/-! ## Forms -/

/-- The depth behind some tokens. It goes up at opening parentheses and down at closing ones. -/
def nesting (depth : Nat) : List Token → Except Fault Nat
  | [] => .ok depth
  | t :: ts =>
    match t.kind with
    | .leftParen => do
      let deeper ← add depth 1
      nesting deeper ts
    | .rightParen => nesting (depth - 1) ts
    | _ => nesting depth ts

theorem exists_nesting {depth : Nat} {ts : List Token} (h : depth + ts.length < words) :
    ∃ depth', nesting depth ts = .ok depth' := by
  induction ts generalizing depth with
  | nil => exact ⟨depth, rfl⟩
  | cons t ts ih =>
    rw [List.length_cons] at h
    rw [nesting]
    split
    · rw [add_eq (by omega), ok_bind]
      exact ih (by omega)
    · exact ih (by omega)
    · exact ih (by omega)

variable (file : FileId)

mutual

/-- Reads a form as an expression. -/
def formExpr : Form → Except Fault (Parse.Result Expr)
  | .atom t => .ok (Parse.atomExpr file t)
  | .list opening items closing => do
    let items ← formItems items
    let _ ← opening.span.merge? closing.span
    .ok (Parse.listExpr file opening closing items)

/-- Reads each of a list of forms as an expression. -/
def formItems : List Form → Except Fault (List Parse.Item)
  | [] => .ok []
  | form :: rest => do
    let expr ← formExpr form
    let items ← formItems rest
    .ok (⟨form, expr⟩ :: items)

end

/-- Reads a top-level form as a declaration. One that is no declaration is skipped: its tokens are
run through up to the parenthesis that closes it. -/
def decl (opening : Token) (items : List Form) (closing : Token) :
    Except Fault (Parse.Result Decl) := do
  let read ← formItems file items
  let _ ← opening.span.merge? closing.span
  match Parse.decl file opening closing read with
  | .ok d => .ok (.ok d)
  | .error e => do
    let _ ← nesting 0 (Form.list opening items closing).flatten
    .ok (.error e)

/-- What the top-level forms of a text give. -/
def topLevel (inRun : Bool) : List Form → Except Fault (List (Parse.Result Decl))
  | [] => .ok []
  | .atom t :: rest => do
    let others ← topLevel true rest
    .ok (if inRun then others else .error (Parse.unexpected .declaration t) :: others)
  | .list opening items closing :: rest => do
    let first ← decl file opening items closing
    let others ← topLevel false rest
    .ok (first :: others)

/-- Parses a source text. -/
def parse (text : String) : Except Fault Parse := do
  let tokens ← scanFrom text.toList 0 text.toList
  let outcomes ← topLevel file false (Form.ofTokens (tokens.filter fun t => t.kind ≠ .comment))
  .ok ⟨Parse.successes outcomes, Parse.failures outcomes⟩

section

variable {file : FileId}

/-- The spans of some tokens do not end before they start. -/
def AllOrdered (ts : List Token) : Prop := ∀ t ∈ ts, t.span.Ordered

theorem AllOrdered.merge {t : Token} {ts : List Token} (h : AllOrdered (t :: ts)) (t' : Token) :
    t.span.merge? t'.span = .ok (t.span.cover t'.span) :=
  Span.merge?_of_ordered (h t List.mem_cons_self) _

theorem AllOrdered.items {opening closing : Token} {items : List Form}
    (h : AllOrdered (Form.list opening items closing).flatten) :
    AllOrdered (Form.flattenAll items) :=
  fun t ht => h t (List.mem_cons_of_mem _ (List.mem_append_left _ ht))

theorem AllOrdered.left {ts us : List Token} (h : AllOrdered (ts ++ us)) : AllOrdered ts :=
  fun t ht => h t (List.mem_append_left _ ht)

theorem AllOrdered.right {ts us : List Token} (h : AllOrdered (ts ++ us)) : AllOrdered us :=
  fun t ht => h t (List.mem_append_right _ ht)

mutual

theorem formExpr_eq : ∀ f : Form, AllOrdered f.flatten →
    formExpr file f = .ok (Parse.formExpr file f)
  | .atom _, _ => rfl
  | .list opening items closing, h => by
    rw [formExpr, formItems_eq items h.items, ok_bind, AllOrdered.merge h, ok_bind, Parse.formExpr]

theorem formItems_eq : ∀ fs : List Form, AllOrdered (Form.flattenAll fs) →
    formItems file fs = .ok (Parse.formItems file fs)
  | [], _ => rfl
  | f :: fs, h => by
    rw [formItems, formExpr_eq f h.left, ok_bind, formItems_eq fs h.right, ok_bind, Parse.formItems]

end

theorem decl_eq {opening closing : Token} {items : List Form}
    (hordered : AllOrdered (Form.list opening items closing).flatten)
    (hlength : (Form.list opening items closing).flatten.length < words) :
    decl file opening items closing =
      .ok (Parse.decl file opening closing (Parse.formItems file items)) := by
  rw [decl, formItems_eq items hordered.items, ok_bind, AllOrdered.merge hordered, ok_bind]
  cases Parse.decl file opening closing (Parse.formItems file items) with
  | ok d => rfl
  | error e =>
    obtain ⟨depth, hdepth⟩ := @exists_nesting 0 _ (by rwa [Nat.zero_add])
    rw [hdepth]
    rfl

theorem topLevel_eq {fs : List Form} (hordered : AllOrdered (Form.flattenAll fs))
    (hlength : (Form.flattenAll fs).length < words) (inRun : Bool) :
    topLevel file inRun fs = .ok (Parse.topLevel file inRun fs) := by
  induction fs generalizing inRun with
  | nil => rfl
  | cons f fs ih =>
    rw [Form.flattenAll, List.length_append] at hlength
    have hrest := ih hordered.right (by omega)
    cases f with
    | atom t => rw [topLevel, hrest, ok_bind, Parse.topLevel]
    | list opening items closing =>
      rw [topLevel, decl_eq hordered.left (by omega), ok_bind, hrest, ok_bind, Parse.topLevel]

end

/-- A text that is short enough is parsed without a fault. -/
theorem parse_eq (file : FileId) {text : String} (h : text.utf8ByteSize + 1 < words) :
    parse file text = .ok (Parse.ofText file text) := by
  have hsize := Text.byteLength_toList text
  have hscan : scanFrom text.toList 0 text.toList = .ok (Token.scan text) :=
    scanFrom_eq (by omega) [] rfl rfl
  let tokens := (Token.scan text).filter fun t => t.kind ≠ .comment
  have hsublist : (Form.flattenAll (Form.ofTokens tokens)).Sublist (Token.scan text) := by
    rw [Form.flatten_ofTokens]
    exact (List.takeWhile_sublist _).trans List.filter_sublist
  have hordered : AllOrdered (Form.flattenAll (Form.ofTokens tokens)) := fun t ht =>
    (Token.within_of_mem_scan (hsublist.subset ht)).2.1
  have hlength : (Form.flattenAll (Form.ofTokens tokens)).length < words := by
    have hle := Token.length_scanFrom_le 0 text.toList
    have := hsublist.length_le
    rw [Token.scan] at this
    omega
  rw [parse, hscan, ok_bind, topLevel_eq hordered hlength, ok_bind]
  rfl

/-! ## Locations -/

/-- Line and column of a byte offset, from the table of the offsets at which lines start. -/
def lineColumn (text : String) (offset : Nat) : Except Fault (Nat × Nat) := do
  let starts ← (lineStarts text).mapM word
  let index := max (starts.takeWhile (· ≤ offset)).length 1 - 1
  let start ← entry starts index
  let before ← Span.ofBounds? start offset
  let line ← add index 1
  let column ← add (before.stop - before.start) 1
  .ok (line, column)

/-- The place of a position. -/
def location (sources : SourceMap) (pos : Pos) : Except Fault Location :=
  match sources.get? pos.file with
  | none => .ok .unknown
  | some file =>
    (lineColumn file.text pos.span.start).map fun at' => ⟨file.name, at'.1, at'.2⟩

theorem length_lineStartsFrom_le (offset : Nat) (cs : List Char) :
    (lineStartsFrom offset cs).length ≤ Text.byteLength cs := by
  induction cs generalizing offset with
  | nil => exact Nat.le_refl _
  | cons c cs ih =>
    have hsize := c.utf8Size_pos
    rw [lineStartsFrom, Text.byteLength_cons]
    split
    · have := ih (offset + 1)
      rw [List.length_cons]
      omega
    · have := ih (offset + c.utf8Size)
      omega

theorem le_of_mem_lineStartsFrom {offset start : Nat} {cs : List Char}
    (h : start ∈ lineStartsFrom offset cs) : start ≤ offset + Text.byteLength cs := by
  induction cs generalizing offset with
  | nil => cases h
  | cons c cs ih =>
    have hsize := c.utf8Size_pos
    rw [lineStartsFrom] at h
    rw [Text.byteLength_cons]
    split at h
    · rcases List.mem_cons.1 h with rfl | h
      · omega
      · have := ih h
        omega
    · have := ih h
      omega

/-- The lines of a text that is short enough start at words. -/
theorem lineStarts_eq {text : String} (h : text.utf8ByteSize < words) :
    (lineStarts text).mapM word = .ok (lineStarts text) := by
  have hword : ∀ start ∈ lineStarts text, word start = .ok (id start) := fun start hstart => by
    refine word_eq (Nat.lt_of_le_of_lt ?_ h)
    rcases List.mem_cons.1 hstart with rfl | hstart
    · exact Nat.zero_le _
    · have hle := le_of_mem_lineStartsFrom hstart
      rwa [Nat.zero_add, Text.byteLength_toList] at hle
  rw [mapM_eq hword, List.map_id]

/-- Some line starts at an offset or in front of it, the last one that does. -/
theorem exists_line (text : String) (offset : Nat) :
    ∃ earlier start behind, (lineStarts text).takeWhile (· ≤ offset) = earlier ++ [start] ∧
      lineStarts text = earlier ++ start :: behind ∧ start ≤ offset := by
  obtain ⟨behind, hbehind⟩ := List.takeWhile_prefix (l := lineStarts text) (p := (· ≤ offset))
  obtain hnil | ⟨earlier, start, hbefore⟩ :=
    ((lineStarts text).takeWhile (· ≤ offset)).eq_nil_or_concat'
  · -- The first line starts at 0.
    simp [lineStarts] at hnil
  · have hmem : start ∈ (lineStarts text).takeWhile (· ≤ offset) := by simp [hbefore]
    refine ⟨earlier, start, behind, hbefore, ?_, by simpa using List.mem_takeWhile_imp hmem⟩
    rw [← hbehind, hbefore, List.append_assoc, List.singleton_append]

/-- An offset into a text that is short enough has a line and a column. -/
theorem lineColumn_eq {text : String} {offset : Nat} (h : text.utf8ByteSize + 1 < words)
    (hoffset : offset ≤ text.utf8ByteSize) :
    ∃ place, lineColumn text offset = .ok place ∧ CalcLang.lineColumn text offset = .ok place := by
  have hlength : (lineStarts text).length ≤ text.utf8ByteSize + 1 := by
    have := length_lineStartsFrom_le 0 text.toList
    rw [Text.byteLength_toList] at this
    rw [lineStarts, List.length_cons]
    omega
  obtain ⟨earlier, start, behind, hbefore, hstarts, hle⟩ := exists_line text offset
  have hindex : max (earlier ++ [start]).length 1 - 1 = earlier.length := by
    rw [List.length_append, List.length_singleton]
    omega
  have hentry : entry (lineStarts text) earlier.length = .ok start :=
    entry_eq (by rw [hstarts]; simp)
  have hline : earlier.length + 1 < words := by
    rw [hstarts, List.length_append, List.length_cons] at hlength
    omega
  refine ⟨(earlier.length + 1, offset - start + 1), ?_, ?_⟩
  · rw [lineColumn, lineStarts_eq (by omega), ok_bind, hbefore, hindex]
    dsimp only
    rw [hentry, ok_bind, Span.ofBounds?, if_pos hle, ok_bind, add_eq hline, ok_bind,
      add_eq (by dsimp only; omega), ok_bind]
  · have hcolumn : offset - start + 1 < 4294967296 := by
      change _ < words
      omega
    rw [CalcLang.lineColumn]
    simp [hbefore, hcolumn]

theorem location_eq {sources : SourceMap} {pos : Pos} {file : SourceFile}
    (hfile : sources.get? pos.file = some file) (h : file.text.utf8ByteSize + 1 < words)
    (hpos : pos.span.start ≤ file.text.utf8ByteSize) :
    ∃ place, location sources pos = .ok place ∧ sources.location pos = .ok place := by
  obtain ⟨place, hplace, hplace'⟩ := lineColumn_eq h hpos
  refine ⟨⟨file.name, place.1, place.2⟩, ?_, ?_⟩
  · rw [location, hfile]
    dsimp only
    rw [hplace, map_ok]
  · rw [SourceMap.location, hfile]
    dsimp only
    rw [hplace', map_ok]

end Guarded

end CalcLang
