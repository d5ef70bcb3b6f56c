import CalcLang.Proofs.Lexemes
import CalcLang.Proofs.SourceText

/-!
# Division of a text into tokens

`Token.Tokenizes` divides a text by its longest matches: white space is skipped, and otherwise the
longest match at the start is the next token. Every text is divided so in one way, and scanning
finds it (`tokenizes_scanFrom`, `Tokenizes.eq_scanFrom`). What else is true of the tokens follows
from the division: they stand apart, in the order of the text, and what no token overlaps is white
space (`Token.Tiles`, `Token.scan_tiles`).
-/

namespace CalcLang

namespace Token

open Text (byteLength byteLength_append byteLength_cons byteLength_toList)

/-- The characters from the byte offset on are divided into the tokens. -/
inductive Tokenizes : Nat → List Char → List Token → Prop
  | done {offset} : Tokenizes offset [] [⟨.eof, ⟨offset, offset⟩, ""⟩]
  | blank {offset c cs ts} : Text.isBlank c → Tokenizes (offset + c.utf8Size) cs ts →
    Tokenizes offset (c :: cs) ts
  | token {offset kind lexeme rest ts} : Longest kind lexeme rest →
    Tokenizes (offset + byteLength lexeme) rest ts →
    Tokenizes offset (lexeme ++ rest)
      (⟨kind, ⟨offset, offset + byteLength lexeme⟩, String.ofList lexeme⟩ :: ts)

theorem tokenizes_scanFrom (offset : Nat) (cs : List Char) :
    Tokenizes offset cs (scanFrom offset cs) := by
  induction offset, cs using scanFrom.induct with
  | case1 offset =>
    rw [scanFrom]
    exact .done
  | case2 offset c cs hblank ih =>
    rw [scanFrom, if_pos hblank]
    exact .blank hblank ih
  | case3 offset c cs hblank m stop ih =>
    have hstop : stop = offset + byteLength (c :: m.taken) := by
      rw [byteLength_cons, ← Nat.add_assoc]
    rw [hstop] at ih
    have htokens := Tokenizes.token (longest_munch hblank cs) ih
    rw [List.cons_append, munch_taken_append_rest] at htokens
    rw [scanFrom, if_neg hblank]
    simpa only [m, byteLength_cons, ← Nat.add_assoc] using htokens

theorem Longest.ne_eof {kind : TokenKind} {lexeme rest : List Char} (h : Longest kind lexeme rest) :
    kind ≠ .eof := by
  obtain ⟨c, cs, rfl, -⟩ := h.lexeme.exists_cons
  have hkind := munch_kind_ne c (cs ++ rest)
  rwa [h.munch_eq] at hkind

namespace Tokenizes

variable {offset : Nat} {cs : List Char} {ts : List Token}

theorem eq_scanFrom (h : Tokenizes offset cs ts) : ts = scanFrom offset cs := by
  induction h with
  | done => rw [scanFrom]
  | blank hblank _ ih => rw [scanFrom, if_pos hblank, ih]
  | token hlongest _ ih =>
    obtain ⟨c, cs, rfl, hblank⟩ := hlongest.lexeme.exists_cons
    rw [List.cons_append, scanFrom, if_neg hblank, hlongest.munch_eq, ih, byteLength_cons,
      ← Nat.add_assoc]

/-- A token has the characters of its kind. -/
theorem lexeme (h : Tokenizes offset cs ts) :
    ∀ t ∈ ts, t.kind ≠ .eof → Lexeme t.kind t.text.toList := by
  induction h with
  | done => simp
  | blank _ _ ih => exact ih
  | token hlongest _ ih =>
    refine List.forall_mem_cons.2 ⟨fun _ => ?_, ih⟩
    rw [String.toList_ofList]
    exact hlongest.lexeme

theorem le_start (h : Tokenizes offset cs ts) : ∀ t ∈ ts, offset ≤ t.span.start := by
  induction h with
  | done => simp
  | blank _ _ ih => exact fun t ht => (Nat.le_add_right ..).trans (ih t ht)
  | token _ _ ih =>
    exact List.forall_mem_cons.2 ⟨Nat.le_refl _, fun t ht => (Nat.le_add_right ..).trans (ih t ht)⟩

/-- Each token stops before the next ones start. -/
theorem pairwise (h : Tokenizes offset cs ts) :
    ts.Pairwise fun t u => t.span.stop ≤ u.span.start := by
  induction h with
  | done => exact List.pairwise_singleton ..
  | blank _ _ ih => exact ih
  | token _ hrest ih => exact List.pairwise_cons.2 ⟨hrest.le_start, ih⟩

/-- All that is not white space is in a token. -/
theorem exists_token (h : Tokenizes offset cs ts) {before behind : List Char} {c : Char}
    (hcs : cs = before ++ c :: behind) (hc : ¬ Text.isBlank c) :
    ∃ t ∈ ts, t.span.start ≤ offset + byteLength before ∧
      offset + byteLength before + c.utf8Size ≤ t.span.stop := by
  induction h generalizing before with
  | done => simp at hcs
  | blank hblank _ ih =>
    cases before with
    | nil => exact absurd ((List.cons.inj hcs).1 ▸ hblank) hc
    | cons d before =>
      obtain ⟨rfl, hrest⟩ := List.cons.inj hcs
      obtain ⟨t, ht, hbounds⟩ := ih hrest
      rw [byteLength_cons, ← Nat.add_assoc]
      exact ⟨t, ht, hbounds⟩
  | @token offset kind lexeme rest ts _ _ ih =>
    rcases List.append_eq_append_iff.1 hcs with ⟨between, rfl, hrest⟩ | ⟨more, rfl, hmore⟩
    · obtain ⟨t, ht, hbounds⟩ := ih hrest
      rw [byteLength_append, ← Nat.add_assoc]
      exact ⟨t, List.mem_cons_of_mem _ ht, hbounds⟩
    · cases more with
      | nil =>
        -- The character is the first one after the token.
        rw [List.nil_append] at hmore
        obtain ⟨t, ht, hbounds⟩ := @ih [] hmore.symm
        rw [List.append_nil] at hbounds
        exact ⟨t, List.mem_cons_of_mem _ ht, hbounds⟩
      | cons d more =>
        obtain ⟨rfl, rfl⟩ := List.cons.inj hmore
        refine ⟨_, List.mem_cons_self, Nat.le_add_right .., ?_⟩
        simp only [byteLength_append, byteLength_cons]
        omega

/-- The end of the text is the last token, and no token before it is empty. -/
theorem eq_append (h : Tokenizes offset cs ts) :
    ∃ us, ts = us ++ [⟨.eof, ⟨offset + byteLength cs, offset + byteLength cs⟩, ""⟩] ∧
      ∀ t ∈ us, t.kind ≠ .eof ∧ t.span.start < t.span.stop := by
  induction h with
  | done => exact ⟨[], rfl, nofun⟩
  | blank _ _ ih =>
    rw [byteLength_cons, ← Nat.add_assoc]
    exact ih
  | token hlongest _ ih =>
    obtain ⟨us, rfl, hus⟩ := ih
    rw [byteLength_append, ← Nat.add_assoc]
    refine ⟨_ :: us, rfl, List.forall_mem_cons.2 ⟨⟨hlongest.ne_eof, ?_⟩, hus⟩⟩
    obtain ⟨c, cs, rfl, -⟩ := hlongest.lexeme.exists_cons
    have hpos := c.utf8Size_pos
    simp only [byteLength_cons]
    omega

end Tokenizes

/-- A list of tokens tiles a text. -/
structure Tiles (text : String) (ts : List Token) : Prop where
  cuts : ∀ t ∈ ts, t.span.Cuts text
  inOrder : ts.Pairwise fun t u => t.span.stop ≤ u.span.start
  /-- What no token overlaps is white space. -/
  gaps : ∀ before gap behind : String, text = before ++ gap ++ behind →
    (∀ t ∈ ts, t.span.stop ≤ before.utf8ByteSize ∨
      before.utf8ByteSize + gap.utf8ByteSize ≤ t.span.start) →
    ∀ c ∈ gap.toList, Text.isBlank c
  ending : ∃ us, ts = us ++ [⟨.eof, ⟨text.utf8ByteSize, text.utf8ByteSize⟩, ""⟩] ∧
    ∀ t ∈ us, t.kind ≠ .eof ∧ t.span.start < t.span.stop

theorem Tokenizes.gaps {text : String} {ts : List Token} (h : Tokenizes 0 text.toList ts)
    {before gap behind : String} (htext : text = before ++ gap ++ behind)
    (hgap : ∀ t ∈ ts, t.span.stop ≤ before.utf8ByteSize ∨
      before.utf8ByteSize + gap.utf8ByteSize ≤ t.span.start) :
    ∀ c ∈ gap.toList, Text.isBlank c := by
  intro c hc
  by_contra hblank
  obtain ⟨left, right, hsplit⟩ := List.append_of_mem hc
  have hcs : text.toList = (before.toList ++ left) ++ c :: (right ++ behind.toList) := by
    simp [htext, hsplit]
  obtain ⟨t, ht, hstart, hstop⟩ := h.exists_token hcs hblank
  have hsize : gap.utf8ByteSize = byteLength left + (c.utf8Size + byteLength right) := by
    rw [← byteLength_toList, hsplit, byteLength_append, byteLength_cons]
  have hpos := c.utf8Size_pos
  rw [byteLength_append, byteLength_toList] at hstart hstop
  have := hgap t ht
  omega

/-- The tokens of a text tile it, and they are its one division by longest matches. -/
theorem scan_tiles (text : String) : Tiles text (scan text) ∧
    ∀ ts, Tokenizes 0 text.toList ts ↔ ts = scan text := by
  have htokens : Tokenizes 0 text.toList (scan text) := tokenizes_scanFrom 0 text.toList
  have hending := htokens.eq_append
  rw [Nat.zero_add, byteLength_toList] at hending
  refine ⟨⟨fun t => cuts_of_mem_scan, htokens.pairwise, fun _ _ _ => htokens.gaps, hending⟩, ?_⟩
  exact fun ts => ⟨Tokenizes.eq_scanFrom, fun hts => hts ▸ htokens⟩

end Token

end CalcLang
