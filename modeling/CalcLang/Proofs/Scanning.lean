import CalcLang.Token.Scan

/-!
# Scanned texts

The end of a text is its last token and no other one (`scan_eq`).
-/

namespace CalcLang

namespace Token

theorem Munch.kind_either_ne {kind double lone : TokenKind} (hdouble : double ≠ kind)
    (hlone : lone ≠ kind) (second : Char) (cs : List Char) :
    (either second double lone cs).kind ≠ kind := by
  cases cs with
  | nil => exact hlone
  | cons d cs =>
    rw [either]
    split
    · exact hdouble
    · exact hlone

theorem Munch.kind_number_ne {kind : TokenKind} (hint : .intLiteral ≠ kind) (herror : .error ≠ kind)
    (cs : List Char) : (number cs).kind ≠ kind := by
  unfold number
  split
  · exact hint
  · split
    · exact herror
    · exact hint

theorem Munch.kind_name_ne (c : Char) (cs : List Char) :
    (name c cs).kind ≠ .eof ∧ (name c cs).kind ≠ .rightParen := by
  simp only [name, run]
  generalize String.ofList _ = text
  unfold TokenKind.keyword?
  split <;> simp

/-- No characters are the end of a text. -/
theorem munch_kind_ne (c : Char) (cs : List Char) : (munch c cs).kind ≠ .eof := by
  fun_cases munch c cs
  all_goals first
    | exact (Munch.kind_name_ne c cs).1
    | exact Munch.kind_number_ne (by decide) (by decide) cs
    | exact Munch.kind_either_ne (by decide) (by decide) _ cs
    | simp [Munch.single, Munch.run]

theorem eq_of_munch_kind {c : Char} {cs : List Char} (h : (munch c cs).kind = .rightParen) :
    c = ')' := by
  revert h
  fun_cases munch c cs
  all_goals first
    | exact fun _ => rfl
    | exact fun h => absurd h (Munch.kind_name_ne c cs).2
    | exact fun h => absurd h (Munch.kind_number_ne (by decide) (by decide) cs)
    | exact fun h => absurd h (Munch.kind_either_ne (by decide) (by decide) _ cs)
    | simp [Munch.single, Munch.run]

/-- The tokens of a text that count: all but comments and the end. -/
def significant (text : String) : List Token :=
  (scan text).filter fun t => t.kind ≠ .comment ∧ t.kind ≠ .eof

theorem scanFrom_eq (offset : Nat) (cs : List Char) :
    ∃ ts eof, scanFrom offset cs = ts ++ [eof] ∧ eof.kind = .eof ∧ ∀ t ∈ ts, t.kind ≠ .eof := by
  induction offset, cs using scanFrom.induct with
  | case1 offset => exact ⟨[], _, by rw [scanFrom, List.nil_append], rfl, nofun⟩
  | case2 offset c cs hblank ih =>
    rw [scanFrom, if_pos hblank]
    exact ih
  | case3 offset c cs hblank m stop ih =>
    obtain ⟨ts, eof, hscan, heof, hts⟩ := ih
    rw [scanFrom, if_neg hblank]
    refine ⟨_ :: ts, eof, congrArg (_ :: ·) hscan, heof, ?_⟩
    exact List.forall_mem_cons.2 ⟨munch_kind_ne c cs, hts⟩

/-- Without its comments, a text has the tokens that count and then its end. -/
theorem filter_scan (text : String) : ∃ eof : Token, eof.kind = .eof ∧
    (scan text).filter (fun t => t.kind ≠ .comment) = significant text ++ [eof] := by
  obtain ⟨ts, eof, hscan, heof, hts⟩ := scanFrom_eq 0 text.toList
  refine ⟨eof, heof, ?_⟩
  have hfilter : ts.filter (fun t => decide (t.kind ≠ .comment ∧ t.kind ≠ .eof)) =
      ts.filter fun t => t.kind ≠ .comment :=
    List.filter_congr fun t ht => by simp [hts t ht]
  rw [significant, scan, hscan, List.filter_append, List.filter_append, hfilter]
  simp [heof]

theorem kind_ne_of_mem_significant {text : String} {t : Token} (h : t ∈ significant text) :
    t.kind ≠ .eof :=
  (of_decide_eq_true (List.mem_filter.1 h).2).2

/-- The tokens that count end where the text ends. -/
theorem takeWhile_significant {text : String} {eof : Token} (heof : eof.kind = .eof) :
    (significant text ++ [eof]).takeWhile (fun t => t.kind ≠ .eof) = significant text := by
  have hne : ∀ t ∈ significant text, decide (t.kind ≠ .eof) := fun t ht =>
    decide_eq_true (kind_ne_of_mem_significant ht)
  rw [List.takeWhile_append_of_pos hne]
  simp [heof]

end Token

end CalcLang
