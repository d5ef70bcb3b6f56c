import CalcLang.Token.Scan
import Mathlib.Data.List.TakeWhile

/-!
# Classes of tokens

    keyword, operator, parenthesis := as spelled
    number                         := "-"? [0-9]+
    name                           := [A-Za-z_][A-Za-z0-9_]*, unless it is a keyword
    comment                        := ";" and all up to the end of the line
    error                          := a number that runs into a name, or any other character

`Token.Class` has the characters of each kind of token, and `Token.Lexeme` adds the single
characters that no class has. No list of characters is in two classes (`Lexeme.kind_unique`), so the
longest match at the start of a text is one token or none. `Token.munch` finds it
(`Token.longest_munch`, `Longest.munch_eq`).
-/

namespace CalcLang

/-- The characters that a kind of token is always written with. -/
def TokenKind.spelling? : TokenKind → Option String
  | decl => some "decl"
  | var => some "var"
  | ifWord => some "if"
  | trueWord => some "true"
  | falseWord => some "false"
  | intWord => some "int"
  | boolWord => some "bool"
  | plus => some "+"
  | minus => some "-"
  | star => some "*"
  | slash => some "/"
  | percent => some "%"
  | eqEq => some "=="
  | notEq => some "!="
  | lt => some "<"
  | gt => some ">"
  | ltEq => some "<="
  | gtEq => some ">="
  | ampAmp => some "&&"
  | pipePipe => some "||"
  | bang => some "!"
  | eq => some "="
  | leftParen => some "("
  | rightParen => some ")"
  | intLiteral | ident | comment | eof | error => none

namespace Token

/-- The classes of tokens with a spelling or a rule of their own. -/
inductive Class : TokenKind → List Char → Prop
  | fixed {kind spelling} : kind.spelling? = some spelling → Class kind spelling.toList
  | number {sign d ds} : sign = [] ∨ sign = ['-'] → d.isDigit → (∀ e ∈ ds, e.isDigit) →
    Class .intLiteral (sign ++ d :: ds)
  /-- A number that runs into a name. -/
  | malformed {sign d ds} : sign = [] ∨ sign = ['-'] → d.isDigit → (∀ e ∈ ds, isNameChar e) →
    (∃ e ∈ ds, ¬ e.isDigit) → Class .error (sign ++ d :: ds)
  | name {c cs} : isNameStart c → (∀ d ∈ cs, isNameChar d) →
    (∀ kind : TokenKind, kind.spelling? ≠ some (String.ofList (c :: cs))) → Class .ident (c :: cs)
  | comment {cs} : (∀ c ∈ cs, c ≠ '\n') → Class .comment (';' :: cs)

/-- The characters of a token. What is no token of the language is one character at a time. -/
inductive Lexeme : TokenKind → List Char → Prop
  | regular {kind cs} : Class kind cs → Lexeme kind cs
  | stray {c} : ¬ Text.isBlank c → (∀ kind, ¬ Class kind [c]) → Lexeme .error [c]

/-- At the start of `cs ++ rest` the longest match is `cs`. -/
structure Longest (kind : TokenKind) (cs rest : List Char) : Prop where
  lexeme : Lexeme kind cs
  length_le : ∀ {kind' ds}, Lexeme kind' ds → ds <+: cs ++ rest → ds.length ≤ cs.length

/-! ## Characters -/

theorem toNat_of_isDigit {c : Char} (h : c.isDigit) : 48 ≤ c.toNat ∧ c.toNat ≤ 57 := by
  simpa [Char.isDigit, UInt32.le_iff_toNat_le] using h

theorem toNat_of_isUpper {c : Char} (h : c.isUpper) : 65 ≤ c.toNat ∧ c.toNat ≤ 90 := by
  obtain ⟨hlo, hhi⟩ := of_decide_eq_true h
  exact ⟨UInt32.le_iff_toNat_le.1 hlo, UInt32.le_iff_toNat_le.1 hhi⟩

theorem toNat_of_isLower {c : Char} (h : c.isLower) : 97 ≤ c.toNat ∧ c.toNat ≤ 122 := by
  obtain ⟨hlo, hhi⟩ := Bool.and_eq_true_iff.1 h
  exact ⟨UInt32.le_iff_toNat_le.1 (of_decide_eq_true hlo),
    UInt32.le_iff_toNat_le.1 (of_decide_eq_true hhi)⟩

theorem toNat_of_isNameStart {c : Char} (h : isNameStart c) :
    65 ≤ c.toNat ∧ c.toNat ≤ 90 ∨ 97 ≤ c.toNat ∧ c.toNat ≤ 122 ∨ c.toNat = 95 := by
  rw [isNameStart, Bool.or_eq_true, beq_iff_eq] at h
  rcases h with h | rfl
  · exact (Bool.or_eq_true_iff.1 h).imp toNat_of_isUpper fun h => .inl (toNat_of_isLower h)
  · exact .inr (.inr rfl)

theorem not_isNameStart_of_isDigit {c : Char} (h : c.isDigit) : ¬ isNameStart c := by
  intro hc
  have := toNat_of_isDigit h
  have := toNat_of_isNameStart hc
  omega

theorem toNat_of_isNameChar {c : Char} (h : isNameChar c) : 48 ≤ c.toNat ∧ c.toNat ≤ 122 := by
  simp only [isNameChar, Char.isAlphanum, Bool.or_eq_true] at h
  by_cases hdigit : c.isDigit
  · have := toNat_of_isDigit hdigit
    omega
  · have hstart : isNameStart c := by
      simp only [isNameStart, Bool.or_eq_true]
      exact h.imp_left fun h => h.resolve_right hdigit
    have := toNat_of_isNameStart hstart
    omega

theorem not_isBlank_of_isNameChar {c : Char} (h : isNameChar c) : ¬ Text.isBlank c := by
  have hc := toNat_of_isNameChar h
  intro hblank
  obtain ⟨r, hr, hle⟩ := Text.CodePoints.contains_iff.1 hblank
  -- All blanks are below the digits or above the letters.
  have hranges : ∀ r ∈ Text.blankRanges, r.2 < 48 ∨ 122 < r.1 := by decide
  have := hranges r hr
  omega

/-! ## Munches -/

attribute [ext] Munch

theorem munch_digit {c : Char} (h : c.isDigit) (cs : List Char) : munch c cs = .number cs := by
  unfold munch
  split <;> first | rw [if_pos h] | (exfalso; revert h; decide)

theorem munch_nameStart {c : Char} (h : isNameStart c) (cs : List Char) :
    munch c cs = .name c cs := by
  unfold munch
  split <;> first | (exfalso; revert h; decide) | skip
  rw [if_neg fun hc => not_isNameStart_of_isDigit hc h, if_pos h]

/-- A number takes all that may stand in a name. -/
theorem Munch.number_eq (cs : List Char) : number cs =
    run (if (cs.takeWhile isNameChar).all Char.isDigit then .intLiteral else .error) isNameChar
      cs := by
  have hdigits : ∀ d ∈ cs.takeWhile Char.isDigit, isNameChar d := fun d hd =>
    isNameChar_of_isDigit (List.all_eq_true.1 List.all_takeWhile d hd)
  have htake : (cs.takeWhile Char.isDigit ++ cs.dropWhile Char.isDigit).takeWhile isNameChar = _ :=
    List.takeWhile_append_of_pos hdigits
  have hdrop : (cs.takeWhile Char.isDigit ++ cs.dropWhile Char.isDigit).dropWhile isNameChar = _ :=
    List.dropWhile_append_of_pos hdigits
  rw [List.takeWhile_append_dropWhile] at htake hdrop
  have hhead := List.head?_dropWhile_not Char.isDigit cs
  unfold number
  split
  · next hnil =>
    rw [hnil] at htake hdrop
    simp [run, htake, hdrop, hnil, List.all_takeWhile]
  · next d rest hcons =>
    rw [hcons] at htake hdrop hhead
    have hd : d.isDigit = false := hhead
    split
    · next hname => simp [run, htake, hname, hd]
    · next hname => simp [run, htake, hdrop, hname, hcons, List.all_takeWhile]

theorem takeWhile_mono {ds cs : List Char} (p : Char → Bool) (h : ds <+: cs) :
    ds.takeWhile p <+: cs.takeWhile p := by
  obtain ⟨rest, rfl⟩ := h
  rw [List.takeWhile_append]
  split
  · exact (List.takeWhile_prefix p).trans (List.prefix_append ds _)
  · exact List.prefix_rfl

theorem Munch.taken_either_mono (second : Char) (double lone : TokenKind) {ds cs : List Char}
    (h : ds <+: cs) :
    (either second double lone ds).taken <+: (either second double lone cs).taken := by
  obtain ⟨rest, rfl⟩ := h
  cases ds with
  | nil => exact List.nil_prefix
  | cons d ds =>
    rw [List.cons_append, either, either]
    split <;> exact List.prefix_rfl

theorem Munch.taken_number_mono {ds cs : List Char} (h : ds <+: cs) :
    (number ds).taken <+: (number cs).taken := by
  rw [number_eq, number_eq]
  exact takeWhile_mono isNameChar h

/-- In front of more text a token is not shorter. -/
theorem taken_munch_mono (c : Char) {ds cs : List Char} (h : ds <+: cs) :
    (munch c ds).taken <+: (munch c cs).taken := by
  unfold munch
  split <;> try exact List.nil_prefix
  all_goals try exact Munch.taken_either_mono _ _ _ h
  · split
    · next hdigit =>
      have hdigit' : startsWithDigit cs := by
        obtain ⟨rest, rfl⟩ := h
        cases ds with
        | nil => cases hdigit
        | cons d ds => exact hdigit
      rw [if_pos hdigit']
      exact Munch.taken_number_mono h
    · exact List.nil_prefix
  · exact takeWhile_mono _ h
  · split
    · exact Munch.taken_number_mono h
    · split
      · exact takeWhile_mono _ h
      · exact List.nil_prefix

/-! ## Tokens are of their classes -/

theorem spelling?_of_keyword? {text : String} {kind : TokenKind}
    (h : TokenKind.keyword? text = some kind) : kind.spelling? = some text := by
  unfold TokenKind.keyword? at h
  split at h <;> cases h <;> rfl

/-- Characters that all satisfy the rule of a token are taken to the last one. -/
theorem Munch.run_eq {p : Char → Bool} {cs : List Char} (h : ∀ d ∈ cs, p d) (kind : TokenKind) :
    run kind p cs = ⟨kind, cs, []⟩ := by
  rw [run, List.takeWhile_eq_self_iff.2 h, List.dropWhile_eq_nil_iff.2 h]

theorem munch_number {sign ds cs : List Char} {c d : Char} (hsign : sign = [] ∨ sign = ['-'])
    (hd : d.isDigit) (hds : ∀ e ∈ ds, isNameChar e) (h : sign ++ d :: ds = c :: cs) :
    munch c cs = ⟨if ds.all Char.isDigit then .intLiteral else .error, cs, []⟩ := by
  rcases hsign with rfl | rfl
  · cases h
    rw [munch_digit hd, Munch.number_eq, List.takeWhile_eq_self_iff.2 hds, Munch.run_eq hds]
  · obtain ⟨rfl, rfl⟩ : '-' = c ∧ d :: ds = cs := List.cons.inj h
    have hcs : ∀ e ∈ d :: ds, isNameChar e := List.forall_mem_cons.2 ⟨isNameChar_of_isDigit hd, hds⟩
    have hmunch : munch '-' (d :: ds) = .number (d :: ds) := if_pos hd
    rw [hmunch, Munch.number_eq, List.takeWhile_eq_self_iff.2 hcs, Munch.run_eq hcs, List.all_cons,
      hd, Bool.true_and]

/-- The characters of a class are one token. -/
theorem Class.munch_eq {kind : TokenKind} {lexeme : List Char} (h : Class kind lexeme) {c : Char}
    {cs : List Char} (hlexeme : lexeme = c :: cs) : munch c cs = ⟨kind, cs, []⟩ := by
  cases h with
  | fixed h => cases kind <;> cases h <;> cases hlexeme <;> rfl
  | number hsign hd hds =>
    rw [munch_number hsign hd (fun e he => isNameChar_of_isDigit (hds e he)) hlexeme,
      if_pos (List.all_eq_true.2 hds)]
  | malformed hsign hd hds hname =>
    rw [munch_number hsign hd hds hlexeme, if_neg (by simpa using hname)]
  | name hc hds hkey =>
    cases hlexeme
    rw [munch_nameStart hc, Munch.name, List.takeWhile_eq_self_iff.2 hds, Munch.run_eq hds]
    cases hkind : TokenKind.keyword? (String.ofList (c :: cs)) with
    | none => rfl
    | some kind => exact absurd (spelling?_of_keyword? hkind) (hkey kind)
  | comment hds =>
    cases hlexeme
    exact Munch.run_eq (fun d hd => bne_iff_ne.2 (hds d hd)) _

theorem Class.ne_nil {kind : TokenKind} (h : Class kind []) : False := by
  generalize hcs : ([] : List Char) = cs at h
  cases h with
  | fixed h => cases kind <;> cases h <;> cases hcs
  | number hsign => rcases hsign with rfl | rfl <;> cases hcs
  | malformed hsign => rcases hsign with rfl | rfl <;> cases hcs
  | name => cases hcs
  | comment => cases hcs

theorem Class.not_isBlank {kind : TokenKind} {c : Char} {cs : List Char}
    (h : Class kind (c :: cs)) : ¬ Text.isBlank c := by
  generalize hcs' : c :: cs = cs' at h
  cases h with
  | fixed h => cases kind <;> cases h <;> cases hcs' <;> decide
  | number hsign hd =>
    rcases hsign with rfl | rfl <;> cases hcs'
    · exact not_isBlank_of_isNameChar (isNameChar_of_isDigit hd)
    · decide
  | malformed hsign hd =>
    rcases hsign with rfl | rfl <;> cases hcs'
    · exact not_isBlank_of_isNameChar (isNameChar_of_isDigit hd)
    · decide
  | name hc =>
    cases hcs'
    exact not_isBlank_of_isNameChar (isNameChar_of_isNameStart hc)
  | comment =>
    cases hcs'
    decide

/-- A single character that is read as no token of the language is in no class. -/
theorem Lexeme.of_munch {c : Char} (hblank : ¬ Text.isBlank c) (h : (munch c []).kind = .error) :
    Lexeme .error [c] := by
  refine .stray hblank fun kind hclass => ?_
  have hkind := congrArg Munch.kind (hclass.munch_eq rfl)
  rw [h] at hkind
  subst hkind
  generalize hcs : [c] = cs at hclass
  cases hclass with
  | fixed h => cases h
  | malformed hsign _ _ hname =>
    rcases hsign with rfl | rfl <;> cases hcs
    obtain ⟨e, he, -⟩ := hname
    cases he

theorem Lexeme.fixed {kind : TokenKind} {cs : List Char}
    (h : kind.spelling? = some (String.ofList cs)) : Lexeme kind cs := by
  have hfixed := Class.fixed h
  rw [String.toList_ofList] at hfixed
  exact .regular hfixed

theorem lexeme_either {c second : Char} {double lone : TokenKind}
    (hdouble : Lexeme double [c, second]) (hlone : Lexeme lone [c]) (cs : List Char) :
    Lexeme (Munch.either second double lone cs).kind
      (c :: (Munch.either second double lone cs).taken) := by
  cases cs with
  | nil => exact hlone
  | cons d cs =>
    rw [Munch.either]
    split
    · next hd => exact hd ▸ hdouble
    · exact hlone

theorem lexeme_number {sign : List Char} (hsign : sign = [] ∨ sign = ['-']) {d : Char}
    (hd : d.isDigit) (cs : List Char) :
    Lexeme (if (cs.takeWhile isNameChar).all Char.isDigit then .intLiteral else .error)
      (sign ++ d :: cs.takeWhile isNameChar) := by
  split
  · next h => exact .regular (.number hsign hd (List.all_eq_true.1 h))
  · next h =>
    have hname : ∃ e ∈ cs.takeWhile isNameChar, ¬ e.isDigit := by simpa using h
    exact .regular (.malformed hsign hd (List.all_eq_true.1 List.all_takeWhile) hname)

theorem lexeme_name {c : Char} (hc : isNameStart c) (cs : List Char) :
    Lexeme (Munch.name c cs).kind (c :: (Munch.name c cs).taken) := by
  have htaken : ∀ d ∈ cs.takeWhile isNameChar, isNameChar d := List.all_eq_true.1 List.all_takeWhile
  simp only [Munch.name, Munch.run]
  cases hkey : TokenKind.keyword? (String.ofList (c :: cs.takeWhile isNameChar)) with
  | some kind => exact .fixed (spelling?_of_keyword? hkey)
  | none =>
    refine .regular (.name hc htaken fun kind hkind => ?_)
    -- What is spelled so would be one token, a name.
    have hfixed := Class.fixed hkind
    rw [String.toList_ofList] at hfixed
    have hmunch := congrArg Munch.kind (hfixed.munch_eq rfl)
    rw [munch_nameStart hc, Munch.name, List.takeWhile_eq_self_iff.2 htaken, hkey] at hmunch
    cases hmunch
    cases hkind

/-- A token has the characters of its class. -/
theorem lexeme_munch {c : Char} (hblank : ¬ Text.isBlank c) (cs : List Char) :
    Lexeme (munch c cs).kind (c :: (munch c cs).taken) := by
  fun_cases munch c cs
  all_goals try exact .fixed rfl
  all_goals try exact lexeme_either (.fixed rfl) (.fixed rfl) cs
  all_goals try exact lexeme_either (.fixed rfl) (.of_munch (by decide) rfl) cs
  case case7 hdigit =>
    cases cs with
    | nil => cases hdigit
    | cons d cs =>
      have hdigit : d.isDigit := hdigit
      have hd := isNameChar_of_isDigit hdigit
      have hsigned := lexeme_number (.inr rfl) hdigit cs
      rw [Munch.number_eq]
      simpa [Munch.run, hd, hdigit] using hsigned
  case case15 =>
    exact .regular (.comment fun d hd => bne_iff_ne.1 (List.all_eq_true.1 List.all_takeWhile d hd))
  case case16 hdigit =>
    rw [Munch.number_eq]
    exact lexeme_number (.inl rfl) hdigit cs
  case case17 hname => exact lexeme_name hname cs
  case case18 hdigit hname =>
    refine .of_munch hblank ?_
    unfold munch
    split <;> try contradiction
    rw [if_neg hdigit, if_neg hname]
    rfl

/-- What has the characters of a token is one token. -/
theorem Lexeme.munch_eq {kind : TokenKind} {c : Char} {cs : List Char}
    (h : Lexeme kind (c :: cs)) : munch c cs = ⟨kind, cs, []⟩ := by
  generalize hcs : c :: cs = lexeme at h
  cases h with
  | regular h => exact h.munch_eq hcs.symm
  | stray hblank h =>
    cases hcs
    obtain ⟨htaken, hrest⟩ := List.append_eq_nil_iff.1 (munch_taken_append_rest c [])
    have hlexeme := lexeme_munch hblank []
    rw [htaken] at hlexeme
    have hkind : (munch c []).kind = .error := by
      generalize (munch c []).kind = kind at hlexeme
      cases hlexeme with
      | regular hclass => exact absurd hclass (h kind)
      | stray => rfl
    exact Munch.ext hkind htaken hrest

theorem Lexeme.exists_cons {kind : TokenKind} {lexeme : List Char} (h : Lexeme kind lexeme) :
    ∃ c cs, lexeme = c :: cs ∧ ¬ Text.isBlank c := by
  cases h with
  | regular h =>
    cases lexeme with
    | nil => exact h.ne_nil.elim
    | cons c cs => exact ⟨c, cs, rfl, h.not_isBlank⟩
  | stray hblank => exact ⟨_, [], rfl, hblank⟩

/-- No characters are tokens of two kinds. -/
theorem Lexeme.kind_unique {kind kind' : TokenKind} {lexeme : List Char} (h : Lexeme kind lexeme)
    (h' : Lexeme kind' lexeme) : kind = kind' := by
  obtain ⟨c, cs, rfl, -⟩ := h.exists_cons
  exact congrArg Munch.kind (h.munch_eq.symm.trans h'.munch_eq)

/-! ## The longest match -/

/-- The token at the start of a text is the longest match. -/
theorem longest_munch {c : Char} (hblank : ¬ Text.isBlank c) (cs : List Char) :
    Longest (munch c cs).kind (c :: (munch c cs).taken) (munch c cs).rest where
  lexeme := lexeme_munch hblank cs
  length_le h hle := by
    obtain ⟨d, ds, rfl, -⟩ := h.exists_cons
    rw [List.cons_append, munch_taken_append_rest, List.cons_prefix_cons] at hle
    obtain ⟨rfl, hle⟩ := hle
    have hmono := (taken_munch_mono d hle).length_le
    rw [h.munch_eq] at hmono
    exact Nat.succ_le_succ hmono

/-- There is one longest match at the start of a text. -/
theorem Longest.unique {kind kind' : TokenKind} {cs cs' rest rest' : List Char}
    (h : Longest kind cs rest) (h' : Longest kind' cs' rest') (heq : cs ++ rest = cs' ++ rest') :
    kind = kind' ∧ cs = cs' ∧ rest = rest' := by
  have hle : cs.length ≤ cs'.length := h'.length_le h.lexeme ⟨rest, heq⟩
  have hge : cs'.length ≤ cs.length := h.length_le h'.lexeme ⟨rest', heq.symm⟩
  obtain ⟨rfl, rfl⟩ := List.append_inj heq (Nat.le_antisymm hle hge)
  exact ⟨h.lexeme.kind_unique h'.lexeme, rfl, rfl⟩

/-- The longest match is the token that is read. -/
theorem Longest.munch_eq {kind : TokenKind} {c : Char} {cs rest : List Char}
    (h : Longest kind (c :: cs) rest) : munch c (cs ++ rest) = ⟨kind, cs, rest⟩ := by
  obtain ⟨_, _, hcons, hblank⟩ := h.lexeme.exists_cons
  cases hcons
  have hmunch := longest_munch hblank (cs ++ rest)
  obtain ⟨hkind, hcs, hrest⟩ := h.unique hmunch (by
    rw [List.cons_append, List.cons_append, munch_taken_append_rest])
  exact Munch.ext hkind.symm (List.cons.inj hcs).2.symm hrest.symm

end Token

end CalcLang
