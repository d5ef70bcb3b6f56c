import CalcLang.Token

/-!
# Forms

The tokens of a source text are first put together into forms: single tokens, and lists of forms
between parentheses. `Form.ofTokens` reads every list of tokens. A list that the text does not
close is closed by the end of the text, and a closing parenthesis that closes nothing is a form
of its own. Hence the extent of a form does not depend on what is written inside it, and the
tokens of the forms of a text are the tokens of the text (`Form.flatten_ofTokens`).

Reading goes from the last token to the first. A closing parenthesis starts a `Level`, which
waits for its opening one; an opening parenthesis that finds no level is one that the text does
not close.
-/

namespace CalcLang

/-- A token, or a list of forms between two tokens. -/
inductive Form
  | atom (token : Token)
  /-- The closing token is a parenthesis or, for a list that is never closed, the end of the
  text. -/
  | list (opening : Token) (items : List Form) (closing : Token)
  deriving Repr, Inhabited

namespace Form

/-- The first token of a form. -/
def head : Form → Token
  | atom t => t
  | list opening _ _ => opening

mutual

/-- The tokens of a form, without the end of the text. -/
def flatten : Form → List Token
  | atom t => [t]
  | list opening items closing =>
    opening :: (flattenAll items ++ if closing.kind = .eof then [] else [closing])

/-- The tokens of a list of forms. -/
def flattenAll : List Form → List Token
  | [] => []
  | f :: fs => flatten f ++ flattenAll fs

end

/-- A closing parenthesis that has not met its opening one yet, and the forms behind it. -/
structure Level where
  closing : Token
  after : List Form
  deriving Repr, Inhabited

/-- What has been read of a list of tokens from its end: the forms up to the next closing
parenthesis, the levels that wait for their opening parenthesis, innermost first, and the token
that ends the text. -/
structure Reading where
  current : List Form
  levels : List Level
  eof : Token
  deriving Repr, Inhabited

namespace Reading

/-- The reading of no tokens before the end of the text. -/
def start (eof : Token) : Reading := ⟨[], [], eof⟩

/-- Puts a token before what has been read. The end of the text hides all that follows it. -/
def step (t : Token) (r : Reading) : Reading :=
  match t.kind with
  | .eof => start t
  | .rightParen => { r with current := [], levels := ⟨t, r.current⟩ :: r.levels }
  | .leftParen =>
    match r.levels with
    | [] => { r with current := [.list t r.current r.eof] }
    | level :: levels =>
      { r with current := .list t r.current level.closing :: level.after, levels := levels }
  | _ => { r with current := .atom t :: r.current }

/-- The forms of a reading: a closing parenthesis whose level is still waiting closes nothing. -/
def forms (r : Reading) : List Form :=
  r.levels.foldl (fun forms level => forms ++ .atom level.closing :: level.after) r.current

end Reading

/-- The forms of a list of tokens up to its first `TokenKind.eof`. -/
def ofTokens (tokens : List Token) : List Form :=
  (tokens.foldr Reading.step (.start ⟨.eof, ⟨0, 0⟩, ""⟩)).forms

/-! ## Nothing is lost -/

@[simp]
theorem flattenAll_append (fs gs : List Form) :
    flattenAll (fs ++ gs) = flattenAll fs ++ flattenAll gs := by
  induction fs with
  | nil => rfl
  | cons f fs ih => simp [flattenAll, ih]

namespace Reading

/-- The tokens of what has been read. -/
def tokens (r : Reading) : List Token :=
  flattenAll r.current ++ r.levels.flatMap fun level => level.closing :: flattenAll level.after

/-- The tokens that a reading keeps to close lists with have the right kinds. -/
structure Sound (r : Reading) : Prop where
  eof : r.eof.kind = .eof
  closing : ∀ level ∈ r.levels, level.closing.kind = .rightParen

theorem Sound.start {t : Token} (h : t.kind = .eof) : (Reading.start t).Sound :=
  ⟨h, by simp [Reading.start]⟩

theorem Sound.step {r : Reading} (h : r.Sound) (t : Token) : (r.step t).Sound := by
  obtain ⟨heof, hclosing⟩ := h
  unfold Reading.step
  split
  · exact .start ‹_›
  · exact ⟨heof, by simpa [‹t.kind = _›] using hclosing⟩
  · split
    · exact ⟨heof, by simp_all⟩
    · exact ⟨heof, by simp_all⟩
  · exact ⟨heof, hclosing⟩

theorem tokens_step {r : Reading} (h : r.Sound) {t : Token} (ht : t.kind ≠ .eof) :
    (r.step t).tokens = t :: r.tokens := by
  obtain ⟨heof, hclosing⟩ := h
  unfold Reading.step
  split
  · exact absurd ‹_› ht
  · simp [tokens, flattenAll]
  · split
    · next hlevels => simp [tokens, flattenAll, flatten, heof, hlevels]
    · next hlevels => simp_all [tokens, flattenAll, flatten]
  · simp [tokens, flattenAll, flatten]

theorem flattenAll_forms (r : Reading) : flattenAll r.forms = r.tokens := by
  obtain ⟨current, levels, eof⟩ := r
  simp only [forms, tokens]
  induction levels generalizing current with
  | nil => simp
  | cons level levels ih =>
    rw [List.foldl_cons, ih]
    simp [flattenAll, flatten]

end Reading

/-- The tokens of the forms of a text are the tokens of the text. -/
theorem flatten_ofTokens (ts : List Token) :
    flattenAll (ofTokens ts) = ts.takeWhile fun t => t.kind ≠ .eof := by
  rw [ofTokens, Reading.flattenAll_forms]
  suffices h : ∀ start : Reading, start.Sound → start.tokens = [] →
      (ts.foldr Reading.step start).Sound ∧
        (ts.foldr Reading.step start).tokens = ts.takeWhile fun t => t.kind ≠ .eof from
    (h _ (.start rfl) rfl).2
  intro start hstart hempty
  induction ts with
  | nil => exact ⟨hstart, hempty⟩
  | cons t ts ih =>
    refine ⟨ih.1.step t, ?_⟩
    by_cases ht : t.kind = .eof
    · simp [Reading.step, ht, Reading.tokens, Reading.start, flattenAll]
    · simp [Reading.tokens_step ih.1 ht, ih.2, ht]

end Form

end CalcLang
