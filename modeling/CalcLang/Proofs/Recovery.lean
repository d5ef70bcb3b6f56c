import CalcLang.Proofs.Balanced
import CalcLang.Proofs.Excerpts

/-!
# Recovery

The top-level forms of a text do not disturb each other. If the tokens of a text are forms whose
parentheses match, with other tokens before, between and behind them, then each form gives exactly
one declaration or exactly one error, and each run of other tokens gives one error. What a form
gives is what it gives as a text of its own, moved to its place, and an error of a form lies between
its parentheses (`Parse.ofText_recovers`).

A form is what its tokens are put together into wherever they stand (`Form.forms_foldr_flatten`);
its tokens are those of its own text (`Token.scan_excerpt`); and parsing agrees with moving tokens
(`Relocation.topLevel`).
-/

namespace CalcLang

namespace Parse

variable (file : FileId)

/-- What a run of tokens outside all forms gives: an error at its first token. -/
def runErrors : List Token → List (Result Decl)
  | [] => []
  | t :: _ => [.error (unexpected .declaration t)]

/-- A top-level form with matching parentheses, and the run of other tokens behind it. -/
structure Piece where
  opening : Token
  items : List Form
  closing : Token
  run : List Token
  balanced : (Form.list opening items closing).Balanced
  plain : ∀ t ∈ run, t.kind ≠ .leftParen

namespace Piece

variable (p : Piece)

/-- The form of a piece. -/
def form : Form := .list p.opening p.items p.closing

/-- The tokens of a piece. -/
def tokens : List Token := p.form.flatten ++ p.run

/-- What the form of a piece gives. -/
def outcome : Result Decl := decl file p.opening p.closing (formItems file p.items)

/-- What a piece gives, in source order. -/
def outcomes : List (Result Decl) := p.outcome file :: runErrors p.run

end Piece

/-- A run of tokens outside all forms, and the pieces behind it. -/
structure Pieces where
  before : List Token
  pieces : List Piece
  plain : ∀ t ∈ before, t.kind ≠ .leftParen

namespace Pieces

variable (ps : Pieces)

/-- The tokens of all pieces. -/
def tokens : List Token := ps.before ++ ps.pieces.flatMap Piece.tokens

/-- What all pieces give, in source order. -/
def outcomes : List (Result Decl) :=
  runErrors ps.before ++ ps.pieces.flatMap (Piece.outcomes file)

end Pieces

/-! ## Forms of pieces -/

/-- The tokens of a run are read as they stand. -/
theorem forms_foldr_run {run : List Token} (hrun : ∀ t ∈ run, t.kind ≠ .leftParen ∧ t.kind ≠ .eof)
    (r : Form.Reading) :
    (run.foldr Form.Reading.step r).forms = run.map Form.atom ++ r.forms := by
  induction run with
  | nil => rfl
  | cons t run ih =>
    obtain ⟨ht, hrun⟩ := List.forall_mem_cons.1 hrun
    rw [List.foldr_cons, Form.Reading.forms_step_atom ht.1 ht.2, ih hrun, List.map_cons,
      List.cons_append]

/-- The tokens of pieces are put together into their forms and the other tokens. -/
theorem forms_foldr_pieces {ps : List Piece} (hps : ∀ t ∈ ps.flatMap Piece.tokens, t.kind ≠ .eof)
    (r : Form.Reading) :
    ((ps.flatMap Piece.tokens).foldr Form.Reading.step r).forms =
      ps.flatMap (fun p => p.form :: p.run.map Form.atom) ++ r.forms := by
  induction ps with
  | nil => rfl
  | cons p ps ih =>
    rw [List.flatMap_cons, Piece.tokens, List.append_assoc] at hps
    have hrun : ∀ t ∈ p.run, t.kind ≠ .leftParen ∧ t.kind ≠ .eof := fun t ht =>
      ⟨p.plain t ht, hps t (by simp [ht])⟩
    have hps' : ∀ t ∈ ps.flatMap Piece.tokens, t.kind ≠ .eof := fun t ht =>
      hps t (List.mem_append_right _ (List.mem_append_right _ ht))
    rw [List.flatMap_cons, Piece.tokens, List.append_assoc, List.foldr_append, List.foldr_append,
      Form.forms_foldr_flatten (f := p.form) p.balanced, forms_foldr_run hrun, ih hps']
    simp [Piece.form]

theorem topLevel_run (run : List Token) (fs : List Form) (inRun : Bool) :
    ∃ inRun', topLevel file inRun (run.map Form.atom ++ fs) =
      (if inRun then [] else runErrors run) ++ topLevel file inRun' fs := by
  induction run generalizing inRun with
  | nil => exact ⟨inRun, by cases inRun <;> rfl⟩
  | cons t run ih =>
    obtain ⟨inRun', h⟩ := ih true
    refine ⟨inRun', ?_⟩
    rw [List.map_cons, List.cons_append, topLevel, h]
    cases inRun <;> rfl

theorem topLevel_pieces (ps : List Piece) (inRun : Bool) :
    topLevel file inRun (ps.flatMap fun p => p.form :: p.run.map Form.atom) =
      ps.flatMap (Piece.outcomes file) := by
  induction ps generalizing inRun with
  | nil => rfl
  | cons p ps ih =>
    obtain ⟨inRun', h⟩ := topLevel_run file p.run
      (ps.flatMap fun p => p.form :: p.run.map Form.atom) false
    rw [List.flatMap_cons, List.cons_append, Piece.form, topLevel, h, ih]
    rfl

/-! ## Errors -/

/-- An error lies between two offsets if the tokens do. -/
theorem within_of_error {ts : List Token} {eof : Token} (heof : eof.kind = .eof) {lo hi : Nat}
    (hts : ∀ t ∈ ts ++ [eof], t.span.Within lo hi) {inRun : Bool} {e : ParseError}
    (he : .error e ∈ topLevel file inRun (Form.ofTokens (ts ++ [eof]))) :
    e.span.Within lo hi := by
  have hstart := Relocation.error_span_iff file (p := fun s => s.start < lo) (c := False)
    (fun a b => by simp only [Span.cover]; omega) heof
    (fun t ht => by have := (hts t ht).1; simp only [iff_false]; omega) he
  -- That a span does not end before it starts is split into properties that covers inherit.
  have hordered := Relocation.error_span_iff file
    (p := fun s => s.start ≤ e.span.stop ∨ e.span.stop < s.stop) (c := True)
    (fun a b => by simp only [Span.cover]; omega) heof
    (fun t ht => by have := (hts t ht).2.1; simp only [iff_true]; omega) he
  have hstop := Relocation.error_span_iff file (p := fun s => hi < s.stop) (c := False)
    (fun a b => by simp only [Span.cover]; omega) heof
    (fun t ht => by have := (hts t ht).2.2; simp only [iff_false]; omega) he
  simp only [iff_false, iff_true] at hstart hordered hstop
  exact ⟨by omega, by omega, by omega⟩

/-! ## Whole texts -/

/-- What a text gives is read of its tokens that count. -/
theorem ofText_eq (text : String) : ∃ eof : Token, eof.kind = .eof ∧
    (∀ t ∈ Token.significant text ++ [eof], t ∈ Token.scan text) ∧
    ofText file text =
      let outcomes := topLevel file false (Form.ofTokens (Token.significant text ++ [eof]))
      ⟨successes outcomes, failures outcomes⟩ := by
  obtain ⟨eof, heof, hscan⟩ := Token.filter_scan text
  refine ⟨eof, heof, fun t ht => ?_, by rw [ofText, ofTokens, hscan]⟩
  rw [← hscan] at ht
  exact (List.mem_filter.1 ht).1

/-- A text whose tokens are those of a form, elsewhere, gives what the form gives, elsewhere. -/
theorem ofText_form (p : Piece) {text : String} {k : Nat}
    (h : (Token.significant text).map (Relocation.shift k).token = p.form.flatten) :
    ∃ o : Result Decl, ofText file text = ⟨successes [o], failures [o]⟩ ∧
      p.outcome file = (Relocation.shift k).result (Relocation.shift k).decl o ∧
      ∀ e, o = .error e → e.span.Within 0 text.utf8ByteSize := by
  obtain ⟨eof, heof, hscan, htext⟩ := ofText_eq file text
  have hform : (Relocation.shift k).forms (Form.ofTokens (Token.significant text ++ [eof])) =
      [p.form] := by
    rw [← Relocation.ofTokens _ _ heof, List.map_append, h]
    have hbalanced : Form.AllBalanced [p.form] := ⟨p.balanced, trivial⟩
    simpa [Form.flattenAll] using
      Form.ofTokens_flattenAll hbalanced ((Relocation.shift k).token eof) heof
  have houtcome := Relocation.topLevel (Relocation.shift k) file false
    (Form.ofTokens (Token.significant text ++ [eof]))
  rw [hform] at houtcome
  obtain ⟨o, ho, hshift⟩ := List.map_eq_singleton_iff.1 houtcome.symm
  refine ⟨o, by rw [htext, ho], hshift.symm, ?_⟩
  rintro e rfl
  exact within_of_error file heof (fun t ht => Token.within_of_mem_scan (hscan t ht))
    (by rw [ho]; exact List.mem_singleton_self _)

/-- What a text in pieces gives. -/
theorem ofText_pieces {ps : Pieces} {text : String} (h : ps.tokens = Token.significant text) :
    ofText file text = ⟨successes (ps.outcomes file), failures (ps.outcomes file)⟩ := by
  obtain ⟨eof, heof, -, htext⟩ := ofText_eq file text
  have hcounts : ∀ t ∈ ps.tokens, t.kind ≠ .eof := fun t ht =>
    Token.kind_ne_of_mem_significant (h ▸ ht)
  have hbefore : ∀ t ∈ ps.before, t.kind ≠ .leftParen ∧ t.kind ≠ .eof := fun t ht =>
    ⟨ps.plain t ht, hcounts t (List.mem_append_left _ ht)⟩
  have hforms : Form.ofTokens (Token.significant text ++ [eof]) =
      ps.before.map Form.atom ++ ps.pieces.flatMap fun p => p.form :: p.run.map Form.atom := by
    rw [← h, Pieces.tokens, Form.ofTokens, List.foldr_append, List.foldr_append,
      forms_foldr_run hbefore,
      forms_foldr_pieces fun t ht => hcounts t (List.mem_append_right _ ht), List.foldr_cons,
      List.foldr_nil, Form.Reading.step, heof]
    exact congrArg _ (List.append_nil _)
  obtain ⟨inRun, hrun⟩ := topLevel_run file ps.before
    (ps.pieces.flatMap fun p => p.form :: p.run.map Form.atom) false
  rw [htext, hforms, hrun, topLevel_pieces]
  rfl

/-- **The top-level forms of a text are read on their own.** Each form gives one declaration or one
error, and each run of other tokens one error at its first token, in source order. What a form
gives is what the part of the text between its parentheses gives by itself, moved to its place. An
error of a form lies between its parentheses. -/
theorem ofText_recovers {ps : Pieces} {text : String} (h : ps.tokens = Token.significant text) :
    ofText file text = ⟨successes (ps.outcomes file), failures (ps.outcomes file)⟩ ∧
      ∀ p ∈ ps.pieces,
        (∃ before excerpt behind : String, text = before ++ excerpt ++ behind ∧
          before.utf8ByteSize = p.opening.span.start ∧
          p.opening.span.start + excerpt.utf8ByteSize = p.closing.span.stop ∧
          ∃ o : Result Decl, ofText file excerpt = ⟨successes [o], failures [o]⟩ ∧
            let g := Relocation.shift p.opening.span.start
            p.outcome file = g.result g.decl o) ∧
        ∀ e, p.outcome file = .error e →
          e.span.Within p.opening.span.start p.closing.span.stop := by
  refine ⟨ofText_pieces file h, fun p hp => ?_⟩
  obtain ⟨ps₁, ps₂, hsplit⟩ := List.append_of_mem hp
  have htokens : Token.significant text = (ps.before ++ ps₁.flatMap Piece.tokens) ++
      p.opening :: (Form.flattenAll p.items ++
        p.closing :: (p.run ++ ps₂.flatMap Piece.tokens)) := by
    rw [← h, Pieces.tokens, hsplit]
    simp [Piece.tokens, Piece.form, Form.flatten, p.balanced.2.2]
  obtain ⟨before, excerpt, behind, htext, hstart, hstop, hexcerpt⟩ :=
    Token.significant_excerpt htokens p.balanced.2.2
  have hflatten : p.form.flatten = p.opening :: (Form.flattenAll p.items ++ [p.closing]) := by
    simp [Piece.form, Form.flatten, p.balanced.2.2]
  obtain ⟨o, ho, houtcome, hwithin⟩ := ofText_form file p (hexcerpt.trans hflatten.symm)
  refine ⟨⟨before, excerpt, behind, htext, hstart, hstop, o, ho, houtcome⟩, fun e he => ?_⟩
  cases o with
  | ok d => cases houtcome.symm.trans he
  | error e' =>
    obtain rfl := Except.error.inj (houtcome.symm.trans he)
    obtain ⟨hlo, hordered, hhi⟩ := hwithin e' rfl
    simp only [Relocation.error, Relocation.shift, Span.Within]
    omega

/-- For an example: a parenthesis that closes nothing, a declaration without a body, a name outside
all forms, and a declaration. -/
def twoMistakes : Pieces where
  before := [⟨.rightParen, ⟨0, 1⟩, ")"⟩]
  plain := by simp
  pieces :=
    [{ opening := ⟨.leftParen, ⟨2, 3⟩, "("⟩
       items := [.atom ⟨.decl, ⟨3, 7⟩, "decl"⟩, .atom ⟨.ident, ⟨8, 9⟩, "f"⟩,
        .atom ⟨.intWord, ⟨10, 13⟩, "int"⟩]
       closing := ⟨.rightParen, ⟨13, 14⟩, ")"⟩
       run := [⟨.ident, ⟨15, 16⟩, "x"⟩]
       balanced := by simp [Form.Balanced, Form.AllBalanced]
       plain := by simp },
     { opening := ⟨.leftParen, ⟨17, 18⟩, "("⟩
       items := [.atom ⟨.decl, ⟨18, 22⟩, "decl"⟩, .atom ⟨.ident, ⟨23, 24⟩, "g"⟩,
        .atom ⟨.intWord, ⟨25, 28⟩, "int"⟩, .atom ⟨.intLiteral, ⟨29, 30⟩, "1"⟩]
       closing := ⟨.rightParen, ⟨30, 31⟩, ")"⟩
       run := []
       balanced := by simp [Form.Balanced, Form.AllBalanced]
       plain := by simp }]

theorem ofText_recovers_twoMistakes :
    let text := ") (decl f int) x (decl g int 1)"
    twoMistakes.tokens = Token.significant text ∧
      (ofText ⟨0⟩ text).decls.map (fun d => d.name.name) = ["g"] ∧
      (ofText ⟨0⟩ text).errors.map (fun e => e.span) = [⟨0, 1⟩, ⟨13, 14⟩, ⟨15, 16⟩] := by
  intro text
  have htokens : twoMistakes.tokens = Token.significant text := by decide +kernel
  obtain ⟨htext, -⟩ := ofText_recovers ⟨0⟩ htokens
  rw [htext]
  exact ⟨htokens, by decide +kernel, by decide +kernel⟩

end Parse

end CalcLang
