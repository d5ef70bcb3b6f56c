import CalcLang.Proofs.Bare
import CalcLang.Proofs.Relocation
import CalcLang.Proofs.Rereading

/-!
# Spacing

A `Layout` writes the lexemes of a text again, with other gaps between them: white space, and
comments that a line feed ends. Where no gap between two lexemes is empty, every lexeme ends where
it ended before (`Layout.writes`), so the new text is divided into the same lexemes. Parsing looks
at nothing else of the tokens, but for the positions: forgetting all spans is a relocation, and so
it may be done before parsing or after it (`Parse.ofText_congr`).
-/

namespace CalcLang

namespace Token

/-- What may stand between two lexemes: white space, and comments that a line feed ends. -/
inductive Gap : List Char → Prop
  | nil : Gap []
  | blank {c cs} : Text.isBlank c → Gap cs → Gap (c :: cs)
  | comment {body cs} : (∀ c ∈ body, c ≠ '\n') → Gap cs → Gap (';' :: (body ++ '\n' :: cs))

/-- A comment reaches to the end of its line. -/
theorem longest_comment {body : List Char} (h : ∀ c ∈ body, c ≠ '\n') (rest : List Char) :
    Longest .comment (';' :: body) ('\n' :: rest) := by
  let cs := body ++ '\n' :: rest
  have hlongest : Longest .comment (';' :: cs.takeWhile (· != '\n')) (cs.dropWhile (· != '\n')) :=
    longest_munch (c := ';') (by decide) cs
  have hbody : ∀ c ∈ body, c != '\n' := fun c hc => bne_iff_ne.2 (h c hc)
  have htake : cs.takeWhile (· != '\n') = body := by
    rw [List.takeWhile_append_of_pos hbody]
    simp
  have hdrop : cs.dropWhile (· != '\n') = '\n' :: rest := by
    rw [List.dropWhile_append_of_pos hbody]
    simp
  rwa [htake, hdrop] at hlongest

namespace Gap

variable {gap rest : List Char}

/-- A gap in front of words adds no word. -/
theorem writes (h : Gap gap) {words : List (TokenKind × String)} (hrest : Writes rest words) :
    Writes (gap ++ rest) words := by
  induction h with
  | nil => exact hrest
  | blank hblank _ ih => exact .blank hblank ih
  | @comment body cs hbody _ ih =>
    have hcomment := Writes.comment (longest_comment hbody (cs ++ rest)) (.blank (by decide) ih)
    simpa using hcomment

/-- A gap that is not empty ends the word before it. -/
theorem stops (h : Gap gap) (hrest : gap = [] → Stops rest) : Stops (gap ++ rest) := by
  cases h with
  | nil => exact hrest rfl
  | blank hblank _ =>
    rintro c ⟨⟩
    simp [isStop, hblank]
  | comment =>
    rintro c ⟨⟩
    decide

end Gap

end Token

/-! ## Layouts -/

/-- Lexemes with the gaps in front of them, and a last gap. -/
structure Layout where
  parts : List (String × String)
  ending : String

namespace Layout

open Token

/-- The text with a layout. -/
def text (l : Layout) : String := String.join (l.parts.map fun p => p.1 ++ p.2) ++ l.ending

/-- The layout has the lexemes of a text, comments apart, and a gap between any two of them. -/
structure Of (l : Layout) (text : String) : Prop where
  lexemes : l.parts.map Prod.snd = (significant text).map Token.text
  gaps : ∀ p ∈ l.parts, Gap p.1.toList
  apart : ∀ p ∈ l.parts.tail, p.1 ≠ ""
  ending : Gap l.ending.toList

theorem text_nil (ending : String) : text ⟨[], ending⟩ = ending := String.empty_append

theorem text_cons (p : String × String) (parts : List (String × String)) (ending : String) :
    text ⟨p :: parts, ending⟩ = p.1 ++ (p.2 ++ text ⟨parts, ending⟩) := by
  simp only [text, List.map_cons, String.join_cons, String.append_assoc]

/-- What comes behind a lexeme does not go on with it. -/
theorem stops {parts : List (String × String)} {ending : String}
    (hgaps : ∀ p ∈ parts, Gap p.1.toList) (hapart : ∀ p ∈ parts, p.1 ≠ "")
    (hending : Gap ending.toList) : Stops (text ⟨parts, ending⟩).toList := by
  cases parts with
  | nil =>
    rw [text_nil, ← List.append_nil ending.toList]
    exact hending.stops fun _ => nofun
  | cons p parts =>
    rw [text_cons, String.toList_append]
    refine (hgaps p List.mem_cons_self).stops fun hnil => ?_
    exact absurd (String.toList_eq_nil_iff.1 hnil) (hapart p List.mem_cons_self)

/-- **Lexemes with gaps between them are written as the words that they are.** -/
theorem writes {parts : List (String × String)} {ending : String}
    {words : List (TokenKind × String)}
    (hlexemes : parts.map Prod.snd = words.map Prod.snd)
    (hwords : ∀ w ∈ words, Lexeme w.1 w.2.toList ∧ w.1 ≠ .comment)
    (hgaps : ∀ p ∈ parts, Gap p.1.toList) (hapart : ∀ p ∈ parts.tail, p.1 ≠ "")
    (hending : Gap ending.toList) : Writes (text ⟨parts, ending⟩).toList words := by
  induction parts generalizing words with
  | nil =>
    obtain rfl := List.map_eq_nil_iff.1 hlexemes.symm
    rw [text_nil, ← List.append_nil ending.toList]
    exact hending.writes .nil
  | cons p parts ih =>
    obtain ⟨w, words, rfl, hw, hlexemes⟩ := List.map_eq_cons_iff.1 hlexemes.symm
    obtain ⟨⟨hlexeme, hkind⟩, hwords⟩ := List.forall_mem_cons.1 hwords
    obtain ⟨hgap, hgaps⟩ := List.forall_mem_cons.1 hgaps
    have hrest := ih hlexemes.symm hwords hgaps fun q hq => hapart q (List.mem_of_mem_tail hq)
    have hlongest := hlexeme.longest hkind (stops hgaps hapart hending)
    have hword := Writes.word hlongest hkind hrest
    rw [String.ofList_toList] at hword
    rw [text_cons, String.toList_append, String.toList_append, ← hw]
    exact hgap.writes hword

/-- The lexemes that count are the same in the new text. -/
theorem spelled_significant {l : Layout} {text : String} (h : l.Of text) :
    (significant l.text).map spelled = (significant text).map spelled := by
  have hlexemes : l.parts.map Prod.snd = ((significant text).map spelled).map Prod.snd := by
    rw [h.lexemes, List.map_map]
    rfl
  refine (writes hlexemes ?_ h.gaps h.apart h.ending).scanFrom 0
  intro w hw
  obtain ⟨t, ht, rfl⟩ := List.mem_map.1 hw
  exact ⟨lexeme_of_mem_significant ht, (of_decide_eq_true (List.mem_filter.1 ht).2).1⟩

end Layout

/-! ## Trees without positions -/

namespace Relocation

/-- Nothing is left of a span. -/
def forget : Relocation where
  span _ := ⟨0, 0⟩
  cover _ _ := rfl

variable (g : Relocation)

theorem bare_ident (x : Ident) : (g.ident x).bare = x.bare := rfl

theorem bare_types (ty : Option TypeExpr) :
    (ty.map g.typeExpr).map TypeExpr.bare = ty.map TypeExpr.bare := by
  rw [Option.map_map]
  rfl

mutual

/-- A relocated tree is the same but for the positions. -/
theorem bare_expr : ∀ e : Expr, (g.expr e).bare = e.bare
  | .int .. | .bool .. | .name _ | .declare .. => rfl
  | .binary op lhs rhs _ => by rw [expr, Expr.bare, Expr.bare, bare_expr lhs, bare_expr rhs]
  | .unary op operand _ => by rw [expr, Expr.bare, Expr.bare, bare_expr operand]
  | .ifThen test ty yes _ => by
    rw [expr, Expr.bare, Expr.bare, bare_expr test, bare_types, bare_expr yes]
  | .ifThenElse test ty yes no _ => by
    rw [expr, Expr.bare, Expr.bare, bare_expr test, bare_types, bare_expr yes, bare_expr no]
  | .define x ty init _ => by
    rw [expr, Expr.bare, Expr.bare, bare_ident, bare_types, bare_expr init]
  | .assign x value _ => by rw [expr, Expr.bare, Expr.bare, bare_ident, bare_expr value]
  | .call x args _ => by rw [expr, Expr.bare, Expr.bare, bare_ident, bare_exprs args]
  | .block elements _ => by rw [expr, Expr.bare, Expr.bare, bare_exprs elements]

theorem bare_exprs : ∀ es : List Expr, Expr.allBare (g.exprs es) = Expr.allBare es
  | [] => rfl
  | e :: es => by rw [exprs, Expr.allBare, Expr.allBare, bare_expr e, bare_exprs es]

end

theorem bare_decl (d : Decl) : (g.decl d).bare = d.bare := by
  rw [decl, Decl.bare, Decl.bare, bare_expr, List.map_map]
  rfl

theorem bare_decls (ds : List Decl) : (ds.map g.decl).map Decl.bare = ds.map Decl.bare := by
  rw [List.map_map]
  exact List.map_congr_left fun d _ => g.bare_decl d

/-- The message of an error does not tell a place. -/
theorem message_error (e : ParseError) : (g.error e).message = e.message := by
  obtain ⟨cause, span⟩ := e
  cases cause <;> rfl

theorem message_errors (es : List ParseError) :
    (es.map g.error).map ParseError.message = es.map ParseError.message := by
  rw [List.map_map]
  exact List.map_congr_left fun e _ => g.message_error e

variable {α β : Type} (f : α → β) (rs : List (Parse.Result α))

theorem successes_result :
    Parse.successes (rs.map (g.result f)) = (Parse.successes rs).map f := by
  rw [Parse.successes, Parse.successes, List.filterMap_map, List.map_filterMap]
  refine List.filterMap_congr fun r _ => ?_
  cases r <;> rfl

theorem failures_result :
    Parse.failures (rs.map (g.result f)) = (Parse.failures rs).map g.error := by
  rw [Parse.failures, Parse.failures, List.filterMap_map, List.map_filterMap]
  refine List.filterMap_congr fun r _ => ?_
  cases r <;> rfl

end Relocation

/-! ## Texts -/

namespace Token

/-- Without its comments, a text has the lexemes that count and then its end. -/
theorem spelled_filter_scan (text : String) :
    ((scan text).filter fun t => t.kind ≠ .comment).map spelled =
      (significant text).map spelled ++ [(.eof, "")] := by
  obtain ⟨eof, heof, hfilter⟩ := filter_scan text
  obtain ⟨us, hscan, hus⟩ := (tokenizes_scanFrom 0 text.toList).eq_append
  have hmem : eof ∈ (scan text).filter fun t => t.kind ≠ .comment := by
    rw [hfilter]
    simp
  have hmem : eof ∈ scan text := List.mem_of_mem_filter hmem
  rw [scan, hscan] at hmem
  have htext : eof.text = "" := by
    rcases List.mem_append.1 hmem with hmem | hmem
    · exact absurd heof (hus eof hmem).1
    · rw [List.mem_singleton.1 hmem]
  rw [hfilter, List.map_append]
  simp [spelled, heof, htext]

end Token

namespace Parse

open Token Relocation

/-- Texts with the same lexemes have the same declarations up to positions, and their errors have
the same messages. -/
theorem ofText_congr {text text' : String}
    (h : (significant text).map spelled = (significant text').map spelled) (file : FileId) :
    (ofText file text).decls.map Decl.bare = (ofText file text').decls.map Decl.bare ∧
      (ofText file text).errors.map ParseError.message =
        (ofText file text').errors.map ParseError.message := by
  let lexemes (text : String) : List Token := (scan text).filter fun t => t.kind ≠ .comment
  let outcomes (text : String) := topLevel file false (Form.ofTokens (lexemes text))
  -- Forgetting the spans leaves the kinds and the characters.
  have hlexemes : (lexemes text).map forget.token = (lexemes text').map forget.token := by
    let token (w : TokenKind × String) : Token := ⟨w.1, ⟨0, 0⟩, w.2⟩
    have hforget (ts : List Token) : ts.map forget.token = (ts.map spelled).map token := by
      rw [List.map_map]
      rfl
    rw [hforget, hforget, spelled_filter_scan, spelled_filter_scan, h]
  have hforget (text : String) : (outcomes text).map (forget.result forget.decl) =
      topLevel file false (Form.ofTokens ((lexemes text).map forget.token)) := by
    obtain ⟨eof, heof, hfilter⟩ := filter_scan text
    simp only [outcomes, lexemes, hfilter]
    rw [Relocation.ofTokens _ _ heof, Relocation.topLevel]
  have houtcomes : (outcomes text).map (forget.result forget.decl) =
      (outcomes text').map (forget.result forget.decl) := by
    rw [hforget, hforget, hlexemes]
  constructor
  · calc (successes (outcomes text)).map Decl.bare
      _ = (successes ((outcomes text).map (forget.result forget.decl))).map Decl.bare := by
        rw [successes_result, bare_decls]
      _ = (successes (outcomes text')).map Decl.bare := by
        rw [houtcomes, successes_result, bare_decls]
  · calc (failures (outcomes text)).map ParseError.message
      _ = (failures ((outcomes text).map (forget.result forget.decl))).map
            ParseError.message := by
        rw [failures_result, message_errors]
      _ = (failures (outcomes text')).map ParseError.message := by
        rw [houtcomes, failures_result, message_errors]

/-- **Layout does not matter.** Where the lexemes of a text are written again, in order and with
any white space and any comments between them, the new text has the same lexemes, of the same
kinds. So it is read as the same declarations up to positions, and with the same messages. -/
theorem ofText_layout {l : Layout} {text : String} (h : l.Of text) :
    ((scan l.text).filter fun t => t.kind ≠ .comment).map spelled =
        ((scan text).filter fun t => t.kind ≠ .comment).map spelled ∧
      ∀ file, (ofText file l.text).decls.map Decl.bare = (ofText file text).decls.map Decl.bare ∧
        (ofText file l.text).errors.map ParseError.message =
          (ofText file text).errors.map ParseError.message := by
  have hlexemes := Layout.spelled_significant h
  refine ⟨?_, ofText_congr hlexemes⟩
  rw [spelled_filter_scan, spelled_filter_scan, hlexemes]

/-- Lexemes that stand side by side, one of them no lexeme of the language, and the same lexemes on
several lines with comments between them. -/
theorem ofText_layout_lines :
    let l : Layout := ⟨[("", "("), (" ", "decl"), (";c\n", "f"), ("\t", "int"), ("\n", "-1"),
      (" ", ")"), (" ;;\n", "&")], " ;d\n"⟩
    l.Of "(decl f int -1)&;c" ∧ (ofText ⟨0⟩ l.text).decls.length = 1 ∧
      (ofText ⟨0⟩ l.text).errors.map ParseError.message =
        ["expected `(` to start a declaration, found invalid character"] := by
  intro l
  have hspace : Gap [' '] := .blank (by decide) .nil
  have hline (c : Char) (hc : c ≠ '\n') : Gap [';', c, '\n'] := by
    have hbody : ∀ d ∈ [c], d ≠ '\n' := List.forall_mem_singleton.2 hc
    exact .comment hbody .nil
  have hlayout : l.Of "(decl f int -1)&;c" := by
    refine ⟨by decide +kernel, ?_, by decide, ?_⟩
    · simp only [l, List.forall_mem_cons]
      exact ⟨.nil, hspace, hline 'c' (by decide), .blank (by decide) .nil, .blank (by decide) .nil,
        hspace, .blank (c := ' ') (by decide) (hline ';' (by decide)), List.forall_mem_nil _⟩
    · show Gap " ;d\n".toList
      exact .blank (c := ' ') (by decide) (hline 'd' (by decide))
  obtain ⟨-, hparse⟩ := ofText_layout hlayout
  obtain ⟨hdecls, herrors⟩ := hparse ⟨0⟩
  refine ⟨hlayout, ?_, ?_⟩
  · have hlength := congrArg List.length hdecls
    rw [List.length_map, List.length_map] at hlength
    rw [hlength]
    decide +kernel
  · rw [herrors]
    decide +kernel

end Parse

end CalcLang
