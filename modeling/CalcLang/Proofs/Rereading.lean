import CalcLang.Proofs.Names
import CalcLang.Proofs.Parsing
import CalcLang.Proofs.Spelling
import CalcLang.Proofs.Tokenizing

/-!
# Reading written declarations

What is written of declarations has a derivation by the grammar, and the tree of this derivation is
the declarations again (`Grammar.exists_file`). All declarations that are read from a text can be
written (`Parse.writable_of_mem_decls`).
-/

namespace CalcLang

open Token Writing

theorem Expr.isList_bare (e : Expr) : e.bare.isList = e.isList := by
  cases e <;> rfl

/-! ## Tokens of writings -/

section Tokens

variable {ts : List Token} {kind : TokenKind} {text : String} {x : Writing} {xs ys : List Writing}

theorem allWords_append (xs ys : List Writing) :
    allWords (xs ++ ys) = allWords xs ++ allWords ys := by
  induction xs with
  | nil => rfl
  | cons x xs ih => rw [List.cons_append, allWords, allWords, ih, List.append_assoc]

theorem exists_split (h : ts.map spelled = allWords (xs ++ ys)) :
    ∃ us vs, ts = us ++ vs ∧ us.map spelled = allWords xs ∧ vs.map spelled = allWords ys := by
  rw [allWords_append] at h
  exact List.map_eq_append_iff.1 h

theorem exists_cons (h : ts.map spelled = allWords (x :: xs)) :
    ∃ us vs, ts = us ++ vs ∧ us.map spelled = x.words ∧ vs.map spelled = allWords xs :=
  List.map_eq_append_iff.1 h

theorem words_of_singleton (h : ts.map spelled = allWords [x]) : ts.map spelled = x.words := by
  rwa [allWords, allWords, List.append_nil] at h

open Grammar

theorem exists_word (h : ts.map spelled = allWords (.word kind text :: xs)) :
    ∃ (t : Terminal kind) (us : List Token), ts = t.token :: us ∧ t.token.text = text ∧
      us.map spelled = allWords xs := by
  obtain ⟨t, us, rfl, ht, hus⟩ := List.map_eq_cons_iff.1 h
  exact ⟨⟨t, congrArg Prod.fst ht⟩, us, rfl, congrArg Prod.snd ht, hus⟩

theorem exists_token (h : ts.map spelled = (Writing.word kind text).words) :
    ∃ t : Terminal kind, ts = [t.token] ∧ t.token.text = text := by
  obtain ⟨t, us, rfl, ht, hus⟩ := List.map_eq_cons_iff.1 h
  obtain rfl := List.map_eq_nil_iff.1 hus
  exact ⟨⟨t, congrArg Prod.fst ht⟩, rfl, congrArg Prod.snd ht⟩

theorem exists_list (h : ts.map spelled = (list xs).words) :
    ∃ (opening : Terminal .leftParen) (us : List Token) (closing : Terminal .rightParen),
      ts = opening.token :: (us ++ [closing.token]) ∧ us.map spelled = allWords xs := by
  obtain ⟨opening, vs, rfl, hopening, hvs⟩ := List.map_eq_cons_iff.1 h
  obtain ⟨us, ws, rfl, hus, hws⟩ := List.map_eq_append_iff.1 hvs
  obtain ⟨closing, ws, rfl, hclosing, hws⟩ := List.map_eq_cons_iff.1 hws
  obtain rfl := List.map_eq_nil_iff.1 hws
  exact ⟨⟨opening, congrArg Prod.fst hopening⟩, us, ⟨closing, congrArg Prod.fst hclosing⟩, rfl, hus⟩

end Tokens

/-! ## Derivations of writings -/

theorem Token.lexeme_of_mem_significant {text : String} {t : Token}
    (h : t ∈ Token.significant text) : Lexeme t.kind t.text.toList := by
  obtain ⟨hscan, hkind⟩ := List.mem_filter.1 h
  exact (tokenizes_scanFrom 0 text.toList).lexeme t hscan (of_decide_eq_true hkind).2

namespace Grammar

variable (file : FileId) {ts : List Token}

theorem exists_type {ty : TypeExpr} (h : ts.map spelled = ty.writing.words) :
    ∃ type : TypeName, ts = [type.token] ∧ (type.tree file).bare = ty.bare := by
  obtain ⟨ty, pos⟩ := ty
  cases ty <;>
  · obtain ⟨t, rfl, -⟩ := exists_token h
    first | exact ⟨.int t, rfl, rfl⟩ | exact ⟨.bool t, rfl, rfl⟩

theorem exists_types {ty : Option TypeExpr} (h : ts.map spelled = allWords (typeWritings ty)) :
    ∃ type : Option TypeName, typeTokens type = ts ∧
      (type.map (TypeName.tree file)).map TypeExpr.bare = ty.map TypeExpr.bare := by
  cases ty with
  | none => exact ⟨none, (List.map_eq_nil_iff.1 h).symm, rfl⟩
  | some ty =>
    obtain ⟨type, rfl, htype⟩ := exists_type file (words_of_singleton h)
    exact ⟨some type, rfl, congrArg some htype⟩

theorem ident_bare {t : Terminal .ident} {x : Ident} (h : t.token.text = x.name) :
    (t.ident file).bare = x.bare :=
  congrArg (Ident.mk · .origin) h

theorem phrase_of_content {e : Expr} {xs : List Writing}
    (hts : ts.map spelled = (Writing.list xs).words)
    (h : ∀ us : List Token, us.map spelled = allWords xs →
      ∃ content : Content, content.tokens = us ∧ ∀ pos, (content.tree file pos).bare = e.bare) :
    ∃ p : Phrase, p.tokens = ts ∧ (p.tree file).bare = e.bare := by
  obtain ⟨opening, us, closing, rfl, hus⟩ := exists_list hts
  obtain ⟨content, rfl, htree⟩ := h us hus
  exact ⟨.list opening content closing, rfl, htree _⟩

theorem exists_list_of_isList {file : FileId} {p : Phrase} (h : (p.tree file).isList) :
    ∃ opening content closing, p = .list opening content closing := by
  cases p with
  | list opening content closing => exact ⟨_, _, _, rfl⟩
  | _ => cases h

mutual

/-- What is written of an expression has a derivation. -/
theorem exists_phrase : ∀ {e : Expr}, e.Writable → ∀ {ts : List Token},
    ts.map spelled = e.writing.words → ∃ p : Phrase, p.tokens = ts ∧ (p.tree file).bare = e.bare
  | .int value _, _, ts, hts => by
    obtain ⟨t, rfl, ht⟩ := exists_token hts
    exact ⟨.int t value (by rw [ht, numeral_text]), rfl, rfl⟩
  | .bool true _, _, ts, hts => by
    obtain ⟨t, rfl, -⟩ := exists_token hts
    exact ⟨.truth t, rfl, rfl⟩
  | .bool false _, _, ts, hts => by
    obtain ⟨t, rfl, -⟩ := exists_token hts
    exact ⟨.falsehood t, rfl, rfl⟩
  | .name x, _, ts, hts => by
    obtain ⟨t, rfl, ht⟩ := exists_token hts
    exact ⟨.name t, rfl, congrArg Expr.name (ident_bare file ht)⟩
  | .binary op lhs rhs _, h, ts, hts => phrase_of_content file hts fun us hus => by
    obtain ⟨operator, us, rfl, -, hus⟩ := exists_word hus
    obtain ⟨ls, rs, rfl, hls, hrs⟩ := exists_cons hus
    obtain ⟨p, rfl, hp⟩ := exists_phrase h.1 hls
    obtain ⟨q, rfl, hq⟩ := exists_phrase h.2 (words_of_singleton hrs)
    refine ⟨.chain op operator p q [], ?_, fun pos => ?_⟩
    · rw [Content.tokens, Phrase.allTokens, List.append_nil]
    · exact congrArg₂ (Expr.binary op · · .origin) hp hq
  | .unary op operand _, h, ts, hts => phrase_of_content file hts fun us hus => by
    obtain ⟨operator, us, rfl, -, hus⟩ := exists_word hus
    have hoperand : operand.Writable := h
    obtain ⟨p, rfl, hp⟩ := exists_phrase hoperand (words_of_singleton hus)
    exact ⟨.unary op operator p, rfl, fun pos => congrArg (Expr.unary op · .origin) hp⟩
  | .ifThen test ty yes _, h, ts, hts => phrase_of_content file hts fun us hus => by
    obtain ⟨word, us, rfl, -, hus⟩ := exists_word hus
    obtain ⟨cs, us, rfl, hcs, hus⟩ := exists_cons hus
    obtain ⟨tys, ys, rfl, htys, hys⟩ := exists_split hus
    obtain ⟨p, rfl, hp⟩ := exists_phrase h.1 hcs
    obtain ⟨type, rfl, htype⟩ := exists_types file htys
    obtain ⟨q, rfl, hq⟩ := exists_phrase h.2 (words_of_singleton hys)
    refine ⟨.ifThen word p type q, rfl, fun pos => ?_⟩
    rw [Content.tree, Expr.bare, Expr.bare, hp, htype, hq]
  | .ifThenElse test ty yes no _, h, ts, hts => phrase_of_content file hts fun us hus => by
    obtain ⟨word, us, rfl, -, hus⟩ := exists_word hus
    obtain ⟨cs, us, rfl, hcs, hus⟩ := exists_cons hus
    obtain ⟨tys, us, rfl, htys, hus⟩ := exists_split hus
    obtain ⟨ys, ns, rfl, hys, hns⟩ := exists_cons hus
    obtain ⟨p, rfl, hp⟩ := exists_phrase h.1 hcs
    obtain ⟨type, rfl, htype⟩ := exists_types file htys
    obtain ⟨q, rfl, hq⟩ := exists_phrase h.2.1 hys
    obtain ⟨r, rfl, hr⟩ := exists_phrase h.2.2 (words_of_singleton hns)
    refine ⟨.ifThenElse word p type q r, rfl, fun pos => ?_⟩
    rw [Content.tree, Expr.bare, Expr.bare, hp, htype, hq, hr]
  | .declare x ty _, h, ts, hts => phrase_of_content file hts fun us hus => by
    obtain ⟨word, us, rfl, -, hus⟩ := exists_word hus
    obtain ⟨name, us, rfl, hname, hus⟩ := exists_word hus
    obtain ⟨type, rfl, htype⟩ := exists_type file (words_of_singleton hus)
    refine ⟨.declare word name type, rfl, fun pos => ?_⟩
    exact congrArg₂ (Expr.declare · · .origin) (ident_bare file hname) htype
  | .define x ty init _, h, ts, hts => phrase_of_content file hts fun us hus => by
    obtain ⟨word, us, rfl, -, hus⟩ := exists_word hus
    obtain ⟨ds, tys, rfl, hds, htys⟩ := exists_cons hus
    obtain ⟨opening, vs, closing, rfl, hvs⟩ := exists_list hds
    obtain ⟨equals, vs, rfl, -, hvs⟩ := exists_word hvs
    obtain ⟨name, vs, rfl, hname, hvs⟩ := exists_word hvs
    obtain ⟨p, rfl, hp⟩ := exists_phrase h.2 (words_of_singleton hvs)
    obtain ⟨type, rfl, htype⟩ := exists_types file htys
    refine ⟨.define word opening equals name p closing type, ?_, fun pos => ?_⟩
    · rw [Content.tokens]
      simp
    · rw [Content.tree, Expr.bare, Expr.bare, ident_bare file hname, hp, htype]
  | .assign x value _, h, ts, hts => phrase_of_content file hts fun us hus => by
    obtain ⟨equals, us, rfl, -, hus⟩ := exists_word hus
    obtain ⟨name, us, rfl, hname, hus⟩ := exists_word hus
    obtain ⟨p, rfl, hp⟩ := exists_phrase h.2 (words_of_singleton hus)
    refine ⟨.assign equals name p, rfl, fun pos => ?_⟩
    exact congrArg₂ (Expr.assign · · .origin) (ident_bare file hname) hp
  | .call x args _, h, ts, hts => phrase_of_content file hts fun us hus => by
    obtain ⟨name, us, rfl, hname, hus⟩ := exists_word hus
    obtain ⟨ps, rfl, hps⟩ := exists_phrases h.2 hus
    refine ⟨.call name ps, rfl, fun pos => ?_⟩
    exact congrArg₂ (Expr.call · · .origin) (ident_bare file hname) hps
  | .block exprs _, h, ts, hts => phrase_of_content file hts fun us hus => by
    obtain ⟨hfirst, hexprs⟩ := h
    obtain ⟨ps, rfl, hps⟩ := exists_phrases hexprs hus
    cases exprs with
    | nil => cases hfirst
    | cons e es =>
      cases ps with
      | nil => cases hps
      | cons p ps =>
        -- The first element is a list, so its derivation has parentheses.
        have hp : (p.tree file).isList := by
          rw [← Expr.isList_bare, (List.cons.inj hps).1, Expr.isList_bare]
          exact hfirst
        obtain ⟨opening, content, closing, rfl⟩ := exists_list_of_isList hp
        refine ⟨.block opening content closing ps, ?_, fun pos => ?_⟩
        · simp [Content.tokens, Phrase.allTokens, Phrase.tokens]
        · exact congrArg (Expr.block · .origin) hps

theorem exists_phrases : ∀ {es : List Expr}, Expr.AllWritable es → ∀ {ts : List Token},
    ts.map spelled = allWords (Expr.writings es) →
      ∃ ps : List Phrase, Phrase.allTokens ps = ts ∧
        Expr.allBare (Phrase.trees file ps) = Expr.allBare es
  | [], _, ts, hts => ⟨[], (List.map_eq_nil_iff.1 hts).symm, rfl⟩
  | e :: es, h, ts, hts => by
    obtain ⟨us, vs, rfl, hus, hvs⟩ := exists_cons hts
    obtain ⟨p, rfl, hp⟩ := exists_phrase h.1 hus
    obtain ⟨ps, rfl, hps⟩ := exists_phrases h.2 hvs
    exact ⟨p :: ps, rfl, congrArg₂ List.cons hp hps⟩

end

theorem exists_groups {ps : List Param}
    (hts : ts.map spelled = allWords (ps.flatMap Param.writings)) :
    ∃ groups : List Group, groups.flatMap Group.tokens = ts ∧
      (groups.flatMap (Group.tree file)).map Param.bare = ps.map Param.bare := by
  induction ps generalizing ts with
  | nil => exact ⟨[], (List.map_eq_nil_iff.1 hts).symm, rfl⟩
  | cons p ps ih =>
    rw [List.flatMap_cons] at hts
    obtain ⟨us, vs, rfl, hus, hvs⟩ := exists_split hts
    obtain ⟨name, us, rfl, hname, hus⟩ := exists_word hus
    obtain ⟨type, rfl, htype⟩ := exists_type file (words_of_singleton hus)
    obtain ⟨groups, rfl, hgroups⟩ := ih hvs
    refine ⟨⟨name, [], type⟩ :: groups, rfl, ?_⟩
    exact congrArg₂ List.cons (congrArg₂ Param.mk (ident_bare file hname) htype) hgroups

/-- What is written of a declaration has a derivation. -/
theorem exists_definition {d : Decl} (h : d.Writable)
    (hts : ts.map spelled = (Writing.list d.writings).words) :
    ∃ D : Definition, D.tokens = ts ∧ (D.tree file).bare = d.bare := by
  obtain ⟨opening, us, closing, rfl, hus⟩ := exists_list hts
  obtain ⟨word, us, rfl, -, hus⟩ := exists_word hus
  obtain ⟨name, us, rfl, hname, hus⟩ := exists_word hus
  obtain ⟨vs, us, rfl, hvs, hus⟩ := exists_cons hus
  obtain ⟨rs, bs, rfl, hrs, hbs⟩ := exists_cons hus
  obtain ⟨opening', ws, closing', rfl, hws⟩ := exists_list hvs
  obtain ⟨groups, rfl, hgroups⟩ := exists_groups file hws
  obtain ⟨type, rfl, htype⟩ := exists_type file hrs
  obtain ⟨body, rfl, hbody⟩ := exists_phrase file h.body (words_of_singleton hbs)
  refine ⟨⟨opening, word, name, some ⟨opening', groups, closing'⟩, type, body, closing⟩, ?_, ?_⟩
  · simp [Definition.tokens, paramsTokens, Params.tokens]
  · rw [Definition.tree, Decl.bare, Decl.bare, ident_bare file hname, htype, hbody]
    exact congrArg (Decl.mk _ · _ _ _) hgroups

/-- **What is written of declarations is derived**, and stands for them. -/
theorem exists_file {ds : List Decl} (h : ∀ d ∈ ds, d.Writable)
    (hts : ts.map spelled = ds.flatMap fun d => (Writing.list d.writings).words) :
    ∃ f : File, f.tokens = ts ∧ (f.tree file).map Decl.bare = ds.map Decl.bare := by
  induction ds generalizing ts with
  | nil => exact ⟨[], (List.map_eq_nil_iff.1 hts).symm, rfl⟩
  | cons d ds ih =>
    obtain ⟨hd, hds⟩ := List.forall_mem_cons.1 h
    obtain ⟨us, vs, rfl, hus, hvs⟩ := List.map_eq_append_iff.1 hts
    obtain ⟨D, rfl, hD⟩ := exists_definition file hd hus
    obtain ⟨f, rfl, hf⟩ := ih hds hvs
    exact ⟨D :: f, rfl, congrArg₂ List.cons hD hf⟩

/-! ## Trees can be written -/

variable {file}

/-- The token has the characters of its kind. -/
def IsLexeme (t : Token) : Prop := Lexeme t.kind t.text.toList

theorem isIdent_of_isLexeme (name : Terminal .ident) (h : IsLexeme name.token) :
    IsIdent (name.ident file).name := by
  rw [IsLexeme, name.kind_eq] at h
  exact h

theorem writable_foldl {op : BinaryOp} {pos : Pos} {e : Expr} {es : List Expr} (he : e.Writable)
    (hes : Expr.AllWritable es) :
    (es.foldl (fun lhs rhs => .binary op lhs rhs pos) e).Writable := by
  induction es generalizing e with
  | nil => exact he
  | cons e' es ih => exact @ih (.binary op e e' pos) ⟨he, hes.1⟩ hes.2

theorem isList_foldl {op : BinaryOp} {pos : Pos} {e e' : Expr} (es : List Expr) :
    ((e' :: es).foldl (fun lhs rhs => .binary op lhs rhs pos) e).isList := by
  induction es generalizing e e' with
  | nil => rfl
  | cons e'' es ih => exact ih

theorem Content.isList_tree (content : Content) (pos : Pos) : (content.tree file pos).isList := by
  cases content with
  | chain op operator first second rest => exact isList_foldl _
  | _ => rfl

mutual

/-- What is derived can be written. -/
theorem Phrase.writable : ∀ {p : Phrase}, (∀ t ∈ p.tokens, IsLexeme t) → (p.tree file).Writable
  | .int .., _ | .truth _, _ | .falsehood _, _ => trivial
  | .name name, h => isIdent_of_isLexeme name (h _ (by simp [Phrase.tokens]))
  | .list opening content closing, h =>
    Content.writable fun t ht => h t (by simp [Phrase.tokens, ht])

theorem Content.writable {pos : Pos} : ∀ {content : Content},
    (∀ t ∈ content.tokens, IsLexeme t) → (content.tree file pos).Writable
  | .unary op operator operand, h => by
    have hoperand : (operand.tree file).Writable :=
      Phrase.writable fun t ht => h t (by simp [Content.tokens, ht])
    exact hoperand
  | .chain op operator first second rest, h => by
    refine writable_foldl (Phrase.writable fun t ht => h t (by simp [Content.tokens, ht])) ⟨?_, ?_⟩
    · exact Phrase.writable fun t ht => h t (by simp [Content.tokens, ht])
    · exact Phrase.allWritable fun t ht => h t (by simp [Content.tokens, ht])
  | .ifThen _ test type yes, h =>
    ⟨Phrase.writable fun t ht => h t (by simp [Content.tokens, ht]),
      Phrase.writable fun t ht => h t (by simp [Content.tokens, ht])⟩
  | .ifThenElse _ test type yes no, h =>
    ⟨Phrase.writable fun t ht => h t (by simp [Content.tokens, ht]),
      Phrase.writable fun t ht => h t (by simp [Content.tokens, ht]),
      Phrase.writable fun t ht => h t (by simp [Content.tokens, ht])⟩
  | .declare _ name type, h => isIdent_of_isLexeme name (h _ (by simp [Content.tokens]))
  | .define _ opening equals name init closing type, h =>
    ⟨isIdent_of_isLexeme name (h _ (by simp [Content.tokens])),
      Phrase.writable fun t ht => h t (by simp [Content.tokens, ht])⟩
  | .assign equals name value, h =>
    ⟨isIdent_of_isLexeme name (h _ (by simp [Content.tokens])),
      Phrase.writable fun t ht => h t (by simp [Content.tokens, ht])⟩
  | .call name args, h =>
    ⟨isIdent_of_isLexeme name (h _ (by simp [Content.tokens])),
      Phrase.allWritable fun t ht => h t (by simp [Content.tokens, ht])⟩
  | .block opening first closing rest, h =>
    ⟨first.isList_tree _, Content.writable fun t ht => h t (by simp [Content.tokens, ht]),
      Phrase.allWritable fun t ht => h t (by simp [Content.tokens, ht])⟩

theorem Phrase.allWritable : ∀ {ps : List Phrase}, (∀ t ∈ Phrase.allTokens ps, IsLexeme t) →
    Expr.AllWritable (Phrase.trees file ps)
  | [], _ => trivial
  | p :: ps, h => ⟨Phrase.writable fun t ht => h t (by simp [Phrase.allTokens, ht]),
    Phrase.allWritable fun t ht => h t (by simp [Phrase.allTokens, ht])⟩

end

theorem Definition.writable {D : Definition} (h : ∀ t ∈ D.tokens, IsLexeme t) :
    (D.tree file).Writable where
  name := isIdent_of_isLexeme D.name (h _ (by simp [Definition.tokens]))
  params p hp := by
    cases hparams : D.params with
    | none => simp [Definition.tree, hparams, paramsTree] at hp
    | some params =>
      simp only [Definition.tree, hparams, paramsTree, List.mem_flatMap] at hp
      obtain ⟨group, hgroup, hp⟩ := hp
      obtain ⟨name, hname, rfl⟩ := List.mem_map.1 hp
      refine isIdent_of_isLexeme name (h _ ?_)
      have hmem : name.token ∈ group.tokens := List.mem_append_left _ (List.mem_map_of_mem hname)
      have hmem := List.mem_flatMap_of_mem hgroup hmem
      simp [Definition.tokens, hparams, paramsTokens, Params.tokens, hmem]
  body := Phrase.writable fun t ht => h t (by simp [Definition.tokens, ht])

end Grammar

namespace Parse

open Grammar

/-- A declaration that is read from a text is derived of tokens of the text, side by side. -/
theorem exists_definition_of_mem_decls {file : FileId} {text : String} {d : Decl}
    (h : d ∈ (ofText file text).decls) :
    ∃ D : Definition, D.tree file = d ∧ D.tokens <:+: Token.significant text := by
  obtain ⟨eof, heof, hscan⟩ := Token.filter_scan text
  obtain ⟨r, hr, hd⟩ := List.mem_filterMap.1 h
  cases r with
  | error e => cases hd
  | ok d' =>
    cases hd
    obtain ⟨opening, items, closing, hlist, hdecl⟩ := topLevel_ok hr
    have hnested := Form.nested_of_mem_ofTokens hlist
    obtain ⟨D, hform, htree⟩ := decl_inv hnested.1 (known_of_allNested items hnested.2) hdecl
    refine ⟨D, htree, ?_⟩
    have hinfix := isInfix_flatten hlist
    rwa [← hform, D.flatten_form, hscan, Form.flatten_ofTokens,
      Token.takeWhile_significant heof] at hinfix

/-- **The declarations of a source text can be written.** -/
theorem writable_of_mem_decls {file : FileId} {text : String} {d : Decl}
    (h : d ∈ (ofText file text).decls) : d.Writable := by
  obtain ⟨D, rfl, htokens⟩ := exists_definition_of_mem_decls h
  exact D.writable fun t ht => Token.lexeme_of_mem_significant (htokens.subset ht)

end Parse

end CalcLang
