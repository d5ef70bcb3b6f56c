import CalcLang.Proofs.Policy
import CalcLang.Proofs.SourceText
import Mathlib.Data.List.Flatten

/-!
# Where trees come from

The names in a tree are names in its text, in the same order, and each node stands between the ends
of two tokens. This is said of derivations (`Grammar.Phrase.sublist_idents`,
`Grammar.Phrase.places`), and so it holds of what is read of a text: no name is read twice
(`Compile.nodup_idents`), and each is the text at its position (`Compile.reads_of_mem_idents`).
-/

namespace CalcLang

mutual

/-- The names in an expression, in the order of the text. -/
def Expr.idents : Expr → List Ident
  | .int .. | .bool .. => []
  | .name x => [x]
  | .binary _ lhs rhs _ => lhs.idents ++ rhs.idents
  | .unary _ operand _ => operand.idents
  | .ifThen test _ yes _ => test.idents ++ yes.idents
  | .ifThenElse test _ yes no _ => test.idents ++ (yes.idents ++ no.idents)
  | .declare x _ _ => [x]
  | .define x _ init _ => x :: init.idents
  | .assign x value _ => x :: value.idents
  | .call x args _ => x :: Expr.allIdents args
  | .block exprs _ => Expr.allIdents exprs

/-- The names in expressions. -/
def Expr.allIdents : List Expr → List Ident
  | [] => []
  | e :: es => e.idents ++ Expr.allIdents es

end

mutual

/-- The positions of an expression and of those inside it. -/
def Expr.places : Expr → List Pos
  | .int _ pos | .bool _ pos => [pos]
  | .name x => [x.pos]
  | .binary _ lhs rhs pos => pos :: (lhs.places ++ rhs.places)
  | .unary _ operand pos => pos :: operand.places
  | .ifThen test _ yes pos => pos :: (test.places ++ yes.places)
  | .ifThenElse test _ yes no pos => pos :: (test.places ++ (yes.places ++ no.places))
  | .declare _ _ pos => [pos]
  | .define _ _ init pos => pos :: init.places
  | .assign _ value pos => pos :: value.places
  | .call _ args pos => pos :: Expr.allPlaces args
  | .block exprs pos => pos :: Expr.allPlaces exprs

/-- The positions of expressions and of those inside them. -/
def Expr.allPlaces : List Expr → List Pos
  | [] => []
  | e :: es => e.places ++ Expr.allPlaces es

end

/-- The names in a declaration, in the order of the text. -/
def Decl.idents (d : Decl) : List Ident :=
  d.name :: (d.params.map Param.name ++ d.body.idents)

/-! ## Derivations -/

namespace Grammar

variable {file : FileId}

/-- The name that a token is read as. -/
def written (file : FileId) (t : Token) : Ident := ⟨t.text, ⟨file, t.span⟩⟩

/-- A position between the ends of two of some tokens. -/
def Around (file : FileId) (ts : List Token) (q : Pos) : Prop :=
  ∃ t ∈ ts, ∃ u ∈ ts, q = place file t u

/-- The position of a single token. -/
theorem around_token {ts : List Token} {t : Token} (ht : t ∈ ts) : Around file ts ⟨file, t.span⟩ :=
  ⟨t, ht, t, ht, by simp [place, Span.cover]⟩

theorem idents_chain (op : BinaryOp) (pos : Pos) (first : Expr) (rest : List Expr) :
    (rest.foldl (fun lhs rhs => Expr.binary op lhs rhs pos) first).idents =
      first.idents ++ Expr.allIdents rest := by
  induction rest generalizing first with
  | nil => simp [Expr.allIdents]
  | cons e es ih => rw [List.foldl_cons, ih, Expr.idents, Expr.allIdents, List.append_assoc]

mutual

/-- The names of a tree are tokens of the text. -/
theorem Phrase.sublist_idents : ∀ p : Phrase,
    (p.tree file).idents.Sublist (p.tokens.map (written file))
  | .int .. | .truth .. | .falsehood .. => List.nil_sublist _
  | .name _ => List.Sublist.refl _
  | .list opening content closing => by
    rw [Phrase.tree, Phrase.tokens, List.map_cons, List.map_append]
    exact .cons _ ((content.sublist_idents _).trans (List.sublist_append_left ..))

theorem Content.sublist_idents : ∀ (c : Content) (pos : Pos),
    (c.tree file pos).idents.Sublist (c.tokens.map (written file))
  | .unary _ _ operand, _ => .cons _ operand.sublist_idents
  | .chain op _ first second rest, pos => by
    rw [Content.tree, idents_chain, Content.tokens, List.map_cons, List.map_append,
      List.map_append]
    exact .cons _ (first.sublist_idents.append
      (second.sublist_idents.append (Phrase.sublist_allIdents rest)))
  | .ifThen _ test type yes, _ => by
    rw [Content.tokens, List.map_cons, List.map_append, List.map_append]
    exact .cons _ (test.sublist_idents.append
      (yes.sublist_idents.trans (List.sublist_append_right ..)))
  | .ifThenElse _ test type yes no, _ => by
    rw [Content.tokens, List.map_cons, List.map_append, List.map_append, List.map_append]
    exact .cons _ (test.sublist_idents.append
      ((yes.sublist_idents.append no.sublist_idents).trans (List.sublist_append_right ..)))
  | .declare _ name type, _ => .cons _ (.cons_cons _ (List.nil_sublist _))
  | .define _ _ _ name init _ type, _ => by
    simp only [Content.tokens, List.map_cons, List.map_append]
    exact .cons _ (.cons _ (.cons _ (.cons_cons _
      (init.sublist_idents.trans (List.sublist_append_left ..)))))
  | .assign _ name value, _ => .cons _ (.cons_cons _ value.sublist_idents)
  | .call name args, _ => .cons_cons _ (Phrase.sublist_allIdents args)
  | .block opening first closing rest, pos => by
    simp only [Content.tokens, List.map_cons, List.map_append]
    exact .cons _ ((first.sublist_idents _).append (.cons _ (Phrase.sublist_allIdents rest)))

theorem Phrase.sublist_allIdents : ∀ ps : List Phrase,
    (Expr.allIdents (Phrase.trees file ps)).Sublist ((Phrase.allTokens ps).map (written file))
  | [] => .slnil
  | p :: ps => by
    rw [Phrase.allTokens, List.map_append]
    exact p.sublist_idents.append (Phrase.sublist_allIdents ps)

end

theorem places_chain {op : BinaryOp} {pos : Pos} {first : Expr} {rest : List Expr}
    {P : Pos → Prop} (hpos : P pos) (hfirst : ∀ q ∈ first.places, P q)
    (hrest : ∀ q ∈ Expr.allPlaces rest, P q) :
    ∀ q ∈ (rest.foldl (fun lhs rhs => Expr.binary op lhs rhs pos) first).places, P q := by
  induction rest generalizing first with
  | nil => exact hfirst
  | cons e es ih =>
    obtain ⟨he, hes⟩ := List.forall_mem_append.1 hrest
    exact ih (List.forall_mem_cons.2 ⟨hpos, List.forall_mem_append.2 ⟨hfirst, he⟩⟩) hes

mutual

/-- A tree stands between the ends of tokens of the text. -/
theorem Phrase.places {ts : List Token} : ∀ p : Phrase, p.tokens ⊆ ts →
    ∀ q ∈ (p.tree file).places, Around file ts q
  | .int .., h | .truth .., h | .falsehood .., h | .name _, h =>
    List.forall_mem_singleton.2 (around_token (h (List.mem_singleton_self _)))
  | .list opening content closing, h => by
    simp only [Phrase.tokens, List.cons_subset, List.append_subset] at h
    exact content.places ⟨_, h.1, _, h.2.2.1, rfl⟩ h.2.1

theorem Content.places {ts : List Token} {pos : Pos} (hpos : Around file ts pos) :
    ∀ c : Content, c.tokens ⊆ ts → ∀ q ∈ (c.tree file pos).places, Around file ts q
  | .unary _ _ operand, h => by
    simp only [Content.tokens, List.cons_subset] at h
    exact List.forall_mem_cons.2 ⟨hpos, operand.places h.2⟩
  | .chain _ _ first second rest, h => by
    simp only [Content.tokens, List.cons_subset, List.append_subset] at h
    obtain ⟨-, hfirst, hsecond, hrest⟩ := h
    exact places_chain hpos (first.places hfirst)
      (List.forall_mem_append.2 ⟨second.places hsecond, Phrase.allPlaces rest hrest⟩)
  | .ifThen _ test _ yes, h => by
    simp only [Content.tokens, List.cons_subset, List.append_subset] at h
    obtain ⟨-, htest, -, hyes⟩ := h
    exact List.forall_mem_cons.2
      ⟨hpos, List.forall_mem_append.2 ⟨test.places htest, yes.places hyes⟩⟩
  | .ifThenElse _ test _ yes no, h => by
    simp only [Content.tokens, List.cons_subset, List.append_subset] at h
    obtain ⟨-, htest, -, hyes, hno⟩ := h
    exact List.forall_mem_cons.2 ⟨hpos, List.forall_mem_append.2
      ⟨test.places htest, List.forall_mem_append.2 ⟨yes.places hyes, no.places hno⟩⟩⟩
  | .declare .., _ => List.forall_mem_singleton.2 hpos
  | .define _ _ _ _ init _ _, h => by
    simp only [Content.tokens, List.cons_subset, List.append_subset] at h
    obtain ⟨-, -, -, -, hinit, -⟩ := h
    exact List.forall_mem_cons.2 ⟨hpos, init.places hinit⟩
  | .assign _ _ value, h => by
    simp only [Content.tokens, List.cons_subset] at h
    exact List.forall_mem_cons.2 ⟨hpos, value.places h.2.2⟩
  | .call _ args, h => by
    simp only [Content.tokens, List.cons_subset] at h
    exact List.forall_mem_cons.2 ⟨hpos, Phrase.allPlaces args h.2⟩
  | .block opening first closing rest, h => by
    simp only [Content.tokens, List.cons_subset, List.append_subset] at h
    obtain ⟨hopening, hfirst, hclosing, hrest⟩ := h
    exact List.forall_mem_cons.2 ⟨hpos, List.forall_mem_append.2
      ⟨first.places ⟨_, hopening, _, hclosing, rfl⟩ hfirst, Phrase.allPlaces rest hrest⟩⟩

theorem Phrase.allPlaces {ts : List Token} : ∀ ps : List Phrase, Phrase.allTokens ps ⊆ ts →
    ∀ q ∈ Expr.allPlaces (Phrase.trees file ps), Around file ts q
  | [], _ => nofun
  | p :: ps, h => by
    obtain ⟨hp, hps⟩ := List.append_subset.1 h
    exact List.forall_mem_append.2 ⟨p.places hp, Phrase.allPlaces ps hps⟩

end

theorem sublist_groups : ∀ gs : List Group,
    ((gs.flatMap (Group.tree file)).map Param.name).Sublist
      ((gs.flatMap Group.tokens).map (written file))
  | [] => .slnil
  | g :: gs => by
    have hnames : (g.tree file).map Param.name =
        (g.names.map Terminal.token).map (written file) := by
      rw [Group.tree, List.map_map, List.map_map]
      rfl
    rw [List.flatMap_cons, List.flatMap_cons, List.map_append, List.map_append, hnames,
      Group.tokens, List.map_append]
    exact (List.sublist_append_left ..).append (sublist_groups gs)

theorem sublist_params : ∀ ps : Option Params,
    ((paramsTree file ps).map Param.name).Sublist ((paramsTokens ps).map (written file))
  | none => .slnil
  | some ps => by
    rw [paramsTokens, Params.tokens, List.map_cons, List.map_append]
    exact .cons _ ((sublist_groups ps.groups).trans (List.sublist_append_left ..))

/-- The names of a declaration are tokens of the text. -/
theorem Definition.sublist_idents (d : Definition) :
    (d.tree file).idents.Sublist (d.tokens.map (written file)) := by
  simp only [Definition.tokens, List.map_cons, List.map_append]
  exact .cons _ (.cons _ (.cons_cons _ ((sublist_params d.params).append
    (.cons _ (d.body.sublist_idents.trans (List.sublist_append_left ..))))))

end Grammar

/-! ## Texts -/

namespace Parse

open Grammar

/-- What a declaration that is read of some tokens has of them. -/
theorem origins_decl {file : FileId} {opening closing : Token} {items : List Form} {d : Decl}
    (hn : (Form.list opening items closing).Nested)
    (hd : decl file opening closing (formItems file items) = .ok d) :
    d.idents.Sublist ((Form.list opening items closing).flatten.map (written file)) ∧
      ∀ q ∈ d.body.places, Around file (Form.list opening items closing).flatten q := by
  obtain ⟨D, hform, rfl⟩ := decl_inv hn.1 (known_of_allNested items hn.2) hd
  rw [← hform, Definition.flatten_form]
  refine ⟨D.sublist_idents, D.body.places ?_⟩
  intro t ht
  simp [Definition.tokens, ht]

theorem origins_topLevel {file : FileId} {fs : List Form} {ts : List Token} (inRun : Bool)
    (hn : ∀ opening items closing, .list opening items closing ∈ fs →
      (Form.list opening items closing).Nested)
    (hts : Form.flattenAll fs ⊆ ts) :
    ((successes (topLevel file inRun fs)).flatMap Decl.idents).Sublist
        ((Form.flattenAll fs).map (written file)) ∧
      ∀ d ∈ successes (topLevel file inRun fs), ∀ q ∈ d.body.places, Around file ts q := by
  induction fs generalizing inRun with
  | nil => exact ⟨.slnil, nofun⟩
  | cons f fs ih =>
    have hn' := fun o is c hmem => hn o is c (List.mem_cons_of_mem f hmem)
    obtain ⟨hf, hfs⟩ := List.append_subset.1 hts
    rw [Form.flattenAll, List.map_append]
    cases f with
    | atom t =>
      obtain ⟨hidents, hplaces⟩ := ih true hn' hfs
      cases inRun
      · exact ⟨hidents.trans (List.sublist_append_right ..), hplaces⟩
      · exact ⟨hidents.trans (List.sublist_append_right ..), hplaces⟩
    | list opening items closing =>
      obtain ⟨hidents, hplaces⟩ := ih false hn' hfs
      rw [topLevel]
      cases hd : decl file opening closing (formItems file items) with
      | error e => exact ⟨hidents.trans (List.sublist_append_right ..), hplaces⟩
      | ok d =>
        obtain ⟨hown, haround⟩ := origins_decl (hn opening items closing List.mem_cons_self) hd
        refine ⟨hown.append hidents, List.forall_mem_cons.2 ⟨fun q hq => ?_, hplaces⟩⟩
        obtain ⟨t, ht, u, hu, rfl⟩ := haround q hq
        exact ⟨t, hf ht, u, hf hu, rfl⟩

/-- The names that are read of a text are tokens of it, and what is read stands between the ends of
tokens. -/
theorem origins_ofText (file : FileId) (text : String) :
    ((ofText file text).decls.flatMap Decl.idents).Sublist
        ((Token.significant text).map (written file)) ∧
      ∀ d ∈ (ofText file text).decls, ∀ q ∈ d.body.places,
        Around file (Token.significant text) q := by
  obtain ⟨eof, heof, hscan⟩ := Token.filter_scan text
  have hforms : Form.flattenAll (Form.ofTokens (Token.significant text ++ [eof])) =
      Token.significant text := by
    rw [Form.flatten_ofTokens, Token.takeWhile_significant heof]
  have h := @origins_topLevel file _ (Token.significant text) false
    (fun _ _ _ => Form.nested_of_mem_ofTokens) (by rw [hforms]; exact List.Subset.refl _)
  rw [hforms] at h
  rw [ofText, ofTokens, hscan]
  exact h

end Parse

/-! ## Source maps -/

/-- Tokens in order stand at different places. -/
theorem InOrder.nodup_written {lo hi : Nat} {ts : List Token} (h : InOrder lo ts hi)
    (file : FileId) : ((ts.map (Grammar.written file)).map Ident.pos).Nodup ∧
      ∀ t ∈ ts, lo ≤ t.span.start := by
  induction ts generalizing lo with
  | nil => exact ⟨.nil, nofun⟩
  | cons t ts ih =>
    obtain ⟨hlo, hlt, hts⟩ := h
    obtain ⟨hnodup, hstart⟩ := ih hts
    refine ⟨List.nodup_cons.2 ⟨fun hmem => ?_, hnodup⟩, List.forall_mem_cons.2
      ⟨hlo, fun u hu => (hlo.trans hlt.le).trans (hstart u hu)⟩⟩
    obtain ⟨x, hx, hpos⟩ := List.mem_map.1 hmem
    obtain ⟨u, hu, rfl⟩ := List.mem_map.1 hx
    have hspan : u.span = t.span := congrArg Pos.span hpos
    exact absurd (hstart u hu) (by rw [hspan]; omega)

/-- No two names of source files with different numbers are read at one position. -/
theorem Parse.nodup_idents {sources : List (FileId × String)}
    (h : (sources.map Prod.fst).Nodup) :
    (((files sources).flatten.flatMap Decl.idents).map Ident.pos).Nodup := by
  have hfile : ∀ (id : FileId) (text : String),
      (((ofText id text).decls.flatMap Decl.idents).map Ident.pos).Nodup ∧
        ∀ q ∈ ((ofText id text).decls.flatMap Decl.idents).map Ident.pos, q.file = id := by
    intro id text
    obtain ⟨hi, horder⟩ := Token.inOrder_significant text
    have hsub := (origins_ofText id text).1.map Ident.pos
    refine ⟨hsub.nodup (horder.nodup_written id).1, fun q hq => ?_⟩
    obtain ⟨x, hx, rfl⟩ := List.mem_map.1 (hsub.subset hq)
    obtain ⟨t, -, rfl⟩ := List.mem_map.1 hx
    rfl
  rw [files, ← List.flatMap_def, List.flatMap_assoc, List.map_flatMap, List.nodup_flatMap]
  refine ⟨fun s _ => (hfile s.1 s.2).1, ?_⟩
  refine (List.pairwise_map.1 h).imp fun hne q hq hq' => hne ?_
  exact ((hfile _ _).2 q hq).symm.trans ((hfile _ _).2 q hq')

namespace Compile

open Grammar Parse

/-- The names in the declarations of a source map, in the order of the texts. -/
def idents (sources : SourceMap) : List Ident :=
  (declarations sources).flatten.flatMap Decl.idents

theorem mem_parseAll {sources : SourceMap} {p : SourceFile × FileId × Parse}
    (hp : p ∈ parseAll sources) :
    sources.get? p.2.1 = some p.1 ∧ p.2.2 = ofText p.2.1 p.1.text := by
  obtain ⟨⟨f, i⟩, hf, rfl⟩ := List.mem_map.1 hp
  refine ⟨?_, rfl⟩
  rw [SourceMap.get?, ← Array.getElem?_toList]
  exact List.mem_zipIdx_iff_getElem?.1 hf

theorem exists_of_mem_declarations {sources : SourceMap} {d : Decl}
    (hd : d ∈ (declarations sources).flatten) :
    ∃ file id, sources.get? id = some file ∧ d ∈ (ofText id file.text).decls := by
  obtain ⟨ds, hds, hd⟩ := List.mem_flatten.1 hd
  obtain ⟨p, hp, rfl⟩ := List.mem_map.1 hds
  obtain ⟨hfile, hparse⟩ := mem_parseAll hp
  exact ⟨p.1, p.2.1, hfile, hparse ▸ hd⟩

theorem mem_scan_of_mem_significant {text : String} {t : Token}
    (ht : t ∈ Token.significant text) : t ∈ Token.scan text := (List.mem_filter.1 ht).1

/-- **A name that is read stands in its file**, at its position. -/
theorem reads_of_mem_idents {sources : SourceMap} {x : Ident} (hx : x ∈ idents sources) :
    sources.Reads x.pos x.name := by
  obtain ⟨d, hd, hx⟩ := List.mem_flatMap.1 hx
  obtain ⟨file, id, hfile, hd⟩ := exists_of_mem_declarations hd
  have hmem := (origins_ofText id file.text).1.subset (List.mem_flatMap.2 ⟨d, hd, hx⟩)
  obtain ⟨t, ht, rfl⟩ := List.mem_map.1 hmem
  obtain ⟨before, behind, htext, hspan⟩ :=
    Token.exists_append_of_mem_scan (mem_scan_of_mem_significant ht)
  exact ⟨file, before, behind, hfile, htext, hspan⟩

/-- Every part of a body stands in its file. -/
theorem exists_reads_of_mem_places {sources : SourceMap} {d : Decl} {q : Pos}
    (hd : d ∈ (declarations sources).flatten) (hq : q ∈ d.body.places) :
    ∃ text, sources.Reads q text := by
  obtain ⟨file, id, hfile, hd⟩ := exists_of_mem_declarations hd
  obtain ⟨t, ht, u, hu, rfl⟩ := (origins_ofText id file.text).2 d hd q hq
  exact SourceMap.exists_reads hfile
    ((Token.cuts_of_mem_scan (mem_scan_of_mem_significant ht)).cover
      (Token.cuts_of_mem_scan (mem_scan_of_mem_significant hu)))

/-- **No two names are read at one position.** -/
theorem nodup_idents (sources : SourceMap) : ((idents sources).map Ident.pos).Nodup := by
  have hfiles : declarations sources = Parse.files sources.texts := sources.decls_eq
  rw [idents, hfiles]
  exact Parse.nodup_idents sources.nodup_texts

end Compile

end CalcLang
