import CalcLang.Proofs.Grammar

/-!
# Derivations are unique

The tokens of a derivation are those of its forms, and these are balanced, so they can be told from
the tokens. The forms give the derivation back (`Phrase.form_injective`): the first token of a list
says which rule was used, a type is no expression, and the names of a group end where its type
stands. So a text has at most one derivation (`File.tokens_injective`).
-/

namespace CalcLang

namespace Grammar

open Form

/-! ## Tokens and forms -/

theorem binaryKind_isOperator (op : BinaryOp) : (binaryKind op).isOperator := by
  cases op <;> rfl

theorem unaryKind_isOperator (op : UnaryOp) : (unaryKind op).isOperator := by
  cases op <;> rfl

theorem Terminal.balanced_atom {kind : TokenKind} (t : Terminal kind) (hopen : kind ≠ .leftParen)
    (hclose : kind ≠ .rightParen) (heof : kind ≠ .eof) : (Form.atom t.token).Balanced := by
  obtain ⟨token, rfl⟩ := t
  exact ⟨hopen, hclose, heof⟩

theorem TypeName.balanced_atom (type : TypeName) : (Form.atom type.token).Balanced := by
  cases type with
  | int word => exact word.balanced_atom nofun nofun nofun
  | bool word => exact word.balanced_atom nofun nofun nofun

theorem flattenAll_map_atom (ts : List Token) : flattenAll (ts.map .atom) = ts := by
  induction ts with
  | nil => rfl
  | cons t ts ih => simp [flattenAll, flatten, ih]

theorem Terminal.flatten_list (opening : Token) (items : List Form)
    (closing : Terminal .rightParen) : (Form.list opening items closing.token).flatten =
      opening :: (flattenAll items ++ [closing.token]) := by
  rw [flatten, if_neg (by simp [closing.kind_eq])]

theorem typeForms_balanced (type : Option TypeName) : AllBalanced (typeForms type) := by
  cases type with
  | none => trivial
  | some type => exact ⟨type.balanced_atom, trivial⟩

mutual

theorem Phrase.flatten_form : ∀ p : Phrase, p.form.flatten = p.tokens
  | .int .. | .truth _ | .falsehood _ | .name _ => rfl
  | .list opening content closing => by
    rw [Phrase.form, Phrase.tokens, Terminal.flatten_list, content.flattenAll_forms]

theorem Content.flattenAll_forms : ∀ c : Content, flattenAll c.forms = c.tokens
  | .unary _ _ operand => by
    simp [Content.forms, Content.tokens, flattenAll, flatten, operand.flatten_form]
  | .chain _ _ first second rest => by
    simp [Content.forms, Content.tokens, flattenAll, flatten, first.flatten_form,
      second.flatten_form, Phrase.flattenAll_forms rest]
  | .ifThen _ test _ yes => by
    simp [Content.forms, Content.tokens, flattenAll, flatten, typeForms, flattenAll_map_atom,
      test.flatten_form, yes.flatten_form]
  | .ifThenElse _ test _ yes no => by
    simp [Content.forms, Content.tokens, flattenAll, flatten, typeForms, flattenAll_map_atom,
      test.flatten_form, yes.flatten_form, no.flatten_form]
  | .declare .. => rfl
  | .define _ _ _ _ init closing _ => by
    simp [Content.forms, Content.tokens, flattenAll, flatten, typeForms, flattenAll_map_atom,
      init.flatten_form, closing.kind_eq]
  | .assign _ _ value => by
    simp [Content.forms, Content.tokens, flattenAll, flatten, value.flatten_form]
  | .call _ args => by
    simp [Content.forms, Content.tokens, flattenAll, flatten, Phrase.flattenAll_forms args]
  | .block _ first closing rest => by
    simp [Content.forms, Content.tokens, flattenAll, flatten, closing.kind_eq,
      first.flattenAll_forms, Phrase.flattenAll_forms rest]

theorem Phrase.flattenAll_forms : ∀ ps : List Phrase,
    flattenAll (Phrase.forms ps) = Phrase.allTokens ps
  | [] => rfl
  | p :: ps => by
    rw [Phrase.forms, Phrase.allTokens, flattenAll, p.flatten_form, Phrase.flattenAll_forms ps]

end

theorem allBalanced_append {fs gs : List Form} :
    AllBalanced (fs ++ gs) ↔ AllBalanced fs ∧ AllBalanced gs := by
  simp only [allBalanced_iff, List.mem_append, or_imp, forall_and]

mutual

theorem Phrase.balanced_form : ∀ p : Phrase, p.form.Balanced
  | .int literal _ _ => literal.balanced_atom nofun nofun nofun
  | .truth word => word.balanced_atom nofun nofun nofun
  | .falsehood word => word.balanced_atom nofun nofun nofun
  | .name name => name.balanced_atom nofun nofun nofun
  | .list opening content closing => ⟨opening.kind_eq, content.balanced_forms, closing.kind_eq⟩

theorem Content.balanced_forms : ∀ c : Content, AllBalanced c.forms
  | .unary op operator operand =>
    ⟨operator.balanced_atom (by cases op <;> nofun) (by cases op <;> nofun)
      (by cases op <;> nofun), operand.balanced_form, trivial⟩
  | .chain op operator first second rest =>
    ⟨operator.balanced_atom (by cases op <;> nofun) (by cases op <;> nofun)
      (by cases op <;> nofun), first.balanced_form, second.balanced_form,
      Phrase.balanced_forms rest⟩
  | .ifThen word test type yes =>
    ⟨word.balanced_atom nofun nofun nofun, test.balanced_form,
      allBalanced_append.2 ⟨typeForms_balanced type, yes.balanced_form, trivial⟩⟩
  | .ifThenElse word test type yes no =>
    ⟨word.balanced_atom nofun nofun nofun, test.balanced_form,
      allBalanced_append.2 ⟨typeForms_balanced type, yes.balanced_form, no.balanced_form, trivial⟩⟩
  | .declare word name type =>
    ⟨word.balanced_atom nofun nofun nofun, name.balanced_atom nofun nofun nofun,
      type.balanced_atom, trivial⟩
  | .define word opening equals name init closing type =>
    ⟨word.balanced_atom nofun nofun nofun,
      ⟨opening.kind_eq, ⟨equals.balanced_atom nofun nofun nofun,
        name.balanced_atom nofun nofun nofun, init.balanced_form, trivial⟩, closing.kind_eq⟩,
      typeForms_balanced type⟩
  | .assign equals name value =>
    ⟨equals.balanced_atom nofun nofun nofun, name.balanced_atom nofun nofun nofun,
      value.balanced_form, trivial⟩
  | .call name args => ⟨name.balanced_atom nofun nofun nofun, Phrase.balanced_forms args⟩
  | .block opening first closing rest =>
    ⟨⟨opening.kind_eq, first.balanced_forms, closing.kind_eq⟩, Phrase.balanced_forms rest⟩

theorem Phrase.balanced_forms : ∀ ps : List Phrase, AllBalanced (Phrase.forms ps)
  | [] => trivial
  | p :: ps => ⟨p.balanced_form, Phrase.balanced_forms ps⟩

end

theorem Params.balanced_form (p : Params) : p.form.Balanced := by
  refine ⟨p.opening.kind_eq, allBalanced_iff.2 fun f hf => ?_, p.closing.kind_eq⟩
  obtain ⟨g, -, hf⟩ := List.mem_flatMap.1 hf
  obtain ⟨t, ht, rfl⟩ := List.mem_map.1 hf
  rcases List.mem_append.1 ht with ht | ht
  · obtain ⟨name, -, rfl⟩ := List.mem_map.1 ht
    exact name.balanced_atom nofun nofun nofun
  · obtain rfl := List.mem_singleton.1 ht
    exact g.type.balanced_atom

theorem flatMap_forms (gs : List Group) :
    gs.flatMap Group.forms = (gs.flatMap Group.tokens).map .atom := by
  rw [List.map_flatMap]
  rfl

theorem Params.flatten_form (p : Params) : p.form.flatten = p.tokens := by
  rw [Params.form, Params.tokens, Terminal.flatten_list, flatMap_forms, flattenAll_map_atom]

theorem Definition.balanced_form (d : Definition) : d.form.Balanced := by
  have hparams : AllBalanced (paramsForms d.params) := by
    cases d.params with
    | none => trivial
    | some params => exact ⟨params.balanced_form, trivial⟩
  exact ⟨d.opening.kind_eq, ⟨d.word.balanced_atom nofun nofun nofun,
    d.name.balanced_atom nofun nofun nofun,
    allBalanced_append.2 ⟨hparams, d.type.balanced_atom, d.body.balanced_form, trivial⟩⟩,
    d.closing.kind_eq⟩

theorem Definition.flatten_form (d : Definition) : d.form.flatten = d.tokens := by
  have hparams : flattenAll (paramsForms d.params) = paramsTokens d.params := by
    cases d.params with
    | none => rfl
    | some params => simp [paramsForms, paramsTokens, flattenAll, params.flatten_form]
  simp [Definition.form, Definition.tokens, Definition.items, Terminal.flatten_list, flattenAll,
    flatten, hparams, d.body.flatten_form]

/-- The forms of a file. -/
def File.forms (f : File) : List Form := f.map Definition.form

theorem File.balanced_forms (f : File) : AllBalanced f.forms := by
  refine allBalanced_iff.2 fun form hform => ?_
  obtain ⟨d, -, rfl⟩ := List.mem_map.1 hform
  exact d.balanced_form

theorem File.flattenAll_forms (f : File) : flattenAll f.forms = f.tokens := by
  induction f with
  | nil => rfl
  | cons d f ih =>
    rw [File.forms, List.map_cons, flattenAll, d.flatten_form]
    exact congrArg (d.tokens ++ ·) ih

/-! ## Derivations are unique -/

theorem Terminal.kind_eq_of_token_eq {kind kind' : TokenKind} {t : Terminal kind}
    {t' : Terminal kind'} (h : t.token = t'.token) : kind = kind' := by
  rw [← t.kind_eq, ← t'.kind_eq, h]

theorem TypeName.token_injective : ∀ {type type' : TypeName}, type.token = type'.token →
    type = type'
  | .int _, .int _, h => congrArg TypeName.int (Terminal.ext h)
  | .bool _, .bool _, h => congrArg TypeName.bool (Terminal.ext h)
  | .int _, .bool _, h => nomatch Terminal.kind_eq_of_token_eq h
  | .bool _, .int _, h => nomatch Terminal.kind_eq_of_token_eq h

/-- No expression is a type. -/
theorem Phrase.form_ne_type (p : Phrase) (type : TypeName) : p.form ≠ .atom type.token := by
  intro h
  have hkind := congrArg (fun f => f.head.kind) h
  cases type <;> cases p <;> simp [Phrase.form, head, TypeName.token, Terminal.kind_eq] at hkind h

/-- A type that may be left out ends where the expressions behind it start. -/
theorem typeForms_append_injective {type type' : Option TypeName} (ps qs : List Phrase)
    (h : typeForms type ++ Phrase.forms ps = typeForms type' ++ Phrase.forms qs) :
    type = type' ∧ Phrase.forms ps = Phrase.forms qs := by
  have hne : ∀ (ps : List Phrase) (type : TypeName) (fs : List Form),
      Phrase.forms ps ≠ .atom type.token :: fs := by
    rintro (_ | ⟨p, ps⟩) type fs h
    · cases h
    · exact p.form_ne_type type (List.cons.inj h).1
  cases type with
  | none =>
    cases type' with
    | none => exact ⟨rfl, h⟩
    | some type' => exact absurd h (hne _ _ _)
  | some type =>
    cases type' with
    | none => exact absurd h.symm (hne _ _ _)
    | some type' =>
      obtain ⟨hatom, hforms⟩ := List.cons.inj h
      rw [TypeName.token_injective (Form.atom.inj hatom)]
      exact ⟨rfl, hforms⟩

/-- The kind of the token that the contents of a list start with, unless it is an operator. -/
def Content.headKind : Content → Option TokenKind
  | .unary .. | .chain .. => none
  | .ifThen .. | .ifThenElse .. => some .ifWord
  | .declare .. | .define .. => some .var
  | .assign .. => some .eq
  | .call .. => some .ident
  | .block .. => some .leftParen

theorem Content.headKind_eq {c d : Content} (h : c.forms = d.forms) : c.headKind = d.headKind := by
  have hhead : ∀ c : Content, c.headKind =
      c.forms.head?.bind fun f => if f.head.kind.isOperator then none else some f.head.kind := by
    intro c
    cases c with
    | unary op operator =>
      simp [Content.headKind, Content.forms, head, operator.kind_eq, unaryKind_isOperator op]
    | chain op operator =>
      simp [Content.headKind, Content.forms, head, operator.kind_eq, binaryKind_isOperator op]
    | _ => simp [Content.headKind, Content.forms, head, Terminal.kind_eq, TokenKind.isOperator]
  rw [hhead c, hhead d, h]

theorem binaryKind_injective : ∀ {op op' : BinaryOp},
    binaryKind op = binaryKind op' → op = op' := by
  intro op op' h
  cases op <;> cases op' <;> first | rfl | cases h

theorem unaryKind_injective : ∀ {op op' : UnaryOp}, unaryKind op = unaryKind op' → op = op' := by
  intro op op' h
  cases op <;> cases op' <;> first | rfl | cases h

mutual

theorem Phrase.form_injective : ∀ {p q : Phrase}, p.form = q.form → p = q
  | .int literal value hvalue, q, h => by
    cases q with
    | int literal' value' hvalue' =>
      obtain rfl : literal = literal' := Terminal.ext (Form.atom.inj h)
      obtain rfl : value = value' := Word.ext (by rw [← hvalue, ← hvalue'])
      rfl
    | list => cases h
    | _ => exact nomatch Terminal.kind_eq_of_token_eq (Form.atom.inj h)
  | .truth word, q, h => by
    cases q with
    | truth word' => exact congrArg Phrase.truth (Terminal.ext (Form.atom.inj h))
    | list => cases h
    | _ => exact nomatch Terminal.kind_eq_of_token_eq (Form.atom.inj h)
  | .falsehood word, q, h => by
    cases q with
    | falsehood word' => exact congrArg Phrase.falsehood (Terminal.ext (Form.atom.inj h))
    | list => cases h
    | _ => exact nomatch Terminal.kind_eq_of_token_eq (Form.atom.inj h)
  | .name name, q, h => by
    cases q with
    | name name' => exact congrArg Phrase.name (Terminal.ext (Form.atom.inj h))
    | list => cases h
    | _ => exact nomatch Terminal.kind_eq_of_token_eq (Form.atom.inj h)
  | .list opening content closing, q, h => by
    cases q with
    | list opening' content' closing' =>
      obtain ⟨ho, hitems, hc⟩ := Form.list.inj h
      rw [Terminal.ext ho, Content.forms_injective hitems, Terminal.ext hc]
    | _ => cases h

theorem Content.forms_injective : ∀ {c d : Content}, c.forms = d.forms → c = d
  | .unary op operator operand, d, h => by
    cases d with
    | unary op' operator' operand' =>
      obtain ⟨hoperator, hoperand⟩ := List.cons.inj h
      obtain rfl := unaryKind_injective
        (Terminal.kind_eq_of_token_eq (Form.atom.inj hoperator))
      rw [Terminal.ext (Form.atom.inj hoperator), Phrase.form_injective (List.cons.inj hoperand).1]
    | chain => simp [Content.forms] at h
    | _ => cases Content.headKind_eq h
  | .chain op operator first second rest, d, h => by
    cases d with
    | chain op' operator' first' second' rest' =>
      simp only [Content.forms, List.cons.injEq, Form.atom.injEq] at h
      obtain ⟨ho, hf, hs, hr⟩ := h
      obtain rfl := binaryKind_injective (Terminal.kind_eq_of_token_eq ho)
      rw [Terminal.ext ho, Phrase.form_injective hf, Phrase.form_injective hs,
        Phrase.forms_injective hr]
    | unary => simp [Content.forms] at h
    | _ => cases Content.headKind_eq h
  | .ifThen word test type yes, d, h => by
    cases d with
    | ifThen word' test' type' yes' =>
      simp only [Content.forms, List.cons.injEq, Form.atom.injEq] at h
      obtain ⟨hw, ht, h⟩ := h
      obtain ⟨htype, hyes⟩ := typeForms_append_injective [yes] [yes'] h
      rw [Terminal.ext hw, Phrase.form_injective ht, htype,
        Phrase.form_injective (List.cons.inj hyes).1]
    | ifThenElse word' test' type' yes' no' =>
      simp only [Content.forms, List.cons.injEq, Form.atom.injEq] at h
      have := (typeForms_append_injective [yes] [yes', no'] h.2.2).2
      simp [Phrase.forms] at this
    | _ => cases Content.headKind_eq h
  | .ifThenElse word test type yes no, d, h => by
    cases d with
    | ifThenElse word' test' type' yes' no' =>
      simp only [Content.forms, List.cons.injEq, Form.atom.injEq] at h
      obtain ⟨hw, ht, h⟩ := h
      obtain ⟨htype, hrest⟩ := typeForms_append_injective [yes, no] [yes', no'] h
      simp only [Phrase.forms, List.cons.injEq, and_true] at hrest
      rw [Terminal.ext hw, Phrase.form_injective ht, htype, Phrase.form_injective hrest.1,
        Phrase.form_injective hrest.2]
    | ifThen word' test' type' yes' =>
      simp only [Content.forms, List.cons.injEq, Form.atom.injEq] at h
      have := (typeForms_append_injective [yes, no] [yes'] h.2.2).2
      simp [Phrase.forms] at this
    | _ => cases Content.headKind_eq h
  | .declare word name type, d, h => by
    cases d with
    | declare word' name' type' =>
      simp only [Content.forms, List.cons.injEq, Form.atom.injEq, and_true] at h
      obtain ⟨hw, hn, ht⟩ := h
      rw [Terminal.ext hw, Terminal.ext hn, TypeName.token_injective ht]
    | define => simp [Content.forms] at h
    | _ => cases Content.headKind_eq h
  | .define word opening equals name init closing type, d, h => by
    cases d with
    | define word' opening' equals' name' init' closing' type' =>
      simp only [Content.forms, List.cons.injEq, Form.atom.injEq, Form.list.injEq, and_true] at h
      obtain ⟨hw, ⟨ho, ⟨he, hn, hi⟩, hc⟩, ht⟩ := h
      obtain ⟨htype, -⟩ := typeForms_append_injective [] [] (congrArg (· ++ []) ht)
      rw [Terminal.ext hw, Terminal.ext ho, Terminal.ext he, Terminal.ext hn,
        Phrase.form_injective hi, Terminal.ext hc, htype]
    | declare => simp [Content.forms] at h
    | _ => cases Content.headKind_eq h
  | .assign equals name value, d, h => by
    cases d with
    | assign equals' name' value' =>
      simp only [Content.forms, List.cons.injEq, Form.atom.injEq, and_true] at h
      obtain ⟨he, hn, hv⟩ := h
      rw [Terminal.ext he, Terminal.ext hn, Phrase.form_injective hv]
    | _ => cases Content.headKind_eq h
  | .call name args, d, h => by
    cases d with
    | call name' args' =>
      obtain ⟨hn, hargs⟩ := List.cons.inj h
      rw [Terminal.ext (Form.atom.inj hn), Phrase.forms_injective hargs]
    | _ => cases Content.headKind_eq h
  | .block opening first closing rest, d, h => by
    cases d with
    | block opening' first' closing' rest' =>
      obtain ⟨hlist, hrest⟩ := List.cons.inj h
      obtain ⟨ho, hf, hc⟩ := Form.list.inj hlist
      rw [Terminal.ext ho, Content.forms_injective hf, Terminal.ext hc,
        Phrase.forms_injective hrest]
    | _ => cases Content.headKind_eq h

theorem Phrase.forms_injective : ∀ {ps qs : List Phrase}, Phrase.forms ps = Phrase.forms qs →
    ps = qs
  | [], [], _ => rfl
  | p :: ps, q :: qs, h => by
    obtain ⟨hp, hps⟩ := List.cons.inj h
    rw [Phrase.form_injective hp, Phrase.forms_injective hps]

end

/-- Names end where the type behind them stands. -/
theorem names_append_injective {names names' : List (Terminal .ident)} {type type' : TypeName}
    {ts ts' : List Token} (h : names.map Terminal.token ++ type.token :: ts =
      names'.map Terminal.token ++ type'.token :: ts') :
    names = names' ∧ type = type' ∧ ts = ts' := by
  have hne : ∀ (name : Terminal .ident) (type : TypeName), name.token ≠ type.token := by
    intro name type h
    cases type <;> exact nomatch Terminal.kind_eq_of_token_eq h
  induction names generalizing names' with
  | nil =>
    cases names' with
    | nil =>
      obtain ⟨htype, hts⟩ := List.cons.inj h
      exact ⟨rfl, TypeName.token_injective htype, hts⟩
    | cons name' names' => exact absurd (List.cons.inj h).1.symm (hne _ _)
  | cons name names ih =>
    cases names' with
    | nil => exact absurd (List.cons.inj h).1 (hne _ _)
    | cons name' names' =>
      obtain ⟨hname, h⟩ := List.cons.inj h
      obtain ⟨rfl, htype, hts⟩ := ih h
      exact ⟨by rw [Terminal.ext hname], htype, hts⟩

theorem groups_tokens_injective {gs gs' : List Group}
    (h : gs.flatMap Group.tokens = gs'.flatMap Group.tokens) : gs = gs' := by
  induction gs generalizing gs' with
  | nil =>
    cases gs' with
    | nil => rfl
    | cons g' gs' => simp [Group.tokens, Group.names] at h
  | cons g gs ih =>
    cases gs' with
    | nil => simp [Group.tokens, Group.names] at h
    | cons g' gs' =>
      simp only [List.flatMap_cons, Group.tokens, List.append_assoc, List.singleton_append] at h
      obtain ⟨hnames, htype, hrest⟩ := names_append_injective h
      obtain ⟨hfirst, hothers⟩ := List.cons.inj hnames
      obtain ⟨first, others, type⟩ := g
      obtain ⟨first', others', type'⟩ := g'
      cases hfirst
      cases hothers
      cases htype
      rw [ih hrest]

theorem map_atom_injective {ts ts' : List Token} (h : ts.map Form.atom = ts'.map .atom) :
    ts = ts' := by
  rw [← flattenAll_map_atom ts, h, flattenAll_map_atom]

theorem Params.form_injective {p p' : Params} (h : p.form = p'.form) : p = p' := by
  obtain ⟨opening, groups, closing⟩ := p
  obtain ⟨opening', groups', closing'⟩ := p'
  obtain ⟨ho, hgroups, hc⟩ := Form.list.inj h
  rw [flatMap_forms, flatMap_forms] at hgroups
  exact (Params.mk.injEq ..).mpr
    ⟨Terminal.ext ho, groups_tokens_injective (map_atom_injective hgroups), Terminal.ext hc⟩

theorem Definition.form_injective {d d' : Definition} (h : d.form = d'.form) : d = d' := by
  obtain ⟨opening, word, name, params, type, body, closing⟩ := d
  obtain ⟨opening', word', name', params', type', body', closing'⟩ := d'
  obtain ⟨ho, hitems, hc⟩ := Form.list.inj h
  simp only [Definition.items, List.cons.injEq, Form.atom.injEq] at hitems
  obtain ⟨hw, hn, hitems⟩ := hitems
  have hrest : params = params' ∧ type = type' ∧ body = body' := by
    cases params with
    | none =>
      cases params' with
      | none =>
        simp only [paramsForms, List.nil_append, List.cons.injEq, Form.atom.injEq, and_true]
          at hitems
        exact ⟨rfl, TypeName.token_injective hitems.1, Phrase.form_injective hitems.2⟩
      | some params' => simp [paramsForms] at hitems
    | some params =>
      cases params' with
      | none => simp [paramsForms] at hitems
      | some params' =>
        simp only [paramsForms, List.singleton_append, List.cons.injEq, Form.atom.injEq, and_true]
          at hitems
        exact ⟨congrArg some (Params.form_injective hitems.1),
          TypeName.token_injective hitems.2.1, Phrase.form_injective hitems.2.2⟩
  obtain ⟨rfl, rfl, rfl⟩ := hrest
  exact (Definition.mk.injEq ..).mpr
    ⟨Terminal.ext ho, Terminal.ext hw, Terminal.ext hn, rfl, rfl, rfl, Terminal.ext hc⟩

/-- A text has at most one derivation. -/
theorem File.tokens_injective {f f' : File} (h : f.tokens = f'.tokens) : f = f' := by
  have hforms : f.forms = f'.forms := by
    rw [← ofTokens_flattenAll f.balanced_forms ⟨.eof, ⟨0, 0⟩, ""⟩ rfl,
      ← ofTokens_flattenAll f'.balanced_forms ⟨.eof, ⟨0, 0⟩, ""⟩ rfl,
      f.flattenAll_forms, f'.flattenAll_forms, h]
  exact (List.map_inj_right fun _ _ => Definition.form_injective).1 hforms

end Grammar

end CalcLang
