import CalcLang.Proofs.Derivations
import CalcLang.Proofs.Scanning
import CalcLang.Proofs.Solid
import Mathlib.Data.List.Basic

/-!
# The parser reads the grammar

A text is read without an error iff its tokens derive `file` in the grammar, and the declarations
are the tree of the derivation (`Parse.ofText_reads_grammar`).

Two inductions lie behind this. One is on derivations: the parser reads the form of each of them as
its tree (`Phrase.formExpr_form`). The other one is on forms: a form that is read has a derivation
(`derived_of_nested`). For that, each function of the parser has a lemma that takes a success apart
(`expression_inv`, `ifForm_inv` and so on). It needs that no closing parenthesis stands inside a
form, as one there would end the form for the parser.
-/

namespace CalcLang

namespace Grammar

open Parse

variable {file : FileId}

/-! ## Derivations are read -/

@[simp]
theorem close_nil (opening : Token) (closing : Terminal .rightParen) :
    close opening closing.token [] = .ok () := by
  simp [close, next, closing.kind_eq]

theorem listExpr_operator {opening closing t : Token} (ht : t.kind.isOperator)
    (expr : Result Expr) (rest : List Item) :
    listExpr file opening closing (⟨.atom t, expr⟩ :: rest) =
      operatorForm file opening t closing rest := by
  rw [listExpr]
  cases h : t.kind <;> simp_all [TokenKind.isOperator]

theorem typeOf?_token (type : TypeName) : typeOf? file type.token = some (type.tree file) := by
  cases type <;> simp [typeOf?, TypeName.token, TypeName.tree, Terminal.kind_eq, tokenPos]

theorem optionalType_typeForms (type : Option TypeName) (p : Phrase) (fs : List Form) :
    optionalType file (formItems file (typeForms type ++ p.form :: fs)) =
      (type.map (TypeName.tree file), formItems file (p.form :: fs)) := by
  cases type with
  | some type => simp [typeForms, typeTokens, formItems, optionalType, typeOf?_token]
  | none =>
    cases p <;>
      simp [typeForms, typeTokens, formItems, optionalType, Phrase.form, typeOf?, Terminal.kind_eq]

theorem optionalType_typeForms_nil (type : Option TypeName) :
    optionalType file (formItems file (typeForms type)) =
      (type.map (TypeName.tree file), []) := by
  cases type with
  | some type => simp [typeForms, typeTokens, formItems, optionalType, typeOf?_token]
  | none => rfl

theorem literalValue_eq (cs : List Char) : literalValue cs = numeral cs := by
  unfold literalValue numeral
  split <;> simp_all [digitsValue, Nat.ofDigitChars]

theorem binaryOp?_binaryKind (op : BinaryOp) : binaryOp? (binaryKind op) = some op := by
  cases op <;> rfl

theorem unaryOp?_unaryKind (op : UnaryOp) : unaryOp? (unaryKind op) = some op := by
  cases op <;> rfl

theorem Phrase.head_form_ne (p : Phrase) : p.form.head.kind ≠ .rightParen := by
  cases p <;> simp [Phrase.form, Form.head, Terminal.kind_eq]

mutual

theorem Phrase.formExpr_form : ∀ p : Phrase, formExpr file p.form = .ok (p.tree file)
  | .int literal value hvalue => by
    simp [Phrase.form, formExpr, atomExpr, literal.kind_eq, literalValue_eq, hvalue, Phrase.tree,
      tokenPos]
  | .truth word => by simp [Phrase.form, formExpr, atomExpr, word.kind_eq, Phrase.tree, tokenPos]
  | .falsehood word => by
    simp [Phrase.form, formExpr, atomExpr, word.kind_eq, Phrase.tree, tokenPos]
  | .name name => by
    simp [Phrase.form, formExpr, atomExpr, name.kind_eq, Phrase.tree, Terminal.ident, tokenPos]
  | .list opening content closing => by
    rw [Phrase.form, formExpr, content.listExpr_forms, Phrase.tree]

theorem Content.listExpr_forms : ∀ (c : Content) (opening : Token) (closing : Terminal .rightParen),
    listExpr file opening closing.token (formItems file c.forms) =
      .ok (c.tree file (place file opening closing.token))
  | .unary op operator operand, opening, closing => by
    have hop : operator.token.kind.isOperator := by rw [operator.kind_eq, unaryKind_isOperator]
    have hoperands : operands (formItems file [operand.form]) = .ok [operand.tree file] := by
      simp [formItems, operands, operand.formExpr_form, bind, Except.bind]
    rw [Content.forms, formItems, listExpr_operator hop, operatorForm, hoperands]
    simp [bind, Except.bind, operation, operator.kind_eq, unaryOp?_unaryKind, Content.tree, place,
      formPos]
  | .chain op operator first second rest, opening, closing => by
    have hop : operator.token.kind.isOperator := by rw [operator.kind_eq, binaryKind_isOperator]
    have hoperands : operands (formItems file (first.form :: second.form :: Phrase.forms rest)) =
        .ok (first.tree file :: second.tree file :: Phrase.trees file rest) := by
      simp [formItems, operands, first.formExpr_form, second.formExpr_form,
        Phrase.operands_forms rest, bind, Except.bind]
    rw [Content.forms, formItems, listExpr_operator hop, operatorForm, hoperands]
    simp [bind, Except.bind, operation, operator.kind_eq, binaryOp?_binaryKind, Content.tree, place,
      formPos, Expr.chain]
  | .ifThen word test type yes, opening, closing => by
    rw [Content.forms, formItems, formItems]
    simp [listExpr, word.kind_eq, ifForm, expression, test.formExpr_form, Except.map, bind,
      Except.bind, optionalType_typeForms, formItems, yes.formExpr_form, next, closing.kind_eq,
      Content.tree, place, formPos]
  | .ifThenElse word test type yes no, opening, closing => by
    rw [Content.forms, formItems, formItems]
    simp [listExpr, word.kind_eq, ifForm, expression, test.formExpr_form, Except.map, bind,
      Except.bind, optionalType_typeForms, formItems, yes.formExpr_form, next, no.head_form_ne,
      no.formExpr_form, Content.tree, place, formPos]
  | .declare word name type, opening, closing => by
    simp [Content.forms, formItems, listExpr, word.kind_eq, varForm, introduced, name.kind_eq, bind,
      Except.bind, optionalType, typeOf?_token, Content.tree, place, formPos, tokenPos,
      Terminal.ident]
  | .define word innerOpening equals name init innerClosing type, opening, closing => by
    have hinner : formExpr file (.list innerOpening.token
        [.atom equals.token, .atom name.token, init.form] innerClosing.token) =
        .ok (.assign (name.ident file) (init.tree file)
          (place file innerOpening.token innerClosing.token)) := by
      simp [formExpr, formItems, listExpr, equals.kind_eq, assignForm, ident, name.kind_eq, bind,
        Except.bind, expression, init.formExpr_form, Except.map, place, formPos, tokenPos,
        Terminal.ident]
    rw [Content.forms, formItems, formItems, hinner]
    simp [listExpr, word.kind_eq, varForm, introduced, Form.head, equals.kind_eq, bind, Except.bind,
      optionalType_typeForms_nil, Content.tree, place, formPos]
  | .assign equals name value, opening, closing => by
    simp [Content.forms, formItems, listExpr, equals.kind_eq, assignForm, ident, name.kind_eq, bind,
      Except.bind, expression, value.formExpr_form, Except.map, Content.tree, place, formPos,
      tokenPos, Terminal.ident]
  | .call name args, opening, closing => by
    simp [Content.forms, formItems, listExpr, name.kind_eq, callForm, ident, bind, Except.bind,
      Phrase.operands_forms args, Content.tree, place, formPos, tokenPos, Terminal.ident]
  | .block innerOpening first innerClosing rest, opening, closing => by
    have hfirst : formExpr file (.list innerOpening.token first.forms innerClosing.token) =
        .ok (first.tree file (place file innerOpening.token innerClosing.token)) := by
      rw [formExpr, first.listExpr_forms]
    rw [Content.forms, formItems, hfirst]
    simp [listExpr, blockForm, operands, bind, Except.bind, Phrase.operands_forms rest,
      Content.tree, place, formPos]

theorem Phrase.operands_forms : ∀ ps : List Phrase,
    operands (formItems file (Phrase.forms ps)) = .ok (Phrase.trees file ps)
  | [] => rfl
  | p :: ps => by
    rw [Phrase.forms, formItems, operands, p.formExpr_form, Phrase.operands_forms ps]
    rfl

end

theorem params_names (closing : Token) (names : List (Terminal .ident)) (waiting : List Ident)
    (fs : List Form) :
    params file closing waiting (names.map (fun n => .atom n.token) ++ fs) =
      params file closing (waiting ++ names.map (Terminal.ident file)) fs := by
  induction names generalizing waiting with
  | nil => simp
  | cons name names ih =>
    rw [List.map_cons, List.cons_append, params, if_pos name.kind_eq, ih]
    simp [Terminal.ident, tokenPos]

theorem params_groups (closing : Terminal .rightParen) (gs : List Group) :
    params file closing.token [] (gs.flatMap Group.forms) =
      .ok (gs.flatMap (Group.tree file)) := by
  induction gs with
  | nil => simp [params, closing.kind_eq]
  | cons g gs ih =>
    have htype : g.type.token.kind ≠ .ident := by
      cases g.type <;> simp [TypeName.token, Terminal.kind_eq]
    have hforms : (g :: gs).flatMap Group.forms =
        g.names.map (fun n => .atom n.token) ++ (.atom g.type.token :: gs.flatMap Group.forms) := by
      simp [Group.forms, Group.tokens]
    rw [hforms, params_names, params, if_neg htype, typeOf?_token, ih]
    simp [Group.names, Group.tree, bind, Except.bind]

theorem Definition.decl_items (d : Definition) :
    decl file d.opening.token d.closing.token (formItems file d.items) = .ok (d.tree file) := by
  have hparams : optionalParams file
      (formItems file (paramsForms d.params ++ [.atom d.type.token, d.body.form])) =
        .ok (paramsTree file d.params, formItems file [.atom d.type.token, d.body.form]) := by
    cases d.params with
    | none => rfl
    | some params =>
      simp [paramsForms, Params.form, formItems, optionalParams, params_groups, Except.map,
        paramsTree]
  rw [Definition.items, formItems, formItems]
  simp [decl, d.word.kind_eq, ident, d.name.kind_eq, bind, Except.bind, hparams, requiredType,
    optionalType, typeOf?_token, formItems, expression, d.body.formExpr_form, Except.map,
    Definition.tree, place, formPos, tokenPos, Terminal.ident]

/-- What is derived is read as the tree of its derivation. -/
theorem File.topLevel_forms (f : File) :
    topLevel file false f.forms = (f.tree file).map .ok := by
  induction f with
  | nil => rfl
  | cons d f ih =>
    rw [File.forms, List.map_cons, Definition.form, topLevel, d.decl_items]
    exact congrArg (_ :: ·) ih

/-! ## What is read is derived -/

/-- If a form is read as an expression, it is that of a derivation. -/
def Derived (file : FileId) (f : Form) : Prop :=
  ∀ e, formExpr file f = .ok e → ∃ p : Phrase, p.form = f ∧ p.tree file = e

/-- Forms inside a list, each of which is derived if it is read. -/
def Known (file : FileId) (fs : List Form) : Prop := ∀ f ∈ fs, f.Nested ∧ Derived file f

theorem Known.tail {f : Form} {fs : List Form} (h : Known file (f :: fs)) : Known file fs :=
  fun g hg => h g (List.mem_cons_of_mem f hg)

theorem Known.right {fs gs : List Form} (h : Known file (fs ++ gs)) : Known file gs :=
  fun g hg => h g (List.mem_append_right fs hg)

theorem expression_inv {closing : Token} {fs : List Form} {e : Expr} {items : List Item}
    (hk : Known file fs) (h : expression closing (formItems file fs) = .ok (e, items)) :
    ∃ (p : Phrase) (rest : List Form), fs = p.form :: rest ∧ e = p.tree file ∧
      items = formItems file rest := by
  cases fs with
  | nil => cases h
  | cons f rest =>
    rw [formItems, expression] at h
    obtain ⟨e', he, heq⟩ := map_eq_ok_iff.1 h
    cases heq
    obtain ⟨p, rfl, rfl⟩ := (hk f List.mem_cons_self).2 e he
    exact ⟨p, rest, rfl, rfl, rfl⟩

theorem operands_inv {fs : List Form} {es : List Expr} (hk : Known file fs)
    (h : operands (formItems file fs) = .ok es) :
    ∃ ps, Phrase.forms ps = fs ∧ Phrase.trees file ps = es := by
  induction fs generalizing es with
  | nil =>
    cases h
    exact ⟨[], rfl, rfl⟩
  | cons f fs ih =>
    rw [formItems, operands] at h
    obtain ⟨e, he, h⟩ := bind_eq_ok_iff.1 h
    obtain ⟨es', hes, h⟩ := bind_eq_ok_iff.1 h
    cases h
    obtain ⟨p, rfl, rfl⟩ := (hk f List.mem_cons_self).2 e he
    obtain ⟨ps, rfl, rfl⟩ := ih hk.tail hes
    exact ⟨p :: ps, rfl, rfl⟩

theorem ident_inv {closing : Token} {fs : List Form} {x : Ident} {items : List Item}
    (h : ident file closing (formItems file fs) = .ok (x, items)) :
    ∃ (name : Terminal .ident) (rest : List Form), fs = .atom name.token :: rest ∧
      x = name.ident file ∧ items = formItems file rest := by
  match fs, h with
  | [], h => cases h
  | .list .. :: _, h => cases h
  | .atom t :: rest, h =>
    rw [formItems, ident] at h
    split at h
    · next hkind =>
      cases h
      exact ⟨⟨t, hkind⟩, rest, rfl, rfl, rfl⟩
    · cases h

theorem typeOf?_inv {t : Token} {ty : TypeExpr} (h : typeOf? file t = some ty) :
    ∃ type : TypeName, type.token = t ∧ type.tree file = ty := by
  unfold typeOf? at h
  split at h
  · next hkind =>
    cases h
    exact ⟨.int ⟨t, hkind⟩, rfl, rfl⟩
  · next hkind =>
    cases h
    exact ⟨.bool ⟨t, hkind⟩, rfl, rfl⟩
  · cases h

theorem optionalType_inv (file : FileId) (fs : List Form) :
    ∃ (type : Option TypeName) (rest : List Form), fs = typeForms type ++ rest ∧
      optionalType file (formItems file fs) =
        (type.map (TypeName.tree file), formItems file rest) := by
  match fs with
  | [] => exact ⟨none, [], rfl, rfl⟩
  | .list .. :: _ => exact ⟨none, _, rfl, rfl⟩
  | .atom t :: rest =>
    rw [formItems, optionalType]
    split
    · next ty hty =>
      obtain ⟨type, rfl, rfl⟩ := typeOf?_inv hty
      exact ⟨some type, rest, rfl, rfl⟩
    · exact ⟨none, .atom t :: rest, rfl, rfl⟩

theorem requiredType_inv {closing : Token} {fs : List Form} {ty : TypeExpr} {items : List Item}
    (h : requiredType file closing (formItems file fs) = .ok (ty, items)) :
    ∃ (type : TypeName) (rest : List Form), fs = .atom type.token :: rest ∧ ty = type.tree file ∧
      items = formItems file rest := by
  obtain ⟨type, rest, hfs, heq⟩ := optionalType_inv file fs
  rw [requiredType, heq] at h
  cases type with
  | none => cases h
  | some type =>
    cases h
    exact ⟨type, rest, hfs, rfl, rfl⟩

theorem head_ne_of_nested {f : Form} (h : f.Nested) : f.head.kind ≠ .rightParen := by
  cases f with
  | atom t => exact h
  | list opening items closing => simp [Form.head, h.1]

theorem close_nil_inv {opening closing : Token} {u : Unit} (h : close opening closing [] = .ok u) :
    closing.kind = .rightParen := by
  unfold close at h
  dsimp only at h
  split at h
  · next hkind => exact hkind
  · cases h

theorem close_inv {opening closing : Token} {fs : List Form} (hk : Known file fs) {u : Unit}
    (h : close opening closing (formItems file fs) = .ok u) :
    fs = [] ∧ closing.kind = .rightParen := by
  unfold close at h
  dsimp only at h
  split at h
  · next hkind =>
    cases fs with
    | nil => exact ⟨rfl, hkind⟩
    | cons f fs => exact absurd hkind (head_ne_of_nested (hk f List.mem_cons_self).1)
  · cases h

/-! ### Contents of lists -/

/-- If the items of a list are read as an expression, they are the contents of a derivation. -/
def Contents (file : FileId) (opening closing : Token) (fs : List Form) (e : Expr) : Prop :=
  closing.kind = .rightParen ∧
    ∃ c : Content, c.forms = fs ∧ c.tree file (place file opening closing) = e

section Contents

variable {opening closing : Token} {fs : List Form} {e : Expr}

theorem binaryOp?_inv {kind : TokenKind} {op : BinaryOp} (h : binaryOp? kind = some op) :
    kind = binaryKind op := by
  unfold binaryOp? at h
  split at h <;> cases h <;> rfl

theorem unaryOp?_inv {kind : TokenKind} {op : UnaryOp} (h : unaryOp? kind = some op) :
    kind = unaryKind op := by
  unfold unaryOp? at h
  split at h <;> cases h <;> rfl

theorem operatorForm_inv {operator : Token} (hk : Known file fs)
    (h : operatorForm file opening operator closing (formItems file fs) = .ok e) :
    Contents file opening closing (.atom operator :: fs) e := by
  unfold operatorForm at h
  obtain ⟨es, hes, h⟩ := bind_eq_ok_iff.1 h
  obtain ⟨_, hclose, h⟩ := bind_eq_ok_iff.1 h
  have hc : closing.kind = .rightParen := close_nil_inv hclose
  obtain ⟨ps, rfl, rfl⟩ := operands_inv hk hes
  refine ⟨hc, ?_⟩
  unfold operation at h
  split at h
  · next op operand hop hone =>
    cases h
    obtain ⟨p, rfl⟩ : ∃ p, ps = [p] := by
      match ps, hone with
      | [p], _ => exact ⟨p, rfl⟩
    obtain rfl : p.tree file = operand := (List.cons.inj hone).1
    exact ⟨.unary op ⟨operator, unaryOp?_inv hop⟩ p, rfl, rfl⟩
  · split at h
    · cases h
    · next op first second rest hop hes =>
      cases h
      obtain ⟨p, q, ps, rfl⟩ : ∃ p q qs, ps = p :: q :: qs := by
        match ps, hes with
        | p :: q :: qs, _ => exact ⟨p, q, qs, rfl⟩
      obtain ⟨rfl, rfl, rfl⟩ : p.tree file = first ∧ q.tree file = second ∧
          Phrase.trees file ps = rest := by simpa [Phrase.trees] using hes
      exact ⟨.chain op ⟨operator, binaryOp?_inv hop⟩ p q ps, rfl, rfl⟩
    · cases h

theorem ifForm_inv (word : Terminal .ifWord) (hk : Known file fs)
    (h : ifForm file opening closing (formItems file fs) = .ok e) :
    Contents file opening closing (.atom word.token :: fs) e := by
  unfold ifForm at h
  obtain ⟨⟨_, items₁⟩, ht, h⟩ := bind_eq_ok_iff.1 h
  obtain ⟨test, fs₁, rfl, rfl, rfl⟩ := expression_inv hk ht
  obtain ⟨type, fs₂, rfl, htype⟩ := optionalType_inv file fs₁
  have hk₂ := hk.tail.right
  simp only [htype] at h
  obtain ⟨⟨_, items₃⟩, hy, h⟩ := bind_eq_ok_iff.1 h
  obtain ⟨yes, fs₃, rfl, rfl, rfl⟩ := expression_inv hk₂ hy
  dsimp only at h
  -- Whether there is a second branch is decided by the token behind the first one. As the forms are
  -- nested, it closes a parenthesis only at the end of the list.
  split at h
  · next hnext =>
    cases h
    cases fs₃ with
    | nil => exact ⟨hnext, .ifThen word test type yes, rfl, rfl⟩
    | cons f fs₃ => exact absurd hnext (head_ne_of_nested (hk₂.tail f List.mem_cons_self).1)
  · obtain ⟨⟨_, items₄⟩, hn, h⟩ := bind_eq_ok_iff.1 h
    obtain ⟨no, fs₄, rfl, rfl, rfl⟩ := expression_inv hk₂.tail hn
    obtain ⟨_, hclose, h⟩ := bind_eq_ok_iff.1 h
    cases h
    obtain ⟨rfl, hc⟩ := close_inv hk₂.tail.tail hclose
    exact ⟨hc, .ifThenElse word test type yes no, rfl, rfl⟩

theorem assignForm_inv (equals : Terminal .eq) (hk : Known file fs)
    (h : assignForm file opening closing (formItems file fs) = .ok e) :
    Contents file opening closing (.atom equals.token :: fs) e := by
  unfold assignForm at h
  obtain ⟨⟨_, items₁⟩, hn, h⟩ := bind_eq_ok_iff.1 h
  obtain ⟨name, fs₁, rfl, rfl, rfl⟩ := ident_inv hn
  obtain ⟨⟨_, items₂⟩, hv, h⟩ := bind_eq_ok_iff.1 h
  obtain ⟨value, fs₂, rfl, rfl, rfl⟩ := expression_inv hk.tail hv
  obtain ⟨_, hclose, h⟩ := bind_eq_ok_iff.1 h
  cases h
  obtain ⟨rfl, hc⟩ := close_inv hk.tail.tail hclose
  exact ⟨hc, .assign equals name value, rfl, rfl⟩

theorem callForm_inv (hk : Known file fs)
    (h : callForm file opening closing (formItems file fs) = .ok e) :
    Contents file opening closing fs e := by
  unfold callForm at h
  obtain ⟨⟨_, items₁⟩, hn, h⟩ := bind_eq_ok_iff.1 h
  obtain ⟨name, fs₁, rfl, rfl, rfl⟩ := ident_inv hn
  obtain ⟨es, hes, h⟩ := bind_eq_ok_iff.1 h
  obtain ⟨args, rfl, rfl⟩ := operands_inv hk.tail hes
  obtain ⟨_, hclose, h⟩ := bind_eq_ok_iff.1 h
  cases h
  exact ⟨close_nil_inv hclose, .call name args, rfl, rfl⟩

theorem blockForm_inv {o c : Token} {items : List Form} (hk : Known file (.list o items c :: fs))
    (h : blockForm file opening closing (formItems file (.list o items c :: fs)) = .ok e) :
    Contents file opening closing (.list o items c :: fs) e := by
  unfold blockForm at h
  obtain ⟨es, hes, h⟩ := bind_eq_ok_iff.1 h
  obtain ⟨ps, hps, rfl⟩ := operands_inv hk hes
  obtain ⟨_, hclose, h⟩ := bind_eq_ok_iff.1 h
  cases h
  have hc : closing.kind = .rightParen := close_nil_inv hclose
  -- The first element is a list, so its derivation is one.
  match ps, hps with
  | .list innerOpening first innerClosing :: rest, hps =>
    exact ⟨hc, .block innerOpening first innerClosing rest, hps, rfl⟩
  | .int .. :: _, hps => cases (List.cons.inj hps).1
  | .truth _ :: _, hps => cases (List.cons.inj hps).1
  | .falsehood _ :: _, hps => cases (List.cons.inj hps).1
  | .name _ :: _, hps => cases (List.cons.inj hps).1

/-- Only an assignment is read as an assignment. -/
theorem Phrase.assign_of_tree {p : Phrase} {x : Ident} {v : Expr} {pos : Pos}
    (h : p.tree file = .assign x v pos) :
    ∃ (opening : Terminal .leftParen) (equals : Terminal .eq) (name : Terminal .ident)
      (value : Phrase) (closing : Terminal .rightParen),
      p = .list opening (.assign equals name value) closing ∧ x = name.ident file ∧
        v = value.tree file := by
  have hchain : ∀ (op : BinaryOp) (pos' : Pos) (es : List Expr) (lhs rhs : Expr),
      es.foldl (fun lhs rhs => Expr.binary op lhs rhs pos') (Expr.binary op lhs rhs pos') ≠
        Expr.assign x v pos := by
    intro op pos' es
    induction es with
    | nil => nofun
    | cons e es ih => exact fun lhs rhs => ih _ _
  cases p with
  | list opening content closing =>
    cases content with
    | assign equals target value =>
      cases h
      exact ⟨opening, equals, target, value, closing, rfl, rfl, rfl⟩
    | chain => exact absurd h (hchain _ _ _ _ _)
    | _ => cases h
  | _ => cases h

theorem introduced_inv {x : Ident} {init : Option Expr} {items : List Item} (hk : Known file fs)
    (h : introduced file closing (formItems file fs) = .ok ((x, init), items)) :
    (∃ (name : Terminal .ident) (rest : List Form), fs = .atom name.token :: rest ∧
      x = name.ident file ∧ init = none ∧ items = formItems file rest) ∨
    ∃ (opening : Terminal .leftParen) (equals : Terminal .eq) (name : Terminal .ident)
      (value : Phrase) (closing : Terminal .rightParen) (rest : List Form),
      fs = .list opening.token [.atom equals.token, .atom name.token, value.form] closing.token ::
        rest ∧ x = name.ident file ∧ init = some (value.tree file) ∧
        items = formItems file rest := by
  match fs, h with
  | .atom t :: rest, h =>
    rw [formItems, introduced] at h
    split at h
    · next hkind =>
      cases h
      exact .inl ⟨⟨t, hkind⟩, rest, rfl, rfl, rfl, rfl⟩
    · cases h
  | .list o is c :: rest, h =>
    rw [formItems] at h
    unfold introduced at h
    dsimp only at h
    generalize Token.kind _ = kind at h
    split at h
    · obtain ⟨e, he, h⟩ := bind_eq_ok_iff.1 h
      split at h
      · cases h
        obtain ⟨p, hform, htree⟩ := (hk _ List.mem_cons_self).2 _ he
        obtain ⟨opening, equals, name, value, closing, rfl, rfl, rfl⟩ := Phrase.assign_of_tree htree
        exact .inr ⟨opening, equals, name, value, closing, rest, by rw [← hform]; rfl, rfl, rfl,
          rfl⟩
      · cases h
    · cases h

theorem varForm_inv (word : Terminal .var) (hk : Known file fs)
    (h : varForm file opening closing (formItems file fs) = .ok e) :
    Contents file opening closing (.atom word.token :: fs) e := by
  unfold varForm at h
  obtain ⟨⟨⟨x, init⟩, items₁⟩, hi, h⟩ := bind_eq_ok_iff.1 h
  obtain ⟨name, fs₁, rfl, rfl, rfl, rfl⟩ |
    ⟨innerOpening, equals, name, value, innerClosing, fs₁, rfl, rfl, rfl, rfl⟩ :=
      introduced_inv hk hi
  · obtain ⟨type, fs₂, rfl, htype⟩ := optionalType_inv file fs₁
    simp only [htype] at h
    obtain ⟨_, hclose, hform⟩ := bind_eq_ok_iff.1 h
    obtain ⟨rfl, hc⟩ := close_inv hk.tail.right hclose
    cases type with
    | none => cases hform
    | some type =>
      cases hform
      exact ⟨hc, .declare word name type, rfl, rfl⟩
  · obtain ⟨type, fs₂, rfl, htype⟩ := optionalType_inv file fs₁
    simp only [htype] at h
    obtain ⟨_, hclose, hform⟩ := bind_eq_ok_iff.1 h
    obtain ⟨rfl, hc⟩ := close_inv hk.tail.right hclose
    cases hform
    exact ⟨hc, .define word innerOpening equals name value innerClosing type,
      by simp [Content.forms], rfl⟩

theorem listExpr_inv (hk : Known file fs)
    (h : listExpr file opening closing (formItems file fs) = .ok e) :
    Contents file opening closing fs e := by
  match fs, hk, h with
  | [], _, h =>
    rw [formItems, listExpr] at h
    split at h <;> cases h
  | .list o is c :: rest, hk, h => exact blockForm_inv hk h
  | .atom t :: rest, hk, h =>
    rw [formItems, listExpr] at h
    split at h
    · next hkind => exact ifForm_inv ⟨t, hkind⟩ hk.tail h
    · next hkind => exact varForm_inv ⟨t, hkind⟩ hk.tail h
    · next hkind => exact assignForm_inv ⟨t, hkind⟩ hk.tail h
    · exact callForm_inv hk h
    · cases h
    · split at h
      · exact operatorForm_inv hk.tail h
      · cases h

end Contents

/-! ### Forms -/

theorem atomExpr_inv {t : Token} {e : Expr} (h : atomExpr file t = .ok e) :
    ∃ p : Phrase, p.form = .atom t ∧ p.tree file = e := by
  unfold atomExpr at h
  split at h
  · next hkind =>
    split at h
    · next w hw =>
      cases h
      have hvalue := Word.ofInt?_eq_some_iff.1 hw
      exact ⟨.int ⟨t, hkind⟩ w (by rw [hvalue, literalValue_eq]), rfl, rfl⟩
    · cases h
  · next hkind =>
    cases h
    exact ⟨.truth ⟨t, hkind⟩, rfl, rfl⟩
  · next hkind =>
    cases h
    exact ⟨.falsehood ⟨t, hkind⟩, rfl, rfl⟩
  · next hkind =>
    cases h
    exact ⟨.name ⟨t, hkind⟩, rfl, rfl⟩
  · cases h

mutual

theorem derived_of_nested : ∀ f : Form, f.Nested → Derived file f
  | .atom t, _ => fun _ h => atomExpr_inv h
  | .list opening items closing, ⟨hopening, hitems⟩ => fun e h => by
    obtain ⟨hc, c, hforms, htree⟩ := listExpr_inv (known_of_allNested items hitems) h
    exact ⟨.list ⟨opening, hopening⟩ c ⟨closing, hc⟩, by rw [Phrase.form, hforms], htree⟩

theorem known_of_allNested : ∀ fs : List Form, Form.AllNested fs → Known file fs
  | [], _ => nofun
  | f :: fs, ⟨hf, hfs⟩ =>
    List.forall_mem_cons.2 ⟨⟨hf, derived_of_nested f hf⟩, known_of_allNested fs hfs⟩

end

/-! ### Declarations -/

/-- A parameter list that is read consists of groups, the first of which may have begun. -/
theorem params_inv {closing : Token} {started : List (Terminal .ident)} {fs : List Form}
    {ps : List Param}
    (h : params file closing (started.map (Terminal.ident file)) fs = .ok ps) :
    closing.kind = .rightParen ∧ ∃ gs : List Group,
      started.map (fun n => .atom n.token) ++ fs = gs.flatMap Group.forms ∧
        gs.flatMap (Group.tree file) = ps := by
  induction fs generalizing started ps with
  | nil =>
    unfold params at h
    split at h
    · next hc =>
      cases started with
      | nil =>
        cases h
        exact ⟨hc, [], rfl, rfl⟩
      | cons name started => cases h
    · cases h
  | cons f fs ih =>
    cases f with
    | list opening items closing => cases h
    | atom t =>
      rw [params] at h
      split at h
      · next hkind =>
        let name : Terminal .ident := ⟨t, hkind⟩
        have hstarted : started.map (Terminal.ident file) ++ [⟨t.text, tokenPos file t⟩] =
            (started ++ [name]).map (Terminal.ident file) := by
          simp [Terminal.ident, tokenPos, name]
        rw [hstarted] at h
        obtain ⟨hc, gs, hgs, htree⟩ := ih h
        refine ⟨hc, gs, ?_, htree⟩
        rw [← hgs]
        simp [name]
      · split at h
        · cases h
        · next ty hty =>
          obtain ⟨type, rfl, rfl⟩ := typeOf?_inv hty
          cases started with
          | nil => cases h
          | cons first others =>
            obtain ⟨ps', hps, hrest⟩ := bind_eq_ok_iff.1 h
            cases hrest
            rw [← List.map_nil (f := Terminal.ident file)] at hps
            obtain ⟨hc, gs, hgs, rfl⟩ := ih hps
            refine ⟨hc, ⟨first, others, type⟩ :: gs, ?_, ?_⟩
            · rw [List.flatMap_cons, ← hgs]
              simp [Group.forms, Group.tokens, Group.names]
            · simp [Group.tree, Group.names]

theorem optionalParams_inv {fs : List Form} {ps : List Param} {items : List Item}
    (hk : Known file fs) (h : optionalParams file (formItems file fs) = .ok (ps, items)) :
    ∃ (p : Option Params) (rest : List Form), fs = paramsForms p ++ rest ∧
      ps = paramsTree file p ∧ items = formItems file rest := by
  match fs, h with
  | .list opening is closing :: rest, h =>
    rw [formItems, optionalParams] at h
    obtain ⟨ps', hps, heq⟩ := map_eq_ok_iff.1 h
    cases heq
    rw [← List.map_nil (f := Terminal.ident file)] at hps
    obtain ⟨hc, gs, hgs, rfl⟩ := params_inv hps
    have hopening := (hk _ List.mem_cons_self).1.1
    have hforms : is = gs.flatMap Group.forms := hgs
    exact ⟨some ⟨⟨opening, hopening⟩, gs, ⟨closing, hc⟩⟩, rest, by rw [hforms]; rfl, rfl, rfl⟩
  | .atom t :: rest, h =>
    cases h
    exact ⟨none, .atom t :: rest, rfl, rfl, rfl⟩
  | [], h =>
    cases h
    exact ⟨none, [], rfl, rfl, rfl⟩

theorem decl_inv {opening closing : Token} {fs : List Form} {d : Decl}
    (hopening : opening.kind = .leftParen) (hk : Known file fs)
    (h : decl file opening closing (formItems file fs) = .ok d) :
    ∃ def' : Definition, def'.form = .list opening fs closing ∧ def'.tree file = d := by
  match fs, hk, h with
  | [], _, h => cases h
  | .list .. :: _, _, h => cases h
  | .atom t :: rest, hk, h =>
    rw [formItems, decl] at h
    split at h
    · cases h
    · next hkind =>
      obtain ⟨⟨x, items₁⟩, hn, h⟩ := bind_eq_ok_iff.1 h
      obtain ⟨name, fs₁, rfl, rfl, rfl⟩ := ident_inv hn
      obtain ⟨⟨ps, items₂⟩, hps, h⟩ := bind_eq_ok_iff.1 h
      obtain ⟨params, fs₂, rfl, rfl, rfl⟩ := optionalParams_inv hk.tail.tail hps
      obtain ⟨⟨ty, items₃⟩, hty, h⟩ := bind_eq_ok_iff.1 h
      obtain ⟨type, fs₃, rfl, rfl, rfl⟩ := requiredType_inv hty
      obtain ⟨⟨e, items₄⟩, hb, h⟩ := bind_eq_ok_iff.1 h
      obtain ⟨body, fs₄, rfl, rfl, rfl⟩ := expression_inv hk.tail.tail.right.tail hb
      obtain ⟨_, hclose, hd⟩ := bind_eq_ok_iff.1 h
      obtain ⟨rfl, hc⟩ := close_inv hk.tail.tail.right.tail.tail hclose
      cases hd
      exact ⟨⟨⟨opening, hopening⟩, ⟨t, Decidable.not_not.1 hkind⟩, name, params, type, body,
        ⟨closing, hc⟩⟩, rfl, rfl⟩

/-- Forms that are all read as declarations are those of a file. -/
theorem topLevel_inv {fs : List Form}
    (hn : ∀ opening items closing, .list opening items closing ∈ fs →
      (Form.list opening items closing).Nested)
    (h : failures (topLevel file false fs) = []) : ∃ f : File, f.forms = fs := by
  induction fs with
  | nil => exact ⟨[], rfl⟩
  | cons form fs ih =>
    cases form with
    | atom t => simp [topLevel, failures] at h
    | list opening items closing =>
      rw [topLevel, failures, List.filterMap_cons] at h
      cases hd : decl file opening closing (formItems file items) with
      | error e => simp [hd] at h
      | ok d =>
        obtain ⟨hopening, hitems⟩ := hn opening items closing List.mem_cons_self
        obtain ⟨def', hform, -⟩ := decl_inv hopening (known_of_allNested items hitems) hd
        rw [hd] at h
        obtain ⟨f, rfl⟩ := ih (fun o is c hmem => hn o is c (List.mem_cons_of_mem _ hmem)) h
        exact ⟨def' :: f, by rw [File.forms, List.map_cons, hform]; rfl⟩

end Grammar

/-! ## Texts -/

namespace Parse

open Grammar

theorem successes_map_ok {ε α : Type} (as : List α) :
    successes (as.map (Except.ok (ε := ε))) = as := by
  simp [successes, List.filterMap_map]

theorem failures_map_ok {ε α : Type} (as : List α) :
    failures (as.map (Except.ok (ε := ε))) = [] := by
  simp [failures]

/-- A text whose tokens are derived is read as what is derived. -/
theorem ofText_of_tokens (file : FileId) {text : String} {f : Grammar.File}
    (hf : f.tokens = Token.significant text) :
    (ofText file text).errors = [] ∧ (ofText file text).decls = f.tree file := by
  obtain ⟨eof, heof, hscan⟩ := Token.filter_scan text
  have hforms : topLevel file false
      (Form.ofTokens ((Token.scan text).filter fun t => t.kind ≠ .comment)) =
        (f.tree file).map .ok := by
    rw [hscan, ← hf, ← f.flattenAll_forms, Form.ofTokens_flattenAll f.balanced_forms eof heof,
      f.topLevel_forms]
  exact ⟨(congrArg failures hforms).trans (failures_map_ok _),
    (congrArg successes hforms).trans (successes_map_ok _)⟩

/-- The tokens of a text that is read without an error have a derivation. -/
theorem exists_derivation {file : FileId} {text : String}
    (herrors : (ofText file text).errors = []) :
    ∃ f : Grammar.File, f.tokens = Token.significant text := by
  obtain ⟨eof, heof, hscan⟩ := Token.filter_scan text
  obtain ⟨f, hf⟩ := topLevel_inv (fun _ _ _ => Form.nested_of_mem_ofTokens) herrors
  refine ⟨f, ?_⟩
  rw [← f.flattenAll_forms, hf, Form.flatten_ofTokens, hscan, Token.takeWhile_significant heof]

/-- **Texts are read by the grammar.** A text is read without an error iff its tokens have a
derivation. There is no other derivation then, and the declarations are those of the derivation. -/
theorem ofText_reads_grammar (file : FileId) (text : String) :
    ((ofText file text).errors = [] ↔ ∃ f : Grammar.File, f.tokens = Token.significant text) ∧
      ∀ f : Grammar.File, f.tokens = Token.significant text →
        (∀ f' : Grammar.File, f'.tokens = Token.significant text → f' = f) ∧
          (ofText file text).decls = f.tree file := by
  refine ⟨⟨exists_derivation, ?_⟩, fun f hf => ⟨fun f' hf' => ?_, (ofText_of_tokens file hf).2⟩⟩
  · rintro ⟨f, hf⟩
    exact (ofText_of_tokens file hf).1
  · exact File.tokens_injective (hf'.trans hf.symm)

/-- For an example: the derivation of a declaration with two parameters of one type and a chain of
three operands. -/
def subtraction : Grammar.File :=
  let a : Phrase := .name ⟨⟨.ident, ⟨25, 26⟩, "a"⟩, rfl⟩
  let b : Phrase := .name ⟨⟨.ident, ⟨27, 28⟩, "b"⟩, rfl⟩
  let zero : Phrase := .int ⟨⟨.intLiteral, ⟨29, 30⟩, "0"⟩, rfl⟩ .zero (by decide)
  [{ opening := ⟨⟨.leftParen, ⟨0, 1⟩, "("⟩, rfl⟩
     word := ⟨⟨.decl, ⟨1, 5⟩, "decl"⟩, rfl⟩
     name := ⟨⟨.ident, ⟨6, 7⟩, "f"⟩, rfl⟩
     params := some
      { opening := ⟨⟨.leftParen, ⟨8, 9⟩, "("⟩, rfl⟩
        groups := [⟨⟨⟨.ident, ⟨9, 10⟩, "a"⟩, rfl⟩, [⟨⟨.ident, ⟨11, 12⟩, "b"⟩, rfl⟩],
          .int ⟨⟨.intWord, ⟨13, 16⟩, "int"⟩, rfl⟩⟩]
        closing := ⟨⟨.rightParen, ⟨16, 17⟩, ")"⟩, rfl⟩ }
     type := .int ⟨⟨.intWord, ⟨18, 21⟩, "int"⟩, rfl⟩
     body := .list ⟨⟨.leftParen, ⟨22, 23⟩, "("⟩, rfl⟩
      (.chain .sub ⟨⟨.minus, ⟨23, 24⟩, "-"⟩, rfl⟩ a b [zero]) ⟨⟨.rightParen, ⟨30, 31⟩, ")"⟩, rfl⟩
     closing := ⟨⟨.rightParen, ⟨31, 32⟩, ")"⟩, rfl⟩ }]

theorem ofText_reads_grammar_subtraction :
    let text := "(decl f (a b int) int (- a b 0))"
    subtraction.tokens = Token.significant text ∧ (ofText ⟨0⟩ text).errors = [] ∧
      (ofText ⟨0⟩ text).decls = subtraction.tree ⟨0⟩ := by
  intro text
  have htokens : subtraction.tokens = Token.significant text := by decide +kernel
  obtain ⟨herrors, hderivation⟩ := ofText_reads_grammar ⟨0⟩ text
  exact ⟨htokens, herrors.2 ⟨_, htokens⟩, (hderivation _ htokens).2⟩

end Parse

end CalcLang
