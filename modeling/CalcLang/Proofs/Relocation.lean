import CalcLang.Parse

/-!
# Relocation

Parsing looks at the kinds and the characters of tokens. Their spans are passed on, alone or covered
together, to the positions of what is read and of the errors. So a change of all spans that agrees
with `Span.cover` can be made before parsing or after it, with the same result
(`Relocation.topLevel`). Moving a text is such a change (`Relocation.shift`), and so is forgetting
all of a span but one property (`Relocation.mark`), which tells what the spans that come out have in
common with those that go in (`Relocation.error_span_iff`).
-/

namespace CalcLang

open Parse

/-- A change of spans that agrees with covering. -/
structure Relocation where
  span : Span → Span
  cover : ∀ a b, span (a.cover b) = (span a).cover (span b)

namespace Relocation

/-- All spans are moved to the right. -/
def shift (offset : Nat) : Relocation where
  span s := ⟨s.start + offset, s.stop + offset⟩
  cover a b := by simp [Span.cover, Nat.add_min_add_right, Nat.add_max_add_right]

/-- All that is left of a span is whether it has a property. A cover has it if one of the two spans
has it. -/
def mark (p : Span → Prop) [DecidablePred p] (hp : ∀ a b, p (a.cover b) ↔ p a ∨ p b) :
    Relocation where
  span s := if p s then ⟨0, 1⟩ else ⟨1, 0⟩
  cover a b := by
    by_cases ha : p a <;> by_cases hb : p b <;>
      simp only [hp, ha, hb, or_true, true_or, or_self, if_true, if_false] <;> rfl

variable (g : Relocation)

/-! ## What is relocated -/

/-- A token at its new place. -/
def token (t : Token) : Token := { t with span := g.span t.span }

@[simp]
theorem kind_token (t : Token) : (g.token t).kind = t.kind := rfl

@[simp]
theorem text_token (t : Token) : (g.token t).text = t.text := rfl

@[simp]
theorem span_token (t : Token) : (g.token t).span = g.span t.span := rfl

mutual

/-- A form of relocated tokens. -/
def form : Form → Form
  | .atom t => .atom (g.token t)
  | .list opening items closing => .list (g.token opening) (forms items) (g.token closing)

/-- Forms of relocated tokens. -/
def forms : List Form → List Form
  | [] => []
  | f :: fs => form f :: forms fs

end

/-- A position in the same file. -/
def pos (p : Pos) : Pos := ⟨p.file, g.span p.span⟩

/-- A name at its new place. -/
def ident (x : Ident) : Ident := ⟨x.name, g.pos x.pos⟩

/-- A type at its new place. -/
def typeExpr (ty : TypeExpr) : TypeExpr := ⟨ty.ty, g.pos ty.pos⟩

mutual

/-- An expression at its new place. -/
def expr : Expr → Expr
  | .int value pos => .int value (g.pos pos)
  | .bool value pos => .bool value (g.pos pos)
  | .name x => .name (g.ident x)
  | .binary op lhs rhs pos => .binary op (expr lhs) (expr rhs) (g.pos pos)
  | .unary op operand pos => .unary op (expr operand) (g.pos pos)
  | .ifThen test ty yes pos => .ifThen (expr test) (ty.map g.typeExpr) (expr yes) (g.pos pos)
  | .ifThenElse test ty yes no pos =>
    .ifThenElse (expr test) (ty.map g.typeExpr) (expr yes) (expr no) (g.pos pos)
  | .declare x ty pos => .declare (g.ident x) (g.typeExpr ty) (g.pos pos)
  | .define x ty init pos => .define (g.ident x) (ty.map g.typeExpr) (expr init) (g.pos pos)
  | .assign x value pos => .assign (g.ident x) (expr value) (g.pos pos)
  | .call x args pos => .call (g.ident x) (exprs args) (g.pos pos)
  | .block elements pos => .block (exprs elements) (g.pos pos)

/-- Expressions at their new places. -/
def exprs : List Expr → List Expr
  | [] => []
  | e :: es => expr e :: exprs es

end

/-- A parameter at its new place. -/
def param (p : Param) : Param := ⟨g.ident p.name, g.typeExpr p.ty⟩

/-- A declaration at its new place. -/
def decl (d : Decl) : Decl :=
  ⟨g.ident d.name, d.params.map g.param, g.typeExpr d.ret, g.expr d.body, g.pos d.pos⟩

/-- The cause of an error, with its other place relocated. -/
def cause : ParseError.Cause → ParseError.Cause
  | .unclosed found opening => .unclosed found (g.span opening)
  | cause => cause

/-- An error at its new place. -/
def error (e : ParseError) : ParseError := ⟨g.cause e.cause, g.span e.span⟩

/-- A result or an error at its new place. -/
def result {α β : Type} (f : α → β) : Result α → Result β
  | .ok a => .ok (f a)
  | .error e => .error (g.error e)

/-- An item at its new place. -/
def item (i : Item) : Item := ⟨g.form i.form, g.result g.expr i.expr⟩

/-- What is read of some items, and the items that are left. -/
def read {α β : Type} (f : α → β) (r : α × List Item) : β × List Item := (f r.1, r.2.map g.item)

/-! ## Results -/

/-- Results are relocated step by step. -/
theorem result_bind {α α' β β' : Type} {f : α → α'} {f' : β → β'} {x : Result α} {x' : Result α'}
    {k : α → Result β} {k' : α' → Result β'} (hx : x' = g.result f x)
    (hk : ∀ a, k' (f a) = g.result f' (k a)) : x' >>= k' = g.result f' (x >>= k) := by
  subst hx
  cases x with
  | error e => rfl
  | ok a => exact hk a

theorem result_map {α α' β β' : Type} {f : α → α'} {f' : β → β'} {x : Result α} {x' : Result α'}
    {k : α → β} {k' : α' → β'} (hx : x' = g.result f x) (hk : ∀ a, k' (f a) = f' (k a)) :
    x'.map k' = g.result f' (x.map k) := by
  subst hx
  cases x with
  | error e => rfl
  | ok a => exact congrArg Except.ok (hk a)

theorem head_form (f : Form) : (g.form f).head = g.token f.head := by
  cases f <;> rfl

theorem next (closing : Token) (items : List Item) :
    Parse.next (g.token closing) (items.map g.item) = g.token (Parse.next closing items) := by
  cases items with
  | nil => rfl
  | cons i items => exact g.head_form i.form

/-! ## Parts of forms -/

theorem close (opening closing : Token) (items : List Item) :
    Parse.close (g.token opening) (g.token closing) (items.map g.item) =
      g.result id (Parse.close opening closing items) := by
  simp only [Parse.close, g.next, kind_token, span_token]
  split <;> rfl

theorem expression (closing : Token) (items : List Item) :
    Parse.expression (g.token closing) (items.map g.item) =
      g.result (g.read g.expr) (Parse.expression closing items) := by
  cases items with
  | nil => rfl
  | cons i items =>
    have hexpr : (g.item i).expr = g.result g.expr i.expr := rfl
    exact g.result_map hexpr fun _ => rfl

theorem operands (items : List Item) :
    Parse.operands (items.map g.item) = g.result g.exprs (Parse.operands items) := by
  induction items with
  | nil => rfl
  | cons i items ih =>
    rw [List.map_cons, Parse.operands, Parse.operands]
    exact g.result_bind rfl fun _ => g.result_bind ih fun _ => rfl

variable (file : FileId)

theorem identifier (closing : Token) (items : List Item) :
    Parse.ident file (g.token closing) (items.map g.item) =
      g.result (g.read g.ident) (Parse.ident file closing items) := by
  match items with
  | [] => rfl
  | ⟨.list .., _⟩ :: _ => rfl
  | ⟨.atom t, expr⟩ :: items =>
    by_cases hkind : t.kind = .ident
    · simp only [List.map_cons, item, form, Parse.ident, kind_token, hkind, if_true]
      rfl
    · simp only [List.map_cons, item, form, Parse.ident, kind_token, hkind, if_false]
      rfl

theorem typeOf? (t : Token) :
    Parse.typeOf? file (g.token t) = (Parse.typeOf? file t).map g.typeExpr := by
  simp only [Parse.typeOf?, kind_token]
  split <;> rfl

theorem optionalType (items : List Item) :
    Parse.optionalType file (items.map g.item) =
      g.read (Option.map g.typeExpr) (Parse.optionalType file items) := by
  match items with
  | [] => rfl
  | ⟨.list .., _⟩ :: _ => rfl
  | ⟨.atom t, expr⟩ :: items =>
    simp only [List.map_cons, item, form, Parse.optionalType, g.typeOf?]
    cases Parse.typeOf? file t <;> rfl

theorem requiredType (closing : Token) (items : List Item) :
    Parse.requiredType file (g.token closing) (items.map g.item) =
      g.result (g.read g.typeExpr) (Parse.requiredType file closing items) := by
  rw [Parse.requiredType, Parse.requiredType, g.optionalType, g.next]
  rcases Parse.optionalType file items with ⟨_ | ty, rest⟩ <;> rfl

theorem formPos (opening closing : Token) :
    Parse.formPos file (g.token opening) (g.token closing) =
      g.pos (Parse.formPos file opening closing) := by
  simp [Parse.formPos, pos, g.cover]

theorem atomExpr (t : Token) :
    Parse.atomExpr file (g.token t) = g.result g.expr (Parse.atomExpr file t) := by
  simp only [Parse.atomExpr, kind_token, text_token]
  split
  · cases Word.ofInt? (literalValue t.text.toList) <;> rfl
  · rfl
  · rfl
  · rfl
  · rfl

/-! ## Lists -/

theorem exprs_eq_map (es : List Expr) : g.exprs es = es.map g.expr := by
  induction es with
  | nil => rfl
  | cons e es ih => rw [exprs, ih, List.map_cons]

theorem chain (op : BinaryOp) (first : Expr) (rest : List Expr) (pos : Pos) :
    g.expr (.chain op first rest pos) = .chain op (g.expr first) (g.exprs rest) (g.pos pos) := by
  rw [exprs_eq_map, Expr.chain, Expr.chain]
  induction rest generalizing first with
  | nil => rfl
  | cons e es ih => exact ih (.binary op first e pos)

theorem operation (operator : Token) (pos : Pos) (es : List Expr) :
    Parse.operation (g.token operator) (g.pos pos) (g.exprs es) =
      g.result g.expr (Parse.operation operator pos es) := by
  simp only [Parse.operation, kind_token, span_token]
  match unaryOp? operator.kind, binaryOp? operator.kind, es with
  | some op, _, [operand] => rfl
  | none, none, _ => rfl
  | some _, none, [] => rfl
  | some _, none, _ :: _ :: _ => rfl
  | some _, some _, [] => rfl
  | none, some _, [] => rfl
  | none, some _, [_] => rfl
  | some _, some op, first :: second :: rest =>
    exact congrArg Except.ok (g.chain op first (second :: rest) pos).symm
  | none, some op, first :: second :: rest =>
    exact congrArg Except.ok (g.chain op first (second :: rest) pos).symm

theorem operatorForm (opening operator closing : Token) (items : List Item) :
    Parse.operatorForm file (g.token opening) (g.token operator) (g.token closing)
        (items.map g.item) =
      g.result g.expr (Parse.operatorForm file opening operator closing items) := by
  refine g.result_bind (g.operands items) fun es => ?_
  refine g.result_bind (g.close opening closing []) fun _ => ?_
  rw [g.formPos]
  exact g.operation operator _ es

theorem ifForm (opening closing : Token) (items : List Item) :
    Parse.ifForm file (g.token opening) (g.token closing) (items.map g.item) =
      g.result g.expr (Parse.ifForm file opening closing items) := by
  refine g.result_bind (g.expression closing items) fun (test, items) => ?_
  simp only [read, g.optionalType]
  rcases Parse.optionalType file items with ⟨ty, items⟩
  refine g.result_bind (g.expression closing items) fun (yes, items) => ?_
  simp only [read, g.next, kind_token]
  by_cases hnext : (Parse.next closing items).kind = .rightParen
  · rw [if_pos hnext, if_pos hnext, g.formPos]
    rfl
  · rw [if_neg hnext, if_neg hnext]
    refine g.result_bind (g.expression closing items) fun (no, items) => ?_
    refine g.result_bind (g.close opening closing items) fun _ => ?_
    rw [g.formPos]
    rfl

theorem assignForm (opening closing : Token) (items : List Item) :
    Parse.assignForm file (g.token opening) (g.token closing) (items.map g.item) =
      g.result g.expr (Parse.assignForm file opening closing items) := by
  refine g.result_bind (g.identifier file closing items) fun (x, items) => ?_
  refine g.result_bind (g.expression closing items) fun (value, items) => ?_
  refine g.result_bind (g.close opening closing items) fun _ => ?_
  rw [g.formPos]
  rfl

theorem callForm (opening closing : Token) (items : List Item) :
    Parse.callForm file (g.token opening) (g.token closing) (items.map g.item) =
      g.result g.expr (Parse.callForm file opening closing items) := by
  refine g.result_bind (g.identifier file closing items) fun (x, items) => ?_
  refine g.result_bind (g.operands items) fun args => ?_
  refine g.result_bind (g.close opening closing []) fun _ => ?_
  rw [g.formPos]
  rfl

theorem blockForm (opening closing : Token) (items : List Item) :
    Parse.blockForm file (g.token opening) (g.token closing) (items.map g.item) =
      g.result g.expr (Parse.blockForm file opening closing items) := by
  refine g.result_bind (g.operands items) fun es => ?_
  refine g.result_bind (g.close opening closing []) fun _ => ?_
  rw [g.formPos]
  rfl

/-- What a variable form introduces. -/
def introduction (i : Ident × Option Expr) : Ident × Option Expr := (g.ident i.1, i.2.map g.expr)

theorem introduced (closing : Token) (items : List Item) :
    Parse.introduced file (g.token closing) (items.map g.item) =
      g.result (g.read g.introduction) (Parse.introduced file closing items) := by
  match items with
  | [] => rfl
  | ⟨.atom t, expr⟩ :: items =>
    by_cases hkind : t.kind = .ident
    · simp only [List.map_cons, item, form, Parse.introduced, kind_token, hkind, if_true]
      rfl
    · simp only [List.map_cons, item, form, Parse.introduced, kind_token, hkind, if_false]
      rfl
  | ⟨.list _ [] inner, e⟩ :: items =>
    by_cases hkind : inner.kind = .eq
    · simp only [List.map_cons, item, form, forms, Parse.introduced, kind_token, hkind, if_true]
      refine g.result_bind rfl fun value => ?_
      cases value <;> rfl
    · simp only [List.map_cons, item, form, forms, Parse.introduced, kind_token, hkind, if_false]
      rfl
  | ⟨.list _ (f :: fs) _, e⟩ :: items =>
    by_cases hkind : f.head.kind = .eq
    · simp only [List.map_cons, item, form, forms, Parse.introduced, g.head_form, kind_token, hkind,
        if_true]
      refine g.result_bind rfl fun value => ?_
      cases value <;> rfl
    · simp only [List.map_cons, item, form, forms, Parse.introduced, g.head_form, kind_token, hkind,
        if_false]
      rfl

theorem varForm (opening closing : Token) (items : List Item) :
    Parse.varForm file (g.token opening) (g.token closing) (items.map g.item) =
      g.result g.expr (Parse.varForm file opening closing items) := by
  refine g.result_bind (g.introduced file closing items) fun ((x, init), items) => ?_
  simp only [read, introduction, g.optionalType]
  rcases Parse.optionalType file items with ⟨ty, items⟩
  refine g.result_bind (g.close opening closing items) fun _ => ?_
  rw [g.formPos]
  cases init <;> cases ty <;> rfl

theorem listExpr (opening closing : Token) (items : List Item) :
    Parse.listExpr file (g.token opening) (g.token closing) (items.map g.item) =
      g.result g.expr (Parse.listExpr file opening closing items) := by
  match items with
  | [] =>
    simp only [List.map_nil, Parse.listExpr, kind_token, span_token, ← g.cover]
    split <;> rfl
  | ⟨.list _ _ _, _⟩ :: items => exact g.blockForm file opening closing (_ :: items)
  | ⟨.atom t, e⟩ :: items =>
    simp only [List.map_cons, item, form, Parse.listExpr, kind_token]
    split
    · exact g.ifForm file opening closing items
    · exact g.varForm file opening closing items
    · exact g.assignForm file opening closing items
    · exact g.callForm file opening closing (⟨.atom t, e⟩ :: items)
    · rfl
    · split
      · exact g.operatorForm file opening t closing items
      · rfl

mutual

theorem formExpr : ∀ f : Form,
    Parse.formExpr file (g.form f) = g.result g.expr (Parse.formExpr file f)
  | .atom t => g.atomExpr file t
  | .list opening items closing => by
    rw [form, Parse.formExpr, Parse.formExpr, formItems items]
    exact g.listExpr file opening closing _

theorem formItems : ∀ fs : List Form,
    Parse.formItems file (g.forms fs) = (Parse.formItems file fs).map g.item
  | [] => rfl
  | f :: fs => by
    rw [forms, Parse.formItems, Parse.formItems, List.map_cons, formItems fs, formExpr f]
    rfl

end

/-! ## Declarations -/

theorem params (closing : Token) (waiting : List Ident) (fs : List Form) :
    Parse.params file (g.token closing) (waiting.map g.ident) (g.forms fs) =
      g.result (List.map g.param) (Parse.params file closing waiting fs) := by
  match fs with
  | [] =>
    by_cases hkind : closing.kind = .rightParen
    · simp only [forms, Parse.params, kind_token, hkind, if_true]
      cases waiting <;> rfl
    · simp only [forms, Parse.params, kind_token, hkind, if_false]
      rfl
  | .list .. :: _ => rfl
  | .atom t :: fs =>
    by_cases hkind : t.kind = .ident
    · let name : Ident := ⟨t.text, tokenPos file t⟩
      have hwaiting : waiting.map g.ident ++ [⟨t.text, tokenPos file (g.token t)⟩] =
          (waiting ++ [name]).map g.ident := by
        rw [List.map_append]
        rfl
      simp only [forms, form, Parse.params, kind_token, text_token, hkind, if_true, hwaiting]
      exact params closing (waiting ++ [name]) fs
    · simp only [forms, form, Parse.params, kind_token, hkind, if_false, g.typeOf?]
      cases Parse.typeOf? file t with
      | none => rfl
      | some ty =>
        by_cases hempty : waiting.isEmpty
        · simp only [Option.map_some, List.isEmpty_map, hempty, if_true]
          rfl
        · simp only [Option.map_some, List.isEmpty_map, hempty]
          refine g.result_bind (params closing [] fs) fun others => ?_
          simp [result, param, Function.comp_def]

theorem optionalParams (items : List Item) :
    Parse.optionalParams file (items.map g.item) =
      g.result (g.read (List.map g.param)) (Parse.optionalParams file items) := by
  match items with
  | [] => rfl
  | ⟨.atom _, _⟩ :: _ => rfl
  | ⟨.list _ fs closing, _⟩ :: items =>
    exact g.result_map (g.params file closing [] fs) fun _ => rfl

theorem declaration (opening closing : Token) (items : List Item) :
    Parse.decl file (g.token opening) (g.token closing) (items.map g.item) =
      g.result g.decl (Parse.decl file opening closing items) := by
  match items with
  | [] => rfl
  | ⟨.list .., _⟩ :: _ => rfl
  | ⟨.atom t, _⟩ :: items =>
    by_cases hkind : t.kind = .decl
    · simp only [List.map_cons, item, form, Parse.decl, kind_token, hkind, ne_eq, not_true,
        if_false]
      refine g.result_bind (g.identifier file closing items) fun (x, items) => ?_
      refine g.result_bind (g.optionalParams file items) fun (params, items) => ?_
      refine g.result_bind (g.requiredType file closing items) fun (ret, items) => ?_
      refine g.result_bind (g.expression closing items) fun (body, items) => ?_
      refine g.result_bind (g.close opening closing items) fun _ => ?_
      rw [g.formPos]
      rfl
    · simp only [List.map_cons, item, form, Parse.decl, kind_token, hkind, ne_eq, not_false_iff,
        if_true]
      rfl

/-- What is read of the top-level forms of a text at its new place is what is read of them at the
old place, relocated. -/
theorem topLevel (inRun : Bool) (fs : List Form) :
    Parse.topLevel file inRun (g.forms fs) =
      (Parse.topLevel file inRun fs).map (g.result g.decl) := by
  induction fs generalizing inRun with
  | nil => rfl
  | cons f fs ih =>
    cases f with
    | atom t =>
      rw [forms, form, Parse.topLevel, Parse.topLevel]
      split
      · exact ih true
      · rw [List.map_cons, ← ih true]
        rfl
    | list opening items closing =>
      rw [forms, form, Parse.topLevel, Parse.topLevel, List.map_cons, ih false, g.formItems,
        g.declaration]

/-! ## Tokens -/

theorem forms_eq_map (fs : List Form) : g.forms fs = fs.map g.form := by
  induction fs with
  | nil => rfl
  | cons f fs ih => rw [forms, ih, List.map_cons]

/-- A level of relocated tokens. -/
def level (l : Form.Level) : Form.Level := ⟨g.token l.closing, g.forms l.after⟩

/-- What has been read of relocated tokens. -/
def reading (r : Form.Reading) : Form.Reading :=
  ⟨g.forms r.current, r.levels.map g.level, g.token r.eof⟩

theorem step (t : Token) (r : Form.Reading) :
    Form.Reading.step (g.token t) (g.reading r) = g.reading (Form.Reading.step t r) := by
  obtain ⟨current, levels, eof⟩ := r
  simp only [Form.Reading.step, kind_token]
  split
  · rfl
  · rfl
  · cases levels <;> rfl
  · rfl

theorem forms_reading (r : Form.Reading) : (g.reading r).forms = g.forms r.forms := by
  obtain ⟨current, levels, eof⟩ := r
  simp only [Form.Reading.forms, reading]
  induction levels generalizing current with
  | nil => rfl
  | cons l ls ih =>
    rw [List.map_cons, List.foldl_cons, List.foldl_cons, ← ih, g.forms_eq_map (_ ++ _),
      List.map_append, ← g.forms_eq_map, ← g.forms_eq_map]
    rfl

/-- Relocated tokens are put together into relocated forms. -/
theorem ofTokens (ts : List Token) {eof : Token} (heof : eof.kind = .eof) :
    Form.ofTokens ((ts ++ [eof]).map g.token) = g.forms (Form.ofTokens (ts ++ [eof])) := by
  rw [Form.ofTokens, Form.ofTokens, ← forms_reading]
  congr 1
  induction ts with
  | nil => simp [Form.Reading.step, heof, reading, Form.Reading.start, forms]
  | cons t ts ih => rw [List.cons_append, List.map_cons, List.foldr_cons, List.foldr_cons, ih, step]

/-- Relocations that agree on the tokens agree on what is read of them. -/
theorem topLevel_congr {g h : Relocation} {ts : List Token} {eof : Token} (heof : eof.kind = .eof)
    (hts : ∀ t ∈ ts ++ [eof], g.span t.span = h.span t.span) (inRun : Bool) :
    (Parse.topLevel file inRun (Form.ofTokens (ts ++ [eof]))).map (g.result g.decl) =
      (Parse.topLevel file inRun (Form.ofTokens (ts ++ [eof]))).map (h.result h.decl) := by
  rw [← topLevel, ← topLevel, ← ofTokens g ts heof, ← ofTokens h ts heof]
  congr 2
  exact List.map_congr_left fun t ht => congrArg (Token.mk t.kind · t.text) (hts t ht)

/-- A property that all tokens have, or that none of them has, the errors that are found in them
have or do not have either. -/
theorem error_span_iff {p : Span → Prop} [DecidablePred p]
    (hp : ∀ a b, p (a.cover b) ↔ p a ∨ p b) {c : Prop} [Decidable c] {ts : List Token} {eof : Token}
    (heof : eof.kind = .eof) (hts : ∀ t ∈ ts ++ [eof], p t.span ↔ c) {inRun : Bool} {e : ParseError}
    (he : .error e ∈ Parse.topLevel file inRun (Form.ofTokens (ts ++ [eof]))) : p e.span ↔ c := by
  -- On the tokens the property is as good as one that does not depend on the span.
  let constant := mark (fun _ => c) fun _ _ => (or_self_iff).symm
  have hspans : ∀ t ∈ ts ++ [eof], (mark p hp).span t.span = constant.span t.span :=
    fun t ht => by simp only [mark, constant, hts t ht]
  have hagree := topLevel_congr file heof hspans inRun
  have herror := congrArg ParseError.span (Except.error.inj (List.map_inj_left.1 hagree _ he))
  by_cases hpe : p e.span <;> by_cases hc : c <;> simp_all [error, mark, constant]

end Relocation

end CalcLang
