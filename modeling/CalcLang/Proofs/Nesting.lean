import CalcLang.Proofs.Placement
import CalcLang.Proofs.Rereading
import CalcLang.Proofs.SourceText

/-!
# Positions nest and quote the source

A declaration that is read of a text consists of pieces: expressions, names and written types, and
the declaration itself. The parts of a piece stand inside it, and what is written side by side in it
is its `Piece.row`: its parts in the order of the text, where a chain is the row of its operands and
the type of some parameters is there once. The text at the position of a piece is what the piece
says (`Piece.Written`): a name, a numeral, or a list from a parenthesis to the one that closes it.

The tokens of a text are in order, and so is every row of pieces that are made of tokens side by
side (`Grammar.Lays`). From a list to the pieces between its parentheses this is one step
(`Grammar.Content.fits`), and declarations follow by induction on their derivations.
-/

namespace CalcLang

/-! ## Text at a span -/

/-- The excerpt is the text at a span. -/
def Span.Quotes (text : String) (s : Span) (excerpt : String) : Prop :=
  ∃ before behind, text = before ++ excerpt ++ behind ∧
    s = ⟨before.utf8ByteSize, before.utf8ByteSize + excerpt.utf8ByteSize⟩

/-- A decimal numeral of a number. -/
inductive Numeral : List Char → Int → Prop
  | unsigned {digits} : digits ≠ [] → (∀ d ∈ digits, d.isDigit) →
    Numeral digits (Nat.ofDigitChars 10 digits 0)
  | negative {digits} : digits ≠ [] → (∀ d ∈ digits, d.isDigit) →
    Numeral ('-' :: digits) (-(Nat.ofDigitChars 10 digits 0 : Int))

namespace Token

/-- Tokens whose parentheses match each other. -/
inductive Matched : List Token → Prop
  | nil : Matched []
  | single {t ts} : t.kind ≠ .leftParen → t.kind ≠ .rightParen → Matched ts → Matched (t :: ts)
  | list {t ts u us} : t.kind = .leftParen → Matched ts → u.kind = .rightParen → Matched us →
    Matched (t :: (ts ++ u :: us))

end Token

/-- The span starts at an opening parenthesis of the text and ends behind the one that closes it. -/
def Span.Brackets (text : String) (s : Span) : Prop :=
  ∃ us opening vs closing ws,
    Token.significant text = us ++ opening :: (vs ++ closing :: ws) ∧
    opening.kind = .leftParen ∧ Token.Matched vs ∧ closing.kind = .rightParen ∧
    s = ⟨opening.span.start, closing.span.stop⟩

/-! ## Pieces -/

/-- What has a position in a declaration, itself included. -/
inductive Piece
  | decl (d : Decl)
  | ident (x : Ident)
  | type (ty : TypeExpr)
  | expr (e : Expr)

/-- The operands of the chain at a position, in the order of the text. Other expressions are
operands themselves. -/
def Expr.spine (op : BinaryOp) (pos : Pos) : Expr → List Expr
  | .binary op' lhs rhs pos' =>
    if op' = op ∧ pos' = pos then lhs.spine op pos ++ [rhs] else [.binary op' lhs rhs pos']
  | e => [e]

namespace Piece

/-- The position of a piece. -/
def pos : Piece → Pos
  | decl d => d.pos
  | ident x => x.pos
  | type ty => ty.pos
  | expr e => e.pos

/-- A type that may be left out. -/
def types (ty : Option TypeExpr) : List Piece := ty.toList.map type

/-- The parts of a piece, without their own parts. -/
def parts : Piece → List Piece
  | decl d => ident d.name ::
    (d.params.flatMap (fun p => [ident p.name, type p.ty]) ++ [type d.ret, expr d.body])
  | ident _ | type _ | expr (.int ..) | expr (.bool ..) => []
  | expr (.name x) => [ident x]
  | expr (.binary _ lhs rhs _) => [expr lhs, expr rhs]
  | expr (.unary _ operand _) => [expr operand]
  | expr (.ifThen test ty yes _) => expr test :: (types ty ++ [expr yes])
  | expr (.ifThenElse test ty yes no _) => expr test :: (types ty ++ [expr yes, expr no])
  | expr (.declare x ty _) => [ident x, type ty]
  | expr (.define x ty init _) => ident x :: expr init :: types ty
  | expr (.assign x value _) => [ident x, expr value]
  | expr (.call x args _) => ident x :: args.map expr
  | expr (.block exprs _) => exprs.map expr

/-- What a piece has: itself, its parts, their parts and so on. -/
def Has : Piece → Piece → Prop := Relation.ReflTransGen fun p q => q ∈ p.parts

/-- What is written of parameters. The type of a group stands behind its last name. -/
def paramRow : List Param → List Piece
  | [] => []
  | p :: ps => ident p.name ::
    ((if ps.head?.map Param.ty = some p.ty then [] else [type p.ty]) ++ paramRow ps)

/-- What is written side by side in a piece. A chain is written as the row of its operands. -/
def row : Piece → List Piece
  | decl d => ident d.name :: (paramRow d.params ++ [type d.ret, expr d.body])
  | expr (.binary op lhs rhs pos) => (lhs.spine op pos ++ [rhs]).map expr
  | p => p.parts

/-- The text at the position of a piece is what the piece says. -/
def Written (text : String) : Piece → Prop
  | decl d => d.pos.span.Brackets text
  | ident x => x.pos.span.Quotes text x.name
  | type ty => ty.pos.span.Quotes text ty.ty.name
  | expr (.int value pos) =>
    ∃ numeral, pos.span.Quotes text numeral ∧ Numeral numeral.toList value.val
  | expr (.bool value pos) => pos.span.Quotes text (Value.bool value).text
  | expr (.name x) => x.pos.span.Quotes text x.name
  | expr e => e.pos.span.Brackets text

/-- A piece fits the text of a file. -/
structure Fits (file : FileId) (text : String) (p : Piece) : Prop where
  file : p.pos.file = file
  inside : ∀ q ∈ p.parts, q.pos.Inside p.pos
  inOrder : p.row.Pairwise fun q r => q.pos.span.stop ≤ r.pos.span.start
  written : p.Written text

/-- Everything that a piece has fits the text of a file. -/
def AllFit (file : FileId) (text : String) (p : Piece) : Prop := ∀ q, p.Has q → q.Fits file text

end Piece

/-! ## Rows -/

/-- Pieces between two offsets of a file, one behind the other. -/
def Laid (file : FileId) : Nat → List Piece → Nat → Prop
  | lo, [], hi => lo ≤ hi
  | lo, p :: ps, hi => ∃ mid, p.pos.Between file lo mid ∧ Laid file mid ps hi

namespace Laid

variable {file : FileId} {lo lo' mid hi : Nat} {ps qs : List Piece}

theorem le (h : Laid file lo ps hi) : lo ≤ hi := by
  induction ps generalizing lo with
  | nil => exact h
  | cons p ps ih =>
    obtain ⟨mid, hp, hps⟩ := h
    exact (hp.start.trans (hp.nonempty.le.trans hp.stop)).trans (ih hps)

theorem earlier (h : Laid file lo ps hi) (hlo : lo' ≤ lo) : Laid file lo' ps hi := by
  cases ps with
  | nil => exact hlo.trans h
  | cons p ps =>
    obtain ⟨mid, hp, hps⟩ := h
    exact ⟨mid, hp.widen hlo le_rfl, hps⟩

theorem append (hps : Laid file lo ps mid) (hqs : Laid file mid qs hi) :
    Laid file lo (ps ++ qs) hi := by
  induction ps generalizing lo with
  | nil => exact hqs.earlier hps
  | cons p ps ih =>
    obtain ⟨mid', hp, hps⟩ := hps
    exact ⟨mid', hp, ih hps⟩

theorem between (h : Laid file lo ps hi) : ∀ p ∈ ps, p.pos.Between file lo hi := by
  induction ps generalizing lo with
  | nil => exact nofun
  | cons p ps ih =>
    obtain ⟨mid, hp, hps⟩ := h
    have hmid := hp.start.trans (hp.nonempty.le.trans hp.stop)
    refine List.forall_mem_cons.2 ⟨hp.widen le_rfl hps.le, fun q hq => ?_⟩
    exact (ih hps q hq).widen hmid le_rfl

theorem pairwise (h : Laid file lo ps hi) :
    ps.Pairwise fun q r => q.pos.span.stop ≤ r.pos.span.start := by
  induction ps generalizing lo with
  | nil => exact .nil
  | cons p ps ih =>
    obtain ⟨mid, hp, hps⟩ := h
    exact .cons (fun q hq => hp.stop.trans (hps.between q hq).start) (ih hps)

end Laid

namespace Piece

/-- The parameters are part of their row. -/
theorem mem_paramRow {params : List Param} {p : Param} (hp : p ∈ params) :
    ident p.name ∈ paramRow params ∧ type p.ty ∈ paramRow params := by
  induction params generalizing p with
  | nil => cases hp
  | cons p' params ih =>
    rw [paramRow]
    rcases List.mem_cons.1 hp with rfl | hp
    · refine ⟨List.mem_cons_self, List.mem_cons_of_mem _ ?_⟩
      split
      · next heq =>
        -- The next parameter has the same type.
        obtain ⟨next, hnext, hty⟩ := Option.map_eq_some_iff.1 heq
        rw [← hty]
        exact (ih (List.mem_of_mem_head? hnext)).2
      · exact List.mem_cons_self
    · obtain ⟨hname, hty⟩ := ih hp
      exact ⟨List.mem_cons_of_mem _ (List.mem_append_right _ hname),
        List.mem_cons_of_mem _ (List.mem_append_right _ hty)⟩

/-- The row of a group: its names, and then the type. -/
theorem paramRow_group {names : List Ident} {ty : TypeExpr} {params : List Param}
    (hnames : names ≠ []) (hty : params.head?.map Param.ty ≠ some ty) :
    paramRow (names.map (Param.mk · ty) ++ params) =
      names.map ident ++ ([type ty] ++ paramRow params) := by
  induction names with
  | nil => exact absurd rfl hnames
  | cons x names ih =>
    cases names with
    | nil => simp only [List.map_cons, List.map_nil, List.cons_append, List.nil_append, paramRow,
        if_neg hty]
    | cons y names =>
      have hnext : ((y :: names).map (Param.mk · ty) ++ params).head?.map Param.ty = some ty := rfl
      rw [List.map_cons, List.cons_append, paramRow, ih (List.cons_ne_nil y names), if_pos hnext]
      rfl

variable {file : FileId} {text : String} {p : Piece}

/-- A piece fits, and so does all that its parts have. -/
theorem AllFit.intro (h : p.Fits file text) (hparts : ∀ q ∈ p.parts, q.AllFit file text) :
    p.AllFit file text := by
  intro q hq
  rcases Relation.ReflTransGen.cases_head hq with rfl | ⟨r, hr, hrq⟩
  · exact h
  · exact hparts r hr q hrq

/-- A piece without parts. -/
theorem AllFit.leaf (hfile : p.pos.file = file) (hparts : p.parts = []) (hrow : p.row = [])
    (hwritten : p.Written text) : p.AllFit file text := by
  refine .intro ⟨hfile, ?_, ?_, hwritten⟩ ?_
  · rw [hparts]
    exact nofun
  · rw [hrow]
    exact .nil
  · rw [hparts]
    exact nofun

end Piece

/-! ## Tokens -/

namespace Token

variable {text : String} {t : Token}

/-- The characters of a token stand at its span. -/
theorem quotes_of_mem_significant (h : t ∈ significant text) : t.span.Quotes text t.text :=
  exists_append_of_mem_scan (List.mem_filter.1 h).1

/-- Words and signs are written in one way. -/
theorem Lexeme.eq_spelling {kind : TokenKind} {cs : List Char} {spelling : String}
    (h : Lexeme kind cs) (hkind : kind.spelling? = some spelling) :
    String.ofList cs = spelling := by
  cases h with
  | regular h =>
    cases h with
    | fixed h =>
      rw [String.ofList_toList]
      exact Option.some.inj (h.symm.trans hkind)
    | number => cases hkind
    | malformed => cases hkind
    | name => cases hkind
    | comment => cases hkind
  | stray => cases hkind

theorem Lexeme.numeral {cs : List Char} (h : Lexeme .intLiteral cs) :
    Numeral cs (Grammar.numeral cs) := by
  cases h with
  | regular h =>
    cases h with
    | fixed h => cases h
    | @number sign d ds hsign hd hds =>
      have hdigits : ∀ e ∈ d :: ds, e.isDigit := List.forall_mem_cons.2 ⟨hd, hds⟩
      rcases hsign with rfl | rfl
      · have hvalue : Grammar.numeral (d :: ds) = Nat.ofDigitChars 10 (d :: ds) 0 := by
          unfold Grammar.numeral
          split
          · next hsign =>
            obtain ⟨rfl, -⟩ := List.cons.inj hsign
            exact absurd hd (by decide)
          · rfl
        rw [List.nil_append, hvalue]
        exact .unsigned (List.cons_ne_nil d ds) hdigits
      · exact .negative (List.cons_ne_nil d ds) hdigits

theorem quotes_spelling (h : t ∈ significant text) {spelling : String}
    (hkind : t.kind.spelling? = some spelling) : t.span.Quotes text spelling := by
  have htext := (lexeme_of_mem_significant h).eq_spelling hkind
  rw [String.ofList_toList] at htext
  exact htext ▸ quotes_of_mem_significant h

end Token

namespace Form

open Token

mutual

/-- The parentheses of a balanced form match. -/
theorem matched_flatten {us : List Token} (hus : Matched us) : ∀ {f : Form}, f.Balanced →
    Matched (f.flatten ++ us)
  | .atom _, ⟨hopen, hclose, _⟩ => .single hopen hclose hus
  | .list opening items closing, ⟨hopening, hitems, hclosing⟩ => by
    have hlist := Matched.list hopening (matched_flattenAll .nil hitems) hclosing hus
    rw [flatten, if_neg (by simp [hclosing])]
    simpa using hlist

theorem matched_flattenAll {us : List Token} (hus : Matched us) : ∀ {fs : List Form},
    AllBalanced fs → Matched (flattenAll fs ++ us)
  | [], _ => hus
  | f :: fs, ⟨hf, hfs⟩ => by
    rw [flattenAll, List.append_assoc]
    exact matched_flatten (matched_flattenAll hus hfs) hf

end

theorem matched_of_balanced {fs : List Form} (h : AllBalanced fs) : Matched (flattenAll fs) := by
  have hmatched := matched_flattenAll .nil h
  rwa [List.append_nil] at hmatched

end Form

/-! ## Derivations -/

namespace Grammar

open Token

variable {file : FileId} {text : String}

/-- The tokens, when they are in order, lay the pieces in a row. -/
def Lays (file : FileId) (ts : List Token) (ps : List Piece) : Prop :=
  ∀ lo hi, InOrder lo ts hi → Laid file lo ps hi

namespace Lays

variable {ts us : List Token} {ps qs : List Piece}

theorem nil : Lays file [] [] := fun _ _ h => h

/-- A token that no piece is made of. -/
theorem skip {t : Token} (h : Lays file ts ps) : Lays file (t :: ts) ps :=
  fun lo hi horder => h lo hi horder.tail

theorem append (hts : Lays file ts ps) (hus : Lays file us qs) :
    Lays file (ts ++ us) (ps ++ qs) := by
  intro lo hi horder
  obtain ⟨mid, horder, horder'⟩ := InOrder.append_iff.1 horder
  exact (hts lo mid horder).append (hus mid hi horder')

theorem token {t : Token} {p : Piece} (hpos : p.pos = ⟨file, t.span⟩) : Lays file [t] [p] := by
  rintro lo hi ⟨hlo, hlt, hhi⟩
  refine ⟨hi, ?_, le_rfl⟩
  rw [hpos]
  exact ⟨rfl, hlo, hlt, hhi⟩

theorem names (names : List (Terminal .ident)) :
    Lays file (names.map Terminal.token) ((names.map (Terminal.ident file)).map .ident) := by
  induction names with
  | nil => exact nil
  | cons name names ih => exact (token rfl).append ih

end Lays

section

variable (file : FileId)

theorem Terminal.lays (name : Terminal .ident) :
    Lays file [name.token] [.ident (name.ident file)] := .token rfl

theorem names_lay : ∀ names : List (Terminal .ident),
    Lays file (names.map Terminal.token) ((names.map (Terminal.ident file)).map .ident)
  | [] => .nil
  | name :: names => (name.lays file).append (names_lay names)

theorem TypeName.lays (type : TypeName) : Lays file [type.token] [.type (type.tree file)] := by
  cases type <;> exact .token rfl

theorem types_lay (type : Option TypeName) :
    Lays file (typeTokens type) (Piece.types (type.map (TypeName.tree file))) := by
  cases type with
  | none => exact .nil
  | some type => exact type.lays file

theorem Phrase.lays (p : Phrase) : Lays file p.tokens [.expr (p.tree file)] :=
  fun _ hi h => ⟨hi, (p.placed h).pos_near.between, le_rfl⟩

theorem Phrase.all_lay (ps : List Phrase) :
    Lays file (Phrase.allTokens ps) ((Phrase.trees file ps).map .expr) := by
  induction ps with
  | nil => exact .nil
  | cons p ps ih => exact (p.lays file).append ih

end

/-! ### Lists -/

/-- Between two parentheses of the text there is room from one offset to another. -/
structure Bracketed (file : FileId) (text : String) (pos : Pos) (lo hi : Nat) : Prop where
  file : pos.file = file
  brackets : pos.span.Brackets text
  opening : pos.span.start < lo
  closing : hi ≤ pos.span.stop

namespace Bracketed

variable {pos q : Pos} {lo lo' hi hi' : Nat}

theorem inside (h : Bracketed file text pos lo hi) (hq : q.Between file lo hi) : q.Inside pos :=
  ⟨hq.file.trans h.file.symm, h.opening.le.trans hq.start, hq.stop.trans h.closing⟩

/-- The place between two matching parentheses of a text. -/
theorem of_infix {opening : Terminal .leftParen} {closing : Terminal .rightParen} {ts : List Token}
    (h : opening.token :: (ts ++ [closing.token]) <:+: significant text) (hts : Matched ts) :
    ∃ lo hi, InOrder lo ts hi ∧
      Bracketed file text (place file opening.token closing.token) lo hi := by
  obtain ⟨last, horder⟩ := inOrder_significant text
  have horder := horder.of_sublist h.sublist
  have hplace := horder.place_eq file
  obtain ⟨-, hopening, horder⟩ := horder
  obtain ⟨mid, horder, hle, hclosing, -⟩ := InOrder.append_iff.1 horder
  obtain ⟨us, ws, htext⟩ := h
  have hbrackets : (place file opening.token closing.token).span.Brackets text := by
    refine ⟨us, opening.token, ts, closing.token, ws, ?_, opening.kind_eq, hts, closing.kind_eq, ?_⟩
    · rw [← htext]
      simp
    · rw [hplace]
  refine ⟨opening.token.span.stop, mid, horder, rfl, hbrackets, ?_, ?_⟩
  · rw [hplace]
    exact hopening
  · rw [hplace]
    exact hle.trans hclosing.le

/-- A list whose parts are laid in a row between its parentheses. -/
theorem fits {p : Piece} (h : Bracketed file text p.pos lo hi) (hrow : Laid file lo p.row hi)
    (hparts : ∀ q ∈ p.parts, q ∈ p.row ∨ q.pos.Inside p.pos)
    (hwritten : p.pos.span.Brackets text → p.Written text) : p.Fits file text := by
  refine ⟨h.file, fun q hq => ?_, hrow.pairwise, hwritten h.brackets⟩
  rcases hparts q hq with hq | hq
  · exact h.inside (hrow.between q hq)
  · exact hq

/-- A list that is no chain is written as its parts. -/
theorem allFit {p : Piece} (h : Bracketed file text p.pos lo hi) (hrow : p.row = p.parts)
    (hlaid : Laid file lo p.parts hi) (hwritten : p.pos.span.Brackets text → p.Written text)
    (hparts : ∀ q ∈ p.parts, q.AllFit file text) : p.AllFit file text := by
  refine .intro (h.fits (hrow ▸ hlaid) (fun q hq => .inl ?_) hwritten) hparts
  rw [hrow]
  exact hq

end Bracketed

/-! ### Chains -/

theorem spine_of_pos_ne {e : Expr} {pos : Pos} (h : e.pos ≠ pos) (op : BinaryOp) :
    e.spine op pos = [e] := by
  cases e with
  | binary => exact if_neg fun heq => h heq.2
  | _ => rfl

/-- What starts a chain, and operands behind it. -/
theorem fits_chain {op : BinaryOp} {pos : Pos} {first : Expr} {rest : List Expr} {lo mid hi : Nat}
    (h : Bracketed file text pos lo hi) (hfirst : (Piece.expr first).AllFit file text)
    (hinside : first.pos.Inside pos) (hspine : Laid file lo ((first.spine op pos).map .expr) mid)
    (hrest : Laid file mid (rest.map .expr) hi)
    (hall : ∀ e ∈ rest, (Piece.expr e).AllFit file text) :
    (Piece.expr (rest.foldl (fun lhs rhs => .binary op lhs rhs pos) first)).AllFit file text := by
  induction rest generalizing first mid with
  | nil => exact hfirst
  | cons e es ih =>
    obtain ⟨mid', he, hes⟩ := hrest
    obtain ⟨hefits, hall⟩ := List.forall_mem_cons.1 hall
    have hrow : Laid file lo ((first.spine op pos ++ [e]).map .expr) mid' := by
      rw [List.map_append]
      exact hspine.append ⟨mid', he, le_rfl⟩
    have h' : Bracketed file text pos lo mid' :=
      ⟨h.file, h.brackets, h.opening, hes.le.trans h.closing⟩
    have hfits : (Piece.expr (.binary op first e pos)).Fits file text := by
      refine h'.fits hrow ?_ id
      refine List.forall_mem_cons.2 ⟨.inr hinside, List.forall_mem_singleton.2 (.inl ?_)⟩
      exact List.mem_map_of_mem (List.mem_append_right _ (List.mem_singleton_self e))
    have hchain : (Piece.expr (.binary op first e pos)).AllFit file text :=
      .intro hfits (List.forall_mem_cons.2 ⟨hfirst, List.forall_mem_singleton.2 hefits⟩)
    refine ih hchain ⟨rfl, le_rfl, le_rfl⟩ ?_ hes hall
    rw [Expr.spine, if_pos ⟨rfl, rfl⟩]
    exact hrow

/-! ### Leaves -/

theorem Terminal.fits (name : Terminal .ident) (h : name.token ∈ significant text) :
    (Piece.ident (name.ident file)).AllFit file text :=
  .leaf rfl rfl rfl (quotes_of_mem_significant h)

theorem TypeName.fits (type : TypeName) (h : type.token ∈ significant text) :
    (Piece.type (type.tree file)).AllFit file text := by
  cases type with
  | int word =>
    have hkind := congrArg TokenKind.spelling? word.kind_eq
    exact .leaf rfl rfl rfl (quotes_spelling h hkind)
  | bool word =>
    have hkind := congrArg TokenKind.spelling? word.kind_eq
    exact .leaf rfl rfl rfl (quotes_spelling h hkind)

theorem types_fit {type : Option TypeName} (h : typeTokens type ⊆ significant text) :
    ∀ q ∈ Piece.types (type.map (TypeName.tree file)), q.AllFit file text := by
  cases type with
  | none => exact nofun
  | some type =>
    exact List.forall_mem_singleton.2 (type.fits (h (List.mem_singleton_self type.token)))

theorem infix_cons {t : Token} {ts us : List Token} (h : t :: ts <:+: us) : t ∈ us ∧ ts <:+: us :=
  ⟨h.subset List.mem_cons_self, (List.suffix_cons t ts).isInfix.trans h⟩

theorem infix_append {ts ts' us : List Token} (h : ts ++ ts' <:+: us) : ts <:+: us ∧ ts' <:+: us :=
  ⟨(List.prefix_append ts ts').isInfix.trans h, (List.suffix_append ts ts').isInfix.trans h⟩

/-! ### Expressions -/

theorem Content.matched (c : Content) : Matched c.tokens := by
  rw [← c.flattenAll_forms]
  exact Form.matched_of_balanced c.balanced_forms

mutual

/-- **What is derived of tokens side by side fits their text.** -/
theorem Phrase.fits : ∀ p : Phrase, p.tokens <:+: significant text →
    (Piece.expr (p.tree file)).AllFit file text
  | .int literal value hvalue, h => by
    have hmem := (infix_cons h).1
    have hlexeme := lexeme_of_mem_significant hmem
    rw [literal.kind_eq] at hlexeme
    exact .leaf rfl rfl rfl ⟨_, quotes_of_mem_significant hmem, hvalue ▸ hlexeme.numeral⟩
  | .truth word, h =>
    .leaf rfl rfl rfl (quotes_spelling (infix_cons h).1 (congrArg TokenKind.spelling? word.kind_eq))
  | .falsehood word, h =>
    .leaf rfl rfl rfl (quotes_spelling (infix_cons h).1 (congrArg TokenKind.spelling? word.kind_eq))
  | .name name, h => by
    have hmem := (infix_cons h).1
    refine .intro ⟨rfl, ?_, List.pairwise_singleton .., quotes_of_mem_significant hmem⟩ ?_
    · exact List.forall_mem_singleton.2 ⟨rfl, le_rfl, le_rfl⟩
    · exact List.forall_mem_singleton.2 (name.fits hmem)
  | .list opening content closing, h => by
    obtain ⟨lo, hi, horder, hbracketed⟩ := Bracketed.of_infix h content.matched
    exact content.fits hbracketed horder (infix_append (infix_cons h).2).1

theorem Content.fits {pos : Pos} {lo hi : Nat} (hpos : Bracketed file text pos lo hi) :
    ∀ c : Content, InOrder lo c.tokens hi → c.tokens <:+: significant text →
      (Piece.expr (c.tree file pos)).AllFit file text
  | .unary op _ operand, horder, h => by
    have hrow : Laid file lo [.expr (operand.tree file)] hi := (operand.lays file).skip lo hi horder
    have hoperand := operand.fits (infix_cons h).2
    exact Bracketed.allFit hpos rfl hrow id (List.forall_mem_singleton.2 hoperand)
  | .chain op operator first second rest, horder, h => by
    obtain ⟨-, h⟩ := infix_cons h
    obtain ⟨hfirst, h⟩ := infix_append h
    obtain ⟨hsecond, hrest⟩ := infix_append h
    obtain ⟨mid, hspine, horder⟩ := InOrder.append_iff.1 horder.tail
    obtain ⟨hi', hbetween, hle⟩ := first.lays file lo mid hspine
    -- The first operand stands behind the parenthesis, so it is no part of the chain itself.
    have hne : (first.tree file).pos ≠ pos := by
      rintro heq
      have hstart := hbetween.start
      have hopening := hpos.opening
      rw [Piece.pos, heq] at hstart
      omega
    have hinside := hpos.inside ((hbetween.widen le_rfl hle).widen le_rfl horder.le)
    have hlaid := ((second.lays file).append (Phrase.all_lay file rest)) mid hi horder
    refine fits_chain hpos (first.fits hfirst) hinside ?_ hlaid ?_
    · rw [spine_of_pos_ne hne]
      exact ⟨hi', hbetween, hle⟩
    · exact List.forall_mem_cons.2 ⟨second.fits hsecond, Phrase.all_fit rest hrest⟩
  | .ifThen _ test type yes, horder, h => by
    obtain ⟨-, h⟩ := infix_cons h
    obtain ⟨htest, h⟩ := infix_append h
    obtain ⟨htype, hyes⟩ := infix_append h
    have hlays := (test.lays file).append ((types_lay file type).append (yes.lays file))
    refine Bracketed.allFit hpos rfl (hlays.skip lo hi horder) id ?_
    refine List.forall_mem_cons.2 ⟨test.fits htest, List.forall_mem_append.2 ⟨?_, ?_⟩⟩
    · exact types_fit htype.subset
    · exact List.forall_mem_singleton.2 (yes.fits hyes)
  | .ifThenElse _ test type yes no, horder, h => by
    obtain ⟨-, h⟩ := infix_cons h
    obtain ⟨htest, h⟩ := infix_append h
    obtain ⟨htype, h⟩ := infix_append h
    obtain ⟨hyes, hno⟩ := infix_append h
    have hlays := (test.lays file).append
      ((types_lay file type).append ((yes.lays file).append (no.lays file)))
    refine Bracketed.allFit hpos rfl (hlays.skip lo hi horder) id ?_
    refine List.forall_mem_cons.2 ⟨test.fits htest, List.forall_mem_append.2 ⟨?_, ?_⟩⟩
    · exact types_fit htype.subset
    · exact List.forall_mem_cons.2 ⟨yes.fits hyes, List.forall_mem_singleton.2 (no.fits hno)⟩
  | .declare _ name type, horder, h => by
    obtain ⟨-, h⟩ := infix_cons h
    obtain ⟨hname, h⟩ := infix_cons h
    have hlays : Lays file [name.token, type.token]
        [.ident (name.ident file), .type (type.tree file)] :=
      (name.lays file).append (type.lays file)
    refine Bracketed.allFit hpos rfl (hlays.skip lo hi horder) id ?_
    exact List.forall_mem_cons.2
      ⟨name.fits hname, List.forall_mem_singleton.2 (type.fits (infix_cons h).1)⟩
  | .define _ _ _ name init closing type, horder, h => by
    obtain ⟨-, h⟩ := infix_cons h
    obtain ⟨-, h⟩ := infix_cons h
    obtain ⟨-, h⟩ := infix_cons h
    obtain ⟨hname, h⟩ := infix_cons h
    obtain ⟨hinit, h⟩ := infix_append h
    have hlays := (name.lays file).append
      ((init.lays file).append (Lays.skip (t := closing.token) (types_lay file type)))
    refine Bracketed.allFit hpos rfl (hlays.skip.skip.skip lo hi horder) id ?_
    exact List.forall_mem_cons.2 ⟨name.fits hname,
      List.forall_mem_cons.2 ⟨init.fits hinit, types_fit (infix_cons h).2.subset⟩⟩
  | .assign _ name value, horder, h => by
    obtain ⟨-, h⟩ := infix_cons h
    obtain ⟨hname, hvalue⟩ := infix_cons h
    have hlays := (name.lays file).append (value.lays file)
    refine Bracketed.allFit hpos rfl (hlays.skip lo hi horder) id ?_
    exact List.forall_mem_cons.2
      ⟨name.fits hname, List.forall_mem_singleton.2 (value.fits hvalue)⟩
  | .call name args, horder, h => by
    obtain ⟨hname, hargs⟩ := infix_cons h
    have hlays := (name.lays file).append (Phrase.all_lay file args)
    refine Bracketed.allFit hpos rfl (hlays lo hi horder) id ?_
    exact List.forall_mem_cons.2
      ⟨name.fits hname, List.forall_mem_map.2 (Phrase.all_fit args hargs)⟩
  | .block opening first closing rest, horder, h => by
    have hsplit : (Content.block opening first closing rest).tokens =
        (opening.token :: (first.tokens ++ [closing.token])) ++ Phrase.allTokens rest := by
      simp [Content.tokens]
    rw [hsplit] at horder h
    obtain ⟨hlist, hrest⟩ := infix_append h
    have hlays := ((Phrase.list opening first closing).lays file).append (Phrase.all_lay file rest)
    obtain ⟨lo', hi', horder', hbracketed⟩ := Bracketed.of_infix hlist first.matched
    have hfirst := first.fits hbracketed horder' (infix_append (infix_cons hlist).2).1
    refine Bracketed.allFit hpos rfl (hlays lo hi horder) id ?_
    exact List.forall_mem_cons.2 ⟨hfirst, List.forall_mem_map.2 (Phrase.all_fit rest hrest)⟩

theorem Phrase.all_fit : ∀ ps : List Phrase, Phrase.allTokens ps <:+: significant text →
    ∀ e ∈ Phrase.trees file ps, (Piece.expr e).AllFit file text
  | [], _ => nofun
  | p :: ps, h => by
    obtain ⟨hp, hps⟩ := infix_append h
    exact List.forall_mem_cons.2 ⟨p.fits hp, Phrase.all_fit ps hps⟩

end

/-! ### Declarations -/

/-- Groups of parameters are laid in a row, each with one type. -/
theorem laid_groups {gs : List Group} {lo hi : Nat} (h : InOrder lo (gs.flatMap Group.tokens) hi) :
    Laid file lo (Piece.paramRow (gs.flatMap (Group.tree file))) hi := by
  induction gs generalizing lo with
  | nil => exact h
  | cons g gs ih =>
    rw [List.flatMap_cons] at h ⊢
    obtain ⟨mid, hg, hgs⟩ := InOrder.append_iff.1 h
    have hrest := ih hgs
    have hlays := (names_lay file g.names).append (g.type.lays file)
    have hgroup := hlays lo mid hg
    -- The type of the next group stands behind this one.
    have hty : (gs.flatMap (Group.tree file)).head?.map Param.ty ≠ some (g.type.tree file) := by
      intro heq
      obtain ⟨p, hp, hpty⟩ := Option.map_eq_some_iff.1 heq
      have hmem := List.mem_of_mem_head? (Option.mem_def.2 hp)
      have hlater := hrest.between _ (Piece.mem_paramRow hmem).2
      have hhere := hgroup.between _ (List.mem_append_right _ (List.mem_singleton_self _))
      rw [hpty] at hlater
      have := hlater.start
      have := hhere.nonempty
      have := hhere.stop
      omega
    have htree : g.tree file =
        (g.names.map (Terminal.ident file)).map (Param.mk · (g.type.tree file)) := by
      rw [Group.tree, List.map_map]
      rfl
    rw [htree, Piece.paramRow_group (by simp [Group.names]) hty, ← List.append_assoc]
    exact hgroup.append hrest

theorem params_lay (file : FileId) : ∀ ps : Option Params,
    Lays file (paramsTokens ps) (Piece.paramRow (paramsTree file ps))
  | none => .nil
  | some ps => by
    refine Lays.skip fun lo hi h => ?_
    exact laid_groups (h.of_sublist (List.sublist_append_left ..))

theorem params_fit {ps : Option Params} (h : paramsTokens ps ⊆ significant text) :
    ∀ p ∈ paramsTree file ps, (Piece.ident p.name).AllFit file text ∧
      (Piece.type p.ty).AllFit file text := by
  cases ps with
  | none => exact nofun
  | some ps =>
    intro p hp
    obtain ⟨g, hg, hp⟩ := List.mem_flatMap.1 hp
    obtain ⟨name, hname, rfl⟩ := List.mem_map.1 hp
    have hgroup : g.tokens ⊆ significant text := by
      intro t ht
      exact h (List.mem_cons_of_mem _ (List.mem_append_left _ (List.mem_flatMap_of_mem hg ht)))
    refine ⟨name.fits (hgroup ?_), g.type.fits (hgroup ?_)⟩
    · exact List.mem_append_left _ (List.mem_map_of_mem hname)
    · exact List.mem_append_right _ (List.mem_singleton_self _)

theorem Definition.fits (D : Definition) (h : D.tokens <:+: significant text) :
    (Piece.decl (D.tree file)).AllFit file text := by
  let ts := D.word.token :: D.name.token ::
    (paramsTokens D.params ++ ([D.type.token] ++ D.body.tokens))
  have htokens : D.tokens = D.opening.token :: (ts ++ [D.closing.token]) := by
    simp [Definition.tokens, ts]
  have hmatched : Matched ts := by
    have hitems : Form.flattenAll D.items = ts := by
      have hform := D.flatten_form
      rw [Definition.form, Terminal.flatten_list, htokens] at hform
      exact List.append_cancel_right (List.cons.inj hform).2
    rw [← hitems]
    exact Form.matched_of_balanced D.balanced_form.2.1
  rw [htokens] at h
  obtain ⟨lo, hi, horder, hbracketed⟩ := Bracketed.of_infix h hmatched
  obtain ⟨-, h⟩ := infix_cons (infix_append (infix_cons h).2).1
  obtain ⟨hname, h⟩ := infix_cons h
  obtain ⟨hparams, h⟩ := infix_append h
  obtain ⟨htype, hbody⟩ := infix_append h
  have hlays := (D.name.lays file).append
    ((params_lay file D.params).append ((D.type.lays file).append (D.body.lays file)))
  have hrow : Laid file lo (Piece.decl (D.tree file)).row hi := hlays.skip lo hi horder
  have hparams : ∀ p ∈ paramsTree file D.params, (Piece.ident p.name).AllFit file text ∧
      (Piece.type p.ty).AllFit file text := params_fit hparams.subset
  refine .intro (hbracketed.fits hrow ?_ id) ?_
  · refine List.forall_mem_cons.2 ⟨.inl List.mem_cons_self, List.forall_mem_append.2 ⟨?_, ?_⟩⟩
    · intro q hq
      obtain ⟨p, hp, hq⟩ := List.mem_flatMap.1 hq
      obtain ⟨hname, hty⟩ := Piece.mem_paramRow hp
      refine .inl (List.mem_cons_of_mem _ (List.mem_append_left _ ?_))
      rcases List.mem_pair.1 hq with rfl | rfl
      · exact hname
      · exact hty
    · exact fun q hq => .inl (List.mem_cons_of_mem _ (List.mem_append_right _ hq))
  · refine List.forall_mem_cons.2 ⟨D.name.fits hname, List.forall_mem_append.2 ⟨?_, ?_⟩⟩
    · intro q hq
      obtain ⟨p, hp, hq⟩ := List.mem_flatMap.1 hq
      rcases List.mem_pair.1 hq with rfl | rfl
      · exact (hparams p hp).1
      · exact (hparams p hp).2
    · refine List.forall_mem_cons.2 ⟨D.type.fits (infix_cons htype).1, ?_⟩
      exact List.forall_mem_singleton.2 (D.body.fits hbody)

end Grammar

namespace Parse

/-- **Positions nest and quote the source.** In every declaration that is read of a text, the parts
of a part stand inside it, in the order of the text and apart from each other. A name, a literal or
a type is the text at its position, a list reaches from a parenthesis to the one that closes it, and
all positions are in the given file. -/
theorem ofText_positions (file : FileId) (text : String) :
    ∀ d ∈ (ofText file text).decls, ∀ p, (Piece.decl d).Has p → p.Fits file text := by
  intro d hd
  obtain ⟨D, rfl, htokens⟩ := exists_definition_of_mem_decls hd
  exact D.fits htokens

/-- The operands of a chain in the fourth file of a map, one of them a number below zero. -/
theorem ofText_positions_chain :
    let text := "(decl f (a b int) int (- a -07 b))"
    ∃ d ∈ (ofText ⟨3⟩ text).decls, (Piece.expr d.body).Fits ⟨3⟩ text ∧
      (Piece.expr d.body).row.map (fun q => q.pos.span) = [⟨25, 26⟩, ⟨27, 30⟩, ⟨31, 32⟩] := by
  intro text
  obtain ⟨d, hd⟩ : ∃ d, (ofText ⟨3⟩ text).decls.head? = some d :=
    Option.isSome_iff_exists.1 (by decide +kernel)
  have hmem : d ∈ (ofText ⟨3⟩ text).decls := List.mem_of_mem_head? (Option.mem_def.2 hd)
  have hbody : (Piece.decl d).Has (.expr d.body) := .single (by simp [Piece.parts])
  have hrow : ((ofText ⟨3⟩ text).decls.head?.map fun d =>
      (Piece.expr d.body).row.map fun q => q.pos.span) =
        some [⟨25, 26⟩, ⟨27, 30⟩, ⟨31, 32⟩] := by
    decide +kernel
  rw [hd] at hrow
  exact ⟨d, hmem, ofText_positions ⟨3⟩ text d hmem (.expr d.body) hbody, Option.some.inj hrow⟩

end Parse

end CalcLang
