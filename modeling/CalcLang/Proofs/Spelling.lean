import CalcLang.Proofs.Explicit
import CalcLang.Proofs.Grammar
import CalcLang.Proofs.Scanning
import CalcLang.Proofs.TagSeries

/-!
# Spellings of packages

A `Writing` is a text as it is written in listings: words, and lists between parentheses with a
blank between two elements. Such a text is divided into its words (`Writing.significant_join`), as
none of them goes on over a blank or a parenthesis (`Token.Lexeme.longest`). The listing of a node
is the writing of the expression that the node stands for (`nodeText_eq`).
-/

namespace CalcLang

namespace Token

/-- The kind and the characters of a token. -/
def spelled (t : Token) : TokenKind × String := (t.kind, t.text)

/-- The characters are those of the words, with blanks and comments between them. -/
inductive Writes : List Char → List (TokenKind × String) → Prop
  | nil : Writes [] []
  | blank {c cs words} : Text.isBlank c → Writes cs words → Writes (c :: cs) words
  | comment {lexeme rest words} : Longest .comment lexeme rest → Writes rest words →
    Writes (lexeme ++ rest) words
  | word {kind lexeme rest words} : Longest kind lexeme rest → kind ≠ .comment →
    Writes rest words → Writes (lexeme ++ rest) ((kind, String.ofList lexeme) :: words)

/-- What has been written as words is divided into these words. -/
theorem Writes.scanFrom {cs : List Char} {words : List (TokenKind × String)} (h : Writes cs words)
    (offset : Nat) :
    ((scanFrom offset cs).filter fun t => t.kind ≠ .comment ∧ t.kind ≠ .eof).map spelled =
      words := by
  induction h generalizing offset with
  | nil =>
    rw [Token.scanFrom]
    rfl
  | blank hblank _ ih => rw [Token.scanFrom, if_pos hblank, ih]
  | comment hlongest _ ih =>
    obtain ⟨c, cs, rfl, hblank⟩ := hlongest.lexeme.exists_cons
    rw [List.cons_append, Token.scanFrom, if_neg hblank, hlongest.munch_eq]
    dsimp only
    rw [List.filter_cons_of_neg (by simp), ih]
  | @word kind lexeme rest words hlongest hcomment _ ih =>
    obtain ⟨c, cs, rfl, hblank⟩ := hlongest.lexeme.exists_cons
    have heof := munch_kind_ne c (cs ++ rest)
    rw [hlongest.munch_eq] at heof
    rw [List.cons_append, Token.scanFrom, if_neg hblank, hlongest.munch_eq]
    dsimp only
    rw [List.filter_cons_of_pos (by simp_all), List.map_cons, ih]
    rfl

/-! ## Ends of words -/

/-- A character that no word goes on with. -/
def isStop (c : Char) : Bool := Text.isBlank c || c == '(' || c == ')' || c == ';'

/-- The characters begin with one that no word goes on with, if there are any. -/
def Stops (rest : List Char) : Prop := ∀ c ∈ rest.head?, isStop c

theorem not_isStop_of_isNameChar {c : Char} (h : isNameChar c) : ¬ isStop c := by
  have hblank := not_isBlank_of_isNameChar h
  have hc := toNat_of_isNameChar h
  simp only [isStop, Bool.or_eq_true, beq_iff_eq, not_or]
  refine ⟨⟨⟨hblank, ?_⟩, ?_⟩, ?_⟩
  · rintro rfl
    exact absurd hc.1 (by decide)
  · rintro rfl
    exact absurd hc.1 (by decide)
  · rintro rfl
    exact absurd h (by decide)

theorem not_isStop_of_spelling? {kind : TokenKind} {spelling : String}
    (h : kind.spelling? = some spelling) : ∀ d ∈ spelling.toList.tail, ¬ isStop d := by
  have htail : spelling.toList.tail.all fun d => !isStop d := by
    cases kind <;> cases h <;> decide
  simpa using htail

theorem Class.not_isStop {kind : TokenKind} {c : Char} {cs : List Char} (h : Class kind (c :: cs))
    (hkind : kind ≠ .comment) : ∀ d ∈ cs, ¬ isStop d := by
  have hdigits {ds : List Char} (hds : ∀ d ∈ ds, d.isDigit) : ∀ d ∈ ds, ¬ isStop d :=
    fun d hd => not_isStop_of_isNameChar (isNameChar_of_isDigit (hds d hd))
  generalize hlexeme : c :: cs = lexeme at h
  cases h with
  | fixed h =>
    have htail := not_isStop_of_spelling? h
    rw [← hlexeme] at htail
    exact htail
  | number hsign hd hds =>
    rcases hsign with rfl | rfl <;> cases hlexeme
    · exact hdigits hds
    · exact hdigits (List.forall_mem_cons.2 ⟨hd, hds⟩)
  | malformed hsign hd hds =>
    have hnames := fun d hd => not_isStop_of_isNameChar (hds d hd)
    rcases hsign with rfl | rfl <;> cases hlexeme
    · exact hnames
    · exact List.forall_mem_cons.2 ⟨not_isStop_of_isNameChar (isNameChar_of_isDigit hd), hnames⟩
  | name _ hds =>
    cases hlexeme
    exact fun d hd => not_isStop_of_isNameChar (hds d hd)
  | comment => exact absurd rfl hkind

theorem Lexeme.not_isStop {kind : TokenKind} {c : Char} {cs : List Char}
    (h : Lexeme kind (c :: cs)) (hkind : kind ≠ .comment) : ∀ d ∈ cs, ¬ isStop d := by
  generalize hlexeme : c :: cs = lexeme at h
  cases h with
  | regular h =>
    subst hlexeme
    exact h.not_isStop hkind
  | stray =>
    cases hlexeme
    exact nofun

/-- A comment is known by its first character. -/
theorem Lexeme.eq_comment_iff {kind : TokenKind} {c : Char} {cs : List Char}
    (h : Lexeme kind (c :: cs)) : kind = .comment ↔ c = ';' := by
  constructor
  · rintro rfl
    generalize hlexeme : c :: cs = lexeme at h
    cases h with
    | regular h =>
      cases h with
      | fixed h => cases h
      | comment => exact (List.cons.inj hlexeme).1
  · rintro rfl
    exact (congrArg Munch.kind h.munch_eq).symm

/-- **A word ends at a blank, a parenthesis or a comment.** -/
theorem Lexeme.longest {kind : TokenKind} {lexeme rest : List Char} (h : Lexeme kind lexeme)
    (hkind : kind ≠ .comment) (hrest : Stops rest) : Longest kind lexeme rest := by
  refine ⟨h, fun {kind' ds} hds hprefix => Nat.not_lt.1 fun hlt => ?_⟩
  obtain ⟨more, rfl⟩ :=
    List.prefix_of_prefix_length_le (List.prefix_append lexeme rest) hprefix hlt.le
  obtain ⟨c, cs, rfl, -⟩ := h.exists_cons
  -- A longer token has the next character after its first, and only comments have such ones there.
  rw [List.prefix_append_right_inj] at hprefix
  cases more with
  | nil => simp at hlt
  | cons d more =>
    obtain ⟨rest, rfl⟩ := hprefix
    have hkind' : kind' ≠ .comment := fun h' => hkind (h.eq_comment_iff.2 (hds.eq_comment_iff.1 h'))
    exact hds.not_isStop hkind' d (by simp) (hrest d (by simp))

end Token

/-! ## Writings -/

/-- What is written: a word, or a list between parentheses. -/
inductive Writing
  | word (kind : TokenKind) (text : String)
  | list (parts : List Writing)

namespace Writing

open Token

mutual

/-- The text of a writing. -/
def text : Writing → String
  | word _ text => text
  | list parts => "(" ++ " ".intercalate (texts parts) ++ ")"

/-- The texts of writings. -/
def texts : List Writing → List String
  | [] => []
  | x :: xs => x.text :: texts xs

end

mutual

/-- The words of a writing. -/
def words : Writing → List (TokenKind × String)
  | word kind text => [(kind, text)]
  | list parts => (.leftParen, "(") :: (allWords parts ++ [(.rightParen, ")")])

/-- The words of writings. -/
def allWords : List Writing → List (TokenKind × String)
  | [] => []
  | x :: xs => x.words ++ allWords xs

end

mutual

/-- All words are tokens of their kinds. -/
def Lexical : Writing → Prop
  | word kind text => Lexeme kind text.toList ∧ kind ≠ .comment
  | list parts => AllLexical parts

/-- All words of writings are tokens of their kinds. -/
def AllLexical : List Writing → Prop
  | [] => True
  | x :: xs => x.Lexical ∧ AllLexical xs

end

theorem writes_opening {rest : List Char} {more : List (TokenKind × String)}
    (h : Writes rest more) : Writes ('(' :: rest) ((.leftParen, "(") :: more) := by
  have hlongest : Longest .leftParen ['('] rest := longest_munch (c := '(') (by decide) rest
  exact .word hlongest (by decide) h

theorem writes_closing {rest : List Char} {more : List (TokenKind × String)}
    (h : Writes rest more) : Writes (')' :: rest) ((.rightParen, ")") :: more) := by
  have hlongest : Longest .rightParen [')'] rest := longest_munch (c := ')') (by decide) rest
  exact .word hlongest (by decide) h

theorem stops_closing (rest : List Char) : Stops (')' :: rest) := by
  rintro c ⟨⟩
  rfl

theorem stops_blank {rest : List Char} : Stops (' ' :: rest) := by
  rintro c ⟨⟩
  decide

mutual

/-- A writing is written as its words. -/
theorem writes {rest : List Char} {more : List (TokenKind × String)} (hstops : Stops rest)
    (hrest : Writes rest more) : ∀ {x : Writing}, x.Lexical →
      Writes (x.text.toList ++ rest) (x.words ++ more)
  | .word kind text, ⟨hlexeme, hkind⟩ => by
    have hword := Writes.word (hlexeme.longest hkind hstops) hkind hrest
    rwa [String.ofList_toList] at hword
  | .list parts, h => by
    have hclosing := writes_closing hrest
    have hparts := writesAll (stops_closing rest) hclosing h
    simp only [text, words, String.toList_append, List.append_assoc]
    rw [List.cons_append, List.append_assoc]
    exact writes_opening hparts

theorem writesAll {rest : List Char} {more : List (TokenKind × String)} (hstops : Stops rest)
    (hrest : Writes rest more) : ∀ {xs : List Writing}, AllLexical xs →
      Writes ((" ".intercalate (texts xs)).toList ++ rest) (allWords xs ++ more)
  | [], _ => hrest
  | [x], ⟨hx, _⟩ => by
    rw [texts, texts, String.intercalate_singleton, allWords, allWords, List.append_nil]
    exact writes hstops hrest hx
  | x :: y :: xs, ⟨hx, hxs⟩ => by
    have hxs := Writes.blank (c := ' ') (by decide) (writesAll hstops hrest hxs)
    have hx := writes stops_blank hxs hx
    rw [texts, texts, String.intercalate_cons_cons, String.toList_append, String.toList_append,
      List.append_assoc, List.append_assoc, allWords, List.append_assoc]
    exact hx

end

/-- The text of a list begins with a character that no word goes on with. -/
theorem stops_list (parts : List Writing) (rest : List Char) :
    Stops ((list parts).text.toList ++ rest) := by
  rw [text, String.toList_append, String.toList_append, List.append_assoc, List.append_assoc]
  rintro c ⟨⟩
  decide

/-- **Lists one after the other are divided into their words.** -/
theorem significant_join {xs : List (List Writing)} (h : ∀ parts ∈ xs, AllLexical parts) :
    (significant (String.join (xs.map fun parts => (list parts).text))).map spelled =
      xs.flatMap fun parts => (list parts).words := by
  have hwrites : Writes (String.join (xs.map fun parts => (list parts).text)).toList
      (xs.flatMap fun parts => (list parts).words) ∧
      Stops (String.join (xs.map fun parts => (list parts).text)).toList := by
    induction xs with
    | nil => exact ⟨.nil, nofun⟩
    | cons parts xs ih =>
      obtain ⟨hparts, hxs⟩ := List.forall_mem_cons.1 h
      obtain ⟨hwrites, hstops⟩ := ih hxs
      rw [List.map_cons, String.join_cons, String.toList_append, List.flatMap_cons]
      exact ⟨writes hstops hwrites hparts, stops_list parts _⟩
  exact hwrites.1.scanFrom 0

end Writing

/-! ## Writings of expressions -/

open Writing Token

/-- A type as it is written. -/
def TypeExpr.writing (ty : TypeExpr) : Writing :=
  match ty.ty with
  | .int => .word .intWord "int"
  | .bool => .word .boolWord "bool"

/-- A type that may be left out as it is written. -/
def typeWritings (ty : Option TypeExpr) : List Writing := ty.toList.map TypeExpr.writing

open Grammar in
mutual

/-- An expression as it is written. -/
def Expr.writing : Expr → Writing
  | .int value _ => .word .intLiteral value.text
  | .bool true _ => .word .trueWord "true"
  | .bool false _ => .word .falseWord "false"
  | .name x => .word .ident x.name
  | .binary op lhs rhs _ =>
    .list [.word (binaryKind op) op.symbol, lhs.writing, rhs.writing]
  | .unary op operand _ => .list [.word (unaryKind op) op.symbol, operand.writing]
  | .ifThen test ty yes _ =>
    .list (.word .ifWord "if" :: test.writing :: (typeWritings ty ++ [yes.writing]))
  | .ifThenElse test ty yes no _ =>
    .list (.word .ifWord "if" :: test.writing :: (typeWritings ty ++ [yes.writing, no.writing]))
  | .declare x ty _ => .list [.word .var "var", .word .ident x.name, ty.writing]
  | .define x ty init _ =>
    .list (.word .var "var" ::
      .list [.word .eq "=", .word .ident x.name, init.writing] :: typeWritings ty)
  | .assign x value _ => .list [.word .eq "=", .word .ident x.name, value.writing]
  | .call x args _ => .list (.word .ident x.name :: Expr.writings args)
  | .block exprs _ => .list (Expr.writings exprs)

/-- Expressions as they are written. -/
def Expr.writings : List Expr → List Writing
  | [] => []
  | e :: es => e.writing :: Expr.writings es

end

/-- A parameter as it is written. -/
def Param.writings (p : Param) : List Writing := [.word .ident p.name.name, p.ty.writing]

/-- What a declaration is written of. -/
def Decl.writings (d : Decl) : List Writing :=
  [.word .decl "decl", .word .ident d.name.name, .list (d.params.flatMap Param.writings),
    d.ret.writing, d.body.writing]

/-! ### Words are tokens -/

theorem allLexical_iff {xs : List Writing} : AllLexical xs ↔ ∀ x ∈ xs, x.Lexical := by
  induction xs with
  | nil => simp [AllLexical]
  | cons x xs ih => simp [AllLexical, ih]

theorem allLexical_append {xs ys : List Writing} (hxs : AllLexical xs) (hys : AllLexical ys) :
    AllLexical (xs ++ ys) := by
  rw [allLexical_iff] at hxs hys ⊢
  exact List.forall_mem_append.2 ⟨hxs, hys⟩

theorem lexical_fixed {kind : TokenKind} {text : String} (h : kind.spelling? = some text) :
    (word kind text).Lexical := by
  refine ⟨.fixed (by rw [String.ofList_toList, h]), ?_⟩
  rintro rfl
  cases h

theorem lexical_ident {name : String} (h : IsIdent name) : (word .ident name).Lexical :=
  ⟨h, by decide⟩

theorem lexical_type (ty : TypeExpr) : ty.writing.Lexical := by
  obtain ⟨ty, pos⟩ := ty
  cases ty <;> exact lexical_fixed rfl

theorem lexical_types (ty : Option TypeExpr) : AllLexical (typeWritings ty) := by
  cases ty with
  | none => trivial
  | some ty => exact ⟨lexical_type ty, trivial⟩

theorem Word.toList_text (w : Word) : w.text.toList =
    if 0 ≤ w.val then Nat.toDigits 10 w.val.toNat else '-' :: Nat.toDigits 10 (-w.val).toNat := by
  rw [text, Int.toString_eq_repr, Int.repr_eq_if]
  split
  · exact Nat.toList_repr
  · rw [String.toList_append, Nat.toList_repr]
    rfl

theorem exists_digits (n : Nat) :
    ∃ d ds, Nat.toDigits 10 n = d :: ds ∧ ∀ e ∈ d :: ds, e.isDigit := by
  have hdigits : ∀ e ∈ Nat.toDigits 10 n, e.isDigit := fun e he =>
    Nat.isDigit_of_mem_toDigits (by decide) (by decide) he
  obtain ⟨d, ds, h⟩ := List.exists_cons_of_ne_nil (Nat.toDigits_ne_nil (n := n) (b := 10))
  exact ⟨d, ds, h, h ▸ hdigits⟩

theorem lexical_int (w : Word) : (word .intLiteral w.text).Lexical := by
  refine ⟨?_, by decide⟩
  rw [w.toList_text]
  split
  · obtain ⟨d, ds, h, hdigits⟩ := exists_digits w.val.toNat
    obtain ⟨hd, hds⟩ := List.forall_mem_cons.1 hdigits
    rw [h]
    exact .regular (.number (.inl rfl) hd hds)
  · obtain ⟨d, ds, h, hdigits⟩ := exists_digits (-w.val).toNat
    obtain ⟨hd, hds⟩ := List.forall_mem_cons.1 hdigits
    rw [h]
    exact .regular (.number (.inr rfl) hd hds)

/-- A word is read back from its numeral. -/
theorem numeral_text (w : Word) : Grammar.numeral w.text.toList = w.val := by
  rw [w.toList_text]
  split
  · next hle =>
    obtain ⟨d, ds, h, hdigits⟩ := exists_digits w.val.toNat
    have hvalue := Nat.ofDigitChars_ten_toDigits (n := w.val.toNat)
    rw [h] at hvalue ⊢
    unfold Grammar.numeral
    split
    · next hsign =>
      obtain ⟨rfl, -⟩ := List.cons.inj hsign
      exact absurd (hdigits '-' List.mem_cons_self) (by decide)
    · rw [hvalue]
      omega
  · next hlt =>
    rw [Grammar.numeral, Nat.ofDigitChars_ten_toDigits]
    omega

mutual

/-- What can be written is written in tokens. -/
theorem lexical_writing : ∀ {e : Expr}, e.Writable → e.writing.Lexical
  | .int value _, _ => lexical_int value
  | .bool true _, _ | .bool false _, _ => lexical_fixed rfl
  | .name x, h => lexical_ident h
  | .binary op lhs rhs _, h => by
    have hop : (word (Grammar.binaryKind op) op.symbol).Lexical :=
      lexical_fixed (by cases op <;> rfl)
    exact ⟨hop, lexical_writing h.1, lexical_writing h.2, trivial⟩
  | .unary op operand _, h => by
    have hop : (word (Grammar.unaryKind op) op.symbol).Lexical :=
      lexical_fixed (by cases op <;> rfl)
    exact ⟨hop, lexical_writing h, trivial⟩
  | .ifThen test ty yes _, h => by
    obtain ⟨ht, hy⟩ := h
    refine ⟨lexical_fixed rfl, lexical_writing ht, allLexical_append (lexical_types ty) ?_⟩
    exact ⟨lexical_writing hy, trivial⟩
  | .ifThenElse test ty yes no _, h => by
    obtain ⟨ht, hy, hn⟩ := h
    refine ⟨lexical_fixed rfl, lexical_writing ht, allLexical_append (lexical_types ty) ?_⟩
    exact ⟨lexical_writing hy, lexical_writing hn, trivial⟩
  | .declare x ty _, h => ⟨lexical_fixed rfl, lexical_ident h, lexical_type ty, trivial⟩
  | .define x ty init _, h => by
    obtain ⟨hx, hi⟩ := h
    have hequation : (list [.word .eq "=", .word .ident x.name, init.writing]).Lexical :=
      ⟨lexical_fixed rfl, lexical_ident hx, lexical_writing hi, trivial⟩
    exact ⟨lexical_fixed rfl, hequation, lexical_types ty⟩
  | .assign x value _, h => ⟨lexical_fixed rfl, lexical_ident h.1, lexical_writing h.2, trivial⟩
  | .call x args _, h => ⟨lexical_ident h.1, allLexical_writings h.2⟩
  | .block exprs _, h => allLexical_writings h.2

theorem allLexical_writings : ∀ {es : List Expr}, Expr.AllWritable es →
    AllLexical (Expr.writings es)
  | [], _ => trivial
  | _ :: _, h => ⟨lexical_writing h.1, allLexical_writings h.2⟩

end

theorem lexical_decl {d : Decl} (h : d.Writable) : AllLexical d.writings := by
  refine ⟨lexical_fixed rfl, lexical_ident h.name, ?_, lexical_type d.ret, lexical_writing h.body,
    trivial⟩
  refine allLexical_iff.2 fun x hx => ?_
  obtain ⟨p, hp, hx⟩ := List.mem_flatMap.1 hx
  rcases List.mem_cons.1 hx with rfl | hx
  · exact lexical_ident (h.params p hp)
  · rcases List.mem_cons.1 hx with rfl | hx
    · exact lexical_type p.ty
    · cases hx

/-! ## Listings -/

section Listings

open Listing Typing

variable {sigs : Signatures} {S : Symbols} {P : Node → Ty → Prop}

theorem text_list (xs : List Writing) :
    (list xs).text = "(" ++ (" ".intercalate (texts xs) ++ ")") := by
  rw [Writing.text, String.append_assoc]

theorem intercalate_cons (x y : Writing) (ys : List Writing) :
    " ".intercalate (texts (x :: y :: ys)) =
      x.text ++ (" " ++ " ".intercalate (texts (y :: ys))) := by
  rw [texts, texts, String.intercalate_cons_cons, String.append_assoc]

theorem intercalate_singleton (x : Writing) : " ".intercalate (texts [x]) = x.text :=
  String.intercalate_singleton

theorem text_type (ty : Ty) : (TypeExpr.of ty).writing.text = ty.name := by
  cases ty <;> rfl

theorem text_variable (hs : S.Untagged) {x : SymbolId} {ty : Ty} (hx : S.ty x = some ty) :
    variableEnd S x = " " ++ ((TypeExpr.of ty).writing.text ++ ")") := by
  rw [variableEnd, hs x, hx, text_type, tagText, String.append_empty, String.append_assoc]
  rfl

/-- The type on an `if` stands between the condition and the first branch. -/
theorem intercalate_written (written : Option Ty) (test x : Writing) (xs : List Writing) :
    " ".intercalate (texts (test :: (typeWritings (written.map .of) ++ x :: xs))) =
      test.text ++ (writtenText written ++ (" " ++ " ".intercalate (texts (x :: xs)))) := by
  cases written with
  | none =>
    rw [writtenText, String.empty_append]
    exact intercalate_cons test x xs
  | some ty =>
    rw [writtenText, ← text_type]
    refine (intercalate_cons test (TypeExpr.of ty).writing (x :: xs)).trans ?_
    rw [intercalate_cons, String.append_assoc]

theorem text_const (v : Value) (pos : Pos) :
    ((Node.const v pos).source S).writing.text = v.text := by
  cases v with
  | int w => rfl
  | bool b => cases b <;> rfl

mutual

/-- **The listing of a node is the writing of its expression.** -/
theorem nodeText_eq (hs : S.Untagged) {τ : Ty} : ∀ {n : Node}, HasType sigs S.ty P n τ →
    n.untyped.untagged = n.untyped → nodeText S n = (n.source S).writing.text
  | .const v _, _, _ => (text_const v _).symm
  | .read .., _, _ => rfl
  | .binary op lhs rhs ty tag pos, h, ht => by
    cases h with
    | binary hl hr =>
      simp only [Node.untyped, Node.untagged, Node.binary.injEq] at ht
      obtain ⟨-, hl', hr', -, rfl, -⟩ := ht
      rw [nodeText, nodeText_eq hs hl hl', nodeText_eq hs hr hr', Node.source, Expr.writing,
        text_list, intercalate_cons, intercalate_cons, intercalate_singleton, tagText,
        String.append_empty]
      simp only [String.append_assoc]
      rfl
  | .unary op operand ty pos, h, ht => by
    cases h with
    | unary ho =>
      simp only [Node.untyped, Node.untagged, Node.unary.injEq] at ht
      rw [nodeText, nodeText_eq hs ho ht.2.1, Node.source, Expr.writing, text_list,
        intercalate_cons, intercalate_singleton]
      simp only [String.append_assoc]
      rfl
  | .call name callee args ty pos, h, ht => by
    cases h with
    | call _ hargs =>
      simp only [Node.untyped, Node.untagged, Node.call.injEq] at ht
      rw [nodeText, nodeTexts_eq hs hargs ht.2.2.1]
      rfl
  | .ifThen test written yes ty tag pos, h, ht => by
    cases h with
    | ifThen hc hy =>
      simp only [Node.untyped, Node.untagged, Node.ifThen.injEq] at ht
      obtain ⟨hc', -, hy', -, rfl, -⟩ := ht
      have hif : "(if " = "(" ++ ("if" ++ " ") := by decide
      rw [nodeText, nodeText_eq hs hc hc', nodeText_eq hs hy hy', Node.source, Expr.writing,
        text_list, intercalate_cons, intercalate_written, intercalate_singleton, tagText,
        String.append_empty, hif]
      simp only [String.append_assoc]
      rfl
  | .ifThenElse test written yes no ty tag pos, h, ht => by
    cases h with
    | ifThenElse hc hy hn =>
      simp only [Node.untyped, Node.untagged, Node.ifThenElse.injEq] at ht
      obtain ⟨hc', -, hy', hn', -, rfl, -⟩ := ht
      have hif : "(if " = "(" ++ ("if" ++ " ") := by decide
      rw [nodeText, nodeText_eq hs hc hc', nodeText_eq hs hy hy', nodeText_eq hs hn hn',
        Node.source, Expr.writing, text_list, intercalate_cons, intercalate_written,
        intercalate_cons, intercalate_singleton, tagText, String.append_empty, hif]
      simp only [String.append_assoc]
      rfl
  | .block nodes ty pos, h, ht => by
    cases h with
    | block hns =>
      simp only [Node.untyped, Node.untagged, Node.block.injEq] at ht
      rw [nodeText, nodeTexts_eq hs hns ht.1]
      rfl
  | .assign name x value ty pos, h, ht => by
    cases h with
    | assign hv =>
      simp only [Node.untyped, Node.untagged, Node.assign.injEq] at ht
      have hassign : "(= " = "(" ++ ("=" ++ " ") := by decide
      rw [nodeText, nodeText_eq hs hv ht.2.2.1, Node.source, Expr.writing, text_list,
        intercalate_cons, intercalate_cons, intercalate_singleton, hassign]
      simp only [String.append_assoc]
      rfl
  | .declare name x written pos, h, ht => by
    cases h with
    | declare hx =>
      have hvar : "(var " = "(" ++ ("var" ++ " ") := by decide
      rw [nodeText, text_variable hs hx, Node.source, Expr.writing, text_list,
        intercalate_cons, intercalate_cons, intercalate_singleton, hvar]
      simp only [String.append_assoc]
      rfl
  | .define name x written init pos, h, ht => by
    cases h with
    | define hi hw hx =>
      simp only [Node.untyped, Node.untagged, Node.define.injEq] at ht
      have hvar : "(var (= " = "(" ++ ("var" ++ (" " ++ ("(" ++ ("=" ++ " ")))) := by decide
      have htype : typeWritings ((some τ).map .of) = [(TypeExpr.of τ).writing] := rfl
      rw [nodeText, nodeText_eq hs hi ht.2.2.2.1, text_variable hs hx, Node.source, hx,
        Expr.writing, htype, text_list, intercalate_cons, intercalate_cons, intercalate_singleton,
        text_list, intercalate_cons, intercalate_cons, intercalate_singleton, hvar]
      simp only [String.append_assoc]
      rfl
  | .error .., h, _ => by cases h

theorem nodeTexts_eq (hs : S.Untagged) {τs : List Ty} : ∀ {ns : List Node},
    HaveTypes sigs S.ty P ns τs → Node.allUntagged (Node.allUntyped ns) = Node.allUntyped ns →
      nodeTexts S ns = texts (Expr.writings (Node.allSource S ns))
  | [], _, _ => rfl
  | n :: ns, h, ht => by
    cases h with
    | cons h hs' =>
      simp only [Node.allUntyped, Node.allUntagged, List.cons.injEq] at ht
      rw [nodeTexts, nodeText_eq hs h ht.1, nodeTexts_eq hs hs' ht.2]
      rfl

end

/-- The text of a parameter in a source text. -/
def Listing.parameterText (S : Symbols) (x : SymbolId) : String :=
  nameText S x ++ " " ++ Ty.nameOf (S.ty x)

/-- The text of a declaration in a source text. -/
def Listing.sourceText (S : Symbols) (d : Declaration) : String :=
  "(decl " ++ d.name ++ " (" ++ " ".intercalate (d.params.map (parameterText S)) ++ ") "
    ++ d.ret.name ++ " " ++ nodeText S d.body ++ ")"

theorem text_params {xs : List SymbolId} (h : ∀ x ∈ xs, (S.ty x).isSome) :
    " ".intercalate (texts ((xs.map S.param).flatMap Param.writings)) =
      " ".intercalate (xs.map (parameterText S)) := by
  induction xs with
  | nil => rfl
  | cons x xs ih =>
    obtain ⟨hx, hxs⟩ := List.forall_mem_cons.1 h
    obtain ⟨ty, hty⟩ := Option.isSome_iff_exists.1 hx
    have hparam : (S.param x).writings =
        [.word .ident (nameText S x), (TypeExpr.of ty).writing] := by
      rw [Symbols.param, hty]
      rfl
    have htext : parameterText S x = nameText S x ++ (" " ++ (TypeExpr.of ty).writing.text) := by
      rw [parameterText, hty, text_type, String.append_assoc]
      rfl
    rw [List.map_cons, List.flatMap_cons, hparam, List.map_cons, htext]
    cases xs with
    | nil => exact (intercalate_cons ..).trans String.intercalate_singleton.symm
    | cons y ys =>
      let rest := ((y :: ys).map S.param).flatMap Param.writings
      calc " ".intercalate (texts (.word .ident (nameText S x) :: (TypeExpr.of ty).writing :: rest))
        _ = nameText S x ++ (" " ++ ((TypeExpr.of ty).writing.text ++
              (" " ++ " ".intercalate (texts rest)))) := by
          rw [intercalate_cons]
          exact congrArg (fun t => nameText S x ++ (" " ++ t)) (intercalate_cons ..)
        _ = nameText S x ++ (" " ++ (TypeExpr.of ty).writing.text) ++ " " ++
              " ".intercalate ((y :: ys).map (parameterText S)) := by
          rw [ih hxs]
          simp only [String.append_assoc]
        _ = _ := String.intercalate_cons_cons.symm

/-- The text of a declaration is the writing of its source. -/
theorem sourceText_eq (hs : S.Untagged) {d : Declaration}
    (hparams : ∀ x ∈ d.params, (S.ty x).isSome) (hbody : HasType sigs S.ty P d.body d.ret)
    (htags : d.body.untyped.untagged = d.body.untyped) :
    sourceText S d = (list (d.source S).writings).text := by
  have hdecl : "(decl " = "(" ++ ("decl" ++ " ") := by decide
  have hopening : " (" = " " ++ "(" := by decide
  have hclosing : ") " = ")" ++ " " := by decide
  rw [sourceText, nodeText_eq hs hbody htags, ← text_params hparams, ← text_type, text_list,
    Decl.writings, intercalate_cons, intercalate_cons, intercalate_cons, intercalate_cons,
    intercalate_singleton, text_list, hdecl, hopening, hclosing]
  simp only [String.append_assoc]
  rfl

end Listings

end CalcLang
