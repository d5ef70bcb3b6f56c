import CalcLang.Proofs.C.Declarations
import CalcLang.Proofs.Names

/-!
# The layout of generated functions

What can be read off the text of a function without knowing the grammar of C: its braces match
(`Balanced`), and the word `return` stands in it once, in the last statement (`ReturnsOnce`). Both
need the names of functions to be made of letters, digits and underscores. The functions of the
declarations of a source text are named like that.
-/

namespace CalcLang.C

/-! ## Braces -/

/-- How many braces are open behind a character, if `depth` are open before it. A closing brace
needs one that is open. -/
def braceStep (c : Char) (depth : Nat) : Option Nat :=
  if c = '\x7b' then some (depth + 1)
  else if c = '\x7d' then if depth = 0 then none else some (depth - 1)
  else some depth

/-- How many braces are open behind some characters, if `depth` are open before them. -/
def depthAfter : List Char → Nat → Option Nat
  | [], depth => some depth
  | c :: cs, depth => (braceStep c depth).bind (depthAfter cs)

/-- The braces of a text match. -/
def Balanced (text : String) : Prop := depthAfter text.toList 0 = some 0

theorem depthAfter_append (cs cs' : List Char) (depth : Nat) :
    depthAfter (cs ++ cs') depth = (depthAfter cs depth).bind (depthAfter cs') := by
  induction cs generalizing depth with
  | nil => rfl
  | cons c cs ih =>
    rw [List.cons_append, depthAfter, depthAfter, Option.bind_assoc]
    exact congrArg _ (funext ih)

/-! ## Words -/

/-- The words of some characters, which are made of letters, digits and underscores. There are
empty ones between other characters. -/
def words : List Char → List (List Char)
  | [] => [[]]
  | c :: cs => if Token.isNameChar c then (words cs).modifyHead (c :: ·) else [] :: words cs

/-- The word with which a function returns. -/
def returnWord : List Char := "return".toList

/-- `return` does not stand in the text. -/
def NoReturn (text : String) : Prop := returnWord ∉ words text.toList

/-- The text of a function ends with a `return`, and there is no other one in it. -/
def ReturnsOnce (text : String) : Prop :=
  ∃ before value, text = before ++ "return " ++ value ++ ";\n\x7d\n" ∧ NoReturn before ∧
    NoReturn value

theorem words_ne_nil (cs : List Char) : words cs ≠ [] := by
  induction cs with
  | nil => exact List.cons_ne_nil _ _
  | cons c cs ih =>
    rw [words]
    split
    · simpa using ih
    · exact List.cons_ne_nil _ _

/-- No word goes on over a character that does not belong to words. -/
theorem words_append_cons (cs cs' : List Char) {c : Char} (hc : Token.isNameChar c = false) :
    words (cs ++ c :: cs') = words cs ++ words cs' := by
  induction cs with
  | nil => simp [words, hc]
  | cons d cs ih =>
    rw [List.cons_append, words, words, ih]
    split
    · obtain ⟨w, ws, hws⟩ := List.exists_cons_of_ne_nil (words_ne_nil cs)
      rw [hws]
      rfl
    · rfl

/-- Every word is made of characters of the text. -/
theorem subset_of_mem_words {cs w : List Char} (h : w ∈ words cs) : w ⊆ cs := by
  induction cs generalizing w with
  | nil => simp_all [words]
  | cons c cs ih =>
    rw [words] at h
    obtain ⟨v, vs, hvs⟩ := List.exists_cons_of_ne_nil (words_ne_nil cs)
    rw [hvs] at ih h
    split at h
    · rcases List.mem_cons.1 h with rfl | h
      · exact List.cons_subset_cons c (ih List.mem_cons_self)
      · exact List.subset_cons_of_subset c (ih (List.mem_cons_of_mem v h))
    · rcases List.mem_cons.1 h with rfl | h
      · exact List.nil_subset _
      · exact List.subset_cons_of_subset c (ih h)

instance (text : String) : Decidable (NoReturn text) := inferInstanceAs (Decidable (_ ∉ _))

/-- The text does not begin inside a word. -/
def StartsApart (text : String) : Prop :=
  (text.toList.head?.all fun c => !Token.isNameChar c) = true

/-- The text does not end inside a word. -/
def EndsApart (text : String) : Prop :=
  (text.toList.getLast?.all fun c => !Token.isNameChar c) = true

instance (text : String) : Decidable (StartsApart text) := inferInstanceAs (Decidable (_ = true))

instance (text : String) : Decidable (EndsApart text) := inferInstanceAs (Decidable (_ = true))

theorem EndsApart.append {a b : String} (ha : EndsApart a) (hb : EndsApart b) :
    EndsApart (a ++ b) := by
  rw [EndsApart, String.toList_append, List.getLast?_append]
  rw [EndsApart] at ha hb
  cases h : b.toList.getLast? with
  | none => exact ha
  | some c =>
    rw [h] at hb
    exact hb

theorem NoReturn.append {a b : String} (ha : NoReturn a) (hb : NoReturn b)
    (h : EndsApart a ∨ StartsApart b) : NoReturn (a ++ b) := by
  rw [NoReturn, String.toList_append]
  rcases h with h | h
  · rcases List.eq_nil_or_concat a.toList with hcs | ⟨cs, c, hcs⟩
    · rw [hcs]
      exact hb
    · have hc : Token.isNameChar c = false := by simpa [EndsApart, hcs] using h
      rw [NoReturn, hcs, List.concat_eq_append, words_append_cons cs [] hc] at ha
      rw [hcs, List.concat_eq_append, List.append_assoc, List.singleton_append,
        words_append_cons cs _ hc, List.mem_append]
      exact fun hw => hw.elim (fun hw => ha (List.mem_append_left _ hw)) hb
  · cases hcs : b.toList with
    | nil =>
      rw [List.append_nil]
      exact ha
    | cons c cs =>
      have hc : Token.isNameChar c = false := by simpa [StartsApart, hcs] using h
      rw [words_append_cons _ cs hc, List.mem_append]
      refine fun hw => hw.elim ha fun hw => hb ?_
      rw [hcs, words, hc]
      exact List.mem_cons_of_mem _ hw

/-- A text behind a brace that another one opens. -/
theorem NoReturn.opened {a b : String} (ha : NoReturn a) (hb : NoReturn b) :
    NoReturn (a ++ "\x7b\n" ++ b) := by
  refine (ha.append (by decide) (.inr (by decide))).append hb (.inl ?_)
  rw [EndsApart, String.toList_append, List.getLast?_append]
  rfl

/-! ## Quiet texts -/

/-- Braces match wherever the text stands. -/
def Neutral (text : String) : Prop := ∀ depth, depthAfter text.toList depth = some depth

theorem Neutral.append {a b : String} (ha : Neutral a) (hb : Neutral b) : Neutral (a ++ b) := by
  intro depth
  rw [String.toList_append, depthAfter_append, ha, Option.bind_some, hb]

/-- A text in braces, behind another one. -/
theorem Neutral.braced {a b : String} (ha : Neutral a) (hb : Neutral b) :
    Neutral (a ++ "\x7b\n" ++ b ++ "\x7d") := by
  intro depth
  have hopen : depthAfter "\x7b\n".toList depth = some (depth + 1) := rfl
  simp only [String.toList_append, depthAfter_append, ha depth, hopen, hb (depth + 1),
    Option.bind_some]
  rfl

/-- In the text braces match and `return` does not stand. -/
structure Quiet (text : String) : Prop where
  neutral : Neutral text
  noReturn : NoReturn text

theorem neutral_of_forall {text : String} (h : ∀ c ∈ text.toList, c ≠ '\x7b' ∧ c ≠ '\x7d') :
    Neutral text := by
  intro depth
  generalize text.toList = cs at h
  induction cs with
  | nil => rfl
  | cons c cs ih =>
    obtain ⟨h₁, h₂⟩ := h c List.mem_cons_self
    rw [depthAfter, braceStep, if_neg h₁, if_neg h₂]
    exact ih fun c hc => h c (List.mem_cons_of_mem _ hc)

/-- A text without braces in which a letter of `return` is missing. -/
theorem quiet_of_forall {text : String}
    (h : ∀ c ∈ text.toList, c ≠ '\x7b' ∧ c ≠ '\x7d' ∧ c ≠ 'r') : Quiet text where
  neutral := neutral_of_forall fun c hc => ⟨(h c hc).1, (h c hc).2.1⟩
  noReturn hw := (h 'r' (subset_of_mem_words hw (by decide))).2.2 rfl

/-- The text stands between words: it is not empty and has neither braces nor characters of
words. -/
def Separates (text : String) : Prop :=
  text.toList ≠ [] ∧ ∀ c ∈ text.toList, Token.isNameChar c = false ∧ c ≠ '\x7b' ∧ c ≠ '\x7d'

-- Goes through the characters of the text; search may find the way through all characters instead.
instance (text : String) : Decidable (Separates text) :=
  @instDecidableAnd _ _ inferInstance (List.decidableBAll _ _)

namespace Separates

variable {s : String}

theorem quiet (h : Separates s) : Quiet s := by
  refine quiet_of_forall fun c hc => ?_
  obtain ⟨hname, hbraces⟩ := h.2 c hc
  refine ⟨hbraces.1, hbraces.2, ?_⟩
  rintro rfl
  cases hname

theorem startsApart (h : Separates s) : StartsApart s := by
  rw [StartsApart, Option.all_eq_true_iff_get]
  intro hs
  rw [(h.2 _ (List.mem_of_head? (Option.some_get hs).symm)).1]
  rfl

theorem endsApart (h : Separates s) (a : String) : EndsApart (a ++ s) := by
  have hc := List.getLast?_eq_some_getLast h.1
  rw [EndsApart, String.toList_append, List.getLast?_append, hc, Option.some_or, Option.all_some,
    (h.2 _ (List.getLast_mem h.1)).1]
  rfl

end Separates

namespace Quiet

variable {a b s : String}

theorem append (ha : Quiet a) (hb : Quiet b) (h : EndsApart a ∨ StartsApart b) : Quiet (a ++ b) :=
  ⟨ha.neutral.append hb.neutral, ha.noReturn.append hb.noReturn h⟩

theorem before (ha : Quiet a) (hs : Separates s) : Quiet (a ++ s) :=
  ha.append hs.quiet (.inr hs.startsApart)

/-- Two texts with a separator between them. -/
theorem around (ha : Quiet a) (hs : Separates s) (hb : Quiet b) : Quiet (a ++ s ++ b) :=
  (ha.before hs).append hb (.inl (hs.endsApart a))

theorem behind (hs : Separates s) (ha : Quiet a) : Quiet (s ++ a) :=
  hs.quiet.append ha (.inl (hs.endsApart ""))

/-- A text in braces, behind another one. -/
theorem braced (ha : Quiet a) (hb : Quiet b) : Quiet (a ++ "\x7b\n" ++ b ++ "\x7d") :=
  ⟨ha.neutral.braced hb.neutral,
    (ha.noReturn.opened hb.noReturn).append (by decide) (.inr (by decide))⟩

end Quiet

theorem quiet_empty : Quiet "" := ⟨fun _ => rfl, by decide⟩

/-! ## Expressions -/

theorem quiet_of_isDigit {text : String} (h : ∀ c ∈ text.toList, c.isDigit) : Quiet text := by
  refine quiet_of_forall fun c hc => ⟨?_, ?_, ?_⟩ <;>
  · rintro rfl
    cases h _ hc

theorem quiet_repr (n : Nat) : Quiet n.repr := by
  refine quiet_of_isDigit fun c hc => ?_
  rw [Nat.toList_repr] at hc
  exact Nat.isDigit_of_mem_toDigits (by decide) (by decide) hc

theorem quiet_wordText (w : Word) : Quiet (wordText w) := by
  rw [wordText]
  split
  · exact ⟨fun _ => rfl, by decide⟩
  · rw [Word.text, Int.toString_eq_repr, Int.repr_eq_if]
    split
    · exact quiet_repr _
    · exact .behind (by decide) (quiet_repr _)

theorem words_of_forall {cs : List Char} (h : ∀ c ∈ cs, Token.isNameChar c) : words cs = [cs] := by
  induction cs with
  | nil => rfl
  | cons c cs ih =>
    rw [words, if_pos (h c List.mem_cons_self), ih fun c hc => h c (List.mem_cons_of_mem _ hc)]
    rfl

/-- An identifier of generated code begins with an underscore. -/
theorem quiet_of_underscore {text : String} {cs : List Char} (h : text.toList = '_' :: cs)
    (hcs : ∀ c ∈ cs, Token.isNameChar c) : Quiet text := by
  have hall : ∀ c ∈ text.toList, Token.isNameChar c := by
    rw [h]
    intro c hc
    rcases List.mem_cons.1 hc with rfl | hc
    · rfl
    · exact hcs c hc
  refine ⟨neutral_of_forall fun c hc => ⟨?_, ?_⟩, ?_⟩
  · rintro rfl
    cases hall _ hc
  · rintro rfl
    cases hall _ hc
  · rw [NoReturn, words_of_forall hall, List.mem_singleton, h]
    exact nofun

theorem quiet_temp (t : Temp) : Quiet t.text := by
  have hdigits : ∀ n, ∀ c ∈ Nat.toDigits 10 n, Token.isNameChar c := fun n c hc =>
    Token.isNameChar_of_isDigit (Nat.isDigit_of_mem_toDigits (by decide) (by decide) hc)
  cases t with
  | tagged tag =>
    exact quiet_of_underscore (toList_text_tagged tag) (List.forall_mem_cons.2 ⟨rfl, hdigits _⟩)
  | spill number =>
    exact quiet_of_underscore (toList_text_spill number) (List.forall_mem_cons.2 ⟨rfl, hdigits _⟩)
  | missing => exact ⟨fun _ => rfl, by decide⟩

theorem quiet_functionName {name : String} (h : IsName name) : Quiet (functionName name) :=
  quiet_of_underscore (by rw [functionName, String.toList_append]; rfl) h.isNameChar

theorem quiet_intercalate {items : List String} (h : ∀ item ∈ items, Quiet item) :
    Quiet (", ".intercalate items) := by
  induction items with
  | nil => exact quiet_empty
  | cons a items ih =>
    cases items with
    | nil =>
      rw [String.intercalate_singleton]
      exact h a List.mem_cons_self
    | cons b items =>
      rw [String.intercalate_cons_cons]
      exact (h a List.mem_cons_self).around (by decide)
        (ih fun item hitem => h item (List.mem_cons_of_mem _ hitem))

theorem quiet_parens {items : List String} {a : String} (ha : Quiet a)
    (h : ∀ item ∈ items, Quiet item) : Quiet (a ++ parens items) := by
  rw [parens, ← String.append_assoc, ← String.append_assoc]
  exact (ha.around (by decide) (quiet_intercalate h)).before (by decide)

section

variable {F : List String} {Δ : List Temp}

mutual

/-- The texts of expressions are quiet. -/
theorem quiet_expr (hF : ∀ name ∈ F, IsName name) : ∀ {e : Expr},
    Declared F Δ e.identifiers → Quiet e.text
  | .int value, _ => quiet_wordText value
  | .bool value, _ => by
    cases value
    · exact ⟨fun _ => rfl, by decide⟩
    · exact ⟨fun _ => rfl, by decide⟩
  | .temp t, _ => quiet_temp t
  | .unary op operand, h => by
    have hs : Separates (op.symbol ++ "(") := by cases op <;> decide
    exact (Quiet.behind hs (quiet_expr hF (e := operand) h)).before (by decide)
  | .call name args, h => by
    have hname : name ∈ F := h.function_mem List.mem_cons_self
    exact quiet_parens (quiet_functionName (hF name hname))
      (quiet_exprs hF fun id hid => h id (List.mem_cons_of_mem _ hid))

theorem quiet_exprs (hF : ∀ name ∈ F, IsName name) : ∀ {es : List Expr},
    Declared F Δ (Expr.allIdentifiers es) → ∀ item ∈ Expr.texts es, Quiet item
  | [], _, _, hitem => by cases hitem
  | e :: es, h, item, hitem => by
    rcases List.mem_cons.1 hitem with rfl | hitem
    · exact quiet_expr hF fun id hid => h id (List.mem_append_left _ hid)
    · exact quiet_exprs hF (fun id hid => h id (List.mem_append_right _ hid)) item hitem

end

end

/-! ## Statements -/

theorem quiet_type (ty : CType) : Quiet ty.text := by
  cases ty <;> exact ⟨fun _ => rfl, by decide⟩

/-- The blanks before a line. -/
def indent (depth : Nat) : String := String.ofList (List.replicate (4 * depth) ' ')

theorem quiet_indent (depth : Nat) : Quiet (indent depth) := by
  refine quiet_of_forall fun c hc => ?_
  rw [indent, String.toList_ofList] at hc
  rw [List.eq_of_mem_replicate hc]
  decide

theorem endsApart_indent (depth : Nat) : EndsApart (indent depth) := by
  rw [EndsApart, indent, String.toList_ofList, List.getLast?_replicate]
  split <;> rfl

theorem endsApart_line (depth : Nat) (text : String) : EndsApart (line depth text) :=
  Separates.endsApart (by decide) _

theorem quiet_line {text : String} (h : Quiet text) (depth : Nat) : Quiet (line depth text) :=
  ((quiet_indent depth).append h (.inl (endsApart_indent depth))).before (by decide)

section

variable {F : List String} {Δ Δ' : List Temp}

theorem quiet_init (hF : ∀ name ∈ F, IsName name) {init : Init}
    (h : Declared F Δ init.identifiers) : Quiet init.text := by
  cases init with
  | expr value => exact quiet_expr hF h
  | binary op lhs rhs =>
    have hs : Separates (" " ++ op.symbol ++ " ") := by cases op <;> decide
    have hl := quiet_expr hF fun id hid => h id (List.mem_append_left _ hid)
    have hr := quiet_expr hF fun id hid => h id (List.mem_append_right _ hid)
    have := hl.around hs hr
    rwa [← String.append_assoc, ← String.append_assoc] at this

theorem quiet_test (hF : ∀ name ∈ F, IsName name) {test : Expr}
    (h : Declared F Δ test.identifiers) : Quiet ("if (" ++ test.text ++ ") ") := by
  have hif : Quiet "if (" := ⟨fun _ => rfl, by decide⟩
  exact (hif.append (quiet_expr hF h) (.inl (by decide))).before (by decide)

/-- An `if` as a text in braces behind its test. -/
theorem text_ifThen (depth : Nat) (test : Expr) (yes : List Stmt) :
    (Stmt.ifThen test yes).text depth =
      indent depth ++ ("if (" ++ test.text ++ ") ") ++ "\x7b\n" ++
        (Stmt.texts (depth + 1) yes ++ indent depth) ++ "\x7d" ++ "\n" := by
  have hopen : (") \x7b" : String) = ") " ++ "\x7b" := rfl
  have hline : ("\x7b\n" : String) = "\x7b" ++ "\n" := rfl
  rw [Stmt.text, line, line, hopen, hline]
  simp only [String.append_assoc, indent]

theorem text_ifThenElse (depth : Nat) (test : Expr) (yes no : List Stmt) :
    (Stmt.ifThenElse test yes no).text depth =
      indent depth ++ ("if (" ++ test.text ++ ") ") ++ "\x7b\n" ++
        (Stmt.texts (depth + 1) yes ++ indent depth) ++ "\x7d" ++ " else " ++ "\x7b\n" ++
        (Stmt.texts (depth + 1) no ++ indent depth) ++ "\x7d" ++ "\n" := by
  have hopen : (") \x7b" : String) = ") " ++ "\x7b" := rfl
  have helse : ("\x7d else \x7b" : String) = "\x7d" ++ (" else " ++ "\x7b") := rfl
  have hline : ("\x7b\n" : String) = "\x7b" ++ "\n" := rfl
  rw [Stmt.text, line, line, line, hopen, helse, hline]
  simp only [String.append_assoc, indent]

mutual

/-- The texts of statements are quiet and end with a line. -/
theorem quiet_stmt (hF : ∀ name ∈ F, IsName name) : ∀ {s : Stmt} {Δ Δ' : List Temp} (depth : Nat),
    s.InScope F Δ Δ' → Quiet (s.text depth) ∧ EndsApart (s.text depth)
  | .declare ty t init, _, _, depth, h => by
    cases h with
    | declare hinit =>
      refine ⟨quiet_line ?_ depth, endsApart_line ..⟩
      exact ((((quiet_type ty).around (by decide) (quiet_temp t)).around (by decide)
        (quiet_init hF hinit)).before (by decide))
  | .assign t value, _, _, depth, h => by
    cases h with
    | assign _ hv =>
      exact ⟨quiet_line (((quiet_temp t).around (by decide) (quiet_expr hF hv)).before (by decide))
        depth, endsApart_line ..⟩
  | .eval value, _, _, depth, h => by
    cases h with
    | eval hv => exact ⟨quiet_line ((quiet_expr hF hv).before (by decide)) depth, endsApart_line ..⟩
  | .ifThen test yes, _, _, depth, h => by
    cases h with
    | ifThen ht hy =>
      have hhead := (quiet_indent depth).append (quiet_test hF ht) (.inl (endsApart_indent depth))
      obtain ⟨hq, he⟩ := quiet_stmts hF (depth + 1) hy
      have hbody := hq.append (quiet_indent depth) (.inl he)
      rw [text_ifThen]
      exact ⟨(hhead.braced hbody).before (by decide), Separates.endsApart (by decide) _⟩
  | .ifThenElse test yes no, _, _, depth, h => by
    cases h with
    | ifThenElse ht hy hn =>
      have hhead := (quiet_indent depth).append (quiet_test hF ht) (.inl (endsApart_indent depth))
      obtain ⟨hq, he⟩ := quiet_stmts hF (depth + 1) hy
      obtain ⟨hq', he'⟩ := quiet_stmts hF (depth + 1) hn
      have hyes := hq.append (quiet_indent depth) (.inl he)
      have hno := hq'.append (quiet_indent depth) (.inl he')
      have helse : Quiet " else " := ⟨fun _ => rfl, by decide⟩
      rw [text_ifThenElse]
      exact ⟨(((hhead.braced hyes).append helse (.inr (by decide))).braced hno).before (by decide),
        Separates.endsApart (by decide) _⟩

theorem quiet_stmts (hF : ∀ name ∈ F, IsName name) : ∀ {ss : List Stmt} {Δ Δ' : List Temp}
    (depth : Nat), Stmt.AllInScope F Δ ss Δ' →
    Quiet (Stmt.texts depth ss) ∧ EndsApart (Stmt.texts depth ss)
  | [], _, _, _, _ => ⟨quiet_empty, rfl⟩
  | s :: ss, _, _, depth, h => by
    cases h with
    | cons hs hss =>
      obtain ⟨hq, he⟩ := quiet_stmt hF depth hs
      obtain ⟨hqs, hes⟩ := quiet_stmts hF depth hss
      exact ⟨hq.append hqs (.inl he), he.append hes⟩

end

/-! ## Functions -/

theorem quiet_signature {s : Signature} (h : IsName s.name) : Quiet s.text := by
  refine quiet_parens ((quiet_type s.ret).around (by decide) (quiet_functionName h)) ?_
  intro item hitem
  split at hitem
  · obtain rfl := List.mem_singleton.1 hitem
    exact ⟨fun _ => rfl, by decide⟩
  · obtain ⟨p, -, rfl⟩ := List.mem_map.1 hitem
    exact (quiet_type p.1).around (by decide) (quiet_temp p.2)

/-- The text of a function, with its last statement apart. -/
theorem text_function (f : Function) :
    f.text = f.signature.text ++ " " ++ "\x7b\n" ++
      (Stmt.texts 1 f.body ++ "    " ++ "return " ++ f.result.text ++ ";\n") ++ "\x7d" ++ "\n" := by
  have hopen : (" \x7b" : String) = " " ++ "\x7b" := rfl
  have hline : ("\x7b\n" : String) = "\x7b" ++ "\n" := rfl
  have hend : (";\n" : String) = ";" ++ "\n" := rfl
  have hindent : String.ofList (List.replicate (4 * 0) ' ') = "" := rfl
  have hindent' : String.ofList (List.replicate (4 * 1) ' ') = "    " := rfl
  rw [Function.text, line, line, line, hopen, hline, hend, hindent, hindent']
  simp only [String.append_assoc, String.empty_append]

/-- **The braces of a function match**, and it returns once. -/
theorem balanced_and_returnsOnce {f : Function} (hF : ∀ name ∈ F, IsName name)
    (hname : f.signature.name ∈ F) (h : f.InScope F) : Balanced f.text ∧ ReturnsOnce f.text := by
  obtain ⟨Δ, hbody, hresult⟩ := h
  obtain ⟨hq, he⟩ := quiet_stmts hF 1 hbody
  have hhead := (quiet_signature (hF _ hname)).before (s := " ") (by decide)
  have hindented := hq.append (b := "    ") (Separates.quiet (by decide)) (.inl he)
  have hvalue := quiet_expr hF hresult
  rw [text_function]
  constructor
  · have hreturn : Neutral "return " := fun _ => rfl
    have hend : Neutral ";\n" := fun _ => rfl
    have hnewline : Neutral "\n" := fun _ => rfl
    exact ((hhead.neutral.braced (((hindented.neutral.append hreturn).append
      hvalue.neutral).append hend)).append hnewline) 0
  · refine ⟨_, f.result.text, ?_, hhead.noReturn.opened hindented.noReturn, hvalue.noReturn⟩
    have hend : (";\n\x7d\n" : String) = ";\n" ++ ("\x7d" ++ "\n") := rfl
    rw [hend]
    simp only [String.append_assoc]

end

end CalcLang.C
