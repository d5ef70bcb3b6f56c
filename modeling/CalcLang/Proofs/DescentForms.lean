import CalcLang.Proofs.Standing

/-!
# Readers and forms

Where a form stands, reading by recursive descent gives what the form gives, and ends where the form
ends. Each reader of `Descent` is compared with the function of `Parse` that reads the items of the
same list: `Descent.Gives` says that both succeed, with related results, or both fail with the same
error, and it goes through sequences step by step (`Descent.Gives.bind`). It also says that the
reader ends.

What is left of a list is described by `Descent.Left`. Expressions follow by induction on forms
(`Descent.agreesInside`), as what is read of a list uses what is read of its items.
-/

namespace CalcLang

namespace Descent

/-! ## Related outcomes -/

section Gives

variable {α β γ δ : Type}

/-- From a position a reader gives a certain outcome: the same error, or a result at a position that
are related to the expected one. -/
def Gives (x : Reader α) (p : Nat) (o : Parse.Result β) (R : α → Nat → β → Prop) : Prop :=
  match o with
  | .error e => ∃ q, x p = some (.error e, q)
  | .ok b => ∃ a q, x p = some (.ok a, q) ∧ R a q b

theorem bind_ok {x : Reader α} {f : α → Reader β} {p q : Nat} {a : α}
    (h : x p = some (.ok a, q)) : (x >>= f) p = f a q := by
  change (x p).bind _ = _
  rw [h]
  rfl

theorem bind_error {x : Reader α} {f : α → Reader β} {p q : Nat} {e : ParseError}
    (h : x p = some (.error e, q)) : (x >>= f) p = some (.error e, q) := by
  change (x p).bind _ = _
  rw [h]
  rfl

namespace Gives

variable {x : Reader α} {p q : Nat} {R : α → Nat → γ → Prop} {S : β → Nat → δ → Prop}

theorem pure {a : α} {c : γ} (h : R a p c) : Gives (pure a) p (.ok c) R := ⟨a, p, rfl, h⟩

theorem throw (e : ParseError) : Gives (throw e) p (.error e) R := ⟨p, rfl⟩

theorem bind {o : Parse.Result γ} {f : α → Reader β} {g : γ → Parse.Result δ}
    (hx : Gives x p o R) (hf : ∀ a q c, R a q c → Gives (f a) q (g c) S) :
    Gives (x >>= f) p (o >>= g) S := by
  cases o with
  | error e =>
    obtain ⟨q, hq⟩ := hx
    exact ⟨q, bind_error hq⟩
  | ok c =>
    obtain ⟨a, q, hq, hR⟩ := hx
    have h := hf a q c hR
    change Gives (x >>= f) p (g c) S
    unfold Gives at h ⊢
    rwa [bind_ok hq]

/-- A step that succeeds, and that the expected outcome does not have. -/
theorem step {a : α} {f : α → Reader β} {o : Parse.Result δ} (hx : x p = some (.ok a, q))
    (h : Gives (f a) q o S) : Gives (x >>= f) p o S := by
  unfold Gives at h ⊢
  rwa [bind_ok hx]

/-- A step that fails. -/
theorem fail {e : ParseError} {f : α → Reader β} (hx : x p = some (.error e, q)) :
    Gives (x >>= f) p (.error e) S := ⟨q, bind_error hx⟩

theorem mono {o : Parse.Result γ} {T : α → Nat → γ → Prop} (hx : Gives x p o R)
    (h : ∀ a q c, R a q c → T a q c) : Gives x p o T := by
  cases o with
  | error e => exact hx
  | ok c =>
    obtain ⟨a, q, hq, hR⟩ := hx
    exact ⟨a, q, hq, h a q c hR⟩

theorem map {o : Parse.Result γ} {g : γ → δ} {T : α → Nat → δ → Prop} (hx : Gives x p o R)
    (h : ∀ a q c, R a q c → T a q (g c)) : Gives x p (o.map g) T := by
  cases o with
  | error e => exact hx
  | ok c =>
    obtain ⟨a, q, hq, hR⟩ := hx
    exact ⟨a, q, hq, h a q c hR⟩

/-- The reader ends. What it reads, if it does, is related to something. -/
theorem exists_result {o : Parse.Result γ} (hx : Gives x p o R) :
    ∃ r q, x p = some (r, q) ∧ ∀ a, r = .ok a → ∃ c, R a q c := by
  cases o with
  | error e =>
    obtain ⟨q, hq⟩ := hx
    exact ⟨.error e, q, hq, nofun⟩
  | ok c =>
    obtain ⟨a, q, hq, hR⟩ := hx
    refine ⟨.ok a, q, hq, ?_⟩
    rintro _ ⟨⟩
    exact ⟨c, hR⟩

theorem ofExcept {R : α → Nat → α → Prop} (o : Parse.Result α) (h : ∀ a, R a p a) :
    Gives (ofExcept o) p o R := by
  cases o with
  | error e => exact .throw e
  | ok a => exact .pure (h a)

end Gives

end Gives

/-! ## Single tokens -/

variable {s : Input} {p : Nat}

theorem current_eq (s : Input) (p : Nat) :
    s.current p = some (.ok (tokenAt s.tokens p), p) := rfl

theorem advance_eq (h : (tokenAt s.tokens p).kind ≠ .eof) :
    s.advance p = some (.ok (tokenAt s.tokens p), p + 1) := by
  rw [Input.advance, behind, if_neg h]

theorem expect_eq {kind : TokenKind} (h : (tokenAt s.tokens p).kind = kind) (hne : kind ≠ .eof) :
    s.expect kind p = some (.ok (tokenAt s.tokens p), p + 1) := by
  rw [Input.expect, bind_ok (current_eq s p), if_pos h]
  exact advance_eq (h ▸ hne)

theorem expect_ne {kind : TokenKind} (h : (tokenAt s.tokens p).kind ≠ kind) :
    s.expect kind p =
      some (.error (Parse.unexpected (.token kind) (tokenAt s.tokens p)), p) := by
  rw [Input.expect, bind_ok (current_eq s p), if_neg h]
  rfl

theorem ident_eq (h : (tokenAt s.tokens p).kind = .ident) : s.ident p =
    some (.ok ⟨(tokenAt s.tokens p).text, Parse.tokenPos s.file (tokenAt s.tokens p)⟩, p + 1) := by
  rw [Input.ident, bind_ok (expect_eq h (by decide))]
  rfl

theorem ident_ne (h : (tokenAt s.tokens p).kind ≠ .ident) : s.ident p =
    some (.error (Parse.unexpected (.token .ident) (tokenAt s.tokens p)), p) := by
  rw [Input.ident, bind_error (expect_ne h)]

theorem typeOf?_isSome_iff (file : FileId) (t : Token) :
    (Parse.typeOf? file t).isSome ↔ t.kind = .intWord ∨ t.kind = .boolWord := by
  unfold Parse.typeOf?
  split <;> simp_all

theorem typeName_eq {ty : TypeExpr} (h : Parse.typeOf? s.file (tokenAt s.tokens p) = some ty) :
    s.typeName p = some (.ok ty, p + 1) := by
  have hne : (tokenAt s.tokens p).kind ≠ .eof := by
    have hkind := (typeOf?_isSome_iff s.file _).1 (Option.isSome_of_eq_some h)
    rcases hkind with hkind | hkind <;> simp [hkind]
  rw [Input.typeName, bind_ok (current_eq s p), h]
  exact bind_ok (advance_eq hne)

theorem typeName_ne (h : Parse.typeOf? s.file (tokenAt s.tokens p) = none) :
    s.typeName p =
      some (.error (Parse.unexpected .typeName (tokenAt s.tokens p)), p) := by
  rw [Input.typeName, bind_ok (current_eq s p), h]
  rfl

/-! ## What is left of a list -/

variable (s) in
/-- Reading an expression where a form stands gives what the form gives. -/
def Agrees (f : Form) : Prop :=
  ∀ p q, Stands s.tokens f p q →
    Gives s.expr p (Parse.formExpr s.file f) fun e r e' => e = e' ∧ r = q

variable (s) in
mutual

/-- Reading agrees with a form and with those inside it. -/
def AgreesInside : Form → Prop
  | .atom t => Agrees s (.atom t)
  | .list opening items closing =>
    Agrees s (.list opening items closing) ∧ AllAgreeInside items

/-- Reading agrees with some forms and with those inside them. -/
def AllAgreeInside : List Form → Prop
  | [] => True
  | f :: fs => AgreesInside f ∧ AllAgreeInside fs

end

theorem AgreesInside.agrees {f : Form} (h : AgreesInside s f) : Agrees s f := by
  cases f with
  | atom t => exact h
  | list opening items closing => exact h.1

variable (s) in
/-- Some forms and the token that closes their list at `m` are what is left of a list, and reading
agrees with the forms. -/
structure Left (closing : Token) (m : Nat) (fs : List Form) (p : Nat) : Prop where
  stand : StandAll s.tokens fs p m
  last : tokenAt s.tokens m = closing
  ends : closing.kind = .rightParen ∨ closing.kind = .eof
  agrees : AllAgreeInside s fs

variable {closing opening : Token} {m : Nat} {fs : List Form}

variable (s) in
/-- The result is the expected one, and what it leaves of a list stands at the position. -/
def Leaves (closing : Token) (m : Nat) {α : Type} (a : α) (q : Nat)
    (c : α × List Parse.Item) : Prop :=
  a = c.1 ∧ ∃ fs, c.2 = Parse.formItems s.file fs ∧ Left s closing m fs q

/-- The result is the expected one, and the list has been closed. -/
def Finishes (closing : Token) (m : Nat) {α : Type} (a : α) (q : Nat) (b : α) : Prop :=
  a = b ∧ closing.kind = .rightParen ∧ q = m + 1

/-- Inside the parentheses of a list its items are left. -/
theorem Stands.inside {items : List Form} {q : Nat}
    (h : Stands s.tokens (.list opening items closing) p q)
    (hagrees : AllAgreeInside s items) :
    (tokenAt s.tokens p).kind = .leftParen ∧ ∃ m, Left s closing m items (p + 1) ∧
      (closing.kind = .rightParen → q = m + 1) := by
  obtain ⟨hopening, hopen, m, hitems, hclosing, hends⟩ := h
  refine ⟨hopening ▸ hopen, m, ⟨hitems, hclosing, hends.imp And.left And.left, hagrees⟩, ?_⟩
  intro hkind
  obtain ⟨-, hq⟩ | ⟨heof, -⟩ := hends
  · exact hq
  · cases hkind.symm.trans heof

theorem kind_ne_of_closing (kind : TokenKind)
    (h : closing.kind = .rightParen ∨ closing.kind = .eof)
    (hclose : kind ≠ .rightParen := by decide) (heof : kind ≠ .eof := by decide) :
    closing.kind ≠ kind := by
  rintro rfl
  exact h.elim hclose heof

namespace Left

theorem nil (h : Left s closing m [] p) : p = m := h.stand

/-- Where nothing is left, the list is closed. -/
theorem token_nil (h : Left s closing m [] p) : tokenAt s.tokens p = closing := by
  rw [h.nil]
  exact h.last

/-- The next token is that of the items. -/
theorem token (h : Left s closing m fs p) :
    tokenAt s.tokens p = Parse.next closing (Parse.formItems s.file fs) := by
  cases fs with
  | nil => exact h.token_nil
  | cons f fs =>
    obtain ⟨_, hf, -⟩ := h.stand
    exact hf.head.1

/-- An atom is a single token. -/
theorem atom {t : Token} (h : Left s closing m (.atom t :: fs) p) :
    tokenAt s.tokens p = t ∧ t.kind ≠ .leftParen ∧ t.kind ≠ .rightParen ∧ t.kind ≠ .eof ∧
      Left s closing m fs (p + 1) := by
  obtain ⟨⟨q, ⟨ht, rfl, hopen, hclose, heof⟩, hfs⟩, hm, hends, hagrees⟩ := h
  exact ⟨ht, hopen, hclose, heof, hfs, hm, hends, hagrees.2⟩

/-- A list is left together with its items. What is behind it stands behind the token that closes
it. -/
theorem list {start c : Token} {items : List Form}
    (h : Left s closing m (.list start items c :: fs) p) :
    (tokenAt s.tokens p).kind = .leftParen ∧ ∃ n, Left s c n items (p + 1) ∧
      (c.kind = .rightParen → Left s closing m fs (n + 1)) := by
  obtain ⟨⟨q, hlist, hfs⟩, hm, hends, ⟨-, hinside⟩, hagrees⟩ := h
  obtain ⟨hopen, n, hinner, hq⟩ := hlist.inside hinside
  exact ⟨hopen, n, hinner, fun hkind => ⟨hq hkind ▸ hfs, hm, hends, hagrees⟩⟩

/-- An equals sign closes nothing and starts no list, so it is an atom. -/
theorem exists_atom (h : Left s closing m fs p) (hp : (tokenAt s.tokens p).kind = .eq) :
    ∃ rest, fs = .atom (tokenAt s.tokens p) :: rest ∧ Left s closing m rest (p + 1) := by
  rcases fs with _ | ⟨t | ⟨start, items, c⟩, fs⟩
  · exact absurd (h.token_nil ▸ hp) (kind_ne_of_closing .eq h.ends)
  · obtain ⟨rfl, -, -, -, hrest⟩ := h.atom
    exact ⟨fs, rfl, hrest⟩
  · cases hp.symm.trans h.list.1

/-- Nothing is left where a list is closed. -/
theorem eq_nil (h : Left s closing m fs p) (hp : (tokenAt s.tokens p).kind = .rightParen) :
    fs = [] := by
  cases fs with
  | nil => rfl
  | cons f fs =>
    obtain ⟨_, hf, -⟩ := h.stand
    exact absurd (hf.head.1 ▸ hp) hf.head.2.1

end Left

/-! ## Parts of lists -/

theorem gives_ident (h : Left s closing m fs p) :
    Gives s.ident p (Parse.ident s.file closing (Parse.formItems s.file fs))
      (Leaves s closing m) := by
  have herror (hne : (tokenAt s.tokens p).kind ≠ .ident) :
      Gives s.ident p
        (.error (Parse.unexpected (.token .ident) (tokenAt s.tokens p)))
        (Leaves s closing m) :=
    ⟨p, ident_ne hne⟩
  match fs with
  | [] =>
    have hgives := herror (h.token_nil ▸ kind_ne_of_closing .ident h.ends)
    rwa [h.token_nil] at hgives
  | .atom t :: fs =>
    obtain ⟨rfl, -, -, -, hrest⟩ := h.atom
    rw [Parse.formItems, Parse.ident]
    split
    · next hkind => exact ⟨_, p + 1, ident_eq hkind, rfl, fs, rfl, hrest⟩
    · next hkind => exact herror hkind
  | .list opening items inner :: fs =>
    obtain ⟨_, ⟨ht, hkind, -⟩, -⟩ := h.stand
    subst ht
    exact herror (by rw [hkind]; decide)

/-- Either the next token is a type and an item, or there is no type. -/
theorem optionalType_cases (h : Left s closing m fs p) :
    (∃ ty rest, Parse.typeOf? s.file (tokenAt s.tokens p) = some ty ∧
      Parse.optionalType s.file (Parse.formItems s.file fs) =
        (some ty, Parse.formItems s.file rest) ∧ Left s closing m rest (p + 1)) ∨
    Parse.typeOf? s.file (tokenAt s.tokens p) = none ∧
      Parse.optionalType s.file (Parse.formItems s.file fs) =
        (none, Parse.formItems s.file fs) := by
  have hnone : (tokenAt s.tokens p).kind ≠ .intWord → (tokenAt s.tokens p).kind ≠ .boolWord →
      Parse.typeOf? s.file (tokenAt s.tokens p) = none := by
    intro hint hbool
    rw [← Option.not_isSome_iff_eq_none, typeOf?_isSome_iff]
    exact fun hor => hor.elim hint hbool
  match fs with
  | [] =>
    have hint := kind_ne_of_closing .intWord h.ends
    have hbool := kind_ne_of_closing .boolWord h.ends
    rw [← h.token_nil] at hint hbool
    exact .inr ⟨hnone hint hbool, rfl⟩
  | .atom t :: fs =>
    obtain ⟨rfl, -, -, -, hrest⟩ := h.atom
    rw [Parse.formItems, Parse.optionalType]
    split
    · next ty hty => exact .inl ⟨ty, fs, hty, rfl, hrest⟩
    · next hty => exact .inr ⟨hty, rfl⟩
  | .list opening items inner :: fs =>
    obtain ⟨_, ⟨ht, hkind, -⟩, -⟩ := h.stand
    subst ht
    exact .inr ⟨hnone (by rw [hkind]; decide) (by rw [hkind]; decide), rfl⟩

theorem exists_optionalType (h : Left s closing m fs p) :
    ∃ ty rest q, Parse.optionalType s.file (Parse.formItems s.file fs) =
        (ty, Parse.formItems s.file rest) ∧
      s.optionalType p = some (.ok ty, q) ∧ Left s closing m rest q := by
  rw [Input.optionalType, bind_ok (current_eq s p)]
  obtain ⟨ty, rest, hty, hitems, hrest⟩ | ⟨hty, hitems⟩ := optionalType_cases h
  · rw [hty]
    exact ⟨some ty, rest, p + 1, hitems, bind_ok (typeName_eq hty), hrest⟩
  · rw [hty]
    exact ⟨none, fs, p, hitems, rfl, h⟩

theorem gives_typeName (h : Left s closing m fs p) :
    Gives s.typeName p (Parse.requiredType s.file closing (Parse.formItems s.file fs))
      (Leaves s closing m) := by
  rw [Parse.requiredType]
  obtain ⟨ty, rest, hty, hitems, hrest⟩ | ⟨hty, hitems⟩ := optionalType_cases h
  · rw [hitems]
    exact ⟨ty, p + 1, typeName_eq hty, rfl, rest, rfl, hrest⟩
  · rw [hitems, ← h.token]
    exact ⟨p, typeName_ne hty⟩

theorem gives_expression (h : Left s closing m fs p) :
    Gives s.expr p (Parse.expression closing (Parse.formItems s.file fs))
      (Leaves s closing m) := by
  match fs with
  | [] =>
    have ht := h.token_nil
    refine ⟨p, ?_⟩
    rw [Input.expr, bind_ok (current_eq s p), ht]
    rcases h.ends with hkind | hkind <;> rw [hkind] <;> rfl
  | f :: fs =>
    obtain ⟨⟨q, hf, hfs⟩, hm, hends, hagrees⟩ := h
    refine (hagrees.1.agrees p q hf).map ?_
    rintro e _ _ ⟨rfl, rfl⟩
    exact ⟨rfl, fs, rfl, hfs, hm, hends, hagrees.2⟩

theorem gives_operands (h : Left s closing m fs p) :
    Gives s.operands p (Parse.operands (Parse.formItems s.file fs)) fun es q es' =>
      es = es' ∧ Left s closing m [] q := by
  induction fs generalizing p with
  | nil =>
    have ht := h.token_nil
    refine ⟨[], p, ?_, rfl, h⟩
    rw [Input.operands, bind_ok (current_eq s p), ht, if_pos h.ends]
    rfl
  | cons f fs ih =>
    obtain ⟨⟨q, hf, hfs⟩, hm, hends, hagrees⟩ := h
    rw [Input.operands]
    refine .step (current_eq s p) ?_
    have hmore :
        ¬ ((tokenAt s.tokens p).kind = .rightParen ∨ (tokenAt s.tokens p).kind = .eof) := by
      rw [hf.head.1]
      exact fun hor => hor.elim hf.head.2.1 hf.head.2.2
    rw [if_neg hmore, Parse.formItems, Parse.operands]
    refine (hagrees.1.agrees p q hf).bind ?_
    rintro e _ _ ⟨rfl, rfl⟩
    refine (ih ⟨hfs, hm, hends, hagrees.2⟩).bind ?_
    rintro es r _ ⟨rfl, hleft⟩
    exact .pure ⟨rfl, hleft⟩

theorem gives_close (opening : Token) (h : Left s closing m fs p) :
    Gives (s.expectClose opening) p
      (Parse.close opening closing (Parse.formItems s.file fs))
      fun t q _ => Finishes closing m t q closing := by
  rw [Input.expectClose, Parse.close, ← h.token]
  refine .step (current_eq s p) ?_
  by_cases hkind : (tokenAt s.tokens p).kind = .rightParen
  · obtain rfl := h.eq_nil hkind
    obtain rfl := h.nil
    have ht := h.token_nil
    rw [if_pos hkind, if_pos hkind]
    exact ⟨_, p + 1, advance_eq (by rw [hkind]; decide), ht, ht ▸ hkind, rfl⟩
  · rw [if_neg hkind, if_neg hkind]
    exact .throw _

/-! ## Lists -/

theorem gives_operatorForm {operator : Token}
    (h : Left s closing m (.atom operator :: fs) p) :
    Gives (s.operatorForm opening) p
      (Parse.operatorForm s.file opening operator closing (Parse.formItems s.file fs))
      (Finishes closing m) := by
  obtain ⟨rfl, -, -, heof, hrest⟩ := h.atom
  rw [Input.operatorForm, Parse.operatorForm]
  refine .step (advance_eq heof) ?_
  refine (gives_operands hrest).bind ?_
  rintro es q _ ⟨rfl, hleft⟩
  refine (gives_close opening hleft).bind ?_
  rintro _ r _ ⟨rfl, hkind, rfl⟩
  exact .ofExcept _ fun e => ⟨rfl, hkind, rfl⟩

theorem gives_ifForm {word : Token} (h : Left s closing m (.atom word :: fs) p) :
    Gives (s.ifForm opening) p
      (Parse.ifForm s.file opening closing (Parse.formItems s.file fs)) (Finishes closing m) := by
  obtain ⟨rfl, -, -, heof, hrest⟩ := h.atom
  rw [Input.ifForm, Parse.ifForm]
  refine .step (advance_eq heof) ?_
  refine (gives_expression hrest).bind ?_
  rintro test q₁ ⟨_, _⟩ ⟨rfl, fs₁, rfl, hleft₁⟩
  obtain ⟨ty, fs₂, q₂, hitems, hread, hleft₂⟩ := exists_optionalType hleft₁
  dsimp only
  rw [hitems]
  refine .step hread ?_
  refine (gives_expression hleft₂).bind ?_
  rintro yes q₃ ⟨_, _⟩ ⟨rfl, fs₃, rfl, hleft₃⟩
  dsimp only
  rw [← hleft₃.token]
  refine .step (current_eq s q₃) ?_
  split
  · next hkind =>
    -- Here the list is closed, as no form starts with such a token.
    obtain rfl := hleft₃.eq_nil hkind
    obtain rfl := hleft₃.nil
    have ht := hleft₃.token_nil
    refine .step (a := closing) (q := q₃ + 1) ?_ (.pure ⟨rfl, ht ▸ hkind, rfl⟩)
    rw [Input.expectClose, bind_ok (current_eq s q₃), if_pos hkind, ← ht]
    exact advance_eq (by rw [hkind]; decide)
  · refine (gives_expression hleft₃).bind ?_
    rintro no q₄ ⟨_, _⟩ ⟨rfl, fs₄, rfl, hleft₄⟩
    refine (gives_close opening hleft₄).bind ?_
    rintro _ r _ ⟨rfl, hkind, rfl⟩
    exact .pure ⟨rfl, hkind, rfl⟩

theorem gives_assignForm {equals : Token} (h : Left s closing m (.atom equals :: fs) p) :
    Gives (s.assignForm opening) p
      (Parse.assignForm s.file opening closing (Parse.formItems s.file fs))
      (Finishes closing m) := by
  obtain ⟨rfl, -, -, heof, hrest⟩ := h.atom
  rw [Input.assignForm, Parse.assignForm]
  refine .step (advance_eq heof) ?_
  refine (gives_ident hrest).bind ?_
  rintro name q₁ ⟨_, _⟩ ⟨rfl, fs₁, rfl, hleft₁⟩
  refine (gives_expression hleft₁).bind ?_
  rintro value q₂ ⟨_, _⟩ ⟨rfl, fs₂, rfl, hleft₂⟩
  refine (gives_close opening hleft₂).bind ?_
  rintro _ r _ ⟨rfl, hkind, rfl⟩
  exact .pure ⟨rfl, hkind, rfl⟩

theorem gives_callForm (h : Left s closing m fs p) :
    Gives (s.callForm opening) p
      (Parse.callForm s.file opening closing (Parse.formItems s.file fs)) (Finishes closing m) := by
  rw [Input.callForm, Parse.callForm]
  refine (gives_ident h).bind ?_
  rintro name q₁ ⟨_, _⟩ ⟨rfl, fs₁, rfl, hleft₁⟩
  refine (gives_operands hleft₁).bind ?_
  rintro args q₂ _ ⟨rfl, hleft₂⟩
  refine (gives_close opening hleft₂).bind ?_
  rintro _ r _ ⟨rfl, hkind, rfl⟩
  exact .pure ⟨rfl, hkind, rfl⟩

theorem gives_blockForm (h : Left s closing m fs p) :
    Gives (s.blockForm opening) p
      (Parse.blockForm s.file opening closing (Parse.formItems s.file fs))
      (Finishes closing m) := by
  rw [Input.blockForm, Parse.blockForm]
  refine (gives_operands h).bind ?_
  rintro exprs q _ ⟨rfl, hleft⟩
  refine (gives_close opening hleft).bind ?_
  rintro _ r _ ⟨rfl, hkind, rfl⟩
  exact .pure ⟨rfl, hkind, rfl⟩

/-- An assignment in its own parentheses gives a variable its initial value. -/
theorem introduced_assignment (closing start c : Token) {t : Token} (h : t.kind = .eq)
    (items fs : List Form) :
    Parse.introduced s.file closing
        (Parse.formItems s.file (.list start (.atom t :: items) c :: fs)) =
      Parse.assignForm s.file start c (Parse.formItems s.file items) >>= fun e =>
        match e with
        | .assign name value _ => .ok ((name, some value), Parse.formItems s.file fs)
        | _ => .error (Parse.unexpected (.token .eq) t) := by
  rw [Parse.formItems, Parse.formExpr, Parse.formItems, Parse.listExpr, h]
  exact if_pos h

/-- No other form does that. -/
theorem introduced_other (closing start c : Token) {items : List Form}
    (h : (Parse.next c (Parse.formItems s.file items)).kind ≠ .eq) (fs : List Form) :
    Parse.introduced s.file closing (Parse.formItems s.file (.list start items c :: fs)) =
      .error (Parse.unexpected (.token .eq) (Parse.next c (Parse.formItems s.file items))) := by
  cases items with
  | nil => exact if_neg h
  | cons f items => exact if_neg h

theorem gives_introduced (h : Left s closing m fs p) :
    Gives s.introduced p
      (Parse.introduced s.file closing (Parse.formItems s.file fs)) (Leaves s closing m) := by
  rw [Input.introduced]
  refine .step (current_eq s p) ?_
  match fs with
  | [] =>
    rw [h.token_nil]
    rcases h.ends with hkind | hkind <;> rw [hkind] <;> exact .throw _
  | .atom t :: fs =>
    obtain ⟨rfl, hopen, -, -, hrest⟩ := h.atom
    rw [Parse.formItems, Parse.introduced]
    split
    · next hkind =>
      rw [if_pos hkind]
      exact .step (ident_eq hkind) (.pure ⟨rfl, fs, rfl, hrest⟩)
    · next hkind => exact absurd hkind hopen
    · next hkind _ =>
      rw [if_neg hkind]
      exact .throw _
  | .list start items c :: fs =>
    have hstart : tokenAt s.tokens p = start := h.token
    obtain ⟨hopen, n, hinner, hrest⟩ := h.list
    rw [hopen]
    refine .step (advance_eq (by rw [hopen]; decide)) ?_
    rw [hstart]
    by_cases hkind : (tokenAt s.tokens (p + 1)).kind = .eq
    · refine .step (expect_eq hkind (by decide)) ?_
      obtain ⟨items, rfl, hname⟩ := hinner.exists_atom hkind
      rw [introduced_assignment closing start c hkind, Parse.assignForm]
      simp only [bind_assoc]
      refine (gives_ident hname).bind ?_
      rintro name q₁ ⟨_, _⟩ ⟨rfl, fs₁, rfl, hleft₁⟩
      refine (gives_expression hleft₁).bind ?_
      rintro value q₂ ⟨_, _⟩ ⟨rfl, fs₂, rfl, hleft₂⟩
      refine (gives_close start hleft₂).bind ?_
      rintro _ _ _ ⟨rfl, hparen, rfl⟩
      exact .pure ⟨rfl, fs, rfl, hrest hparen⟩
    · rw [introduced_other closing start c (hinner.token ▸ hkind), ← hinner.token]
      exact .fail (expect_ne hkind)

theorem gives_varForm {word : Token} (h : Left s closing m (.atom word :: fs) p) :
    Gives (s.varForm opening) p
      (Parse.varForm s.file opening closing (Parse.formItems s.file fs)) (Finishes closing m) := by
  obtain ⟨rfl, -, -, heof, hrest⟩ := h.atom
  rw [Input.varForm, Parse.varForm]
  refine .step (advance_eq heof) ?_
  refine (gives_introduced hrest).bind ?_
  rintro ⟨name, init⟩ q₁ ⟨_, _⟩ ⟨rfl, fs₁, rfl, hleft₁⟩
  obtain ⟨ty, fs₂, q₂, hitems, hread, hleft₂⟩ := exists_optionalType hleft₁
  dsimp only
  rw [hitems]
  refine .step hread ?_
  refine (gives_close opening hleft₂).bind ?_
  rintro _ r _ ⟨rfl, hkind, rfl⟩
  cases init with
  | some init => exact .pure ⟨rfl, hkind, rfl⟩
  | none =>
    cases ty with
    | some ty => exact .pure ⟨rfl, hkind, rfl⟩
    | none => exact .throw _

/-- No word but these starts a form, and a form with any other token at its head is an operation. -/
theorem listExpr_other {t : Token} (hif : t.kind ≠ .ifWord) (hvar : t.kind ≠ .var)
    (heq : t.kind ≠ .eq) (hident : t.kind ≠ .ident) (hdecl : t.kind ≠ .decl)
    (expr : Parse.Result Expr) (rest : List Parse.Item) :
    Parse.listExpr s.file opening closing (⟨.atom t, expr⟩ :: rest) =
      if t.kind.isOperator then Parse.operatorForm s.file opening t closing rest
      else .error (Parse.unexpected .formHead t) := by
  rw [Parse.listExpr]
  split
  · contradiction
  · contradiction
  · contradiction
  · contradiction
  · contradiction
  · rfl

/-- A list is read from its parenthesis on. -/
theorem gives_listForm (hopening : tokenAt s.tokens p = opening)
    (hopen : (tokenAt s.tokens p).kind = .leftParen)
    (h : Left s closing m fs (p + 1)) :
    Gives s.listForm p
      (Parse.listExpr s.file opening closing (Parse.formItems s.file fs)) (Finishes closing m) := by
  rw [Input.listForm]
  refine .step (advance_eq (by rw [hopen]; decide)) ?_
  rw [hopening]
  refine .step (current_eq s (p + 1)) ?_
  match fs with
  | [] =>
    rw [h.token_nil, Parse.formItems, Parse.listExpr]
    rcases h.ends with hkind | hkind <;> rw [hkind]
    · exact .throw _
    · exact .throw _
  | .list o is c :: fs =>
    obtain ⟨_, ⟨ho, hparen, -⟩, -⟩ := h.stand
    rw [ho, hparen]
    exact gives_blockForm h
  | .atom t :: fs =>
    obtain ⟨rfl, hne, hclose, heof, -⟩ := h.atom
    rw [Parse.formItems]
    split
    · next hkind =>
      rw [Parse.listExpr, hkind]
      exact gives_ifForm h
    · next hkind =>
      rw [Parse.listExpr, hkind]
      exact gives_varForm h
    · next hkind =>
      rw [Parse.listExpr, hkind]
      exact gives_assignForm h
    · next hkind =>
      rw [Parse.listExpr, hkind]
      exact gives_callForm h
    · next hkind => exact absurd hkind hne
    · next hkind => exact absurd hkind hclose
    · next hkind =>
      rw [Parse.listExpr, hkind]
      exact .throw _
    · next hif hvar heq hident _ _ hdecl =>
      rw [listExpr_other hif hvar heq hident hdecl]
      split
      · exact gives_operatorForm h
      · exact .throw _

/-! ## Forms -/

theorem agrees_atom (t : Token) : Agrees s (.atom t) := by
  rintro p q ⟨rfl, rfl, hopen, -, heof⟩
  rw [Input.expr, Parse.formExpr]
  refine .step (current_eq s p) ?_
  have hread : Gives (s.advance >>= fun t => ofExcept (Parse.atomExpr s.file t)) p
      (Parse.atomExpr s.file (tokenAt s.tokens p)) fun e r e' => e = e' ∧ r = p + 1 :=
    .step (advance_eq heof) (.ofExcept _ fun _ => ⟨rfl, rfl⟩)
  split
  · next hkind => exact absurd hkind hopen
  · exact hread
  · exact hread
  · exact hread
  · exact hread
  · next hint htrue hfalse hident =>
    rw [Parse.atomExpr]
    split
    · next hkind => exact absurd hkind hint
    · next hkind => exact absurd hkind htrue
    · next hkind => exact absurd hkind hfalse
    · next hkind => exact absurd hkind hident
    · exact .throw _

theorem agrees_list {items : List Form} (h : AllAgreeInside s items) :
    Agrees s (.list opening items closing) := by
  intro p q hstands
  obtain ⟨hopen, m, hleft, hend⟩ := hstands.inside h
  rw [Input.expr, Parse.formExpr]
  refine .step (current_eq s p) ?_
  rw [hopen]
  refine (gives_listForm hstands.head.1 hopen hleft).mono ?_
  rintro e _ _ ⟨rfl, hkind, rfl⟩
  exact ⟨rfl, (hend hkind).symm⟩

variable (s) in
mutual

/-- **Where a form stands, reading gives what the form gives, and ends where the form does.** -/
theorem agreesInside : ∀ f : Form, AgreesInside s f
  | .atom t => agrees_atom t
  | .list _ items _ => ⟨agrees_list (allAgreeInside items), allAgreeInside items⟩

theorem allAgreeInside : ∀ fs : List Form, AllAgreeInside s fs
  | [] => trivial
  | f :: fs => ⟨agreesInside f, allAgreeInside fs⟩

end

end Descent

end CalcLang
