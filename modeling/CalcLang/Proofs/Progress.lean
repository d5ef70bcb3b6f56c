import CalcLang.Proofs.DescentForms
import CalcLang.Proofs.Scanning

/-!
# Progress

No reader of `Descent` bounds its loops, and still each of them ends. What is read as an expression,
a type or a parameter has at least one token and never the end of the text (`Descent.Progresses`).
Each round of the loop over a text ends behind where it started (`Descent.topItem_cons`), also one
that goes back to the start of a declaration that cannot be read: the list that stands there is
skipped as a whole (`Descent.recover_eq`). So the loop stops at the end of the text, after fewer
rounds than there are tokens (`Descent.reading_progresses`).

What the rounds give is what the forms of the text give, and so the two ways to parse a text are the
same (`Descent.ofText_eq_text`).
-/

namespace CalcLang

namespace Descent

variable {s : Input} {p q m : Nat} {fs : List Form} {closing opening : Token}

/-! ## Declarations -/

theorem typeOf?_span {file : FileId} {t : Token} {ty : TypeExpr}
    (h : Parse.typeOf? file t = some ty) :
    ty.pos.span = t.span := by
  unfold Parse.typeOf? at h
  split at h <;> cases h <;> rfl

/-- A type is given to the names that wait for it, and then come the other parameters. -/
theorem gives_typedParams {waiting : List Ident} {ty : TypeExpr}
    (hty : Parse.typeOf? s.file (tokenAt s.tokens p) = some ty)
    (hothers : Gives (s.paramItems []) (p + 1) (Parse.params s.file closing [] fs)
      (Finishes closing m)) :
    Gives (do
      let ty ← s.typeName
      if waiting.isEmpty then throw ⟨.typeWithoutNames ty.ty, ty.pos.span⟩
      else do
        let others ← s.paramItems []
        return waiting.map (⟨·, ty⟩) ++ others) p
      (if waiting.isEmpty then .error ⟨.typeWithoutNames ty.ty, (tokenAt s.tokens p).span⟩
      else do
        let others ← Parse.params s.file closing [] fs
        .ok (waiting.map (⟨·, ty⟩) ++ others)) (Finishes closing m) := by
  refine .step (typeName_eq hty) ?_
  split
  · rw [typeOf?_span hty]
    exact .throw _
  · refine hothers.bind ?_
    rintro others r _ ⟨rfl, hkind, rfl⟩
    exact .pure ⟨rfl, hkind, rfl⟩

/-- The parameters up to the end of their list. -/
theorem gives_paramItems (waiting : List Ident) (h : Left s closing m fs p) :
    Gives (s.paramItems waiting) p (Parse.params s.file closing waiting fs)
      (Finishes closing m) := by
  induction fs generalizing p waiting with
  | nil =>
    have ht := h.token_nil
    obtain rfl := h.nil
    rw [Input.paramItems.eq_def, Parse.params.eq_def]
    refine .step (current_eq s p) ?_
    rw [ht]
    rcases h.ends with hkind | hkind
    · rw [hkind, if_pos rfl]
      refine .step (advance_eq (by rw [ht, hkind]; decide)) ?_
      cases waiting with
      | nil => exact .pure ⟨rfl, hkind, rfl⟩
      | cons first others => exact .throw _
    · rw [hkind, if_neg (by decide)]
      exact .throw _
  | cons f fs ih =>
    rw [Input.paramItems.eq_def]
    refine .step (current_eq s p) ?_
    cases f with
    | list o items c =>
      obtain ⟨_, ⟨ho, hopen, -⟩, -⟩ := h.stand
      rw [ho, hopen]
      exact .throw _
    | atom t =>
      obtain ⟨rfl, -, hclose, -, hrest⟩ := h.atom
      rw [Parse.params]
      by_cases hkind : (tokenAt s.tokens p).kind = .ident
      · rw [if_pos hkind, hkind]
        exact .step (ident_eq hkind) (ih _ hrest)
      rw [if_neg hkind]
      cases hty : Parse.typeOf? s.file (tokenAt s.tokens p) with
      | none =>
        have hne := mt (typeOf?_isSome_iff s.file (tokenAt s.tokens p)).2 (by simp [hty])
        split
        · contradiction
        · next hint => exact absurd (.inl hint) hne
        · next hbool => exact absurd (.inr hbool) hne
        · next hright => exact absurd hright hclose
        · exact .throw _
      | some ty =>
        rcases (typeOf?_isSome_iff s.file _).1 (Option.isSome_of_eq_some hty) with hword | hword
        · rw [hword]
          exact gives_typedParams hty (ih [] hrest)
        · rw [hword]
          exact gives_typedParams hty (ih [] hrest)

theorem gives_optionalParams (h : Left s closing m fs p) :
    Gives s.optionalParams p (Parse.optionalParams s.file (Parse.formItems s.file fs))
      (Leaves s closing m) := by
  rw [Input.optionalParams]
  refine .step (current_eq s p) ?_
  match fs with
  | [] =>
    rw [if_neg (by rw [h.token_nil]; exact kind_ne_of_closing _ h.ends)]
    exact .pure ⟨rfl, [], rfl, h⟩
  | .atom t :: fs =>
    obtain ⟨rfl, hopen, -⟩ := h.atom
    rw [if_neg hopen]
    exact .pure ⟨rfl, _ :: fs, rfl, h⟩
  | .list start items c :: fs =>
    obtain ⟨hopen, n, hinner, hrest⟩ := h.list
    rw [if_pos hopen]
    refine .step (advance_eq (by rw [hopen]; decide)) ?_
    refine (gives_paramItems [] hinner).map ?_
    rintro params _ _ ⟨rfl, hkind, rfl⟩
    exact ⟨rfl, fs, rfl, hrest hkind⟩

/-- A declaration ends where its form does. -/
theorem gives_decl {items : List Form}
    (h : Stands s.tokens (.list opening items closing) p q) :
    Gives s.decl p (Parse.decl s.file opening closing (Parse.formItems s.file items))
      fun d r d' => d = d' ∧ r = q := by
  have hopening := h.head.1
  obtain ⟨hopen, m, hleft, hend⟩ := h.inside (allAgreeInside s items)
  have hother : (tokenAt s.tokens (p + 1)).kind ≠ .decl →
      Gives s.decl p
        (.error (Parse.unexpected (.token .decl) (tokenAt s.tokens (p + 1))))
        fun d r (d' : Decl) => d = d' ∧ r = q := by
    intro hkind
    rw [Input.decl]
    refine .step (expect_eq hopen (by decide)) ?_
    exact .fail (expect_ne hkind)
  match items with
  | [] =>
    have hgives := hother (hleft.token_nil ▸ kind_ne_of_closing .decl hleft.ends)
    rwa [hleft.token_nil] at hgives
  | .list o is c :: items =>
    obtain ⟨_, ⟨ho, hparen, -⟩, -⟩ := hleft.stand
    have hgives := hother (by rw [ho, hparen]; decide)
    rwa [ho] at hgives
  | .atom t :: items =>
    obtain ⟨rfl, -, -, -, hleft₁⟩ := hleft.atom
    by_cases hkind : (tokenAt s.tokens (p + 1)).kind = .decl
    · rw [Input.decl, Parse.formItems, Parse.decl]
      refine .step (expect_eq hopen (by decide)) ?_
      refine .step (expect_eq hkind (by decide)) ?_
      rw [hopening, if_neg (not_not_intro hkind)]
      refine (gives_ident hleft₁).bind ?_
      rintro name q₁ ⟨_, _⟩ ⟨rfl, fs₁, rfl, hleft₂⟩
      refine (gives_optionalParams hleft₂).bind ?_
      rintro params q₂ ⟨_, _⟩ ⟨rfl, fs₂, rfl, hleft₃⟩
      refine (gives_typeName hleft₃).bind ?_
      rintro ret q₃ ⟨_, _⟩ ⟨rfl, fs₃, rfl, hleft₄⟩
      refine (gives_expression hleft₄).bind ?_
      rintro body q₄ ⟨_, _⟩ ⟨rfl, fs₄, rfl, hleft₅⟩
      refine (gives_close opening hleft₅).bind ?_
      rintro _ _ _ ⟨rfl, hparen, rfl⟩
      exact .pure ⟨rfl, (hend hparen).symm⟩
    · rw [Parse.formItems, Parse.decl, if_pos hkind]
      exact hother hkind

/-! ## Skipping -/

/-- Skipping ends at the end of the text. -/
theorem skipForm_eof (depth : Nat) (h : (tokenAt s.tokens p).kind = .eof) :
    s.skipForm depth p = some (.ok (), p) := by
  rw [Input.skipForm, bind_ok (current_eq s p), if_pos h]
  rfl

/-- Skipping takes every other token. -/
theorem skipForm_step (depth : Nat) (h : (tokenAt s.tokens p).kind ≠ .eof) :
    s.skipForm depth p = (
      if (tokenAt s.tokens p).kind = .leftParen then s.skipForm (depth + 1)
      else if (tokenAt s.tokens p).kind = .rightParen then
        if depth - 1 = 0 then return () else s.skipForm (depth - 1)
      else s.skipForm depth) (p + 1) := by
  refine (congrFun (Input.skipForm.eq_def s depth) p).trans ?_
  rw [bind_ok (current_eq s p), if_neg h, bind_ok (advance_eq h)]

theorem skipForm_open (depth : Nat) (h : (tokenAt s.tokens p).kind = .leftParen) :
    s.skipForm depth p = s.skipForm (depth + 1) (p + 1) := by
  rw [skipForm_step depth (by rw [h]; decide), if_pos h]

theorem skipForm_close (depth : Nat) (h : (tokenAt s.tokens p).kind = .rightParen) :
    s.skipForm depth p =
      (if depth - 1 = 0 then return () else s.skipForm (depth - 1)) (p + 1) := by
  rw [skipForm_step depth (by rw [h]; decide), if_neg (by rw [h]; decide), if_pos h]

theorem skipForm_other (depth : Nat) (hopen : (tokenAt s.tokens p).kind ≠ .leftParen)
    (hclose : (tokenAt s.tokens p).kind ≠ .rightParen) (heof : (tokenAt s.tokens p).kind ≠ .eof) :
    s.skipForm depth p = s.skipForm depth (p + 1) := by
  rw [skipForm_step depth heof, if_neg hopen, if_neg hclose]

mutual

/-- Inside a list, skipping goes over each form. -/
theorem skipForm_stands (depth : Nat) : ∀ {f : Form} {p q : Nat}, Stands s.tokens f p q →
    s.skipForm (depth + 1) p = s.skipForm (depth + 1) q
  | .atom t, p, q, ⟨ht, hq, hopen, hclose, heof⟩ => by
    subst ht hq
    exact skipForm_other _ hopen hclose heof
  | .list opening items closing, p, q, ⟨hopening, hopen, m, hitems, hclosing, hends⟩ => by
    rw [skipForm_open _ (hopening ▸ hopen), skipForm_standAll (depth + 1) hitems]
    obtain ⟨hkind, rfl⟩ | ⟨hkind, rfl⟩ := hends
    · rw [skipForm_close _ (hclosing ▸ hkind)]
      rfl
    · rw [skipForm_eof _ (hclosing ▸ hkind), skipForm_eof _ (hclosing ▸ hkind)]

theorem skipForm_standAll (depth : Nat) : ∀ {fs : List Form} {p q : Nat},
    StandAll s.tokens fs p q → s.skipForm (depth + 1) p = s.skipForm (depth + 1) q
  | [], _, _, h => congrArg (s.skipForm (depth + 1)) h
  | _ :: _, _, _, ⟨_, hf, hfs⟩ =>
    (skipForm_stands depth hf).trans (skipForm_standAll depth hfs)

end

/-- **Recovery ends behind the list that it goes back to**, wherever it is called. -/
theorem recover_eq {items : List Form} (h : Stands s.tokens (.list opening items closing) p q)
    (r : Nat) : s.recover p r = some (.ok (), q) := by
  obtain ⟨hopening, hopen, m, hitems, hclosing, hends⟩ := h
  have hskip : s.recover p r = s.skipForm 1 m := by
    rw [← skipForm_standAll 0 hitems, ← skipForm_open 0 (hopening ▸ hopen)]
    rfl
  rw [hskip]
  obtain ⟨hkind, rfl⟩ | ⟨hkind, rfl⟩ := hends
  · rw [skipForm_close _ (hclosing ▸ hkind)]
    rfl
  · exact skipForm_eof _ (hclosing ▸ hkind)

/-- A run of tokens outside all forms ends before the next form or the end of the text. -/
theorem exists_skipRun (h : StandOnTop s.tokens fs p) :
    ∃ q rest, s.skipRun p = some (.ok (), q) ∧ Reaches s.tokens p q ∧
      StandOnTop s.tokens rest q ∧ rest.length ≤ fs.length ∧
      Parse.topLevel s.file true fs = Parse.topLevel s.file false rest := by
  induction fs generalizing p with
  | nil =>
    refine ⟨p, [], ?_, .refl p, h, Nat.le_refl _, rfl⟩
    rw [Input.skipRun, bind_ok (current_eq s p), if_pos (.inr h)]
    rfl
  | cons f fs ih =>
    cases f with
    | list opening items closing =>
      refine ⟨p, _, ?_, .refl p, h, Nat.le_refl _, rfl⟩
      obtain ⟨_, ⟨hopening, hopen, -⟩, -⟩ := h
      rw [Input.skipRun, bind_ok (current_eq s p), if_pos (.inl (hopening ▸ hopen))]
      rfl
    | atom t =>
      obtain ⟨rfl, hopen, heof, hfs⟩ := h
      obtain ⟨q, rest, hskip, hreaches, hrest, hlength, htop⟩ := ih hfs
      refine ⟨q, rest, ?_, (Advances.one heof).toReaches.trans hreaches, hrest,
        Nat.le_succ_of_le hlength, htop⟩
      rw [Input.skipRun, bind_ok (current_eq s p), if_neg (not_or.2 ⟨hopen, heof⟩)]
      exact (bind_ok (advance_eq heof)).trans hskip

/-! ## Rounds -/

theorem position_eq (p : Nat) : position p = some (.ok p, p) := rfl

theorem attempt_eq {α : Type} {x : Reader α} {r : Parse.Result α} (h : x p = some (r, q)) :
    attempt x p = some (.ok r, q) := by
  rw [attempt, h]
  rfl

/-- The loop over a text stops where no form is left. -/
theorem topItem_nil (h : StandOnTop s.tokens [] p) :
    s.topItem p = some (.ok none, p) := by
  have heof : (tokenAt s.tokens p).kind = .eof := h
  rw [Input.topItem, bind_ok (current_eq s p), if_pos heof]
  rfl

/-- **As long as a form is left, a round moves on.** It gives the first outcome of the forms and
leaves those that the others come from. -/
theorem topItem_cons {f : Form} (h : StandOnTop s.tokens (f :: fs) p) :
    ∃ outcome q rest, s.topItem p = some (.ok (some outcome), q) ∧
      Advances s.tokens p q ∧ StandOnTop s.tokens rest q ∧ rest.length ≤ fs.length ∧
      Parse.topLevel s.file false (f :: fs) = outcome :: Parse.topLevel s.file false rest := by
  cases f with
  | atom t =>
    obtain ⟨rfl, hopen, heof, hfs⟩ := h
    obtain ⟨q, rest, hskip, hreaches, hrest, hlength, htop⟩ := exists_skipRun hfs
    refine ⟨_, q, rest, ?_, (Advances.one heof).then_reaches hreaches, hrest, hlength,
      congrArg (_ :: ·) htop⟩
    rw [Input.topItem, bind_ok (current_eq s p), if_neg heof, if_neg hopen]
    exact (bind_ok (advance_eq heof)).trans (bind_ok hskip)
  | list opening items closing =>
    obtain ⟨q, hlist, hfs⟩ := h
    have hopen : (tokenAt s.tokens p).kind = .leftParen := hlist.1 ▸ hlist.2.1
    have heof : (tokenAt s.tokens p).kind ≠ .eof := by
      rw [hopen]
      decide
    refine ⟨_, q, fs, ?_, hlist.advances, hfs, Nat.le_refl _, rfl⟩
    rw [Input.topItem, bind_ok (current_eq s p), if_neg heof, if_pos hopen,
      bind_ok (position_eq p)]
    have hgives := gives_decl hlist
    cases hdecl : Parse.decl s.file opening closing (Parse.formItems s.file items) with
    | ok d =>
      rw [hdecl] at hgives
      obtain ⟨_, _, hread, rfl, rfl⟩ := hgives
      exact bind_ok (attempt_eq hread)
    | error e =>
      rw [hdecl] at hgives
      obtain ⟨r, hread⟩ := hgives
      exact (bind_ok (attempt_eq hread)).trans (bind_ok (recover_eq hlist r))

/-- What the rounds of the loop over a text log from a position on. The rounds, and the stop behind
them, start one behind the other, and the loop stops at the end of the text. -/
structure Rounds (tokens : List Token) {α : Type} (p : Nat) (log : List (Nat × α)) (stop : Nat) :
    Prop where
  starts : (log.map Prod.fst ++ [stop]).Pairwise (· < ·)
  le : ∀ start ∈ log.map Prod.fst ++ [stop], p ≤ start
  length : p + log.length ≤ stop
  reaches : Reaches tokens p stop
  ends : (tokenAt tokens stop).kind = .eof

namespace Rounds

variable {tokens : List Token} {α : Type} {log : List (Nat × α)} {stop : Nat}

theorem nil (h : (tokenAt tokens p).kind = .eof) : Rounds tokens p ([] : List (Nat × α)) p where
  starts := List.pairwise_singleton _ _
  le _ hstart := Nat.le_of_eq (List.mem_singleton.1 hstart).symm
  length := Nat.le_refl p
  reaches := .refl p
  ends := h

/-- A round that moves on is put before the others. -/
theorem cons (h : Advances tokens p q) (a : α) (hlog : Rounds tokens q log stop) :
    Rounds tokens p ((p, a) :: log) stop where
  starts := List.pairwise_cons.2
    ⟨fun start hstart => Nat.lt_of_lt_of_le h.lt (hlog.le start hstart), hlog.starts⟩
  le := List.forall_mem_cons.2
    ⟨Nat.le_refl p, fun start hstart => Nat.le_trans h.le (hlog.le start hstart)⟩
  length := by
    have hlt := h.lt
    have hlength := hlog.length
    rw [List.length_cons]
    omega
  reaches := h.toReaches.trans hlog.reaches
  ends := hlog.ends

end Rounds

/-- **The loop over a text stops**, and its rounds give what the forms of the text give. -/
theorem exists_text (h : StandOnTop s.tokens fs p) :
    ∃ log stop, s.text p = some (.ok log, stop) ∧ Rounds s.tokens p log stop ∧
      log.map Prod.snd = Parse.topLevel s.file false fs := by
  induction hlength : fs.length using Nat.strongRecOn generalizing fs p with
  | _ n ih =>
    rw [Input.text, bind_ok (position_eq p)]
    cases fs with
    | nil =>
      rw [bind_ok (topItem_nil h)]
      exact ⟨[], p, rfl, .nil h, rfl⟩
    | cons f fs =>
      obtain ⟨outcome, q, rest, hitem, hadvances, hrest, hle, htop⟩ := topItem_cons h
      rw [List.length_cons] at hlength
      obtain ⟨log, stop, htext, hrounds, hlog⟩ := ih rest.length (by omega) hrest rfl
      rw [bind_ok hitem, htop]
      exact ⟨(p, outcome) :: log, stop, bind_ok htext, hrounds.cons hadvances outcome,
        congrArg (outcome :: ·) hlog⟩

/-! ## Progress -/

/-- A reader ends from each position, and what it reads has a token and does not have the end of the
text. -/
def Progresses (tokens : List Token) {α : Type} (x : Reader α) : Prop :=
  ∀ p, ∃ r q, x p = some (r, q) ∧ ∀ a, r = .ok a → Advances tokens p q

theorem progresses_ident (s : Input) : Progresses s.tokens s.ident := by
  intro p
  by_cases hkind : (tokenAt s.tokens p).kind = .ident
  · exact ⟨_, _, ident_eq hkind, fun _ _ => .one (by rw [hkind]; decide)⟩
  · exact ⟨_, _, ident_ne hkind, nofun⟩

theorem progresses_typeName (s : Input) : Progresses s.tokens s.typeName := by
  intro p
  cases hty : Parse.typeOf? s.file (tokenAt s.tokens p) with
  | none => exact ⟨_, _, typeName_ne hty, nofun⟩
  | some ty =>
    refine ⟨_, _, typeName_eq hty, fun _ _ => .one ?_⟩
    rcases (typeOf?_isSome_iff s.file _).1 (Option.isSome_of_eq_some hty) with hkind | hkind
    · rw [hkind]
      decide
    · rw [hkind]
      decide

section

variable {eof : Token} (hlast : s.tokens.getLast? = some eof) (heof : eof.kind = .eof)
include hlast heof

/-- From each position on some forms, maybe none, are left of a list or of the text. -/
theorem exists_left (p : Nat) : ∃ closing m fs, Left s closing m fs p := by
  rcases Nat.lt_or_ge p s.tokens.length with hp | hp
  · obtain ⟨m, hcurrent, hlevels⟩ := readingStands_drop hlast heof (.start eof) hp
    generalize (s.tokens.drop p).foldr Form.Reading.step (.start eof) = r at hcurrent hlevels
    obtain ⟨current, levels, eof'⟩ := r
    have hagrees := allAgreeInside s current
    cases levels with
    | nil => exact ⟨_, m, current, hcurrent, hlevels.1, .inr hlevels.2, hagrees⟩
    | cons level levels => exact ⟨_, m, current, hcurrent, hlevels.1, .inl hlevels.2.1, hagrees⟩
  · exact ⟨_, p, [], rfl, rfl, .inr (kind_tokenAt_of_le hp), trivial⟩

theorem progresses_expr : Progresses s.tokens s.expr := by
  intro p
  obtain ⟨closing, m, fs, hleft⟩ := exists_left hlast heof p
  cases fs with
  | nil =>
    obtain ⟨q, hread⟩ := gives_expression hleft
    exact ⟨_, q, hread, nofun⟩
  | cons f fs =>
    obtain ⟨q, hf, -⟩ := hleft.stand
    obtain ⟨r, q', hread, hok⟩ := ((agreesInside s f).agrees p q hf).exists_result
    refine ⟨r, q', hread, fun a ha => ?_⟩
    obtain ⟨_, rfl, rfl⟩ := hok a ha
    exact hf.advances

theorem progresses_paramItems (waiting : List Ident) :
    Progresses s.tokens (s.paramItems waiting) := by
  intro p
  obtain ⟨closing, m, fs, hleft⟩ := exists_left hlast heof p
  obtain ⟨r, q, hread, hok⟩ := (gives_paramItems waiting hleft).exists_result
  refine ⟨r, q, hread, fun a ha => ?_⟩
  obtain ⟨_, rfl, hkind, rfl⟩ := hok a ha
  refine hleft.stand.reaches.then_advances (.one ?_)
  rw [hleft.last, hkind]
  decide

/-- A round moves on from each token but the end of the text. -/
theorem topItem_advances (h : (tokenAt s.tokens p).kind ≠ .eof) :
    ∃ outcome q, s.topItem p = some (.ok (some outcome), q) ∧ Advances s.tokens p q := by
  have hp : p < s.tokens.length := Nat.lt_of_not_le fun hp => h (kind_tokenAt_of_le hp)
  have hforms := standOnTop_ofTokens hlast heof hp
  cases hfs : Form.ofTokens (s.tokens.drop p) with
  | nil =>
    rw [hfs] at hforms
    exact absurd hforms h
  | cons f fs =>
    rw [hfs] at hforms
    obtain ⟨outcome, q, -, hitem, hadvances, -⟩ := topItem_cons hforms
    exact ⟨outcome, q, hitem, hadvances⟩

/-- **The loop over a text reads it as its forms do**, whatever the tokens before the end are. -/
theorem exists_text_ofTokens :
    ∃ log stop, s.text 0 = some (.ok log, stop) ∧ Rounds s.tokens 0 log stop ∧
      stop < s.tokens.length ∧
      log.map Prod.snd = Parse.topLevel s.file false (Form.ofTokens s.tokens) := by
  have hne : s.tokens ≠ [] := by
    intro hnil
    rw [hnil] at hlast
    cases hlast
  obtain ⟨log, stop, htext, hrounds, hlog⟩ :=
    exists_text (standOnTop_ofTokens hlast heof (List.length_pos_iff.2 hne))
  refine ⟨log, stop, htext, hrounds, Nat.lt_of_not_le fun hle => ?_, hlog⟩
  -- The last token is the end of the text, which is not passed.
  have hlt : s.tokens.length - 1 < stop := by
    have hpos := List.length_pos_iff.2 hne
    omega
  refine hrounds.reaches.passes _ (Nat.zero_le _) hlt ?_
  rw [tokenAt, ← List.getLast?_eq_getElem?, hlast]
  exact heof

end

/-- **Reading always moves on.** Let a list of tokens end with the end of the text. From each
position an expression, a name, a type and the parameters up to the end of their list are read or
not, and what is read has a token and does not have the end of the text. A round of the loop over
the text that does not stop it ends behind where it started, wherever that is and whether or not it
reads a declaration. So the loop stops, at the end of the text and nowhere before it; with the one
that stops it, it has at most as many rounds as there are tokens, and they give what the forms of
the text give. -/
theorem reading_progresses (s : Input) {eof : Token} (hlast : s.tokens.getLast? = some eof)
    (heof : eof.kind = .eof) :
    Progresses s.tokens s.expr ∧ Progresses s.tokens s.ident ∧ Progresses s.tokens s.typeName ∧
      (∀ waiting, Progresses s.tokens (s.paramItems waiting)) ∧
      (∀ p, (tokenAt s.tokens p).kind ≠ .eof → ∃ outcome q,
        s.topItem p = some (.ok (some outcome), q) ∧ Advances s.tokens p q) ∧
      ∃ log stop, s.text 0 = some (.ok log, stop) ∧
        (log.map Prod.fst ++ [stop]).Pairwise (· < ·) ∧
        (tokenAt s.tokens stop).kind = .eof ∧ (∀ i < stop, (tokenAt s.tokens i).kind ≠ .eof) ∧
        log.length + 1 ≤ s.tokens.length ∧
        log.map Prod.snd = Parse.topLevel s.file false (Form.ofTokens s.tokens) := by
  refine ⟨progresses_expr hlast heof, progresses_ident s, progresses_typeName s,
    progresses_paramItems hlast heof, fun p => topItem_advances hlast heof, ?_⟩
  obtain ⟨log, stop, htext, hrounds, hstop, hlog⟩ := exists_text_ofTokens hlast heof
  have hlength := hrounds.length
  exact ⟨log, stop, htext, hrounds.starts, hrounds.ends,
    fun i hi => hrounds.reaches.passes i (Nat.zero_le i) hi, by omega, hlog⟩

/-- A closing parenthesis, a character that is no token, and a declaration that is not closed. -/
def unclosedInput : Input := ⟨⟨0⟩, Token.scan ") @ (decl f int (+ 1"⟩

theorem tokens_unclosedInput : unclosedInput.tokens =
    [⟨.rightParen, ⟨0, 1⟩, ")"⟩, ⟨.error, ⟨2, 3⟩, "@"⟩, ⟨.leftParen, ⟨4, 5⟩, "("⟩,
      ⟨.decl, ⟨5, 9⟩, "decl"⟩, ⟨.ident, ⟨10, 11⟩, "f"⟩, ⟨.intWord, ⟨12, 15⟩, "int"⟩,
      ⟨.leftParen, ⟨16, 17⟩, "("⟩, ⟨.plus, ⟨17, 18⟩, "+"⟩, ⟨.intLiteral, ⟨19, 20⟩, "1"⟩,
      ⟨.eof, ⟨20, 20⟩, ""⟩] := by
  decide +kernel

/-- The first round takes what stands before the declaration. The second goes back to the start of
the declaration and skips it. -/
theorem reading_progresses_unclosed :
    unclosedInput.tokens.getLast? = some ⟨.eof, ⟨20, 20⟩, ""⟩ ∧
      (∃ outcome q, unclosedInput.topItem 2 = some (.ok (some outcome), q) ∧ 2 < q) ∧
      ∃ log, unclosedInput.text 0 = some (.ok log, 9) ∧ log.map Prod.snd =
        [.error ⟨.unexpected .declaration .rightParen, ⟨0, 1⟩⟩,
          .error ⟨.unclosed .eof ⟨16, 17⟩, ⟨20, 20⟩⟩] := by
  have hlast : unclosedInput.tokens.getLast? = some ⟨.eof, ⟨20, 20⟩, ""⟩ := by
    rw [tokens_unclosedInput]
    rfl
  obtain ⟨-, -, -, -, hrounds, log, stop, htext, -, hstop, hbefore, -, hlog⟩ :=
    reading_progresses unclosedInput hlast rfl
  rw [tokens_unclosedInput] at hlog
  have hopen : (tokenAt unclosedInput.tokens 2).kind ≠ .eof := by
    rw [tokens_unclosedInput]
    decide
  have hend : (tokenAt unclosedInput.tokens 9).kind = .eof := by
    rw [tokens_unclosedInput]
    rfl
  have hfirst : ∀ i < 9, (tokenAt unclosedInput.tokens i).kind ≠ .eof := by
    rw [tokens_unclosedInput]
    decide
  obtain ⟨outcome, q, hitem, hadvances⟩ := hrounds 2 hopen
  have hnine : stop = 9 := by
    rcases Nat.lt_trichotomy stop 9 with hlt | heq | hgt
    · exact absurd hstop (hfirst stop hlt)
    · exact heq
    · exact absurd hend (hbefore 9 hgt)
  subst hnine
  exact ⟨hlast, ⟨outcome, q, hitem, hadvances.lt⟩, log, htext, hlog⟩

/-! ## Whole texts -/

/-- **Both ways to parse a text are the same.** Without the comments, the loop gives the
declarations and the errors of the text. -/
theorem ofText_eq_text (file : FileId) (source : String) :
    ∃ log stop, Input.text ⟨file, (Token.scan source).filter fun t => t.kind ≠ .comment⟩ 0 =
        some (.ok log, stop) ∧
      Parse.ofText file source =
        ⟨Parse.successes (log.map Prod.snd), Parse.failures (log.map Prod.snd)⟩ := by
  obtain ⟨eof, heof, hscan⟩ := Token.filter_scan source
  rw [Parse.ofText, Parse.ofTokens, hscan]
  let s : Input := ⟨file, Token.significant source ++ [eof]⟩
  have hlast : s.tokens.getLast? = some eof := List.getLast?_concat ..
  obtain ⟨log, stop, htext, -, -, hlog⟩ := exists_text_ofTokens hlast heof
  exact ⟨log, stop, htext, by rw [hlog]⟩

end Descent

end CalcLang
