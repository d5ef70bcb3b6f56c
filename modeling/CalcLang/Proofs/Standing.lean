import CalcLang.Proofs.Balanced
import CalcLang.Proofs.Descent

/-!
# Forms at positions

`Form.ofTokens` puts tokens together into forms from the last token to the first, and a
`Descent.Reader` goes through them in the other direction. Here the forms get the positions that
they stand at: `Descent.Stands` for a form, `Descent.StandOnTop` for what is outside all lists.
Whatever the tokens are, as long as they end, forms stand from each position on
(`Descent.standOnTop_ofTokens`).

A form has a token and does not have the end of the text, so it `Descent.Advances` from where it
starts to where it ends.
-/

namespace CalcLang

namespace Descent

variable (tokens : List Token)

/-- From a position to one that is not before it, without passing the end of the text. -/
structure Reaches (p q : Nat) : Prop where
  le : p ≤ q
  passes : ∀ i, p ≤ i → i < q → (tokenAt tokens i).kind ≠ .eof

/-- From a position to one behind it, without passing the end of the text. -/
structure Advances (p q : Nat) : Prop extends Reaches tokens p q where
  lt : p < q

/-- A token closes a list at a position, and the list ends at another. The end of the text closes
every list and belongs to none. -/
def Closes (closing : Token) (p q : Nat) : Prop :=
  tokenAt tokens p = closing ∧
    (closing.kind = .rightParen ∧ q = p + 1 ∨ closing.kind = .eof ∧ q = p)

mutual

/-- A form stands from a position up to another. -/
def Stands : Form → Nat → Nat → Prop
  | .atom t, p, q =>
    tokenAt tokens p = t ∧ q = p + 1 ∧ t.kind ≠ .leftParen ∧ t.kind ≠ .rightParen ∧ t.kind ≠ .eof
  | .list opening items closing, p, q =>
    tokenAt tokens p = opening ∧ opening.kind = .leftParen ∧
      ∃ m, StandAll items (p + 1) m ∧ Closes tokens closing m q

/-- Forms stand one behind the other from a position up to another. -/
def StandAll : List Form → Nat → Nat → Prop
  | [], p, q => p = q
  | f :: fs, p, q => ∃ m, Stands f p m ∧ StandAll fs m q

end

/-- Forms stand outside all lists from a position up to the end of the text. -/
def StandOnTop : List Form → Nat → Prop
  | [], p => (tokenAt tokens p).kind = .eof
  | .atom t :: fs, p =>
    tokenAt tokens p = t ∧ t.kind ≠ .leftParen ∧ t.kind ≠ .eof ∧ StandOnTop fs (p + 1)
  | .list opening items closing :: fs, p =>
    ∃ q, Stands tokens (.list opening items closing) p q ∧ StandOnTop fs q

variable {tokens} {p q r : Nat}

theorem tokenAt_eq_getElem (h : p < tokens.length) : tokenAt tokens p = tokens[p] := by
  rw [tokenAt, List.getElem?_eq_getElem h, Option.getD_some]

theorem kind_tokenAt_of_le (h : tokens.length ≤ p) : (tokenAt tokens p).kind = .eof := by
  rw [tokenAt, List.getElem?_eq_none h]
  rfl

/-! ## Moving on -/

namespace Reaches

theorem refl (p : Nat) : Reaches tokens p p := ⟨Nat.le_refl p, fun _ hp hq => by omega⟩

theorem trans (h : Reaches tokens p q) (h' : Reaches tokens q r) : Reaches tokens p r where
  le := Nat.le_trans h.le h'.le
  passes i hp hr := by
    rcases Nat.lt_or_ge i q with hq | hq
    · exact h.passes i hp hq
    · exact h'.passes i hq hr

theorem then_advances (h : Reaches tokens p q) (h' : Advances tokens q r) :
    Advances tokens p r where
  toReaches := h.trans h'.toReaches
  lt := Nat.lt_of_le_of_lt h.le h'.lt

end Reaches

namespace Advances

theorem one (h : (tokenAt tokens p).kind ≠ .eof) : Advances tokens p (p + 1) where
  le := Nat.le_succ p
  passes i hp hq := by
    obtain rfl : i = p := by omega
    exact h
  lt := Nat.lt_succ_self p

theorem then_reaches (h : Advances tokens p q) (h' : Reaches tokens q r) :
    Advances tokens p r where
  toReaches := h.toReaches.trans h'
  lt := Nat.lt_of_lt_of_le h.lt h'.le

end Advances

theorem Closes.reaches {closing : Token} (h : Closes tokens closing p q) :
    Reaches tokens p q := by
  obtain ⟨hclosing, ⟨hkind, rfl⟩ | ⟨-, rfl⟩⟩ := h
  · have hne : (tokenAt tokens p).kind ≠ .eof := by
      rw [hclosing, hkind]
      decide
    exact (Advances.one hne).toReaches
  · exact .refl _

mutual

/-- A form has a token, and does not have the end of the text. -/
theorem Stands.advances : ∀ {f : Form} {p q : Nat}, Stands tokens f p q → Advances tokens p q
  | .atom t, p, q, ⟨ht, hq, _, _, heof⟩ => by
    subst hq
    exact .one (by rwa [ht])
  | .list opening items closing, p, q, ⟨ho, hkind, m, hitems, hcloses⟩ => by
    have hne : (tokenAt tokens p).kind ≠ .eof := by
      rw [ho, hkind]
      decide
    exact (Advances.one hne).then_reaches ((StandAll.reaches hitems).trans hcloses.reaches)

theorem StandAll.reaches : ∀ {fs : List Form} {p q : Nat}, StandAll tokens fs p q →
    Reaches tokens p q
  | [], p, q, h => by
    obtain rfl : p = q := h
    exact .refl p
  | f :: fs, p, q, ⟨_, hf, hfs⟩ => (Stands.advances hf).toReaches.trans (StandAll.reaches hfs)

end

/-- The token at the start of a form is its head, which closes nothing. -/
theorem Stands.head {f : Form} (h : Stands tokens f p q) :
    tokenAt tokens p = f.head ∧ f.head.kind ≠ .rightParen ∧ f.head.kind ≠ .eof := by
  cases f with
  | atom t => exact ⟨h.1, h.2.2.2⟩
  | list opening items closing =>
    refine ⟨h.1, ?_⟩
    rw [Form.head, h.2.1]
    exact ⟨by decide, by decide⟩

/-! ## Forms of tokens -/

theorem StandOnTop.append {fs gs : List Form} (hfs : StandAll tokens fs p q)
    (hgs : StandOnTop tokens gs q) : StandOnTop tokens (fs ++ gs) p := by
  induction fs generalizing p with
  | nil =>
    obtain rfl : p = q := hfs
    exact hgs
  | cons f fs ih =>
    obtain ⟨m, hf, hfs⟩ := hfs
    cases f with
    | atom t =>
      obtain ⟨ht, rfl, hopen, -, heof⟩ := hf
      exact ⟨ht, hopen, heof, ih hfs⟩
    | list opening items closing => exact ⟨m, hf, ih hfs⟩

variable (tokens) in
/-- The levels of a reading stand from a position up to the end of the text. -/
def LevelsStand (eof : Token) : List Form.Level → Nat → Prop
  | [], p => tokenAt tokens p = eof ∧ eof.kind = .eof
  | level :: levels, p => tokenAt tokens p = level.closing ∧ level.closing.kind = .rightParen ∧
    ∃ q, StandAll tokens level.after (p + 1) q ∧ LevelsStand eof levels q

variable (tokens) in
/-- What has been read stands from a position up to the end of the text. -/
def ReadingStands (r : Form.Reading) (p : Nat) : Prop :=
  ∃ q, StandAll tokens r.current p q ∧ LevelsStand tokens r.eof r.levels q

/-- A token is put before what stands behind it. Nothing has to stand behind the end of the text. -/
theorem ReadingStands.step {t : Token} {r : Form.Reading} (ht : tokenAt tokens p = t)
    (h : t.kind ≠ .eof → ReadingStands tokens r (p + 1)) :
    ReadingStands tokens (Form.Reading.step t r) p := by
  unfold Form.Reading.step
  split
  · next hkind => exact ⟨p, rfl, ht, hkind⟩
  · next hkind =>
    obtain ⟨q, hcurrent, hlevels⟩ := h (by rw [hkind]; decide)
    exact ⟨p, rfl, ht, hkind, q, hcurrent, hlevels⟩
  · next hkind =>
    obtain ⟨q, hcurrent, hlevels⟩ := h (by rw [hkind]; decide)
    split
    · next hnil =>
      -- No parenthesis is left to close the list.
      rw [hnil] at hlevels
      exact ⟨q, ⟨q, ⟨ht, hkind, q, hcurrent, hlevels.1, .inr ⟨hlevels.2, rfl⟩⟩, rfl⟩,
        hnil.symm ▸ hlevels⟩
    · next level levels hcons =>
      rw [hcons] at hlevels
      obtain ⟨hclosing, hparen, q', hafter, hlevels⟩ := hlevels
      exact ⟨q', ⟨q + 1, ⟨ht, hkind, q, hcurrent, hclosing, .inl ⟨hparen, rfl⟩⟩, hafter⟩, hlevels⟩
  · next heof hclose hopen =>
    obtain ⟨q, hcurrent, hlevels⟩ := h heof
    exact ⟨q, ⟨p + 1, ⟨ht, rfl, hopen, hclose, heof⟩, hcurrent⟩, hlevels⟩

/-- What is read of the tokens from a position on stands there. -/
theorem readingStands_drop {eof : Token} (hlast : tokens.getLast? = some eof)
    (heof : eof.kind = .eof) (start : Form.Reading) (hp : p < tokens.length) :
    ReadingStands tokens ((tokens.drop p).foldr Form.Reading.step start) p := by
  induction hk : tokens.length - p generalizing p with
  | zero => omega
  | succ k ih =>
    rw [List.drop_eq_getElem_cons hp, List.foldr_cons]
    refine .step (tokenAt_eq_getElem hp) fun hne => ih ?_ (by omega)
    rcases Nat.lt_or_ge (p + 1) tokens.length with hlt | hge
    · exact hlt
    · -- The last token is the end of the text.
      obtain rfl : p = tokens.length - 1 := by omega
      rw [List.getLast?_eq_getElem?, List.getElem?_eq_getElem hp] at hlast
      exact absurd (Option.some.inj hlast ▸ heof) hne

/-- What has been read of a text are forms outside all lists. -/
theorem ReadingStands.standOnTop {r : Form.Reading} (h : ReadingStands tokens r p) :
    StandOnTop tokens r.forms p := by
  obtain ⟨current, levels, eof⟩ := r
  obtain ⟨q, hcurrent, hlevels⟩ := h
  induction levels generalizing current p q with
  | nil =>
    have hend : StandOnTop tokens [] q := by
      rw [StandOnTop, hlevels.1]
      exact hlevels.2
    have htop := StandOnTop.append hcurrent hend
    rwa [List.append_nil] at htop
  | cons level levels ih =>
    obtain ⟨hclosing, hkind, q', hafter, hlevels⟩ := hlevels
    have hforms : Form.Reading.forms ⟨current, level :: levels, eof⟩ =
        current ++ .atom level.closing :: Form.Reading.forms ⟨level.after, levels, eof⟩ := by
      have hafter := Form.Reading.forms_append [.atom level.closing] ⟨level.after, levels, eof⟩
      have hbefore := Form.Reading.forms_append current
        ⟨.atom level.closing :: level.after, levels, eof⟩
      exact hbefore.trans (congrArg (current ++ ·) hafter)
    rw [hforms]
    refine StandOnTop.append hcurrent ⟨hclosing, ?_, ?_, ih level.after q' hafter hlevels⟩
    · rw [hkind]
      decide
    · rw [hkind]
      decide

/-- **From each position of a text on, forms stand up to the end of the text.** -/
theorem standOnTop_ofTokens {eof : Token} (hlast : tokens.getLast? = some eof)
    (heof : eof.kind = .eof) (hp : p < tokens.length) :
    StandOnTop tokens (Form.ofTokens (tokens.drop p)) p :=
  (readingStands_drop hlast heof _ hp).standOnTop

end Descent

end CalcLang
