import CalcLang.Proofs.C.Lowering
import CalcLang.Proofs.Folding
import CalcLang.Proofs.Typing

/-!
# Lowering keeps the meaning of nodes

An evaluation of a node that gives a value is simulated by its lowered form (`lower_simulates`):
executed from a store that holds the visible variables, the statements and then the C value do what
the evaluation does. The proof is by induction on the node, with the lemmas of `Lowering` for its
cases. That calls of the declarations behave (`Serves`) is assumed here, and comes in
`CalcLang.Proofs.C.Functions` from an induction on their depth.
-/

namespace CalcLang.C

open Evaluation Typing

/-- What `call` does for calls of declarations whose evaluation gives a value. -/
def Serves (names : List String) (sigs : Signatures) (invoke : DeclId → List Value → Eval Value)
    (call : Call → Ways Word) : Prop :=
  ∀ ⦃callee : DeclId⦄ ⦃name : String⦄ ⦃sig : Typing.Signature⦄ ⦃args : List Value⦄
    ⦃E : List Event⦄ ⦃v : Value⦄, names[callee.index]? = some name →
    sigs[callee.index]? = some sig → sig.params = (args.map Value.ty).map some →
    (invoke callee args).Returns E v →
    v.ty = sig.ret ∧ ∃ T, Always (call ⟨name, args.map encode⟩) T (encode v) ∧ Follows names E T

/-! ## Spills -/

theorem spills_le_spillFor (S : Symbols) (n : Node) (later : List Node) (r : Lowered Expr) :
    r.spills ≤ (spillFor S n later r).spills := by
  rw [spillFor]
  split
  · exact Nat.le_succ _
  · exact Nat.le_refl _

mutual

/-- Spills are numbered upward. -/
theorem le_spills_lower (S : Symbols) : ∀ (n : Node) (k : Nat), k ≤ (lower S n k).spills
  | .const .., k => Nat.le_refl k
  | .error .., k => Nat.le_refl k
  | .read .., k => Nat.le_refl k
  | .binary _ lhs rhs .., k => by
    have hl := Nat.le_trans (le_spills_lower S lhs k) (spills_le_spillFor S lhs [rhs] _)
    exact Nat.le_trans hl (le_spills_lower S rhs _)
  | .unary _ operand .., k => le_spills_lower S operand k
  | .call _ _ args .., k => le_spills_lowerOperands S args k
  | .ifThen test _ yes .., k => Nat.le_trans (le_spills_lower S test k) (le_spills_lower S yes _)
  | .ifThenElse test _ yes no .., k => by
    have hy := Nat.le_trans (le_spills_lower S test k) (le_spills_lower S yes _)
    exact Nat.le_trans hy (le_spills_lower S no _)
  | .block nodes _ pos, k => le_spills_lowerBlock S pos nodes k
  | .assign _ _ value .., k => le_spills_lower S value k
  | .declare .., k => Nat.le_refl k
  | .define _ _ _ init _, k => le_spills_lower S init k

theorem le_spills_lowerBlock (S : Symbols) (pos : Pos) :
    ∀ (ns : List Node) (k : Nat), k ≤ (lowerBlock S pos ns k).spills
  | [], k => Nat.le_refl k
  | [n], k => le_spills_lower S n k
  | n :: n' :: ns, k =>
    Nat.le_trans (le_spills_lower S n k) (le_spills_lowerBlock S pos (n' :: ns) _)

theorem le_spills_lowerOperands (S : Symbols) :
    ∀ (ns : List Node) (k : Nat), k ≤ (lowerOperands S ns k).spills
  | [], k => Nat.le_refl k
  | n :: ns, k => by
    have hn := Nat.le_trans (le_spills_lower S n k) (spills_le_spillFor S n ns _)
    exact Nat.le_trans hn (le_spills_lowerOperands S ns _)

end

/-! ## Nodes -/

section Simulation

variable {names : List String} {sigs : Signatures} {S : Symbols}
  {invoke : DeclId → List Value → Eval Value} {call : Call → Ways Word}

mutual

/-- **Lowering keeps the meaning of nodes**: what is evaluated to a value is executed, with no
undefined behaviour, to the same value, and with the calls that C does not skip. -/
theorem lower_simulates (hserves : Serves names sigs invoke call) {V V' : List SymbolId}
    {k k' lo hi j : Nat} {τ : Ty} {f f' : Frame} {ρ : Store} {E : List Event} {v : Value} :
    ∀ {n : Node}, HasType sigs S.ty (Records S) n τ → Scoped names V k n V' k' →
      HasTags S lo n hi → ρ.Holds S V lo j f → (eval invoke n f).Returns E (v, f') →
      v.ty = τ ∧ ∃ ρ' T T', Yields names call S (Denotes call) V V' lo hi j (lower S n j) (.of n) E
        (encode v) f' ρ ρ' T T' ∧ (T' = [] ↔ valueCalls n = false)
  | .const .., ht, hsc, htag, hρ, he => by
    cases ht
    cases hsc
    cases htag
    obtain ⟨rfl, rfl, rfl⟩ := eval_const_inv he
    refine ⟨rfl, ρ, [], [], ?_, by simp [valueCalls]⟩
    rw [Traits.of_const]
    exact ⟨.nil hρ, fun _ _ => denotes_ofValue v, fun _ => ⟨rfl, rfl⟩, .nil⟩
  | .error .., ht, _, _, _, _ => by cases ht
  | .read .., ht, hsc, htag, hρ, he => by
    cases ht with
    | read hty _ =>
      cases hsc with
      | read hx =>
        cases htag
        obtain ⟨hfx, rfl, rfl⟩ := eval_read_inv he
        obtain ⟨tag, v', hxtag, hxty, hxv, hvalue⟩ := hρ.value _ hx
        obtain rfl : v' = v := Option.some.inj (hxv.symm.trans hfx)
        refine ⟨Option.some.inj (hxty.symm.trans hty), ρ, [], [], ?_, by simp [valueCalls]⟩
        rw [Traits.of_read, lower, hxtag]
        exact .ofTemp (.nil hρ) hvalue (.inl rfl) (fun _ => rfl) .nil
  | .binary op lhs rhs ty tag pos, ht, hsc, htag, hρ, he => by
    cases ht with
    | binary htl htr hop hty =>
      cases hsc with
      | binary hscl hscr =>
        cases htag with
        | binary htagl htagr =>
          obtain ⟨E₁, a, f₁, E₂, b, hel, her, hv, rfl⟩ := eval_binary_inv he
          have hvty : v.ty = τ :=
            (Value.ty_binary (binary_eq_ok_iff.1 hv)).trans hop.result_eq.symm
          subst hvty
          obtain rfl : ty = some v.ty := hty
          obtain ⟨hal, ρ₁, T, T', h, hpending⟩ := lower_simulates hserves htl hscl htagl
            (hρ.mono (Nat.le_succ lo) (Nat.le_refl j)) hel
          obtain ⟨ρ₁, T, T', h, hcalls⟩ := h.spillFor hpending (hal ▸ htl.meets) [rhs]
          obtain ⟨-, ρ₂, U, U', h', hpending'⟩ :=
            lower_simulates hserves htr hscr htagr h.executes.holds her
          obtain ⟨ρ₃, W, hyields⟩ := h.binary hρ hcalls h' hpending' hv
          exact ⟨rfl, ρ₃, W, [], hyields, by simp [valueCalls]⟩
  | .unary op operand ty pos, ht, hsc, htag, hρ, he => by
    cases ht with
    | unary ht hop _ =>
      cases hsc with
      | unary hsc =>
        cases htag with
        | unary htag =>
          obtain ⟨a, hea, hv⟩ := eval_unary_inv he
          obtain ⟨-, ρ', T, T', h, hpending⟩ := lower_simulates hserves ht hsc htag hρ hea
          exact ⟨(Value.ty_unary (unary_eq_ok_iff.1 hv)).trans hop.operand_eq.symm, ρ', T, T',
            h.unary hv, hpending⟩
  | .call name callee args ty pos, ht, hsc, htag, hρ, he => by
    cases ht with
    | call hsig hts hparams _ =>
      cases hsc with
      | call hname hscs =>
        cases htag with
        | call htags =>
          obtain ⟨E₁, vs, E₂, hes, hinvoke, rfl⟩ := eval_call_inv he
          obtain ⟨htys, ρ', T, T', h⟩ := lowerOperands_simulates hserves hts hscs htags hρ hes
          obtain ⟨hvty, U, hcall, hfollows⟩ := hserves hname hsig (by rw [hparams, htys]) hinvoke
          refine ⟨hvty, ρ', T, T' ++ ⟨name, vs.map encode⟩ :: U, ?_, ?_⟩
          · simpa using h.invoke hname hcall hfollows
          · simp [valueCalls]
  | .ifThen test written yes ty tag pos, ht, hsc, htag, hρ, he => by
    cases ht with
    | ifThen htt hty _ hrec =>
      cases hsc with
      | ifThen hsct hscy =>
        cases htag with
        | ifThen htagt htagy =>
          obtain rfl : ty = some τ := hrec
          obtain ⟨E₁, f₁, E₂, hec, hey, rfl⟩ | ⟨hec, hzero⟩ := eval_ifThen_inv he
          · obtain ⟨-, ρ₁, T, T', h, -⟩ := lower_simulates hserves htt hsct htagt
              (hρ.openIf τ) hec
            obtain ⟨rfl, ρ₂, U, U', h', -⟩ :=
              lower_simulates hserves hty hscy htagy h.executes.holds hey
            obtain ⟨ρ₃, W, hyields⟩ := h.ifThen_true hρ h'
            exact ⟨rfl, ρ₃, W, [], hyields, by simp [valueCalls]⟩
          · obtain ⟨-, ρ₁, T, T', h, -⟩ := lower_simulates hserves htt hsct htagt
              (hρ.openIf τ) hec
            cases hzero
            exact ⟨ty_zero τ, ρ₁, T ++ T', [],
              h.ifThen_false hρ htagy.le (le_spills_lower S yes _), by simp [valueCalls]⟩
  | .ifThenElse test written yes no ty tag pos, ht, hsc, htag, hρ, he => by
    cases ht with
    | ifThenElse htt hty htn _ hrec =>
      cases hsc with
      | ifThenElse hsct hscy hscn =>
        cases htag with
        | ifThenElse htagt htagy htagn =>
          obtain rfl : ty = some τ := hrec
          obtain ⟨E₁, b, f₁, E₂, hec, heb, rfl⟩ := eval_ifThenElse_inv he
          obtain ⟨-, ρ₁, T, T', h, -⟩ := lower_simulates hserves htt hsct htagt
            (hρ.openIf τ) hec
          cases b with
          | true =>
            obtain ⟨rfl, ρ₂, U, U', h', -⟩ :=
              lower_simulates hserves hty hscy htagy h.executes.holds heb
            obtain ⟨ρ₃, W, hyields⟩ :=
              h.ifThenElse_true hρ h' htagn.le (le_spills_lower S no _)
            exact ⟨rfl, ρ₃, W, [], hyields, by simp [valueCalls]⟩
          | false =>
            obtain ⟨rfl, ρ₂, U, U', h', -⟩ := lower_simulates hserves htn hscn htagn
              (h.executes.holds.mono htagy.le (le_spills_lower S yes _)) heb
            obtain ⟨ρ₃, W, hyields⟩ :=
              h.ifThenElse_false hρ htagy.le (le_spills_lower S yes _) h'
            exact ⟨rfl, ρ₃, W, [], hyields, by simp [valueCalls]⟩
  | .block nodes ty pos, ht, hsc, htag, hρ, he => by
    cases ht with
    | block hts hlast _ =>
      cases hsc with
      | block hne hscs =>
        cases htag with
        | block htags =>
          obtain ⟨vs, hes, hvlast⟩ := eval_block_inv he
          obtain ⟨hty, ρ', T, T', h, hpending⟩ :=
            lowerBlock_simulates hserves pos hne hts hscs htags hρ hes hlast hvlast
          exact ⟨hty, ρ', T, T', h.block, hpending⟩
  | .assign name x value ty pos, ht, hsc, htag, hρ, he => by
    cases ht with
    | assign ht hxty _ =>
      cases hsc with
      | assign hsc hx =>
        cases htag with
        | assign htag =>
          obtain ⟨E₁, f₁, hev, -, rfl, rfl⟩ := eval_assign_inv he
          obtain ⟨rfl, ρ₁, T, T', h, -⟩ := lower_simulates hserves ht hsc htag hρ hev
          obtain ⟨tag, -, hxtag, -⟩ := h.executes.holds.value x hx
          obtain ⟨ρ₂, hyields⟩ := h.assign hρ hx hxtag hxty
          exact ⟨rfl, ρ₂, T ++ T', [], hyields, by simp [valueCalls]⟩
  | .declare name x written pos, ht, hsc, htag, hρ, he => by
    cases ht with
    | declare hxty _ =>
      cases hsc
      cases htag with
      | declare hxtag =>
        obtain ⟨rfl, rfl, rfl⟩ := eval_declare_inv he
        obtain ⟨ρ', hyields⟩ := Yields.declare names call hρ hxtag hxty
        exact ⟨ty_zero _, ρ', [], [], hyields, by simp [valueCalls]⟩
  | .define name x written init pos, ht, hsc, htag, hρ, he => by
    cases ht with
    | define ht _ hxty _ =>
      cases hsc with
      | define hsc =>
        cases htag with
        | define hxtag htag =>
          obtain ⟨E₁, f₁, hev, rfl, rfl⟩ := eval_define_inv he
          obtain ⟨rfl, ρ₁, T, T', h, -⟩ := lower_simulates hserves ht hsc htag
            (hρ.mono (Nat.le_succ lo) (Nat.le_refl j)) hev
          obtain ⟨ρ₂, hyields⟩ := h.define hρ hxtag hxty
          exact ⟨rfl, ρ₂, T ++ T', [], hyields, by simp [valueCalls]⟩

theorem lowerOperands_simulates (hserves : Serves names sigs invoke call) {V V' : List SymbolId}
    {k k' lo hi j : Nat} {τs : List Ty} {f f' : Frame} {ρ : Store} {E : List Event}
    {vs : List Value} :
    ∀ {ns : List Node}, HaveTypes sigs S.ty (Records S) ns τs → ScopedAll names V k ns V' k' →
      HaveTags S lo ns hi → ρ.Holds S V lo j f → (evalAll invoke ns f).Returns E (vs, f') →
      vs.map Value.ty = τs ∧ ∃ ρ' T T', Yields names call S (DenoteAll call) V V' lo hi j
        (lowerOperands S ns j) (.ofAll ns) E (vs.map encode) f' ρ ρ' T T'
  | [], ht, hsc, htag, hρ, he => by
    cases ht
    cases hsc
    cases htag
    obtain ⟨rfl, rfl, rfl⟩ := evalAll_nil_inv he
    exact ⟨rfl, ρ, [], [], .nil hρ⟩
  | n :: ns, ht, hsc, htag, hρ, he => by
    cases ht with
    | cons ht hts =>
      cases hsc with
      | cons hsc hscs =>
        cases htag with
        | cons htag htags =>
          obtain ⟨E₁, w, f₁, E₂, ws, hen, hes, rfl, rfl⟩ := evalAll_cons_inv he
          obtain ⟨hty, ρ₁, T, T', h, hpending⟩ := lower_simulates hserves ht hsc htag hρ hen
          obtain ⟨ρ₁, T, T', h, hcalls⟩ := h.spillFor hpending (hty ▸ ht.meets) ns
          obtain ⟨htys, ρ₂, U, U', h'⟩ :=
            lowerOperands_simulates hserves hts hscs htags h.executes.holds hes
          exact ⟨by rw [List.map_cons, hty, htys], ρ₂, T ++ U, T' ++ U', h.cons hρ hcalls h'⟩

theorem lowerBlock_simulates (hserves : Serves names sigs invoke call) (pos : Pos)
    {V V' : List SymbolId} {k k' lo hi j : Nat} {τs : List Ty} {τ : Ty} {f f' : Frame} {ρ : Store}
    {E : List Event} {vs : List Value} {v : Value} :
    ∀ {ns : List Node}, ns ≠ [] → HaveTypes sigs S.ty (Records S) ns τs →
      ScopedAll names V k ns V' k' → HaveTags S lo ns hi → ρ.Holds S V lo j f →
      (evalAll invoke ns f).Returns E (vs, f') → τs.getLast? = some τ → vs.getLast? = some v →
      v.ty = τ ∧ ∃ ρ' T T', Yields names call S (Denotes call) V V' lo hi j
        (lowerBlock S pos ns j) (.ofBlock ns) E (encode v) f' ρ ρ' T T' ∧
        (T' = [] ↔ lastValueCalls ns = false)
  | [], hne, _, _, _, _, _, _, _ => absurd rfl hne
  | [n], _, ht, hsc, htag, hρ, he, hτ, hv => by
    cases ht with
    | cons ht hts =>
      cases hts
      cases hsc with
      | cons hsc hscs =>
        cases hscs
        cases htag with
        | cons htag htags =>
          cases htags
          obtain ⟨E₁, w, f₁, E₂, ws, hen, hes, rfl, rfl⟩ := evalAll_cons_inv he
          obtain ⟨rfl, rfl, rfl⟩ := evalAll_nil_inv hes
          cases hτ
          cases hv
          rw [List.append_nil, Traits.ofBlock_singleton]
          exact lower_simulates hserves ht hsc htag hρ hen
  | n :: n' :: ns, _, ht, hsc, htag, hρ, he, hτ, hv => by
    cases ht with
    | @cons _ _ _ τs ht hts =>
      cases hsc with
      | cons hsc hscs =>
        cases htag with
        | cons htag htags =>
          obtain ⟨E₁, w, f₁, E₂, ws, hen, hes, rfl, rfl⟩ := evalAll_cons_inv he
          obtain ⟨-, ρ₁, T, T', h, hpending⟩ := lower_simulates hserves ht hsc htag hρ hen
          obtain ⟨_, w', _, _, ws', -, -, hws, -⟩ := evalAll_cons_inv hes
          have hτ' : τs.getLast? = some τ := by
            cases hts
            exact hτ
          have hv' : ws.getLast? = some v := by
            subst hws
            exact hv
          obtain ⟨hty, ρ₂, U, U', h', hpending'⟩ := lowerBlock_simulates hserves pos
            (List.cons_ne_nil n' ns) hts hscs htags h.executes.holds hes hτ' hv'
          exact ⟨hty, ρ₂, _, U', h.blockCons hρ hpending h', hpending'⟩

end

end Simulation

end CalcLang.C
