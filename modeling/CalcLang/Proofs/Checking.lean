import CalcLang.Proofs.Building
import CalcLang.Proofs.Symbols
import CalcLang.Proofs.Typing

/-!
# The checker decides the type system

Checking a scoped node records types on the symbols that the node introduces and on no others
(`Typing.get?_check`). If the node has a type by the typing rules, the checker finds it, reports
nothing and records the types of the derivation (`check_of_hasType`); if the checker reports
nothing, the types that it records make a derivation (`hasType_of_check`). Together
(`Package.check_decides_typing`): a built package checks without a report exactly if all of its
declarations have their types, and then every node and every symbol carries the type that it has.
-/

namespace CalcLang

namespace Typing

variable {sigs : Signatures} {names : List String} {Γ : SymbolId → Option Ty}

/-! ## What checking records on symbols -/

mutual

theorem size_check (sigs : Signatures) : ∀ (n : Node) (s : Symbols),
    (check sigs n s).2.2.1.size = s.size
  | .const .., _ | .error .., _ | .read .., _ => rfl
  | .binary _ lhs rhs .., s => (size_check sigs rhs _).trans (size_check sigs lhs s)
  | .unary _ operand .., s => size_check sigs operand s
  | .call _ callee args .., s => by
    rw [check]
    cases hs : sigs[callee.index]? <;> simpa [hs] using size_checkAll sigs args s
  | .ifThen test _ yes .., s => (size_check sigs yes _).trans (size_check sigs test s)
  | .ifThenElse test _ yes no .., s =>
    (size_check sigs no _).trans ((size_check sigs yes _).trans (size_check sigs test s))
  | .block nodes .., s => size_checkAll sigs nodes s
  | .assign _ _ value .., s => size_check sigs value s
  | .declare _ x .., s => Symbols.size_setTy ..
  | .define _ _ _ init _, s => (Symbols.size_setTy ..).trans (size_check sigs init s)

theorem size_checkAll (sigs : Signatures) : ∀ (ns : List Node) (s : Symbols),
    (checkAll sigs ns s).2.2.1.size = s.size
  | [], _ => rfl
  | n :: ns, s => (size_checkAll sigs ns _).trans (size_check sigs n s)

end

mutual

/-- Checking a node changes the symbols that the node introduces only. -/
theorem get?_check (sigs : Signatures) {V V' : List SymbolId} {k k' : Nat} {x : SymbolId} :
    ∀ {n : Node} (s : Symbols), Scoped names V k n V' k' → ¬ x.Within k k' →
      (check sigs n s).2.2.1.get? x = s.get? x
  | .const .., _, _, _ => rfl
  | .error .., _, _, _ => rfl
  | .read .., _, _, _ => rfl
  | .binary .., s, h, hx => by
    cases h with
    | binary hl hr =>
      exact (get?_check sigs _ hr (not_within_right hx hl.le)).trans
        (get?_check sigs s hl (not_within_left hx hr.le))
  | .unary .., s, h, hx => by cases h with | unary h => exact (get?_check sigs s h hx :)
  | .call _ callee args .., s, h, hx => by
    cases h with
    | call _ h =>
      rw [check]
      cases hs : sigs[callee.index]? <;> simpa [hs] using get?_checkAll sigs s h hx
  | .ifThen .., s, h, hx => by
    cases h with
    | ifThen ht hy =>
      exact (get?_check sigs _ hy (not_within_right hx ht.le)).trans
        (get?_check sigs s ht (not_within_left hx hy.le))
  | .ifThenElse .., s, h, hx => by
    cases h with
    | ifThenElse ht hy hn =>
      have hx' := not_within_right hx ht.le
      exact (get?_check sigs _ hn (not_within_right hx' hy.le)).trans
        ((get?_check sigs _ hy (not_within_left hx' hn.le)).trans
          (get?_check sigs s ht (not_within_left hx (Nat.le_trans hy.le hn.le))))
  | .block .., s, h, hx => by cases h with | block _ h => exact get?_checkAll sigs s h hx
  | .assign .., s, h, hx => by cases h with | assign h _ => exact (get?_check sigs s h hx :)
  | .declare .., s, h, hx => by
    cases h
    refine Symbols.get?_setTy_of_ne _ ?_
    rintro rfl
    exact hx ⟨Nat.le_refl _, Nat.lt_succ_self _⟩
  | .define .., s, h, hx => by
    cases h with
    | define h =>
      refine (Symbols.get?_setTy_of_ne _ ?_).trans
        (get?_check sigs s h (not_within_left hx (Nat.le_succ _)))
      rintro rfl
      exact hx ⟨h.le, Nat.lt_succ_self _⟩

theorem get?_checkAll (sigs : Signatures) {V V' : List SymbolId} {k k' : Nat} {x : SymbolId} :
    ∀ {ns : List Node} (s : Symbols), ScopedAll names V k ns V' k' → ¬ x.Within k k' →
      (checkAll sigs ns s).2.2.1.get? x = s.get? x
  | [], _, _, _ => rfl
  | _ :: _, s, h, hx => by
    cases h with
    | cons h hs =>
      exact (get?_checkAll sigs _ hs (not_within_right hx h.le)).trans
        (get?_check sigs s h (not_within_left hx hs.le))

end

mutual

theorem untyped_check (sigs : Signatures) : ∀ (n : Node) (s : Symbols),
    (check sigs n s).1.untyped = n.untyped
  | .const .., _ | .error .., _ | .read .., _ | .declare .., _ => rfl
  | .binary op lhs rhs .., s => by
    simp [check, Node.untyped, untyped_check sigs lhs, untyped_check sigs rhs]
  | .unary _ operand .., s => by simp [check, Node.untyped, untyped_check sigs operand]
  | .call _ callee args .., s => by
    rw [check]
    cases sigs[callee.index]? <;> simp [Node.untyped, untyped_checkAll sigs args]
  | .ifThen test _ yes .., s => by
    simp [check, Node.untyped, untyped_check sigs test, untyped_check sigs yes]
  | .ifThenElse test _ yes no .., s => by
    simp [check, Node.untyped, untyped_check sigs test, untyped_check sigs yes,
      untyped_check sigs no]
  | .block nodes .., s => by simp [check, Node.untyped, untyped_checkAll sigs nodes]
  | .assign _ _ value .., s => by simp [check, Node.untyped, untyped_check sigs value]
  | .define _ _ _ init _, s => by simp [check, Node.untyped, untyped_check sigs init]

theorem untyped_checkAll (sigs : Signatures) : ∀ (ns : List Node) (s : Symbols),
    Node.allUntyped (checkAll sigs ns s).1 = Node.allUntyped ns
  | [], _ => rfl
  | n :: ns, s => by
    simp [checkAll, Node.allUntyped, untyped_check sigs n, untyped_checkAll sigs ns]

end

/-- The table gives the symbols between two numbers the types of an environment. -/
def Settles (Γ : SymbolId → Option Ty) (k k' : Nat) (s : Symbols) : Prop :=
  ∀ x : SymbolId, x.Within k k' → s.ty x = Γ x

/-- The table gives the visible variables the types of an environment. -/
def Agrees (Γ : SymbolId → Option Ty) (V : List SymbolId) (k : Nat) (s : Symbols) : Prop :=
  ∀ x ∈ V, x.index < k ∧ s.ty x = Γ x

theorem Settles.left {k k₁ k₂ : Nat} {s : Symbols} (h : Settles Γ k k₂ s) (hle : k₁ ≤ k₂) :
    Settles Γ k k₁ s := fun x hx => h x ⟨hx.1, Nat.lt_of_lt_of_le hx.2 hle⟩

theorem Settles.right {k k₁ k₂ : Nat} {s : Symbols} (h : Settles Γ k k₂ s) (hle : k ≤ k₁) :
    Settles Γ k₁ k₂ s := fun x hx => h x ⟨Nat.le_trans hle hx.1, hx.2⟩

theorem Settles.nil {k : Nat} {s : Symbols} : Settles Γ k k s :=
  fun _ hx => absurd hx.2 (Nat.not_lt.2 hx.1)

/-- The symbols of a node that has been checked keep their types while others change. -/
theorem Settles.trans {k k₁ k₂ : Nat} {s s' : Symbols} (h : Settles Γ k k₁ s)
    (h' : Settles Γ k₁ k₂ s') (hkeep : ∀ x : SymbolId, ¬ x.Within k₁ k₂ → s'.ty x = s.ty x) :
    Settles Γ k k₂ s' := by
  intro x hx
  by_cases hlt : x.index < k₁
  · rw [hkeep x fun h => Nat.not_lt.2 h.1 hlt]
    exact h x ⟨hx.1, hlt⟩
  · exact h' x ⟨Nat.not_lt.1 hlt, hx.2⟩

/-- The symbols of a node had their types already when the next node was checked. -/
theorem Settles.before {k k₁ k₂ : Nat} {s s' : Symbols} (h : Settles Γ k k₂ s') (hle : k₁ ≤ k₂)
    (hkeep : ∀ x : SymbolId, ¬ x.Within k₁ k₂ → s'.ty x = s.ty x) : Settles Γ k k₁ s := by
  intro x hx
  rw [← hkeep x fun h => Nat.not_lt.2 h.1 hx.2]
  exact h x ⟨hx.1, Nat.lt_of_lt_of_le hx.2 hle⟩

theorem Agrees.after {V V' : List SymbolId} {k k' : Nat} {s s' : Symbols} (h : Agrees Γ V k s)
    (hle : k ≤ k') (hV : ∀ x ∈ V', x ∈ V ∨ x.Within k k')
    (hkeep : ∀ x : SymbolId, ¬ x.Within k k' → s'.ty x = s.ty x) (hs : Settles Γ k k' s') :
    Agrees Γ V' k' s' := by
  intro x hx
  rcases hV x hx with hx | hx
  · obtain ⟨hlt, hty⟩ := h x hx
    refine ⟨Nat.lt_of_lt_of_le hlt hle, ?_⟩
    rw [hkeep x fun h => Nat.not_lt.2 h.1 hlt, hty]
  · exact ⟨hx.2, hs x hx⟩

section Keep

variable {V V' : List SymbolId} {k k' : Nat} {n m : Node} {ns ms : List Node} {s s' : Symbols}
  {ty : Option Ty} {tys : List (Option Ty × Pos)} {d : List Diagnostic}

theorem keep_of_check (h : check sigs n s = (m, ty, s', d)) (hsc : Scoped names V k n V' k') :
    ∀ x : SymbolId, ¬ x.Within k k' → s'.ty x = s.ty x := by
  intro x hx
  have := get?_check sigs s hsc hx
  rw [h] at this
  rw [Symbols.ty, this, Symbols.ty]

theorem keep_of_checkAll (h : checkAll sigs ns s = (ms, tys, s', d))
    (hsc : ScopedAll names V k ns V' k') : ∀ x : SymbolId, ¬ x.Within k k' → s'.ty x = s.ty x := by
  intro x hx
  have := get?_checkAll sigs s hsc hx
  rw [h] at this
  rw [Symbols.ty, this, Symbols.ty]

theorem untyped_of_check (h : check sigs n s = (m, ty, s', d)) : m.untyped = n.untyped := by
  have := untyped_check sigs n s
  rwa [h] at this

theorem size_of_check (h : check sigs n s = (m, ty, s', d)) : s'.size = s.size := by
  have := size_check sigs n s
  rwa [h] at this

end Keep

/-! ## Reports -/

@[simp]
theorem expect_self (ty : Option Ty) (context : Diagnostic.Context) (pos : Pos) :
    expect ty ty context pos = [] := by
  cases ty <;> simp [expect]

theorem expect_eq_nil_iff {e f : Ty} {context : Diagnostic.Context} {pos : Pos} :
    expect (some e) (some f) context pos = [] ↔ e = f := by
  simp [expect]

@[simp]
theorem agreed_self (ty : Option Ty) : agreed ty ty = ty := by
  simp [agreed]

theorem binary_of_operation {op : BinaryOp} {l r τ : Ty} (h : Operation op l r τ) (pos : Pos) :
    binary op (some l) (some r) pos = (some τ, []) := by
  simp [binary, h.operands_eq.symm, h.operand_eq, h.result_eq]

theorem operation_of_binary {op : BinaryOp} {l r : Ty} {ty : Option Ty} {pos : Pos}
    (h : binary op (some l) (some r) pos = (ty, [])) : ∃ τ, ty = some τ ∧ Operation op l r τ := by
  unfold binary at h
  simp only at h
  split at h
  · cases h
  · next hlr =>
    split at h
    · cases h
    · next hop =>
      cases h
      obtain rfl := Decidable.not_not.1 hlr
      exact ⟨_, rfl, operation_of_operand_eq (Decidable.not_not.1 hop)⟩

theorem written_of_eq {written' : Option Ty} {τ : Ty} {pos : Pos}
    (h : ∀ w, written' = some w → w = τ) : written written' (some τ) pos = (some τ, []) := by
  cases written' with
  | none => rfl
  | some w =>
    obtain rfl := h w rfl
    simp [written]

theorem eq_of_written {written' : Option Ty} {τ : Ty} {ty : Option Ty} {pos : Pos}
    (h : written written' (some τ) pos = (ty, [])) :
    ty = some τ ∧ ∀ w, written' = some w → w = τ := by
  cases written' with
  | none =>
    cases h
    exact ⟨rfl, by simp⟩
  | some w =>
    simp only [written, Prod.mk.injEq, expect_eq_nil_iff] at h
    obtain ⟨rfl, rfl⟩ := h
    exact ⟨agreed_self _, by simp⟩

theorem arguments_map_fst (index : Nat) (args : List (Option Ty × Pos)) :
    arguments index (args.map Prod.fst) args = [] := by
  induction args generalizing index with
  | nil => rfl
  | cons a args ih =>
    obtain ⟨ty, pos⟩ := a
    simp [arguments, ih]

theorem call_of_map_fst {sig : Signature} {args : List (Option Ty × Pos)}
    (h : args.map Prod.fst = sig.params) (pos : Pos) : call sig args pos = [] := by
  rw [call, ← h, if_pos (List.length_map _).symm, arguments_map_fst]

theorem eq_of_arguments {index : Nat} {τs σs : List Ty} {args : List (Option Ty × Pos)}
    (h : arguments index (σs.map some) args = []) (ha : args.map Prod.fst = τs.map some)
    (hlen : τs.length = σs.length) : σs = τs := by
  induction σs generalizing index τs args with
  | nil => exact (List.length_eq_zero_iff.1 hlen).symm
  | cons σ σs ih =>
    cases τs with
    | nil => cases hlen
    | cons τ τs =>
      cases args with
      | nil => cases ha
      | cons a args =>
        obtain ⟨ty, pos⟩ := a
        simp only [List.map_cons, List.cons.injEq] at ha
        obtain ⟨rfl, ha⟩ := ha
        simp only [List.map_cons, arguments, List.append_eq_nil_iff, expect_eq_nil_iff] at h
        rw [h.1, ih h.2 ha (Nat.succ.inj hlen)]

/-- A call without a report has arguments of the types of the parameters. -/
theorem params_of_call {sig : Signature} {τs σs : List Ty} {args : List (Option Ty × Pos)}
    {pos : Pos} (h : call sig args pos = []) (hsig : sig.params = σs.map some)
    (ha : args.map Prod.fst = τs.map some) : sig.params = τs.map some := by
  unfold call at h
  split at h
  · next hlen =>
    rw [hsig] at h hlen ⊢
    have hlen' := congrArg List.length ha
    rw [List.length_map] at hlen hlen'
    rw [eq_of_arguments h ha (by simpa [hlen] using hlen'.symm)]
  · cases h

theorem bind_getLast?_fst (args : List (Option Ty × Pos)) (τs : List Ty)
    (h : args.map Prod.fst = τs.map some) : args.getLast?.bind Prod.fst = τs.getLast? := by
  have := congrArg List.getLast? h
  rw [List.getLast?_map, List.getLast?_map] at this
  cases ha : args.getLast? <;> cases hτ : τs.getLast? <;> simp_all

/-- A type that is written has to be the one that is found. -/
theorem or_some_of_eq {written : Option Ty} {τ : Ty} (h : ∀ w, written = some w → w = τ) :
    written.or (some τ) = some τ := by
  cases written with
  | none => rfl
  | some w => rw [h w rfl, Option.some_or]

/-! ## Typed nodes check -/

/-- Checking the node finds the type without a report, gives the new symbols their types and
records all types on the node. -/
def Finds (sigs : Signatures) (Γ : SymbolId → Option Ty) (k k' : Nat) (n : Node) (s : Symbols)
    (τ : Ty) : Prop :=
  ∃ m s', check sigs n s = (m, some τ, s', []) ∧ Settles Γ k k' s' ∧
    ∀ S, Settles Γ k k' S → HasType sigs Γ (Records S) m τ

/-- `Finds` for nodes one after the other. -/
def FindsAll (sigs : Signatures) (Γ : SymbolId → Option Ty) (k k' : Nat) (ns : List Node)
    (s : Symbols) (τs : List Ty) : Prop :=
  ∃ ms tys s', checkAll sigs ns s = (ms, tys, s', []) ∧ tys.map Prod.fst = τs.map some ∧
    Settles Γ k k' s' ∧ ∀ S, Settles Γ k k' S → HaveTypes sigs Γ (Records S) ms τs

mutual

/-- **A node that has a type checks with that type.** -/
theorem check_of_hasType {V V' : List SymbolId} {k k' : Nat} {s : Symbols} {τ : Ty} :
    ∀ {n : Node}, Derives sigs Γ n τ → Scoped names V k n V' k' → Agrees Γ V k s →
      k' ≤ s.size → Finds sigs Γ k k' n s τ
  | .const .., ht, hsc, _, _ => by
    cases ht
    cases hsc
    exact ⟨_, _, rfl, .nil, fun _ _ => .const rfl⟩
  | .error .., ht, _, _, _ => by cases ht
  | .read name x ty pos, ht, hsc, ha, _ => by
    cases ht with
    | read hx _ =>
      cases hsc with
      | read hmem =>
        have hs : s.ty x = some τ := (ha x hmem).2.trans hx
        exact ⟨.read name x (some τ) pos, s, by rw [check, hs], .nil, fun _ _ => .read hx rfl⟩
  | .binary op lhs rhs ty tag pos, ht, hsc, ha, hsize => by
    cases ht with
    | binary hl hr hop _ =>
      cases hsc with
      | binary hscl hscr =>
        have hle := hscl.le
        have hle' := hscr.le
        obtain ⟨lhs', s₁, hcl, hs₁, hml⟩ :=
          check_of_hasType hl hscl ha (Nat.le_trans hle' hsize)
        have ha₁ := ha.after hle hscl.visible.2 (keep_of_check hcl hscl) hs₁
        obtain ⟨rhs', s₂, hcr, hs₂, hmr⟩ :=
          check_of_hasType hr hscr ha₁ (by rwa [size_of_check hcl])
        refine ⟨.binary op lhs' rhs' (some τ) tag pos, s₂, ?_, ?_, fun S hS => ?_⟩
        · simp only [check, hcl, hcr, binary_of_operation hop, List.append_nil]
        · exact hs₁.trans hs₂ (keep_of_check hcr hscr)
        · exact .binary (hml S (hS.left hle')) (hmr S (hS.right hle)) hop rfl
  | .unary op operand ty pos, ht, hsc, ha, hsize => by
    cases ht with
    | unary ho hneg _ =>
      cases hsc with
      | unary hsco =>
        obtain ⟨operand', s₁, hco, hs₁, hmo⟩ := check_of_hasType ho hsco ha hsize
        refine ⟨.unary op operand' (some τ) pos, s₁, ?_, hs₁, fun S hS => ?_⟩
        · simp only [check, hco, ← hneg.operand_eq, agreed_self, expect_self, List.append_nil]
        · exact .unary (hmo S hS) hneg rfl
  | .call name callee args ty pos, ht, hsc, ha, hsize => by
    cases ht with
    | @call _ _ _ _ _ sig τs hsig hargs hparams _ =>
      cases hsc with
      | call _ hsca =>
        obtain ⟨args', tys, s₁, hca, htys, hs₁, hma⟩ := checkAll_of_haveTypes hargs hsca ha hsize
        refine ⟨.call name callee args' (some sig.ret) pos, s₁, ?_, hs₁, fun S hS => ?_⟩
        · simp only [check, hca, hsig, call_of_map_fst (htys.trans hparams.symm), List.append_nil]
        · exact .call hsig (hma S hS) hparams rfl
  | .ifThen test written yes ty tag pos, ht, hsc, ha, hsize => by
    cases ht with
    | ifThen htt hty hw _ =>
      cases hsc with
      | ifThen hsct hscy =>
        have hle := hsct.le
        have hle' := hscy.le
        obtain ⟨test', s₁, hct, hs₁, hmt⟩ :=
          check_of_hasType htt hsct ha (Nat.le_trans hle' hsize)
        have ha₁ := ha.after hle hsct.visible.2 (keep_of_check hct hsct) hs₁
        obtain ⟨yes', s₂, hcy, hs₂, hmy⟩ :=
          check_of_hasType hty hscy ha₁ (by rwa [size_of_check hct])
        refine ⟨.ifThen test' written yes' (some τ) tag pos, s₂, ?_, ?_, fun S hS => ?_⟩
        · simp only [check, hct, hcy, written_of_eq hw, expect_self, List.append_nil]
        · exact hs₁.trans hs₂ (keep_of_check hcy hscy)
        · exact .ifThen (hmt S (hS.left hle')) (hmy S (hS.right hle)) hw rfl
  | .ifThenElse test written yes no ty tag pos, ht, hsc, ha, hsize => by
    cases ht with
    | ifThenElse htt hty htn hw _ =>
      cases hsc with
      | ifThenElse hsct hscy hscn =>
        have hle := hsct.le
        have hle₁ := hscy.le
        have hle₂ := hscn.le
        obtain ⟨test', s₁, hct, hs₁, hmt⟩ :=
          check_of_hasType htt hsct ha (Nat.le_trans hle₁ (Nat.le_trans hle₂ hsize))
        have ha₁ := ha.after hle hsct.visible.2 (keep_of_check hct hsct) hs₁
        have hsize₁ := size_of_check hct
        obtain ⟨yes', s₂, hcy, hs₂, hmy⟩ := check_of_hasType hty hscy ha₁ (by omega)
        have hkeep := keep_of_check hcy hscy
        have hsize₂ := size_of_check hcy
        -- The second branch sees what was visible behind the test.
        have ha₂ : Agrees Γ _ _ s₂ := ha₁.after hle₁ (fun x hx => .inl hx) hkeep hs₂
        obtain ⟨no', s₃, hcn, hs₃, hmn⟩ := check_of_hasType htn hscn ha₂ (by omega)
        refine ⟨.ifThenElse test' written yes' no' (some τ) tag pos, s₃, ?_, ?_, fun S hS => ?_⟩
        · simp only [check, hct, hcy, hcn, agreed_self, written_of_eq hw, expect_self,
            List.append_nil]
        · exact (hs₁.trans hs₂ hkeep).trans hs₃ (keep_of_check hcn hscn)
        · have hS' := hS.right hle
          exact .ifThenElse (hmt S (hS.left (Nat.le_trans hle₁ hle₂))) (hmy S (hS'.left hle₂))
            (hmn S (hS'.right hle₁)) hw rfl
  | .block nodes ty pos, ht, hsc, ha, hsize => by
    cases ht with
    | block hns hlast _ =>
      cases hsc with
      | block _ hscns =>
        obtain ⟨nodes', tys, s₁, hcns, htys, hs₁, hmns⟩ :=
          checkAll_of_haveTypes hns hscns ha hsize
        refine ⟨.block nodes' (some τ) pos, s₁, ?_, hs₁, fun S hS => ?_⟩
        · simp only [check, hcns, bind_getLast?_fst tys _ htys, hlast]
        · exact .block (hmns S hS) hlast rfl
  | .assign name x value ty pos, ht, hsc, ha, hsize => by
    cases ht with
    | assign hv hx _ =>
      cases hsc with
      | assign hscv hmem =>
        obtain ⟨value', s₁, hcv, hs₁, hmv⟩ := check_of_hasType hv hscv ha hsize
        have ha₁ := ha.after hscv.le hscv.visible.2 (keep_of_check hcv hscv) hs₁
        have hs : s₁.ty x = some τ := (ha₁ x hmem).2.trans hx
        refine ⟨.assign name x value' (some τ) pos, s₁, ?_, hs₁, fun S hS => ?_⟩
        · simp only [check, hcv, hs, agreed_self, expect_self, List.append_nil]
        · exact .assign (hmv S hS) hx rfl
  | .declare name x written pos, ht, hsc, ha, hsize => by
    cases ht with
    | declare hx _ =>
      cases hsc
      have hself : ∀ y : SymbolId, y.Within k (k + 1) → y = ⟨k⟩ := by
        rintro ⟨j⟩ ⟨hj, hj'⟩
        exact congrArg SymbolId.mk (Nat.le_antisymm (Nat.lt_succ_iff.1 hj') hj)
      refine ⟨_, _, rfl, fun y hy => ?_, fun S hS => ?_⟩
      · obtain rfl := hself y hy
        rw [Symbols.ty_setTy_self _ hsize, hx]
      · exact .declare hx ((hS ⟨k⟩ ⟨Nat.le_refl _, Nat.lt_succ_self _⟩).trans hx)
  | .define name x written init pos, ht, hsc, ha, hsize => by
    cases ht with
    | define hi hw hx _ =>
      cases hsc with
      | @define _ _ _ _ _ V₁ k₁ _ hsci =>
        have hle := hsci.le
        obtain ⟨init', s₁, hci, hs₁, hmi⟩ :=
          check_of_hasType hi hsci ha (Nat.le_trans (Nat.le_succ _) hsize)
        have hty := or_some_of_eq hw
        have hexp : expect written (some τ) .initializer init'.pos = [] := by
          cases written with
          | none => rfl
          | some w => rw [hw w rfl]; exact expect_self ..
        refine ⟨.define name ⟨k₁⟩ written init' pos, s₁.setTy ⟨k₁⟩ (some τ), ?_, ?_,
          fun S hS => ?_⟩
        · simp only [check, hci, hty, hexp, List.append_nil]
        · intro y hy
          by_cases hlt : y.index < k₁
          · rw [Symbols.ty_setTy_of_ne]
            · exact hs₁ y ⟨hy.1, hlt⟩
            · rintro rfl
              exact Nat.lt_irrefl _ hlt
          · obtain ⟨j⟩ := y
            obtain rfl : j = k₁ := Nat.le_antisymm (Nat.lt_succ_iff.1 hy.2) (Nat.not_lt.1 hlt)
            rw [Symbols.ty_setTy_self _ (by rwa [size_of_check hci]), hx]
        · exact .define (hmi S (hS.left (Nat.le_succ _))) hw hx
            ((hS ⟨k₁⟩ ⟨hle, Nat.lt_succ_self _⟩).trans hx)

theorem checkAll_of_haveTypes {V V' : List SymbolId} {k k' : Nat} {s : Symbols} {τs : List Ty} :
    ∀ {ns : List Node}, HaveTypes sigs Γ (fun _ _ => True) ns τs → ScopedAll names V k ns V' k' →
      Agrees Γ V k s → k' ≤ s.size → FindsAll sigs Γ k k' ns s τs
  | [], ht, hsc, _, _ => by
    cases ht
    cases hsc
    exact ⟨_, _, _, rfl, rfl, .nil, fun _ _ => .nil⟩
  | n :: ns, ht, hsc, ha, hsize => by
    cases ht with
    | @cons _ _ τ τs' h hs =>
      cases hsc with
      | cons hscn hscns =>
        have hle := hscn.le
        have hle' := hscns.le
        obtain ⟨m, s₁, hc, hs₁, hm⟩ := check_of_hasType h hscn ha (Nat.le_trans hle' hsize)
        have ha₁ := ha.after hle hscn.visible.2 (keep_of_check hc hscn) hs₁
        obtain ⟨ms, tys, s₂, hcs, htys, hs₂, hms⟩ :=
          checkAll_of_haveTypes hs hscns ha₁ (by rwa [size_of_check hc])
        refine ⟨m :: ms, (some τ, m.pos) :: tys, s₂, ?_, ?_, ?_, fun S hS => ?_⟩
        · simp only [checkAll, hc, hcs, List.append_nil]
        · rw [List.map_cons, List.map_cons, htys]
        · exact hs₁.trans hs₂ (keep_of_checkAll hcs hscns)
        · exact .cons (hm S (hS.left hle')) (hms S (hS.right hle))

end

/-! ## Nodes that check are typed -/

theorem isSome_of_within_succ {x : SymbolId} {k : Nat} {τ : Ty} (hx : Γ ⟨k⟩ = some τ)
    (h : x.Within k (k + 1)) : (Γ x).isSome := by
  obtain ⟨j⟩ := x
  obtain rfl : j = k := Nat.le_antisymm (Nat.lt_succ_iff.1 h.2) h.1
  rw [hx]
  rfl

mutual

/-- An environment for a typed node has a type for every symbol that the node introduces. -/
theorem HasType.known {P : Node → Ty → Prop} {V V' : List SymbolId} {k k' : Nat} {τ : Ty} :
    ∀ {n : Node}, HasType sigs Γ P n τ → Scoped names V k n V' k' →
      ∀ x : SymbolId, x.Within k k' → (Γ x).isSome
  | .const .., _, hsc, x, hx => by cases hsc; exact absurd hx.2 (Nat.not_lt.2 hx.1)
  | .error .., ht, _, _, _ => by cases ht
  | .read .., _, hsc, x, hx => by cases hsc; exact absurd hx.2 (Nat.not_lt.2 hx.1)
  | .binary .., ht, hsc, x, hx => by
    cases ht with
    | binary hl hr _ _ =>
      cases hsc with
      | binary hscl hscr => exact hx.split.elim (hl.known hscl x) (hr.known hscr x)
  | .unary .., ht, hsc, x, hx => by
    cases ht with
    | unary ho _ _ => cases hsc with | unary hsco => exact ho.known hsco x hx
  | .call .., ht, hsc, x, hx => by
    cases ht with
    | call _ hargs _ _ => cases hsc with | call _ hsca => exact hargs.known hsca x hx
  | .ifThen .., ht, hsc, x, hx => by
    cases ht with
    | ifThen htt hty _ _ =>
      cases hsc with
      | ifThen hsct hscy => exact hx.split.elim (htt.known hsct x) (hty.known hscy x)
  | .ifThenElse .., ht, hsc, x, hx => by
    cases ht with
    | ifThenElse htt hty htn _ _ =>
      cases hsc with
      | ifThenElse hsct hscy hscn =>
        exact hx.split.elim (htt.known hsct x) fun hx =>
          hx.split.elim (hty.known hscy x) (htn.known hscn x)
  | .block .., ht, hsc, x, hx => by
    cases ht with
    | block hns _ _ => cases hsc with | block _ hscns => exact hns.known hscns x hx
  | .assign .., ht, hsc, x, hx => by
    cases ht with
    | assign hv _ _ => cases hsc with | assign hscv _ => exact hv.known hscv x hx
  | .declare .., ht, hsc, x, hx => by
    cases ht with
    | declare hx' _ => cases hsc; exact isSome_of_within_succ hx' hx
  | .define .., ht, hsc, x, hx => by
    cases ht with
    | define hi _ hx' _ =>
      cases hsc with
      | define hsci =>
        exact hx.split.elim (hi.known hsci x) (isSome_of_within_succ hx')

theorem HaveTypes.known {P : Node → Ty → Prop} {V V' : List SymbolId} {k k' : Nat}
    {τs : List Ty} : ∀ {ns : List Node}, HaveTypes sigs Γ P ns τs → ScopedAll names V k ns V' k' →
      ∀ x : SymbolId, x.Within k k' → (Γ x).isSome
  | [], _, hsc, x, hx => by cases hsc; exact absurd hx.2 (Nat.not_lt.2 hx.1)
  | _ :: _, ht, hsc, x, hx => by
    cases ht with
    | cons h hs =>
      cases hsc with
      | cons hscn hscns => exact hx.split.elim (h.known hscn x) (hs.known hscns x)

end

/-- What the signatures of a built package are like: there is one for every name, and parameters
have types. -/
structure Complete (sigs : Signatures) (names : List String) : Prop where
  names : sigs.map Signature.name = names
  params : ∀ sig ∈ sigs, ∃ σs : List Ty, sig.params = σs.map some

theorem Complete.exists_signature (h : Complete sigs names) {id : DeclId} {name : String}
    (hname : names[id.index]? = some name) :
    ∃ sig, sigs[id.index]? = some sig ∧ sig.name = name := by
  rw [← h.names, List.getElem?_map, Option.map_eq_some_iff] at hname
  exact hname

/-- The environment has types for the visible variables. -/
def Known (Γ : SymbolId → Option Ty) (V : List SymbolId) : Prop := ∀ x ∈ V, (Γ x).isSome

theorem Known.after {V V' : List SymbolId} {k k' : Nat} (h : Known Γ V)
    (hV : ∀ x ∈ V', x ∈ V ∨ x.Within k k') (hnew : ∀ x : SymbolId, x.Within k k' → (Γ x).isSome) :
    Known Γ V' := fun x hx => (hV x hx).elim (h x) (hnew x)

mutual

/-- **A node that checks without a report has a type.** -/
theorem hasType_of_check (hsigs : Complete sigs names) {V V' : List SymbolId} {k k' : Nat}
    {s s' : Symbols} {m : Node} {ty : Option Ty} : ∀ {n : Node}, check sigs n s = (m, ty, s', []) →
      Scoped names V k n V' k' → Agrees Γ V k s → Known Γ V → Settles Γ k k' s' → k' ≤ s.size →
      ∃ τ, ty = some τ ∧ Derives sigs Γ n τ
  | .const v pos, h, _, _, _, _, _ => by
    cases h
    exact ⟨_, rfl, .const trivial⟩
  | .error .., _, hsc, _, _, _, _ => by cases hsc
  | .read name x ty pos, h, hsc, ha, hk, _, _ => by
    cases hsc with
    | read hmem =>
      cases h
      obtain ⟨τ, hτ⟩ := Option.isSome_iff_exists.1 (hk x hmem)
      exact ⟨τ, (ha x hmem).2.trans hτ, .read hτ trivial⟩
  | .binary op lhs rhs _ tag pos, h, hsc, ha, hk, hs, hsize => by
    cases hsc with
    | binary hscl hscr =>
      have hle := hscl.le
      have hle' := hscr.le
      rcases hcl : check sigs lhs s with ⟨lhs', lty, s₁, d₁⟩
      rcases hcr : check sigs rhs s₁ with ⟨rhs', rty, s₂, d₂⟩
      rcases hb : binary op lty rty pos with ⟨bty, d₃⟩
      simp only [check, hcl, hcr, hb, Prod.mk.injEq, List.append_eq_nil_iff] at h
      obtain ⟨rfl, rfl, rfl, ⟨rfl, rfl⟩, rfl⟩ := h
      have hs₁ := hs.before hle' (keep_of_check hcr hscr)
      obtain ⟨l, rfl, htl⟩ :=
        hasType_of_check hsigs hcl hscl ha hk hs₁ (Nat.le_trans hle' hsize)
      have ha₁ := ha.after hle hscl.visible.2 (keep_of_check hcl hscl) hs₁
      have hk₁ := hk.after hscl.visible.2 (htl.known hscl)
      obtain ⟨r, rfl, htr⟩ := hasType_of_check hsigs hcr hscr ha₁ hk₁ (hs.right hle)
        (by rwa [size_of_check hcl])
      obtain ⟨τ, rfl, hop⟩ := operation_of_binary hb
      exact ⟨τ, rfl, .binary htl htr hop trivial⟩
  | .unary op operand _ pos, h, hsc, ha, hk, hs, hsize => by
    cases hsc with
    | unary hsco =>
      rcases hco : check sigs operand s with ⟨operand', oty, s₁, d₁⟩
      simp only [check, hco, Prod.mk.injEq, List.append_eq_nil_iff] at h
      obtain ⟨rfl, rfl, rfl, rfl, hexp⟩ := h
      obtain ⟨τ, rfl, hto⟩ := hasType_of_check hsigs hco hsco ha hk hs hsize
      obtain rfl := expect_eq_nil_iff.1 hexp
      exact ⟨_, agreed_self _, .unary hto (negation_operand op) trivial⟩
  | .call name callee args _ pos, h, hsc, ha, hk, hs, hsize => by
    cases hsc with
    | call hname hsca =>
      rcases hca : checkAll sigs args s with ⟨args', tys, s₁, d₁⟩
      obtain ⟨sig, hsig, -⟩ := hsigs.exists_signature hname
      simp only [check, hca, hsig, Prod.mk.injEq, List.append_eq_nil_iff] at h
      obtain ⟨rfl, rfl, rfl, rfl, hcall⟩ := h
      obtain ⟨τs, htys, hta⟩ := haveTypes_of_checkAll hsigs hca hsca ha hk hs hsize
      obtain ⟨σs, hσs⟩ := hsigs.params sig (List.mem_of_getElem? hsig)
      exact ⟨_, rfl, .call hsig hta (params_of_call hcall hσs htys) trivial⟩
  | .ifThen test written' yes _ tag pos, h, hsc, ha, hk, hs, hsize => by
    cases hsc with
    | ifThen hsct hscy =>
      have hle := hsct.le
      have hle' := hscy.le
      rcases hct : check sigs test s with ⟨test', tty, s₁, d₁⟩
      rcases hcy : check sigs yes s₁ with ⟨yes', yty, s₂, d₂⟩
      rcases hw : written written' yty pos with ⟨wty, d₃⟩
      simp only [check, hct, hcy, hw, Prod.mk.injEq, List.append_eq_nil_iff] at h
      obtain ⟨rfl, rfl, rfl, ⟨⟨rfl, hexp⟩, rfl⟩, rfl⟩ := h
      have hs₁ := hs.before hle' (keep_of_check hcy hscy)
      obtain ⟨t, rfl, htt⟩ :=
        hasType_of_check hsigs hct hsct ha hk hs₁ (Nat.le_trans hle' hsize)
      obtain rfl := expect_eq_nil_iff.1 hexp
      have ha₁ := ha.after hle hsct.visible.2 (keep_of_check hct hsct) hs₁
      have hk₁ := hk.after hsct.visible.2 (htt.known hsct)
      obtain ⟨τ, rfl, hty⟩ := hasType_of_check hsigs hcy hscy ha₁ hk₁ (hs.right hle)
        (by rwa [size_of_check hct])
      obtain ⟨rfl, hw'⟩ := eq_of_written hw
      exact ⟨τ, rfl, .ifThen htt hty hw' trivial⟩
  | .ifThenElse test written' yes no _ tag pos, h, hsc, ha, hk, hs, hsize => by
    cases hsc with
    | ifThenElse hsct hscy hscn =>
      have hle := hsct.le
      have hle₁ := hscy.le
      have hle₂ := hscn.le
      rcases hct : check sigs test s with ⟨test', tty, s₁, d₁⟩
      rcases hcy : check sigs yes s₁ with ⟨yes', yty, s₂, d₂⟩
      rcases hcn : check sigs no s₂ with ⟨no', nty, s₃, d₃⟩
      rcases hw : written written' (agreed yty nty) pos with ⟨wty, d₄⟩
      simp only [check, hct, hcy, hcn, hw, Prod.mk.injEq, List.append_eq_nil_iff] at h
      obtain ⟨rfl, rfl, rfl, ⟨⟨⟨⟨rfl, hexp⟩, rfl⟩, rfl⟩, hexp'⟩, rfl⟩ := h
      have hkeep := keep_of_check hcy hscy
      have hs₂ := hs.before hle₂ (keep_of_check hcn hscn)
      have hs₁ := hs₂.before hle₁ hkeep
      have hsize₁ := size_of_check hct
      have hsize₂ := size_of_check hcy
      obtain ⟨t, rfl, htt⟩ := hasType_of_check hsigs hct hsct ha hk hs₁ (by omega)
      obtain rfl := expect_eq_nil_iff.1 hexp
      have ha₁ := ha.after hle hsct.visible.2 (keep_of_check hct hsct) hs₁
      have hk₁ := hk.after hsct.visible.2 (htt.known hsct)
      obtain ⟨τ, rfl, hty⟩ :=
        hasType_of_check hsigs hcy hscy ha₁ hk₁ (hs₂.right hle) (by omega)
      have ha₂ : Agrees Γ _ _ s₂ := ha₁.after hle₁ (fun x hx => .inl hx) hkeep (hs₂.right hle)
      obtain ⟨τ', rfl, htn⟩ := hasType_of_check hsigs hcn hscn ha₂ hk₁
        (hs.right (Nat.le_trans hle hle₁)) (by omega)
      obtain rfl := expect_eq_nil_iff.1 hexp'
      rw [agreed_self] at hw
      obtain ⟨rfl, hw'⟩ := eq_of_written hw
      exact ⟨τ, rfl, .ifThenElse htt hty htn hw' trivial⟩
  | .block nodes _ pos, h, hsc, ha, hk, hs, hsize => by
    cases hsc with
    | block hne hscns =>
      rcases hcns : checkAll sigs nodes s with ⟨nodes', tys, s₁, d₁⟩
      simp only [check, hcns, Prod.mk.injEq] at h
      obtain ⟨rfl, rfl, rfl, rfl⟩ := h
      obtain ⟨τs, htys, hts⟩ := haveTypes_of_checkAll hsigs hcns hscns ha hk hs hsize
      have hτs : τs ≠ [] := by
        rintro rfl
        cases hts
        exact hne rfl
      refine ⟨τs.getLast hτs, ?_, .block hts (List.getLast?_eq_some_getLast hτs) trivial⟩
      rw [bind_getLast?_fst tys τs htys, List.getLast?_eq_some_getLast hτs]
  | .assign name x value _ pos, h, hsc, ha, hk, hs, hsize => by
    cases hsc with
    | assign hscv hmem =>
      rcases hcv : check sigs value s with ⟨value', vty, s₁, d₁⟩
      simp only [check, hcv, Prod.mk.injEq, List.append_eq_nil_iff] at h
      obtain ⟨rfl, rfl, rfl, rfl, hexp⟩ := h
      obtain ⟨τ, rfl, htv⟩ := hasType_of_check hsigs hcv hscv ha hk hs hsize
      have ha₁ := ha.after hscv.le hscv.visible.2 (keep_of_check hcv hscv) hs
      have hk₁ := hk.after hscv.visible.2 (htv.known hscv)
      obtain ⟨τ', hτ'⟩ := Option.isSome_iff_exists.1 (hk₁ x hmem)
      have hty : s₁.ty x = some τ' := (ha₁ x hmem).2.trans hτ'
      rw [hty] at hexp ⊢
      obtain rfl := expect_eq_nil_iff.1 hexp
      exact ⟨_, agreed_self _, .assign htv hτ' trivial⟩
  | .declare name x written pos, h, hsc, _, _, hs, hsize => by
    cases hsc
    cases h
    have := hs ⟨k⟩ ⟨Nat.le_refl _, Nat.lt_succ_self _⟩
    rw [Symbols.ty_setTy_self _ hsize] at this
    exact ⟨_, rfl, .declare this.symm trivial⟩
  | .define name x written init pos, h, hsc, ha, hk, hs, hsize => by
    cases hsc with
    | @define _ _ _ _ _ V₁ k₁ _ hsci =>
      have hle := hsci.le
      rcases hci : check sigs init s with ⟨init', ity, s₁, d₁⟩
      simp only [check, hci, Prod.mk.injEq, List.append_eq_nil_iff] at h
      obtain ⟨rfl, rfl, rfl, rfl, hexp⟩ := h
      have hs₁ : Settles Γ k k₁ s₁ := by
        intro y hy
        rw [← hs y ⟨hy.1, Nat.lt_succ_of_lt hy.2⟩, Symbols.ty_setTy_of_ne]
        rintro rfl
        exact Nat.lt_irrefl _ hy.2
      obtain ⟨τ, rfl, hti⟩ :=
        hasType_of_check hsigs hci hsci ha hk hs₁ (Nat.le_trans (Nat.le_succ _) hsize)
      have hw : ∀ w, written = some w → w = τ := by
        rintro w rfl
        exact expect_eq_nil_iff.1 hexp
      have hty := or_some_of_eq hw
      have hx := hs ⟨k₁⟩ ⟨hle, Nat.lt_succ_self _⟩
      rw [Symbols.ty_setTy_self _ (by rwa [size_of_check hci]), hty] at hx
      exact ⟨τ, hty, .define hti hw hx.symm trivial⟩

theorem haveTypes_of_checkAll (hsigs : Complete sigs names) {V V' : List SymbolId} {k k' : Nat}
    {s s' : Symbols} {ms : List Node} {tys : List (Option Ty × Pos)} : ∀ {ns : List Node},
      checkAll sigs ns s = (ms, tys, s', []) → ScopedAll names V k ns V' k' → Agrees Γ V k s →
      Known Γ V → Settles Γ k k' s' → k' ≤ s.size →
      ∃ τs : List Ty, tys.map Prod.fst = τs.map some ∧ HaveTypes sigs Γ (fun _ _ => True) ns τs
  | [], h, _, _, _, _, _ => by
    cases h
    exact ⟨[], rfl, .nil⟩
  | n :: ns, h, hsc, ha, hk, hs, hsize => by
    cases hsc with
    | cons hscn hscns =>
      have hle := hscn.le
      have hle' := hscns.le
      rcases hc : check sigs n s with ⟨m, ty, s₁, d₁⟩
      rcases hcs : checkAll sigs ns s₁ with ⟨ms', tys', s₂, d₂⟩
      simp only [checkAll, hc, hcs, Prod.mk.injEq, List.append_eq_nil_iff] at h
      obtain ⟨rfl, rfl, rfl, rfl, rfl⟩ := h
      have hs₁ := hs.before hle' (keep_of_checkAll hcs hscns)
      obtain ⟨τ, rfl, ht⟩ := hasType_of_check hsigs hc hscn ha hk hs₁ (Nat.le_trans hle' hsize)
      have ha₁ := ha.after hle hscn.visible.2 (keep_of_check hc hscn) hs₁
      have hk₁ := hk.after hscn.visible.2 (ht.known hscn)
      obtain ⟨τs, htys, hts⟩ := haveTypes_of_checkAll hsigs hcs hscns ha₁ hk₁ (hs.right hle)
        (by rwa [size_of_check hc])
      exact ⟨τ :: τs, by rw [List.map_cons, List.map_cons, htys], .cons ht hts⟩

end

end Typing

end CalcLang
