import CalcLang.Proofs.Stages

/-!
# Accepted programs do not go wrong

A node that is scoped and typed is evaluated without getting stuck (`eval_isSafe`): the variables
that it reads or assigns have been introduced, operators get operands of their types, and calls find
a declaration with parameters of the types of the arguments. What remains is an overflow, a zero
divisor, or the bound on nested calls; and a value that is returned has the type of the node.

The frame of a call is typed by the same environment as the body. Every variable has one type
throughout, so a variable that is introduced once more, by a node that is evaluated in another frame
or again, keeps its type.
-/

namespace CalcLang

open Typing

namespace Evaluation

/-! ## Operators -/

/-- The operation traps or gives a value of the type. -/
def Gives (r : Except Halt Value) (τ : Ty) : Prop :=
  r = .error .trap ∨ ∃ v, r = .ok v ∧ v.ty = τ

theorem gives_word (n : Int) : Gives (word n) .int := by
  unfold word
  cases Word.ofInt? n with
  | none => exact .inl rfl
  | some w => exact .inr ⟨_, rfl, rfl⟩

/-- A zero divisor traps. -/
theorem Gives.unlessZero {r : Except Halt Value} {τ : Ty} (h : Gives r τ) (b : Int) :
    Gives (if b = 0 then .error .trap else r) τ := by
  split
  · exact .inl rfl
  · exact h

/-- An overflow of a number on the way traps. -/
theorem Gives.afterWord {r : Except Halt Value} {τ : Ty} (h : Gives r τ) (n : Int) :
    Gives ((word n).bind fun _ => r) τ := by
  rcases gives_word n with hn | ⟨v, hn, -⟩
  · exact .inl (by rw [hn]; rfl)
  · rw [hn]
    exact h

/-- On operands of the types that it accepts a binary operator traps or gives a value of its
type. -/
theorem gives_binary {op : BinaryOp} {a b : Value} {τ : Ty} (h : Operation op a.ty b.ty τ) :
    Gives (binary op a b) τ := by
  obtain rfl := h.result_eq
  have hty := h.operands_eq
  have hop := h.operand_eq
  cases a with
  | int a =>
    cases b with
    | bool b => cases hty
    | int b =>
      cases op with
      | add | sub | mul => exact gives_word _
      | div => exact (gives_word _).unlessZero _
      | rem => exact ((gives_word _).afterWord _).unlessZero _
      | eq | ne | lt | le | gt | ge => exact .inr ⟨_, rfl, rfl⟩
      | and | or => cases hop
  | bool a =>
    cases b with
    | int b => cases hty
    | bool b =>
      cases op with
      | eq | ne | and | or => exact .inr ⟨_, rfl, rfl⟩
      | _ => cases hop

theorem gives_unary {op : UnaryOp} {a : Value} (h : Negation op a.ty) :
    Gives (unary op a) a.ty := by
  cases a with
  | int a =>
    cases op with
    | neg => exact gives_word _
    | not => cases h
  | bool a =>
    cases op with
    | neg => cases h
    | not => exact .inr ⟨_, rfl, rfl⟩

/-! ## Frames -/

/-- The visible variables have been introduced, with values of their types. -/
def Frame.Holds (f : Frame) (Γ : SymbolId → Option Ty) (V : List SymbolId) : Prop :=
  ∀ x ∈ V, ∃ v, f x = some v ∧ Γ x = some v.ty

section Frames

variable {Γ : SymbolId → Option Ty} {V V' : List SymbolId} {f : Frame} {x : SymbolId} {v : Value}

theorem Frame.Holds.subset (h : f.Holds Γ V') (hV : V ⊆ V') : f.Holds Γ V :=
  fun x hx => h x (hV hx)

/-- A variable gets a value of its type. -/
theorem Frame.Holds.set (h : f.Holds Γ V) (hty : Γ x = some v.ty) : (f.set x v).Holds Γ V := by
  intro y hy
  by_cases hyx : y = x
  · subst hyx
    exact ⟨v, if_pos rfl, hty⟩
  · obtain ⟨w, hw, hwty⟩ := h y hy
    exact ⟨w, (if_neg hyx).trans hw, hwty⟩

theorem Frame.Holds.introduce (h : f.Holds Γ V) (hty : Γ x = some v.ty) :
    (f.set x v).Holds Γ (x :: V) := by
  intro y hy
  rcases List.mem_cons.1 hy with rfl | hy
  · exact ⟨v, if_pos rfl, hty⟩
  · exact h.set hty y hy

/-- A call starts with its parameters. -/
theorem holds_ofArgs {params : List SymbolId} {args : List Value}
    (h : params.map Γ = (args.map Value.ty).map some) :
    (Frame.ofArgs params args).Holds Γ params := by
  induction params generalizing args with
  | nil => exact nofun
  | cons x xs ih =>
    cases args with
    | nil => cases h
    | cons v vs =>
      simp only [List.map_cons, List.cons.injEq] at h
      intro y hy
      by_cases hyx : y = x
      · subst hyx
        exact ⟨v, by simp [Frame.ofArgs], h.1⟩
      · obtain ⟨w, hw, hwty⟩ := ih h.2 y ((List.mem_cons.1 hy).resolve_left hyx)
        refine ⟨w, ?_, hwty⟩
        rw [Frame.ofArgs, List.zip_cons_cons, List.lookup_cons, beq_eq_false_iff_ne.2 hyx]
        exact hw

end Frames

/-! ## Nodes -/

/-- The callee of a call is declared with parameters of the types of the arguments, and a variable
gets a value of its type. -/
def Event.Fits (sigs : Signatures) (Γ : SymbolId → Option Ty) : Event → Prop
  | .call callee args =>
    ∃ sig, sigs[callee.index]? = some sig ∧ sig.params = (args.map Value.ty).map some
  | .introduce x v | .assign x v => Γ x = some v.ty
  | .decided _ => True

/-- The evaluation is not stuck, what it shows fits the types, and a result is as given. -/
abbrev IsSafe {α : Type} (sigs : Signatures) (Γ : SymbolId → Option Ty) (r : Eval α)
    (gives : α → Prop) : Prop :=
  r.Meets (Event.Fits sigs Γ) (fun reason => reason ≠ .stuck) gives

section Nodes

variable {sigs : Signatures} {Γ : SymbolId → Option Ty} {S : Symbols} {names : List String}
  {invoke : DeclId → List Value → Eval Value}

theorem isSafe_outcome {r : Except Halt Value} {τ : Ty} (h : Gives r τ) :
    IsSafe sigs Γ (outcome r) fun v => v.ty = τ := by
  rcases h with rfl | ⟨v, rfl, hv⟩
  · exact .fail Halt.noConfusion
  · exact .pure hv

theorem isSafe_truth {v : Value} (h : v.ty = .bool) :
    IsSafe sigs Γ (truth v) fun _ => True := by
  cases v with
  | int w => cases h
  | bool b => exact .pure trivial

theorem fits_shortcut {op : BinaryOp} {a : Value} {right : Node} :
    ∀ e ∈ shortcut op a right, e.Fits sigs Γ := by
  intro e he
  unfold shortcut at he
  split at he
  · obtain rfl := List.mem_singleton.1 he
    trivial
  · cases he

/-- Calls of declared functions on arguments of the parameter types are safe, and give values of the
return type. -/
def SafeCalls (sigs : Signatures) (Γ : SymbolId → Option Ty)
    (invoke : DeclId → List Value → Eval Value) : Prop :=
  ∀ callee args sig, sigs[callee.index]? = some sig →
    sig.params = (args.map Value.ty).map some →
    IsSafe sigs Γ (invoke callee args) fun v => v.ty = sig.ret

mutual

/-- **A scoped node of a type is evaluated to a value of the type**, or it traps or nests too many
calls. -/
theorem eval_isSafe (hcalls : SafeCalls sigs Γ invoke) {V V' : List SymbolId} {k k' : Nat} {τ : Ty}
    {f : Frame} : ∀ {n : Node}, HasType sigs Γ (Records S) n τ → Scoped names V k n V' k' →
      f.Holds Γ V →
      IsSafe sigs Γ (eval invoke n f) fun r => r.1.ty = τ ∧ r.2.Holds Γ V'
  | .const v pos, ht, hsc, hf => by
    cases ht
    cases hsc
    exact .pure ⟨rfl, hf⟩
  | .error pos, ht, _, _ => by cases ht
  | .read name x ty pos, ht, hsc, hf => by
    cases ht with
    | read hty _ =>
      cases hsc with
      | read hx =>
        obtain ⟨v, hv, hvty⟩ := hf x hx
        rw [eval]
        refine Run.Meets.ofOption_bind hv ?_
        exact .pure ⟨Option.some.inj (hvty.symm.trans hty), hf⟩
  | .binary op lhs rhs ty tag pos, ht, hsc, hf => by
    cases ht with
    | binary htl htr hop _ =>
      cases hsc with
      | binary hscl hscr =>
        rw [eval]
        refine (eval_isSafe hcalls htl hscl hf).bind ?_
        rintro ⟨a, f₁⟩ ⟨rfl, hf₁⟩
        refine (eval_isSafe hcalls htr hscr hf₁).bind ?_
        rintro ⟨b, f₂⟩ ⟨rfl, hf₂⟩
        refine (Run.Meets.log fits_shortcut).bind fun _ _ => ?_
        refine (isSafe_outcome (gives_binary hop)).bind fun v hv => ?_
        exact .pure ⟨hv, hf₂⟩
  | .unary op operand ty pos, ht, hsc, hf => by
    cases ht with
    | unary hto hneg _ =>
      cases hsc with
      | unary hsc =>
        rw [eval]
        refine (eval_isSafe hcalls hto hsc hf).bind ?_
        rintro ⟨a, f₁⟩ ⟨rfl, hf₁⟩
        refine (isSafe_outcome (gives_unary hneg)).bind fun v hv => ?_
        exact .pure ⟨hv, hf₁⟩
  | .call name callee args ty pos, ht, hsc, hf => by
    cases ht with
    | @call _ _ _ _ _ sig τs hsig hts hparams _ =>
      cases hsc with
      | call _ hscs =>
        rw [eval]
        refine (evalAll_isSafe hcalls hts hscs hf).bind ?_
        rintro ⟨vs, f₁⟩ ⟨rfl, hf₁⟩
        refine (Run.Meets.log ?_).bind fun _ _ => ?_
        · intro e he
          obtain rfl := List.mem_singleton.1 he
          exact ⟨sig, hsig, hparams⟩
        refine (hcalls callee vs sig hsig hparams).bind fun v hv => ?_
        exact .pure ⟨hv, hf₁⟩
  | .ifThen test written yes ty tag pos, ht, hsc, hf => by
    cases ht with
    | ifThen htt hty _ hrec =>
      cases hsc with
      | ifThen hsct hscy =>
        obtain rfl : ty = some τ := hrec
        rw [eval]
        refine (eval_isSafe hcalls htt hsct hf).bind ?_
        rintro ⟨c, f₁⟩ ⟨hc, hf₁⟩
        refine (isSafe_truth hc).bind fun b _ => ?_
        cases b with
        | true =>
          exact (eval_isSafe hcalls hty hscy hf₁).mono fun r hr =>
            ⟨hr.1, hr.2.subset hscy.visible.1⟩
        | false => exact .pure ⟨ty_zero τ, hf₁⟩
  | .ifThenElse test written yes no ty tag pos, ht, hsc, hf => by
    cases ht with
    | ifThenElse htt hty htn _ _ =>
      cases hsc with
      | ifThenElse hsct hscy hscn =>
        rw [eval]
        refine (eval_isSafe hcalls htt hsct hf).bind ?_
        rintro ⟨c, f₁⟩ ⟨hc, hf₁⟩
        refine (isSafe_truth hc).bind fun b _ => ?_
        cases b with
        | true =>
          exact (eval_isSafe hcalls hty hscy hf₁).mono fun r hr =>
            ⟨hr.1, hr.2.subset hscy.visible.1⟩
        | false =>
          exact (eval_isSafe hcalls htn hscn hf₁).mono fun r hr =>
            ⟨hr.1, hr.2.subset hscn.visible.1⟩
  | .block nodes ty pos, ht, hsc, hf => by
    cases ht with
    | block hts hlast _ =>
      cases hsc with
      | block _ hscs =>
        rw [eval]
        refine (evalAll_isSafe hcalls hts hscs hf).bind ?_
        rintro ⟨vs, f₁⟩ ⟨rfl, hf₁⟩
        rw [List.getLast?_map, Option.map_eq_some_iff] at hlast
        obtain ⟨v, hv, rfl⟩ := hlast
        refine Run.Meets.ofOption_bind hv ?_
        exact .pure ⟨rfl, hf₁.subset hscs.visible.1⟩
  | .assign name x value ty pos, ht, hsc, hf => by
    cases ht with
    | assign htv hty _ =>
      cases hsc with
      | assign hsc hx =>
        rw [eval]
        refine (eval_isSafe hcalls htv hsc hf).bind ?_
        rintro ⟨v, f₁⟩ ⟨rfl, hf₁⟩
        obtain ⟨w, hw, -⟩ := hf₁ x hx
        refine Run.Meets.ofOption_bind hw ?_
        refine (Run.Meets.log ?_).bind fun _ _ => ?_
        · intro e he
          obtain rfl := List.mem_singleton.1 he
          exact hty
        exact .pure ⟨rfl, hf₁.set hty⟩
  | .declare name x written pos, ht, hsc, hf => by
    cases ht with
    | declare hty _ =>
      have hzero := ty_zero τ
      rw [← hzero] at hty
      cases hsc
      rw [eval]
      refine (Run.Meets.log ?_).bind fun _ _ => ?_
      · intro e he
        obtain rfl := List.mem_singleton.1 he
        exact hty
      exact .pure ⟨hzero, hf.introduce hty⟩
  | .define name x written init pos, ht, hsc, hf => by
    cases ht with
    | define hti _ hty _ =>
      cases hsc with
      | define hsc =>
        rw [eval]
        refine (eval_isSafe hcalls hti hsc hf).bind ?_
        rintro ⟨v, f₁⟩ ⟨rfl, hf₁⟩
        refine (Run.Meets.log ?_).bind fun _ _ => ?_
        · intro e he
          obtain rfl := List.mem_singleton.1 he
          exact hty
        exact .pure ⟨rfl, hf₁.introduce hty⟩

theorem evalAll_isSafe (hcalls : SafeCalls sigs Γ invoke) {V V' : List SymbolId} {k k' : Nat}
    {τs : List Ty} {f : Frame} : ∀ {ns : List Node}, HaveTypes sigs Γ (Records S) ns τs →
      ScopedAll names V k ns V' k' → f.Holds Γ V →
      IsSafe sigs Γ (evalAll invoke ns f) fun r => r.1.map Value.ty = τs ∧ r.2.Holds Γ V'
  | [], hts, hscs, hf => by
    cases hts
    cases hscs
    exact .pure ⟨rfl, hf⟩
  | n :: ns, hts, hscs, hf => by
    cases hts with
    | cons ht hts =>
      cases hscs with
      | cons hsc hscs =>
        rw [evalAll]
        refine (eval_isSafe hcalls ht hsc hf).bind ?_
        rintro ⟨v, f₁⟩ ⟨rfl, hf₁⟩
        refine (evalAll_isSafe hcalls hts hscs hf₁).bind ?_
        rintro ⟨vs, f₂⟩ ⟨rfl, hf₂⟩
        exact .pure ⟨rfl, hf₂⟩

end

end Nodes

end Evaluation

/-! ## Packages -/

namespace Package

open Evaluation

variable {p : Package}

/-- **Calls in an annotated package are safe**, however many of them may be nested. -/
theorem Resolved.safeCalls (h : p.Resolved) (ha : p.Annotated) (depth : Nat) :
    SafeCalls p.signatures p.symbols.ty (p.invoke depth) := by
  induction depth with
  | zero => exact fun _ _ _ _ _ => .fail Halt.noConfusion
  | succ depth ih =>
    intro callee args sig hsig hargs
    rw [getElem?_signatures, Option.map_eq_some_iff] at hsig
    obtain ⟨d, hd, rfl⟩ := hsig
    have hmem := List.mem_of_getElem? hd
    have hlen : args.length = d.params.length := by
      simpa using (congrArg List.length hargs).symm
    obtain ⟨l, V, l', -, hsc⟩ := h.bodies.exists_scoped hmem
    have hf := (holds_ofArgs hargs).subset fun x hx => List.mem_reverse.1 hx
    rw [invoke, hd]
    simp only [if_pos hlen]
    refine (eval_isSafe ih (ha d hmem) hsc hf).bind ?_
    rintro ⟨v, f⟩ ⟨hv, -⟩
    exact .pure hv

/-- **Accepted programs do not go wrong.** In a package of declarations that are built and checked
without a report, a call on arguments of the parameter types ends with a value of the return type,
unless it traps or nests more calls than allowed; it is never stuck. On the way every call finds a
declaration that takes arguments of their types, and every variable gets values of its type. -/
theorem accepted_never_stuck {name : String} {files : List (List Decl)} (h : Accepts name files) :
    let p := ((Package.build name files).1.check (Package.stage_build name files)).1
    ∀ (i : Nat) (d : Declaration) (args : List Value) (depth : Nat), p.decls[i]? = some d →
      d.params.map p.symbols.ty = (args.map Value.ty).map some →
      (∀ e ∈ (p.invoke depth ⟨i⟩ args).events, e.Fits p.signatures p.symbols.ty) ∧
      ((∃ v, (p.invoke depth ⟨i⟩ args).result = .ok v ∧ v.ty = d.ret) ∨
        (p.invoke depth ⟨i⟩ args).result = .error .trap ∨
        (p.invoke depth ⟨i⟩ args).result = .error .tooDeep) := by
  intro p i d args depth hd hargs
  have hres := resolved_of_build h.solid h.build
  have ha : p.Annotated := hres.annotated_check (Package.stage_build name files) h.check
  have hsig : p.signatures[i]? = some ⟨d.name, d.params.map p.symbols.ty, d.ret⟩ := by
    rw [getElem?_signatures, hd, Option.map_some]
  have hsafe := (hres.check (Package.stage_build name files) h.check).safeCalls ha depth ⟨i⟩ args _
    hsig hargs
  refine ⟨hsafe.events, ?_⟩
  cases hr : (p.invoke depth ⟨i⟩ args).result with
  | ok v => exact .inl ⟨v, rfl, hsafe.result v hr⟩
  | error reason =>
    cases reason with
    | trap => exact .inr (.inl rfl)
    | tooDeep => exact .inr (.inr rfl)
    | stuck => exact absurd rfl (hsafe.reason _ hr)

/-- In `doubling` the call of `main` gives an integer, and `twice` overflows on a large one. -/
theorem accepted_never_stuck_doubling : Accepts "doubling" [doubling] ∧
    (∃ v, (doublingPackage.invoke 2 ⟨1⟩ []).result = .ok v ∧ v.ty = .int) ∧
    (doublingPackage.invoke 1 ⟨0⟩ [.int ⟨2000000000, by decide⟩]).result = .error .trap := by
  have hmain := (accepted_never_stuck accepts_doubling 1 _ [] 2 rfl rfl).2
  have htwice := (accepted_never_stuck accepts_doubling 0 _ [.int ⟨2000000000, by decide⟩] 1 rfl
    rfl).2
  refine ⟨accepts_doubling, hmain.resolve_right ?_, ?_⟩
  · rintro (h | h) <;> cases h
  · rcases htwice with ⟨v, h, -⟩ | h | h
    · cases h
    · exact h
    · cases h

end Package

end CalcLang
