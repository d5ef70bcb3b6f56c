import CalcLang.Proofs.C.Statements
import CalcLang.Proofs.C.Traces

/-!
# Lowered nodes

`Yields` says what a lowered node or list of operands does when it is executed from a given store:
its statements run, and where they have led to, the C value that is left has the value of the
node and keeps it as long as the store keeps what the value reads. One lemma for each form of node
derives it from its parts; the copies that `spillFor` makes are what `Yields.before` needs to let a
value wait for the operands behind it.
-/

namespace CalcLang.C

open Evaluation

/-! ## The analyses -/

theorem any_assigns (ns : List Node) : ns.any assigns = anyContains isAssignment ns := by
  induction ns with
  | nil => rfl
  | cons n ns ih => rw [List.any_cons, ih, assigns, contains, anyContains]

theorem any_calls (ns : List Node) : ns.any calls = anyContains isCall ns := by
  induction ns with
  | nil => rfl
  | cons n ns ih => rw [List.any_cons, ih, calls, contains, anyContains]

/-- The analyses of a node: whether its C value reads variables, and whether it contains
assignments and calls. -/
structure Traits where
  reads : Bool
  assigns : Bool
  calls : Bool

/-- What the analyses say of a node. -/
def Traits.of (n : Node) : Traits := ⟨readsVariable n, C.assigns n, C.calls n⟩

/-- What the analyses say of an operand that is followed by others. -/
def Traits.before (n : Node) (later : List Node) : Traits :=
  ⟨readsVariable n && !mustSpill n later, C.assigns n, C.calls n⟩

/-- What the analyses say of operands. -/
def Traits.ofAll (ns : List Node) : Traits :=
  ⟨anyReadsVariable ns, anyContains isAssignment ns, anyContains isCall ns⟩

/-- What the analyses say of the nodes of a block. -/
def Traits.ofBlock (ns : List Node) : Traits :=
  ⟨lastReadsVariable ns, anyContains isAssignment ns, anyContains isCall ns⟩

section

variable {name : String} {x : SymbolId} {ty written : Option Ty} {tag : Option Tag} {pos : Pos}

theorem Traits.of_const (v : Value) : of (.const v pos) = ⟨false, false, false⟩ := rfl

theorem Traits.of_read : of (.read name x ty pos) = ⟨true, false, false⟩ := rfl

theorem Traits.of_binary (op : BinaryOp) (lhs rhs : Node) :
    of (.binary op lhs rhs ty tag pos) =
      ⟨false, C.assigns lhs || C.assigns rhs, C.calls lhs || C.calls rhs⟩ := rfl

theorem Traits.of_unary (op : UnaryOp) (operand : Node) :
    of (.unary op operand ty pos) = of operand := rfl

theorem Traits.of_call (callee : DeclId) (args : List Node) :
    of (.call name callee args ty pos) =
      ⟨anyReadsVariable args, anyContains isAssignment args, true⟩ := rfl

theorem Traits.of_ifThen (test yes : Node) :
    of (.ifThen test written yes ty tag pos) =
      ⟨false, C.assigns test || C.assigns yes, C.calls test || C.calls yes⟩ := rfl

theorem Traits.of_ifThenElse (test yes no : Node) :
    of (.ifThenElse test written yes no ty tag pos) =
      ⟨false, C.assigns test || C.assigns yes || C.assigns no,
        C.calls test || C.calls yes || C.calls no⟩ := rfl

theorem Traits.of_block (nodes : List Node) : of (.block nodes ty pos) = ofBlock nodes := rfl

theorem Traits.of_assign (value : Node) :
    of (.assign name x value ty pos) = ⟨true, true, C.calls value⟩ := rfl

theorem Traits.of_declare (written : Ty) :
    of (.declare name x written pos) = ⟨true, false, false⟩ := rfl

theorem Traits.of_define (init : Node) :
    of (.define name x written init pos) = ⟨true, C.assigns init, C.calls init⟩ := rfl

theorem Traits.ofAll_nil : ofAll [] = ⟨false, false, false⟩ := rfl

theorem Traits.ofAll_cons (n : Node) (ns : List Node) :
    ofAll (n :: ns) = ⟨readsVariable n || anyReadsVariable ns,
      C.assigns n || anyContains isAssignment ns, C.calls n || anyContains isCall ns⟩ := rfl

theorem anyContains_singleton (test : Test) (n : Node) : anyContains test [n] = contains test n :=
  Bool.or_false _

theorem Traits.ofBlock_singleton (n : Node) : ofBlock [n] = of n := by
  rw [ofBlock, anyContains_singleton, anyContains_singleton]
  rfl

theorem Traits.ofBlock_cons (n n' : Node) (ns : List Node) :
    ofBlock (n :: n' :: ns) = ⟨(ofBlock (n' :: ns)).reads,
      C.assigns n || (ofBlock (n' :: ns)).assigns, C.calls n || (ofBlock (n' :: ns)).calls⟩ := rfl

end

/-- An operand that is not copied reads nothing that is assigned behind it. -/
theorem Traits.before_reads {n : Node} {later : List Node} (h : (before n later).reads = true) :
    anyContains isAssignment later = false := by
  simp only [before, mustSpill, ← any_assigns, Bool.and_eq_true, Bool.not_eq_true',
    Bool.or_eq_false_iff] at h ⊢
  simpa [h.1] using h.2.1

/-- An operand that is not copied leaves no call to be made behind others. -/
theorem calls_eq_false_of_not_mustSpill {n : Node} {later : List Node}
    (h : mustSpill n later = false) (hcalls : valueCalls n = true) :
    anyContains isCall later = false := by
  rw [mustSpill, hcalls, Bool.or_eq_false_iff, Bool.true_and] at h
  rw [← any_calls, List.any_eq_false]
  intro m hm hcall
  exact List.any_eq_false.1 h.2 m hm (by rw [hcall, Bool.or_true])

/-! ## Parts that have a value -/

section Yields

variable (names : List String) (call : Call → Ways Word) (S : Symbols)

/-- The statements of the lowered part `r` run from `ρ` to `ρ'` and show the calls `T`. As long as
the store keeps what the analyses `traits` say, the value that is left denotes `w` and still has to
show the calls `T'`. An evaluation of the part shows the events `E` and ends in the frame `f'`. -/
structure Yields {α β : Type} (denotes : Store → α → β → List Call → Prop) (V V' : List SymbolId)
    (lo hi k : Nat) (r : Lowered α) (traits : Traits) (E : List Event) (w : β) (f' : Frame)
    (ρ ρ' : Store) (T T' : List Call) : Prop where
  executes : Executes call S V V' lo hi k r.spills (!traits.assigns) r.stmts f' ρ ρ' T
  value : ∀ ρ'', ρ'.Keeps ρ'' S V' traits.reads → denotes ρ'' r.value w T'
  silent : traits.calls = false → T = [] ∧ T' = []
  follows : Follows names E (T ++ T')

end Yields

section

variable {names : List String} {call : Call → Ways Word} {S : Symbols}
  {V V₁ V₂ : List SymbolId} {lo m hi k : Nat} {E E' : List Event} {f f₁ f₂ : Frame}
  {ρ ρ₁ ρ₂ : Store} {T T' U U' : List Call}

theorem Yields.denotes {α β : Type} {denotes : Store → α → β → List Call → Prop} {r : Lowered α}
    {traits : Traits} {w : β}
    (h : Yields names call S denotes V V₁ lo hi k r traits E w f₁ ρ ρ₁ T T') :
    denotes ρ₁ r.value w T' :=
  h.value ρ₁ (.refl ρ₁ S V₁ _)

/-- A part whose value is left in a temporary. -/
theorem Yields.ofTemp {traits : Traits} {k' : Nat} {ss : List Stmt} {d : List Diagnostic} {t : Temp}
    {ty : CType} {w : Word} (hexec : Executes call S V V₁ lo hi k k' (!traits.assigns) ss f₁ ρ ρ₁ T)
    (ht : ρ₁ t = some (ty, w)) (hreads : traits.reads = true ∨ ¬ t.IsOf S V₁)
    (hsilent : traits.calls = false → T = []) (hfollows : Follows names E T) :
    Yields names call S (Denotes call) V V₁ lo hi k ⟨.temp t, ss, k', d⟩ traits E w f₁ ρ ρ₁ T []
    where
  executes := hexec
  value := fun _ hkeeps => .temp (hkeeps t _ ht hreads)
  silent := fun hc => ⟨hsilent hc, rfl⟩
  follows := by rwa [List.append_nil]

theorem denotes_ofValue (v : Value) : Denotes call ρ (.ofValue v) (encode v) [] := by
  cases v with
  | int w => exact .int
  | bool b => exact .bool

theorem denotes_zero (τ : Ty) : Denotes call ρ (.zero (some τ)) (encode (zero τ)) [] := by
  cases τ with
  | int => exact .int
  | bool => exact .bool

/-! ## Operands -/

/-- The value of an operand waits for a part that is executed behind it. -/
theorem Yields.before {β γ : Type} {denotes : Store → β → γ → List Call → Prop}
    {r : Lowered Expr} {r' : Lowered β} {traits traits' : Traits} {w : Word} {w' : γ}
    (hρ : ρ.Holds S V lo k f)
    (h : Yields names call S (Denotes call) V V₁ lo m k r traits E w f₁ ρ ρ₁ T T')
    (h' : Yields names call S denotes V₁ V₂ m hi r.spills r' traits' E' w' f₂ ρ₁ ρ₂ U U')
    (hreads : traits.reads = true → traits'.assigns = false)
    (hcalls : T' = [] ∨ traits'.calls = false) :
    Executes call S V V₂ lo hi k r'.spills (!(traits.assigns || traits'.assigns))
        (r.stmts ++ r'.stmts) f₂ ρ ρ₂ (T ++ U) ∧
      (∀ ρ'', ρ₂.Keeps ρ'' S V₂ traits.reads → Denotes call ρ'' r.value w T') ∧
      (T' = [] ∨ U' = []) ∧ Follows names (E ++ E') (T ++ U ++ (T' ++ U')) := by
  have happend := h.executes.append hρ h'.executes
  refine ⟨?_, fun ρ'' hkeeps => h.value ρ'' ?_, hcalls.imp_right fun h => (h'.silent h).2, ?_⟩
  · rwa [Bool.not_or]
  · refine (Store.Keeps.trans h.executes.holds h'.executes.visible.2 h'.executes.keeps hkeeps).mono
      fun hr => ?_
    rw [hr, hreads hr]
    rfl
  · have hfollows := h.follows.append h'.follows
    rcases hcalls with rfl | hcalls
    · simpa using hfollows
    · obtain ⟨rfl, rfl⟩ := h'.silent hcalls
      simpa using hfollows

/-- An operand is copied if it has to be. -/
theorem Yields.spillFor {n : Node} {v : Value}
    (h : Yields names call S (Denotes call) V V₁ lo hi k (lower S n k) (.of n) E (encode v) f₁ ρ ρ₁
      T T') (hpending : T' = [] ↔ valueCalls n = false) (hty : n.ty S = some v.ty)
    (later : List Node) :
    ∃ ρ₂ U U', Yields names call S (Denotes call) V V₁ lo hi k
        (spillFor S n later (lower S n k)) (.before n later) E (encode v) f₁ ρ ρ₂ U U' ∧
      (U' = [] ∨ anyContains isCall later = false) := by
  rw [C.spillFor, hty]
  by_cases hs : mustSpill n later = true
  · rw [if_pos hs]
    have hexec := h.executes.declare (.ofTy (some v.ty)) (.expr (lower S n k).value)
      (Nat.le_refl _) (Nat.le_succ _) h.executes.holds.spill_eq_none
      ⟨Nat.lt_succ_of_le h.executes.le_spills, Nat.le_refl _⟩ h.denotes.always_evaluate
    rw [convert_encode] at hexec
    refine ⟨ρ₁.set (.spill ((lower S n k).spills + 1)) (.ofTy (some v.ty), encode v), T ++ T', [],
      ?_, .inl rfl⟩
    refine .ofTemp hexec Store.set_self (.inr ?_) (fun hc => ?_) h.follows
    · rintro ⟨x, -, tag, -, heq⟩
      cases heq
    · obtain ⟨rfl, rfl⟩ := h.silent hc
      rfl
  · rw [if_neg hs]
    have hs := Bool.eq_false_iff.2 hs
    have htraits : Traits.before n later = .of n := by
      rw [Traits.before, hs, Bool.not_false, Bool.and_true, Traits.of]
    refine ⟨ρ₁, T, T', htraits ▸ h, ?_⟩
    rw [hpending]
    cases hcalls : valueCalls n with
    | false => exact .inl rfl
    | true => exact .inr (calls_eq_false_of_not_mustSpill hs hcalls)

theorem Yields.nil (hρ : ρ.Holds S V lo k f) :
    Yields names call S (DenoteAll call) V V lo lo k (lowerOperands S [] k) (.ofAll []) [] [] f ρ ρ
      [] [] := by
  rw [Traits.ofAll_nil]
  exact ⟨.nil hρ, fun _ _ => .nil, fun _ => ⟨rfl, rfl⟩, .nil⟩

theorem Yields.cons {n : Node} {ns : List Node} {w : Word} {ws : List Word}
    (hρ : ρ.Holds S V lo k f)
    (h : Yields names call S (Denotes call) V V₁ lo m k (C.spillFor S n ns (lower S n k))
      (.before n ns) E w f₁ ρ ρ₁ T T')
    (hcalls : T' = [] ∨ anyContains isCall ns = false)
    (h' : Yields names call S (DenoteAll call) V₁ V₂ m hi
      (C.spillFor S n ns (lower S n k)).spills
      (lowerOperands S ns (C.spillFor S n ns (lower S n k)).spills) (.ofAll ns) E' ws f₂ ρ₁ ρ₂ U
      U') :
    Yields names call S (DenoteAll call) V V₂ lo hi k (lowerOperands S (n :: ns) k)
      (.ofAll (n :: ns)) (E ++ E') (w :: ws) f₂ ρ ρ₂ (T ++ U) (T' ++ U') := by
  obtain ⟨hexec, hvalue, hsep, hfollows⟩ := h.before hρ h' Traits.before_reads hcalls
  rw [Traits.ofAll_cons]
  refine ⟨hexec, fun ρ'' hkeeps => ?_, fun hc => ?_, hfollows⟩
  · refine .cons (hvalue ρ'' (hkeeps.mono fun hr => ?_))
      (h'.value ρ'' (hkeeps.mono fun hr => ?_)) hsep
    · exact Bool.or_eq_true_iff.2 (.inl (Bool.and_eq_true_iff.1 hr).1)
    · exact Bool.or_eq_true_iff.2 (.inr hr)
  · obtain ⟨hn, hns⟩ := Bool.or_eq_false_iff.1 hc
    obtain ⟨rfl, rfl⟩ := h.silent hn
    obtain ⟨rfl, rfl⟩ := h'.silent hns
    exact ⟨rfl, rfl⟩

/-! ## Operations -/

/-- The operation on two operands that have been lowered gives its value. The calls `W` are made,
which are those of the operands up to those that C skips. -/
theorem exists_always_operation {op : BinaryOp} {a b v : Value} {lhs rhs : Expr} {right : Node}
    (hv : Evaluation.binary op a b = .ok v) (hl : Denotes call ρ lhs (encode a) T')
    (hr : Denotes call ρ rhs (encode b) U') (hsep : T' = [] ∨ U' = [])
    (hpending : U' = [] ↔ valueCalls right = false) (hfollows : Follows names E (T ++ (T' ++ U'))) :
    ∃ W, Always (evaluateInit call ρ (.binary op lhs rhs)) W (encode v) ∧
      Follows names (E ++ shortcut op a right) (T ++ W) ∧ (T' = [] → U' = [] → W = []) := by
  by_cases hd : decides op a = true
  · refine ⟨T', always_evaluateInit_decided (sequenced_of_decides hd) hl
      (shortcut?_of_decides hv hd), ?_, fun h _ => h⟩
    rw [shortcut, if_pos hd]
    rw [← List.append_assoc] at hfollows
    exact hfollows.decided hpending
  · refine ⟨T' ++ U', ?_, ?_, fun h h' => by rw [h, h', List.append_nil]⟩
    · cases hop : sequenced op with
      | true =>
        exact always_evaluateInit_undecided hop hl
          (shortcut?_of_not_decides hv (Bool.eq_false_iff.2 hd)) hr (binary_encode hv)
      | false =>
        refine always_evaluateInit_binary hop ?_ (binary_encode hv)
        have := DenoteAll.cons hl (.cons hr .nil (.inr rfl))
          (hsep.imp_right fun h => by rw [h]; rfl)
        rwa [List.append_nil] at this
    · rw [shortcut, if_neg hd, List.append_nil]
      exact hfollows

theorem Yields.binary {op : BinaryOp} {lhs rhs : Node} {a b v : Value} {pos : Pos}
    (hρ : ρ.Holds S V lo k f)
    (h : Yields names call S (Denotes call) V V₁ (lo + 1) m k
      (C.spillFor S lhs [rhs] (lower S lhs k)) (.before lhs [rhs]) E (encode a) f₁ ρ ρ₁ T T')
    (hcalls : T' = [] ∨ anyContains isCall [rhs] = false)
    (h' : Yields names call S (Denotes call) V₁ V₂ m hi
      (C.spillFor S lhs [rhs] (lower S lhs k)).spills
      (lower S rhs (C.spillFor S lhs [rhs] (lower S lhs k)).spills) (.of rhs) E' (encode b) f₂ ρ₁
      ρ₂ U U')
    (hpending : U' = [] ↔ valueCalls rhs = false) (hv : Evaluation.binary op a b = .ok v) :
    ∃ ρ₃ W, Yields names call S (Denotes call) V V₂ lo hi k
      (lower S (.binary op lhs rhs (some v.ty) (some ⟨lo⟩) pos) k)
      (.of (.binary op lhs rhs (some v.ty) (some ⟨lo⟩) pos)) (E ++ E' ++ shortcut op a rhs)
      (encode v) f₂ ρ ρ₃ W [] := by
  obtain ⟨hexec, hvalue, hsep, hfollows⟩ := h.before (hρ.mono (Nat.le_succ lo) (Nat.le_refl k)) h'
    (fun hr => (anyContains_singleton isAssignment rhs).symm.trans (Traits.before_reads hr))
    (hcalls.imp_right (anyContains_singleton isCall rhs).symm.trans)
  obtain ⟨W, hinit, hfollows, hW⟩ := exists_always_operation hv
    (hvalue ρ₂ (.refl ρ₂ S V₂ _)) h'.denotes hsep hpending hfollows
  have hnone := Executes.tagged_eq_none hρ hexec
  have hdeclare := hexec.declare (.ofTy (some v.ty)) _ (Nat.le_succ lo) (Nat.le_refl _) hnone
    ⟨Nat.le_refl _, hexec.le_tags⟩ hinit
  rw [convert_encode] at hdeclare
  rw [Traits.of_binary]
  refine ⟨ρ₂.set (.tagged ⟨lo⟩) (.ofTy (some v.ty), encode v), T ++ U ++ W, ?_⟩
  refine .ofTemp hdeclare Store.set_self (.inr fun hof => ?_) (fun hc => ?_) hfollows
  · have := hexec.holds.isSome hof
    rw [hnone] at this
    cases this
  · obtain ⟨hl, hr⟩ := Bool.or_eq_false_iff.1 hc
    obtain ⟨rfl, rfl⟩ := h.silent hl
    obtain ⟨rfl, rfl⟩ := h'.silent hr
    exact hW rfl rfl

theorem Yields.unary {op : UnaryOp} {operand : Node} {ty : Option Ty} {pos : Pos} {a v : Value}
    (h : Yields names call S (Denotes call) V V₁ lo hi k (lower S operand k) (.of operand) E
      (encode a) f₁ ρ ρ₁ T T') (hv : Evaluation.unary op a = .ok v) :
    Yields names call S (Denotes call) V V₁ lo hi k (lower S (.unary op operand ty pos) k)
      (.of (.unary op operand ty pos)) E (encode v) f₁ ρ ρ₁ T T' := by
  rw [Traits.of_unary]
  exact ⟨h.executes, fun ρ'' hkeeps => .unary (h.value ρ'' hkeeps) (unary_encode hv), h.silent,
    h.follows⟩

theorem Yields.invoke {name : String} {callee : DeclId} {args : List Node} {ty : Option Ty}
    {pos : Pos} {vs : List Value} {w : Word}
    (h : Yields names call S (DenoteAll call) V V₁ lo hi k (lowerOperands S args k) (.ofAll args) E
      (vs.map encode) f₁ ρ ρ₁ T T') (hname : names[callee.index]? = some name)
    (hcall : Always (call ⟨name, vs.map encode⟩) U w) (hfollows : Follows names E' U) :
    Yields names call S (Denotes call) V V₁ lo hi k (lower S (.call name callee args ty pos) k)
      (.of (.call name callee args ty pos)) (E ++ .call callee vs :: E') w f₁ ρ ρ₁ T
      (T' ++ ⟨name, vs.map encode⟩ :: U) := by
  rw [Traits.of_call]
  refine ⟨h.executes, fun ρ'' hkeeps => .call (h.value ρ'' hkeeps) hcall, nofun, ?_⟩
  rw [← List.append_assoc]
  exact h.follows.append (hfollows.call hname vs)

/-! ## Blocks -/

/-- What is pending of a discarded element is still done. -/
theorem Yields.discard {n : Node} {w : Word}
    (h : Yields names call S (Denotes call) V V₁ lo hi k (lower S n k) (.of n) E w f₁ ρ ρ₁ T T')
    (hpending : T' = [] ↔ valueCalls n = false) :
    Executes call S V V₁ lo hi k (lower S n k).spills (!C.assigns n)
      ((lower S n k).stmts ++ C.discard n (lower S n k).value) f₁ ρ ρ₁ (T ++ T') := by
  rw [C.discard]
  cases hcalls : valueCalls n with
  | true => exact h.executes.stay (h.denotes.always_evaluate.then (always_pure ρ₁))
  | false =>
    rw [hpending.2 hcalls, List.append_nil, if_neg Bool.false_ne_true, List.append_nil]
    exact h.executes

theorem Yields.blockCons {n n' : Node} {ns : List Node} {pos : Pos} {w w' : Word}
    (hρ : ρ.Holds S V lo k f)
    (h : Yields names call S (Denotes call) V V₁ lo m k (lower S n k) (.of n) E w f₁ ρ ρ₁ T T')
    (hpending : T' = [] ↔ valueCalls n = false)
    (h' : Yields names call S (Denotes call) V₁ V₂ m hi (lower S n k).spills
      (lowerBlock S pos (n' :: ns) (lower S n k).spills) (.ofBlock (n' :: ns)) E' w' f₂ ρ₁ ρ₂
      U U') :
    Yields names call S (Denotes call) V V₂ lo hi k (lowerBlock S pos (n :: n' :: ns) k)
      (.ofBlock (n :: n' :: ns)) (E ++ E') w' f₂ ρ ρ₂ (T ++ T' ++ U) U' := by
  have hexec := (h.discard hpending).append hρ h'.executes
  rw [← Bool.not_or] at hexec
  rw [Traits.ofBlock_cons]
  refine ⟨hexec, h'.value, fun hc => ?_, ?_⟩
  · obtain ⟨hn, hns⟩ := Bool.or_eq_false_iff.1 hc
    obtain ⟨rfl, rfl⟩ := h.silent hn
    obtain ⟨rfl, rfl⟩ := h'.silent hns
    exact ⟨rfl, rfl⟩
  · rw [List.append_assoc]
    exact h.follows.append h'.follows

theorem Yields.block {nodes : List Node} {ty : Option Ty} {pos : Pos} {w : Word}
    (h : Yields names call S (Denotes call) V V₁ lo hi k (lowerBlock S pos nodes k)
      (.ofBlock nodes) E w f₁ ρ ρ₁ T T') :
    Yields names call S (Denotes call) V V lo hi k (lower S (.block nodes ty pos) k)
      (.of (.block nodes ty pos)) E w f₁ ρ ρ₁ T T' := by
  rw [Traits.of_block]
  exact ⟨h.executes.hide, fun ρ'' hkeeps => h.value ρ'' (hkeeps.subset h.executes.visible.1),
    h.silent, h.follows⟩

/-! ## Variables -/

theorem Yields.assign {name : String} {x : SymbolId} {value : Node} {ty : Option Ty} {pos : Pos}
    {tag : Tag} {v : Value} (hρ : ρ.Holds S V lo k f)
    (h : Yields names call S (Denotes call) V V₁ lo hi k (lower S value k) (.of value) E (encode v)
      f₁ ρ ρ₁ T T') (hx : x ∈ V₁) (htag : S.tag x = some tag) (hty : S.ty x = some v.ty) :
    ∃ ρ₂, Yields names call S (Denotes call) V V₁ lo hi k (lower S (.assign name x value ty pos) k)
      (.of (.assign name x value ty pos)) (E ++ [.assign x v]) (encode v) (f₁.set x v) ρ ρ₂
      (T ++ T') [] := by
  have hexec := h.executes.assign hρ hx htag hty h.denotes
  rw [Traits.of_assign, lower, htag]
  refine ⟨ρ₁.set (.tagged tag) (.ofTy (some v.ty), encode v), ?_⟩
  refine .ofTemp hexec Store.set_self (.inl rfl) (fun hc => ?_) (h.follows.silent rfl rfl)
  obtain ⟨rfl, rfl⟩ := h.silent hc
  rfl

theorem Yields.define {name : String} {x : SymbolId} {written : Option Ty} {init : Node} {pos : Pos}
    {v : Value} (hρ : ρ.Holds S V lo k f)
    (h : Yields names call S (Denotes call) V V₁ (lo + 1) hi k (lower S init k) (.of init) E
      (encode v) f₁ ρ ρ₁ T T') (htag : S.tag x = some ⟨lo⟩) (hty : S.ty x = some v.ty) :
    ∃ ρ₂, Yields names call S (Denotes call) V (x :: V₁) lo hi k
      (lower S (.define name x written init pos) k) (.of (.define name x written init pos))
      (E ++ [.introduce x v]) (encode v) (f₁.set x v) ρ ρ₂ (T ++ T') [] := by
  have hexec := Executes.introduce hρ h.executes (.expr (lower S init k).value) htag hty
    h.denotes.always_evaluate
  rw [Traits.of_define, lower, htag, hty]
  refine ⟨ρ₁.set (.tagged ⟨lo⟩) (.ofTy (some v.ty), encode v), ?_⟩
  refine .ofTemp hexec Store.set_self (.inl rfl) (fun hc => ?_) (h.follows.silent rfl rfl)
  obtain ⟨rfl, rfl⟩ := h.silent hc
  rfl

variable (names call) in
theorem Yields.declare {name : String} {x : SymbolId} {written : Ty} {pos : Pos}
    (hρ : ρ.Holds S V lo k f) (htag : S.tag x = some ⟨lo⟩) (hty : S.ty x = some written) :
    ∃ ρ₂, Yields names call S (Denotes call) V (x :: V) lo (lo + 1) k
      (lower S (.declare name x written pos) k) (.of (.declare name x written pos))
      [.introduce x (zero written)] (encode (zero written)) (f.set x (zero written)) ρ ρ₂
      [] [] := by
  have hnil : Executes call S V V (lo + 1) (lo + 1) k k true [] f ρ ρ [] :=
    .nil (hρ.mono (Nat.le_succ lo) (Nat.le_refl k))
  have hexec := Executes.introduce hρ hnil (v := zero written) (.expr (.zero (some written))) htag
    (by rw [ty_zero, hty]) (denotes_zero written).always_evaluate
  rw [ty_zero] at hexec
  rw [Traits.of_declare, lower, htag, hty]
  refine ⟨ρ.set (.tagged ⟨lo⟩) (.ofTy (some written), encode (zero written)), ?_⟩
  exact .ofTemp hexec Store.set_self (.inl rfl) (fun _ => rfl) (Follows.nil.silent rfl rfl)

/-! ## Branches -/

theorem Store.Holds.openIf (h : ρ.Holds S V lo k f) (τ : Ty) :
    (ρ.set (.tagged ⟨lo⟩) (.ofTy (some τ), encode (zero τ))).Holds S V (lo + 1) k f :=
  h.declare (h.tagged_eq_none (Nat.le_refl lo)) (Nat.le_succ lo) (Nat.le_refl k)
    ⟨Nat.zero_le _, Nat.lt_succ_self lo⟩

/-- The temporary of an `if` starts as zero and is not touched by the test. -/
theorem Executes.open {ss : List Stmt} {k₁ : Nat} {all : Bool} {τ : Ty} (hρ : ρ.Holds S V lo k f)
    (h : Executes call S V V₁ (lo + 1) m k k₁ all ss f₁
      (ρ.set (.tagged ⟨lo⟩) (.ofTy (some τ), encode (zero τ))) ρ₁ T) :
    Executes call S V V₁ lo m k k₁ all
        (.declare (.ofTy (some τ)) (.tagged ⟨lo⟩) (.expr (.zero (some τ))) :: ss) f₁ ρ ρ₁ T ∧
      ρ₁ (.tagged ⟨lo⟩) = some (.ofTy (some τ), encode (zero τ)) ∧
      ¬ (Temp.tagged ⟨lo⟩).IsOf S V₁ := by
  have hnone : ρ (.tagged ⟨lo⟩) = none := hρ.tagged_eq_none (Nat.le_refl lo)
  have hnot : ¬ (Temp.tagged ⟨lo⟩).IsOf S V := by
    intro hof
    have := hρ.isSome hof
    rw [hnone] at this
    cases this
  have hnil : Executes call S V V (lo + 1) (lo + 1) k k true [] f ρ ρ [] :=
    .nil (hρ.mono (Nat.le_succ lo) (Nat.le_refl k))
  have hzero := hnil.declare (.ofTy (some τ)) (.expr (.zero (some τ))) (Nat.le_succ lo)
    (Nat.le_refl k) hnone ⟨Nat.le_refl _, Nat.lt_succ_self lo⟩ (denotes_zero τ).always_evaluate
  have hconvert := convert_encode (zero τ)
  rw [ty_zero] at hconvert
  rw [hconvert] at hzero
  refine ⟨hzero.append hρ h, h.keeps _ _ Store.set_self (.inr hnot), ?_⟩
  rintro ⟨x, hx, tag, htag, heq⟩
  rcases h.visible.2 x hx with hx | ⟨j, hj, hlo, -⟩
  · exact hnot ⟨x, hx, tag, htag, heq⟩
  · cases heq
    cases htag.symm.trans hj
    exact Nat.not_succ_le_self _ hlo

/-- The branch that is taken leaves its value in the temporary of the `if`. -/
theorem Executes.taken {ss : List Stmt} {k₁ : Nat} {all : Bool} {traits : Traits}
    {r : Lowered Expr} {v : Value} {w : Word} {s : Stmt} {W : List Call} (hρ : ρ.Holds S V lo k f)
    (h : Executes call S V V₁ lo m k k₁ all ss f₁ ρ ρ₁ T)
    (htemp : ρ₁ (.tagged ⟨lo⟩) = some (.ofTy (some v.ty), w))
    (hnot : ¬ (Temp.tagged ⟨lo⟩).IsOf S V₁)
    (h' : Yields names call S (Denotes call) V₁ V₂ m hi k₁ r traits E (encode v) f₂ ρ₁ ρ₂ U U')
    (hs : ∀ σ, Always (do
        let inner ← execAll call (r.stmts ++ [.assign (.tagged ⟨lo⟩) r.value]) ρ₁
        pure (inner.leave ρ₁)) (U ++ U') σ → Always (exec call s ρ₁) W σ) :
    ∃ σ, Executes call S V V₁ lo hi k r.spills (all && !traits.assigns) (ss ++ [s]) f₂ ρ σ
      (T ++ W) ∧ σ (.tagged ⟨lo⟩) = some (.ofTy (some v.ty), encode v) := by
  have htemp' := h'.executes.keeps _ _ htemp (.inr hnot)
  have hbranch := always_branch h'.executes.always h'.denotes htemp'
  rw [convert_encode] at hbranch
  refine ⟨_, h.branch hρ h'.executes (hρ.tagged_eq_none (Nat.le_refl lo)) hnot (hs _ hbranch), ?_⟩
  rw [Store.leave_eq (by rw [htemp, Option.isSome_some]), Store.set_self]

section

variable {test yes no : Node} {written : Option Ty} {pos : Pos} {τ : Ty} {v : Value}

theorem Yields.ifThen_false (hρ : ρ.Holds S V lo k f)
    (h : Yields names call S (Denotes call) V V₁ (lo + 1) m k (lower S test k) (.of test) E
      (ofBool false) f₁ (ρ.set (.tagged ⟨lo⟩) (.ofTy (some τ), encode (zero τ))) ρ₁ T T')
    (hm : m ≤ hi) (hk : (lower S test k).spills ≤ (lower S yes (lower S test k).spills).spills) :
    Yields names call S (Denotes call) V V₁ lo hi k
      (lower S (.ifThen test written yes (some τ) (some ⟨lo⟩) pos) k)
      (.of (.ifThen test written yes (some τ) (some ⟨lo⟩) pos)) E (encode (zero τ)) f₁ ρ ρ₁
      (T ++ T') [] := by
  obtain ⟨hopen, htemp, hnot⟩ := h.executes.open hρ
  have hs : Always (exec call (.ifThen (lower S test k).value
      ((lower S yes (lower S test k).spills).stmts ++
        [.assign (.tagged ⟨lo⟩) (lower S yes (lower S test k).spills).value])) ρ₁) T' ρ₁ := by
    rw [exec]
    simpa using always_test h.denotes (always_pure ρ₁)
  rw [Traits.of_ifThen]
  refine .ofTemp ((hopen.stay hs).mono hm hk fun hnone => ?_) htemp (.inr hnot) (fun hc => ?_)
    h.follows
  · rw [Bool.not_or] at hnone
    exact (Bool.and_eq_true_iff.1 hnone).1
  · obtain ⟨rfl, rfl⟩ := h.silent (Bool.or_eq_false_iff.1 hc).1
    rfl

theorem Yields.ifThen_true (hρ : ρ.Holds S V lo k f)
    (h : Yields names call S (Denotes call) V V₁ (lo + 1) m k (lower S test k) (.of test) E
      (ofBool true) f₁ (ρ.set (.tagged ⟨lo⟩) (.ofTy (some v.ty), encode (zero v.ty))) ρ₁ T T')
    (h' : Yields names call S (Denotes call) V₁ V₂ m hi (lower S test k).spills
      (lower S yes (lower S test k).spills) (.of yes) E' (encode v) f₂ ρ₁ ρ₂ U U') :
    ∃ ρ₃ W, Yields names call S (Denotes call) V V₁ lo hi k
      (lower S (.ifThen test written yes (some v.ty) (some ⟨lo⟩) pos) k)
      (.of (.ifThen test written yes (some v.ty) (some ⟨lo⟩) pos)) (E ++ E') (encode v) f₂ ρ ρ₃ W
      [] := by
  obtain ⟨hopen, htemp, hnot⟩ := h.executes.open hρ
  obtain ⟨σ, hexec, hσ⟩ := hopen.taken hρ htemp hnot h'
    (s := .ifThen (lower S test k).value ((lower S yes (lower S test k).spills).stmts ++
      [.assign (.tagged ⟨lo⟩) (lower S yes (lower S test k).spills).value]))
    (fun σ hbranch => by
      rw [exec]
      exact always_test h.denotes (by rwa [if_pos rfl]))
  rw [← Bool.not_or] at hexec
  rw [Traits.of_ifThen]
  refine ⟨σ, T ++ (T' ++ (U ++ U')), .ofTemp hexec hσ (.inr hnot) (fun hc => ?_) ?_⟩
  · obtain ⟨ht, hy⟩ := Bool.or_eq_false_iff.1 hc
    obtain ⟨rfl, rfl⟩ := h.silent ht
    obtain ⟨rfl, rfl⟩ := h'.silent hy
    rfl
  · rw [← List.append_assoc]
    exact h.follows.append h'.follows

theorem Yields.ifThenElse_true {y : Nat} (hρ : ρ.Holds S V lo k f)
    (h : Yields names call S (Denotes call) V V₁ (lo + 1) m k (lower S test k) (.of test) E
      (ofBool true) f₁ (ρ.set (.tagged ⟨lo⟩) (.ofTy (some v.ty), encode (zero v.ty))) ρ₁ T T')
    (h' : Yields names call S (Denotes call) V₁ V₂ m y (lower S test k).spills
      (lower S yes (lower S test k).spills) (.of yes) E' (encode v) f₂ ρ₁ ρ₂ U U')
    (hy : y ≤ hi)
    (hk : (lower S yes (lower S test k).spills).spills ≤
      (lower S no (lower S yes (lower S test k).spills).spills).spills) :
    ∃ ρ₃ W, Yields names call S (Denotes call) V V₁ lo hi k
      (lower S (.ifThenElse test written yes no (some v.ty) (some ⟨lo⟩) pos) k)
      (.of (.ifThenElse test written yes no (some v.ty) (some ⟨lo⟩) pos)) (E ++ E') (encode v) f₂
      ρ ρ₃ W [] := by
  obtain ⟨hopen, htemp, hnot⟩ := h.executes.open hρ
  obtain ⟨σ, hexec, hσ⟩ := hopen.taken hρ htemp hnot h'
    (s := .ifThenElse (lower S test k).value ((lower S yes (lower S test k).spills).stmts ++
        [.assign (.tagged ⟨lo⟩) (lower S yes (lower S test k).spills).value])
      ((lower S no (lower S yes (lower S test k).spills).spills).stmts ++
        [.assign (.tagged ⟨lo⟩) (lower S no (lower S yes (lower S test k).spills).spills).value]))
    (fun σ hbranch => by
      rw [exec]
      exact always_test h.denotes (by rwa [if_pos rfl]))
  rw [Traits.of_ifThenElse]
  refine ⟨σ, T ++ (T' ++ (U ++ U')), ?_⟩
  refine .ofTemp (hexec.mono hy hk fun hnone => ?_) hσ (.inr hnot) (fun hc => ?_) ?_
  · rw [Bool.not_or, Bool.not_or] at hnone
    exact (Bool.and_eq_true_iff.1 hnone).1
  · obtain ⟨ht, hy⟩ := Bool.or_eq_false_iff.1 (Bool.or_eq_false_iff.1 hc).1
    obtain ⟨rfl, rfl⟩ := h.silent ht
    obtain ⟨rfl, rfl⟩ := h'.silent hy
    rfl
  · rw [← List.append_assoc]
    exact h.follows.append h'.follows

theorem Yields.ifThenElse_false {y : Nat} (hρ : ρ.Holds S V lo k f)
    (h : Yields names call S (Denotes call) V V₁ (lo + 1) m k (lower S test k) (.of test) E
      (ofBool false) f₁ (ρ.set (.tagged ⟨lo⟩) (.ofTy (some v.ty), encode (zero v.ty))) ρ₁ T T')
    (hm : m ≤ y) (hk : (lower S test k).spills ≤ (lower S yes (lower S test k).spills).spills)
    (h' : Yields names call S (Denotes call) V₁ V₂ y hi
      (lower S yes (lower S test k).spills).spills
      (lower S no (lower S yes (lower S test k).spills).spills) (.of no) E' (encode v) f₂ ρ₁ ρ₂ U
      U') :
    ∃ ρ₃ W, Yields names call S (Denotes call) V V₁ lo hi k
      (lower S (.ifThenElse test written yes no (some v.ty) (some ⟨lo⟩) pos) k)
      (.of (.ifThenElse test written yes no (some v.ty) (some ⟨lo⟩) pos)) (E ++ E') (encode v) f₂
      ρ ρ₃ W [] := by
  obtain ⟨hopen, htemp, hnot⟩ := h.executes.open hρ
  obtain ⟨σ, hexec, hσ⟩ := (hopen.mono hm hk id).taken hρ htemp hnot h'
    (s := .ifThenElse (lower S test k).value ((lower S yes (lower S test k).spills).stmts ++
        [.assign (.tagged ⟨lo⟩) (lower S yes (lower S test k).spills).value])
      ((lower S no (lower S yes (lower S test k).spills).spills).stmts ++
        [.assign (.tagged ⟨lo⟩) (lower S no (lower S yes (lower S test k).spills).spills).value]))
    (fun σ hbranch => by
      rw [exec]
      exact always_test h.denotes (by rwa [if_neg Bool.false_ne_true]))
  rw [Traits.of_ifThenElse]
  refine ⟨σ, T ++ (T' ++ (U ++ U')), ?_⟩
  refine .ofTemp (hexec.mono (Nat.le_refl _) (Nat.le_refl _) fun hnone => ?_) hσ (.inr hnot)
    (fun hc => ?_) ?_
  · rw [Bool.not_or, Bool.not_or] at hnone
    obtain ⟨hty, hn⟩ := Bool.and_eq_true_iff.1 hnone
    exact Bool.and_eq_true_iff.2 ⟨(Bool.and_eq_true_iff.1 hty).1, hn⟩
  · obtain ⟨hty, hn⟩ := Bool.or_eq_false_iff.1 hc
    obtain ⟨rfl, rfl⟩ := h.silent (Bool.or_eq_false_iff.1 hty).1
    obtain ⟨rfl, rfl⟩ := h'.silent hn
    rfl
  · rw [← List.append_assoc]
    exact h.follows.append h'.follows

end

end

end CalcLang.C
