import CalcLang.Compilation
import CalcLang.Proofs.CheckedPackage
import CalcLang.Proofs.Folding
import CalcLang.Proofs.Tagging

/-!
# What the stages of a package keep

Scoping comes from building and typing from checking; folding and tagging keep both. So the tagged
package of a compilation without reports is ready for generation (`Package.Accepts.ready`): its
bodies are scoped, annotated with their types and tagged.
-/

namespace CalcLang

/-! ## Scoping -/

theorem checkAll_ne_nil (sigs : Typing.Signatures) {ns : List Node} (h : ns ≠ []) (s : Symbols) :
    (Typing.checkAll sigs ns s).1 ≠ [] := by
  cases ns with
  | nil => exact absurd rfl h
  | cons n ns => exact List.cons_ne_nil _ _

theorem foldAll_ne_nil {ns : List Node} (h : ns ≠ []) : Folding.foldAll ns ≠ [] := by
  cases ns with
  | nil => exact absurd rfl h
  | cons n ns => exact List.cons_ne_nil _ _

theorem tagAll_ne_nil {ns : List Node} (h : ns ≠ []) (lo : Nat) (s : Symbols) :
    (Tagging.tagAll ns lo s).1 ≠ [] := by
  cases ns with
  | nil => exact absurd rfl h
  | cons n ns => exact List.cons_ne_nil _ _

section Scoped

variable {names : List String}

mutual

theorem Scoped.check (sigs : Typing.Signatures) {V V' : List SymbolId} {k k' : Nat} :
    ∀ {n : Node} (s : Symbols), Scoped names V k n V' k' →
      Scoped names V k (Typing.check sigs n s).1 V' k'
  | .const .., _, h => h
  | .error .., _, h => by cases h
  | .read .., _, h => by cases h with | read hx => exact .read hx
  | .binary .., s, h => by
    cases h with
    | binary hl hr => exact .binary (hl.check sigs s) (hr.check sigs _)
  | .unary .., s, h => by cases h with | unary h => exact .unary (h.check sigs s)
  | .call _ callee .., s, h => by
    cases h with
    | call hname h =>
      rw [Typing.check]
      cases sigs[callee.index]? <;> exact .call hname (h.check sigs s)
  | .ifThen .., s, h => by
    cases h with
    | ifThen ht hy => exact .ifThen (ht.check sigs s) (hy.check sigs _)
  | .ifThenElse .., s, h => by
    cases h with
    | ifThenElse ht hy hn =>
      exact .ifThenElse (ht.check sigs s) (hy.check sigs _) (hn.check sigs _)
  | .block .., s, h => by
    cases h with
    | block hne h => exact .block (checkAll_ne_nil sigs hne s) (h.check sigs s)
  | .assign .., s, h => by cases h with | assign h hx => exact .assign (h.check sigs s) hx
  | .declare .., _, h => h
  | .define .., s, h => by cases h with | define h => exact .define (h.check sigs s)

theorem ScopedAll.check (sigs : Typing.Signatures) {V V' : List SymbolId} {k k' : Nat} :
    ∀ {ns : List Node} (s : Symbols), ScopedAll names V k ns V' k' →
      ScopedAll names V k (Typing.checkAll sigs ns s).1 V' k'
  | [], _, h => h
  | _ :: _, s, h => by
    cases h with
    | cons h hs => exact .cons (h.check sigs s) (hs.check sigs _)

end

mutual

/-- Constants introduce nothing, so a node that becomes one is scoped as before. -/
theorem Scoped.fold {V V' : List SymbolId} {k k' : Nat} : ∀ {n : Node},
    Scoped names V k n V' k' → Scoped names V k (Folding.fold n) V' k'
  | .const .., h => h
  | .error .., h => by cases h
  | .read .., h => h
  | .binary op lhs rhs ty tag pos, h => by
    cases h with
    | binary hl hr =>
      have hl' := hl.fold
      have hr' := hr.fold
      obtain h | ⟨a, b, v, p, q, hlc, hrc, -, -, h⟩ :=
        Evaluation.fold_binary_cases op lhs rhs ty tag pos
      · rw [h]
        exact .binary hl' hr'
      · rw [hlc] at hl'
        rw [hrc] at hr'
        cases hl'
        cases hr'
        rw [h]
        exact .const
  | .unary op operand ty pos, h => by
    cases h with
    | unary ho =>
      have ho' := ho.fold
      obtain h | ⟨a, v, p, hoc, -, -, h⟩ := Evaluation.fold_unary_cases op operand ty pos
      · rw [h]
        exact .unary ho'
      · rw [hoc] at ho'
        cases ho'
        rw [h]
        exact .const
  | .call .., h => by cases h with | call hname h => exact .call hname h.fold
  | .ifThen .., h => by cases h with | ifThen ht hy => exact .ifThen ht.fold hy.fold
  | .ifThenElse .., h => by
    cases h with
    | ifThenElse ht hy hn => exact .ifThenElse ht.fold hy.fold hn.fold
  | .block .., h => by
    cases h with
    | block hne h => exact .block (foldAll_ne_nil hne) h.fold
  | .assign .., h => by cases h with | assign h hx => exact .assign h.fold hx
  | .declare .., h => h
  | .define .., h => by cases h with | define h => exact .define h.fold

theorem ScopedAll.fold {V V' : List SymbolId} {k k' : Nat} : ∀ {ns : List Node},
    ScopedAll names V k ns V' k' → ScopedAll names V k (Folding.foldAll ns) V' k'
  | [], h => h
  | _ :: _, h => by cases h with | cons h hs => exact .cons h.fold hs.fold

end

mutual

theorem Scoped.tag {V V' : List SymbolId} {k k' : Nat} : ∀ {n : Node} (lo : Nat) (s : Symbols),
    Scoped names V k n V' k' → Scoped names V k (Tagging.tag n lo s).1 V' k'
  | .const .., _, _, h => h
  | .error .., _, _, h => by cases h
  | .read .., _, _, h => h
  | .binary .., _, s, h => by
    cases h with
    | binary hl hr => exact .binary (hl.tag _ s) (hr.tag _ _)
  | .unary .., lo, s, h => by cases h with | unary h => exact .unary (h.tag lo s)
  | .call .., lo, s, h => by cases h with | call hname h => exact .call hname (h.tag lo s)
  | .ifThen .., _, s, h => by
    cases h with
    | ifThen ht hy => exact .ifThen (ht.tag _ s) (hy.tag _ _)
  | .ifThenElse .., _, s, h => by
    cases h with
    | ifThenElse ht hy hn => exact .ifThenElse (ht.tag _ s) (hy.tag _ _) (hn.tag _ _)
  | .block .., lo, s, h => by
    cases h with
    | block hne h => exact .block (tagAll_ne_nil hne lo s) (h.tag lo s)
  | .assign .., lo, s, h => by cases h with | assign h hx => exact .assign (h.tag lo s) hx
  | .declare .., _, _, h => by cases h; exact .declare
  | .define .., _, _, h => by cases h with | define h => exact .define (h.tag _ _)

theorem ScopedAll.tag {V V' : List SymbolId} {k k' : Nat} : ∀ {ns : List Node} (lo : Nat)
    (s : Symbols), ScopedAll names V k ns V' k' →
      ScopedAll names V k (Tagging.tagAll ns lo s).1 V' k'
  | [], _, _, h => h
  | _ :: _, lo, s, h => by
    cases h with
    | cons h hs => exact .cons (h.tag lo s) (hs.tag _ _)

end

end Scoped

/-! ## Types -/

namespace Typing

section HasType

variable {sigs : Signatures} {Γ : SymbolId → Option Ty} {S : Symbols}

mutual

/-- A folded constant has the type recorded on its operation. -/
theorem HasType.fold {τ : Ty} : ∀ {n : Node}, HasType sigs Γ (Records S) n τ →
    HasType sigs Γ (Records S) (Folding.fold n) τ
  | .const .., h => h
  | .error .., h => by cases h
  | .read .., h => h
  | .binary op lhs rhs ty tag pos, h => by
    cases h with
    | binary hl hr hop hrec =>
      obtain h | ⟨a, b, v, p, q, -, -, -, hty, h⟩ :=
        Evaluation.fold_binary_cases op lhs rhs ty tag pos
      · rw [h]
        exact .binary hl.fold hr.fold hop hrec
      · obtain rfl : v.ty = τ := Option.some.inj (hty.symm.trans hrec)
        rw [h]
        exact .const rfl
  | .unary op operand ty pos, h => by
    cases h with
    | unary ho hneg hrec =>
      obtain h | ⟨a, v, p, -, -, hty, h⟩ := Evaluation.fold_unary_cases op operand ty pos
      · rw [h]
        exact .unary ho.fold hneg hrec
      · obtain rfl : v.ty = τ := Option.some.inj (hty.symm.trans hrec)
        rw [h]
        exact .const rfl
  | .call .., h => by
    cases h with
    | call hsig hargs hparams hrec => exact .call hsig hargs.fold hparams hrec
  | .ifThen .., h => by
    cases h with
    | ifThen ht hy hw hrec => exact .ifThen ht.fold hy.fold hw hrec
  | .ifThenElse .., h => by
    cases h with
    | ifThenElse ht hy hn hw hrec => exact .ifThenElse ht.fold hy.fold hn.fold hw hrec
  | .block .., h => by
    cases h with
    | block hns hlast hrec => exact .block hns.fold hlast hrec
  | .assign .., h => by cases h with | assign hv hx hrec => exact .assign hv.fold hx hrec
  | .declare .., h => h
  | .define .., h => by
    cases h with
    | define hi hw hx hrec => exact .define hi.fold hw hx hrec

theorem HaveTypes.fold {τs : List Ty} : ∀ {ns : List Node},
    HaveTypes sigs Γ (Records S) ns τs → HaveTypes sigs Γ (Records S) (Folding.foldAll ns) τs
  | [], h => h
  | _ :: _, h => by cases h with | cons h hs => exact .cons h.fold hs.fold

end

mutual

theorem HasType.tag {τ : Ty} : ∀ {n : Node} (lo : Nat) (s : Symbols),
    HasType sigs Γ (Records S) n τ → HasType sigs Γ (Records S) (Tagging.tag n lo s).1 τ
  | .const .., _, _, h => h
  | .error .., _, _, h => by cases h
  | .read .., _, _, h => h
  | .binary .., _, s, h => by
    cases h with
    | binary hl hr hop hrec => exact .binary (hl.tag _ s) (hr.tag _ _) hop hrec
  | .unary .., lo, s, h => by
    cases h with
    | unary ho hneg hrec => exact .unary (ho.tag lo s) hneg hrec
  | .call .., lo, s, h => by
    cases h with
    | call hsig hargs hparams hrec => exact .call hsig (hargs.tag lo s) hparams hrec
  | .ifThen .., _, s, h => by
    cases h with
    | ifThen ht hy hw hrec => exact .ifThen (ht.tag _ s) (hy.tag _ _) hw hrec
  | .ifThenElse .., _, s, h => by
    cases h with
    | ifThenElse ht hy hn hw hrec =>
      exact .ifThenElse (ht.tag _ s) (hy.tag _ _) (hn.tag _ _) hw hrec
  | .block .., lo, s, h => by
    cases h with
    | block hns hlast hrec => exact .block (hns.tag lo s) hlast hrec
  | .assign .., lo, s, h => by
    cases h with
    | assign hv hx hrec => exact .assign (hv.tag lo s) hx hrec
  | .declare .., _, _, h => h
  | .define .., _, _, h => by
    cases h with
    | define hi hw hx hrec => exact .define (hi.tag _ _) hw hx hrec

theorem HaveTypes.tag {τs : List Ty} : ∀ {ns : List Node} (lo : Nat) (s : Symbols),
    HaveTypes sigs Γ (Records S) ns τs →
      HaveTypes sigs Γ (Records S) (Tagging.tagAll ns lo s).1 τs
  | [], _, _, h => h
  | _ :: _, lo, s, h => by
    cases h with
    | cons h hs => exact .cons (h.tag lo s) (hs.tag _ _)

end

end HasType

end Typing

/-! ## Declarations -/

/-- A declaration without its body. -/
def Declaration.head (d : Declaration) : Declaration := { d with body := .error .origin }

section Declarations

variable {names : List String} {sigs : Typing.Signatures}

theorem map_head_checkDecls (sigs : Typing.Signatures) (ds : List Declaration) (s : Symbols) :
    (Typing.checkDecls sigs ds s).1.map Declaration.head = ds.map Declaration.head := by
  induction ds generalizing s with
  | nil => rfl
  | cons d ds ih => exact congrArg (d.head :: ·) (ih _)

theorem map_head_tagDecls (ds : List Declaration) (lo : Nat) (s : Symbols) :
    (Tagging.tagDecls ds lo s).1.map Declaration.head = ds.map Declaration.head := by
  induction ds generalizing lo s with
  | nil => rfl
  | cons d ds ih => exact congrArg (d.head :: ·) (ih _ _)

theorem map_head_map_foldDecl (ds : List Declaration) :
    (ds.map Folding.foldDecl).map Declaration.head = ds.map Declaration.head := by
  rw [List.map_map]
  rfl

theorem ScopedDecls.check (sigs : Typing.Signatures) {k k' : Nat} {ds : List Declaration}
    (h : ScopedDecls names k ds k') (s : Symbols) :
    ScopedDecls names k (Typing.checkDecls sigs ds s).1 k' := by
  induction h generalizing s with
  | nil => exact .nil
  | cons hp hsc _ ih => exact .cons hp (hsc.check sigs s) (ih _)

theorem ScopedDecls.fold {k k' : Nat} {ds : List Declaration} (h : ScopedDecls names k ds k') :
    ScopedDecls names k (ds.map Folding.foldDecl) k' := by
  induction h with
  | nil => exact .nil
  | cons hp hsc _ ih => exact .cons hp hsc.fold ih

theorem ScopedDecls.tag {k k' : Nat} {ds : List Declaration} (h : ScopedDecls names k ds k')
    (lo : Nat) (s : Symbols) : ScopedDecls names k (Tagging.tagDecls ds lo s).1 k' := by
  induction h generalizing lo s with
  | nil => exact .nil
  | cons hp hsc _ ih => exact .cons hp (hsc.tag _ _) (ih _ _)

/-! ## Tags of declarations -/

namespace Tagging

theorem size_tagParams (xs : List SymbolId) (lo : Nat) (s : Symbols) :
    (tagParams xs lo s).2.size = s.size := by
  induction xs generalizing lo s with
  | nil => rfl
  | cons x xs ih => exact (ih _ _).trans (Symbols.size_setTag ..)

theorem ty_tagParams {x : SymbolId} (xs : List SymbolId) (lo : Nat) (s : Symbols) :
    (tagParams xs lo s).2.ty x = s.ty x := by
  induction xs generalizing lo s with
  | nil => rfl
  | cons y ys ih => exact (ih _ _).trans (Symbols.ty_setTag ..)

theorem next_tagParams (xs : List SymbolId) (lo : Nat) (s : Symbols) :
    (tagParams xs lo s).1 = lo + xs.length := by
  induction xs generalizing lo s with
  | nil => rfl
  | cons x xs ih =>
    rw [tagParams, ih, List.length_cons]
    omega

theorem get?_tagParams {x : SymbolId} (k count lo : Nat) (s : Symbols)
    (hx : ¬ x.Within k (k + count)) :
    (tagParams (numbered k count) lo s).2.get? x = s.get? x := by
  induction count generalizing k lo s with
  | zero => rfl
  | succ count ih =>
    rw [numbered_succ, tagParams]
    refine (ih _ _ _ fun h => hx ⟨by have := h.1; omega, by have := h.2; omega⟩).trans
      (Symbols.get?_setTag_of_ne _ ?_)
    rintro rfl
    exact hx ⟨Nat.le_refl _, Nat.lt_add_of_pos_right (Nat.succ_pos _)⟩

/-- Parameters have tags one after the other. -/
theorem tag_tagParams {k count : Nat} (lo : Nat) (s : Symbols) (hsize : k + count ≤ s.size)
    {i : Nat} (hi : i < count) :
    (tagParams (numbered k count) lo s).2.tag ⟨k + i⟩ = some ⟨lo + i⟩ := by
  induction count generalizing k lo s i with
  | zero => omega
  | succ count ih =>
    rw [numbered_succ, tagParams]
    cases i with
    | zero =>
      change Symbols.tag _ ⟨k⟩ = some ⟨lo⟩
      rw [Symbols.tag,
        get?_tagParams (k + 1) count _ _ fun h => Nat.not_succ_le_self _ h.1]
      exact Symbols.tag_setTag_self _ (show k < s.size by omega)
    | succ i =>
      have := ih (k := k + 1) (lo + 1) (s.setTag ⟨k⟩ ⟨lo⟩)
        (by rw [Symbols.size_setTag]; omega) (i := i) (by omega)
      rw [show k + (i + 1) = k + 1 + i by omega, show lo + (i + 1) = lo + 1 + i by omega]
      exact this

theorem size_tagDecls (ds : List Declaration) (lo : Nat) (s : Symbols) :
    (tagDecls ds lo s).2.2.size = s.size := by
  induction ds generalizing lo s with
  | nil => rfl
  | cons d ds ih => exact (ih _ _).trans ((size_tag ..).trans (size_tagParams ..))

theorem ty_tagDecls (ds : List Declaration) (lo : Nat) (s : Symbols) :
    (tagDecls ds lo s).2.2.ty = s.ty := by
  funext x
  induction ds generalizing lo s with
  | nil => rfl
  | cons d ds ih => exact (ih _ _).trans ((ty_tag ..).trans (ty_tagParams ..))

theorem get?_tagDecls {k k' : Nat} {ds : List Declaration} (h : ScopedDecls names k ds k')
    (lo : Nat) (s : Symbols) {x : SymbolId} (hx : ¬ x.Within k k') :
    (tagDecls ds lo s).2.2.get? x = s.get? x := by
  induction h generalizing lo s with
  | nil => rfl
  | @cons k d V k₁ ds k₂ hp hsc hds ih =>
    have hle := hsc.le
    have hle' := hds.le
    have hparams := get?_tagParams (x := x) k d.params.length lo s
      fun h => hx ⟨h.1, by have := h.2; omega⟩
    rw [← hp] at hparams
    refine (ih _ _ (not_within_right hx (by omega))).trans ?_
    exact (get?_tag _ _ hsc (not_within_right (not_within_left hx hle') (by omega))).trans hparams

end Tagging

/-- The parameters of the declaration are the symbols from `k` on, with the tags from `lo` on, and
its body is scoped, carries its types, and has the tags behind those of the parameters. -/
structure Declaration.Ready (names : List String) (sigs : Typing.Signatures) (S : Symbols)
    (d : Declaration) (k lo : Nat) : Prop where
  params : d.params = numbered k d.params.length
  paramTags : ∀ i, i < d.params.length → S.tag ⟨k + i⟩ = some ⟨lo + i⟩
  scope : ∃ V k', Scoped names d.params.reverse (k + d.params.length) d.body V k'
  types : Typing.HasType sigs S.ty (Typing.Records S) d.body d.ret
  tags : ∃ hi, HasTags S (lo + d.params.length) d.body hi

/-- The number of tags that a declaration takes. -/
def Declaration.tagCount (d : Declaration) : Nat := d.params.length + d.body.named.length

/-- What the declarations before the one at `i` count together. -/
def countBefore (count : Declaration → Nat) : List Declaration → Nat → Nat
  | d :: ds, i + 1 => count d + countBefore count ds i
  | _, _ => 0

theorem countBefore_zero (count : Declaration → Nat) (ds : List Declaration) :
    countBefore count ds 0 = 0 := by
  cases ds <;> rfl

theorem countBefore_succ {count : Declaration → Nat} {ds : List Declaration} {i : Nat}
    {d : Declaration} (hd : ds[i]? = some d) :
    countBefore count ds (i + 1) = countBefore count ds i + count d := by
  induction ds generalizing i with
  | nil => cases hd
  | cons e ds ih =>
    cases i with
    | zero =>
      cases hd
      rw [countBefore, countBefore_zero, countBefore_zero, Nat.add_comm]
    | succ i => rw [countBefore, ih hd, countBefore, Nat.add_assoc]

open Tagging in
/-- Annotated declarations that have been tagged are ready. The tags of each begin where those of
the declarations before it end. -/
theorem ready_tagDecls {S : Symbols} {k k' : Nat} {ds : List Declaration}
    (h : ScopedDecls names k ds k') (lo : Nat) (s : Symbols) (hsize : k' ≤ s.size)
    (hty : ∀ d ∈ ds, Typing.HasType sigs S.ty (Typing.Records S) d.body d.ret)
    (hS : SameTags S (tagDecls ds lo s).2.2 k k') :
    ∀ (i : Nat) (d : Declaration), (tagDecls ds lo s).1[i]? = some d →
      ∃ k, d.Ready names sigs S k
        (lo + countBefore Declaration.tagCount (tagDecls ds lo s).1 i) := by
  induction h generalizing lo s with
  | nil => simp [tagDecls]
  | @cons k d V k₁ ds k₂ hp hsc hds ih =>
    have hle := hsc.le
    have hle' := hds.le
    rcases hps : tagParams d.params lo s with ⟨lo₁, s₁⟩
    rcases hb : Tagging.tag d.body lo₁ s₁ with ⟨body, lo₂, s₂⟩
    have hsize₁ : s₁.size = s.size := by
      have := size_tagParams d.params lo s
      rwa [hps] at this
    have hsize₂ : s₂.size = s.size := by
      have := size_tag d.body lo₁ s₁
      rwa [hb, hsize₁] at this
    have hlo₁ : lo₁ = lo + d.params.length := by
      have := next_tagParams d.params lo s
      rwa [hps] at this
    have hall : SameTags S (tagDecls ds lo₂ s₂).2.2 k k₂ := by
      rw [tagDecls, hps] at hS
      simpa only [hb] using hS
    have hS₂ : SameTags S s₂ k k₁ := by
      refine hall.before hle' fun x hx => ?_
      rw [Symbols.tag, get?_tagDecls hds _ _ hx, Symbols.tag]
    have hbody : SameTags S (Tagging.tag d.body lo₁ s₁).2.2 (k + d.params.length) k₁ := by
      rw [hb]
      exact hS₂.right (by omega)
    have hS₁ : SameTags S s₁ k (k + d.params.length) := by
      refine hS₂.before hle fun x hx => ?_
      have := tag_tag lo₁ s₁ hsc hx
      rwa [hb] at this
    have htags := hasTags_tag lo₁ s₁ hsc (by omega) hbody
    rw [hb] at htags
    have hlo₂ : lo₂ = lo₁ + body.named.length := htags.next
    intro i e he
    rw [tagDecls, hps] at he ⊢
    simp only [hb] at he ⊢
    cases i with
    | zero =>
      cases he
      refine ⟨k, hp, fun i hi => ?_, ?_, ?_, lo₂, hlo₁ ▸ htags⟩
      · rw [hS₁ ⟨k + i⟩ ⟨Nat.le_add_right .., Nat.add_lt_add_left hi k⟩]
        have := tag_tagParams lo s (show k + d.params.length ≤ s.size by omega) hi
        rwa [← hp, hps] at this
      · have := hsc.tag lo₁ s₁
        rw [hb] at this
        exact ⟨V, k₁, this⟩
      · have := (hty d List.mem_cons_self).tag lo₁ s₁
        rwa [hb] at this
    | succ i =>
      obtain ⟨k, he⟩ := ih lo₂ s₂ (by omega) (fun d hd => hty d (List.mem_cons_of_mem _ hd))
        (hall.right (by omega)) i e he
      have hbefore : lo + countBefore Declaration.tagCount
          (({ d with body := body } : Declaration) :: (tagDecls ds lo₂ s₂).1) (i + 1) =
            lo₂ + countBefore Declaration.tagCount (tagDecls ds lo₂ s₂).1 i := by
        change lo + (d.params.length + body.named.length + _) = _
        omega
      exact ⟨k, hbefore ▸ he⟩

end Declarations

/-! ## Packages -/

namespace Package

open Typing

/-- Resolution does not depend on bodies, types and tags. -/
theorem Resolved.of_heads {p q : Package} (h : p.Resolved) (hscopes : q.scopes = p.scopes)
    (hheads : q.decls.map Declaration.head = p.decls.map Declaration.head)
    (hget : ∀ i, i < p.decls.length → q.symbols.get? ⟨i⟩ = p.symbols.get? ⟨i⟩)
    (hsize : q.symbols.size = p.symbols.size)
    (hparams : ∀ d ∈ p.decls, ∀ x ∈ d.params, (q.symbols.ty x).isSome)
    (hbodies : ScopedDecls (p.decls.map Declaration.name) p.decls.length q.decls p.symbols.size) :
    q.Resolved := by
  have hmap : ∀ {α : Type} (f : Declaration → α), (∀ d, f d.head = f d) →
      q.decls.map f = p.decls.map f := by
    intro α f hf
    have := congrArg (List.map f) hheads
    rwa [List.map_map, List.map_map, funext hf (f := f ∘ Declaration.head)] at this
  have hlen : q.decls.length = p.decls.length := by
    simpa using congrArg List.length hheads
  have hcomes : ∀ {i : Nat} {d : Declaration}, q.decls[i]? = some d →
      ∃ e, p.decls[i]? = some e ∧ e.head = d.head := by
    intro i d hd
    have := congrArg (fun l => l[i]?) hheads
    simpa only [List.getElem?_map, hd, Option.map_some, eq_comm (a := some d.head),
      Option.map_eq_some_iff] using this
  refine ⟨?_, ?_, ?_, ?_, ?_⟩
  · rw [hmap Declaration.name fun _ => rfl]
    exact h.names_nodup
  · rw [hscopes, hmap (fun d => (d.name, d.symbol)) fun _ => rfl]
    exact h.scope
  · intro i d hd
    obtain ⟨e, he, hhead⟩ := hcomes hd
    obtain ⟨hsym, s, hs, hkind, hty⟩ := h.symbols i e he
    refine ⟨(congrArg Declaration.symbol hhead).symm.trans hsym, s, ?_, hkind,
      hty.trans (congrArg (fun d => some d.ret) hhead)⟩
    rw [hget i (List.getElem?_eq_some_iff.1 he).1, hs]
  · intro d hd x hx
    obtain ⟨i, hi⟩ := List.mem_iff_getElem?.1 hd
    obtain ⟨e, he, hhead⟩ := hcomes hi
    refine hparams e (List.mem_of_getElem? he) x ?_
    have : e.head.params = d.head.params := congrArg Declaration.params hhead
    exact this ▸ hx
  · rw [hmap Declaration.name fun _ => rfl, hlen, hsize]
    exact hbodies

/-- Every node and symbol of the bodies carries the type that it has. -/
def Annotated (p : Package) : Prop :=
  ∀ d ∈ p.decls, HasType p.signatures p.symbols.ty (Records p.symbols) d.body d.ret

/-- Signatures depend on heads and on the types of parameters. -/
theorem signatures_congr {p q : Package}
    (hheads : q.decls.map Declaration.head = p.decls.map Declaration.head)
    (hty : ∀ d ∈ p.decls, ∀ x ∈ d.params, q.symbols.ty x = p.symbols.ty x) :
    q.signatures = p.signatures := by
  have hsig : q.signatures = Typing.signatures q.symbols p.decls := by
    have := congrArg (Typing.signatures q.symbols) hheads
    rw [Typing.signatures, Typing.signatures, List.map_map, List.map_map] at this
    exact this
  rw [hsig]
  refine List.map_congr_left fun d hd => ?_
  rw [Signature.mk.injEq]
  exact ⟨rfl, List.map_congr_left (hty d hd), rfl⟩

section Stages

variable {p : Package}

theorem Resolved.types_check (h : p.Resolved) (hb : p.stage = .built) (hc : (p.check hb).2 = []) :
    ∀ d ∈ p.decls, Types p.signatures p.symbols (p.check hb).1.symbols.ty d :=
  types_of_checkDecls h.complete h.bodies h.params (fun _ _ => rfl) (Nat.le_refl _) hc

theorem Resolved.check (h : p.Resolved) (hb : p.stage = .built) (hc : (p.check hb).2 = []) :
    (p.check hb).1.Resolved := by
  refine h.of_heads rfl (map_head_checkDecls p.signatures p.decls p.symbols) ?_
    (size_checkDecls p.signatures p.decls p.symbols) ?_ (h.bodies.check p.signatures p.symbols)
  · intro i hi
    exact get?_checkDecls p.signatures p.symbols h.bodies fun hx => Nat.not_lt.2 hx.1 hi
  · intro d hd x hx
    rw [(h.types_check hb hc d hd).params x hx]
    exact h.params d hd x hx

theorem Resolved.annotated_check (h : p.Resolved) (hb : p.stage = .built)
    (hc : (p.check hb).2 = []) : (p.check hb).1.Annotated := by
  have hsigs : (p.check hb).1.signatures = p.signatures :=
    signatures_congr (map_head_checkDecls p.signatures p.decls p.symbols)
      fun d hd => (h.types_check hb hc d hd).params
  intro d' hd'
  obtain ⟨i, hi⟩ := List.mem_iff_getElem?.1 hd'
  have hlt : i < p.decls.length := by
    have := (List.getElem?_eq_some_iff.1 hi).1
    rwa [show (p.check hb).1.decls.length = p.decls.length from
      length_checkDecls p.decls p.symbols] at this
  have hd := List.getElem?_eq_getElem hlt
  obtain ⟨body, l, l', hget, -, -, han⟩ :=
    annotated_checkDecls p.signatures h.bodies h.params (fun _ _ => rfl) (Nat.le_refl _) hd
  obtain rfl : _ = d' := Option.some.inj (hget.symm.trans hi)
  rw [hsigs]
  exact (han _ (h.types_check hb hc _ (List.getElem_mem hlt))).2.1

theorem Resolved.fold (h : p.Resolved) (hf : p.stage.IsFoldable) : (p.fold hf).Resolved :=
  h.of_heads rfl (map_head_map_foldDecl p.decls) (fun _ _ => rfl) rfl h.params h.bodies.fold

theorem Annotated.fold (h : p.Annotated) (hf : p.stage.IsFoldable) : (p.fold hf).Annotated := by
  have hsigs : (p.fold hf).signatures = p.signatures :=
    signatures_congr (map_head_map_foldDecl p.decls) fun _ _ _ _ => rfl
  intro d hd
  obtain ⟨e, he, rfl⟩ := List.mem_map.1 hd
  rw [hsigs]
  exact (h e he).fold

theorem ty_symbols_tag (p : Package) (hc : p.stage.IsChecked) (first : Nat) :
    (p.tag hc first).1.symbols.ty = p.symbols.ty :=
  Tagging.ty_tagDecls p.decls first p.symbols

theorem Resolved.tag (h : p.Resolved) (hc : p.stage.IsChecked) (first : Nat) :
    (p.tag hc first).1.Resolved := by
  refine h.of_heads rfl (map_head_tagDecls p.decls first p.symbols) ?_
    (Tagging.size_tagDecls p.decls first p.symbols) ?_ (h.bodies.tag first p.symbols)
  · intro i hi
    exact Tagging.get?_tagDecls h.bodies first p.symbols fun hx => Nat.not_lt.2 hx.1 hi
  · rw [ty_symbols_tag]
    exact h.params

/-- What generation of code relies on. -/
structure Ready (p : Package) : Prop where
  resolved : p.Resolved
  decls : ∀ d ∈ p.decls, ∃ k lo,
    d.Ready (p.decls.map Declaration.name) p.signatures p.symbols k lo

theorem Records.congr {S S' : Symbols} (h : S'.ty = S.ty) : Records S' = Records S := by
  funext n τ
  have : n.ty S' = n.ty S := by
    cases n <;> simp only [Node.ty, h]
  rw [Records, Records, this]

/-- A tagged package gives the tags in the order of its declarations. -/
theorem Resolved.getElem?_ready_tag (h : p.Resolved) (ha : p.Annotated) (hc : p.stage.IsChecked)
    (first : Nat) {i : Nat} {d : Declaration} (hd : (p.tag hc first).1.decls[i]? = some d) :
    ∃ k, d.Ready ((p.tag hc first).1.decls.map Declaration.name) (p.tag hc first).1.signatures
      (p.tag hc first).1.symbols k
      (first + countBefore Declaration.tagCount (p.tag hc first).1.decls i) := by
  have hheads : (p.tag hc first).1.decls.map Declaration.head = p.decls.map Declaration.head :=
    map_head_tagDecls p.decls first p.symbols
  have hty := ty_symbols_tag p hc first
  have hnames : (p.tag hc first).1.decls.map Declaration.name = p.decls.map Declaration.name := by
    have := congrArg (List.map Declaration.name) hheads
    rw [List.map_map, List.map_map] at this
    exact this
  have htypes : ∀ d ∈ p.decls, HasType p.signatures (p.tag hc first).1.symbols.ty
      (Records (p.tag hc first).1.symbols) d.body d.ret := by
    rw [hty, Records.congr hty]
    exact ha
  rw [hnames, signatures_congr hheads fun _ _ _ _ => by rw [hty]]
  exact ready_tagDecls h.bodies first p.symbols (Nat.le_refl _) htypes (fun _ _ => rfl) i d hd

/-- **Tagging makes an annotated package ready.** -/
theorem Resolved.ready_tag (h : p.Resolved) (ha : p.Annotated) (hc : p.stage.IsChecked)
    (first : Nat) : (p.tag hc first).1.Ready := by
  refine ⟨h.tag hc first, fun d hd => ?_⟩
  obtain ⟨i, hi⟩ := List.getElem?_of_mem hd
  obtain ⟨k, hready⟩ := h.getElem?_ready_tag ha hc first hi
  exact ⟨k, _, hready⟩

end Stages

/-! ## Accepted declarations -/

/-- Declarations without empty blocks, as they are read from texts, that are built and checked
without a report. -/
structure Accepts (name : String) (files : List (List Decl)) : Prop where
  solid : ∀ d ∈ files.flatten, d.body.Solid
  build : (Package.build name files).2 = []
  check : ((Package.build name files).1.check (Package.stage_build name files)).2 = []

theorem accepts_doubling : Accepts "doubling" [doubling] where
  solid := by simp [doubling, Expr.Solid, Expr.AllSolid]
  build := by decide
  check := by decide

/-- The tagged package of some files, with or without folding. -/
def compiled (name : String) (files : List (List Decl)) (optimize : Bool) (first : Nat) :
    Package :=
  let checked := ((Package.build name files).1.check (Package.stage_build name files)).1
  let folded := (Compile.optimized optimize checked (Package.stage_check ..)).1
  (folded.tag (Compile.optimized_isChecked optimize checked (Package.stage_check ..)) first).1

/-- The tagged package of accepted declarations comes from an annotated one. -/
theorem Accepts.exists_annotated {name : String} {files : List (List Decl)} (h : Accepts name files)
    (optimize : Bool) (first : Nat) : ∃ (p : Package) (hc : p.stage.IsChecked),
      p.Resolved ∧ p.Annotated ∧ compiled name files optimize first = (p.tag hc first).1 := by
  have hres := resolved_of_build h.solid h.build
  have hres' := hres.check (Package.stage_build name files) h.check
  have ha := hres.annotated_check (Package.stage_build name files) h.check
  cases optimize with
  | false => exact ⟨_, _, hres', ha, rfl⟩
  | true =>
    have hf := Stage.IsFoldable.of_eq_checked
      (Package.stage_check _ (Package.stage_build name files))
    exact ⟨_, _, hres'.fold hf, ha.fold hf, rfl⟩

/-- **Accepted declarations are ready for generation.** -/
theorem Accepts.ready {name : String} {files : List (List Decl)} (h : Accepts name files)
    (optimize : Bool) (first : Nat) : (compiled name files optimize first).Ready := by
  obtain ⟨p, hc, hres, ha, heq⟩ := h.exists_annotated optimize first
  exact heq ▸ hres.ready_tag ha hc first

/-- The tags of an accepted declaration begin where those of the declarations before it end. -/
theorem Accepts.getElem?_ready {name : String} {files : List (List Decl)} (h : Accepts name files)
    (optimize : Bool) (first : Nat) {i : Nat} {d : Declaration}
    (hd : (compiled name files optimize first).decls[i]? = some d) :
    ∃ k, d.Ready ((compiled name files optimize first).decls.map Declaration.name)
      (compiled name files optimize first).signatures (compiled name files optimize first).symbols k
      (first + countBefore Declaration.tagCount (compiled name files optimize first).decls i) := by
  obtain ⟨p, hc, hres, ha, heq⟩ := h.exists_annotated optimize first
  rw [heq] at hd ⊢
  exact hres.getElem?_ready_tag ha hc first hd

end Package

end CalcLang
