import CalcLang.Proofs.Checking
import CalcLang.Proofs.Evaluation

/-!
# Checked packages

A declaration is well typed if some environment that gives its parameters their written types
gives its body the return type (`Typing.WellTyped`). `Package.check_decides_typing` is the result
about packages.
-/

namespace CalcLang

namespace Typing

variable {sigs : Signatures} {names : List String} {symbols : Symbols}

/-- The environment has the written types of the parameters, and by it the body of the
declaration has the return type. -/
structure Types (sigs : Signatures) (symbols : Symbols) (Γ : SymbolId → Option Ty)
    (d : Declaration) : Prop where
  params : ∀ x ∈ d.params, Γ x = symbols.ty x
  body : Derives sigs Γ d.body d.ret

/-- The declaration is derivable. -/
def WellTyped (sigs : Signatures) (symbols : Symbols) (d : Declaration) : Prop :=
  ∃ Γ, Types sigs symbols Γ d

/-- What checking gives for a declaration: its body carries the types that it has in every
environment that types the declaration, and so do the symbols between `k` and `k'`. -/
def Annotated (sigs : Signatures) (symbols : Symbols) (k k' : Nat) (d : Declaration) (S : Symbols)
    (body : Node) : Prop :=
  ∀ Γ, Types sigs symbols Γ d →
    Settles Γ k k' S ∧ HasType sigs Γ (Records S) body d.ret ∧
      ∀ x : SymbolId, x.Within k k' → (Γ x).isSome

section Declaration

variable {d : Declaration} {V : List SymbolId} {k k' : Nat} {s : Symbols}

theorem agrees_params {Γ : SymbolId → Option Ty} (hp : d.params = numbered k d.params.length)
    (hΓ : ∀ x ∈ d.params, Γ x = symbols.ty x)
    (hs : ∀ x : SymbolId, k ≤ x.index → s.ty x = symbols.ty x) :
    Agrees Γ d.params.reverse (k + d.params.length) s := by
  intro x hx
  rw [List.mem_reverse] at hx
  have hx' := hx
  rw [hp, mem_numbered] at hx'
  exact ⟨hx'.2, (hs x hx'.1).trans (hΓ x hx).symm⟩

/-- **A well-typed declaration checks**, and its body is annotated. -/
theorem check_of_wellTyped (hp : d.params = numbered k d.params.length)
    (hty : ∀ x ∈ d.params, (symbols.ty x).isSome)
    (hsc : Scoped names d.params.reverse (k + d.params.length) d.body V k')
    (hs : ∀ x : SymbolId, k ≤ x.index → s.ty x = symbols.ty x) (hsize : k' ≤ s.size)
    {Γ : SymbolId → Option Ty} (h : Types sigs symbols Γ d) :
    ∃ m s', check sigs d.body s = (m, some d.ret, s', []) ∧ Settles Γ k k' s' ∧
      (∀ x : SymbolId, x.Within k k' → (Γ x).isSome) ∧
      ∀ S, Settles Γ k k' S → HasType sigs Γ (Records S) m d.ret := by
  have ha := agrees_params hp h.params hs
  obtain ⟨m, s', hc, hs', hm⟩ := check_of_hasType h.body hsc ha hsize
  have hparams : ∀ x : SymbolId, x.Within k (k + d.params.length) → x ∈ d.params := by
    intro x hx
    rw [hp]
    exact mem_numbered.2 hx
  refine ⟨m, s', hc, fun x hx => ?_, fun x hx => ?_, fun S hS => hm S (hS.right (by omega))⟩
  · rcases hx.split with hx | hx
    · have := keep_of_check hc hsc x fun h => Nat.not_lt.2 h.1 hx.2
      exact this.trans (ha x (List.mem_reverse.2 (hparams x hx))).2
    · exact hs' x hx
  · rcases hx.split with hx | hx
    · rw [h.params x (hparams x hx)]
      exact hty x (hparams x hx)
    · exact h.body.known hsc x hx

/-- **A declaration that checks without a report is well typed**, by the types that are recorded on
its symbols. -/
theorem types_of_check (hsigs : Complete sigs names) (hp : d.params = numbered k d.params.length)
    (hty : ∀ x ∈ d.params, (symbols.ty x).isSome)
    (hsc : Scoped names d.params.reverse (k + d.params.length) d.body V k')
    (hs : ∀ x : SymbolId, k ≤ x.index → s.ty x = symbols.ty x) (hsize : k' ≤ s.size)
    {m : Node} {ty : Option Ty} {s' : Symbols} {pos : Pos}
    (hc : check sigs d.body s = (m, ty, s', []))
    (hret : expect (some d.ret) ty .result pos = []) {Γ : SymbolId → Option Ty}
    (hΓ : Settles Γ k k' s') : Types sigs symbols Γ d := by
  have hle := hsc.le
  have hkeep := keep_of_check hc hsc
  have hparams : ∀ x ∈ d.params, Γ x = symbols.ty x := by
    intro x hx
    rw [hp, mem_numbered] at hx
    rw [← hΓ x ⟨hx.1, by omega⟩, hkeep x fun h => Nat.not_lt.2 h.1 hx.2, hs x hx.1]
  have hknown : Known Γ d.params.reverse := by
    intro x hx
    rw [List.mem_reverse] at hx
    rw [hparams x hx]
    exact hty x hx
  obtain ⟨τ, rfl, ht⟩ := hasType_of_check hsigs hc hsc (agrees_params hp hparams hs) hknown
    (hΓ.right (by omega)) hsize
  obtain rfl := expect_eq_nil_iff.1 hret
  exact ⟨hparams, ht⟩

end Declaration

/-! ## Declarations one after the other -/

theorem length_checkDecls (ds : List Declaration) (s : Symbols) :
    (checkDecls sigs ds s).1.length = ds.length := by
  induction ds generalizing s with
  | nil => rfl
  | cons d ds ih => exact congrArg Nat.succ (ih _)

theorem size_checkDecls (sigs : Signatures) (ds : List Declaration) (s : Symbols) :
    (checkDecls sigs ds s).2.1.size = s.size := by
  induction ds generalizing s with
  | nil => rfl
  | cons d ds ih => exact (ih _).trans (size_check sigs d.body s)

theorem get?_checkDecls (sigs : Signatures) {k k' : Nat} {ds : List Declaration} (s : Symbols)
    (h : ScopedDecls names k ds k') {x : SymbolId} (hx : ¬ x.Within k k') :
    (checkDecls sigs ds s).2.1.get? x = s.get? x := by
  induction h generalizing s with
  | nil => rfl
  | @cons k d V k₁ ds k₂ hp hsc hds ih =>
    have hle := hsc.le
    have hle' := hds.le
    exact (ih _ (not_within_right hx (by omega))).trans
      (get?_check sigs s hsc (not_within_right (not_within_left hx hle') (by omega)))

theorem ty_checkDecls (sigs : Signatures) {k k' : Nat} {ds : List Declaration} (s : Symbols)
    (h : ScopedDecls names k ds k') {x : SymbolId} (hx : ¬ x.Within k k') :
    (checkDecls sigs ds s).2.1.ty x = s.ty x := by
  rw [Symbols.ty, get?_checkDecls sigs s h hx, Symbols.ty]

/-- Declarations check exactly if they are well typed. -/
theorem checkDecls_eq_nil_iff (hsigs : Complete sigs names) {k k' : Nat} {ds : List Declaration}
    {s : Symbols} (h : ScopedDecls names k ds k')
    (hty : ∀ d ∈ ds, ∀ x ∈ d.params, (symbols.ty x).isSome)
    (hs : ∀ x : SymbolId, k ≤ x.index → s.ty x = symbols.ty x) (hsize : k' ≤ s.size) :
    (checkDecls sigs ds s).2.2 = [] ↔ ∀ d ∈ ds, WellTyped sigs symbols d := by
  induction h generalizing s with
  | nil => simp [checkDecls]
  | @cons k d V k₁ ds k₂ hp hsc hds ih =>
    have hle := hsc.le
    have hle' := hds.le
    have hlek : k ≤ k₁ := by omega
    rcases hc : check sigs d.body s with ⟨m, ty, s₁, d₁⟩
    have hkeep := keep_of_check hc hsc
    have ih' := ih (s := s₁) (fun d hd => hty d (List.mem_cons_of_mem _ hd))
      (fun x hx => (hkeep x fun h => Nat.not_lt.2 hx h.2).trans (hs x (Nat.le_trans hlek hx)))
      (by rwa [size_of_check hc])
    have hd : d₁ ++ expect (some d.ret) ty .result m.pos = [] ↔ WellTyped sigs symbols d := by
      rw [List.append_eq_nil_iff]
      constructor
      · rintro ⟨rfl, hret⟩
        exact ⟨s₁.ty, types_of_check hsigs hp (hty _ List.mem_cons_self) hsc hs
          (Nat.le_trans hle' hsize) hc hret fun _ _ => rfl⟩
      · rintro ⟨Γ, hΓ⟩
        obtain ⟨m', s', hc', -⟩ := check_of_wellTyped hp (hty _ List.mem_cons_self) hsc hs
          (Nat.le_trans hle' hsize) hΓ
        rw [hc] at hc'
        cases hc'
        exact ⟨rfl, expect_self ..⟩
    rw [checkDecls, hc, List.forall_mem_cons, ← hd, ← ih']
    exact List.append_eq_nil_iff

/-- Every declaration is annotated with the types that it has. -/
theorem annotated_checkDecls (sigs : Signatures) {k k' : Nat} {ds : List Declaration} {s : Symbols}
    (h : ScopedDecls names k ds k')
    (hty : ∀ d ∈ ds, ∀ x ∈ d.params, (symbols.ty x).isSome)
    (hs : ∀ x : SymbolId, k ≤ x.index → s.ty x = symbols.ty x) (hsize : k' ≤ s.size)
    {i : Nat} {d : Declaration} (hd : ds[i]? = some d) :
    ∃ body l l', (checkDecls sigs ds s).1[i]? = some { d with body := body } ∧
      body.untyped = d.body.untyped ∧ (∀ x ∈ d.params, x.Within l l') ∧
      Annotated sigs symbols l l' d (checkDecls sigs ds s).2.1 body := by
  induction h generalizing s i with
  | nil => simp at hd
  | @cons k d' V k₁ ds k₂ hp hsc hds ih =>
    have hle := hsc.le
    have hle' := hds.le
    have hlek : k ≤ k₁ := by omega
    rcases hc : check sigs d'.body s with ⟨m, ty, s₁, d₁⟩
    have hkeep := keep_of_check hc hsc
    rw [checkDecls, hc]
    cases i with
    | zero =>
      obtain rfl : d' = d := by simpa using hd
      refine ⟨m, k, k₁, rfl, untyped_of_check hc, fun x hx => ?_, fun Γ hΓ => ?_⟩
      · rw [hp, mem_numbered] at hx
        exact ⟨hx.1, by omega⟩
      · obtain ⟨m', s', hc', hs', hknown, hm⟩ :=
          check_of_wellTyped hp (hty _ List.mem_cons_self) hsc hs (Nat.le_trans hle' hsize) hΓ
        rw [hc] at hc'
        cases hc'
        have hfinal : Settles Γ k k₁ (checkDecls sigs ds s₁).2.1 := by
          intro x hx
          rw [ty_checkDecls sigs s₁ hds fun h => Nat.not_lt.2 h.1 hx.2]
          exact hs' x hx
        exact ⟨hfinal, hm _ hfinal, hknown⟩
    | succ i =>
      obtain ⟨body, l, l', hget, hbody, hps, han⟩ := ih (s := s₁)
        (fun d hd => hty d (List.mem_cons_of_mem _ hd))
        (fun x hx => (hkeep x fun h => Nat.not_lt.2 hx h.2).trans (hs x (Nat.le_trans hlek hx)))
        (by rwa [size_of_check hc]) (by simpa using hd)
      exact ⟨body, l, l', hget, hbody, hps, han⟩

/-- Declarations that check are typed by the types that are recorded in the end. -/
theorem types_of_checkDecls (hsigs : Complete sigs names) {k k' : Nat} {ds : List Declaration}
    {s : Symbols} (h : ScopedDecls names k ds k')
    (hty : ∀ d ∈ ds, ∀ x ∈ d.params, (symbols.ty x).isSome)
    (hs : ∀ x : SymbolId, k ≤ x.index → s.ty x = symbols.ty x) (hsize : k' ≤ s.size)
    (hc : (checkDecls sigs ds s).2.2 = []) :
    ∀ d ∈ ds, Types sigs symbols (checkDecls sigs ds s).2.1.ty d := by
  induction h generalizing s with
  | nil => simp
  | @cons k d V k₁ ds k₂ hp hsc hds ih =>
    have hle := hsc.le
    have hle' := hds.le
    have hlek : k ≤ k₁ := by omega
    rcases hcd : check sigs d.body s with ⟨m, ty, s₁, d₁⟩
    have hkeep := keep_of_check hcd hsc
    rw [checkDecls, hcd] at hc ⊢
    obtain ⟨hd, hds'⟩ := List.append_eq_nil_iff.1 hc
    obtain ⟨rfl, hret⟩ := List.append_eq_nil_iff.1 hd
    intro e he
    rcases List.mem_cons.1 he with rfl | he
    · refine types_of_check hsigs hp (hty _ List.mem_cons_self) hsc hs (Nat.le_trans hle' hsize)
        hcd hret fun x hx => ?_
      exact (ty_checkDecls sigs s₁ hds fun h => Nat.not_lt.2 h.1 hx.2).symm
    · exact ih (fun d hd => hty d (List.mem_cons_of_mem _ hd))
        (fun x hx => (hkeep x fun h => Nat.not_lt.2 hx h.2).trans (hs x (Nat.le_trans hlek hx)))
        (by rwa [size_of_check hcd]) hds' e he

/-- Well-typed declarations leave no symbol without a type. -/
theorem isSome_ty_checkDecls {k k' : Nat} {ds : List Declaration} {s : Symbols}
    (h : ScopedDecls names k ds k')
    (hty : ∀ d ∈ ds, ∀ x ∈ d.params, (symbols.ty x).isSome)
    (hs : ∀ x : SymbolId, k ≤ x.index → s.ty x = symbols.ty x) (hsize : k' ≤ s.size)
    (hd : ∀ d ∈ ds, WellTyped sigs symbols d) (x : SymbolId) (hx : x.Within k k') :
    ((checkDecls sigs ds s).2.1.ty x).isSome := by
  induction h generalizing s with
  | nil => exact absurd hx.2 (Nat.not_lt.2 hx.1)
  | @cons k d V k₁ ds k₂ hp hsc hds ih =>
    have hle := hsc.le
    have hle' := hds.le
    have hlek : k ≤ k₁ := by omega
    obtain ⟨Γ, hΓ⟩ := hd d List.mem_cons_self
    obtain ⟨m, s₁, hc, hs₁, hknown, -⟩ :=
      check_of_wellTyped hp (hty _ List.mem_cons_self) hsc hs (Nat.le_trans hle' hsize) hΓ
    rw [checkDecls, hc]
    rcases hx.split with hx | hx
    · have hkeep := ty_checkDecls sigs s₁ hds fun h => Nat.not_lt.2 h.1 hx.2
      exact (congrArg Option.isSome (hkeep.trans (hs₁ x hx))).trans (hknown x hx)
    · have hkeep := keep_of_check hc hsc
      exact ih (fun d hd => hty d (List.mem_cons_of_mem _ hd))
        (fun x hx => (hkeep x fun h => Nat.not_lt.2 hx h.2).trans (hs x (Nat.le_trans hlek hx)))
        (by rwa [size_of_check hc]) (fun d hd' => hd d (List.mem_cons_of_mem _ hd')) hx

theorem exists_map_some {α β : Type} {f : α → Option β} {as : List α}
    (h : ∀ a ∈ as, (f a).isSome) : ∃ bs : List β, as.map f = bs.map some := by
  induction as with
  | nil => exact ⟨[], rfl⟩
  | cons a as ih =>
    obtain ⟨bs, hbs⟩ := ih fun a ha => h a (List.mem_cons_of_mem _ ha)
    obtain ⟨b, hb⟩ := Option.isSome_iff_exists.1 (h a List.mem_cons_self)
    exact ⟨b :: bs, by rw [List.map_cons, List.map_cons, hb, hbs]⟩

end Typing

/-! ## Packages -/

namespace Package

open Typing

/-- The signatures of the declarations of a package. -/
abbrev signatures (p : Package) : Signatures := Typing.signatures p.symbols p.decls

theorem getElem?_signatures (p : Package) (i : Nat) : p.signatures[i]? =
    p.decls[i]?.map fun d => ⟨d.name, d.params.map p.symbols.ty, d.ret⟩ :=
  List.getElem?_map ..

theorem Resolved.complete {p : Package} (h : p.Resolved) :
    Complete p.signatures (p.decls.map Declaration.name) := by
  refine ⟨by simp [signatures, Typing.signatures, Function.comp_def], fun sig hsig => ?_⟩
  obtain ⟨d, hd, rfl⟩ := List.mem_map.1 hsig
  exact exists_map_some (h.params d hd)

theorem Resolved.check_eq_nil_iff {p : Package} (h : p.Resolved) (hb : p.stage = .built) :
    (p.check hb).2 = [] ↔ ∀ d ∈ p.decls, WellTyped p.signatures p.symbols d :=
  checkDecls_eq_nil_iff h.complete h.bodies h.params (fun _ _ => rfl) (Nat.le_refl _)

/-- Checking keeps the type of the symbol of a declaration, which is what it returns. -/
theorem Resolved.ty_symbol_check {p : Package} (h : p.Resolved) (hb : p.stage = .built) {i : Nat}
    {d : Declaration} (hd : p.decls[i]? = some d) :
    (p.check hb).1.symbols.ty d.symbol = some d.ret := by
  obtain ⟨hsymbol, e, he, -, hty⟩ := h.symbols i d hd
  have hlt : i < p.decls.length := (List.getElem?_eq_some_iff.1 hd).1
  have hkeep : (p.check hb).1.symbols.ty ⟨i⟩ = p.symbols.ty ⟨i⟩ :=
    ty_checkDecls p.signatures p.symbols h.bodies fun h => Nat.not_lt.2 h.1 hlt
  rw [hsymbol, hkeep, Symbols.ty, he, Option.bind_some, hty]

/-- After a check without a report every symbol has a type. -/
theorem Resolved.isSome_ty_check {p : Package} (h : p.Resolved) (hb : p.stage = .built)
    (hc : (p.check hb).2 = []) (x : SymbolId) (hx : x.index < (p.check hb).1.symbols.size) :
    ((p.check hb).1.symbols.ty x).isSome := by
  have hsize : (p.check hb).1.symbols.size = p.symbols.size :=
    size_checkDecls p.signatures p.decls p.symbols
  by_cases hlt : x.index < p.decls.length
  · have hd := List.getElem?_eq_getElem hlt
    have hty := h.ty_symbol_check hb hd
    rw [(h.symbols x.index _ hd).1] at hty
    exact Option.isSome_of_eq_some hty
  · exact isSome_ty_checkDecls h.bodies h.params (fun _ _ => rfl) (Nat.le_refl _)
      ((h.check_eq_nil_iff hb).1 hc) x ⟨Nat.not_lt.1 hlt, hsize ▸ hx⟩

/-- **The checker decides the type system.** Let a package be built without a report, from
declarations without empty blocks, as those that are read from texts
(`Parse.solid_of_mem_decls`). It checks without a report exactly if all of its declarations are
well typed. In that case every symbol has a type, that of a declaration the type that it returns,
and the checked declarations are the declarations up to the types recorded on nodes. In every
environment that types a declaration, what is recorded is the type of the node, and for a parameter
the type of the parameter; a node that introduces a variable records the type of its symbol. -/
theorem check_decides_typing {name : String} {files : List (List Decl)}
    (hsolid : ∀ d ∈ files.flatten, d.body.Solid) (hbuild : (Package.build name files).2 = []) :
    let p := (Package.build name files).1
    let q := p.check (Package.stage_build name files)
    (q.2 = [] ↔ ∀ d ∈ p.decls, WellTyped p.signatures p.symbols d) ∧
    (q.2 = [] → (∀ x : SymbolId, x.index < q.1.symbols.size → (q.1.symbols.ty x).isSome) ∧
      ∀ (i : Nat) (d : Declaration), p.decls[i]? = some d →
        q.1.symbols.ty d.symbol = some d.ret ∧
        ∃ body, q.1.decls[i]? = some { d with body := body } ∧ body.untyped = d.body.untyped ∧
          ∀ Γ, Types p.signatures p.symbols Γ d →
            HasType p.signatures Γ (Records q.1.symbols) body d.ret ∧
              ∀ x ∈ d.params, q.1.symbols.ty x = Γ x) := by
  intro p q
  have hres : p.Resolved := resolved_of_build hsolid hbuild
  refine ⟨hres.check_eq_nil_iff _, fun hq => ⟨hres.isSome_ty_check _ hq, fun i d hd => ?_⟩⟩
  obtain ⟨body, l, l', hget, hbody, hps, han⟩ :=
    annotated_checkDecls p.signatures hres.bodies hres.params (fun _ _ => rfl) (Nat.le_refl _) hd
  refine ⟨hres.ty_symbol_check _ hd, body, hget, hbody, fun Γ hΓ => ?_⟩
  obtain ⟨hset, ht, -⟩ := han Γ hΓ
  exact ⟨ht, fun x hx => hset x (hps x hx)⟩

theorem check_decides_typing_doubling :
    (∀ d ∈ [doubling].flatten, d.body.Solid) ∧ (Package.build "doubling" [doubling]).2 = [] ∧
      ∀ d ∈ (Package.build "doubling" [doubling]).1.decls,
        WellTyped (Package.build "doubling" [doubling]).1.signatures
          (Package.build "doubling" [doubling]).1.symbols d := by
  have hsolid : ∀ d ∈ [doubling].flatten, d.body.Solid := by
    simp [doubling, Expr.Solid, Expr.AllSolid]
  have hbuild : (Package.build "doubling" [doubling]).2 = [] := by decide
  exact ⟨hsolid, hbuild, (check_decides_typing hsolid hbuild).1.1 (by decide)⟩

end Package

end CalcLang
