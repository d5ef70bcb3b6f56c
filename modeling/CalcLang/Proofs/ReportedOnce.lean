import CalcLang.Proofs.Subjects
import Mathlib.Data.List.Perm.Basic

/-!
# No mistake is reported twice

Resolution reports each name of the source files at most once, and no two names are read at one
position (`Package.distinct_build`).

Checking reports nodes, and two nodes are at one position only if they belong to one chain
(`Resolution.nodup_spots_lowerDecls`). A node may still be reported by itself and by the form around
it, which expects a type of it. But if two types disagree at the node itself, the node has no type
and agrees with everything (`Typing.Once`), and so it is with the nodes of a chain
(`Typing.Once.binary`). Together, no two reports are of one kind and at one position
(`Package.reported_once`).
-/

namespace CalcLang

open Diagnostic

/-- Two diagnostics that are of different kinds or at different positions. The code of a diagnostic
tells its kind, whatever else the kind says. -/
def Diagnostic.Differs (d e : Diagnostic) : Prop := d.code = e.code → d.pos ≠ e.pos

/-- Diagnostics at some positions, any two of which differ. -/
structure Diagnostic.AllDistinct (places : List Pos) (ds : List Diagnostic) : Prop where
  differ : ds.Pairwise Differs
  pos_mem : ∀ d ∈ ds, d.pos ∈ places

namespace Diagnostic.AllDistinct

variable {places places' : List Pos} {ds es : List Diagnostic} {q : Pos}

theorem nil : AllDistinct places [] := ⟨.nil, nofun⟩

theorem one {d : Diagnostic} (h : d.pos ∈ places) : AllDistinct places [d] :=
  ⟨List.pairwise_singleton Differs d, List.forall_mem_singleton.2 h⟩

theorem mono (h : AllDistinct places ds) (hsub : places ⊆ places') : AllDistinct places' ds :=
  ⟨h.differ, fun d hd => hsub (h.pos_mem d hd)⟩

theorem perm (h : AllDistinct places ds) (hperm : ds.Perm es) : AllDistinct places es := by
  refine ⟨hperm.pairwise h.differ fun hd hcode hpos => ?_, fun d hd => ?_⟩
  · exact hd hcode.symm hpos.symm
  · exact h.pos_mem d (hperm.mem_iff.2 hd)

/-- More reports at the same positions. -/
theorem join (h : AllDistinct places ds) (h' : AllDistinct places es)
    (hdiffer : ∀ d ∈ ds, ∀ e ∈ es, d.Differs e) : AllDistinct places (ds ++ es) :=
  ⟨List.pairwise_append.2 ⟨h.differ, h'.differ, hdiffer⟩,
    List.forall_mem_append.2 ⟨h.pos_mem, h'.pos_mem⟩⟩

/-- Reports at other positions. -/
theorem append (h : AllDistinct places ds) (h' : AllDistinct places' es)
    (hdis : places.Disjoint places') : AllDistinct (places ++ places') (ds ++ es) := by
  have hleft := h.mono (List.subset_append_left places places')
  have hright := h'.mono (List.subset_append_right places places')
  refine hleft.join hright fun d hd e he _ hpos => ?_
  exact hdis (h.pos_mem d hd) (hpos ▸ h'.pos_mem e he)

theorem left (h : AllDistinct places (ds ++ es)) : AllDistinct places ds := by
  have hsub : ds.Sublist (ds ++ es) := List.sublist_append_left ds es
  exact ⟨h.differ.sublist hsub, fun d hd => h.pos_mem d (hsub.subset hd)⟩

/-- What is reported at a new position comes last, although the position comes first. -/
theorem behind (h : AllDistinct places ds) (h' : AllDistinct [q] es) (hq : q ∉ places) :
    AllDistinct (q :: places) (ds ++ es) := by
  have hdis : places.Disjoint [q] := List.disjoint_singleton.2 hq
  exact (h.append h' hdis).mono (List.perm_append_singleton q places).subset

end Diagnostic.AllDistinct

/-! ## Names -/

namespace Resolution

theorem distinct_bind (n : Names) (scope : ScopeId) (x : Ident) (kind : SymbolKind)
    (ty : Option Ty) : AllDistinct [x.pos] (n.bind scope x kind ty).2 := by
  unfold Names.bind
  split
  · exact .one (List.mem_singleton_self x.pos)
  · exact .nil

theorem distinct_about {x : Ident} {d : Diagnostic} (h : d.IsAbout [x]) :
    AllDistinct [x.pos] [d] := by
  obtain ⟨y, hy, hpos, -⟩ := h
  rw [List.mem_singleton.1 hy] at hpos
  exact .one (List.mem_singleton.2 hpos)

mutual

/-- Each name of an expression is reported at most once. -/
theorem distinct_lower (scope : ScopeId) : ∀ (e : Expr) (n : Names),
    (e.idents.map Ident.pos).Nodup → AllDistinct (e.idents.map Ident.pos) (lower scope e n).2.2
  | .int .., _, _ | .bool .., _, _ => .nil
  | .name x, n, _ => by
    rw [lower]
    split
    · exact .nil
    · next hd => exact distinct_about (about_resolveVariable hd (List.mem_singleton_self x) rfl)
  | .binary _ lhs rhs _, n, h => by
    rw [Expr.idents, List.map_append] at h ⊢
    obtain ⟨hl, hr, hdis⟩ := List.nodup_append'.1 h
    exact (distinct_lower scope lhs n hl).append (distinct_lower scope rhs _ hr) hdis
  | .unary _ operand _, n, h => distinct_lower scope operand n h
  | .ifThen test _ yes _, n, h => by
    rw [Expr.idents, List.map_append] at h ⊢
    obtain ⟨ht, hy, hdis⟩ := List.nodup_append'.1 h
    exact (distinct_lower scope test n ht).append (distinct_lower _ yes _ hy) hdis
  | .ifThenElse test _ yes no _, n, h => by
    rw [Expr.idents, ← List.append_assoc, List.map_append, List.map_append] at h ⊢
    obtain ⟨h, hn, hdis⟩ := List.nodup_append'.1 h
    obtain ⟨ht, hy, hdis'⟩ := List.nodup_append'.1 h
    exact ((distinct_lower scope test n ht).append (distinct_lower _ yes _ hy) hdis').append
      (distinct_lower _ no _ hn) hdis
  | .declare x ty _, n, _ => distinct_bind n scope x .variable (some ty.ty)
  | .define x ty init _, n, h => by
    obtain ⟨hx, hinit⟩ := List.nodup_cons.1 h
    exact (distinct_lower scope init n hinit).behind (distinct_bind _ scope x .variable _) hx
  | .assign x value _, n, h => by
    obtain ⟨hx, hv⟩ := List.nodup_cons.1 h
    have hvalue := distinct_lower scope value n hv
    rw [lower]
    dsimp only
    split
    · exact hvalue.mono (List.subset_cons_self ..)
    · next hd =>
      have habout := about_resolveVariable hd (List.mem_singleton_self x) rfl
      exact hvalue.behind (distinct_about habout) hx
  | .call x args _, n, h => by
    obtain ⟨hx, ha⟩ := List.nodup_cons.1 h
    have hargs := distinct_lowerAll scope args n ha
    rw [lower]
    dsimp only
    split
    · exact hargs.mono (List.subset_cons_self ..)
    · next hd =>
      have habout := about_resolveDeclaration hd (List.mem_singleton_self x)
      exact hargs.behind (distinct_about habout) hx
  | .block exprs _, n, h => distinct_lowerAll _ exprs _ h

theorem distinct_lowerAll (scope : ScopeId) : ∀ (es : List Expr) (n : Names),
    ((Expr.allIdents es).map Ident.pos).Nodup →
      AllDistinct ((Expr.allIdents es).map Ident.pos) (lowerAll scope es n).2.2
  | [], _, _ => .nil
  | e :: es, n, h => by
    rw [Expr.allIdents, List.map_append] at h ⊢
    obtain ⟨he, hes, hdis⟩ := List.nodup_append'.1 h
    exact (distinct_lower scope e n he).append (distinct_lowerAll scope es _ hes) hdis

end

theorem distinct_lowerBody (scope : ScopeId) (body : Expr) (n : Names)
    (h : (body.idents.map Ident.pos).Nodup) :
    AllDistinct (body.idents.map Ident.pos) (lowerBody scope body n).2.2 := by
  cases body with
  | block exprs pos => exact distinct_lowerAll scope exprs n h
  | _ => exact distinct_lower scope _ n h

theorem distinct_bindParams (scope : ScopeId) (ps : List Param) (n : Names)
    (h : ((ps.map Param.name).map Ident.pos).Nodup) :
    AllDistinct ((ps.map Param.name).map Ident.pos) (bindParams scope ps n).2.2 := by
  induction ps generalizing n with
  | nil => exact .nil
  | cons p ps ih =>
    obtain ⟨hp, hps⟩ := List.nodup_cons.1 h
    have hdis := List.singleton_disjoint.2 hp
    exact (distinct_bind n scope p.name .param _).append (ih _ hps) hdis

/-- The names inside a declaration. -/
def inner (d : Decl) : List Ident := d.params.map Param.name ++ d.body.idents

theorem distinct_lowerDecls (ds : List (Decl × SymbolId)) (n : Names)
    (h : ((ds.flatMap fun d => inner d.1).map Ident.pos).Nodup) :
    AllDistinct ((ds.flatMap fun d => inner d.1).map Ident.pos) (lowerDecls ds n).2.2 := by
  induction ds generalizing n with
  | nil => exact .nil
  | cons d ds ih =>
    rw [List.flatMap_cons, inner, List.map_append, List.map_append] at h ⊢
    obtain ⟨hd, hds, hdis⟩ := List.nodup_append'.1 h
    obtain ⟨hp, hb, hdis'⟩ := List.nodup_append'.1 hd
    exact ((distinct_bindParams _ d.1.params _ hp).append
      (distinct_lowerBody _ d.1.body _ hb) hdis').append (ih _ hds) hdis

theorem distinct_declareAll (accepted : Nat) (ds : List Decl) (n : Names)
    (h : ((ds.map Decl.name).map Ident.pos).Nodup) :
    AllDistinct ((ds.map Decl.name).map Ident.pos) (declareAll accepted ds n).2.2 := by
  induction ds generalizing accepted n with
  | nil => exact .nil
  | cons d ds ih =>
    obtain ⟨hd, hds⟩ := List.nodup_cons.1 h
    rw [declareAll]
    split
    · have hdis := List.singleton_disjoint.2 hd
      exact (AllDistinct.one (List.mem_singleton_self d.name.pos)).append (ih accepted n hds) hdis
    · exact (ih _ _ hds).mono (List.subset_cons_self ..)

end Resolution

open Resolution

/-- Resolution reports different mistakes, if the names are at different positions. -/
theorem Package.distinct_build (name : String) {files : List (List Decl)}
    (h : ((files.flatten.flatMap Decl.idents).map Ident.pos).Nodup) :
    AllDistinct ((files.flatten.flatMap Decl.idents).map Ident.pos) (build name files).2 := by
  let ds := files.flatten
  have hperm : (ds.map Decl.name ++ ds.flatMap inner).Perm (ds.flatMap Decl.idents) :=
    List.map_append_flatMap_perm ds Decl.name inner
  have hperm := hperm.map Ident.pos
  rw [List.map_append] at hperm
  obtain ⟨hnames, hinner, hdis⟩ := List.nodup_append'.1 (hperm.nodup_iff.2 h)
  -- Only the declarations that are kept are looked into.
  have hkept : ((declareAll 0 ds .initial).1.flatMap fun d => inner d.1).Sublist
      (ds.flatMap inner) := by
    rw [← List.flatMap_map Prod.fst inner]
    exact (sublist_declareAll 0 ds .initial).flatMap inner
  have hkept := hkept.map Ident.pos
  have hdecls := distinct_lowerDecls _ (declareAll 0 ds .initial).2.1 (hkept.nodup hinner)
  have hall := (distinct_declareAll 0 ds .initial hnames).append (hdecls.mono hkept.subset) hdis
  exact hall.mono hperm.subset

/-! ## Where nodes are -/

namespace Resolution

theorem scattered_lowerDecl {d : Decl} (h : d.Placed) (x : SymbolId) (n : Names) :
    Scattered d.pos.file none d.pos.span.start d.pos.span.stop (lowerDecl d x n).1.body.spots :=
  scattered_lowerBody _ _ h

/-- Declarations that do not overlap share no positions. -/
theorem nodup_spots_lowerDecls {ds : List (Decl × SymbolId)} (hs : Spread (ds.map Prod.fst))
    (n : Names) : ((lowerDecls ds n).1.flatMap fun d => d.body.spots).Nodup := by
  induction ds generalizing n with
  | nil => exact .nil
  | cons d ds ih =>
    have hrest := hs.of_sublist (List.sublist_cons_self ..)
    have hbody := scattered_lowerDecl (hs.placed d.1 List.mem_cons_self) d.2 n
    refine hbody.nodup.append (ih hrest _) fun q hq hq' => ?_
    obtain ⟨d', hd', hq'⟩ := List.mem_flatMap.1 hq'
    obtain ⟨e, he, hq'⟩ := contains_lowerDecls hrest (lowerDecl d.1 d.2 n).2.1 q
      (List.mem_flatMap.2 ⟨d', hd', d'.body.mem_spots.1 hq'⟩)
    have hbefore := List.rel_of_pairwise_cons hs.before he
    exact (hbefore.not_inside (hbody.near q hq).between hq').1 ⟨rfl, le_rfl, le_rfl⟩

end Resolution

/-! ## Types -/

namespace Typing

/-- The code of the report that two types disagree. -/
def mismatchCode : String := "E0004"

/-- What is reported about a node and the nodes inside it is at different positions or of different
kinds. A node at which two types were found to disagree has no type. -/
structure Once (n : Node) (ty : Option Ty) (ds : List Diagnostic) : Prop where
  distinct : AllDistinct n.spots ds
  untyped : ∀ d ∈ ds, d.code = mismatchCode → d.pos = n.pos → ty = none

section

variable {n : Node} {ty : Option Ty} {d : Diagnostic} {ds own : List Diagnostic}
  {places : List Pos} {pos : Pos}

theorem of_mem_expect {expected found : Option Ty} {context : Context}
    (h : d ∈ expect expected found context pos) :
    ∃ e f, expected = some e ∧ found = some f ∧ e ≠ f ∧ d = mismatch e f context pos := by
  unfold expect at h
  split at h
  · next e f =>
    split at h
    · cases h
    · next hne => exact ⟨e, f, rfl, rfl, hne, List.mem_singleton.1 h⟩
  · cases h

/-- Types that are reported have nothing in common. -/
theorem agreed_of_mem_expect {expected found : Option Ty} {context : Context}
    (h : d ∈ expect expected found context pos) : agreed expected found = none := by
  obtain ⟨e, f, rfl, rfl, hne, -⟩ := of_mem_expect h
  exact if_neg fun heq => hne (Option.some.inj heq)

theorem distinct_expect (expected found : Option Ty) (context : Context) (pos : Pos) :
    AllDistinct [pos] (expect expected found context pos) := by
  unfold expect
  split
  · split
    · exact .nil
    · exact .one (List.mem_singleton_self pos)
  · exact .nil

/-- What a form expects of a node is not reported by the node itself. -/
theorem Once.expect (h : Once n ty ds) (expected : Option Ty) (context : Context) :
    AllDistinct n.spots (ds ++ Typing.expect expected ty context n.pos) := by
  have hhere : [n.pos] ⊆ n.spots := List.cons_subset.2 ⟨n.pos_mem_spots, List.nil_subset _⟩
  refine h.distinct.join ((distinct_expect ..).mono hhere) fun d hd d' hd' hcode hpos => ?_
  obtain ⟨e, f, -, hty, -, rfl⟩ := of_mem_expect hd'
  cases hty.symm.trans (h.untyped d hd hcode hpos)

/-- A form reports at its own position what its operands do not. -/
theorem Once.close (hspots : n.spots = n.pos :: places) (h : n.spots.Nodup)
    (hds : AllDistinct places ds) (hown : AllDistinct [n.pos] own)
    (hty : ∀ d ∈ own, d.code = mismatchCode → ty = none) : Once n ty (ds ++ own) := by
  rw [hspots] at h
  have hnew := (List.nodup_cons.1 h).1
  refine ⟨hspots ▸ hds.behind hown hnew, fun d hd hcode hpos => ?_⟩
  rcases List.mem_append.1 hd with hd | hd
  · exact absurd (hpos ▸ hds.pos_mem d hd) hnew
  · exact hty d hd hcode

/-- A form that reports nothing at its own position. -/
theorem Once.inner (hspots : n.spots = n.pos :: places) (h : n.spots.Nodup)
    (hds : AllDistinct places ds) : Once n ty ds := by
  have hclose : Once n ty (ds ++ []) := .close hspots h hds .nil nofun
  rwa [List.append_nil] at hclose

/-- A binary operation reports two known types, and has no type then. -/
theorem binary_cases (op : BinaryOp) (lhs rhs : Option Ty) (pos : Pos) :
    (binary op lhs rhs pos).2 = [] ∧ (lhs = none → (binary op lhs rhs pos).1 = none) ∨
      lhs ≠ none ∧ (binary op lhs rhs pos).1 = none ∧
        ∃ expected found, (binary op lhs rhs pos).2 = [mismatch expected found .operand pos] := by
  unfold binary
  split
  · next l r =>
    split
    · exact .inr ⟨nofun, rfl, l, r, rfl⟩
    · dsimp only
      split
      · exact .inr ⟨nofun, rfl, _, l, rfl⟩
      · exact .inl ⟨rfl, nofun⟩
  · exact .inl ⟨rfl, fun _ => rfl⟩

/-- The operands of a chain and the operation behind them. If two types disagree at an operation of
the chain, all operations around it have no type. -/
theorem Once.binary {lhs rhs : Node} {op : BinaryOp} {old lty rty : Option Ty} {tag : Option Tag}
    {dl dr : List Diagnostic} (h : (Node.binary op lhs rhs old tag pos).spots.Nodup)
    (hl : lhs.spots.Nodup → Once lhs lty dl) (hr : rhs.spots.Nodup → Once rhs rty dr) :
    Once (.binary op lhs rhs old tag pos) (Typing.binary op lty rty pos).1
      (dl ++ dr ++ (Typing.binary op lty rty pos).2) := by
  have hpos := Node.pos_mem_spots (.binary op lhs rhs old tag pos)
  have hinner : (lhs.spots ++ rhs.spots).Sublist (Node.binary op lhs rhs old tag pos).spots := by
    rw [Node.spots]
    split
    · exact .refl _
    · exact List.sublist_cons_self ..
  obtain ⟨hlspots, hrspots, hdis⟩ := List.nodup_append'.1 (hinner.nodup h)
  have hl := hl hlspots
  have hr := hr hrspots
  have hds := hl.distinct.append hr.distinct hdis
  -- Only the first operand may be at the position of the chain.
  have huntyped : ∀ d ∈ dl ++ dr, d.code = mismatchCode → d.pos = pos → lty = none := by
    intro d hd hcode hd'
    rw [Node.spots] at h
    split at h
    · next heq =>
      rcases List.mem_append.1 hd with hd | hd
      · exact hl.untyped d hd hcode (hd'.trans heq.symm)
      · have hpos : d.pos ∈ lhs.spots := by
          rw [hd', ← heq]
          exact lhs.pos_mem_spots
        exact absurd (hr.distinct.pos_mem d hd) (hdis hpos)
    · exact absurd (hd' ▸ hds.pos_mem d hd) (List.nodup_cons.1 h).1
  rcases binary_cases op lty rty pos with ⟨hnil, hty⟩ | ⟨hlty, hty, expected, found, hone⟩
  · rw [hnil, List.append_nil]
    exact ⟨hds.mono hinner.subset, fun d hd hcode hd' => hty (huntyped d hd hcode hd')⟩
  · rw [hty, hone]
    refine ⟨(hds.mono hinner.subset).join (.one hpos) fun d hd d' hd' hcode hpos => ?_,
      fun _ _ _ _ => rfl⟩
    rw [List.mem_singleton.1 hd'] at hcode hpos
    exact hlty (huntyped d hd hcode hpos)

theorem distinct_written (wty unified : Option Ty) (pos : Pos) :
    AllDistinct [pos] (written wty unified pos).2 := by
  unfold written
  split
  · dsimp only
    exact distinct_expect ..
  · exact .nil

theorem written_of_mem {wty unified : Option Ty} (h : d ∈ (written wty unified pos).2) :
    (written wty unified pos).1 = none := by
  unfold written at h ⊢
  split at h
  · exact agreed_of_mem_expect h
  · cases h

theorem arguments_nil (index : Nat) (found : List (Option Ty × Pos)) :
    arguments index [] found = [] := by
  unfold arguments
  rfl

/-- A call reports a wrong number of arguments at its own position, and else what it expects of
the arguments. -/
theorem Once.call {name : String} {callee : DeclId} {args : List Node} {old : Option Ty}
    {found : List (Option Ty × Pos)} (h : (Node.call name callee args old pos).spots.Nodup)
    (hargs : ∀ expected, AllDistinct (Node.allSpots args) (ds ++ arguments 0 expected found))
    (sig : Signature) :
    Once (.call name callee args old pos) ty (ds ++ Typing.call sig found pos) := by
  unfold Typing.call
  split
  · exact .inner rfl h (hargs sig.params)
  · refine .close rfl h (hargs []).left (.one (List.mem_singleton_self pos)) fun d hd hcode => ?_
    rw [List.mem_singleton.1 hd] at hcode
    simp [Diagnostic.code, Kind.code, mismatchCode] at hcode

end

mutual

/-- Checking reports each mistake of a node once. -/
theorem once_check (sigs : Signatures) : ∀ (n : Node) (s : Symbols), n.spots.Nodup →
    Once n (check sigs n s).2.1 (check sigs n s).2.2.2
  | .const .., _, _ | .error .., _, _ | .read .., _, _ | .declare .., _, _ => ⟨.nil, nofun⟩
  | .binary op lhs rhs _ tag pos, s, h =>
    Once.binary h (once_check sigs lhs s) (once_check sigs rhs _)
  | .unary op operand _ pos, s, h => by
    have ho := once_check sigs operand s (List.nodup_cons.1 h).2
    exact .close rfl h ho.distinct (distinct_expect ..) fun _ hd _ => agreed_of_mem_expect hd
  | .ifThen test wty yes _ tag pos, s, h => by
    obtain ⟨ht, hy, hdis⟩ := List.nodup_append'.1 (List.nodup_cons.1 h).2
    have htest := (once_check sigs test s ht).expect (some .bool) .condition
    have hyes := (once_check sigs yes (check sigs test s).2.2.1 hy).distinct
    rw [← pos_check sigs test s] at htest
    exact .close rfl h (htest.append hyes hdis) (distinct_written ..) fun _ hd _ =>
      written_of_mem hd
  | .ifThenElse test wty yes no old tag pos, s, h => by
    obtain ⟨ht, h', hdis⟩ := List.nodup_append'.1 (List.nodup_cons.1 h).2
    obtain ⟨hy, hn, hdis'⟩ := List.nodup_append'.1 h'
    have htest := (once_check sigs test s ht).expect (some .bool) .condition
    have hyes := (once_check sigs yes (check sigs test s).2.2.1 hy).distinct
    have hno := (once_check sigs no (check sigs yes (check sigs test s).2.2.1).2.2.1 hn).expect
      (check sigs yes (check sigs test s).2.2.1).2.1 .branches
    rw [← pos_check sigs test s] at htest
    rw [← pos_check sigs no (check sigs yes (check sigs test s).2.2.1).2.2.1] at hno
    refine .close rfl h ((htest.append (hyes.append hno hdis') hdis).perm (.of_eq ?_))
      (distinct_written ..) fun _ hd _ => written_of_mem hd
    simp only [List.append_assoc]
  | .block nodes _ pos, s, h => by
    have hnodes := distinct_checkAll sigs nodes s (List.nodup_cons.1 h).2 0 []
    exact .inner rfl h hnodes.left
  | .assign _ target value _ pos, s, h => by
    have hvalue := once_check sigs value s (List.nodup_cons.1 h).2
    have hvalue := hvalue.expect ((check sigs value s).2.2.1.ty target) .assignment
    rw [← pos_check sigs value s] at hvalue
    exact .inner rfl h hvalue
  | .define _ _ wty init pos, s, h => by
    have hinit := (once_check sigs init s (List.nodup_cons.1 h).2).expect wty .initializer
    rw [← pos_check sigs init s] at hinit
    exact .inner rfl h hinit
  | .call name callee args _ pos, s, h => by
    have hargs := distinct_checkAll sigs args s (List.nodup_cons.1 h).2 0
    rw [check]
    dsimp only
    split
    · next sig _ => exact .call h hargs sig
    · exact .inner rfl h (hargs []).left

/-- Checking nodes reports each mistake in them, and in what is expected of them as arguments,
once. -/
theorem distinct_checkAll (sigs : Signatures) : ∀ (ns : List Node) (s : Symbols),
    (Node.allSpots ns).Nodup → ∀ (index : Nat) (expected : List (Option Ty)),
      AllDistinct (Node.allSpots ns)
        ((checkAll sigs ns s).2.2.2 ++ arguments index expected (checkAll sigs ns s).2.1)
  | [], _, _, _, [] | [], _, _, _, _ :: _ => .nil
  | n :: ns, s, h, index, [] => by
    obtain ⟨hn, hns, hdis⟩ := List.nodup_append'.1 h
    have hrest := distinct_checkAll sigs ns (check sigs n s).2.2.1 hns 0 []
    rw [arguments_nil, List.append_nil]
    exact (once_check sigs n s hn).distinct.append hrest.left hdis
  | n :: ns, s, h, index, e :: es => by
    obtain ⟨hn, hns, hdis⟩ := List.nodup_append'.1 h
    have hfirst := (once_check sigs n s hn).expect e (.argument index)
    have hrest := distinct_checkAll sigs ns (check sigs n s).2.2.1 hns (index + 1) es
    rw [← pos_check sigs n s] at hfirst
    -- The reports about the nodes come before those about the arguments.
    refine (hfirst.append hrest hdis).perm ?_
    dsimp only [checkAll, arguments]
    rw [List.append_assoc, List.append_assoc]
    exact .append_left _ (List.perm_append_comm_assoc ..)

end

/-- Checking declarations reports each mistake in them once. -/
theorem distinct_checkDecls (sigs : Signatures) (ds : List Declaration) (s : Symbols)
    (h : (ds.flatMap fun d => d.body.spots).Nodup) :
    AllDistinct (ds.flatMap fun d => d.body.spots) (checkDecls sigs ds s).2.2 := by
  induction ds generalizing s with
  | nil => exact .nil
  | cons d ds ih =>
    obtain ⟨hd, hds, hdis⟩ := List.nodup_append'.1 h
    have hbody := (once_check sigs d.body s hd).expect (some d.ret) .result
    rw [← pos_check sigs d.body s] at hbody
    exact hbody.append (ih _ hds) hdis

end Typing

/-! ## Both -/

/-- No code stands for a mistake in names and for one in types. -/
theorem Diagnostic.IsNaming.differs {d e : Diagnostic} (hd : d.IsNaming) (he : e.IsTyping) :
    d.Differs e := by
  obtain ⟨kind, pos⟩ := d
  obtain ⟨kind', pos'⟩ := e
  intro hcode
  cases kind' with
  | typeMismatch | arityMismatch =>
    cases kind <;> simp [IsNaming, Diagnostic.code, Kind.code] at hd hcode
  | _ => cases he

namespace Package

/-- Checking reports different mistakes, if the declarations do not overlap. -/
theorem differ_check (name : String) {files : List (List Decl)} (h : Spread files.flatten) :
    ((build name files).1.check (stage_build name files)).2.Pairwise Differs := by
  have hkept := h.of_sublist (sublist_declareAll 0 files.flatten .initial)
  have hspots := nodup_spots_lowerDecls hkept (declareAll 0 files.flatten .initial).2.1
  exact (Typing.distinct_checkDecls _ _ _ hspots).differ

/-- **No mistake is reported twice.** Any two reports about files with different numbers, those of
building first and then those of checking, are of different kinds or at different positions. Kinds
are told apart by their codes here: not even two mismatches of different types share a position. -/
theorem reported_once (name : String) {sources : List (FileId × String)}
    (h : (sources.map Prod.fst).Nodup) :
    (reports name (Parse.files sources)).Pairwise fun d e => d.code = e.code → d.pos ≠ e.pos := by
  refine List.pairwise_append.2 ⟨?_, ?_, fun d hd e he => ?_⟩
  · exact (distinct_build name (Parse.nodup_idents h)).differ
  · exact differ_check name (Parse.spread_files h)
  · exact ((all_build name _).of_mem d hd).differs ((all_check _ _).of_mem e he)

/-- Types disagree at the first operation of a chain, and so the operation behind it is not reported
at the same position. Nor is the inner `if` reported as a branch of the outer one, for it does not
have the type written on it. -/
theorem reported_once_chain :
    let sources := [((⟨0⟩ : FileId), "(decl f int (+ 1 true x 3))"),
      (⟨1⟩, "(decl f bool true)(decl h int (if 1 true (if true bool (f 2) 2)))")]
    (reports "p" (Parse.files sources)).map (fun d => (d.code, d.pos.file.index, d.pos.span)) =
        [("E0003", 1, ⟨6, 7⟩), ("E0002", 0, ⟨22, 23⟩), ("E0004", 0, ⟨12, 26⟩),
          ("E0004", 1, ⟨34, 35⟩), ("E0005", 1, ⟨55, 60⟩), ("E0004", 1, ⟨41, 63⟩)] ∧
      (reports "p" (Parse.files sources)).Pairwise fun d e => d.code = e.code → d.pos ≠ e.pos :=
  ⟨by decide +kernel, reported_once "p" (by decide)⟩

end Package

end CalcLang
