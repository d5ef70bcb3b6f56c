import CalcLang.Proofs.Pruning
import CalcLang.Proofs.Renumbering
import CalcLang.Proofs.Subjects

/-!
# Diagnostics of single declarations

A declaration sees of the others what stands in front of their bodies: `Package.alone` resolves it
by itself among the names of all declarations. What building and checking report is what they report
about each declaration by itself (`Package.reports_eq`), and this does not depend on the order of
the declarations, nor on the bodies of others (`Package.diagnostics_are_modular`).
-/

namespace CalcLang

open Lexical

/-! ## Symbols of a declaration -/

/-- Numbers that are larger by `j`. -/
def Renumbering.shift (j : Nat) : Renumbering where
  symbol x := ⟨x.index + j⟩
  decl := id
  injective x y h := by
    have hindex : x.index + j = y.index + j := congrArg SymbolId.index h
    obtain ⟨x⟩ := x
    obtain ⟨y⟩ := y
    exact congrArg SymbolId.mk (Nat.add_right_cancel hindex)

/-- From the number `k` on, a table has symbols with the types of `own`. -/
structure Symbols.Holds (s : Symbols) (k : Nat) (own : List Symbol) : Prop where
  size : k + own.length ≤ s.size
  ty : ∀ (i : Nat) (e : Symbol), own[i]? = some e → s.ty ⟨k + i⟩ = e.ty

namespace Symbols.Holds

variable {s : Symbols} {k : Nat} {own own' : List Symbol}

theorem of_append (before : List Symbol) (h : s.toList = before ++ own) :
    s.Holds before.length own := by
  refine ⟨?_, fun i e he => ?_⟩
  · rw [← Array.length_toList, h, List.length_append]
  · rw [Symbols.ty, Symbols.get?, ← Array.getElem?_toList, h, List.getElem?_append_right (by simp),
      Nat.add_sub_cancel_left, he]
    rfl

theorem left (h : s.Holds k (own ++ own')) : s.Holds k own := by
  refine ⟨?_, fun i e he => h.ty i e ?_⟩
  · have := h.size
    rw [List.length_append] at this
    omega
  · rw [List.getElem?_append_left (List.getElem?_eq_some_iff.1 he).1, he]

theorem right (h : s.Holds k (own ++ own')) : s.Holds (k + own.length) own' := by
  refine ⟨?_, fun i e he => ?_⟩
  · have := h.size
    rw [List.length_append] at this
    omega
  · rw [Nat.add_assoc]
    refine h.ty (own.length + i) e ?_
    rw [List.getElem?_append_right (Nat.le_add_right ..), Nat.add_sub_cancel_left, he]

end Symbols.Holds

mutual

theorem Node.introductions_renumber (r : Renumbering) : ∀ n : Node,
    (n.renumber r).introductions = n.introductions.map fun v => (r.symbol v.1, v.2)
  | .const .. | .error .. | .read .. | .declare .. => rfl
  | .binary _ lhs rhs .. => by
    simp [renumber, introductions, lhs.introductions_renumber r, rhs.introductions_renumber r]
  | .unary _ operand .. => operand.introductions_renumber r
  | .call _ _ args .. => Node.allIntroductions_allRenumber r args
  | .ifThen test _ yes .. => by
    simp [renumber, introductions, test.introductions_renumber r, yes.introductions_renumber r]
  | .ifThenElse test _ yes no .. => by
    simp [renumber, introductions, test.introductions_renumber r, yes.introductions_renumber r,
      no.introductions_renumber r]
  | .block nodes .. => Node.allIntroductions_allRenumber r nodes
  | .assign _ _ value .. => value.introductions_renumber r
  | .define _ x written init _ => by
    simp [renumber, introductions, init.introductions_renumber r]

theorem Node.allIntroductions_allRenumber (r : Renumbering) : ∀ ns : List Node,
    Node.allIntroductions (Node.allRenumber r ns) =
      (Node.allIntroductions ns).map fun v => (r.symbol v.1, v.2)
  | [] => rfl
  | n :: ns => by
    simp [allRenumber, allIntroductions, n.introductions_renumber r,
      Node.allIntroductions_allRenumber r ns]

end

/-- The positions of the names and expressions in a declaration. -/
def Decl.spots (d : Decl) : List Pos := d.idents.map Ident.pos ++ d.body.places

/-! ## Declarations by themselves -/

namespace Package

/-- The point outside of declarations, before anything in them has been resolved. -/
def outside (ds : List Decl) : Point := outermost (number 0 ds)

/-- A declaration resolved by itself, where the names of `ds` are bound. -/
def alone (ds : List Decl) (d : Decl) : Outcome Function := resolveDecl d ⟨0⟩ (outside ds)

/-- The symbols of the parameters and vars of a declaration. -/
def own (ds : List Decl) (d : Decl) : List Symbol := (alone ds d).2.1.symbols.drop ds.length

/-- What can be called: the signatures of declarations. -/
def heads (ds : List Decl) : Typing.Signatures :=
  ds.map fun d => ⟨d.name.name, d.params.map fun p => some p.ty.ty, d.ret.ty⟩

/-- What resolution reports about the inside of a declaration. -/
def nameReports (ds : List Decl) (d : Decl) : List Diagnostic := (alone ds d).2.2

/-- What checking reports about a declaration. -/
def typeReports (ds : List Decl) (d : Decl) : List Diagnostic :=
  let checked := Typing.check (heads ds) (alone ds d).1.body (alone ds d).2.1.symbols.toArray
  checked.2.2.2 ++ Typing.expect (some d.ret.ty) checked.2.1 .result (alone ds d).1.body.pos

section Alone

variable {ds : List Decl} {d : Decl}

theorem length_outside : (outside ds).symbols.length = ds.length := by
  simp [outside, outermost, number]

theorem Binding.alike_declaration {r : Renumbering} (hr : r.decl = id) {b : Binding} {i : DeclId}
    (h : b.symbol.kind = .declaration i) : b.Alike r b :=
  ⟨rfl, fun j hj => by rw [hj, hr]; rfl, fun hn => by simp [Symbol.declaration?, h] at hn⟩

/-- The names of declarations stand for the same wherever the numbering of other symbols starts. -/
theorem alike_outside {j : Nat} {p : Point} (hframes : p.frames = (outside ds).frames)
    (hlength : p.symbols.length = ds.length + j) : (outside ds).Alike (.shift j) p := by
  refine ⟨?_, fun i => ?_⟩
  · rw [hframes]
    refine .cons (fun name => ?_) .nil
    let bindings := (number 0 ds).map fun d => (d.1.name.name, Binding.mk d.2 (symbolOf d))
    change Option.Rel (Binding.Alike (.shift j)) (bindings.lookup name) (bindings.lookup name)
    cases hb : bindings.lookup name with
    | none => exact .none
    | some b =>
      obtain ⟨before, after, hmem, -⟩ := List.lookup_eq_some_iff.1 hb
      obtain ⟨d, -, heq⟩ := List.mem_map.1 (hmem ▸ List.mem_append_right before List.mem_cons_self)
      cases heq
      exact .some (Binding.alike_declaration rfl rfl)
  · rw [hlength, length_outside]
    simp only [Renumbering.shift, SymbolId.mk.injEq]
    omega

theorem symbols_alone (ds : List Decl) (d : Decl) :
    (alone ds d).2.1.symbols = (outside ds).symbols ++ own ds d := by
  have h := resolveDecl_matches (@alike_outside ds 0 _ rfl length_outside) d ⟨0⟩ ⟨0⟩
  obtain ⟨own', hown, -⟩ := h.steps.added
  have halone : (alone ds d).2.1.symbols = (outside ds).symbols ++ own' := hown
  rw [own, halone, ← length_outside, List.drop_left]

/-- Declarations as they are resolved one after the other, the symbols of the first one numbered
from `ds.length + j` on. -/
def inOrder (ds : List Decl) (j : Nat) : List (Decl × SymbolId) → List Function
  | [] => []
  | e :: es =>
    (alone ds e.1).1.renumber (.shift j) e.2 :: inOrder ds (j + (own ds e.1).length) es

/-- Declarations are resolved as each of them is by itself. -/
theorem resolveDecls_inOrder {j : Nat} {p : Point} (hframes : p.frames = (outside ds).frames)
    (hlength : p.symbols.length = ds.length + j) (es : List (Decl × SymbolId)) :
    (resolveDecls es p).1 = inOrder ds j es ∧
      (resolveDecls es p).2.1.symbols = p.symbols ++ es.flatMap (fun e => own ds e.1) ∧
      (resolveDecls es p).2.2 = es.flatMap fun e => nameReports ds e.1 := by
  induction es generalizing j p with
  | nil => exact ⟨rfl, (List.append_nil _).symm, rfl⟩
  | cons e es ih =>
    have halike := alike_outside hframes hlength
    have hd := resolveDecl_matches halike e.1 ⟨0⟩ e.2
    obtain ⟨own', hown, hsymbols⟩ := hd.steps.added
    obtain rfl : own ds e.1 = own' :=
      List.append_cancel_left ((symbols_alone ds e.1).symm.trans hown)
    have hlength' : (resolveDecl e.1 e.2 p).2.1.symbols.length =
        ds.length + (j + (own ds e.1).length) := by
      rw [hsymbols, List.length_append, hlength, Nat.add_assoc]
    obtain ⟨hfunctions, hsymbols', hreports⟩ :=
      ih ((frames_resolveDecl halike e.1 e.2).trans hframes) hlength'
    refine ⟨?_, ?_, ?_⟩
    · exact congr (congrArg List.cons hd.value) hfunctions
    · rw [resolveDecls, List.flatMap_cons, ← List.append_assoc, ← hsymbols]
      exact hsymbols'
    · rw [resolveDecls, List.flatMap_cons, nameReports]
      exact congr (congrArg _ hd.reports) hreports

theorem within_of_get? {n n' : Resolution.Names} {scope : ScopeId}
    {added : ScopeTable.Bindings} (hg : n.Grows scope n' added)
    (hn : ∀ (y : SymbolId) (e : Symbol), n.symbols.get? y = some e → ∃ id, e.kind = .declaration id)
    {x : SymbolId} {e : Symbol} (he : n'.symbols.get? x = some e)
    (hkind : ∀ id, e.kind ≠ .declaration id) : x.Within n.symbols.size n'.symbols.size := by
  refine ⟨Nat.not_lt.1 fun hlt => ?_, (Array.getElem?_eq_some_iff.1 he).1⟩
  obtain ⟨id, hid⟩ := hn x e ((hg.symbols _ hlt).symm.trans he)
  exact hkind id hid

/-- What a declaration refers to are its own symbols. -/
theorem within_alone {ref : Reference} {x : SymbolId} (hx : ref.symbol? = some x)
    (hmem : ref ∈ (alone ds d).1.params.map (.owns .param) ++ (alone ds d).1.body.references) :
    x.Within ds.length (alone ds d).2.1.symbols.length := by
  have hmirrors := Resolution.mirrors_declared ds
  obtain ⟨d', n', p', diags, hl, hr, hf⟩ := Resolution.lowerDecl_agrees hmirrors d ⟨0⟩
  have hlowers :=
    Resolution.lowerDecl_lowers (Resolution.sound_declared ds) hmirrors.index_lt d ⟨0⟩
  have halone : alone ds d = (d'.function, p', diags) := hr
  obtain ⟨_, _, added, -, -, hg, hsymbols, -⟩ := hf
  have hdeclared : ∀ (y : SymbolId) (e : Symbol),
      (Resolution.declared ds).symbols.get? y = some e → ∃ id, e.kind = .declaration id := by
    intro y e he
    rw [Resolution.get?_declared, Option.map_eq_some_iff] at he
    obtain ⟨d, -, rfl⟩ := he
    exact ⟨_, rfl⟩
  have hsize : (Resolution.declared ds).symbols.size = ds.length := by
    simp [Resolution.declared, length_number]
  rw [hl] at hlowers
  rw [halone] at hmem ⊢
  rw [← hsize, ← hsymbols, Array.length_toList]
  have hres := hlowers.resolves ref hmem
  cases ref with
  | calls => cases hx
  | uses name y =>
    cases hx
    obtain ⟨e, he, -, hkind⟩ := hres
    refine within_of_get? hg hdeclared he fun id hid => ?_
    rcases hkind with hkind | hkind <;> cases hid.symm.trans hkind
  | owns kind y =>
    cases hx
    refine hlowers.within x (List.mem_filterMap.2 ⟨_, hmem, rfl⟩)

/-- The references of a declaration and of its body. -/
def refs (ds : List Decl) (d : Decl) : List Reference :=
  (alone ds d).1.params.map (.owns .param) ++ (alone ds d).1.body.references

/-- By itself a declaration has its own symbols behind those of the declarations. -/
theorem holds_alone (ds : List Decl) (d : Decl) :
    Symbols.Holds (alone ds d).2.1.symbols.toArray ds.length (own ds d) := by
  have h := Symbols.Holds.of_append (s := (alone ds d).2.1.symbols.toArray) _ (symbols_alone ds d)
  rwa [length_outside] at h

/-- A table that holds the symbols of a declaration has what the declaration refers to. -/
theorem alike_of_holds {r : Renumbering} {s : Symbols} {k : Nat}
    (hr : ∀ i, r.symbol ⟨ds.length + i⟩ = ⟨k + i⟩) (h : s.Holds k (own ds d)) :
    Symbols.Alike r (refs ds d) (alone ds d).2.1.symbols.toArray s := by
  have halone := holds_alone ds d
  have hwithin : ∀ ref ∈ refs ds d, ∀ x, ref.symbol? = some x →
      ∃ i e, (own ds d)[i]? = some e ∧ x = ⟨ds.length + i⟩ := by
    intro ref hmem x hx
    obtain ⟨hle, hlt⟩ := within_alone hx hmem
    rw [symbols_alone, List.length_append, length_outside] at hlt
    have hi : x.index - ds.length < (own ds d).length := by omega
    exact ⟨_, _, List.getElem?_eq_getElem hi, congrArg SymbolId.mk (by omega)⟩
  refine ⟨fun ref hmem x hx => ?_, fun ref hmem x hx => ?_⟩
  · obtain ⟨i, e, he, rfl⟩ := hwithin ref hmem x hx
    have hi := (List.getElem?_eq_some_iff.1 he).1
    have hsize := h.size
    have hsize' := halone.size
    rw [hr]
    dsimp only
    omega
  · obtain ⟨i, e, he, rfl⟩ := hwithin ref hmem x hx
    rw [halone.ty i e he, hr, h.ty i e he]

/-- A declaration is checked as it is by itself. -/
theorem check_alone {r : Renumbering} {sigs : Typing.Signatures} {s : Symbols} {k : Nat}
    (hsigs : ∀ id : DeclId, sigs[(r.decl id).index]? = (heads ds)[id.index]?)
    (hr : ∀ i, r.symbol ⟨ds.length + i⟩ = ⟨k + i⟩) (h : s.Holds k (own ds d)) :
    let checked := Typing.check sigs ((alone ds d).1.body.renumber r) s
    checked.2.2.2 ++ Typing.expect (some d.ret.ty) checked.2.1 .result checked.1.pos =
      typeReports ds d := by
  have hmatches := Typing.check_matches hsigs (alone ds d).1.body (alike_of_holds hr h)
    (List.subset_append_right ..)
  simp only [typeReports, hmatches.ty, hmatches.reports, Typing.pos_check, Node.pos_renumber]

/-- To check a declaration changes no types of symbols behind its own. -/
theorem holds_check {s : Symbols} {j : Nat} {behind : List Symbol}
    (h : s.Holds (ds.length + j) (own ds d ++ behind)) (sigs : Typing.Signatures) :
    (Typing.check sigs ((alone ds d).1.body.renumber (.shift j)) s).2.2.1.Holds
      (ds.length + (j + (own ds d).length)) behind := by
  have hbehind := h.right
  rw [Nat.add_assoc] at hbehind
  refine ⟨by rw [Typing.size_check]; exact hbehind.size, fun i e he => ?_⟩
  rw [Typing.ty_check_of_notMem, hbehind.ty i e he]
  intro hmem
  rw [Node.introductions_renumber, List.map_map] at hmem
  obtain ⟨v, hv, heq⟩ := List.mem_map.1 hmem
  have howned : v.1 ∈ Resolution.owned (alone ds d).1.body.references :=
    Node.map_fst_introductions _ ▸ List.mem_map_of_mem hv
  obtain ⟨ref, href, hx⟩ := List.mem_filterMap.1 howned
  have hsymbol : ref.symbol? = some v.1 := by
    cases ref with
    | owns => exact hx
    | _ => cases hx
  have hlt := (within_alone hsymbol (List.mem_append_right _ href)).2
  have hindex : v.1.index + j = ds.length + (j + (own ds d).length) + i :=
    congrArg SymbolId.index heq
  rw [symbols_alone, List.length_append, length_outside] at hlt
  omega

/-- Declarations are checked as each of them is by itself. -/
theorem checkDecls_inOrder {decls : List Declaration} {es : List (Decl × SymbolId)} {j : Nat}
    {s : Symbols} (hdecls : decls.map Declaration.function = inOrder ds j es)
    (h : s.Holds (ds.length + j) (es.flatMap fun e => own ds e.1)) :
    (Typing.checkDecls (heads ds) decls s).2.2 = es.flatMap fun e => typeReports ds e.1 := by
  induction es generalizing decls j s with
  | nil =>
    obtain rfl := List.map_eq_nil_iff.1 hdecls
    rfl
  | cons e es ih =>
    obtain ⟨d, decls, rfl, hd, hdecls⟩ := List.map_eq_cons_iff.1 hdecls
    rw [List.flatMap_cons] at h
    have hret : d.ret = e.1.ret.ty := congrArg Function.ret hd
    have hbody : d.body = (alone ds e.1).1.body.renumber (.shift j) := congrArg Function.body hd
    have hcheck := check_alone (r := .shift j) (fun _ => rfl)
      (fun i => congrArg SymbolId.mk (Nat.add_right_comm ..)) h.left
    have hrest := ih hdecls (holds_check h (heads ds))
    rw [← hbody] at hcheck hrest
    rw [Typing.checkDecls, List.flatMap_cons, ← hcheck, ← hrest, hret]

/-- The symbol of a parameter. -/
def paramSymbol (p : Param) : Symbol := ⟨p.name.name, .param, some p.ty.ty, none, p.name.pos⟩

theorem symbols_bind (p : Point) (ident : Ident) (kind : SymbolKind) (ty : Option Ty) :
    (p.bind ident kind ty).1.symbols = p.symbols ++ [⟨ident.name, kind, ty, none, ident.pos⟩] := by
  unfold Point.bind
  split
  · rfl
  · split
    · rfl
    · rfl

theorem resolveParams_eq (ps : List Param) (p : Point) :
    (resolveParams ps p).1 = (List.range' p.symbols.length ps.length).map SymbolId.mk ∧
      (resolveParams ps p).2.1.symbols = p.symbols ++ ps.map paramSymbol := by
  induction ps generalizing p with
  | nil => exact ⟨rfl, (List.append_nil _).symm⟩
  | cons param ps ih =>
    obtain ⟨hparams, hsymbols⟩ := ih (p.bind param.name .param (some param.ty.ty)).1
    rw [symbols_bind] at hparams hsymbols
    refine ⟨?_, ?_⟩
    · rw [List.length_append, List.length_singleton] at hparams
      rw [resolveParams, List.length_cons, List.range'_succ, List.map_cons, ← hparams]
    · rw [resolveParams, List.map_cons, ← List.singleton_append, ← List.append_assoc]
      exact hsymbols

/-- The symbols of a declaration start with those of its parameters. -/
theorem own_eq (ds : List Decl) (d : Decl) :
    ∃ vars, own ds d = d.params.map paramSymbol ++ vars := by
  have hp := resolveParams_matches (@alike_outside ds 0 _ rfl length_outside).enter d.params
  obtain ⟨vars, hvars, -⟩ := (resolveBody_matches hp.steps.alike d.body).steps.added
  refine ⟨vars, ?_⟩
  have halone : (alone ds d).2.1.symbols = _ := hvars
  rw [(resolveParams_eq d.params _).2, symbols_alone, List.append_assoc] at halone
  exact List.append_cancel_left halone

/-- The parameters of a declaration have the types that are written on them. -/
theorem ty_params {s : Symbols} {j : Nat} (h : s.Holds (ds.length + j) (own ds d)) :
    ((alone ds d).1.params.map (Renumbering.shift j).symbol).map s.ty =
      d.params.map fun p => some p.ty.ty := by
  obtain ⟨vars, hown⟩ := own_eq ds d
  have hparams : (alone ds d).1.params = _ := (resolveParams_eq d.params (outside ds).enter).1
  have hlength : (outside ds).enter.symbols.length = ds.length := length_outside
  rw [hparams, hlength]
  refine List.ext_getElem (by simp) fun i hi hi' => ?_
  rw [List.length_map] at hi'
  have hty := h.ty i (paramSymbol d.params[i]) (by
    rw [hown, List.getElem?_append_left (by rwa [List.length_map]), List.getElem?_map,
      List.getElem?_eq_getElem hi']
    rfl)
  simp only [List.getElem_map, List.getElem_range', Renumbering.shift, Nat.one_mul,
    Nat.add_right_comm]
  exact hty

/-- Checking goes by the signatures that are written. -/
theorem signatures_inOrder {decls : List Declaration} {es : List (Decl × SymbolId)} {j : Nat}
    {s : Symbols} (hdecls : decls.map Declaration.function = inOrder ds j es)
    (h : s.Holds (ds.length + j) (es.flatMap fun e => own ds e.1)) :
    Typing.signatures s decls = heads (es.map Prod.fst) := by
  induction es generalizing decls j with
  | nil =>
    obtain rfl := List.map_eq_nil_iff.1 hdecls
    rfl
  | cons e es ih =>
    obtain ⟨d, decls, rfl, hd, hdecls⟩ := List.map_eq_cons_iff.1 hdecls
    rw [List.flatMap_cons] at h
    have hname : d.name = e.1.name.name := congrArg Function.name hd
    have hret : d.ret = e.1.ret.ty := congrArg Function.ret hd
    have hparams : d.params = _ := congrArg Function.params hd
    have hright := h.right
    rw [Nat.add_assoc] at hright
    refine congr (congrArg List.cons ?_) (ih hdecls hright)
    have hty := ty_params h.left
    dsimp only
    rw [hname, hret, ← hty, hparams]
    rfl

end Alone

/-- **Diagnostics are those of single declarations**, each of which sees the others from outside
only. Of declarations of one name the first one is kept. -/
theorem reports_eq (name : String) (files : List (List Decl)) :
    let kept := firsts [] files.flatten
    reports name files = repeats [] files.flatten ++ kept.flatMap (nameReports kept) ++
      kept.flatMap (typeReports kept) := by
  intro kept
  have hflat : ∀ {α : Type} (f : Decl → List α),
      ((number 0 kept).flatMap fun e => f e.1) = kept.flatMap f := fun f => by
    rw [← List.flatMap_map Prod.fst f, map_fst_number]
  obtain ⟨hfunctions, hsymbols, hnames⟩ := Resolution.lowerDecls_declared kept
  obtain ⟨horder, hown, hreports⟩ :=
    @resolveDecls_inOrder kept 0 (outside kept) rfl length_outside (number 0 kept)
  have hbuilt := build_eq_firsts name files
  have hdecls : (build name files).1.decls.map Declaration.function =
      inOrder kept 0 (number 0 kept) := by
    rw [hbuilt]
    exact hfunctions.trans horder
  have hholds : (build name files).1.symbols.Holds (kept.length + 0)
      ((number 0 kept).flatMap fun e => own kept e.1) := by
    rw [hbuilt, ← length_outside]
    exact .of_append _ (hsymbols.trans hown)
  have hchecked := checkDecls_inOrder hdecls hholds
  rw [← map_fst_number 0 kept, ← signatures_inOrder hdecls hholds, map_fst_number] at hchecked
  have hnamed : (build name files).2 =
      repeats [] files.flatten ++ kept.flatMap (nameReports kept) := by
    rw [hbuilt, ← hflat, ← hreports]
    exact congrArg _ hnames
  exact congr (congrArg _ hnamed) (hchecked.trans (hflat _))

/-! ## Where the reports are -/

section Places

variable (ds : List Decl) (d : Decl)

theorem nameReports_here : ∀ x ∈ nameReports ds d, x.pos ∈ d.spots := by
  obtain ⟨d', n', p', diags, hl, hr, -⟩ :=
    Resolution.lowerDecl_agrees (Resolution.mirrors_declared ds) d ⟨0⟩
  have habout := @Resolution.about_lowerDecls d.idents [(d, ⟨0⟩)] (Resolution.declared ds)
    (List.forall_mem_singleton.2 (List.Subset.refl _))
  have halone : alone ds d = (d'.function, p', diags) := hr
  rw [Resolution.lowerDecls, hl] at habout
  rw [nameReports, halone]
  intro x hx
  obtain ⟨y, hy, hpos, -⟩ := habout.of_mem x (List.mem_append_left _ hx)
  exact List.mem_append_left _ (hpos ▸ List.mem_map_of_mem hy)

theorem typeReports_here : ∀ x ∈ typeReports ds d, x.pos ∈ d.spots := by
  obtain ⟨d', n', p', diags, hl, hr, -⟩ :=
    Resolution.lowerDecl_agrees (Resolution.mirrors_declared ds) d ⟨0⟩
  have hplaces := Resolution.places_lowerDecls (P := (· ∈ d.spots)) [(d, ⟨0⟩)]
    (Resolution.declared ds)
    (List.forall_mem_singleton.2 fun q hq => List.mem_append_right _ hq)
  have halone : alone ds d = (d'.function, p', diags) := hr
  rw [Resolution.lowerDecls, hl] at hplaces
  have hbody := List.forall_mem_singleton.1 hplaces
  rw [typeReports, halone]
  have hall := (Typing.all_check (heads ds) d'.body p'.symbols.toArray (List.Subset.refl _)).append
    (Typing.all_expect (some d.ret.ty)
      (Typing.check (heads ds) d'.body p'.symbols.toArray).2.1 .result d'.body.pos_mem_positions)
  exact fun x hx => hbody _ (hall.of_mem x hx).pos_mem

end Places

/-! ## Other orders -/

section Orders

variable {ds ds' : List Decl}

/-- No two declarations have the same name. -/
def Distinct (ds : List Decl) : Prop := (ds.map fun d => d.name.name).Nodup

instance (ds : List Decl) : Decidable (Distinct ds) := inferInstanceAs (Decidable (List.Nodup _))

theorem firsts_eq_self {earlier : List Decl} (h : Distinct (earlier ++ ds)) :
    firsts earlier ds = ds ∧ repeats earlier ds = [] := by
  induction ds generalizing earlier with
  | nil => exact ⟨rfl, rfl⟩
  | cons d ds ih =>
    have hnone : earlier.find? (sameName d) = none := by
      refine List.find?_eq_none.2 fun e he hsame => ?_
      rw [Distinct, List.map_append] at h
      refine List.disjoint_of_nodup_append h (List.mem_map_of_mem he) ?_
      rw [← beq_iff_eq.1 hsame]
      exact List.mem_cons_self
    rw [List.append_cons] at h
    obtain ⟨hfirsts, hrepeats⟩ := ih h
    rw [firsts, repeats, hnone]
    exact ⟨congrArg (d :: ·) hfirsts, hrepeats⟩

/-- A declaration is where its name is. -/
theorem findIdx_sameName (h : Distinct ds) {i : Nat} {d : Decl} (hd : ds[i]? = some d) :
    ds.findIdx (sameName d) = i := by
  obtain ⟨hi, rfl⟩ := List.getElem?_eq_some_iff.1 hd
  refine (List.findIdx_eq hi).2 ⟨beq_self_eq_true _, fun j hji => ?_⟩
  refine beq_eq_false_iff_ne.2 fun hname => ?_
  have hij : i = j := by
    have := @List.Nodup.getElem_inj_iff _ _ h i (by simpa using hi) j (by simp; omega)
    exact this.1 (by simpa using hname)
  omega

/-- The numbers that declarations have in another order. -/
def reorder (ds ds' : List Decl) : Renumbering where
  symbol := id
  decl i :=
    match ds[i.index]? with
    | some d => ⟨ds'.findIdx (sameName d)⟩
    | none => i
  injective := Function.injective_id

theorem decl_reorder (h' : Distinct ds') {i i' : Nat} {d : Decl} (hd : ds[i]? = some d)
    (hd' : ds'[i']? = some d) : (reorder ds ds').decl ⟨i⟩ = ⟨i'⟩ := by
  simp only [reorder, hd, findIdx_sameName h' hd']

theorem heads_reorder (h' : Distinct ds') (hperm : ds.Perm ds') (id : DeclId) :
    (heads ds')[((reorder ds ds').decl id).index]? = (heads ds)[id.index]? := by
  obtain ⟨i⟩ := id
  rw [heads, heads, List.getElem?_map, List.getElem?_map]
  cases hd : ds[i]? with
  | some d =>
    obtain ⟨i', hd'⟩ := List.mem_iff_getElem?.1 (hperm.subset (List.mem_of_getElem? hd))
    rw [decl_reorder h' hd hd', hd']
  | none =>
    have hle := List.getElem?_eq_none_iff.1 hd
    rw [hperm.length_eq] at hle
    simp only [reorder, hd, List.getElem?_eq_none_iff.2 hle]

/-- What a name stands for outside of declarations. -/
theorem lookup_outside (h : Distinct ds) {i : Nat} {d : Decl} (hd : ds[i]? = some d) :
    ((number 0 ds).map fun e => (e.1.name.name, Binding.mk e.2 (symbolOf e))).lookup d.name.name =
      some ⟨⟨i⟩, symbolOf (d, ⟨i⟩)⟩ := by
  have hmem : (d, SymbolId.mk i) ∈ number 0 ds := by
    refine List.mem_map.2 ⟨(d, i), ?_, rfl⟩
    exact List.mem_zipIdx_iff_getElem?.2 hd
  have hnodup : ((number 0 ds).map fun e => e.1.name.name).Nodup := by
    rw [map_name_number]
    exact h
  exact ScopeTable.lookup_map_of_nodup hnodup hmem

theorem alike_reorder (h : Distinct ds) (h' : Distinct ds') (hperm : ds.Perm ds') :
    (outside ds).Alike (reorder ds ds') (outside ds') := by
  refine ⟨.cons (fun name => ?_) .nil, fun i => ?_⟩
  · by_cases hname : ∃ d ∈ ds, d.name.name = name
    · obtain ⟨d, hmem, rfl⟩ := hname
      obtain ⟨i, hd⟩ := List.mem_iff_getElem?.1 hmem
      obtain ⟨i', hd'⟩ := List.mem_iff_getElem?.1 (hperm.subset hmem)
      rw [lookup_outside h hd, lookup_outside h' hd']
      refine .some ⟨rfl, fun id hid => ?_, fun hnone => by cases hnone⟩
      cases hid
      rw [decl_reorder h' hd hd']
      rfl
    · have hnone : ∀ es : List Decl, (∀ d ∈ es, d ∈ ds) →
          ((number 0 es).map fun e => (e.1.name.name, Binding.mk e.2 (symbolOf e))).lookup name =
            none := by
        intro es hes
        refine List.lookup_eq_none_iff.2 fun b hb => bne_iff_ne.2 fun heq => hname ?_
        obtain ⟨e, he, rfl⟩ := List.mem_map.1 hb
        exact ⟨e.1, hes _ (map_fst_number 0 es ▸ List.mem_map_of_mem he), heq.symm⟩
      rw [hnone ds fun _ hd => hd, hnone ds' fun _ hd => hperm.symm.subset hd]
      exact .none
  · rw [length_outside, length_outside, hperm.length_eq]
    rfl

/-- What is reported about a declaration by itself does not depend on the order of the others. -/
theorem reports_reorder (h : Distinct ds) (h' : Distinct ds') (hperm : ds.Perm ds') (d : Decl) :
    nameReports ds' d = nameReports ds d ∧ typeReports ds' d = typeReports ds d := by
  have halone := resolveDecl_matches (alike_reorder h h' hperm) d ⟨0⟩ ⟨0⟩
  have hbody : (alone ds' d).1.body = (alone ds d).1.body.renumber (reorder ds ds') :=
    congrArg Function.body halone.value
  obtain ⟨own', hown, hown'⟩ := halone.steps.added
  have hsame : own ds' d = own ds d :=
    (List.append_cancel_left ((symbols_alone ds' d).symm.trans hown')).trans
      (List.append_cancel_left (hown.symm.trans (symbols_alone ds d)))
  refine ⟨halone.reports, ?_⟩
  have hcheck := check_alone (heads_reorder h' hperm)
    (fun i => by rw [← hperm.length_eq]; rfl) (hsame ▸ holds_alone ds' d)
  rw [← hcheck, typeReports, hbody]
  simp only [Typing.pos_check]

end Orders

/-! ## Other bodies -/

section Bodies

variable (before behind : List Decl) (d : Decl) (body : Expr)

/-- Bodies are not seen from other declarations. -/
theorem outside_replace :
    outside (before ++ { d with body := body } :: behind) = outside (before ++ d :: behind) := by
  simp only [outside, outermost, number, List.zipIdx_append, List.zipIdx_cons, List.map_append,
    List.map_cons]
  rfl

theorem heads_replace :
    heads (before ++ { d with body := body } :: behind) = heads (before ++ d :: behind) := by
  simp only [heads, List.map_append, List.map_cons]

theorem reports_replace (e : Decl) :
    nameReports (before ++ { d with body := body } :: behind) e =
        nameReports (before ++ d :: behind) e ∧
      typeReports (before ++ { d with body := body } :: behind) e =
        typeReports (before ++ d :: behind) e := by
  have halone : alone (before ++ { d with body := body } :: behind) e =
      alone (before ++ d :: behind) e := by
    rw [alone, outside_replace, alone]
  exact ⟨by rw [nameReports, halone, nameReports],
    by rw [typeReports, halone, heads_replace, typeReports]⟩

end Bodies

end Package

/-- A diagnostic that is not at a position in some declarations. -/
def Diagnostic.isElsewhere (ds : List Decl) (x : Diagnostic) : Bool :=
  decide (x.pos ∉ ds.flatMap Decl.spots)

namespace Package

theorem filter_isElsewhere_flatMap {f : Decl → List Diagnostic} {before behind ds : List Decl}
    {d : Decl} (hf : ∀ x ∈ f d, x.pos ∈ d.spots) (hd : d ∈ ds) :
    ((before ++ d :: behind).flatMap f).filter (Diagnostic.isElsewhere ds) =
      ((before ++ behind).flatMap f).filter (Diagnostic.isElsewhere ds) := by
  have hnil : (f d).filter (Diagnostic.isElsewhere ds) = [] := by
    refine List.filter_eq_nil_iff.2 fun x hx => ?_
    simp only [Diagnostic.isElsewhere, decide_eq_true_eq, not_not]
    exact List.mem_flatMap.2 ⟨d, hd, hf x hx⟩
  simp only [List.flatMap_append, List.flatMap_cons, List.filter_append, hnil, List.nil_append]

/-- What is reported where no two declarations have the same name. -/
theorem reports_of_distinct (name : String) {files : List (List Decl)}
    (h : Distinct files.flatten) :
    reports name files = files.flatten.flatMap (nameReports files.flatten) ++
      files.flatten.flatMap (typeReports files.flatten) := by
  obtain ⟨hfirsts, hrepeats⟩ := @firsts_eq_self files.flatten [] h
  rw [reports_eq, hfirsts, hrepeats, List.nil_append]

/-- **Diagnostics are modular.** Where no two declarations have the same name, building and checking
report the same in whatever order and in whatever files the declarations come. If one of them has
another body, then what is reported at positions that are neither in it nor in what it was before is
exactly the same. -/
theorem diagnostics_are_modular (name : String) {files files' : List (List Decl)}
    (h : Distinct files.flatten) :
    (files.flatten.Perm files'.flatten → (reports name files).Perm (reports name files')) ∧
    ∀ (before behind : List Decl) (d : Decl) (body : Expr),
      files.flatten = before ++ d :: behind →
      files'.flatten = before ++ { d with body := body } :: behind →
        (reports name files).filter (Diagnostic.isElsewhere [d, { d with body := body }]) =
          (reports name files').filter (Diagnostic.isElsewhere [d, { d with body := body }]) := by
  refine ⟨fun hperm => ?_, fun before behind d body hfiles hfiles' => ?_⟩
  · have h' : Distinct files'.flatten := (hperm.map _).nodup_iff.1 h
    have hsame := reports_reorder h h' hperm
    rw [reports_of_distinct name h, reports_of_distinct name h',
      funext fun d => (hsame d).1, funext fun d => (hsame d).2]
    exact (hperm.flatMap_right _).append (hperm.flatMap_right _)
  · have h' : Distinct files'.flatten := by
      rw [hfiles, Distinct, List.map_append, List.map_cons] at h
      rw [hfiles', Distinct, List.map_append, List.map_cons]
      exact h
    have hsame := reports_replace before behind d body
    rw [reports_of_distinct name h, reports_of_distinct name h', hfiles, hfiles',
      funext fun d => (hsame d).1, funext fun d => (hsame d).2, List.filter_append,
      List.filter_append]
    have hold : d ∈ [d, { d with body := body }] := List.mem_cons_self
    have hnew : { d with body := body } ∈ [d, { d with body := body }] :=
      List.mem_cons_of_mem _ List.mem_cons_self
    rw [filter_isElsewhere_flatMap (nameReports_here _ _) hold,
      filter_isElsewhere_flatMap (typeReports_here _ _) hold,
      filter_isElsewhere_flatMap (nameReports_here _ _) hnew,
      filter_isElsewhere_flatMap (typeReports_here _ _) hnew]

/-- For an example: a declaration of an `int` with a given body. -/
def returning (body : Expr) : Decl :=
  let at' := fun start stop => Pos.mk ⟨0⟩ ⟨start, stop⟩
  ⟨⟨"f", at' 6 7⟩, [], ⟨.int, at' 8 11⟩, body, at' 0 17⟩

/-- For an example: a declaration in another file that calls what is not there. -/
def lost : Decl :=
  let at' := fun start stop => Pos.mk ⟨1⟩ ⟨start, stop⟩
  ⟨⟨"g", at' 6 7⟩, [], ⟨.int, at' 8 11⟩, .call ⟨"h", at' 13 14⟩ [] (at' 12 15), at' 0 16⟩

/-- The unresolved name in `lost` is reported in another order of the files, and with another body
of the other declaration; the wrong result is gone with the body that makes it. -/
theorem diagnostics_are_modular_lost :
    let wrong := returning (.bool true ⟨⟨0⟩, ⟨12, 16⟩⟩)
    let right := returning (.int .zero ⟨⟨0⟩, ⟨12, 16⟩⟩)
    let unresolved : Diagnostic := ⟨.unresolvedName "h", ⟨⟨1⟩, ⟨13, 14⟩⟩⟩
    reports "main" [[wrong], [lost]] =
        [unresolved, Typing.mismatch .int .bool .result ⟨⟨0⟩, ⟨12, 16⟩⟩] ∧
      (reports "main" [[wrong], [lost]]).Perm (reports "main" [[lost, wrong]]) ∧
      (reports "main" [[right], [lost]]).filter (Diagnostic.isElsewhere [wrong, right]) =
        [unresolved] := by
  intro wrong right unresolved
  have hdistinct : Distinct [[wrong], [lost]].flatten := by decide
  have hreports : reports "main" [[wrong], [lost]] =
      [unresolved, Typing.mismatch .int .bool .result ⟨⟨0⟩, ⟨12, 16⟩⟩] := by decide
  refine ⟨hreports, ?_, ?_⟩
  · exact (diagnostics_are_modular "main" hdistinct).1 (.swap lost wrong [])
  · have hsame := (@diagnostics_are_modular "main" _ [[right], [lost]] hdistinct).2 [] [lost]
      wrong (.int .zero ⟨⟨0⟩, ⟨12, 16⟩⟩) rfl rfl
    rw [hreports] at hsame
    exact hsame.symm.trans (by decide)

end Package

end CalcLang
