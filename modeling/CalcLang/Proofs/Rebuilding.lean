import CalcLang.Proofs.Explicit
import CalcLang.Proofs.Repeats
import CalcLang.Proofs.Stages

/-!
# Building a package from itself

A package that builds and checks without a report stands for declarations in which all types are
written (`Package.source`). They build and check without a report as well, and give the same package
again (`Package.rebuild`, `Package.recheck`).
-/

namespace CalcLang

open Typing

/-! ## Nodes without types -/

mutual

/-- The expression that a node stands for does not depend on the types recorded on it. -/
theorem Node.source_untyped (S : Symbols) : ∀ n : Node, n.untyped.source S = n.source S
  | .const v _ => by cases v <;> rfl
  | .error .. | .read .. | .declare .. => rfl
  | .binary _ lhs rhs .. => by
    simp only [untyped, source, lhs.source_untyped S, rhs.source_untyped S]
  | .unary _ operand .. => by simp only [untyped, source, operand.source_untyped S]
  | .call _ _ args .. => by simp only [untyped, source, Node.allSource_allUntyped S args]
  | .ifThen test _ yes .. => by
    simp only [untyped, source, test.source_untyped S, yes.source_untyped S]
  | .ifThenElse test _ yes no .. => by
    simp only [untyped, source, test.source_untyped S, yes.source_untyped S, no.source_untyped S]
  | .block nodes .. => by simp only [untyped, source, Node.allSource_allUntyped S nodes]
  | .assign _ _ value .. => by simp only [untyped, source, value.source_untyped S]
  | .define _ _ _ init _ => by simp only [untyped, source, init.source_untyped S]

theorem Node.allSource_allUntyped (S : Symbols) : ∀ ns : List Node,
    Node.allSource S (Node.allUntyped ns) = Node.allSource S ns
  | [] => rfl
  | n :: ns => by
    simp only [Node.allUntyped, Node.allSource, n.source_untyped S, Node.allSource_allUntyped S ns]

end

mutual

theorem Node.explicit_untyped (S : Symbols) : ∀ n : Node,
    n.untyped.explicit S = (n.explicit S).untyped
  | .const .. | .error .. | .read .. | .declare .. => rfl
  | .binary _ lhs rhs .. => by
    simp only [untyped, explicit, lhs.explicit_untyped S, rhs.explicit_untyped S]
  | .unary _ operand .. => by simp only [untyped, explicit, operand.explicit_untyped S]
  | .call _ _ args .. => by simp only [untyped, explicit, Node.allExplicit_allUntyped S args]
  | .ifThen test _ yes .. => by
    simp only [untyped, explicit, test.explicit_untyped S, yes.explicit_untyped S]
  | .ifThenElse test _ yes no .. => by
    simp only [untyped, explicit, test.explicit_untyped S, yes.explicit_untyped S,
      no.explicit_untyped S]
  | .block nodes .. => by simp only [untyped, explicit, Node.allExplicit_allUntyped S nodes]
  | .assign _ _ value .. => by simp only [untyped, explicit, value.explicit_untyped S]
  | .define _ _ _ init _ => by simp only [untyped, explicit, init.explicit_untyped S]

theorem Node.allExplicit_allUntyped (S : Symbols) : ∀ ns : List Node,
    Node.allExplicit S (Node.allUntyped ns) = Node.allUntyped (Node.allExplicit S ns)
  | [] => rfl
  | n :: ns => by
    simp only [Node.allUntyped, Node.allExplicit, n.explicit_untyped S,
      Node.allExplicit_allUntyped S ns]

end

/-! ## Checking again -/

/-- To record a type that is recorded already changes nothing. -/
theorem Symbols.setTy_ty (s : Symbols) (x : SymbolId) : s.setTy x (s.ty x) = s := by
  refine Array.ext_getElem? fun i => ?_
  rw [setTy, Array.getElem?_modify]
  split
  · next h =>
    subst h
    rw [ty, get?]
    cases s[x.index]? <;> rfl
  · rfl

namespace Typing

variable {sigs : Signatures} {S : Symbols}

mutual

/-- **An annotated node checks to itself**, with the types of its variables written. -/
theorem check_explicit {τ : Ty} : ∀ {n : Node}, HasType sigs S.ty (Records S) n τ →
    check sigs (n.explicit S).untyped S.bare = (n.explicit S, some τ, S.bare, [])
  | .const .., h => by cases h; rfl
  | .read .., h => by
    cases h with
    | read hx hty =>
      obtain rfl : _ = some τ := hty
      rw [Node.explicit, Node.untyped, check, Symbols.ty_bare, hx]
  | .binary .., h => by
    cases h with
    | binary hl hr hop hty =>
      obtain rfl : _ = some τ := hty
      simp only [Node.explicit, Node.untyped, check, check_explicit hl, check_explicit hr,
        binary_of_operation hop, List.append_nil]
  | .unary .., h => by
    cases h with
    | unary ho hn hty =>
      obtain rfl : _ = some τ := hty
      simp only [Node.explicit, Node.untyped, check, check_explicit ho, hn.operand_eq.symm,
        agreed_self, expect_self, List.append_nil]
  | .call .., h => by
    cases h with
    | call hsig hargs hparams hty =>
      obtain rfl : _ = some _ := hty
      obtain ⟨tys, hcheck, htys⟩ := checkAll_explicit hargs
      simp only [Node.explicit, Node.untyped, check, hcheck, hsig,
        call_of_map_fst (htys.trans hparams.symm), List.append_nil]
  | .ifThen .., h => by
    cases h with
    | ifThen ht hy hw hty =>
      obtain rfl : _ = some τ := hty
      simp only [Node.explicit, Node.untyped, check, check_explicit ht, check_explicit hy,
        written_of_eq hw, expect_self, List.append_nil]
  | .ifThenElse .., h => by
    cases h with
    | ifThenElse ht hy hn hw hty =>
      obtain rfl : _ = some τ := hty
      simp only [Node.explicit, Node.untyped, check, check_explicit ht, check_explicit hy,
        check_explicit hn, written_of_eq hw, agreed_self, expect_self, List.append_nil]
  | .block .., h => by
    cases h with
    | block hns hlast hty =>
      obtain rfl : _ = some τ := hty
      obtain ⟨tys, hcheck, htys⟩ := checkAll_explicit hns
      simp only [Node.explicit, Node.untyped, check, hcheck, bind_getLast?_fst tys _ htys, hlast]
  | .assign .., h => by
    cases h with
    | assign hv hx hty =>
      obtain rfl : _ = some τ := hty
      simp only [Node.explicit, Node.untyped, check, check_explicit hv, Symbols.ty_bare, hx,
        agreed_self, expect_self, List.append_nil]
  | .declare _ x .., h => by
    cases h with
    | declare hx =>
      have hset := S.bare.setTy_ty x
      rw [Symbols.ty_bare, hx] at hset
      rw [Node.explicit, Node.untyped, check, hset]
  | .define _ x .., h => by
    cases h with
    | define hi hw hx =>
      -- The type is there already, so that recording it keeps the symbols for what comes after.
      have hset := S.bare.setTy_ty x
      rw [Symbols.ty_bare, hx] at hset
      simp only [Node.explicit, Node.untyped, check, check_explicit hi, hx, Option.some_or, hset,
        expect_self, List.append_nil]
  | .error .., h => by cases h

theorem checkAll_explicit {τs : List Ty} : ∀ {ns : List Node},
    HaveTypes sigs S.ty (Records S) ns τs → ∃ tys,
      checkAll sigs (Node.allUntyped (Node.allExplicit S ns)) S.bare =
        (Node.allExplicit S ns, tys, S.bare, []) ∧ tys.map Prod.fst = τs.map some
  | [], h => by
    cases h
    exact ⟨[], rfl, rfl⟩
  | n :: ns, h => by
    cases h with
    | cons h hs =>
      obtain ⟨tys, hns, htys⟩ := checkAll_explicit hs
      rw [Node.allExplicit, Node.allUntyped, checkAll, check_explicit h]
      simp only [hns, List.append_nil]
      exact ⟨_, rfl, by rw [List.map_cons, List.map_cons, htys]⟩

end

/-- The declaration without the types recorded in its body. -/
def untyped (d : Declaration) : Declaration := { d with body := d.body.untyped }

theorem checkDecls_explicit {ds : List Declaration}
    (h : ∀ d ∈ ds, HasType sigs S.ty (Records S) d.body d.ret) :
    checkDecls sigs (ds.map fun d => untyped (d.explicit S)) S.bare =
      (ds.map (Declaration.explicit S), S.bare, []) := by
  induction ds with
  | nil => rfl
  | cons d ds ih =>
    obtain ⟨hd, hds⟩ := List.forall_mem_cons.1 h
    have hbody : check sigs (untyped (d.explicit S)).body S.bare = _ := check_explicit hd
    have hret : (untyped (d.explicit S)).ret = d.ret := rfl
    simp only [List.map_cons, checkDecls, hbody, hret, ih hds, expect_self, List.append_nil]
    rfl

end Typing

/-! ## Building again -/

namespace Resolution

open Lexical

theorem map_head_lowerDecls (ds : List (Decl × SymbolId)) (n : Names) :
    (lowerDecls ds n).1.map (fun d => (d.name, d.symbol, d.ret)) =
      ds.map fun d => (d.1.name.name, d.2, d.1.ret.ty) := by
  induction ds generalizing n with
  | nil => rfl
  | cons d ds ih =>
    rw [lowerDecls, List.map_cons, List.map_cons, ← ih]
    rfl

/-- Declarations whose symbols have the numbers of their places. -/
theorem number_source (S : Symbols) {ds : List Declaration}
    (h : ∀ (i : Nat) (d : Declaration), ds[i]? = some d → d.symbol = ⟨i⟩) :
    number 0 (ds.map (Declaration.source S)) = ds.map fun d => (d.source S, d.symbol) := by
  refine List.ext_getElem? fun i => ?_
  rw [getElem?_number, List.getElem?_map, List.getElem?_map, Option.map_map]
  cases hd : ds[i]? with
  | none => rfl
  | some d =>
    rw [Option.map_some, Option.map_some, h i d hd, Nat.zero_add]
    rfl

/-- The names of declarations and those of the declarations that they are lowered to. -/
theorem declared_source {S : Symbols} {kept : List Decl} {ds : List Declaration}
    (hheads : ds.map (fun d => (d.name, d.symbol, d.ret)) =
      (number 0 kept).map fun d => (d.1.name.name, d.2, d.1.ret.ty))
    (hty : ∀ (i : Nat) (d : Declaration), ds[i]? = some d → S.ty ⟨i⟩ = some d.ret) :
    declared (ds.map (Declaration.source S)) = (declared kept).explicit S := by
  have hat : ∀ i : Nat, ds[i]?.map (fun d => (d.name, d.symbol, d.ret)) =
      kept[i]?.map fun d => (d.name.name, ⟨0 + i⟩, d.ret.ty) := by
    intro i
    rw [← List.getElem?_map, hheads, List.getElem?_map, getElem?_number, Option.map_map]
    rfl
  have hscope : (number 0 (ds.map (Declaration.source S))).map bindingOf =
      (number 0 kept).map bindingOf := by
    refine List.ext_getElem? fun i => ?_
    have hi := congrArg (Option.map fun h => (h.1, (⟨0 + i⟩ : SymbolId))) (hat i)
    rw [Option.map_map, Option.map_map] at hi
    rw [List.getElem?_map, List.getElem?_map, getElem?_number, getElem?_number,
      List.getElem?_map, Option.map_map, Option.map_map, Option.map_map]
    exact hi
  have hsymbols : ((number 0 (ds.map (Declaration.source S))).map symbolOf).toArray =
      ((declared kept).explicit S).symbols := by
    refine Array.ext_getElem? fun i => ?_
    have hexplicit := get?_explicit S (declared kept) ⟨i⟩
    have hsource := get?_declared (ds.map (Declaration.source S)) i
    rw [get?_declared] at hexplicit
    refine hsource.trans (Eq.trans ?_ hexplicit.symm)
    rw [List.getElem?_map]
    have hi := hat i
    cases hd : ds[i]? with
    | none =>
      rw [hd, Option.map_none, eq_comm, Option.map_eq_none_iff] at hi
      rw [hi]
      rfl
    | some d =>
      rw [hd, Option.map_some, eq_comm, Option.map_eq_some_iff] at hi
      obtain ⟨e, he, hhead⟩ := hi
      have hname : e.name.name = d.name := congrArg Prod.fst hhead
      rw [he, Option.map_some, Option.map_some, Option.map_some, Option.map_some, hty i d hd]
      exact congrArg (fun name => some (Symbol.mk name _ _ none .origin)) hname.symm
  rw [declared, hscope, hsymbols]
  rfl

end Resolution

namespace Package

open Lexical Resolution

/-- The declarations of a source text that the package stands for. -/
def source (p : Package) : List Decl := p.decls.map (Declaration.source p.symbols)

/-- The package with the types of all variables written, before it is checked. -/
def unchecked (p : Package) : Package :=
  ⟨p.name, p.scopes, p.symbols.bare,
    p.decls.map fun d => Typing.untyped (d.explicit p.symbols), .built⟩

/-- A checked package that is checked again has the types that are written in it. -/
theorem Annotated.check_unchecked {p : Package} (h : p.Annotated) (hp : p.stage = .checked) :
    p.unchecked.check rfl = (p.explicit, []) := by
  have hsigs : p.unchecked.signatures = p.signatures := by
    rw [signatures, Typing.signatures, unchecked, List.map_map, funext p.symbols.ty_bare]
    rfl
  have hcheck : checkDecls p.unchecked.signatures p.unchecked.decls p.unchecked.symbols =
      (p.decls.map (Declaration.explicit p.symbols), p.symbols.bare, []) := by
    rw [hsigs]
    exact checkDecls_explicit h
  rw [explicit, hp]
  exact congrArg (fun c => ({ p.unchecked with
    decls := c.1, symbols := c.2.1, stage := .checked }, c.2.2)) hcheck

/-- The symbols after checking are those before it, but for types. -/
theorem get?_check {p : Package} (hb : p.stage = .built) (x : SymbolId) :
    ((p.check hb).1.symbols.get? x).map (fun e => { e with ty := none }) =
      (p.symbols.get? x).map fun e => { e with ty := none } := by
  have hsame : (p.check hb).1.symbols.untyped = p.symbols.untyped :=
    (untyped_checkDecls p.signatures p.decls p.symbols).2
  have hx := congrArg (fun s : Symbols => s.get? x) hsame
  simp only [Symbols.untyped, Symbols.get?, Array.getElem?_map] at hx
  exact hx

theorem nameText_eq (s : Symbols) (x : SymbolId) :
    Listing.nameText s x = ((s.get? x).map Symbol.name).getD "" := by
  rw [Listing.nameText]
  cases s.get? x <;> rfl

theorem nameText_check {p : Package} (hb : p.stage = .built) (x : SymbolId) :
    Listing.nameText (p.check hb).1.symbols x = Listing.nameText p.symbols x := by
  have hname := congrArg (fun e => (e.map Symbol.name).getD "") (get?_check hb x)
  rw [Option.map_map, Option.map_map] at hname
  rw [nameText_eq, nameText_eq]
  exact hname

/-- The names of a package with the types that checking finds are the checked ones. -/
theorem explicit_check {p : Package} (hb : p.stage = .built) :
    Names.explicit (p.check hb).1.symbols ⟨p.scopes, p.symbols⟩ =
      ⟨p.scopes, (p.check hb).1.symbols.bare⟩ := by
  refine congrArg (Names.mk p.scopes) (Array.ext_getElem? fun i => ?_)
  have hget := get?_check hb ⟨i⟩
  refine (get?_explicit _ ⟨p.scopes, p.symbols⟩ ⟨i⟩).trans
    (Eq.trans ?_ (Symbols.get?_bare _ ⟨i⟩).symm)
  rw [Symbols.ty]
  cases hp : p.symbols.get? ⟨i⟩ with
  | none =>
    rw [hp, Option.map_none, Option.map_eq_none_iff] at hget
    rw [hget]
    rfl
  | some e =>
    rw [hp, Option.map_some, Option.map_eq_some_iff] at hget
    obtain ⟨e', he', heq⟩ := hget
    rw [he']
    exact congrArg (fun e : Symbol => some { e with ty := e'.ty, pos := .origin }) heq.symm

/-- The package of some files, after checking. -/
def checked (name : String) (files : List (List Decl)) : Package :=
  ((build name files).1.check (stage_build name files)).1

namespace Accepts

variable {name : String} {files : List (List Decl)} (h : Accepts name files)

include h

theorem resolved : (Package.build name files).1.Resolved := resolved_of_build h.solid h.build

theorem annotated : (checked name files).Annotated :=
  h.resolved.annotated_check (stage_build name files) h.check

/-- The declarations of an accepted package are those of their own sources. -/
theorem reread :
    RereadDecls (checked name files).symbols (number 0 (firsts [] files.flatten))
      (declared (firsts [] files.flatten)) (Package.build name files).1.decls
      ⟨(Package.build name files).1.scopes, (Package.build name files).1.symbols⟩ := by
  have htypes := h.resolved.types_check (stage_build name files) h.check
  have hbuild := build_eq_firsts name files
  have hreports := (List.append_eq_nil_iff.1 ((congrArg Prod.snd hbuild).symm.trans h.build)).2
  refine (declsResolve_iff.2 ?_).source
    (fun d hd x hx => ⟨nameText_check (stage_build name files) x, (htypes d hd).params x hx⟩)
    fun d hd => (htypes d hd).body
  rw [congrArg Prod.fst hbuild]
  exact congrArg (fun d => (_, _, d)) hreports

/-- Checking changes declarations in the types recorded in their bodies. -/
theorem map_untyped :
    (checked name files).decls.map Typing.untyped = (Package.build name files).1.decls := by
  refine (untyped_checkDecls _ _ _).1.trans (List.map_congr_left fun d hd => ?_) |>.trans
    (List.map_id _)
  rw [h.reread.untyped d hd]
  rfl

theorem map_source :
    (Package.build name files).1.decls.map (Declaration.source (checked name files).symbols) =
      (checked name files).source := by
  rw [← h.map_untyped, List.map_map, source]
  refine List.map_congr_left fun d _ => ?_
  exact congrArg (fun body => Decl.mk _ _ _ body _) (d.body.source_untyped _)

/-- **A package builds from its own source**, without positions and types of nodes. -/
theorem build_source :
    Package.build name [(checked name files).source] = ((checked name files).unchecked, []) := by
  set p := (Package.build name files).1
  set q := checked name files
  have hres : p.Resolved := h.resolved
  have hsource : p.decls.map (Declaration.source q.symbols) = q.source := h.map_source
  have hsymbols := number_source q.symbols fun i d hd => (hres.symbols i d hd).1
  have hdeclared : declared (p.decls.map (Declaration.source q.symbols)) =
      (declared (firsts [] files.flatten)).explicit q.symbols := by
    refine declared_source ?_ fun i d hd => ?_
    · have hp : p.decls = _ := congrArg (fun b => b.1.decls) (build_eq_firsts name files)
      rw [hp]
      exact map_head_lowerDecls ..
    · have hty := hres.ty_symbol_check (stage_build name files) hd
      rwa [(hres.symbols i d hd).1] at hty
  have hdistinct : Distinct ([] ++ [q.source].flatten) := by
    rw [List.nil_append, List.flatten_singleton, ← hsource, Distinct, List.map_map]
    exact hres.names_nodup
  have hdecls : p.decls.map (Declaration.explicit q.symbols) =
      q.decls.map fun d => Typing.untyped (d.explicit q.symbols) := by
    rw [← h.map_untyped, List.map_map]
    refine List.map_congr_left fun d _ => ?_
    exact congrArg (fun body => Declaration.mk _ _ _ _ _ body _)
      (d.body.explicit_untyped q.symbols)
  obtain ⟨hfirsts, hrepeats⟩ := firsts_eq_self hdistinct
  have hnames : Names.explicit q.symbols ⟨p.scopes, p.symbols⟩ = ⟨p.scopes, q.symbols.bare⟩ :=
    explicit_check (stage_build name files)
  rw [build_eq_firsts, hfirsts, hrepeats, List.flatten_singleton, ← hsource, hsymbols, hdeclared,
    h.reread.lower, hdecls, hnames]
  rfl

/-- **The package that is built from the source of a package checks**, and is that package with all
types written. -/
theorem check_source :
    (Package.build name [(checked name files).source]).1.check (stage_build ..) =
      ((checked name files).explicit, []) := by
  have hagain : (Package.build name [(checked name files).source]).1 = _ :=
    congrArg Prod.fst h.build_source
  refine Eq.trans ?_ (h.annotated.check_unchecked rfl)
  congr 1

end Accepts

end Package

end CalcLang
