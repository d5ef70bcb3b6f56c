import CalcLang.Proofs.Lexical
import CalcLang.Proofs.Reports
import CalcLang.Proofs.References
import Mathlib.Data.List.Forall2
import Mathlib.Data.Option.Basic

/-!
# Other numbers for the same names

Symbols and declarations are numbered in the order in which they are met, so what comes before a
declaration changes the numbers in it, and nothing else. Two points are alike up to a `Renumbering`
if names stand for corresponding bindings at both. Resolving an expression at both makes nodes that
correspond, the same symbols and the same reports (`Lexical.resolve_matches`); checking nodes that
correspond finds the same types and makes the same reports (`Typing.check_matches`).
-/

namespace CalcLang

/-- Other numbers for symbols and declarations. -/
structure Renumbering where
  symbol : SymbolId → SymbolId
  decl : DeclId → DeclId
  injective : Function.Injective symbol

mutual

/-- The node with other numbers for what it refers to. -/
def Node.renumber (r : Renumbering) : Node → Node
  | .const value pos => .const value pos
  | .error pos => .error pos
  | .read name x ty pos => .read name (r.symbol x) ty pos
  | .binary op lhs rhs ty tag pos => .binary op (lhs.renumber r) (rhs.renumber r) ty tag pos
  | .unary op operand ty pos => .unary op (operand.renumber r) ty pos
  | .call name callee args ty pos => .call name (r.decl callee) (Node.allRenumber r args) ty pos
  | .ifThen test written yes ty tag pos =>
    .ifThen (test.renumber r) written (yes.renumber r) ty tag pos
  | .ifThenElse test written yes no ty tag pos =>
    .ifThenElse (test.renumber r) written (yes.renumber r) (no.renumber r) ty tag pos
  | .block nodes ty pos => .block (Node.allRenumber r nodes) ty pos
  | .assign name x value ty pos => .assign name (r.symbol x) (value.renumber r) ty pos
  | .declare name x written pos => .declare name (r.symbol x) written pos
  | .define name x written init pos => .define name (r.symbol x) written (init.renumber r) pos

/-- The nodes with other numbers for what they refer to. -/
def Node.allRenumber (r : Renumbering) : List Node → List Node
  | [] => []
  | n :: ns => n.renumber r :: Node.allRenumber r ns

end

@[simp]
theorem Node.pos_renumber (r : Renumbering) (n : Node) : (n.renumber r).pos = n.pos := by
  cases n <;> rfl

/-! ## Resolution -/

namespace Lexical

variable {r : Renumbering} {p p' q q' : Point}

/-- Two bindings that correspond. Only their numbers are different, and those of declarations as
symbols do not matter. -/
structure Binding.Alike (r : Renumbering) (b b' : Binding) : Prop where
  pos : b'.symbol.pos = b.symbol.pos
  kind : ∀ id, b.symbol.kind = .declaration id → b'.symbol.kind = .declaration (r.decl id)
  own : b.symbol.declaration? = none → b'.symbol.kind = b.symbol.kind ∧ b'.id = r.symbol b.id

/-- Two frames that bind the same names to corresponding bindings. -/
def Frame.Alike (r : Renumbering) (frame frame' : Frame) : Prop :=
  ∀ name, Option.Rel (Binding.Alike r) (frame.lookup name) (frame'.lookup name)

/-- Two points at which names stand for corresponding bindings, and the next symbols correspond. -/
structure Point.Alike (r : Renumbering) (p p' : Point) : Prop where
  frames : List.Forall₂ (Frame.Alike r) p.frames p'.frames
  next : ∀ i, r.symbol ⟨p.symbols.length + i⟩ = ⟨p'.symbols.length + i⟩

/-- The points `q` and `q'` behind `p` and `p'` are alike, the same symbols have been added to both,
and nothing is bound but in the innermost frame. -/
structure Steps (r : Renumbering) (p p' q q' : Point) : Prop where
  alike : q.Alike r q'
  added : ∃ own, q.symbols = p.symbols ++ own ∧ q'.symbols = p'.symbols ++ own
  tail : q'.frames.tail = p'.frames.tail

/-- Corresponding outcomes at `p` and `p'`. -/
structure Matches {α : Type} (r : Renumbering) (rename : α → α) (p p' : Point) (o o' : Outcome α) :
    Prop where
  value : o'.1 = rename o.1
  steps : Steps r p p' o.2.1 o'.2.1
  reports : o'.2.2 = o.2.2

namespace Steps

theorem refl (h : p.Alike r p') : Steps r p p' p p' :=
  ⟨h, ⟨[], (List.append_nil _).symm, (List.append_nil _).symm⟩, rfl⟩

theorem trans {s s' : Point} (h : Steps r p p' q q') (h' : Steps r q q' s s') :
    Steps r p p' s s' := by
  obtain ⟨own, hown, hown'⟩ := h.added
  obtain ⟨more, hmore, hmore'⟩ := h'.added
  refine ⟨h'.alike, ⟨own ++ more, ?_, ?_⟩, h'.tail.trans h.tail⟩
  · rw [hmore, hown, List.append_assoc]
  · rw [hmore', hown', List.append_assoc]

/-- A frame that is entered and left again. -/
theorem inside (h : Steps r p.enter p'.enter q q') : Steps r p p' q.leave q'.leave := by
  have hframes : q'.leave.frames = p'.frames := h.tail
  refine ⟨⟨?_, h.alike.next⟩, h.added, congrArg List.tail hframes⟩
  rw [Point.leave, Point.leave, ← List.drop_one, ← List.drop_one]
  exact List.forall₂_drop 1 h.alike.frames

end Steps

namespace Point.Alike

theorem enter (h : p.Alike r p') : p.enter.Alike r p'.enter :=
  ⟨.cons (fun _ => .none) h.frames, h.next⟩

theorem find? (h : p.Alike r p') (name : String) :
    Option.Rel (Binding.Alike r) (Lexical.find? p.frames name) (Lexical.find? p'.frames name) := by
  have hframes := h.frames
  generalize p.frames = frames at hframes
  generalize p'.frames = frames' at hframes
  rw [Lexical.find?, Lexical.find?]
  induction hframes with
  | nil => exact .none
  | @cons frame frame' rest rest' hframe _ ih =>
    have hname := hframe name
    rw [List.findSome?_cons, List.findSome?_cons]
    generalize frame.lookup name = found at hname
    generalize frame'.lookup name = found' at hname
    cases hname with
    | none => exact ih
    | some hb => exact .some hb

theorem var? (h : p.Alike r p') (ident : Ident) (misuse : String → Diagnostic.Kind) :
    p'.var? ident misuse = (p.var? ident misuse).map r.symbol := by
  have hfound := h.find? ident.name
  rw [Point.var?, Point.var?]
  generalize Lexical.find? p.frames ident.name = found at hfound
  generalize Lexical.find? p'.frames ident.name = found' at hfound
  cases hfound with
  | none => rfl
  | @some b b' hb =>
    cases hkind : b.symbol.kind with
    | declaration id =>
      simp only [hkind, hb.kind id hkind]
      rfl
    | _ =>
      obtain ⟨hkind', hid⟩ := hb.own (by rw [Symbol.declaration?, hkind])
      simp only [hkind', hkind, hid]
      rfl

theorem declaration? (h : p.Alike r p') (ident : Ident) :
    p'.declaration? ident = (p.declaration? ident).map r.decl := by
  have hfound := h.find? ident.name
  rw [Point.declaration?, Point.declaration?]
  generalize Lexical.find? p.frames ident.name = found at hfound
  generalize Lexical.find? p'.frames ident.name = found' at hfound
  cases hfound with
  | none => rfl
  | @some b b' hb =>
    cases hkind : b.symbol.kind with
    | declaration id =>
      simp only [hkind, hb.kind id hkind]
      rfl
    | _ =>
      obtain ⟨hkind', -⟩ := hb.own (by rw [Symbol.declaration?, hkind])
      simp only [hkind', hkind]
      rfl

theorem nextSymbol (h : p.Alike r p') :
    (⟨p'.symbols.length⟩ : SymbolId) = r.symbol ⟨p.symbols.length⟩ := (h.next 0).symm

end Point.Alike

/-- One more binding in both frames. -/
theorem Frame.Alike.concat {frame frame' : Frame} (h : frame.Alike r frame') (name : String)
    {b b' : Binding} (hb : b.Alike r b') :
    Frame.Alike r (frame ++ [(name, b)]) (frame' ++ [(name, b')]) := by
  intro x
  rw [List.lookup_append, List.lookup_append]
  have hx := h x
  generalize frame.lookup x = found at hx
  generalize frame'.lookup x = found' at hx
  cases hx with
  | some hrel => exact .some hrel
  | none =>
    rw [Option.none_or, Option.none_or, List.lookup_cons, List.lookup_cons]
    cases x == name with
    | true => exact .some hb
    | false => exact .none

namespace Point.Alike

theorem push (h : p.Alike r p') (symbol : Symbol) {frames frames' : List Frame}
    (hframes : List.Forall₂ (Frame.Alike r) frames frames') :
    Point.Alike r ⟨frames, p.symbols ++ [symbol]⟩ ⟨frames', p'.symbols ++ [symbol]⟩ := by
  refine ⟨hframes, fun i => ?_⟩
  simp only [List.length_append, List.length_singleton, Nat.add_assoc]
  exact h.next (1 + i)

/-- Parameters and variables are bound at both points, and reported at both if they are taken. -/
theorem bind (h : p.Alike r p') (ident : Ident) (kind : SymbolKind)
    (hkind : ∀ id, kind ≠ .declaration id) (ty : Option Ty) :
    Steps r p p' (p.bind ident kind ty).1 (p'.bind ident kind ty).1 ∧
      (p'.bind ident kind ty).2 = (p.bind ident kind ty).2 := by
  obtain ⟨frames, symbols⟩ := p
  obtain ⟨frames', symbols'⟩ := p'
  rw [Point.bind, Point.bind]
  cases h.frames with
  | nil => exact ⟨⟨h.push _ .nil, ⟨_, rfl, rfl⟩, rfl⟩, rfl⟩
  | @cons frame frame' rest rest' hframe hrest =>
    have hname := hframe ident.name
    dsimp only
    generalize frame.lookup ident.name = found at hname
    generalize frame'.lookup ident.name = found' at hname
    cases hname with
    | some hb =>
      refine ⟨⟨h.push _ (.cons hframe hrest), ⟨_, rfl, rfl⟩, rfl⟩, ?_⟩
      simp only [hb.pos]
    | none =>
      have hb : Binding.Alike r ⟨⟨symbols.length⟩, ⟨ident.name, kind, ty, none, ident.pos⟩⟩
          ⟨⟨symbols'.length⟩, ⟨ident.name, kind, ty, none, ident.pos⟩⟩ :=
        ⟨rfl, fun id hid => absurd hid (hkind id), fun _ => ⟨rfl, h.nextSymbol⟩⟩
      exact ⟨⟨h.push _ (.cons (hframe.concat _ hb) hrest), ⟨_, rfl, rfl⟩, rfl⟩, rfl⟩

end Point.Alike

mutual

/-- An expression is resolved alike at points that are alike. -/
theorem resolve_matches {p p' : Point} (h : p.Alike r p') :
    ∀ e : Expr, Matches r (Node.renumber r) p p' (resolve e p) (resolve e p')
  | .int .. | .bool .. => ⟨rfl, .refl h, rfl⟩
  | .name ident => by
    rw [resolve, resolve, h.var? ident]
    cases p.var? ident .notAValue with
    | ok x => exact ⟨rfl, .refl h, rfl⟩
    | error d => exact ⟨rfl, .refl h, rfl⟩
  | .binary op lhs rhs pos => by
    have hl := resolve_matches h lhs
    have hr := resolve_matches hl.steps.alike rhs
    refine ⟨?_, hl.steps.trans hr.steps, ?_⟩
    · simp only [resolve, Node.renumber, hl.value, hr.value]
    · simp only [resolve, hl.reports, hr.reports]
  | .unary op operand pos => by
    have ho := resolve_matches h operand
    refine ⟨?_, ho.steps, ho.reports⟩
    simp only [resolve, Node.renumber, ho.value]
  | .ifThen test ty yes pos => by
    have ht := resolve_matches h test
    have hy := resolve_matches ht.steps.alike.enter yes
    refine ⟨?_, ht.steps.trans (.inside hy.steps), ?_⟩
    · simp only [resolve, Node.renumber, ht.value, hy.value]
    · simp only [resolve, ht.reports, hy.reports]
  | .ifThenElse test ty yes no pos => by
    have ht := resolve_matches h test
    have hy := resolve_matches ht.steps.alike.enter yes
    have hleft := hy.steps.inside
    have hn := resolve_matches hleft.alike.enter no
    refine ⟨?_, (ht.steps.trans hleft).trans (.inside hn.steps), ?_⟩
    · simp only [resolve, Node.renumber, ht.value, hy.value, hn.value]
    · simp only [resolve, ht.reports, hy.reports, hn.reports]
  | .declare name ty pos => by
    obtain ⟨hsteps, hreports⟩ := h.bind name .variable nofun (some ty.ty)
    refine ⟨?_, hsteps, hreports⟩
    simp only [resolve, Node.renumber, h.nextSymbol]
  | .define name ty init pos => by
    have hv := resolve_matches h init
    obtain ⟨hsteps, hreports⟩ :=
      hv.steps.alike.bind name .variable nofun (ty.map TypeExpr.ty)
    refine ⟨?_, hv.steps.trans hsteps, ?_⟩
    · simp only [resolve, Node.renumber, hv.value, hv.steps.alike.nextSymbol]
    · simp only [resolve, hv.reports, hreports]
  | .assign name value pos => by
    have hv := resolve_matches h value
    rw [resolve, resolve]
    dsimp only
    rw [hv.steps.alike.var? name, hv.value, hv.reports]
    cases (resolve value p).2.1.var? name .notAssignable with
    | ok x => exact ⟨rfl, hv.steps, rfl⟩
    | error d => exact ⟨rfl, hv.steps, rfl⟩
  | .call name args pos => by
    have ha := resolveAll_matches h args
    rw [resolve, resolve]
    dsimp only
    rw [ha.steps.alike.declaration? name, ha.value, ha.reports]
    cases (resolveAll args p).2.1.declaration? name with
    | ok callee => exact ⟨rfl, ha.steps, rfl⟩
    | error d => exact ⟨rfl, ha.steps, rfl⟩
  | .block exprs pos => by
    have he := resolveAll_matches h.enter exprs
    refine ⟨?_, .inside he.steps, he.reports⟩
    simp only [resolve, Node.renumber, he.value]

theorem resolveAll_matches {p p' : Point} (h : p.Alike r p') :
    ∀ es : List Expr, Matches r (Node.allRenumber r) p p' (resolveAll es p) (resolveAll es p')
  | [] => ⟨rfl, .refl h, rfl⟩
  | e :: es => by
    have he := resolve_matches h e
    have hes := resolveAll_matches he.steps.alike es
    refine ⟨?_, he.steps.trans hes.steps, ?_⟩
    · simp only [resolveAll, Node.allRenumber, he.value, hes.value]
    · simp only [resolveAll, he.reports, hes.reports]

end

theorem resolveParams_matches (h : p.Alike r p') (params : List Param) :
    Matches r (List.map r.symbol) p p' (resolveParams params p) (resolveParams params p') := by
  induction params generalizing p p' with
  | nil => exact ⟨rfl, .refl h, rfl⟩
  | cons param params ih =>
    obtain ⟨hsteps, hreports⟩ := h.bind param.name .param nofun (some param.ty.ty)
    have hps := ih hsteps.alike
    refine ⟨?_, hsteps.trans hps.steps, ?_⟩
    · simp only [resolveParams, hps.value, h.nextSymbol, List.map_cons]
    · simp only [resolveParams, hps.reports, hreports]

theorem resolveBody_matches (h : p.Alike r p') (body : Expr) :
    Matches r (Node.renumber r) p p' (resolveBody body p) (resolveBody body p') := by
  cases body with
  | block exprs pos =>
    have he := resolveAll_matches h exprs
    refine ⟨?_, he.steps, he.reports⟩
    simp only [resolveBody, Node.renumber, he.value]
  | _ => exact resolve_matches h _

/-- The function with other numbers for what it refers to, made of the symbol `symbol`. -/
def Function.renumber (r : Renumbering) (symbol : SymbolId) (f : Function) : Function :=
  { f with symbol := symbol, params := f.params.map r.symbol, body := f.body.renumber r }

theorem resolveDecl_matches (h : p.Alike r p') (decl : Decl) (symbol symbol' : SymbolId) :
    Matches r (Function.renumber r symbol') p p' (resolveDecl decl symbol p)
      (resolveDecl decl symbol' p') := by
  have hp := resolveParams_matches h.enter decl.params
  have hb := resolveBody_matches hp.steps.alike decl.body
  refine ⟨?_, .inside (hp.steps.trans hb.steps), ?_⟩
  · simp only [resolveDecl, Function.renumber, hp.value, hb.value]
  · simp only [resolveDecl, hp.reports, hb.reports]

/-- A declaration leaves the frames around it as they are. -/
theorem frames_resolveDecl (h : p.Alike r p') (decl : Decl) (symbol : SymbolId) :
    (resolveDecl decl symbol p').2.1.frames = p'.frames := by
  have hp := resolveParams_matches h.enter decl.params
  have hb := resolveBody_matches hp.steps.alike decl.body
  exact (hp.steps.trans hb.steps).tail

end Lexical

/-! ## Type checking -/

/-- The symbol that a reference points to. -/
def Reference.symbol? : Reference → Option SymbolId
  | .uses _ x | .owns _ x => some x
  | .calls .. => none

/-- Two tables have the symbols of some references, with the same types. -/
structure Symbols.Alike (r : Renumbering) (rs : List Reference) (s s' : Symbols) : Prop where
  here : ∀ ref ∈ rs, ∀ x, ref.symbol? = some x → x.index < s.size ∧ (r.symbol x).index < s'.size
  ty : ∀ ref ∈ rs, ∀ x, ref.symbol? = some x → s'.ty (r.symbol x) = s.ty x

theorem Symbols.Alike.setTy {r : Renumbering} {rs : List Reference} {s s' : Symbols}
    (h : s.Alike r rs s') (x : SymbolId) (ty : Option Ty) :
    (s.setTy x ty).Alike r rs (s'.setTy (r.symbol x) ty) := by
  refine ⟨?_, fun ref' hmem' y hy => ?_⟩
  · rw [Symbols.size_setTy, Symbols.size_setTy]
    exact h.here
  · by_cases hxy : y = x
    · subst hxy
      obtain ⟨hlt, hlt'⟩ := h.here ref' hmem' y hy
      rw [Symbols.ty_setTy_self _ hlt, Symbols.ty_setTy_self _ hlt']
    · have hne : r.symbol y ≠ r.symbol x := fun heq => hxy (r.injective heq)
      rw [Symbols.ty_setTy_of_ne _ hxy, Symbols.ty_setTy_of_ne _ hne]
      exact h.ty ref' hmem' y hy

namespace Typing

/-- Two checks that find the same types and make the same reports. -/
structure Matches {α τ : Type} (r : Renumbering) (rs : List Reference) (c c' : Checked α τ) :
    Prop where
  ty : c'.2.1 = c.2.1
  symbols : c.2.2.1.Alike r rs c'.2.2.1
  reports : c'.2.2.2 = c.2.2.2

section Matches

variable {r : Renumbering} {rs : List Reference} {sigs sigs' : Signatures}

mutual

/-- Nodes are checked alike that differ in numbers only. -/
theorem check_matches (hsigs : ∀ id : DeclId, sigs'[(r.decl id).index]? = sigs[id.index]?) :
    ∀ (n : Node) {s s' : Symbols}, s.Alike r rs s' → n.references ⊆ rs →
      Matches r rs (check sigs n s) (check sigs' (n.renumber r) s')
  | .const .., _, _, h, _ | .error .., _, _, h, _ => ⟨rfl, h, rfl⟩
  | .read _ x .., _, _, h, hsub => ⟨h.ty _ (hsub (List.mem_singleton_self _)) x rfl, h, rfl⟩
  | .binary op lhs rhs _ tag pos, s, s', h, hsub => by
    obtain ⟨hsl, hsr⟩ := List.append_subset.1 hsub
    have hl := check_matches hsigs lhs h hsl
    have hr := check_matches hsigs rhs hl.symbols hsr
    refine ⟨?_, hr.symbols, ?_⟩
    · simp only [Node.renumber, check, hl.ty, hr.ty]
    · simp only [Node.renumber, check, hl.ty, hr.ty, hl.reports, hr.reports]
  | .unary op operand _ pos, s, s', h, hsub => by
    have ho := check_matches hsigs operand h hsub
    refine ⟨?_, ho.symbols, ?_⟩
    · simp only [Node.renumber, check, ho.ty]
    · simp only [Node.renumber, check, ho.ty, ho.reports]
  | .ifThen test wty yes _ tag pos, s, s', h, hsub => by
    obtain ⟨hst, hsy⟩ := List.append_subset.1 hsub
    have ht := check_matches hsigs test h hst
    have hy := check_matches hsigs yes ht.symbols hsy
    refine ⟨?_, hy.symbols, ?_⟩
    · simp only [Node.renumber, check, hy.ty]
    · simp only [Node.renumber, check, ht.ty, hy.ty, ht.reports, hy.reports, pos_check,
        Node.pos_renumber]
  | .ifThenElse test wty yes no _ tag pos, s, s', h, hsub => by
    obtain ⟨hsub, hsn⟩ := List.append_subset.1 hsub
    obtain ⟨hst, hsy⟩ := List.append_subset.1 hsub
    have ht := check_matches hsigs test h hst
    have hy := check_matches hsigs yes ht.symbols hsy
    have hn := check_matches hsigs no hy.symbols hsn
    refine ⟨?_, hn.symbols, ?_⟩
    · simp only [Node.renumber, check, hy.ty, hn.ty]
    · simp only [Node.renumber, check, ht.ty, hy.ty, hn.ty, ht.reports, hy.reports, hn.reports,
        pos_check, Node.pos_renumber]
  | .block nodes _ pos, s, s', h, hsub => by
    have hn := checkAll_matches hsigs nodes h hsub
    refine ⟨?_, hn.symbols, hn.reports⟩
    simp only [Node.renumber, check, hn.ty]
  | .assign name x value _ pos, s, s', h, hsub => by
    obtain ⟨hsv, hsx⟩ := List.append_subset.1 hsub
    have hv := check_matches hsigs value h hsv
    have hx := hv.symbols.ty _ (hsx (List.mem_singleton_self _)) x rfl
    refine ⟨?_, hv.symbols, ?_⟩
    · simp only [Node.renumber, check, hv.ty, hx]
    · simp only [Node.renumber, check, hv.ty, hv.reports, hx, pos_check, Node.pos_renumber]
  | .declare _ x wty _, s, s', h, _ =>
    ⟨rfl, h.setTy x (some wty), rfl⟩
  | .define name x wty init pos, s, s', h, hsub => by
    have hv := check_matches hsigs init h (List.append_subset.1 hsub).1
    refine ⟨?_, ?_, ?_⟩
    · simp only [Node.renumber, check, hv.ty]
    · simp only [Node.renumber, check, hv.ty]
      exact hv.symbols.setTy x _
    · simp only [Node.renumber, check, hv.ty, hv.reports, pos_check, Node.pos_renumber]
  | .call name callee args _ pos, s, s', h, hsub => by
    have ha := checkAll_matches hsigs args h (List.append_subset.1 hsub).1
    rw [Node.renumber, check, check, hsigs]
    cases sigs[callee.index]? with
    | none => exact ⟨rfl, ha.symbols, ha.reports⟩
    | some sig =>
      refine ⟨rfl, ha.symbols, ?_⟩
      simp only [ha.ty, ha.reports]

theorem checkAll_matches (hsigs : ∀ id : DeclId, sigs'[(r.decl id).index]? = sigs[id.index]?) :
    ∀ (ns : List Node) {s s' : Symbols}, s.Alike r rs s' → Node.allReferences ns ⊆ rs →
      Matches r rs (checkAll sigs ns s) (checkAll sigs' (Node.allRenumber r ns) s')
  | [], _, _, h, _ => ⟨rfl, h, rfl⟩
  | n :: ns, s, s', h, hsub => by
    obtain ⟨hsn, hsns⟩ := List.append_subset.1 hsub
    have hn := check_matches hsigs n h hsn
    have hns := checkAll_matches hsigs ns hn.symbols hsns
    refine ⟨?_, hns.symbols, ?_⟩
    · simp only [Node.allRenumber, checkAll, hn.ty, hns.ty, pos_check, Node.pos_renumber]
    · simp only [Node.allRenumber, checkAll, hn.reports, hns.reports]

end

end Matches

end Typing

end CalcLang
