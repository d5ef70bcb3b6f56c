import CalcLang.Proofs.Placement
import CalcLang.Proofs.Pruning

/-!
# What an unresolved form hides

A call or an assignment whose target does not resolve is lowered to an error node, without its
operands. Mistakes in the names of the operands have been found by then, but their types are never
checked.

`Resolution.Repaired` compares a program with such a form to the program in which the target is
replaced by a name that does resolve. Both are built with the same symbols, and the first package is
the second one, pruned (`Resolution.Repaired.covered`). So checking reports less about it, and it
reports nothing inside the operands, as no node that is left stands there
(`Resolution.Repaired.hides`). `Package.unresolved_reveals_iff` is the result about source files.
-/

namespace CalcLang

namespace Resolution

/-! ## A target that does not resolve -/

mutual

/-- In a scope, the second expression is the first one with the target of one call or assignment,
which does not resolve there, replaced by a name that does. The operands of that form are the last
argument. -/
inductive Repaired : ScopeId → Names → Expr → Expr → List Expr → Prop
  | call {scope : ScopeId} {n : Names} {name : Ident} {args : List Expr} {pos : Pos}
    {d : Diagnostic} {callee : DeclId} (target : String)
    (hfail : (lowerAll scope args n).2.1.resolveDeclaration scope name = .error d)
    (hok : (lowerAll scope args n).2.1.resolveDeclaration scope ⟨target, name.pos⟩ = .ok callee) :
    Repaired scope n (.call name args pos) (.call ⟨target, name.pos⟩ args pos) args
  | assign {scope : ScopeId} {n : Names} {name : Ident} {value : Expr} {pos : Pos}
    {d : Diagnostic} {x : SymbolId} (target : String)
    (hfail : (lower scope value n).2.1.resolveVariable scope name .notAssignable = .error d)
    (hok : (lower scope value n).2.1.resolveVariable scope ⟨target, name.pos⟩ .notAssignable =
      .ok x) :
    Repaired scope n (.assign name value pos) (.assign ⟨target, name.pos⟩ value pos) [value]
  | lhs {scope : ScopeId} {n : Names} {op : BinaryOp} {lhs lhs' rhs : Expr} {pos : Pos}
    {parts : List Expr} (h : Repaired scope n lhs lhs' parts) :
    Repaired scope n (.binary op lhs rhs pos) (.binary op lhs' rhs pos) parts
  | rhs {scope : ScopeId} {n : Names} {op : BinaryOp} {lhs rhs rhs' : Expr} {pos : Pos}
    {parts : List Expr} (h : Repaired scope (lower scope lhs n).2.1 rhs rhs' parts) :
    Repaired scope n (.binary op lhs rhs pos) (.binary op lhs rhs' pos) parts
  | operand {scope : ScopeId} {n : Names} {op : UnaryOp} {operand operand' : Expr} {pos : Pos}
    {parts : List Expr} (h : Repaired scope n operand operand' parts) :
    Repaired scope n (.unary op operand pos) (.unary op operand' pos) parts
  | test {scope : ScopeId} {n : Names} {test test' yes : Expr} {ty : Option TypeExpr} {pos : Pos}
    {parts : List Expr} (h : Repaired scope n test test' parts) :
    Repaired scope n (.ifThen test ty yes pos) (.ifThen test' ty yes pos) parts
  | yes {scope inner : ScopeId} {n n' : Names} {test yes yes' : Expr} {ty : Option TypeExpr}
    {pos : Pos} {parts : List Expr}
    (henter : (lower scope test n).2.1.enterBranch scope yes = (inner, n'))
    (h : Repaired inner n' yes yes' parts) :
    Repaired scope n (.ifThen test ty yes pos) (.ifThen test ty yes' pos) parts
  | testElse {scope : ScopeId} {n : Names} {test test' yes no : Expr} {ty : Option TypeExpr}
    {pos : Pos} {parts : List Expr} (h : Repaired scope n test test' parts) :
    Repaired scope n (.ifThenElse test ty yes no pos) (.ifThenElse test' ty yes no pos) parts
  | yesElse {scope inner : ScopeId} {n n' : Names} {test yes yes' no : Expr}
    {ty : Option TypeExpr} {pos : Pos} {parts : List Expr}
    (henter : (lower scope test n).2.1.enterBranch scope yes = (inner, n'))
    (h : Repaired inner n' yes yes' parts) :
    Repaired scope n (.ifThenElse test ty yes no pos) (.ifThenElse test ty yes' no pos) parts
  | no {scope inner inner' : ScopeId} {n n' n'' : Names} {test yes no no' : Expr}
    {ty : Option TypeExpr} {pos : Pos} {parts : List Expr}
    (henter : (lower scope test n).2.1.enterBranch scope yes = (inner, n'))
    (henter' : (lower inner yes n').2.1.enterBranch scope no = (inner', n''))
    (h : Repaired inner' n'' no no' parts) :
    Repaired scope n (.ifThenElse test ty yes no pos) (.ifThenElse test ty yes no' pos) parts
  | init {scope : ScopeId} {n : Names} {name : Ident} {ty : Option TypeExpr} {init init' : Expr}
    {pos : Pos} {parts : List Expr} (h : Repaired scope n init init' parts) :
    Repaired scope n (.define name ty init pos) (.define name ty init' pos) parts
  | value {scope : ScopeId} {n : Names} {name : Ident} {value value' : Expr} {pos : Pos}
    {parts : List Expr} (h : Repaired scope n value value' parts) :
    Repaired scope n (.assign name value pos) (.assign name value' pos) parts
  | args {scope : ScopeId} {n : Names} {name : Ident} {args args' : List Expr} {pos : Pos}
    {parts : List Expr} (h : RepairedAll scope n args args' parts) :
    Repaired scope n (.call name args pos) (.call name args' pos) parts
  | block {scope : ScopeId} {n : Names} {exprs exprs' : List Expr} {pos : Pos} {parts : List Expr}
    (h : RepairedAll n.scopes.nextId (n.push scope) exprs exprs' parts) :
    Repaired scope n (.block exprs pos) (.block exprs' pos) parts

/-- `Repaired` for one of some expressions. -/
inductive RepairedAll : ScopeId → Names → List Expr → List Expr → List Expr → Prop
  | here {scope : ScopeId} {n : Names} {e e' : Expr} {es parts : List Expr}
    (h : Repaired scope n e e' parts) : RepairedAll scope n (e :: es) (e' :: es) parts
  | later {scope : ScopeId} {n : Names} {e : Expr} {es es' parts : List Expr}
    (h : RepairedAll scope (lower scope e n).2.1 es es' parts) :
    RepairedAll scope n (e :: es) (e :: es') parts

end

/-- `Repaired` for the body of a declaration. -/
inductive RepairedBody : ScopeId → Names → Expr → Expr → List Expr → Prop
  | block {scope : ScopeId} {n : Names} {exprs exprs' : List Expr} {pos : Pos} {parts : List Expr}
    (h : RepairedAll scope n exprs exprs' parts) :
    RepairedBody scope n (.block exprs pos) (.block exprs' pos) parts
  | single {scope : ScopeId} {n : Names} {e e' : Expr} {parts : List Expr}
    (hblock : e.isBlock = false) (h : Repaired scope n e e' parts) : RepairedBody scope n e e' parts

/-- `Repaired` for the body of one of some declarations. -/
inductive RepairedDecls :
    Names → List (Decl × SymbolId) → List (Decl × SymbolId) → List Expr → Prop
  | here {n n' : Names} {d : Decl} {x : SymbolId} {xs : List SymbolId} {ds : List (Decl × SymbolId)}
    {body : Expr} {reports : List Diagnostic} {parts : List Expr}
    (hparams : bindParams n.scopes.nextId d.params (n.push .package) = (xs, n', reports))
    (h : RepairedBody n.scopes.nextId n' d.body body parts) :
    RepairedDecls n ((d, x) :: ds) (({ d with body := body }, x) :: ds) parts
  | later {n : Names} {d : Decl} {x : SymbolId} {ds ds' : List (Decl × SymbolId)}
    {parts : List Expr} (h : RepairedDecls (lowerDecl d x n).2.1 ds ds' parts) :
    RepairedDecls n ((d, x) :: ds) ((d, x) :: ds') parts

/-- The second files declare what the first ones declare, and the bodies that are lowered are the
same but for one target. -/
def RepairedFiles (files files' : List (List Decl)) (parts : List Expr) : Prop :=
  ∃ accepted accepted' names reports,
    declareAll 0 files.flatten .initial = (accepted, names, reports) ∧
    declareAll 0 files'.flatten .initial = (accepted', names, reports) ∧
    RepairedDecls names accepted accepted' parts

/-! ## What is lowered -/

/-- The first lowering makes the same names as the second one, its result is the other one, pruned,
and it reports no less. -/
structure Covered {α : Type} (pruned : α → α → Prop) (r r' : Lowered α) : Prop where
  pruned : pruned r.1 r'.1
  names : r'.2.1 = r.2.1
  reports : r'.2.2.Sublist r.2.2

theorem Repaired.isBlock_eq {scope : ScopeId} {n : Names} {e e' : Expr} {parts : List Expr}
    (h : Repaired scope n e e' parts) : e'.isBlock = e.isBlock := by
  cases h <;> rfl

theorem Repaired.enterBranch {scope inner : ScopeId} {n n' : Names} {e e' : Expr}
    {parts : List Expr} (h : Repaired inner n' e e' parts) :
    n.enterBranch scope e' = n.enterBranch scope e := by
  rw [Names.enterBranch, Names.enterBranch, h.isBlock_eq]

mutual

/-- The operands of a form are lowered before its target is looked up. So a repair does not change
the names that are made, and what comes behind it is lowered alike. -/
theorem Repaired.covered : ∀ {scope : ScopeId} {n : Names} {e e' : Expr} {parts : List Expr},
    Repaired scope n e e' parts → Covered Pruned (lower scope e n) (lower scope e' n)
  | _, _, _, _, _, .call target hfail hok => by
    simp only [lower, hfail, hok]
    exact ⟨.error (.call ..), rfl, List.sublist_append_left ..⟩
  | _, _, _, _, _, .assign target hfail hok => by
    simp only [lower, hfail, hok]
    exact ⟨.error (.assign ..), rfl, List.sublist_append_left ..⟩
  | _, _, _, _, _, .lhs h => by
    obtain ⟨hp, hn, hr⟩ := h.covered
    simp only [lower, hn]
    exact ⟨.binary hp (.refl _), rfl, hr.append (.refl _)⟩
  | _, _, _, _, _, .rhs h => by
    obtain ⟨hp, hn, hr⟩ := h.covered
    exact ⟨.binary (.refl _) hp, hn, (List.Sublist.refl _).append hr⟩
  | _, _, _, _, _, .operand h => by
    obtain ⟨hp, hn, hr⟩ := h.covered
    exact ⟨.unary hp, hn, hr⟩
  | _, _, _, _, _, .test h => by
    obtain ⟨hp, hn, hr⟩ := h.covered
    simp only [lower, hn]
    exact ⟨.ifThen hp (.refl _), rfl, hr.append (.refl _)⟩
  | _, _, _, _, _, .yes henter h => by
    obtain ⟨hp, hn, hr⟩ := h.covered
    simp only [lower, h.enterBranch, henter]
    exact ⟨.ifThen (.refl _) hp, hn, (List.Sublist.refl _).append hr⟩
  | _, _, _, _, _, .testElse h => by
    obtain ⟨hp, hn, hr⟩ := h.covered
    simp only [lower, hn]
    exact ⟨.ifThenElse hp (.refl _) (.refl _), rfl, (hr.append (.refl _)).append (.refl _)⟩
  | _, _, _, _, _, .yesElse henter h => by
    obtain ⟨hp, hn, hr⟩ := h.covered
    simp only [lower, h.enterBranch, henter, hn]
    exact ⟨.ifThenElse (.refl _) hp (.refl _), rfl,
      ((List.Sublist.refl _).append hr).append (.refl _)⟩
  | _, _, _, _, _, .no henter henter' h => by
    obtain ⟨hp, hn, hr⟩ := h.covered
    simp only [lower, h.enterBranch, henter, henter']
    exact ⟨.ifThenElse (.refl _) (.refl _) hp, hn, (List.Sublist.refl _).append hr⟩
  | _, _, _, _, _, .init h => by
    obtain ⟨hp, hn, hr⟩ := h.covered
    simp only [lower, hn]
    exact ⟨.define hp, rfl, hr.append (.refl _)⟩
  | _, _, _, _, _, .value h => by
    obtain ⟨hp, hn, hr⟩ := h.covered
    simp only [lower, hn]
    -- If this target does not resolve either, both forms are cut off.
    generalize Names.resolveVariable _ _ _ _ = target
    cases target with
    | ok x => exact ⟨.assign hp, rfl, hr⟩
    | error d => exact ⟨.refl (.error _), rfl, hr.append (.refl _)⟩
  | _, _, _, _, _, .args h => by
    obtain ⟨hp, hn, hr⟩ := h.covered
    simp only [lower, hn]
    generalize Names.resolveDeclaration _ _ _ = target
    cases target with
    | ok callee => exact ⟨.call hp, rfl, hr⟩
    | error d => exact ⟨.refl (.error _), rfl, hr.append (.refl _)⟩
  | _, _, _, _, _, .block h => by
    obtain ⟨hp, hn, hr⟩ := h.covered
    exact ⟨.block hp, hn, hr⟩

theorem RepairedAll.covered : ∀ {scope : ScopeId} {n : Names} {es es' parts : List Expr},
    RepairedAll scope n es es' parts →
      Covered AllPruned (lowerAll scope es n) (lowerAll scope es' n)
  | _, _, _, _, _, .here h => by
    obtain ⟨hp, hn, hr⟩ := h.covered
    simp only [lowerAll, hn]
    exact ⟨.cons hp (.refl _), rfl, hr.append (.refl _)⟩
  | _, _, _, _, _, .later h => by
    obtain ⟨hp, hn, hr⟩ := h.covered
    exact ⟨.cons (.refl _) hp, hn, (List.Sublist.refl _).append hr⟩

end

theorem RepairedBody.covered {scope : ScopeId} {n : Names} {e e' : Expr} {parts : List Expr}
    (h : RepairedBody scope n e e' parts) :
    Covered Pruned (lowerBody scope e n) (lowerBody scope e' n) := by
  cases h with
  | block h =>
    obtain ⟨hp, hn, hr⟩ := h.covered
    exact ⟨.block hp, hn, hr⟩
  | single hblock h =>
    rw [lowerBody_of_isBlock hblock, lowerBody_of_isBlock (h.isBlock_eq.trans hblock)]
    exact h.covered

theorem RepairedDecls.covered {n : Names} {ds ds' : List (Decl × SymbolId)} {parts : List Expr}
    (h : RepairedDecls n ds ds' parts) :
    Covered DeclsPruned (lowerDecls ds n) (lowerDecls ds' n) := by
  induction h with
  | here hparams h =>
    obtain ⟨hp, hn, hr⟩ := h.covered
    simp only [lowerDecls, lowerDecl, hparams, hn]
    exact ⟨.cons (d := ⟨_, _, _, _, _, _, _⟩) hp (.refl _), rfl,
      ((List.Sublist.refl _).append hr).append (.refl _)⟩
  | @later n d x ds ds' _ _ ih =>
    obtain ⟨hp, hn, hr⟩ := ih
    exact ⟨.cons (d := (lowerDecl d x n).1) (.refl _) hp, hn, (List.Sublist.refl _).append hr⟩

/-! ## What is hidden -/

/-- Some expressions stand between two offsets of a file, and none of the positions lies inside one
of them. -/
structure Hides (file : FileId) (lo hi : Nat) (positions : List Pos) (parts : List Expr) :
    Prop where
  between : ∀ a ∈ parts, a.pos.Between file lo hi
  outside : ∀ q ∈ positions, ∀ a ∈ parts, ¬ q.Inside a.pos

namespace Hides

variable {file : FileId} {chain : Option Pos} {lo hi lo' hi' : Nat} {qs qs' : List Pos}
  {parts : List Expr} {pos : Pos}

theorem nil (h : ∀ a ∈ parts, a.pos.Between file lo hi) : Hides file lo hi [] parts := ⟨h, nofun⟩

theorem widen (h : Hides file lo hi qs parts) (hlo : lo' ≤ lo) (hhi : hi ≤ hi') :
    Hides file lo' hi' qs parts :=
  ⟨fun a ha => (h.between a ha).widen hlo hhi, h.outside⟩

theorem before (h : Hides file lo hi qs parts) (hqs : ∀ q ∈ qs', q.span.start < lo) :
    Hides file lo hi (qs' ++ qs) parts :=
  ⟨h.between, List.forall_mem_append.2
    ⟨fun q hq a ha => (h.between a ha).not_inside_before (hqs q hq), h.outside⟩⟩

theorem behind (h : Hides file lo hi qs parts) (hqs : ∀ q ∈ qs', q.Between file hi hi')
    (hle : hi ≤ hi') : Hides file lo hi' (qs ++ qs') parts :=
  ⟨fun a ha => (h.between a ha).widen le_rfl hle, List.forall_mem_append.2
    ⟨h.outside, fun q hq a ha => (h.between a ha).not_inside_behind (hqs q hq) le_rfl⟩⟩

/-- Behind an expression that is lowered as a whole. -/
theorem before_lower {e : Expr} (h : Hides file lo' hi qs parts) (he : Placed file none lo lo' e)
    (scope : ScopeId) (n : Names) :
    Hides file lo hi ((lower scope e n).1.positions ++ qs) parts := by
  refine (h.before fun q hq => ?_).widen he.le le_rfl
  have hbetween := (near_lower scope n he q hq).between
  exact hbetween.nonempty.trans_le hbetween.stop

/-- Before an expression that is lowered as a whole. -/
theorem behind_lower {e : Expr} (h : Hides file lo hi qs parts) (he : Placed file none hi hi' e)
    (scope : ScopeId) (n : Names) :
    Hides file lo hi' (qs ++ (lower scope e n).1.positions) parts :=
  h.behind (fun q hq => (near_lower scope n he q hq).between) he.le

/-- In the room of a form, whose own position lies inside none of its operands. -/
theorem room (r : Room file chain lo hi pos lo' hi') (h : Hides file lo' hi' qs parts) :
    Hides file lo hi (pos :: qs) parts :=
  (h.before (List.forall_mem_singleton.2 r.opening)).widen r.left r.right

/-- Behind what starts a chain, which may be at the position of the chain. -/
theorem before_first {lhs : Expr} (h : Hides file lo' hi qs parts)
    (hlhs : Placed file (some pos) lo lo' lhs) (hpos : pos.span.start < lo) (scope : ScopeId)
    (n : Names) : Hides file lo hi ((lower scope lhs n).1.positions ++ qs) parts := by
  refine (h.before fun q hq => ?_).widen hlhs.le le_rfl
  rcases near_lower scope n hlhs q hq with hchain | hbetween
  · cases hchain
    exact hpos.trans_le hlhs.le
  · exact hbetween.nonempty.trans_le hbetween.stop

end Hides

mutual

/-- What is left stands outside the operands of the form that does not resolve. -/
theorem Repaired.hides {file : FileId} : ∀ {scope : ScopeId} {n : Names} {e e' : Expr}
    {parts : List Expr} {chain : Option Pos} {lo hi : Nat}, Repaired scope n e e' parts →
      Placed file chain lo hi e → Hides file lo hi (lower scope e n).1.positions parts
  | _, _, _, _, _, _, _, _, .call target hfail _, .call r ha => by
    simp only [lower, hfail]
    exact .room r (.nil ha.pos_between)
  | _, _, _, _, _, _, _, _, .assign target hfail _, .assign r hv => by
    simp only [lower, hfail]
    exact .room r (.nil (List.forall_mem_singleton.2 hv.pos_near.between))
  | _, _, _, _, _, _, _, _, .lhs h, .binary r hl hr => .room r ((h.hides hl).behind_lower hr _ _)
  | _, _, _, _, _, _, _, _, .rhs h, .binary r hl hr =>
    .room r ((h.hides hr).before_first hl r.opening _ _)
  | _, _, _, _, _, _, _, _, .operand h, .unary r ho => .room r (h.hides ho)
  | _, _, _, _, _, _, _, _, .test h, .ifThen r ht hy => .room r ((h.hides ht).behind_lower hy _ _)
  | _, _, _, _, _, _, _, _, .yes henter h, .ifThen r ht hy => by
    simp only [lower, henter]
    exact .room r ((h.hides hy).before_lower ht _ _)
  | _, _, _, _, _, _, _, _, .testElse h, .ifThenElse r ht hy hn => by
    refine .room r ?_
    rw [← List.append_assoc]
    exact ((h.hides ht).behind_lower hy _ _).behind_lower hn _ _
  | _, _, _, _, _, _, _, _, .yesElse henter h, .ifThenElse r ht hy hn => by
    simp only [lower, henter]
    exact .room r (((h.hides hy).behind_lower hn _ _).before_lower ht _ _)
  | _, _, _, _, _, _, _, _, .no henter henter' h, .ifThenElse r ht hy hn => by
    simp only [lower, henter, henter']
    exact .room r (((h.hides hn).before_lower hy _ _).before_lower ht _ _)
  | _, _, _, _, _, _, _, _, .init h, .define r hv => .room r (h.hides hv)
  | _, _, _, _, _, _, _, _, .value h, .assign r hv => by
    have hvalue := h.hides hv
    rw [lower]
    dsimp only
    split
    · exact .room r hvalue
    · exact .room r (.nil hvalue.between)
  | _, _, _, _, _, _, _, _, .args h, .call r ha => by
    have hargs := h.hides ha
    rw [lower]
    dsimp only
    split
    · exact .room r hargs
    · exact .room r (.nil hargs.between)
  | _, _, _, _, _, _, _, _, .block h, .block r he => .room r (h.hides he)

theorem RepairedAll.hides {file : FileId} : ∀ {scope : ScopeId} {n : Names}
    {es es' parts : List Expr} {lo hi : Nat}, RepairedAll scope n es es' parts →
      AllPlaced file lo hi es → Hides file lo hi (Node.allPositions (lowerAll scope es n).1) parts
  | _, _, _, _, _, _, _, .here h, .cons he hes =>
    (h.hides he).behind (fun q hq => between_lowerAll _ _ hes q hq) hes.le
  | _, _, _, _, _, _, _, .later h, .cons he hes => (h.hides hes).before_lower he _ _

end

theorem RepairedBody.hides {file : FileId} {scope : ScopeId} {n : Names} {e e' : Expr}
    {parts : List Expr} {lo hi : Nat} (h : RepairedBody scope n e e' parts)
    (he : Placed file none lo hi e) :
    Hides file lo hi (lowerBody scope e n).1.positions parts := by
  cases h with
  | block h =>
    cases he with
    | block r hes => exact .room r (h.hides hes)
  | single hblock h =>
    rw [lowerBody_of_isBlock hblock]
    exact h.hides he

/-- What is lowered of declarations stands inside them. -/
theorem contains_lowerDecls {ds : List (Decl × SymbolId)} (hs : Spread (ds.map Prod.fst))
    (n : Names) : ∀ q ∈ (lowerDecls ds n).1.flatMap fun d => d.body.positions,
      ∃ d ∈ ds.map Prod.fst, d.Contains q := by
  induction ds generalizing n with
  | nil => exact nofun
  | cons d ds ih =>
    intro q hq
    rcases List.mem_append.1 hq with hq | hq
    · exact ⟨d.1, List.mem_cons_self, between_lowerBody _ _ (hs.placed _ List.mem_cons_self) q hq⟩
    · obtain ⟨e, he, hcontains⟩ := ih (hs.of_sublist (List.sublist_cons_self ..)) _ q hq
      exact ⟨e, List.mem_cons_of_mem _ he, hcontains⟩

theorem RepairedDecls.hides {n : Names} {ds ds' : List (Decl × SymbolId)} {parts : List Expr}
    (h : RepairedDecls n ds ds' parts) (hs : Spread (ds.map Prod.fst)) :
    (∃ d ∈ ds.map Prod.fst, ∀ a ∈ parts, d.Contains a.pos) ∧
      ∀ q ∈ (lowerDecls ds n).1.flatMap fun d => d.body.positions,
        ∀ a ∈ parts, ¬ q.Inside a.pos := by
  induction h with
  | @here n _ d _ _ ds _ _ _ hparams h =>
    have hbody := h.hides (hs.placed d List.mem_cons_self)
    refine ⟨⟨d, List.mem_cons_self, hbody.between⟩, fun q hq a ha => ?_⟩
    simp only [lowerDecls, lowerDecl, hparams, List.flatMap_cons] at hq
    rcases List.mem_append.1 hq with hq | hq
    · exact hbody.outside q hq a ha
    · have hrest := hs.of_sublist (List.sublist_cons_self ..)
      obtain ⟨e, he, hcontains⟩ := contains_lowerDecls hrest _ q hq
      exact ((List.rel_of_pairwise_cons hs.before he).not_inside (hbody.between a ha) hcontains).2
  | @later n d _ ds _ _ _ ih =>
    obtain ⟨⟨e, he, hparts⟩, hrest⟩ := ih (hs.of_sublist (List.sublist_cons_self ..))
    refine ⟨⟨e, List.mem_cons_of_mem _ he, hparts⟩, fun q hq a ha => ?_⟩
    rcases List.mem_append.1 hq with hq | hq
    · have hcontains := between_lowerBody _ _ (hs.placed d List.mem_cons_self) q hq
      exact ((List.rel_of_pairwise_cons hs.before he).not_inside hcontains (hparts a ha)).1
    · exact hrest q hq a ha

theorem sublist_declareAll (accepted : Nat) (ds : List Decl) (n : Names) :
    ((declareAll accepted ds n).1.map Prod.fst).Sublist ds := by
  induction ds generalizing accepted n with
  | nil => exact .refl _
  | cons d ds ih =>
    rw [declareAll]
    split
    · exact (ih _ _).cons d
    · exact (ih _ _).cons_cons d

end Resolution

open Resolution

namespace Package

/-- What building and checking report about the declarations of files. -/
def reports (name : String) (files : List (List Decl)) : List Diagnostic :=
  (build name files).2 ++ ((build name files).1.check (stage_build name files)).2

/-- The mistakes in types inside some expressions that the second reports tell of are among the
first ones. -/
def Reveals (parts : List Expr) (found found' : List Diagnostic) : Prop :=
  ∀ d ∈ found', d.IsTyping → (∃ a ∈ parts, d.pos.Inside a.pos) → d ∈ found

/-- A mistake in types is found by checking. -/
theorem mem_check_of_mem_reports {name : String} {files : List (List Decl)} {d : Diagnostic}
    (hd : d ∈ reports name files) (ht : d.IsTyping) :
    d ∈ ((build name files).1.check (stage_build name files)).2 := by
  refine (List.mem_append.1 hd).resolve_left fun hb => ?_
  have hn := (all_build name files).of_mem d hb
  unfold Diagnostic.IsTyping at ht
  unfold Diagnostic.IsNaming at hn
  cases hk : d.kind <;> simp_all

section

variable {files files' : List (List Decl)} {parts : List Expr}

/-- The package with the form that does not resolve is the other one, pruned, and building it
reports no less. -/
theorem covered_build (name : String) (h : RepairedFiles files files' parts) :
    (build name files).1.Pruned (build name files').1 ∧
      (build name files').2.Sublist (build name files).2 := by
  obtain ⟨accepted, accepted', names, reports, hfiles, hfiles', h⟩ := h
  obtain ⟨hp, hn, hr⟩ := h.covered
  simp only [build, hfiles, hfiles', hn]
  exact ⟨⟨_, hp, rfl⟩, (List.Sublist.refl _).append hr⟩

/-- No node of the package is inside the operands. -/
theorem not_inside_of_mem_positions (name : String) (h : RepairedFiles files files' parts)
    (hs : Spread files.flatten) :
    ∀ q ∈ (build name files).1.positions, ∀ a ∈ parts, ¬ q.Inside a.pos := by
  obtain ⟨accepted, accepted', names, reports, hfiles, -, h⟩ := h
  have hsub := sublist_declareAll 0 files.flatten .initial
  rw [hfiles] at hsub
  have hhides := (h.hides (hs.of_sublist hsub)).2
  simp only [positions, build, hfiles]
  exact hhides

end

/-- **What an unresolved form hides.** Source files are compared to declarations that differ from
theirs in the target of one call or assignment, which does not resolve in the files and does in the
declarations. All mistakes in names that are found in the declarations are found in the files.
Checking reports less about the files, and nothing inside the operands of the form. So the mistakes
in types that are found inside the operands of the declarations are found in the files only if there
are none. -/
theorem unresolved_reveals_iff (name : String) (sources : SourceMap) {files' : List (List Decl)}
    {parts : List Expr} (h : RepairedFiles sources.decls files' parts) :
    let p := build name sources.decls
    let p' := build name files'
    p'.2.Sublist p.2 ∧ (p.1.check rfl).2.Sublist (p'.1.check rfl).2 ∧
      (∀ d ∈ reports name sources.decls, d.IsTyping → ∀ a ∈ parts, ¬ d.pos.Inside a.pos) ∧
      (Reveals parts (reports name sources.decls) (reports name files') ↔
        ∀ d ∈ reports name files', d.IsTyping → ∀ a ∈ parts, ¬ d.pos.Inside a.pos) := by
  intro p p'
  obtain ⟨hpruned, hnames⟩ := covered_build name h
  have hchecked : (p.1.check rfl).2.Sublist (p'.1.check rfl).2 :=
    hpruned.sublist_check (fresh_build name files') rfl rfl
  have hhidden : ∀ d ∈ reports name sources.decls, d.IsTyping →
      ∀ a ∈ parts, ¬ d.pos.Inside a.pos := fun d hd ht =>
    have hplace := (p.1.disagreements_check rfl).of_mem d (mem_check_of_mem_reports hd ht)
    not_inside_of_mem_positions name h sources.spread_decls d.pos hplace.pos_mem
  refine ⟨hnames, hchecked, hhidden, fun hreveals d hd ht a ha hin => ?_,
    fun hnone d hd ht ⟨a, ha, hin⟩ => absurd hin (hnone d hd ht a ha)⟩
  exact hhidden d (hreveals d hd ht ⟨a, ha, hin⟩) ht a ha hin

/-- For an example: two declarations, of which the second one calls `target` with a sum that adds
`true` to a number. -/
def wrongArgument (target : String) : List Decl :=
  let at' := fun start stop => Pos.mk ⟨0⟩ ⟨start, stop⟩
  [⟨⟨"f", at' 6 7⟩, [⟨⟨"x", at' 9 10⟩, .int, at' 11 14⟩], ⟨.int, at' 16 19⟩,
      .name ⟨"x", at' 20 21⟩, at' 0 22⟩,
    ⟨⟨"main", at' 29 33⟩, [], ⟨.int, at' 34 37⟩,
      .call ⟨target, at' 39 40⟩
        [.binary .add (.int .zero (at' 44 45)) (.bool true (at' 46 50)) (at' 41 51)] (at' 38 52),
      at' 23 53⟩]

/-- The text of `wrongArgument` where nothing is called `g`. -/
def wrongArgumentSource : SourceMap :=
  .ofList [("main.calc", "(decl f (x int) int x)\n(decl main int (g (+ 0 true)))\n")]

theorem scan_wrongArgumentSource :
    Token.scan "(decl f (x int) int x)\n(decl main int (g (+ 0 true)))\n" =
      [⟨.leftParen, ⟨0, 1⟩, "("⟩, ⟨.decl, ⟨1, 5⟩, "decl"⟩, ⟨.ident, ⟨6, 7⟩, "f"⟩,
        ⟨.leftParen, ⟨8, 9⟩, "("⟩, ⟨.ident, ⟨9, 10⟩, "x"⟩, ⟨.intWord, ⟨11, 14⟩, "int"⟩,
        ⟨.rightParen, ⟨14, 15⟩, ")"⟩, ⟨.intWord, ⟨16, 19⟩, "int"⟩, ⟨.ident, ⟨20, 21⟩, "x"⟩,
        ⟨.rightParen, ⟨21, 22⟩, ")"⟩, ⟨.leftParen, ⟨23, 24⟩, "("⟩, ⟨.decl, ⟨24, 28⟩, "decl"⟩,
        ⟨.ident, ⟨29, 33⟩, "main"⟩, ⟨.intWord, ⟨34, 37⟩, "int"⟩, ⟨.leftParen, ⟨38, 39⟩, "("⟩,
        ⟨.ident, ⟨39, 40⟩, "g"⟩, ⟨.leftParen, ⟨41, 42⟩, "("⟩, ⟨.plus, ⟨42, 43⟩, "+"⟩,
        ⟨.intLiteral, ⟨44, 45⟩, "0"⟩, ⟨.trueWord, ⟨46, 50⟩, "true"⟩,
        ⟨.rightParen, ⟨50, 51⟩, ")"⟩, ⟨.rightParen, ⟨51, 52⟩, ")"⟩, ⟨.rightParen, ⟨52, 53⟩, ")"⟩,
        ⟨.eof, ⟨54, 54⟩, ""⟩] := by
  decide +kernel

theorem decls_wrongArgumentSource : wrongArgumentSource.decls = [wrongArgument "g"] := by
  change [(Parse.ofTokens ⟨0⟩ (Token.scan _)).decls] = _
  rw [scan_wrongArgumentSource]
  rfl

/-- The sum in `wrongArgument`. -/
def wrongSum : Expr :=
  .binary .add (.int .zero ⟨⟨0⟩, ⟨44, 45⟩⟩) (.bool true ⟨⟨0⟩, ⟨46, 50⟩⟩) ⟨⟨0⟩, ⟨41, 51⟩⟩

theorem repaired_wrongArgument :
    RepairedFiles wrongArgumentSource.decls [wrongArgument "f"] [wrongSum] := by
  rw [decls_wrongArgumentSource]
  exact ⟨_, _, _, _, rfl, rfl, .later (.here rfl (.single rfl (.call "f" rfl rfl)))⟩

theorem reports_wrongArgument :
    reports "main" wrongArgumentSource.decls = [⟨.unresolvedName "g", ⟨⟨0⟩, ⟨39, 40⟩⟩⟩] ∧
      reports "main" [wrongArgument "f"] =
        [Typing.mismatch .int .bool .operand ⟨⟨0⟩, ⟨41, 51⟩⟩] := by
  rw [decls_wrongArgumentSource]
  exact ⟨by decide, by decide⟩

/-- The sum is reported only once the call of `g` is one of `f`. -/
theorem unresolved_reveals_iff_wrongArgument :
    RepairedFiles wrongArgumentSource.decls [wrongArgument "f"] [wrongSum] ∧
      ¬ Reveals [wrongSum] (reports "main" wrongArgumentSource.decls)
        (reports "main" [wrongArgument "f"]) := by
  refine ⟨repaired_wrongArgument, fun hreveals => ?_⟩
  have hiff := (unresolved_reveals_iff "main" wrongArgumentSource repaired_wrongArgument).2.2.2
  have hnone := hiff.1 hreveals
  rw [reports_wrongArgument.2] at hnone
  exact hnone _ List.mem_cons_self trivial wrongSum List.mem_cons_self ⟨rfl, le_rfl, le_rfl⟩

/-- Mistakes in types inside the operands of a form that does not resolve are not always reported:
in `wrongArgumentSource` only the name `g` is. -/
theorem not_unresolved_reveals :
    ¬ ∀ (name : String) (sources : SourceMap) (files' : List (List Decl)) (parts : List Expr),
      RepairedFiles sources.decls files' parts →
        Reveals parts (reports name sources.decls) (reports name files') := by
  intro h
  have hsum := h "main" wrongArgumentSource _ _ repaired_wrongArgument
  rw [reports_wrongArgument.1, reports_wrongArgument.2] at hsum
  have hmem := hsum _ List.mem_cons_self trivial ⟨wrongSum, List.mem_cons_self, rfl, le_rfl, le_rfl⟩
  cases List.mem_singleton.1 hmem

end Package

end CalcLang
