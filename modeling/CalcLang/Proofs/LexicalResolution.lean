import CalcLang.Proofs.Building
import CalcLang.Proofs.Lexical

/-!
# Names are resolved lexically

`Package.build` keeps all scopes in one table and looks names up along the parents of a scope;
`Lexical.resolve` has nothing but the frames around a point. Both go through a program in the same
order, so the scope that lowering goes on in stays the picture of the frames (`Mirrors`): the scope
binds what the innermost frame binds, and the scopes around it bind what the other frames bind.

The scopes outside are not one for each frame. A branch of an `if` has a frame, and a block has
one, but a block that is a branch opens only one scope. So `Mirrors` asks for equal results of
lookups there.

What comes out are the same nodes, symbols and diagnostics
(`Package.build_resolves_lexically`), also of programs with mistakes.
-/

namespace CalcLang

/-- What a declaration keeps of its source, with resolved names. -/
def Declaration.function (d : Declaration) : Lexical.Function :=
  ⟨d.name, d.symbol, d.params, d.ret, d.body, d.pos⟩

namespace Resolution

open Lexical

/-! ## Frames and scopes -/

/-- The names of a frame, with the numbers of their symbols. -/
def bindings (frame : Frame) : ScopeTable.Bindings := frame.map fun b => (b.1, b.2.id)

theorem bindings_append (frame added : Frame) :
    bindings (frame ++ added) = bindings frame ++ bindings added :=
  List.map_append

theorem lookup_bindings (frame : Frame) (name : String) :
    (bindings frame).lookup name = (frame.lookup name).map Binding.id := by
  induction frame with
  | nil => rfl
  | cons b frame ih =>
    simp only [bindings, List.map_cons] at ih ⊢
    rw [List.lookup_cons, List.lookup_cons, ih]
    split <;> rfl

/-- The table has the symbols that a frame binds names to. -/
def Recorded (symbols : Symbols) (frame : Frame) : Prop :=
  ∀ b ∈ frame, symbols.get? b.2.id = some b.2.symbol

theorem Recorded.mono {scope : ScopeId} {n n' : Names} {added : ScopeTable.Bindings}
    {frame : Frame} (h : Recorded n.symbols frame) (hg : n.Grows scope n' added) :
    Recorded n'.symbols frame := by
  intro b hb
  have hlt : b.2.id.index < n.symbols.size := (Array.getElem?_eq_some_iff.1 (h b hb)).1
  rw [Symbols.get?, hg.symbols _ hlt]
  exact h b hb

theorem Recorded.get?_of_lookup {symbols : Symbols} {frame : Frame} (h : Recorded symbols frame)
    {name : String} {b : Binding} (hb : frame.lookup name = some b) :
    symbols.get? b.id = some b.symbol := by
  obtain ⟨before, after, rfl, -⟩ := List.lookup_eq_some_iff.1 hb
  exact h (name, b) (by simp)

/-- The scope `scope` and the scopes around it are a picture of the frames of `p`. -/
structure Mirrors (n : Names) (scope : ScopeId) (p : Point) : Prop where
  symbols : n.symbols.toList = p.symbols
  frames : ∃ frame frames outer, p.frames = frame :: frames ∧
    n.scopes.Chain scope (bindings frame :: outer) ∧
    ∀ name, ScopeTable.find outer name = (find? frames name).map Binding.id
  recorded : ∀ frame ∈ p.frames, Recorded n.symbols frame

/-- `n'` and `p'` come from `n` and `p` by binding the same names in `scope` and in the innermost
frame, and by adding the same symbols. -/
def Follows (scope : ScopeId) (n : Names) (p : Point) (n' : Names) (p' : Point) : Prop :=
  ∃ frame frames added, p.frames = frame :: frames ∧ p'.frames = (frame ++ added) :: frames ∧
    n.Grows scope n' (bindings added) ∧ n'.symbols.toList = p'.symbols ∧
    Recorded n'.symbols added

/-- A result of lowering and a result of resolving are the same, and the names and the point behind
it follow those before it. -/
def Agrees {α : Type} (scope : ScopeId) (n : Names) (p : Point) (l : Lowered α) (o : Outcome α) :
    Prop :=
  ∃ a n' p' d, l = (a, n', d) ∧ o = (a, p', d) ∧ Follows scope n p n' p'

namespace Follows

variable {scope : ScopeId} {n n' n'' : Names} {p p' p'' : Point}

theorem trans (h : Follows scope n p n' p') (h' : Follows scope n' p' n'' p'') :
    Follows scope n p n'' p'' := by
  obtain ⟨frame, frames, added, hp, hp', hg, -, hr⟩ := h
  obtain ⟨_, _, added', hq, hp'', hg', hs, hr'⟩ := h'
  rw [hp'] at hq
  cases hq
  refine ⟨frame, frames, added ++ added', hp, ?_, ?_, hs, ?_⟩
  · rw [hp'', List.append_assoc]
  · rw [bindings_append]
    exact hg.trans hg'
  · intro b hb
    rcases List.mem_append.1 hb with hb | hb
    · exact hr.mono hg' b hb
    · exact hr' b hb

theorem tail (h : Follows scope n p n' p') : p'.frames.tail = p.frames.tail := by
  obtain ⟨frame, frames, added, hp, hp', -⟩ := h
  rw [hp, hp', List.tail_cons, List.tail_cons]

end Follows

namespace Mirrors

variable {scope : ScopeId} {n n' : Names} {p p' : Point}

theorem index_lt (h : Mirrors n scope p) : scope.index < n.scopes.scopes.size := by
  obtain ⟨_, _, _, -, hc, -⟩ := h.frames
  exact hc.index_lt

theorem refl (h : Mirrors n scope p) : Follows scope n p n p := by
  obtain ⟨frame, frames, _, hp, -⟩ := h.frames
  exact ⟨frame, frames, [], hp, by simpa using hp, .refl scope n, h.symbols, by simp [Recorded]⟩

theorem follow (h : Mirrors n scope p) (hf : Follows scope n p n' p') : Mirrors n' scope p' := by
  obtain ⟨frame, frames, outer, hp, hc, ho⟩ := h.frames
  obtain ⟨_, _, added, hq, hp', hg, hs, hr⟩ := hf
  rw [hp] at hq
  cases hq
  refine ⟨hs, ⟨frame ++ added, frames, outer, hp', ?_, ho⟩, ?_⟩
  · have := hc.index_lt
    rw [bindings_append]
    exact hc.append (fun j hj => hg.others j (by omega) (by omega)) hg.here
  · intro f hf b hb
    rw [hp'] at hf
    rcases List.mem_cons.1 hf with rfl | hf
    · rcases List.mem_append.1 hb with hb | hb
      · exact (h.recorded frame (by simp [hp])).mono hg b hb
      · exact hr b hb
    · exact (h.recorded f (by simp [hp, hf])).mono hg b hb

/-! ## Lookups -/

theorem resolve?_eq (h : Mirrors n scope p) (name : String) :
    n.scopes.resolve? scope name = (find? p.frames name).map Binding.id := by
  obtain ⟨frame, frames, outer, hp, hc, ho⟩ := h.frames
  rw [hc.resolve?_eq, hp]
  have hcons : ScopeTable.find (bindings frame :: outer) name =
      ((bindings frame).lookup name).or (ScopeTable.find outer name) := by
    simp [ScopeTable.find, List.findSome?_cons]
    cases (bindings frame).lookup name <;> rfl
  have hcons' : find? (frame :: frames) name = (frame.lookup name).or (find? frames name) := by
    simp [find?, List.findSome?_cons]
    cases frame.lookup name <;> rfl
  rw [hcons, hcons', lookup_bindings, ho]
  cases frame.lookup name <;> rfl

theorem get?_of_find? (h : Mirrors n scope p) {name : String} {b : Binding}
    (hb : find? p.frames name = some b) : n.symbols.get? b.id = some b.symbol := by
  obtain ⟨frame, hf, hb⟩ := List.exists_of_findSome?_eq_some hb
  exact (h.recorded frame hf).get?_of_lookup hb

/-- A name stands for what the innermost frame that has it binds it to. -/
theorem resolve_eq (h : Mirrors n scope p) (ident : Ident) :
    n.resolve scope ident =
      match find? p.frames ident.name with
      | none => .error ⟨.unresolvedName ident.name, ident.pos⟩
      | some b => .ok (b.id, b.symbol) := by
  rw [Names.resolve, h.resolve?_eq]
  cases hb : find? p.frames ident.name with
  | none => rfl
  | some b => simp [h.get?_of_find? hb]

theorem resolveVariable_eq (h : Mirrors n scope p) (ident : Ident)
    (misuse : String → Diagnostic.Kind) :
    n.resolveVariable scope ident misuse = p.var? ident misuse := by
  rw [Names.resolveVariable, h.resolve_eq, Point.var?]
  cases find? p.frames ident.name with
  | none => rfl
  | some b =>
    simp only [Bind.bind, Except.bind, Symbol.declaration?]
    cases b.symbol.kind <;> rfl

theorem resolveDeclaration_eq (h : Mirrors n scope p) (ident : Ident) :
    n.resolveDeclaration scope ident = p.declaration? ident := by
  rw [Names.resolveDeclaration, h.resolve_eq, Point.declaration?]
  cases find? p.frames ident.name with
  | none => rfl
  | some b =>
    simp only [Bind.bind, Except.bind, Symbol.declaration?]
    cases b.symbol.kind <;> rfl

/-! ## Binding names, and scopes inside -/

theorem nextSymbol_eq (h : Mirrors n scope p) : n.nextSymbol = ⟨p.symbols.length⟩ := by
  rw [← h.symbols]
  simp [Names.nextSymbol]

/-- A name that the frame binds already is reported, and a new one is bound to the same symbol. -/
theorem bind_agrees (h : Mirrors n scope p) (ident : Ident) (kind : SymbolKind)
    (ty : Option Ty) :
    ∃ n' p' d, n.bind scope ident kind ty = (n', d) ∧ p.bind ident kind ty = (p', d) ∧
      Follows scope n p n' p' := by
  obtain ⟨frame, frames, outer, hp, hc, ho⟩ := h.frames
  have hlocal := hc.lookupLocal_eq ident.name
  rw [lookup_bindings] at hlocal
  obtain ⟨_, symbols⟩ := p
  obtain rfl : _ = frame :: frames := hp
  let symbol : Symbol := ⟨ident.name, kind, ty, none, ident.pos⟩
  cases hl : frame.lookup ident.name with
  | some first =>
    have hpos : n.symbols.pos first.id = first.symbol.pos := by
      rw [Symbols.pos, (h.recorded frame (by simp)).get?_of_lookup hl]
    refine ⟨n.addSymbol ident kind ty, ⟨frame :: frames, symbols ++ [symbol]⟩,
      [⟨.redeclaration ident.name first.symbol.pos, ident.pos⟩], ?_, ?_, frame, frames, [], rfl,
      by simp, .of_addSymbol .., ?_, by simp [Recorded]⟩
    · simp only [Names.bind, hlocal, hl, Option.map_some, hpos]
    · simp only [Point.bind, hl, symbol]
    · rw [Names.addSymbol, Array.toList_push, h.symbols]
  | none =>
    obtain ⟨n', hn'⟩ : ∃ n', n.bind scope ident kind ty = (n', []) := by
      simp [Names.bind, hlocal, hl]
    obtain ⟨hg, hs⟩ := Names.grows_of_bind hn'
    rw [h.nextSymbol_eq] at hg
    let added : Frame := [(ident.name, ⟨⟨symbols.length⟩, symbol⟩)]
    refine ⟨n', ⟨(frame ++ added) :: frames, symbols ++ [symbol]⟩, [], hn', ?_, frame, frames,
      added, rfl, rfl, hg, ?_, ?_⟩
    · simp only [Point.bind, hl, symbol, added]
    · rw [hs, Array.toList_push, h.symbols]
    · intro b hb
      obtain rfl := List.mem_singleton.1 hb
      have hid : n.symbols.size = symbols.length := by rw [← Array.length_toList, h.symbols]
      rw [Symbols.get?, hs, ← hid, Array.getElem?_push_size]

/-- A scope opened inside another one is a picture of a new frame. -/
theorem push (h : Mirrors n scope p) : Mirrors (n.push scope) n.scopes.nextId p.enter := by
  obtain ⟨frame, frames, outer, hp, hc, ho⟩ := h.frames
  refine ⟨h.symbols, ⟨[], p.frames, _, rfl, hc.push, fun name => ?_⟩, ?_⟩
  · rw [← hc.resolve?_eq, h.resolve?_eq]
  · intro f hf
    rcases List.mem_cons.1 hf with rfl | hf
    · simp [Recorded]
    · exact h.recorded f hf

/-- A frame without names may stand between the new frame and those around it. -/
theorem push_of_block (h : Mirrors n scope p) :
    Mirrors (n.push scope) n.scopes.nextId p.enter.enter := by
  obtain ⟨frame, frames, outer, hp, hc, ho⟩ := h.push.frames
  cases hp
  exact ⟨h.symbols, ⟨[], [] :: p.frames, outer, rfl, hc, ho⟩, by
    intro f hf
    rcases List.mem_cons.1 hf with rfl | hf
    · simp [Recorded]
    · exact h.push.recorded f hf⟩

/-- What is bound in a new scope is not bound outside. -/
theorem leave (h : Mirrors n scope p) {q r : Point}
    (hf : Follows n.scopes.nextId (n.push scope) q n' p') (hr : r.frames = p.frames)
    (hs : r.symbols = p'.symbols) : Follows scope n p n' r := by
  obtain ⟨frame, frames, _, hp, -⟩ := h.frames
  obtain ⟨_, _, _, -, -, hg, hs', -⟩ := hf
  exact ⟨frame, frames, [], hp, by rw [hr, hp, List.append_nil], hg.of_push h.index_lt,
    hs'.trans hs.symm, by simp [Recorded]⟩

end Mirrors

/-! ## Expressions -/

mutual

/-- Lowering an expression agrees with resolving it. -/
theorem lower_agrees {scope : ScopeId} {n : Names} {p : Point} (h : Mirrors n scope p)
    (e : Expr) : Agrees scope n p (lower scope e n) (resolve e p) := by
  match e with
  | .int value pos => exact ⟨_, _, _, _, by rw [lower], by rw [resolve], h.refl⟩
  | .bool value pos => exact ⟨_, _, _, _, by rw [lower], by rw [resolve], h.refl⟩
  | .name ident =>
    rw [lower, resolve, h.resolveVariable_eq]
    cases p.var? ident .notAValue with
    | ok x => exact ⟨_, _, _, _, rfl, rfl, h.refl⟩
    | error d => exact ⟨_, _, _, _, rfl, rfl, h.refl⟩
  | .binary op lhs rhs pos =>
    obtain ⟨lhs', n₁, p₁, d₁, hl, hl', h₁⟩ := lower_agrees h lhs
    obtain ⟨rhs', n₂, p₂, d₂, hr, hr', h₂⟩ := lower_agrees (h.follow h₁) rhs
    simp only [lower, resolve, hl, hl', hr, hr']
    exact ⟨_, _, _, _, rfl, rfl, h₁.trans h₂⟩
  | .unary op operand pos =>
    obtain ⟨operand', n₁, p₁, d₁, ho, ho', h₁⟩ := lower_agrees h operand
    simp only [lower, resolve, ho, ho']
    exact ⟨_, _, _, _, rfl, rfl, h₁⟩
  | .ifThen test written yes pos =>
    obtain ⟨test', n₁, p₁, d₁, ht, ht', h₁⟩ := lower_agrees h test
    obtain ⟨inner, n₂, yes', n₃, p₂, d₂, he, hy, hy', h₂⟩ := branch_agrees (h.follow h₁) yes
    simp only [lower, resolve, ht, ht', he, hy, hy']
    exact ⟨_, _, _, _, rfl, rfl, h₁.trans h₂⟩
  | .ifThenElse test written yes no pos =>
    obtain ⟨test', n₁, p₁, d₁, ht, ht', h₁⟩ := lower_agrees h test
    obtain ⟨inner, n₂, yes', n₃, p₂, d₂, he, hy, hy', h₂⟩ := branch_agrees (h.follow h₁) yes
    obtain ⟨inner', n₄, no', n₅, p₃, d₃, he', hn, hn', h₃⟩ :=
      branch_agrees ((h.follow h₁).follow h₂) no
    simp only [lower, resolve, ht, ht', he, hy, hy', he', hn, hn']
    exact ⟨_, _, _, _, rfl, rfl, (h₁.trans h₂).trans h₃⟩
  | .declare name ty pos =>
    obtain ⟨n₁, p₁, d₁, hb, hb', h₁⟩ := h.bind_agrees name .variable (some ty.ty)
    simp only [lower, resolve, h.nextSymbol_eq, hb, hb']
    exact ⟨_, _, _, _, rfl, rfl, h₁⟩
  | .define name ty init pos =>
    obtain ⟨init', n₁, p₁, d₁, hi, hi', h₁⟩ := lower_agrees h init
    obtain ⟨n₂, p₂, d₂, hb, hb', h₂⟩ :=
      (h.follow h₁).bind_agrees name .variable (ty.map TypeExpr.ty)
    simp only [lower, resolve, hi, hi', (h.follow h₁).nextSymbol_eq, hb, hb']
    exact ⟨_, _, _, _, rfl, rfl, h₁.trans h₂⟩
  | .assign name value pos =>
    obtain ⟨value', n₁, p₁, d₁, hv, hv', h₁⟩ := lower_agrees h value
    simp only [lower, resolve, hv, hv', (h.follow h₁).resolveVariable_eq]
    cases p₁.var? name .notAssignable with
    | ok x => exact ⟨_, _, _, _, rfl, rfl, h₁⟩
    | error d => exact ⟨_, _, _, _, rfl, rfl, h₁⟩
  | .call name args pos =>
    obtain ⟨args', n₁, p₁, d₁, ha, ha', h₁⟩ := lowerAll_agrees h args
    simp only [lower, resolve, ha, ha', (h.follow h₁).resolveDeclaration_eq]
    cases p₁.declaration? name with
    | ok x => exact ⟨_, _, _, _, rfl, rfl, h₁⟩
    | error d => exact ⟨_, _, _, _, rfl, rfl, h₁⟩
  | .block exprs pos =>
    obtain ⟨nodes, n₁, p₁, d₁, hl, hl', h₁⟩ := lowerAll_agrees h.push exprs
    simp only [lower, resolve, hl, hl']
    exact ⟨_, _, _, _, rfl, rfl, h.leave h₁ h₁.tail rfl⟩
termination_by (sizeOf e, 0)

/-- Lowering a branch agrees with resolving it in a new frame. -/
theorem branch_agrees {scope : ScopeId} {n : Names} {p : Point} (h : Mirrors n scope p)
    (e : Expr) :
    ∃ inner n₁ node n' p' d, n.enterBranch scope e = (inner, n₁) ∧
      lower inner e n₁ = (node, n', d) ∧ resolve e p.enter = (node, p', d) ∧
      Follows scope n p n' p'.leave := by
  cases hblock : e.isBlock with
  | false =>
    obtain ⟨node, n', p', d, hl, hr, hf⟩ := lower_agrees h.push e
    exact ⟨_, _, node, n', p', d, by simp [Names.enterBranch, hblock], hl, hr,
      h.leave hf hf.tail rfl⟩
  | true =>
    -- A block opens a scope for its frame, and there is none for that of the branch.
    obtain ⟨exprs, pos, rfl⟩ : ∃ exprs pos, e = .block exprs pos := by
      cases e <;> simp_all [Expr.isBlock]
    obtain ⟨nodes, n', p', d, hl, hr, hf⟩ := lowerAll_agrees h.push_of_block exprs
    refine ⟨scope, n, .block nodes none pos, n', p'.leave, d,
      by simp [Names.enterBranch, hblock], by simp only [lower, hl], by simp only [resolve, hr],
      h.leave hf (congrArg List.tail hf.tail) rfl⟩
termination_by (sizeOf e, 1)

/-- Lowering expressions one after the other agrees with resolving them. -/
theorem lowerAll_agrees {scope : ScopeId} {n : Names} {p : Point} (h : Mirrors n scope p)
    (es : List Expr) : Agrees scope n p (lowerAll scope es n) (resolveAll es p) := by
  match es with
  | [] => exact ⟨_, _, _, _, by rw [lowerAll], by rw [resolveAll], h.refl⟩
  | e :: es =>
    obtain ⟨node, n₁, p₁, d₁, he, he', h₁⟩ := lower_agrees h e
    obtain ⟨nodes, n₂, p₂, d₂, hes, hes', h₂⟩ := lowerAll_agrees (h.follow h₁) es
    simp only [lowerAll, resolveAll, he, he', hes, hes']
    exact ⟨_, _, _, _, rfl, rfl, h₁.trans h₂⟩
termination_by (sizeOf es, 0)

end

/-! ## Declarations -/

theorem bindParams_agrees {scope : ScopeId} {n : Names} {p : Point} (h : Mirrors n scope p)
    (ps : List Param) : Agrees scope n p (bindParams scope ps n) (resolveParams ps p) := by
  induction ps generalizing n p with
  | nil => exact ⟨_, _, _, _, rfl, rfl, h.refl⟩
  | cons param ps ih =>
    obtain ⟨n₁, p₁, d₁, hb, hb', h₁⟩ := h.bind_agrees param.name .param (some param.ty.ty)
    obtain ⟨xs, n₂, p₂, d₂, hps, hps', h₂⟩ := ih (h.follow h₁)
    simp only [bindParams, resolveParams, h.nextSymbol_eq, hb, hb', hps, hps']
    exact ⟨_, _, _, _, rfl, rfl, h₁.trans h₂⟩

theorem lowerBody_agrees {scope : ScopeId} {n : Names} {p : Point} (h : Mirrors n scope p)
    (body : Expr) : Agrees scope n p (lowerBody scope body n) (resolveBody body p) := by
  cases body with
  | block exprs pos =>
    obtain ⟨nodes, n', p', d, hl, hr, hf⟩ := lowerAll_agrees h exprs
    simp only [lowerBody, resolveBody, hl, hr]
    exact ⟨_, _, _, _, rfl, rfl, hf⟩
  | _ => exact lower_agrees h _

theorem lowerDecl_agrees {n : Names} {p : Point} (h : Mirrors n .package p) (decl : Decl)
    (symbol : SymbolId) :
    ∃ d' n' p' d, lowerDecl decl symbol n = (d', n', d) ∧
      resolveDecl decl symbol p = (d'.function, p', d) ∧ Follows .package n p n' p' := by
  obtain ⟨params, n₁, p₁, d₁, hp, hp', h₁⟩ := bindParams_agrees h.push decl.params
  obtain ⟨body, n₂, p₂, d₂, hb, hb', h₂⟩ := lowerBody_agrees (h.push.follow h₁) decl.body
  simp only [lowerDecl, resolveDecl, hp, hp', hb, hb']
  have hf := h₁.trans h₂
  exact ⟨_, _, _, _, rfl, rfl, h.leave hf hf.tail rfl⟩

theorem lowerDecls_agrees {n : Names} {p : Point} (h : Mirrors n .package p)
    (ds : List (Decl × SymbolId)) :
    ∃ ds' n' p' d, lowerDecls ds n = (ds', n', d) ∧
      resolveDecls ds p = (ds'.map Declaration.function, p', d) ∧ Follows .package n p n' p' := by
  induction ds generalizing n p with
  | nil => exact ⟨_, _, _, _, rfl, rfl, h.refl⟩
  | cons decl ds ih =>
    obtain ⟨d', n₁, p₁, d₁, hd, hd', h₁⟩ := lowerDecl_agrees h decl.1 decl.2
    obtain ⟨ds', n₂, p₂, d₂, hds, hds', h₂⟩ := ih (h.follow h₁)
    simp only [lowerDecls, resolveDecls, hd, hd', hds, hds']
    exact ⟨_, _, _, _, rfl, rfl, h₁.trans h₂⟩

/-! ## The package scope -/

/-- The names of a package in which only declarations have been bound. -/
def declared (ds : List Decl) : Names :=
  ⟨⟨#[⟨none, (number 0 ds).map bindingOf⟩]⟩, ((number 0 ds).map symbolOf).toArray⟩

/-- The package scope binds a name to the symbol of the first declaration that has it. -/
theorem lookup_number (k : Nat) (ds : List Decl) (d : Decl) :
    (((number k ds).map bindingOf).lookup d.name.name = none ∧ ds.find? (sameName d) = none) ∨
    ∃ i first, ((number k ds).map bindingOf).lookup d.name.name = some ⟨k + i⟩ ∧
      ds.find? (sameName d) = some first ∧ ds[i]? = some first := by
  induction ds generalizing k with
  | nil => exact .inl ⟨rfl, rfl⟩
  | cons e ds ih =>
    rw [number_cons, List.map_cons, List.find?_cons, bindingOf, List.lookup_cons, sameName]
    cases d.name.name == e.name.name with
    | true => exact .inr ⟨0, e, rfl, rfl, rfl⟩
    | false =>
      obtain h | ⟨i, first, hl, hf, hi⟩ := ih (k + 1)
      · exact .inl h
      · exact .inr ⟨i + 1, first, by simp only [hl, Nat.add_assoc, Nat.add_comm i], hf, hi⟩

theorem lookupLocal_declared (ds : List Decl) (name : String) :
    (declared ds).scopes.lookupLocal .package name =
      .ok (((number 0 ds).map bindingOf).lookup name) := by
  simp [declared, ScopeTable.lookupLocal, ScopeTable.get, ScopeId.package, Except.map, Scope.find?]

theorem get?_declared (ds : List Decl) (i : Nat) :
    (declared ds).symbols.get? ⟨i⟩ = ds[i]?.map fun d => symbolOf (d, ⟨i⟩) := by
  simp [declared, Symbols.get?, getElem?_number, Function.comp_def]

/-- A declaration with a new name comes behind those that are declared. -/
theorem bind_declared {ds : List Decl} {d : Decl}
    (h : ((number 0 ds).map bindingOf).lookup d.name.name = none) :
    (declared ds).bind .package d.name (.declaration ⟨ds.length⟩) (some d.ret.ty) =
      (declared (ds ++ [d]), []) := by
  rw [Names.bind, lookupLocal_declared, h]
  simp [declared, number_concat, ScopeTable.bind, ScopeId.package, Scope.bind,
    Names.addSymbol, Names.nextSymbol, Array.modify, Array.modifyM, bindingOf, symbolOf,
    length_number]

theorem sameName_congr {d e : Decl} (h : sameName d e) : sameName d = sameName e := by
  funext x
  rw [sameName, sameName, beq_iff_eq.1 h]

/-- Declaring keeps the first declaration of every name and reports the others. -/
theorem declareAll_eq_firsts (kept earlier ds : List Decl)
    (hkept : ∀ d, kept.find? (sameName d) = earlier.find? (sameName d)) :
    declareAll kept.length ds (declared kept) =
      (number kept.length (firsts earlier ds), declared (kept ++ firsts earlier ds),
        repeats earlier ds) := by
  induction ds generalizing kept earlier with
  | nil => simp [declareAll, firsts, repeats, number]
  | cons d ds ih =>
    rw [declareAll, lookupLocal_declared, firsts, repeats, ← hkept]
    obtain ⟨hl, hf⟩ | ⟨i, first, hl, hf, hi⟩ := lookup_number 0 kept d
    · have hkept' : ∀ e,
          (kept ++ [d]).find? (sameName e) = (earlier ++ [d]).find? (sameName e) := by
        intro e
        rw [List.find?_append, List.find?_append, hkept]
      have hrest := ih _ _ hkept'
      rw [List.length_append, List.length_singleton, List.append_assoc] at hrest
      have hnext : (declared kept).nextSymbol = ⟨kept.length⟩ := by
        simp [declared, Names.nextSymbol, length_number]
      simp only [hl, hf, bind_declared hl, hrest, number_cons, hnext, List.singleton_append]
    · have hkept' : ∀ e, kept.find? (sameName e) = (earlier ++ [d]).find? (sameName e) := by
        intro e
        rw [List.find?_append, ← hkept]
        cases he : kept.find? (sameName e) with
        | some _ => rfl
        | none =>
          cases hsame : sameName e d with
          | true => simp [sameName_congr hsame, hf] at he
          | false => simp [hsame]
      have hpos : (declared kept).symbols.pos ⟨0 + i⟩ = first.name.pos := by
        rw [Symbols.pos, Nat.zero_add, get?_declared, hi]
        rfl
      simp only [hl, hf, ih _ _ hkept', hpos]

theorem mirrors_declared (ds : List Decl) :
    Mirrors (declared ds) .package (outermost (number 0 ds)) := by
  refine ⟨by simp [declared]; rfl, ⟨_, [], [], rfl, .outermost ?_, fun _ => rfl⟩, ?_⟩
  · simp [declared, bindings, ScopeId.package, bindingOf, number]
  · intro frame hframe b hb
    obtain rfl := List.mem_singleton.1 hframe
    obtain ⟨d, hd, rfl⟩ := List.mem_map.1 hb
    obtain ⟨i, hi⟩ := List.mem_iff_getElem?.1 (show d ∈ number 0 ds from hd)
    rw [getElem?_number, Option.map_eq_some_iff] at hi
    obtain ⟨e, he, rfl⟩ := hi
    rw [Nat.zero_add, get?_declared, he]
    rfl

/-- Declarations become the functions of the reference, with its symbols and its diagnostics. -/
theorem lowerDecls_declared (ds : List Decl) :
    let lowered := lowerDecls (number 0 ds) (declared ds)
    let resolved := resolveDecls (number 0 ds) (outermost (number 0 ds))
    lowered.1.map Declaration.function = resolved.1 ∧
      lowered.2.1.symbols.toList = resolved.2.1.symbols ∧ lowered.2.2 = resolved.2.2 := by
  obtain ⟨decls, n, p, d, hlower, hresolve, _, _, _, -, -, -, hsymbols, -⟩ :=
    lowerDecls_agrees (mirrors_declared ds) (number 0 ds)
  rw [hlower, hresolve]
  exact ⟨rfl, hsymbols, rfl⟩

end Resolution

/-! ## Packages -/

namespace Package

open Resolution Lexical

/-- A package has the first declaration of every name. The others are reported. -/
theorem build_eq_firsts (name : String) (files : List (List Decl)) :
    let kept := firsts [] files.flatten
    let lowered := lowerDecls (number 0 kept) (declared kept)
    build name files = (⟨name, lowered.2.1.scopes, lowered.2.1.symbols, lowered.1, .built⟩,
      repeats [] files.flatten ++ lowered.2.2) := by
  have hdeclare : declareAll 0 files.flatten .initial = _ :=
    declareAll_eq_firsts [] [] files.flatten fun _ => rfl
  simp only [build, hdeclare]
  rfl

/-- **Names are resolved lexically.** Building a package makes the nodes, symbols and diagnostics of
the reference. -/
theorem build_resolves_lexically (name : String) (files : List (List Decl)) :
    let package := Package.build name files
    let resolved := resolvePackage files.flatten
    package.1.decls.map Declaration.function = resolved.1 ∧
      package.1.symbols.toList = resolved.2.1.symbols ∧ package.2 = resolved.2.2 := by
  obtain ⟨hfunctions, hsymbols, hreports⟩ := lowerDecls_declared (firsts [] files.flatten)
  rw [build_eq_firsts]
  exact ⟨hfunctions, hsymbols, congrArg _ hreports⟩

end Package

end CalcLang
