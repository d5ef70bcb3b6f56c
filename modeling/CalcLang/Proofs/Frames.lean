import CalcLang.Proofs.LexicalResolution
import CalcLang.Proofs.Reports
import CalcLang.Proofs.SoundNames
import Mathlib.Data.List.Basic
import Mathlib.Data.Nat.Basic
import Mathlib.Order.Basic

/-!
# Frames

What the scopes of a program bind can be read off its text: `Package.frames` lists for each scope,
in the order in which the scopes are opened, all the names that are bound in it, those that are
bound twice included. The scopes of a package are these frames (`Package.framed_build`): a scope
resolves a name to the first one in its frame. So a name that is reported as declared again stands
behind another one of its frame, the first of the name, to which the report points and the scope
resolves the name (`Package.redeclared_build`).
-/

namespace CalcLang

mutual

/-- The names that an expression binds in the scope around it, in the order of evaluation. -/
def Expr.binders : Expr → List Ident
  | .int .. | .bool .. | .name .. | .block .. => []
  | .binary _ lhs rhs _ => lhs.binders ++ rhs.binders
  | .unary _ operand _ => operand.binders
  | .ifThen test _ _ _ => test.binders
  | .ifThenElse test _ _ _ _ => test.binders
  | .declare x _ _ => [x]
  | .define x _ init _ => init.binders ++ [x]
  | .assign _ value _ => value.binders
  | .call _ args _ => Expr.allBinders args

/-- The names that expressions bind in the scope around them. -/
def Expr.allBinders : List Expr → List Ident
  | [] => []
  | e :: es => e.binders ++ Expr.allBinders es

end

/-- The frames of a branch, of which those inside it are given. A block opens a scope by itself. -/
def Expr.branchFrames (e : Expr) (inner : List (List Ident)) : List (List Ident) :=
  if e.isBlock then inner else e.binders :: inner

mutual

/-- What the scopes inside an expression bind, in the order in which the scopes are opened. -/
def Expr.frames : Expr → List (List Ident)
  | .int .. | .bool .. | .name .. | .declare .. => []
  | .binary _ lhs rhs _ => lhs.frames ++ rhs.frames
  | .unary _ operand _ => operand.frames
  | .ifThen test _ yes _ => test.frames ++ yes.branchFrames yes.frames
  | .ifThenElse test _ yes no _ =>
    test.frames ++ yes.branchFrames yes.frames ++ no.branchFrames no.frames
  | .define _ _ init _ => init.frames
  | .assign _ value _ => value.frames
  | .call _ args _ => Expr.allFrames args
  | .block exprs _ => Expr.allBinders exprs :: Expr.allFrames exprs

/-- What the scopes inside expressions bind. -/
def Expr.allFrames : List Expr → List (List Ident)
  | [] => []
  | e :: es => e.frames ++ Expr.allFrames es

end

/-- The names that a body binds in the scope of the parameters, and the frames inside it. -/
def Expr.bodyFrames : Expr → List Ident × List (List Ident)
  | .block exprs _ => (Expr.allBinders exprs, Expr.allFrames exprs)
  | body => (body.binders, body.frames)

/-- The frames of a declaration. The first one is that of its parameters. -/
def Decl.frames (d : Decl) : List (List Ident) :=
  (d.params.map Param.name ++ d.body.bodyFrames.1) :: d.body.bodyFrames.2

/-- The frames of a package: that of the names of all declarations, and those of the declarations
that are kept. -/
def Package.frames (ds : List Decl) : List (List Ident) :=
  ds.map Decl.name :: (Lexical.firsts [] ds).flatMap Decl.frames

theorem Lexical.sublist_firsts (earlier ds : List Decl) : (firsts earlier ds).Sublist ds := by
  induction ds generalizing earlier with
  | nil => exact .refl _
  | cons d ds ih =>
    rw [firsts]
    split
    · exact (ih _).cons d
    · exact (ih _).cons_cons d

/-- The first of the names in a frame that are spelled like a given one. -/
def firstNamed (frame : List Ident) (name : String) : Option Ident :=
  frame.find? fun x => x.name == name

theorem firstNamed_append (frame more : List Ident) (name : String) :
    firstNamed (frame ++ more) name = (firstNamed frame name).or (firstNamed more name) :=
  List.find?_append

theorem firstNamed_singleton (x : Ident) (name : String) :
    firstNamed [x] name = if x.name = name then some x else none := by
  by_cases h : x.name = name <;> simp [firstNamed, h]

theorem name_of_firstNamed {frame : List Ident} {name : String} {x : Ident}
    (h : firstNamed frame name = some x) : x.name = name := by
  have := List.find?_some h
  exact beq_iff_eq.1 this

/-- A name that is there already is not the first one anywhere. -/
theorem firstNamed_concat_of_repeat {frame : List Ident} {x first : Ident}
    (h : firstNamed frame x.name = some first) (name : String) :
    firstNamed (frame ++ [x]) name = firstNamed frame name := by
  rw [firstNamed_append, firstNamed_singleton]
  by_cases hname : x.name = name
  · rw [← hname, h]
    rfl
  · rw [if_neg hname, Option.or_none]

/-- A name stands in one of some frames at `pos` behind another one, the first of the name, which
stands at `previous`. -/
def Repeated (frames : List (List Ident)) (name : String) (previous pos : Pos) : Prop :=
  ∃ earlier later, earlier ++ ⟨name, pos⟩ :: later ∈ frames ∧
    firstNamed earlier name = some ⟨name, previous⟩

/-- A report of a name that is declared again is about a repeated name of some frames. -/
def Diagnostic.IsRepeat (frames : List (List Ident)) (d : Diagnostic) : Prop :=
  ∀ name previous, d.kind = .redeclaration name previous → Repeated frames name previous d.pos

/-- The name that a symbol was made of. -/
def Symbols.ident? (symbols : Symbols) (id : SymbolId) : Option Ident :=
  (symbols.get? id).map fun s => ⟨s.name, s.pos⟩

/-! ## Frames that grow -/

/-- Some frames when names are bound in one of them and further scopes are opened. -/
def extend (frames : List (List Ident)) (i : Nat) (own : List Ident) (inner : List (List Ident)) :
    List (List Ident) :=
  frames.modify i (· ++ own) ++ inner

theorem modify_append_left {α : Type} {l l' : List α} {i : Nat} (f : α → α) (h : i < l.length) :
    (l ++ l').modify i f = l.modify i f ++ l' := by
  induction l generalizing i with
  | nil => exact absurd h (Nat.not_lt_zero i)
  | cons a l ih =>
    cases i with
    | zero => rfl
    | succ i => exact congrArg (a :: ·) (ih (Nat.lt_of_succ_lt_succ h))

theorem modify_append_right {α : Type} (l : List α) (a : α) (f : α → α) :
    (l ++ [a]).modify l.length f = l ++ [f a] := by
  induction l with
  | nil => rfl
  | cons b l ih => exact congrArg (b :: ·) ih

section Extend

variable {frames inner inner' : List (List Ident)} {own own' : List Ident} {i : Nat}

@[simp]
theorem length_extend : (extend frames i own inner).length = frames.length + inner.length := by
  simp [extend]

theorem lt_length_extend (h : i < frames.length) : i < (extend frames i own inner).length := by
  rw [length_extend]
  omega

theorem modify_append_nil : frames.modify i (· ++ []) = frames := by
  simp only [List.append_nil]
  exact List.modify_id i frames

@[simp]
theorem extend_nil : extend frames i [] [] = frames := by
  rw [extend, modify_append_nil, List.append_nil]

theorem extend_extend (h : i < frames.length) :
    extend (extend frames i own inner) i own' inner' =
      extend frames i (own ++ own') (inner ++ inner') := by
  have hlength : i < (frames.modify i (· ++ own)).length := by rwa [List.length_modify]
  simp only [extend, modify_append_left _ hlength, List.modify_modify_eq, List.append_assoc,
    Function.comp_def]

/-- A scope that is opened, and what is done in it, is a frame inside the scopes that are there. -/
theorem extend_push :
    extend (frames ++ [[]]) frames.length own inner = extend frames i [] (own :: inner) := by
  rw [extend, extend, modify_append_right, modify_append_nil, List.append_assoc]
  rfl

theorem Repeated.extend {name : String} {previous pos : Pos}
    (h : Repeated frames name previous pos) :
    Repeated (extend frames i own inner) name previous pos := by
  obtain ⟨earlier, later, hmem, hfirst⟩ := h
  obtain ⟨j, hj⟩ := List.mem_iff_getElem?.1 hmem
  obtain ⟨more, hmore⟩ : ∃ more, (frames.modify i (· ++ own))[j]? =
      some (earlier ++ ⟨name, pos⟩ :: later ++ more) := by
    rw [List.getElem?_modify, hj]
    by_cases hij : i = j
    · exact ⟨own, by simp [hij]⟩
    · exact ⟨[], by simp [hij]⟩
  refine ⟨earlier, later ++ more, List.mem_append_left _ (List.mem_of_getElem? (i := j) ?_), hfirst⟩
  rw [hmore, List.append_assoc, List.cons_append]

theorem Diagnostic.IsRepeat.extend {d : Diagnostic} (h : d.IsRepeat frames) :
    d.IsRepeat (extend frames i own inner) :=
  fun name previous hkind => (h name previous hkind).extend

end Extend

/-! ## Scopes -/

namespace Resolution

open Diagnostic

/-- The scopes of a table resolve names to the first ones of some frames. -/
structure Framed (n : Names) (frames : List (List Ident)) : Prop where
  size : n.scopes.scopes.size = frames.length
  bound : ∀ (i : Nat) (frame : List Ident) (scope : Scope), frames[i]? = some frame →
    n.scopes.scopes[i]? = some scope → ∀ name,
      (scope.find? name).map n.symbols.ident? = (firstNamed frame name).map some

/-- What a part of a program, lowered in a scope, adds to the frames, and that its reports are about
names repeated in them. -/
def Frames {α : Type} (scope : ScopeId) (frames : List (List Ident)) (own : List Ident)
    (inner : List (List Ident)) (l : Lowered α) : Prop :=
  Framed l.2.1 (extend frames scope.index own inner) ∧
    All (IsRepeat (extend frames scope.index own inner)) l.2.2

namespace Framed

variable {n : Names} {frames : List (List Ident)} {scope : ScopeId}

theorem ident?_push {symbols : Symbols} {id : SymbolId} {x : Ident} (s : Symbol)
    (h : symbols.ident? id = some x) : Symbols.ident? (symbols.push s) id = some x := by
  obtain ⟨e, he, rfl⟩ := Option.map_eq_some_iff.1 h
  have hlt : id.index < symbols.size := (Array.getElem?_eq_some_iff.1 he).1
  rw [Symbols.ident?, Symbols.get?, Array.getElem?_push, if_neg hlt.ne]
  exact h

theorem addSymbol (h : Framed n frames) (ident : Ident) (kind : SymbolKind) (ty : Option Ty) :
    Framed (n.addSymbol ident kind ty) frames where
  size := h.size
  bound i frame scope hframe hscope name := by
    have hbound := h.bound i frame scope hframe hscope name
    cases hx : scope.find? name with
    | none => simpa [hx] using hbound
    | some x =>
      rw [hx, Option.map_some] at hbound
      obtain ⟨first, hfirst, heq⟩ := Option.map_eq_some_iff.1 hbound.symm
      rw [Option.map_some, hfirst, Option.map_some, Names.addSymbol, ident?_push _ heq.symm]

theorem push (h : Framed n frames) (parent : ScopeId) :
    Framed (n.push parent) (frames ++ [[]]) where
  size := by simp [Names.push, ScopeTable.push, h.size]
  bound i frame scope hframe hscope name := by
    simp only [Names.push, ScopeTable.push, Array.getElem?_push, h.size] at hscope
    rw [List.getElem?_append] at hframe
    by_cases hi : i = frames.length
    · obtain rfl : [] = frame := by simpa [hi] using hframe
      obtain rfl : Scope.mk (some parent) [] = scope := by simpa [hi] using hscope
      rfl
    · rw [if_neg hi] at hscope
      have hlt : i < frames.length := h.size ▸ (Array.getElem?_eq_some_iff.1 hscope).1
      rw [if_pos hlt] at hframe
      exact h.bound i frame scope hframe hscope name

/-- Names are bound in one scope. -/
theorem of_here (h : Framed n frames) {n' : Names} {own : List Ident}
    (hsize : n'.scopes.scopes.size = n.scopes.scopes.size) (hsymbols : n'.symbols = n.symbols)
    (hothers : ∀ j ≠ scope.index, n'.scopes.scopes[j]? = n.scopes.scopes[j]?)
    (hhere : ∀ frame s, frames[scope.index]? = some frame →
      n'.scopes.scopes[scope.index]? = some s → ∀ name,
        (s.find? name).map n.symbols.ident? = (firstNamed (frame ++ own) name).map some) :
    Framed n' (extend frames scope.index own []) where
  size := by rw [hsize, h.size, length_extend, List.length_nil, Nat.add_zero]
  bound i frame s hframe hs name := by
    rw [extend, List.append_nil] at hframe
    rw [hsymbols]
    by_cases hi : scope.index = i
    · subst hi
      rw [List.getElem?_modify_eq] at hframe
      obtain ⟨frame', hframe', rfl⟩ := Option.map_eq_some_iff.1 hframe
      exact hhere frame' s hframe' hs name
    · rw [List.getElem?_modify_ne _ _ hi] at hframe
      rw [hothers i (Ne.symm hi)] at hs
      exact h.bound i frame s hframe hs name

/-- A name that its scope binds already does not change what the scope resolves to. Its report is
about a repeated name. -/
theorem again (h : Framed n frames) (hi : scope.index < frames.length) {x : Ident}
    {previous : SymbolId} (hx : n.scopes.lookupLocal scope x.name = .ok (some previous)) :
    Framed n (extend frames scope.index [x] []) ∧
      IsRepeat (extend frames scope.index [x] [])
        ⟨.redeclaration x.name (n.symbols.pos previous), x.pos⟩ := by
  obtain ⟨frame, hframe⟩ : ∃ frame, frames[scope.index]? = some frame :=
    ⟨_, List.getElem?_eq_getElem hi⟩
  obtain ⟨s, hs⟩ : ∃ s, n.scopes.scopes[scope.index]? = some s :=
    ⟨_, Array.getElem?_eq_getElem (h.size ▸ hi)⟩
  have hfind : s.find? x.name = some previous := by
    rw [ScopeTable.lookupLocal, ScopeTable.get_of_getElem? hs] at hx
    exact Except.ok.inj hx
  have hbound := h.bound _ _ _ hframe hs
  have hfirst := hbound x.name
  rw [hfind, Option.map_some] at hfirst
  obtain ⟨first, hfirst, heq⟩ := Option.map_eq_some_iff.1 hfirst.symm
  refine ⟨h.of_here rfl rfl (fun _ _ => rfl) fun frame' s' hframe' hs' name => ?_, ?_⟩
  · cases hframe.symm.trans hframe'
    cases hs.symm.trans hs'
    rw [hbound name, firstNamed_concat_of_repeat hfirst]
  · rintro name previous' hkind
    cases hkind
    obtain ⟨e, he, rfl⟩ := Option.map_eq_some_iff.1 heq.symm
    have hpos : n.symbols.pos previous = e.pos := by rw [Symbols.pos, he]
    have hname : e.name = x.name := name_of_firstNamed hfirst
    refine ⟨frame, [], ?_, by rw [hpos, hfirst, hname]⟩
    refine List.mem_of_getElem? (i := scope.index) ?_
    rw [extend, List.append_nil, List.getElem?_modify_eq, hframe]
    rfl

/-- A name that its scope does not bind yet is bound. -/
theorem bindNew (h : Framed n frames) (hi : scope.index < frames.length) {x : Ident}
    (hx : n.scopes.lookupLocal scope x.name = .ok none) (kind : SymbolKind) (ty : Option Ty) :
    Framed { n.addSymbol x kind ty with scopes := n.scopes.bind scope x.name n.nextSymbol }
      (extend frames scope.index [x] []) := by
  refine (h.addSymbol x kind ty).of_here ?_ rfl ?_ ?_
  · simp [ScopeTable.bind, Names.addSymbol]
  · intro j hj
    simp [ScopeTable.bind, Names.addSymbol, Array.getElem?_modify, Ne.symm hj]
  · intro frame s' hframe hs' name
    obtain ⟨s, hs⟩ : ∃ s, n.scopes.scopes[scope.index]? = some s :=
      ⟨_, Array.getElem?_eq_getElem (h.size ▸ hi)⟩
    obtain rfl : s.bind x.name n.nextSymbol = s' := by
      simpa [ScopeTable.bind, Array.getElem?_modify, hs] using hs'
    have hfind : s.find? x.name = none := by
      rw [ScopeTable.lookupLocal, ScopeTable.get_of_getElem? hs] at hx
      exact Except.ok.inj hx
    have hnew : (n.addSymbol x kind ty).symbols.ident? n.nextSymbol = some x := by
      simp [Names.addSymbol, Names.nextSymbol, Symbols.ident?, Symbols.get?]
    rw [firstNamed_append, firstNamed_singleton, Scope.find?, Scope.bind, List.lookup_append,
      Option.map_or, Option.map_or, ← (h.addSymbol x kind ty).bound _ _ _ hframe hs name]
    by_cases hname : x.name = name
    · simp [hname, hnew, Scope.find?]
    · have hbeq : (name == x.name) = false := beq_eq_false_iff_ne.2 (Ne.symm hname)
      simp [hname, hbeq, Scope.find?, List.lookup_cons]

theorem lookupLocal_cases (h : Framed n frames) (hi : scope.index < frames.length)
    (name : String) : n.scopes.lookupLocal scope name = .ok none ∨
      ∃ previous, n.scopes.lookupLocal scope name = .ok (some previous) := by
  have hs := ScopeTable.get_of_getElem? (Array.getElem?_eq_getElem (h.size ▸ hi))
  rw [ScopeTable.lookupLocal, hs]
  cases hfind : Scope.find? _ name with
  | none => exact .inl (congrArg Except.ok hfind)
  | some previous => exact .inr ⟨previous, congrArg Except.ok hfind⟩

theorem bind (h : Framed n frames) (hi : scope.index < frames.length) (x : Ident)
    (kind : SymbolKind) (ty : Option Ty) :
    Framed (n.bind scope x kind ty).1 (extend frames scope.index [x] []) ∧
      All (IsRepeat (extend frames scope.index [x] [])) (n.bind scope x kind ty).2 := by
  rcases h.lookupLocal_cases hi x.name with hx | ⟨previous, hx⟩
  · rw [Names.bind, hx]
    exact ⟨h.bindNew hi hx kind ty, .nil⟩
  · rw [Names.bind, hx]
    exact ⟨((h.addSymbol x kind ty).again hi hx).1, .one (h.again hi hx).2⟩

end Framed

/-! ## Expressions -/

section Expressions

variable {scope : ScopeId} {frames : List (List Ident)} {n : Names}

/-- The report of a name that does not stand for a variable is not about a repeated name. -/
theorem isRepeat_resolveVariable {ident : Ident} {misuse : String → Diagnostic.Kind}
    {d : Diagnostic} (h : n.resolveVariable scope ident misuse = .error d)
    (hmisuse : ∀ name previous, misuse ident.name ≠ .redeclaration name previous) :
    d.IsRepeat frames := by
  intro name previous hkind
  rcases Names.error_of_resolveVariable h with rfl | rfl
  · cases hkind
  · exact absurd hkind (hmisuse name previous)

theorem isRepeat_resolveDeclaration {ident : Ident} {d : Diagnostic}
    (h : n.resolveDeclaration scope ident = .error d) : d.IsRepeat frames := by
  intro name previous hkind
  rcases Names.error_of_resolveDeclaration h with rfl | rfl
  · cases hkind
  · cases hkind

namespace Frames

variable {own own' : List Ident} {inner inner' : List (List Ident)}

/-- Nothing is bound. -/
theorem stay {α : Type} (h : Framed n frames) (a : α) {ds : List Diagnostic}
    (hds : All (IsRepeat frames) ds) : Frames scope frames [] [] (a, n, ds) := by
  rw [Frames, extend_nil]
  exact ⟨h, hds⟩

/-- What is added by one part after the other. -/
theorem trans {α β γ : Type} (hi : scope.index < frames.length) {a : α} {b : β} {c : γ}
    {n₁ n₂ : Names} {d₁ d₂ : List Diagnostic} (h : Frames scope frames own inner (a, n₁, d₁))
    (h' : Frames scope (extend frames scope.index own inner) own' inner' (b, n₂, d₂)) :
    Frames scope frames (own ++ own') (inner ++ inner') (c, n₂, d₁ ++ d₂) := by
  rw [Frames, ← extend_extend hi]
  exact ⟨h'.1, .append ⟨fun d hd => (h.2.of_mem d hd).extend⟩ h'.2⟩

/-- Scopes are opened behind what is there, and nothing else is bound. -/
theorem thenInside {α β γ : Type} (hi : scope.index < frames.length) {a : α} {b : β} {c : γ}
    {n₁ n₂ : Names} {d₁ d₂ : List Diagnostic} (h : Frames scope frames own inner (a, n₁, d₁))
    (h' : Frames scope (extend frames scope.index own inner) [] inner' (b, n₂, d₂)) :
    Frames scope frames own (inner ++ inner') (c, n₂, d₁ ++ d₂) :=
  List.append_nil own ▸ h.trans hi h'

/-- Names are bound behind what is there, and no scope is opened. -/
theorem thenHere {α β γ : Type} (hi : scope.index < frames.length) {a : α} {b : β} {c : γ}
    {n₁ n₂ : Names} {d₁ d₂ : List Diagnostic} (h : Frames scope frames own inner (a, n₁, d₁))
    (h' : Frames scope (extend frames scope.index own inner) own' [] (b, n₂, d₂)) :
    Frames scope frames (own ++ own') inner (c, n₂, d₁ ++ d₂) :=
  List.append_nil inner ▸ h.trans hi h'

/-- Something else is reported. -/
theorem report {α β : Type} {a : α} {b : β} {n₁ : Names} {d₁ : List Diagnostic} {d : Diagnostic}
    (h : Frames scope frames own inner (a, n₁, d₁)) (hd : ∀ frames, d.IsRepeat frames) :
    Frames scope frames own inner (b, n₁, d₁ ++ [d]) :=
  ⟨h.1, h.2.append (.one (hd _))⟩

/-- What is bound in a scope that is opened is a frame of its own. -/
theorem ofPush {α β : Type} (h : Framed n frames) {a : α} {b : β} {n₁ : Names}
    {d₁ : List Diagnostic}
    (h' : Frames n.scopes.nextId (frames ++ [[]]) own inner (a, n₁, d₁)) :
    Frames scope frames [] (own :: inner) (b, n₁, d₁) := by
  have hid : n.scopes.nextId.index = frames.length := h.size
  rw [Frames, hid, extend_push (i := scope.index)] at h'
  exact h'

end Frames

/-- A branch opens a scope, unless it is a block and does so by itself. -/
theorem frames_branch (hi : scope.index < frames.length) (h : Framed n frames) (e : Expr)
    (ih : ∀ {scope : ScopeId} {frames : List (List Ident)} {n : Names},
      scope.index < frames.length → Framed n frames →
        Frames scope frames e.binders e.frames (lower scope e n)) :
    Frames scope frames [] (e.branchFrames e.frames)
      (lower (n.enterBranch scope e).1 e (n.enterBranch scope e).2) := by
  cases hblock : e.isBlock with
  | false =>
    have hnext : n.scopes.nextId.index < (frames ++ [[]]).length := by
      rw [ScopeTable.nextId, h.size, List.length_append]
      exact Nat.lt_succ_self _
    have hpush := @ih n.scopes.nextId (frames ++ [[]]) (n.push scope) hnext (h.push scope)
    rw [Expr.branchFrames, Names.enterBranch, hblock]
    exact hpush.ofPush h
  | true =>
    have hbinders : e.binders = [] := by
      cases e with
      | block => rfl
      | _ => cases hblock
    rw [Expr.branchFrames, Names.enterBranch, hblock, ← hbinders]
    exact ih hi h

mutual

/-- Lowering an expression binds its binders and opens its frames. -/
theorem frames_lower {scope : ScopeId} {frames : List (List Ident)} {n : Names}
    (hi : scope.index < frames.length) (h : Framed n frames) :
    ∀ e : Expr, Frames scope frames e.binders e.frames (lower scope e n)
  | .int .. | .bool .. => .stay h _ .nil
  | .name ident => by
    rw [lower]
    split
    · exact .stay h _ .nil
    · next hd => exact .stay h _ (.one (isRepeat_resolveVariable hd nofun))
  | .binary _ lhs rhs _ => by
    have hl := frames_lower hi h lhs
    exact hl.trans hi (frames_lower (lt_length_extend hi) hl.1 rhs)
  | .unary _ operand _ => frames_lower hi h operand
  | .ifThen test _ yes _ => by
    have ht := frames_lower hi h test
    exact ht.thenInside hi (frames_branch (lt_length_extend hi) ht.1 yes
      fun hi h => frames_lower hi h yes)
  | .ifThenElse test _ yes no _ => by
    have ht := frames_lower hi h test
    have hy := frames_branch (lt_length_extend hi) ht.1 yes fun hi h => frames_lower hi h yes
    have hty := ht.thenInside (c := ()) hi hy
    exact hty.thenInside hi (frames_branch (lt_length_extend hi) hty.1 no
      fun hi h => frames_lower hi h no)
  | .declare name ty _ => h.bind hi name .variable (some ty.ty)
  | .define name ty init _ => by
    have hv := frames_lower hi h init
    exact hv.thenHere (b := ()) hi
      (hv.1.bind (lt_length_extend hi) name .variable (ty.map TypeExpr.ty))
  | .assign name value _ => by
    have hv := frames_lower hi h value
    rw [lower]
    dsimp only
    split
    · exact hv
    · next hd => exact hv.report fun _ => isRepeat_resolveVariable hd nofun
  | .call name args _ => by
    have ha := frames_lowerAll hi h args
    rw [lower]
    dsimp only
    split
    · exact ha
    · next hd => exact ha.report fun _ => isRepeat_resolveDeclaration hd
  | .block exprs _ => by
    have hpush := @frames_lowerAll n.scopes.nextId (frames ++ [[]]) (n.push scope)
      (by rw [ScopeTable.nextId, h.size, List.length_append]; exact Nat.lt_succ_self _)
      (h.push scope) exprs
    exact hpush.ofPush h

theorem frames_lowerAll {scope : ScopeId} {frames : List (List Ident)} {n : Names}
    (hi : scope.index < frames.length) (h : Framed n frames) :
    ∀ es : List Expr, Frames scope frames (Expr.allBinders es) (Expr.allFrames es)
      (lowerAll scope es n)
  | [] => .stay h _ .nil
  | e :: es => by
    have h₁ := frames_lower hi h e
    exact h₁.trans hi (frames_lowerAll (lt_length_extend hi) h₁.1 es)

end

/-! ## Declarations -/

theorem frames_bindParams (hi : scope.index < frames.length) (h : Framed n frames)
    (ps : List Param) :
    Frames scope frames (ps.map Param.name) [] (bindParams scope ps n) := by
  induction ps generalizing n frames with
  | nil => exact .stay h _ .nil
  | cons p ps ih =>
    have hp := h.bind hi p.name .param (some p.ty.ty)
    have hp' : Frames scope frames [p.name] [] ((), n.bind scope p.name .param (some p.ty.ty)) := hp
    exact hp'.trans hi (ih (lt_length_extend hi) hp.1)

theorem frames_lowerBody (hi : scope.index < frames.length) (h : Framed n frames) (body : Expr) :
    Frames scope frames body.bodyFrames.1 body.bodyFrames.2 (lowerBody scope body n) := by
  cases body with
  | block exprs pos => exact frames_lowerAll hi h exprs
  | _ => exact frames_lower hi h _

theorem frames_lowerDecl (h : Framed n frames) (decl : Decl) (symbol : SymbolId) :
    Frames .package frames [] decl.frames (lowerDecl decl symbol n) := by
  have hi : n.scopes.nextId.index < (frames ++ [[]]).length := by
    rw [ScopeTable.nextId, h.size, List.length_append]
    exact Nat.lt_succ_self _
  have hp := frames_bindParams hi (h.push .package) decl.params
  have hb := hp.trans (c := ()) hi (frames_lowerBody (lt_length_extend hi) hp.1 decl.body)
  exact hb.ofPush h

theorem frames_lowerDecls (hi : 0 < frames.length) (h : Framed n frames)
    (ds : List (Decl × SymbolId)) :
    Frames .package frames [] (ds.flatMap fun d => d.1.frames) (lowerDecls ds n) := by
  induction ds generalizing n frames with
  | nil => exact .stay h _ .nil
  | cons d ds ih =>
    have hd := frames_lowerDecl h d.1 d.2
    exact hd.thenInside hi (ih (lt_length_extend hi) hd.1)

end Expressions

/-- Names are bound in the package scope, and reported if they are taken. -/
theorem framed_declareAll {n : Names} {frame : List Ident} (h : Framed n [frame]) (accepted : Nat)
    (ds : List Decl) :
    Framed (declareAll accepted ds n).2.1 [frame ++ ds.map Decl.name] ∧
      All (IsRepeat [frame ++ ds.map Decl.name]) (declareAll accepted ds n).2.2 := by
  induction ds generalizing n frame accepted with
  | nil => exact ⟨(List.append_nil frame).symm ▸ h, .nil⟩
  | cons d ds ih =>
    have hi : ScopeId.package.index < [frame].length := Nat.zero_lt_one
    have hextend : extend [frame] ScopeId.package.index [d.name] [] = [frame ++ [d.name]] := rfl
    rw [declareAll, List.map_cons, ← List.singleton_append (l := ds.map Decl.name),
      ← List.append_assoc]
    rcases h.lookupLocal_cases hi d.name.name with hx | ⟨previous, hx⟩
    · rw [hx]
      exact ih (hextend ▸ (h.bind hi d.name _ _).1) (accepted + 1)
    · have hagain := h.again hi hx
      rw [hextend] at hagain
      obtain ⟨hframed, hreports⟩ := ih hagain.1 accepted
      rw [hx]
      refine ⟨hframed, .cons (fun name previous hkind => ?_) hreports⟩
      have hrepeated := hagain.2 name previous hkind
      exact @Repeated.extend [frame ++ [d.name]] [] (ds.map Decl.name) 0 _ _ _ hrepeated

end Resolution

namespace Package

open Resolution Diagnostic

/-- **The scopes of a package are the frames of its declarations**, and what building reports as
declared again is repeated in one of them. -/
theorem framed_build (name : String) (files : List (List Decl)) :
    Framed ⟨(build name files).1.scopes, (build name files).1.symbols⟩ (frames files.flatten) ∧
      All (IsRepeat (frames files.flatten)) (build name files).2 := by
  have ha : declareAll 0 files.flatten .initial = _ :=
    declareAll_eq_firsts [] [] files.flatten fun _ => rfl
  have hinitial : Framed .initial [[]] := by
    refine ⟨rfl, fun i frame s hframe hs name => ?_⟩
    obtain ⟨rfl, rfl⟩ : i = 0 ∧ [] = frame := by
      cases i with
      | zero => exact ⟨rfl, Option.some.inj hframe⟩
      | succ i => cases hframe
    cases hs
    rfl
  obtain ⟨hd, hreports⟩ := framed_declareAll hinitial 0 files.flatten
  have hl := frames_lowerDecls (List.length_pos_of_ne_nil (List.cons_ne_nil _ [])) hd
    (declareAll 0 files.flatten .initial).1
  have hkept : ((declareAll 0 files.flatten .initial).1.flatMap fun d => d.1.frames) =
      (Lexical.firsts [] files.flatten).flatMap Decl.frames := by
    rw [ha, List.length_nil, ← List.flatMap_map Prod.fst Decl.frames, Lexical.map_fst_number]
  have hframes : extend [files.flatten.map Decl.name] ScopeId.package.index []
      ((Lexical.firsts [] files.flatten).flatMap Decl.frames) = frames files.flatten := by
    rw [extend, modify_append_nil]
    rfl
  rw [hkept] at hl
  exact ⟨hframes ▸ hl.1, hframes ▸ .append ⟨fun d hd => (hreports.of_mem d hd).extend⟩ hl.2⟩

/-- **A name is declared again behind the one that its scope resolves it to.** The report points to
the first of the name in a frame, and the scope of that frame resolves the name to it still. -/
theorem redeclared_build {name : String} {files : List (List Decl)} {d : Diagnostic}
    (hd : d ∈ (build name files).2) {x : String} {previous : Pos}
    (hkind : d.kind = .redeclaration x previous) :
    ∃ (scope : ScopeId) (earlier later : List Ident) (id : SymbolId) (s : Symbol),
      (frames files.flatten)[scope.index]? = some (earlier ++ ⟨x, d.pos⟩ :: later) ∧
      firstNamed earlier x = some ⟨x, previous⟩ ∧
      (build name files).1.scopes.lookup scope x = .ok (some id) ∧
      (build name files).1.symbols.get? id = some s ∧ s.name = x ∧ s.pos = previous := by
  obtain ⟨hframed, hreports⟩ := framed_build name files
  obtain ⟨earlier, later, hmem, hfirst⟩ := hreports.of_mem d hd x previous hkind
  obtain ⟨i, hi⟩ := List.mem_iff_getElem?.1 hmem
  have hlt := (List.getElem?_eq_some_iff.1 hi).1
  have hs := Array.getElem?_eq_getElem (hframed.size ▸ hlt)
  have hbound := hframed.bound _ _ _ hi hs x
  rw [firstNamed_append, hfirst, Option.some_or, Option.map_some, Option.map_eq_some_iff] at hbound
  obtain ⟨id, hfind, hid⟩ := hbound
  obtain ⟨s, hs', heq⟩ := Option.map_eq_some_iff.1 hid
  refine ⟨⟨i⟩, earlier, later, id, s, hi, hfirst, ?_, hs', congrArg Ident.name heq,
    congrArg Ident.pos heq⟩
  rw [ScopeTable.lookup, ScopeTable.lookupWithin, @ScopeTable.get_of_getElem? _ ⟨i⟩ _ hs]
  simp only [hfind]

end Package

end CalcLang
