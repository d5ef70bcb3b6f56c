import CalcLang.Proofs.Subjects
import Mathlib.Data.List.Perm.Subperm

/-!
# Diagnostics point to texts

Every diagnostic of a compilation but that of a missing entry points to a text in one of the files
(`Compile.diagnostics_point_at_text`): what parsing reports is between the ends of tokens, what
resolution reports is the name that it tells, and what checking and generation report is a node.

A name that is declared again is another one than the one that the report calls the previous one:
every name of a text is bound at most once (`Expr.count_frames_le`), and no two names are read at
one position.
-/

namespace CalcLang

open Diagnostic

/-! ## Binders -/

theorem Expr.count_branchFrames_le (x : Ident) (e : Expr) :
    (e.branchFrames e.frames).flatten.count x ≤ e.binders.count x + e.frames.flatten.count x := by
  unfold Expr.branchFrames
  split
  · exact Nat.le_add_left _ _
  · rw [List.flatten_cons, List.count_append]

mutual

/-- What an expression and the scopes inside it bind are names of the expression, each of them at
most once. -/
theorem Expr.count_frames_le (x : Ident) : ∀ e : Expr,
    e.binders.count x + e.frames.flatten.count x ≤ e.idents.count x
  | .int .. | .bool .. | .declare .. => Nat.le_refl _
  | .name _ => Nat.zero_le _
  | .binary _ lhs rhs _ => by
    have hl := lhs.count_frames_le x
    have hr := rhs.count_frames_le x
    simp only [Expr.binders, Expr.frames, Expr.idents, List.flatten_append, List.count_append]
    omega
  | .unary _ operand _ => operand.count_frames_le x
  | .ifThen test _ yes _ => by
    have ht := test.count_frames_le x
    have hy := (yes.count_branchFrames_le x).trans (yes.count_frames_le x)
    simp only [Expr.binders, Expr.frames, Expr.idents, List.flatten_append, List.count_append]
    omega
  | .ifThenElse test _ yes no _ => by
    have ht := test.count_frames_le x
    have hy := (yes.count_branchFrames_le x).trans (yes.count_frames_le x)
    have hn := (no.count_branchFrames_le x).trans (no.count_frames_le x)
    simp only [Expr.binders, Expr.frames, Expr.idents, List.flatten_append, List.count_append]
    omega
  | .define y _ init _ => by
    have hv := init.count_frames_le x
    simp only [Expr.binders, Expr.frames, Expr.idents, List.count_append, List.count_cons,
      List.count_nil]
    omega
  | .assign _ value _ => (value.count_frames_le x).trans (List.count_le_count_cons ..)
  | .call _ args _ => (Expr.count_allFrames_le x args).trans (List.count_le_count_cons ..)
  | .block exprs _ => by
    have he := Expr.count_allFrames_le x exprs
    simpa [Expr.binders, Expr.frames, Expr.idents, List.count_append] using he

theorem Expr.count_allFrames_le (x : Ident) : ∀ es : List Expr,
    (Expr.allBinders es).count x + (Expr.allFrames es).flatten.count x ≤ (Expr.allIdents es).count x
  | [] => Nat.le_refl _
  | e :: es => by
    have he := e.count_frames_le x
    have hes := Expr.count_allFrames_le x es
    simp only [Expr.allBinders, Expr.allFrames, Expr.allIdents, List.flatten_append,
      List.count_append]
    omega

end

theorem Expr.count_bodyFrames_le (x : Ident) (body : Expr) :
    body.bodyFrames.1.count x + body.bodyFrames.2.flatten.count x ≤ body.idents.count x := by
  cases body with
  | block exprs pos => exact Expr.count_allFrames_le x exprs
  | _ => exact Expr.count_frames_le x _

/-- A frame of a declaration has names of the declaration, each at most once. -/
theorem Decl.subperm_of_mem_frames {d : Decl} {frame : List Ident} (h : frame ∈ d.frames) :
    frame.Subperm d.idents := by
  refine List.subperm_iff_count.2 fun x => ?_
  have hframe : frame.count x ≤ d.frames.flatten.count x :=
    (List.sublist_flatten_of_mem h).count_le x
  have hbody := d.body.count_bodyFrames_le x
  simp only [Decl.frames, List.flatten_cons, List.count_append] at hframe
  simp only [Decl.idents, List.count_cons, List.count_append]
  omega

theorem Decl.sublist_map_name (ds : List Decl) :
    (ds.map Decl.name).Sublist (ds.flatMap Decl.idents) := by
  induction ds with
  | nil => exact .slnil
  | cons d ds ih =>
    rw [List.flatMap_cons, Decl.idents, List.cons_append]
    exact .cons_cons _ (ih.trans (List.sublist_append_right ..))

/-- A frame of a package has names of the declarations, each at most once. -/
theorem Package.subperm_of_mem_frames {ds : List Decl} {frame : List Ident}
    (h : frame ∈ frames ds) : frame.Subperm (ds.flatMap Decl.idents) := by
  rcases List.mem_cons.1 h with rfl | h
  · exact (Decl.sublist_map_name ds).subperm
  · obtain ⟨d, hd, hframe⟩ := List.mem_flatMap.1 h
    have hidents : d.idents.Sublist (ds.flatMap Decl.idents) :=
      List.sublist_flatten_of_mem (List.mem_map_of_mem ((Lexical.sublist_firsts [] ds).subset hd))
    exact (Decl.subperm_of_mem_frames hframe).trans hidents.subperm

/-- No two names of a frame stand at one position if no two names of the declarations do. -/
theorem Package.nodup_of_mem_frames {ds : List Decl}
    (h : ((ds.flatMap Decl.idents).map Ident.pos).Nodup) {frame : List Ident}
    (hframe : frame ∈ frames ds) : (frame.map Ident.pos).Nodup := by
  obtain ⟨l, hperm, hsub⟩ := Package.subperm_of_mem_frames hframe
  exact (hperm.map Ident.pos).nodup_iff.1 (h.sublist (hsub.map Ident.pos))

/-! ## Diagnostics -/

namespace Compile

/-- What a report of a name that is declared again tells about the scopes of the package. The name
stands at `pos` in a frame of the declarations, behind another one of the same name, the first one
in the frame, which stands at `previous`; the scope of the frame resolves the name to the symbol
that was made of that one. -/
def BoundBefore (name : String) (sources : SourceMap) (x : String) (previous pos : Pos) : Prop :=
  previous ≠ pos ∧ ∃ (scope : ScopeId) (earlier later : List Ident) (id : SymbolId) (s : Symbol),
    (Package.frames (declarations sources).flatten)[scope.index]? =
      some (earlier ++ ⟨x, pos⟩ :: later) ∧
    firstNamed earlier x = some ⟨x, previous⟩ ∧
    (Package.build name (declarations sources)).1.scopes.lookup scope x = .ok (some id) ∧
    (Package.build name (declarations sources)).1.symbols.get? id = some s ∧
    s.name = x ∧ s.pos = previous

/-- A name that is reported as bound before stands at the position told. -/
theorem BoundBefore.reads {name : String} {sources : SourceMap} {x : String} {previous pos : Pos}
    (h : BoundBefore name sources x previous pos) : sources.Reads previous x := by
  obtain ⟨-, scope, earlier, later, id, s, hframe, hfirst, -⟩ := h
  have hframe := Package.subperm_of_mem_frames (List.mem_of_getElem? hframe)
  have hmem : ⟨x, previous⟩ ∈ idents sources :=
    hframe.subset (List.mem_append_left _ (List.mem_of_find?_eq_some hfirst))
  exact reads_of_mem_idents hmem

/-- A diagnostic points to a text of one of the files. It is the name that the diagnostic tells, if
it tells one, and a name that is declared again is bound before by another one. -/
structure PointsAtText (name : String) (sources : SourceMap) (d : Diagnostic) : Prop where
  reads : ∃ text, sources.Reads d.pos text ∧ ∀ x, d.kind.subject? = some x → text = x
  redeclares : ∀ x previous, d.kind = .redeclaration x previous →
    BoundBefore name sources x previous d.pos

variable {name : String} {sources : SourceMap} {d : Diagnostic}

/-- A diagnostic that tells no name points to a text if it stands at one. -/
theorem PointsAtText.of_reads {text : String} (h : sources.Reads d.pos text)
    (hsubject : d.kind.subject? = none) : PointsAtText name sources d where
  reads := ⟨text, h, fun x hx => by rw [hsubject] at hx; cases hx⟩
  redeclares x previous hkind := by rw [hkind] at hsubject; cases hsubject

theorem pointsAtText_syntaxErrors (hd : d ∈ syntaxErrors sources) :
    PointsAtText name sources d := by
  obtain ⟨p, hp, hd⟩ := List.mem_flatMap.1 hd
  obtain ⟨e, he, rfl⟩ := List.mem_map.1 hd
  obtain ⟨hfile, hparse⟩ := mem_parseAll hp
  rw [hparse] at he
  obtain ⟨text, hreads⟩ := @SourceMap.exists_reads sources ⟨p.2.1, e.span⟩ p.1 hfile
    (Parse.cuts_of_mem_errors _ he)
  exact .of_reads hreads rfl

theorem pointsAtText_build (hd : d ∈ (Package.build name (declarations sources)).2) :
    PointsAtText name sources d := by
  obtain ⟨x, hx, hpos, hsubject⟩ := (Package.about_build name (declarations sources)).of_mem d hd
  refine ⟨⟨x.name, hpos ▸ reads_of_mem_idents hx, fun y hy =>
    Option.some.inj (hsubject.symm.trans hy)⟩, fun y previous hkind => ?_⟩
  obtain ⟨scope, earlier, later, id, s, hframe, hfirst, hlookup⟩ :=
    Package.redeclared_build hd hkind
  refine ⟨fun heq => ?_, scope, earlier, later, id, s, hframe, hfirst, hlookup⟩
  have hnodup := Package.nodup_of_mem_frames (nodup_idents sources) (List.mem_of_getElem? hframe)
  rw [List.map_append] at hnodup
  have hprevious : previous ∈ earlier.map Ident.pos :=
    List.mem_map_of_mem (f := Ident.pos) (List.mem_of_find?_eq_some hfirst)
  exact List.disjoint_of_nodup_append hnodup hprevious (heq ▸ List.mem_cons_self)

/-- The parts of a built package stand at texts. -/
theorem exists_reads_of_mem_positions {q : Pos}
    (hq : q ∈ (Package.build name (declarations sources)).1.positions) :
    ∃ text, sources.Reads q text :=
  Package.places_build name (declarations sources) (P := fun q => ∃ text, sources.Reads q text)
    (fun _ hd _ hq => exists_reads_of_mem_places hd hq) q hq

theorem pointsAtText_errors (hd : d ∈ errors name sources) : PointsAtText name sources d := by
  rcases List.mem_append.1 hd with hd | hd
  · exact pointsAtText_build hd
  · have hdisagreement := (Package.disagreements_check _ _).of_mem d hd
    obtain ⟨text, hreads⟩ := exists_reads_of_mem_positions hdisagreement.pos_mem
    exact .of_reads hreads (by cases hdisagreement <;> rfl)

/-- What making output reports is a gap in the package that was built, unless the entry is
missing. -/
theorem isGap_of_mem_generationErrors {options : CompileOptions}
    (hd : d ∈ generationErrors name sources options) (hentry : d ≠ missingEntry) :
    d.IsGap (Package.build name (declarations sources)).1.positions := by
  obtain ⟨optimize, policy, format⟩ := options
  have hd : d ∈ generationErrors name sources ⟨false, policy, format⟩ := by
    cases optimize with
    | false => exact hd
    | true => rwa [generationErrors_optimize] at hd
  cases format with
  | listing => cases hd
  | c =>
    have hwf := (Package.wellFormed_build name (declarations sources)).check
      (Package.stage_build name (declarations sources))
    have hgap := ((hwf.isGap_toC Stage.isChecked_checked Tagging.first).of_mem d hd).resolve_right
      hentry
    rwa [Package.positions_check] at hgap

theorem pointsAtText_generationErrors {options : CompileOptions}
    (hd : d ∈ generationErrors name sources options) (hentry : d ≠ missingEntry) :
    PointsAtText name sources d := by
  obtain ⟨hpos, what, hkind⟩ := isGap_of_mem_generationErrors hd hentry
  obtain ⟨text, hreads⟩ := exists_reads_of_mem_positions hpos
  exact .of_reads hreads (by rw [hkind]; rfl)

/-- Each diagnostic of a compilation comes from the syntax, from resolution and type checking, or
from making output. -/
theorem mem_diagnostics {options : CompileOptions}
    (hd : d ∈ (compile name sources options).diagnostics) :
    d ∈ syntaxErrors sources ∨ d ∈ errors name sources ∨
      d ∈ generationErrors name sources options := by
  rw [(compile_outcome name sources options).2] at hd
  split at hd
  · exact .inl hd
  · split at hd
    · exact .inr (.inl hd)
    · exact .inr (List.mem_append.1 hd)

/-- **Every diagnostic points at the text that it is about.** Whatever the files and the options
are, a diagnostic of a compilation, but that of a missing entry, is at a text of one of the files;
the text is the name that the diagnostic tells, if it tells one; and what is reported as declared
again is bound by another one of the same name, at the position told as the previous one, which the
scope still resolves the name to. -/
theorem diagnostics_point_at_text (name : String) (sources : SourceMap) (options : CompileOptions)
    (hd : d ∈ (compile name sources options).diagnostics) (hentry : d ≠ missingEntry) :
    PointsAtText name sources d := by
  rcases mem_diagnostics hd with hd | hd | hd
  · exact pointsAtText_syntaxErrors hd
  · exact pointsAtText_errors hd
  · exact pointsAtText_generationErrors hd hentry

/-- A parameter that is bound twice is reported at the second one, and the report tells the first
one; the listing of the package is made all the same. -/
theorem diagnostics_point_at_text_twice :
    let sources : SourceMap := .ofList [("main.calc", "(decl f (x int x bool) int x)\n")]
    let repeated : Diagnostic := ⟨.redeclaration "x" ⟨⟨0⟩, ⟨9, 10⟩⟩, ⟨⟨0⟩, ⟨15, 16⟩⟩⟩
    (compile "main" sources ⟨true, .emitAnyway, .listing⟩).diagnostics = [repeated] ∧
      sources.Reads repeated.pos "x" ∧
      BoundBefore "main" sources "x" ⟨⟨0⟩, ⟨9, 10⟩⟩ repeated.pos := by
  intro sources repeated
  have hdiagnostics :
      (compile "main" sources ⟨true, .emitAnyway, .listing⟩).diagnostics = [repeated] := by
    decide +kernel
  have hpoints : PointsAtText "main" sources repeated :=
    diagnostics_point_at_text "main" sources ⟨true, .emitAnyway, .listing⟩
      (hdiagnostics ▸ List.mem_singleton_self repeated) (by simp [repeated, missingEntry])
  obtain ⟨text, hreads, htext⟩ := hpoints.reads
  obtain rfl : text = "x" := htext "x" rfl
  exact ⟨hdiagnostics, hreads, hpoints.redeclares "x" _ rfl⟩

end Compile

end CalcLang
