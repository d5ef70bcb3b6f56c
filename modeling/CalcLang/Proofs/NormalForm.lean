import CalcLang.Proofs.TagSeries

/-!
# The normal form of the pipeline

The steps check, fold, tag and generate can be tried on a package in any order and any number of
times; a step that the stage of the package does not allow fails and leaves the package alone. What
the steps that are allowed make of a built package is one of five forms (`NormalForm`), and a step
leads from form to form as `NormalForm.next` says (`package_apply`). A repeated fold finds nothing
left to fold (`Folding.fold_fold`), and a repeated tagging gives every holder the tag that it has
already (`Package.tag_tag`). `pipeline_has_normal_form` is the result about runs of any length.
-/

namespace CalcLang

/-! ## Folding twice -/

namespace Folding

mutual

/-- A folded node has nothing left to fold. -/
theorem fold_fold : ∀ n : Node, fold (fold n) = fold n
  | .const .. | .read .. | .error .. | .declare .. => rfl
  | .binary op lhs rhs ty tag pos => by
    have hsame : fold (.binary op (fold lhs) (fold rhs) ty tag pos) =
        fold (.binary op lhs rhs ty tag pos) := by
      simp only [fold, fold_fold lhs, fold_fold rhs]
    -- An operation that was refused for its operands or its type is refused again.
    obtain h | ⟨_, _, v, _, _, -, -, -, -, h⟩ :=
      Evaluation.fold_binary_cases op lhs rhs ty tag pos
    · rw [← h] at hsame
      exact hsame
    · rw [h]
      rfl
  | .unary op operand ty pos => by
    have hsame : fold (.unary op (fold operand) ty pos) = fold (.unary op operand ty pos) := by
      simp only [fold, fold_fold operand]
    obtain h | ⟨_, v, _, -, -, -, h⟩ := Evaluation.fold_unary_cases op operand ty pos
    · rw [← h] at hsame
      exact hsame
    · rw [h]
      rfl
  | .call _ _ args .. => by simp only [fold, foldAll_foldAll args]
  | .ifThen test _ yes .. => by simp only [fold, fold_fold test, fold_fold yes]
  | .ifThenElse test _ yes no .. => by
    simp only [fold, fold_fold test, fold_fold yes, fold_fold no]
  | .block nodes .. => by simp only [fold, foldAll_foldAll nodes]
  | .assign _ _ value .. => by simp only [fold, fold_fold value]
  | .define _ _ _ init _ => by simp only [fold, fold_fold init]

theorem foldAll_foldAll : ∀ ns : List Node, foldAll (foldAll ns) = foldAll ns
  | [] => rfl
  | n :: ns => by simp only [foldAll, fold_fold n, foldAll_foldAll ns]

end

end Folding

theorem Package.fold_fold (p : Package) (hf : p.stage.IsFoldable)
    (hf' : (p.fold hf).stage.IsFoldable) : (p.fold hf).fold hf' = p.fold hf := by
  have hdecls : (p.decls.map Folding.foldDecl).map Folding.foldDecl =
      p.decls.map Folding.foldDecl := by
    rw [List.map_map]
    refine List.map_congr_left fun d _ => ?_
    simp only [Function.comp_apply, Folding.foldDecl, Folding.fold_fold]
  exact (Package.mk.injEq ..).mpr ⟨rfl, rfl, rfl, hdecls, rfl⟩

/-! ## Tagging twice -/

namespace Tagging

mutual

/-- Tags that stand on a node already make no difference. -/
theorem tag_untagged : ∀ (n : Node) (k : Nat) (s : Symbols), tag n.untagged k s = tag n k s
  | .const .., _, _ | .error .., _, _ | .read .., _, _ | .declare .., _, _ => rfl
  | .binary _ lhs rhs .., k, s => by
    simp only [Node.untagged, tag, tag_untagged lhs, tag_untagged rhs]
  | .unary _ operand .., k, s => by simp only [Node.untagged, tag, tag_untagged operand]
  | .call _ _ args .., k, s => by simp only [Node.untagged, tag, tagAll_allUntagged args]
  | .ifThen test _ yes .., k, s => by
    simp only [Node.untagged, tag, tag_untagged test, tag_untagged yes]
  | .ifThenElse test _ yes no .., k, s => by
    simp only [Node.untagged, tag, tag_untagged test, tag_untagged yes, tag_untagged no]
  | .block nodes .., k, s => by simp only [Node.untagged, tag, tagAll_allUntagged nodes]
  | .assign _ _ value .., k, s => by simp only [Node.untagged, tag, tag_untagged value]
  | .define _ _ _ init _, k, s => by simp only [Node.untagged, tag, tag_untagged init]

theorem tagAll_allUntagged : ∀ (ns : List Node) (k : Nat) (s : Symbols),
    tagAll (Node.allUntagged ns) k s = tagAll ns k s
  | [], _, _ => rfl
  | n :: ns, k, s => by
    simp only [Node.allUntagged, tagAll, tag_untagged n, tagAll_allUntagged ns]

end

/-- What tagging makes of a declaration does not depend on the tags in its body. -/
theorem tagDecls_congr {ds ds' : List Declaration}
    (h : ds'.map (fun d => { d with body := d.body.untagged }) =
      ds.map fun d => { d with body := d.body.untagged }) (k : Nat) (s : Symbols) :
    tagDecls ds' k s = tagDecls ds k s := by
  induction ds generalizing ds' k s with
  | nil =>
    rw [List.map_eq_nil_iff.1 h]
  | cons d ds ih =>
    cases ds' with
    | nil => cases h
    | cons d' ds' =>
      simp only [List.map_cons, List.cons.injEq, Declaration.mk.injEq] at h
      obtain ⟨⟨hname, hsymbol, hparams, hret, hscope, hbody, hpos⟩, hds⟩ := h
      have htag : ∀ (k : Nat) (s : Symbols), tag d'.body k s = tag d.body k s := by
        intro k s
        rw [← tag_untagged, hbody, tag_untagged]
      simp only [tagDecls, hname, hsymbol, hparams, hret, hscope, hpos, htag, ih hds]

end Tagging

/-- To tag a package again from the same number on changes nothing. -/
theorem Package.tag_tag (p : Package) (hc : p.stage.IsChecked) (k : Nat)
    (hc' : (p.tag hc k).1.stage.IsChecked) : (p.tag hc k).1.tag hc' k = p.tag hc k := by
  have hagain : ∀ s, Tagging.tagDecls (p.tag hc k).1.decls k s = Tagging.tagDecls p.decls k s :=
    Tagging.tagDecls_congr (untagged_tagDecls p.decls k p.symbols).1 k
  have hnext : ((p.tag hc k).1.tag hc' k).2 = (p.tag hc k).2 := by
    change (Tagging.tagDecls (p.tag hc k).1.decls k _).2.1 = _
    rw [hagain, Tagging.tagDecls_eq, p.next_tag, holders]
  have hsymbols : ((p.tag hc k).1.tag hc' k).1.symbols = (p.tag hc k).1.symbols := by
    change (Tagging.tagDecls (p.tag hc k).1.decls k _).2.2 = _
    rw [hagain, Tagging.tagDecls_eq, p.symbols_tag, holders, Symbols.setTags_setTags]
  have hdecls : ((p.tag hc k).1.tag hc' k).1.decls = (p.tag hc k).1.decls := by
    change (Tagging.tagDecls (p.tag hc k).1.decls k _).1 = _
    rw [hagain]
    -- The tags on nodes do not depend on the symbols, here those of the tagged package.
    exact (Tagging.tagDecls_add 0 p.decls k p.symbols _).trans
      (Tagging.tagDecls_add 0 p.decls k p.symbols p.symbols).symm
  exact Prod.ext ((Package.mk.injEq ..).mpr ⟨rfl, rfl, hsymbols, hdecls, rfl⟩) hnext

/-! ## Runs -/

namespace Pipeline

/-- What can be tried on a package. -/
inductive Step
  | check
  | fold
  /-- Tagging from the first number of a fresh sequence on. -/
  | tag
  | generate
  deriving DecidableEq, Repr

/-- A package at the stage has what the step asks for. -/
def Step.Allowed : Step → Stage → Prop
  | .check, stage => stage = .built
  | .fold, stage => stage.IsFoldable
  | .tag, stage => stage.IsChecked
  | .generate, stage => stage = .tagged

/-- What has become of a package. -/
structure Run where
  package : Package
  /-- Whether a fold was accepted. -/
  folded : Bool
  /-- The texts and diagnostics that were generated. -/
  outputs : List (String × List Diagnostic)

/-- Tries a step. A step that is refused changes nothing. -/
def Run.step (r : Run) : Step → Run
  | .check =>
    match r.package.check? with
    | .ok (p, _) => { r with package := p }
    | .error _ => r
  | .fold =>
    match r.package.fold? with
    | .ok p => { r with package := p, folded := true }
    | .error _ => r
  | .tag =>
    match r.package.tag? Tagging.first with
    | .ok (p, _) => { r with package := p }
    | .error _ => r
  | .generate =>
    match r.package.generate? with
    | .ok output => { r with outputs := r.outputs ++ [output] }
    | .error _ => r

theorem Run.step_of_not_allowed {r : Run} {step : Step} (h : ¬ step.Allowed r.package.stage) :
    r.step step = r := by
  cases step with
  | check => simp only [Run.step, Package.check?, dif_neg (show ¬ r.package.stage = .built from h)]
  | fold => simp only [Run.step, Package.fold?, dif_neg (show ¬ r.package.stage.IsFoldable from h)]
  | tag => simp only [Run.step, Package.tag?, dif_neg (show ¬ r.package.stage.IsChecked from h)]
  | generate =>
    simp only [Run.step, Package.generate?, dif_neg (show ¬ r.package.stage = .tagged from h)]

section

variable (r : Run)

theorem Run.step_check (h : r.package.stage = .built) :
    r.step .check = { r with package := (r.package.check h).1 } := by
  simp only [Run.step, Package.check?, dif_pos h]

theorem Run.step_fold (h : r.package.stage.IsFoldable) :
    r.step .fold = { r with package := r.package.fold h, folded := true } := by
  simp only [Run.step, Package.fold?, dif_pos h]

theorem Run.step_tag (h : r.package.stage.IsChecked) :
    r.step .tag = { r with package := (r.package.tag h Tagging.first).1 } := by
  simp only [Run.step, Package.tag?, dif_pos h]

theorem Run.step_generate (h : r.package.stage = .tagged) :
    r.step .generate = { r with outputs := r.outputs ++ [r.package.generate h] } := by
  simp only [Run.step, Package.generate?, dif_pos h]

end

/-- Tries steps one after the other on a package. -/
def run (p : Package) (steps : List Step) : Run := steps.foldl Run.step ⟨p, false, []⟩

/-- What a built package can become: by its stage, and by whether a fold was accepted. -/
inductive NormalForm
  | built
  | checked
  | folded
  | tagged (optimize : Bool)
  deriving DecidableEq, Repr

namespace NormalForm

/-- The stage of a form. -/
def stage : NormalForm → Stage
  | built => .built
  | checked => .checked
  | folded => .folded
  | tagged _ => .tagged

/-- Whether a fold was accepted on the way to a form. -/
def isFolded : NormalForm → Bool
  | built | checked => false
  | folded => true
  | tagged optimize => optimize

/-- The form after a step. -/
def next : NormalForm → Step → NormalForm
  | built, .check => checked
  | checked, .fold => folded
  | checked, .tag => tagged false
  | folded, .tag => tagged true
  | form, _ => form

variable (p : Package) (hb : p.stage = .built)

/-- The package of a form: that of at most one check, one fold and one tagging. -/
def package : NormalForm → Package
  | built => p
  | checked => (p.check hb).1
  | folded => (p.check hb).1.fold (.of_eq_checked (p.stage_check hb))
  | tagged optimize =>
    ((Compile.optimized optimize (p.check hb).1 (p.stage_check hb)).1.tag
      (Compile.optimized_isChecked optimize (p.check hb).1 (p.stage_check hb)) Tagging.first).1

theorem stage_package (form : NormalForm) : (form.package p hb).stage = form.stage := by
  cases form with
  | built => exact hb
  | checked => rfl
  | folded => rfl
  | tagged optimize => rfl

theorem rank_next (form : NormalForm) (step : Step) :
    form.stage.rank ≤ (form.next step).stage.rank := by
  cases form with
  | tagged optimize => cases step <;> exact Nat.le_refl _
  | _ => cases step <;> decide

theorem next_of_not_allowed {form : NormalForm} {step : Step} (h : ¬ step.Allowed form.stage) :
    form.next step = form := by
  cases form with
  | built =>
    cases step with
    | check => exact absurd rfl h
    | _ => rfl
  | checked =>
    cases step with
    | fold => exact absurd (.inl rfl) h
    | tag => exact absurd Stage.isChecked_checked h
    | _ => rfl
  | folded =>
    cases step with
    | tag => exact absurd Stage.isChecked_folded h
    | _ => rfl
  | tagged optimize => cases step <;> rfl

end NormalForm

/-- The run has brought the built package `p` into a form, and has generated from tagged packages of
that form only. -/
structure Run.Normal (p : Package) (hb : p.stage = .built) (form : NormalForm) (r : Run) :
    Prop where
  package : r.package = form.package p hb
  folded : r.folded = form.isFolded
  outputs : ∀ output ∈ r.outputs, form.stage = .tagged ∧
    output = ((NormalForm.tagged form.isFolded).package p hb).generate rfl

namespace Run.Normal

variable {p : Package} {hb : p.stage = .built} {form : NormalForm} {r : Run}

/-- Outputs are there in the last form only, in which the package stays. -/
theorem outputs_next (h : r.Normal p hb form) (step : Step) :
    ∀ output ∈ r.outputs, (form.next step).stage = .tagged ∧
      output = ((NormalForm.tagged (form.next step).isFolded).package p hb).generate rfl := by
  intro output houtput
  obtain ⟨hstage, heq⟩ := h.outputs output houtput
  cases form with
  | tagged optimize => cases step <;> exact ⟨rfl, heq⟩
  | _ => cases hstage

/-- **A step leads from normal form to normal form.** -/
theorem step (h : r.Normal p hb form) (step : Step) :
    (r.step step).Normal p hb (form.next step) := by
  have houtputs := h.outputs_next step
  have hstage : r.package.stage = form.stage := by
    rw [h.package, NormalForm.stage_package]
  by_cases hallowed : step.Allowed r.package.stage
  · have hform : step.Allowed form.stage := hstage ▸ hallowed
    obtain ⟨q, folded, outputs⟩ := r
    obtain ⟨rfl, rfl, -⟩ := h
    cases step with
    | check =>
      rw [Run.step_check _ hallowed]
      cases form with
      | built => exact ⟨rfl, rfl, houtputs⟩
      | _ => cases hform
    | fold =>
      rw [Run.step_fold _ hallowed]
      cases form with
      | built => exact absurd hform (show ¬ Stage.built.IsFoldable by decide)
      | checked => exact ⟨rfl, rfl, houtputs⟩
      | folded => exact ⟨Package.fold_fold _ (.of_eq_checked rfl) hallowed, rfl, houtputs⟩
      | tagged optimize => exact absurd hform (show ¬ Stage.tagged.IsFoldable by decide)
    | tag =>
      rw [Run.step_tag _ hallowed]
      cases form with
      | built => exact absurd hform (show ¬ Stage.built.IsChecked by decide)
      | checked => exact ⟨rfl, rfl, houtputs⟩
      | folded => exact ⟨rfl, rfl, houtputs⟩
      | tagged optimize =>
        exact ⟨congrArg Prod.fst (Package.tag_tag _ _ Tagging.first hallowed), rfl, houtputs⟩
    | generate =>
      rw [Run.step_generate _ hallowed]
      cases form with
      | tagged optimize =>
        refine ⟨rfl, rfl, fun output houtput => ?_⟩
        rcases List.mem_append.1 houtput with houtput | houtput
        · exact houtputs output houtput
        · exact ⟨rfl, List.mem_singleton.1 houtput⟩
      | _ => cases hform
  · rw [Run.step_of_not_allowed hallowed, NormalForm.next_of_not_allowed (hstage ▸ hallowed)]
    exact h

/-- A step that leaves the form leaves the package. -/
theorem package_step (h : r.Normal p hb form) (step : Step) (hnext : form.next step = form) :
    (r.step step).package = r.package := by
  have hagain := (h.step step).package
  rw [hnext] at hagain
  exact hagain.trans h.package.symm

/-- Steps lead from normal form to normal form, and never back to an earlier stage. -/
theorem steps (h : r.Normal p hb form) (steps : List Step) :
    (steps.foldl Run.step r).Normal p hb (steps.foldl NormalForm.next form) ∧
      form.stage.rank ≤ (steps.foldl NormalForm.next form).stage.rank := by
  induction steps generalizing form r with
  | nil => exact ⟨h, Nat.le_refl _⟩
  | cons step steps ih =>
    obtain ⟨hsteps, hrank⟩ := ih (h.step step)
    exact ⟨hsteps, Nat.le_trans (form.rank_next step) hrank⟩

end Run.Normal

theorem normal_run (p : Package) (hb : p.stage = .built) (steps : List Step) :
    (run p steps).Normal p hb (steps.foldl NormalForm.next .built) := by
  have hstart : Run.Normal p hb .built ⟨p, false, []⟩ := ⟨rfl, rfl, nofun⟩
  exact (hstart.steps steps).1

theorem run_append (p : Package) (steps more : List Step) :
    run p (steps ++ more) = more.foldl Run.step (run p steps) :=
  List.foldl_append

end Pipeline

open Pipeline in
/-- **The pipeline has a normal form.** Whatever steps are tried on a built package, they bring it
into one of five forms: the one of its stage and of whether a fold was accepted. The stage does not
go back, every text that is generated is the one of the tagged form, and to fold a folded package
again or to tag a tagged one again changes nothing. -/
theorem pipeline_has_normal_form (p : Package) (hb : p.stage = .built) (steps : List Step) :
    let r := run p steps
    ∃ form : NormalForm,
      form.stage = r.package.stage ∧ form.isFolded = r.folded ∧ r.package = form.package p hb ∧
      (∀ more, r.package.stage.rank ≤ (run p (steps ++ more)).package.stage.rank) ∧
      (∀ output ∈ r.outputs,
        output = ((NormalForm.tagged r.folded).package p hb).generate rfl) ∧
      (r.folded → (run p (steps ++ [.fold])).package = r.package) ∧
      (r.package.stage = .tagged → (run p (steps ++ [.tag])).package = r.package) := by
  have h := normal_run p hb steps
  simp only [run_append]
  generalize steps.foldl NormalForm.next .built = form at h
  have hstage : (run p steps).package.stage = form.stage := by
    rw [h.package, NormalForm.stage_package]
  refine ⟨form, hstage.symm, h.folded.symm, h.package, fun more => ?_, fun output houtput => ?_,
    fun hfolded => ?_, fun htagged => ?_⟩
  · obtain ⟨hmore, hrank⟩ := h.steps more
    rw [hstage, hmore.package, NormalForm.stage_package]
    exact hrank
  · rw [h.folded]
    exact (h.outputs output houtput).2
  · refine h.package_step .fold ?_
    rw [h.folded] at hfolded
    cases form <;> first | rfl | cases hfolded
  · refine h.package_step .tag ?_
    rw [hstage] at htagged
    cases form <;> first | rfl | cases htagged

open Pipeline in
/-- Steps that are tried too early, too late or twice do no harm. -/
theorem pipeline_has_normal_form_doubling :
    (Package.build "doubling" [doubling]).1.stage = .built ∧
      (run (Package.build "doubling" [doubling]).1
          [.tag, .check, .fold, .check, .fold, .tag, .fold, .generate, .tag]).package =
        (NormalForm.tagged true).package (Package.build "doubling" [doubling]).1 rfl := by
  refine ⟨rfl, ?_⟩
  obtain ⟨form, hstage, hfolded, hpackage, -⟩ :=
    pipeline_has_normal_form (Package.build "doubling" [doubling]).1 rfl
      [.tag, .check, .fold, .check, .fold, .tag, .fold, .generate, .tag]
  have hform : form = .tagged true := by
    cases form with
    | tagged optimize => exact congrArg _ hfolded
    | _ => cases hstage
  rw [hpackage, hform]

end CalcLang
