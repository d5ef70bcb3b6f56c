import CalcLang.Proofs.NewNames
import CalcLang.Proofs.Numbering

/-!
# Series of tagged packages

Packages that are tagged one after the other share one sequence of numbers. As the numbers are dense
in each of them (`Package.WellFormed.tags_tag`), no two packages have a tag in common, and each has
the tags that it has alone, moved behind those that came before (`Job.tagged_add`): a package that
has not been tagged yet holds no tag that could stay behind. `tagging_is_dense` puts this together
for the packages of any files.
-/

namespace CalcLang

/-! ## Moving tags -/

/-- The tag that comes `d` numbers later. -/
def Tag.later (d : Nat) (t : Tag) : Tag := ⟨t.number + d⟩

/-- The symbol with its tag moved. -/
def Symbol.shiftTag (d : Nat) (e : Symbol) : Symbol := { e with tag := e.tag.map (Tag.later d) }

mutual

/-- The node with all tags on it moved. -/
def Node.shiftTags (d : Nat) : Node → Node
  | .const v pos => .const v pos
  | .error pos => .error pos
  | .read name x ty pos => .read name x ty pos
  | .binary op lhs rhs ty tag pos =>
    .binary op (lhs.shiftTags d) (rhs.shiftTags d) ty (tag.map (Tag.later d)) pos
  | .unary op operand ty pos => .unary op (operand.shiftTags d) ty pos
  | .call name callee args ty pos => .call name callee (Node.allShiftTags d args) ty pos
  | .ifThen test written yes ty tag pos =>
    .ifThen (test.shiftTags d) written (yes.shiftTags d) ty (tag.map (Tag.later d)) pos
  | .ifThenElse test written yes no ty tag pos =>
    .ifThenElse (test.shiftTags d) written (yes.shiftTags d) (no.shiftTags d) ty
      (tag.map (Tag.later d)) pos
  | .block nodes ty pos => .block (Node.allShiftTags d nodes) ty pos
  | .assign name x value ty pos => .assign name x (value.shiftTags d) ty pos
  | .declare name x written pos => .declare name x written pos
  | .define name x written init pos => .define name x written (init.shiftTags d) pos

/-- The nodes with all tags on them moved. -/
def Node.allShiftTags (d : Nat) : List Node → List Node
  | [] => []
  | n :: ns => n.shiftTags d :: Node.allShiftTags d ns

end

/-- The package with all tags moved. -/
def Package.shiftTags (d : Nat) (p : Package) : Package :=
  p.map (Node.shiftTags d) (Symbol.shiftTag d)

namespace Symbols

theorem map_shiftTag_setTag (d : Nat) (s : Symbols) (x : SymbolId) (tag : Tag) :
    (s.setTag x tag).map (Symbol.shiftTag d) =
      setTag (s.map (Symbol.shiftTag d)) x (tag.later d) := by
  refine Array.ext_getElem? fun i => ?_
  simp only [setTag, Array.getElem?_map, Array.getElem?_modify]
  split
  · rw [Option.map_map, Option.map_map]
    rfl
  · rfl

theorem map_shiftTag_setTags (d : Nat) (s : Symbols) (marks : List (SymbolId × Tag)) :
    (s.setTags marks).map (Symbol.shiftTag d) =
      setTags (s.map (Symbol.shiftTag d)) (marks.map fun m => (m.1, m.2.later d)) := by
  induction marks generalizing s with
  | nil => rfl
  | cons mark marks ih =>
    rw [setTags_cons, ih, map_shiftTag_setTag, List.map_cons, setTags_cons]

end Symbols

namespace Tagging

theorem marks_add (d k : Nat) (hs : List (Option SymbolId)) :
    marks (k + d) hs = (marks k hs).map fun m => (m.1, m.2.later d) := by
  induction hs generalizing k with
  | nil => rfl
  | cons h hs ih =>
    have hnext : k + d + 1 = k + 1 + d := by omega
    cases h with
    | none => rw [marks_none, marks_none, hnext, ih]
    | some x =>
      rw [marks_some, marks_some, hnext, ih]
      rfl

mutual

/-- The tags on a node do not depend on the symbols, and move with the first one. -/
theorem tag_add (d : Nat) : ∀ (n : Node) (k : Nat) (s s' : Symbols),
    (tag n (k + d) s').1 = (tag n k s).1.shiftTags d
  | .const .., _, _, _ | .error .., _, _, _ | .read .., _, _, _ | .declare .., _, _, _ => rfl
  | .binary _ lhs rhs .., k, s, s' => by
    simp only [tag, Node.shiftTags, next_tag, Nat.add_right_comm _ d, tag_add d lhs _ s,
      tag_add d rhs _ (tag lhs (k + 1) s).2.2]
    rfl
  | .unary _ operand .., k, s, s' => by
    simp only [tag, Node.shiftTags, tag_add d operand k s]
  | .call _ _ args .., k, s, s' => by
    simp only [tag, Node.shiftTags, tagAll_add d args k s]
  | .ifThen test _ yes .., k, s, s' => by
    simp only [tag, Node.shiftTags, next_tag, Nat.add_right_comm _ d, tag_add d test _ s,
      tag_add d yes _ (tag test (k + 1) s).2.2]
    rfl
  | .ifThenElse test _ yes no .., k, s, s' => by
    simp only [tag, Node.shiftTags, next_tag, Nat.add_right_comm _ d, tag_add d test _ s]
    rw [tag_add d yes _ (tag test (k + 1) s).2.2,
      tag_add d no _ (tag yes (k + 1 + test.holders.length) (tag test (k + 1) s).2.2).2.2]
    rfl
  | .block nodes .., k, s, s' => by
    simp only [tag, Node.shiftTags, tagAll_add d nodes k s]
  | .assign _ _ value .., k, s, s' => by
    simp only [tag, Node.shiftTags, tag_add d value k s]
  | .define _ x _ init _, k, s, s' => by
    simp only [tag, Node.shiftTags, Nat.add_right_comm _ d, tag_add d init _ (s.setTag x ⟨k⟩)]

theorem tagAll_add (d : Nat) : ∀ (ns : List Node) (k : Nat) (s s' : Symbols),
    (tagAll ns (k + d) s').1 = Node.allShiftTags d (tagAll ns k s).1
  | [], _, _, _ => rfl
  | n :: ns, k, s, s' => by
    simp only [tagAll, Node.allShiftTags, next_tag, Nat.add_right_comm _ d, tag_add d n _ s,
      tagAll_add d ns _ (tag n k s).2.2]

end

theorem tagDecls_add (d : Nat) (ds : List Declaration) (k : Nat) (s s' : Symbols) :
    (tagDecls ds (k + d) s').1 =
      (tagDecls ds k s).1.map fun decl => { decl with body := decl.body.shiftTags d } := by
  induction ds generalizing k s s' with
  | nil => rfl
  | cons decl ds ih =>
    simp only [tagDecls, tagParams_eq, next_tag, symbols_tag, Nat.add_right_comm _ d,
      List.map_cons]
    rw [tag_add d decl.body _ (s.setTags (marks k (decl.params.map some))), ih]

end Tagging

/-! ## Packages without tags -/

/-- No symbol has a tag. -/
def Symbols.Untagged (s : Symbols) : Prop := ∀ x, s.tag x = none

theorem Symbols.Untagged.map_shiftTag {s : Symbols} (h : s.Untagged) (d : Nat) :
    s.map (Symbol.shiftTag d) = s := by
  refine Array.ext_getElem? fun i => ?_
  have hi := h ⟨i⟩
  rw [Array.getElem?_map]
  cases he : s[i]? with
  | none => rfl
  | some e =>
    have htag : e.tag = none := by simpa [Symbols.tag, Symbols.get?, he] using hi
    have hshift : e.shiftTag d = e := by
      rw [Symbol.shiftTag, htag, Option.map_none, ← htag]
    rw [Option.map_some, hshift]

/-- Tables that differ in types have the same tags. -/
theorem Symbols.Untagged.of_untyped {s s' : Symbols} (h : s.Untagged)
    (hsame : s'.untyped = s.untyped) : s'.Untagged := by
  intro x
  have hx := congrArg (fun s : Symbols => (s.get? x).bind Symbol.tag) hsame
  simp only [Symbols.untyped, Symbols.get?, Array.getElem?_map, Option.bind_map] at hx
  exact hx.trans (h x)

theorem kept_untagged : Resolution.Names.Kept fun n => n.symbols.Untagged := by
  refine .of_symbols fun s e he hs x => ?_
  simp only [Symbols.tag, Symbols.get?, Array.getElem?_push]
  split
  · exact he
  · exact hs x

/-! ## Packages that are tagged one after the other -/

/-- A package that can be tagged: what it is built of, and whether it is folded once it has been
checked. -/
structure Job where
  name : String
  files : List (List Decl)
  optimize : Bool

namespace Job

variable (j : Job)

/-- The package of a job after type checking. -/
def checked : Package := ((Package.build j.name j.files).1.check (Package.stage_build ..)).1

/-- The package of a job before it is tagged. -/
def package : Package := (Compile.optimized j.optimize j.checked (Package.stage_check ..)).1

theorem isChecked : j.package.stage.IsChecked := Compile.optimized_isChecked ..

/-- The tagged package of a job and the next number. -/
def tagged (first : Nat) : Package × Nat := j.package.tag j.isChecked first

theorem package_cases : j.package = j.checked ∨
    ∃ hf, j.package = j.checked.fold hf := by
  unfold package Compile.optimized
  split
  · exact .inr ⟨.of_eq_checked (Package.stage_check ..), rfl⟩
  · exact .inl rfl

theorem wellFormed : j.package.WellFormed := by
  have h : j.checked.WellFormed :=
    (Package.wellFormed_build j.name j.files).check (Package.stage_build ..)
  obtain heq | ⟨hf, heq⟩ := j.package_cases
  · rw [heq]
    exact h
  · rw [heq]
    exact h.fold hf

theorem untagged : j.package.symbols.Untagged := by
  have hbuilt : (Package.build j.name j.files).1.symbols.Untagged :=
    kept_untagged.build (fun _ => rfl) j.name j.files
  have hchecked : j.checked.symbols.Untagged :=
    hbuilt.of_untyped (Package.untyped_checkDecls _ _ _).2
  obtain heq | ⟨hf, heq⟩ := j.package_cases
  · rw [heq]
    exact hchecked
  · rw [heq]
    exact hchecked

/-- Tagging from a later number on gives the same tags, moved. -/
theorem tagged_add (k d : Nat) : (j.tagged (k + d)).1 = (j.tagged k).1.shiftTags d := by
  refine (Package.mk.injEq ..).mpr ⟨rfl, rfl, ?_, ?_, rfl⟩
  · change (j.tagged (k + d)).1.symbols = (j.tagged k).1.symbols.map (Symbol.shiftTag d)
    rw [tagged, tagged, Package.symbols_tag, Package.symbols_tag, Tagging.marks_add,
      Symbols.map_shiftTag_setTags, j.untagged.map_shiftTag]
  · exact Tagging.tagDecls_add d j.package.decls k j.package.symbols j.package.symbols

end Job

/-- Tags packages one after the other with one counter. -/
def tagSeries : List Job → Nat → List Package × Nat
  | [], k => ([], k)
  | j :: js, k =>
    let (p, k) := j.tagged k
    let (ps, k) := tagSeries js k
    (p :: ps, k)

theorem Job.next_tagged (j : Job) (k : Nat) : (j.tagged k).2 = k + j.package.tags.length := by
  rw [length_tags]
  exact j.package.next_tag j.isChecked k

theorem nodup_tagsFrom (lo hi : Nat) : (tagsFrom lo hi).Nodup := by
  refine List.Pairwise.map _ ?_ List.nodup_range'
  intro i i' hne h
  exact hne (by simpa using h)

/-- A series of packages has the tags from the first one on. -/
theorem tags_tagSeries (js : List Job) (k : Nat) : k ≤ (tagSeries js k).2 ∧
    (tagSeries js k).1.flatMap Package.tags = tagsFrom k (tagSeries js k).2 := by
  induction js generalizing k with
  | nil => exact ⟨Nat.le_refl _, (tagsFrom_self k).symm⟩
  | cons j js ih =>
    have hnext : k ≤ (j.tagged k).2 := by
      rw [j.next_tagged]
      omega
    obtain ⟨hle, htags⟩ := ih (j.tagged k).2
    refine ⟨Nat.le_trans hnext hle, ?_⟩
    simp only [tagSeries, List.flatMap_cons, htags]
    rw [Job.tagged, j.wellFormed.tags_tag j.isChecked k]
    exact tagsFrom_append hnext hle

/-- The number of tags that go to the first `i` of some packages. -/
def tagsBefore (js : List Job) (i : Nat) : Nat :=
  ((js.take i).flatMap fun j => j.package.tags).length

/-- The counter is at the number of tags given so far when a package has its turn. -/
theorem getElem?_tagSeries (js : List Job) (k i : Nat) :
    (tagSeries js k).1[i]? = js[i]?.map fun j => (j.tagged (k + tagsBefore js i)).1 := by
  induction js generalizing k i with
  | nil => rfl
  | cons j js ih =>
    cases i with
    | zero => rfl
    | succ i =>
      change (tagSeries js (j.tagged k).2).1[i]? = js[i]?.map _
      rw [ih, j.next_tagged]
      simp only [tagsBefore, List.take_succ_cons, List.flatMap_cons, List.length_append,
        Nat.add_assoc]

/-- **Tags are dense.** A package of any files, checked and perhaps folded, that is tagged from `k`
on gets the numbers from `k` up to the next one in the order of its parameters and of its nodes
with temporaries, and nothing else about it changes. So the packages of a series, which are tagged
with one counter, have no tag in common, and each one is tagged as it is alone, but for the number
of tags that came before. -/
theorem tagging_is_dense :
    (∀ (j : Job) (k : Nat),
      (j.tagged k).2 = k + j.package.tags.length ∧
      (j.tagged k).1.tags = tagsFrom k (j.tagged k).2 ∧
      (j.tagged k).1.untagged = { j.package.untagged with stage := .tagged } ∧
      ∀ x, some x ∉ j.package.holders →
        (j.tagged k).1.symbols.get? x = j.package.symbols.get? x) ∧
    ∀ (js : List Job) (k : Nat),
      (tagSeries js k).1.flatMap Package.tags = tagsFrom k (tagSeries js k).2 ∧
      (tagSeries js k).1.Pairwise (fun p q => ∀ tag ∈ p.tags, tag ∉ q.tags) ∧
      ∀ i, (tagSeries js k).1[i]? =
        js[i]?.map fun j : Job => (j.tagged k).1.shiftTags (tagsBefore js i) := by
  refine ⟨fun j k => ⟨j.next_tagged k, j.wellFormed.tags_tag j.isChecked k,
    j.package.untagged_tag j.isChecked k, fun x hx => Package.get?_symbols_tag _ _ k hx⟩,
    fun js k => ?_⟩
  have htags := (tags_tagSeries js k).2
  refine ⟨htags, ?_, fun i => ?_⟩
  · have hnodup := nodup_tagsFrom k (tagSeries js k).2
    rw [← htags, List.Nodup, List.pairwise_flatMap] at hnodup
    exact hnodup.2.imp fun hne tag hp hq => hne tag hp tag hq rfl
  · simp only [getElem?_tagSeries, Job.tagged_add]

end CalcLang
