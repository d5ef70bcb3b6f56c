import CalcLang.Proofs.Frames
import CalcLang.Proofs.Modular

/-!
# Names that are declared again

Of the declarations of a name the first one counts. Building gives the package that it gives on
files without the others, and puts one report for each of the others in front of the reports of
that (`Package.build_keeps_firsts`). So the declaration that counts is in the first file with one
(`Package.declaresFirst_build`).
-/

namespace CalcLang

namespace Lexical

/-- The files without the declarations whose name one before them has, given the declarations that
come `earlier`. -/
def firstsInFiles (earlier : List Decl) : List (List Decl) → List (List Decl)
  | [] => []
  | file :: files => firsts earlier file :: firstsInFiles (earlier ++ file) files

/-- The declarations whose name one before them has, given those that come `earlier`. -/
def others (earlier : List Decl) : List Decl → List Decl
  | [] => []
  | d :: ds =>
    match earlier.find? (sameName d) with
    | some _ => d :: others (earlier ++ [d]) ds
    | none => others (earlier ++ [d]) ds

/-- A report that the name of a declaration is that of an earlier one. -/
def again (d first : Decl) : Diagnostic :=
  ⟨.redeclaration d.name.name first.name.pos, d.name.pos⟩

variable {earlier ds : List Decl} {d first : Decl}

theorem firsts_append (earlier ds es : List Decl) :
    firsts earlier (ds ++ es) = firsts earlier ds ++ firsts (earlier ++ ds) es := by
  induction ds generalizing earlier with
  | nil => simp [firsts]
  | cons d ds ih =>
    rw [List.cons_append, firsts, firsts, ih, ← List.append_cons]
    split <;> rfl

theorem flatten_firstsInFiles (earlier : List Decl) (files : List (List Decl)) :
    (firstsInFiles earlier files).flatten = firsts earlier files.flatten := by
  induction files generalizing earlier with
  | nil => rfl
  | cons file files ih =>
    rw [firstsInFiles, List.flatten_cons, List.flatten_cons, ih, firsts_append]

/-- The first declaration of a name is kept. -/
theorem mem_firsts_of_find? (hearlier : earlier.find? (sameName d) = none)
    (hfirst : ds.find? (sameName d) = some first) : first ∈ firsts earlier ds := by
  induction ds generalizing earlier with
  | nil => cases hfirst
  | cons e ds ih =>
    rw [firsts]
    by_cases hname : sameName d e
    · rw [List.find?_cons_of_pos hname, Option.some.injEq] at hfirst
      subst hfirst
      rw [← Resolution.sameName_congr hname, hearlier]
      exact List.mem_cons_self
    · rw [List.find?_cons_of_neg hname] at hfirst
      have hmem := @ih (earlier ++ [e]) (by simp [List.find?_append, hearlier, hname]) hfirst
      split
      · exact hmem
      · exact List.mem_cons_of_mem _ hmem

/-- What is reported about a declaration that is left out. -/
theorem forall₂_repeats (earlier ds : List Decl) :
    List.Forall₂ (fun d r => ∃ first, (earlier ++ ds).find? (sameName d) = some first ∧
      r = again d first) (others earlier ds) (repeats earlier ds) := by
  induction ds generalizing earlier with
  | nil => exact .nil
  | cons d ds ih =>
    rw [others, repeats, List.append_cons]
    cases hfirst : earlier.find? (sameName d) with
    | none => exact ih _
    | some first =>
      refine .cons ⟨first, ?_, rfl⟩ (ih _)
      rw [List.append_assoc, List.find?_append, hfirst, Option.some_or]

/-- No name gets lost with the declarations that are left out. -/
theorem exists_mem_firsts_iff (ds : List Decl) (name : String) :
    (∃ d ∈ firsts [] ds, d.name.name = name) ↔ ∃ d ∈ ds, d.name.name = name := by
  refine ⟨fun ⟨d, hd, hname⟩ => ⟨d, (sublist_firsts [] ds).subset hd, hname⟩, ?_⟩
  rintro ⟨d, hd, rfl⟩
  have hsame : sameName d d := beq_self_eq_true d.name.name
  obtain ⟨first, hfirst⟩ := Option.isSome_iff_exists.1 (List.find?_isSome.2 ⟨d, hd, hsame⟩)
  have hname : sameName d first := List.find?_some (p := sameName d) hfirst
  exact ⟨first, mem_firsts_of_find? rfl hfirst, (beq_iff_eq.1 hname).symm⟩

/-- What is kept is the first declaration of its name. -/
theorem find?_of_mem_firsts {earlier ds : List Decl} {d : Decl} (h : d ∈ firsts earlier ds) :
    (earlier ++ ds).find? (sameName d) = some d := by
  induction ds generalizing earlier with
  | nil => cases h
  | cons e ds ih =>
    rw [List.append_cons]
    rw [firsts] at h
    split at h
    · exact ih h
    · next hnone =>
      rcases List.mem_cons.1 h with rfl | h
      · have hself : sameName d d := beq_self_eq_true d.name.name
        rw [List.append_assoc, List.find?_append, hnone, Option.none_or]
        exact List.find?_cons_of_pos hself
      · exact ih h

end Lexical

namespace Package

open Lexical Resolution

/-- **Declarations of a name that is taken are as if they were absent.** The package is that of the
files without them, and its reports are one for each of them, in their order, and then those of the
files without them. Each of the reports is at the name that is declared again, and points to the
name of the one declaration that is kept of it. -/
theorem build_keeps_firsts (name : String) (files : List (List Decl)) :
    let kept := firstsInFiles [] files
    (build name files).1 = (build name kept).1 ∧
    ∃ reports, (build name files).2 = reports ++ (build name kept).2 ∧
      List.Forall₂ (fun d r => ∃ first ∈ kept.flatten, first.name.name = d.name.name ∧
        r = again d first) (others [] files.flatten) reports ∧
      (kept.flatten.map fun d => d.name.name).Nodup := by
  intro kept
  have hkept : kept.flatten = firsts [] files.flatten := flatten_firstsInFiles [] files
  have hnodup := nodup_firsts [] files.flatten
  -- What is kept once is kept as a whole.
  obtain ⟨hfirsts, hrepeats⟩ := @firsts_eq_self (firsts [] files.flatten) [] hnodup
  rw [build_eq_firsts name files, build_eq_firsts name kept, hkept, hfirsts, hrepeats]
  refine ⟨rfl, repeats [] files.flatten, rfl, ?_, hnodup⟩
  refine (forall₂_repeats [] files.flatten).imp fun d r => ?_
  rintro ⟨first, hfirst, rfl⟩
  have hname : sameName d first := List.find?_some (p := sameName d) hfirst
  exact ⟨first, mem_firsts_of_find? rfl hfirst, (beq_iff_eq.1 hname).symm, rfl⟩

theorem map_origin_lowerDecls (ds : List (Decl × SymbolId)) (n : Names) :
    (lowerDecls ds n).1.map (fun d => (d.name, d.pos)) =
      (ds.map Prod.fst).map fun d => (d.name.name, d.pos) := by
  induction ds generalizing n with
  | nil => rfl
  | cons d ds ih =>
    rw [lowerDecls, List.map_cons, List.map_cons, List.map_cons, ← ih]
    rfl

/-- The declarations of a package are those that are kept. -/
theorem map_origin_build (name : String) (files : List (List Decl)) :
    (build name files).1.decls.map (fun d => (d.name, d.pos)) =
      (firsts [] files.flatten).map fun d => (d.name.name, d.pos) := by
  rw [build_eq_firsts]
  dsimp only
  rw [map_origin_lowerDecls, map_fst_number]

/-- The declaration of a name is in the file with the least number of those that declare it. -/
structure DeclaresFirst (p : Package) (files : List (List Decl)) : Prop where
  within : ∀ d ∈ p.decls, ∃ file : List Decl, files[d.pos.file.index]? = some file ∧
    ∃ e ∈ file, e.name.name = d.name ∧ e.pos = d.pos
  least : ∀ d ∈ p.decls, ∀ (i : Nat) (file : List Decl), files[i]? = some file →
    (∃ e ∈ file, e.name.name = d.name) → d.pos.file.index ≤ i
  complete : ∀ file ∈ files, ∀ e ∈ file, ∃ d ∈ p.decls, d.name = e.name.name

/-- The first file with a declaration of a name has the one that counts. -/
theorem declaresFirst_build (name : String) {files : List (List Decl)}
    (hfiles : ∀ (i : Nat) (file : List Decl), files[i]? = some file →
      ∀ e ∈ file, e.pos.file.index = i) :
    (build name files).1.DeclaresFirst files := by
  have horigin (d : Declaration) (hd : d ∈ (build name files).1.decls) :
      ∃ before file behind e, files = before ++ file :: behind ∧ e ∈ file ∧
        e.name.name = d.name ∧ e.pos = d.pos ∧
        ∀ earlier ∈ before, ∀ e' ∈ earlier, e'.name.name ≠ d.name := by
    have hmem := List.mem_map_of_mem (f := fun d : Declaration => (d.name, d.pos)) hd
    rw [map_origin_build] at hmem
    obtain ⟨e, he, heq⟩ := List.mem_map.1 hmem
    obtain ⟨hname, hpos⟩ := Prod.mk.inj heq
    obtain ⟨-, before, ys, zs, behind, hsplit, hbefore, -⟩ :=
      List.find?_flatten_eq_some_iff.1 (find?_of_mem_firsts he)
    refine ⟨before, ys ++ e :: zs, behind, e, hsplit, by simp, hname, hpos, ?_⟩
    intro earlier hearlier e' he' hsame
    have hother := hbefore earlier hearlier e' he'
    simp [sameName, hname, hsame] at hother
  constructor
  · intro d hd
    obtain ⟨before, file, behind, e, rfl, he, hname, hpos, -⟩ := horigin d hd
    have hindex := hfiles before.length file (by simp) e he
    exact ⟨file, by rw [← hpos, hindex]; simp, e, he, hname, hpos⟩
  · rintro d hd i file hfile ⟨e', he', hsame⟩
    obtain ⟨before, first, behind, e, rfl, he, hname, hpos, hbefore⟩ := horigin d hd
    have hindex := hfiles before.length first (by simp) e he
    rw [← hpos, hindex]
    by_contra hlt
    rw [List.getElem?_append_left (Nat.lt_of_not_le hlt)] at hfile
    exact hbefore file (List.mem_of_getElem? hfile) e' he' hsame
  · intro file hfile e he
    obtain ⟨first, hfirst, hname⟩ := (exists_mem_firsts_iff files.flatten e.name.name).2
      ⟨e, List.mem_flatten.2 ⟨file, hfile, he⟩, rfl⟩
    have hmem := List.mem_map_of_mem (f := fun d : Decl => (d.name.name, d.pos)) hfirst
    rw [← map_origin_build name] at hmem
    obtain ⟨d, hd, heq⟩ := List.mem_map.1 hmem
    exact ⟨d, hd, (Prod.mk.inj heq).1.trans hname⟩

end Package

end CalcLang
