import CalcLang.Proofs.C.GeneratedProgram
import CalcLang.Proofs.C.WellScoped
import CalcLang.Proofs.Policy
import CalcLang.Proofs.Repeats

/-!
# What generation reports

Generation has a report for a node that should not be there: one without a tag, one whose names were
not resolved, and an empty block. A package that is built and checked without a report, folded or
not, and tagged, has none of them: all that is ever reported about it is that it has no entry
(`Package.generation_reports`).
-/

namespace CalcLang

namespace Package

variable {p : Package}

/-- A name finds nothing if no declaration has it. -/
theorem Resolved.lookup?_eq_none (h : p.Resolved) {name : String}
    (hname : ∀ d ∈ p.decls, d.name ≠ name) : p.lookup? name = none := by
  have hfind : (p.decls.map fun d => (d.name, d.symbol)).lookup name = none := by
    refine List.lookup_eq_none_iff.2 fun b hb => ?_
    obtain ⟨d, hd, rfl⟩ := List.mem_map.1 hb
    exact bne_iff_ne.2 (hname d hd).symm
  rw [lookup?, lookupId?, h.scope]
  simp [Scope.find?, hfind]

theorem Resolved.isSome_lookup?_iff (h : p.Resolved) (name : String) :
    (p.lookup? name).isSome ↔ ∃ d ∈ p.decls, d.name = name := by
  constructor
  · intro hsome
    by_contra hnone
    rw [h.lookup?_eq_none fun d hd hname => hnone ⟨d, hd, hname⟩] at hsome
    cases hsome
  · rintro ⟨d, hd, rfl⟩
    obtain ⟨i, hi⟩ := List.getElem?_of_mem hd
    rw [h.lookup?_eq hi]
    rfl

theorem diagnostics_lowerEntry (p : Package) : (C.lowerEntry p).2 =
    if (p.lookup? C.entryName).isSome then [] else [Compile.missingEntry] := by
  rw [C.lowerEntry]
  cases p.lookup? C.entryName <;> rfl

/-- The package that comes out of the stages declares a name exactly if a file does. -/
theorem exists_compiled_iff (name : String) (files : List (List Decl)) (optimize : Bool)
    (first : Nat) (x : String) : (∃ d ∈ (compiled name files optimize first).decls, d.name = x) ↔
      ∃ d ∈ files.flatten, d.name.name = x := by
  have hnames : (compiled name files optimize first).decls.map Declaration.name =
      (Lexical.firsts [] files.flatten).map fun d => d.name.name := by
    rw [map_name_compiled, build_eq_firsts]
    have hlower : (Resolution.lowerDecls _ _).1.map Declaration.name = _ :=
      Resolution.names_lowerDecls (Lexical.number 0 (Lexical.firsts [] files.flatten))
        (Resolution.declared (Lexical.firsts [] files.flatten))
    rw [hlower, List.map_map]
    exact Lexical.map_name_number 0 _
  rw [← Lexical.exists_mem_firsts_iff, ← List.mem_map, hnames, List.mem_map]

/-- What the generation of C from the tagged package of some files reports. -/
def generationReports (name : String) (files : List (List Decl)) (optimize : Bool) (first : Nat) :
    List Diagnostic :=
  ((compiled name files optimize first).generate (Package.stage_tag ..)).2

/-- A report of a missing entry, unless one of the declarations is the entry. -/
def entryReports (files : List (List Decl)) : List Diagnostic :=
  if files.flatten.any fun d => d.name.name == C.entryName then [] else [Compile.missingEntry]

theorem Accepts.generationReports_eq {name : String} {files : List (List Decl)}
    (h : Accepts name files) (optimize : Bool) (first : Nat) :
    generationReports name files optimize first = entryReports files := by
  have hready := h.ready optimize first
  have hentry := (hready.resolved.isSome_lookup?_iff C.entryName).trans
    (exists_compiled_iff name files optimize first C.entryName)
  have hany : (files.flatten.any fun d => d.name.name == C.entryName) =
      ((compiled name files optimize first).lookup? C.entryName).isSome := by
    rw [Bool.eq_iff_iff, hentry, List.any_eq_true]
    simp only [beq_iff_eq]
  have hgenerate : generationReports name files optimize first =
    (compiled name files optimize first).toC.2 := rfl
  rw [hgenerate, hready.diagnostics_toC, diagnostics_lowerEntry, entryReports, hany]

/-- **Generation reports nothing but a missing entry.** It reports nothing at all about
declarations that are built and checked without a report if one of them is the entry, and otherwise
that there is none. Declarations that are read from texts have no empty blocks, whatever is wrong
with the texts, so for them it is enough that building and checking report nothing. -/
theorem generation_reports (name : String) (optimize : Bool) (first : Nat) :
    (∀ files, Accepts name files →
      generationReports name files optimize first = entryReports files) ∧
    ∀ sources, Compile.errors name sources = [] →
      generationReports name (Compile.declarations sources) optimize first =
        entryReports (Compile.declarations sources) :=
  ⟨fun _ h => h.generationReports_eq optimize first,
    fun _ h => (Compile.accepts_of_errors h).generationReports_eq optimize first⟩

theorem generation_reports_doubling :
    let sources : SourceMap := .add .empty "lib.calc" "(decl f int 1)\n"
    Accepts "doubling" [doubling] ∧ generationReports "doubling" [doubling] true 1 = [] ∧
    Compile.errors "lib" sources = [] ∧
      generationReports "lib" (Compile.declarations sources) false 1 =
        [⟨.missingEntry "main", .origin⟩] := by
  intro sources
  have herrors : Compile.errors "lib" sources = [] := by decide +kernel
  have hentry :
      entryReports (Compile.declarations sources) = [⟨.missingEntry "main", .origin⟩] := by
    decide +kernel
  refine ⟨accepts_doubling, ?_, herrors, ?_⟩
  · exact (generation_reports "doubling" true 1).1 _ accepts_doubling
  · rw [(generation_reports "lib" false 1).2 _ herrors, hentry]

end Package

end CalcLang
