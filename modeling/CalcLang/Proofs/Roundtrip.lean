import CalcLang.Proofs.Origins
import CalcLang.Proofs.Policy
import CalcLang.Proofs.Rebuilding
import CalcLang.Proofs.Rereading

/-!
# Packages that are written and read back

`Package.sourceText` writes a checked package as a source text, with the listings of its bodies. The
text is read back without an error, and building and checking give the same package without a
report, up to positions and to whether the types of variables are written
(`Compile.sourceText_reads_back`).
-/

namespace CalcLang

/-! ## Expressions of nodes have no positions -/

mutual

theorem Node.bare_source (S : Symbols) : ∀ n : Node, (n.source S).bare = n.source S
  | .const v _ => by cases v <;> rfl
  | .error .. | .read .. | .declare .. => rfl
  | .binary _ lhs rhs .. => by
    simp only [source, Expr.bare, lhs.bare_source S, rhs.bare_source S]
  | .unary _ operand .. => by simp only [source, Expr.bare, operand.bare_source S]
  | .call _ _ args .. => by
    simp only [source, Expr.bare, Node.allBare_allSource S args]
    rfl
  | .ifThen test written yes .. => by
    cases written <;> simp only [source, Expr.bare, test.bare_source S, yes.bare_source S] <;> rfl
  | .ifThenElse test written yes no .. => by
    cases written <;> simp only [source, Expr.bare, test.bare_source S, yes.bare_source S,
      no.bare_source S] <;> rfl
  | .block nodes .. => by simp only [source, Expr.bare, Node.allBare_allSource S nodes]
  | .assign _ _ value .. => by
    simp only [source, Expr.bare, value.bare_source S]
    rfl
  | .define _ x _ init _ => by
    cases h : S.ty x <;> simp only [source, Expr.bare, h, init.bare_source S] <;> rfl

theorem Node.allBare_allSource (S : Symbols) : ∀ ns : List Node,
    Expr.allBare (Node.allSource S ns) = Node.allSource S ns
  | [] => rfl
  | n :: ns => by
    simp only [Node.allSource, Expr.allBare, n.bare_source S, Node.allBare_allSource S ns]

end

theorem Declaration.bare_source (S : Symbols) (d : Declaration) :
    (d.source S).bare = d.source S := by
  have hparams : (d.params.map S.param).map Param.bare = d.params.map S.param := by
    rw [List.map_map]
    rfl
  exact congrArg₂ (fun params body => Decl.mk _ params _ body _) hparams (d.body.bare_source S)

namespace Package

open Typing Resolution Lexical

/-- The package as a source text. -/
def sourceText (p : Package) : String :=
  String.join (p.decls.map (Listing.sourceText p.symbols))

theorem map_bare_source (p : Package) : p.source.map Decl.bare = p.source := by
  rw [source, List.map_map]
  exact List.map_congr_left fun d _ => d.bare_source p.symbols

namespace Accepts

variable {name : String} {files : List (List Decl)} (h : Accepts name files)

include h

/-- The text of a package is the writing of its source. -/
theorem sourceText_eq : (checked name files).sourceText =
    String.join ((checked name files).source.map fun d => (Writing.list d.writings).text) := by
  have hres : (checked name files).Resolved := h.resolved.check (stage_build name files) h.check
  have hbuilt : (Package.build name files).1.symbols.Untagged :=
    kept_untagged.build (fun _ => rfl) name files
  have hchecked : (checked name files).symbols.Untagged :=
    hbuilt.of_untyped (untyped_checkDecls _ _ _).2
  rw [sourceText, source, List.map_map]
  refine congrArg String.join (List.map_congr_left fun d hd => ?_)
  refine CalcLang.sourceText_eq hchecked (hres.params d hd) (h.annotated d hd) ?_
  have hmem : Typing.untyped d ∈ (Package.build name files).1.decls := by
    rw [← h.map_untyped]
    exact List.mem_map_of_mem hd
  exact h.reread.untagged _ hmem

theorem writable_source (hwritable : ∀ d ∈ files.flatten, d.Writable) :
    ∀ d ∈ (checked name files).source, d.Writable := by
  rw [← h.map_source]
  refine List.forall_mem_map.2 (h.reread.writable fun d hd => ?_)
  obtain ⟨i, hi⟩ := List.mem_iff_getElem?.1 hd
  rw [getElem?_number, Option.map_eq_some_iff] at hi
  obtain ⟨e, he, rfl⟩ := hi
  exact hwritable e ((sublist_firsts [] files.flatten).subset (List.mem_of_getElem? he))

/-- The text of a package is read as the source of the package. -/
theorem ofText_sourceText (hwritable : ∀ d ∈ files.flatten, d.Writable) (file : FileId) :
    (Parse.ofText file (checked name files).sourceText).errors = [] ∧
      (Parse.ofText file (checked name files).sourceText).decls.map Decl.bare =
        (checked name files).source := by
  have hsource := h.writable_source hwritable
  have hlexical : ∀ parts ∈ (checked name files).source.map Decl.writings,
      Writing.AllLexical parts :=
    List.forall_mem_map.2 fun d hd => lexical_decl (hsource d hd)
  have hwords := Writing.significant_join hlexical
  rw [List.map_map, List.flatMap_map] at hwords
  obtain ⟨f, htokens, htree⟩ := Grammar.exists_file file hsource hwords
  have hread : f.tokens = Token.significant (checked name files).sourceText := by
    rw [h.sourceText_eq]
    exact htokens
  obtain ⟨herrors, hdecls⟩ := Parse.ofText_of_tokens file hread
  refine ⟨herrors, ?_⟩
  rw [hdecls, htree, map_bare_source]

/-- Declarations that are the source of a package, up to positions, build and check to it. -/
theorem rebuild {ds : List Decl} (hds : ds.map Decl.bare = (checked name files).source) :
    (Package.build name [ds]).2 = [] ∧
      ((Package.build name [ds]).1.check (stage_build name [ds])).2 = [] ∧
      (checked name [ds]).bare = (checked name files).explicit := by
  have hbare := build_bare name [ds]
  rw [List.map_cons, List.map_nil, hds] at hbare
  let rechecked := (Package.build name [ds]).1.check (stage_build name [ds])
  have hagain : ∀ p : Package, p = (Package.build name [ds]).1.bare → ∀ hp,
      p.check hp = (rechecked.1.bare, rechecked.2.map Diagnostic.bare) := by
    rintro _ rfl hp
    exact check_bare (Package.build name [ds]).1 (stage_build name [ds]) hp
  have hbuilt := h.build_source.symm.trans hbare
  have hrechecked := h.check_source.symm.trans (hagain _ (congrArg Prod.fst hbare) _)
  refine ⟨List.map_eq_nil_iff.1 (congrArg Prod.snd hbuilt).symm, ?_,
    (congrArg Prod.fst hrechecked).symm⟩
  exact List.map_eq_nil_iff.1 (congrArg Prod.snd hrechecked).symm

end Accepts

end Package

namespace Compile

open Package Parse

theorem writable_of_mem_declarations {sources : SourceMap} {d : Decl}
    (hd : d ∈ (declarations sources).flatten) : d.Writable := by
  obtain ⟨file, id, -, hd⟩ := exists_of_mem_declarations hd
  exact writable_of_mem_decls hd

/-- **A package is read back from its text.** If the declarations of the files build and check
without a report, the text of the package, with the listings of all bodies in it, parses without an
error, and what it declares builds and checks without a report, to the same package: but for
positions and for the types of variables, all of which are written now. -/
theorem sourceText_reads_back {name : String} {sources : SourceMap}
    (h : errors name sources = []) (path : String) :
    let package := checked name (declarations sources)
    let again := SourceMap.ofList [(path, package.sourceText)]
    syntaxErrors again = [] ∧ errors name again = [] ∧
      (checked name (declarations again)).bare = package.explicit := by
  intro package again
  have haccepts := accepts_of_errors h
  obtain ⟨herrors, hdecls⟩ :=
    haccepts.ofText_sourceText (fun _ => writable_of_mem_declarations) ⟨0⟩
  obtain ⟨hbuild, hcheck, hchecked⟩ := haccepts.rebuild hdecls
  refine ⟨?_, List.append_eq_nil_iff.2 ⟨hbuild, hcheck⟩, hchecked⟩
  have hreports : syntaxErrors again =
    ((ofText ⟨0⟩ package.sourceText).errors.map fun e => e.toDiagnostic ⟨0⟩) ++ [] := rfl
  rw [hreports, herrors]
  rfl

theorem sourceText_reads_back_main :
    let sources := SourceMap.ofList [("main.calc",
      "(decl main int ((var (= x -3)) (if (< x 0) (= x (- x)) x) (+ x 1 (main))))")]
    let package := checked "main" (declarations sources)
    let text := "(decl main () int ((var (= x -3) int) (if (< x 0) (= x (- x)) x) " ++
      "(+ (+ x 1) (main))))"
    let again := SourceMap.ofList [("again.calc", text)]
    errors "main" sources = [] ∧ package.sourceText = text ∧ errors "main" again = [] ∧
      (checked "main" (declarations again)).bare = package.explicit := by
  intro sources package text again
  have herrors : errors "main" sources = [] := by decide +kernel
  have htext : (checked "main" (declarations sources)).sourceText = text := by decide +kernel
  obtain ⟨-, hagain, hpackage⟩ := sourceText_reads_back herrors "again.calc"
  rw [htext] at hagain hpackage
  exact ⟨herrors, htext, hagain, hpackage⟩

end Compile

end CalcLang
