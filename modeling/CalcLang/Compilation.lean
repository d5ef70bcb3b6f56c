import CalcLang.C.Lower
import CalcLang.Log.Event
import CalcLang.Package.Folding
import CalcLang.Package.Listing
import CalcLang.Package.Resolution
import CalcLang.Package.Tagging
import CalcLang.Package.Typing
import CalcLang.Parse
import CalcLang.SourceMap

/-!
# Compilations

`compile` takes the files of a package through all stages: they are parsed, built into one
package, type checked, folded if the options say so, tagged and turned into output. Any
diagnostic makes the compilation fail. A mistake in the syntax ends it before the package is
built; other mistakes end it after type checking, unless the options ask for output anyway.

The stages require their packages to be ready by hypothesis, so a compilation cannot run them out
of order.
-/

namespace CalcLang

/-- What to do about diagnostics of resolution and type checking. -/
inductive ErrorPolicy
  /-- Make no output. -/
  | abort
  /-- Make output all the same. The compilation still fails. -/
  | emitAnyway
  deriving DecidableEq, Repr, Inhabited

/-- The form of the output. -/
inductive OutputFormat
  | c
  /-- The listing of the tagged package. -/
  | listing
  deriving DecidableEq, Repr, Inhabited

/-- The extension of output files. -/
def OutputFormat.extension : OutputFormat → String
  | c => "c"
  | listing => "ir"

/-- The choices that a compilation depends on. -/
structure CompileOptions where
  /-- Whether constant operations are folded. -/
  optimize : Bool
  policy : ErrorPolicy
  format : OutputFormat
  deriving DecidableEq, Repr, Inhabited

/-- The result of a compilation. There is no output if the diagnostics prevent it. -/
structure Compilation where
  diagnostics : List Diagnostic
  output : Option String
  events : List Log.Event
  deriving Repr, Inhabited

namespace Compilation

/-- The output of a compilation without diagnostics. -/
def success? (c : Compilation) : Option String :=
  if c.diagnostics.isEmpty then c.output else none

/-- What is said about a compilation that fails. -/
def failureMessage (diagnostics : List Diagnostic) : String :=
  s!"compilation failed with {diagnostics.length} error(s)"

end Compilation

namespace Compile

/-- The parsed files of a source map, with the numbers of the files. -/
def parseAll (sources : SourceMap) : List (SourceFile × FileId × Parse) :=
  sources.files.toList.zipIdx.map fun f => (f.1, ⟨f.2⟩, Parse.ofText ⟨f.2⟩ f.1.text)

/-- The output of a tagged package. -/
def output (p : Package) (h : p.stage = .tagged) (format : OutputFormat) :
    String × List Diagnostic × List Log.Event :=
  match format with
  | .listing => (p.listing, [], [])
  | .c =>
    let (text, d) := p.generate h
    (text, d, [.generated p.name text.utf8ByteSize])

/-- Folds a checked package if `optimize` is set. -/
def optimized (optimize : Bool) (p : Package) (h : p.stage = .checked) :
    Package × List Log.Event :=
  if optimize then
    let folded := p.fold (.of_eq_checked h)
    (folded, [.folded p.name (p.operators - folded.operators)])
  else (p, [])

theorem optimized_isChecked (optimize : Bool) (p : Package) (h : p.stage = .checked) :
    (optimized optimize p h).1.stage.IsChecked := by
  unfold optimized
  split
  · exact Stage.isChecked_folded
  · exact h ▸ Stage.isChecked_checked

/-- Tags a checked package, after folding it if the options say so, and makes its output. -/
def finish (options : CompileOptions) (p : Package) (h : p.stage = .checked) :
    String × List Diagnostic × List Log.Event :=
  let folding := optimized options.optimize p h
  let tagging := folding.1.tag (optimized_isChecked options.optimize p h) Tagging.first
  let (text, d, emitting) := output tagging.1 (Package.stage_tag ..) options.format
  (text, d, folding.2 ++ [.tagged p.name (tagging.2 - Tagging.first)] ++ emitting)

end Compile

open Compile in
/-- Compiles the files of `sources` as the package `name`. -/
def compile (name : String) (sources : SourceMap) (options : CompileOptions) : Compilation :=
  let parses := parseAll sources
  let syntaxErrors := parses.flatMap fun p => p.2.2.diagnostics p.2.1
  let parsing := parses.map fun p => .parsed p.1.name p.2.2.decls.length
  if !syntaxErrors.isEmpty then ⟨syntaxErrors, none, parsing⟩
  else
    let files := parses.map fun p => p.2.2.decls
    let built := Package.build name files
    let checked := built.1.check (Package.stage_build name files)
    let errors := built.2 ++ checked.2
    let events := parsing ++ [.built name built.1.decls.length built.1.symbols.size,
      .checked name checked.2.length]
    if !errors.isEmpty && options.policy == .abort then
      ⟨errors, none, events ++ [.skipped errors.length]⟩
    else
      let (text, d, finishing) := finish options checked.1 (Package.stage_check ..)
      ⟨errors ++ d, some text, events ++ finishing⟩

end CalcLang
