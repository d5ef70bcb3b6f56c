import CalcLang.Proofs.C.Declarations
import CalcLang.Proofs.C.Layout

/-!
# Generated programs are well scoped

What the C text of an accepted package looks like to a C compiler
(`Package.generation_well_scoped`): every function uses only temporaries that are declared in a
block that is still open and calls only functions of the package, declares each of its temporaries
once and with the type of what it stands for, and has matching braces and one `return`, at its end.
-/

namespace CalcLang

/-! ## Names of declarations -/

namespace Resolution

theorem names_lowerDecls (ds : List (Decl × SymbolId)) (n : Names) :
    (lowerDecls ds n).1.map Declaration.name = (ds.map Prod.fst).map fun d => d.name.name := by
  induction ds generalizing n with
  | nil => rfl
  | cons d ds ih => exact congrArg (d.1.name.name :: ·) (ih _)

theorem declareAll_subset (k : Nat) (ds : List Decl) (n : Names) :
    (declareAll k ds n).1.map Prod.fst ⊆ ds := by
  induction ds generalizing k n with
  | nil => exact List.Subset.refl _
  | cons d ds ih =>
    rw [declareAll]
    split
    · exact List.subset_cons_of_subset d (ih _ _)
    · exact List.cons_subset_cons d (ih _ _)

end Resolution

namespace Package

theorem map_name_of_map_head {ds ds' : List Declaration}
    (h : ds'.map Declaration.head = ds.map Declaration.head) :
    ds'.map Declaration.name = ds.map Declaration.name := by
  have hnames := congrArg (List.map Declaration.name) h
  rwa [List.map_map, List.map_map] at hnames

/-- The names of a package stay what they are when it is built. -/
theorem map_name_compiled (name : String) (files : List (List Decl)) (optimize : Bool)
    (first : Nat) : (compiled name files optimize first).decls.map Declaration.name =
      (Package.build name files).1.decls.map Declaration.name := by
  let checked := ((Package.build name files).1.check (Package.stage_build name files)).1
  have hcheck : checked.decls.map Declaration.name = _ :=
    map_name_of_map_head (map_head_checkDecls (Package.build name files).1.signatures
      (Package.build name files).1.decls (Package.build name files).1.symbols)
  have htag : (compiled name files optimize first).decls.map Declaration.name = _ :=
    map_name_of_map_head (map_head_tagDecls _ first _)
  rw [htag, ← hcheck]
  cases optimize with
  | false => rfl
  | true => exact map_name_of_map_head (map_head_map_foldDecl checked.decls)

/-- The names of a compiled package are those of declarations in its files. -/
theorem names_compiled (name : String) (files : List (List Decl)) (optimize : Bool) (first : Nat) :
    (compiled name files optimize first).decls.map Declaration.name ⊆
      files.flatten.map fun d => d.name.name := by
  have hlower : (Package.build name files).1.decls.map Declaration.name = _ :=
    Resolution.names_lowerDecls _ _
  rw [map_name_compiled, hlower]
  exact List.map_subset _ (Resolution.declareAll_subset _ _ _)

end Package

namespace C

/-- The functions of declarations, one for each. The copies of a function are numbered behind
those of the functions before it. -/
theorem getElem?_lowerDecls (S : Symbols) (ds : List Declaration) (k i : Nat) :
    (lowerDecls S ds k).1[i]? =
      ds[i]?.map fun d => functionOf S d (k + countBefore copyCount ds i) := by
  induction ds generalizing k i with
  | nil => rfl
  | cons d ds ih =>
    have hcons : (lowerDecls S (d :: ds) k).1 =
        functionOf S d k :: (lowerDecls S ds (lower S d.body k).spills).1 := rfl
    rw [hcons]
    cases i with
    | zero => rfl
    | succ i =>
      rw [List.getElem?_cons_succ, ih, (declares_lower d.body k).spills, List.getElem?_cons_succ,
        Nat.add_assoc]
      rfl

theorem names_functions (S : Symbols) (ds : List Declaration) (k : Nat) :
    (lowerDecls S ds k).1.map (fun f => f.signature.name) = ds.map Declaration.name := by
  induction ds generalizing k with
  | nil => rfl
  | cons d ds ih => exact congrArg (d.name :: ·) (ih _)

theorem length_lowerDecls (S : Symbols) (ds : List Declaration) (k : Nat) :
    (lowerDecls S ds k).1.length = ds.length := by
  have hlength := congrArg List.length (names_functions S ds k)
  rwa [List.length_map, List.length_map] at hlength

end C

namespace Package

/-- The function of a declaration. -/
theorem getElem?_functions {p : Package} {i : Nat} {d : Declaration} (hd : p.decls[i]? = some d) :
    p.toC.1.functions[i]? =
      some (C.functionOf p.symbols d (countBefore C.copyCount p.decls i)) := by
  refine (C.getElem?_lowerDecls p.symbols p.decls 0 i).trans ?_
  rw [hd, Nat.zero_add]
  rfl

/-- **Generated programs are well scoped.** In the program of declarations that are built and
checked without a report, folded or not, and tagged, the function of each declaration uses what is
in scope and declares nothing twice. It declares every temporary with the C type of the node,
parameter or variable that the temporary stands for, or of the operand of which it is a copy. Its
braces match, and its only `return` is its last statement. Declarations that are read from a text
have the names that are asked for (`Parse.isName_of_mem_decls`). -/
theorem generation_well_scoped {name : String} {files : List (List Decl)}
    (h : Accepts name files) (hnames : ∀ d ∈ files.flatten, IsName d.name.name) (optimize : Bool)
    (first : Nat) :
    let p := compiled name files optimize first
    p.toC.1.functions.length = p.decls.length ∧
    ∀ (i : Nat) (d : Declaration), p.decls[i]? = some d →
      ∃ f, p.toC.1.functions[i]? = some f ∧ f.signature.name = d.name ∧
        f.InScope (p.decls.map Declaration.name) ∧
        (f.declarations.map fun c => c.2.text).Nodup ∧
        (∀ ty t, (ty, t) ∈ f.declarations →
          ∃ τ, ty = .ofTy (some τ) ∧
            C.StandsFor p.symbols d (countBefore C.copyCount p.decls i) t τ) ∧
        C.Balanced f.text ∧ C.ReturnsOnce f.text := by
  intro p
  have hready : p.Ready := h.ready optimize first
  have hF : ∀ name ∈ p.decls.map Declaration.name, IsName name := by
    intro name hname
    obtain ⟨d, hd, rfl⟩ := List.mem_map.1 (names_compiled _ _ optimize first hname)
    exact hnames d hd
  refine ⟨?_, fun i d hd => ?_⟩
  · exact C.length_lowerDecls p.symbols p.decls 0
  obtain ⟨k, lo, hd'⟩ := hready.decls d (List.mem_of_getElem? hd)
  have hscope := C.inScope_functionOf hd' (countBefore C.copyCount p.decls i)
  refine ⟨_, getElem?_functions hd, rfl, hscope, ?_, fun ty t => C.standsFor_of_mem hd'
    (hready.resolved.params d (List.mem_of_getElem? hd)), C.balanced_and_returnsOnce hF
    (List.mem_map_of_mem (List.mem_of_getElem? hd)) hscope⟩
  have htexts := C.nodup_map (fun _ _ => C.Temp.text_injective)
    (C.nodup_declarations hd' (countBefore C.copyCount p.decls i))
  rwa [List.map_map] at htexts

theorem generation_well_scoped_doubling : Accepts "doubling" [doubling] ∧
    (∀ d ∈ [doubling].flatten, IsName d.name.name) ∧
    ∃ f, (compiled "doubling" [doubling] false 1).toC.1.functions[1]? = some f ∧
      f.signature.name = "main" ∧ f.InScope ["twice", "main"] ∧
      (f.declarations.map fun c => c.2.text).Nodup ∧ C.Balanced f.text ∧ C.ReturnsOnce f.text := by
  have hnames : ∀ d ∈ [doubling].flatten, IsName d.name.name := by
    have htwice : IsName "twice" := ⟨'t', ['w', 'i', 'c', 'e'], rfl, rfl, List.all_eq_true.1 rfl⟩
    have hmain : IsName "main" := ⟨'m', ['a', 'i', 'n'], rfl, rfl, List.all_eq_true.1 rfl⟩
    exact List.forall_mem_cons.2 ⟨htwice, List.forall_mem_cons.2 ⟨hmain, nofun⟩⟩
  obtain ⟨f, hf, hname, hscope, hnodup, -, htext⟩ :=
    (generation_well_scoped accepts_doubling hnames false 1).2 1 _ rfl
  exact ⟨accepts_doubling, hnames, f, hf, hname, hscope, hnodup, htext⟩

end Package

end CalcLang
