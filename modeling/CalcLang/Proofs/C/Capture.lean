import CalcLang.Proofs.C.WellScoped

/-!
# Names of generated functions

The function of a declaration is called `_name`, and temporaries are called `_v1`, `_v2` and `_t1`,
`_t2`. So names of declarations such as `v1` meet names of temporaries. In a function that has such
a temporary, C takes a call of the declaration for a use of the temporary.
`Package.calls_captured_iff` says when that happens, and which names of declarations give names that
C keeps for itself.
-/

namespace CalcLang

namespace C

/-! ## Names that C keeps for itself -/

/-- The keywords of C99. -/
def keywords : List String :=
  ["auto", "break", "case", "char", "const", "continue", "default", "do", "double", "else", "enum",
    "extern", "float", "for", "goto", "if", "inline", "int", "long", "register", "restrict",
    "return", "short", "signed", "sizeof", "static", "struct", "switch", "typedef", "union",
    "unsigned", "void", "volatile", "while", "_Bool", "_Complex", "_Imaginary"]

/-- The predefined identifier of C99 and its predefined macros. -/
def predefined : List String :=
  ["__func__", "__DATE__", "__FILE__", "__LINE__", "__STDC__", "__STDC_HOSTED__",
    "__STDC_MB_MIGHT_NEQ_WC__", "__STDC_VERSION__", "__TIME__", "__STDC_IEC_559__",
    "__STDC_IEC_559_COMPLEX__", "__STDC_ISO_10646__"]

/-- Names that no function may have. -/
def reserved : List String := keywords ++ predefined

/-- The names of declarations whose functions would have reserved names. -/
def reservedTails : List String :=
  ["Bool", "Complex", "Imaginary", "_func__", "_DATE__", "_FILE__", "_LINE__", "_STDC__",
    "_STDC_HOSTED__", "_STDC_MB_MIGHT_NEQ_WC__", "_STDC_VERSION__", "_TIME__", "_STDC_IEC_559__",
    "_STDC_IEC_559_COMPLEX__", "_STDC_ISO_10646__"]

theorem toList_functionName (name : String) : (functionName name).toList = '_' :: name.toList := by
  rw [functionName, String.toList_append]
  rfl

/-- Declarations of different names have functions of different names. -/
theorem functionName_injective {name name' : String} (h : functionName name = functionName name') :
    name = name' := by
  have h := congrArg String.toList h
  rw [toList_functionName, toList_functionName, List.cons.injEq] at h
  exact String.toList_inj.1 h.2

theorem functionName_inj {name name' : String} :
    functionName name = functionName name' ↔ name = name' :=
  ⟨functionName_injective, congrArg functionName⟩

/-- Which names of functions are reserved. -/
theorem functionName_mem_reserved_iff {name : String} :
    functionName name ∈ reserved ↔ name ∈ reservedTails := by
  have hfilter : reserved.filter (fun s => s.toList.head? == some '_') =
      reservedTails.map functionName := by decide
  have hhead : (functionName name).toList.head? == some '_' := by
    rw [toList_functionName]
    rfl
  calc functionName name ∈ reserved
      ↔ functionName name ∈ reserved.filter fun s => s.toList.head? == some '_' := by
        rw [List.mem_filter, and_iff_left hhead]
    _ ↔ functionName name ∈ reservedTails.map functionName := by rw [hfilter]
    _ ↔ name ∈ reservedTails := by
        rw [List.mem_map]
        constructor
        · rintro ⟨name', hname', heq⟩
          exact functionName_injective heq ▸ hname'
        · exact fun h => ⟨name, h, rfl⟩

/-! ## Calls of a function -/

mutual

/-- The identifiers in a statement. -/
def Stmt.identifiers : Stmt → List Identifier
  | .declare _ t init => .temp t :: init.identifiers
  | .assign t value => .temp t :: value.identifiers
  | .eval value => value.identifiers
  | .ifThen test yes => test.identifiers ++ Stmt.allIdentifiers yes
  | .ifThenElse test yes no =>
    test.identifiers ++ Stmt.allIdentifiers yes ++ Stmt.allIdentifiers no

/-- The identifiers in statements. -/
def Stmt.allIdentifiers : List Stmt → List Identifier
  | [] => []
  | s :: ss => s.identifiers ++ Stmt.allIdentifiers ss

end

/-- The function has a call of the function of the declaration `callee`. -/
def Function.Calls (f : Function) (callee : String) : Prop :=
  .function callee ∈ Stmt.allIdentifiers f.body ++ f.result.identifiers

/-- The function declares a parameter or temporary with the name of the function of `callee`. -/
def Function.Captures (f : Function) (callee : String) : Prop :=
  functionName callee ∈ f.declarations.map fun c => c.2.text

instance (f : Function) (callee : String) : Decidable (f.Calls callee) :=
  inferInstanceAs (Decidable (_ ∈ _))

instance (f : Function) (callee : String) : Decidable (f.Captures callee) :=
  inferInstanceAs (Decidable (_ ∈ _))

section

variable {F : List String} {name : String}

mutual

theorem Stmt.InScope.function_mem {Δ Δ' : List Temp} : ∀ {s : Stmt}, InScope F Δ s Δ' →
    .function name ∈ s.identifiers → name ∈ F
  | .declare .., h, hmem => by
    cases h with
    | declare hinit => exact hinit.function_mem ((List.mem_cons.1 hmem).resolve_left nofun)
  | .assign .., h, hmem => by
    cases h with
    | assign _ hvalue => exact hvalue.function_mem ((List.mem_cons.1 hmem).resolve_left nofun)
  | .eval .., h, hmem => by cases h with | eval hvalue => exact hvalue.function_mem hmem
  | .ifThen .., h, hmem => by
    cases h with
    | ifThen htest hyes =>
      exact (List.mem_append.1 hmem).elim htest.function_mem hyes.function_mem
  | .ifThenElse .., h, hmem => by
    cases h with
    | ifThenElse htest hyes hno =>
      rw [Stmt.identifiers, List.mem_append, List.mem_append] at hmem
      exact hmem.elim (·.elim htest.function_mem hyes.function_mem) hno.function_mem

theorem Stmt.AllInScope.function_mem {Δ Δ' : List Temp} : ∀ {ss : List Stmt},
    AllInScope F Δ ss Δ' → .function name ∈ Stmt.allIdentifiers ss → name ∈ F
  | [], _, hmem => by cases hmem
  | _ :: _, h, hmem => by
    cases h with
    | cons hs hss => exact (List.mem_append.1 hmem).elim hs.function_mem hss.function_mem

end

/-- A function whose identifiers are in scope calls functions of declarations. -/
theorem Function.InScope.mem_of_calls {f : Function} (h : f.InScope F) (hcalls : f.Calls name) :
    name ∈ F := by
  obtain ⟨Δ, hbody, hresult⟩ := h
  exact (List.mem_append.1 hcalls).elim hbody.function_mem hresult.function_mem

end

/-! ## Captured calls -/

theorem text_tagged (tag : Nat) : (Temp.tagged ⟨tag⟩).text = functionName ("v" ++ toString tag) :=
  String.toList_inj.1 (by rw [toList_text_tagged, toList_functionName]; simp [toString])

theorem text_spill (number : Nat) :
    (Temp.spill number).text = functionName ("t" ++ toString number) :=
  String.toList_inj.1 (by rw [toList_text_spill, toList_functionName]; simp [toString])

/-- **Which calls a generated function captures**: those of `v` with a tag of the declaration and of
`t` with the number of a copy. -/
theorem captures_functionOf_iff {names : List String} {sigs : Typing.Signatures} {S : Symbols}
    {d : Declaration} {k lo : Nat} (h : d.Ready names sigs S k lo) (j : Nat) (callee : String) :
    (functionOf S d j).Captures callee ↔
      (∃ tag, lo ≤ tag ∧ tag < lo + d.tagCount ∧ callee = "v" ++ toString tag) ∨
        ∃ number, j < number ∧ number ≤ j + copyCount d ∧
          callee = "t" ++ toString number := by
  have htexts := (perm_temps h j).map Temp.text
  rw [List.map_map, List.map_append, List.map_map, List.map_map] at htexts
  refine htexts.mem_iff.trans ?_
  simp only [List.mem_append, List.mem_map, List.mem_range'_1, Function.comp_apply, text_tagged,
    text_spill, and_assoc]
  refine or_congr (exists_congr fun tag => ?_) (exists_congr fun number => ?_)
  · rw [functionName_inj, eq_comm]
  · rw [functionName_inj, eq_comm, Nat.add_right_comm, Nat.lt_succ_iff, Nat.succ_le_iff]

end C

namespace Package

/-- For an example: `main` calls `v1`, and the first tag is that of its sum. -/
def capturing : List Decl :=
  [⟨⟨"v1", .origin⟩, [], ⟨.int, .origin⟩, .int ⟨5, by decide⟩ .origin, .origin⟩,
    ⟨⟨"main", .origin⟩, [], ⟨.int, .origin⟩,
      .binary .add (.call ⟨"v1", .origin⟩ [] .origin) (.int ⟨6, by decide⟩ .origin) .origin,
      .origin⟩]

theorem accepts_capturing : Accepts "capturing" [capturing] where
  solid := by simp [capturing, Expr.Solid, Expr.AllSolid]
  build := by decide
  check := by decide

/-- **Which calls of a generated program are captured.** In the program of declarations that are
built and checked without a report, folded or not, and tagged, every declaration has a function of
its own, and every call is one of such a function. The caller declares a parameter or temporary of
the same name exactly if the callee is called `v` with a tag of the caller or `t` with the number of
one of its copies. The name of a function is reserved only for the names `C.reservedTails`. -/
theorem calls_captured_iff {name : String} {files : List (List Decl)} (h : Accepts name files)
    (optimize : Bool) (first : Nat) :
    let p := compiled name files optimize first
    let tags := fun i => first + countBefore Declaration.tagCount p.decls i
    let copies := countBefore C.copyCount p.decls
    (p.toC.1.functions.map fun f => C.functionName f.signature.name).Nodup ∧
    ∀ (i : Nat) (d : Declaration), p.decls[i]? = some d →
      ∃ f, p.toC.1.functions[i]? = some f ∧ f.signature.name = d.name ∧
        (C.functionName d.name ∈ C.reserved ↔ d.name ∈ C.reservedTails) ∧
        ∀ callee, f.Calls callee → callee ∈ p.decls.map Declaration.name ∧
          (f.Captures callee ↔
            (∃ tag, tags i ≤ tag ∧ tag < tags (i + 1) ∧ callee = "v" ++ toString tag) ∨
            ∃ number, copies i < number ∧ number ≤ copies (i + 1) ∧
              callee = "t" ++ toString number) := by
  intro p tags copies
  have hready : p.Ready := h.ready optimize first
  refine ⟨?_, fun i d hd => ?_⟩
  · have hfunctions := C.names_functions p.symbols p.decls 0
    have hnodup := C.nodup_map (fun _ _ => C.functionName_injective) hready.resolved.names_nodup
    rw [← hfunctions, List.map_map] at hnodup
    exact hnodup
  obtain ⟨k, hd'⟩ := h.getElem?_ready optimize first hd
  refine ⟨_, getElem?_functions hd, rfl, C.functionName_mem_reserved_iff, fun callee hcalls =>
    ⟨(C.inScope_functionOf hd' _).mem_of_calls hcalls, ?_⟩⟩
  have htags : tags (i + 1) = tags i + d.tagCount := by
    simp only [tags, countBefore_succ hd, Nat.add_assoc]
  have hcopies : copies (i + 1) = copies i + C.copyCount d := countBefore_succ hd
  rw [htags, hcopies]
  exact C.captures_functionOf_iff hd' _ callee

/-- In `capturing` the call of `v1` is captured, in `doubling` that of `twice` is not. -/
theorem calls_captured_iff_capturing :
    (Accepts "capturing" [capturing] ∧
      ∃ f, (compiled "capturing" [capturing] false 1).toC.1.functions[1]? = some f ∧
        f.Calls "v1" ∧ f.Captures "v1") ∧
    Accepts "doubling" [doubling] ∧
      ∃ f, (compiled "doubling" [doubling] true 1).toC.1.functions[1]? = some f ∧
        f.Calls "twice" ∧ ¬ f.Captures "twice" := by
  obtain ⟨f, hf, -, -, hcalls⟩ := (calls_captured_iff accepts_capturing false 1).2 1 _ rfl
  obtain ⟨g, hg, -, -, hothers⟩ := (calls_captured_iff accepts_doubling true 1).2 1 _ rfl
  have hv1 : f.Calls "v1" := by
    cases hf
    decide
  have htwice : g.Calls "twice" := by
    cases hg
    decide
  refine ⟨⟨accepts_capturing, f, hf, hv1, ?_⟩, accepts_doubling, g, hg, htwice, ?_⟩
  · exact (hcalls "v1" hv1).2.2 (.inl ⟨1, by decide, by decide, rfl⟩)
  · intro hcaptures
    obtain ⟨tag, -, -, heq⟩ | ⟨number, hlt, hle, -⟩ := (hothers "twice" htwice).2.1 hcaptures
    · have := congrArg (fun s => s.toList.head?) heq
      rw [String.toList_append] at this
      cases this
    · exact absurd (Nat.lt_of_lt_of_le hlt hle) (by decide)

/-- For an example: the name of a function that is a keyword of C. -/
def reserving : List Decl :=
  [⟨⟨"Bool", .origin⟩, [], ⟨.bool, .origin⟩, .bool true .origin, .origin⟩]

/-- Generation does not keep names apart: `main` of `capturing` declares a temporary with the name
of the function that it calls, and the function of `reserving` is called like a keyword. -/
theorem not_generation_keeps_names :
    (¬ ∀ (name : String) (files : List (List Decl)), Accepts name files →
      ∀ (optimize : Bool) (first : Nat), ∀ f ∈ (compiled name files optimize first).toC.1.functions,
        ∀ callee, f.Calls callee → ¬ f.Captures callee) ∧
    ¬ ∀ (name : String) (files : List (List Decl)), Accepts name files →
      ∀ (optimize : Bool) (first : Nat), ∀ f ∈ (compiled name files optimize first).toC.1.functions,
        C.functionName f.signature.name ∉ C.reserved := by
  have hreserving : Accepts "reserving" [reserving] :=
    ⟨by simp [reserving, Expr.Solid], by decide, by decide⟩
  refine ⟨fun h => ?_, fun h => ?_⟩
  · exact h _ _ accepts_capturing false Tagging.first _ (List.mem_of_getElem? (i := 1) rfl) "v1"
      (by decide) (by decide)
  · exact h _ _ hreserving false Tagging.first _ (List.mem_of_getElem? (i := 0) rfl) (by decide)

end Package

end CalcLang
