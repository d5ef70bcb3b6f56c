import CalcLang.Proofs.C.Depth
import CalcLang.Proofs.C.Functions
import CalcLang.Proofs.Depth

/-!
# Generated programs

What generation of C keeps of a package that is built and checked without a report, folded or not,
and tagged. A call that is evaluated to a value is executed to the same value in every order that C
may choose (`Package.generation_preserves_values`), so the program prints the value of its entry.
It makes the calls of the evaluation in their order, except that what is pending of the right
operand of `&&` or `||` is skipped where the left operand decides
(`Package.generation_preserves_calls_iff`).
-/

namespace CalcLang

open Evaluation

namespace Package

variable {p : Package}

/-- Declarations are found by their names. -/
theorem Resolved.lookup?_eq (h : p.Resolved) {i : Nat} {d : Declaration}
    (hd : p.decls[i]? = some d) : p.lookup? d.name = some d := by
  obtain ⟨hsymbol, s, hs, hkind, -⟩ := h.symbols i d hd
  have hfind :=
    ScopeTable.lookup_map_of_nodup (x := Declaration.symbol) h.names_nodup (List.mem_of_getElem? hd)
  have hid : p.lookupId? d.name = some ⟨i⟩ := by
    rw [lookupId?, h.scope]
    simp [Scope.find?, hfind, hsymbol, hs, Symbol.declaration?, hkind]
  rw [lookup?, hid, Option.bind_some, hd]

/-- The calls that an evaluation shows, as C shows them. -/
def callsOf (p : Package) (E : List Event) : List C.Call :=
  E.filterMap (C.seen (p.decls.map Declaration.name))

theorem Ready.performs (h : p.Ready) {i : Nat} {d : Declaration} (hd : p.decls[i]? = some d)
    {args : List Value} (hargs : d.params.map p.symbols.ty = (args.map Value.ty).map some)
    {E : List Event} {v : Value} (he : p.Evaluates ⟨i⟩ args E v) :
    v.ty = d.ret ∧ ∃ T, p.toC.1.Performs ⟨d.name, args.map C.encode⟩ T (C.encode v) ∧
      C.Follows (p.decls.map Declaration.name) E T := by
  obtain ⟨depth, he⟩ := he
  have hname : (p.decls.map Declaration.name)[(DeclId.mk i).index]? = some d.name := by
    rw [List.getElem?_map, hd, Option.map_some]
  have hsig : p.signatures[i]? = some ⟨d.name, d.params.map p.symbols.ty, d.ret⟩ := by
    rw [getElem?_signatures, hd, Option.map_some]
  obtain ⟨hty, T, hcall, hfollows⟩ := h.serves depth hname hsig hargs he
  exact ⟨hty, T, C.Program.performs_of_always depth hcall, hfollows⟩

theorem any_skips_eq_false_iff {E : List Event} :
    E.any C.skips = false ↔ ∀ right, .decided right ∈ E → C.valueCalls right = false := by
  rw [List.any_eq_false]
  constructor
  · exact fun h right hmem => Bool.eq_false_iff.2 (h _ hmem)
  · intro h e he
    cases e with
    | decided right => exact Bool.eq_false_iff.1 (h right he)
    | call callee args => exact nofun
    | introduce x v => exact nofun
    | assign x v => exact nofun

/-- **Which calls a generated program makes.** They are calls of the evaluation, each at most once
and in its order. They are all of them exactly if, wherever the left operand of `&&` or `||`
decides, the right operand has been lowered to a C value without a call; C does not evaluate that
value. -/
theorem generation_preserves_calls_iff {name : String} {files : List (List Decl)}
    (h : Accepts name files) (optimize : Bool) (first : Nat) :
    let p := compiled name files optimize first
    ∀ (i : Nat) (d : Declaration) (args : List Value) (E : List Event) (v : Value),
      p.decls[i]? = some d → d.params.map p.symbols.ty = (args.map Value.ty).map some →
      p.Evaluates ⟨i⟩ args E v →
      ∃ T, p.toC.1.Performs ⟨d.name, args.map C.encode⟩ T (C.encode v) ∧
        T.Sublist (p.callsOf E) ∧
        (T = p.callsOf E ↔ ∀ right, .decided right ∈ E → C.valueCalls right = false) := by
  intro p i d args E v hd hargs he
  obtain ⟨-, T, hperforms, hfollows⟩ := (h.ready optimize first).performs hd hargs he
  exact ⟨T, hperforms, hfollows.sublist, hfollows.eq_iff.trans any_skips_eq_false_iff⟩

theorem generation_preserves_calls_iff_doubling : Accepts "doubling" [doubling] ∧
    (compiled "doubling" [doubling] true 1).toC.1.Performs ⟨"main", []⟩
      [⟨"twice", [⟨7, by decide⟩]⟩] ⟨14, by decide⟩ := by
  have he : (compiled "doubling" [doubling] true 1).Evaluates ⟨1⟩ []
      ((compiled "doubling" [doubling] true 1).invoke 2 ⟨1⟩ []).events (.int ⟨14, by decide⟩) :=
    ⟨2, Run.returns_of_result rfl⟩
  obtain ⟨T, hperforms, -, hiff⟩ :=
    generation_preserves_calls_iff accepts_doubling true 1 1 _ [] _ _ rfl rfl he
  refine ⟨accepts_doubling, ?_⟩
  have hT : T = [⟨"twice", [⟨7, by decide⟩]⟩] := hiff.2 (any_skips_eq_false_iff.1 rfl)
  rwa [hT] at hperforms

/-- For an example: `main` has a call on the right of `&&` and `false` on the left. -/
def skipping : List Decl :=
  [⟨⟨"f", .origin⟩, [], ⟨.bool, .origin⟩, .bool true .origin, .origin⟩,
    ⟨⟨"main", .origin⟩, [], ⟨.bool, .origin⟩,
      .binary .and (.bool false .origin) (.call ⟨"f", .origin⟩ [] .origin) .origin, .origin⟩]

/-- A generated program does not make all calls of the evaluation: `skipping` is evaluated with a
call of `f`, and C makes none. -/
theorem not_generation_preserves_calls : ¬ ∀ (name : String) (files : List (List Decl)),
    Accepts name files → ∀ (optimize : Bool) (first : Nat),
    let p := compiled name files optimize first
    ∀ (i : Nat) (d : Declaration) (args : List Value) (E : List Event) (v : Value),
      p.decls[i]? = some d → d.params.map p.symbols.ty = (args.map Value.ty).map some →
      p.Evaluates ⟨i⟩ args E v →
      p.toC.1.Performs ⟨d.name, args.map C.encode⟩ (p.callsOf E) (C.encode v) := by
  intro h
  have haccepts : Accepts "skipping" [skipping] :=
    ⟨by simp [skipping, Expr.Solid, Expr.AllSolid], by decide, by decide⟩
  have hcalls : (compiled "skipping" [skipping] false 1).toC.1.Performs ⟨"main", []⟩ [⟨"f", []⟩]
      .zero := h "skipping" [skipping] haccepts false 1 1 _ [] _ (.bool false) rfl rfl
    ⟨2, Run.returns_of_result rfl⟩
  have hnone : (compiled "skipping" [skipping] false 1).toC.1.Performs ⟨"main", []⟩ [] .zero :=
    C.Program.performs_of_always 2 (C.always_pure Word.zero)
  cases (hcalls.det hnone).1

end Package

end CalcLang
