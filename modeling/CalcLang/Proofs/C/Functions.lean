import CalcLang.Proofs.Building
import CalcLang.Proofs.C.Simulation
import CalcLang.Proofs.Stages

/-!
# Calls of generated functions

A call of a declaration whose evaluation gives a value is simulated by the call of its function
(`Package.Ready.serves`), whatever the bound on nested calls. The store that the function starts
with holds the parameters (`exists_ofArgs`), and the rest is the simulation of its body.
-/

namespace CalcLang

open Evaluation Typing

namespace C

section Parameters

variable {S : Symbols}

theorem ofArgs_cons (x : SymbolId) (xs : List SymbolId) (v : Value) (vs : List Value) :
    Frame.ofArgs (x :: xs) (v :: vs) = (Frame.ofArgs xs vs).set x v := by
  funext y
  rw [Frame.set, Frame.ofArgs, List.zip_cons_cons, List.lookup_cons]
  split
  · next h => rw [if_pos (by simpa using h)]
  · next h =>
    rw [if_neg (by simpa using h)]
    rfl

/-- The store of a call holds the parameters, which have consecutive symbols and tags. -/
theorem exists_ofArgs (j : Nat) : ∀ (args : List Value) (k lo : Nat),
    (∀ i, i < args.length → S.tag ⟨k + i⟩ = some ⟨lo + i⟩) →
    (numbered k args.length).map S.ty = (args.map Value.ty).map some →
    ∃ ρ, Store.ofArgs (lowerParams S (numbered k args.length)).1 (args.map encode) = some ρ ∧
      ρ.Holds S (numbered k args.length) (lo + args.length) j
        (Frame.ofArgs (numbered k args.length) args) ∧
      ∀ t, (ρ t).isSome → t.Within lo (lo + args.length) j j
  | [], k, lo, _, _ =>
    ⟨.empty, rfl, ⟨nofun, nofun, nofun⟩, nofun⟩
  | v :: vs, k, lo, htags, htys => by
    have htag : S.tag ⟨k⟩ = some ⟨lo⟩ := htags 0 (Nat.zero_lt_succ _)
    rw [List.length_cons, numbered_succ] at htys ⊢
    simp only [List.map_cons, List.cons.injEq] at htys
    obtain ⟨ρ, hρ, hholds, hwithin⟩ := exists_ofArgs j vs (k + 1) (lo + 1)
      (fun i hi => by
        have := htags (i + 1) (Nat.succ_lt_succ hi)
        rwa [← Nat.add_assoc, Nat.add_right_comm, ← Nat.add_assoc, Nat.add_right_comm lo] at this)
      htys.2
    have hnone : ρ (.tagged ⟨lo⟩) = none := by
      cases h : ρ (.tagged ⟨lo⟩) with
      | none => rfl
      | some c =>
        have := hwithin (.tagged ⟨lo⟩) (by rw [h, Option.isSome_some])
        exact absurd this.1 (Nat.not_succ_le_self lo)
    have hlen : lo + 1 + vs.length = lo + (vs.length + 1) := by omega
    rw [hlen] at hholds hwithin
    refine ⟨ρ.set (.tagged ⟨lo⟩) (.ofTy (some v.ty), encode v), ?_, ?_, fun t ht => ?_⟩
    · rw [lowerParams, htag, htys.1, List.map_cons]
      change (Store.ofArgs _ _).bind _ = _
      rw [hρ, Option.bind_some, Store.declare_eq Temp.noConfusion hnone, convert_encode]
    · rw [ofArgs_cons]
      exact hholds.introduce hnone (Nat.lt_add_of_pos_right (Nat.succ_pos _)) htag htys.1
    · rcases Store.isSome_set_iff.1 ht with rfl | ht
      · exact ⟨Nat.le_refl lo, Nat.lt_add_of_pos_right (Nat.succ_pos _)⟩
      · exact (hwithin t ht).mono (Nat.le_succ lo) (Nat.le_refl _) (Nat.le_refl _) (Nat.le_refl _)

end Parameters

/-! ## Functions -/

/-- The function of a declaration, whose spills are numbered from `j` on. -/
def functionOf (S : Symbols) (d : Declaration) (j : Nat) : Function :=
  ⟨(lowerSignature S d).1, (lower S d.body j).stmts, (lower S d.body j).value⟩

theorem run_functionOf {names : List String} {sigs : Signatures} {S : Symbols} {d : Declaration}
    {k lo : Nat} {invoke : DeclId → List Value → Eval Value} {call : Call → Ways Word}
    (h : d.Ready names sigs S k lo) (hserves : Serves names sigs invoke call) {args : List Value}
    (hargs : d.params.map S.ty = (args.map Value.ty).map some) {E : List Event} {v : Value}
    {f : Frame} (he : (eval invoke d.body (Frame.ofArgs d.params args)).Returns E (v, f))
    (j : Nat) :
    v.ty = d.ret ∧ ∃ T, Always ((functionOf S d j).run call (args.map encode)) T (encode v) ∧
      Follows names E T := by
  have hlen : d.params.length = args.length := by
    simpa using congrArg List.length hargs
  have hparams := h.params
  obtain ⟨V, k', hsc⟩ := h.scope
  obtain ⟨hi, htags⟩ := h.tags
  rw [hlen] at hparams htags
  have hparamTags := h.paramTags
  rw [hlen] at hparamTags
  rw [hparams] at hargs he hsc
  obtain ⟨ρ, hρ, hholds, -⟩ := exists_ofArgs j args k lo hparamTags hargs
  obtain ⟨hty, ρ', T, T', hyields, -⟩ := lower_simulates hserves h.types hsc htags
    (hholds.subset fun x hx => List.mem_reverse.1 hx) he
  refine ⟨hty, T ++ T', ?_, hyields.follows⟩
  have hret : (functionOf S d j).signature.ret.convert (encode v) = encode v := by
    change (CType.ofTy (some d.ret)).convert (encode v) = encode v
    rw [← hty, convert_encode]
  have hstart : Store.ofArgs (functionOf S d j).signature.params (args.map encode) = some ρ := by
    change Store.ofArgs (lowerParams S d.params).1 (args.map encode) = some ρ
    rw [hparams, hρ]
  refine always_bind (T := []) (always_ofOption hstart) (always_bind hyields.executes.always
    (hyields.denotes.always_evaluate.then ?_))
  rw [hret]
  exact always_pure _

/-- Declarations have functions of their own by their names. -/
theorem find?_lowerDecls (S : Symbols) {d : Declaration} : ∀ {ds : List Declaration} (k : Nat),
    (ds.map Declaration.name).Nodup → d ∈ ds →
    ∃ j, (lowerDecls S ds k).1.find? (fun f => f.signature.name == d.name) = some (functionOf S d j)
  | [], _, _, hd => nomatch hd
  | e :: ds, k, hnodup, hd => by
    obtain ⟨hnot, hnodup⟩ := List.nodup_cons.1 hnodup
    have hcons : (lowerDecls S (e :: ds) k).1 =
        functionOf S e k :: (lowerDecls S ds (lower S e.body k).spills).1 := rfl
    rw [hcons]
    rcases List.mem_cons.1 hd with rfl | hd
    · exact ⟨k, List.find?_cons_of_pos (beq_self_eq_true d.name)⟩
    · obtain ⟨j, hj⟩ := find?_lowerDecls S (lower S e.body k).spills hnodup hd
      refine ⟨j, (List.find?_cons_of_neg ?_).trans hj⟩
      intro heq
      exact hnot (List.mem_map.2 ⟨d, hd, (beq_iff_eq.1 heq).symm⟩)

end C

namespace Package

/-- **Generated functions serve the calls of a package**, at every bound on nested calls. -/
theorem Ready.serves {p : Package} (h : p.Ready) : ∀ depth : Nat,
    C.Serves (p.decls.map Declaration.name) p.signatures (p.invoke depth) (p.toC.1.call depth)
  | 0 => by
    intro callee name sig args E v _ _ _ hinvoke
    exact absurd hinvoke Run.not_returns_fail
  | depth + 1 => by
    intro callee name sig args E v hname hsig hparams hinvoke
    rw [invoke] at hinvoke
    rw [List.getElem?_map, Option.map_eq_some_iff] at hname
    obtain ⟨d, hd, rfl⟩ := hname
    have hmem := List.mem_of_getElem? hd
    obtain rfl : (⟨d.name, d.params.map p.symbols.ty, d.ret⟩ : Typing.Signature) = sig := by
      rw [signatures, Typing.signatures, List.getElem?_map, hd] at hsig
      exact Option.some.inj hsig
    rw [hd] at hinvoke
    have hlen : args.length = d.params.length := by
      simpa using (congrArg List.length hparams).symm
    simp only [if_pos hlen] at hinvoke
    obtain ⟨E₁, ⟨w, f⟩, E₂, heval, hpure, rfl⟩ := Run.returns_bind_iff.1 hinvoke
    obtain ⟨rfl, rfl⟩ := Run.returns_pure_iff.1 hpure
    obtain ⟨k, lo, hready⟩ := h.decls d hmem
    obtain ⟨j, hfind⟩ := C.find?_lowerDecls p.symbols 0 h.resolved.names_nodup hmem
    obtain ⟨hty, T, hrun, hfollows⟩ := C.run_functionOf hready (h.serves depth) hparams heval j
    refine ⟨hty, T, ?_, by rwa [List.append_nil]⟩
    rw [C.Program.call]
    have hfind : p.toC.1.find? d.name = some (C.functionOf p.symbols d j) := hfind
    simp only [hfind]
    exact hrun

end Package

end CalcLang
