import CalcLang.Proofs.C.Scope

/-!
# Declarations in generated functions

A generated function declares a temporary for each parameter, for each node of its body that has one
(`Node.named`), and for each operand whose value is copied (`copied`), and no others
(`declares_lower`). Tags and spills are numbers that are given once, so no temporary is declared
twice.
-/

namespace CalcLang.C

/-! ## Copied operands -/

/-- The node, if its value is copied before the nodes behind it. -/
def copyOf (n : Node) (later : List Node) : List Node := if mustSpill n later then [n] else []

mutual

/-- The operands inside a node whose values are copied, in the order in which they are. -/
def copied : Node → List Node
  | .const .. | .read .. | .error .. | .declare .. => []
  | .binary _ lhs rhs _ _ _ => copied lhs ++ copyOf lhs [rhs] ++ copied rhs
  | .unary _ operand _ _ => copied operand
  | .call _ _ args _ _ => copiedOperands args
  | .ifThen test _ yes _ _ _ => copied test ++ copied yes
  | .ifThenElse test _ yes no _ _ _ => copied test ++ copied yes ++ copied no
  | .block nodes _ _ => copiedAll nodes
  | .assign _ _ value _ _ => copied value
  | .define _ _ _ init _ => copied init

/-- `copied` for the nodes of a block. -/
def copiedAll : List Node → List Node
  | [] => []
  | n :: ns => copied n ++ copiedAll ns

/-- `copied` for operands, whose values may be copied, too. -/
def copiedOperands : List Node → List Node
  | [] => []
  | n :: ns => copied n ++ copyOf n ns ++ copiedOperands ns

end

/-- The number of copies that the function of a declaration makes. -/
def copyCount (d : Declaration) : Nat := (copied d.body).length

/-! ## Types -/

/-- The nodes carry types. -/
def Typed (S : Symbols) (ns : List Node) : Prop := ∀ n ∈ ns, ∃ τ, n.ty S = some τ

section

open Typing

variable {S : Symbols} {sigs : Signatures} {Γ : SymbolId → Option Ty} {n : Node}
  {ns ns' : List Node} {τ : Ty}

theorem typed_nil : Typed S [] := nofun

theorem Typed.append (h : Typed S ns) (h' : Typed S ns') : Typed S (ns ++ ns') :=
  fun n hn => (List.mem_append.1 hn).elim (h n) (h' n)

theorem Typed.cons (h : n.ty S = some τ) (hs : Typed S ns) : Typed S (n :: ns) := by
  intro m hm
  rcases List.mem_cons.1 hm with rfl | hm
  · exact ⟨τ, h⟩
  · exact hs m hm

theorem typed_copyOf (h : n.ty S = some τ) (later : List Node) : Typed S (copyOf n later) := by
  unfold copyOf
  split
  · exact typed_nil.cons h
  · exact typed_nil

mutual

/-- The nodes with temporaries and the copied operands of a node carry types. -/
theorem typed_of_hasType {τ : Ty} : ∀ {n : Node}, HasType sigs Γ (Records S) n τ →
    Typed S n.named ∧ Typed S (copied n)
  | .const .., _ => ⟨typed_nil, typed_nil⟩
  | .error .., _ => ⟨typed_nil, typed_nil⟩
  | .read .., _ => ⟨typed_nil, typed_nil⟩
  | .binary .., h => by
    cases h with
    | binary hl hr _ hrec =>
      obtain ⟨hnl, hcl⟩ := typed_of_hasType hl
      obtain ⟨hnr, hcr⟩ := typed_of_hasType hr
      exact ⟨(hnl.append hnr).cons hrec, (hcl.append (typed_copyOf hl.meets _)).append hcr⟩
  | .unary _ operand .., h => by
    cases h with | unary h _ _ => exact (typed_of_hasType (n := operand) h :)
  | .call .., h => by
    cases h with
    | call _ hs _ _ =>
      obtain ⟨hn, -, hc⟩ := typed_of_haveTypes hs
      exact ⟨hn, hc⟩
  | .ifThen .., h => by
    cases h with
    | ifThen ht hy _ hrec =>
      obtain ⟨hnt, hct⟩ := typed_of_hasType ht
      obtain ⟨hny, hcy⟩ := typed_of_hasType hy
      exact ⟨(hnt.append hny).cons hrec, hct.append hcy⟩
  | .ifThenElse .., h => by
    cases h with
    | ifThenElse ht hy hn _ hrec =>
      obtain ⟨hnt, hct⟩ := typed_of_hasType ht
      obtain ⟨hny, hcy⟩ := typed_of_hasType hy
      obtain ⟨hnn, hcn⟩ := typed_of_hasType hn
      exact ⟨((hnt.append hny).append hnn).cons hrec, (hct.append hcy).append hcn⟩
  | .block .., h => by
    cases h with
    | block hs _ _ =>
      obtain ⟨hn, hc, -⟩ := typed_of_haveTypes hs
      exact ⟨hn, hc⟩
  | .assign _ _ value .., h => by
    cases h with | assign h _ _ => exact (typed_of_hasType (n := value) h :)
  | .declare .., h => by cases h with | declare _ hrec => exact ⟨typed_nil.cons hrec, typed_nil⟩
  | .define .., h => by
    cases h with
    | define h _ _ hrec =>
      obtain ⟨hn, hc⟩ := typed_of_hasType h
      exact ⟨hn.cons hrec, hc⟩

theorem typed_of_haveTypes {τs : List Ty} : ∀ {ns : List Node},
    HaveTypes sigs Γ (Records S) ns τs →
    Typed S (Node.allNamed ns) ∧ Typed S (copiedAll ns) ∧ Typed S (copiedOperands ns)
  | [], _ => ⟨typed_nil, typed_nil, typed_nil⟩
  | _ :: _, h => by
    cases h with
    | cons h hs =>
      obtain ⟨hn, hc⟩ := typed_of_hasType h
      obtain ⟨hns, hcs, hos⟩ := typed_of_haveTypes hs
      exact ⟨hn.append hns, hc.append hcs, (hc.append (typed_copyOf h.meets _)).append hos⟩

end

end

/-! ## Declarations -/

mutual

/-- What a statement declares, in itself and in its blocks. -/
def Stmt.declarations : Stmt → List (CType × Temp)
  | .declare ty t _ => [(ty, t)]
  | .assign _ _ | .eval _ => []
  | .ifThen _ yes => Stmt.allDeclarations yes
  | .ifThenElse _ yes no => Stmt.allDeclarations yes ++ Stmt.allDeclarations no

/-- What statements declare. -/
def Stmt.allDeclarations : List Stmt → List (CType × Temp)
  | [] => []
  | s :: ss => s.declarations ++ Stmt.allDeclarations ss

end

/-- What a function declares, its parameters included. -/
def Function.declarations (f : Function) : List (CType × Temp) :=
  f.signature.params ++ Stmt.allDeclarations f.body

@[simp]
theorem allDeclarations_append (ss ss' : List Stmt) :
    Stmt.allDeclarations (ss ++ ss') = Stmt.allDeclarations ss ++ Stmt.allDeclarations ss' := by
  induction ss with
  | nil => rfl
  | cons s ss ih => rw [List.cons_append, Stmt.allDeclarations, Stmt.allDeclarations, ih,
      List.append_assoc]

section

variable (S : Symbols)

/-- The declaration of a node that has a temporary. -/
def ownDeclaration (n : Node) : CType × Temp := (.ofTy (n.ty S), (tempOf (n.tag? S) n.pos).1)

/-- The declarations of copies, which are numbered after `k`. -/
def copyDeclarations (k : Nat) (ns : List Node) : List (CType × Temp) :=
  (ns.zipIdx (k + 1)).map fun n => (.ofTy (n.1.ty S), .spill n.2)

theorem copyDeclarations_append (k : Nat) (ns ns' : List Node) :
    copyDeclarations S k (ns ++ ns') =
      copyDeclarations S k ns ++ copyDeclarations S (k + ns.length) ns' := by
  rw [copyDeclarations, List.zipIdx_append, List.map_append, Nat.add_right_comm]
  rfl

/-- The statements declare the temporaries of the nodes `own` and those of copies of the nodes
`copies`, which are numbered after `k` up to `k'`. -/
structure Declares (k : Nat) (ss : List Stmt) (k' : Nat) (own copies : List Node) : Prop where
  perm : (Stmt.allDeclarations ss).Perm (own.map (ownDeclaration S) ++ copyDeclarations S k copies)
  spills : k' = k + copies.length

end

namespace Declares

variable {S : Symbols} {k k₁ k₂ : Nat} {ss ss' : List Stmt} {ns ns' cs cs' : List Node}

theorem nil (k : Nat) : Declares S k [] k [] [] := ⟨.nil, rfl⟩

theorem append (h : Declares S k ss k₁ ns cs) (h' : Declares S k₁ ss' k₂ ns' cs') :
    Declares S k (ss ++ ss') k₂ (ns ++ ns') (cs ++ cs') := by
  obtain ⟨hperm, rfl⟩ := h
  obtain ⟨hperm', rfl⟩ := h'
  refine ⟨?_, by rw [List.length_append, Nat.add_assoc]⟩
  rw [List.perm_iff_count] at hperm hperm' ⊢
  intro c
  have hc := hperm c
  have hc' := hperm' c
  simp only [allDeclarations_append, copyDeclarations_append, List.map_append,
    List.count_append] at hc hc' ⊢
  omega

/-- The order in which temporaries are declared does not matter. -/
theorem reorder (h : Declares S k ss k₁ ns cs) (hns : ns.Perm ns') :
    Declares S k ss k₁ ns' cs :=
  ⟨h.perm.trans ((hns.map _).append_right _), h.spills⟩

theorem declare (n : Node) (init : Init) (k : Nat) :
    Declares S k [.declare (.ofTy (n.ty S)) (tempOf (n.tag? S) n.pos).1 init] k [n] [] :=
  ⟨.refl _, rfl⟩

theorem copy (n : Node) (init : Init) (k : Nat) :
    Declares S k [.declare (.ofTy (n.ty S)) (.spill (k + 1)) init] (k + 1) [] [n] :=
  ⟨.refl _, rfl⟩

theorem assign (t : Temp) (value : Expr) (k : Nat) : Declares S k [.assign t value] k [] [] :=
  ⟨.nil, rfl⟩

theorem ifThen (h : Declares S k ss k₁ ns cs) (test : Expr) :
    Declares S k [.ifThen test ss] k₁ ns cs := by
  refine ⟨?_, h.spills⟩
  rw [Stmt.allDeclarations, Stmt.allDeclarations, Stmt.declarations, List.append_nil]
  exact h.perm

theorem ifThenElse (h : Declares S k ss k₁ ns cs) (h' : Declares S k₁ ss' k₂ ns' cs')
    (test : Expr) :
    Declares S k [.ifThenElse test ss ss'] k₂ (ns ++ ns') (cs ++ cs') := by
  obtain ⟨hperm, hspills⟩ := h.append h'
  refine ⟨?_, hspills⟩
  rw [allDeclarations_append] at hperm
  rw [Stmt.allDeclarations, Stmt.allDeclarations, Stmt.declarations, List.append_nil]
  exact hperm

/-- The copy of an operand is declared behind its statements. -/
theorem spillFor {n : Node} {r : Lowered Expr} (h : Declares S k r.stmts r.spills ns cs)
    (later : List Node) :
    Declares S k (spillFor S n later r).stmts (spillFor S n later r).spills ns
      (cs ++ copyOf n later) := by
  rw [C.spillFor, copyOf]
  split
  · have := h.append (.copy n (.expr r.value) r.spills)
    rwa [List.append_nil] at this
  · rwa [List.append_nil]

end Declares

section

variable {S : Symbols}

mutual

/-- **What a lowered node declares**: the temporaries of its named nodes and copies of operands. -/
theorem declares_lower : ∀ (n : Node) (k : Nat),
    Declares S k (lower S n k).stmts (lower S n k).spills n.named (copied n)
  | .const .., k => .nil k
  | .error .., k => .nil k
  | .read .., k => .nil k
  | .binary op lhs rhs ty tag pos, k => by
    let l := C.spillFor S lhs [rhs] (lower S lhs k)
    let r := lower S rhs l.spills
    have hl : Declares S k l.stmts l.spills _ _ := (declares_lower lhs k).spillFor [rhs]
    have h := (hl.append (declares_lower rhs l.spills)).append
      (.declare (.binary op lhs rhs ty tag pos) (.binary op l.value r.value) r.spills)
    rw [List.append_nil] at h
    exact h.reorder (List.perm_append_singleton ..)
  | .unary _ operand .., k => declares_lower operand k
  | .call _ _ args .., k => declares_lowerOperands args k
  | .ifThen test written yes ty tag pos, k => by
    let c := lower S test k
    let y := lower S yes c.spills
    have hy := (declares_lower yes c.spills).append (.assign (tempOf tag pos).1 y.value y.spills)
    have h := (Declares.declare (.ifThen test written yes ty tag pos) (.expr (.zero ty)) k).append
      ((declares_lower test k).append (hy.ifThen c.value))
    rw [List.append_nil, List.append_nil] at h
    exact h
  | .ifThenElse test written yes no ty tag pos, k => by
    let c := lower S test k
    let y := lower S yes c.spills
    let n := lower S no y.spills
    have hy := (declares_lower yes c.spills).append (.assign (tempOf tag pos).1 y.value y.spills)
    have hn := (declares_lower no y.spills).append (.assign (tempOf tag pos).1 n.value n.spills)
    have h := (Declares.declare (.ifThenElse test written yes no ty tag pos) (.expr (.zero ty))
      k).append ((declares_lower test k).append (hy.ifThenElse hn c.value))
    simp only [List.append_nil, ← List.append_assoc] at h
    exact h
  | .block nodes _ pos, k => declares_lowerBlock pos nodes k
  | .assign _ x value _ pos, k => by
    have h := (declares_lower value k).append
      (.assign (tempOf (S.tag x) pos).1 (lower S value k).value _)
    rw [List.append_nil, List.append_nil] at h
    exact h
  | .declare name x written pos, k => .declare (.declare name x written pos) _ k
  | .define name x written init pos, k => by
    have h := (declares_lower init k).append
      (.declare (.define name x written init pos) (.expr (lower S init k).value) _)
    rw [List.append_nil] at h
    exact h.reorder (List.perm_append_singleton ..)

theorem declares_lowerBlock (pos : Pos) : ∀ (ns : List Node) (k : Nat),
    Declares S k (lowerBlock S pos ns k).stmts (lowerBlock S pos ns k).spills (Node.allNamed ns)
      (copiedAll ns)
  | [], k => .nil k
  | [n], k => by
    rw [Node.allNamed, Node.allNamed, copiedAll, copiedAll, List.append_nil, List.append_nil]
    exact declares_lower n k
  | n :: n' :: ns, k => by
    have hdiscard : Declares S (lower S n k).spills (discard n (lower S n k).value)
        (lower S n k).spills [] [] := by
      unfold discard
      split
      · exact ⟨.nil, rfl⟩
      · exact .nil _
    have h := ((declares_lower n k).append hdiscard).append (declares_lowerBlock pos (n' :: ns) _)
    rw [List.append_nil, List.append_nil] at h
    exact h

theorem declares_lowerOperands : ∀ (ns : List Node) (k : Nat),
    Declares S k (lowerOperands S ns k).stmts (lowerOperands S ns k).spills (Node.allNamed ns)
      (copiedOperands ns)
  | [], k => .nil k
  | n :: ns, k => ((declares_lower n k).spillFor (n := n) ns).append (declares_lowerOperands ns _)

end

end

/-! ## Functions -/

theorem toList_text_tagged (tag : Tag) :
    (Temp.tagged tag).text.toList = '_' :: 'v' :: Nat.toDigits 10 tag.number := by
  simp [Temp.text, toString]

theorem toList_text_spill (number : Nat) :
    (Temp.spill number).text.toList = '_' :: 't' :: Nat.toDigits 10 number := by
  simp [Temp.text, toString]

theorem toDigits_injective {a b : Nat} (h : Nat.toDigits 10 a = Nat.toDigits 10 b) : a = b := by
  rw [← Nat.ofDigitChars_ten_toDigits (n := a), h, Nat.ofDigitChars_ten_toDigits]

/-- Temporaries have names of their own. -/
theorem Temp.text_injective {t u : Temp} (h : t.text = u.text) : t = u := by
  have h := congrArg String.toList h
  have hmissing : Temp.missing.text.toList = ['0'] := rfl
  cases t with
  | tagged tag =>
    cases u with
    | tagged tag' =>
      simp only [toList_text_tagged, List.cons.injEq, true_and] at h
      rw [show tag = tag' from congrArg Tag.mk (toDigits_injective h)]
    | spill number => simp [toList_text_tagged, toList_text_spill] at h
    | missing => simp [toList_text_tagged, hmissing] at h
  | spill number =>
    cases u with
    | tagged tag => simp [toList_text_tagged, toList_text_spill] at h
    | spill number' =>
      simp only [toList_text_spill, List.cons.injEq, true_and] at h
      rw [toDigits_injective h]
    | missing => simp [toList_text_spill, hmissing] at h
  | missing =>
    cases u with
    | tagged tag => simp [toList_text_tagged, hmissing] at h
    | spill number => simp [toList_text_spill, hmissing] at h
    | missing => rfl

/-- What a temporary of a declaration stands for, and the type of that. Spills before the
declaration have numbers up to `j`. -/
inductive StandsFor (S : Symbols) (d : Declaration) (j : Nat) : Temp → Ty → Prop
  | param {x tag τ} : x ∈ d.params → S.tag x = some tag → S.ty x = some τ →
    StandsFor S d j (.tagged tag) τ
  | node {n : Node} {tag τ} : n ∈ d.body.named → n.tag? S = some tag → n.ty S = some τ →
    StandsFor S d j (.tagged tag) τ
  | copy {i : Nat} {n : Node} {τ} : (copied d.body)[i]? = some n → n.ty S = some τ →
    StandsFor S d j (.spill (j + i + 1)) τ

section

variable {names : List String} {sigs : Typing.Signatures} {S : Symbols} {d : Declaration}
  {k lo : Nat}

theorem perm_declarations (S : Symbols) (d : Declaration) (j : Nat) :
    (functionOf S d j).declarations.Perm
      ((d.params.map fun x => (.ofTy (S.ty x), (tempOf (S.tag x) (S.pos x)).1)) ++
        (d.body.named.map (ownDeclaration S) ++ copyDeclarations S j (copied d.body))) := by
  have hparams : (functionOf S d j).signature.params = _ := lowerParams_eq S d.params
  rw [Function.declarations, hparams]
  exact (declares_lower d.body j).perm.append_left _

theorem map_tempOf {α : Type} {tag : α → Option Tag} (pos : α → Pos) {l : List α} {is : List Nat}
    (h : l.map tag = is.map fun i => some ⟨i⟩) :
    l.map (fun a => (tempOf (tag a) (pos a)).1) = is.map fun i => .tagged ⟨i⟩ := by
  calc l.map (fun a => (tempOf (tag a) (pos a)).1)
      = (l.map tag).map fun tag => (tempOf tag .origin).1 := by
        rw [List.map_map]
        refine List.map_congr_left fun a _ => ?_
        simp only [Function.comp_apply]
        cases tag a <;> rfl
    _ = is.map fun i => .tagged ⟨i⟩ := by
        rw [h, List.map_map]
        rfl

theorem map_snd_copyDeclarations (S : Symbols) (j : Nat) (ns : List Node) :
    (copyDeclarations S j ns).map Prod.snd = (List.range' (j + 1) ns.length).map .spill := by
  rw [copyDeclarations, List.map_map, ← List.zipIdx_map_snd, List.map_map]
  rfl

theorem nodup_map {α β : Type} {f : α → β} (hf : ∀ a b, f a = f b → a = b) {l : List α}
    (h : l.Nodup) : (l.map f).Nodup :=
  List.pairwise_map.2 (h.imp fun hne heq => hne (hf _ _ heq))

/-- **The temporaries of a generated function** have the tags of the declaration and the numbers of
its copies. -/
theorem perm_temps (h : d.Ready names sigs S k lo) (j : Nat) :
    ((functionOf S d j).declarations.map Prod.snd).Perm
      ((List.range' lo d.tagCount).map (fun i => .tagged ⟨i⟩) ++
        (List.range' (j + 1) (copyCount d)).map .spill) := by
  obtain ⟨hi, htags⟩ := h.tags
  have hcount : hi - (lo + d.params.length) = d.body.named.length := by
    have := htags.next
    omega
  have hparams := map_tempOf S.pos (tag_params h)
  have hbody := map_tempOf Node.pos htags.tags_named
  refine ((perm_declarations S d j).map Prod.snd).trans (.of_eq ?_)
  rw [List.map_append, List.map_append, List.map_map, List.map_map, map_snd_copyDeclarations]
  change d.params.map (fun x => (tempOf (S.tag x) (S.pos x)).1) ++
    (d.body.named.map (fun n => (tempOf (n.tag? S) n.pos).1) ++ _) = _
  rw [hparams, hbody, hcount, ← List.append_assoc, ← List.map_append, List.range'_append_1]
  rfl

/-- **No temporary is declared twice in a function.** -/
theorem nodup_declarations (h : d.Ready names sigs S k lo) (j : Nat) :
    ((functionOf S d j).declarations.map Prod.snd).Nodup := by
  refine (perm_temps h j).nodup_iff.2 (List.nodup_append.2
    ⟨nodup_map ?_ List.nodup_range', nodup_map ?_ List.nodup_range', ?_⟩)
  · rintro a b ⟨⟩
    rfl
  · rintro a b ⟨⟩
    rfl
  · intro t ht u hu
    obtain ⟨_, -, rfl⟩ := List.mem_map.1 ht
    obtain ⟨_, -, rfl⟩ := List.mem_map.1 hu
    exact nofun

/-- **A temporary is declared with the type of what it stands for.** -/
theorem standsFor_of_mem (h : d.Ready names sigs S k lo)
    (hparams : ∀ x ∈ d.params, (S.ty x).isSome) {j : Nat} {ty : CType} {t : Temp}
    (hmem : (ty, t) ∈ (functionOf S d j).declarations) :
    ∃ τ, ty = .ofTy (some τ) ∧ StandsFor S d j t τ := by
  obtain ⟨hi, htags⟩ := h.tags
  obtain ⟨hnamed, hcopied⟩ := typed_of_hasType h.types
  rw [(perm_declarations S d j).mem_iff, List.mem_append, List.mem_append] at hmem
  rcases hmem with hmem | hmem | hmem
  · obtain ⟨x, hx, heq⟩ := List.mem_map.1 hmem
    obtain ⟨τ, hτ⟩ := Option.isSome_iff_exists.1 (hparams x hx)
    obtain ⟨tag, htag⟩ := exists_tag_of_mem (tag_params h) hx
    rw [hτ, htag] at heq
    cases heq
    exact ⟨τ, rfl, .param hx htag hτ⟩
  · obtain ⟨n, hn, heq⟩ := List.mem_map.1 hmem
    obtain ⟨τ, hτ⟩ := hnamed n hn
    obtain ⟨tag, htag⟩ := exists_tag_of_mem htags.tags_named hn
    rw [ownDeclaration, hτ, htag] at heq
    cases heq
    exact ⟨τ, rfl, .node hn htag hτ⟩
  · obtain ⟨⟨n, i⟩, hn, heq⟩ := List.mem_map.1 hmem
    obtain ⟨hle, hn⟩ := List.mk_mem_zipIdx_iff_le_and_getElem?_sub.1 hn
    obtain ⟨τ, hτ⟩ := hcopied n (List.mem_of_getElem? hn)
    rw [hτ] at heq
    cases heq
    obtain ⟨c, rfl⟩ := Nat.exists_eq_add_of_le hle
    refine ⟨τ, rfl, ?_⟩
    rw [Nat.add_right_comm]
    rw [Nat.add_sub_cancel_left] at hn
    exact .copy hn hτ

end

end CalcLang.C
