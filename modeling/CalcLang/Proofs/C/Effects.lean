import CalcLang.Proofs.C.Declarations
import CalcLang.Proofs.TagSeries
import Mathlib.Data.List.Nodup

/-!
# Effects of lowered nodes

Whether an operand is copied is decided on nodes, before anything is lowered: `readsVariable`,
`valueCalls`, `emitsStatements`, `calls` and `assigns` say of a node what its lowered form may do.
`Package.effects_cover_lowering` says that they are right about it, for every node of a package
and after any number of spills. Operations and `if`s need temporaries of their own for that, which
are never those of a parameter or variable: no tag is given twice (`Package.own_compiled`).
-/

namespace CalcLang

/-! ## Nodes inside a node -/

mutual

/-- The nodes inside a node. -/
def Node.inner : Node → List Node
  | .const _ _ | .read _ _ _ _ | .error _ | .declare _ _ _ _ => []
  | .binary _ lhs rhs _ _ _ => (lhs :: lhs.inner) ++ (rhs :: rhs.inner)
  | .unary _ operand _ _ => operand :: operand.inner
  | .call _ _ args _ _ => Node.allParts args
  | .ifThen test _ yes _ _ _ => (test :: test.inner) ++ (yes :: yes.inner)
  | .ifThenElse test _ yes no _ _ _ =>
    (test :: test.inner) ++ (yes :: yes.inner) ++ (no :: no.inner)
  | .block nodes _ _ => Node.allParts nodes
  | .assign _ _ value _ _ => value :: value.inner
  | .define _ _ _ init _ => init :: init.inner

/-- Some nodes and all nodes inside them. -/
def Node.allParts : List Node → List Node
  | [] => []
  | n :: ns => (n :: n.inner) ++ Node.allParts ns

end

/-- A node and all nodes inside it. -/
def Node.parts (n : Node) : List Node := n :: n.inner

mutual

/-- What has a temporary inside a part of a node has one inside the node. -/
theorem Node.mem_named_of_mem_inner {m x : Node} (hx : x ∈ m.named) : ∀ {n : Node},
    m ∈ n.inner → x ∈ n.named
  | .const .., h | .read .., h | .error .., h | .declare .., h => nomatch h
  | .binary .., h =>
    List.mem_cons_of_mem _ (List.mem_append.2
      ((List.mem_append.1 h).imp (mem_named_of_mem_parts hx) (mem_named_of_mem_parts hx)))
  | .unary _ operand _ _, h => mem_named_of_mem_parts (n := operand) hx h
  | .call .., h => mem_allNamed_of_mem_allParts hx h
  | .ifThen .., h =>
    List.mem_cons_of_mem _ (List.mem_append.2
      ((List.mem_append.1 h).imp (mem_named_of_mem_parts hx) (mem_named_of_mem_parts hx)))
  | .ifThenElse .., h =>
    List.mem_cons_of_mem _ (List.mem_append.2 ((List.mem_append.1 h).imp
      (fun h => List.mem_append.2
        ((List.mem_append.1 h).imp (mem_named_of_mem_parts hx) (mem_named_of_mem_parts hx)))
      (mem_named_of_mem_parts hx)))
  | .block .., h => mem_allNamed_of_mem_allParts hx h
  | .assign _ _ value _ _, h => mem_named_of_mem_parts (n := value) hx h
  | .define .., h => List.mem_cons_of_mem _ (mem_named_of_mem_parts hx h)

theorem Node.mem_named_of_mem_parts {m x : Node} (hx : x ∈ m.named) {n : Node}
    (h : m ∈ n :: n.inner) : x ∈ n.named := by
  rcases List.mem_cons.1 h with rfl | h
  · exact hx
  · exact Node.mem_named_of_mem_inner hx h

theorem Node.mem_allNamed_of_mem_allParts {m x : Node} (hx : x ∈ m.named) : ∀ {ns : List Node},
    m ∈ Node.allParts ns → x ∈ Node.allNamed ns
  | [], h => nomatch h
  | _ :: _, h =>
    List.mem_append.2 ((List.mem_append.1 h).imp (mem_named_of_mem_parts hx)
      (mem_allNamed_of_mem_allParts hx))

end

namespace C

/-! ## Assignments -/

mutual

/-- The temporaries that a statement assigns to, in itself and in its blocks. -/
def Stmt.assigned : Stmt → List Temp
  | .assign t _ => [t]
  | .declare _ _ _ | .eval _ => []
  | .ifThen _ yes => Stmt.allAssigned yes
  | .ifThenElse _ yes no => Stmt.allAssigned yes ++ Stmt.allAssigned no

/-- The temporaries that statements assign to. -/
def Stmt.allAssigned : List Stmt → List Temp
  | [] => []
  | s :: ss => s.assigned ++ Stmt.allAssigned ss

end

@[simp]
theorem allAssigned_append (ss ss' : List Stmt) :
    Stmt.allAssigned (ss ++ ss') = Stmt.allAssigned ss ++ Stmt.allAssigned ss' := by
  induction ss with
  | nil => rfl
  | cons s ss ih =>
    rw [List.cons_append, Stmt.allAssigned, Stmt.allAssigned, ih, List.append_assoc]

/-! ## Temporaries of variables -/

/-- The temporary of a parameter or variable. No other symbols have tags. -/
def Temp.IsVariable (S : Symbols) (t : Temp) : Prop := ∃ x tag, S.tag x = some tag ∧ t = .tagged tag

/-- Of some nodes with temporaries, the operations and `if`s have none of a variable. -/
def Own (S : Symbols) (ns : List Node) : Prop :=
  ∀ n ∈ ns, n.holderSymbol? = none → ∀ x tag, S.tag x = some tag → n.tag? S ≠ some tag

section

variable {S : Symbols} {t : Temp} {ns ns' : List Node}

theorem Own.left (h : Own S (ns ++ ns')) : Own S ns := (List.forall_mem_append.1 h).1

theorem Own.right (h : Own S (ns ++ ns')) : Own S ns' := (List.forall_mem_append.1 h).2

theorem Own.tail {n : Node} (h : Own S (n :: ns)) : Own S ns := (List.forall_mem_cons.1 h).2

theorem Own.head_ne {n : Node} (h : Own S (n :: ns)) (hn : n.holderSymbol? = none)
    (ht : t.IsVariable S) (pos : Pos) : t ≠ (tempOf (n.tag? S) pos).1 := by
  obtain ⟨x, tag, hx, rfl⟩ := ht
  have hne := h n List.mem_cons_self hn x tag hx
  intro heq
  cases htag : n.tag? S with
  | none => rw [htag] at heq; cases heq
  | some tag' =>
    rw [htag] at heq hne
    cases heq
    exact hne rfl

/-! ## Values -/

/-- A copy of an operand is no variable, and calls nothing. -/
theorem mem_identifiers_spillFor {id : Identifier} {n : Node} {later : List Node}
    {r : Lowered Expr} (h : id ∈ (spillFor S n later r).value.identifiers) :
    id ∈ r.value.identifiers ∨ id = .temp (.spill (r.spills + 1)) := by
  rw [spillFor] at h
  split at h
  · exact .inr (List.mem_singleton.1 h)
  · exact .inl h

theorem Temp.IsVariable.ne_spill (h : t.IsVariable S) (k : Nat) : t ≠ .spill k := by
  obtain ⟨x, tag, -, rfl⟩ := h
  nofun

mutual

/-- The value of a node names a variable only if the node reads one. -/
theorem readsVariable_of_mem (ht : t.IsVariable S) : ∀ (n : Node) (k : Nat), Own S n.named →
    .temp t ∈ (lower S n k).value.identifiers → readsVariable n
  | .const .., _, _, h => by
    rw [lower, identifiers_ofValue] at h
    cases h
  | .error .., _, _, h => nomatch h
  | .read .., _, _, _ | .assign .., _, _, _ | .declare .., _, _, _ | .define .., _, _, _ => rfl
  | .binary .., _, hown, h | .ifThen .., _, hown, h | .ifThenElse .., _, hown, h => by
    have heq := Identifier.temp.inj (List.mem_singleton.1 h)
    exact absurd heq (hown.head_ne rfl ht _)
  | .unary _ operand _ _, k, hown, h => readsVariable_of_mem ht operand k hown h
  | .call _ _ args _ _, k, hown, h =>
    anyReadsVariable_of_mem ht args k hown ((List.mem_cons.1 h).resolve_left nofun)
  | .block nodes _ pos, k, hown, h => lastReadsVariable_of_mem ht pos nodes k hown h

theorem lastReadsVariable_of_mem (ht : t.IsVariable S) (pos : Pos) : ∀ (ns : List Node) (k : Nat),
    Own S (Node.allNamed ns) → .temp t ∈ (lowerBlock S pos ns k).value.identifiers →
      lastReadsVariable ns
  | [], _, _, h => nomatch h
  | [n], k, hown, h => readsVariable_of_mem ht n k hown.left h
  | _ :: n :: ns, _, hown, h => lastReadsVariable_of_mem ht pos (n :: ns) _ hown.right h

theorem anyReadsVariable_of_mem (ht : t.IsVariable S) : ∀ (ns : List Node) (k : Nat),
    Own S (Node.allNamed ns) → .temp t ∈ Expr.allIdentifiers (lowerOperands S ns k).value →
      anyReadsVariable ns
  | [], _, _, h => nomatch h
  | n :: ns, k, hown, h => by
    rw [anyReadsVariable, Bool.or_eq_true]
    refine (List.mem_append.1 h).imp (fun h => ?_) (anyReadsVariable_of_mem ht ns _ hown.right)
    rcases mem_identifiers_spillFor h with h | h
    · exact readsVariable_of_mem ht n k hown.left h
    · exact absurd (Identifier.temp.inj h) (ht.ne_spill _)

end

mutual

/-- The value of a node contains a call exactly if the node says so. -/
theorem exists_call_iff : ∀ (n : Node) (k : Nat),
    (∃ callee, .function callee ∈ (lower S n k).value.identifiers) ↔ valueCalls n
  | .const .., _ => by simp [lower, valueCalls]
  | .error .., _ => by simp [lower, valueCalls, Expr.identifiers]
  | .read .., _ | .assign .., _ | .declare .., _ | .define .., _ | .binary .., _
  | .ifThen .., _ | .ifThenElse .., _ => by simp [lower, valueCalls, Expr.identifiers]
  | .call name .., k => iff_of_true ⟨name, List.mem_cons_self⟩ rfl
  | .unary _ operand _ _, k => exists_call_iff operand k
  | .block nodes _ pos, k => exists_call_block_iff pos nodes k

theorem exists_call_block_iff (pos : Pos) : ∀ (ns : List Node) (k : Nat),
    (∃ callee, .function callee ∈ (lowerBlock S pos ns k).value.identifiers) ↔ lastValueCalls ns
  | [], _ => by simp [lowerBlock, lastValueCalls, Expr.identifiers]
  | [n], k => exists_call_iff n k
  | _ :: n :: ns, _ => exists_call_block_iff pos (n :: ns) _

end

/-! ## Statements -/

mutual

/-- Lowering a node makes statements only if the node says so or contains a call. -/
theorem emitsStatements_of_ne_nil : ∀ (n : Node) (k : Nat), (lower S n k).stmts ≠ [] →
    emitsStatements n ∨ calls n
  | .const .., _, h | .error .., _, h | .read .., _, h => absurd rfl h
  | .binary .., _, _ | .ifThen .., _, _ | .ifThenElse .., _, _ | .assign .., _, _
  | .declare .., _, _ | .define .., _, _ => .inl rfl
  -- Arguments may be copied, but then there is a call.
  | .call .., _, _ => .inr rfl
  | .unary _ operand _ _, k, h => emitsStatements_of_ne_nil operand k h
  | .block nodes _ pos, k, h => blockEmitsStatements_of_ne_nil pos nodes k h

theorem blockEmitsStatements_of_ne_nil (pos : Pos) : ∀ (ns : List Node) (k : Nat),
    (lowerBlock S pos ns k).stmts ≠ [] → blockEmitsStatements ns ∨ anyContains isCall ns
  | [], _, h => absurd rfl h
  | [n], k, h => by
    rw [anyContains, Bool.or_eq_true]
    exact (emitsStatements_of_ne_nil n k h).imp_right .inl
  | n :: n' :: ns, k, h => by
    rw [blockEmitsStatements, anyContains]
    by_cases hn : (lower S n k).stmts = []
    · by_cases hcalls : valueCalls n
      · simp [hcalls]
      · have hdiscard : discard n (lower S n k).value = [] := if_neg hcalls
        have hns : (lowerBlock S pos (n' :: ns) (lower S n k).spills).stmts ≠ [] := by
          rw [lowerBlock, hn, hdiscard] at h
          exact h
        have := blockEmitsStatements_of_ne_nil pos (n' :: ns) _ hns
        grind
    · have := emitsStatements_of_ne_nil n k hn
      rw [calls, contains] at this
      grind

end

theorem allAssigned_spillFor (n : Node) (later : List Node) (r : Lowered Expr) :
    Stmt.allAssigned (spillFor S n later r).stmts = Stmt.allAssigned r.stmts := by
  rw [spillFor]
  split
  · rw [allAssigned_append]
    exact List.append_nil _
  · rfl

theorem allAssigned_discard (n : Node) (value : Expr) :
    Stmt.allAssigned (discard n value) = [] := by
  unfold discard
  split <;> rfl

mutual

/-- Lowering a node assigns to a variable only if the node contains an assignment. -/
theorem assigns_of_mem (ht : t.IsVariable S) : ∀ (n : Node) (k : Nat), Own S n.named →
    t ∈ Stmt.allAssigned (lower S n k).stmts → assigns n
  | .const .., _, _, h | .error .., _, _, h | .read .., _, _, h | .declare .., _, _, h => nomatch h
  | .assign .., _, _, _ => rfl
  | .binary op lhs rhs ty tag pos, k, hown, h => by
    have hstmts : (lower S (.binary op lhs rhs ty tag pos) k).stmts =
        (spillFor S lhs [rhs] (lower S lhs k)).stmts ++
          (lower S rhs (spillFor S lhs [rhs] (lower S lhs k)).spills).stmts ++ [_] := rfl
    rw [hstmts, allAssigned_append, allAssigned_append, allAssigned_spillFor] at h
    have h := (List.mem_append.1 h).resolve_right nofun
    have hown := hown.tail
    exact Bool.or_eq_true_iff.2 ((List.mem_append.1 h).imp
      (assigns_of_mem ht lhs _ hown.left) (assigns_of_mem ht rhs _ hown.right))
  | .unary _ operand _ _, k, hown, h => assigns_of_mem ht operand k hown h
  | .call _ _ args _ _, k, hown, h => anyAssigns_of_mem_operands ht args k hown h
  | .ifThen test written yes ty tag pos, k, hown, h => by
    have hstmts : (lower S (.ifThen test written yes ty tag pos) k).stmts =
        .declare (.ofTy ty) (tempOf tag pos).1 (.expr (.zero ty)) :: (lower S test k).stmts ++
          [.ifThen (lower S test k).value ((lower S yes (lower S test k).spills).stmts ++
            [.assign (tempOf tag pos).1 (lower S yes (lower S test k).spills).value])] := rfl
    have hne := hown.head_ne rfl ht pos
    have hown := hown.tail
    rw [hstmts] at h
    simp only [Stmt.allAssigned, Stmt.assigned, allAssigned_append, List.cons_append,
      List.nil_append, List.append_nil, List.mem_append, List.mem_singleton] at h
    have htest := assigns_of_mem ht test k hown.left
    have hyes := assigns_of_mem ht yes (lower S test k).spills hown.right
    exact Bool.or_eq_true_iff.2 (h.imp htest fun h => hyes (h.resolve_right hne))
  | .ifThenElse test written yes no ty tag pos, k, hown, h => by
    let y := lower S yes (lower S test k).spills
    let n := lower S no y.spills
    have hstmts : (lower S (.ifThenElse test written yes no ty tag pos) k).stmts =
        .declare (.ofTy ty) (tempOf tag pos).1 (.expr (.zero ty)) :: (lower S test k).stmts ++
          [.ifThenElse (lower S test k).value (y.stmts ++ [.assign (tempOf tag pos).1 y.value])
            (n.stmts ++ [.assign (tempOf tag pos).1 n.value])] := rfl
    have hne := hown.head_ne rfl ht pos
    have hown := hown.tail
    rw [hstmts] at h
    simp only [Stmt.allAssigned, Stmt.assigned, allAssigned_append, List.cons_append,
      List.nil_append, List.append_nil, List.mem_append, List.mem_singleton] at h
    have htest := assigns_of_mem ht test k hown.left.left
    have hyes := assigns_of_mem ht yes (lower S test k).spills hown.left.right
    have hno := assigns_of_mem ht no y.spills hown.right
    exact Bool.or_eq_true_iff.2 ((or_assoc.2 h).imp
      (fun h => Bool.or_eq_true_iff.2 (h.imp htest fun h => hyes (h.resolve_right hne)))
      fun h => hno (h.resolve_right hne))
  | .block nodes _ pos, k, hown, h => anyAssigns_of_mem_block ht pos nodes k hown h
  | .define name x written init pos, k, hown, h => by
    have hstmts : (lower S (.define name x written init pos) k).stmts =
        (lower S init k).stmts ++ [_] := rfl
    rw [hstmts, allAssigned_append] at h
    exact assigns_of_mem ht init k hown.tail ((List.mem_append.1 h).resolve_right nofun)

theorem anyAssigns_of_mem_block (ht : t.IsVariable S) (pos : Pos) : ∀ (ns : List Node) (k : Nat),
    Own S (Node.allNamed ns) → t ∈ Stmt.allAssigned (lowerBlock S pos ns k).stmts →
      anyContains isAssignment ns
  | [], _, _, h => nomatch h
  | [n], k, hown, h =>
    Bool.or_eq_true_iff.2 (.inl (assigns_of_mem ht n k hown.left h))
  | n :: n' :: ns, k, hown, h => by
    rw [lowerBlock, allAssigned_append, allAssigned_append, allAssigned_discard,
      List.append_nil] at h
    exact Bool.or_eq_true_iff.2 ((List.mem_append.1 h).imp (assigns_of_mem ht n k hown.left)
      (anyAssigns_of_mem_block ht pos (n' :: ns) _ hown.right))

theorem anyAssigns_of_mem_operands (ht : t.IsVariable S) : ∀ (ns : List Node) (k : Nat),
    Own S (Node.allNamed ns) → t ∈ Stmt.allAssigned (lowerOperands S ns k).stmts →
      anyContains isAssignment ns
  | [], _, _, h => nomatch h
  | n :: ns, k, hown, h => by
    rw [lowerOperands, allAssigned_append, allAssigned_spillFor] at h
    exact Bool.or_eq_true_iff.2 ((List.mem_append.1 h).imp (assigns_of_mem ht n k hown.left)
      (anyAssigns_of_mem_operands ht ns _ hown.right))

end

end

end C

/-! ## Packages -/

/-- The tag of a node that introduces a variable is that of the variable. -/
theorem Node.tag?_of_holderSymbol? {S : Symbols} {x : SymbolId} {n : Node}
    (h : n.holderSymbol? = some x) : n.tag? S = S.tag x := by
  cases n with
  | declare | define => exact congrArg S.tag (Option.some.inj h)
  | _ => exact nomatch h

/-- What the tags of a declaration stand on, each with its tag. -/
def Declaration.holdings (S : Symbols) (d : Declaration) : List (Option SymbolId × Option Tag) :=
  d.params.map (fun x => (some x, S.tag x)) ++
    d.body.named.map fun n => (n.holderSymbol?, n.tag? S)

namespace Package

theorem map_snd_holdings (p : Package) :
    (p.decls.flatMap (Declaration.holdings p.symbols)).map Prod.snd = p.tags := by
  unfold tags
  rw [List.map_flatMap]
  refine congrArg (List.flatMap · p.decls) (funext fun d => ?_)
  simp [Declaration.tags, Declaration.holdings, Function.comp_def]

/-- In a package that gives no tag twice, and tags to parameters and variables only, operations and
`if`s have temporaries of their own. -/
theorem own_of_nodup {p : Package} (hnodup : p.tags.Nodup)
    (hheld : ∀ x, p.symbols.tag x ≠ none → some x ∈ p.holders) {d : Declaration}
    (hd : d ∈ p.decls) : C.Own p.symbols d.body.named := by
  intro n hn hnone x tag hx htag
  have hnode : (none, some tag) ∈ p.decls.flatMap (Declaration.holdings p.symbols) :=
    List.mem_flatMap.2 ⟨d, hd, List.mem_append_right _
      (List.mem_map.2 ⟨n, hn, by rw [hnone, htag]⟩)⟩
  have hsymbol : (some x, some tag) ∈ p.decls.flatMap (Declaration.holdings p.symbols) := by
    obtain ⟨d', hd', hmem⟩ := List.mem_flatMap.1 (hheld x (by simp [hx]))
    refine List.mem_flatMap.2 ⟨d', hd', ?_⟩
    rcases List.mem_append.1 hmem with hmem | hmem
    · exact List.mem_append_left _ (List.mem_map.2 ⟨x, by simpa using hmem, by rw [hx]⟩)
    · obtain ⟨n', hn', hheld⟩ := List.mem_map.1 hmem
      exact List.mem_append_right _
        (List.mem_map.2 ⟨n', hn', by rw [hheld, Node.tag?_of_holderSymbol? hheld, hx]⟩)
  rw [← map_snd_holdings] at hnodup
  exact nomatch List.inj_on_of_nodup_map hnodup hnode hsymbol rfl

theorem own_compiled (name : String) (files : List (List Decl)) (optimize : Bool) (first : Nat)
    {d : Declaration} (hd : d ∈ (compiled name files optimize first).decls) :
    C.Own (compiled name files optimize first).symbols d.body.named := by
  let j : Job := ⟨name, files, optimize⟩
  refine own_of_nodup (p := (j.tagged first).1) ?_ (fun x hx => ?_) hd
  · rw [Job.tagged, j.wellFormed.tags_tag j.isChecked first]
    exact nodup_tagsFrom _ _
  · have hreferences (q : Package) : q.untagged.decls.flatMap Declaration.references =
        q.decls.flatMap Declaration.references := by
      simp only [untagged, map, List.flatMap_map, Declaration.references, references_untagged]
      rfl
    have hsame : (j.tagged first).1.decls.flatMap Declaration.references =
        j.package.decls.flatMap Declaration.references := by
      rw [← hreferences, ← hreferences j.package, Job.tagged, untagged_tag]
    rw [mem_holders_iff, hsame, ← mem_holders_iff]
    refine Classical.byContradiction fun hnot => hx ?_
    rw [Job.tagged, Symbols.tag, get?_symbols_tag j.package j.isChecked first hnot]
    exact j.untagged x

/-- **What the generator assumes about operands holds.** Take any node of a tagged package, and
lower it after any number of copies. If its value names the temporary of a parameter or variable,
the node is one that reads a variable; its value contains a call exactly if the node is one whose
value calls; statements are made only for a node that emits some or contains a call; and what these
assign to is no parameter or variable unless the node contains an assignment. -/
theorem effects_cover_lowering (name : String) (files : List (List Decl)) (optimize : Bool)
    (first : Nat) :
    let p := compiled name files optimize first
    ∀ d ∈ p.decls, ∀ n ∈ d.body.parts, ∀ copies : Nat,
      let lowered := C.lower p.symbols n copies
      (∀ t : C.Temp, t.IsVariable p.symbols → .temp t ∈ lowered.value.identifiers →
        C.readsVariable n) ∧
      ((∃ callee, .function callee ∈ lowered.value.identifiers) ↔ C.valueCalls n) ∧
      (lowered.stmts ≠ [] → C.emitsStatements n ∨ C.calls n) ∧
      ∀ t : C.Temp, t.IsVariable p.symbols → t ∈ C.Stmt.allAssigned lowered.stmts →
        C.assigns n := by
  intro p d hd n hn copies
  have hown : C.Own p.symbols n.named := fun m hm =>
    own_compiled name files optimize first hd m (Node.mem_named_of_mem_parts hm hn)
  exact ⟨fun t ht => C.readsVariable_of_mem ht n copies hown, C.exists_call_iff n copies,
    C.emitsStatements_of_ne_nil n copies, fun t ht => C.assigns_of_mem ht n copies hown⟩

end Package

end CalcLang
