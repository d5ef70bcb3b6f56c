import CalcLang.Parse

/-!
# Expressions without empty blocks

The parser reads an empty form as a mistake, so the blocks of what it reads have elements
(`Parse.solid_of_mem_decls`). A tree put together by hand may have others; `Expr.Solid` keeps them
out.
-/

namespace CalcLang

mutual

/-- Every block in the expression has an element. -/
def Expr.Solid : Expr → Prop
  | .int _ _ | .bool _ _ | .name _ | .declare _ _ _ => True
  | .binary _ lhs rhs _ => lhs.Solid ∧ rhs.Solid
  | .unary _ operand _ => operand.Solid
  | .ifThen test _ yes _ => test.Solid ∧ yes.Solid
  | .ifThenElse test _ yes no _ => test.Solid ∧ yes.Solid ∧ no.Solid
  | .define _ _ init _ => init.Solid
  | .assign _ value _ => value.Solid
  | .call _ args _ => Expr.AllSolid args
  | .block exprs _ => exprs ≠ [] ∧ Expr.AllSolid exprs

/-- Every block in the expressions has an element. -/
def Expr.AllSolid : List Expr → Prop
  | [] => True
  | e :: es => e.Solid ∧ Expr.AllSolid es

end

namespace Parse

variable {file : FileId}

theorem bind_eq_ok_iff {ε α β : Type} {x : Except ε α} {f : α → Except ε β} {b : β} :
    x >>= f = .ok b ↔ ∃ a, x = .ok a ∧ f a = .ok b := by
  cases x with
  | error e => simp [bind, Except.bind]
  | ok a => simp [bind, Except.bind]

theorem map_eq_ok_iff {ε α β : Type} {x : Except ε α} {f : α → β} {b : β} :
    x.map f = .ok b ↔ ∃ a, x = .ok a ∧ f a = b := by
  cases x <;> simp [Except.map]

/-- The items read as solid expressions, if they can be read. -/
def Reads (items : List Item) : Prop := ∀ item ∈ items, ∀ e, item.expr = .ok e → e.Solid

theorem Reads.tail {item : Item} {items : List Item} (h : Reads (item :: items)) : Reads items :=
  fun i hi => h i (List.mem_cons_of_mem _ hi)

/-! ## Parts of forms -/

theorem expression_solid {closing : Token} {items rest : List Item} {e : Expr}
    (hr : Reads items) (h : expression closing items = .ok (e, rest)) : e.Solid ∧ Reads rest := by
  cases items with
  | nil => cases h
  | cons item items =>
    obtain ⟨a, ha, heq⟩ := map_eq_ok_iff.1 h
    cases heq
    exact ⟨hr item (by simp) e ha, hr.tail⟩

theorem operands_solid {items : List Item} {es : List Expr} (hr : Reads items)
    (h : operands items = .ok es) : Expr.AllSolid es ∧ es.length = items.length := by
  induction items generalizing es with
  | nil => cases h; exact ⟨trivial, rfl⟩
  | cons item items ih =>
    rw [operands] at h
    obtain ⟨e, he, h⟩ := bind_eq_ok_iff.1 h
    obtain ⟨others, ho, h⟩ := bind_eq_ok_iff.1 h
    cases h
    obtain ⟨hsolid, hlen⟩ := ih hr.tail ho
    exact ⟨⟨hr item (by simp) e he, hsolid⟩, by rw [List.length_cons, List.length_cons, hlen]⟩

theorem ident_reads {closing : Token} {items rest : List Item} {name : Ident} (hr : Reads items)
    (h : ident file closing items = .ok (name, rest)) : Reads rest := by
  unfold ident at h
  split at h
  · split at h
    · cases h; exact hr.tail
    · cases h
  · cases h

theorem optionalType_reads (file : FileId) {items : List Item} (hr : Reads items) :
    Reads (optionalType file items).2 := by
  unfold optionalType
  split
  · split
    · exact hr.tail
    · exact hr
  · exact hr

theorem requiredType_reads {closing : Token} {items rest : List Item} {ty : TypeExpr}
    (hr : Reads items) (h : requiredType file closing items = .ok (ty, rest)) : Reads rest := by
  unfold requiredType at h
  have := optionalType_reads file hr
  split at h
  · next heq =>
    cases h
    rw [heq] at this
    exact this
  · cases h

theorem introduced_solid {closing : Token} {items rest : List Item} {name : Ident}
    {init : Option Expr} (hr : Reads items)
    (h : introduced file closing items = .ok ((name, init), rest)) :
    (∀ e, init = some e → e.Solid) ∧ Reads rest := by
  unfold introduced at h
  split at h
  · split at h
    · cases h
      exact ⟨by simp, hr.tail⟩
    · cases h
  · dsimp only at h
    generalize Token.kind _ = kind at h
    split at h
    · obtain ⟨e, he, h⟩ := bind_eq_ok_iff.1 h
      have hsolid : e.Solid := hr _ List.mem_cons_self e he
      split at h
      · cases h
        refine ⟨?_, hr.tail⟩
        rintro _ ⟨⟩
        exact hsolid
      · cases h
    · cases h
  · cases h

/-! ## Forms -/

theorem chain_solid {op : BinaryOp} {first : Expr} {rest : List Expr} {pos : Pos}
    (hf : first.Solid) (hr : Expr.AllSolid rest) : (Expr.chain op first rest pos).Solid := by
  unfold Expr.chain
  induction rest generalizing first with
  | nil => exact hf
  | cons e es ih => exact ih ⟨hf, hr.1⟩ hr.2

theorem operation_solid {operator : Token} {pos : Pos} {es : List Expr} {e : Expr}
    (hs : Expr.AllSolid es) (h : operation operator pos es = .ok e) : e.Solid := by
  unfold operation at h
  split at h
  · cases h; exact hs.1
  · split at h
    · cases h
    · cases h; exact chain_solid hs.1 hs.2
    · cases h

theorem ifForm_solid {opening closing : Token} {items : List Item} {e : Expr} (hr : Reads items)
    (h : ifForm file opening closing items = .ok e) : e.Solid := by
  unfold ifForm at h
  obtain ⟨⟨test, items₁⟩, ht, h⟩ := bind_eq_ok_iff.1 h
  obtain ⟨htest, hr₁⟩ := expression_solid hr ht
  have hr₂ := optionalType_reads file hr₁
  rcases hty : optionalType file items₁ with ⟨ty, items₂⟩
  rw [hty] at hr₂
  simp only [hty] at h
  obtain ⟨⟨yes, items₃⟩, hy, h⟩ := bind_eq_ok_iff.1 h
  obtain ⟨hyes, hr₃⟩ := expression_solid hr₂ hy
  dsimp only at h
  split at h
  · cases h
    exact ⟨htest, hyes⟩
  · obtain ⟨⟨no, items₄⟩, hn, h⟩ := bind_eq_ok_iff.1 h
    obtain ⟨_, -, h⟩ := bind_eq_ok_iff.1 h
    cases h
    exact ⟨htest, hyes, (expression_solid hr₃ hn).1⟩

theorem assignForm_solid {opening closing : Token} {items : List Item} {e : Expr}
    (hr : Reads items) (h : assignForm file opening closing items = .ok e) : e.Solid := by
  unfold assignForm at h
  obtain ⟨⟨name, items₁⟩, hi, h⟩ := bind_eq_ok_iff.1 h
  obtain ⟨⟨value, items₂⟩, hv, h⟩ := bind_eq_ok_iff.1 h
  obtain ⟨_, -, h⟩ := bind_eq_ok_iff.1 h
  cases h
  exact (expression_solid (ident_reads hr hi) hv).1

theorem varForm_solid {opening closing : Token} {items : List Item} {e : Expr}
    (hr : Reads items) (h : varForm file opening closing items = .ok e) : e.Solid := by
  unfold varForm at h
  obtain ⟨⟨⟨name, init⟩, items₁⟩, hi, h⟩ := bind_eq_ok_iff.1 h
  have hinit := (introduced_solid hr hi).1
  rcases hty : optionalType file items₁ with ⟨ty, items₂⟩
  simp only [hty] at h
  obtain ⟨_, -, h⟩ := bind_eq_ok_iff.1 h
  split at h
  · cases h
    have hsolid := hinit _ rfl
    exact hsolid
  · cases h
    trivial
  · cases h

theorem callForm_solid {opening closing : Token} {items : List Item} {e : Expr}
    (hr : Reads items) (h : callForm file opening closing items = .ok e) : e.Solid := by
  unfold callForm at h
  obtain ⟨⟨name, items₁⟩, hi, h⟩ := bind_eq_ok_iff.1 h
  obtain ⟨args, ha, h⟩ := bind_eq_ok_iff.1 h
  obtain ⟨_, -, h⟩ := bind_eq_ok_iff.1 h
  cases h
  exact (operands_solid (ident_reads hr hi) ha).1

theorem operatorForm_solid {opening operator closing : Token} {items : List Item} {e : Expr}
    (hr : Reads items) (h : operatorForm file opening operator closing items = .ok e) :
    e.Solid := by
  unfold operatorForm at h
  obtain ⟨es, ho, h⟩ := bind_eq_ok_iff.1 h
  obtain ⟨_, -, h⟩ := bind_eq_ok_iff.1 h
  exact operation_solid (operands_solid hr ho).1 h

/-- A block has an element for each of its items. -/
theorem blockForm_solid {opening closing : Token} {items : List Item} {e : Expr}
    (hr : Reads items) (hne : items ≠ []) (h : blockForm file opening closing items = .ok e) :
    e.Solid := by
  unfold blockForm at h
  obtain ⟨es, ho, h⟩ := bind_eq_ok_iff.1 h
  obtain ⟨_, -, h⟩ := bind_eq_ok_iff.1 h
  cases h
  obtain ⟨hsolid, hlen⟩ := operands_solid hr ho
  refine ⟨?_, hsolid⟩
  rintro rfl
  exact hne (List.length_eq_zero_iff.1 hlen.symm)

theorem listExpr_solid {opening closing : Token} {items : List Item} {e : Expr}
    (hr : Reads items) (h : listExpr file opening closing items = .ok e) : e.Solid := by
  unfold listExpr at h
  split at h
  · split at h <;> cases h
  · exact blockForm_solid hr (by simp) h
  · split at h
    · exact ifForm_solid hr.tail h
    · exact varForm_solid hr.tail h
    · exact assignForm_solid hr.tail h
    · exact callForm_solid hr h
    · cases h
    · split at h
      · exact operatorForm_solid hr.tail h
      · cases h

theorem atomExpr_solid {t : Token} {e : Expr} (h : atomExpr file t = .ok e) : e.Solid := by
  unfold atomExpr at h
  split at h
  · split at h
    · cases h; trivial
    · cases h
  all_goals cases h
  all_goals trivial

mutual

/-- What a form reads as is solid. -/
theorem formExpr_solid : ∀ (f : Form) (e : Expr), formExpr file f = .ok e → e.Solid
  | .atom t, e, h => atomExpr_solid h
  | .list opening items closing, e, h => by
    rw [formExpr] at h
    exact listExpr_solid (formItems_reads items) h

theorem formItems_reads : ∀ fs : List Form, Reads (formItems file fs)
  | [] => by simp [formItems, Reads]
  | f :: fs => by
    intro item hitem e he
    rw [formItems] at hitem
    rcases List.mem_cons.1 hitem with rfl | hitem
    · exact formExpr_solid f e he
    · exact formItems_reads fs item hitem e he

end

/-! ## Declarations -/

theorem optionalParams_reads {items rest : List Item} {ps : List Param} (hr : Reads items)
    (h : optionalParams file items = .ok (ps, rest)) : Reads rest := by
  unfold optionalParams at h
  split at h
  · obtain ⟨_, -, heq⟩ := map_eq_ok_iff.1 h
    cases heq
    exact hr.tail
  · cases h
    exact hr

theorem decl_solid {opening closing : Token} {items : List Item} {d : Decl} (hr : Reads items)
    (h : decl file opening closing items = .ok d) : d.body.Solid := by
  unfold decl at h
  split at h
  · split at h
    · cases h
    · obtain ⟨⟨name, items₁⟩, hi, h⟩ := bind_eq_ok_iff.1 h
      obtain ⟨⟨ps, items₂⟩, hp, h⟩ := bind_eq_ok_iff.1 h
      obtain ⟨⟨ret, items₃⟩, hret, h⟩ := bind_eq_ok_iff.1 h
      obtain ⟨⟨body, items₄⟩, hb, h⟩ := bind_eq_ok_iff.1 h
      obtain ⟨_, -, h⟩ := bind_eq_ok_iff.1 h
      cases h
      have hr₂ := optionalParams_reads (ident_reads hr.tail hi) hp
      exact (expression_solid (requiredType_reads hr₂ hret) hb).1
  · cases h

theorem topLevel_solid {inRun : Bool} {fs : List Form} {d : Decl}
    (h : .ok d ∈ topLevel file inRun fs) : d.body.Solid := by
  induction fs generalizing inRun with
  | nil => simp [topLevel] at h
  | cons f fs ih =>
    cases f with
    | atom t =>
      rw [topLevel] at h
      split at h
      · exact ih h
      · rcases List.mem_cons.1 h with h | h
        · cases h
        · exact ih h
    | list opening items closing =>
      rw [topLevel] at h
      rcases List.mem_cons.1 h with h | h
      · exact decl_solid (formItems_reads items) h.symm
      · exact ih h

/-- **The declarations of a source text have no empty blocks.** -/
theorem solid_of_mem_decls {file : FileId} {text : String} {d : Decl}
    (h : d ∈ (Parse.ofText file text).decls) : d.body.Solid := by
  obtain ⟨r, hr, hd⟩ := List.mem_filterMap.1 h
  cases r with
  | error e => cases hd
  | ok d' =>
    cases hd
    exact topLevel_solid hr

end Parse

end CalcLang
