import CalcLang.Proofs.C.Operands

/-!
# Bounds on nested calls in C

An execution that does not run into the bound on nested calls does not depend on it: with a greater
bound there are the same ways (`Program.call_mono`). So `Program.Performs` can leave the bound out.
-/

namespace CalcLang.C

/-! ## Ways that do not reach the bound -/

namespace Ways

variable {α β : Type}

/-- No way runs into the bound on nested calls. -/
def Shallow (ws : Ways α) : Prop := ∀ r, List.Mem r ws → r.result ≠ .error .tooDeep

/-- Ways that do not run into the bound are the same in `ws` and `ws'`. -/
def Steady (ws ws' : Ways α) : Prop := ws.Shallow → ws' = ws

theorem Steady.refl (ws : Ways α) : ws.Steady ws := fun _ => rfl

theorem Steady.bind {ws ws' : Ways α} {next next' : α → Ways β} (h : ws.Steady ws')
    (hnext : ∀ a, (next a).Steady (next' a)) : (ws >>= next).Steady (ws' >>= next') := by
  intro hshallow
  have hws : ws.Shallow := by
    rintro ⟨E, reason | a⟩ hr heq
    · cases heq
      exact hshallow _ (List.mem_flatMap.2 ⟨_, hr, List.mem_singleton_self _⟩) rfl
    · cases heq
  rw [h hws]
  refine congrArg List.flatten (List.map_congr_left fun r hr => ?_)
  obtain ⟨E, reason | a⟩ := r
  · rfl
  · have hna : (next a).Shallow := fun r' hr' heq =>
      hshallow _ (List.mem_flatMap.2 ⟨_, hr, List.mem_map.2 ⟨r', hr', rfl⟩⟩) heq
    have heq : follow (fun _ : Unit => next' a) ⟨E, .ok ()⟩ =
        follow (fun _ : Unit => next a) ⟨E, .ok ()⟩ := by rw [hnext a hna]
    exact heq

theorem Steady.choose {γ : Type} {l : List γ} {g g' : γ → Ways α}
    (h : ∀ x ∈ l, (g x).Steady (g' x)) :
    (Ways.choose (l.map g)).Steady (Ways.choose (l.map g')) := by
  intro hshallow
  have : l.map g' = l.map g := by
    refine List.map_congr_left fun x hx => h x hx fun r hr => hshallow r ?_
    exact List.mem_flatten.2 ⟨g x, List.mem_map.2 ⟨x, hx, rfl⟩, hr⟩
  rw [this]

end Ways

/-! ## Executions -/

section Executions

open Ways

variable {call call' : Call → Ways Word}

theorem evaluateWithin_steady (h : ∀ c, (call c).Steady (call' c)) (ρ : Store) (n : Nat)
    (es : List Expr) :
    (evaluateWithin call ρ n es).Steady (evaluateWithin call' ρ n es) := by
  induction n generalizing es with
  | zero => exact .refl _
  | succ n ih =>
    rw [evaluateWithin, evaluateWithin]
    split
    · exact .refl _
    · refine .choose fun s _ => ?_
      cases s with
      | undefined => exact .refl _
      | silent next => exact ih next
      | call c resume => exact (Steady.refl _).bind fun _ => (h c).bind fun w => ih (resume w)

theorem evaluate_steady (h : ∀ c, (call c).Steady (call' c)) (ρ : Store) (e : Expr) :
    (evaluate call ρ e).Steady (evaluate call' ρ e) :=
  (evaluateWithin_steady h ρ _ [e]).bind fun _ => .refl _

theorem evaluateInit_steady (h : ∀ c, (call c).Steady (call' c)) (ρ : Store) (init : Init) :
    (evaluateInit call ρ init).Steady (evaluateInit call' ρ init) := by
  cases init with
  | expr e => exact evaluate_steady h ρ e
  | binary op lhs rhs =>
    rw [evaluateInit, evaluateInit]
    split
    · refine (evaluate_steady h ρ lhs).bind fun a => ?_
      split
      · exact .refl _
      · exact (evaluate_steady h ρ rhs).bind fun _ => .refl _
    · exact (evaluateWithin_steady h ρ _ [lhs, rhs]).bind fun _ => .refl _

mutual

theorem exec_steady (h : ∀ c, (call c).Steady (call' c)) :
    ∀ (s : Stmt) (ρ : Store), (exec call s ρ).Steady (exec call' s ρ)
  | .declare ty t init, ρ => by
    rw [exec, exec]
    exact (evaluateInit_steady h ρ init).bind fun _ => .refl _
  | .assign t e, ρ => by
    rw [exec, exec]
    exact (evaluate_steady h ρ e).bind fun _ => .refl _
  | .eval e, ρ => by
    rw [exec, exec]
    exact (evaluate_steady h ρ e).bind fun _ => .refl _
  | .ifThen test yes, ρ => by
    rw [exec, exec]
    refine (evaluate_steady h ρ test).bind fun w => ?_
    split
    · exact (execAll_steady h yes ρ).bind fun _ => .refl _
    · exact .refl _
  | .ifThenElse test yes no, ρ => by
    rw [exec, exec]
    refine (evaluate_steady h ρ test).bind fun w => ?_
    split
    · exact (execAll_steady h yes ρ).bind fun _ => .refl _
    · exact (execAll_steady h no ρ).bind fun _ => .refl _

theorem execAll_steady (h : ∀ c, (call c).Steady (call' c)) :
    ∀ (ss : List Stmt) (ρ : Store), (execAll call ss ρ).Steady (execAll call' ss ρ)
  | [], ρ => by rw [execAll, execAll]; exact .refl _
  | s :: ss, ρ => by
    rw [execAll, execAll]
    exact (exec_steady h s ρ).bind fun ρ => execAll_steady h ss ρ

end

theorem run_steady (h : ∀ c, (call c).Steady (call' c)) (f : Function) (args : List Word) :
    (f.run call args).Steady (f.run call' args) := by
  refine (Steady.refl _).bind fun ρ => (execAll_steady h f.body ρ).bind fun ρ => ?_
  exact (evaluate_steady h ρ f.result).bind fun _ => .refl _

end Executions

/-! ## Programs -/

namespace Program

theorem call_steady (p : Program) (depth : Nat) (c : Call) :
    (p.call depth c).Steady (p.call (depth + 1) c) := by
  induction depth generalizing c with
  | zero =>
    intro hshallow
    exact absurd rfl (hshallow _ (List.mem_singleton_self _))
  | succ depth ih =>
    rw [call, call]
    split
    · exact .refl _
    · next f _ => exact run_steady ih f c.args

/-- A call that does not need more nested calls than it may have has the same ways with more. -/
theorem call_mono (p : Program) {depth depth' : Nat} (h : depth ≤ depth') (c : Call) {T : List Call}
    {w : Word} (hc : Always (p.call depth c) T w) : Always (p.call depth' c) T w := by
  induction h with
  | refl => exact hc
  | step _ ih =>
    rw [p.call_steady _ c fun r hr heq => ?_]
    · exact ih
    · rw [ih.2 r hr] at heq
      cases heq

/-- Every execution of the call shows the calls `T` and gives `w`: none is undefined, and some
number of nested calls is enough for all. -/
def Performs (p : Program) (c : Call) (T : List Call) (w : Word) : Prop :=
  ∃ depth, ∀ depth', depth ≤ depth' → Always (p.call depth' c) T w

theorem performs_of_always {p : Program} (depth : Nat) {c : Call} {T : List Call} {w : Word}
    (h : Always (p.call depth c) T w) : p.Performs c T w :=
  ⟨depth, fun _ hle => p.call_mono hle c h⟩

/-- A call performs one sequence of calls and gives one value. -/
theorem Performs.det {p : Program} {c : Call} {T T' : List Call} {w w' : Word}
    (h : p.Performs c T w) (h' : p.Performs c T' w') : T = T' ∧ w = w' := by
  obtain ⟨depth, h⟩ := h
  obtain ⟨depth', h'⟩ := h'
  exact (h _ (Nat.le_max_left depth depth')).det (h' _ (Nat.le_max_right depth depth'))

end Program

end CalcLang.C
