/-!
# Runs

A run is what can be seen of an execution: the events on the way, in order, and a result or the
reason why there is none. Runs are put together by `Run.bind`, which shows the events of its parts
one after the other; a run that fails shows nothing further. `Run.Returns` is the case of a result,
and `Run.returns_bind_iff` takes such a run apart. `Run.restrict` hides some of the events.
`Run.Meets` bounds what a run may show and how it may end, whether it gives a result or not.
-/

namespace CalcLang

/-- The events of an execution and how it ends: with a result, or with a reason to stop. -/
structure Run (ε η α : Type) where
  events : List ε
  result : Except η α

namespace Run

variable {ε η α β γ : Type}

/-- The run that fails at once. -/
def fail (reason : η) : Run ε η α := ⟨[], .error reason⟩

/-- The run that shows some events. -/
def log (events : List ε) : Run ε η Unit := ⟨events, .ok ()⟩

/-- The run that gives a result if there is one. -/
def ofOption (reason : η) : Option α → Run ε η α
  | some a => ⟨[], .ok a⟩
  | none => fail reason

/-- The run of `r` and then, if it gives a result, of what follows from that. -/
def bind (r : Run ε η α) (next : α → Run ε η β) : Run ε η β :=
  match r.result with
  | .ok a => ⟨r.events ++ (next a).events, (next a).result⟩
  | .error reason => ⟨r.events, .error reason⟩

instance : Monad (Run ε η) where
  pure a := ⟨[], .ok a⟩
  bind := bind

theorem id_map (r : Run ε η α) : id <$> r = r := by
  obtain ⟨E, a | a⟩ := r
  · rfl
  · exact congrArg (Run.mk · _) (List.append_nil E)

theorem bind_assoc (r : Run ε η α) (f : α → Run ε η β) (g : β → Run ε η γ) :
    r >>= f >>= g = r >>= fun a => f a >>= g := by
  change Run.bind (Run.bind r f) g = Run.bind r fun a => Run.bind (f a) g
  obtain ⟨E, a | a⟩ := r
  · rfl
  · rcases hf : f a with ⟨E', b | b⟩ <;> simp [bind, hf]

instance : LawfulMonad (Run ε η) := LawfulMonad.mk' _ id_map (fun _ _ => rfl) bind_assoc

/-- The run gives the result `a` after the events `E`. -/
def Returns (r : Run ε η α) (E : List ε) (a : α) : Prop := r = ⟨E, .ok a⟩

theorem Returns.det {r : Run ε η α} {E E' : List ε} {a a' : α} (h : r.Returns E a)
    (h' : r.Returns E' a') : E = E' ∧ a = a' := by
  unfold Returns at h h'
  rw [h] at h'
  simpa using h'

theorem returns_of_result {r : Run ε η α} {a : α} (h : r.result = .ok a) :
    r.Returns r.events a := by
  obtain ⟨E, res⟩ := r
  cases h
  rfl

@[simp]
theorem returns_pure_iff {a b : α} {E : List ε} :
    (pure a : Run ε η α).Returns E b ↔ E = [] ∧ a = b := by
  change (⟨[], .ok a⟩ : Run ε η α) = ⟨E, .ok b⟩ ↔ _
  constructor
  · intro h
    cases h
    exact ⟨rfl, rfl⟩
  · rintro ⟨rfl, rfl⟩
    rfl

@[simp]
theorem returns_log_iff {E E' : List ε} {u : Unit} :
    (log E : Run ε η Unit).Returns E' u ↔ E' = E := by
  constructor
  · intro h
    cases h
    rfl
  · rintro rfl
    rfl

@[simp]
theorem not_returns_fail {reason : η} {E : List ε} {a : α} :
    ¬ (fail reason : Run ε η α).Returns E a := by
  intro h
  cases h

@[simp]
theorem returns_ofOption_iff {reason : η} {o : Option α} {E : List ε} {a : α} :
    (ofOption reason o : Run ε η α).Returns E a ↔ E = [] ∧ o = some a := by
  cases o with
  | none => simp [ofOption]
  | some b =>
    simp only [ofOption, Option.some.injEq]
    exact returns_pure_iff

/-- A composed run gives a result exactly if both of its parts do. -/
@[simp]
theorem returns_bind_iff {r : Run ε η α} {next : α → Run ε η β} {E : List ε} {b : β} :
    (r >>= next).Returns E b ↔
      ∃ E₁ a E₂, r.Returns E₁ a ∧ (next a).Returns E₂ b ∧ E = E₁ ++ E₂ := by
  change (r.bind next).Returns E b ↔ _
  obtain ⟨E₁, a | a⟩ := r
  · simp [bind, Returns]
  · rcases hn : next a with ⟨E₂, res⟩
    simp only [bind, Returns, hn, Run.mk.injEq, Except.ok.injEq]
    constructor
    · rintro ⟨rfl, rfl⟩
      exact ⟨E₁, a, E₂, ⟨rfl, rfl⟩, by rw [hn], rfl⟩
    · rintro ⟨_, _, E₃, ⟨rfl, rfl⟩, h, rfl⟩
      rw [hn] at h
      cases h
      exact ⟨rfl, rfl⟩

/-! ## Hiding events -/

/-- The run without the events that fail a test. -/
def restrict (shown : ε → Bool) (r : Run ε η α) : Run ε η α := ⟨r.events.filter shown, r.result⟩

theorem restrict_bind (shown : ε → Bool) (r : Run ε η α) (next : α → Run ε η β) :
    (r >>= next).restrict shown = r.restrict shown >>= fun a => (next a).restrict shown := by
  change (r.bind next).restrict shown = (r.restrict shown).bind fun a => (next a).restrict shown
  obtain ⟨E, a | a⟩ := r
  · rfl
  · simp [bind, restrict]

/-- A composed run looks the same if its parts do. -/
theorem restrict_bind_congr {shown : ε → Bool} {r r' : Run ε η α} {next next' : α → Run ε η β}
    (hr : r.restrict shown = r'.restrict shown)
    (hnext : ∀ a, (next a).restrict shown = (next' a).restrict shown) :
    (r >>= next).restrict shown = (r' >>= next').restrict shown := by
  rw [restrict_bind, restrict_bind, hr]
  congr 1
  funext a
  exact hnext a

/-! ## Runs that stop later -/

/-- Where `r` gives a result, `r'` does the same. -/
def Below (r r' : Run ε η α) : Prop := ∀ ⦃E : List ε⦄ ⦃a : α⦄, r.Returns E a → r'.Returns E a

theorem Below.refl (r : Run ε η α) : r.Below r := fun _ _ h => h

theorem Below.bind {r r' : Run ε η α} {next next' : α → Run ε η β} (h : r.Below r')
    (hnext : ∀ a, (next a).Below (next' a)) : (r >>= next).Below (r' >>= next') := by
  intro E b hb
  obtain ⟨E₁, a, E₂, hr, hn, rfl⟩ := returns_bind_iff.1 hb
  exact returns_bind_iff.2 ⟨E₁, a, E₂, h hr, hnext a hn, rfl⟩

/-! ## Conditions on runs -/

/-- Every event of the run is as `shown` asks, and the run ends with a result as `gives` asks or
with a reason as `stops` asks. -/
structure Meets (shown : ε → Prop) (stops : η → Prop) (r : Run ε η α)
    (gives : α → Prop) : Prop where
  events : ∀ e ∈ r.events, shown e
  result : ∀ a, r.result = .ok a → gives a
  reason : ∀ reason, r.result = .error reason → stops reason

section Meets

variable {shown : ε → Prop} {stops : η → Prop} {gives gives' : α → Prop}

theorem Meets.pure {a : α} (h : gives a) : Meets shown stops (pure a) gives :=
  ⟨nofun, fun _ ha => Except.ok.inj ha ▸ h, nofun⟩

theorem Meets.fail {reason : η} (h : stops reason) : Meets shown stops (fail reason) gives :=
  ⟨nofun, nofun, fun _ hr => Except.error.inj hr ▸ h⟩

theorem Meets.log {events : List ε} (h : ∀ e ∈ events, shown e) :
    Meets shown stops (log events) fun _ => True :=
  ⟨h, fun _ _ => trivial, nofun⟩

theorem Meets.ofOption_bind {reason : η} {o : Option α} {a : α} {next : α → Run ε η β}
    {after : β → Prop} (ho : o = some a) (h : (next a).Meets shown stops after) :
    (ofOption reason o >>= next).Meets shown stops after := by
  subst ho
  exact h

theorem Meets.mono {r : Run ε η α} (h : r.Meets shown stops gives)
    (hg : ∀ a, gives a → gives' a) : r.Meets shown stops gives' :=
  ⟨h.events, fun a ha => hg a (h.result a ha), h.reason⟩

/-- A composed run meets what its second part does, if that follows from what the first one
gives. -/
theorem Meets.bind {r : Run ε η α} {next : α → Run ε η β} {after : β → Prop}
    (h : r.Meets shown stops gives) (hn : ∀ a, gives a → (next a).Meets shown stops after) :
    (r >>= next).Meets shown stops after := by
  change (r.bind next).Meets shown stops after
  obtain ⟨E, reason | a⟩ := r
  · exact ⟨h.events, nofun, fun _ hr => Except.error.inj hr ▸ h.reason reason rfl⟩
  · have ha := hn a (h.result a rfl)
    refine ⟨fun e he => ?_, ha.result, ha.reason⟩
    rcases List.mem_append.1 he with he | he
    · exact h.events e he
    · exact ha.events e he

end Meets

end Run

end CalcLang
