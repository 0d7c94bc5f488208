import RcProject.Library.Transition

namespace rc_project

/-- Two outcomes that correspond to each other: the same fault, or two values that do. -/
inductive Result.Related {α β : Type} (R : α → β → Prop) : Result α → Result β → Prop
  | ok {a : α} {b : β} (h : R a b) : Result.Related R (.ok a) (.ok b)
  | error (e : Fault) : Result.Related R (.error e) (.error e)

namespace Result

variable {α β γ δ : Type} {R : α → β → Prop} {S : γ → δ → Prop} {x : Result α} {y : Result β}
  {f : α → Result γ} {g : β → Result δ}

/-- The sequence rule: two sequences correspond if their first parts do and the second
parts do behind them. -/
theorem Related.bind (h : Related R x y)
    (hnext : ∀ a b, x = .ok a → y = .ok b → R a b → Related S (f a) (g b)) :
    Related S (x >>= f) (y >>= g) := by
  cases h with
  | ok hab => exact hnext _ _ rfl rfl hab
  | error e => exact .error e

/-- Two sequences with one first part correspond if their second parts do. -/
theorem Related.bind_eq {z : Result β} {f : β → Result γ}
    (hnext : ∀ b, z = .ok b → Related S (f b) (g b)) : Related S (z >>= f) (z >>= g) := by
  cases z with
  | ok b => exact hnext b rfl
  | error e => exact .error e

/-- Two conditionals correspond if their conditions do and both branches. -/
theorem Related.ite {c c' : Prop} [Decidable c] [Decidable c'] {x' : Result α} {y' : Result β}
    (hcond : c ↔ c') (hthen : c → Related R x y) (helse : ¬ c → Related R x' y') :
    Related R (if c then x else x') (if c' then y else y') := by
  by_cases h : c
  · rw [if_pos h, if_pos (hcond.mp h)]
    exact hthen h
  · rw [if_neg h, if_neg (mt hcond.mpr h)]
    exact helse h

theorem Related.mono {R' : α → β → Prop} (h : Related R x y)
    (hweaker : ∀ a b, x = .ok a → y = .ok b → R a b → R' a b) : Related R' x y := by
  cases h with
  | ok hab => exact .ok (hweaker _ _ rfl rfl hab)
  | error e => exact .error e

/-- What corresponds to a value is a value. -/
theorem Related.exists_of_ok {a : α} (h : Related R (.ok a) y) : ∃ b, y = .ok b ∧ R a b := by
  cases h with
  | ok hab => exact ⟨_, rfl, hab⟩

theorem Related.of_map {view : α → γ} {view' : β → δ} (h : Related S (x.map view) (y.map view')) :
    Related (fun a b => S (view a) (view' b)) x y := by
  cases x with
  | error e =>
    cases y with
    | error e' =>
      cases h
      exact .error e
    | ok b => cases h
  | ok a =>
    obtain ⟨d, hd, hs⟩ := h.exists_of_ok
    cases y with
    | error e => cases hd
    | ok b =>
      cases hd
      exact .ok hs

/-- What corresponding outcomes have in common is equal. -/
theorem Related.map_eq {view : α → γ} {view' : β → γ} (h : Related R x y)
    (hview : ∀ a b, R a b → view a = view' b) : x.map view = y.map view' := by
  cases h with
  | ok hab => exact congrArg Except.ok (hview _ _ hab)
  | error e => rfl

end Result

namespace transition

variable {σ τ ι κ ω : Type} {step : Machine σ ι ω} {step' : Machine τ κ ω}

/-- The two-run rule: two machines give the same outputs for corresponding inputs if
corresponding states do so in every step that the two runs take. -/
theorem run_related (R : σ → τ → Prop) (I : ι → κ → Prop) (C : σ → ι → Prop) (C' : τ → κ → Prop)
    (hstep : ∀ state state' input input', R state state' → I input input' → C state input →
      C' state' input' →
        Result.Related (fun r r' => R r.1 r'.1 ∧ r.2 = r'.2) (step state input) (step' state' input'))
    {start : σ} {start' : τ} {inputs : List ι} {inputs' : List κ} (hstart : R start start')
    (hinputs : List.Forall₂ I inputs inputs')
    (hclean : ∀ past input rest state, inputs = past ++ input :: rest →
      Reaches step start past state → C state input)
    (hclean' : ∀ past input rest state, inputs' = past ++ input :: rest →
      Reaches step' start' past state → C' state input) :
    Result.Related (fun r r' => R r.1 r'.1 ∧ r.2 = r'.2) (run step start inputs)
      (run step' start' inputs') := by
  induction hinputs generalizing start start' with
  | nil => exact .ok ⟨hstart, rfl⟩
  | @cons input input' rest rest' hinput _ ih =>
    have hfirst := hclean [] input rest start rfl (Reaches.refl step start)
    have hfirst' := hclean' [] input' rest' start' rfl (Reaches.refl step' start')
    apply (hstep _ _ _ _ hstart hinput hfirst hfirst').bind
    rintro ⟨next, output⟩ ⟨next', output'⟩ hnext hnext' ⟨hrelated, rfl⟩
    refine (ih hrelated ?_ ?_).bind ?_
    · intro past input'' rest'' state heq hreach
      exact hclean (input :: past) input'' rest'' state (by rw [heq]; rfl)
        (reaches_cons_iff.mpr ⟨next, output, hnext, hreach⟩)
    · intro past input'' rest'' state heq hreach
      exact hclean' (input' :: past) input'' rest'' state (by rw [heq]; rfl)
        (reaches_cons_iff.mpr ⟨next', output, hnext', hreach⟩)
    · rintro ⟨last, outputs⟩ ⟨last', outputs'⟩ - - ⟨hlast, rfl⟩
      exact .ok ⟨hlast, rfl⟩

/-- A machine beside which something is recorded that its steps do not read. -/
def ghost {γ : Type} (step : Machine σ ι ω) (after : γ → σ → ι → γ) : Machine (σ × γ) ι ω
  | (state, record), input => do
    let (next, output) ← step state input
    return ((next, after record state input), output)

/-- What is recorded does not change what is done. -/
theorem run_ghost {γ : Type} (after : γ → σ → ι → γ) (state : σ) (record : γ) (inputs : List ι) :
    (run (ghost step after) (state, record) inputs).map (fun r => (r.1.1, r.2)) =
      run step state inputs := by
  induction inputs generalizing state record with
  | nil => rfl
  | cons input rest ih =>
    simp only [run, ghost]
    cases step state input with
    | error e => rfl
    | ok result =>
      rw [Result.ok_bind, Result.ok_bind, ← ih result.1 (after record state input)]
      simp only [Result.pure_eq_ok, Result.ok_bind]
      cases run (ghost step after) (result.1, after record state input) rest <;> rfl

/-- A state that is reached with a record is reached without it. -/
theorem reaches_of_ghost {γ : Type} {after : γ → σ → ι → γ} {start state : σ} {record record' : γ}
    {past : List ι} (hreach : Reaches (ghost step after) (start, record) past (state, record')) :
    Reaches step start past state := by
  obtain ⟨outputs, hrun⟩ := hreach
  refine ⟨outputs, ?_⟩
  rw [← run_ghost after start record past, hrun]
  rfl

end transition

end rc_project
