import RcProject.Library.Transition

namespace rc_project

namespace Result

variable {α β γ : Type}

/-- What is read off the value of a sequence is read off its second part. -/
theorem map_bind (x : Result α) (f : α → Result β) (view : β → γ) :
    (x >>= f).map view = x >>= fun a => (f a).map view := by
  cases x <;> rfl

@[simp] theorem map_ok (a : α) (view : α → γ) :
    (Except.ok a : Result α).map view = .ok (view a) := rfl

@[simp] theorem map_error (e : Fault) (view : α → γ) :
    (Except.error e : Result α).map view = .error e := rfl

end Result

namespace transition

variable {σ τ ι ν ω : Type}

/-- A specification: what may be observed in a state, and the states behind it. -/
abbrev Spec (τ ν : Type) := τ → ν → τ → Prop

/-- Steps of a specification one after the other. -/
inductive Spec.Runs (spec : Spec τ ν) : τ → List ν → τ → Prop
  | nil (state : τ) : Runs spec state [] state
  | cons {state next last : τ} {observed : ν} {rest : List ν} (hstep : spec state observed next)
    (hrest : Runs spec next rest last) : Runs spec state (observed :: rest) last

namespace Spec.Runs

variable {spec : Spec τ ν} {state next last : τ} {first second : List ν}

theorem single {observed : ν} (hstep : spec state observed next) :
    spec.Runs state [observed] next := .cons hstep (.nil next)

theorem append (hfirst : spec.Runs state first next) (hsecond : spec.Runs next second last) :
    spec.Runs state (first ++ second) last := by
  induction hfirst with
  | nil => exact hsecond
  | cons hstep _ ih => exact .cons hstep (ih hsecond)

end Spec.Runs

/-- What is observed along a run of a machine. -/
def trace (step : Machine σ ι ω) (observe : σ → ι → ω → List ν) :
    σ → List ι → Result (σ × List ν)
  | state, [] => return (state, [])
  | state, input :: inputs => do
    let (next, output) ← step state input
    let (last, observed) ← trace step observe next inputs
    return (last, observe state input output ++ observed)

variable {step : Machine σ ι ω} {observe : σ → ι → ω → List ν}

/-- Observing a run does not change it. -/
theorem trace_map_fst (state : σ) (inputs : List ι) :
    (trace step observe state inputs).map Prod.fst = (run step state inputs).map Prod.fst := by
  induction inputs generalizing state with
  | nil => rfl
  | cons input inputs ih =>
    simp only [trace, run, Result.map_bind]
    cases step state input with
    | error e => rfl
    | ok result =>
      have hrest := ih result.1
      simp only [Result.ok_bind]
      cases htrace : trace step observe result.1 inputs <;>
        cases hrun : run step result.1 inputs <;> simp_all

theorem exists_trace (observe : σ → ι → ω → List ν) {state last : σ} {inputs : List ι}
    {outputs : List ω} (hrun : run step state inputs = .ok (last, outputs)) :
    ∃ observed, trace step observe state inputs = .ok (last, observed) := by
  have hfst : (trace step observe state inputs).map Prod.fst = _ := trace_map_fst state inputs
  rw [hrun, Result.map_ok] at hfst
  cases htrace : trace step observe state inputs with
  | error e => rw [htrace] at hfst; cases hfst
  | ok result =>
    rw [htrace, Result.map_ok, Except.ok.injEq] at hfst
    obtain ⟨state', observed⟩ := result
    exact ⟨observed, by rw [show state' = last from hfst]⟩

/-- The simulation rule: if every step from a related state is observed as steps of the
specification that lead to a related state, every run is. -/
theorem simulates (spec : Spec τ ν) (R : σ → τ → Prop)
    (hstep : ∀ state abstract input next output, R state abstract →
      step state input = .ok (next, output) →
        ∃ abstract', spec.Runs abstract (observe state input output) abstract' ∧ R next abstract')
    {state last : σ} {abstract : τ} {inputs : List ι} {observed : List ν} (hstart : R state abstract)
    (htrace : trace step observe state inputs = .ok (last, observed)) :
    ∃ abstract', spec.Runs abstract observed abstract' ∧ R last abstract' := by
  induction inputs generalizing state abstract observed with
  | nil =>
    cases htrace
    exact ⟨abstract, .nil abstract, hstart⟩
  | cons input inputs ih =>
    obtain ⟨⟨next, output⟩, hfirst, htrace⟩ := Result.bind_eq_ok_iff.mp htrace
    obtain ⟨⟨last', rest⟩, hrest, htrace⟩ := Result.bind_eq_ok_iff.mp htrace
    cases htrace
    obtain ⟨middle, hruns, hmiddle⟩ := hstep _ _ _ _ _ hstart hfirst
    obtain ⟨abstract', hruns', hlast⟩ := ih hmiddle hrest
    exact ⟨abstract', hruns.append hruns', hlast⟩

end transition

end rc_project
