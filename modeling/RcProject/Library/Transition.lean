import RcProject.Library.Result
import Mathlib.Data.List.Induction

namespace rc_project.transition

/-- A deterministic transition system whose steps may fault. -/
abbrev Machine (σ ι ω : Type) := σ → ι → Result (σ × ω)

variable {σ ι ω : Type} (step : Machine σ ι ω)

/-- Feeds the inputs to the machine one after the other and collects the
output of every step. -/
def run : σ → List ι → Result (σ × List ω)
  | state, [] => return (state, [])
  | state, input :: inputs => do
    let (next, output) ← step state input
    let (last, outputs) ← run next inputs
    return (last, output :: outputs)

@[simp] theorem run_nil (state : σ) : run step state [] = .ok (state, []) := rfl

theorem run_cons_eq_ok_iff {state last : σ} {input : ι} {inputs : List ι} {outputs : List ω} :
    run step state (input :: inputs) = .ok (last, outputs) ↔
      ∃ next output rest, step state input = .ok (next, output) ∧
        run step next inputs = .ok (last, rest) ∧ outputs = output :: rest := by
  simp only [run, Result.bind_eq_ok_iff, Prod.exists, Result.pure_eq_ok, Except.ok.injEq,
    Prod.mk.injEq]
  constructor
  · rintro ⟨next, output, hstep, middle, rest, hrun, rfl, rfl⟩
    exact ⟨next, output, rest, hstep, hrun, rfl⟩
  · rintro ⟨next, output, rest, hstep, hrun, rfl⟩
    exact ⟨next, output, hstep, last, rest, hrun, rfl, rfl⟩

/-- A run over a concatenation is a run over the first part followed by a run
over the second. -/
theorem run_append_eq_ok_iff {state last : σ} {first second : List ι} {outputs : List ω} :
    run step state (first ++ second) = .ok (last, outputs) ↔
      ∃ middle firstOutputs secondOutputs, run step state first = .ok (middle, firstOutputs) ∧
        run step middle second = .ok (last, secondOutputs) ∧
        outputs = firstOutputs ++ secondOutputs := by
  induction first generalizing state outputs with
  | nil =>
    constructor
    · intro hrun
      exact ⟨state, [], outputs, rfl, hrun, rfl⟩
    · rintro ⟨middle, firstOutputs, secondOutputs, hfirst, hsecond, rfl⟩
      obtain ⟨rfl, rfl⟩ : state = middle ∧ [] = firstOutputs := by simpa using hfirst
      exact hsecond
  | cons input inputs ih =>
    simp only [List.cons_append, run_cons_eq_ok_iff, ih]
    constructor
    · rintro ⟨next, output, rest, hstep, ⟨middle, os, os', hfirst, hsecond, rfl⟩, rfl⟩
      exact ⟨middle, output :: os, os', ⟨next, output, os, hstep, hfirst, rfl⟩, hsecond, rfl⟩
    · rintro ⟨middle, _, os', ⟨next, output, os, hstep, hfirst, rfl⟩, hsecond, rfl⟩
      exact ⟨next, output, os ++ os', hstep, ⟨middle, os, os', hfirst, hsecond, rfl⟩, rfl⟩

theorem run_snoc_eq_ok_iff {state last : σ} {inputs : List ι} {input : ι} {outputs : List ω} :
    run step state (inputs ++ [input]) = .ok (last, outputs) ↔
      ∃ middle before output, run step state inputs = .ok (middle, before) ∧
        step middle input = .ok (last, output) ∧ outputs = before ++ [output] := by
  rw [run_append_eq_ok_iff]
  constructor
  · rintro ⟨middle, before, _, hrun, hlast, rfl⟩
    obtain ⟨next, output, rest, hstep, hnil, rfl⟩ := (run_cons_eq_ok_iff step).mp hlast
    obtain ⟨rfl, rfl⟩ : next = last ∧ [] = rest := by simpa using hnil
    exact ⟨middle, before, output, hrun, hstep, rfl⟩
  · rintro ⟨middle, before, output, hrun, hstep, rfl⟩
    exact ⟨middle, before, [output], hrun,
      (run_cons_eq_ok_iff step).mpr ⟨last, output, [], hstep, rfl, rfl⟩, rfl⟩

/-- The states that some sequence of inputs leads to, without its outputs. -/
def Reaches (state : σ) (inputs : List ι) (last : σ) : Prop :=
  ∃ outputs, run step state inputs = .ok (last, outputs)

theorem Reaches.refl (state : σ) : Reaches step state [] state := ⟨[], rfl⟩

variable {step}

/-- A machine reaches at most one state by given inputs. -/
theorem Reaches.unique {state last last' : σ} {inputs : List ι} (h : Reaches step state inputs last)
    (h' : Reaches step state inputs last') : last = last' := by
  obtain ⟨outputs, hrun⟩ := h
  obtain ⟨outputs', hrun'⟩ := h'
  rw [hrun, Except.ok.injEq, Prod.mk.injEq] at hrun'
  exact hrun'.1

theorem reaches_nil_iff {state last : σ} : Reaches step state [] last ↔ last = state := by
  simp [Reaches, eq_comm]

theorem reaches_cons_iff {state last : σ} {input : ι} {inputs : List ι} :
    Reaches step state (input :: inputs) last ↔
      ∃ next output, step state input = .ok (next, output) ∧ Reaches step next inputs last := by
  constructor
  · rintro ⟨outputs, hrun⟩
    obtain ⟨next, output, rest, hstep, hrest, -⟩ := (run_cons_eq_ok_iff step).mp hrun
    exact ⟨next, output, hstep, rest, hrest⟩
  · rintro ⟨next, output, hstep, rest, hrest⟩
    exact ⟨_, (run_cons_eq_ok_iff step).mpr ⟨next, output, rest, hstep, hrest, rfl⟩⟩

theorem reaches_snoc_iff {state last : σ} {inputs : List ι} {input : ι} :
    Reaches step state (inputs ++ [input]) last ↔
      ∃ middle output, Reaches step state inputs middle ∧ step middle input = .ok (last, output) := by
  constructor
  · rintro ⟨outputs, hrun⟩
    obtain ⟨middle, before, output, hrun, hstep, -⟩ := (run_snoc_eq_ok_iff step).mp hrun
    exact ⟨middle, output, ⟨before, hrun⟩, hstep⟩
  · rintro ⟨middle, output, ⟨before, hrun⟩, hstep⟩
    exact ⟨_, (run_snoc_eq_ok_iff step).mpr ⟨middle, before, output, hrun, hstep, rfl⟩⟩

theorem Reaches.snoc {state middle last : σ} {inputs : List ι} {input : ι} {output : ω}
    (hreach : Reaches step state inputs middle) (hstep : step middle input = .ok (last, output)) :
    Reaches step state (inputs ++ [input]) last :=
  reaches_snoc_iff.mpr ⟨middle, output, hreach, hstep⟩

theorem Reaches.append {state middle last : σ} {first second : List ι}
    (h : Reaches step state first middle) (h' : Reaches step middle second last) :
    Reaches step state (first ++ second) last := by
  obtain ⟨outputs, hrun⟩ := h
  obtain ⟨outputs', hrun'⟩ := h'
  exact ⟨_, (run_append_eq_ok_iff step).mpr ⟨middle, outputs, outputs', hrun, hrun', rfl⟩⟩

/-- A run fails exactly when it reaches a state in which its next input fails. -/
theorem run_eq_error_iff {state : σ} {inputs : List ι} {e : Fault} :
    run step state inputs = .error e ↔ ∃ past input rest middle, inputs = past ++ input :: rest ∧
      Reaches step state past middle ∧ step middle input = .error e := by
  induction inputs generalizing state with
  | nil => simp
  | cons input inputs ih =>
    rw [run, Result.bind_eq_error_iff]
    constructor
    · rintro (hstep | ⟨⟨next, output⟩, hstep, hrun⟩)
      · exact ⟨[], input, inputs, state, rfl, Reaches.refl step state, hstep⟩
      · obtain hrun | ⟨_, -, hrun⟩ := Result.bind_eq_error_iff.mp hrun
        · obtain ⟨past, input', rest, middle, rfl, hreach, hfault⟩ := ih.mp hrun
          exact ⟨input :: past, input', rest, middle, rfl,
            reaches_cons_iff.mpr ⟨next, output, hstep, hreach⟩, hfault⟩
        · cases hrun
    · rintro ⟨past, input', rest, middle, heq, hreach, hfault⟩
      cases past with
      | nil =>
        cases heq
        rw [reaches_nil_iff.mp hreach] at hfault
        exact Or.inl hfault
      | cons first past =>
        cases heq
        obtain ⟨next, output, hstep, hreach'⟩ := reaches_cons_iff.mp hreach
        have hrun := ih.mpr ⟨past, input', rest, middle, rfl, hreach', hfault⟩
        refine Or.inr ⟨(next, output), hstep, ?_⟩
        simp only [hrun, Result.error_bind]

/-- The history rule: a relation between the inputs and outputs so far and the state that
holds at the start and is kept by every step holds at the end of every run. -/
theorem run_history {start last : σ} {inputs : List ι} {outputs : List ω}
    (P : List ι → List ω → σ → Prop) (hstart : P [] [] start)
    (hstep : ∀ past before state input next output, run step start past = .ok (state, before) →
      P past before state → step state input = .ok (next, output) →
        P (past ++ [input]) (before ++ [output]) next)
    (hrun : run step start inputs = .ok (last, outputs)) : P inputs outputs last := by
  induction inputs using List.reverseRecOn generalizing last outputs with
  | nil =>
    cases hrun
    exact hstart
  | append_singleton past input ih =>
    obtain ⟨state, before, output, hpast, hlast, rfl⟩ := (run_snoc_eq_ok_iff step).mp hrun
    exact hstep past before state input last output hpast (ih hpast) hlast

/-- The history rule for a run each of whose steps meets a condition, in every state of it. -/
theorem run_history_when {start last : σ} {inputs past rest : List ι} {outputs : List ω}
    (P : List ι → List ω → σ → Prop) (C : σ → ι → Prop)
    (hmeets : ∀ past input rest state, inputs = past ++ input :: rest →
      Reaches step start past state → C state input)
    (hstart : P [] [] start)
    (hstep : ∀ past before state input next output, run step start past = .ok (state, before) →
      P past before state → C state input → step state input = .ok (next, output) →
        P (past ++ [input]) (before ++ [output]) next)
    (hpast : inputs = past ++ rest) (hrun : run step start past = .ok (last, outputs)) :
    P past outputs last := by
  refine run_history (fun past before state => ∀ rest, inputs = past ++ rest →
    P past before state) (fun _ _ => hstart) ?_ hrun rest hpast
  intro past before state input next output hreach ih hnext rest heq
  rw [List.append_assoc] at heq
  exact hstep past before state input next output hreach (ih _ heq)
    (hmeets past input rest state heq ⟨before, hreach⟩) hnext

/-- The history rule for a relation that is about the inputs only. -/
theorem Reaches.history {start last : σ} {inputs : List ι} (P : List ι → σ → Prop)
    (hstart : P [] start)
    (hstep : ∀ past state input next output, Reaches step start past state → P past state →
      step state input = .ok (next, output) → P (past ++ [input]) next)
    (hreach : Reaches step start inputs last) : P inputs last := by
  obtain ⟨outputs, hrun⟩ := hreach
  exact run_history (fun past _ => P past) hstart
    (fun past before state input next output hpast =>
      hstep past state input next output ⟨before, hpast⟩) hrun

theorem Reaches.history_when {start last : σ} {inputs past rest : List ι}
    (P : List ι → σ → Prop) (C : σ → ι → Prop)
    (hmeets : ∀ past input rest state, inputs = past ++ input :: rest →
      Reaches step start past state → C state input)
    (hstart : P [] start)
    (hstep : ∀ past state input next output, Reaches step start past state → P past state →
      C state input → step state input = .ok (next, output) → P (past ++ [input]) next)
    (hpast : inputs = past ++ rest) (hreach : Reaches step start past last) : P past last := by
  obtain ⟨outputs, hrun⟩ := hreach
  exact run_history_when (fun past _ => P past) C hmeets hstart
    (fun past before state input next output hpast =>
      hstep past state input next output ⟨before, hpast⟩) hpast hrun

/-- The invariant rule: a property of the start that every step keeps holds in
every state a run reaches. -/
theorem Reaches.invariant {start last : σ} {inputs : List ι} (P : σ → Prop) (hstart : P start)
    (hstep : ∀ state input next output, P state → step state input = .ok (next, output) → P next)
    (hreach : Reaches step start inputs last) : P last :=
  hreach.history (fun _ => P) hstart fun _ state input next output _ hstate =>
    hstep state input next output hstate

/-- The totality rule: where an invariant lets every step succeed and is kept by
it, every run succeeds. -/
theorem run_total {start : σ} (P : σ → Prop) (hstart : P start)
    (hstep : ∀ state input, P state → ∃ next output, step state input = .ok (next, output) ∧ P next)
    (inputs : List ι) : ∃ last outputs, run step start inputs = .ok (last, outputs) ∧ P last := by
  induction inputs generalizing start with
  | nil => exact ⟨start, [], rfl, hstart⟩
  | cons input inputs ih =>
    obtain ⟨next, output, hnext, hinv⟩ := hstep start input hstart
    obtain ⟨last, outputs, hrun, hlast⟩ := ih hinv
    exact ⟨last, output :: outputs,
      (run_cons_eq_ok_iff step).mpr ⟨next, output, outputs, hnext, hrun, rfl⟩, hlast⟩

end rc_project.transition
