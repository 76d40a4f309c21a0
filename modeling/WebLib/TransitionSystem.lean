import Mathlib

/-! # Labelled transition systems with guarded runs

    A system is an initial predicate and a partial step function; everything
    the environment chooses sits in the label.  `Reach ok` holds of the states
    of the runs whose every step meets `ok`, a condition on the state BEFORE
    the step and the label: `ok = fun _ _ => True` gives plain reachability.
    The induction over runs is packaged once, in `Reach.invariant`. -/

namespace WebLib

universe u v

/-- A transition system over states `σ` and labels `ℓ`. -/
structure TransitionSystem (σ : Type u) (ℓ : Type v) where
  init : σ → Prop
  step : σ → ℓ → Option σ

namespace TransitionSystem

variable {σ : Type u} {ℓ : Type v} (T : TransitionSystem σ ℓ)

/-- The states of the runs whose steps all meet `ok`. -/
inductive Reach (ok : σ → ℓ → Prop) : σ → Prop where
  | init {s : σ} : T.init s → Reach ok s
  | step {s s' : σ} {l : ℓ} : Reach ok s → ok s l → T.step s l = some s' → Reach ok s'

/-- The states of all runs. -/
abbrev Reachable (s : σ) : Prop := T.Reach (fun _ _ => True) s

/-- Running a list of labels, as long as the steps meet `ok`. -/
def run (ok : σ → ℓ → Prop) [∀ s l, Decidable (ok s l)] (s : σ) : List ℓ → Option σ
  | [] => some s
  | l :: ls => if ok s l then (T.step s l).bind fun s' => run ok s' ls else none

variable {T}

/-- **THE INVARIANT RULE**: true initially, kept by every step that meets the
    condition, hence true in every state of every such run. -/
theorem Reach.invariant {ok : σ → ℓ → Prop} {I : σ → Prop}
    (hinit : ∀ s, T.init s → I s)
    (hstep : ∀ s l s', I s → ok s l → T.step s l = some s' → I s')
    {s : σ} (h : T.Reach ok s) : I s := by
  induction h with
  | init h0 => exact hinit _ h0
  | step _ hok hs ih => exact hstep _ _ _ ih hok hs

/-- The invariant rule relative to an invariant `J` that is already known. -/
theorem Reach.invariant_of {ok : σ → ℓ → Prop} {I J : σ → Prop}
    (hJ : ∀ s, T.Reach ok s → J s)
    (hinit : ∀ s, T.init s → I s)
    (hstep : ∀ s l s', J s → I s → ok s l → T.step s l = some s' → I s')
    {s : σ} (h : T.Reach ok s) : I s := by
  induction h with
  | init h0 => exact hinit _ h0
  | step hr hok hs ih => exact hstep _ _ _ (hJ _ hr) ih hok hs

/-- A weaker condition admits more runs. -/
theorem Reach.mono {ok ok' : σ → ℓ → Prop} (h : ∀ s l, ok s l → ok' s l)
    {s : σ} (hr : T.Reach ok s) : T.Reach ok' s := by
  induction hr with
  | init h0 => exact .init h0
  | step _ hok hs ih => exact .step ih (h _ _ hok) hs

/-- A run from a reached state ends in a reached state. -/
theorem Reach.run {ok : σ → ℓ → Prop} [∀ s l, Decidable (ok s l)] {s s' : σ} {ls : List ℓ}
    (h : T.Reach ok s) (hrun : T.run ok s ls = some s') : T.Reach ok s' := by
  induction ls generalizing s with
  | nil => exact Option.some.inj hrun ▸ h
  | cons l ls ih =>
      rw [TransitionSystem.run] at hrun
      by_cases hok : ok s l
      · rw [if_pos hok] at hrun
        obtain ⟨s₁, hs, hrest⟩ := Option.bind_eq_some_iff.mp hrun
        exact ih (.step h hok hs) hrest
      · rw [if_neg hok] at hrun
        cases hrun

/-- A property that a computed run ends with holds of some reached state. -/
theorem Reach.exists_of_run {ok : σ → ℓ → Prop} [∀ s l, Decidable (ok s l)] {s : σ}
    (h : T.Reach ok s) (P : σ → Prop) (ls : List ℓ)
    (hp : ∃ s' ∈ T.run ok s ls, P s') : ∃ s', T.Reach ok s' ∧ P s' := by
  obtain ⟨s', hrun, hs'⟩ := hp
  exact ⟨s', h.run hrun, hs'⟩

end TransitionSystem

end WebLib
