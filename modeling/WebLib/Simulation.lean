import WebLib.TransitionSystem

/-! # Forward simulation

    A relation between the states of two systems that every step keeps, the
    lower system stepping and the upper one following with one step of its own
    or standing still.  Both runs may be guarded, each by a condition of its
    own.  What is then proved of all states of the upper system is true of the
    lower one through the relation, in every state of every run. -/

namespace WebLib.TransitionSystem

universe u v u' v'

variable {σ : Type u} {ℓ : Type v} {τ : Type u'} {κ : Type v'} {T : TransitionSystem σ ℓ}
  {U : TransitionSystem τ κ}

/-- One step with an admitted label, or none. -/
def Follows (U : TransitionSystem τ κ) (ok : τ → κ → Prop) (t t' : τ) : Prop :=
  t' = t ∨ ∃ k, ok t k ∧ U.step t k = some t'

theorem Follows.refl {ok : τ → κ → Prop} (t : τ) : U.Follows ok t t := Or.inl rfl

theorem Follows.of_step {ok : τ → κ → Prop} {t t' : τ} (k : κ) (hok : ok t k)
    (h : U.step t k = some t') : U.Follows ok t t' := Or.inr ⟨k, hok, h⟩

/-- Following keeps to the reached states. -/
theorem Reach.follows {ok : τ → κ → Prop} {t t' : τ} (h : U.Reach ok t)
    (hf : U.Follows ok t t') : U.Reach ok t' := by
  rcases hf with rfl | ⟨k, hok, hs⟩
  · exact h
  · exact .step h hok hs

/-- Every step of a guarded run of `T` is followed by `U`, and stays related.
    A step may use what is known of the reached states on both sides. -/
structure Simulation (T : TransitionSystem σ ℓ) (U : TransitionSystem τ κ)
    (ok : σ → ℓ → Prop) (ok' : τ → κ → Prop) (R : σ → τ → Prop) : Prop where
  init : ∀ s, T.init s → ∃ t, U.init t ∧ R s t
  step : ∀ s t l s', T.Reach ok s → U.Reach ok' t → R s t → ok s l → T.step s l = some s' →
    ∃ t', U.Follows ok' t t' ∧ R s' t'

namespace Simulation

variable {ok : σ → ℓ → Prop} {ok' : τ → κ → Prop} {R : σ → τ → Prop}

/-- **A RUN IS FOLLOWED**: every reached state is related to a reached one. -/
theorem reach (h : Simulation T U ok ok' R) {s : σ} (hs : T.Reach ok s) :
    ∃ t, U.Reach ok' t ∧ R s t := by
  induction hs with
  | init h0 =>
      obtain ⟨t, ht, hr⟩ := h.init _ h0
      exact ⟨t, .init ht, hr⟩
  | step hs hok hstep ih =>
      obtain ⟨t, ht, hr⟩ := ih
      obtain ⟨t', hf, hr'⟩ := h.step _ t _ _ hs ht hr hok hstep
      exact ⟨t', ht.follows hf, hr'⟩

end Simulation

end WebLib.TransitionSystem
