import WebLib.TransitionSystem

/-! # Variants and rest

    A variant is a number that a step lowers, up to the price of its label.  A
    run is then no longer than the number it starts with and the prices of its
    labels together; and where only labels without a price are taken, it can be
    carried on to a state at rest, in which none of them has a step.  What a
    state at rest looks like is for the system to say; the rules turn that into
    a statement about every run that is carried on as far as it goes. -/

namespace WebLib.TransitionSystem

universe u v

variable {σ : Type u} {ℓ : Type v} {T : TransitionSystem σ ℓ}

/-- No label that meets `ok` has a step. -/
def AtRest (T : TransitionSystem σ ℓ) (ok : σ → ℓ → Prop) (s : σ) : Prop :=
  ∀ l, ok s l → T.step s l = none

/-- `m` goes down with every step from a state of `I`, but for the price of the
    label, and `I` stays. -/
structure Variant (T : TransitionSystem σ ℓ) (I : σ → Prop) (m : σ → Nat)
    (price : ℓ → Nat) : Prop where
  keeps : ∀ s l s', I s → T.step s l = some s' → I s'
  pays : ∀ s l s', I s → T.step s l = some s' → m s' < m s + price l

/-- Runs compose. -/
theorem run_append (ok : σ → ℓ → Prop) [∀ s l, Decidable (ok s l)] (s : σ) (ls ls' : List ℓ) :
    T.run ok s (ls ++ ls') = (T.run ok s ls).bind fun s' => T.run ok s' ls' := by
  induction ls generalizing s with
  | nil => rfl
  | cons l ls ih =>
      rw [List.cons_append, run, run]
      split
      · rw [Option.bind_assoc]
        congr 1
        funext s₁
        exact ih s₁
      · rfl

/-- The first step of a run that is not empty. -/
theorem run_cons {ok : σ → ℓ → Prop} [∀ s l, Decidable (ok s l)] {s s' : σ} {l : ℓ}
    {ls : List ℓ} (h : T.run ok s (l :: ls) = some s') :
    ok s l ∧ ∃ s₁, T.step s l = some s₁ ∧ T.run ok s₁ ls = some s' := by
  rw [run] at h
  split at h
  · next hok => exact ⟨hok, Option.bind_eq_some_iff.mp h⟩
  · cases h

/-- What every admitted step keeps, every run keeps. -/
theorem run_keeps {ok : σ → ℓ → Prop} [∀ s l, Decidable (ok s l)] {I : σ → Prop}
    (hkeep : ∀ s l s', I s → ok s l → T.step s l = some s' → I s') {ls : List ℓ} :
    ∀ {s s' : σ}, I s → T.run ok s ls = some s' → I s' := by
  induction ls with
  | nil =>
      intro s s' hs hrun
      exact Option.some.inj hrun ▸ hs
  | cons l ls ih =>
      intro s s' hs hrun
      obtain ⟨hok, s₁, hstep, hrest⟩ := run_cons hrun
      exact ih (hkeep s l s₁ hs hok hstep) hrest

namespace Variant

variable {ok : σ → ℓ → Prop} {I : σ → Prop} {m : σ → Nat} {price : ℓ → Nat}

/-- **RUNS ARE BOUNDED**: a run is paid for, step by step. -/
theorem length_le (h : Variant T I m price) [∀ s l, Decidable (ok s l)] {ls : List ℓ} :
    ∀ {s s' : σ}, I s → T.run ok s ls = some s' →
      ls.length + m s' ≤ m s + (ls.map price).sum := by
  induction ls with
  | nil =>
      intro s s' _ hrun
      cases Option.some.inj hrun
      simp
  | cons l ls ih =>
      intro s s' hs hrun
      obtain ⟨-, s₁, hstep, hrest⟩ := run_cons hrun
      have hlt := h.pays s l s₁ hs hstep
      have hle := ih (h.keeps s l s₁ hs hstep) hrest
      rw [List.length_cons, List.map_cons, List.sum_cons]
      omega

/-- Labels without a price make a run no longer than the variant. -/
theorem length_le_of_free (h : Variant T I m price) [∀ s l, Decidable (ok s l)]
    (hfree : ∀ s l, ok s l → price l = 0) {ls : List ℓ} :
    ∀ {s s' : σ}, I s → T.run ok s ls = some s' → ls.length + m s' ≤ m s := by
  intro s s' hs hrun
  have hzero : ∀ {ls : List ℓ} {s : σ}, T.run ok s ls = some s' → (ls.map price).sum = 0 := by
    intro ls
    induction ls with
    | nil => intro s _; rfl
    | cons l ls ih =>
        intro s hrun
        obtain ⟨hok, s₁, -, hrest⟩ := run_cons hrun
        rw [List.map_cons, List.sum_cons, hfree s l hok, ih hrest]
  have hle := h.length_le hs hrun
  rw [hzero hrun] at hle
  exact hle

/-- **REST IS REACHED**: from every state of `I`, by labels without a price. -/
theorem exists_rest (h : Variant T I m price) [∀ s l, Decidable (ok s l)]
    (hfree : ∀ s l, ok s l → price l = 0) {s : σ} (hs : I s) :
    ∃ ls s', T.run ok s ls = some s' ∧ T.AtRest ok s' := by
  induction hn : m s using Nat.strong_induction_on generalizing s with
  | _ n ih =>
      by_cases hrest : T.AtRest ok s
      · exact ⟨[], s, rfl, hrest⟩
      · obtain ⟨l, hok, hne⟩ : ∃ l, ok s l ∧ T.step s l ≠ none := by
          simpa [AtRest] using hrest
        obtain ⟨s₁, hstep⟩ := Option.ne_none_iff_exists'.mp hne
        have hlt := h.pays s l s₁ hs hstep
        rw [hfree s l hok, Nat.add_zero] at hlt
        obtain ⟨ls, s', hrun, hrest'⟩ := ih _ (hn ▸ hlt) (h.keeps s l s₁ hs hstep) rfl
        refine ⟨l :: ls, s', ?_, hrest'⟩
        rw [run, if_pos hok]
        exact Option.bind_eq_some_iff.mpr ⟨s₁, hstep, hrun⟩

/-- A run that has not come to rest can be carried on until it has. -/
theorem carried_on (h : Variant T I m price) [∀ s l, Decidable (ok s l)]
    (hfree : ∀ s l, ok s l → price l = 0) {s s₁ : σ} {ls : List ℓ} (hs : I s)
    (hrun : T.run ok s ls = some s₁) :
    ∃ ls' s', T.run ok s (ls ++ ls') = some s' ∧ T.AtRest ok s' := by
  have hs₁ := run_keeps (fun s l s' hi _ hstep => h.keeps s l s' hi hstep) hs hrun
  obtain ⟨ls', s', hrun', hrest⟩ := h.exists_rest hfree hs₁
  refine ⟨ls', s', ?_, hrest⟩
  rw [run_append, hrun]
  exact hrun'

end Variant

end WebLib.TransitionSystem
