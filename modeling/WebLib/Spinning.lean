import WebLib.Sending

/-! # A call that never ends

    The loop of `respond` has no limit on its rounds: a round in which `send`
    takes nothing, or would block on a socket that `poll` then reports ready, is
    repeated.  Every other round uses up a byte of a response or ends the loop,
    and a handler's program and the pages behind it have a bounded number of
    these.  So a call never ends on exactly those sockets that from some moment
    on, with a response not yet sent, make no progress. -/

namespace WebLib.Sending

open WebLib ByteString UnorderedMap HttpBinder HttpRouter

/-- A round that is not simply repeated. -/
def effective : SendOutcome → Bool
  | .accepted n => decide (0 < n)
  | .would_block ready => !ready
  | .failed => true

/-- The effective ones among these outcomes. -/
def effects (script : List SendOutcome) : Nat := script.countP effective

@[simp] theorem effects_nil : effects [] = 0 := rfl

theorem effects_append (script more : List SendOutcome) :
    effects (script ++ more) = effects script + effects more := List.countP_append

theorem effects_cons (outcome : SendOutcome) (script : List SendOutcome) :
    effects (outcome :: script) = effects script + if effective outcome then 1 else 0 :=
  List.countP_cons

/-- A run that is not over has used all outcomes, is not ended by one that is not
    effective, and ends, in one of finitely many ways, after a bounded number of
    those that are. -/
structure Paced (f : List SendOutcome → Run) : Prop where
  waits : ∀ script, (f script).ending = .running → (f script).rest = []
  spins : ∀ script outcome, effective outcome = false → (f script).ending = .running →
    (f (script ++ [outcome])).ending = .running
  endings : (Set.range fun script => (f script).ending).Finite
  spent : ∃ n, ∀ script, effects script ≤ n + effects (f script).rest

theorem paced_ends {e : Ending} (h : e ≠ .running) : Paced fun script => ⟨[], e, script⟩ where
  waits := fun _ he => absurd he h
  spins := fun _ _ _ he => absurd he h
  endings := Set.finite_range_const
  spent := ⟨0, fun script => by simp⟩

/-! ## `respond` -/

section

variable (response : Str)

theorem respond_loop_waits (script : List SendOutcome) :
    ∀ k, (respond_loop response k script).ending = .running →
      (respond_loop response k script).rest = [] := by
  induction script with
  | nil =>
      intro k _
      rw [respond_loop]
      split <;> rfl
  | cons outcome script ih =>
      intro k he
      by_cases h : k < response.length
      · cases outcome with
        | accepted n =>
            rw [respond_loop_accepted h] at he ⊢
            exact ih _ he
        | would_block ready =>
            cases ready with
            | false =>
                rw [respond_loop_lost h] at he
                cases he
            | true =>
                rw [respond_loop_ready h] at he ⊢
                exact ih k he
        | failed =>
            rw [respond_loop_failed h] at he
            cases he
      · rw [respond_loop_done (Nat.le_of_not_lt h)] at he
        cases he

/-- A round without effect at the end of a loop that is not over. -/
theorem respond_loop_spins {outcome : SendOutcome} (ho : effective outcome = false)
    (script : List SendOutcome) : ∀ k, (respond_loop response k script).ending = .running →
      (respond_loop response k (script ++ [outcome])).ending = .running := by
  induction script with
  | nil =>
      intro k he
      by_cases h : k < response.length
      · cases outcome with
        | accepted n =>
            obtain rfl : n = 0 := by simpa [effective] using ho
            rw [List.nil_append, respond_loop_accepted h]
            simpa using he
        | would_block ready =>
            obtain rfl : ready = true := by simpa [effective] using ho
            rw [List.nil_append, respond_loop_ready h]
            exact he
        | failed => cases ho
      · rw [respond_loop_done (Nat.le_of_not_lt h)] at he
        cases he
  | cons first script ih =>
      intro k he
      rw [List.cons_append]
      by_cases h : k < response.length
      · cases first with
        | accepted n =>
            rw [respond_loop_accepted h] at he ⊢
            exact ih _ he
        | would_block ready =>
            cases ready with
            | false =>
                rw [respond_loop_lost h] at he
                cases he
            | true =>
                rw [respond_loop_ready h] at he ⊢
                exact ih k he
        | failed =>
            rw [respond_loop_failed h] at he
            cases he
      · rw [respond_loop_done (Nat.le_of_not_lt h)] at he
        cases he

/-- Each effective round takes a byte of the response, but for the last one. -/
theorem respond_loop_spent (script : List SendOutcome) :
    ∀ k, effects script ≤ response.length - k + 1
      + effects (respond_loop response k script).rest := by
  induction script with
  | nil => intro k; exact Nat.zero_le _
  | cons outcome script ih =>
      intro k
      by_cases h : k < response.length
      · rw [effects_cons]
        cases outcome with
        | accepted n =>
            have hle := ih (k + min n (response.length - k))
            rw [respond_loop_accepted h]
            simp only [effective, decide_eq_true_eq]
            split <;> omega
        | would_block ready =>
            cases ready with
            | false =>
                rw [respond_loop_lost h]
                simp [effective]
            | true =>
                have hle := ih k
                rw [respond_loop_ready h]
                simpa [effective] using hle
        | failed =>
            rw [respond_loop_failed h]
            simp [effective]
      · rw [respond_loop_done (Nat.le_of_not_lt h)]
        exact Nat.le_add_left _ _

end

theorem respond_once_running {resp : HttpResponse} {script : List SendOutcome} :
    (respond_once resp script).ending = .running ↔ (respond resp script).ending = .running := by
  rw [respond_once]
  cases (respond resp script).ending <;> simp

theorem paced_respond_once (resp : HttpResponse) : Paced (respond_once resp) where
  waits := fun script he =>
    respond_loop_waits resp.to_string script 0 (respond_once_running.mp he)
  spins := fun script outcome ho he => respond_once_running.mpr
    (respond_loop_spins resp.to_string ho script 0 (respond_once_running.mp he))
  endings := by
    refine Set.Finite.subset
      (Set.toFinite {Ending.returned, .throws .writing_socket_error, .running}) ?_
    rintro e ⟨script, rfl⟩
    simp only [respond_once]
    cases (respond resp script).ending <;> simp
  spent := ⟨resp.to_string.length - 0 + 1, fun script =>
    respond_loop_spent resp.to_string script 0⟩

/-! ## One behind another -/

section

variable {f : List SendOutcome → Run} {next : Ending → Option (List SendOutcome → Run)}

/-- The ends of the first run, and those of what each of them calls for. -/
theorem endings_andThen (hf : (Set.range fun script => (f script).ending).Finite)
    (hnext : ∀ e g, next e = some g → (Set.range fun script => (g script).ending).Finite) :
    (Set.range fun script => ((f script).andThen next).ending).Finite := by
  let after : Ending → Set Ending := fun e =>
    {e' | ∃ g, next e = some g ∧ ∃ script, (g script).ending = e'}
  have hafter : ∀ e, (after e).Finite := by
    intro e
    cases h : next e with
    | none => exact Set.Finite.subset Set.finite_empty (by rintro e' ⟨g, hg, -⟩; simp [h] at hg)
    | some g =>
        refine (hnext e g h).subset ?_
        rintro e' ⟨g', hg', script, rfl⟩
        obtain rfl := Option.some.inj (h.symm.trans hg')
        exact ⟨script, rfl⟩
  refine Set.Finite.subset (hf.union (hf.biUnion fun e _ => hafter e)) ?_
  rintro e ⟨script, rfl⟩
  cases h : next (f script).ending with
  | none =>
      simp only [andThen_none h]
      exact Or.inl ⟨script, rfl⟩
  | some g =>
      simp only [andThen_some h]
      exact Or.inr (Set.mem_biUnion ⟨script, rfl⟩ ⟨g, h, (f script).rest, rfl⟩)

/-- The bound of the first run, and the greatest of those behind its ends. -/
theorem spent_andThen (hends : (Set.range fun script => (f script).ending).Finite)
    (hf : ∃ n, ∀ script, effects script ≤ n + effects (f script).rest)
    (hnext : ∀ e g, next e = some g →
      ∃ m, ∀ script, effects script ≤ m + effects (g script).rest) :
    ∃ n, ∀ script, effects script ≤ n + effects ((f script).andThen next).rest := by
  obtain ⟨n, hn⟩ := hf
  have hbound : ∀ e, ∃ m, ∀ g, next e = some g →
      ∀ script, effects script ≤ m + effects (g script).rest := by
    intro e
    cases h : next e with
    | none => exact ⟨0, fun g hg => by cases hg⟩
    | some g =>
        obtain ⟨m, hm⟩ := hnext e g h
        exact ⟨m, fun g' hg' => Option.some.inj hg' ▸ hm⟩
  choose m hm using hbound
  obtain ⟨top, htop⟩ := (hends.image m).bddAbove
  refine ⟨n + top, fun script => ?_⟩
  have hle := hn script
  cases h : next (f script).ending with
  | none =>
      rw [andThen_none h]
      omega
  | some g =>
      have hg := hm _ g h (f script).rest
      have hmax : m (f script).ending ≤ top := htop (Set.mem_image_of_mem m ⟨script, rfl⟩)
      rw [andThen_some h]
      simp only
      omega

theorem Paced.andThen (ho : Online f) (hf : Paced f) (hrunning : next .running = none)
    (hnext : ∀ e g, next e = some g → Paced g) :
    Paced fun script => (f script).andThen next where
  waits := by
    intro script he
    cases h : next (f script).ending with
    | none =>
        rw [andThen_none h] at he ⊢
        exact hf.waits script he
    | some g =>
        rw [andThen_some h] at he ⊢
        exact (hnext _ g h).waits _ he
  spins := by
    intro script outcome heff he
    cases h : next (f script).ending with
    | none =>
        rw [andThen_none h] at he
        have hspins := hf.spins script outcome heff he
        rw [andThen_none (hspins ▸ hrunning)]
        exact hspins
    | some g =>
        have hne : (f script).ending ≠ .running := by
          intro hend
          rw [hend, hrunning] at h
          cases h
        have hfeed : next ((f script).feed [outcome]).ending = some g := h
        rw [andThen_some h] at he
        rw [ho.ended script [outcome] hne, andThen_some hfeed]
        exact (hnext _ g h).spins _ outcome heff he
  endings := endings_andThen hf.endings fun e g hg => (hnext e g hg).endings
  spent := spent_andThen hf.endings hf.spent fun e g hg => (hnext e g hg).spent

end

theorem Sequential.paced {f : List SendOutcome → Run} (h : Sequential f) : Paced f := by
  induction h with
  | ends e hne => exact paced_ends hne
  | respond resp => exact paced_respond_once resp
  | andThen hf hrunning hnext ihf ihnext => exact .andThen hf.online ihf hrunning ihnext

/-! ## Outcomes without end -/

/-- The first `n` of the outcomes. -/
def first (outcomes : Nat → SendOutcome) (n : Nat) : List SendOutcome :=
  (List.range n).map outcomes

theorem first_succ (outcomes : Nat → SendOutcome) (n : Nat) :
    first outcomes (n + 1) = first outcomes n ++ [outcomes n] := by
  rw [first, List.range_succ, List.map_append]
  rfl

theorem first_add (outcomes : Nat → SendOutcome) (n k : Nat) :
    ∃ more, first outcomes (n + k) = first outcomes n ++ more := by
  rw [first, List.range_add, List.map_append]
  exact ⟨_, rfl⟩

/-- With no end of effective outcomes there are as many as one likes. -/
theorem exists_effects {outcomes : Nat → SendOutcome}
    (h : ∀ N, ∃ i ≥ N, effective (outcomes i) = true) (k : Nat) :
    ∃ n, k ≤ effects (first outcomes n) := by
  induction k with
  | zero => exact ⟨0, Nat.zero_le _⟩
  | succ k ih =>
      obtain ⟨n, hn⟩ := ih
      obtain ⟨i, hi, heff⟩ := h n
      obtain ⟨d, rfl⟩ := Nat.exists_eq_add_of_le hi
      obtain ⟨more, hmore⟩ := first_add outcomes n d
      refine ⟨n + d + 1, ?_⟩
      rw [first_succ, hmore, effects_append, effects_append, effects_cons, heff, if_pos rfl,
        effects_nil]
      omega

/-- A run never ends when it waits on a socket that makes no progress, and only
    then. -/
theorem Sequential.never_ends {f : List SendOutcome → Run} (h : Sequential f)
    (outcomes : Nat → SendOutcome) : (∀ n, (f (first outcomes n)).ending = .running)
      ↔ ∃ N, (f (first outcomes N)).ending = .running
          ∧ ∀ i ≥ N, effective (outcomes i) = false := by
  constructor
  · intro hrun
    obtain ⟨top, htop⟩ := h.paced.spent
    by_contra hnot
    have hmore : ∀ N, ∃ i ≥ N, effective (outcomes i) = true := by
      intro N
      by_contra hN
      refine hnot ⟨N, hrun N, fun i hi => ?_⟩
      rw [← Bool.not_eq_true]
      exact fun heff => hN ⟨i, hi, heff⟩
    obtain ⟨n, hn⟩ := exists_effects hmore (top + 1)
    have hle := htop (first outcomes n)
    rw [h.paced.waits _ (hrun n), effects_nil] at hle
    omega
  · rintro ⟨N, hN, hidle⟩ n
    rcases Nat.le_total n N with hle | hle
    · -- before: what ended would have stayed so
      obtain ⟨d, rfl⟩ := Nat.exists_eq_add_of_le hle
      obtain ⟨more, hmore⟩ := first_add outcomes n d
      by_contra hne
      rw [hmore, h.online.ended _ more hne] at hN
      exact hne hN
    · obtain ⟨d, rfl⟩ := Nat.exists_eq_add_of_le hle
      induction d with
      | zero => exact hN
      | succ d ih =>
          rw [← Nat.add_assoc, first_succ]
          exact h.paced.spins _ _ (hidle _ (Nat.le_add_right N d)) (ih (Nat.le_add_right N d))

variable {Handler Filter : Type} (platform : Platform) (user : UserCode Handler Filter)

/-- **A CALL NEVER ENDS** exactly when from some moment on it waits for its socket
    and the socket makes no progress: whatever user code and routes there are, and
    whatever the request. -/
theorem never_ends_iff (m_handles : Handles Handler Filter) (raw_http : Str)
    (outcomes : Nat → SendOutcome) :
    (∀ n, (process_request platform user m_handles raw_http (first outcomes n)).ending = .running)
      ↔ ∃ N, (process_request platform user m_handles raw_http (first outcomes N)).ending = .running
          ∧ ∀ i ≥ N, effective (outcomes i) = false :=
  (sequential_process_request platform user m_handles raw_http).never_ends outcomes

end WebLib.Sending
