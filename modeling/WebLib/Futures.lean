import WebLib.ThreadPool

/-! # Futures of enqueued tasks

    `ThreadPool::enqueue` wraps a callable and its promise into a task.  The pool
    of `WebLib.ThreadPool` runs here with such tasks: the shared state of each
    promise goes by the task's ticket, the environment chooses how a call of a
    callable ends, and a promise is destroyed with its task: at the end of the
    worker's loop body, by `clear`, or with `m_tasks`.

    The wrapper of a callable that returns `void` calls it and leaves the promise
    alone when it returns, so the end of the loop body breaks the promise. -/

namespace WebLib.Pool.Futures

open WebLib

universe u v

variable {R : Type u} {E : Type v}

/-! ## Promises -/

/-- The shared state of a promise: `ready none` is what `set_value()` stores for
    `void`. -/
inductive SharedState (R : Type u) (E : Type v) where
  | empty
  | ready (value : Option R)
  | exception (e : E)
  | broken_promise
deriving DecidableEq, Repr

/-- `set_value` and `set_exception`; none: `promise_already_satisfied`. -/
def SharedState.set (st new : SharedState R E) : Option (SharedState R E) :=
  match st with
  | .empty => some new
  | _ => none

/-- `~promise`. -/
def SharedState.abandon : SharedState R E → SharedState R E
  | .empty => .broken_promise
  | st => st

/-! ## Tasks -/

/-- What `enqueue_task` is given: the lambda of `enqueue`, for a `ReturnT` that
    is `void` or not, or the one of `enqueue_detach`, which has no promise. -/
inductive Job where
  | enqueue (is_void : Bool)
  | enqueue_detach
deriving DecidableEq, Repr

/-- The lambda holds a promise. -/
def Job.has_promise : Job → Bool
  | .enqueue _ => true
  | .enqueue_detach => false

/-- How `std::invoke(function, args...)` ends.  Moving a value into the shared
    state may itself throw. -/
inductive Outcome (R : Type u) (E : Type v) where
  | returned_void
  | returned (value : R) (moving : Option E)
  | threw (e : E)
deriving DecidableEq, Repr

/-- An outcome the return type allows. -/
def Outcome.fits : Outcome R E → Job → Bool
  | .returned_void, .enqueue is_void => is_void
  | .returned _ _, .enqueue is_void => !is_void
  | _, _ => true

/-- What the future is to hold. -/
def Outcome.result : Outcome R E → SharedState R E
  | .returned_void => .ready none
  | .returned value _ => .ready (some value)
  | .threw e => .exception e

/-- The lambda of `enqueue`: the shared state it leaves and how often it stored
    into it.  A `promise_already_satisfied` would be thrown by the catch clause
    too, and leave the task. -/
def run_lambda (st : SharedState R E) : Outcome R E → Option (SharedState R E × Nat)
  -- `std::invoke(function, args...)` and nothing after it
  | .returned_void => some (st, 0)
  | .returned value none => (st.set (.ready (some value))).map fun st' => (st', 1)
  | .returned _ (some e) | .threw e => (st.set (.exception e)).map fun st' => (st', 1)

/-! ## The pool with its futures -/

/-- The pool, the shared states by ticket, and for the history the calls that
    ended and how often each promise was satisfied. -/
structure State (R : Type u) (E : Type v) extends ThreadPool Job where
  futures : Nat → SharedState R E
  calls : List (Task Job × Outcome R E)
  satisfied : Nat → Nat

inductive Action (R : Type u) (E : Type v) where
  | enqueue_task (job : Job)
  | check_and_pop (i : Nat)
  | finish (i : Nat) (o : Outcome R E)
  | clear
  | shutdown
  | destroy_tasks
deriving DecidableEq, Repr

/-- The pool moved on and destroyed no promise: what `pop_front` destroys has
    been moved from. -/
def State.with_pool (s : State R E) (p : ThreadPool Job) : State R E :=
  { s with toThreadPool := p }

/-- The task worker `i` is at. -/
def State.running_at (s : State R E) (i : Nat) : Option (Task Job) :=
  match s.m_workers[i]? with
  | some (.running t) => some t
  | _ => none

/-- A queued task holds this promise. -/
def State.Queued (s : State R E) (ticket : Nat) : Prop :=
  ∃ t ∈ s.m_tasks, t.ticket = ticket ∧ t.task.has_promise = true

instance (s : State R E) (ticket : Nat) : Decidable (s.Queued ticket) :=
  inferInstanceAs (Decidable (∃ t ∈ s.m_tasks, _))

/-- The tasks of the deque are destroyed, and their promises with them. -/
def State.drop_tasks (s : State R E) : State R E :=
  { s with
    toShared := s.toShared.clear
    futures := fun k => if s.Queued k then (s.futures k).abandon else s.futures k }

/-- `task()` on worker `i`, and the end of its loop body, where `task` is
    destroyed. -/
def State.run_task (s : State R E) (i : Nat) (t : Task Job) (o : Outcome R E) :
    Option (State R E) :=
  let s' := { s with
    m_workers := s.m_workers.set i .waiting
    calls := s.calls ++ [(t, o)] }
  match t.task with
  | .enqueue _ =>
      (run_lambda (s.futures t.ticket) o).map fun (st, n) => { s' with
        futures := Function.update s.futures t.ticket st.abandon
        satisfied := Function.update s.satisfied t.ticket (s.satisfied t.ticket + n) }
  -- what this lambda lets out is no matter of futures
  | .enqueue_detach => some s'

def step (s : State R E) : Action R E → Option (State R E)
  | .enqueue_task job => (Pool.step s.toThreadPool (.enqueue_task job)).map s.with_pool
  | .check_and_pop i => (Pool.step s.toThreadPool (.check_and_pop i)).map s.with_pool
  | .finish i o =>
      (s.running_at i).bind fun t => if o.fits t.task then s.run_task i t o else none
  | .clear => some s.drop_tasks
  | .shutdown => (Pool.step s.toThreadPool .shutdown).map s.with_pool
  -- the destructor has stored the flag before the members are destroyed
  | .destroy_tasks => if s.m_should_work then none else some s.drop_tasks

/-- A new pool. -/
def init (threads_count : Nat) : State R E :=
  { toThreadPool := Pool.init threads_count
    futures := fun _ => .empty
    calls := []
    satisfied := fun _ => 0 }

def futures (R : Type u) (E : Type v) : TransitionSystem (State R E) (Action R E) where
  init s := ∃ threads_count, s = init threads_count
  step := step

/-! ## What the futures are to hold -/

/-- A call whose result reaches the shared state: it ended with an exception, or
    with a value that could be moved there. -/
def Outcome.Delivered : Outcome R E → Prop
  | .returned_void | .returned _ (some _) => False
  | .returned _ none | .threw _ => True

instance (o : Outcome R E) : Decidable o.Delivered :=
  match o with
  | .returned_void | .returned _ (some _) => .isFalse id
  | .returned _ none | .threw _ => .isTrue trivial

/-- The steps in which no callable of `enqueue` returns `void`, and every value
    is moved. -/
def Delivers (s : State R E) : Action R E → Prop
  | .finish i o => ∀ t ∈ s.running_at i, t.task.has_promise = true → o.Delivered
  | _ => True

instance (s : State R E) : ∀ a, Decidable (Delivers s a)
  | .finish i o =>
      inferInstanceAs (Decidable (∀ t ∈ s.running_at i, t.task.has_promise = true → o.Delivered))
  | .enqueue_task _ | .check_and_pop _ | .clear | .shutdown | .destroy_tasks => .isTrue trivial

/-- Nothing was stored and the promise is alive. -/
def State.Untouched (s : State R E) (ticket : Nat) : Prop :=
  s.futures ticket = .empty ∧ s.satisfied ticket = 0

/-- No task is run with its promise satisfied already; every future holds what
    its task's call ended with, stored once; a promise is broken only for a task
    that was discarded and never started. -/
structure Carried (s : State R E) : Prop where
  running : ∀ (i : Nat) (t : Task Job), s.m_workers[i]? = some (.running t) →
    s.Untouched t.ticket
  result : ∀ t o, (t, o) ∈ s.calls → t.task.has_promise = true →
    s.futures t.ticket = o.result ∧ s.satisfied t.ticket = 1
  broken : ∀ t ∈ s.enqueued, t.task.has_promise = true → s.futures t.ticket = .broken_promise →
    t ∈ s.discarded ∧ t ∉ s.started

/-! ## What a step does -/

theorem running_at_eq {s : State R E} {i : Nat} {t : Task Job} :
    s.running_at i = some t ↔ s.m_workers[i]? = some (.running t) := by
  rw [State.running_at]
  split
  · next u hu => simp [hu]
  · next hu => exact iff_of_false (by simp) (hu t)

/-- The lambda stores the outcome into an empty state once, if it is one that is
    delivered. -/
theorem run_lambda_empty {o : Outcome R E} (h : o.Delivered) :
    run_lambda .empty o = some (o.result, 1) := by
  cases o with
  | returned_void => cases h
  | returned value moving =>
      cases moving with
      | none => rfl
      | some e => cases h
  | threw e => rfl

/-- What is stored is not broken by the promise's destruction. -/
theorem abandon_result (o : Outcome R E) : o.result.abandon = (o.result : SharedState R E) := by
  cases o <;> rfl

/-- A step that leaves a promise alone. -/
def SamePromise (s s' : State R E) (ticket : Nat) : Prop :=
  s'.futures ticket = s.futures ticket ∧ s'.satisfied ticket = s.satisfied ticket

theorem SamePromise.untouched {s s' : State R E} {k : Nat} (h : SamePromise s s' k)
    (hu : s.Untouched k) : s'.Untouched k := ⟨h.1.trans hu.1, h.2.trans hu.2⟩

/-- A task of the pool ran to its end: what changed for its ticket. -/
structure Ran (s s' : State R E) (i : Nat) (t : Task Job) (o : Outcome R E) : Prop where
  running : s.m_workers[i]? = some (.running t)
  pool : s'.toThreadPool = { s.toThreadPool with m_workers := s.m_workers.set i .waiting }
  calls : s'.calls = s.calls ++ [(t, o)]
  others : ∀ k, k ≠ t.ticket → SamePromise s s' k
  own : t.task.has_promise = true → ∃ st n, run_lambda (s.futures t.ticket) o = some (st, n)
    ∧ s'.futures t.ticket = st.abandon ∧ s'.satisfied t.ticket = s.satisfied t.ticket + n

theorem finish_ran {s s' : State R E} {i : Nat} {o : Outcome R E}
    (h : step s (.finish i o) = some s') : ∃ t, Ran s s' i t o := by
  obtain ⟨t, hrun, h⟩ := Option.bind_eq_some_iff.mp h
  have hi := running_at_eq.mp hrun
  split at h
  · rw [State.run_task] at h
    cases ht : t.task with
    | enqueue is_void =>
        simp only [ht] at h
        obtain ⟨⟨st, n⟩, hst, rfl⟩ := Option.map_eq_some_iff.mp h
        refine ⟨t, hi, rfl, rfl, ?_, fun _ => ⟨st, n, hst, ?_, ?_⟩⟩
        · intro k hk
          exact ⟨Function.update_of_ne hk _ _, Function.update_of_ne hk _ _⟩
        · exact Function.update_self _ _ _
        · exact Function.update_self _ _ _
    | enqueue_detach =>
        simp only [ht] at h
        cases h
        exact ⟨t, hi, rfl, rfl, fun _ _ => ⟨rfl, rfl⟩, by simp [ht, Job.has_promise]⟩
  · cases h

namespace Ran

variable {s s' : State R E} {i : Nat} {t : Task Job} {o : Outcome R E}

theorem shared (h : Ran s s' i t o) : s'.toShared = s.toShared := by rw [h.pool]

/-- The other workers are where they were. -/
theorem running_iff (h : Ran s s' i t o) (j : Nat) (u : Task Job) :
    s'.m_workers[j]? = some (.running u) ↔ j ≠ i ∧ s.m_workers[j]? = some (.running u) := by
  rw [h.pool]
  show (s.m_workers.set i .waiting)[j]? = _ ↔ _
  rw [getElem?_set_of_some h.running]
  by_cases hj : j = i
  · simp [hj]
  · simp [hj]

theorem mem_calls (h : Ran s s' i t o) {u : Task Job} {o' : Outcome R E} :
    (u, o') ∈ s'.calls ↔ (u, o') ∈ s.calls ∨ u = t ∧ o' = o := by
  rw [h.calls, List.mem_append, List.mem_singleton, Prod.mk.injEq]

/-- A ticket names one task, so another task's promise is another one. -/
theorem others_of_ne (h : Ran s s' i t o) (hc : s.toShared.Conserved) (ht : t ∈ s.enqueued)
    {u : Task Job} (hu : u ∈ s.enqueued) (hut : u ≠ t) : SamePromise s s' u.ticket :=
  h.others _ fun heq => hut (hc.ticket_inj hu ht heq)

end Ran

/-- Every step is one of the pool's. -/
theorem step_pool {s s' : State R E} {a : Action R E} (h : step s a = some s') :
    ∃ b, Pool.step s.toThreadPool b = some s'.toThreadPool := by
  cases a with
  | enqueue_task job => cases h; exact ⟨.enqueue_task job, rfl⟩
  | check_and_pop i =>
      obtain ⟨p, hp, rfl⟩ := Option.map_eq_some_iff.mp h
      exact ⟨_, hp⟩
  | finish i o =>
      obtain ⟨t, hran⟩ := finish_ran h
      refine ⟨.finish i, ?_⟩
      simp only [Pool.step, hran.running, hran.pool]
  | clear => cases h; exact ⟨.clear, rfl⟩
  | shutdown => cases h; exact ⟨.shutdown, rfl⟩
  | destroy_tasks =>
      simp only [step] at h
      split at h
      · cases h
      · cases h
        exact ⟨.clear, rfl⟩

/-- The pool under the futures is a pool. -/
theorem pool_reachable {ok : State R E → Action R E → Prop} {s : State R E}
    (h : (futures R E).Reach ok s) : (pool Job).Reachable s.toThreadPool := by
  induction h with
  | init h0 =>
      obtain ⟨n, rfl⟩ := h0
      exact .init ⟨n, rfl⟩
  | step _ _ hs ih =>
      obtain ⟨b, hb⟩ := step_pool hs
      exact .step ih trivial hb

/-! ## The invariant -/

/-- Until its call ends nobody touches a task's promise; then it holds the
    result, and the task is over. -/
structure Inv (s : State R E) : Prop where
  fresh : ∀ k, s.enqueued.length ≤ k → s.Untouched k
  queued : ∀ t ∈ s.m_tasks, s.Untouched t.ticket
  running : ∀ (i : Nat) (t : Task Job), s.m_workers[i]? = some (.running t) → s.Untouched t.ticket
  ended : ∀ t o, (t, o) ∈ s.calls → t.task.has_promise = true →
    s.futures t.ticket = o.result ∧ s.satisfied t.ticket = 1
  past : ∀ t o, (t, o) ∈ s.calls →
    t ∈ s.started ∧ ∀ i : Nat, s.m_workers[i]? ≠ some (.running t)
  started : ∀ t ∈ s.started,
    (∃ i : Nat, s.m_workers[i]? = some (.running t)) ∨ ∃ o, (t, o) ∈ s.calls

namespace Inv

variable {s s' : State R E}

theorem enqueue_task (h : Inv s) (job : Job) :
    Inv (s.with_pool { s.toThreadPool with toShared := s.toShared.push_back job }) where
  fresh := by
    intro k hk
    refine h.fresh k (Nat.le_trans (Nat.le_succ _) ?_)
    simpa [State.with_pool, Shared.push_back] using hk
  queued := by
    intro t ht
    rcases List.mem_append.mp ht with hold | hnew
    · exact h.queued t hold
    · rw [List.mem_singleton.mp hnew]
      exact h.fresh _ (Nat.le_refl _)
  running := h.running
  ended := h.ended
  past := h.past
  started := h.started

/-- A worker returned. -/
theorem leave (h : Inv s) {i : Nat} (hi : s.m_workers[i]? = some .waiting) :
    Inv (s.with_pool { s.toThreadPool with m_workers := s.m_workers.set i .returned }) := by
  have hrun : ∀ (j : Nat) (t : Task Job),
      (s.m_workers.set i .returned)[j]? = some (.running t)
        ↔ s.m_workers[j]? = some (.running t) := by
    intro j t
    rw [getElem?_set_of_some hi]
    by_cases hj : j = i
    · simp [hj, hi]
    · rw [if_neg hj]
  refine ⟨h.fresh, h.queued, ?_, h.ended, ?_, ?_⟩
  · intro j t hj
    exact h.running j t ((hrun j t).mp hj)
  · intro t o ht
    exact ⟨(h.past t o ht).1, fun j hj => (h.past t o ht).2 j ((hrun j t).mp hj)⟩
  · intro t ht
    rcases h.started t ht with ⟨j, hj⟩ | hcall
    · exact Or.inl ⟨j, (hrun j t).mpr hj⟩
    · exact Or.inr hcall

/-- A worker took the front task. -/
theorem pop (h : Inv s) (hc : s.toShared.Conserved) {i : Nat} {t : Task Job}
    {rest : List (Task Job)} (hi : s.m_workers[i]? = some .waiting) (hq : s.m_tasks = t :: rest) :
    Inv (s.with_pool { s.toThreadPool with
      m_tasks := rest
      started := s.started ++ [t]
      m_workers := s.m_workers.set i (.running t) }) := by
  have htq : t ∈ s.m_tasks := by simp [hq]
  have hrun : ∀ (j : Nat) (u : Task Job),
      (s.m_workers.set i (.running t))[j]? = some (.running u)
        ↔ (j = i ∧ u = t) ∨ s.m_workers[j]? = some (.running u) := by
    intro j u
    rw [getElem?_set_of_some hi]
    by_cases hj : j = i
    · simp [hj, hi, eq_comm]
    · simp [hj]
  refine ⟨h.fresh, ?_, ?_, h.ended, ?_, ?_⟩
  · intro u hu
    exact h.queued u (by rw [hq]; exact List.mem_cons_of_mem _ hu)
  · intro j u hj
    rcases (hrun j u).mp hj with ⟨-, rfl⟩ | hold
    · exact h.queued u htq
    · exact h.running j u hold
  · intro u o hu
    obtain ⟨hs, hout⟩ := h.past u o hu
    refine ⟨List.mem_append_left _ hs, ?_⟩
    intro j hj
    rcases (hrun j u).mp hj with ⟨-, rfl⟩ | hold
    · exact hc.not_started_of_queued htq hs
    · exact hout j hold
  · intro u hu
    rcases List.mem_append.mp hu with hold | hnew
    · rcases h.started u hold with ⟨j, hj⟩ | hcall
      · exact Or.inl ⟨j, (hrun j u).mpr (Or.inr hj)⟩
      · exact Or.inr hcall
    · exact Or.inl ⟨i, (hrun i u).mpr (Or.inl ⟨rfl, List.mem_singleton.mp hnew⟩)⟩

/-- The queued tasks were destroyed. -/
theorem drop_tasks (h : Inv s) (hc : s.toShared.Conserved) (he : Exclusive s.toThreadPool) :
    Inv s.drop_tasks := by
  have hfuture : ∀ k, (∀ t ∈ s.m_tasks, t.ticket ≠ k) → s.drop_tasks.futures k = s.futures k := by
    intro k hk
    refine if_neg ?_
    rintro ⟨t, ht, htk, -⟩
    exact hk t ht htk
  have hkeep : ∀ t ∈ s.started, s.drop_tasks.futures t.ticket = s.futures t.ticket := by
    intro t ht
    refine hfuture _ ?_
    intro u hu htu
    have heq := hc.ticket_inj (hc.mem_of_queued hu) (hc.mem_of_started ht) htu
    exact hc.not_started_of_queued hu (heq ▸ ht)
  refine ⟨?_, ?_, ?_, ?_, h.past, h.started⟩
  · intro k hk
    refine ⟨?_, (h.fresh k hk).2⟩
    rw [hfuture k, (h.fresh k hk).1]
    intro t ht htk
    have hlt := hc.ticket_lt (hc.mem_of_queued ht)
    rw [htk] at hlt
    exact absurd hk (Nat.not_le.mpr hlt)
  · intro t ht
    cases ht
  · intro i t hi
    refine ⟨?_, (h.running i t hi).2⟩
    rw [hkeep t (he.started i t hi), (h.running i t hi).1]
  · intro t o ht hp
    refine ⟨?_, (h.ended t o ht hp).2⟩
    rw [hkeep t (h.past t o ht).1, (h.ended t o ht hp).1]

/-- A call ended with an outcome that is delivered. -/
theorem finish (h : Inv s) (hc : s.toShared.Conserved) (he : Exclusive s.toThreadPool) {i : Nat}
    {t : Task Job} {o : Outcome R E} (hr : Ran s s' i t o)
    (hd : t.task.has_promise = true → o.Delivered) : Inv s' := by
  have hts := he.started i t hr.running
  have hsame : ∀ u ∈ s.enqueued, u ≠ t → s.Untouched u.ticket → s'.Untouched u.ticket :=
    fun u hu hut => (hr.others_of_ne hc (hc.mem_of_started hts) hu hut).untouched
  refine ⟨?_, ?_, ?_, ?_, ?_, ?_⟩
  · intro k hk
    rw [hr.shared] at hk
    have hne : k ≠ t.ticket := fun heq =>
      absurd (hc.ticket_lt (hc.mem_of_started hts)) (Nat.not_lt.mpr (heq ▸ hk))
    exact (hr.others k hne).untouched (h.fresh k hk)
  · intro u hu
    rw [hr.shared] at hu
    refine hsame u (hc.mem_of_queued hu) ?_ (h.queued u hu)
    rintro rfl
    exact hc.not_started_of_queued hu hts
  · intro j u hj
    obtain ⟨hji, hj'⟩ := (hr.running_iff j u).mp hj
    refine hsame u (hc.mem_of_started (he.started j u hj')) ?_ (h.running j u hj')
    rintro rfl
    exact hji (he.alone j i u hj' hr.running)
  · intro u o' hu hp
    rcases hr.mem_calls.mp hu with hold | ⟨rfl, rfl⟩
    · obtain ⟨hs, hout⟩ := h.past u o' hold
      have hut : u ≠ t := fun heq => hout i (heq ▸ hr.running)
      obtain ⟨hf, hn⟩ := hr.others_of_ne hc (hc.mem_of_started hts) (hc.mem_of_started hs) hut
      rw [hf, hn]
      exact h.ended u o' hold hp
    · obtain ⟨hempty, hzero⟩ := h.running i u hr.running
      obtain ⟨st, n, hst, hf, hn⟩ := hr.own hp
      rw [hempty, run_lambda_empty (hd hp)] at hst
      cases hst
      exact ⟨hf.trans (abandon_result o'), by rw [hn, hzero]⟩
  · intro u o' hu
    rw [hr.shared]
    rcases hr.mem_calls.mp hu with hold | ⟨rfl, rfl⟩
    · obtain ⟨hs, hout⟩ := h.past u o' hold
      exact ⟨hs, fun j hj => hout j ((hr.running_iff j u).mp hj).2⟩
    · refine ⟨hts, ?_⟩
      intro j hj
      obtain ⟨hji, hj'⟩ := (hr.running_iff j u).mp hj
      exact hji (he.alone j i u hj' hr.running)
  · intro u hu
    rw [hr.shared] at hu
    by_cases hut : u = t
    · exact Or.inr ⟨o, hr.mem_calls.mpr (Or.inr ⟨hut, rfl⟩)⟩
    · rcases h.started u hu with ⟨j, hj⟩ | ⟨o', ho'⟩
      · refine Or.inl ⟨j, (hr.running_iff j u).mpr ⟨?_, hj⟩⟩
        rintro rfl
        rw [hr.running] at hj
        cases hj
        exact hut rfl
      · exact Or.inr ⟨o', hr.mem_calls.mpr (Or.inl ho')⟩

theorem init (threads_count : Nat) : Inv (Futures.init threads_count : State R E) where
  fresh := fun _ _ => ⟨rfl, rfl⟩
  queued := fun _ _ => ⟨rfl, rfl⟩
  running := fun _ _ _ => ⟨rfl, rfl⟩
  ended := by intro t o ht; cases ht
  past := by intro t o ht; cases ht
  started := by intro t ht; cases ht

/-- Every step that delivers keeps the invariant. -/
theorem step (h : Inv s) (hc : s.toShared.Conserved) (he : Exclusive s.toThreadPool)
    {a : Action R E} (hok : Delivers s a) (hs : Futures.step s a = some s') : Inv s' := by
  cases a with
  | enqueue_task job => cases hs; exact h.enqueue_task job
  | check_and_pop i =>
      obtain ⟨p, hp, rfl⟩ := Option.map_eq_some_iff.mp hs
      obtain ⟨hi, rfl | ⟨t, rest, hq, rfl⟩⟩ := step_check_and_pop hp
      · exact h.leave hi
      · exact h.pop hc hi hq
  | finish i o =>
      obtain ⟨t, hran⟩ := finish_ran hs
      exact h.finish hc he hran (hok t (running_at_eq.mpr hran.running))
  | clear => cases hs; exact h.drop_tasks hc he
  | shutdown => cases hs; exact ⟨h.fresh, h.queued, h.running, h.ended, h.past, h.started⟩
  | destroy_tasks =>
      simp only [Futures.step] at hs
      split at hs
      · cases hs
      · cases hs
        exact h.drop_tasks hc he

/-- A broken promise belongs to a task that is neither queued nor started. -/
theorem carried (h : Inv s) (hc : s.toShared.Conserved) : Carried s where
  running := h.running
  result := h.ended
  broken := by
    intro t ht hp hb
    have hnotempty : ¬ s.Untouched t.ticket := by
      intro hu
      rw [hu.1] at hb
      cases hb
    rcases hc.in_one_place ht with ⟨hq, -, -⟩ | ⟨hs, -, -⟩ | ⟨hd, -, hs⟩
    · exact absurd (h.queued t hq) hnotempty
    · rcases h.started t hs with ⟨i, hi⟩ | ⟨o, ho⟩
      · exact absurd (h.running i t hi) hnotempty
      · rw [(h.ended t o ho hp).1] at hb
        cases o <;> cases hb
    · exact ⟨hd, hs⟩

end Inv

theorem reach_inv {s : State R E} (h : (futures R E).Reach Delivers s) : Inv s := by
  refine h.invariant_of (J := fun s => s.toShared.Conserved ∧ Exclusive s.toThreadPool) ?_ ?_ ?_
  · intro s hr
    exact ⟨reach_conserved (pool_reachable hr), reach_exclusive (pool_reachable hr)⟩
  · rintro s ⟨n, rfl⟩
    exact Inv.init n
  · rintro s a s' ⟨hc, he⟩ hinv hok hs
    exact hinv.step hc he hok hs

/-- A call that is not delivered leaves its future without its result. -/
theorem not_carried_of_finish {s s' : State R E} (h : Inv s) {i : Nat} {t : Task Job}
    {o : Outcome R E} (hr : Ran s s' i t o) (hp : t.task.has_promise = true)
    (hd : ¬ o.Delivered) : ¬ Carried s' := by
  intro hcar
  obtain ⟨st, n, hst, hf, -⟩ := hr.own hp
  have hres := (hcar.result t o (by rw [hr.calls]; simp) hp).1
  rw [(h.running i t hr.running).1] at hst
  rw [hf] at hres
  cases o with
  | returned_void => cases hst; cases hres
  | returned value moving =>
      cases moving with
      | none => exact hd trivial
      | some e => cases hst; cases hres
  | threw e => exact hd trivial

/-- **FUTURES CARRY WHAT IS DELIVERED**: in every run in which no callable that
    `enqueue` was given returns `void`, and every value is moved, every future
    holds its task's outcome, stored once, and a broken promise is that of a
    discarded task; and the first call that is not delivered ends this. -/
theorem futures_carried {s : State R E} (h : (futures R E).Reach Delivers s) :
    Carried s ∧ ∀ a s', step s a = some s' → ¬ Delivers s a → ¬ Carried s' := by
  have hinv := reach_inv h
  refine ⟨hinv.carried (reach_conserved (pool_reachable h)), ?_⟩
  intro a s' hs hnot
  cases a with
  | finish i o =>
      obtain ⟨t, hran⟩ := finish_ran hs
      have hbad : ∃ u ∈ s.running_at i, u.task.has_promise = true ∧ ¬ o.Delivered := by
        by_contra hall
        refine hnot ?_
        intro u hu hp
        by_contra hd
        exact hall ⟨u, hu, hp, hd⟩
      obtain ⟨u, hu, hp, hd⟩ := hbad
      rw [running_at_eq.mpr hran.running] at hu
      cases hu
      exact not_carried_of_finish hinv hran hp hd
  | enqueue_task | check_and_pop | clear | shutdown | destroy_tasks => exact absurd trivial hnot

/-- One task returns a value, one throws, one is discarded. -/
theorem three_carried : ∃ s : State Nat Nat, s.futures 0 = .ready (some 7)
    ∧ s.futures 1 = .exception 3 ∧ s.futures 2 = .broken_promise ∧ Carried s := by
  have h0 : (futures Nat Nat).Reach Delivers (init 2) := .init ⟨2, rfl⟩
  obtain ⟨s, hs, h⟩ := h0.exists_of_run
    (fun s => s.futures 0 = .ready (some 7) ∧ s.futures 1 = .exception 3
      ∧ s.futures 2 = .broken_promise)
    [.enqueue_task (.enqueue false), .enqueue_task (.enqueue true), .check_and_pop 0,
      .check_and_pop 1, .enqueue_task (.enqueue false), .finish 1 (.threw 3), .clear, .shutdown,
      .finish 0 (.returned 7 none)]
    (by decide)
  exact ⟨s, h.1, h.2.1, h.2.2, (futures_carried hs).1⟩

/-- A callable returns `void`: its work is done, and its promise is broken. -/
theorem void_is_broken : ∃ s : State Nat Nat, (futures Nat Nat).Reachable s
    ∧ (⟨0, .enqueue true⟩, .returned_void) ∈ s.calls ∧ s.futures 0 = .broken_promise
    ∧ ¬ Carried s := by
  have h0 : (futures Nat Nat).Reachable (init 1) := .init ⟨1, rfl⟩
  obtain ⟨s, hs, hcall, hbroken⟩ := h0.exists_of_run
    (fun s => (⟨0, .enqueue true⟩, .returned_void) ∈ s.calls ∧ s.futures 0 = .broken_promise)
    [.enqueue_task (.enqueue true), .check_and_pop 0, .finish 0 .returned_void]
    (by decide)
  refine ⟨s, hs, hcall, hbroken, ?_⟩
  intro hcar
  have hres := (hcar.result _ _ hcall rfl).1
  rw [hbroken] at hres
  cases hres

end WebLib.Pool.Futures
