import WebLib.Shutdown
import WebLib.Variant
import WebLib.Wakeups

/-! # The pool comes to rest

    Every step of the threads is paid for: a queued task pays for one round of
    the loop, a notification for the round it sends a worker on, the destructor
    for all the workers it wakes.  What adds to the account is the start of a
    call and a worker that wakes for no reason.  So the pool cannot spin, and
    the only question is where it stops.  It stops with the mutex free and every
    worker blocked in its wait or gone; before the destructor that leaves
    nothing in the deque, and after it nobody to wait for, unless the only
    notification came too early for somebody. -/

namespace WebLib.Pool.WorkerLoop

open WebLib TransitionSystem

universe u

variable {FunctionType : Type u}

/-! ## The variant -/

/-- The steps a worker can take before it needs a task or a notification. -/
def Pc.ahead : Pc FunctionType → Nat
  | .task _ => 4
  | .locking | .notified => 3
  | .predicate => 2
  | .blocking | .loading => 1
  | .blocked | .returned => 0

/-- What a caller that has the mutex can cause: its own statements, the task it
    queues, and the worker it wakes. -/
def Owner.ahead : Owner FunctionType → Nat
  | .push_back _ => 10
  | .notify_one => 5
  | .unlock | .clear => 1
  | .worker _ => 0

/-- What the destructor can cause: its two statements, and every worker awake. -/
def Destructor.ahead (threads_count : Nat) : Destructor → Nat
  | .alive => 3 * threads_count + 2
  | .stored => 3 * threads_count + 1
  | .notified => 0

def State.ahead (s : State FunctionType) : Nat :=
  4 * s.m_tasks.length + (s.workers.map Pc.ahead).sum + (s.m_mutex.map Owner.ahead).getD 0
    + s.destructor.ahead s.workers.length

/-- One worker's share of the sum changes. -/
theorem sum_ahead_set {l : List (Pc FunctionType)} {i : Nat} {pc : Pc FunctionType}
    (hi : l[i]? = some pc) (pc' : Pc FunctionType) :
    ((l.set i pc').map Pc.ahead).sum + pc.ahead = (l.map Pc.ahead).sum + pc'.ahead := by
  induction l generalizing i with
  | nil => cases hi
  | cons head l ih =>
      cases i with
      | zero =>
          cases hi
          simp only [List.set_cons_zero, List.map_cons, List.sum_cons]
          omega
      | succ i =>
          have := ih hi
          simp only [List.set_cons_succ, List.map_cons, List.sum_cons]
          omega

/-- A notification costs three steps a worker at most. -/
theorem sum_ahead_notify (l : List (Pc FunctionType)) :
    ((l.map Pc.notify).map Pc.ahead).sum ≤ (l.map Pc.ahead).sum + 3 * l.length := by
  induction l with
  | nil => simp
  | cons pc l ih =>
      have hone : pc.notify.ahead ≤ pc.ahead + 3 := by
        cases pc <;> simp [Pc.notify, Pc.ahead]
      simp only [List.map_cons, List.sum_cons, List.length_cons]
      omega

/-- What a step adds to the account: the start of a call what the call can
    cause, a wakeup for no reason a round of the loop, and each of them itself. -/
def Action.price : Action FunctionType → Nat
  | .enqueue_task _ => 11
  | .wake _ => 4
  | .lock_clear => 2
  | _ => 0

/-- **EVERY STEP IS PAID FOR.** -/
theorem ahead_lt {s s' : State FunctionType} {a : Action FunctionType}
    (hs : step s a = some s') : s'.ahead < s.ahead + a.price := by
  cases step_move hs with
  | lock hi hpc hm =>
      have hsum := sum_ahead_set hi .predicate
      rcases hpc with rfl | rfl <;>
      · simp only [State.ahead, State.lock, State.goto, hm, List.length_set, Pc.ahead,
          Owner.ahead, Option.map_some, Option.getD_some, Option.map_none, Option.getD_none]
          at hsum ⊢
        omega
  | pass hi hw =>
      have hsum := sum_ahead_set hi .loading
      simp only [State.ahead, State.goto, List.length_set, Pc.ahead] at hsum ⊢
      omega
  | fail hi hw =>
      have hsum := sum_ahead_set hi .blocking
      simp only [State.ahead, State.goto, List.length_set, Pc.ahead] at hsum ⊢
      omega
  | block hi =>
      have hsum := sum_ahead_set hi .blocked
      simp only [State.ahead, State.unlock, State.goto, List.length_set, Pc.ahead,
        Option.map_none, Option.getD_none] at hsum ⊢
      omega
  | leave hi hw =>
      have hsum := sum_ahead_set hi .returned
      simp only [State.ahead, State.unlock, State.goto, List.length_set, Pc.ahead,
        Option.map_none, Option.getD_none] at hsum ⊢
      omega
  | @pop i t sh hi hw hp =>
      have hsum := sum_ahead_set hi (.task t)
      rw [Shared.pop_front] at hp
      split at hp
      · cases hp
      · next t' rest hq =>
          cases hp
          simp only [State.ahead, State.unlock, State.goto, State.with_shared, List.length_set,
            Pc.ahead, hq, List.length_cons, Option.map_none, Option.getD_none] at hsum ⊢
          omega
  | @finish i t hi =>
      have hsum := sum_ahead_set hi .locking
      simp only [State.ahead, State.goto, List.length_set, Pc.ahead] at hsum ⊢
      omega
  | push_back hm =>
      simp only [State.ahead, State.lock, State.with_shared, Shared.push_back, hm,
        List.length_append, List.length_singleton, Owner.ahead, Option.map_some, Option.getD_some]
      omega
  | notify_one hm hi =>
      have hsum := sum_ahead_set hi .notified
      simp only [State.ahead, State.lock, State.goto, hm, List.length_set, Pc.ahead,
        Owner.ahead, Option.map_some, Option.getD_some] at hsum ⊢
      omega
  | notify_none hm hw =>
      simp only [State.ahead, State.lock, hm, Owner.ahead, Option.map_some, Option.getD_some]
      omega
  | unlock hm =>
      simp only [State.ahead, State.unlock, hm, Owner.ahead, Option.map_some, Option.getD_some,
        Option.map_none, Option.getD_none]
      omega
  | clear hm =>
      simp only [State.ahead, State.unlock, State.with_shared, Shared.clear, hm, Owner.ahead,
        List.length_nil, Option.map_some, Option.getD_some, Option.map_none, Option.getD_none]
      omega
  | store hd =>
      simp only [State.ahead, State.with_shared, Shared.store, hd, Destructor.ahead]
      omega
  | notify_all hd =>
      have hsum := sum_ahead_notify s.workers
      simp only [State.ahead, hd, Destructor.ahead]
      omega
  | wake hi =>
      have hsum := sum_ahead_set hi .notified
      simp only [State.ahead, State.goto, List.length_set, Pc.ahead, Action.price] at hsum ⊢
      omega
  | enqueue_task hm =>
      simp only [State.ahead, State.lock, hm, Owner.ahead, Action.price, Option.map_some,
        Option.getD_some, Option.map_none, Option.getD_none]
      omega
  | lock_clear hm =>
      simp only [State.ahead, State.lock, hm, Owner.ahead, Action.price, Option.map_some,
        Option.getD_some, Option.map_none, Option.getD_none]
      omega

/-- The settling steps that are not the destructor's first: what the workers and
    the calls under way do by themselves. -/
def Action.Inside (a : Action FunctionType) : Prop := a.Settling ∧ a ≠ .store

instance (a : Action FunctionType) : Decidable a.Inside :=
  match a with
  | .enqueue_task _ | .lock_clear | .wake _ => isFalse fun h => h.1
  | .store => isFalse fun h => h.2 rfl
  | .lock _ | .evaluate _ | .block _ | .proceed _ | .finish _ | .push_back | .notify_one _
  | .unlock | .clear | .notify_all => isTrue ⟨trivial, by simp⟩

theorem paid : (loop FunctionType).Variant Inv State.ahead Action.price where
  keeps := fun _ _ _ hinv hs => hinv.step hs
  pays := fun _ _ _ _ hs => ahead_lt hs

theorem price_of_settling {a : Action FunctionType} (ha : a.Settling) : a.price = 0 := by
  cases a <;> first | rfl | exact ha.elim

/-! ## Where it stops -/

/-- The mutex is free, every worker is blocked or gone, and the destructor is not
    between its two statements. -/
structure Resting (s : State FunctionType) : Prop where
  mutex : s.m_mutex = none
  workers : ∀ pc ∈ s.workers, pc = .blocked ∨ pc = .returned
  destructor : s.destructor ≠ .stored

/-- A worker inside its critical section has a step. -/
theorem inside_goes_on {s : State FunctionType} (hinv : Inv s) {i : Nat}
    (hm : s.m_mutex = some (.worker i)) : ∃ a, a.Inside ∧ step s a ≠ none := by
  obtain ⟨pc, hi, hl⟩ := (hinv.mutex i).mp hm
  cases pc with
  | predicate => exact ⟨.evaluate i, ⟨trivial, by simp⟩, by simp [step, hi]⟩
  | blocking => exact ⟨.block i, ⟨trivial, by simp⟩, by simp [step, hi]⟩
  | loading =>
      refine ⟨.proceed i, ⟨trivial, by simp⟩, ?_⟩
      have hpred := hinv.loading i hi
      cases hw : s.m_should_work with
      | false => simp [step, hi, proceed, Shared.check_and_pop, hw]
      | true =>
          -- the predicate held because of a task, so there is one to pop
          cases hq : s.m_tasks with
          | nil => simp [Shared.wait_predicate, hw, hq] at hpred
          | cons t rest =>
              simp [step, hi, proceed, Shared.check_and_pop, Shared.pop_front, hw, hq]
  | _ => cases hl

/-- So has whoever else has the mutex. -/
theorem owner_goes_on {s : State FunctionType} (hinv : Inv s) {o : Owner FunctionType}
    (hm : s.m_mutex = some o) : ∃ a, a.Inside ∧ step s a ≠ none := by
  cases o with
  | worker i => exact inside_goes_on hinv hm
  | push_back task => exact ⟨.push_back, ⟨trivial, by simp⟩, by simp [step, hm]⟩
  | unlock => exact ⟨.unlock, ⟨trivial, by simp⟩, by simp [step, hm]⟩
  | clear => exact ⟨.clear, ⟨trivial, by simp⟩, by simp [step, hm]⟩
  | notify_one =>
      cases hw : s.workers.any Pc.asleep with
      | false => exact ⟨.notify_one none, ⟨trivial, by simp⟩, by simp [step, hm, hw]⟩
      | true =>
          obtain ⟨pc, hmem, hasleep⟩ := List.any_eq_true.mp hw
          obtain ⟨i, hi⟩ := List.getElem?_of_mem hmem
          cases pc with
          | blocked => exact ⟨.notify_one (some i), ⟨trivial, by simp⟩, by simp [step, hm, hi]⟩
          | _ => cases hasleep

/-- **REST** is a matter of the workers, the mutex and the destructor alone. -/
theorem atRest_iff {s : State FunctionType} (hinv : Inv s) :
    (loop FunctionType).AtRest (fun _ a => a.Inside) s ↔ Resting s := by
  constructor
  · intro hrest
    have stuck : ∀ a : Action FunctionType, a.Inside → step s a = none := hrest
    have hm : s.m_mutex = none := by
      cases hm : s.m_mutex with
      | none => rfl
      | some o =>
          obtain ⟨a, ha, hne⟩ := owner_goes_on hinv hm
          exact absurd (stuck a ha) hne
    refine ⟨hm, ?_, ?_⟩
    · intro pc hmem
      obtain ⟨i, hi⟩ := List.getElem?_of_mem hmem
      have hout : ¬ pc.Locked := fun hl => by
        have := hinv.owner hi hl
        rw [hm] at this
        cases this
      cases pc with
      | blocked => exact Or.inl rfl
      | returned => exact Or.inr rfl
      | locking | notified =>
          have := stuck (.lock i) ⟨trivial, by simp⟩
          simp [step, hi, hm] at this
      | task t =>
          have := stuck (.finish i) ⟨trivial, by simp⟩
          simp [step, hi] at this
      | _ => exact absurd trivial hout
    · intro hd
      have := stuck .notify_all ⟨trivial, by simp⟩
      simp [step, hd] at this
  · rintro ⟨hm, hworkers, hd⟩ a ⟨ha, hstore⟩
    cases hs : (loop FunctionType).step s a with
    | none => rfl
    | some s' =>
        exfalso
        have out : ∀ {i : Nat} {pc : Pc FunctionType}, s.workers[i]? = some pc →
            pc = .blocked ∨ pc = .returned :=
          fun hi => hworkers _ (List.mem_of_getElem? hi)
        cases step_move hs with
        | lock hi hpc _ =>
            rcases hpc with rfl | rfl <;> rcases out hi with h | h <;> cases h
        | pass hi _ => rcases out hi with h | h <;> cases h
        | fail hi _ => rcases out hi with h | h <;> cases h
        | block hi => rcases out hi with h | h <;> cases h
        | leave hi _ => rcases out hi with h | h <;> cases h
        | pop hi _ _ => rcases out hi with h | h <;> cases h
        | finish hi => rcases out hi with h | h <;> cases h
        | push_back hm' => rw [hm] at hm'; cases hm'
        | notify_one hm' _ => rw [hm] at hm'; cases hm'
        | notify_none hm' _ => rw [hm] at hm'; cases hm'
        | unlock hm' => rw [hm] at hm'; cases hm'
        | clear hm' => rw [hm] at hm'; cases hm'
        | store _ => exact hstore rfl
        | notify_all hd' => exact hd hd'
        | wake _ => exact ha
        | enqueue_task _ => exact ha
        | lock_clear _ => exact ha

/-! ## Every run is bounded -/

/-- **NO LIVELOCK**: a run from a reachable state, of any steps of any threads in
    any order, takes no more steps than what was under way can cause and eleven
    for each task it enqueues, two for each `clear` and four for each wakeup for
    no reason. -/
theorem steps_bounded {s s' : State FunctionType} (h : (loop FunctionType).Reachable s)
    {as : List (Action FunctionType)}
    (hrun : (loop FunctionType).run (fun _ _ => True) s as = some s') :
    as.length + s'.ahead ≤ s.ahead + (as.map Action.price).sum :=
  paid.length_le (reach_inv h) hrun

/-- A pool of one worker runs one task and sleeps. -/
theorem one_task_bounded : ∃ s : State Nat,
    (loop Nat).run (fun _ _ => True) (init 1)
      [.lock 0, .evaluate 0, .block 0, .enqueue_task 7, .push_back, .notify_one (some 0), .unlock,
        .lock 0, .evaluate 0, .proceed 0, .finish 0, .lock 0, .evaluate 0, .block 0] = some s
      ∧ 14 + s.ahead ≤ (init 1 : State Nat).ahead + 11 := by
  refine ⟨_, rfl, ?_⟩
  have hrun : (loop Nat).run (fun _ _ => True) (init 1)
      [.lock 0, .evaluate 0, .block 0, .enqueue_task 7, .push_back, .notify_one (some 0), .unlock,
        .lock 0, .evaluate 0, .proceed 0, .finish 0, .lock 0, .evaluate 0, .block 0] = some _ := rfl
  exact steps_bounded (.init ⟨1, rfl⟩) hrun

/-! ## Before the destructor -/

/-- Nothing is left to do: the workers wait, the mutex is free, the deque is
    empty, and every task that was enqueued was started or discarded, once. -/
structure Drained (s : State FunctionType) : Prop where
  waiting : ∀ pc ∈ s.workers, pc = .blocked
  mutex : s.m_mutex = none
  empty : s.m_tasks = []
  settled : ∀ t ∈ s.enqueued,
    (t ∈ s.started ∧ t ∉ s.discarded) ∨ (t ∈ s.discarded ∧ t ∉ s.started)

/-- A pool that rests with its destructor not begun is drained: a queued task
    would have somebody on its way to it. -/
theorem drained_of_rest {s : State FunctionType} (h : (loop FunctionType).Reachable s)
    (hne : s.workers ≠ []) (hd : s.destructor = .alive) (hrest : Resting s) : Drained s := by
  have hwatched := reach_watched h hne hd
  have hwaiting : ∀ pc ∈ s.workers, pc = .blocked := by
    intro pc hmem
    rcases hrest.workers pc hmem with rfl | rfl
    · rfl
    · exact absurd hmem hwatched.stays
  have hempty : s.m_tasks = [] := by
    rcases hwatched.watch with hnil | hone | ⟨pc, hmem, hlooks⟩
    · exact hnil
    · rw [hrest.mutex] at hone
      cases hone
    · rw [hwaiting pc hmem] at hlooks
      exact hlooks.elim
  refine ⟨hwaiting, hrest.mutex, hempty, ?_⟩
  intro t ht
  rcases (reach_conserved h).in_one_place ht with ⟨hq, -⟩ | ⟨hs, -, hnd⟩ | ⟨hdis, -, hns⟩
  · rw [hempty] at hq
    cases hq
  · exact Or.inl ⟨hs, hnd⟩
  · exact Or.inr ⟨hdis, hns⟩

/-- What the steps inside keep: the destructor has not begun, nobody was joined. -/
theorem inside_keeps {s s' : State FunctionType} {a : Action FunctionType}
    (hs : step s a = some s') (ha : a.Inside)
    (h : (loop FunctionType).Reachable s ∧ s.workers ≠ [] ∧ s.destructor = .alive) :
    (loop FunctionType).Reachable s' ∧ s'.workers ≠ [] ∧ s'.destructor = .alive := by
  obtain ⟨hr, hne, hd⟩ := h
  refine ⟨.step hr trivial hs, ?_, ?_⟩
  · exact List.ne_nil_of_length_pos (step_length hs ▸ List.length_pos_iff.mpr hne)
  · cases step_move hs with
    | store _ => exact absurd rfl ha.2
    | notify_all hd' => rw [hd] at hd'; cases hd'
    | _ => exact hd

/-- **THE POOL DRAINS**: from every reachable state before the destructor, a run
    in which no call begins and nobody wakes for no reason is bounded, can be
    carried on until it rests, and when it rests the pool is drained. -/
theorem drains {s s' : State FunctionType} (h : (loop FunctionType).Reachable s)
    (hne : s.workers ≠ []) (hd : s.destructor = .alive) {as : List (Action FunctionType)}
    (hrun : (loop FunctionType).run (fun _ a => a.Inside) s as = some s') :
    as.length ≤ s.ahead
      ∧ (∃ as' s'', (loop FunctionType).run (fun _ a => a.Inside) s (as ++ as') = some s''
          ∧ (loop FunctionType).AtRest (fun _ a => a.Inside) s'')
      ∧ ((loop FunctionType).AtRest (fun _ a => a.Inside) s' → Drained s') := by
  have hfree : ∀ (_ : State FunctionType) (a : Action FunctionType), a.Inside → a.price = 0 :=
    fun _ _ ha => price_of_settling ha.1
  have hinv := reach_inv h
  refine ⟨?_, paid.carried_on hfree hinv hrun, ?_⟩
  · have hle := paid.length_le_of_free hfree hinv hrun
    omega
  · intro hrest
    obtain ⟨hr', hne', hd'⟩ := run_keeps (T := loop FunctionType)
      (fun _ _ _ hi ha hs => inside_keeps hs ha hi) ⟨h, hne, hd⟩ hrun
    exact drained_of_rest hr' hne' hd' ((atRest_iff (reach_inv hr')).mp hrest)

/-- Two workers, three tasks, one of them discarded by a `clear`: when the
    threads are left to themselves they end up asleep over an empty deque. -/
theorem three_tasks_drain : ∃ s : State Nat, (loop Nat).Reachable s
    ∧ s.started = [⟨0, 7⟩, ⟨2, 9⟩] ∧ s.discarded = [⟨1, 8⟩] ∧ Drained s := by
  have h0 : (loop Nat).Reachable (init 2) := .init ⟨2, rfl⟩
  obtain ⟨s, hs, hne, hd, hrun⟩ := h0.exists_of_run
    (fun s => s.workers ≠ [] ∧ s.destructor = .alive
      ∧ ∃ s', (loop Nat).run (fun _ a => a.Inside) s
          [.push_back, .notify_one none, .unlock, .lock 1, .evaluate 1, .proceed 1, .finish 0,
            .lock 0, .evaluate 0, .block 0, .finish 1, .lock 1, .evaluate 1, .block 1] = some s'
        ∧ s'.started = [⟨0, 7⟩, ⟨2, 9⟩] ∧ s'.discarded = [⟨1, 8⟩]
        ∧ s'.workers = [.blocked, .blocked] ∧ s'.m_mutex = none ∧ s'.destructor = .alive)
    [.enqueue_task 7, .push_back, .notify_one none, .unlock, .lock 0, .evaluate 0, .proceed 0,
      .enqueue_task 8, .push_back, .notify_one none, .unlock, .lock_clear, .clear,
      .enqueue_task 9]
    (by decide)
  obtain ⟨s', hrun', hstarted, hdiscarded, hworkers, hmutex, hd'⟩ := hrun
  have hr' : (loop Nat).Reachable s' :=
    run_keeps (T := loop Nat) (fun _ _ _ hi _ hs => .step hi trivial hs) hs hrun'
  refine ⟨s', hr', hstarted, hdiscarded, (drains hs hne hd hrun').2.2 ?_⟩
  refine (atRest_iff (reach_inv hr')).mpr ⟨hmutex, ?_, by simp [hd']⟩
  simp [hworkers]

/-! ## After the destructor -/

/-- **THE JOINS RETURN**: once `notify_all` has come in a run that meets the
    condition on it, every further run without new calls is bounded, can be
    carried on until it rests, and when it rests every worker has returned.
    Nothing the scheduler does keeps the destructor waiting. -/
theorem joins_return {s s' : State FunctionType} (h : (loop FunctionType).Reach Heard s)
    (hd : s.destructor = .notified) {as : List (Action FunctionType)}
    (hrun : (loop FunctionType).run (fun _ a => a.Settling) s as = some s') :
    as.length ≤ s.ahead
      ∧ (∃ as' s'', (loop FunctionType).run (fun _ a => a.Settling) s (as ++ as') = some s''
          ∧ (loop FunctionType).AtRest (fun _ a => a.Settling) s'')
      ∧ ((loop FunctionType).AtRest (fun _ a => a.Settling) s' → s'.Joined) := by
  have hfree : ∀ (_ : State FunctionType) (a : Action FunctionType), a.Settling → a.price = 0 :=
    fun _ _ => price_of_settling
  have hinv := reach_inv h
  refine ⟨?_, paid.carried_on hfree hinv hrun, ?_⟩
  · have hle := paid.length_le_of_free hfree hinv hrun
    omega
  · intro hrest
    obtain ⟨hinv', -, hawake⟩ : Inv s' ∧ s'.destructor = .notified ∧ Awake s' := by
      refine run_keeps (T := loop FunctionType)
        (I := fun s => Inv s ∧ s.destructor = .notified ∧ Awake s) ?_
        ⟨hinv, hd, reach_awake h hd⟩ hrun
      rintro s a s' ⟨hi, hn, haw⟩ - hs
      exact ⟨hi.step hs, haw.step hi hn hs⟩
    have hresting := (atRest_iff hinv').mp fun a ha => hrest a ha.1
    intro pc hmem
    rcases hresting.workers pc hmem with rfl | rfl
    · exact absurd rfl (hawake _ hmem).1
    · rfl

/-- One worker waits and one runs a task when the destructor comes; another task
    is still queued, and stays there. -/
theorem two_workers_join : ∃ s : State Nat, (loop Nat).Reach Heard s
    ∧ s.m_tasks = [⟨1, 8⟩] ∧ s.Joined := by
  have h0 : (loop Nat).Reach Heard (init 2) := .init ⟨2, rfl⟩
  obtain ⟨s, hs, hd, s', hrun, hq, hworkers, hmutex, hd'⟩ := h0.exists_of_run
    (fun s => s.destructor = .notified
      ∧ ∃ s', (loop Nat).run (fun _ a => a.Settling) s
          [.lock 1, .evaluate 1, .proceed 1, .finish 0, .lock 0, .evaluate 0, .proceed 0] = some s'
        ∧ s'.m_tasks = [⟨1, 8⟩] ∧ s'.workers = [.returned, .returned]
        ∧ s'.m_mutex = none ∧ s'.destructor = .notified)
    [.lock 1, .evaluate 1, .block 1, .enqueue_task 7, .push_back, .notify_one (some 1), .unlock,
      .lock 0, .evaluate 0, .proceed 0, .lock 1, .evaluate 1, .block 1,
      .enqueue_task 8, .push_back, .notify_one (some 1), .unlock, .store, .notify_all]
    (by decide)
  have hr' : (loop Nat).Reach Heard s' := by
    refine (run_keeps (T := loop Nat)
      (I := fun s => (loop Nat).Reach Heard s ∧ s.destructor = .notified) ?_ ⟨hs, hd⟩ hrun).1
    rintro s₁ a s₂ ⟨hr, hn⟩ - hstep
    have hheard : Heard s₁ a := by
      cases step_move hstep with
      | notify_all hd' => rw [hn] at hd'; cases hd'
      | _ => trivial
    refine ⟨.step hr hheard hstep, ?_⟩
    cases step_move hstep with
    | store hd' => rw [hn] at hd'; cases hd'
    | notify_all _ => rfl
    | _ => exact hn
  refine ⟨s', hr', hq, (joins_return hs hd hrun).2.2 ?_⟩
  intro a ha
  by_cases hstore : a = .store
  · rw [hstore]
    simp [loop, step, hd']
  · refine (atRest_iff (reach_inv hr')).mpr ⟨hmutex, ?_, by simp [hd']⟩ a ⟨ha, hstore⟩
    simp [hworkers]

end WebLib.Pool.WorkerLoop
