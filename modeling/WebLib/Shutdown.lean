import WebLib.WorkerLoop

/-! # Shutting the pool down

    `~ThreadPool` stores `m_should_work = false` and calls `notify_all`, and
    takes `m_mutex` for neither.  A worker that has evaluated the predicate of
    its wait and has not yet blocked still holds the mutex, but that stops
    nobody here: when both statements fall in between, the worker blocks after
    the only notification it could get.  The runs in which `notify_all` finds no
    worker there are the runs in which every worker can be joined. -/

namespace WebLib.Pool.WorkerLoop

open WebLib

universe u

variable {FunctionType : Type u}

/-- `notify_all` comes when no worker is between a false evaluation of the
    predicate and its block. -/
def Heard (s : State FunctionType) : Action FunctionType → Prop
  | .notify_all => ∀ pc ∈ s.workers, pc ≠ .blocking
  | _ => True

instance [DecidableEq FunctionType] (s : State FunctionType) (a : Action FunctionType) :
    Decidable (Heard s a) :=
  match a with
  | .notify_all => inferInstanceAs (Decidable (∀ pc ∈ s.workers, pc ≠ .blocking))
  | .lock _ | .evaluate _ | .block _ | .wake _ | .proceed _ | .finish _ | .enqueue_task _
  | .push_back | .notify_one _ | .unlock | .lock_clear | .clear | .store => isTrue trivial

/-- No worker is, or is about to be, blocked with nobody to wake it. -/
def Awake (s : State FunctionType) : Prop :=
  ∀ pc ∈ s.workers, pc ≠ .blocked ∧ pc ≠ .blocking

/-- Every worker has left its loop: the destructor's joins return. -/
def State.Joined (s : State FunctionType) : Prop := ∀ pc ∈ s.workers, pc = .returned

theorem Awake.goto {s : State FunctionType} {i : Nat} {pc : Pc FunctionType} (h : Awake s)
    (hpc : pc ≠ .blocked ∧ pc ≠ .blocking) : Awake (s.goto i pc) := by
  intro pc' hmem
  rcases List.mem_or_eq_of_mem_set hmem with hold | rfl
  · exact h pc' hold
  · exact hpc

theorem Awake.not_asleep {s : State FunctionType} {i : Nat} (h : Awake s)
    (hi : s.workers[i]? = some .blocked) : False :=
  (h _ (List.mem_of_getElem? hi)).1 rfl

theorem Awake.not_blocking {s : State FunctionType} {i : Nat} (h : Awake s)
    (hi : s.workers[i]? = some .blocking) : False :=
  (h _ (List.mem_of_getElem? hi)).2 rfl

/-- Once the flag is false the predicate is true, so no worker gets ready to
    block again. -/
theorem Awake.step {s s' : State FunctionType} {a : Action FunctionType} (hinv : Inv s)
    (hd : s.destructor = .notified) (h : Awake s) (hs : step s a = some s') :
    s'.destructor = .notified ∧ Awake s' := by
  cases step_move hs with
  | lock hi hpc hm => exact ⟨hd, h.goto (by simp)⟩
  | pass hi hw => exact ⟨hd, h.goto (by simp)⟩
  | fail hi hw =>
      have hflag : s.m_should_work ≠ true := by
        rw [ne_eq, hinv.flag, hd]
        simp
      simp [Shared.wait_predicate, hflag] at hw
  | block hi => exact absurd hi (fun hi => h.not_blocking hi)
  | wake hi => exact ⟨hd, h.goto (by simp)⟩
  | leave hi hw => exact ⟨hd, h.goto (by simp)⟩
  | pop hi hw hp => exact ⟨hd, h.goto (by simp)⟩
  | finish hi => exact ⟨hd, h.goto (by simp)⟩
  | notify_one hm hi => exact ⟨hd, h.goto (by simp)⟩
  | enqueue_task hm => exact ⟨hd, h⟩
  | push_back hm => exact ⟨hd, h⟩
  | notify_none hm hw => exact ⟨hd, h⟩
  | unlock hm => exact ⟨hd, h⟩
  | lock_clear hm => exact ⟨hd, h⟩
  | clear hm => exact ⟨hd, h⟩
  | store hd' => rw [hd] at hd'; cases hd'
  | notify_all hd' => rw [hd] at hd'; cases hd'

theorem Awake.notify_all {s : State FunctionType} (hok : Heard s .notify_all) :
    Awake { s with workers := s.workers.map Pc.notify, destructor := .notified } := by
  intro pc hmem
  obtain ⟨pc₀, h₀, rfl⟩ := List.mem_map.mp hmem
  have := hok pc₀ h₀
  cases pc₀ <;> simp_all [Pc.notify]

/-- In the runs that meet the condition everyone is awake after `notify_all`. -/
theorem reach_awake {s : State FunctionType} (h : (loop FunctionType).Reach Heard s)
    (hd : s.destructor = .notified) : Awake s := by
  induction h with
  | init h0 =>
      obtain ⟨n, rfl⟩ := h0
      cases hd
  | @step s s' a hr hok hs ih =>
      by_cases hd₀ : s.destructor = .notified
      · exact ((ih hd₀).step (reach_inv hr) hd₀ hs).2
      · -- only `notify_all` sets the destructor's last place
        cases step_move hs with
        | notify_all _ => exact Awake.notify_all hok
        | store _ => cases hd
        | _ => exact absurd hd hd₀

/-! ## Joining -/

/-- The steps a worker has left once the flag is false. -/
def Pc.remaining : Pc FunctionType → Nat
  | .task _ => 4
  | .locking | .notified => 3
  | .predicate => 2
  | .loading => 1
  | _ => 0

/-- The steps a caller has left that has the mutex. -/
def Owner.remaining : Owner FunctionType → Nat
  | .push_back _ => 3
  | .notify_one => 2
  | .unlock | .clear => 1
  | .worker _ => 0

def State.remaining (s : State FunctionType) : Nat :=
  (s.workers.map Pc.remaining).sum + (s.m_mutex.map Owner.remaining).getD 0

/-- Steps that neither begin a new call nor wake a worker for no reason. -/
def Action.Settling : Action FunctionType → Prop
  | .enqueue_task _ | .lock_clear | .wake _ => False
  | _ => True

instance (a : Action FunctionType) : Decidable a.Settling :=
  match a with
  | .enqueue_task _ | .lock_clear | .wake _ => isFalse id
  | .lock _ | .evaluate _ | .block _ | .proceed _ | .finish _ | .push_back | .notify_one _
  | .unlock | .clear | .store | .notify_all => isTrue trivial

theorem sum_set_lt {l : List (Pc FunctionType)} {i : Nat} {pc pc' : Pc FunctionType}
    (hi : l[i]? = some pc) (hlt : pc'.remaining < pc.remaining) :
    ((l.set i pc').map Pc.remaining).sum < (l.map Pc.remaining).sum := by
  induction l generalizing i with
  | nil => cases hi
  | cons head l ih =>
      cases i with
      | zero =>
          cases hi
          simpa using hlt
      | succ i =>
          have := ih hi
          simpa using this

/-- A worker's move to a place with less left, the mutex ending with a worker
    or with nobody. -/
theorem remaining_goto {s s' : State FunctionType} {i : Nat} {pc pc' : Pc FunctionType}
    (hi : s.workers[i]? = some pc) (hlt : pc'.remaining < pc.remaining)
    (hw : s'.workers = s.workers.set i pc')
    (hm : (s'.m_mutex.map Owner.remaining).getD 0 = 0) : s'.remaining < s.remaining := by
  have := sum_set_lt hi hlt
  rw [State.remaining, State.remaining, hw, hm]
  omega

/-- A caller's move under the mutex. -/
theorem remaining_owner {s s' : State FunctionType} {o : Owner FunctionType}
    (hm : s.m_mutex = some o) (hw : s'.workers = s.workers)
    (hlt : (s'.m_mutex.map Owner.remaining).getD 0 < o.remaining) :
    s'.remaining < s.remaining := by
  rw [State.remaining, State.remaining, hw, hm, Option.map_some, Option.getD_some]
  omega

/-- The worker inside its critical section goes on. -/
theorem progress_inside {s : State FunctionType} (hinv : Inv s) (h : Awake s)
    (hd : s.destructor = .notified) {i : Nat} (hm : s.m_mutex = some (.worker i)) :
    ∃ a s', a.Settling ∧ step s a = some s' ∧ s'.remaining < s.remaining := by
  have hflag : s.m_should_work = false := by
    rw [← Bool.not_eq_true, hinv.flag, hd]
    simp
  obtain ⟨pc, hi, hl⟩ := (hinv.mutex i).mp hm
  cases pc with
  | predicate =>
      have hs : step s (.evaluate i) = some (s.goto i .loading) := by
        simp [step, hi, Shared.wait_predicate, hflag]
      refine ⟨.evaluate i, _, trivial, hs, ?_⟩
      exact remaining_goto hi (by simp [Pc.remaining]) rfl (by simp [State.goto, hm, Owner.remaining])
  | loading =>
      have hs : step s (.proceed i) = some (s.goto i .returned).unlock := by
        simp [step, hi, proceed, Shared.check_and_pop, hflag, State.with_shared]
      refine ⟨.proceed i, _, trivial, hs, ?_⟩
      exact remaining_goto hi (by simp [Pc.remaining]) rfl rfl
  | blocking => exact absurd hi (fun hi => h.not_blocking hi)
  | _ => cases hl

/-- A worker that has not returned goes on while the mutex is free. -/
theorem progress_free {s : State FunctionType} (hinv : Inv s) (h : Awake s)
    (hm : s.m_mutex = none) {i : Nat} {pc : Pc FunctionType} (hi : s.workers[i]? = some pc)
    (hpc : pc ≠ .returned) :
    ∃ a s', a.Settling ∧ step s a = some s' ∧ s'.remaining < s.remaining := by
  have hout : ¬ pc.Locked := by
    intro hl
    rw [hinv.owner hi hl] at hm
    cases hm
  cases pc with
  | locking =>
      refine ⟨.lock i, (s.goto i .predicate).lock (.worker i), trivial, by simp [step, hi, hm], ?_⟩
      exact remaining_goto hi (by simp [Pc.remaining]) rfl rfl
  | notified =>
      refine ⟨.lock i, (s.goto i .predicate).lock (.worker i), trivial, by simp [step, hi, hm], ?_⟩
      exact remaining_goto hi (by simp [Pc.remaining]) rfl rfl
  | task t =>
      refine ⟨.finish i, s.goto i .locking, trivial, by simp [step, hi], ?_⟩
      exact remaining_goto hi (by simp [Pc.remaining]) rfl (by simp [State.goto, hm])
  | blocked => exact absurd hi (fun hi => h.not_asleep hi)
  | returned => exact absurd rfl hpc
  | _ => exact absurd trivial hout

/-- **PROGRESS**: while a worker is in its loop some thread can go on, with less
    left after. -/
theorem progress {s : State FunctionType} (hinv : Inv s) (h : Awake s)
    (hd : s.destructor = .notified) (hj : ¬ s.Joined) :
    ∃ a s', a.Settling ∧ step s a = some s' ∧ s'.remaining < s.remaining := by
  cases hm : s.m_mutex with
  | none =>
      obtain ⟨pc, hmem, hpc⟩ : ∃ pc ∈ s.workers, pc ≠ .returned := by
        simpa [State.Joined] using hj
      obtain ⟨i, hi⟩ := List.getElem?_of_mem hmem
      exact progress_free hinv h hm hi hpc
  | some o =>
      cases o with
      | worker i => exact progress_inside hinv h hd hm
      | push_back task =>
          refine ⟨.push_back, (s.with_shared (s.toShared.push_back task)).lock .notify_one,
            trivial, by simp [step, hm], ?_⟩
          exact remaining_owner hm rfl (by simp [State.lock, Owner.remaining])
      | notify_one =>
          have hnone : s.workers.any Pc.asleep = false := by
            rw [List.any_eq_false]
            intro pc hmem
            have := (h pc hmem).1
            cases pc <;> simp_all [Pc.asleep]
          refine ⟨.notify_one none, s.lock .unlock, trivial, by simp [step, hm, hnone], ?_⟩
          exact remaining_owner hm rfl (by simp [State.lock, Owner.remaining])
      | unlock =>
          refine ⟨.unlock, s.unlock, trivial, by simp [step, hm], ?_⟩
          exact remaining_owner hm rfl (by simp [State.unlock, Owner.remaining])
      | clear =>
          refine ⟨.clear, (s.with_shared s.toShared.clear).unlock, trivial, by simp [step, hm], ?_⟩
          exact remaining_owner hm rfl (by simp [State.unlock, Owner.remaining])

/-- With everyone awake the workers can all be joined: the tasks return, nobody
    calls the pool any more, and no worker needs to wake by itself. -/
theorem can_join {s : State FunctionType} (hinv : Inv s) (h : Awake s)
    (hd : s.destructor = .notified) :
    ∃ as s', (loop FunctionType).run (fun _ a => a.Settling) s as = some s' ∧ s'.Joined := by
  induction hn : s.remaining using Nat.strong_induction_on generalizing s with
  | _ n ih =>
      by_cases hj : s.Joined
      · exact ⟨[], s, rfl, hj⟩
      · obtain ⟨a, s₁, ha, hs, hlt⟩ := progress hinv h hd hj
        obtain ⟨hd₁, h₁⟩ := h.step hinv hd hs
        obtain ⟨as, s', hrun, hj'⟩ := ih _ (hn ▸ hlt) (hinv.step hs) h₁ hd₁ rfl
        refine ⟨a :: as, s', ?_, hj'⟩
        rw [TransitionSystem.run, if_pos ha]
        exact Option.bind_eq_some_iff.mpr ⟨s₁, hs, hrun⟩

/-! ## The destructor and the waiting workers -/

/-- No worker sleeps on, and the workers can be joined. -/
structure WokenUp (s : State FunctionType) : Prop where
  awake : ∀ i : Nat, s.workers[i]? ≠ some .blocked
  joins : ∃ as s', (loop FunctionType).run (fun _ a => a.Settling) s as = some s' ∧ s'.Joined

/-- **NO LOST WAKEUP AT SHUTDOWN**: in every run whose `notify_all` finds no
    worker between its predicate and its block, no worker is blocked afterwards
    without a notification and all of them can be joined. -/
theorem woken_up {s : State FunctionType} (h : (loop FunctionType).Reach Heard s)
    (hd : s.destructor = .notified) : WokenUp s := by
  have hawake := reach_awake h hd
  exact ⟨fun i hi => hawake.not_asleep hi, can_join (reach_inv h) hawake hd⟩

/-- One worker waits, the other runs a task, when the destructor comes. -/
theorem two_workers_woken_up : ∃ s : State Nat, (loop Nat).Reach Heard s
    ∧ s.workers = [.notified, .task ⟨0, 7⟩] ∧ s.destructor = .notified ∧ WokenUp s := by
  have h0 : (loop Nat).Reach Heard (init 2) := .init ⟨2, rfl⟩
  obtain ⟨s, hs, hw, hd⟩ := h0.exists_of_run
    (fun s => s.workers = [.notified, .task ⟨0, 7⟩] ∧ s.destructor = .notified)
    [.lock 0, .evaluate 0, .block 0, .enqueue_task 7, .push_back, .notify_one (some 0),
      .unlock, .lock 1, .evaluate 1, .proceed 1, .store, .notify_all]
    (by decide)
  exact ⟨s, hs, hw, hd, woken_up hs hd⟩

/-- `notify_all` with a worker about to block leaves it asleep. -/
theorem lost_if_blocking {s : State FunctionType} {i : Nat} (hd : s.destructor = .stored)
    (hi : s.workers[i]? = some .blocking) :
    ∃ s', (loop FunctionType).run (fun _ _ => True) s [.notify_all, .block i] = some s'
      ∧ s'.destructor = .notified ∧ s'.workers[i]? = some .blocked := by
  have hlt : i < s.workers.length := (List.getElem?_eq_some_iff.mp hi).1
  refine ⟨State.unlock (State.goto
    { s with workers := s.workers.map Pc.notify, destructor := .notified } i .blocked), ?_, rfl, ?_⟩
  · simp [TransitionSystem.run, loop, step, hd, hi, Pc.notify]
  · simp [State.unlock, State.goto, hlt]

/-- The store and the notification both come between a worker's predicate and
    its block: it sleeps on, and its join never returns by itself. -/
theorem wakeup_lost : ∃ s : State Nat, (loop Nat).Reachable s ∧ s.destructor = .notified
    ∧ ¬ WokenUp s := by
  have h0 : (loop Nat).Reachable (init 1) := .init ⟨1, rfl⟩
  obtain ⟨s, hs, hd, hb⟩ := h0.exists_of_run
    (fun s => s.destructor = .notified ∧ s.workers[0]? = some .blocked)
    [.lock 0, .evaluate 0, .store, .notify_all, .block 0]
    (by decide)
  exact ⟨s, hs, hd, fun h => h.awake 0 hb⟩

end WebLib.Pool.WorkerLoop
