import WebLib.Shutdown

/-! # The members of a pool and its workers

    After the destructor's two statements the members are destroyed in reverse
    order of declaration.  `m_workers` is declared first, so its joins come
    last: `m_mutex`, `m_condvar`, `m_should_work` and `m_tasks` are destroyed
    while nobody waits for the workers.  A member is used after its destruction
    as soon as a worker is still in its loop when `m_mutex` goes; the runs in
    which every worker has returned by then are safe. -/

namespace WebLib.Pool.WorkerLoop

open WebLib

universe u

variable {FunctionType : Type u}

/-- The data members of `ThreadPool`. -/
inductive Member where
  | m_workers
  | m_tasks
  | m_should_work
  | m_condvar
  | m_mutex
deriving DecidableEq, Repr

/-- The members in the order of their declaration. -/
def members : List Member := [.m_workers, .m_tasks, .m_should_work, .m_condvar, .m_mutex]

/-- A pool with the members that are still to be destroyed, the next one first. -/
structure Lifetime (FunctionType : Type u) extends State FunctionType where
  left : List Member
deriving DecidableEq, Repr

/-- A statement of a thread, or the destruction of the next member. -/
inductive LifetimeAction (FunctionType : Type u) where
  | statement (a : Action FunctionType)
  | destroy
deriving DecidableEq, Repr

/-- The worker has left its loop: `join` does not wait for it. -/
def Pc.gone : Pc FunctionType → Bool
  | .returned => true
  | _ => false

namespace Lifetime

/-- The next member is destroyed; `std::jthread` joins, the others wait for
    nobody. -/
def destroy (s : Lifetime FunctionType) : Option (Lifetime FunctionType) :=
  match s.destructor, s.left with
  | .notified, .m_workers :: left =>
      if s.workers.all Pc.gone then some { s with left := left } else none
  | .notified, _ :: left => some { s with left := left }
  | _, _ => none

def step (s : Lifetime FunctionType) :
    LifetimeAction FunctionType → Option (Lifetime FunctionType)
  | .statement a => (WorkerLoop.step s.toState a).map fun s' => { s with toState := s' }
  | .destroy => s.destroy

end Lifetime

def lifetime (FunctionType : Type u) :
    TransitionSystem (Lifetime FunctionType) (LifetimeAction FunctionType) where
  init s := (loop FunctionType).init s.toState ∧ s.left = members.reverse
  step := Lifetime.step

/-- The members that a worker's statement uses.  `||` evaluates its right side
    only when the deque is empty, and a worker past its wait pops only when the
    flag is true; either way it unlocks. -/
def uses (s : State FunctionType) : Action FunctionType → List Member
  | .lock _ => [.m_mutex]
  | .evaluate _ => if s.m_tasks.isEmpty then [.m_tasks, .m_should_work] else [.m_tasks]
  | .block _ => [.m_mutex, .m_condvar]
  | .wake _ => [.m_condvar]
  | .proceed _ =>
      if s.m_should_work then [.m_should_work, .m_tasks, .m_mutex] else [.m_should_work, .m_mutex]
  | .finish _ | .enqueue_task _ | .push_back | .notify_one _ | .unlock | .lock_clear | .clear
  | .store | .notify_all => []

/-- What a worker does next uses no member that has been destroyed. -/
def Outlived (s : Lifetime FunctionType) : Prop :=
  ∀ a s', WorkerLoop.step s.toState a = some s' → ∀ m ∈ uses s.toState a, m ∈ s.left

/-- The destruction of the members finds every worker returned. -/
def Settled (s : Lifetime FunctionType) : LifetimeAction FunctionType → Prop
  | .destroy => s.toState.Joined
  | .statement _ => True

theorem all_gone_iff {s : State FunctionType} : s.workers.all Pc.gone = true ↔ s.Joined := by
  rw [List.all_eq_true]
  refine forall₂_congr fun pc _ => ?_
  cases pc <;> simp [Pc.gone]

instance (s : Lifetime FunctionType) (a : LifetimeAction FunctionType) : Decidable (Settled s a) :=
  match a with
  | .destroy => decidable_of_iff _ all_gone_iff
  | .statement _ => isTrue trivial

/-! ## What a step can do -/

/-- A destruction takes one member and leaves the threads where they are. -/
theorem destroy_left {s s' : Lifetime FunctionType} (hs : s.destroy = some s') :
    s'.toState = s.toState ∧ ∃ m, s.left = m :: s'.left := by
  rw [Lifetime.destroy] at hs
  split at hs
  · next hl =>
      split at hs
      · cases hs
        exact ⟨rfl, _, hl⟩
      · cases hs
  · next hl => cases hs; exact ⟨rfl, _, hl⟩
  · cases hs

/-- The threads do what they do in the system without destruction. -/
theorem reach_loop {ok : Lifetime FunctionType → LifetimeAction FunctionType → Prop}
    {s : Lifetime FunctionType} (h : (lifetime FunctionType).Reach ok s) :
    (loop FunctionType).Reachable s.toState := by
  induction h with
  | init h0 => exact .init h0.1
  | @step s s' a _ _ hs ih =>
      cases a with
      | statement a =>
          obtain ⟨s₁, hs₁, rfl⟩ := Option.map_eq_some_iff.mp hs
          exact .step ih trivial hs₁
      | destroy => exact (destroy_left hs).1 ▸ ih

/-- A worker that has returned is in no statement of the loop. -/
theorem State.Joined.returned {s : State FunctionType} (h : s.Joined) {i : Nat}
    {pc : Pc FunctionType} (hi : s.workers[i]? = some pc) : pc = .returned :=
  h pc (List.mem_of_getElem? hi)

/-- When all workers have returned no worker takes a step, and none comes back. -/
theorem State.Joined.step {s s' : State FunctionType} {a : Action FunctionType} (h : s.Joined)
    (hs : WorkerLoop.step s a = some s') : s'.Joined ∧ uses s a = [] := by
  cases step_move hs with
  | lock hi hpc hm => rcases hpc with rfl | rfl <;> cases h.returned hi
  | pass hi hw => cases h.returned hi
  | fail hi hw => cases h.returned hi
  | block hi => cases h.returned hi
  | wake hi => cases h.returned hi
  | leave hi hw => cases h.returned hi
  | pop hi hw hp => cases h.returned hi
  | finish hi => cases h.returned hi
  | notify_one hm hi => cases h.returned hi
  | notify_all hd =>
      refine ⟨?_, rfl⟩
      intro pc hmem
      obtain ⟨pc₀, h₀, rfl⟩ := List.mem_map.mp hmem
      rw [h pc₀ h₀]
      rfl
  | _ => exact ⟨h, rfl⟩

/-! ## A worker in its loop comes back to the mutex -/

/-- Some run of the threads ends in a statement of a worker that uses `m`. -/
def CanUse (m : Member) (s : State FunctionType) : Prop :=
  ∃ as s₁ a s₂, (loop FunctionType).run (fun _ _ => True) s as = some s₁
    ∧ step s₁ a = some s₂ ∧ m ∈ uses s₁ a

theorem CanUse.now {m : Member} {s s' : State FunctionType} {a : Action FunctionType}
    (hs : step s a = some s') (hm : m ∈ uses s a) : CanUse m s :=
  ⟨[], s, a, s', rfl, hs, hm⟩

theorem CanUse.later {m : Member} {s s' : State FunctionType} {a : Action FunctionType}
    (hs : step s a = some s') (h : CanUse m s') : CanUse m s := by
  obtain ⟨as, s₁, b, s₂, hrun, hb, hm⟩ := h
  refine ⟨a :: as, s₁, b, s₂, ?_, hb, hm⟩
  rw [TransitionSystem.run, if_pos trivial]
  exact Option.bind_eq_some_iff.mpr ⟨s', hs, hrun⟩

theorem goto_self {s : State FunctionType} {i : Nat} {pc : Pc FunctionType}
    (hi : s.workers[i]? = some pc) (pc' : Pc FunctionType) :
    (s.goto i pc').workers[i]? = some pc' := by
  rw [State.goto, getElem?_set_of_some hi, if_pos rfl]

theorem can_use_loading {s : State FunctionType} {i : Nat} (hflag : s.m_should_work = false)
    (hi : s.workers[i]? = some .loading) : CanUse .m_mutex s := by
  have hs : step s (.proceed i) = some (s.goto i .returned).unlock := by
    simp [step, hi, proceed, Shared.check_and_pop, hflag, State.with_shared]
  exact .now hs (by simp [uses, hflag])

/-- The worker inside its critical section unlocks at its end. -/
theorem can_use_inside {s : State FunctionType} {i : Nat} (hflag : s.m_should_work = false)
    (hi : s.Inside i) : CanUse .m_mutex s := by
  obtain ⟨pc, hi, hl⟩ := hi
  cases pc with
  | predicate =>
      have hs : step s (.evaluate i) = some (s.goto i .loading) := by
        simp [step, hi, Shared.wait_predicate, hflag]
      exact .later hs (can_use_loading hflag (goto_self hi _))
  | blocking =>
      have hs : step s (.block i) = some (s.goto i .blocked).unlock := by simp [step, hi]
      exact .now hs (by simp [uses])
  | loading => exact can_use_loading hflag hi
  | _ => cases hl

theorem can_use_lock {s : State FunctionType} {i : Nat} {pc : Pc FunctionType}
    (hm : s.m_mutex = none) (hi : s.workers[i]? = some pc)
    (hpc : pc = .locking ∨ pc = .notified) : CanUse .m_mutex s := by
  have hs : step s (.lock i) = some ((s.goto i .predicate).lock (.worker i)) := by
    rcases hpc with rfl | rfl <;> simp [step, hi, hm]
  exact .now hs (by simp [uses])

/-- A worker outside locks when the mutex is free: after its task, or after a
    wakeup, which it needs nobody for. -/
theorem can_use_free {s : State FunctionType} (hinv : Inv s) (hm : s.m_mutex = none)
    (hj : ¬ s.Joined) : CanUse .m_mutex s := by
  obtain ⟨pc, hmem, hpc⟩ : ∃ pc ∈ s.workers, pc ≠ .returned := by
    simpa [State.Joined] using hj
  obtain ⟨i, hi⟩ := List.getElem?_of_mem hmem
  have hout : ¬ pc.Locked := by
    intro hl
    rw [hinv.owner hi hl] at hm
    cases hm
  cases pc with
  | locking => exact can_use_lock hm hi (Or.inl rfl)
  | notified => exact can_use_lock hm hi (Or.inr rfl)
  | task t =>
      have hs : step s (.finish i) = some (s.goto i .locking) := by simp [step, hi]
      exact .later hs (can_use_lock hm (goto_self hi _) (Or.inl rfl))
  | blocked =>
      have hs : step s (.wake i) = some (s.goto i .notified) := by simp [step, hi]
      exact .later hs (can_use_lock hm (goto_self hi _) (Or.inr rfl))
  | returned => exact absurd rfl hpc
  | _ => exact absurd trivial hout

/-- A caller that still has the mutex first gives it back. -/
theorem can_use_unlock {s : State FunctionType} (hinv : Inv s) (hm : s.m_mutex = some .unlock)
    (hj : ¬ s.Joined) : CanUse .m_mutex s := by
  have hs : step s .unlock = some s.unlock := by simp [step, hm]
  exact .later hs (can_use_free (hinv.step hs) rfl hj)

theorem can_use_notify_one {s : State FunctionType} (hinv : Inv s)
    (hm : s.m_mutex = some .notify_one) (hj : ¬ s.Joined) : CanUse .m_mutex s := by
  by_cases hasleep : ∃ i : Nat, s.workers[i]? = some .blocked
  · obtain ⟨i, hi⟩ := hasleep
    have hs : step s (.notify_one (some i)) = some ((s.goto i .notified).lock .unlock) := by
      simp [step, hm, hi]
    refine .later hs (can_use_unlock (hinv.step hs) rfl ?_)
    intro hj'
    cases hj'.returned (goto_self hi .notified)
  · have hnone : s.workers.any Pc.asleep = false := by
      rw [List.any_eq_false]
      intro pc hmem
      cases pc with
      | blocked => exact absurd (List.getElem?_of_mem hmem) hasleep
      | _ => simp [Pc.asleep]
    have hs : step s (.notify_one none) = some (s.lock .unlock) := by simp [step, hm, hnone]
    exact .later hs (can_use_unlock (hinv.step hs) rfl hj)

/-- Once the flag is false a worker that has not returned can come to use the
    mutex, whoever has it now. -/
theorem can_use_mutex {s : State FunctionType} (hinv : Inv s) (hflag : s.m_should_work = false)
    (hj : ¬ s.Joined) : CanUse .m_mutex s := by
  cases hm : s.m_mutex with
  | none => exact can_use_free hinv hm hj
  | some o =>
      cases o with
      | worker i => exact can_use_inside hflag ((hinv.mutex i).mp hm)
      | push_back task =>
          have hs : step s .push_back
              = some ((s.with_shared (s.toShared.push_back task)).lock .notify_one) := by
            simp [step, hm]
          exact .later hs (can_use_notify_one (hinv.step hs) rfl hj)
      | notify_one => exact can_use_notify_one hinv hm hj
      | unlock => exact can_use_unlock hinv hm hj
      | clear =>
          have hs : step s .clear = some (s.with_shared s.toShared.clear).unlock := by
            simp [step, hm]
          exact .later hs (can_use_free (hinv.step hs) rfl hj)

/-! ## The members and the workers -/

/-- In the runs that meet the condition either no member is destroyed yet or no
    worker is in its loop. -/
theorem reach_settled {s : Lifetime FunctionType} (h : (lifetime FunctionType).Reach Settled s) :
    s.left = members.reverse ∨ s.toState.Joined := by
  induction h with
  | init h0 => exact Or.inl h0.2
  | @step s s' a _ hok hs ih =>
      cases a with
      | statement a =>
          obtain ⟨s₁, hs₁, rfl⟩ := Option.map_eq_some_iff.mp hs
          rcases ih with hl | hj
          · exact Or.inl hl
          · exact Or.inr (hj.step hs₁).1
      | destroy => exact Or.inr ((destroy_left hs).1 ▸ hok)

/-- **THE MEMBERS OUTLIVE THE WORKERS** in every run in which every worker has
    returned when the destruction of the members begins. -/
theorem outlived_of_settled {s : Lifetime FunctionType}
    (h : (lifetime FunctionType).Reach Settled s) : Outlived s := by
  intro a s' hs m hm
  rcases reach_settled h with hl | hj
  · rw [hl]
    cases m <;> decide
  · rw [(hj.step hs).2] at hm
    cases hm

/-- The threads go on from any state of a lifetime. -/
theorem reach_statements {s : Lifetime FunctionType} (h : (lifetime FunctionType).Reachable s)
    {as : List (Action FunctionType)} {s₁ : State FunctionType}
    (hrun : (loop FunctionType).run (fun _ _ => True) s.toState as = some s₁) :
    (lifetime FunctionType).Reachable { s with toState := s₁ } := by
  induction as generalizing s with
  | nil =>
      cases hrun
      exact h
  | cons a as ih =>
      rw [TransitionSystem.run, if_pos trivial] at hrun
      obtain ⟨s₂, hs, hrest⟩ := Option.bind_eq_some_iff.mp hrun
      have hstep : Lifetime.step s (.statement a) = some { s with toState := s₂ } := by
        rw [Lifetime.step, show WorkerLoop.step s.toState a = some s₂ from hs]
        rfl
      have hreach : (lifetime FunctionType).Reachable { s with toState := s₂ } :=
        .step (l := .statement a) h trivial hstep
      exact @ih { s with toState := s₂ } hreach hrest

/-- The members are destroyed in order. -/
theorem left_suffix {s : Lifetime FunctionType} (h : (lifetime FunctionType).Reachable s) :
    s.left <:+ members.reverse := by
  induction h with
  | init h0 => exact h0.2 ▸ List.suffix_rfl
  | @step s s' a _ _ hs ih =>
      cases a with
      | statement a =>
          obtain ⟨s₁, _, rfl⟩ := Option.map_eq_some_iff.mp hs
          exact ih
      | destroy =>
          obtain ⟨m, hl⟩ := (destroy_left hs).2
          rw [hl] at ih
          exact (List.suffix_cons m _).trans ih

/-- The mutex is the first to go. -/
theorem mutex_destroyed {s s' : Lifetime FunctionType} (h : (lifetime FunctionType).Reachable s)
    (hs : s.destroy = some s') : .m_mutex ∉ s'.left := by
  obtain ⟨m, hl⟩ := (destroy_left hs).2
  have hsuffix := left_suffix h
  rw [hl] at hsuffix
  have htail : s'.left <:+ members.reverse.tail := by
    rcases List.suffix_cons_iff.mp hsuffix with heq | htail
    · rw [List.cons.inj heq |>.2]
      exact List.suffix_rfl
    · exact (List.suffix_cons m _).trans htail
  intro hmem
  exact absurd (htail.subset hmem) (by decide)

/-- **THE CONDITION IS EXACT**: when the destruction of a member finds a worker
    that has not returned, some run goes on to use a destroyed member. -/
theorem not_outlived_of_unsettled {s s' : Lifetime FunctionType}
    (h : (lifetime FunctionType).Reachable s) (hs : s.destroy = some s')
    (hj : ¬ s.toState.Joined) :
    ∃ s₁, (lifetime FunctionType).Reachable s₁ ∧ ¬ Outlived s₁ := by
  have hinv : Inv s.toState := reach_inv (reach_loop h)
  have hd : s.destructor = .notified := by
    rw [Lifetime.destroy] at hs
    split at hs
    · assumption
    · assumption
    · cases hs
  have hflag : s.m_should_work = false := by
    rw [← Bool.not_eq_true, hinv.flag, hd]
    simp
  have hreach : (lifetime FunctionType).Reachable s' := .step (l := .destroy) h trivial hs
  obtain ⟨as, s₁, a, s₂, hrun, ha, hm⟩ := can_use_mutex hinv hflag hj
  rw [← (destroy_left hs).1] at hrun
  refine ⟨_, reach_statements hreach hrun, ?_⟩
  intro hout
  exact mutex_destroyed h hs (hout a s₂ ha .m_mutex hm)

/-- The worker returns before the first member is destroyed. -/
theorem returned_worker_outlived : ∃ s : Lifetime Nat, (lifetime Nat).Reach Settled s
    ∧ s.workers = [.returned] ∧ s.left = [] ∧ Outlived s := by
  have h0 : (lifetime Nat).Reach Settled ⟨init 1, members.reverse⟩ := .init ⟨⟨1, rfl⟩, rfl⟩
  obtain ⟨s, hs, hw, hl⟩ := h0.exists_of_run (fun s => s.workers = [.returned] ∧ s.left = [])
    [.statement (.lock 0), .statement (.evaluate 0), .statement (.block 0), .statement .store,
      .statement .notify_all, .statement (.lock 0), .statement (.evaluate 0),
      .statement (.proceed 0), .destroy, .destroy, .destroy, .destroy, .destroy]
    (by decide)
  exact ⟨s, hs, hw, hl, outlived_of_settled hs⟩

/-- A worker comes back from a task when the mutex is gone, and locks it. -/
theorem locks_destroyed_mutex : ∃ s : Lifetime Nat, (lifetime Nat).Reachable s
    ∧ ¬ Outlived s := by
  have h0 : (lifetime Nat).Reachable ⟨init 1, members.reverse⟩ := .init ⟨⟨1, rfl⟩, rfl⟩
  obtain ⟨s, hs, hw, hm, hl⟩ := h0.exists_of_run
    (fun s => s.workers[0]? = some .locking ∧ s.m_mutex = none ∧ .m_mutex ∉ s.left)
    [.statement (.enqueue_task 7), .statement .push_back, .statement (.notify_one none),
      .statement .unlock, .statement (.lock 0), .statement (.evaluate 0),
      .statement (.proceed 0), .statement .store, .statement .notify_all, .destroy,
      .statement (.finish 0)]
    (by decide)
  refine ⟨s, hs, ?_⟩
  intro h
  have hlock := h (.lock 0) ((s.toState.goto 0 .predicate).lock (.worker 0))
    (by simp [step, hw, hm]) .m_mutex
  exact hl (hlock (by simp [uses]))

end WebLib.Pool.WorkerLoop
