import WebLib.ThreadPool

/-! # The worker loop, statement by statement

    The critical sections of `WebLib.ThreadPool` split where another thread can
    come between: taking `m_mutex`, evaluating the predicate of
    `m_condvar.wait`, releasing the mutex and blocking (one step, as
    `std::condition_variable` promises), being notified, the second load of
    `m_should_work` with the `pop_front` that follows it under the same lock,
    and the task itself.  `enqueue_task` and `clear` take the same mutex; the
    destructor's store and its `notify_all` do not.

    `refines` maps every step to one of the coarse system or to none. -/

namespace WebLib.Pool.WorkerLoop

open WebLib

universe u

variable {FunctionType : Type u}

/-- Where a worker is in its loop. -/
inductive Pc (FunctionType : Type u) where
  /-- at `std::unique_lock lock{m_mutex}` -/
  | locking
  /-- has the mutex, evaluates the predicate next -/
  | predicate
  /-- the predicate was false; still has the mutex -/
  | blocking
  /-- blocked in `wait`, no notification pending -/
  | blocked
  /-- notified (or awake for no reason), wants the mutex back -/
  | notified
  /-- the predicate was true; has the mutex, loads `m_should_work` next -/
  | loading
  /-- in `task()` -/
  | task (t : Task FunctionType)
  | returned
deriving DecidableEq, Repr

/-- The thread that has `m_mutex`, and how far it is if it is a caller. -/
inductive Owner (FunctionType : Type u) where
  | worker (i : Nat)
  | push_back (task : FunctionType)
  | notify_one
  | unlock
  | clear
deriving DecidableEq, Repr

/-- How far `~ThreadPool` is. -/
inductive Destructor where
  | alive
  | stored
  | notified
deriving DecidableEq, Repr

structure State (FunctionType : Type u) extends Shared FunctionType where
  workers : List (Pc FunctionType)
  m_mutex : Option (Owner FunctionType)
  destructor : Destructor
deriving DecidableEq, Repr

/-- The steps: a worker's by its index, a caller's by what it does, and the
    destructor's two.  `notify_one` names the worker it wakes. -/
inductive Action (FunctionType : Type u) where
  | lock (i : Nat)
  | evaluate (i : Nat)
  | block (i : Nat)
  | wake (i : Nat)
  | proceed (i : Nat)
  | finish (i : Nat)
  | enqueue_task (task : FunctionType)
  | push_back
  | notify_one (i : Option Nat)
  | unlock
  | lock_clear
  | clear
  | store
  | notify_all
deriving DecidableEq, Repr

/-- A worker that is in a `wait` with no notification gets one. -/
def Pc.notify : Pc FunctionType → Pc FunctionType
  | .blocked => .notified
  | pc => pc

/-- In `wait` with no notification pending. -/
def Pc.asleep : Pc FunctionType → Bool
  | .blocked => true
  | _ => false

/-- A worker between taking the mutex and releasing it. -/
def Pc.Locked : Pc FunctionType → Prop
  | .predicate | .blocking | .loading => True
  | _ => False

namespace State

/-- One worker moves on. -/
def goto (s : State FunctionType) (i : Nat) (pc : Pc FunctionType) : State FunctionType :=
  { s with workers := s.workers.set i pc }

def lock (s : State FunctionType) (owner : Owner FunctionType) : State FunctionType :=
  { s with m_mutex := some owner }

def unlock (s : State FunctionType) : State FunctionType := { s with m_mutex := none }

def with_shared (s : State FunctionType) (sh : Shared FunctionType) : State FunctionType :=
  { s with toShared := sh }

end State

/-- What a worker does past its wait: it returns, or pops and runs; either way
    it releases the mutex. -/
def proceed (s : State FunctionType) (i : Nat) : Option (State FunctionType) :=
  s.toShared.check_and_pop.map fun (w, sh) =>
    let pc := match w with
      | .running t => .task t
      | .returned => .returned
      | .waiting => .locking
    ((s.with_shared sh).goto i pc).unlock

def step (s : State FunctionType) : Action FunctionType → Option (State FunctionType)
  | .lock i =>
      match s.workers[i]?, s.m_mutex with
      | some .locking, none => some ((s.goto i .predicate).lock (.worker i))
      | some .notified, none => some ((s.goto i .predicate).lock (.worker i))
      | _, _ => none
  | .evaluate i =>
      match s.workers[i]? with
      | some .predicate =>
          some (s.goto i (if s.toShared.wait_predicate then .loading else .blocking))
      | _ => none
  | .block i =>
      match s.workers[i]? with
      | some .blocking => some (s.goto i .blocked).unlock
      | _ => none
  | .wake i =>
      match s.workers[i]? with
      | some .blocked => some (s.goto i .notified)
      | _ => none
  | .proceed i =>
      match s.workers[i]? with
      | some .loading => proceed s i
      | _ => none
  | .finish i =>
      match s.workers[i]? with
      | some (.task _) => some (s.goto i .locking)
      | _ => none
  | .enqueue_task task =>
      match s.m_mutex with
      | none => some (s.lock (.push_back task))
      | _ => none
  | .push_back =>
      match s.m_mutex with
      | some (.push_back task) =>
          some ((s.with_shared (s.toShared.push_back task)).lock .notify_one)
      | _ => none
  | .notify_one i =>
      match s.m_mutex, i with
      | some .notify_one, some i =>
          match s.workers[i]? with
          | some .blocked => some ((s.goto i .notified).lock .unlock)
          | _ => none
      | some .notify_one, none =>
          if s.workers.any Pc.asleep then none else some (s.lock .unlock)
      | _, _ => none
  | .unlock =>
      match s.m_mutex with
      | some .unlock => some s.unlock
      | _ => none
  | .lock_clear =>
      match s.m_mutex with
      | none => some (s.lock .clear)
      | _ => none
  | .clear =>
      match s.m_mutex with
      | some .clear => some (s.with_shared s.toShared.clear).unlock
      | _ => none
  | .store =>
      match s.destructor with
      | .alive => some { s.with_shared s.toShared.store with destructor := .stored }
      | _ => none
  | .notify_all =>
      match s.destructor with
      | .stored =>
          some { s with workers := s.workers.map Pc.notify, destructor := .notified }
      | _ => none

/-- A new pool: no thread has done anything yet. -/
def init (threads_count : Nat) : State FunctionType :=
  { toShared := (Pool.init threads_count : ThreadPool FunctionType).toShared
    workers := List.replicate threads_count .locking
    m_mutex := none
    destructor := .alive }

def loop (FunctionType : Type u) :
    TransitionSystem (State FunctionType) (Action FunctionType) where
  init s := ∃ threads_count, s = init threads_count
  step := step

/-! ## What a step can do -/

/-- The steps with what each requires. -/
inductive Move (s : State FunctionType) : Action FunctionType → State FunctionType → Prop where
  | lock {i : Nat} {pc : Pc FunctionType} : s.workers[i]? = some pc →
      pc = .locking ∨ pc = .notified → s.m_mutex = none →
      Move s (.lock i) ((s.goto i .predicate).lock (.worker i))
  | pass {i : Nat} : s.workers[i]? = some .predicate → s.toShared.wait_predicate = true →
      Move s (.evaluate i) (s.goto i .loading)
  | fail {i : Nat} : s.workers[i]? = some .predicate → s.toShared.wait_predicate = false →
      Move s (.evaluate i) (s.goto i .blocking)
  | block {i : Nat} : s.workers[i]? = some .blocking →
      Move s (.block i) (s.goto i .blocked).unlock
  | wake {i : Nat} : s.workers[i]? = some .blocked → Move s (.wake i) (s.goto i .notified)
  | leave {i : Nat} : s.workers[i]? = some .loading → s.m_should_work = false →
      Move s (.proceed i) (s.goto i .returned).unlock
  | pop {i : Nat} {t : Task FunctionType} {sh : Shared FunctionType} :
      s.workers[i]? = some .loading → s.m_should_work = true → s.toShared.pop_front = some (t, sh) →
      Move s (.proceed i) ((s.with_shared sh).goto i (.task t)).unlock
  | finish {i : Nat} {t : Task FunctionType} : s.workers[i]? = some (.task t) →
      Move s (.finish i) (s.goto i .locking)
  | enqueue_task {task : FunctionType} : s.m_mutex = none →
      Move s (.enqueue_task task) (s.lock (.push_back task))
  | push_back {task : FunctionType} : s.m_mutex = some (.push_back task) →
      Move s .push_back ((s.with_shared (s.toShared.push_back task)).lock .notify_one)
  | notify_one {i : Nat} : s.m_mutex = some .notify_one → s.workers[i]? = some .blocked →
      Move s (.notify_one (some i)) ((s.goto i .notified).lock .unlock)
  | notify_none : s.m_mutex = some .notify_one → s.workers.any Pc.asleep = false →
      Move s (.notify_one none) (s.lock .unlock)
  | unlock : s.m_mutex = some .unlock → Move s .unlock s.unlock
  | lock_clear : s.m_mutex = none → Move s .lock_clear (s.lock .clear)
  | clear : s.m_mutex = some .clear → Move s .clear (s.with_shared s.toShared.clear).unlock
  | store : s.destructor = .alive →
      Move s .store { s.with_shared s.toShared.store with destructor := .stored }
  | notify_all : s.destructor = .stored →
      Move s .notify_all { s with workers := s.workers.map Pc.notify, destructor := .notified }

theorem proceed_move {s s' : State FunctionType} {i : Nat} (hi : s.workers[i]? = some .loading)
    (h : proceed s i = some s') : Move s (.proceed i) s' := by
  obtain ⟨⟨w, sh⟩, hp, rfl⟩ := Option.map_eq_some_iff.mp h
  rw [Shared.check_and_pop] at hp
  split at hp
  · next hw =>
      obtain ⟨⟨t, sh'⟩, hpop, heq⟩ := Option.map_eq_some_iff.mp hp
      cases heq
      exact .pop hi hw hpop
  · next hw =>
      cases hp
      exact .leave hi (by simpa using hw)

/-- **WHAT A STEP CAN DO**: every step is one of the moves. -/
theorem step_move {s s' : State FunctionType} {a : Action FunctionType}
    (h : step s a = some s') : Move s a s' := by
  cases a <;> simp only [step] at h
  case evaluate i =>
    split at h
    · next hi =>
        cases h
        split
        · next hw => exact .pass hi hw
        · next hw => exact .fail hi (by simpa using hw)
    · cases h
  case proceed i =>
    split at h
    · next hi => exact proceed_move hi h
    · cases h
  case lock i =>
    split at h
    · next hi hm => cases h; exact .lock hi (Or.inl rfl) hm
    · next hi hm => cases h; exact .lock hi (Or.inr rfl) hm
    · cases h
  case notify_one i =>
    split at h
    · next hm =>
        split at h
        · next hi => cases h; exact .notify_one hm hi
        · cases h
    · next hm =>
        split at h
        · cases h
        · next hw => cases h; exact .notify_none hm (by simpa using hw)
    · cases h
  case block i => split at h <;> cases h; exact .block ‹_›
  case wake i => split at h <;> cases h; exact .wake ‹_›
  case finish i => split at h <;> cases h; exact .finish ‹_›
  case enqueue_task task => split at h <;> cases h; exact .enqueue_task ‹_›
  case push_back => split at h <;> cases h; exact .push_back ‹_›
  case unlock => split at h <;> cases h; exact .unlock ‹_›
  case lock_clear => split at h <;> cases h; exact .lock_clear ‹_›
  case clear => split at h <;> cases h; exact .clear ‹_›
  case store => split at h <;> cases h; exact .store ‹_›
  case notify_all => split at h <;> cases h; exact .notify_all ‹_›

/-! ## Mutual exclusion -/

/-- Worker `i` is between taking the mutex and releasing it. -/
def State.Inside (s : State FunctionType) (i : Nat) : Prop :=
  ∃ pc, s.workers[i]? = some pc ∧ pc.Locked

/-- The mutex belongs to the worker that is inside; past its wait the predicate
    still holds; the flag tells whether the destructor has begun. -/
structure Inv (s : State FunctionType) : Prop where
  mutex : ∀ i : Nat, s.m_mutex = some (.worker i) ↔ s.Inside i
  loading : ∀ i : Nat, s.workers[i]? = some .loading → s.toShared.wait_predicate = true
  flag : s.m_should_work = true ↔ s.destructor = .alive

namespace Inv

variable {s s' : State FunctionType}

/-- One worker moved; the others are where they were. -/
theorem goto (h : Inv s) {i : Nat} {pc pc' : Pc FunctionType} (hi : s.workers[i]? = some pc)
    (hw : s'.workers = s.workers.set i pc')
    (hin : s'.m_mutex = some (.worker i) ↔ pc'.Locked)
    (hothers : ∀ j, j ≠ i → (s'.m_mutex = some (.worker j) ↔ s.m_mutex = some (.worker j)))
    (hload : pc' = .loading → s'.toShared.wait_predicate = true)
    (hkeep : ∀ j : Nat, j ≠ i → s.workers[j]? = some .loading →
      s'.toShared.wait_predicate = true)
    (hflag : s'.m_should_work = true ↔ s'.destructor = .alive) : Inv s' where
  mutex := by
    intro j
    rw [State.Inside, hw, exists_getElem?_set hi]
    by_cases hji : j = i
    · rw [if_pos hji, hji, hin]
    · rw [if_neg hji, hothers j hji]
      exact h.mutex j
  loading := by
    intro j hj
    rw [hw, getElem?_set_of_some hi] at hj
    split at hj
    · exact hload (Option.some.inj hj)
    · next hji => exact hkeep j hji hj
  flag := hflag

/-- No worker moved. -/
theorem still (h : Inv s) (hw : s'.workers = s.workers)
    (hm : ∀ j, s'.m_mutex = some (.worker j) ↔ s.m_mutex = some (.worker j))
    (hkeep : ∀ j : Nat, s.workers[j]? = some .loading → s'.toShared.wait_predicate = true)
    (hflag : s'.m_should_work = true ↔ s'.destructor = .alive) : Inv s' where
  mutex := by
    intro j
    rw [State.Inside, hw, hm]
    exact h.mutex j
  loading := by
    intro j hj
    exact hkeep j (hw ▸ hj)
  flag := hflag

/-- A worker that is not inside does not have the mutex. -/
theorem not_owner (h : Inv s) {i : Nat} {pc : Pc FunctionType} (hi : s.workers[i]? = some pc)
    (hpc : ¬ pc.Locked) : s.m_mutex ≠ some (.worker i) := by
  intro hm
  obtain ⟨pc', hi', hl⟩ := (h.mutex i).mp hm
  rw [hi] at hi'
  exact hpc (Option.some.inj hi' ▸ hl)

/-- A worker that is inside has the mutex, so no other worker has it. -/
theorem owner (h : Inv s) {i : Nat} {pc : Pc FunctionType} (hi : s.workers[i]? = some pc)
    (hpc : pc.Locked) : s.m_mutex = some (.worker i) :=
  (h.mutex i).mpr ⟨pc, hi, hpc⟩

/-- A move inside the critical section. -/
theorem inside (h : Inv s) {i : Nat} {pc pc' : Pc FunctionType} (hi : s.workers[i]? = some pc)
    (hpc : pc.Locked) (hpc' : pc'.Locked)
    (hload : pc' = .loading → s.toShared.wait_predicate = true) : Inv (s.goto i pc') := by
  have hm := h.owner hi hpc
  refine h.goto hi rfl ?_ (fun j _ => Iff.rfl) hload (fun j _ => h.loading j) h.flag
  exact iff_of_true hm hpc'

/-- A move out of it. -/
theorem release (h : Inv s) {i : Nat} {pc pc' : Pc FunctionType} (hi : s.workers[i]? = some pc)
    (hpc : pc.Locked) (hpc' : ¬ pc'.Locked) : Inv (s.goto i pc').unlock := by
  have hm := h.owner hi hpc
  refine h.goto hi rfl ?_ ?_ ?_ (fun j _ => h.loading j) h.flag
  · exact iff_of_false (by simp [State.unlock]) hpc'
  · intro j hj
    simp [State.unlock, hm, Ne.symm hj]
  · rintro rfl
    exact absurd trivial hpc'

/-- A move outside it. -/
theorem outside (h : Inv s) {i : Nat} {pc pc' : Pc FunctionType} (hi : s.workers[i]? = some pc)
    (hpc : ¬ pc.Locked) (hpc' : ¬ pc'.Locked) : Inv (s.goto i pc') := by
  have hm := h.not_owner hi hpc
  refine h.goto hi rfl ?_ (fun j _ => Iff.rfl) ?_ (fun j _ => h.loading j) h.flag
  · exact iff_of_false hm hpc'
  · rintro rfl
    exact absurd trivial hpc'

/-- While the mutex is free or another thread has it, nobody is past its wait. -/
theorem not_loading (h : Inv s) {j : Nat} (hm : s.m_mutex ≠ some (.worker j)) :
    s.workers[j]? ≠ some .loading :=
  fun hj => hm (h.owner hj trivial)

theorem notify_locked (pc : Pc FunctionType) : pc.notify.Locked ↔ pc.Locked := by
  cases pc <;> exact Iff.rfl

/-- A notification changes nobody's hold on the mutex. -/
theorem notify_all (h : Inv s) (hd : s.destructor = .stored) :
    Inv { s with workers := s.workers.map Pc.notify, destructor := .notified } where
  mutex := by
    intro j
    rw [h.mutex j]
    exact (exists_getElem?_map notify_locked s.workers j).symm
  loading := by
    intro j hj
    rw [List.getElem?_map] at hj
    obtain ⟨pc, hj₀, hpc⟩ := Option.map_eq_some_iff.mp hj
    cases pc <;> first | exact h.loading j hj₀ | cases hpc
  flag := by
    have hf := h.flag
    rw [hd] at hf
    simpa using hf

/-- Every step keeps the invariant. -/
theorem step (h : Inv s) {a : Action FunctionType} (hs : WorkerLoop.step s a = some s') :
    Inv s' := by
  cases step_move hs with
  | lock hi hpc hm =>
      refine h.goto hi rfl (by simp [State.lock, Pc.Locked]) ?_ (by simp) ?_ h.flag
      · intro j hj
        simp [State.lock, State.goto, hm, Ne.symm hj]
      · intro j _ hl
        exact absurd hl (h.not_loading (by simp [hm]))
  | pass hi hw => exact h.inside hi trivial trivial fun _ => hw
  | fail hi hw => exact h.inside hi trivial trivial (by simp)
  | block hi => exact h.release hi trivial id
  | wake hi => exact h.outside hi id id
  | leave hi hw => exact h.release hi trivial id
  | finish hi => exact h.outside hi id id
  | pop hi hw hp =>
      have hm := h.owner hi trivial
      refine h.goto hi rfl (by simp [State.unlock, Pc.Locked]) ?_ (by simp) ?_ ?_
      · intro j hj
        simp [State.unlock, hm, Ne.symm hj]
      · intro j hj hl
        exact absurd hl (h.not_loading (by simp [hm, Ne.symm hj]))
      · rw [Shared.pop_front] at hp
        split at hp
        · cases hp
        · cases hp
          exact h.flag
  | notify_one hm hi =>
      refine h.goto hi rfl (by simp [State.lock, Pc.Locked]) ?_ (by simp)
        (fun j _ => h.loading j) h.flag
      intro j _
      simp [State.lock, hm]
  | enqueue_task hm => exact h.still rfl (by simp [State.lock, hm]) h.loading h.flag
  | push_back hm =>
      refine h.still rfl (by simp [State.lock, hm]) ?_ h.flag
      intro j _
      simp [State.lock, State.with_shared, Shared.wait_predicate, Shared.push_back]
  | notify_none hm hw => exact h.still rfl (by simp [State.lock, hm]) h.loading h.flag
  | unlock hm => exact h.still rfl (by simp [State.unlock, hm]) h.loading h.flag
  | lock_clear hm => exact h.still rfl (by simp [State.lock, hm]) h.loading h.flag
  | clear hm =>
      refine h.still rfl (by simp [State.unlock, hm]) ?_ h.flag
      intro j hl
      exact absurd hl (h.not_loading (by simp [hm]))
  | store hd =>
      refine h.still rfl (fun j => Iff.rfl) ?_ (by simp [State.with_shared, Shared.store])
      intro j _
      simp [State.with_shared, Shared.wait_predicate, Shared.store]
  | notify_all hd => exact h.notify_all hd

end Inv

theorem inv_init (threads_count : Nat) : Inv (init threads_count : State FunctionType) := by
  have locking : ∀ (i : Nat) (pc : Pc FunctionType),
      (init threads_count : State FunctionType).workers[i]? = some pc → pc = .locking := by
    intro i pc hi
    simp only [init, List.getElem?_replicate] at hi
    split at hi <;> cases hi
    rfl
  refine ⟨?_, ?_, by simp [init, Pool.init]⟩
  · intro i
    refine ⟨(fun h => by cases h), ?_⟩
    rintro ⟨pc, hi, hl⟩
    rw [locking i pc hi] at hl
    cases hl
  · intro i hi
    cases locking i _ hi

theorem reach_inv {ok : State FunctionType → Action FunctionType → Prop}
    {s : State FunctionType} (h : (loop FunctionType).Reach ok s) : Inv s := by
  refine h.invariant ?_ ?_
  · rintro s ⟨n, rfl⟩
    exact inv_init n
  · intro s a s' hinv _ hs
    exact hinv.step hs

/-! ## The coarse system -/

/-- What the coarse system sees of a worker. -/
def Pc.worker : Pc FunctionType → Worker FunctionType
  | .task t => .running t
  | .returned => .returned
  | _ => .waiting

/-- The coarse state. -/
def State.pool (s : State FunctionType) : ThreadPool FunctionType :=
  { toShared := s.toShared, m_workers := s.workers.map Pc.worker }

theorem map_worker_notify (l : List (Pc FunctionType)) :
    (l.map Pc.notify).map Pc.worker = l.map Pc.worker := by
  rw [List.map_map]
  apply List.map_congr_left
  intro pc _
  cases pc <;> rfl

/-- A move inside one critical section is invisible. -/
theorem pool_goto {s s' : State FunctionType} {i : Nat} {pc pc' : Pc FunctionType}
    (hi : s.workers[i]? = some pc) (hws : s'.workers = s.workers.set i pc')
    (hw : pc.worker = pc'.worker) (hs : s'.toShared = s.toShared) : s'.pool = s.pool := by
  rw [State.pool, State.pool, hs, hws, map_set_of_eq hi hw]

/-- The visible moves are the atomic sections, the others change nothing the
    coarse system has. -/
theorem refines_step {s s' : State FunctionType} {a : Action FunctionType} (h : Inv s)
    (hs : step s a = some s') : s'.pool = s.pool ∨ ∃ b, Pool.step s.pool b = some s'.pool := by
  cases step_move hs with
  | lock hi hpc hm =>
      refine Or.inl (pool_goto hi rfl ?_ rfl)
      rcases hpc with rfl | rfl <;> rfl
  | pass hi hw => exact Or.inl (pool_goto hi rfl rfl rfl)
  | fail hi hw => exact Or.inl (pool_goto hi rfl rfl rfl)
  | block hi => exact Or.inl (pool_goto hi rfl rfl rfl)
  | wake hi => exact Or.inl (pool_goto hi rfl rfl rfl)
  | notify_one hm hi => exact Or.inl (pool_goto hi rfl rfl rfl)
  | @leave i hi hw =>
      have hpred := h.loading i hi
      refine Or.inr ⟨.check_and_pop i, ?_⟩
      simp [Pool.step, State.pool, hi, Pc.worker, hpred, Shared.check_and_pop, hw,
        State.goto, State.unlock]
  | @pop i t sh hi hw hp =>
      have hpred := h.loading i hi
      refine Or.inr ⟨.check_and_pop i, ?_⟩
      simp [Pool.step, State.pool, hi, Pc.worker, hpred, Shared.check_and_pop, hw, hp,
        State.goto, State.unlock, State.with_shared]
  | @finish i t hi =>
      refine Or.inr ⟨.finish i, ?_⟩
      simp [Pool.step, State.pool, hi, Pc.worker, State.goto]
  | @push_back task hm => exact Or.inr ⟨.enqueue_task task, rfl⟩
  | clear hm => exact Or.inr ⟨.clear, rfl⟩
  | store hd => exact Or.inr ⟨.shutdown, rfl⟩
  | notify_all hd => exact Or.inl (by simp only [State.pool, map_worker_notify])
  | enqueue_task hm => exact Or.inl rfl
  | notify_none hm hw => exact Or.inl rfl
  | unlock hm => exact Or.inl rfl
  | lock_clear hm => exact Or.inl rfl

/-- **REFINEMENT**: what the workers and callers do statement by statement is a
    run of the atomic sections. -/
theorem refines {s : State FunctionType} (h : (loop FunctionType).Reachable s) :
    (pool FunctionType).Reachable s.pool := by
  induction h with
  | init h0 =>
      obtain ⟨n, rfl⟩ := h0
      exact .init ⟨n, by simp [State.pool, init, Pool.init, Pc.worker]⟩
  | step hr _ hs ih =>
      rcases refines_step (reach_inv hr) hs with heq | ⟨b, hb⟩
      · exact heq ▸ ih
      · exact .step ih trivial hb

/-- Conservation holds between any two statements. -/
theorem reach_conserved {s : State FunctionType} (h : (loop FunctionType).Reachable s) :
    s.toShared.Conserved :=
  Pool.reach_conserved (refines h)

/-- A worker that has loaded `true` finds a task to pop. -/
theorem pop_nonempty {ok : State FunctionType → Action FunctionType → Prop}
    {s : State FunctionType} (h : (loop FunctionType).Reach ok s) {i : Nat}
    (hi : s.workers[i]? = some .loading) (hw : s.m_should_work = true) : s.m_tasks ≠ [] := by
  have hp := (reach_inv h).loading i hi
  rw [Shared.wait_predicate, hw] at hp
  intro hnil
  rw [hnil] at hp
  cases hp

end WebLib.Pool.WorkerLoop
