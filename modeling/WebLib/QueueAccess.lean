import WebLib.WorkerLoop

/-! # The worker loop, access by access

    `WebLib.WorkerLoop` with every access of a worker to what the threads share
    as a step of its own: the predicate tests `m_tasks` and then, only if it is
    empty, loads `m_should_work`; past the wait the flag is loaded again; then
    come `front()`, `pop_front()` and the release of the mutex.  The destructor
    can store the flag between any two of them.  `front()` and `pop_front()` of
    an empty deque are undefined, and a worker that got there says so.

    A load that still reads `true` after the store counts as a load before it:
    what one thread reads of one atomic never goes back. -/

namespace WebLib.Pool.QueueAccess

open WebLib WorkerLoop

universe u

variable {FunctionType : Type u}

/-- Where a worker is in its loop. -/
inductive Pc (FunctionType : Type u) where
  /-- at `std::unique_lock lock{m_mutex}` -/
  | locking
  /-- in the predicate, at `!m_tasks.empty()` -/
  | empty_test
  /-- in the predicate, the deque was empty, at `!m_should_work.load()` -/
  | flag_test
  /-- the predicate was false; still has the mutex -/
  | blocking
  /-- blocked in `wait`, no notification pending -/
  | blocked
  /-- notified (or awake for no reason), wants the mutex back -/
  | notified
  /-- the predicate was true; at the second load of `m_should_work` -/
  | loading
  /-- at `std::move(m_tasks.front())` -/
  | front
  /-- has moved the task out; at `m_tasks.pop_front()` -/
  | pop_front (t : Task FunctionType)
  /-- at `lock.unlock()` -/
  | unlocking (t : Task FunctionType)
  /-- in `task()` -/
  | task (t : Task FunctionType)
  /-- loaded `false`; `lock` is released on the way out -/
  | returning
  | returned
  /-- called `front()` or `pop_front()` on an empty deque -/
  | undefined
deriving DecidableEq, Repr

structure State (FunctionType : Type u) extends Shared FunctionType where
  workers : List (Pc FunctionType)
  m_mutex : Option (Owner FunctionType)
  destructor : Destructor
deriving DecidableEq, Repr

/-- A worker's next access, by its index, or what another thread does. -/
inductive Action (FunctionType : Type u) where
  | next (i : Nat)
  | enqueue_task (task : FunctionType)
  | push_back
  | notify_one (i : Option Nat)
  | unlock
  | lock_clear
  | clear
  | store
  | notify_all
deriving DecidableEq, Repr

/-- A worker that is in a `wait` with no notification gets one. -/
def Pc.notify : Pc FunctionType → Pc FunctionType
  | .blocked => .notified
  | pc => pc

/-- In `wait` with no notification pending. -/
def Pc.asleep : Pc FunctionType → Bool
  | .blocked => true
  | _ => false

/-- A worker between taking the mutex and releasing it. -/
def Pc.Locked : Pc FunctionType → Prop
  | .empty_test | .flag_test | .blocking | .loading | .front | .pop_front _ | .unlocking _
  | .returning => True
  | _ => False

namespace State

/-- One worker moves on. -/
def goto (s : State FunctionType) (i : Nat) (pc : Pc FunctionType) : State FunctionType :=
  { s with workers := s.workers.set i pc }

def lock (s : State FunctionType) (owner : Owner FunctionType) : State FunctionType :=
  { s with m_mutex := some owner }

def unlock (s : State FunctionType) : State FunctionType := { s with m_mutex := none }

def with_shared (s : State FunctionType) (sh : Shared FunctionType) : State FunctionType :=
  { s with toShared := sh }

end State

/-- The next access of worker `i`, which is at `pc`; a blocked one wakes up,
    for no reason. -/
def next (s : State FunctionType) (i : Nat) : Pc FunctionType → Option (State FunctionType)
  | .locking | .notified =>
      match s.m_mutex with
      | none => some ((s.goto i .empty_test).lock (.worker i))
      | some _ => none
  | .empty_test => some (s.goto i (if s.m_tasks.isEmpty then .flag_test else .loading))
  | .flag_test => some (s.goto i (if s.m_should_work then .blocking else .loading))
  | .blocking => some (s.goto i .blocked).unlock
  | .blocked => some (s.goto i .notified)
  | .loading => some (s.goto i (if s.m_should_work then .front else .returning))
  | .front =>
      match s.m_tasks with
      | [] => some (s.goto i .undefined)
      | t :: _ => some (s.goto i (.pop_front t))
  | .pop_front t =>
      match s.toShared.pop_front with
      | none => some (s.goto i .undefined)
      | some (_, sh) => some ((s.with_shared sh).goto i (.unlocking t))
  | .unlocking t => some (s.goto i (.task t)).unlock
  | .task _ => some (s.goto i .locking)
  | .returning => some (s.goto i .returned).unlock
  | .returned | .undefined => none

def step (s : State FunctionType) : Action FunctionType → Option (State FunctionType)
  | .next i => s.workers[i]?.bind (next s i)
  | .enqueue_task task =>
      match s.m_mutex with
      | none => some (s.lock (.push_back task))
      | _ => none
  | .push_back =>
      match s.m_mutex with
      | some (.push_back task) =>
          some ((s.with_shared (s.toShared.push_back task)).lock .notify_one)
      | _ => none
  | .notify_one i =>
      match s.m_mutex, i with
      | some .notify_one, some i =>
          match s.workers[i]? with
          | some .blocked => some ((s.goto i .notified).lock .unlock)
          | _ => none
      | some .notify_one, none =>
          if s.workers.any Pc.asleep then none else some (s.lock .unlock)
      | _, _ => none
  | .unlock =>
      match s.m_mutex with
      | some .unlock => some s.unlock
      | _ => none
  | .lock_clear =>
      match s.m_mutex with
      | none => some (s.lock .clear)
      | _ => none
  | .clear =>
      match s.m_mutex with
      | some .clear => some (s.with_shared s.toShared.clear).unlock
      | _ => none
  | .store =>
      match s.destructor with
      | .alive => some { s.with_shared s.toShared.store with destructor := .stored }
      | _ => none
  | .notify_all =>
      match s.destructor with
      | .stored =>
          some { s with workers := s.workers.map Pc.notify, destructor := .notified }
      | _ => none

/-- A new pool: no thread has done anything yet. -/
def init (threads_count : Nat) : State FunctionType :=
  { toShared := (Pool.init threads_count : ThreadPool FunctionType).toShared
    workers := List.replicate threads_count .locking
    m_mutex := none
    destructor := .alive }

def accesses (FunctionType : Type u) :
    TransitionSystem (State FunctionType) (Action FunctionType) where
  init s := ∃ threads_count, s = init threads_count
  step := step

/-! ## What holds at each place -/

/-- What a worker knows of the deque and the flag where it is. -/
def Pc.Knows (sh : Shared FunctionType) : Pc FunctionType → Prop
  | .flag_test => sh.m_tasks = []
  | .loading => sh.wait_predicate = true
  | .front => sh.m_tasks ≠ []
  | .pop_front t => sh.m_tasks.head? = some t
  | .returning => sh.m_should_work = false
  | .undefined => False
  | _ => True

/-- The store takes nothing from what a worker knows. -/
theorem Pc.Knows.store {sh : Shared FunctionType} {pc : Pc FunctionType} (h : pc.Knows sh) :
    pc.Knows sh.store := by
  cases pc with
  | loading => simp [Pc.Knows, Shared.wait_predicate, Shared.store]
  | returning => exact rfl
  | _ => exact h

/-- Outside the critical section a worker knows nothing of the two. -/
theorem Pc.Knows.of_not_locked {sh : Shared FunctionType} {pc : Pc FunctionType}
    (h : pc.Knows sh) (hpc : ¬ pc.Locked) (sh' : Shared FunctionType) : pc.Knows sh' := by
  cases pc <;> first | exact h | exact absurd trivial hpc

/-- Worker `i` is between taking the mutex and releasing it. -/
def State.Inside (s : State FunctionType) (i : Nat) : Prop :=
  ∃ pc, s.workers[i]? = some pc ∧ pc.Locked

/-- The mutex belongs to the worker that is inside, and every worker's knowledge
    is true. -/
structure Inv (s : State FunctionType) : Prop where
  mutex : ∀ i : Nat, s.m_mutex = some (.worker i) ↔ s.Inside i
  knows : ∀ (i : Nat) (pc : Pc FunctionType), s.workers[i]? = some pc → pc.Knows s.toShared

namespace Inv

variable {s s' : State FunctionType} {i : Nat} {pc pc' : Pc FunctionType}

/-- One worker moved; the others are where they were. -/
theorem goto (h : Inv s) (hi : s.workers[i]? = some pc) (hw : s'.workers = s.workers.set i pc')
    (hin : s'.m_mutex = some (.worker i) ↔ pc'.Locked)
    (hothers : ∀ j, j ≠ i → (s'.m_mutex = some (.worker j) ↔ s.m_mutex = some (.worker j)))
    (hknows : pc'.Knows s'.toShared)
    (hkeep : ∀ (j : Nat) (q : Pc FunctionType), j ≠ i → s.workers[j]? = some q →
      q.Knows s'.toShared) : Inv s' where
  mutex := by
    intro j
    rw [State.Inside, hw, exists_getElem?_set hi]
    by_cases hji : j = i
    · rw [if_pos hji, hji, hin]
    · rw [if_neg hji, hothers j hji]
      exact h.mutex j
  knows := by
    intro j q hj
    rw [hw, getElem?_set_of_some hi] at hj
    split at hj
    · exact Option.some.inj hj ▸ hknows
    · next hji => exact hkeep j q hji hj

/-- A worker that is inside has the mutex. -/
theorem owner (h : Inv s) (hi : s.workers[i]? = some pc) (hpc : pc.Locked) :
    s.m_mutex = some (.worker i) := (h.mutex i).mpr ⟨pc, hi, hpc⟩

/-- A worker that is not inside does not have it. -/
theorem not_owner (h : Inv s) (hi : s.workers[i]? = some pc) (hpc : ¬ pc.Locked) :
    s.m_mutex ≠ some (.worker i) := by
  intro hm
  obtain ⟨q, hq, hl⟩ := (h.mutex i).mp hm
  rw [hi] at hq
  exact hpc (Option.some.inj hq ▸ hl)

/-- A worker without the mutex is not inside. -/
theorem not_locked (h : Inv s) (hi : s.workers[i]? = some pc)
    (hm : s.m_mutex ≠ some (.worker i)) : ¬ pc.Locked := fun hpc => hm (h.owner hi hpc)

/-- While another thread has the mutex, or nobody, the deque can change. -/
theorem knows_anything (h : Inv s) (hi : s.workers[i]? = some pc)
    (hm : s.m_mutex ≠ some (.worker i)) (sh : Shared FunctionType) : pc.Knows sh :=
  (h.knows i pc hi).of_not_locked (h.not_locked hi hm) sh

/-- A move inside the critical section. -/
theorem inside (h : Inv s) (hi : s.workers[i]? = some pc) (hpc : pc.Locked) (hpc' : pc'.Locked)
    (hknows : pc'.Knows s.toShared) : Inv (s.goto i pc') := by
  have hm := h.owner hi hpc
  refine h.goto hi rfl ?_ (fun j _ => Iff.rfl) hknows (fun j q _ => h.knows j q)
  exact iff_of_true hm hpc'

/-- A move out of the critical section. -/
theorem release (h : Inv s) (hi : s.workers[i]? = some pc) (hpc : pc.Locked) (hpc' : ¬ pc'.Locked)
    (hknows : pc'.Knows s.toShared) : Inv (s.goto i pc').unlock := by
  have hm := h.owner hi hpc
  refine h.goto hi rfl ?_ ?_ hknows (fun j q _ => h.knows j q)
  · exact iff_of_false (by simp [State.unlock]) hpc'
  · intro j hj
    simp [State.unlock, hm, Ne.symm hj]

/-- A move outside it. -/
theorem outside (h : Inv s) (hi : s.workers[i]? = some pc) (hpc : ¬ pc.Locked) (hpc' : ¬ pc'.Locked)
    (hknows : pc'.Knows s.toShared) : Inv (s.goto i pc') := by
  have hm := h.not_owner hi hpc
  refine h.goto hi rfl ?_ (fun j _ => Iff.rfl) hknows (fun j q _ => h.knows j q)
  exact iff_of_false hm hpc'

/-- The mutex is taken. -/
theorem take (h : Inv s) (hi : s.workers[i]? = some pc) (hm : s.m_mutex = none) :
    Inv ((s.goto i .empty_test).lock (.worker i)) := by
  refine h.goto hi rfl (by simp [State.lock, Pc.Locked]) ?_ trivial (fun j q _ => h.knows j q)
  intro j hj
  simp [State.lock, State.goto, hm, Ne.symm hj]

/-- Every access of a worker keeps the invariant. -/
theorem next (h : Inv s) (hi : s.workers[i]? = some pc) (hs : QueueAccess.next s i pc = some s') :
    Inv s' := by
  have hknows := h.knows i pc hi
  cases pc <;> simp only [QueueAccess.next] at hs
  case locking | notified =>
    split at hs <;> cases hs
    next hm => exact h.take hi hm
  case empty_test =>
    cases hs
    split
    · next he => exact h.inside hi trivial trivial (List.isEmpty_iff.mp he)
    · next he =>
        refine h.inside hi trivial trivial ?_
        simpa [Pc.Knows, Shared.wait_predicate] using Or.inl he
  case flag_test =>
    cases hs
    split
    · exact h.inside hi trivial trivial trivial
    · next hw =>
        refine h.inside hi trivial trivial ?_
        simpa [Pc.Knows, Shared.wait_predicate] using Or.inr hw
  case loading =>
    cases hs
    split
    · next hw =>
        -- the predicate was true and the flag still is, so the deque is not empty
        refine h.inside hi trivial trivial ?_
        simpa [Pc.Knows, Shared.wait_predicate, hw] using hknows
    · next hw => exact h.inside hi trivial trivial (Bool.eq_false_iff.mpr hw)
  case front =>
    split at hs
    · next hnil => exact absurd hnil hknows
    · next t rest heq =>
        cases hs
        refine h.inside hi trivial trivial ?_
        simp [Pc.Knows, heq]
  case pop_front t =>
    rw [Shared.pop_front] at hs
    have hm := h.owner hi trivial
    cases hq : s.m_tasks with
    | nil => simp [Pc.Knows, hq] at hknows
    | cons t' rest =>
        simp only [hq] at hs
        cases hs
        refine h.goto hi rfl ?_ (fun j _ => Iff.rfl) trivial ?_
        · exact iff_of_true hm trivial
        · intro j q hj hq'
          exact h.knows_anything hq' (by simp [hm, Ne.symm hj]) _
  case blocking => cases hs; exact h.release hi trivial id trivial
  case unlocking t => cases hs; exact h.release hi trivial id trivial
  case returning => cases hs; exact h.release hi trivial id trivial
  case blocked => cases hs; exact h.outside hi id id trivial
  case task t => cases hs; exact h.outside hi id id trivial
  case returned | undefined => cases hs

/-- A caller moved on; no worker did. -/
theorem still (h : Inv s) (hw : s'.workers = s.workers)
    (hm : ∀ j, s'.m_mutex = some (.worker j) ↔ s.m_mutex = some (.worker j))
    (hkeep : ∀ (j : Nat) (q : Pc FunctionType), s.workers[j]? = some q → q.Knows s'.toShared) :
    Inv s' where
  mutex := by
    intro j
    rw [State.Inside, hw, hm]
    exact h.mutex j
  knows := by
    intro j q hj
    exact hkeep j q (hw ▸ hj)

theorem notify_locked (pc : Pc FunctionType) : pc.notify.Locked ↔ pc.Locked := by
  cases pc <;> exact Iff.rfl

/-- A notification changes nobody's hold on the mutex. -/
theorem notify_all (h : Inv s) :
    Inv { s with workers := s.workers.map Pc.notify, destructor := .notified } where
  mutex := by
    intro j
    rw [h.mutex j]
    exact (exists_getElem?_map notify_locked s.workers j).symm
  knows := by
    intro j q hj
    rw [List.getElem?_map] at hj
    obtain ⟨pc, hj₀, rfl⟩ := Option.map_eq_some_iff.mp hj
    have hknows := h.knows j pc hj₀
    cases pc <;> exact hknows

end Inv

/-! ## What the other threads can do -/

/-- The steps of the callers and of the destructor, with what each requires. -/
inductive Move (s : State FunctionType) : Action FunctionType → State FunctionType → Prop where
  | next {i : Nat} {pc : Pc FunctionType} {s' : State FunctionType} : s.workers[i]? = some pc →
      QueueAccess.next s i pc = some s' → Move s (.next i) s'
  | enqueue_task {task : FunctionType} : s.m_mutex = none →
      Move s (.enqueue_task task) (s.lock (.push_back task))
  | push_back {task : FunctionType} : s.m_mutex = some (.push_back task) →
      Move s .push_back ((s.with_shared (s.toShared.push_back task)).lock .notify_one)
  | notify_one {i : Nat} : s.m_mutex = some .notify_one → s.workers[i]? = some .blocked →
      Move s (.notify_one (some i)) ((s.goto i .notified).lock .unlock)
  | notify_none : s.m_mutex = some .notify_one → s.workers.any Pc.asleep = false →
      Move s (.notify_one none) (s.lock .unlock)
  | unlock : s.m_mutex = some .unlock → Move s .unlock s.unlock
  | lock_clear : s.m_mutex = none → Move s .lock_clear (s.lock .clear)
  | clear : s.m_mutex = some .clear → Move s .clear (s.with_shared s.toShared.clear).unlock
  | store : s.destructor = .alive →
      Move s .store { s.with_shared s.toShared.store with destructor := .stored }
  | notify_all : s.destructor = .stored →
      Move s .notify_all { s with workers := s.workers.map Pc.notify, destructor := .notified }

/-- **WHAT A STEP CAN DO**: every step is one of the moves. -/
theorem step_move {s s' : State FunctionType} {a : Action FunctionType}
    (h : step s a = some s') : Move s a s' := by
  cases a <;> simp only [step] at h
  case next i =>
    obtain ⟨pc, hi, hs⟩ := Option.bind_eq_some_iff.mp h
    exact .next hi hs
  case notify_one i =>
    split at h
    · next hm =>
        split at h
        · next hi => cases h; exact .notify_one hm hi
        · cases h
    · next hm =>
        split at h
        · cases h
        · next hw => cases h; exact .notify_none hm (by simpa using hw)
    · cases h
  case enqueue_task task => split at h <;> cases h; exact .enqueue_task ‹_›
  case push_back => split at h <;> cases h; exact .push_back ‹_›
  case unlock => split at h <;> cases h; exact .unlock ‹_›
  case lock_clear => split at h <;> cases h; exact .lock_clear ‹_›
  case clear => split at h <;> cases h; exact .clear ‹_›
  case store => split at h <;> cases h; exact .store ‹_›
  case notify_all => split at h <;> cases h; exact .notify_all ‹_›

/-- Every step keeps the invariant. -/
theorem Inv.step {s s' : State FunctionType} {a : Action FunctionType} (h : Inv s)
    (hs : QueueAccess.step s a = some s') : Inv s' := by
  cases step_move hs with
  | next hi hn => exact h.next hi hn
  | enqueue_task hm => exact h.still rfl (by simp [State.lock, hm]) h.knows
  | push_back hm =>
      refine h.still rfl (by simp [State.lock, hm]) ?_
      intro j q hj
      exact h.knows_anything hj (by simp [hm]) _
  | notify_one hm hi =>
      refine h.goto hi rfl (iff_of_false (by simp [State.lock]) id) ?_ trivial
        (fun j q _ => h.knows j q)
      intro j _
      simp [State.lock, hm]
  | notify_none hm hw => exact h.still rfl (by simp [State.lock, hm]) h.knows
  | unlock hm => exact h.still rfl (by simp [State.unlock, hm]) h.knows
  | lock_clear hm => exact h.still rfl (by simp [State.lock, hm]) h.knows
  | clear hm =>
      refine h.still rfl (by simp [State.unlock, hm]) ?_
      intro j q hj
      exact h.knows_anything hj (by simp [hm]) _
  | store hd => exact h.still rfl (fun j => Iff.rfl) (fun j q hj => (h.knows j q hj).store)
  | notify_all hd => exact h.notify_all

theorem inv_init (threads_count : Nat) : Inv (init threads_count : State FunctionType) := by
  have locking : ∀ (i : Nat) (pc : Pc FunctionType),
      (init threads_count : State FunctionType).workers[i]? = some pc → pc = .locking := by
    intro i pc hi
    simp only [init, List.getElem?_replicate] at hi
    split at hi <;> cases hi
    rfl
  refine ⟨?_, ?_⟩
  · intro i
    refine ⟨(fun h => by cases h), ?_⟩
    rintro ⟨pc, hi, hl⟩
    rw [locking i pc hi] at hl
    cases hl
  · intro i pc hi
    rw [locking i pc hi]
    trivial

theorem reach_inv {s : State FunctionType} (h : (accesses FunctionType).Reachable s) : Inv s := by
  refine h.invariant ?_ fun s a s' hinv _ hs => hinv.step hs
  rintro s ⟨n, rfl⟩
  exact inv_init n

/-- **NO WORKER POPS AN EMPTY DEQUE**: in every run, a worker at `front()` finds
    a task, the task it has moved out is still the first at `pop_front()`, and
    none is undefined. -/
theorem never_pops_empty {s : State FunctionType} (h : (accesses FunctionType).Reachable s)
    {i : Nat} {pc : Pc FunctionType} (hi : s.workers[i]? = some pc) :
    (pc = .front → s.m_tasks ≠ [])
      ∧ (∀ t, pc = .pop_front t → s.m_tasks.head? = some t)
      ∧ pc ≠ .undefined := by
  have hknows := (reach_inv h).knows i pc hi
  refine ⟨?_, ?_, ?_⟩
  · rintro rfl
    exact hknows
  · rintro t rfl
    exact hknows
  · rintro rfl
    exact hknows

/-- The flag is stored between the second load and `front()`. -/
theorem front_after_store : ∃ s : State Nat, (accesses Nat).Reachable s
    ∧ s.workers[1]? = some .front ∧ s.m_should_work = false ∧ s.m_tasks ≠ [] := by
  have h0 : (accesses Nat).Reachable (init 2) := .init ⟨2, rfl⟩
  obtain ⟨s, hs, hi, hw⟩ := h0.exists_of_run
    (fun s => s.workers[1]? = some .front ∧ s.m_should_work = false)
    [.next 0, .next 0, .next 0, .next 0, .enqueue_task 7, .push_back, .notify_one (some 0),
      .unlock, .next 1, .next 1, .next 1, .store]
    (by decide)
  exact ⟨s, hs, hi, hw, (never_pops_empty hs hi).1 rfl⟩

/-! ## The steps of the loop statement by statement -/

/-- The place in the coarser loop.  A worker that has loaded `true` has popped
    there, one that has loaded `false` has not looked yet. -/
def Pc.coarse (m_tasks : List (Task FunctionType)) : Pc FunctionType → WorkerLoop.Pc FunctionType
  | .locking | .undefined => .locking
  | .empty_test | .flag_test => .predicate
  | .blocking => .blocking
  | .blocked => .blocked
  | .notified => .notified
  | .loading | .returning => .loading
  | .front =>
      match m_tasks with
      | [] => .locking
      | t :: _ => .task t
  | .pop_front t | .unlocking t | .task t => .task t
  | .returned => .returned

/-- Where the worker that has the mutex is. -/
def State.stage (s : State FunctionType) : Option (Pc FunctionType) :=
  match s.m_mutex with
  | some (.worker i) => s.workers[i]?
  | _ => none

/-- The deque without the task that is being popped. -/
def coarse_shared (sh : Shared FunctionType) : Option (Pc FunctionType) → Shared FunctionType
  | some .front | some (.pop_front _) => (sh.pop_front.map Prod.snd).getD sh
  | _ => sh

/-- A worker that has loaded `true` no longer has the mutex. -/
def coarse_mutex (m_mutex : Option (Owner FunctionType)) :
    Option (Pc FunctionType) → Option (Owner FunctionType)
  | some .front | some (.pop_front _) | some (.unlocking _) => none
  | _ => m_mutex

/-- The state of the coarser loop. -/
def State.coarse (s : State FunctionType) : WorkerLoop.State FunctionType :=
  { toShared := coarse_shared s.toShared s.stage
    workers := s.workers.map (Pc.coarse s.m_tasks)
    m_mutex := coarse_mutex s.m_mutex s.stage
    destructor := s.destructor }

theorem stage_of_owner {s : State FunctionType} {i : Nat} (hm : s.m_mutex = some (.worker i)) :
    s.stage = s.workers[i]? := by rw [State.stage, hm]

theorem stage_of_caller {s : State FunctionType} (hm : ∀ i, s.m_mutex ≠ some (.worker i)) :
    s.stage = none := by
  rw [State.stage]
  split
  · next i hi => exact absurd hi (hm i)
  · rfl

/-- The owner moved on under the mutex. -/
theorem stage_goto {s s' : State FunctionType} {i : Nat} {pc pc' : Pc FunctionType}
    (hm : s'.m_mutex = some (.worker i)) (hi : s.workers[i]? = some pc)
    (hw : s'.workers = s.workers.set i pc') : s'.stage = some pc' := by
  rw [stage_of_owner hm, hw, getElem?_set_of_some hi, if_pos rfl]

/-- Only the places of workers inside depend on the deque. -/
theorem coarse_of_not_locked {pc : Pc FunctionType} (hpc : ¬ pc.Locked)
    (m m' : List (Task FunctionType)) : pc.coarse m = pc.coarse m' := by
  cases pc <;> first | rfl | exact absurd trivial hpc

/-- While a caller has the mutex the deque can change. -/
theorem map_coarse_of_caller {s : State FunctionType} (h : Inv s)
    (hm : ∀ i, s.m_mutex ≠ some (.worker i)) (m : List (Task FunctionType)) :
    s.workers.map (Pc.coarse m) = s.workers.map (Pc.coarse s.m_tasks) := by
  apply List.map_congr_left
  intro pc hpc
  obtain ⟨i, hi⟩ := List.mem_iff_getElem?.mp hpc
  exact coarse_of_not_locked (h.not_locked hi (hm i)) _ _

/-- The coarser state, with the place of the owner known. -/
theorem coarse_of_stage {s : State FunctionType} {o : Option (Pc FunctionType)}
    (h : s.stage = o) : s.coarse =
      { toShared := coarse_shared s.toShared o
        workers := s.workers.map (Pc.coarse s.m_tasks)
        m_mutex := coarse_mutex s.m_mutex o
        destructor := s.destructor } := by
  rw [State.coarse, h]

/-- A worker with the mutex goes from one place to another that the coarser loop
    sees in the same way. -/
theorem coarse_inside {s : State FunctionType} {i : Nat} {pc : Pc FunctionType}
    (hm : s.m_mutex = some (.worker i)) (hi : s.workers[i]? = some pc) (pc' : Pc FunctionType)
    (hsh : coarse_shared s.toShared (some pc') = coarse_shared s.toShared (some pc))
    (hmu : coarse_mutex s.m_mutex (some pc') = coarse_mutex s.m_mutex (some pc)) :
    (s.goto i pc').coarse = s.coarse.goto i (pc'.coarse s.m_tasks) := by
  have hstage : s.stage = some pc := by rw [stage_of_owner hm, hi]
  have hstage' : (s.goto i pc').stage = some pc' := stage_goto hm hi rfl
  rw [coarse_of_stage hstage, coarse_of_stage hstage', WorkerLoop.State.goto]
  simp only [State.goto, hsh, hmu, List.map_set]

/-- It releases the mutex, which the coarser loop still has there. -/
theorem coarse_release {s : State FunctionType} {i : Nat} {pc : Pc FunctionType}
    (hm : s.m_mutex = some (.worker i)) (hi : s.workers[i]? = some pc) (pc' : Pc FunctionType)
    (hsh : coarse_shared s.toShared (some pc) = s.toShared) :
    (s.goto i pc').unlock.coarse = (s.coarse.goto i (pc'.coarse s.m_tasks)).unlock := by
  have hstage : s.stage = some pc := by rw [stage_of_owner hm, hi]
  have hstage' : (s.goto i pc').unlock.stage = none := stage_of_caller (by simp [State.unlock])
  rw [coarse_of_stage hstage, hsh, coarse_of_stage hstage', WorkerLoop.State.goto,
    WorkerLoop.State.unlock]
  simp only [State.goto, State.unlock, List.map_set]
  rfl

/-- A worker without the mutex moves. -/
theorem coarse_outside {s : State FunctionType} {i : Nat}
    (hm : s.m_mutex ≠ some (.worker i)) (pc' : Pc FunctionType) :
    (s.goto i pc').coarse = s.coarse.goto i (pc'.coarse s.m_tasks) := by
  have hstage : (s.goto i pc').stage = s.stage := by
    rw [State.stage, State.stage]
    simp only [State.goto]
    split
    · next j hj =>
        have hij : i ≠ j := fun he => hm (he ▸ hj)
        exact List.getElem?_set_ne hij
    · rfl
  rw [coarse_of_stage hstage, WorkerLoop.State.goto]
  simp only [State.coarse, State.goto, List.map_set]

/-- A move that the coarser loop does not see. -/
theorem coarse_goto_self {s : State FunctionType} {i : Nat} {pc : Pc FunctionType}
    (hi : s.workers[i]? = some pc) (pc' : Pc FunctionType)
    (hc : pc.coarse s.m_tasks = pc'.coarse s.m_tasks) :
    s.coarse.goto i (pc'.coarse s.m_tasks) = s.coarse := by
  rw [State.coarse, WorkerLoop.State.goto, ← List.map_set, map_set_of_eq hi hc]

/-- The mutex is taken. -/
theorem coarse_take {s : State FunctionType} {i : Nat} {pc : Pc FunctionType}
    (hm : s.m_mutex = none) (hi : s.workers[i]? = some pc) :
    ((s.goto i .empty_test).lock (.worker i)).coarse
      = (s.coarse.goto i .predicate).lock (.worker i) := by
  have hstage : s.stage = none := stage_of_caller (by simp [hm])
  have hstage' : ((s.goto i .empty_test).lock (.worker i)).stage = some .empty_test :=
    stage_goto rfl hi rfl
  rw [coarse_of_stage hstage, coarse_of_stage hstage', WorkerLoop.State.goto,
    WorkerLoop.State.lock]
  simp only [State.goto, State.lock, List.map_set, coarse_shared, coarse_mutex, Pc.coarse]

/-- The owner pops the task that the coarser loop has popped before. -/
theorem coarse_pop {s : State FunctionType} {i : Nat} {t : Task FunctionType}
    {sh : Shared FunctionType} (h : Inv s)
    (hm : s.m_mutex = some (.worker i)) (hi : s.workers[i]? = some (.pop_front t))
    (hsh : s.toShared.pop_front = some (t, sh)) :
    ((s.with_shared sh).goto i (.unlocking t)).coarse = s.coarse := by
  have hstage : s.stage = some (.pop_front t) := by rw [stage_of_owner hm, hi]
  have hstage' : ((s.with_shared sh).goto i (.unlocking t)).stage = some (.unlocking t) :=
    stage_goto (s := s) hm hi rfl
  have hlist : (s.workers.set i (.unlocking t)).map (Pc.coarse sh.m_tasks)
      = s.workers.map (Pc.coarse s.m_tasks) := by
    apply List.ext_getElem?
    intro j
    rw [List.getElem?_map, List.getElem?_map, getElem?_set_of_some hi]
    by_cases hj : j = i
    · rw [if_pos hj, hj, hi]
      rfl
    · rw [if_neg hj]
      cases hq : s.workers[j]? with
      | none => rfl
      | some q =>
          have hout := h.not_locked hq (by simp [hm, Ne.symm hj])
          rw [Option.map_some, Option.map_some, coarse_of_not_locked hout]
  rw [coarse_of_stage hstage, coarse_of_stage hstage']
  simp only [State.goto, State.with_shared, hlist, coarse_shared, coarse_mutex, hsh,
    Option.map_some, Option.getD_some]

/-- The load that reads `true` is the coarser loop's `pop_front`. -/
theorem coarse_load {s : State FunctionType} {i : Nat} {t : Task FunctionType}
    {sh : Shared FunctionType} (hm : s.m_mutex = some (.worker i))
    (hi : s.workers[i]? = some .loading) (hsh : s.toShared.pop_front = some (t, sh)) :
    (s.goto i .front).coarse = ((s.coarse.with_shared sh).goto i (.task t)).unlock := by
  have hstage : s.stage = some .loading := by rw [stage_of_owner hm, hi]
  have hstage' : (s.goto i .front).stage = some .front := stage_goto hm hi rfl
  have hfront : Pc.coarse s.m_tasks .front = .task t := by
    rw [Shared.pop_front] at hsh
    split at hsh
    · cases hsh
    · next t' rest heq =>
        cases hsh
        simp only [Pc.coarse, heq]
  rw [coarse_of_stage hstage, coarse_of_stage hstage', WorkerLoop.State.unlock,
    WorkerLoop.State.goto, WorkerLoop.State.with_shared]
  simp only [State.goto, coarse_shared, coarse_mutex, hsh, Option.map_some, Option.getD_some,
    List.map_set, hfront]

/-- A step of the coarser loop, or none. -/
def Matched (s s' : State FunctionType) : Prop :=
  s'.coarse = s.coarse ∨ ∃ b, WorkerLoop.step s.coarse b = some s'.coarse

section Worker

variable {s s' : State FunctionType} {i : Nat} {pc : Pc FunctionType}

theorem coarse_worker (hi : s.workers[i]? = some pc) :
    s.coarse.workers[i]? = some (pc.coarse s.m_tasks) := by
  rw [State.coarse, List.getElem?_map, hi, Option.map_some]

theorem coarse_toShared (h : Inv s) (hi : s.workers[i]? = some pc) (hpc : pc.Locked) :
    s.coarse.toShared = coarse_shared s.toShared (some pc) := by
  rw [coarse_of_stage (by rw [stage_of_owner (h.owner hi hpc), hi])]

/-- A move inside the critical section that the coarser loop does not see. -/
theorem Matched.inside (h : Inv s) (hi : s.workers[i]? = some pc) (hpc : pc.Locked)
    (pc' : Pc FunctionType) (hc : pc.coarse s.m_tasks = pc'.coarse s.m_tasks)
    (hsh : coarse_shared s.toShared (some pc') = coarse_shared s.toShared (some pc))
    (hmu : coarse_mutex s.m_mutex (some pc') = coarse_mutex s.m_mutex (some pc)) :
    Matched s (s.goto i pc') := by
  refine Or.inl ?_
  rw [coarse_inside (h.owner hi hpc) hi pc' hsh hmu, coarse_goto_self hi pc' hc]

/-- The predicate counts where it is decided: at the first test if a task is
    queued, at the load of the flag if none is. -/
theorem refines_empty_test (h : Inv s) (hi : s.workers[i]? = some .empty_test)
    (hs : next s i .empty_test = some s') : Matched s s' := by
  have hm := h.owner hi trivial
  have hworker := coarse_worker hi
  cases hs
  split
  · exact Matched.inside h hi trivial .flag_test rfl rfl rfl
  · next he =>
      have hpred : s.coarse.toShared.wait_predicate = true := by
        rw [coarse_toShared h hi trivial]
        simpa [coarse_shared, Shared.wait_predicate] using Or.inl he
      refine Or.inr ⟨.evaluate i, ?_⟩
      rw [coarse_inside hm hi .loading rfl rfl]
      simp only [WorkerLoop.step, hworker, Pc.coarse, hpred, if_true]

theorem refines_flag_test (h : Inv s) (hi : s.workers[i]? = some .flag_test)
    (hs : next s i .flag_test = some s') : Matched s s' := by
  have hm := h.owner hi trivial
  have hworker := coarse_worker hi
  have hnil : s.m_tasks = [] := h.knows i _ hi
  have hpred : s.coarse.toShared.wait_predicate = !s.m_should_work := by
    rw [coarse_toShared h hi trivial]
    simp [coarse_shared, Shared.wait_predicate, hnil]
  cases hs
  refine Or.inr ⟨.evaluate i, ?_⟩
  cases hw : s.m_should_work with
  | true =>
      rw [if_pos rfl, coarse_inside hm hi .blocking rfl rfl]
      simp [WorkerLoop.step, hworker, Pc.coarse, hpred, hw]
  | false =>
      rw [if_neg Bool.false_ne_true, coarse_inside hm hi .loading rfl rfl]
      simp [WorkerLoop.step, hworker, Pc.coarse, hpred, hw]

/-- The load that allows the `pop_front` is the coarser loop's `pop_front`; one
    that does not is not seen. -/
theorem refines_loading (h : Inv s) (hi : s.workers[i]? = some .loading)
    (hs : next s i .loading = some s') : Matched s s' := by
  have hm := h.owner hi trivial
  have hknows := h.knows i _ hi
  cases hs
  cases hw : s.m_should_work with
  | true =>
      -- the deque is not empty: the predicate was true, and not because of the flag
      obtain ⟨t, rest, hq⟩ : ∃ t rest, s.m_tasks = t :: rest := by
        refine List.exists_cons_of_ne_nil ?_
        simpa [Pc.Knows, Shared.wait_predicate, hw] using hknows
      have hpop : s.toShared.pop_front
          = some (t, { s.toShared with m_tasks := rest, started := s.started ++ [t] }) := by
        rw [Shared.pop_front, hq]
      have hsh : s.coarse.toShared = s.toShared := coarse_toShared h hi trivial
      have hworker := coarse_worker hi
      refine Or.inr ⟨.proceed i, ?_⟩
      rw [if_pos rfl, coarse_load hm hi hpop]
      simp only [WorkerLoop.step, hworker, Pc.coarse, WorkerLoop.proceed, Shared.check_and_pop,
        hsh, hw, if_true, hpop, Option.map_some]
  | false => exact Matched.inside h hi trivial .returning rfl rfl rfl

theorem refines_front (h : Inv s) (hi : s.workers[i]? = some .front)
    (hs : next s i .front = some s') : Matched s s' := by
  simp only [next] at hs
  split at hs
  · next hnil => exact absurd hnil (h.knows i _ hi)
  · next t rest heq =>
      cases hs
      exact Matched.inside h hi trivial (.pop_front t) (by rw [Pc.coarse, heq]; rfl) rfl rfl

theorem refines_pop_front {t : Task FunctionType} (h : Inv s)
    (hi : s.workers[i]? = some (.pop_front t)) (hs : next s i (.pop_front t) = some s') :
    Matched s s' := by
  have hhead : s.m_tasks.head? = some t := h.knows i _ hi
  obtain ⟨rest, hq⟩ := List.head?_eq_some_iff.mp hhead
  have hpop : s.toShared.pop_front
      = some (t, { s.toShared with m_tasks := rest, started := s.started ++ [t] }) := by
    rw [Shared.pop_front, hq]
  simp only [next, hpop] at hs
  cases hs
  exact Or.inl (coarse_pop h (h.owner hi trivial) hi hpop)

theorem refines_unlocking {t : Task FunctionType} (h : Inv s)
    (hi : s.workers[i]? = some (.unlocking t)) (hs : next s i (.unlocking t) = some s') :
    Matched s s' := by
  have hm := h.owner hi trivial
  have hfree : s.coarse.unlock = s.coarse := by
    rw [coarse_of_stage (by rw [stage_of_owner hm, hi])]
    rfl
  cases hs
  refine Or.inl ?_
  rw [coarse_release hm hi (.task t) rfl, coarse_goto_self hi (.task t) rfl, hfree]

/-- The return counts at the release of the mutex. -/
theorem refines_returning (h : Inv s) (hi : s.workers[i]? = some .returning)
    (hs : next s i .returning = some s') : Matched s s' := by
  have hworker := coarse_worker hi
  have hw : s.coarse.m_should_work = false := by
    rw [coarse_toShared h hi trivial]
    exact h.knows i _ hi
  cases hs
  refine Or.inr ⟨.proceed i, ?_⟩
  rw [coarse_release (h.owner hi trivial) hi .returned rfl]
  simp [WorkerLoop.step, hworker, Pc.coarse, WorkerLoop.proceed, Shared.check_and_pop, hw,
    WorkerLoop.State.with_shared, WorkerLoop.State.goto, WorkerLoop.State.unlock]

/-- Every access of a worker is matched. -/
theorem refines_next (h : Inv s) (hi : s.workers[i]? = some pc) (hs : next s i pc = some s') :
    Matched s s' := by
  have hworker := coarse_worker hi
  cases pc with
  | empty_test => exact refines_empty_test h hi hs
  | flag_test => exact refines_flag_test h hi hs
  | loading => exact refines_loading h hi hs
  | front => exact refines_front h hi hs
  | pop_front t => exact refines_pop_front h hi hs
  | unlocking t => exact refines_unlocking h hi hs
  | returning => exact refines_returning h hi hs
  | locking | notified =>
      simp only [next] at hs
      split at hs <;> cases hs
      next hm =>
        have hfree : s.coarse.m_mutex = none := by
          rw [coarse_of_stage (stage_of_caller (by simp [hm])), hm]
          rfl
        refine Or.inr ⟨.lock i, ?_⟩
        rw [coarse_take hm hi]
        simp only [WorkerLoop.step, hworker, hfree, Pc.coarse]
  | blocking =>
      cases hs
      refine Or.inr ⟨.block i, ?_⟩
      rw [coarse_release (h.owner hi trivial) hi .blocked rfl]
      simp only [WorkerLoop.step, hworker, Pc.coarse]
  | blocked =>
      cases hs
      refine Or.inr ⟨.wake i, ?_⟩
      rw [coarse_outside (h.not_owner hi id) .notified]
      simp only [WorkerLoop.step, hworker, Pc.coarse]
  | task t =>
      cases hs
      refine Or.inr ⟨.finish i, ?_⟩
      rw [coarse_outside (h.not_owner hi id) .locking]
      simp only [WorkerLoop.step, hworker, Pc.coarse]
  | returned | undefined => cases hs

end Worker

theorem coarse_notify (m : List (Task FunctionType)) (l : List (Pc FunctionType)) :
    (l.map Pc.notify).map (Pc.coarse m) = (l.map (Pc.coarse m)).map WorkerLoop.Pc.notify := by
  rw [List.map_map, List.map_map]
  apply List.map_congr_left
  intro pc _
  cases pc with
  | front => cases m <;> rfl
  | _ => rfl

theorem any_asleep_coarse (m : List (Task FunctionType)) (l : List (Pc FunctionType)) :
    (l.map (Pc.coarse m)).any WorkerLoop.Pc.asleep = l.any Pc.asleep := by
  rw [List.any_map]
  congr 1
  funext pc
  cases pc with
  | front => cases m <;> rfl
  | _ => rfl

/-- A caller with the mutex, or nobody: the coarser loop has the same deque. -/
theorem coarse_of_caller {s : State FunctionType} (hm : ∀ i, s.m_mutex ≠ some (.worker i)) :
    s.coarse =
      { toShared := s.toShared
        workers := s.workers.map (Pc.coarse s.m_tasks)
        m_mutex := s.m_mutex
        destructor := s.destructor } := coarse_of_stage (stage_of_caller hm)

/-- The store commutes with the pop the coarser loop is ahead by. -/
theorem coarse_shared_store (sh : Shared FunctionType) (o : Option (Pc FunctionType)) :
    coarse_shared sh.store o = (coarse_shared sh o).store := by
  have hpop : (sh.store.pop_front.map Prod.snd).getD sh.store
      = ((sh.pop_front.map Prod.snd).getD sh).store := by
    rw [Shared.pop_front, Shared.pop_front]
    cases hq : sh.m_tasks with
    | nil => simp [Shared.store, hq]
    | cons t rest => simp [Shared.store, hq]
  rcases o with _ | pc
  · rfl
  · cases pc with
    | front => exact hpop
    | pop_front t => exact hpop
    | _ => rfl

/-- A notification moves nobody who has the mutex. -/
theorem stage_notify (s : State FunctionType) (d : Destructor) :
    State.stage { s with workers := s.workers.map Pc.notify, destructor := d }
      = s.stage.map Pc.notify := by
  rw [State.stage, State.stage]
  simp only
  split
  · rw [List.getElem?_map]
  · rfl

theorem coarse_shared_notify (sh : Shared FunctionType) (o : Option (Pc FunctionType)) :
    coarse_shared sh (o.map Pc.notify) = coarse_shared sh o := by
  rcases o with _ | pc
  · rfl
  · cases pc <;> rfl

theorem coarse_mutex_notify (m_mutex : Option (Owner FunctionType))
    (o : Option (Pc FunctionType)) :
    coarse_mutex m_mutex (o.map Pc.notify) = coarse_mutex m_mutex o := by
  rcases o with _ | pc
  · rfl
  · cases pc <;> rfl

/-- Every step is matched. -/
theorem refines_step {s s' : State FunctionType} {a : Action FunctionType} (h : Inv s)
    (hs : step s a = some s') : Matched s s' := by
  cases step_move hs with
  | next hi hn => exact refines_next h hi hn
  | @enqueue_task task hm =>
      refine Or.inr ⟨.enqueue_task task, ?_⟩
      rw [coarse_of_caller (by simp [hm]), coarse_of_caller (by simp [State.lock])]
      simp [WorkerLoop.step, WorkerLoop.State.lock, State.lock, hm]
  | @push_back task hm =>
      refine Or.inr ⟨.push_back, ?_⟩
      have hmap := map_coarse_of_caller h (by simp [hm]) (s.toShared.push_back task).m_tasks
      rw [coarse_of_caller (by simp [hm]), coarse_of_caller (by simp [State.lock])]
      simp [WorkerLoop.step, WorkerLoop.State.lock, WorkerLoop.State.with_shared, State.lock,
        State.with_shared, hm, hmap]
  | @notify_one i hm hi =>
      refine Or.inr ⟨.notify_one (some i), ?_⟩
      rw [coarse_of_caller (by simp [hm]), coarse_of_caller (by simp [State.lock])]
      simp [WorkerLoop.step, WorkerLoop.State.lock, WorkerLoop.State.goto, State.lock, State.goto,
        hm, hi, Pc.coarse, List.map_set]
  | notify_none hm hw =>
      refine Or.inr ⟨.notify_one none, ?_⟩
      rw [coarse_of_caller (by simp [hm]), coarse_of_caller (by simp [State.lock])]
      simp only [WorkerLoop.step, hm, any_asleep_coarse, hw, WorkerLoop.State.lock, State.lock,
        if_neg Bool.false_ne_true]
  | unlock hm =>
      refine Or.inr ⟨.unlock, ?_⟩
      rw [coarse_of_caller (by simp [hm]), coarse_of_caller (by simp [State.unlock])]
      simp [WorkerLoop.step, WorkerLoop.State.unlock, State.unlock, hm]
  | lock_clear hm =>
      refine Or.inr ⟨.lock_clear, ?_⟩
      rw [coarse_of_caller (by simp [hm]), coarse_of_caller (by simp [State.lock])]
      simp [WorkerLoop.step, WorkerLoop.State.lock, State.lock, hm]
  | clear hm =>
      refine Or.inr ⟨.clear, ?_⟩
      have hmap := map_coarse_of_caller h (by simp [hm]) s.toShared.clear.m_tasks
      rw [coarse_of_caller (by simp [hm]), coarse_of_caller (by simp [State.unlock])]
      simp [WorkerLoop.step, WorkerLoop.State.unlock, WorkerLoop.State.with_shared, State.unlock,
        State.with_shared, hm, hmap]
  | store hd =>
      refine Or.inr ⟨.store, ?_⟩
      have hstage : State.stage { s.with_shared s.toShared.store with destructor := .stored }
          = s.stage := rfl
      rw [coarse_of_stage hstage]
      simp only [WorkerLoop.step, State.coarse, hd, State.with_shared,
        WorkerLoop.State.with_shared, coarse_shared_store]
      rfl
  | notify_all hd =>
      refine Or.inr ⟨.notify_all, ?_⟩
      rw [coarse_of_stage (stage_notify s .notified)]
      simp only [WorkerLoop.step, State.coarse, hd, coarse_shared_notify, coarse_mutex_notify,
        coarse_notify]

/-- **REFINEMENT**: what the workers do access by access is a run of the loop
    statement by statement. -/
theorem refines {s : State FunctionType} (h : (accesses FunctionType).Reachable s) :
    (loop FunctionType).Reachable s.coarse := by
  induction h with
  | init h0 =>
      obtain ⟨n, rfl⟩ := h0
      refine .init ⟨n, ?_⟩
      rw [coarse_of_caller (by simp [init])]
      simp [init, WorkerLoop.init, Pool.init, Pc.coarse]
  | step hr _ hs ih =>
      rcases refines_step (reach_inv hr) hs with heq | ⟨b, hb⟩
      · exact heq ▸ ih
      · exact .step ih trivial hb

end WebLib.Pool.QueueAccess
