import WebLib.LastTask

/-! # Every access takes its place in the atomic pool

    `WebLib.QueueAccess` splits the worker's loop at every access, and
    `WebLib.ThreadPool` has one step for each critical section.  The second load
    of `m_should_work` is where a pop takes effect: from there to the end of the
    critical section the pool of the coarser model is ahead by the task that is
    about to be popped, and by nothing else. -/

namespace WebLib.Pool.QueueAccess

open WebLib TransitionSystem

universe u

variable {FunctionType : Type u}

/-- The worker has this task: it runs it, or will as soon as it has released the
    mutex. -/
def Pc.Has (m_tasks : List (Task FunctionType)) (t : Task FunctionType) :
    Pc FunctionType → Prop
  | .front => m_tasks.head? = some t
  | .pop_front u | .unlocking u | .task u => u = t
  | _ => False

/-- The atomic pool `p` is where the accesses are, with the committed task
    popped. -/
structure Linearizes (s : State FunctionType) (p : ThreadPool FunctionType) : Prop where
  enqueued : p.enqueued = s.enqueued
  discarded : p.discarded = s.discarded
  flag : p.m_should_work = s.m_should_work
  started : p.started = s.started ++ s.committed.toList
  queue : s.committed.toList ++ p.m_tasks = s.m_tasks
  running : ∀ (i : Nat) (t : Task FunctionType), p.m_workers[i]? = some (.running t)
    ↔ ∃ pc : Pc FunctionType, s.workers[i]? = some pc ∧ pc.Has s.m_tasks t
  returned : ∀ i : Nat, p.m_workers[i]? = some .returned ↔ s.workers[i]? = some .returned

/-- Popping at the committed load, field by field. -/
theorem coarse_shared_fields (s : State FunctionType) :
    s.coarse.enqueued = s.enqueued ∧ s.coarse.discarded = s.discarded
      ∧ s.committed.toList ++ s.coarse.m_tasks = s.m_tasks := by
  have hpop : ((s.toShared.pop_front.map Prod.snd).getD s.toShared).enqueued = s.enqueued
      ∧ ((s.toShared.pop_front.map Prod.snd).getD s.toShared).discarded = s.discarded
      ∧ s.m_tasks.head?.toList ++ ((s.toShared.pop_front.map Prod.snd).getD s.toShared).m_tasks
        = s.m_tasks := by
    rw [Shared.pop_front]
    cases hq : s.m_tasks with
    | nil => simp [hq]
    | cons t rest => simp
  show (coarse_shared s.toShared s.stage).enqueued = _
    ∧ (coarse_shared s.toShared s.stage).discarded = _
    ∧ _ ++ (coarse_shared s.toShared s.stage).m_tasks = _
  rw [State.committed]
  rcases s.stage with _ | pc
  · exact ⟨rfl, rfl, rfl⟩
  · cases pc with
    | front => exact hpop
    | pop_front t => exact hpop
    | _ => exact ⟨rfl, rfl, rfl⟩

/-- What the atomic pool sees of a worker. -/
theorem worker_running_iff (m_tasks : List (Task FunctionType)) (pc : Pc FunctionType)
    (t : Task FunctionType) : (pc.coarse m_tasks).worker = .running t ↔ pc.Has m_tasks t := by
  cases pc with
  | front => cases m_tasks <;> simp [Pc.coarse, WorkerLoop.Pc.worker, Pc.Has]
  | _ => simp [Pc.coarse, WorkerLoop.Pc.worker, Pc.Has]

theorem worker_returned_iff (m_tasks : List (Task FunctionType)) (pc : Pc FunctionType) :
    (pc.coarse m_tasks).worker = .returned ↔ pc = .returned := by
  cases pc with
  | front => cases m_tasks <;> simp [Pc.coarse, WorkerLoop.Pc.worker]
  | _ => simp [Pc.coarse, WorkerLoop.Pc.worker]

/-- Worker by worker. -/
theorem getElem?_pool_iff (s : State FunctionType) (i : Nat) (w : Worker FunctionType) :
    s.coarse.pool.m_workers[i]? = some w
      ↔ ∃ pc, s.workers[i]? = some pc ∧ (pc.coarse s.m_tasks).worker = w := by
  show ((s.workers.map (Pc.coarse s.m_tasks)).map WorkerLoop.Pc.worker)[i]? = some w ↔ _
  simp only [List.getElem?_map, Option.map_map, Option.map_eq_some_iff, Function.comp_apply]

/-- The pool that the coarser loop refines is the one. -/
theorem coarse_linearizes (s : State FunctionType) : Linearizes s s.coarse.pool := by
  obtain ⟨henqueued, hdiscarded, hqueue⟩ := coarse_shared_fields s
  refine ⟨henqueued, hdiscarded, coarse_should_work s, coarse_started s, hqueue, ?_, ?_⟩
  · intro i t
    constructor
    · intro hi
      obtain ⟨pc, hpc, hrun⟩ := (getElem?_pool_iff s i (.running t)).mp hi
      exact ⟨pc, hpc, (worker_running_iff s.m_tasks pc t).mp hrun⟩
    · rintro ⟨pc, hpc, hhas⟩
      exact (getElem?_pool_iff s i (.running t)).mpr
        ⟨pc, hpc, (worker_running_iff s.m_tasks pc t).mpr hhas⟩
  · intro i
    constructor
    · intro hi
      obtain ⟨pc, hpc, hret⟩ := (getElem?_pool_iff s i .returned).mp hi
      rw [hpc, (worker_returned_iff s.m_tasks pc).mp hret]
    · intro hpc
      exact (getElem?_pool_iff s i .returned).mpr ⟨.returned, hpc, rfl⟩

theorem coarse_reachable {s : State FunctionType} (h : (accesses FunctionType).Reachable s) :
    (pool FunctionType).Reachable s.coarse.pool :=
  WorkerLoop.refines (refines h)

/-- **EVERY INTERLEAVING OF ACCESSES IS ONE OF CRITICAL SECTIONS**: each state that
    the threads reach access by access is matched by a state of the atomic pool,
    which has the same history and the same queue but for the committed task. -/
theorem linearized {s : State FunctionType} (h : (accesses FunctionType).Reachable s) :
    ∃ p, (pool FunctionType).Reachable p ∧ Linearizes s p :=
  ⟨s.coarse.pool, coarse_reachable h, coarse_linearizes s⟩

/-- A worker has moved the task out and not popped it; the pool has popped it. -/
theorem popped_ahead : ∃ (s : State Nat) (p : ThreadPool Nat), (pool Nat).Reachable p
    ∧ Linearizes s p ∧ s.started = [] ∧ p.started = [⟨0, 7⟩]
    ∧ s.m_tasks = [⟨0, 7⟩, ⟨1, 8⟩] ∧ p.m_tasks = [⟨1, 8⟩] := by
  have h0 : (accesses Nat).Reachable (init 2) := .init ⟨2, rfl⟩
  obtain ⟨s, hs, hcommitted, hstarted, hq⟩ := h0.exists_of_run
    (fun s => s.committed = some ⟨0, 7⟩ ∧ s.started = [] ∧ s.m_tasks = [⟨0, 7⟩, ⟨1, 8⟩])
    [.enqueue_task 7, .push_back, .notify_one none, .unlock, .enqueue_task 8, .push_back,
      .notify_one none, .unlock, .next 1, .next 1, .next 1, .next 1]
    (by decide)
  obtain ⟨p, hp, hlin⟩ := linearized hs
  refine ⟨s, p, hp, hlin, hstarted, ?_, hq, ?_⟩
  · rw [hlin.started, hstarted, hcommitted]
    rfl
  · have hrest := hlin.queue
    rw [hcommitted, hq] at hrest
    exact (List.cons.inj hrest).2

end WebLib.Pool.QueueAccess
