import WebLib.WorkerLoop

/-! # Wakeups of the queue

    `enqueue_task` notifies one worker for each task, and the one it wakes may
    find the deque emptied by a worker that had just finished.  Notifications
    and tasks do not pair up, so the invariant is about the queue as a whole:
    as long as tasks are queued, some worker is on its way to the predicate, or
    the notification that will send one there is still due. -/

namespace WebLib.Pool.WorkerLoop

open WebLib

universe u

variable {FunctionType : Type u}

/-- A worker that looks at the deque again before it can sleep: it is neither
    blocked without a notification, nor about to block, nor gone. -/
def Pc.Looks : Pc FunctionType → Prop
  | .blocked | .blocking | .returned => False
  | _ => True

/-- The mutex is held inside `enqueue_task`. -/
def State.Enqueuing (s : State FunctionType) : Prop :=
  match s.m_mutex with
  | some (.push_back _) | some .notify_one | some .unlock => True
  | _ => False

/-- The queue is watched: empty, or about to be notified of, or on some
    worker's way. -/
structure Watched (s : State FunctionType) : Prop where
  stays : .returned ∉ s.workers
  about : .blocking ∈ s.workers → s.m_tasks = []
  watch : s.m_tasks = [] ∨ s.m_mutex = some .notify_one ∨ ∃ pc ∈ s.workers, pc.Looks

/-! ## What a step leaves alone -/

/-- No thread is started or joined by a step. -/
theorem step_length {s s' : State FunctionType} {a : Action FunctionType}
    (hs : step s a = some s') : s'.workers.length = s.workers.length := by
  cases step_move hs with
  | lock hi hpc hm => exact List.length_set
  | pass hi hw => exact List.length_set
  | fail hi hw => exact List.length_set
  | block hi => exact List.length_set
  | wake hi => exact List.length_set
  | leave hi hw => exact List.length_set
  | pop hi hw hp => exact List.length_set
  | finish hi => exact List.length_set
  | notify_one hm hi => exact List.length_set
  | notify_all hd => exact List.length_map _
  | _ => rfl

/-- The destructor is not undone. -/
theorem alive_before {s s' : State FunctionType} {a : Action FunctionType}
    (hs : step s a = some s') (hd : s'.destructor = .alive) : s.destructor = .alive := by
  cases step_move hs with
  | store hd' => exact hd'
  | notify_all hd' => cases hd
  | _ => exact hd

namespace Watched

variable {s s' : State FunctionType}

/-- Worker `i` went to `pc`, a place from which it looks at the deque again. -/
theorem goto_looks (h : Watched s) {i : Nat} {pc pc' : Pc FunctionType}
    (hi : s.workers[i]? = some pc) (hw : s'.workers = s.workers.set i pc') (hpc : pc'.Looks)
    (hq : s.m_tasks = [] → s'.m_tasks = []) : Watched s' := by
  have old : ∀ pc₀ ∈ s'.workers, pc₀ = pc' ∨ pc₀ ∈ s.workers := by
    intro pc₀ hmem
    rw [hw] at hmem
    exact (List.mem_or_eq_of_mem_set hmem).symm
  have hlt : i < s.workers.length := (List.getElem?_eq_some_iff.mp hi).1
  refine ⟨?_, ?_, Or.inr (Or.inr ⟨pc', ?_, hpc⟩)⟩
  · intro hmem
    rcases old _ hmem with rfl | hold
    · exact hpc
    · exact h.stays hold
  · intro hmem
    rcases old _ hmem with rfl | hold
    · exact absurd hpc id
    · exact hq (h.about hold)
  · rw [hw]
    exact List.mem_set hlt pc'

/-- Worker `i` went to `pc'` with the queue empty. -/
theorem goto_empty (h : Watched s) {i : Nat} {pc' : Pc FunctionType}
    (hw : s'.workers = s.workers.set i pc') (hpc : pc' ≠ .returned)
    (hq : s'.m_tasks = []) : Watched s' := by
  refine ⟨?_, fun _ => hq, Or.inl hq⟩
  intro hmem
  rw [hw] at hmem
  rcases List.mem_or_eq_of_mem_set hmem with hold | heq
  · exact h.stays hold
  · exact hpc heq.symm

/-- A caller that leaves the deque alone moved under the mutex, and owed no
    notification. -/
theorem still (h : Watched s) (hw : s'.workers = s.workers) (hq : s'.m_tasks = s.m_tasks)
    (hm : s.m_mutex ≠ some .notify_one) : Watched s' := by
  refine ⟨hw ▸ h.stays, ?_, ?_⟩
  · rw [hw, hq]
    exact h.about
  · rw [hw, hq]
    rcases h.watch with hnil | hone | hlooks
    · exact Or.inl hnil
    · exact absurd hone hm
    · exact Or.inr (Or.inr hlooks)

/-- With nobody asleep `notify_one` wakes nobody, and nobody needs it. -/
theorem notify_none (h : Watched s) (hne : s.workers ≠ [])
    (hw : s.workers.any Pc.asleep = false) : Watched (s.lock .unlock) := by
  refine ⟨h.stays, h.about, ?_⟩
  by_cases hq : s.m_tasks = []
  · exact Or.inl hq
  · obtain ⟨pc, hmem⟩ := List.exists_mem_of_ne_nil _ hne
    refine Or.inr (Or.inr ⟨pc, hmem, ?_⟩)
    have hawake := List.any_eq_false.mp hw pc hmem
    cases pc with
    | blocked => exact absurd rfl hawake
    | blocking => exact absurd (h.about hmem) hq
    | returned => exact absurd hmem h.stays
    | _ => trivial

/-- A worker between its predicate and its block has the mutex. -/
theorem not_blocking (hinv : Inv s) (hm : ∀ i, s.m_mutex ≠ some (.worker i)) :
    .blocking ∉ s.workers := by
  intro hmem
  obtain ⟨i, hi⟩ := List.getElem?_of_mem hmem
  exact hm i (hinv.owner hi trivial)

/-- Every step before the destructor keeps the queue watched. -/
theorem step (hinv : Inv s) (h : Watched s) (hne : s.workers ≠ [])
    {a : Action FunctionType} (hs : WorkerLoop.step s a = some s')
    (hd : s'.destructor = .alive) : Watched s' := by
  have hwork : s.m_should_work = true := hinv.flag.mpr (alive_before hs hd)
  cases step_move hs with
  | lock hi hpc hm => exact h.goto_looks hi rfl trivial id
  | pass hi hw => exact h.goto_looks hi rfl trivial id
  | fail hi hw =>
      have hq : s.m_tasks = [] := by simpa [Shared.wait_predicate, hwork] using hw
      exact h.goto_empty rfl (by simp) hq
  | block hi => exact h.goto_empty rfl (by simp) (h.about (List.mem_of_getElem? hi))
  | wake hi => exact h.goto_looks hi rfl trivial id
  | leave hi hw => rw [hwork] at hw; cases hw
  | pop hi hw hp =>
      refine h.goto_looks hi rfl trivial ?_
      intro hq
      rw [Shared.pop_front, hq] at hp
      cases hp
  | finish hi => exact h.goto_looks hi rfl trivial id
  | enqueue_task hm => exact h.still rfl rfl (by simp [hm])
  | push_back hm =>
      refine ⟨h.stays, ?_, Or.inr (Or.inl rfl)⟩
      intro hmem
      have hnot : .blocking ∉ s.workers := not_blocking hinv (by simp [hm])
      exact absurd hmem hnot
  | notify_one hm hi => exact h.goto_looks hi rfl trivial id
  | notify_none hm hw => exact h.notify_none hne hw
  | unlock hm => exact h.still rfl rfl (by simp [hm])
  | lock_clear hm => exact h.still rfl rfl (by simp [hm])
  | clear hm => exact ⟨h.stays, fun _ => rfl, Or.inl rfl⟩
  | store hd' => cases hd
  | notify_all hd' => cases hd

end Watched

theorem watched_init (threads_count : Nat) :
    Watched (init threads_count : State FunctionType) where
  stays := by simp [init]
  about := fun _ => rfl
  watch := Or.inl rfl

/-- In every run before the destructor the queue is watched. -/
theorem reach_watched {s : State FunctionType} (h : (loop FunctionType).Reachable s)
    (hne : s.workers ≠ []) (hd : s.destructor = .alive) : Watched s := by
  induction h with
  | init h0 =>
      obtain ⟨n, rfl⟩ := h0
      exact watched_init n
  | step hr _ hs ih =>
      have hne' := List.ne_nil_of_length_pos (step_length hs ▸ List.length_pos_iff.mpr hne)
      exact (ih hne' (alive_before hs hd)).step (reach_inv hr) hne' hs hd

/-- **NO LOST WAKEUP ON ENQUEUE**: before the destructor begins, a pool with a
    worker and a queued task that nobody is just enqueuing has a worker that is
    not blocked, or is with a notification pending; nor is that worker about to
    block or gone. -/
theorem queued_is_watched {s : State FunctionType} (h : (loop FunctionType).Reachable s)
    (hne : s.workers ≠ []) (hd : s.destructor = .alive) (hq : s.m_tasks ≠ [])
    (hm : ¬ s.Enqueuing) :
    ∃ (i : Nat) (pc : Pc FunctionType), s.workers[i]? = some pc
      ∧ pc ≠ .blocked ∧ pc ≠ .blocking ∧ pc ≠ .returned := by
  have hwatched := reach_watched h hne hd
  rcases hwatched.watch with hnil | hone | ⟨pc, hmem, hlooks⟩
  · exact absurd hnil hq
  · exact absurd (by simp [State.Enqueuing, hone]) hm
  · obtain ⟨i, hi⟩ := List.getElem?_of_mem hmem
    refine ⟨i, pc, hi, ?_, ?_, ?_⟩ <;> rintro rfl <;> exact hlooks

/-- The worker that was notified of the first task finds it taken by the other
    one and sleeps again; a second task comes, and its notification is pending. -/
theorem second_task_is_watched : ∃ s : State Nat, (loop Nat).Reachable s
    ∧ s.workers = [.task ⟨0, 7⟩, .notified] ∧ s.m_tasks = [⟨1, 8⟩]
    ∧ ∃ (i : Nat) (pc : Pc Nat), s.workers[i]? = some pc
      ∧ pc ≠ .blocked ∧ pc ≠ .blocking ∧ pc ≠ .returned := by
  have h0 : (loop Nat).Reachable (init 2) := .init ⟨2, rfl⟩
  obtain ⟨s, hs, hw, hq, hd, hm⟩ := h0.exists_of_run
    (fun s => s.workers = [.task ⟨0, 7⟩, .notified] ∧ s.m_tasks = [⟨1, 8⟩]
      ∧ s.destructor = .alive ∧ s.m_mutex = none)
    [.lock 1, .evaluate 1, .block 1, .enqueue_task 7, .push_back, .notify_one (some 1),
      .unlock, .lock 0, .evaluate 0, .proceed 0, .lock 1, .evaluate 1, .block 1,
      .enqueue_task 8, .push_back, .notify_one (some 1), .unlock]
    (by decide)
  refine ⟨s, hs, hw, hq, queued_is_watched hs (by simp [hw]) hd (by simp [hq]) ?_⟩
  simp [State.Enqueuing, hm]

end WebLib.Pool.WorkerLoop
