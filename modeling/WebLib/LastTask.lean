import WebLib.QueueAccess
import WebLib.Variant

/-! # What the destructor's store lets start

    `~ThreadPool` does not empty the deque: it stores `m_should_work = false`,
    and the workers find out at their second load.  A worker that has passed
    that load is committed to the first task of the deque, and holds the mutex
    until it has popped it, so there is one such worker at most.  Its task is the
    only one that can still start; the others stay where they are.

    The account of it is the coarser loop's history, which a committed task has
    already entered: after the store that history stands still. -/

namespace WebLib.Pool

open WebLib TransitionSystem

universe u

variable {FunctionType : Type u}

namespace WorkerLoop

/-- Once the flag is false no statement of the loop starts a task. -/
theorem started_stays {s s' : State FunctionType} {a : Action FunctionType}
    (hw : s.m_should_work = false) (hs : step s a = some s') :
    s'.m_should_work = false ∧ s'.started = s.started := by
  cases step_move hs with
  | pop hi hw' hp => rw [hw] at hw'; cases hw'
  | _ => first | exact ⟨hw, rfl⟩ | exact ⟨rfl, rfl⟩

end WorkerLoop

namespace QueueAccess

/-- The task that a worker past its second load is about to pop. -/
def State.committed (s : State FunctionType) : Option (Task FunctionType) :=
  match s.stage with
  | some .front | some (.pop_front _) => s.m_tasks.head?
  | _ => none

/-- Every access has one of the effects on the deque and the flag, or none. -/
theorem step_effect {s s' : State FunctionType} {a : Action FunctionType}
    (hs : step s a = some s') : Effect s.toShared s'.toShared := by
  cases step_move hs with
  | @next i pc s' hi hn =>
      cases pc <;> simp only [next] at hn
      case locking | notified => split at hn <;> cases hn; exact .none
      case front => split at hn <;> cases hn <;> exact .none
      case pop_front t =>
        split at hn
        · cases hn; exact .none
        · next sh hp => cases hn; exact .pop_front hp
      case returned | undefined => cases hn
      all_goals cases hn; exact .none
  | push_back hm => exact .push_back _
  | clear hm => exact .clear
  | store hd => exact .store
  | _ => exact .none

/-- The coarser loop has started what this one has, and the committed task. -/
theorem coarse_started (s : State FunctionType) :
    s.coarse.started = s.started ++ s.committed.toList := by
  have hpop : ((s.toShared.pop_front.map Prod.snd).getD s.toShared).started
      = s.started ++ s.m_tasks.head?.toList := by
    rw [Shared.pop_front]
    cases hq : s.m_tasks with
    | nil => simp
    | cons t rest => simp
  show (coarse_shared s.toShared s.stage).started = _
  rw [State.committed]
  rcases s.stage with _ | pc
  · simp [coarse_shared]
  · cases pc with
    | front => exact hpop
    | pop_front t => exact hpop
    | _ => simp [coarse_shared]

theorem coarse_should_work (s : State FunctionType) :
    s.coarse.m_should_work = s.m_should_work := by
  have hpop : ((s.toShared.pop_front.map Prod.snd).getD s.toShared).m_should_work
      = s.m_should_work := by
    rw [Shared.pop_front]
    cases hq : s.m_tasks with
    | nil => simp
    | cons t rest => simp
  show (coarse_shared s.toShared s.stage).m_should_work = _
  rcases s.stage with _ | pc
  · rfl
  · cases pc with
    | front => exact hpop
    | pop_front t => exact hpop
    | _ => rfl

/-- What is settled once the flag is false: the coarser loop's history is `done`,
    and this one's has `before` as its beginning. -/
structure Settled (before fixed : List (Task FunctionType)) (s : State FunctionType) : Prop where
  inv : Inv s
  flag : s.m_should_work = false
  coarse : s.coarse.started = fixed
  grown : before <+: s.started

theorem Settled.step {before fixed : List (Task FunctionType)} {s s' : State FunctionType}
    {a : Action FunctionType} (h : Settled before fixed s) (hs : step s a = some s') :
    Settled before fixed s' := by
  have hcoarse : s.coarse.m_should_work = false := (coarse_should_work s).trans h.flag
  obtain ⟨hflag, hstarted⟩ :
      s'.coarse.m_should_work = false ∧ s'.coarse.started = s.coarse.started := by
    rcases refines_step h.inv hs with heq | ⟨b, hb⟩
    · rw [heq]
      exact ⟨hcoarse, rfl⟩
    · exact WorkerLoop.started_stays hcoarse hb
  exact ⟨h.inv.step hs, (coarse_should_work s').symm.trans hflag, hstarted.trans h.coarse,
    h.grown.trans (step_effect hs).grows.2.1⟩

/-- **THE LAST TASK**: whatever the threads do after the destructor's store, no
    task starts but the one a worker was committed to at that moment, if there
    was one. -/
theorem last_task {s s₁ s₂ : State FunctionType} (h : (accesses FunctionType).Reachable s)
    (hstore : step s .store = some s₁) {as : List (Action FunctionType)}
    (hrun : (accesses FunctionType).run (fun _ _ => True) s₁ as = some s₂) :
    s₂.started = s.started ∨ ∃ t, s.committed = some t ∧ s₂.started = s.started ++ [t] := by
  obtain ⟨hsame, hcommitted⟩ : s₁.started = s.started ∧ s₁.committed = s.committed := by
    cases step_move hstore with
    | store hd => exact ⟨rfl, rfl⟩
  have hsettled : Settled s.started (s.started ++ s.committed.toList) s₁ := by
    refine ⟨(reach_inv h).step hstore, ?_, ?_, ?_⟩
    · cases step_move hstore with
      | store hd => rfl
    · rw [coarse_started, hsame, hcommitted]
    · rw [hsame]
  have hend := run_keeps (T := accesses FunctionType)
    (fun _ _ _ hi _ hs => Settled.step hi hs) hsettled hrun
  have haccount : s₂.started ++ s₂.committed.toList = s.started ++ s.committed.toList :=
    (coarse_started s₂).symm.trans hend.coarse
  -- what has been added to the history is part of the one committed task
  obtain ⟨more, hmore⟩ := hend.grown
  rw [← hmore, List.append_assoc, List.append_cancel_left_eq] at haccount
  cases more with
  | nil => exact Or.inl (by rw [← hmore, List.append_nil])
  | cons t more =>
      refine Or.inr ⟨t, ?_⟩
      cases hc : s.committed with
      | none => rw [hc] at haccount; cases haccount
      | some u =>
          rw [hc] at haccount
          obtain ⟨rfl, hnil⟩ := List.cons.inj haccount
          rw [(List.append_eq_nil_iff.mp hnil).1] at hmore
          exact ⟨rfl, hmore.symm⟩

/-- Two tasks are queued and one worker is at `front()` when the destructor
    stores the flag: the first task runs, the second never does. -/
theorem second_task_stays : ∃ s s₁ s₂ : State Nat, (accesses Nat).Reachable s
    ∧ step s .store = some s₁ ∧ s.committed = some ⟨0, 7⟩
    ∧ (accesses Nat).run (fun _ _ => True) s₁
        [.next 0, .next 0, .next 0, .next 0, .next 0, .next 0, .next 0, .next 0] = some s₂
    ∧ s₂.m_tasks = [⟨1, 8⟩] ∧ s₂.workers = [.returned]
    ∧ (s₂.started = s.started ∨ ∃ t, s.committed = some t ∧ s₂.started = s.started ++ [t]) := by
  have h0 : (accesses Nat).Reachable (init 1) := .init ⟨1, rfl⟩
  obtain ⟨s, hs, s₁, hstore, hcommitted, s₂, hrun, hq, hw⟩ := h0.exists_of_run
    (fun s => ∃ s₁, step s .store = some s₁ ∧ s.committed = some ⟨0, 7⟩
      ∧ ∃ s₂, (accesses Nat).run (fun _ _ => True) s₁
          [.next 0, .next 0, .next 0, .next 0, .next 0, .next 0, .next 0, .next 0] = some s₂
        ∧ s₂.m_tasks = [⟨1, 8⟩] ∧ s₂.workers = [.returned])
    [.enqueue_task 7, .push_back, .notify_one none, .unlock, .enqueue_task 8, .push_back,
      .notify_one none, .unlock, .next 0, .next 0, .next 0]
    (by decide)
  exact ⟨s, s₁, s₂, hs, hstore, hcommitted, hrun, hq, hw, last_task hs hstore hrun⟩

end QueueAccess

end WebLib.Pool
