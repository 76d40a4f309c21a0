import WebLib.Simulation
import WebLib.Steps
import WebLib.ThreadPool
import WebLib.Variant

/-! # The server's requests are the pool's tasks

    `event_loop` and its workers share one `ThreadPool`.  The system of
    `WebLib.EventLoop` has a queue and the tasks taken from it, and says nothing
    of threads or critical sections; here its runs are followed by the pool, a
    dispatch by `enqueue_task`, a start by the `pop_front` of a worker that
    waits, a handled request by a worker that goes back to its wait.  The order
    of the deque and the number of its threads then bind the server. -/

namespace WebLib.EventLoop

open WebLib ByteString ReadRequest UnorderedMap TransitionSystem

/-! ## The requests a pool has in hand -/

/-- The task a worker runs. -/
def running_task : Pool.Worker Task → Option (Pool.Task Task)
  | .running t => some t
  | _ => none

/-- The requests its workers run. -/
def in_hand (workers : List (Pool.Worker Task)) : List Task :=
  (workers.filterMap running_task).map Pool.Task.task

/-- An entry of a list, and the others. -/
theorem perm_of_getElem? {α : Type*} {l : List α} {i : Nat} {a : α} (h : l[i]? = some a) :
    l.Perm (a :: l.eraseIdx i) := by
  obtain ⟨hlt, rfl⟩ := List.getElem?_eq_some_iff.mp h
  exact (List.getElem_cons_eraseIdx_perm hlt).symm

/-- One worker changes, the others are where they were. -/
theorem in_hand_set {workers : List (Pool.Worker Task)} {i : Nat} {w : Pool.Worker Task}
    (hi : workers[i]? = some w) (w' : Pool.Worker Task) :
    ∃ others : List Task,
      (in_hand workers).Perm (((running_task w).map Pool.Task.task).toList ++ others)
        ∧ (in_hand (workers.set i w')).Perm
          (((running_task w').map Pool.Task.task).toList ++ others) := by
  have one : ∀ (w : Pool.Worker Task) (rest : List (Pool.Worker Task)),
      in_hand (w :: rest) = ((running_task w).map Pool.Task.task).toList ++ in_hand rest := by
    intro w rest
    rw [in_hand, List.filterMap_cons]
    cases running_task w <;> rfl
  have perm : ∀ {l l' : List (Pool.Worker Task)}, l.Perm l' → (in_hand l).Perm (in_hand l') :=
    fun h => (h.filterMap running_task).map Pool.Task.task
  have hset : (workers.set i w')[i]? = some w' := by
    obtain ⟨hlt, -⟩ := List.getElem?_eq_some_iff.mp hi
    simp [hlt]
  refine ⟨in_hand (workers.eraseIdx i), ?_, ?_⟩
  · rw [← one]
    exact perm (perm_of_getElem? hi)
  · rw [← one]
    have := perm (perm_of_getElem? hset)
    rwa [List.eraseIdx_set_eq] at this

/-- Fewer requests in hand than threads: some thread waits. -/
theorem exists_waiting {workers : List (Pool.Worker Task)} (hstay : .returned ∉ workers)
    (hlt : (in_hand workers).length < workers.length) : ∃ i : Nat, workers[i]? = some .waiting := by
  by_contra hnone
  have hall : ∀ w ∈ workers, (running_task w).isSome := by
    intro w hw
    cases w with
    | running t => rfl
    | returned => exact absurd hw hstay
    | waiting => exact absurd (List.getElem?_of_mem hw) hnone
  have hcount : workers.countP (fun w => (running_task w).isSome) = workers.length :=
    List.countP_eq_length.mpr hall
  rw [in_hand, List.length_map, List.length_filterMap_eq_countP] at hlt
  omega

/-! ## The relation -/

/-- The pool `p` holds the server's requests: the same queue, the same ones in
    hand and the same history, nothing discarded and no thread gone. -/
structure Serves (s : Sys) (p : Pool.ThreadPool Task) : Prop where
  queued : p.m_tasks.map Pool.Task.task = s.m_tasks
  dispatched : p.enqueued.map Pool.Task.task = s.dispatched
  kept : p.discarded = []
  running : (in_hand p.m_workers).Perm s.running
  threads : p.m_workers.length = s.threads_count
  working : p.m_should_work = true
  stay : .returned ∉ p.m_workers

/-- The fields of the server that the relation reads. -/
theorem Serves.frame {s s' : Sys} {p : Pool.ThreadPool Task} (h : Serves s p)
    (hq : s'.m_tasks = s.m_tasks) (hd : s'.dispatched = s.dispatched)
    (hr : s'.running = s.running) (ht : s'.threads_count = s.threads_count) : Serves s' p where
  queued := by rw [hq]; exact h.queued
  dispatched := by rw [hd]; exact h.dispatched
  kept := h.kept
  running := by rw [hr]; exact h.running
  threads := by rw [ht]; exact h.threads
  working := h.working
  stay := h.stay

/-- A dispatch is an `enqueue_task`. -/
theorem Serves.enqueue {s s' : Sys} {p : Pool.ThreadPool Task} (h : Serves s p) (t : Task)
    (hq : s'.m_tasks = s.m_tasks ++ [t]) (hd : s'.dispatched = s.dispatched ++ [t])
    (hr : s'.running = s.running) (ht : s'.threads_count = s.threads_count) :
    Serves s' { p with toShared := p.toShared.push_back t } where
  queued := by
    simp only [Pool.Shared.push_back, List.map_append, List.map_cons, List.map_nil, h.queued, hq]
  dispatched := by
    simp only [Pool.Shared.push_back, List.map_append, List.map_cons, List.map_nil, h.dispatched,
      hd]
  kept := h.kept
  running := by rw [hr]; exact h.running
  threads := by rw [ht]; exact h.threads
  working := h.working
  stay := h.stay

/-- A start is a `pop_front` by a worker that waits. -/
theorem Serves.start {s : Sys} {p : Pool.ThreadPool Task} (h : Serves s p) {t : Task}
    {rest : List Task} (hq : s.m_tasks = t :: rest) (hlt : s.running.length < s.threads_count) :
    ∃ a p', Pool.step p a = some p'
      ∧ Serves { s with m_tasks := rest, running := s.running ++ [t] } p' := by
  obtain ⟨i, hi⟩ : ∃ i : Nat, p.m_workers[i]? = some .waiting := by
    refine exists_waiting h.stay ?_
    rw [h.running.length_eq, h.threads]
    exact hlt
  have hqueued := h.queued
  rw [hq] at hqueued
  obtain ⟨u, us, hu, rfl, hus⟩ := List.map_eq_cons_iff.mp hqueued
  refine ⟨.check_and_pop i, { p with
    m_tasks := us
    started := p.started ++ [u]
    m_workers := p.m_workers.set i (.running u) }, ?_, hus, h.dispatched, h.kept, ?_, ?_,
    h.working, ?_⟩
  · simp [Pool.step, hi, Pool.Shared.wait_predicate, Pool.Shared.check_and_pop,
      Pool.Shared.pop_front, hu, h.working]
  · obtain ⟨others, hbefore, hafter⟩ := in_hand_set hi (.running u)
    refine hafter.trans ?_
    exact ((hbefore.symm.trans h.running).cons u.task).trans
      (List.perm_append_singleton u.task s.running).symm
  · simpa using h.threads
  · intro hmem
    rcases List.mem_or_eq_of_mem_set hmem with hold | heq
    · exact h.stay hold
    · cases heq

/-- A handled request is a worker that goes back to its wait. -/
theorem Serves.work {s : Sys} {p : Pool.ThreadPool Task} (h : Serves s p) {j : Nat} {t : Task}
    (hj : s.running[j]? = some t) :
    ∃ a p', Pool.step p a = some p' ∧ Serves (run_task s j t) p' := by
  obtain ⟨u, hu, rfl⟩ : ∃ u, u ∈ p.m_workers.filterMap running_task ∧ u.task = t := by
    exact List.mem_map.mp (h.running.mem_iff.mpr (List.mem_of_getElem? hj))
  obtain ⟨w, hw, hwu⟩ := List.mem_filterMap.mp hu
  obtain ⟨i, hi⟩ := List.getElem?_of_mem hw
  obtain rfl : w = .running u := by
    cases w <;> first | (cases hwu; rfl) | cases hwu
  refine ⟨.finish i, { p with m_workers := p.m_workers.set i .waiting }, ?_, h.queued,
    h.dispatched, h.kept, ?_, ?_, h.working, ?_⟩
  · simp [Pool.step, hi]
  · obtain ⟨others, hbefore, hafter⟩ := in_hand_set hi .waiting
    have hrest : others.Perm (s.running.eraseIdx j) :=
      (hbefore.symm.trans (h.running.trans (perm_of_getElem? hj))).cons_inv
    exact hafter.trans hrest
  · simpa [run_task] using h.threads
  · intro hmem
    rcases List.mem_or_eq_of_mem_set hmem with hold | heq
    · exact h.stay hold
    · cases heq

/-! ## The simulation -/

/-- **EVERY RUN OF THE SERVER IS FOLLOWED BY THE POOL.** -/
theorem pool_follows (ok : Sys → Label → Prop) :
    Simulation server (Pool.pool Task) ok (fun _ _ => True) Serves where
  init := by
    intro s h0
    refine ⟨Pool.init s.threads_count, ⟨s.threads_count, rfl⟩, ?_⟩
    obtain ⟨hrunning, hq⟩ : s.running = [] ∧ s.m_tasks = [] :=
      List.append_eq_nil_iff.mp h0.tasks
    refine ⟨hq.symm, h0.dispatched.symm, rfl, ?_, by simp [Pool.init], rfl, by simp [Pool.init]⟩
    rw [hrunning]
    have hnone : ∀ n : Nat, in_hand (List.replicate n .waiting) = [] := by
      intro n
      induction n with
      | zero => rfl
      | succ n ih => rw [List.replicate_succ]; exact ih
    exact List.Perm.of_eq (hnone s.threads_count)
  step := by
    intro s p l s' _ _ hp _ hs
    have still : ∀ {s' : Sys}, Serves s' p → ∃ p', (Pool.pool Task).Follows (fun _ _ => True) p p'
        ∧ Serves s' p' := fun h => ⟨p, .refl p, h⟩
    have moved : ∀ {s' : Sys}, (∃ a p', Pool.step p a = some p' ∧ Serves s' p') →
        ∃ p', (Pool.pool Task).Follows (fun _ _ => True) p p' ∧ Serves s' p' := by
      rintro s' ⟨a, p', ha, hp'⟩
      exact ⟨p', .of_step a trivial ha, hp'⟩
    cases step_cases hs with
    | poll_error => exact still (hp.frame rfl rfl rfl rfl)
    | poll => exact still (hp.frame rfl rfl rfl rfl)
    | skip => exact still (hp.frame rfl rfl rfl rfl)
    | accept_error => exact still (hp.frame rfl rfl rfl rfl)
    | accept_flags => exact still (hp.frame rfl rfl rfl rfl)
    | accept => exact still (hp.frame rfl rfl rfl rfl)
    | peer => exact still (hp.frame rfl rfl rfl rfl)
    | read cur rd k cl _ _ _ _ _ hv =>
        cases hv with
        | throws => exact still (hp.frame rfl rfl rfl rfl)
        | more => exact still (hp.frame rfl rfl rfl rfl)
        | gone => exact still (hp.frame rfl rfl rfl rfl)
        | complete => exact moved ⟨.enqueue_task _, _, rfl, hp.enqueue _ rfl rfl rfl rfl⟩
    | start t rest hq =>
        -- the guard on the number of threads is in the step itself
        have hlt : s.running.length < s.threads_count := by
          simp only [server, step, hq] at hs
          split at hs
          · assumption
          · cases hs
        exact moved (hp.start hq hlt)
    | work j t hj => exact moved (hp.work hj)

/-- **REQUESTS ARE SERVED IN ORDER**: in every run the pool follows, the requests
    that a worker has taken are the first ones dispatched, in that order, and
    the others are queued behind them; what was taken has been handled or is in
    hand, each once, and no more are in hand than there are threads. -/
theorem served_in_order {ok : Sys → Label → Prop} {s : Sys} (h : server.Reach ok s) :
    ∃ p, (Pool.pool Task).Reachable p ∧ Serves s p
      ∧ s.dispatched = p.started.map Pool.Task.task ++ s.m_tasks
      ∧ (p.started.map Pool.Task.task).Perm (s.handled.map Handled.task ++ s.running)
      ∧ s.running.length ≤ s.threads_count := by
  obtain ⟨p, hp, hserves⟩ := (pool_follows ok).reach h
  have hc := Pool.reach_conserved hp
  have horder : p.started ++ p.m_tasks = p.enqueued := by
    refine hc.order.eq_of_length ?_
    have hplaces := hc.places.length_eq
    rw [hserves.kept, List.append_nil] at hplaces
    exact hplaces
  have hsplit : s.dispatched = p.started.map Pool.Task.task ++ s.m_tasks := by
    rw [← hserves.dispatched, ← horder, List.map_append, hserves.queued]
  refine ⟨p, hp, hserves, hsplit, ?_, ?_⟩
  · have hperm := dispatched_perm h
    rw [hsplit, HttpServer.pending, ← List.append_assoc] at hperm
    exact (List.perm_append_right_iff _).mp hperm
  · rw [← hserves.running.length_eq, ← hserves.threads, in_hand, List.length_map]
    exact List.length_filterMap_le _ _

/-- Three requests and one thread: one is handled, one in hand, one queued. -/
theorem three_in_order : ∃ s, server.Reachable s
    ∧ s.handled.length = 1 ∧ s.running.length = 1 ∧ s.m_tasks.length = 1
    ∧ ∃ p, (Pool.pool Task).Reachable p ∧ Serves s p
      ∧ s.dispatched = p.started.map Pool.Task.task ++ s.m_tasks
      ∧ (p.started.map Pool.Task.task).Perm (s.handled.map Handled.task ++ s.running)
      ∧ s.running.length ≤ s.threads_count := by
  have h0 : server.Reachable (entered 3 1) := .init (init_entered 3 1)
  obtain ⟨s, hs, hh, hr, hq⟩ := h0.exists_of_run
    (fun s => s.handled.length = 1 ∧ s.running.length = 1 ∧ s.m_tasks.length = 1)
    [.poll (some [true]), .accept (.fd 5 true), .skip,
      .poll (some [true, false]), .accept (.fd 6 true), .skip, .skip,
      .poll (some [true, false, false]), .accept (.fd 7 true), .skip, .skip, .skip,
      .peer_send 1 get_b.bytes, .peer_send 0 get_a.bytes, .peer_send 2 get_a.bytes,
      .poll (some [false, true, true, true]), .skip, .read (.data get_a), .start,
      .read (.data get_b), .read (.data get_a), .work 0, .start]
    (by decide)
  exact ⟨s, hs, hh, hr, hq, served_in_order hs⟩

/-! ## The workers alone -/

/-- The steps of the workers. -/
def Works : Label → Prop
  | .start | .work _ => True
  | _ => False

instance : ∀ l, Decidable (Works l)
  | .start | .work _ => .isTrue trivial
  | .poll _ | .skip | .accept _ | .read _ | .peer_send _ _ | .peer_close _ | .peer_reset _ =>
      .isFalse id

/-- The worker steps that are left: two for a queued request, one for one in hand. -/
def HttpServer.owed (s : HttpServer) : Nat := 2 * s.m_tasks.length + s.running.length

/-- What a step adds to them, itself counted. -/
def Label.price : Label → Nat
  | .start | .work _ => 0
  | .read _ => 3
  | _ => 1

theorem owed_lt {s s' : Sys} {l : Label} (hs : Step s l s') :
    s'.owed < s.owed + l.price := by
  cases hs with
  | poll_error | poll | skip | accept_error | accept_flags | accept =>
      simp [HttpServer.owed, Label.price, accept_client, push_client]
  | peer l c conn conn' _ _ _ hl =>
      rcases hl with rfl | rfl | ⟨bytes, rfl⟩ <;> simp [HttpServer.owed, Label.price]
  | read cur rd k cl _ _ _ _ _ hv =>
      cases hv with
      | throws | more | gone => simp [HttpServer.owed, Label.price]
      | complete =>
          simp only [HttpServer.owed, Label.price, List.length_append, List.length_singleton]
          omega
  | start t rest hq =>
      simp only [HttpServer.owed, Label.price, hq, List.length_cons, List.length_append,
        List.length_nil]
      omega
  | work j t hj =>
      obtain ⟨hlt, -⟩ := List.getElem?_eq_some_iff.mp hj
      simp only [HttpServer.owed, Label.price, run_task, List.length_eraseIdx, if_pos hlt]
      omega

theorem worker_variant :
    server.Variant (fun _ => True) (fun s => s.owed) Label.price where
  keeps := fun _ _ _ _ _ => trivial
  pays := fun _ _ _ _ hs => owed_lt (step_cases hs)

/-- What the workers leave alone. -/
theorem works_keeps {s s' : Sys} {l : Label} (hl : Works l) (hs : Step s l s') :
    s'.threads_count = s.threads_count ∧ s'.dispatched = s.dispatched := by
  cases hs with
  | start => exact ⟨rfl, rfl⟩
  | work => exact ⟨rfl, rfl⟩
  | peer l c _ _ _ _ _ hl' => rcases hl' with rfl | rfl | ⟨_, rfl⟩ <;> exact hl.elim
  | poll_error | poll | skip | accept_error | accept_flags | accept | read => exact hl.elim

/-- Workers that cannot go on have nothing left, if there is one. -/
theorem nothing_pending_of_rest {s : Sys} (hthreads : 0 < s.threads_count)
    (hrest : server.AtRest (fun _ l => Works l) s) : s.pending = [] := by
  have hrunning : s.running = [] := by
    have hwork := hrest (.work 0) trivial
    simp only [server, step, Option.map_eq_none_iff] at hwork
    rw [← List.length_eq_zero_iff]
    exact Nat.le_zero.mp (List.getElem?_eq_none_iff.mp hwork)
  have hq : s.m_tasks = [] := by
    cases hq : s.m_tasks with
    | nil => rfl
    | cons t rest =>
        have hstart := hrest .start trivial
        simp [server, step, hq, hrunning, hthreads] at hstart
  rw [HttpServer.pending, hrunning, hq]
  rfl

end WebLib.EventLoop
