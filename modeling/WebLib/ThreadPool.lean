import WebLib.TransitionSystem

/-! # The thread pool, one step for each critical section

    `ThreadPool<FunctionType>`: `enqueue_task` and `clear` hold `m_mutex` from
    their first line to their last, and a worker holds it from the wait to the
    `pop_front`; the destructor stores `m_should_work` without it.  Here each of
    these is one atomic step, by any caller and any worker.  Tasks carry the
    number of `enqueue_task` calls before theirs, so that two tasks are never
    confused; three lists no step reads say what became of them.

    `WebLib.WorkerLoop` splits the sections into their statements and shows
    that the finer system does nothing this one does not. -/

namespace WebLib.Pool

open WebLib

universe u

variable {FunctionType : Type u}

/-- A task in the deque, with its place in the order of the calls. -/
structure Task (FunctionType : Type u) where
  ticket : Nat
  task : FunctionType
deriving DecidableEq, Repr

/-- What the threads share, and what happened to the tasks so far. -/
structure Shared (FunctionType : Type u) where
  m_tasks : List (Task FunctionType)
  m_should_work : Bool
  enqueued : List (Task FunctionType)
  started : List (Task FunctionType)
  discarded : List (Task FunctionType)
deriving DecidableEq, Repr

/-- A worker between two critical sections. -/
inductive Worker (FunctionType : Type u) where
  | waiting
  | running (t : Task FunctionType)
  | returned
deriving DecidableEq, Repr

structure ThreadPool (FunctionType : Type u) extends Shared FunctionType where
  m_workers : List (Worker FunctionType)

/-! ## Critical sections -/

/-- `m_tasks.push_back(std::move(task))`. -/
def Shared.push_back (s : Shared FunctionType) (task : FunctionType) : Shared FunctionType :=
  let t := ⟨s.enqueued.length, task⟩
  { s with m_tasks := s.m_tasks ++ [t], enqueued := s.enqueued ++ [t] }

/-- `m_tasks.clear()`. -/
def Shared.clear (s : Shared FunctionType) : Shared FunctionType :=
  { s with m_tasks := [], discarded := s.discarded ++ s.m_tasks }

/-- `m_should_work.store(false)`. -/
def Shared.store (s : Shared FunctionType) : Shared FunctionType :=
  { s with m_should_work := false }

/-- `front()` and `pop_front()`; undefined on an empty deque. -/
def Shared.pop_front (s : Shared FunctionType) : Option (Task FunctionType × Shared FunctionType) :=
  match s.m_tasks with
  | [] => none
  | t :: rest => some (t, { s with m_tasks := rest, started := s.started ++ [t] })

/-- The predicate of `m_condvar.wait`. -/
def Shared.wait_predicate (s : Shared FunctionType) : Bool :=
  !s.m_tasks.isEmpty || !s.m_should_work

/-- A worker past its wait: it returns, or takes the front task. -/
def Shared.check_and_pop (s : Shared FunctionType) :
    Option (Worker FunctionType × Shared FunctionType) :=
  if s.m_should_work then
    s.pop_front.map fun (t, s') => (.running t, s')
  else some (.returned, s)

/-! ## The system -/

inductive Action (FunctionType : Type u) where
  | enqueue_task (task : FunctionType)
  | check_and_pop (i : Nat)
  | finish (i : Nat)
  | clear
  | shutdown
deriving DecidableEq, Repr

def step (s : ThreadPool FunctionType) : Action FunctionType → Option (ThreadPool FunctionType)
  | .enqueue_task task => some { s with toShared := s.toShared.push_back task }
  | .check_and_pop i =>
      match s.m_workers[i]? with
      | some .waiting =>
          if s.toShared.wait_predicate then
            s.toShared.check_and_pop.map fun (w, s') =>
              { toShared := s', m_workers := s.m_workers.set i w }
          else none
      | _ => none
  | .finish i =>
      match s.m_workers[i]? with
      | some (.running _) => some { s with m_workers := s.m_workers.set i .waiting }
      | _ => none
  | .clear => some { s with toShared := s.toShared.clear }
  | .shutdown => some { s with toShared := s.toShared.store }

/-- A new pool with `threads_count` workers. -/
def init (threads_count : Nat) : ThreadPool FunctionType :=
  { m_tasks := [], m_should_work := true, enqueued := [], started := [], discarded := []
    m_workers := List.replicate threads_count .waiting }

def pool (FunctionType : Type u) :
    TransitionSystem (ThreadPool FunctionType) (Action FunctionType) where
  init s := ∃ threads_count, s = init threads_count
  step := step

/-! ## Where the tasks are -/

/-- A task is queued, started or discarded, and only one of the three. -/
def Shared.InOnePlace (s : Shared FunctionType) (t : Task FunctionType) : Prop :=
  (t ∈ s.m_tasks ∧ t ∉ s.started ∧ t ∉ s.discarded)
    ∨ (t ∈ s.started ∧ t ∉ s.m_tasks ∧ t ∉ s.discarded)
    ∨ (t ∈ s.discarded ∧ t ∉ s.m_tasks ∧ t ∉ s.started)

/-- The invariant: tickets number the calls, the three places together hold
    what was enqueued, and what is started or still queued is in order. -/
structure Shared.Conserved (s : Shared FunctionType) : Prop where
  tickets : ∀ (k : Nat) (t : Task FunctionType), s.enqueued[k]? = some t → t.ticket = k
  places : (s.started ++ s.discarded ++ s.m_tasks).Perm s.enqueued
  order : (s.started ++ s.m_tasks).Sublist s.enqueued

namespace Shared.Conserved

variable {s : Shared FunctionType}

theorem enqueued_nodup (h : s.Conserved) : s.enqueued.Nodup := by
  rw [List.nodup_iff_getElem?_ne_getElem?]
  intro i j hij hj heq
  have hti : s.enqueued[i]? = some (s.enqueued[j]) := by rw [heq, List.getElem?_eq_getElem hj]
  have htj : s.enqueued[j]? = some (s.enqueued[j]) := List.getElem?_eq_getElem hj
  have := (h.tickets i _ hti).symm.trans (h.tickets j _ htj)
  omega

theorem places_nodup (h : s.Conserved) : (s.started ++ s.discarded ++ s.m_tasks).Nodup :=
  h.places.nodup_iff.mpr h.enqueued_nodup

theorem push_back (h : s.Conserved) (task : FunctionType) : (s.push_back task).Conserved where
  tickets := by
    intro k t hk
    simp only [Shared.push_back, List.getElem?_append] at hk
    split at hk
    · exact h.tickets k t hk
    · next hlt =>
        obtain ⟨hz, rfl⟩ : k - s.enqueued.length = 0 ∧ _ = t := by
          simpa [List.getElem?_singleton] using hk
        show s.enqueued.length = k
        omega
  places := by
    simp only [Shared.push_back, ← List.append_assoc]
    exact h.places.append_right _
  order := by
    simp only [Shared.push_back, ← List.append_assoc]
    exact h.order.append_right _

theorem clear (h : s.Conserved) : s.clear.Conserved where
  tickets := h.tickets
  places := by
    simp only [Shared.clear, List.append_nil, ← List.append_assoc]
    exact h.places
  order := by
    simp only [Shared.clear, List.append_nil]
    exact (List.sublist_append_left _ _).trans h.order

theorem store (h : s.Conserved) : s.store.Conserved := ⟨h.tickets, h.places, h.order⟩

theorem pop_front (h : s.Conserved) {t : Task FunctionType} {s' : Shared FunctionType}
    (hp : s.pop_front = some (t, s')) : s'.Conserved := by
  rw [Shared.pop_front] at hp
  split at hp
  · cases hp
  · next rest heq =>
      cases hp
      have hq := h.places
      have ho := h.order
      rw [heq] at hq ho
      refine ⟨h.tickets, ?_, ?_⟩
      · -- the front task moves over the discarded ones
        refine List.Perm.trans ?_ hq
        simp only [List.append_assoc, List.singleton_append]
        exact List.Perm.append_left _ List.perm_middle.symm
      · simpa using ho

/-- Started tasks are not queued, and queued ones come later in the order of
    the calls. -/
theorem started_before (h : s.Conserved) {t q : Task FunctionType} (ht : t ∈ s.started)
    (hq : q ∈ s.m_tasks) : [t, q].Sublist s.enqueued := by
  have hts : [t].Sublist s.started := List.singleton_sublist.mpr ht
  have hqs : [q].Sublist s.m_tasks := List.singleton_sublist.mpr hq
  exact (hts.append hqs).trans h.order

theorem in_one_place (h : s.Conserved) {t : Task FunctionType} (ht : t ∈ s.enqueued) :
    s.InOnePlace t := by
  have hmem := h.places.mem_iff.mpr ht
  have hnd := h.places_nodup
  simp only [List.mem_append] at hmem
  simp only [List.nodup_append', List.disjoint_left, List.mem_append] at hnd
  obtain ⟨⟨-, -, hsd⟩, -, hq⟩ := hnd
  rcases hmem with (hs | hd) | hm
  · exact Or.inr (Or.inl ⟨hs, hq (Or.inl hs), hsd hs⟩)
  · exact Or.inr (Or.inr ⟨hd, hq (Or.inr hd), fun hs => hsd hs hd⟩)
  · exact Or.inl ⟨hm, fun hs => hq (Or.inl hs) hm, fun hd => hq (Or.inr hd) hm⟩

theorem mem_of_started (h : s.Conserved) {t : Task FunctionType} (ht : t ∈ s.started) :
    t ∈ s.enqueued :=
  h.places.mem_iff.mp (List.mem_append_left _ (List.mem_append_left _ ht))

theorem mem_of_queued (h : s.Conserved) {t : Task FunctionType} (ht : t ∈ s.m_tasks) :
    t ∈ s.enqueued := h.places.mem_iff.mp (List.mem_append_right _ ht)

theorem not_started_of_queued (h : s.Conserved) {t : Task FunctionType} (ht : t ∈ s.m_tasks) :
    t ∉ s.started := by
  have hnd := h.places_nodup
  rw [List.append_assoc, List.nodup_append'] at hnd
  exact fun hs => hnd.2.2 hs (List.mem_append_right _ ht)

theorem ticket_lt (h : s.Conserved) {t : Task FunctionType} (ht : t ∈ s.enqueued) :
    t.ticket < s.enqueued.length := by
  obtain ⟨k, hk⟩ := List.mem_iff_getElem?.mp ht
  rw [h.tickets k t hk]
  exact (List.getElem?_eq_some_iff.mp hk).1

/-- A ticket names one task. -/
theorem ticket_inj (h : s.Conserved) {t u : Task FunctionType} (ht : t ∈ s.enqueued)
    (hu : u ∈ s.enqueued) (htu : t.ticket = u.ticket) : t = u := by
  obtain ⟨k, hk⟩ := List.mem_iff_getElem?.mp ht
  obtain ⟨l, hl⟩ := List.mem_iff_getElem?.mp hu
  have hkl : k = l := (h.tickets k t hk).symm.trans (htu.trans (h.tickets l u hl))
  rw [hkl, hl] at hk
  exact (Option.some.inj hk).symm

end Shared.Conserved

/-! ## What a step does to the shared part -/

/-- A worker past its wait returns, or it takes the front task. -/
theorem step_check_and_pop {s s' : ThreadPool FunctionType} {i : Nat}
    (h : step s (.check_and_pop i) = some s') :
    s.m_workers[i]? = some .waiting
      ∧ (s' = { s with m_workers := s.m_workers.set i .returned }
        ∨ ∃ t rest, s.m_tasks = t :: rest ∧ s' = { s with
            m_tasks := rest
            started := s.started ++ [t]
            m_workers := s.m_workers.set i (.running t) }) := by
  simp only [step] at h
  split at h
  · next hi =>
      refine ⟨hi, ?_⟩
      split at h
      · obtain ⟨⟨w, sh⟩, hp, rfl⟩ := Option.map_eq_some_iff.mp h
        rw [Shared.check_and_pop] at hp
        split at hp
        · obtain ⟨⟨t, sh'⟩, hpop, heq⟩ := Option.map_eq_some_iff.mp hp
          cases heq
          rw [Shared.pop_front] at hpop
          split at hpop
          · cases hpop
          · next t' rest hq =>
              cases hpop
              exact Or.inr ⟨t, rest, hq, rfl⟩
        · cases hp
          exact Or.inl rfl
      · cases h
  · cases h

/-- One of the operations on the deque and the flag, or none. -/
inductive Effect (s : Shared FunctionType) : Shared FunctionType → Prop where
  | none : Effect s s
  | push_back (task : FunctionType) : Effect s (s.push_back task)
  | pop_front {t : Task FunctionType} {s' : Shared FunctionType} :
      s.pop_front = some (t, s') → Effect s s'
  | clear : Effect s s.clear
  | store : Effect s s.store

theorem Effect.conserved {s s' : Shared FunctionType} (he : Effect s s') (h : s.Conserved) :
    s'.Conserved := by
  cases he with
  | none => exact h
  | push_back task => exact h.push_back task
  | pop_front hp => exact h.pop_front hp
  | clear => exact h.clear
  | store => exact h.store

/-- The histories only grow. -/
theorem Effect.grows {s s' : Shared FunctionType} (he : Effect s s') :
    s.enqueued <+: s'.enqueued ∧ s.started <+: s'.started ∧ s.discarded <+: s'.discarded := by
  cases he with
  | none => exact ⟨List.prefix_rfl, List.prefix_rfl, List.prefix_rfl⟩
  | push_back task => exact ⟨List.prefix_append _ _, List.prefix_rfl, List.prefix_rfl⟩
  | pop_front hp =>
      rw [Shared.pop_front] at hp
      split at hp
      · cases hp
      · cases hp
        exact ⟨List.prefix_rfl, List.prefix_append _ _, List.prefix_rfl⟩
  | clear => exact ⟨List.prefix_rfl, List.prefix_rfl, List.prefix_append _ _⟩
  | store => exact ⟨List.prefix_rfl, List.prefix_rfl, List.prefix_rfl⟩

/-- A worker past its wait pops, or returns and leaves everything alone. -/
theorem check_and_pop_effect {s s' : Shared FunctionType} {w : Worker FunctionType}
    (h : s.check_and_pop = some (w, s')) : Effect s s' := by
  rw [Shared.check_and_pop] at h
  split at h
  · obtain ⟨⟨t, s₁⟩, hp, heq⟩ := Option.map_eq_some_iff.mp h
    cases heq
    exact .pop_front hp
  · cases h
    exact .none

theorem step_effect {s s' : ThreadPool FunctionType} {a : Action FunctionType}
    (h : step s a = some s') : Effect s.toShared s'.toShared := by
  cases a with
  | enqueue_task task => cases h; exact .push_back task
  | check_and_pop i =>
      simp only [step] at h
      split at h
      · split at h
        · obtain ⟨⟨w, s₁⟩, hp, rfl⟩ := Option.map_eq_some_iff.mp h
          exact check_and_pop_effect hp
        · cases h
      · cases h
  | finish i =>
      simp only [step] at h
      split at h
      · cases h; exact .none
      · cases h
  | clear => cases h; exact .clear
  | shutdown => cases h; exact .store

theorem conserved_init (threads_count : Nat) :
    (init threads_count : ThreadPool FunctionType).toShared.Conserved where
  tickets := by intro k t hk; cases hk
  places := List.Perm.nil
  order := List.Sublist.slnil

theorem reach_conserved {s : ThreadPool FunctionType} (h : (pool FunctionType).Reachable s) :
    s.toShared.Conserved := by
  induction h with
  | init h0 =>
      obtain ⟨n, rfl⟩ := h0
      exact conserved_init n
  | step _ _ hs ih => exact (step_effect hs).conserved ih

/-- **TASK CONSERVATION**: in every reachable state each enqueued task is in
    exactly one place and nothing else is in any; no task is started twice, the
    started ones follow the order of the calls, every queued one was enqueued
    after every started one; and no step takes anything out of the histories. -/
theorem task_conservation {s : ThreadPool FunctionType} (h : (pool FunctionType).Reachable s) :
    s.enqueued.Nodup
      ∧ (∀ t, t ∈ s.enqueued ↔ t ∈ s.m_tasks ∨ t ∈ s.started ∨ t ∈ s.discarded)
      ∧ (∀ t ∈ s.enqueued, s.toShared.InOnePlace t)
      ∧ s.m_tasks.Nodup ∧ s.started.Nodup ∧ s.discarded.Nodup
      ∧ s.started.Sublist s.enqueued
      ∧ (∀ t ∈ s.started, ∀ q ∈ s.m_tasks, [t, q].Sublist s.enqueued)
      ∧ ∀ a s', step s a = some s' →
          s.enqueued <+: s'.enqueued ∧ s.started <+: s'.started ∧ s.discarded <+: s'.discarded := by
  have hc := reach_conserved h
  obtain ⟨⟨hs, hd, -⟩, hm, -⟩ : (s.started.Nodup ∧ s.discarded.Nodup ∧ _) ∧ s.m_tasks.Nodup ∧ _ := by
    simpa only [List.nodup_append'] using hc.places_nodup
  refine ⟨hc.enqueued_nodup, ?_, fun t => hc.in_one_place, hm, hs, hd,
    (List.sublist_append_left _ _).trans hc.order, fun t ht q hq => hc.started_before ht hq,
    fun a s' hstep => (step_effect hstep).grows⟩
  intro t
  rw [← hc.places.mem_iff]
  simp only [List.mem_append]
  tauto

/-- Two workers take two of four tasks, one waits, one was discarded. -/
theorem two_started_in_order : ∃ s : ThreadPool Nat, (pool Nat).Reachable s
    ∧ s.started = [⟨0, 7⟩, ⟨2, 9⟩] ∧ s.discarded = [⟨1, 8⟩] ∧ s.m_tasks = [⟨3, 7⟩]
    ∧ s.enqueued.Nodup ∧ s.started.Sublist s.enqueued := by
  have h0 : (pool Nat).Reachable (init 2) := .init ⟨2, rfl⟩
  obtain ⟨s, hs, hst, hd, hq⟩ := h0.exists_of_run
    (fun s => s.started = [⟨0, 7⟩, ⟨2, 9⟩] ∧ s.discarded = [⟨1, 8⟩] ∧ s.m_tasks = [⟨3, 7⟩])
    [.enqueue_task 7, .enqueue_task 8, .check_and_pop 1, .clear, .enqueue_task 9,
      .check_and_pop 0, .enqueue_task 7, .shutdown]
    (by decide)
  obtain ⟨hnd, -, -, -, -, -, horder, -⟩ := task_conservation hs
  exact ⟨s, hs, hst, hd, hq, hnd, horder⟩

/-! ## Who runs what -/

/-- A worker's task is a started one, and no other worker has it. -/
structure Exclusive (s : ThreadPool FunctionType) : Prop where
  started : ∀ (i : Nat) (t : Task FunctionType),
    s.m_workers[i]? = some (.running t) → t ∈ s.started
  alone : ∀ (i j : Nat) (t : Task FunctionType),
    s.m_workers[i]? = some (.running t) → s.m_workers[j]? = some (.running t) → i = j

/-- An entry of a list after an entry that existed was replaced. -/
theorem getElem?_set_of_some {α : Type*} {l : List α} {i : Nat} {a : α} (h : l[i]? = some a)
    (b : α) (j : Nat) : (l.set i b)[j]? = if j = i then some b else l[j]? := by
  obtain ⟨hi, -⟩ := List.getElem?_eq_some_iff.mp h
  rw [List.getElem?_set]
  by_cases hji : j = i
  · simp [hji, hi]
  · rw [if_neg hji, if_neg (fun hij => hji hij.symm)]

/-- A change that a projection does not see. -/
theorem map_set_of_eq {α β : Type*} {f : α → β} {l : List α} {i : Nat} {a a' : α}
    (h : l[i]? = some a) (hf : f a = f a') : (l.set i a').map f = l.map f := by
  apply List.ext_getElem?
  intro j
  rw [List.getElem?_map, List.getElem?_map, getElem?_set_of_some h]
  by_cases hj : j = i
  · rw [if_pos hj, hj, h, Option.map_some, Option.map_some, hf]
  · rw [if_neg hj]

/-- Whether a thread is at a place of a kind, after one of them moved. -/
theorem exists_getElem?_set {α : Type*} {P : α → Prop} {l : List α} {i : Nat} {a : α}
    (h : l[i]? = some a) (b : α) (j : Nat) :
    (∃ x, (l.set i b)[j]? = some x ∧ P x) ↔ if j = i then P b else ∃ x, l[j]? = some x ∧ P x := by
  rw [getElem?_set_of_some h]
  by_cases hj : j = i
  · rw [if_pos hj, if_pos hj]
    constructor
    · rintro ⟨x, hx, hp⟩
      exact Option.some.inj hx ▸ hp
    · exact fun hp => ⟨b, rfl, hp⟩
  · rw [if_neg hj, if_neg hj]

/-- Whether a thread is at a place of a kind, after all moved within it. -/
theorem exists_getElem?_map {α : Type*} {P : α → Prop} {f : α → α} (hf : ∀ x, P (f x) ↔ P x)
    (l : List α) (j : Nat) :
    (∃ x, (l.map f)[j]? = some x ∧ P x) ↔ ∃ x, l[j]? = some x ∧ P x := by
  rw [List.getElem?_map]
  constructor
  · rintro ⟨x, hx, hp⟩
    obtain ⟨y, hy, rfl⟩ := Option.map_eq_some_iff.mp hx
    exact ⟨y, hy, (hf y).mp hp⟩
  · rintro ⟨x, hx, hp⟩
    exact ⟨f x, by rw [hx, Option.map_some], (hf x).mpr hp⟩

/-- Replacing a worker's entry by one that runs nothing. -/
theorem Exclusive.set_idle {s : ThreadPool FunctionType} {i : Nat} {w w' : Worker FunctionType}
    (h : Exclusive s) (hi : s.m_workers[i]? = some w) (hw : ∀ t, w' ≠ .running t) :
    Exclusive { s with m_workers := s.m_workers.set i w' } := by
  have old : ∀ (j : Nat) (t : Task FunctionType),
      (s.m_workers.set i w')[j]? = some (.running t) → s.m_workers[j]? = some (.running t) := by
    intro j t hj
    rw [getElem?_set_of_some hi] at hj
    split at hj
    · exact absurd (Option.some.inj hj) (hw t)
    · exact hj
  exact ⟨fun j t hj => h.started j t (old j t hj),
    fun j k t hj hk => h.alone j k t (old j t hj) (old k t hk)⟩

/-- A worker starting a task that was not started before. -/
theorem Exclusive.set_running {s s' : ThreadPool FunctionType} {i : Nat}
    {w : Worker FunctionType} {t : Task FunctionType} (h : Exclusive s)
    (hi : s.m_workers[i]? = some w) (ht : t ∉ s.started)
    (hw : s'.m_workers = s.m_workers.set i (.running t))
    (hs : s'.started = s.started ++ [t]) : Exclusive s' := by
  have new : ∀ (j : Nat) (u : Task FunctionType), s'.m_workers[j]? = some (.running u) →
      (j = i ∧ u = t) ∨ s.m_workers[j]? = some (.running u) := by
    intro j u hj
    rw [hw, getElem?_set_of_some hi] at hj
    split at hj
    · next hji => exact Or.inl ⟨hji, by cases hj; rfl⟩
    · exact Or.inr hj
  refine ⟨?_, ?_⟩
  · intro j u hj
    rw [hs, List.mem_append, List.mem_singleton]
    rcases new j u hj with ⟨-, hu⟩ | hold
    · exact Or.inr hu
    · exact Or.inl (h.started j u hold)
  · intro j k u hj hk
    -- a task that was running before is a started one, so it is not the new one
    rcases new j u hj with ⟨hji, rfl⟩ | hj' <;> rcases new k u hk with ⟨hki, hku⟩ | hk'
    · exact hji.trans hki.symm
    · exact absurd (h.started k u hk') ht
    · exact absurd (h.started j u hj') (hku ▸ ht)
    · exact h.alone j k u hj' hk'

theorem Exclusive.step {s s' : ThreadPool FunctionType} {a : Action FunctionType}
    (h : Exclusive s) (hc : s.toShared.Conserved) (hs : Pool.step s a = some s') :
    Exclusive s' := by
  cases a with
  | enqueue_task task => cases hs; exact ⟨h.started, h.alone⟩
  | check_and_pop i =>
      obtain ⟨hi, rfl | ⟨t, rest, hq, rfl⟩⟩ := step_check_and_pop hs
      · exact h.set_idle hi (by intro t ht; cases ht)
      · exact h.set_running hi (hc.not_started_of_queued (by simp [hq])) rfl rfl
  | finish i =>
      simp only [Pool.step] at hs
      split at hs
      · next hi => cases hs; exact h.set_idle hi (by intro t ht; cases ht)
      · cases hs
  | clear => cases hs; exact ⟨h.started, h.alone⟩
  | shutdown => cases hs; exact ⟨h.started, h.alone⟩

/-- **NO TASK RUNS TWICE AT ONCE**: a worker runs a started task, which no other
    worker runs. -/
theorem reach_exclusive {s : ThreadPool FunctionType} (h : (pool FunctionType).Reachable s) :
    Exclusive s := by
  refine h.invariant_of (fun s hr => reach_conserved hr) ?_ ?_
  · rintro s ⟨n, rfl⟩
    have idle : ∀ (i : Nat) (t : Task FunctionType),
        (init n : ThreadPool FunctionType).m_workers[i]? ≠ some (.running t) := by
      intro i t hi
      simp only [init, List.getElem?_replicate] at hi
      split at hi <;> cases hi
    exact ⟨fun i t hi => absurd hi (idle i t), fun i j t hi _ => absurd hi (idle i t)⟩
  · intro s a s' hc h _ hs
    exact h.step hc hs

end WebLib.Pool
