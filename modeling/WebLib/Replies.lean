import WebLib.Exchange
import WebLib.Wire

/-! # From the wire to the wire

    The workers' system calls interleave with everything else, and it makes no
    difference: seen without them the server is that of `WebLib.EventLoop`,
    whose tasks run in one step.  What a connection's socket has taken is at any
    moment what `process_request` writes for the bytes of this connection on the
    outcomes so far, and for a message on a route of the server it is what the
    handler of the route writes. -/

namespace WebLib.Exchange

open WebLib ByteString Utils UnorderedMap Decoding HttpBinder HttpRequest HttpRouter TaskEnd
  TransitionSystem Sending
open WebLib.ReadRequest (Client)
open WebLib.EventLoop (Fd ConnId Sys Task Label Handled Assigned server)

variable {Handler Filter Behaviour : Type} (prog : Program Handler Filter Behaviour)

/-! ## The relation -/

/-- What the socket of a task's connection has taken: nothing before the worker is
    inside the call, then what the call has written so far. -/
inductive Progress (sent : Str) (t : Task) : Option (Job Behaviour) → Prop where
  | waiting : sent = [] → Progress sent t none
  | called (b : Behaviour) (script : List SendOutcome) :
      sent = bytes (prog.reply b t.request script).log →
      Progress sent t (some ⟨some (t.client_socket, t.request), b, script⟩)

/-- The connection a handled task answered has taken all that the call wrote. -/
def Replied (sent : ConnId → Str) (y : Handled) : Prop :=
  ∃ c fd raw_http b script, y.answered = some c ∧ y.call = some (fd, raw_http)
    ∧ Over (prog.reply b raw_http script).ending
    ∧ sent c = bytes (prog.reply b raw_http script).log

structure Serving (x : State Behaviour) : Prop where
  length : x.jobs.length = x.running.length
  progress : ∀ (j : Nat) t o, x.running[j]? = some t → x.jobs[j]? = some o →
    ∃ c, t.conn = some c ∧ Progress prog (x.sent c) t o
  handled : ∀ y ∈ x.handled, Replied prog x.sent y
  silent : ∀ c, some c ∉ x.handled.map Handled.answered → some c ∉ x.running.map Task.conn →
    x.sent c = []

/-- Without the workers' progress the state is one of the server. -/
def Projects (x : State Behaviour) (s : Sys) : Prop := x.toSys = s ∧ Serving prog x

variable {prog} {x : State Behaviour} {j : Nat} {t : Task} {c : ConnId}

/-! ## Places -/

/-- A running task is pending. -/
theorem mem_pending (ht : x.running[j]? = some t) : t ∈ x.pending :=
  List.mem_append.mpr (Or.inl (List.mem_of_getElem? ht))

/-- No two workers have the same connection. -/
theorem conn_ne (hr : server.Reach EventLoop.Orderly x.toSys) (ht : x.running[j]? = some t)
    {i : Nat} {u : Task} (hu : x.running[i]? = some u) (hne : i ≠ j) : u.conn ≠ t.conn := by
  have hnodup := (EventLoop.places_nodup hr).of_append_right
  rw [EventLoop.HttpServer.pending, List.map_append] at hnodup
  intro he
  have hlt : i < (x.running.map Task.conn).length := by
    rw [List.length_map]
    exact (List.getElem?_eq_some_iff.mp hu).1
  refine hne ((List.getElem?_inj hlt hnodup.of_append_left).mp ?_)
  rw [List.getElem?_map, List.getElem?_map, hu, ht, Option.map_some, Option.map_some, he]

/-- A connection with a pending task has not been answered. -/
theorem answered_ne (hr : server.Reach EventLoop.Orderly x.toSys) (ht : t ∈ x.pending)
    (ha : Assigned x.toSys t c) {y : Handled} (hy : y ∈ x.handled) : y.answered ≠ some c := by
  intro he
  refine (List.nodup_append'.mp (EventLoop.places_nodup hr)).2.2 (List.mem_map_of_mem hy) ?_
  rw [he, ← ha.conn]
  exact List.mem_map_of_mem ht

/-- Every job belongs to a running task. -/
theorem Serving.task (h : Serving prog x) {o : Option (Job Behaviour)}
    (hj : x.jobs[j]? = some o) : ∃ t, x.running[j]? = some t := by
  have hlt : j < x.running.length := by
    rw [← h.length]
    exact (List.getElem?_eq_some_iff.mp hj).1
  exact ⟨_, List.getElem?_eq_getElem hlt⟩

/-- A worker inside the call has called `process_request` with its task. -/
theorem Serving.job (h : Serving prog x) (ha : Assigned x.toSys t c)
    (ht : x.running[j]? = some t) {job : Job Behaviour} (hj : x.jobs[j]? = some (some job)) :
    job.call = some (t.client_socket, t.request)
      ∧ x.sent c = bytes (prog.reply job.behaviour t.request job.script).log := by
  obtain ⟨d, hd, hp⟩ := h.progress j t _ ht hj
  obtain rfl := ha.unique hd
  cases hp with
  | called b script hsent => exact ⟨rfl, hsent⟩

/-! ## The steps -/

/-- A step that neither gives a worker a task nor ends one. -/
theorem idle_step {s s' : Sys} {l : Label} (hw : ∀ j, l ≠ .work j) (hl : l ≠ .start)
    (hs : EventLoop.step s l = some s') : s'.running = s.running ∧ s'.handled = s.handled := by
  cases EventLoop.step_cases hs with
  | read cur rd k cl _ _ _ _ _ hv => cases hv <;> exact ⟨rfl, rfl⟩
  | start t rest ht => exact absurd rfl hl
  | work j t ht => exact absurd rfl (hw j)
  | poll_error | poll | skip | accept_error | accept_flags | accept | peer => exact ⟨rfl, rfl⟩

theorem Serving.idle (h : Serving prog x) {s : Sys} (hrunning : s.running = x.running)
    (hhandled : s.handled = x.handled) : Serving prog { x with toSys := s } where
  length := by rw [hrunning]; exact h.length
  progress := by
    rw [hrunning]
    exact h.progress
  handled := by
    rw [hhandled]
    exact h.handled
  silent := by
    rw [hhandled, hrunning]
    exact h.silent

theorem Serving.down (h : Serving prog x) (process : Process) :
    Serving prog { x with process := process } :=
  ⟨h.length, h.progress, h.handled, h.silent⟩

/-- A worker that takes a task has sent nothing for it. -/
theorem Serving.start (h : Serving prog x) (hr : server.Reach EventLoop.Orderly x.toSys)
    {rest : List Task} (ht : x.m_tasks = t :: rest) :
    Serving prog { x with
      m_tasks := rest, running := x.running ++ [t], jobs := x.jobs ++ [none] } := by
  have hmem : t ∈ x.pending := List.mem_append.mpr (Or.inr (ht ▸ List.mem_cons_self))
  obtain ⟨c, ha⟩ := EventLoop.assigned hr hmem
  have hnotrunning : some c ∉ x.running.map Task.conn := by
    have hnodup := (EventLoop.places_nodup hr).of_append_right
    rw [EventLoop.HttpServer.pending, List.map_append] at hnodup
    intro hm
    refine (List.nodup_append'.mp hnodup).2.2 hm ?_
    rw [← ha.conn]
    exact List.mem_map_of_mem (ht ▸ List.mem_cons_self)
  have hnothandled : some c ∉ x.handled.map Handled.answered := by
    intro hm
    obtain ⟨y, hy, he⟩ := List.mem_map.mp hm
    exact answered_ne hr hmem ha hy he
  refine ⟨?_, ?_, h.handled, ?_⟩
  · simp only [List.length_append, h.length, List.length_singleton]
  · intro i u o hu ho
    simp only at hu ho
    rcases Nat.lt_or_ge i x.running.length with hlt | hge
    · rw [List.getElem?_append_left hlt] at hu
      rw [List.getElem?_append_left (h.length ▸ hlt)] at ho
      exact h.progress i u o hu ho
    · have hi : i = x.running.length := by
        have := (List.getElem?_eq_some_iff.mp hu).1
        rw [List.length_append, List.length_singleton] at this
        exact le_antisymm (Nat.le_of_lt_succ this) hge
      rw [hi, List.getElem?_concat_length] at hu
      rw [hi, ← h.length, List.getElem?_concat_length] at ho
      obtain rfl := Option.some.inj hu
      obtain rfl := Option.some.inj ho
      exact ⟨c, ha.conn, .waiting (h.silent c hnothandled hnotrunning)⟩
  · intro d hd hrunning
    refine h.silent d hd fun hm => hrunning ?_
    rw [List.map_append]
    exact List.mem_append.mpr (Or.inl hm)

/-- A worker that goes on changes what its own connection has taken. -/
theorem Serving.advance (h : Serving prog x) (hr : server.Reach EventLoop.Orderly x.toSys)
    (ht : x.running[j]? = some t) (ha : Assigned x.toSys t c) {sent : ConnId → Str}
    (hsent : ∀ d, d ≠ c → sent d = x.sent d) {o : Option (Job Behaviour)}
    (ho : Progress prog (sent c) t o) :
    Serving prog { x with jobs := x.jobs.set j o, sent := sent } := by
  have hmem := mem_pending ht
  refine ⟨?_, ?_, ?_, ?_⟩
  · simp only [List.length_set, h.length]
  · intro i u p hu hp
    simp only at hp ⊢
    by_cases hi : i = j
    · obtain rfl := hi
      obtain rfl := Option.some.inj (ht.symm.trans hu)
      have hlt := (List.getElem?_eq_some_iff.mp hp).1
      rw [List.length_set] at hlt
      rw [List.getElem?_set_self hlt] at hp
      obtain rfl := Option.some.inj hp
      exact ⟨c, ha.conn, ho⟩
    · rw [List.getElem?_set_ne (Ne.symm hi)] at hp
      obtain ⟨d, hd, hprogress⟩ := h.progress i u p hu hp
      have hne : d ≠ c := by
        rintro rfl
        exact conn_ne hr ht hu hi (hd.trans ha.conn.symm)
      exact ⟨d, hd, by rw [hsent d hne]; exact hprogress⟩
  · intro y hy
    obtain ⟨d, fd, raw_http, b, script, hans, hcall, hover, hbytes⟩ := h.handled y hy
    have hne : d ≠ c := by
      rintro rfl
      exact answered_ne hr hmem ha hy hans
    exact ⟨d, fd, raw_http, b, script, hans, hcall, hover, (hsent d hne).trans hbytes⟩
  · intro d hd hrunning
    have hne : d ≠ c := by
      rintro rfl
      exact hrunning (ha.conn ▸ List.mem_map_of_mem (List.mem_of_getElem? ht))
    exact (hsent d hne).trans (h.silent d hd hrunning)

/-- A task that ends leaves what its connection has taken. -/
theorem Serving.finish (h : Serving prog x) (ht : x.running[j]? = some t)
    (ha : Assigned x.toSys t c) {job : Job Behaviour} (hj : x.jobs[j]? = some (some job))
    (hover : Over (prog.block job).ending) :
    Serving prog { x with
      toSys := close_task x.toSys j t job.call, jobs := x.jobs.eraseIdx j } := by
  obtain ⟨hcall, hsent⟩ := h.job ha ht hj
  have hlt := (List.getElem?_eq_some_iff.mp ht).1
  rw [Program.block, hcall] at hover
  refine ⟨?_, ?_, ?_, ?_⟩
  · show (x.jobs.eraseIdx j).length = (x.running.eraseIdx j).length
    rw [List.length_eraseIdx_of_lt hlt, List.length_eraseIdx_of_lt (h.length ▸ hlt), h.length]
  · intro i u o hu ho
    have hu' : (x.running.eraseIdx j)[i]? = some u := hu
    have ho' : (x.jobs.eraseIdx j)[i]? = some o := ho
    rw [List.getElem?_eraseIdx] at hu' ho'
    by_cases hi : i < j
    · rw [if_pos hi] at hu' ho'
      exact h.progress i u o hu' ho'
    · rw [if_neg hi] at hu' ho'
      exact h.progress (i + 1) u o hu' ho'
  · intro y hy
    have hy' : y ∈ x.handled ++ [_] := hy
    rcases List.mem_append.mp hy' with hold | hnew
    · exact h.handled y hold
    · obtain rfl := List.mem_singleton.mp hnew
      refine ⟨c, t.client_socket, t.request, job.behaviour, job.script, ?_, hcall, hover, hsent⟩
      simp only [hcall, Option.bind_some]
      exact ha.owner
  · intro d hd hrunning
    have hd' : some d ∉ (x.handled ++ [_]).map Handled.answered := hd
    rw [List.map_append, List.mem_append, not_or] at hd'
    refine h.silent d hd'.1 fun hm => ?_
    obtain ⟨u, hu, he⟩ := List.mem_map.mp hm
    have hperm := List.getElem_cons_eraseIdx_perm hlt
    rw [(List.getElem?_eq_some_iff.mp ht).2] at hperm
    rcases List.mem_cons.mp (hperm.mem_iff.mpr hu) with rfl | hrest
    · refine hd'.2 (List.mem_singleton.mpr ?_)
      simp only [hcall, Option.bind_some]
      rw [← he, ha.conn]
      exact ha.owner.symm
    · exact hrunning (he ▸ List.mem_map_of_mem hrest)

/-- The end of a task that was begun is the task. -/
theorem close_task_eq (ha : Assigned x.toSys t c) :
    close_task x.toSys j t (some (t.client_socket, t.request))
      = EventLoop.run_task x.toSys j t := by
  have hmap : (EventLoop.handle_incoming_request x.m_active_clients t.client_socket).1
      = x.m_active_clients := emplace_of_mem _ ha.entry
  rw [close_task, EventLoop.run_task]
  simp only [hmap, ha.call]

/-! ## The simulation -/

/-- The bytes of the next outcome come behind those of the ones before. -/
theorem put_eq (ha : Assigned x.toSys t c) (b : Behaviour) (script : List SendOutcome)
    (outcome : SendOutcome) (hsent : x.sent c = bytes (prog.reply b t.request script).log) :
    put x t.client_socket ((bytes (prog.reply b t.request (script ++ [outcome])).log).drop
        (bytes (prog.reply b t.request script).log).length)
      = Function.update x.sent c (bytes (prog.reply b t.request (script ++ [outcome])).log) := by
  have honline := (sequential_process_request prog.platform (prog.users b) prog.m_handles
    t.request).online
  have hgrows : bytes (prog.reply b t.request script).log
      <+: bytes (prog.reply b t.request (script ++ [outcome])).log :=
    honline.grows script [outcome]
  have howner : x.owner t.client_socket = some c := ha.owner
  rw [put, howner]
  simp only
  rw [hsent]
  exact congrArg _ (List.prefix_iff_eq_append.mp hgrows)

theorem Serving.enter (h : Serving prog x) (hr : server.Reach EventLoop.Orderly x.toSys)
    (ht : x.running[j]? = some t) (ha : Assigned x.toSys t c) (hj : x.jobs[j]? = some none)
    (b : Behaviour) : Serving prog { x with
      jobs := x.jobs.set j (some ⟨some (t.client_socket, t.request), b, []⟩) } := by
  obtain ⟨d, hd, hp⟩ := h.progress j t _ ht hj
  obtain rfl := ha.unique hd
  cases hp with
  | waiting hnil =>
      have honline := (sequential_process_request prog.platform (prog.users b) prog.m_handles
        t.request).online
      have hstart : bytes (prog.reply b t.request []).log = [] := honline.start.1
      refine h.advance hr ht ha (fun _ _ => rfl) (.called b [] ?_)
      rw [hnil, hstart]

variable (prog)

/-- **THE SENDING IS INVISIBLE**: in orderly runs each step of the server whose
    workers send is one step of the server or none. -/
theorem simulation : Simulation (exchange prog) server Orderly EventLoop.Orderly
    (Projects prog) where
  init x h0 := by
    refine ⟨x.toSys, h0.server, rfl, ?_⟩
    have htasks := h0.server.tasks
    rw [EventLoop.HttpServer.pending, List.append_eq_nil_iff] at htasks
    refine ⟨?_, ?_, ?_, ?_⟩
    · rw [h0.jobs, htasks.1]
      rfl
    · intro j t o ht
      rw [htasks.1] at ht
      cases ht
    · intro y hy
      rw [h0.server.handled] at hy
      cases hy
    · intro c _ _
      rw [h0.sent]
  step := by
    rintro x s m x' - hr ⟨rfl, h⟩ hok hmove
    obtain ⟨hcases, -⟩ := step_cases prog hmove
    cases hcases with
    | other l s hw hl hs =>
        obtain ⟨hrunning, hhandled⟩ := idle_step hw hl hs
        exact ⟨s, .of_step l hok hs, rfl, h.idle hrunning hhandled⟩
    | start s hs =>
        cases EventLoop.step_cases hs with
        | start t rest ht => exact ⟨_, .of_step .start hok hs, rfl, h.start hr ht⟩
        | peer _ _ _ _ _ _ _ hl => simp at hl
    | enter j b t ht hj =>
        obtain ⟨c, ha⟩ := EventLoop.assigned hr (mem_pending ht)
        have hmap : (EventLoop.handle_incoming_request x.m_active_clients t.client_socket).1
            = x.m_active_clients := emplace_of_mem _ ha.entry
        refine ⟨x.toSys, .refl _, ?_, ?_⟩
        · simp only [hmap]
        · simp only [hmap, ha.call]
          exact h.enter hr ht ha hj b
    | send j outcome fd raw_http b script hj hend hopen =>
        obtain ⟨t, ht⟩ := h.task hj
        obtain ⟨c, ha⟩ := EventLoop.assigned hr (mem_pending ht)
        obtain ⟨hcall, hsent⟩ := h.job ha ht hj
        obtain ⟨rfl, rfl⟩ := Prod.mk.inj (Option.some.inj hcall)
        refine ⟨x.toSys, .refl _, rfl, ?_⟩
        rw [put_eq ha b script outcome hsent]
        refine h.advance hr ht ha (fun d hd => Function.update_of_ne hd _ _)
          (.called b (script ++ [outcome]) ?_)
        rw [Function.update_self]
    | broken_pipe j fd raw_http b script hj hend hgone =>
        exact ⟨x.toSys, .refl _, rfl, h.down .killed⟩
    | finish j t job ht hj hover =>
        obtain ⟨c, ha⟩ := EventLoop.assigned hr (mem_pending ht)
        have hclose : close_task x.toSys j t job.call = EventLoop.run_task x.toSys j t := by
          rw [(h.job ha ht hj).1, close_task_eq ha]
        refine ⟨EventLoop.run_task x.toSys j t, .of_step (.work j) trivial ?_, hclose, ?_⟩
        · show (x.running[j]?).map _ = _
          rw [ht]
          rfl
        · exact h.finish ht ha hj hover
    | terminated j t job ht hj hend =>
        exact ⟨x.toSys, .refl _, rfl, h.down .terminated⟩
    | undefined j t job ht hj hend =>
        exact ⟨x.toSys, .refl _, rfl, h.down .undefined⟩

theorem projected (h : (exchange prog).Reach Orderly x) :
    server.Reach EventLoop.Orderly x.toSys ∧ Serving prog x := by
  obtain ⟨s, hs, rfl, hserving⟩ := (simulation prog).reach h
  exact ⟨hs, hserving⟩

/-- **A TASK MAY BE TAKEN FOR ONE STEP**: where the workers' system calls fall
    between the steps of the loop, of the peers and of each other, the server goes
    through states that it also reaches by running each task in one step. -/
theorem one_step_tasks (h : (exchange prog).Reach Orderly x) :
    server.Reach EventLoop.Orderly x.toSys := (projected prog h).1

/-- Every handler answers with an empty response, or throws an object. -/
def sample_program : Program Nat Nat Bool where
  platform := plain_platform
  users answers :=
    { filter := fun _ _ => .ok true
      handler := fun _ _ =>
        if answers then .respond ({} : HttpResponse) fun _ => .done else .throw .user_object }
  m_handles := late_route

/-- The event loop is entered. -/
def entered (threads_count : Nat) : State Bool :=
  { toSys := EventLoop.entered 3 threads_count, jobs := [], sent := fun _ => [], process := .up }

theorem init_entered (threads_count : Nat) : Init (entered threads_count) :=
  ⟨EventLoop.init_entered 3 threads_count, rfl, rfl, rfl⟩

/-- Two connections whose requests are complete, each with a worker. -/
def two_taken : List (Move Bool) :=
  [.other (.poll (some [true])), .other (.accept (.fd 5 true)), .other .skip,
    .other (.poll (some [true, false])), .other (.accept (.fd 6 true)), .other .skip,
    .other .skip, .other (.peer_send 1 EventLoop.get_b.bytes),
    .other (.peer_send 0 EventLoop.get_a.bytes),
    .other (.poll (some [false, true, true])), .other .skip,
    .other (.read (.data EventLoop.get_a)), .other .start,
    .other (.read (.data EventLoop.get_b)), .other .start]

/-- One worker is inside its `respond` while the other one sends a page and ends. -/
theorem one_step_tasks_sample : ∃ x : State Bool, x.sent 0 = str "HTTP/"
    ∧ x.handled.length = 1 ∧ server.Reach EventLoop.Orderly x.toSys := by
  have h0 : (exchange sample_program).Reach Orderly (entered 2) := .init (init_entered 2)
  obtain ⟨x, hx, hsent, hhandled⟩ := h0.exists_of_run
    (fun x => x.sent 0 = str "HTTP/" ∧ x.handled.length = 1)
    (two_taken ++ [.enter 0 true, .enter 1 true, .send 0 (.accepted 5), .send 1 (.accepted 400),
      .finish 1])
    (by decide +kernel)
  exact ⟨x, hsent, hhandled, one_step_tasks sample_program hx⟩

/-! ## What a connection gets -/

/-- What the socket of `c` has taken: nothing, while no worker is inside a call for
    it; what the call has written so far; or all that it wrote. -/
inductive Reply (x : State Behaviour) (c : ConnId) : Prop where
  | silent : x.sent c = [] → (∀ y ∈ x.handled, y.answered ≠ some c) → Reply x c
  | under_way (t : Task) (b : Behaviour) (script : List SendOutcome) : t ∈ x.running →
      t.conn = some c → (∀ y ∈ x.handled, y.answered ≠ some c) →
      x.sent c = bytes (prog.reply b (x.received c) script).log → Reply x c
  | whole (y : Handled) (b : Behaviour) (script : List SendOutcome) : y ∈ x.handled →
      y.answered = some c → y.closed = some c →
      Over (prog.reply b (x.received c) script).ending →
      x.sent c = bytes (prog.reply b (x.received c) script).log → Reply x c

/-- What a handled task wrote, for the bytes of its connection. -/
theorem Serving.whole (h : Serving prog x) (hr : server.Reach EventLoop.Orderly x.toSys)
    {y : Handled} (hy : y ∈ x.handled) (hc : y.answered = some c) : y.closed = some c
      ∧ ∃ b script, Over (prog.reply b (x.received c) script).ending
        ∧ x.sent c = bytes (prog.reply b (x.received c) script).log := by
  obtain ⟨d, fd, raw_http, b, script, hans, hcall, hover, hsent⟩ := h.handled y hy
  obtain rfl := Option.some.inj (hc.symm.trans hans)
  obtain ⟨a, ha, htracks⟩ := EventLoop.simulation.reach hr
  obtain ⟨e, fd', before, last, hans', hclosed, -, hcall', -, -⟩ :=
    htracks.own_bytes (Service.good ha) hy
  obtain rfl := Option.some.inj (hans.symm.trans hans')
  obtain ⟨-, rfl⟩ := Prod.mk.inj (Option.some.inj (hcall.symm.trans hcall'))
  exact ⟨hclosed, b, script, hover, hsent⟩

/-- **EVERY CONNECTION GETS ITS OWN REPLY**: at any moment of an orderly run, with
    the workers' sends interleaved in any way, the socket of a connection has taken
    nothing, or what `process_request` writes for exactly the bytes received from
    this connection on the outcomes so far; and when its task is handled, all of
    it. -/
theorem own_reply (h : (exchange prog).Reach Orderly x) (c : ConnId) : Reply prog x c := by
  obtain ⟨hr, hserving⟩ := projected prog h
  by_cases hc : some c ∈ x.handled.map Handled.answered
  · obtain ⟨y, hy, hans⟩ := List.mem_map.mp hc
    obtain ⟨hclosed, b, script, hover, hsent⟩ := hserving.whole prog hr hy hans
    exact .whole y b script hy hans hclosed hover hsent
  · have hnone : ∀ y ∈ x.handled, y.answered ≠ some c := fun y hy he =>
      hc (List.mem_map.mpr ⟨y, hy, he⟩)
    by_cases hi : some c ∈ x.running.map Task.conn
    · obtain ⟨t, ht, hconn⟩ := List.mem_map.mp hi
      obtain ⟨j, hj, hget⟩ := List.getElem_of_mem ht
      have hlt : j < x.jobs.length := hserving.length ▸ hj
      obtain ⟨o, hjob⟩ : ∃ o, x.jobs[j]? = some o := ⟨_, List.getElem?_eq_getElem hlt⟩
      have htask : x.running[j]? = some t := by rw [List.getElem?_eq_getElem hj, hget]
      obtain ⟨d, hd, hp⟩ := hserving.progress j t _ htask hjob
      obtain rfl := Option.some.inj (hconn.symm.trans hd)
      obtain ⟨e, ha⟩ := EventLoop.assigned hr (mem_pending htask)
      obtain rfl := ha.unique hconn
      cases hp with
      | waiting hnil => exact .silent hnil hnone
      | called b script hsent => exact .under_way t b script ht hconn hnone (ha.received ▸ hsent)
    · exact .silent (hserving.silent c hc hi) hnone

/-- Both are inside their `respond`. -/
theorem own_reply_sample : ∃ x : State Bool, x.sent 0 = str "HTTP/" ∧ x.sent 1 = str "HTTP/1.1 4"
    ∧ ∀ c, Reply sample_program x c := by
  have h0 : (exchange sample_program).Reach Orderly (entered 2) := .init (init_entered 2)
  obtain ⟨x, hx, hzero, hone⟩ := h0.exists_of_run
    (fun x => x.sent 0 = str "HTTP/" ∧ x.sent 1 = str "HTTP/1.1 4")
    (two_taken ++ [.enter 1 true, .send 1 (.accepted 4), .enter 0 true, .send 0 (.accepted 5),
      .send 1 (.would_block true), .send 1 (.accepted 6)])
    (by decide +kernel)
  exact ⟨x, hzero, hone, own_reply sample_program hx⟩

/-! ## Why a process goes down -/

/-- What leaves `process_request` past its catch clause was let out by user code, or
    was undefined, on this request. -/
theorem not_contained {b : Behaviour} {raw_http : Str} {script : List SendOutcome}
    (hw : Wild (prog.reply b raw_http script).ending) :
    ∃ method path, parse_request_line raw_http = .ok (method, path)
      ∧ ¬ Contained (prog.users b) prog.m_handles path raw_http
          (req_type_from_str method) script := by
  rw [Program.reply, process_request] at hw
  cases hline : parse_request_line raw_http with
  | error f =>
      simp only [hline] at hw
      exact absurd (((of_fault_wild_iff f script).mp hw) ▸ hline)
        (parse_request_line_defined raw_http)
  | ok mp =>
      obtain ⟨method, path⟩ := mp
      simp only [hline] at hw
      rw [handle_request_wild_iff] at hw
      exact ⟨method, path, rfl, fun hc => attempt_not_wild prog.platform (prog.users b) hc hw⟩

/-- What brought the process down in the task of `c`: a `send` to a peer that is gone,
    or a request that user code or the library did not contain. -/
inductive Cause (x : State Behaviour) (c : ConnId) (b : Behaviour) (script : List SendOutcome) :
    Prop where
  | broken_pipe : x.process = .killed → (prog.reply b (x.received c) script).ending = .running →
      (∃ conn ∈ x.conns[c]?, conn.closed = true ∨ conn.reset = true) → Cause x c b script
  | let_out (method path : Str) : x.process = .terminated →
      (prog.reply b (x.received c) script).ending = .throws .user_object →
      parse_request_line (x.received c) = .ok (method, path) →
      ¬ Contained (prog.users b) prog.m_handles path (x.received c)
        (req_type_from_str method) script → Cause x c b script
  | undefined (method path : Str) : x.process = .undefined →
      (prog.reply b (x.received c) script).ending = .undefined →
      parse_request_line (x.received c) = .ok (method, path) →
      ¬ Contained (prog.users b) prog.m_handles path (x.received c)
        (req_type_from_str method) script → Cause x c b script

/-- **A PROCESS GOES DOWN FOR A REASON**: in an orderly run the process is down only
    when a worker was in the task of a connection whose peer is gone, or whose
    request made user code let out an object that is no `std::exception` or made
    something undefined be evaluated. -/
theorem cause_of_down (h : (exchange prog).Reach Orderly x) (hp : x.process ≠ .up) :
    ∃ t ∈ x.running, ∃ c b script, t.conn = some c ∧ Cause prog x c b script := by
  cases h with
  | init h0 => exact absurd h0.process hp
  | @step x₀ _ m hreach hok hmove =>
      obtain ⟨hr, hserving⟩ := projected prog hreach
      obtain ⟨hcases, hup⟩ := step_cases prog hmove
      cases hcases with
      | other | start | enter | send | finish => exact absurd hup hp
      | broken_pipe j fd raw_http b script hj hend hgone =>
          obtain ⟨t, ht⟩ := hserving.task hj
          obtain ⟨c, ha⟩ := EventLoop.assigned hr (mem_pending ht)
          obtain ⟨rfl, rfl⟩ := Prod.mk.inj (Option.some.inj (hserving.job ha ht hj).1)
          obtain ⟨d, hd, hconn⟩ := hgone
          obtain rfl := Option.some.inj (ha.owner.symm.trans hd)
          rw [ha.received] at hend
          exact ⟨t, List.mem_of_getElem? ht, c, b, script, ha.conn, .broken_pipe rfl hend hconn⟩
      | terminated j t job ht hj hend =>
          obtain ⟨c, ha⟩ := EventLoop.assigned hr (mem_pending ht)
          rw [Program.block, (hserving.job ha ht hj).1] at hend
          simp only [ha.received] at hend
          obtain ⟨method, path, hline, hnot⟩ := not_contained prog (Or.inr hend)
          exact ⟨t, List.mem_of_getElem? ht, c, job.behaviour, job.script, ha.conn,
            .let_out method path rfl hend hline hnot⟩
      | undefined j t job ht hj hend =>
          obtain ⟨c, ha⟩ := EventLoop.assigned hr (mem_pending ht)
          rw [Program.block, (hserving.job ha ht hj).1] at hend
          simp only [ha.received] at hend
          obtain ⟨method, path, hline, hnot⟩ := not_contained prog (Or.inl hend)
          exact ⟨t, List.mem_of_getElem? ht, c, job.behaviour, job.script, ha.conn,
            .undefined method path rfl hend hline hnot⟩

/-- A handler throws an object while the other worker is sending. -/
theorem cause_of_down_sample : ∃ x : State Bool, x.process = .terminated ∧ x.sent 1 ≠ []
    ∧ ∃ t ∈ x.running, ∃ c b script, t.conn = some c ∧ Cause sample_program x c b script := by
  have h0 : (exchange sample_program).Reach Orderly (entered 2) := .init (init_entered 2)
  obtain ⟨x, hx, hdown, hsent⟩ := h0.exists_of_run
    (fun x => x.process = .terminated ∧ x.sent 1 ≠ [])
    (two_taken ++ [.enter 0 false, .enter 1 true, .send 1 (.accepted 5), .finish 0])
    (by decide +kernel)
  exact ⟨x, hdown, hsent, cause_of_down sample_program hx (by rw [hdown]; simp)⟩

/-! ## From a message to the handler's response -/

/-- On a message for a route whose filters admit it, what is written is what the
    handler of the route writes, and the 500 behind an exception out of it. -/
theorem reply_parts (P : Parts) {b : Behaviour} {handle : HttpHandle Handler Filter}
    {hd : Handler} {m_query : UnorderedMap Str Str}
    (hfind : find_handle prog.m_handles P.target P.method = .ok (some handle))
    (hq : extract_queries P.bytes handle.m_path handle.m_parameters = .ok m_query)
    (hhandler : handle.m_handle = some hd)
    (hpass : ∀ f ∈ handle.m_filters, ∀ req, Wire.Carries P m_query req →
      call_filter (prog.users b) f req = .ok true) (script : List SendOutcome) :
    ∃ req, Wire.Carries P m_query req ∧ prog.reply b P.bytes script
      = (((prog.users b).handler hd req).run script).andThen (page prog.platform) := by
  obtain ⟨req, hcarries, hattempt⟩ :=
    Wire.attempt_parts prog.platform (prog.users b) P hfind hq hhandler hpass script
  refine ⟨req, hcarries, ?_⟩
  rw [Program.reply, process_request, Wire.parse_request_line_parts]
  simp only [req_type_from_to]
  rw [handle_request_toRun, hattempt]

/-- The routes, the filters and the handlers of the message of `WebLib.Wire`. -/
def wire_program : Program Nat Nat Bool where
  platform := plain_platform
  users _ := Wire.wire_user
  m_handles := Wire.wire_routes

end WebLib.Exchange
