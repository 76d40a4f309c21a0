import WebLib.Sessions

/-! # What becomes of a connection

    Read off the simulation: what the service knows of a connection, in the terms
    of the event loop.  Every accepted connection has an account, and what a task
    was called with are the bytes of the connection it answered. -/

namespace WebLib.EventLoop

open WebLib ByteString ReadRequest UnorderedMap TransitionSystem
open WebLib.Service (Session)
open WebLib.BodyCut (Ends buffered)

variable {s : Sys} {a : Service.State} {x : Session}

/-! ## The account -/

/-- What became of the connection `c`, accepted under `fd` and read with `reads`:
    it has asked for more, or its request was completed by the last read and a
    task for it is pending or was handled, or the last read lost it. -/
inductive Account (s : Sys) (c : ConnId) (fd : Fd) (reads : List ReadResult) : Prop where
  | reading : Running fd reads → Account s c fd reads
  | waiting (before : List ReadResult) (last : Chunk) : reads = before ++ [.data last] →
      Ends fd before last →
      ⟨fd, some c, buffered fd before last⟩ ∈ s.pending → Account s c fd reads
  | answered (before : List ReadResult) (last : Chunk) (x : Handled) :
      reads = before ++ [.data last] → Ends fd before last → x ∈ s.handled →
      x.answered = some c → x.closed = some c →
      x.call = some (fd, buffered fd before last) → Account s c fd reads
  | lost (before : List ReadResult) (rd : ReadResult) : reads = before ++ [rd] →
      Running fd before →
      Service.Lost (read_request (read_all (Client.accepted fd) before).1 rd).2 →
      Account s c fd reads

/-- The task of a connection that waits for a worker, or has one. -/
theorem Tracks.task (h : Tracks s a) (hsock : SockInv s.toKernel) {c : ConnId} {request : Str}
    (hx : a.sessions[c]? = some x) (hstage : pending_request x.stage = some request)
    (hc : c ∈ a.queue ∨ c ∈ a.in_hand) : ⟨x.fd, some c, request⟩ ∈ s.pending := by
  obtain ⟨t, ht, hconn⟩ : ∃ t ∈ s.pending, t.conn = some c := by
    rcases hc with hq | hi
    · have hm : some c ∈ s.m_tasks.map Task.conn := h.queue ▸ List.mem_map_of_mem hq
      obtain ⟨t, ht, hconn⟩ := List.mem_map.mp hm
      exact ⟨t, List.mem_append.mpr (Or.inr ht), hconn⟩
    · have hm : some c ∈ s.running.map Task.conn := h.in_hand ▸ List.mem_map_of_mem hi
      obtain ⟨t, ht, hconn⟩ := List.mem_map.mp hm
      exact ⟨t, List.mem_append.mpr (Or.inl ht), hconn⟩
  obtain ⟨c', hheld⟩ := h.held t ht
  obtain rfl := Option.some.inj (hheld.conn.symm.trans hconn)
  have hfd : x.fd = t.client_socket :=
    Option.some.inj ((h.session c' x hx).1.symm.trans (hsock _ _ hheld.owner))
  obtain ⟨z, hz, hreq⟩ := hheld.session
  obtain rfl := Option.some.inj (hx.symm.trans hz)
  have hrequest := Option.some.inj (hstage.symm.trans hreq)
  rw [hfd, hrequest, ← hconn]
  exact ht

/-- An answer of the service is a task that was handled. -/
theorem Tracks.handled (h : Tracks s a) {c : ConnId} {request : Str}
    (hc : (c, request) ∈ a.answers) : ∃ y ∈ s.handled, y.answered = some c ∧ y.closed = some c
      ∧ ∃ fd, s.accepted_as c = some fd ∧ y.call = some (fd, request) := by
  obtain ⟨i, hi, hget⟩ := List.getElem_of_mem hc
  have hlen := h.answers.length_eq
  have hrel := h.answers.get (i := i) (by omega) hi
  rw [List.get_eq_getElem, List.get_eq_getElem, hget] at hrel
  exact ⟨_, List.getElem_mem _, hrel⟩

theorem Tracks.answer_of_handled (h : Tracks s a) {y : Handled} (hy : y ∈ s.handled) :
    ∃ answer ∈ a.answers, Answered s.toKernel y answer := by
  obtain ⟨i, hi, rfl⟩ := List.getElem_of_mem hy
  have hlen := h.answers.length_eq
  have hrel := h.answers.get (i := i) hi (by omega)
  rw [List.get_eq_getElem, List.get_eq_getElem] at hrel
  exact ⟨_, List.getElem_mem _, hrel⟩

/-- **EVERY CONNECTION IS ACCOUNTED FOR**: in every orderly run, each connection
    that was accepted has been read in some way that delivered exactly what the
    server received from it, and is in the place that these reads put it. -/
theorem accounted (h : server.Reach Orderly s) (c : ConnId) (fd : Fd)
    (hc : s.accepted_as c = some fd) :
    ∃ reads, delivered reads = s.received c ∧ Account s c fd reads := by
  obtain ⟨a, ha, htracks⟩ := simulation.reach h
  have hg := Service.good ha
  have hsock := sockInv h
  have hlt : c < a.sessions.length := by
    rw [htracks.count]
    exact lt_of_accepted_as hc
  obtain ⟨x, hx⟩ : ∃ x, a.sessions[c]? = some x := ⟨_, List.getElem?_eq_getElem hlt⟩
  obtain ⟨hfd, hdel⟩ := htracks.session c x hx
  obtain rfl := Option.some.inj (hc.symm.trans hfd)
  have hstage := Service.stage_of_sessions hx
  have hsound := hg.sound x (List.mem_of_getElem? hx)
  rw [Session.Sound] at hsound
  refine ⟨x.reads, hdel, ?_⟩
  cases hxs : x.stage with
  | reading client =>
      rw [hxs] at hsound
      exact .reading hsound.1
  | queued request =>
      rw [hxs] at hsound hstage
      obtain ⟨before, last, hreads, hends, rfl⟩ := hsound
      refine .waiting before last hreads hends (htracks.task hsock hx ?_ (Or.inl ?_))
      · rw [hxs]
        rfl
      · exact (hg.queue c).mpr ⟨_, hstage⟩
  | answering request =>
      rw [hxs] at hsound hstage
      obtain ⟨before, last, hreads, hends, rfl⟩ := hsound
      refine .waiting before last hreads hends (htracks.task hsock hx ?_ (Or.inr ?_))
      · rw [hxs]
        rfl
      · exact (hg.in_hand c).mpr ⟨_, hstage⟩
  | answered request =>
      rw [hxs] at hsound hstage
      obtain ⟨before, last, hreads, hends, rfl⟩ := hsound
      obtain ⟨y, hy, hans, hclosed, fd', hfd', hcall⟩ :=
        htracks.handled ((hg.answers c _).mpr hstage)
      obtain rfl := Option.some.inj (hfd.symm.trans hfd')
      exact .answered before last y hreads hends hy hans hclosed hcall
  | dropped =>
      rw [hxs] at hsound
      rcases hsound with hnil | ⟨before, rd, hreads, hrun, hlost⟩
      · rw [hnil]
        exact .reading (List.forall_mem_nil _)
      · exact .lost before rd hreads hrun hlost

/-- A connection whose worker has not started, and that is read in vain. -/
theorem accounted_sample : ∃ s : Sys, s.accepted_as 0 = some 5 ∧ s.pending.length = 1
    ∧ ∃ reads, delivered reads = s.received 0 ∧ Account s 0 5 reads := by
  have h0 : server.Reach Orderly (entered 3 1) := .init (init_entered 3 1)
  obtain ⟨s, hs, hacc, hpending⟩ := h0.exists_of_run
    (fun s => s.accepted_as 0 = some 5 ∧ s.pending.length = 1)
    [.poll (some [true]), .accept (.fd 5 true), .skip, .peer_send 0 get_a.bytes,
      .poll (some [false, true]), .skip, .read (.data get_a),
      .poll (some [false, true]), .skip, .read .would_block]
    (by decide)
  exact ⟨s, hacc, hpending, accounted hs 0 5 hacc⟩

/-! ## What a task was called with -/

/-- A task that was handled, with what its connection sent. -/
theorem Tracks.own_bytes (h : Tracks s a) (hg : Service.Good a) {y : Handled}
    (hy : y ∈ s.handled) : ∃ c fd before last,
      y.answered = some c ∧ y.closed = some c ∧ s.accepted_as c = some fd
        ∧ y.call = some (fd, s.received c) ∧ Ends fd before last
        ∧ delivered before ++ last.bytes = s.received c := by
  obtain ⟨⟨c, request⟩, hmem, hans, hclosed, fd, hfd, hcall⟩ := h.answer_of_handled hy
  obtain ⟨x, hx, hxs⟩ := Option.map_eq_some_iff.mp ((hg.answers c request).mp hmem)
  have hsound := hg.sound x (List.mem_of_getElem? hx)
  rw [Session.Sound, hxs] at hsound
  obtain ⟨before, last, hreads, hends, rfl⟩ := hsound
  obtain ⟨hxfd, hdel⟩ := h.session c x hx
  obtain rfl := Option.some.inj (hfd.symm.trans hxfd)
  have hall : delivered before ++ last.bytes = s.received c := by
    rw [← hdel, hreads, delivered_concat]
    rfl
  exact ⟨c, x.fd, before, last, hans, hclosed, hfd, by rw [hcall, hends.buffered_eq, hall],
    hends, hall⟩

/-- Every connection is in one place: answered, in a worker's hands, or queued. -/
theorem Tracks.apart (h : Tracks s a) (hg : Service.Good a) :
    (s.handled.map Handled.answered ++ s.pending.map Task.conn).Nodup := by
  have hhandled : s.handled.map Handled.answered = (a.answers.map Prod.fst).map some := by
    rw [List.map_map, ← List.forall₂_eq_eq_eq, List.forall₂_map_left_iff,
      List.forall₂_map_right_iff]
    exact h.answers.imp fun _ _ hans => hans.1
  have hpending : s.pending.map Task.conn = (a.in_hand ++ a.queue).map some := by
    rw [HttpServer.pending, List.map_append, List.map_append, h.in_hand, h.queue]
  rw [hhandled, hpending, ← List.map_append]
  refine List.Nodup.map (Option.some_injective _) ?_
  refine List.nodup_append'.mpr ⟨hg.answers_nodup,
    List.nodup_append'.mpr ⟨hg.in_hand_nodup, hg.queue_nodup, ?_⟩, ?_⟩
  · intro c hi hq
    obtain ⟨request, hstage⟩ := (hg.in_hand c).mp hi
    exact hg.not_mem_queue hstage (by simp) hq
  · intro c hans hc
    rcases List.mem_append.mp hc with hi | hq
    · obtain ⟨request, hstage⟩ := (hg.in_hand c).mp hi
      exact hg.not_mem_answers hstage (by simp) hans
    · obtain ⟨request, hstage⟩ := (hg.queue c).mp hq
      exact hg.not_mem_answers hstage (by simp) hans

/-- **EACH ANSWER GOES HOME, ONCE**: in every orderly run, the handled tasks are
    for different connections, each answered and closed the connection it was
    for, and had exactly the bytes ever read from it, which end with the read
    that completed its request. -/
theorem answered_once (h : server.Reach Orderly s) :
    (s.handled.map Handled.answered).Nodup ∧ ∀ y ∈ s.handled, ∃ c fd before last,
      y.answered = some c ∧ y.closed = some c ∧ s.accepted_as c = some fd
        ∧ y.call = some (fd, s.received c) ∧ Ends fd before last
        ∧ delivered before ++ last.bytes = s.received c := by
  obtain ⟨a, ha, htracks⟩ := simulation.reach h
  have hg := Service.good ha
  exact ⟨(htracks.apart hg).of_append_left, fun y hy => htracks.own_bytes hg hy⟩

/-- Two connections, and the worker of the first is the last to end. -/
theorem answered_once_sample : ∃ s : Sys, s.handled.map Handled.answered = [some 1, some 0]
    ∧ (s.handled.map Handled.answered).Nodup ∧ ∀ y ∈ s.handled, ∃ c fd before last,
      y.answered = some c ∧ y.closed = some c ∧ s.accepted_as c = some fd
        ∧ y.call = some (fd, s.received c) ∧ Ends fd before last
        ∧ delivered before ++ last.bytes = s.received c := by
  have h0 : server.Reach Orderly (entered 3 2) := .init (init_entered 3 2)
  obtain ⟨s, hs, hans⟩ := h0.exists_of_run
    (fun s => s.handled.map Handled.answered = [some 1, some 0])
    [.poll (some [true]), .accept (.fd 5 true), .skip,
      .poll (some [true, false]), .accept (.fd 6 true), .skip, .skip,
      .peer_send 1 get_b.bytes, .peer_send 0 get_a.bytes,
      .poll (some [false, true, true]), .skip, .read (.data get_a), .start,
      .read (.data get_b), .start, .work 1, .work 0]
    (by decide)
  exact ⟨s, hans, answered_once hs⟩

/-- What the worker of the task `t` meets: the socket of the connection `c` is open
    under the number of the task, the client map has an entry for it, and in that
    entry all the bytes received from `c`. -/
structure Assigned (s : Sys) (t : Task) (c : ConnId) : Prop where
  conn : t.conn = some c
  owner : s.owner t.client_socket = some c
  entry : t.client_socket ∈ s.m_active_clients
  call : (handle_incoming_request s.m_active_clients t.client_socket).2
    = some (t.client_socket, t.request)
  received : t.request = s.received c

theorem Assigned.unique {t : Task} {c d : ConnId} (h : Assigned s t c) (hd : t.conn = some d) :
    d = c :=
  Option.some.inj (hd.symm.trans h.conn)

theorem Tracks.assigned (h : Tracks s a) (hg : Service.Good a) {t : Task} (ht : t ∈ s.pending) :
    ∃ c, Assigned s t c := by
  obtain ⟨c, hheld⟩ := h.held t ht
  obtain ⟨cl, hcl, -⟩ := hheld.entry
  refine ⟨c, hheld.conn, hheld.owner, mem_iff_find.mpr ⟨cl, hcl⟩, hheld.call, ?_⟩
  obtain ⟨x, hx, hrequest⟩ := hheld.session
  have hsound := hg.sound x (List.mem_of_getElem? hx)
  obtain ⟨-, hdel⟩ := h.session c x hx
  rw [Session.Sound] at hsound
  -- a session that waits has the bytes up to the read that completed its request
  cases hstage : x.stage with
  | queued request | answering request =>
      rw [hstage] at hsound hrequest
      obtain ⟨before, last, hreads, hends, hbuffered⟩ := hsound
      rw [← Option.some.inj hrequest, hbuffered, hends.buffered_eq, ← hdel, hreads,
        delivered_concat]
      rfl
  | reading client | answered request | dropped =>
      rw [hstage] at hrequest
      cases hrequest

theorem assigned (h : server.Reach Orderly s) {t : Task} (ht : t ∈ s.pending) :
    ∃ c, Assigned s t c := by
  obtain ⟨a, ha, htracks⟩ := simulation.reach h
  exact htracks.assigned (Service.good ha) ht

theorem places_nodup (h : server.Reach Orderly s) :
    (s.handled.map Handled.answered ++ s.pending.map Task.conn).Nodup := by
  obtain ⟨a, ha, htracks⟩ := simulation.reach h
  exact htracks.apart (Service.good ha)

/-- A handled task whose connection sent a request and perhaps more. -/
theorem Tracks.intact (h : Tracks s a) (hg : Service.Good a) (R : RequestText.Request)
    (extra : Str) {y : Handled} (hy : y ∈ s.handled) {c : ConnId} (hc : y.answered = some c)
    (hpre : s.received c <+: R.bytes ++ extra) :
    ∃ fd behind, s.accepted_as c = some fd ∧ y.call = some (fd, R.bytes ++ behind)
      ∧ behind <+: extra := by
  obtain ⟨d, fd, before, last, hans, -, hfd, hcall, hends, hall⟩ := h.own_bytes hg hy
  obtain rfl := Option.some.inj (hc.symm.trans hans)
  rw [← hall] at hpre
  obtain ⟨t, ht, htpre, hlen⟩ := hends.split hpre
  have hbody : R.body <+: t :=
    List.prefix_of_prefix_length_le (List.prefix_append _ _) htpre hlen
  obtain ⟨behind, rfl⟩ := hbody
  refine ⟨fd, behind, hfd, ?_, ?_⟩
  · rw [hcall, ← hall, ← hends.buffered_eq, ht]
    simp [RequestText.Request.bytes]
  · exact (List.prefix_append_right_inj _).mp htpre

/-- **A REQUEST ARRIVES INTACT**: in every orderly run, when what was received
    from a connection begins a stream that carries a request with the length it
    declares, the request is what `process_request` is called with, whatever the
    segments and whatever the other connections did, followed by what was read
    behind it. -/
theorem request_intact (h : server.Reach Orderly s) (R : RequestText.Request) (extra : Str)
    {y : Handled} (hy : y ∈ s.handled) {c : ConnId} (hc : y.answered = some c)
    (hpre : s.received c <+: R.bytes ++ extra) :
    ∃ fd behind, s.accepted_as c = some fd ∧ y.call = some (fd, R.bytes ++ behind)
      ∧ behind <+: extra := by
  obtain ⟨a, ha, htracks⟩ := simulation.reach h
  exact htracks.intact (Service.good ha) R extra hy hc hpre

/-- A `POST` in two segments, with another connection in between. -/
theorem request_intact_sample : ∃ s : Sys, ∃ y ∈ s.handled, s.received 1 = get_b.bytes
    ∧ ∃ fd behind, s.accepted_as 0 = some fd
      ∧ y.call = some (fd, Framing.sample_post.bytes ++ behind) ∧ behind <+: [] := by
  have h0 : server.Reach Orderly (entered 3 1) := .init (init_entered 3 1)
  obtain ⟨s, hs, ⟨y, hy, hans⟩, hother, hreceived⟩ := h0.exists_of_run
    (fun s => (∃ y ∈ s.handled, y.answered = some 0) ∧ s.received 1 = get_b.bytes
      ∧ s.received 0 = Framing.sample_post.bytes)
    [.poll (some [true]), .accept (.fd 5 true), .skip,
      .poll (some [true, false]), .accept (.fd 6 true), .skip, .skip,
      .peer_send 0 Framing.sample_head.bytes, .peer_send 1 get_b.bytes,
      .poll (some [false, true, true]), .skip, .read (.data Framing.sample_head),
      .read (.data get_b), .peer_send 0 Framing.sample_body.bytes,
      .poll (some [false, true, false]), .skip, .read (.data Framing.sample_body), .skip,
      .start, .work 0, .start, .work 0]
    (by decide)
  refine ⟨s, y, hy, hother, request_intact hs Framing.sample_post [] hy hans ?_⟩
  rw [hreceived, List.append_nil]

end WebLib.EventLoop
