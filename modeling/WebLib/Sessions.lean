import WebLib.Dispatch
import WebLib.Isolation
import WebLib.Service
import WebLib.Simulation

/-! # The event loop serves its connections

    `WebLib.Service` is what a server does for its connections; the event loop
    does it through numbers, which it looks up in the client map, which a worker
    closes, and which `accept` hands out again.  The two agree as long as the
    loop never meets a number in two roles: no number is handed out that still
    has an entry, and only a read that would block goes to a number whose task
    is pending. -/

namespace WebLib.EventLoop

open WebLib ByteString ReadRequest UnorderedMap TransitionSystem
open WebLib.Service (Stage Session)
open WebLib.BodyCut (Ends buffered)

/-! ## The condition -/

/-- The steps that keep the numbers in one role: `accept` hands out a number
    without an entry, and bytes, the end or an error are read only when no task
    for the number read from is pending. -/
def Orderly (s : Sys) : Label → Prop
  | .accept (.fd n _) => n ∉ s.m_active_clients
  | .read (.data _) | .read .eof | .read .error => ∀ cur ∈ current s.toHttpServer,
      ¬ s.Busy (subscript s.m_active_clients cur.fd).fd
  | _ => True

instance (s : Sys) : ∀ l, Decidable (Orderly s l)
  | .accept (.fd n _) => inferInstanceAs (Decidable (n ∉ s.m_active_clients))
  | .read (.data _) | .read .eof | .read .error =>
      inferInstanceAs (Decidable (∀ cur ∈ current s.toHttpServer,
        ¬ s.Busy (subscript s.m_active_clients cur.fd).fd))
  | .read .would_block | .accept .error | .poll _ | .skip | .start | .work _
  | .peer_send _ _ | .peer_close _ | .peer_reset _ => .isTrue trivial

theorem Orderly.numberFree {s : Sys} {l : Label} (h : Orderly s l) : NumberFree s l := by
  cases l with
  | accept r => cases r <;> exact h
  | _ => trivial

theorem Orderly.noneWaiting {s : Sys} {l : Label} (h : Orderly s l) : NoneWaiting s l := by
  cases l with
  | read rd =>
      cases rd with
      | data c => exact h
      | _ => trivial
  | _ => trivial

/-- A number with a pending task is read in vain only. -/
theorem Orderly.would_block {s : Sys} {rd : ReadResult} (h : Orderly s (.read rd)) {cur : PollFd}
    (hcur : current s.toHttpServer = some cur)
    (hbusy : s.Busy (subscript s.m_active_clients cur.fd).fd) : rd = .would_block := by
  cases rd with
  | would_block => rfl
  | data c => exact absurd hbusy (h cur hcur)
  | eof => exact absurd hbusy (h cur hcur)
  | error => exact absurd hbusy (h cur hcur)

/-- The mirrors of `WebLib.Isolation`, in every orderly run. -/
theorem mirrored {s : Sys} (h : server.Reach NumberFree s) :
    Mirrored s.fds s.m_active_clients s.toKernel := by
  refine h.invariant (I := fun s => Mirrored s.fds s.m_active_clients s.toKernel) ?_ ?_
  · intro s h0
    have hfds : s.fds = [] := by rw [fds_eq, h0.poll_fds]; simp
    rw [hfds, h0.clients]
    refine ⟨List.nodup_nil, List.forall_mem_nil _, ?_⟩
    intro fd cl hcl
    cases hcl
  · intro s l s' hi hok hs
    exact mirrored_step hi hok (step_cases hs)

/-! ## The relation -/

/-- The request of a connection that waits for a worker or has one. -/
def pending_request : Stage → Option Str
  | .queued request | .answering request => some request
  | _ => none

/-- A task and the connection `c` it is for: the socket is open under the number
    of the task, the entry still has what the task was enqueued for, and the
    connection waits with it. -/
structure Held (m : UnorderedMap Fd Client) (k : Kernel) (sessions : List Session) (t : Task)
    (c : ConnId) : Prop where
  conn : t.conn = some c
  owner : k.owner t.client_socket = some c
  entry : ∃ cl, m.find t.client_socket = some cl ∧ cl.fd = t.client_socket
    ∧ cl.raw_http = t.request
  request : t.request ≠ []
  session : ∃ x, sessions[c]? = some x ∧ pending_request x.stage = some t.request

/-- The client of a number is that of the connection `c`, which is being read. -/
def Reader (m : UnorderedMap Fd Client) (sessions : List Session) (fd : Fd) (c : ConnId) : Prop :=
  ∃ x client, sessions[c]? = some x ∧ x.stage = .reading client ∧ m.find fd = some client

/-- A handled task answered one connection and closed it. -/
def Answered (k : Kernel) (h : Handled) (answer : ConnId × Str) : Prop :=
  h.answered = some answer.1 ∧ h.closed = some answer.1
    ∧ ∃ fd, k.accepted_as answer.1 = some fd ∧ h.call = some (fd, answer.2)

/-- The event loop and its workers as the service `a` sees them. -/
structure Tracks (s : Sys) (a : Service.State) : Prop where
  count : a.sessions.length = s.conns.length
  session : ∀ c x, a.sessions[c]? = some x →
    s.accepted_as c = some x.fd ∧ delivered x.reads = s.received c
  stopped : a.stopped = s.ended
  reader : s.ended = false → ∀ fd ∈ s.fds, ¬ s.Busy fd → ∀ c, s.owner fd = some c →
    Reader s.m_active_clients a.sessions fd c
  queue : s.m_tasks.map Task.conn = a.queue.map some
  in_hand : s.running.map Task.conn = a.in_hand.map some
  held : ∀ t ∈ s.pending, ∃ c, Held s.m_active_clients s.toKernel a.sessions t c
  answers : List.Forall₂ (Answered s.toKernel) s.handled a.answers

variable {m m' : UnorderedMap Fd Client} {k k' : Kernel} {sessions sessions' : List Session}

theorem Held.frame {t : Task} {c : ConnId} (h : Held m k sessions t c)
    (howner : k'.owner t.client_socket = k.owner t.client_socket)
    (hfind : m'.find t.client_socket = m.find t.client_socket)
    (hsession : ∀ x, sessions[c]? = some x → pending_request x.stage = some t.request →
      ∃ y, sessions'[c]? = some y ∧ pending_request y.stage = some t.request) :
    Held m' k' sessions' t c where
  conn := h.conn
  owner := howner.trans h.owner
  entry := by rw [hfind]; exact h.entry
  request := h.request
  session := by
    obtain ⟨x, hx, hr⟩ := h.session
    exact hsession x hx hr

theorem Reader.frame {fd : Fd} {c : ConnId} (h : Reader m sessions fd c)
    (hfind : m'.find fd = m.find fd) (hsession : sessions'[c]? = sessions[c]?) :
    Reader m' sessions' fd c := by
  obtain ⟨x, client, hx, hstage, hcl⟩ := h
  exact ⟨x, client, hsession.trans hx, hstage, hfind.trans hcl⟩

/-- Answers stay given. -/
theorem answers_frame {handled : List Handled} {answers : List (ConnId × Str)}
    (h : List.Forall₂ (Answered k) handled answers)
    (hkeep : ∀ c fd, k.accepted_as c = some fd → k'.accepted_as c = some fd) :
    List.Forall₂ (Answered k') handled answers := by
  refine h.imp ?_
  rintro x y ⟨hans, hclosed, fd, hfd, hcall⟩
  exact ⟨hans, hclosed, fd, hkeep _ _ hfd, hcall⟩

/-- A step that no connection notices. -/
theorem Tracks.quiet {s s' : Sys} {a : Service.State} (h : Tracks s a)
    (hcount : s'.conns.length = s.conns.length)
    (haccepted : ∀ c, s'.accepted_as c = s.accepted_as c)
    (hreceived : ∀ c, s'.received c = s.received c)
    (howner : ∀ fd, s'.owner fd = s.owner fd)
    (hended : s'.ended = s.ended) (hfds : ∀ fd ∈ s'.fds, fd ∈ s.fds)
    (hfind : ∀ fd, fd ∈ s'.fds ∨ s.Busy fd →
      s'.m_active_clients.find fd = s.m_active_clients.find fd)
    (htasks : s'.m_tasks = s.m_tasks) (hrunning : s'.running = s.running)
    (hhandled : s'.handled = s.handled) : Tracks s' a := by
  have hpending : s'.pending = s.pending := by
    rw [HttpServer.pending, HttpServer.pending, hrunning, htasks]
  refine ⟨h.count.trans hcount.symm, ?_, h.stopped.trans hended.symm, ?_, ?_, ?_, ?_, ?_⟩
  · intro c x hx
    rw [haccepted, hreceived]
    exact h.session c x hx
  · intro hrun fd hfd hidle c hc
    have hidle' : ¬ s.Busy fd := by
      rw [HttpServer.Busy, ← hpending]
      exact hidle
    exact (h.reader (hended ▸ hrun) fd (hfds fd hfd) hidle' c (howner fd ▸ hc)).frame
      (hfind fd (Or.inl hfd)) rfl
  · rw [htasks]
    exact h.queue
  · rw [hrunning]
    exact h.in_hand
  · intro t ht
    rw [hpending] at ht
    obtain ⟨c, hc⟩ := h.held t ht
    exact ⟨c, hc.frame (howner _) (hfind _ (Or.inr ⟨t, ht, rfl⟩)) fun x hx hr => ⟨x, hx, hr⟩⟩
  · rw [hhandled]
    exact answers_frame h.answers fun c fd hc => (haccepted c).trans hc

/-! ## A connection comes in -/

/-- What a new connection changes for the others. -/
theorem Tracks.session_accept {s : Sys} {a : Service.State} (h : Tracks s a) (n : Fd)
    (stage : Stage) : ∀ c x, (a.sessions ++ [⟨n, [], stage⟩])[c]? = some x →
      (s.toKernel.accept n).accepted_as c = some x.fd
        ∧ delivered x.reads = (s.toKernel.accept n).received c := by
  intro c x hx
  rw [accepted_as_accept, received_accept]
  by_cases hc : c = s.conns.length
  · rw [if_pos hc, hc, received_of_length]
    rw [hc, ← h.count, List.getElem?_concat_length] at hx
    obtain rfl := Option.some.inj hx
    exact ⟨rfl, rfl⟩
  · rw [if_neg hc]
    have hlt : c < a.sessions.length := by
      have hle := (List.getElem?_eq_some_iff.mp hx).1
      rw [List.length_append, List.length_singleton, h.count] at hle
      rw [h.count]
      exact lt_of_le_of_ne (Nat.le_of_lt_succ hle) hc
    rw [List.getElem?_append_left hlt] at hx
    exact h.session c x hx

/-- A task is for an open socket, so not for the number that was handed out. -/
theorem Tracks.held_accept {s : Sys} {a : Service.State} (h : Tracks s a) {n : Fd}
    (hn : n ∉ s.files) (y : Session) (hfind : ∀ fd ≠ n, m'.find fd = s.m_active_clients.find fd) :
    ∀ t ∈ s.pending, ∃ c, Held m' (s.toKernel.accept n) (a.sessions ++ [y]) t c := by
  intro t ht
  obtain ⟨c, hc⟩ := h.held t ht
  have hne : t.client_socket ≠ n := fun he => hn (he ▸ mem_files_of_owner hc.owner)
  refine ⟨c, hc.frame ?_ (hfind _ hne) ?_⟩
  · rw [owner_accept, if_neg hne]
  · intro x hx hr
    exact ⟨x, by rw [List.getElem?_append_left (List.getElem?_eq_some_iff.mp hx).1, hx], hr⟩

theorem Tracks.answers_accept {s : Sys} {a : Service.State} (h : Tracks s a) (n : Fd) :
    List.Forall₂ (Answered (s.toKernel.accept n)) s.handled a.answers := by
  refine answers_frame h.answers fun c fd hc => ?_
  rw [accepted_as_accept, if_neg (Nat.ne_of_lt (lt_of_accepted_as hc)), hc]

theorem count_accept {s : Sys} {a : Service.State} (h : Tracks s a) (n : Fd) (y : Session) :
    (a.sessions ++ [y]).length = (s.toKernel.accept n).conns.length := by
  rw [List.length_append, h.count, Kernel.accept, List.length_append]
  rfl

theorem tracks_accept {s : Sys} {a : Service.State} (h : Tracks s a) {n : Fd} (hn : n ∉ s.files)
    (hl : s.m_listen_socket ∈ s.files) (hnew : n ∉ s.m_active_clients) :
    Tracks (accept_client s n)
      { a with sessions := a.sessions ++ [⟨n, [], .reading (.accepted n)⟩] } := by
  have hne : n ≠ s.m_listen_socket := fun he => hn (he ▸ hl)
  have hfind : ∀ fd ≠ n, (s.m_active_clients.emplace n (.accepted n)).find fd
      = s.m_active_clients.find fd := by
    intro fd hfd
    rw [find_emplace, if_neg hfd]
  refine ⟨count_accept h n _, h.session_accept n _, h.stopped, ?_, h.queue, h.in_hand,
    h.held_accept hn _ hfind, h.answers_accept n⟩
  intro hrun fd hfd hidle c hc
  have hc' : (s.toKernel.accept n).owner fd = some c := hc
  rw [owner_accept] at hc'
  by_cases hfn : fd = n
  · rw [if_pos hfn] at hc'
    obtain rfl := Option.some.inj hc'
    refine ⟨⟨n, [], .reading (.accepted n)⟩, .accepted n, ?_, rfl, ?_⟩
    · rw [← h.count]
      exact List.getElem?_concat_length
    · show (s.m_active_clients.emplace n (.accepted n)).find fd = _
      rw [find_emplace, if_pos hfn, find_eq_none_iff.mpr hnew, Option.getD_none]
  · rw [if_neg hfn] at hc'
    have hfds : fd ∈ (push_client s.toHttpServer n).fds := hfd
    rw [fds_push s.toHttpServer hne] at hfds
    have hold := (List.mem_append.mp hfds).resolve_right fun hm => hfn (List.mem_singleton.mp hm)
    obtain ⟨x, client, hx, hstage, hcl⟩ := h.reader hrun fd hold hidle c hc'
    refine ⟨x, client, ?_, hstage, (hfind fd hfn).trans hcl⟩
    rw [List.getElem?_append_left (List.getElem?_eq_some_iff.mp hx).1, hx]

theorem tracks_refuse {s : Sys} {a : Service.State} (h : Tracks s a) {n : Fd} (hn : n ∉ s.files) :
    Tracks { s with toKernel := s.toKernel.accept n, ended := true }
      { a with sessions := a.sessions ++ [⟨n, [], .dropped⟩], stopped := true } := by
  refine ⟨count_accept h n _, h.session_accept n _, rfl, ?_, h.queue, h.in_hand,
    h.held_accept hn _ fun _ _ => rfl, h.answers_accept n⟩
  intro hrun
  cases hrun

/-! ## A connection is read -/

/-- What a step that reads is, with the outcome of the call. -/
theorem read_cases {s s' : Sys} {rd : ReadResult} (h : step s (.read rd) = some s') :
    ∃ cur k, current s.toHttpServer = some cur ∧ cur.fd ≠ s.m_listen_socket
      ∧ s.toKernel.read (subscript s.m_active_clients cur.fd).fd rd = some k
      ∧ s' = visit_client s k cur.fd
          (read_request (subscript s.m_active_clients cur.fd) rd).1
          (read_request (subscript s.m_active_clients cur.fd) rd).2 := by
  obtain ⟨cur, hcur, h⟩ := Option.bind_eq_some_iff.mp h
  split at h
  · next hg =>
      obtain ⟨k, hk, rfl⟩ := Option.map_eq_some_iff.mp h
      exact ⟨cur, k, hcur, hg.2, hk, rfl⟩
  · cases h

/-- The entry of a visited number leaves the vector, and no other. -/
theorem mem_fds_erase {s : HttpServer} {cur : PollFd} (hnodup : s.fds.Nodup)
    (hcur : current s = some cur) (hne : cur.fd ≠ s.m_listen_socket) {fd : Fd}
    (hfd : fd ∈ HttpServer.fds { s with poll_fds := s.poll_fds.eraseIdx s.i }) :
    fd ∈ s.fds ∧ fd ≠ cur.fd := by
  have hperm := fds_perm_erase hcur hne
  refine ⟨hperm.mem_iff.mpr (List.mem_cons_of_mem _ hfd), ?_⟩
  rintro rfl
  exact (List.nodup_cons.mp (hperm.nodup_iff.mp hnodup)).1 hfd

/-- What is known where the loop reads a number without a pending task, whose
    connection is `d`. -/
structure Reading (s : Sys) (a : Service.State) (cur : PollFd) (d : ConnId) (x : Session)
    (client : Client) : Prop where
  current : current s.toHttpServer = some cur
  polled : cur.fd ≠ s.m_listen_socket
  nodup : s.fds.Nodup
  idle : ¬ s.Busy cur.fd
  owner : s.owner cur.fd = some d
  session : a.sessions[d]? = some x
  stage : x.stage = .reading client
  entry : s.m_active_clients.find cur.fd = some client
  fd_eq : client.fd = cur.fd

variable {s : Sys} {a : Service.State} {cur : PollFd} {d : ConnId} {x : Session} {client : Client}
  {rd : ReadResult}

theorem Reading.lt (h : Reading s a cur d x client) : d < a.sessions.length :=
  (List.getElem?_eq_some_iff.mp h.session).1

theorem delivered_concat (rds : List ReadResult) (rd : ReadResult) :
    delivered (rds ++ [rd]) = delivered rds ++ rd.bytes := by
  rw [delivered, List.flatMap_append, List.flatMap_singleton]
  rfl

/-- The bytes of a read go to its connection, and to its session. -/
theorem Tracks.session_read (h : Tracks s a) (hr : Reading s a cur d x client)
    (hk : ReadEffect s.toKernel cur.fd rd k) (stage : Stage) :
    ∀ c z, (a.sessions.set d ⟨x.fd, x.reads ++ [rd], stage⟩)[c]? = some z →
      k.accepted_as c = some z.fd ∧ delivered z.reads = k.received c := by
  intro c z hz
  rw [hk.accepted_as, hk.received, hr.owner]
  by_cases hc : c = d
  · rw [hc, List.getElem?_set_self hr.lt] at hz
    obtain rfl := Option.some.inj hz
    obtain ⟨hfd, hdel⟩ := h.session d x hr.session
    rw [hc, if_pos rfl, ← hdel]
    exact ⟨hfd, delivered_concat x.reads rd⟩
  · rw [List.getElem?_set_ne (Ne.symm hc)] at hz
    rw [if_neg fun he => hc (Option.some.inj he).symm, List.append_nil]
    exact h.session c z hz

/-- The tasks are for other numbers and other connections. -/
theorem Tracks.held_read (h : Tracks s a) (hsock : SockInv s.toKernel)
    (hr : Reading s a cur d x client) (hk : ReadEffect s.toKernel cur.fd rd k) (y : Session)
    (hfind : ∀ fd ≠ cur.fd, m'.find fd = s.m_active_clients.find fd) :
    ∀ t ∈ s.pending, ∃ c, Held m' k (a.sessions.set d y) t c := by
  intro t ht
  obtain ⟨c, hc⟩ := h.held t ht
  have hne : t.client_socket ≠ cur.fd := fun he => hr.idle ⟨t, ht, he⟩
  have hcd : c ≠ d := by
    rintro rfl
    exact hne (hsock.fd_unique hc.owner hr.owner)
  refine ⟨c, hc.frame (hk.owner _) (hfind _ hne) ?_⟩
  intro z hz hreq
  exact ⟨z, by rw [List.getElem?_set_ne (Ne.symm hcd), hz], hreq⟩

/-- The readers of the other numbers stay. -/
theorem Tracks.reader_read (h : Tracks s a) (hsock : SockInv s.toKernel)
    (hr : Reading s a cur d x client) (y : Session) (hrun : s.ended = false)
    (hfind : ∀ fd ≠ cur.fd, m'.find fd = s.m_active_clients.find fd) {fd : Fd}
    (hne : fd ≠ cur.fd) (hfd : fd ∈ s.fds) (hidle : ¬ s.Busy fd) {c : ConnId}
    (hc : s.owner fd = some c) : Reader m' (a.sessions.set d y) fd c := by
  have hcd : c ≠ d := by
    rintro rfl
    exact hne (hsock.fd_unique hc hr.owner)
  exact (h.reader hrun fd hfd hidle c hc).frame (hfind fd hne)
    (List.getElem?_set_ne (Ne.symm hcd))

theorem Tracks.answers_read (h : Tracks s a) (hk : ReadEffect s.toKernel cur.fd rd k) :
    List.Forall₂ (Answered k) s.handled a.answers :=
  answers_frame h.answers fun c _ hc => (hk.accepted_as c).trans hc

theorem Tracks.count_read (h : Tracks s a) (hk : ReadEffect s.toKernel cur.fd rd k)
    (y : Session) : (a.sessions.set d y).length = k.conns.length := by
  rw [List.length_set, h.count, hk.length]

theorem find_visited {cl : Client} {fd : Fd} (hfd : fd ≠ cur.fd) :
    (s.m_active_clients.assign cur.fd cl).find fd = s.m_active_clients.find fd := by
  rw [find_assign, if_neg hfd]

/-- A completed request is queued, and its connection with it. -/
theorem tracks_complete (h : Tracks s a) (hsock : SockInv s.toKernel)
    (hr : Reading s a cur d x client) (hk : ReadEffect s.toKernel cur.fd rd k) {cl : Client}
    (hrun : s.ended = false) (hfd : cl.fd = cur.fd) (hraw : cl.raw_http ≠ []) :
    Tracks { s with
        toKernel := k
        m_active_clients := s.m_active_clients.assign cur.fd cl
        m_tasks := s.m_tasks ++ [⟨cl.fd, s.owner cl.fd, cl.raw_http⟩]
        i := s.i + 1
        dispatched := s.dispatched ++ [⟨cl.fd, s.owner cl.fd, cl.raw_http⟩] }
      { a.goto d ⟨x.fd, x.reads ++ [rd], .queued cl.raw_http⟩ with queue := a.queue ++ [d] } := by
  have howner : s.owner cl.fd = some d := by rw [hfd, hr.owner]
  have htask : Held (s.m_active_clients.assign cur.fd cl) k
      (a.sessions.set d ⟨x.fd, x.reads ++ [rd], .queued cl.raw_http⟩)
      ⟨cl.fd, s.owner cl.fd, cl.raw_http⟩ d := by
    refine ⟨howner, (hk.owner _).trans howner, ⟨cl, ?_, rfl, rfl⟩, hraw,
      ⟨_, List.getElem?_set_self hr.lt, rfl⟩⟩
    show (s.m_active_clients.assign cur.fd cl).find cl.fd = some cl
    rw [find_assign, if_pos hfd]
  refine ⟨h.count_read hk _, h.session_read hr hk _, h.stopped, ?_, ?_, h.in_hand, ?_,
    h.answers_read hk⟩
  · intro _ fd hmem hidle c hc
    have hc' : s.owner fd = some c := (hk.owner fd).symm.trans hc
    -- the number that was read is busy from now on
    have hne : fd ≠ cur.fd := by
      rintro rfl
      exact hidle ⟨_, List.mem_append.mpr (Or.inr (List.mem_append.mpr
        (Or.inr (List.mem_singleton.mpr rfl)))), hfd⟩
    have hidle' : ¬ s.Busy fd := by
      rintro ⟨t, ht, he⟩
      refine hidle ⟨t, ?_, he⟩
      rcases List.mem_append.mp ht with hrunning | hqueued
      · exact List.mem_append.mpr (Or.inl hrunning)
      · exact List.mem_append.mpr (Or.inr (List.mem_append.mpr (Or.inl hqueued)))
    exact h.reader_read hsock hr _ hrun (fun _ => find_visited) hne hmem hidle' hc'
  · show List.map Task.conn (s.m_tasks ++ [_]) = List.map some (a.queue ++ [d])
    rw [List.map_append, List.map_append, h.queue]
    exact congrArg _ (congrArg (fun o => [o]) howner)
  · intro t ht
    have ht' : t ∈ s.running ++ (s.m_tasks ++ [_]) := ht
    rw [← List.append_assoc] at ht'
    rcases List.mem_append.mp ht' with hold | hnew
    · exact h.held_read hsock hr hk _ (fun _ => find_visited) t hold
    · obtain rfl := List.mem_singleton.mp hnew
      exact ⟨d, htask⟩

/-- A connection that is gone leaves the vector and the map, and is dropped. -/
theorem tracks_gone (h : Tracks s a) (hsock : SockInv s.toKernel)
    (hr : Reading s a cur d x client) (hk : ReadEffect s.toKernel cur.fd rd k) {cl : Client}
    (hrun : s.ended = false) (hfd : cl.fd = cur.fd) :
    Tracks { s with
        toKernel := k
        poll_fds := s.poll_fds.eraseIdx s.i
        m_active_clients := (s.m_active_clients.assign cur.fd cl).erase cl.fd
        born := Function.update s.born cl.fd none }
      (a.goto d ⟨x.fd, x.reads ++ [rd], .dropped⟩) := by
  have hfind : ∀ fd ≠ cur.fd, find (AList.erase cl.fd (s.m_active_clients.assign cur.fd cl)) fd
      = s.m_active_clients.find fd := by
    intro fd hne
    rw [find_erase, hfd, if_neg hne, find_visited hne]
  refine ⟨h.count_read hk _, h.session_read hr hk _, h.stopped, ?_, h.queue, h.in_hand,
    h.held_read hsock hr hk _ hfind, h.answers_read hk⟩
  intro _ fd hmem hidle c hc
  obtain ⟨hold, hne⟩ := mem_fds_erase hr.nodup hr.current hr.polled hmem
  exact h.reader_read hsock hr _ hrun hfind hne hold hidle ((hk.owner fd).symm.trans hc)

theorem not_ended_of_current {s : HttpServer} (h : current s = some cur) : s.ended = false := by
  rw [current] at h
  split at h
  · cases h
  · next hend => exact Bool.eq_false_iff.mpr hend

/-- **A READ IS A READ** of the connection under the number, with the same
    outcome. -/
theorem tracks_read (h : Tracks s a) (hsock : SockInv s.toKernel)
    (hr : Reading s a cur d x client) (hk : ReadEffect s.toKernel cur.fd rd k) :
    Tracks (visit_client s k cur.fd (read_request client rd).1 (read_request client rd).2)
      (Service.read a d x client rd) := by
  have hrun := not_ended_of_current hr.current
  have hfd : (read_request client rd).1.fd = cur.fd := by rw [read_request_fd, hr.fd_eq]
  simp only [visit_client, Service.read]
  cases hres : (read_request client rd).2 with
  | error f =>
      refine ⟨h.count_read hk _, h.session_read hr hk _, rfl, ?_, h.queue, h.in_hand,
        h.held_read hsock hr hk _ fun _ => find_visited, h.answers_read hk⟩
      intro hend
      cases hend
  | ok st =>
      cases st with
      | READ_MORE =>
          refine ⟨h.count_read hk _, h.session_read hr hk _, h.stopped, ?_, h.queue, h.in_hand,
            h.held_read hsock hr hk _ fun _ => find_visited, h.answers_read hk⟩
          intro _ fd hmem hidle c hc
          have hc' : s.owner fd = some c := (hk.owner fd).symm.trans hc
          by_cases hne : fd = cur.fd
          · rw [hne, hr.owner] at hc'
            obtain rfl := Option.some.inj hc'
            refine ⟨_, _, List.getElem?_set_self hr.lt, rfl, ?_⟩
            show (s.m_active_clients.assign cur.fd _).find fd = _
            rw [find_assign, if_pos hne]
          · exact h.reader_read hsock hr _ hrun (fun _ => find_visited) hne hmem hidle hc'
      | END_OF_CONNECTION =>
          obtain ⟨last, rfl⟩ := read_request_end hres
          refine tracks_complete h hsock hr hk hrun hfd ?_
          rw [read_request_raw]
          exact fun hnil => last.nonempty (List.append_eq_nil_iff.mp hnil).2
      | CONNECTION_ABORTED => exact tracks_gone h hsock hr hk hrun hfd
      | CONNECTION_ERROR => exact tracks_gone h hsock hr hk hrun hfd

/-- A read in vain of a number whose task is pending. -/
theorem tracks_blocked (h : Tracks s a) {cl : Client}
    (hentry : s.m_active_clients.find cur.fd = some cl)
    (hk : ReadEffect s.toKernel cur.fd .would_block k) :
    Tracks (visit_client s k cur.fd (read_request cl .would_block).1
      (read_request cl .would_block).2) a := by
  refine h.quiet hk.length hk.accepted_as ?_ hk.owner rfl (fun _ hfd => hfd) ?_ rfl rfl rfl
  · intro c
    show k.received c = s.received c
    rw [hk.received]
    exact (congrArg _ (ite_self _)).trans (List.append_nil _)
  · intro fd _
    show (s.m_active_clients.assign cur.fd cl).find fd = _
    rw [find_assign]
    by_cases hfd : fd = cur.fd
    · rw [if_pos hfd, hfd, hentry]
    · rw [if_neg hfd]

/-- An error on a number that a worker closed: only the vector and the map lose
    an entry. -/
theorem tracks_closed (h : Tracks s a) (hnodup : s.fds.Nodup)
    (hcur : current s.toHttpServer = some cur) (hne : cur.fd ≠ s.m_listen_socket)
    (hidle : ¬ s.Busy cur.fd) {cl : Client} (hfd : cl.fd = cur.fd)
    (hk : ReadEffect s.toKernel cur.fd .error k) :
    Tracks (visit_client s k cur.fd (read_request cl .error).1 (read_request cl .error).2) a := by
  refine h.quiet hk.length hk.accepted_as ?_ hk.owner rfl ?_ ?_ rfl rfl rfl
  · intro c
    show k.received c = s.received c
    rw [hk.received]
    exact (congrArg _ (ite_self _)).trans (List.append_nil _)
  · intro fd hmem
    exact (mem_fds_erase hnodup hcur hne hmem).1
  · intro fd hor
    have hother : fd ≠ cur.fd := by
      rcases hor with hmem | hbusy
      · exact (mem_fds_erase hnodup hcur hne hmem).2
      · rintro rfl
        exact hidle hbusy
    show find (AList.erase cl.fd (s.m_active_clients.assign cur.fd cl)) fd = _
    rw [find_erase, hfd, if_neg hother, find_visited hother]

/-! ## A worker takes a task and runs it -/

/-- The service's place of a connection, from a queue that holds it. -/
theorem queued_session {a : Service.State} (hg : Service.Good a) {c : ConnId} (hc : c ∈ a.queue) :
    ∃ x request, a.sessions[c]? = some x ∧ x.stage = .queued request := by
  obtain ⟨request, hstage⟩ := (hg.queue c).mp hc
  obtain ⟨x, hx, hxs⟩ := Option.map_eq_some_iff.mp hstage
  exact ⟨x, request, hx, hxs⟩

theorem answering_session {a : Service.State} (hg : Service.Good a) {c : ConnId}
    (hc : c ∈ a.in_hand) : ∃ x request, a.sessions[c]? = some x ∧ x.stage = .answering request := by
  obtain ⟨request, hstage⟩ := (hg.in_hand c).mp hc
  obtain ⟨x, hx, hxs⟩ := Option.map_eq_some_iff.mp hstage
  exact ⟨x, request, hx, hxs⟩

/-- A move that keeps what a session waits with keeps every reader and task. -/
theorem session_move {c : ConnId} {y : Session} {stage : Stage} (hc : sessions[c]? = some y)
    {P : ConnId → Session → Prop} (h : ∀ e z, sessions[e]? = some z → P e z)
    (hy : P c y → P c ⟨y.fd, y.reads, stage⟩) :
    ∀ e z, (sessions.set c ⟨y.fd, y.reads, stage⟩)[e]? = some z → P e z := by
  intro e z hz
  by_cases he : e = c
  · rw [he, List.getElem?_set_self (List.getElem?_eq_some_iff.mp hc).1] at hz
    obtain rfl := Option.some.inj hz
    rw [he]
    exact hy (h c y hc)
  · rw [List.getElem?_set_ne (Ne.symm he)] at hz
    exact h e z hz

/-- A reader is not a connection that waits or is answered. -/
theorem Reader.set {fd : Fd} {c e : ConnId} {y z : Session} (h : Reader m sessions fd e)
    (hfind : m'.find fd = m.find fd) (hc : sessions[c]? = some y)
    (hstage : ∀ client, y.stage ≠ .reading client) : Reader m' (sessions.set c z) fd e := by
  have hne : e ≠ c := by
    rintro rfl
    obtain ⟨x, client, hx, hread, -⟩ := h
    obtain rfl := Option.some.inj (hx.symm.trans hc)
    exact hstage client hread
  exact h.frame hfind (List.getElem?_set_ne (Ne.symm hne))

theorem tracks_start (h : Tracks s a) (hg : Service.Good a) {t : Task} {rest : List Task}
    (ht : s.m_tasks = t :: rest) : ∃ a', Service.step a .take = some a'
      ∧ Tracks { s with m_tasks := rest, running := s.running ++ [t] } a' := by
  have hqueue := h.queue
  rw [ht, List.map_cons] at hqueue
  obtain ⟨c, crest, hq, hc, hcrest⟩ := List.map_eq_cons_iff.mp hqueue.symm
  obtain ⟨y, request, hy, hstage⟩ := queued_session hg (c := c) (hq ▸ List.mem_cons_self)
  refine ⟨_, by simp only [Service.step, hq, hy, hstage]; rfl, ?_⟩
  have hpend := pending_start ht
  refine ⟨?_, session_move hy h.session id, h.stopped, ?_, hcrest.symm, ?_, ?_, h.answers⟩
  · show (a.sessions.set c _).length = _
    rw [List.length_set]
    exact h.count
  · intro hrun fd hfd hidle e he
    have hidle' : ¬ s.Busy fd := by
      rw [HttpServer.Busy, ← hpend]
      exact hidle
    refine (h.reader hrun fd hfd hidle' e he).set rfl hy ?_
    intro client hread
    rw [hstage] at hread
    cases hread
  · show List.map Task.conn (s.running ++ [t]) = List.map some (a.in_hand ++ [c])
    rw [List.map_append, List.map_append, h.in_hand]
    exact congrArg _ (congrArg (fun o => [o]) hc.symm)
  · intro u hu
    rw [hpend] at hu
    obtain ⟨e, he⟩ := h.held u hu
    refine ⟨e, he.frame rfl rfl ?_⟩
    intro z hz hreq
    by_cases hec : e = c
    · -- the request that waited is the one in hand
      rw [hec] at hz ⊢
      obtain rfl := Option.some.inj (hy.symm.trans hz)
      refine ⟨_, List.getElem?_set_self (List.getElem?_eq_some_iff.mp hy).1, ?_⟩
      rw [hstage] at hreq
      exact hreq
    · exact ⟨z, by rw [← hz]; exact List.getElem?_set_ne (Ne.symm hec), hreq⟩

/-- What a worker calls `process_request` with. -/
theorem Held.call {t : Task} {c : ConnId} (h : Held m k sessions t c) :
    (handle_incoming_request m t.client_socket).2 = some (t.client_socket, t.request) := by
  obtain ⟨cl, hcl, hfd, hraw⟩ := h.entry
  rw [handle_incoming_request, subscript, hcl, Option.getD_some]
  simp only
  rw [hraw, if_neg h.request, hfd]

theorem Held.find_emplace {t : Task} {c : ConnId} (h : Held m k sessions t c) (fd : Fd) :
    (m.emplace t.client_socket {}).find fd = m.find fd := by
  obtain ⟨cl, hcl, -⟩ := h.entry
  rw [UnorderedMap.find_emplace]
  by_cases hfd : fd = t.client_socket
  · rw [if_pos hfd, hfd, hcl, Option.getD_some]
  · rw [if_neg hfd]

theorem tracks_work (h : Tracks s a) (hg : Service.Good a) (hsock : SockInv s.toKernel)
    (hown : Owned s.pending s.handled s.toKernel) {j : Nat} {t : Task}
    (ht : s.running[j]? = some t) : ∃ a', Service.step a (.answer j) = some a'
      ∧ Tracks (run_task s j t) a' := by
  have hperm := pending_perm_work ht
  have hmem : t ∈ s.pending := hperm.mem_iff.mpr List.mem_cons_self
  obtain ⟨c, hc⟩ := h.held t hmem
  have hj : a.in_hand[j]? = some c := by
    have := congrArg (fun l => l[j]?) h.in_hand
    simp only [List.getElem?_map, ht, Option.map_some, hc.conn] at this
    obtain ⟨c', hc', he⟩ := Option.map_eq_some_iff.mp this.symm
    rw [hc', Option.some.inj he]
  obtain ⟨y, request, hy, hstage⟩ := answering_session hg (List.mem_of_getElem? hj)
  have hrequest : request = t.request := by
    obtain ⟨z, hz, hreq⟩ := hc.session
    obtain rfl := Option.some.inj (hy.symm.trans hz)
    rw [hstage] at hreq
    exact Option.some.inj hreq
  refine ⟨_, by simp only [Service.step, hj, hy, hstage]; rfl, ?_⟩
  -- the other tasks have other numbers
  have hnodup := (hperm.map Task.client_socket).nodup_iff.mp hown.nodup
  rw [List.map_cons, List.nodup_cons] at hnodup
  have hother : ∀ u ∈ (run_task s j t).pending, u.client_socket ≠ t.client_socket :=
    fun u hu he => hnodup.1 (he ▸ List.mem_map_of_mem hu)
  refine ⟨?_, session_move hy h.session id, h.stopped, ?_, h.queue, ?_, ?_, ?_⟩
  · show (a.sessions.set c _).length = _
    rw [List.length_set]
    exact h.count
  · intro hrun fd hfd hidle e he
    have he' : (s.toKernel.close t.client_socket).owner fd = some e := he
    rw [owner_close] at he'
    by_cases hne : fd = t.client_socket
    · rw [if_pos hne] at he'
      cases he'
    · rw [if_neg hne] at he'
      have hidle' : ¬ s.Busy fd := by
        rintro ⟨u, hu, huf⟩
        rcases List.mem_cons.mp (hperm.mem_iff.mp hu) with rfl | hrest
        · exact hne huf.symm
        · exact hidle ⟨u, hrest, huf⟩
      refine (h.reader hrun fd hfd hidle' e he').set (hc.find_emplace fd) hy ?_
      intro client hread
      rw [hstage] at hread
      cases hread
  · show List.map Task.conn (s.running.eraseIdx j) = List.map some (a.in_hand.eraseIdx j)
    rw [← List.eraseIdx_map, ← List.eraseIdx_map, h.in_hand]
  · intro u hu
    have hu' : u ∈ s.pending := hperm.mem_iff.mpr (List.mem_cons_of_mem _ hu)
    obtain ⟨e, he⟩ := h.held u hu'
    refine ⟨e, he.frame ?_ (hc.find_emplace _) ?_⟩
    · show (s.toKernel.close t.client_socket).owner _ = _
      rw [owner_close, if_neg (hother u hu)]
    · intro z hz hreq
      have hec : e ≠ c := by
        rintro rfl
        exact hother u hu (hsock.fd_unique he.owner hc.owner)
      exact ⟨z, by rw [← hz]; exact List.getElem?_set_ne (Ne.symm hec), hreq⟩
  · show List.Forall₂ (Answered (s.toKernel.close t.client_socket))
      (s.handled ++ [_]) (a.answers ++ [(c, request)])
    refine List.rel_append (answers_frame h.answers fun _ _ hfd => hfd) (.cons ?_ .nil)
    refine ⟨?_, hc.owner, t.client_socket, hsock _ _ hc.owner, ?_⟩
    · show ((handle_incoming_request s.m_active_clients t.client_socket).2.bind
        fun call => s.owner call.1) = some c
      rw [hc.call, Option.bind_some]
      exact hc.owner
    · show (handle_incoming_request s.m_active_clients t.client_socket).2 = _
      rw [hc.call, hrequest]

/-! ## Every step is followed -/

theorem tracks_init {s : Sys} (h : Init s) : Tracks s (Service.init s.ended) := by
  have hpending := h.tasks
  rw [HttpServer.pending, List.append_eq_nil_iff] at hpending
  have hfds : s.fds = [] := by rw [fds_eq, h.poll_fds]; simp
  refine ⟨?_, ?_, ?_, ?_, ?_, ?_, ?_, ?_⟩
  · rw [h.conns]
    rfl
  · intro c x hx
    cases hx
  · rfl
  · intro _ fd hfd
    rw [hfds] at hfd
    cases hfd
  · rw [hpending.2]
    rfl
  · rw [hpending.1]
    rfl
  · rw [h.tasks]
    exact List.forall_mem_nil _
  · rw [h.handled]
    exact .nil

/-- A read, by what the number is to the loop: a connection that is read, one
    that waits for its worker, or one that a worker closed. -/
theorem tracks_step_read (h : Tracks s a) (hm : Mirrored s.fds s.m_active_clients s.toKernel)
    (hsock : SockInv s.toKernel) (hok : Orderly s (.read rd)) {s' : Sys}
    (hs : step s (.read rd) = some s') :
    ∃ a', Service.service.Follows (fun _ _ => True) a a' ∧ Tracks s' a' := by
  obtain ⟨cur, k, hcur, hne, hk, rfl⟩ := read_cases hs
  obtain ⟨cl, c, hmirror⟩ := hm.mirror cur.fd (mem_fds_of_current hcur hne)
  have hsub : subscript s.m_active_clients cur.fd = cl := by
    rw [subscript, hmirror.entry, Option.getD_some]
  rw [hsub, hmirror.fd_eq] at hk
  have heff := read_effect hk
  rw [hsub]
  by_cases hbusy : s.Busy cur.fd
  · obtain rfl := hok.would_block hcur (by rw [hsub, hmirror.fd_eq]; exact hbusy)
    exact ⟨a, .refl a, tracks_blocked h hmirror.entry heff⟩
  · cases hown : s.owner cur.fd with
    | none =>
        have hclosed : cur.fd ∉ s.files := by
          intro hfile
          obtain ⟨f, hf⟩ := mem_iff_find.mp hfile
          rw [owner_of_find (hmirror.file f hf ▸ hf)] at hown
          cases hown
        obtain rfl := heff.closed hclosed
        exact ⟨a, .refl a, tracks_closed h hm.nodup hcur hne hbusy hmirror.fd_eq heff⟩
    | some d =>
        obtain ⟨x, client, hx, hstage, hclient⟩ := h.reader (not_ended_of_current hcur) cur.fd
          (mem_fds_of_current hcur hne) hbusy d hown
        obtain rfl := Option.some.inj (hmirror.entry.symm.trans hclient)
        refine ⟨_, .of_step (.read d rd) trivial ?_, tracks_read h hsock
          ⟨hcur, hne, hm.nodup, hbusy, hown, hx, hstage, hclient, hmirror.fd_eq⟩ heff⟩
        show Service.step a (.read d rd) = some _
        rw [Service.step, h.stopped, not_ended_of_current hcur]
        simp only [hx, hstage]
        rfl

theorem Tracks.peer (h : Tracks s a) {c : ConnId} {conn conn' : Conn}
    (hc : s.conns[c]? = some conn) (hfd : conn'.fd = conn.fd)
    (hr : conn'.received = conn.received) :
    Tracks { s with conns := s.conns.set c conn' } a :=
  h.quiet (List.length_set ..) (accepted_as_set hc hfd) (received_set_same hc hr) (fun _ => rfl)
    rfl (fun _ hm => hm) (fun _ _ => rfl) rfl rfl rfl

/-- The loop goes on to the next entry. -/
theorem Tracks.unseen (h : Tracks s a) : Tracks { s with i := s.i + 1 } a :=
  h.quiet rfl (fun _ => rfl) (fun _ => rfl) (fun _ => rfl) rfl (fun _ hm => hm) (fun _ _ => rfl)
    rfl rfl rfl

/-- While the loop is at an entry, the service has not stopped. -/
theorem Tracks.going (h : Tracks s a) (hcur : current s.toHttpServer = some cur) :
    ¬ a.stopped = true := by
  rw [h.stopped, not_ended_of_current hcur]
  exact Bool.false_ne_true

/-- Nothing is read or accepted any more. -/
theorem Tracks.stop (h : Tracks s a) :
    Tracks { s with ended := true } { a with stopped := true } := by
  refine ⟨h.count, h.session, rfl, ?_, h.queue, h.in_hand, h.held, h.answers⟩
  intro hrun
  cases hrun

/-- **THE EVENT LOOP REFINES THE SERVICE**: in orderly runs each step of the
    server is one step of the service or none. -/
theorem simulation :
    Simulation server Service.service Orderly (fun _ _ => True) Tracks where
  init s h0 := ⟨_, ⟨_, rfl⟩, tracks_init h0⟩
  step := by
    intro s a l s' hr ha h hok hs
    have hg := Service.good ha
    have hsock := sockInv hr
    have hstep : step s l = some s' := hs
    cases step_cases hstep with
    | poll_error => exact ⟨_, .of_step .stop trivial rfl, h.stop⟩
    | poll ready hlen =>
        refine ⟨a, .refl a, h.quiet rfl (fun _ => rfl) (fun _ => rfl) (fun _ => rfl) rfl ?_
          (fun _ _ => rfl) rfl rfl rfl⟩
        intro fd hfd
        rw [← fds_poll s.toHttpServer hlen]
        exact hfd
    | skip => exact ⟨a, .refl a, h.unseen⟩
    | accept_error => exact ⟨a, .refl a, h.unseen⟩
    | accept_flags n hn =>
        obtain ⟨cur, hcur, -⟩ := Option.bind_eq_some_iff.mp hstep
        refine ⟨_, .of_step (.refuse n) trivial ?_, tracks_refuse h hn⟩
        exact if_neg (h.going hcur)
    | accept n hn hl =>
        obtain ⟨cur, hcur, -⟩ := Option.bind_eq_some_iff.mp hstep
        refine ⟨_, .of_step (.accept n) trivial ?_, tracks_accept h hn hl hok⟩
        exact if_neg (h.going hcur)
    | read cur rd k cl _ _ _ _ _ _ =>
        exact tracks_step_read h (mirrored (hr.mono fun _ _ => Orderly.numberFree)) hsock hok hstep
    | start t rest ht =>
        obtain ⟨a', ha', htracks⟩ := tracks_start h hg ht
        exact ⟨a', .of_step .take trivial ha', htracks⟩
    | work j t ht =>
        have hown := owned (hr.mono fun _ _ => Orderly.noneWaiting)
        obtain ⟨a', ha', htracks⟩ := tracks_work h hg hsock hown ht
        exact ⟨a', .of_step (.answer j) trivial ha', htracks⟩
    | peer _ c conn conn' hc hfd hrec _ => exact ⟨a, .refl a, h.peer hc hfd hrec⟩

/-- **EVERY ORDERLY RUN IS A RUN OF THE SERVICE**, which has the same connections
    with the same bytes read, the same queue, the same tasks in hand and the same
    answers. -/
theorem refines_service (h : server.Reach Orderly s) :
    ∃ a, Service.service.Reachable a ∧ Tracks s a := simulation.reach h

/-- Two connections, read in turns, one of them answered. -/
theorem refines_service_sample : ∃ s : Sys, s.handled.length = 1 ∧ s.pending.length = 1
    ∧ ∃ a, Service.service.Reachable a ∧ Tracks s a := by
  have h0 : server.Reach Orderly (entered 3 1) := .init (init_entered 3 1)
  obtain ⟨s, hs, hhandled, hpending⟩ := h0.exists_of_run
    (fun s => s.handled.length = 1 ∧ s.pending.length = 1)
    [.poll (some [true]), .accept (.fd 5 true), .skip,
      .poll (some [true, false]), .accept (.fd 6 true), .skip, .skip,
      .peer_send 1 get_b.bytes, .peer_send 0 get_a.bytes,
      .poll (some [false, true, true]), .skip, .read (.data get_a), .start,
      .read (.data get_b), .work 0]
    (by decide)
  exact ⟨s, hhandled, hpending, refines_service hs⟩

end WebLib.EventLoop
