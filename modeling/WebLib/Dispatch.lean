import WebLib.Steps

/-! # One dispatch and one close for each connection

    While a connection has a task, its socket stays open under the number of the
    task, and the worker that runs the task closes it.  So one task means one
    close, of the right socket.  A second task for the number breaks both: it
    is a second dispatch, and its close hits whatever is open by then. -/

namespace WebLib.EventLoop

open WebLib ByteString ReadRequest UnorderedMap TransitionSystem

/-- Pending tasks have different numbers, each open for the connection the task
    is for; a handled task closed the socket of its connection for good. -/
structure Owned (pending : List Task) (handled : List Handled) (k : Kernel) : Prop where
  nodup : (pending.map Task.client_socket).Nodup
  opened : ∀ t ∈ pending, t.client_socket ∈ k.files
  conn : ∀ t ∈ pending, t.conn = k.owner t.client_socket
  closed : ∀ h ∈ handled, h.closed = h.task.conn
  known : ∀ h ∈ handled, ∀ c, h.task.conn = some c → c < k.conns.length
  gone : ∀ h ∈ handled, ∀ c, h.task.conn = some c → ∀ fd, k.owner fd ≠ some c

/-- The steps that dispatch a connection once: bytes are read only when no task
    for the number read from is pending. -/
def NoneWaiting (s : Sys) : Label → Prop
  | .read (.data _) => ∀ cur ∈ current s.toHttpServer,
      ¬ s.Busy (subscript s.m_active_clients cur.fd).fd
  | _ => True

instance (s : Sys) : ∀ l, Decidable (NoneWaiting s l)
  | .read (.data _) => inferInstanceAs (Decidable (∀ cur ∈ current s.toHttpServer,
      ¬ s.Busy (subscript s.m_active_clients cur.fd).fd))
  | .read .eof | .read .error | .read .would_block | .poll _ | .skip | .accept _ | .start
  | .work _ | .peer_send _ _ | .peer_close _ | .peer_reset _ => .isTrue trivial

variable {pending pending' : List Task} {handled : List Handled} {k k' : Kernel}

/-- The descriptor table and the number of connections are all that counts. -/
theorem Owned.quiet (h : Owned pending handled k) (hfiles : k'.files = k.files)
    (hlength : k'.conns.length = k.conns.length) : Owned pending handled k' := by
  have howner : ∀ fd, k'.owner fd = k.owner fd := by
    intro fd
    simp only [Kernel.owner]
    rw [hfiles]
  refine ⟨h.nodup, ?_, ?_, h.closed, ?_, ?_⟩
  · intro t ht
    rw [hfiles]
    exact h.opened t ht
  · intro t ht
    rw [howner]
    exact h.conn t ht
  · intro x hx c hc
    rw [hlength]
    exact h.known x hx c hc
  · intro x hx c hc fd
    rw [howner]
    exact h.gone x hx c hc fd

/-- A new socket is under a number that no task has. -/
theorem Owned.accept (h : Owned pending handled k) {n : Fd} (hn : n ∉ k.files) :
    Owned pending handled (k.accept n) := by
  have hlt : (k.accept n).conns.length = k.conns.length + 1 := by simp [Kernel.accept]
  refine ⟨h.nodup, ?_, ?_, h.closed, ?_, ?_⟩
  · intro t ht
    exact AList.mem_insert _ |>.mpr (Or.inr (h.opened t ht))
  · intro t ht
    have hne : t.client_socket ≠ n := fun he => hn (he ▸ h.opened t ht)
    rw [owner_accept, if_neg hne]
    exact h.conn t ht
  · intro x hx c hc
    rw [hlt]
    exact Nat.lt_succ_of_lt (h.known x hx c hc)
  · intro x hx c hc fd hown
    rw [owner_accept] at hown
    by_cases hfd : fd = n
    · rw [if_pos hfd] at hown
      exact Nat.ne_of_lt (h.known x hx c hc) (Option.some.inj hown).symm
    · rw [if_neg hfd] at hown
      exact h.gone x hx c hc fd hown

/-- A task for an open number that no pending task has. -/
theorem Owned.enqueue (h : Owned pending handled k) {t : Task}
    (hopen : t.client_socket ∈ k.files) (hconn : t.conn = k.owner t.client_socket)
    (hfree : ∀ u ∈ pending, u.client_socket ≠ t.client_socket) :
    Owned (pending ++ [t]) handled k := by
  refine ⟨?_, ?_, ?_, h.closed, h.known, h.gone⟩
  · rw [List.map_append]
    refine h.nodup.append (List.nodup_singleton _) ?_
    intro fd hfd hlast
    obtain ⟨u, hu, rfl⟩ := List.mem_map.mp hfd
    exact hfree u hu (List.mem_singleton.mp hlast)
  · intro u hu
    rcases List.mem_append.mp hu with hold | hnew
    · exact h.opened u hold
    · obtain rfl := List.mem_singleton.mp hnew
      exact hopen
  · intro u hu
    rcases List.mem_append.mp hu with hold | hnew
    · exact h.conn u hold
    · obtain rfl := List.mem_singleton.mp hnew
      exact hconn

/-- A worker closes the socket of its task and no other. -/
theorem Owned.handle (h : Owned pending handled k) (hsock : SockInv k) {t : Task}
    (hperm : pending.Perm (t :: pending')) (call : Option (Fd × Str))
    (answered : Option ConnId) :
    Owned pending' (handled ++ [⟨t, call, answered, k.owner t.client_socket⟩])
      (k.close t.client_socket) := by
  have hmem : ∀ u ∈ pending', u ∈ pending :=
    fun u hu => hperm.mem_iff.mpr (List.mem_cons_of_mem _ hu)
  have ht : t ∈ pending := hperm.mem_iff.mpr List.mem_cons_self
  have hnodup := (hperm.map Task.client_socket).nodup_iff.mp h.nodup
  rw [List.map_cons, List.nodup_cons] at hnodup
  have hne : ∀ u ∈ pending', u.client_socket ≠ t.client_socket :=
    fun u hu he => hnodup.1 (he ▸ List.mem_map_of_mem hu)
  refine ⟨hnodup.2, ?_, ?_, ?_, ?_, ?_⟩
  · intro u hu
    exact AList.mem_erase.mpr ⟨hne u hu, h.opened u (hmem u hu)⟩
  · intro u hu
    rw [owner_close, if_neg (hne u hu)]
    exact h.conn u (hmem u hu)
  · intro x hx
    rcases List.mem_append.mp hx with hold | hnew
    · exact h.closed x hold
    · obtain rfl := List.mem_singleton.mp hnew
      exact (h.conn t ht).symm
  · intro x hx c hc
    rcases List.mem_append.mp hx with hold | hnew
    · exact h.known x hold c hc
    · obtain rfl := List.mem_singleton.mp hnew
      exact lt_of_accepted_as (hsock t.client_socket c ((h.conn t ht).symm.trans hc))
  · intro x hx c hc fd hown
    rw [owner_close] at hown
    by_cases hfd : fd = t.client_socket
    · rw [if_pos hfd] at hown
      cases hown
    · rw [if_neg hfd] at hown
      rcases List.mem_append.mp hx with hold | hnew
      · exact h.gone x hold c hc fd hown
      · obtain rfl := List.mem_singleton.mp hnew
        exact hfd (hsock.fd_unique hown ((h.conn t ht).symm.trans hc))

theorem owned_step {s s' : Sys} {l : Label} (hsock : SockInv s.toKernel)
    (h : Owned s.pending s.handled s.toKernel) (hok : NoneWaiting s l) (hs : Step s l s') :
    Owned s'.pending s'.handled s'.toKernel := by
  cases hs with
  | poll_error | poll | skip | accept_error => exact h
  | accept_flags n hn => exact h.accept hn
  | accept n hn _ => exact h.accept hn
  | read cur rd k cl _ hcur _ hcl hk hv =>
      have heff := read_effect hk
      have hquiet := h.quiet heff.files heff.length
      cases hv with
      | throws | more | gone => exact hquiet
      | complete c hrd =>
          have hfd : cl.fd = (subscript s.m_active_clients cur.fd).fd := by
            rw [hcl, read_request_fd]
          rw [hrd] at hok
          show Owned (s.running ++ (s.m_tasks ++ _)) _ _
          rw [← List.append_assoc]
          refine hquiet.enqueue ?_ (heff.owner cl.fd).symm ?_
          · show cl.fd ∈ k.files
            rw [heff.files]
            by_contra hclosed
            have hdata := heff.closed hclosed
            rw [hrd] at hdata
            cases hdata
          · intro u hu he
            exact hok cur hcur ⟨u, hu, he.trans hfd⟩
  | start t rest ht =>
      rw [pending_start ht]
      exact h
  | work j t ht => exact h.handle hsock (pending_perm_work ht) _ _
  | peer _ c conn conn' _ _ _ _ => exact h.quiet rfl (by simp)

theorem owned {s : Sys} (h : server.Reach NoneWaiting s) :
    Owned s.pending s.handled s.toKernel := by
  refine h.invariant_of (I := fun s => Owned s.pending s.handled s.toKernel)
    (J := fun s => SockInv s.toKernel) (fun _ hr => sockInv hr) ?_ ?_
  · intro s h0
    rw [h0.tasks, h0.handled]
    exact ⟨List.nodup_nil, List.forall_mem_nil _, List.forall_mem_nil _, List.forall_mem_nil _,
      List.forall_mem_nil _, List.forall_mem_nil _⟩
  · intro s l s' hsock hi hok hs
    exact owned_step hsock hi hok (step_cases hs)

/-- A connection that has a task, pending or handled, is not open under a number
    without a pending task. -/
theorem Owned.not_dispatched {s : Sys} (h : Owned s.pending s.handled s.toKernel)
    (hsock : SockInv s.toKernel)
    (hperm : s.dispatched.Perm (s.handled.map Handled.task ++ s.pending))
    {fd : Fd} {c : ConnId} (hown : s.owner fd = some c) (hidle : ¬ s.Busy fd) :
    some c ∉ s.dispatched.map Task.conn := by
  intro hmem
  obtain ⟨t, ht, hconn⟩ := List.mem_map.mp hmem
  rcases List.mem_append.mp (hperm.mem_iff.mp ht) with hhandled | hpending
  · obtain ⟨x, hx, rfl⟩ := List.mem_map.mp hhandled
    exact h.gone x hx c hconn fd hown
  · have hto : s.owner t.client_socket = some c := (h.conn t hpending).symm.trans hconn
    exact hidle ⟨t, hpending, hsock.fd_unique hto hown⟩

theorem count_dispatched_step {s s' : Sys} {l : Label} (hsock : SockInv s.toKernel)
    (hown : Owned s.pending s.handled s.toKernel)
    (hperm : s.dispatched.Perm (s.handled.map Handled.task ++ s.pending))
    (h : ∀ c, (s.dispatched.map Task.conn).count (some c) ≤ 1) (hok : NoneWaiting s l)
    (hs : Step s l s') : ∀ c, (s'.dispatched.map Task.conn).count (some c) ≤ 1 := by
  cases hs with
  | poll_error | poll | skip | accept_error | accept_flags | accept | start | work | peer =>
      exact h
  | read cur rd k cl _ hcur _ hcl hk hv =>
      cases hv with
      | throws | more | gone => exact h
      | complete c hrd =>
          intro d
          show (List.map Task.conn (s.dispatched ++ [_])).count (some d) ≤ 1
          rw [List.map_append, List.count_append]
          by_cases hd : s.owner cl.fd = some d
          · have hidle : ¬ s.Busy cl.fd := by
              rw [hrd] at hok
              rw [hcl, read_request_fd]
              exact hok cur hcur
            -- the connection is open and its number idle: it has no task so far
            rw [List.count_eq_zero.mpr (hown.not_dispatched hsock hperm hd hidle)]
            exact Nat.le_trans (Nat.le_of_eq (Nat.zero_add _)) List.count_le_length
          · have hnot : some d ∉ [s.owner cl.fd] := by
              intro hm
              exact hd (List.mem_singleton.mp hm).symm
            have hzero : (List.map Task.conn
                [⟨cl.fd, s.owner cl.fd, cl.raw_http⟩]).count (some d) = 0 :=
              List.count_eq_zero.mpr hnot
            rw [hzero]
            exact h d

/-- **ONE DISPATCH**: in every run that reads bytes only when no task for the
    number is pending, `handle_incoming_request` is enqueued at most once for
    each connection. -/
theorem dispatched_once {s : Sys} (h : server.Reach NoneWaiting s) (c : ConnId) :
    (s.dispatched.map Task.conn).count (some c) ≤ 1 := by
  refine h.invariant_of (I := fun s => ∀ c, (s.dispatched.map Task.conn).count (some c) ≤ 1)
    (J := fun s => server.Reach NoneWaiting s) (fun _ hr => hr) ?_ ?_ c
  · intro s h0 c
    rw [h0.dispatched]
    exact Nat.zero_le 1
  · intro s l s' hr hi hok hs
    exact count_dispatched_step (sockInv hr) (owned hr) (dispatched_perm hr) hi hok
      (step_cases hs)

/-- Two connections under one number, one after the other. -/
theorem dispatched_once_sample : ∃ s : Sys, s.dispatched.length = 2
    ∧ (s.dispatched.map Task.conn).count (some 0) ≤ 1 := by
  have h0 : server.Reach NoneWaiting (entered 3 1) := .init (init_entered 3 1)
  obtain ⟨s, hs, hlen⟩ := h0.exists_of_run (fun s => s.dispatched.length = 2)
    [.poll (some [true]), .accept (.fd 5 true), .skip, .peer_send 0 get_a.bytes,
      .poll (some [false, true]), .skip, .read (.data get_a), .start, .work 0,
      .poll (some [true, false]), .accept (.fd 5 true), .skip, .skip,
      .peer_send 1 get_b.bytes,
      .poll (some [false, true, true]), .skip, .read (.data get_b)]
    (by decide)
  exact ⟨s, hlen, dispatched_once hs 0⟩

/-- A client that sends more after its request, before a worker closes the
    connection, is dispatched again. -/
theorem dispatched_twice : ∃ s, server.Reachable s
    ∧ ¬ (s.dispatched.map Task.conn).count (some 0) ≤ 1 := by
  have h0 : server.Reachable (entered 3 1) := .init (init_entered 3 1)
  exact h0.exists_of_run (fun s => ¬ (s.dispatched.map Task.conn).count (some 0) ≤ 1)
    [.poll (some [true]), .accept (.fd 5 true), .skip, .peer_send 0 get_a.bytes,
      .poll (some [false, true]), .skip, .read (.data get_a), .peer_send 0 get_b.bytes,
      .poll (some [false, true]), .skip, .read (.data get_b)]
    (by decide)

end WebLib.EventLoop
