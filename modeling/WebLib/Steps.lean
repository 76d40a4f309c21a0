import WebLib.EventLoop

/-! # What a step can do

    `Step s l s'` lists the effects of one step, guards included, and
    `step_cases` says that `step` has no others.  The second half collects what
    the single system calls keep, and the two invariants of every run: a socket
    is open under the number it was accepted with, and every task that was ever
    enqueued is either still pending or has been handled. -/

namespace WebLib.EventLoop

open WebLib ByteString ReadRequest UnorderedMap

/-- The four outcomes of a visit that reads. -/
inductive Visit (s : Sys) (k : Kernel) (cur : Fd) (rd : ReadResult) (cl : Client) :
    Sys → Prop where
  | throws (f : Fault) :
      Visit s k cur rd cl { s with
        toKernel := k, m_active_clients := s.m_active_clients.assign cur cl, ended := true }
  | more :
      Visit s k cur rd cl { s with
        toKernel := k, m_active_clients := s.m_active_clients.assign cur cl, i := s.i + 1 }
  | complete (c : Chunk) : rd = .data c →
      Visit s k cur rd cl { s with
        toKernel := k
        m_active_clients := s.m_active_clients.assign cur cl
        m_tasks := s.m_tasks ++ [⟨cl.fd, s.owner cl.fd, cl.raw_http⟩]
        i := s.i + 1
        dispatched := s.dispatched ++ [⟨cl.fd, s.owner cl.fd, cl.raw_http⟩] }
  | gone : rd = .eof ∨ rd = .error →
      Visit s k cur rd cl { s with
        toKernel := k
        poll_fds := s.poll_fds.eraseIdx s.i
        m_active_clients := (s.m_active_clients.assign cur cl).erase cl.fd
        born := Function.update s.born cl.fd none }

/-- The effects of a step. -/
inductive Step (s : Sys) : Label → Sys → Prop where
  | poll_error : Step s (.poll none) { s with ended := true }
  | poll (ready : List Bool) : ready.length = s.poll_fds.length →
      Step s (.poll (some ready)) { s with poll_fds := set_revents s.poll_fds ready, i := 0 }
  | skip : Step s .skip { s with i := s.i + 1 }
  | accept_error : Step s (.accept .error) { s with i := s.i + 1 }
  | accept_flags (n : Fd) : n ∉ s.files →
      Step s (.accept (.fd n false)) { s with toKernel := s.toKernel.accept n, ended := true }
  | accept (n : Fd) : n ∉ s.files → s.m_listen_socket ∈ s.files →
      Step s (.accept (.fd n true)) (accept_client s n)
  | read (cur : PollFd) (rd : ReadResult) (k : Kernel) (cl : Client) (s' : Sys) :
      current s.toHttpServer = some cur → cur.fd ≠ s.m_listen_socket →
      cl = (read_request (subscript s.m_active_clients cur.fd) rd).1 →
      s.toKernel.read cl.fd rd = some k →
      Visit s k cur.fd rd cl s' → Step s (.read rd) s'
  | start (t : Task) (rest : List Task) : s.m_tasks = t :: rest →
      Step s .start { s with m_tasks := rest, running := s.running ++ [t] }
  | work (j : Nat) (t : Task) : s.running[j]? = some t → Step s (.work j) (run_task s j t)
  | peer (l : Label) (c : ConnId) (conn conn' : Conn) : s.conns[c]? = some conn →
      conn'.fd = conn.fd → conn'.received = conn.received →
      (l = .peer_close c ∨ l = .peer_reset c ∨ ∃ bytes, l = .peer_send c bytes) →
      Step s l { s with conns := s.conns.set c conn' }

private theorem visit_cases (s : Sys) (k : Kernel) (cur : Fd) (rd : ReadResult) (client : Client) :
    Visit s k cur rd (read_request client rd).1
      (visit_client s k cur (read_request client rd).1 (read_request client rd).2) := by
  simp only [visit_client]
  cases hr : (read_request client rd).2 with
  | error f => exact .throws f
  | ok st =>
      cases st with
      | READ_MORE => exact .more
      | END_OF_CONNECTION =>
          obtain ⟨c, hc⟩ := read_request_end hr
          exact .complete c hc
      | CONNECTION_ABORTED => exact .gone (read_request_closed (Or.inl hr))
      | CONNECTION_ERROR => exact .gone (read_request_closed (Or.inr hr))

private theorem peer_cases {s s' : Sys} {l : Label} {c : ConnId} {f : Conn → Conn}
    (hf : ∀ conn, (f conn).fd = conn.fd ∧ (f conn).received = conn.received)
    (hl : l = .peer_close c ∨ l = .peer_reset c ∨ ∃ bytes, l = .peer_send c bytes)
    (h : peer_step s c f = some s') : Step s l s' := by
  obtain ⟨conn, hconn, rfl⟩ := Option.map_eq_some_iff.mp h
  exact .peer l c conn (f conn) hconn (hf conn).1 (hf conn).2 hl

/-- **STEP INVERSION**: `step` has these effects and no others. -/
theorem step_cases {s s' : Sys} {l : Label} (h : step s l = some s') : Step s l s' := by
  cases l with
  | poll ready =>
      simp only [step] at h
      split at h
      · cases h
      · cases ready with
        | none => exact Option.some.inj h ▸ .poll_error
        | some ready =>
            simp only at h
            split at h
            · rename_i hg
              exact Option.some.inj h ▸ .poll ready hg.1
            · cases h
  | skip =>
      obtain ⟨cur, -, h⟩ := Option.bind_eq_some_iff.mp h
      split at h
      · cases h
      · exact Option.some.inj h ▸ .skip
  | accept r =>
      obtain ⟨cur, -, h⟩ := Option.bind_eq_some_iff.mp h
      split at h
      · cases r with
        | error => exact Option.some.inj h ▸ .accept_error
        | fd n nonblocking =>
            simp only at h
            split at h
            · cases h
            · rename_i hn
              cases nonblocking with
              | false => exact Option.some.inj h ▸ .accept_flags n fun hm => hn (Or.inl hm)
              | true =>
                  refine Option.some.inj h ▸ .accept n (fun hm => hn (Or.inl hm)) ?_
                  by_contra hl
                  exact hn (Or.inr hl)
      · cases h
  | read rd =>
      obtain ⟨cur, hcur, h⟩ := Option.bind_eq_some_iff.mp h
      split at h
      · rename_i hg
        obtain ⟨k, hk, rfl⟩ := Option.map_eq_some_iff.mp h
        -- the number read from is `client.fd`, which the call keeps
        refine .read cur rd k _ _ hcur hg.2 rfl ?_ (visit_cases s k cur.fd rd _)
        rw [read_request_fd]
        exact hk
      · cases h
  | start =>
      simp only [step] at h
      cases ht : s.m_tasks with
      | nil => rw [ht] at h; cases h
      | cons t rest =>
          rw [ht] at h
          simp only at h
          split at h
          · exact Option.some.inj h ▸ .start t rest ht
          · cases h
  | work j =>
      obtain ⟨t, ht, rfl⟩ := Option.map_eq_some_iff.mp h
      exact .work j t ht
  | peer_send c bytes =>
      exact peer_cases (by intro _; exact ⟨rfl, rfl⟩) (Or.inr (Or.inr ⟨bytes, rfl⟩)) h
  | peer_close c => exact peer_cases (by intro _; exact ⟨rfl, rfl⟩) (Or.inl rfl) h
  | peer_reset c => exact peer_cases (by intro _; exact ⟨rfl, rfl⟩) (Or.inr (Or.inl rfl)) h

/-! ## The kernel -/

theorem owner_accept (k : Kernel) (n fd : Fd) :
    (k.accept n).owner fd = if fd = n then some k.conns.length else k.owner fd := by
  simp only [Kernel.owner, Kernel.accept]
  simp only [find_assign]
  by_cases h : fd = n
  · rw [if_pos h, if_pos h]
  · rw [if_neg h, if_neg h]

theorem owner_close (k : Kernel) (n fd : Fd) :
    (k.close n).owner fd = if fd = n then none else k.owner fd := by
  simp only [Kernel.owner, Kernel.close]
  simp only [find_erase]
  by_cases h : fd = n
  · rw [if_pos h, if_pos h]
  · rw [if_neg h, if_neg h]

theorem find_of_owner {k : Kernel} {fd : Fd} {c : ConnId} (h : k.owner fd = some c) :
    k.files.find fd = some (.sock c) := by
  rw [Kernel.owner] at h
  split at h
  · rename_i hf
    rw [hf, Option.some.inj h]
  · cases h

theorem owner_of_find {k : Kernel} {fd : Fd} {c : ConnId}
    (h : k.files.find fd = some (.sock c)) : k.owner fd = some c := by
  rw [Kernel.owner, h]

theorem mem_files_of_owner {k : Kernel} {fd : Fd} {c : ConnId}
    (h : k.owner fd = some c) : fd ∈ k.files := mem_iff_find.mpr ⟨_, find_of_owner h⟩

theorem accepted_as_accept (k : Kernel) (n : Fd) (c : ConnId) :
    (k.accept n).accepted_as c = if c = k.conns.length then some n else k.accepted_as c := by
  simp only [Kernel.accepted_as, Kernel.accept]
  rw [List.getElem?_append]
  by_cases hc : c = k.conns.length
  · simp [hc]
  · by_cases hlt : c < k.conns.length
    · rw [if_pos hlt, if_neg hc]
    · have hle : k.conns.length ≤ c := Nat.le_of_not_lt hlt
      have h0 : k.conns[c]? = none := List.getElem?_eq_none hle
      have h1 : ([⟨n, [], [], false, false⟩] : List Conn)[c - k.conns.length]? = none :=
        List.getElem?_eq_none (Nat.sub_pos_of_lt (lt_of_le_of_ne hle (Ne.symm hc)))
      rw [if_neg hlt, if_neg hc, h0, h1]

theorem received_accept (k : Kernel) (n : Fd) (c : ConnId) :
    (k.accept n).received c = k.received c := by
  simp only [Kernel.received, Kernel.accept]
  rw [List.getElem?_append]
  by_cases hlt : c < k.conns.length
  · rw [if_pos hlt]
  · have h0 : k.conns[c]? = none := List.getElem?_eq_none (Nat.le_of_not_lt hlt)
    rw [if_neg hlt, h0]
    cases c - k.conns.length <;> rfl

theorem lt_of_accepted_as {k : Kernel} {c : ConnId} {fd : Fd}
    (h : k.accepted_as c = some fd) : c < k.conns.length := by
  by_contra hlt
  rw [Kernel.accepted_as, List.getElem?_eq_none (Nat.le_of_not_lt hlt)] at h
  cases h

theorem received_of_length {k : Kernel} : k.received k.conns.length = [] := by
  rw [Kernel.received, List.getElem?_eq_none (Nat.le_refl _)]
  rfl

private theorem conn_read_spec {conn conn' : Conn} {rd : ReadResult}
    (h : conn.read rd = some conn') :
    conn'.fd = conn.fd ∧ conn'.received = conn.received ++ rd.bytes := by
  cases rd with
  | data c =>
      simp only [Conn.read] at h
      split at h
      · exact Option.some.inj h ▸ ⟨rfl, rfl⟩
      · cases h
  | eof =>
      simp only [Conn.read] at h
      split at h
      · exact Option.some.inj h ▸ ⟨rfl, (List.append_nil _).symm⟩
      · cases h
  | would_block =>
      simp only [Conn.read] at h
      split at h
      · exact Option.some.inj h ▸ ⟨rfl, (List.append_nil _).symm⟩
      · cases h
  | error =>
      simp only [Conn.read] at h
      split at h
      · exact Option.some.inj h ▸ ⟨rfl, (List.append_nil _).symm⟩
      · cases h

/-- Replacing a connection by one with the same number. -/
theorem accepted_as_set {k : Kernel} {c : ConnId} {conn conn' : Conn}
    (hc : k.conns[c]? = some conn) (hfd : conn'.fd = conn.fd) (d : ConnId) :
    Kernel.accepted_as { k with conns := k.conns.set c conn' } d = k.accepted_as d := by
  simp only [Kernel.accepted_as]
  obtain ⟨hlt, rfl⟩ := List.getElem?_eq_some_iff.mp hc
  by_cases hd : c = d
  · subst hd
    simp [hlt, hfd]
  · rw [List.getElem?_set_ne hd]

theorem received_set {k : Kernel} {c : ConnId} {conn conn' : Conn} {bs : Str}
    (hc : k.conns[c]? = some conn) (hr : conn'.received = conn.received ++ bs) (d : ConnId) :
    Kernel.received { k with conns := k.conns.set c conn' } d
      = k.received d ++ if d = c then bs else [] := by
  simp only [Kernel.received]
  obtain ⟨hlt, rfl⟩ := List.getElem?_eq_some_iff.mp hc
  by_cases hd : d = c
  · subst hd
    simp [hlt, hr]
  · rw [List.getElem?_set_ne (Ne.symm hd), if_neg hd, List.append_nil]

/-- What a peer does leaves the bytes that were read. -/
theorem received_set_same {k : Kernel} {c : ConnId} {conn conn' : Conn}
    (hc : k.conns[c]? = some conn) (hr : conn'.received = conn.received) (d : ConnId) :
    Kernel.received { k with conns := k.conns.set c conn' } d = k.received d := by
  have hnil : conn'.received = conn.received ++ [] := by rw [hr, List.append_nil]
  rw [received_set hc hnil, ite_self, List.append_nil]

/-- **WHAT `read` DOES TO THE KERNEL**: the connection under the number, if it
    is one, has been read; the descriptor table stays. -/
structure ReadEffect (k : Kernel) (fd : Fd) (rd : ReadResult) (k' : Kernel) : Prop where
  files : k'.files = k.files
  length : k'.conns.length = k.conns.length
  accepted_as : ∀ c, k'.accepted_as c = k.accepted_as c
  received : ∀ c, k'.received c
    = k.received c ++ if k.owner fd = some c then rd.bytes else []
  closed : fd ∉ k.files → rd = .error

theorem read_effect {k k' : Kernel} {fd : Fd} {rd : ReadResult}
    (h : k.read fd rd = some k') : ReadEffect k fd rd k' := by
  rw [Kernel.read] at h
  cases hf : k.files.find fd with
  | none =>
      rw [hf] at h
      simp only at h
      split at h
      · rename_i hrd
        obtain rfl := Option.some.inj h
        exact ⟨rfl, rfl, fun _ => rfl, fun c => by simp [Kernel.owner, hf], fun _ => hrd⟩
      · cases h
  | some f =>
      have hmem : fd ∈ k.files := mem_iff_find.mpr ⟨f, hf⟩
      rw [hf] at h
      cases f with
      | other =>
          obtain rfl := Option.some.inj h
          exact ⟨rfl, rfl, fun _ => rfl, fun c => by simp [Kernel.owner, hf],
            fun hn => absurd hmem hn⟩
      | sock c =>
          simp only at h
          cases hc : k.conns[c]? with
          | none => rw [hc] at h; cases h
          | some conn =>
              rw [hc] at h
              obtain ⟨conn', hr, rfl⟩ := Option.map_eq_some_iff.mp h
              obtain ⟨hfd, hrec⟩ := conn_read_spec hr
              refine ⟨rfl, by simp, accepted_as_set hc hfd, ?_, fun hn => absurd hmem hn⟩
              intro d
              rw [received_set hc hrec]
              have howner : k.owner fd = some c := by simp [Kernel.owner, hf]
              rw [howner]
              by_cases hd : d = c
              · rw [if_pos hd, if_pos (by rw [hd])]
              · rw [if_neg hd, if_neg (fun he => hd (Option.some.inj he).symm)]

/-- **WHAT A STEP DOES TO THE KERNEL**: it leaves the descriptor table alone, or
    `accept` opens a number that was closed, or `close` closes one. -/
inductive KernelStep (k k' : Kernel) : Prop where
  | quiet (files : k'.files = k.files) (length : k'.conns.length = k.conns.length)
      (accepted_as : ∀ c, k'.accepted_as c = k.accepted_as c)
      (received : ∀ c, k.received c <+: k'.received c)
  | accept (n : Fd) (closed : n ∉ k.files) (eq : k' = k.accept n)
  | close (fd : Fd) (eq : k' = k.close fd)

theorem KernelStep.refl (k : Kernel) : KernelStep k k :=
  .quiet rfl rfl (fun _ => rfl) (fun _ => List.prefix_refl _)

theorem ReadEffect.kernel {k k' : Kernel} {fd : Fd} {rd : ReadResult}
    (h : ReadEffect k fd rd k') : KernelStep k k' := by
  refine .quiet h.files h.length h.accepted_as ?_
  intro c
  rw [h.received c]
  exact List.prefix_append _ _

theorem Visit.kernel {s s' : Sys} {k : Kernel} {cur : Fd} {rd : ReadResult} {cl : Client}
    (h : Visit s k cur rd cl s') : s'.toKernel = k := by
  cases h <;> rfl

theorem Step.kernel {s s' : Sys} {l : Label} (h : Step s l s') :
    KernelStep s.toKernel s'.toKernel := by
  cases h with
  | poll_error => exact .refl _
  | poll => exact .refl _
  | skip => exact .refl _
  | accept_error => exact .refl _
  | accept_flags n hn => exact .accept n hn rfl
  | accept n hn _ => exact .accept n hn rfl
  | read cur rd k cl _ _ _ _ hk hv =>
      rw [hv.kernel]
      exact (read_effect hk).kernel
  | start => exact .refl _
  | work j t _ => exact .close t.client_socket rfl
  | peer _ c conn conn' hc hfd hr _ =>
      refine .quiet rfl (by simp) (accepted_as_set hc hfd) ?_
      intro d
      rw [received_set_same hc hr]

/-- What was read from a connection stays read. -/
theorem KernelStep.received_prefix {k k' : Kernel} (h : KernelStep k k') (c : ConnId) :
    k.received c <+: k'.received c := by
  cases h with
  | quiet _ _ _ hr => exact hr c
  | accept n _ he =>
      rw [he, received_accept]
  | close fd he =>
      rw [he]
      exact List.prefix_refl _

/-- A connection keeps the number it was accepted with. -/
theorem KernelStep.accepted_as_of {k k' : Kernel} (h : KernelStep k k') {c : ConnId}
    {fd : Fd} (hc : k.accepted_as c = some fd) : k'.accepted_as c = some fd := by
  cases h with
  | quiet _ _ ha _ => rw [ha c, hc]
  | accept n _ he =>
      have hne : c ≠ k.conns.length := Nat.ne_of_lt (lt_of_accepted_as hc)
      rw [he, accepted_as_accept, if_neg hne, hc]
  | close n he =>
      rw [he]
      exact hc

/-- A socket that is open after a step was open under this number before, or is
    the new connection. -/
theorem KernelStep.owner_of {k k' : Kernel} (h : KernelStep k k') {fd : Fd} {c : ConnId}
    (hc : k'.owner fd = some c) :
    k.owner fd = some c ∨ (c = k.conns.length ∧ k' = k.accept fd ∧ fd ∉ k.files) := by
  cases h with
  | quiet hf _ _ _ =>
      refine Or.inl ?_
      rw [Kernel.owner] at hc ⊢
      rw [← hf]
      exact hc
  | accept n hn he =>
      rw [he, owner_accept] at hc
      by_cases h : fd = n
      · rw [if_pos h] at hc
        exact Or.inr ⟨(Option.some.inj hc).symm, h ▸ he, h ▸ hn⟩
      · rw [if_neg h] at hc
        exact Or.inl hc
  | close n he =>
      rw [he, owner_close] at hc
      by_cases h : fd = n
      · rw [if_pos h] at hc
        cases hc
      · rw [if_neg h] at hc
        exact Or.inl hc

theorem ReadEffect.owner {k k' : Kernel} {fd : Fd} {rd : ReadResult}
    (h : ReadEffect k fd rd k') (n : Fd) : k'.owner n = k.owner n := by
  simp only [Kernel.owner]
  rw [h.files]

/-! ## The poll vector and the tasks -/

theorem map_fd_set_revents {poll_fds : List PollFd} {ready : List Bool}
    (h : ready.length = poll_fds.length) :
    (set_revents poll_fds ready).map PollFd.fd = poll_fds.map PollFd.fd := by
  rw [set_revents, List.map_zipWith]
  induction poll_fds generalizing ready with
  | nil => simp
  | cons p ps ih =>
      cases ready with
      | nil => simp at h
      | cons b bs =>
          rw [List.zipWith_cons_cons, List.map_cons, ih (by simpa using h)]

/-- The client numbers, read off the numbers of all entries. -/
theorem fds_eq (s : HttpServer) :
    s.fds = (s.poll_fds.map PollFd.fd).filter fun fd => fd ≠ s.m_listen_socket := by
  rw [HttpServer.fds, List.filter_map]
  rfl

/-- `poll` changes the results only. -/
theorem fds_poll (s : HttpServer) {ready : List Bool} (h : ready.length = s.poll_fds.length) :
    HttpServer.fds { s with poll_fds := set_revents s.poll_fds ready, i := 0 } = s.fds := by
  rw [fds_eq, fds_eq, map_fd_set_revents h]

theorem fds_push (s : HttpServer) {n : Fd} (h : n ≠ s.m_listen_socket) :
    (push_client s n).fds = s.fds ++ [n] := by
  rw [HttpServer.fds, push_client]
  rw [List.filter_append, List.filter_cons_of_pos (by simpa using h), List.map_append]
  rfl

/-- The visited entry is a client, and its number is the first to go when the
    entry is erased. -/
theorem fds_perm_erase {s : HttpServer} {cur : PollFd} (h : current s = some cur)
    (hl : cur.fd ≠ s.m_listen_socket) :
    s.fds.Perm (cur.fd :: HttpServer.fds { s with poll_fds := s.poll_fds.eraseIdx s.i }) := by
  rw [current] at h
  split at h
  · cases h
  · obtain ⟨hlt, hget⟩ := List.getElem?_eq_some_iff.mp h
    -- the erased entry is the visited one, and it passes the filter
    have hperm : s.poll_fds.Perm (cur :: s.poll_fds.eraseIdx s.i) := by
      rw [← hget]
      exact (List.getElem_cons_eraseIdx_perm hlt).symm
    have := (hperm.filter fun p => p.fd ≠ s.m_listen_socket).map PollFd.fd
    rw [List.filter_cons_of_pos (by simpa using hl)] at this
    exact this

theorem mem_fds_of_current {s : HttpServer} {cur : PollFd} (h : current s = some cur)
    (hl : cur.fd ≠ s.m_listen_socket) : cur.fd ∈ s.fds :=
  (fds_perm_erase h hl).mem_iff.mpr List.mem_cons_self

/-- A taken task is one of the pending ones, and only it leaves. -/
theorem pending_perm_work {s : HttpServer} {j : Nat} {t : Task}
    (h : s.running[j]? = some t) :
    s.pending.Perm (t :: HttpServer.pending { s with running := s.running.eraseIdx j }) := by
  obtain ⟨hlt, rfl⟩ := List.getElem?_eq_some_iff.mp h
  simp only [HttpServer.pending]
  rw [← List.cons_append]
  exact (List.getElem_cons_eraseIdx_perm hlt).symm.append_right _

theorem pending_start {s : HttpServer} {t : Task} {rest : List Task}
    (h : s.m_tasks = t :: rest) :
    HttpServer.pending { s with m_tasks := rest, running := s.running ++ [t] } = s.pending := by
  simp only [HttpServer.pending]
  simp [h]

/-! ## Invariants of every run -/

/-- Sockets are open under the number they were accepted with. -/
def SockInv (k : Kernel) : Prop := ∀ fd c, k.owner fd = some c → k.accepted_as c = some fd

theorem SockInv.step {k k' : Kernel} (h : SockInv k) (hk : KernelStep k k') : SockInv k' := by
  intro fd c hc
  rcases hk.owner_of hc with hold | ⟨rfl, hacc, -⟩
  · exact hk.accepted_as_of (h fd c hold)
  · rw [hacc, accepted_as_accept, if_pos rfl]

theorem owner_init {s : Sys} (h : Init s) (fd : Fd) : s.owner fd = none := by
  rw [Kernel.owner]
  cases hf : s.files.find fd with
  | none => rfl
  | some f => rw [h.files fd f hf]

/-- **ONE NUMBER PER SOCKET**: in every run, the open socket of a connection is
    found under the number `accept` gave it and under no other. -/
theorem sockInv {ok : Sys → Label → Prop} {s : Sys} (h : server.Reach ok s) :
    SockInv s.toKernel := by
  refine h.invariant (I := fun s => SockInv s.toKernel) ?_ ?_
  · intro s h0 fd c hc
    rw [owner_init h0] at hc
    cases hc
  · intro s l s' hi _ hs
    exact hi.step (step_cases hs).kernel

theorem SockInv.fd_unique {k : Kernel} (h : SockInv k) {fd fd' : Fd} {c : ConnId}
    (hc : k.owner fd = some c) (hc' : k.owner fd' = some c) : fd = fd' :=
  Option.some.inj ((h fd c hc).symm.trans (h fd' c hc'))

/-- What a step does to the tasks and the history of dispatches: nothing, or it
    enqueues one, or it handles one. -/
inductive TaskStep (s s' : Sys) : Prop where
  | quiet (pending : s'.pending = s.pending) (dispatched : s'.dispatched = s.dispatched)
      (handled : s'.handled = s.handled)
  | enqueue (t : Task) (pending : s'.pending = s.pending ++ [t])
      (dispatched : s'.dispatched = s.dispatched ++ [t]) (handled : s'.handled = s.handled)
  | handle (h : Handled) (pending : s.pending.Perm (h.task :: s'.pending))
      (dispatched : s'.dispatched = s.dispatched) (handled : s'.handled = s.handled ++ [h])

theorem Step.tasks {s s' : Sys} {l : Label} (h : Step s l s') : TaskStep s s' := by
  cases h with
  | poll_error => exact .quiet rfl rfl rfl
  | poll => exact .quiet rfl rfl rfl
  | skip => exact .quiet rfl rfl rfl
  | accept_error => exact .quiet rfl rfl rfl
  | accept_flags => exact .quiet rfl rfl rfl
  | accept => exact .quiet rfl rfl rfl
  | read cur rd k cl _ _ _ _ _ hv =>
      cases hv with
      | throws => exact .quiet rfl rfl rfl
      | more => exact .quiet rfl rfl rfl
      | complete => exact .enqueue _ (List.append_assoc _ _ _).symm rfl rfl
      | gone => exact .quiet rfl rfl rfl
  | start t rest ht => exact .quiet (pending_start ht) rfl rfl
  | work j t ht => exact .handle _ (pending_perm_work ht) rfl rfl
  | peer => exact .quiet rfl rfl rfl

/-- **CONSERVATION OF TASKS**: in every run, the tasks enqueued so far are the
    handled ones and the pending ones, each as often as it was enqueued. -/
theorem dispatched_perm {ok : Sys → Label → Prop} {s : Sys} (h : server.Reach ok s) :
    s.dispatched.Perm (s.handled.map Handled.task ++ s.pending) := by
  refine h.invariant (I := fun s =>
    s.dispatched.Perm (s.handled.map Handled.task ++ s.pending)) ?_ ?_
  · intro s h0
    rw [h0.dispatched, h0.handled, h0.tasks]
    exact List.Perm.refl _
  · intro s l s' hi _ hs
    cases (step_cases hs).tasks with
    | quiet hp hd hh => rw [hp, hd, hh]; exact hi
    | enqueue t hp hd hh =>
        rw [hp, hd, hh, ← List.append_assoc]
        exact hi.append_right _
    | handle h hp hd hh =>
        rw [hd, hh, List.map_append, List.append_assoc]
        exact hi.trans (hp.append_left _)

end WebLib.EventLoop
