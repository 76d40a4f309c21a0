import WebLib.Steps

/-! # The poll vector and the client map agree

    `poll_fds` and `m_active_clients` are two containers over one set of
    numbers.  They agree when the client entries of the vector are distinct and
    each is the key of the map entry that the accept of the connection now open
    under it made.  `accept` and the abort branch of the loop keep this; a worker
    does not, since it closes the socket and leaves both containers as they
    are. -/

namespace WebLib.EventLoop

open WebLib ByteString ReadRequest UnorderedMap TransitionSystem

/-- `m_active_clients[k]` has the number `k` and was made by the accept of the
    connection that is open under `k`. -/
def Current (s : Sys) (k : Fd) : Prop :=
  ∃ cl c, s.m_active_clients.find k = some cl ∧ cl.fd = k
    ∧ s.born k = some c ∧ s.owner k = some c

structure Tracked (s : Sys) : Prop where
  nodup : s.fds.Nodup
  current : ∀ k ∈ s.fds, Current s k

/-- The steps that keep the containers in agreement: a worker finishes only a
    task whose number has left the vector, and a number that `accept` hands out
    has no entry in the map. -/
def Released (s : Sys) : Label → Prop
  | .work j => ∀ t ∈ s.running[j]?, t.client_socket ∉ s.fds
  | .accept (.fd n true) => n ∉ s.m_active_clients
  | _ => True

instance (s : Sys) : ∀ l, Decidable (Released s l)
  | .work j => inferInstanceAs (Decidable (∀ t ∈ s.running[j]?, t.client_socket ∉ s.fds))
  | .accept (.fd n true) => inferInstanceAs (Decidable (n ∉ s.m_active_clients))
  | .accept (.fd _ false) | .accept .error | .poll _ | .skip | .read _ | .start
  | .peer_send _ _ | .peer_close _ | .peer_reset _ => .isTrue trivial

/-- A polled number is open. -/
theorem Current.mem_files {s : Sys} {k : Fd} (h : Current s k) : k ∈ s.files := by
  obtain ⟨_, _, -, -, -, hown⟩ := h
  exact mem_files_of_owner hown

/-- An entry stays current as long as its map entry keeps the number, and the
    history and the owner of its key stay. -/
theorem Current.frame {s s' : Sys} {k : Fd} (h : Current s k)
    (hfind : ∀ cl, s.m_active_clients.find k = some cl → cl.fd = k →
      ∃ cl', s'.m_active_clients.find k = some cl' ∧ cl'.fd = k)
    (hborn : s'.born k = s.born k) (howner : s'.owner k = s.owner k) : Current s' k := by
  obtain ⟨cl, c, hcl, hfd, hb, ho⟩ := h
  obtain ⟨cl', hcl', hfd'⟩ := hfind cl hcl hfd
  exact ⟨cl', c, hcl', hfd', hborn.trans hb, howner.trans ho⟩

private theorem tracked_accept {s : Sys} {n : Fd} (h : Tracked s) (hn : n ∉ s.files)
    (hl : s.m_listen_socket ∈ s.files) (hnew : n ∉ s.m_active_clients) :
    Tracked (accept_client s n) := by
  have hne : n ≠ s.m_listen_socket := fun he => hn (he ▸ hl)
  -- polled numbers are open, so `accept` hands out another one
  have hfresh : ∀ k ∈ s.fds, k ≠ n := fun k hk he => hn (he ▸ (h.current k hk).mem_files)
  have hfds : (accept_client s n).fds = s.fds ++ [n] := fds_push s.toHttpServer hne
  constructor
  · rw [hfds]
    exact h.nodup.append (List.nodup_singleton n) (by simpa using hfresh n)
  · intro k hk
    rw [hfds] at hk
    rcases List.mem_append.mp hk with hold | hlast
    · have hkn := hfresh k hold
      refine (h.current k hold).frame ?_ ?_ ?_
      · intro cl hcl hfd
        refine ⟨cl, ?_, hfd⟩
        show (s.m_active_clients.emplace n _).find k = some cl
        rw [find_emplace, if_neg hkn, hcl]
      · show (if n ∈ s.m_active_clients then s.born else _) k = s.born k
        rw [if_neg hnew, Function.update_of_ne hkn]
      · show (s.toKernel.accept n).owner k = s.owner k
        rw [owner_accept, if_neg hkn]
    · obtain rfl := List.mem_singleton.mp hlast
      refine ⟨.accepted k, s.conns.length, ?_, rfl, ?_, ?_⟩
      · show (s.m_active_clients.emplace k _).find k = _
        rw [find_emplace, if_pos rfl, find_eq_none_iff.mpr hnew, Option.getD_none]
      · show (if k ∈ s.m_active_clients then s.born else _) k = _
        rw [if_neg hnew, Function.update_self]
      · show (s.toKernel.accept k).owner k = _
        rw [owner_accept, if_pos rfl]

private theorem tracked_visit {s s' : Sys} {k : Kernel} {cur : PollFd} {rd : ReadResult}
    {cl : Client} (h : Tracked s) (hcur : current s.toHttpServer = some cur)
    (hne : cur.fd ≠ s.m_listen_socket) (hfd : cl.fd = cur.fd)
    (howner : ∀ n, k.owner n = s.owner n) (hv : Visit s k cur.fd rd cl s') : Tracked s' := by
  have hassign : ∀ j, ∀ old, s.m_active_clients.find j = some old → old.fd = j →
      ∃ cl', (s.m_active_clients.assign cur.fd cl).find j = some cl' ∧ cl'.fd = j := by
    intro j old hold hj
    by_cases hjc : j = cur.fd
    · exact ⟨cl, by rw [find_assign, if_pos hjc], by rw [hfd, hjc]⟩
    · exact ⟨old, by rw [find_assign, if_neg hjc, hold], hj⟩
  cases hv with
  | throws | more | complete =>
      exact ⟨h.nodup, fun j hj => (h.current j hj).frame (hassign j) rfl (howner j)⟩
  | gone =>
      have hperm := fds_perm_erase hcur hne
      have hnodup := hperm.nodup_iff.mp h.nodup
      refine ⟨hnodup.of_cons, ?_⟩
      intro j hj
      -- the numbers are distinct, so the erasure touches no other entry
      have hjc : j ≠ cur.fd := fun he => (List.nodup_cons.mp hnodup).1 (he ▸ hj)
      refine (h.current j (hperm.mem_iff.mpr (List.mem_cons_of_mem _ hj))).frame ?_ ?_ (howner j)
      · intro old hold hjfd
        obtain ⟨cl', hcl', hfd'⟩ := hassign j old hold hjfd
        refine ⟨cl', ?_, hfd'⟩
        show find (AList.erase cl.fd _) j = some cl'
        rw [find_erase, if_neg (hfd ▸ hjc), hcl']
      · show Function.update s.born cl.fd none j = s.born j
        rw [Function.update_of_ne (hfd ▸ hjc)]

private theorem tracked_work {s : Sys} {j : Nat} {t : Task} (h : Tracked s)
    (ht : t.client_socket ∉ s.fds) : Tracked (run_task s j t) := by
  refine ⟨h.nodup, ?_⟩
  intro k hk
  have hkt : k ≠ t.client_socket := fun he => ht (he ▸ hk)
  refine (h.current k hk).frame ?_ rfl ?_
  · intro cl hcl hfd
    refine ⟨cl, ?_, hfd⟩
    show (s.m_active_clients.emplace t.client_socket _).find k = some cl
    rw [find_emplace, if_neg hkt, hcl]
  · show (s.toKernel.close t.client_socket).owner k = s.owner k
    rw [owner_close, if_neg hkt]

theorem tracked_step {s s' : Sys} {l : Label} (h : Tracked s) (hok : Released s l)
    (hs : Step s l s') : Tracked s' := by
  cases hs with
  | poll_error | skip | accept_error => exact ⟨h.nodup, h.current⟩
  | poll ready hlen =>
      have hfds := fds_poll s.toHttpServer hlen
      constructor
      · show (HttpServer.fds _).Nodup
        rw [hfds]
        exact h.nodup
      · intro k hk
        exact h.current k (hfds ▸ hk)
  | accept_flags n hn =>
      refine ⟨h.nodup, fun k hk => (h.current k hk).frame (fun cl hcl hfd => ⟨cl, hcl, hfd⟩) rfl ?_⟩
      have hkn : k ≠ n := fun he => hn (he ▸ (h.current k hk).mem_files)
      show (s.toKernel.accept n).owner k = s.owner k
      rw [owner_accept, if_neg hkn]
  | accept n hn hl => exact tracked_accept h hn hl hok
  | read cur rd k cl _ hcur hne hcl hk hv =>
      obtain ⟨old, _, hold, hfd, -, -⟩ := h.current cur.fd (mem_fds_of_current hcur hne)
      have hclfd : cl.fd = cur.fd := by
        rw [hcl, read_request_fd, subscript, hold, Option.getD_some, hfd]
      exact tracked_visit h hcur hne hclfd (read_effect hk).owner hv
  | start t rest _ => exact ⟨h.nodup, h.current⟩
  | work j t ht => exact tracked_work h (hok t ht)
  | peer => exact ⟨h.nodup, h.current⟩

/-- **THE CONTAINERS AGREE AS LONG AS NUMBERS ARE RELEASED FIRST**: in every run
    whose workers finish only tasks of numbers that left the vector, and whose
    accepts hand out numbers without an entry, the entries polled are distinct,
    current and open in every state. -/
theorem tracked {s : Sys} (h : server.Reach Released s) : Tracked s := by
  refine h.invariant ?_ fun s l s' hi hok hs => tracked_step hi hok (step_cases hs)
  intro s h0
  have hfds : s.fds = [] := by rw [fds_eq, h0.poll_fds]; simp
  constructor
  · rw [hfds]
    exact List.nodup_nil
  · intro k hk
    rw [hfds] at hk
    cases hk

/-- A client whose request is complete and which then breaks the connection,
    before its worker starts, leaves the vector in time. -/
theorem tracked_sample : ∃ s, s.fds = [6] ∧ s.handled.length = 1 ∧ Tracked s := by
  have h0 : server.Reach Released (entered 3 1) := .init (init_entered 3 1)
  obtain ⟨s, hs, hfds, hlen⟩ := h0.exists_of_run
    (fun s => s.fds = [6] ∧ s.handled.length = 1)
    [.poll (some [true]), .accept (.fd 5 true), .skip, .peer_send 0 get_a.bytes,
      .poll (some [false, true]), .skip, .read (.data get_a), .peer_reset 0,
      .poll (some [false, true]), .skip, .read .error, .start, .work 0,
      .poll (some [true]), .accept (.fd 6 true)]
    (by decide)
  exact ⟨s, hfds, hlen, tracked hs⟩

/-- After one request the number that the worker closed is still polled. -/
theorem closed_number_tracked : ∃ s, server.Reachable s
    ∧ (5 ∈ s.fds ∧ 5 ∉ s.files) ∧ ¬ Tracked s := by
  have h0 : server.Reachable (entered 3 1) := .init (init_entered 3 1)
  obtain ⟨s, hs, h⟩ := h0.exists_of_run (fun s => 5 ∈ s.fds ∧ 5 ∉ s.files)
    [.poll (some [true]), .accept (.fd 5 true), .skip, .peer_send 0 get_a.bytes,
      .poll (some [false, true]), .skip, .read (.data get_a), .start, .work 0]
    (by decide)
  exact ⟨s, hs, h, fun ht => h.2 (ht.current 5 h.1).mem_files⟩

end WebLib.EventLoop
