import WebLib.Steps

/-! # A connection is answered for its own bytes

    The buffer of a polled number mirrors one connection: it holds exactly what
    was read from it, and no other socket is open under the number.  The
    mirror survives every step but one.  `accept` may hand out a number that
    still has an entry, `emplace` then keeps the old buffer, and the bytes of
    the earlier connection are answered to the new one. -/

namespace WebLib.EventLoop

open WebLib ByteString ReadRequest UnorderedMap TransitionSystem

/-- The bytes `process_request` was called with for a connection were read from
    this connection, in this order. -/
def Isolated (s : Sys) : Prop :=
  ∀ h ∈ s.handled, ∀ sock raw c, h.call = some (sock, raw) → h.answered = some c →
    raw <+: s.received c

/-- The steps that keep the buffers apart: `accept` hands out a number that has
    no entry in the client map. -/
def NumberFree (s : Sys) : Label → Prop
  | .accept (.fd n _) => n ∉ s.m_active_clients
  | _ => True

instance (s : Sys) : ∀ l, Decidable (NumberFree s l)
  | .accept (.fd n _) => inferInstanceAs (Decidable (n ∉ s.m_active_clients))
  | .accept .error | .poll _ | .skip | .read _ | .start | .work _
  | .peer_send _ _ | .peer_close _ | .peer_reset _ => .isTrue trivial

/-- The entry of a number is the buffer of connection `c`, and nothing but the
    socket of `c` is open under the number. -/
structure Mirror (m : UnorderedMap Fd Client) (k : Kernel) (fd : Fd) (cl : Client)
    (c : ConnId) : Prop where
  entry : m.find fd = some cl
  fd_eq : cl.fd = fd
  raw_http : cl.raw_http = k.received c
  accepted_as : k.accepted_as c = some fd
  file : ∀ f, k.files.find fd = some f → f = .sock c

/-- Every polled number has a mirror, and the other entries hold no bytes. -/
structure Mirrored (fds : List Fd) (m : UnorderedMap Fd Client) (k : Kernel) : Prop where
  nodup : fds.Nodup
  mirror : ∀ fd ∈ fds, ∃ cl c, Mirror m k fd cl c
  rest : ∀ fd cl, m.find fd = some cl → fd ∈ fds ∨ cl.raw_http = []

variable {fds : List Fd} {m m' : UnorderedMap Fd Client} {k k' : Kernel}

theorem Mirror.frame {fd : Fd} {cl : Client} {c : ConnId} (h : Mirror m k fd cl c)
    (hentry : m'.find fd = m.find fd) (haccepted : k'.accepted_as c = k.accepted_as c)
    (hreceived : k'.received c = k.received c)
    (hfile : ∀ f, k'.files.find fd = some f → k.files.find fd = some f) :
    Mirror m' k' fd cl c where
  entry := hentry.trans h.entry
  fd_eq := h.fd_eq
  raw_http := h.raw_http.trans hreceived.symm
  accepted_as := haccepted.trans h.accepted_as
  file := fun f hf => h.file f (hfile f hf)

theorem Mirror.owner {fd : Fd} {cl : Client} {c d : ConnId} (h : Mirror m k fd cl c)
    (hd : k.owner fd = some d) : d = c := by
  have hf := h.file _ (find_of_owner hd)
  cases hf
  rfl

/-- Two polled numbers mirror different connections. -/
theorem Mirror.fd_unique {fd fd' : Fd} {cl cl' : Client} {c : ConnId}
    (h : Mirror m k fd cl c) (h' : Mirror m k fd' cl' c) : fd = fd' :=
  Option.some.inj (h.accepted_as.symm.trans h'.accepted_as)

/-- A polled number has an entry. -/
theorem Mirrored.mem (h : Mirrored fds m k) {fd : Fd} (hfd : fd ∈ fds) : fd ∈ m := by
  obtain ⟨cl, c, hm⟩ := h.mirror fd hfd
  exact mem_iff_find.mpr ⟨cl, hm.entry⟩

/-- A new socket under a number without an entry touches no mirror. -/
theorem Mirrored.open_socket (h : Mirrored fds m k) {n : Fd} (hn : n ∉ m) :
    Mirrored fds m (k.accept n) := by
  refine ⟨h.nodup, ?_, h.rest⟩
  intro fd hfd
  obtain ⟨cl, c, hm⟩ := h.mirror fd hfd
  have hne : fd ≠ n := fun he => hn (he ▸ h.mem hfd)
  have hc : c ≠ k.conns.length := Nat.ne_of_lt (lt_of_accepted_as hm.accepted_as)
  refine ⟨cl, c, hm.frame rfl ?_ (received_accept k n c) ?_⟩
  · rw [accepted_as_accept, if_neg hc]
  · intro f hf
    have hassign : (k.files.assign n (.sock k.conns.length)).find fd = some f := hf
    rwa [find_assign, if_neg hne] at hassign

theorem Mirrored.accept (h : Mirrored fds m k) {n : Fd} (hn : n ∉ m) :
    Mirrored (fds ++ [n]) (m.emplace n (.accepted n)) (k.accept n) := by
  have hopen := h.open_socket hn
  have hnew : n ∉ fds := fun hmem => hn (h.mem hmem)
  refine ⟨?_, ?_, ?_⟩
  · exact h.nodup.append (List.nodup_singleton n) (by simpa using hnew)
  · intro fd hfd
    rcases List.mem_append.mp hfd with hold | hlast
    · obtain ⟨cl, c, hm⟩ := hopen.mirror fd hold
      have hne : fd ≠ n := fun he => hnew (he ▸ hold)
      exact ⟨cl, c, hm.frame (by rw [find_emplace, if_neg hne]) rfl rfl fun _ hf => hf⟩
    · obtain rfl := List.mem_singleton.mp hlast
      refine ⟨.accepted fd, k.conns.length, ?_, rfl, ?_, ?_, ?_⟩
      · rw [find_emplace, if_pos rfl, find_eq_none_iff.mpr hn, Option.getD_none]
      · rw [received_accept, received_of_length]
        rfl
      · rw [accepted_as_accept, if_pos rfl]
      · intro f hf
        have hassign : (k.files.assign fd (.sock k.conns.length)).find fd = some f := hf
        rw [find_assign, if_pos rfl] at hassign
        exact (Option.some.inj hassign).symm
  · intro fd cl hcl
    rw [find_emplace] at hcl
    by_cases hne : fd = n
    · exact Or.inl (List.mem_append.mpr (Or.inr (List.mem_singleton.mpr hne)))
    · rw [if_neg hne] at hcl
      exact (h.rest fd cl hcl).imp_left (List.mem_append.mpr ∘ Or.inl)

/-- A read of a polled number extends its buffer and its connection by the same
    bytes, and no other connection. -/
theorem Mirrored.read (h : Mirrored fds m k) {cur : Fd} {rd : ReadResult} {cl : Client}
    (hcur : cur ∈ fds) (hcl : cl = (read_request (subscript m cur) rd).1)
    (hk : ReadEffect k cl.fd rd k') :
    cl.fd = cur ∧ Mirrored fds (m.assign cur cl) k' := by
  obtain ⟨old, c, hm⟩ := h.mirror cur hcur
  have hsub : subscript m cur = old := by rw [subscript, hm.entry, Option.getD_some]
  have hfd : cl.fd = cur := by rw [hcl, read_request_fd, hsub, hm.fd_eq]
  have hraw : cl.raw_http = k.received c ++ rd.bytes := by
    rw [hcl, read_request_raw, hsub, hm.raw_http]
  rw [hfd] at hk
  have hreceived : k'.received c = k.received c ++ rd.bytes := by
    rw [hk.received c]
    -- a closed number delivers no bytes, an open one those of its mirror
    cases hf : k.files.find cur with
    | none =>
        have hnone : rd.bytes = [] := by
          rw [hk.closed (find_eq_none_iff.mp hf)]
          rfl
        rw [hnone, ite_self]
    | some f =>
        rw [hm.file f hf] at hf
        rw [if_pos (owner_of_find hf)]
  refine ⟨hfd, h.nodup, ?_, ?_⟩
  · intro fd hmem
    by_cases hne : fd = cur
    · subst hne
      refine ⟨cl, c, by rw [find_assign, if_pos rfl], hfd, hraw.trans hreceived.symm, ?_, ?_⟩
      · rw [hk.accepted_as, hm.accepted_as]
      · intro f hf
        rw [hk.files] at hf
        exact hm.file f hf
    · obtain ⟨cl', c', hm'⟩ := h.mirror fd hmem
      have hother : k.owner cur ≠ some c' := by
        intro ho
        obtain rfl := hm.owner ho
        exact hne (hm'.fd_unique hm)
      refine ⟨cl', c', hm'.frame (by rw [find_assign, if_neg hne]) (hk.accepted_as c') ?_ ?_⟩
      · rw [hk.received c', if_neg hother, List.append_nil]
      · intro f hf
        rwa [hk.files] at hf
  · intro fd x hx
    rw [find_assign] at hx
    by_cases hne : fd = cur
    · exact Or.inl (hne ▸ hcur)
    · rw [if_neg hne] at hx
      exact h.rest fd x hx

/-- The entry and its number leave together. -/
theorem Mirrored.erase {fds' : List Fd} {cur : Fd} (h : Mirrored fds m k)
    (hperm : fds.Perm (cur :: fds')) : Mirrored fds' (AList.erase cur m) k := by
  have hnodup := hperm.nodup_iff.mp h.nodup
  refine ⟨hnodup.of_cons, ?_, ?_⟩
  · intro fd hfd
    have hne : fd ≠ cur := fun he => (List.nodup_cons.mp hnodup).1 (he ▸ hfd)
    obtain ⟨cl, c, hm⟩ := h.mirror fd (hperm.mem_iff.mpr (List.mem_cons_of_mem _ hfd))
    exact ⟨cl, c, hm.frame (by rw [find_erase, if_neg hne]) rfl rfl fun _ hf => hf⟩
  · intro fd cl hcl
    rw [find_erase] at hcl
    by_cases hne : fd = cur
    · rw [if_pos hne] at hcl
      cases hcl
    · rw [if_neg hne] at hcl
      rcases h.rest fd cl hcl with hmem | hempty
      · exact Or.inl ((List.mem_cons.mp (hperm.mem_iff.mp hmem)).resolve_left hne)
      · exact Or.inr hempty

/-- A worker leaves every buffer as it is; the number it closes keeps its entry. -/
theorem Mirrored.work (h : Mirrored fds m k) (n : Fd) :
    Mirrored fds (m.emplace n {}) (k.close n) := by
  refine ⟨h.nodup, ?_, ?_⟩
  · intro fd hfd
    obtain ⟨cl, c, hm⟩ := h.mirror fd hfd
    refine ⟨cl, c, hm.frame ?_ rfl rfl ?_⟩
    · rw [find_emplace]
      by_cases hne : fd = n
      · rw [if_pos hne, ← hne, hm.entry, Option.getD_some]
      · rw [if_neg hne]
    · intro f hf
      have herase : find (AList.erase n k.files) fd = some f := hf
      rw [find_erase] at herase
      by_cases hne : fd = n
      · rw [if_pos hne] at herase
        cases herase
      · rwa [if_neg hne] at herase
  · intro fd cl hcl
    rw [find_emplace] at hcl
    by_cases hne : fd = n
    · rw [if_pos hne] at hcl
      -- `operator[]` makes an entry without bytes, or finds one
      cases hold : m.find n with
      | none =>
          rw [hold] at hcl
          exact Or.inr (Option.some.inj hcl ▸ rfl)
      | some old =>
          rw [hold] at hcl
          rw [hne]
          exact h.rest n cl (hold.trans hcl)
    · rw [if_neg hne] at hcl
      exact h.rest fd cl hcl

/-- What a worker passes on is the buffer of the connection it answers. -/
theorem Mirrored.call (h : Mirrored fds m k) {n sock : Fd} {raw : Str} {c : ConnId}
    (hcall : (handle_incoming_request m n).2 = some (sock, raw))
    (hc : k.owner sock = some c) : raw = k.received c := by
  rw [handle_incoming_request, subscript] at hcall
  simp only at hcall
  cases hcl : m.find n with
  | none =>
      rw [hcl, if_pos (by rfl)] at hcall
      cases hcall
  | some cl =>
      rw [hcl, Option.getD_some] at hcall
      split at hcall
      · cases hcall
      · rename_i hraw
        have hpair := Prod.mk.inj (Option.some.inj hcall)
        obtain ⟨cl', c', hm⟩ := h.mirror n ((h.rest n cl hcl).resolve_right hraw)
        obtain rfl := Option.some.inj (hcl.symm.trans hm.entry)
        rw [← hpair.1, hm.fd_eq] at hc
        rw [← hpair.2, hm.raw_http, hm.owner hc]

/-- The bytes and numbers of a connection do not depend on what its peer does. -/
theorem Mirrored.peer (h : Mirrored fds m k) (hfiles : k'.files = k.files)
    (haccepted : ∀ c, k'.accepted_as c = k.accepted_as c)
    (hreceived : ∀ c, k'.received c = k.received c) : Mirrored fds m k' := by
  refine ⟨h.nodup, ?_, h.rest⟩
  intro fd hfd
  obtain ⟨cl, c, hm⟩ := h.mirror fd hfd
  exact ⟨cl, c, hm.frame rfl (haccepted c) (hreceived c) fun f hf => hfiles ▸ hf⟩

theorem mirrored_step {s s' : Sys} {l : Label}
    (h : Mirrored s.fds s.m_active_clients s.toKernel) (hok : NumberFree s l)
    (hs : Step s l s') : Mirrored s'.fds s'.m_active_clients s'.toKernel := by
  cases hs with
  | poll_error | skip | accept_error | start => exact h
  | poll ready hlen =>
      show Mirrored (HttpServer.fds _) _ _
      rw [fds_poll s.toHttpServer hlen]
      exact h
  | accept_flags n _ => exact h.open_socket hok
  | accept n hn hl =>
      have hne : n ≠ s.m_listen_socket := fun he => hn (he ▸ hl)
      show Mirrored (push_client s.toHttpServer n).fds _ _
      rw [fds_push s.toHttpServer hne]
      exact h.accept hok
  | read cur rd k cl _ hcur hne hcl hk hv =>
      obtain ⟨hfd, hread⟩ := h.read (mem_fds_of_current hcur hne) hcl (read_effect hk)
      cases hv with
      | throws | more | complete => exact hread
      | gone =>
          show Mirrored _ (AList.erase cl.fd _) k
          rw [hfd]
          exact hread.erase (fds_perm_erase hcur hne)
  | work j t _ => exact h.work t.client_socket
  | peer _ c conn conn' hc hfd hr _ =>
      exact h.peer rfl (accepted_as_set hc hfd) (received_set_same hc hr)

theorem isolated_step {s s' : Sys} {l : Label}
    (hm : Mirrored s.fds s.m_active_clients s.toKernel) (h : Isolated s)
    (hs : Step s l s') : Isolated s' := by
  have hold : ∀ x ∈ s.handled, ∀ sock raw c, x.call = some (sock, raw) →
      x.answered = some c → raw <+: s'.received c := by
    intro x hx sock raw c hcall hc
    exact (h x hx sock raw c hcall hc).trans (hs.kernel.received_prefix c)
  cases hs with
  | poll_error | poll | skip | accept_error | accept_flags | accept | start | peer => exact hold
  | read cur rd k cl _ _ _ _ _ hv => cases hv <;> exact hold
  | work j t _ =>
      intro x hx
      rcases List.mem_append.mp hx with hmem | hlast
      · exact hold x hmem
      · obtain rfl := List.mem_singleton.mp hlast
        intro sock raw c hcall hc
        have hcall' : (handle_incoming_request s.m_active_clients t.client_socket).2
            = some (sock, raw) := hcall
        have hown : s.owner sock = some c := by
          simpa only [hcall', Option.bind_some] using hc
        rw [hm.call hcall' hown]
        exact List.prefix_refl _

/-- **ISOLATION AS LONG AS NUMBERS ARE FREE**: in every run whose accepts hand out
    numbers without an entry in the client map, a connection is answered for
    its own bytes only. -/
theorem isolated {s : Sys} (h : server.Reach NumberFree s) : Isolated s := by
  have hboth : Mirrored s.fds s.m_active_clients s.toKernel ∧ Isolated s := by
    refine h.invariant
      (I := fun s => Mirrored s.fds s.m_active_clients s.toKernel ∧ Isolated s) ?_ ?_
    · intro s h0
      have hfds : s.fds = [] := by rw [fds_eq, h0.poll_fds]; simp
      rw [hfds, h0.clients]
      refine ⟨⟨List.nodup_nil, ?_, ?_⟩, ?_⟩
      · intro fd hfd
        cases hfd
      · intro fd cl hcl
        cases hcl
      · intro x hx
        rw [h0.handled] at hx
        cases hx
    · intro s l s' hi hok hs
      have hstep := step_cases hs
      exact ⟨mirrored_step hi.1 hok hstep, isolated_step hi.1 hi.2 hstep⟩
  exact hboth.2

/-- Two connections that are open together, under two numbers. -/
theorem isolated_sample : ∃ s, s.handled.length = 2 ∧ s.fds = [5, 6] ∧ Isolated s := by
  have h0 : server.Reach NumberFree (entered 3 1) := .init (init_entered 3 1)
  obtain ⟨s, hs, hlen, hfds⟩ := h0.exists_of_run
    (fun s => s.handled.length = 2 ∧ s.fds = [5, 6])
    [.poll (some [true]), .accept (.fd 5 true), .skip,
      .poll (some [true, false]), .accept (.fd 6 true), .skip, .skip,
      .peer_send 1 get_b.bytes, .peer_send 0 get_a.bytes,
      .poll (some [false, true, true]), .skip, .read (.data get_a), .read (.data get_b),
      .start, .work 0, .start, .work 0]
    (by decide)
  exact ⟨s, hlen, hfds, isolated hs⟩

/-- The number of a finished connection is handed out again: the second
    connection is answered for the request of the first followed by its own. -/
theorem number_reused_not_isolated : ∃ s, server.Reachable s
    ∧ (∃ h ∈ s.handled, h.answered = some 1
      ∧ h.call = some (5, get_a.bytes ++ get_b.bytes) ∧ s.received 1 = get_b.bytes)
    ∧ ¬ Isolated s := by
  have h0 : server.Reachable (entered 3 1) := .init (init_entered 3 1)
  obtain ⟨s, hs, h⟩ := h0.exists_of_run
    (fun s => ∃ h ∈ s.handled, h.answered = some 1
      ∧ h.call = some (5, get_a.bytes ++ get_b.bytes) ∧ s.received 1 = get_b.bytes)
    [.poll (some [true]), .accept (.fd 5 true), .skip, .peer_send 0 get_a.bytes,
      .poll (some [false, true]), .skip, .read (.data get_a), .start, .work 0,
      .poll (some [true, false]), .accept (.fd 5 true), .skip, .skip,
      .peer_send 1 get_b.bytes,
      .poll (some [false, true, true]), .skip, .read (.data get_b), .read .would_block,
      .start, .work 0]
    (by decide)
  refine ⟨s, hs, h, ?_⟩
  obtain ⟨x, hx, hanswered, hcall, hreceived⟩ := h
  intro hi
  have hprefix := hi x hx 5 _ 1 hcall hanswered
  rw [hreceived] at hprefix
  exact absurd hprefix (by decide)

end WebLib.EventLoop
