import WebLib.Steps

/-! # A complete request reaches the router

    A task carries only a number; the worker looks the buffer up again.  The
    buffer is still there when nothing erased it in between, and it is under
    that number when the read that completed it went to the number that was
    polled. -/

namespace WebLib.EventLoop

open WebLib ByteString ReadRequest UnorderedMap TransitionSystem

/-- No task is lost, and each one that ran called `process_request` on its number
    with a buffer that starts with its request. -/
structure HandedOver (s : Sys) : Prop where
  conserved : s.dispatched.Perm (s.handled.map Handled.task ++ s.pending)
  called : ∀ h ∈ s.handled, ∃ raw, h.call = some (h.task.client_socket, raw)
    ∧ h.task.request <+: raw

/-- The steps that lose no request: a read that brings bytes goes to the number
    that was polled, and the end of a connection or an error is not read while a
    task for its number is pending. -/
def Kept (s : Sys) : Label → Prop
  | .read (.data _) => ∀ cur ∈ current s.toHttpServer,
      (subscript s.m_active_clients cur.fd).fd = cur.fd
  | .read .eof | .read .error => ∀ cur ∈ current s.toHttpServer,
      ¬ s.Busy (subscript s.m_active_clients cur.fd).fd
  | _ => True

instance (s : Sys) : ∀ l, Decidable (Kept s l)
  | .read (.data _) => inferInstanceAs (Decidable (∀ cur ∈ current s.toHttpServer,
      (subscript s.m_active_clients cur.fd).fd = cur.fd))
  | .read .eof | .read .error => inferInstanceAs (Decidable (∀ cur ∈ current s.toHttpServer,
      ¬ s.Busy (subscript s.m_active_clients cur.fd).fd))
  | .read .would_block | .poll _ | .skip | .accept _ | .start | .work _
  | .peer_send _ _ | .peer_close _ | .peer_reset _ => .isTrue trivial

/-- The client map still holds what a task was enqueued for. -/
def Holds (m : UnorderedMap Fd Client) (t : Task) : Prop :=
  ∃ cl, m.find t.client_socket = some cl ∧ cl.fd = t.client_socket
    ∧ t.request <+: cl.raw_http ∧ t.request ≠ []

variable {m : UnorderedMap Fd Client} {t : Task}

/-- A buffer only grows. -/
theorem Holds.assign (h : Holds m t) {cur : Fd} {cl : Client} {bytes : Str}
    (hfd : cl.fd = (subscript m cur).fd)
    (hraw : cl.raw_http = (subscript m cur).raw_http ++ bytes) : Holds (m.assign cur cl) t := by
  obtain ⟨old, hold, hofd, hprefix, hne⟩ := h
  by_cases hcur : t.client_socket = cur
  -- the entry that is read into holds the request, and only grows
  · have hsub : subscript m cur = old := by
      rw [subscript, ← hcur, hold, Option.getD_some]
    rw [hsub] at hfd hraw
    refine ⟨cl, by rw [find_assign, if_pos hcur], hfd.trans hofd, ?_, hne⟩
    rw [hraw]
    exact hprefix.trans (List.prefix_append _ _)
  · exact ⟨old, by rw [find_assign, if_neg hcur, hold], hofd, hprefix, hne⟩

/-- An entry of another number is erased. -/
theorem Holds.erase (h : Holds m t) {n : Fd} (hn : t.client_socket ≠ n) :
    Holds (AList.erase n m) t := by
  obtain ⟨cl, hcl, hrest⟩ := h
  exact ⟨cl, by rw [find_erase, if_neg hn, hcl], hrest⟩

/-- `emplace` and `operator[]` keep what is there. -/
theorem Holds.emplace (h : Holds m t) (n : Fd) (v : Client) : Holds (m.emplace n v) t := by
  obtain ⟨cl, hcl, hrest⟩ := h
  refine ⟨cl, ?_, hrest⟩
  rw [find_emplace]
  by_cases hn : t.client_socket = n
  · rw [if_pos hn, ← hn, hcl, Option.getD_some]
  · rw [if_neg hn, hcl]

/-- A completed request is held at the moment it is enqueued. -/
theorem Holds.enqueue {cur : Fd} {cl : Client} {c : Chunk} {conn : Option ConnId}
    (hfd : cl.fd = cur)
    (hraw : cl.raw_http = (subscript m cur).raw_http ++ c.bytes) :
    Holds (m.assign cur cl) ⟨cl.fd, conn, cl.raw_http⟩ := by
  refine ⟨cl, by rw [find_assign, if_pos hfd], rfl, List.prefix_refl _, ?_⟩
  intro hempty
  rw [hraw] at hempty
  exact c.nonempty (List.append_eq_nil_iff.mp hempty).2

/-- The worker finds what is held. -/
theorem Holds.call (h : Holds m t) :
    ∃ raw, (handle_incoming_request m t.client_socket).2 = some (t.client_socket, raw)
      ∧ t.request <+: raw := by
  obtain ⟨cl, hcl, hfd, hprefix, hne⟩ := h
  have hraw : cl.raw_http ≠ [] := fun he => hne (List.prefix_nil.mp (he ▸ hprefix))
  refine ⟨cl.raw_http, ?_, hprefix⟩
  rw [handle_incoming_request, subscript]
  simp only
  rw [hcl, Option.getD_some, if_neg hraw, hfd]

theorem holds_visit {s s' : Sys} {k : Kernel} {cur : PollFd} {rd : ReadResult} {cl : Client}
    (h : ∀ t ∈ s.pending, Holds s.m_active_clients t) (hok : Kept s (.read rd))
    (hcur : current s.toHttpServer = some cur)
    (hcl : cl = (read_request (subscript s.m_active_clients cur.fd) rd).1)
    (hv : Visit s k cur.fd rd cl s') : ∀ t ∈ s'.pending, Holds s'.m_active_clients t := by
  have hfd : cl.fd = (subscript s.m_active_clients cur.fd).fd := by rw [hcl, read_request_fd]
  have hraw : cl.raw_http = (subscript s.m_active_clients cur.fd).raw_http ++ rd.bytes := by
    rw [hcl, read_request_raw]
  have hassign : ∀ t ∈ s.pending, Holds (s.m_active_clients.assign cur.fd cl) t :=
    fun t ht => (h t ht).assign hfd hraw
  cases hv with
  | throws | more => exact hassign
  | complete c hrd =>
      intro t ht
      have ht' : t ∈ s.running ++ (s.m_tasks ++ [⟨cl.fd, s.owner cl.fd, cl.raw_http⟩]) := ht
      rw [← List.append_assoc] at ht'
      rcases List.mem_append.mp ht' with hold | hnew
      · exact hassign t hold
      · obtain rfl := List.mem_singleton.mp hnew
        rw [hrd] at hok hraw
        exact .enqueue (hfd.trans (hok cur hcur)) hraw
  | gone hrd =>
      -- no task is pending for the erased number, so all that is held stays
      have hidle : ¬ s.Busy cl.fd := by
        rw [hfd]
        rcases hrd with rfl | rfl
        · exact hok cur hcur
        · exact hok cur hcur
      intro t ht
      exact (hassign t ht).erase fun he => hidle ⟨t, ht, he⟩

theorem holds_step {s s' : Sys} {l : Label} (h : ∀ t ∈ s.pending, Holds s.m_active_clients t)
    (hok : Kept s l) (hs : Step s l s') : ∀ t ∈ s'.pending, Holds s'.m_active_clients t := by
  cases hs with
  | poll_error | poll | skip | accept_error | accept_flags | peer => exact h
  | accept n _ _ => exact fun t ht => (h t ht).emplace n _
  | read cur rd k cl _ hcur _ hcl _ hv => exact holds_visit h hok hcur hcl hv
  | start t rest ht =>
      intro u hu
      exact h u (pending_start ht ▸ hu)
  | work j t ht =>
      intro u hu
      exact (h u ((pending_perm_work ht).mem_iff.mpr (List.mem_cons_of_mem _ hu))).emplace _ _

theorem called_step {s s' : Sys} {l : Label} (hm : ∀ t ∈ s.pending, Holds s.m_active_clients t)
    (h : ∀ x ∈ s.handled, ∃ raw, x.call = some (x.task.client_socket, raw)
      ∧ x.task.request <+: raw) (hs : Step s l s') :
    ∀ x ∈ s'.handled, ∃ raw, x.call = some (x.task.client_socket, raw)
      ∧ x.task.request <+: raw := by
  cases hs with
  | poll_error | poll | skip | accept_error | accept_flags | accept | start | peer => exact h
  | read cur rd k cl _ _ _ _ _ hv => cases hv <;> exact h
  | work j t ht =>
      intro x hx
      rcases List.mem_append.mp hx with hold | hnew
      · exact h x hold
      · obtain rfl := List.mem_singleton.mp hnew
        exact (hm t ((pending_perm_work ht).mem_iff.mpr List.mem_cons_self)).call

end WebLib.EventLoop
