import WebLib.Dispatch

/-! # Every accepted socket is closed once

    The workers close; the abort branch of the loop only forgets.  A socket that
    is forgotten while no task is pending for it stays open for good. -/

namespace WebLib.EventLoop

open WebLib ByteString ReadRequest UnorderedMap TransitionSystem

/-- `close` is called once for a connection and closes its socket, not another
    one; a socket that is open is polled or has a pending task. -/
structure ClosedOnce (s : Sys) : Prop where
  once : ∀ c, (s.handled.map fun h => h.task.conn).count (some c) ≤ 1
  own : ∀ h ∈ s.handled, h.closed = h.task.conn
  tracked : ∀ fd c, s.owner fd = some c → fd ∈ s.fds ∨ s.Busy fd

/-- The steps that neither leak a socket nor close one twice: bytes are read only
    when no task for the number is pending; a connection that ends, or fails,
    is no longer open, or has a pending task, or is polled by another entry
    too; an accepted socket can be made non-blocking. -/
def Closes (s : Sys) : Label → Prop
  | .read (.data c) => NoneWaiting s (.read (.data c))
  | .read .eof | .read .error => ∀ cur ∈ current s.toHttpServer,
      s.owner cur.fd = none ∨ s.Busy cur.fd ∨ 2 ≤ s.fds.count cur.fd
  | .accept (.fd _ nonblocking) => nonblocking = true
  | _ => True

instance (s : Sys) : ∀ l, Decidable (Closes s l)
  | .read (.data c) => inferInstanceAs (Decidable (NoneWaiting s (.read (.data c))))
  | .read .eof | .read .error => inferInstanceAs (Decidable (∀ cur ∈ current s.toHttpServer,
      s.owner cur.fd = none ∨ s.Busy cur.fd ∨ 2 ≤ s.fds.count cur.fd))
  | .accept (.fd _ nonblocking) => inferInstanceAs (Decidable (nonblocking = true))
  | .read .would_block | .accept .error | .poll _ | .skip | .start | .work _
  | .peer_send _ _ | .peer_close _ | .peer_reset _ => .isTrue trivial

theorem Closes.noneWaiting {s : Sys} {l : Label} (h : Closes s l) : NoneWaiting s l := by
  simp only [NoneWaiting]
  split
  · exact h
  · trivial

/-- Of two entries of a number one is left. -/
theorem mem_of_two_le_count {fds fds' : List Fd} {fd : Fd} (hperm : fds.Perm (fd :: fds'))
    (h : 2 ≤ fds.count fd) : fd ∈ fds' := by
  rw [hperm.count_eq, List.count_cons_self] at h
  exact List.count_pos_iff.mp (Nat.le_of_succ_le_succ h)

theorem open_tracked_visit {s s' : Sys} {k : Kernel} {cur : PollFd} {rd : ReadResult}
    {cl : Client} (h : ∀ fd c, s.owner fd = some c → fd ∈ s.fds ∨ s.Busy fd)
    (hok : Closes s (.read rd)) (hcur : current s.toHttpServer = some cur)
    (hne : cur.fd ≠ s.m_listen_socket) (howner : ∀ fd, k.owner fd = s.owner fd)
    (hv : Visit s k cur.fd rd cl s') :
    ∀ fd c, s'.owner fd = some c → fd ∈ s'.fds ∨ s'.Busy fd := by
  have hopen : ∀ fd c, k.owner fd = some c → fd ∈ s.fds ∨ s.Busy fd := by
    intro fd c hc
    rw [howner] at hc
    exact h fd c hc
  cases hv with
  | throws | more => exact hopen
  | complete c _ =>
      intro fd d hd
      rcases hopen fd d hd with hmem | ⟨t, ht, hfd⟩
      · exact Or.inl hmem
      · refine Or.inr ⟨t, ?_, hfd⟩
        show t ∈ s.running ++ (s.m_tasks ++ _)
        rw [← List.append_assoc]
        exact List.mem_append.mpr (Or.inl ht)
  | gone hrd =>
      have hperm := fds_perm_erase hcur hne
      have hdrop : s.owner cur.fd = none ∨ s.Busy cur.fd ∨ 2 ≤ s.fds.count cur.fd := by
        rcases hrd with rfl | rfl
        · exact hok cur hcur
        · exact hok cur hcur
      intro fd d hd
      rcases hopen fd d hd with hmem | hbusy
      · rcases List.mem_cons.mp (hperm.mem_iff.mp hmem) with rfl | hleft
        · have hd' : s.owner cur.fd = some d := (howner cur.fd).symm.trans hd
          -- closed already, about to be closed, or still polled by another entry
          rcases hdrop with hnone | hbusy | htwo
          · rw [hnone] at hd'
            cases hd'
          · exact Or.inr hbusy
          · exact Or.inl (mem_of_two_le_count hperm htwo)
        · exact Or.inl hleft
      · exact Or.inr hbusy

theorem open_tracked_step {s s' : Sys} {l : Label}
    (h : ∀ fd c, s.owner fd = some c → fd ∈ s.fds ∨ s.Busy fd) (hok : Closes s l)
    (hs : Step s l s') : ∀ fd c, s'.owner fd = some c → fd ∈ s'.fds ∨ s'.Busy fd := by
  cases hs with
  | poll_error | skip | accept_error | peer => exact h
  | poll ready hlen =>
      intro fd c hc
      show fd ∈ HttpServer.fds _ ∨ s.Busy fd
      rw [fds_poll s.toHttpServer hlen]
      exact h fd c hc
  | accept_flags n _ => cases hok
  | accept n hn hl =>
      have hne : n ≠ s.m_listen_socket := fun he => hn (he ▸ hl)
      intro fd c hc
      have hc' : (s.toKernel.accept n).owner fd = some c := hc
      rw [owner_accept] at hc'
      show fd ∈ (push_client s.toHttpServer n).fds ∨ s.Busy fd
      rw [fds_push s.toHttpServer hne]
      by_cases hfd : fd = n
      · exact Or.inl (List.mem_append.mpr (Or.inr (List.mem_singleton.mpr hfd)))
      · rw [if_neg hfd] at hc'
        exact (h fd c hc').imp_left (List.mem_append.mpr ∘ Or.inl)
  | read cur rd k cl _ hcur hne _ hk hv =>
      exact open_tracked_visit h hok hcur hne (read_effect hk).owner hv
  | start t rest ht =>
      intro fd c hc
      refine (h fd c hc).imp_right ?_
      rintro ⟨u, hu, hfd⟩
      exact ⟨u, (pending_start ht).symm ▸ hu, hfd⟩
  | work j t ht =>
      intro fd c hc
      have hc' : (s.toKernel.close t.client_socket).owner fd = some c := hc
      rw [owner_close] at hc'
      by_cases hfd : fd = t.client_socket
      · rw [if_pos hfd] at hc'
        cases hc'
      · rw [if_neg hfd] at hc'
        refine (h fd c hc').imp_right ?_
        rintro ⟨u, hu, hufd⟩
        rcases List.mem_cons.mp ((pending_perm_work ht).mem_iff.mp hu) with rfl | hleft
        · exact absurd hufd.symm hfd
        · exact ⟨u, hleft, hufd⟩

end WebLib.EventLoop
