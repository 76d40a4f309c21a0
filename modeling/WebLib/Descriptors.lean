import WebLib.Answers

/-! # Where the descriptors go

    The server opens a descriptor in `accept` and closes one at the end of
    `handle_incoming_request`, which is given a number.  In whatever order the
    two come, a connection is never lost from the books: its socket is open, or
    one handled task closed it.  Who closes it is another matter; in orderly
    runs it is the task that answered it, and a connection that the loop dropped
    stays open. -/

namespace WebLib.EventLoop

open WebLib ByteString ReadRequest UnorderedMap TransitionSystem

/-- How often handled tasks closed the socket of `c`. -/
def closings (handled : List Handled) (c : ConnId) : Nat :=
  (handled.map Handled.closed).count (some c)

/-- The books: every closing was of a known connection, and every accepted one
    is open or was closed, once. -/
structure Booked (k : Kernel) (handled : List Handled) : Prop where
  known : ∀ y ∈ handled, ∀ c, y.closed = some c → c < k.conns.length
  law : ∀ c fd, k.accepted_as c = some fd →
    closings handled c + (if k.owner fd = some c then 1 else 0) = 1

variable {k k' : Kernel} {handled : List Handled}

/-- Nothing is opened or closed. -/
theorem Booked.quiet (h : Booked k handled) (hlength : k'.conns.length = k.conns.length)
    (haccepted : ∀ c, k'.accepted_as c = k.accepted_as c)
    (howner : ∀ fd, k'.owner fd = k.owner fd) : Booked k' handled := by
  refine ⟨fun y hy c hc => hlength ▸ h.known y hy c hc, ?_⟩
  intro c fd hc
  rw [howner]
  exact h.law c fd (haccepted c ▸ hc)

theorem Booked.closings_new (h : Booked k handled) : closings handled k.conns.length = 0 := by
  refine List.count_eq_zero.mpr fun hm => ?_
  obtain ⟨y, hy, hclosed⟩ := List.mem_map.mp hm
  exact absurd (h.known y hy _ hclosed) (Nat.lt_irrefl _)

/-- A new connection is open; the number it was given was not. -/
theorem Booked.accept (h : Booked k handled) {n : Fd} (hn : n ∉ k.files) :
    Booked (k.accept n) handled := by
  have hlength : (k.accept n).conns.length = k.conns.length + 1 := by simp [Kernel.accept]
  constructor
  · intro y hy c hc
    rw [hlength]
    exact Nat.lt_succ_of_lt (h.known y hy c hc)
  · intro c fd hc
    rw [accepted_as_accept] at hc
    rw [owner_accept]
    by_cases hnew : c = k.conns.length
    · rw [if_pos hnew] at hc
      obtain rfl := Option.some.inj hc
      rw [hnew, h.closings_new, if_pos rfl, if_pos rfl]
    · rw [if_neg hnew] at hc
      have hlaw := h.law c fd hc
      by_cases hfd : fd = n
      · have hclosed : k.owner fd ≠ some c := fun ho => hn (hfd ▸ mem_files_of_owner ho)
        rw [if_neg hclosed] at hlaw
        rw [if_pos hfd, if_neg fun he => hnew (Option.some.inj he).symm]
        exact hlaw
      · rw [if_neg hfd]
        exact hlaw

/-- A worker closes what is open under the number of its task. -/
theorem Booked.close (h : Booked k handled) (hsock : SockInv k) {t : Task}
    (call : Option (Fd × Str)) (answered : Option ConnId) :
    Booked (k.close t.client_socket)
      (handled ++ [⟨t, call, answered, k.owner t.client_socket⟩]) := by
  constructor
  · intro y hy c hc
    rcases List.mem_append.mp hy with hold | hnew
    · exact h.known y hold c hc
    · obtain rfl := List.mem_singleton.mp hnew
      exact lt_of_accepted_as (hsock t.client_socket c hc)
  · intro c fd hc
    have hlaw := h.law c fd hc
    have hcount : closings (handled ++ [⟨t, call, answered, k.owner t.client_socket⟩]) c
        = closings handled c + if k.owner t.client_socket = some c then 1 else 0 := by
      rw [closings, List.map_append, List.count_append]
      by_cases ho : k.owner t.client_socket = some c <;> simp [closings, ho]
    rw [hcount, owner_close]
    by_cases ho : k.owner t.client_socket = some c
    · -- the connection is open under its own number only
      have hfd : fd = t.client_socket :=
        Option.some.inj (hc.symm.trans (hsock t.client_socket c ho))
      rw [hfd, if_pos ho] at hlaw
      rw [if_pos ho, hfd, if_pos rfl]
      exact hlaw
    · rw [if_neg ho]
      by_cases hfd : fd = t.client_socket
      · rw [hfd, if_neg ho] at hlaw
        rw [if_pos hfd]
        exact hlaw
      · rw [if_neg hfd]
        exact hlaw

theorem booked_step {s s' : Sys} {l : Label} (hsock : SockInv s.toKernel)
    (h : Booked s.toKernel s.handled) (hs : Step s l s') : Booked s'.toKernel s'.handled := by
  cases hs with
  | poll_error | poll | skip | accept_error | start => exact h
  | accept_flags n hn => exact h.accept hn
  | accept n hn _ => exact h.accept hn
  | read cur rd k cl _ _ _ _ hk hv =>
      have heff := read_effect hk
      have hquiet := h.quiet heff.length heff.accepted_as heff.owner
      cases hv <;> exact hquiet
  | work j t _ => exact h.close hsock _ _
  | peer _ c conn conn' hc hfd _ _ =>
      exact h.quiet (List.length_set ..) (accepted_as_set hc hfd) fun _ => rfl

theorem booked {ok : Sys → Label → Prop} {s : Sys} (h : server.Reach ok s) :
    Booked s.toKernel s.handled := by
  refine h.invariant_of (I := fun s => Booked s.toKernel s.handled)
    (J := fun s => SockInv s.toKernel) (fun _ hr => sockInv hr) ?_ ?_
  · intro s h0
    rw [h0.handled]
    refine ⟨List.forall_mem_nil _, ?_⟩
    intro c fd hc
    have hlt := lt_of_accepted_as hc
    rw [h0.conns] at hlt
    cases hlt
  · intro s l s' hsock hi _ hs
    exact booked_step hsock hi (step_cases hs)

/-- **NO SOCKET IS LOST FROM THE BOOKS**: in every run, without any condition, the
    socket of an accepted connection is open under its number and no task closed
    it, or it is not and exactly one did. -/
theorem sockets_conserved {s : Sys} (h : server.Reachable s) (c : ConnId) (fd : Fd)
    (hc : s.accepted_as c = some fd) :
    closings s.handled c + (if s.owner fd = some c then 1 else 0) = 1 := (booked h).law c fd hc

/-- A connection that was dispatched twice: the second task closes the connection
    that has the number by then. -/
theorem reused_number_conserved : ∃ s : Sys, s.owner 5 = none
    ∧ closings s.handled 1 + (if s.owner 5 = some 1 then 1 else 0) = 1 := by
  have h0 : server.Reachable (entered 3 1) := .init (init_entered 3 1)
  obtain ⟨s, hs, hacc, hown⟩ := h0.exists_of_run
    (fun s => s.accepted_as 1 = some 5 ∧ s.owner 5 = none)
    [.poll (some [true]), .accept (.fd 5 true), .skip, .peer_send 0 get_a.bytes,
      .poll (some [false, true]), .skip, .read (.data get_a), .peer_send 0 get_b.bytes,
      .poll (some [false, true]), .skip, .read (.data get_b), .start, .work 0,
      .poll (some [true, false]), .accept (.fd 5 true), .skip, .skip, .start, .work 0]
    (by decide)
  exact ⟨s, hown, sockets_conserved hs 1 5 hacc⟩

/-- **OPEN UNTIL ANSWERED**: in every orderly run the socket of a connection is
    closed exactly by the task that answered it, so one that was never answered,
    a dropped one among them, is still open. -/
theorem open_until_answered {s : Sys} (h : server.Reach Orderly s) (c : ConnId) (fd : Fd)
    (hc : s.accepted_as c = some fd) :
    s.owner fd = some c ↔ ∀ y ∈ s.handled, y.answered ≠ some c := by
  obtain ⟨a, ha, htracks⟩ := simulation.reach h
  have hlaw := (booked h).law c fd hc
  have hsame : ∀ y ∈ s.handled, y.answered = y.closed := by
    intro y hy
    obtain ⟨d, _, _, _, hans, hclosed, -⟩ := htracks.own_bytes (Service.good ha) hy
    rw [hans, hclosed]
  have hnone : closings s.handled c = 0 ↔ ∀ y ∈ s.handled, y.answered ≠ some c := by
    rw [closings, List.count_eq_zero]
    constructor
    · intro hn y hy hans
      exact hn (List.mem_map.mpr ⟨y, hy, (hsame y hy).symm.trans hans⟩)
    · intro hn hm
      obtain ⟨y, hy, hclosed⟩ := List.mem_map.mp hm
      exact hn y hy ((hsame y hy).trans hclosed)
  rw [← hnone]
  by_cases ho : s.owner fd = some c
  · rw [if_pos ho] at hlaw
    exact iff_of_true ho (by omega)
  · rw [if_neg ho] at hlaw
    exact iff_of_false ho (by omega)

/-- A peer that goes away in the middle of its request. -/
theorem dropped_stays_open : ∃ s : Sys, s.fds = []
    ∧ (s.owner 5 = some 0 ↔ ∀ y ∈ s.handled, y.answered ≠ some 0) := by
  have h0 : server.Reach Orderly (entered 3 1) := .init (init_entered 3 1)
  obtain ⟨s, hs, hacc, hfds⟩ := h0.exists_of_run
    (fun s => s.accepted_as 0 = some 5 ∧ s.fds = [])
    [.poll (some [true]), .accept (.fd 5 true), .skip, .peer_send 0 Framing.sample_head.bytes,
      .poll (some [false, true]), .skip, .read (.data Framing.sample_head), .peer_close 0,
      .poll (some [false, true]), .skip, .read .eof]
    (by decide)
  exact ⟨s, hfds, open_until_answered hs 0 5 hacc⟩

end WebLib.EventLoop
