import WebLib.Steps

/-! # One pass over the poll vector

    The index loop of `event_loop` by itself: it erases the entry it is at and
    steps the unsigned index back, or appends an entry, while it runs over the
    vector.  What the calls of the loop body return is given from outside, one
    `Outcome` for each ready entry, and none of them throws.

    The vector has the listening socket first, so that entry is never erased and
    the index never steps back from zero.  The last part shows that the vectors
    of the server have it first and only there, and that the server's steps are
    this loop's. -/

namespace WebLib.EventLoop

open WebLib ByteString ReadRequest TransitionSystem

/-! ## The loop -/

/-- `i++` on `size_t`. -/
def size_succ (i : Nat) : Nat := (i + 1) % sizeMod

/-- `std::vector<pollfd>::max_size()`; an entry takes eight bytes. -/
def max_entries : Nat := (2 ^ 63 - 1) / 8

theorem size_succ_of_lt {i : Nat} (h : i < max_entries) : size_succ i = i + 1 := by
  rw [size_succ, Nat.mod_eq_of_lt]
  simp only [max_entries, sizeMod] at *
  omega

/-- What `accept` and `read_request` return for a ready entry; whichever is not
    called is not looked at.  No number is a failed `accept`. -/
structure Outcome where
  client_socket : Option Fd
  r : State
deriving DecidableEq, Repr

/-- The body of the loop on `cur_fd`, the entry at `i`: the vector and the index
    it leaves. -/
def loop_body (m_listen_socket : Fd) (o : Outcome) (poll_fds : List PollFd) (i : Nat)
    (cur_fd : PollFd) : List PollFd × Nat :=
  if cur_fd.pollin then
    if cur_fd.fd = m_listen_socket then
      match o.client_socket with
      | none => (poll_fds, i)
      | some client_socket => (poll_fds ++ [⟨client_socket, false⟩], i)
    else
      match o.r with
      | .READ_MORE | .END_OF_CONNECTION => (poll_fds, i)
      | .CONNECTION_ABORTED | .CONNECTION_ERROR => (poll_fds.eraseIdx i, size_sub i 1)
  else (poll_fds, i)

/-- One run of the body: the entry, and the index before and after it. -/
structure Visited where
  cur_fd : PollFd
  i : Nat
  i_after : Nat
deriving DecidableEq, Repr

/-- The locals of the loop, and the runs of its body so far. -/
structure Pass where
  poll_fds : List PollFd
  i : Nat
  log : List Visited
deriving DecidableEq, Repr

/-- The entries for which the body called `accept` or `read_request`. -/
def Pass.handled (s : Pass) : List PollFd := (s.log.map Visited.cur_fd).filter PollFd.pollin

/-- The body and the `i++` after it; the call made for the k-th ready entry has
    the k-th outcome. -/
def Pass.next (m_listen_socket : Fd) (outcome : Nat → Outcome) (s : Pass) (cur_fd : PollFd) :
    Pass :=
  let r := loop_body m_listen_socket (outcome s.handled.length) s.poll_fds s.i cur_fd
  { poll_fds := r.1, i := size_succ r.2, log := s.log ++ [⟨cur_fd, s.i, r.2⟩] }

/-- `for (size_t i = 0; i < poll_fds.size(); i++)`; nothing if the loop has not
    ended after `fuel` tests of its condition. -/
def pass_loop (m_listen_socket : Fd) (outcome : Nat → Outcome) : Nat → Pass → Option Pass
  | 0, _ => none
  | fuel + 1, s =>
      match s.poll_fds[s.i]? with
      | none => some s
      | some cur_fd =>
          pass_loop m_listen_socket outcome fuel (s.next m_listen_socket outcome cur_fd)

/-- The pass over a vector. -/
def poll_pass (m_listen_socket : Fd) (outcome : Nat → Outcome) (fuel : Nat)
    (poll_fds : List PollFd) : Option Pass :=
  pass_loop m_listen_socket outcome fuel ⟨poll_fds, 0, []⟩

/-! ## What a pass is for -/

/-- Every entry with the outcome of its call, when the ready entries get one
    each, in order, from the k-th on. -/
def served (outcome : Nat → Outcome) : Nat → List PollFd → List (PollFd × Option Outcome)
  | _, [] => []
  | k, e :: rest =>
      if e.pollin then (e, some (outcome k)) :: served outcome (k + 1) rest
      else (e, none) :: served outcome k rest

/-- A client that is gone. -/
def Dropped (m_listen_socket : Fd) (e : PollFd × Option Outcome) : Prop :=
  e.1.fd ≠ m_listen_socket
    ∧ ∃ o ∈ e.2, o.r = .CONNECTION_ABORTED ∨ o.r = .CONNECTION_ERROR

instance (m_listen_socket : Fd) (e : PollFd × Option Outcome) :
    Decidable (Dropped m_listen_socket e) :=
  inferInstanceAs (Decidable (_ ∧ ∃ o ∈ e.2, _))

/-- The entry of the socket accepted for it. -/
def new_entry (m_listen_socket : Fd) (e : PollFd × Option Outcome) : Option PollFd :=
  if e.1.fd = m_listen_socket then
    (e.2.bind Outcome.client_socket).map fun client_socket => ⟨client_socket, false⟩
  else none

/-- The entries that stay. -/
def remaining (m_listen_socket : Fd) (es : List (PollFd × Option Outcome)) : List PollFd :=
  (es.filter fun e => ¬ Dropped m_listen_socket e).map Prod.fst

/-- The entries that come in. -/
def accepted (m_listen_socket : Fd) (es : List (PollFd × Option Outcome)) : List PollFd :=
  es.filterMap (new_entry m_listen_socket)

theorem remaining_append (m_listen_socket : Fd) (es es' : List (PollFd × Option Outcome)) :
    remaining m_listen_socket (es ++ es')
      = remaining m_listen_socket es ++ remaining m_listen_socket es' := by
  simp only [remaining, List.filter_append, List.map_append]

theorem accepted_append (m_listen_socket : Fd) (es es' : List (PollFd × Option Outcome)) :
    accepted m_listen_socket (es ++ es')
      = accepted m_listen_socket es ++ accepted m_listen_socket es' :=
  List.filterMap_append

/-- One entry more, with the outcome it gets. -/
theorem served_cons (outcome : Nat → Outcome) (k : Nat) (e : PollFd) (rest : List PollFd) :
    served outcome k (e :: rest)
      = [(e, if e.pollin then some (outcome k) else none)]
        ++ served outcome (if e.pollin then k + 1 else k) rest := by
  rw [served]
  by_cases he : e.pollin = true
  · simp only [if_pos he, List.singleton_append]
  · simp only [if_neg he, List.singleton_append]

theorem remaining_length_le (m_listen_socket : Fd) (outcome : Nat → Outcome) (k : Nat)
    (poll_fds : List PollFd) :
    (remaining m_listen_socket (served outcome k poll_fds)).length ≤ poll_fds.length := by
  induction poll_fds generalizing k with
  | nil => exact Nat.le_refl 0
  | cons e rest ih =>
      rw [served_cons, remaining_append, List.length_append, List.length_cons]
      have hone : ∀ x : PollFd × Option Outcome, (remaining m_listen_socket [x]).length ≤ 1 := by
        intro x
        rw [remaining, List.length_map]
        exact List.length_filter_le _ _
      have := hone (e, if e.pollin then some (outcome k) else none)
      have := ih (if e.pollin then k + 1 else k)
      omega

/-- Accepted entries are not ready, so a pass leaves them alone. -/
theorem pollin_of_mem_accepted {m_listen_socket : Fd} {es : List (PollFd × Option Outcome)}
    {e : PollFd} (h : e ∈ accepted m_listen_socket es) : e.pollin = false := by
  obtain ⟨x, -, hx⟩ := List.mem_filterMap.mp h
  rw [new_entry] at hx
  split at hx
  · obtain ⟨n, -, rfl⟩ := Option.map_eq_some_iff.mp hx
    rfl
  · cases hx

/-- Entries that are not ready stay, and nothing comes in for them. -/
theorem served_of_not_ready {outcome : Nat → Outcome} {k : Nat} {poll_fds : List PollFd}
    (h : ∀ e ∈ poll_fds, e.pollin = false) :
    served outcome k poll_fds = poll_fds.map fun e => (e, none) := by
  induction poll_fds with
  | nil => rfl
  | cons e rest ih =>
      have he : ¬ e.pollin = true := by simp [h e List.mem_cons_self]
      rw [served, if_neg he, ih fun x hx => h x (List.mem_cons_of_mem _ hx), List.map_cons]

theorem remaining_not_ready (m_listen_socket : Fd) (poll_fds : List PollFd) :
    remaining m_listen_socket (poll_fds.map fun e => (e, none)) = poll_fds := by
  have hkeep : ∀ x ∈ poll_fds.map fun e => (e, (none : Option Outcome)),
      decide (¬ Dropped m_listen_socket x) = true := by
    intro x hx
    obtain ⟨e, -, rfl⟩ := List.mem_map.mp hx
    simp [Dropped]
  rw [remaining, List.filter_eq_self.mpr hkeep, List.map_map]
  exact List.map_id _

theorem accepted_not_ready (m_listen_socket : Fd) (poll_fds : List PollFd) :
    accepted m_listen_socket (poll_fds.map fun e => (e, none)) = [] := by
  rw [accepted, List.filterMap_eq_nil_iff]
  intro x hx
  obtain ⟨e, -, rfl⟩ := List.mem_map.mp hx
  simp [new_entry]

/-! ## One step -/

/-- The loop at the border of what it has been over and what it has not. -/
def Pass.border (gone_over ahead : List PollFd) (log : List Visited) : Pass :=
  ⟨gone_over ++ ahead, gone_over.length, log⟩

/-- No run of the body moved the index up: `i--` on zero would. -/
def NoWrap (log : List Visited) : Prop := ∀ v ∈ log, v.i_after ≤ v.i

/-- The body at the border: a dropped entry leaves the vector, any other stays
    and the accepted one, if there is one, goes to the end. -/
theorem loop_body_border (m_listen_socket : Fd) (o : Outcome) (gone_over rest : List PollFd)
    (cur_fd : PollFd) :
    loop_body m_listen_socket o (gone_over ++ cur_fd :: rest) gone_over.length cur_fd
      = (let e := (cur_fd, if cur_fd.pollin then some o else none)
        if Dropped m_listen_socket e then (gone_over ++ rest, size_sub gone_over.length 1)
        else (gone_over ++ cur_fd :: (rest ++ (new_entry m_listen_socket e).toList),
          gone_over.length)) := by
  have herase : (gone_over ++ cur_fd :: rest).eraseIdx gone_over.length = gone_over ++ rest := by
    rw [List.eraseIdx_append_of_length_le (Nat.le_refl _), Nat.sub_self]
    rfl
  by_cases hp : cur_fd.pollin = true
  · by_cases hl : cur_fd.fd = m_listen_socket
    · cases hc : o.client_socket with
      | none => simp [loop_body, Dropped, new_entry, hp, hl, hc]
      | some n => simp [loop_body, Dropped, new_entry, hp, hl, hc]
    · cases hr : o.r <;> simp [loop_body, Dropped, new_entry, hp, hl, hr, herase]
  · simp [loop_body, Dropped, new_entry, hp]

/-- One step of the loop takes the border over one entry. -/
theorem next_border {m_listen_socket : Fd} (outcome : Nat → Outcome) (rest : List PollFd)
    {gone_over : List PollFd} {cur_fd : PollFd} {log : List Visited} {k : Nat}
    (hk : (Pass.border gone_over (cur_fd :: rest) log).handled.length = k)
    (hfirst : gone_over = [] → cur_fd.fd = m_listen_socket)
    (hlen : gone_over.length < max_entries) :
    ∃ j ≤ gone_over.length,
      (Pass.border gone_over (cur_fd :: rest) log).next m_listen_socket outcome cur_fd
        = (let e := (cur_fd, if cur_fd.pollin then some (outcome k) else none)
          Pass.border (gone_over ++ remaining m_listen_socket [e])
            (rest ++ accepted m_listen_socket [e]) (log ++ [⟨cur_fd, gone_over.length, j⟩])) := by
  rw [Pass.next, hk]
  simp only [Pass.border]
  rw [loop_body_border]
  generalize he : (cur_fd, if cur_fd.pollin then some (outcome k) else none) = e
  have hfst : e.1 = cur_fd := by rw [← he]
  by_cases hd : Dropped m_listen_socket e
  · -- the listening socket is never dropped, so something lies before the border
    have hpos : 1 ≤ gone_over.length := by
      rcases gone_over with _ | ⟨x, xs⟩
      · exact absurd (hfirst rfl) (hfst ▸ hd.1)
      · exact Nat.succ_pos _
    have hnew : accepted m_listen_socket [e] = [] := by
      simp [accepted, new_entry, hd.1]
    have hrem : remaining m_listen_socket [e] = [] := by simp [remaining, hd]
    refine ⟨gone_over.length - 1, Nat.sub_le _ _, ?_⟩
    simp only [if_pos hd, hnew, hrem, List.append_nil, size_sub_of_le hpos]
    rw [size_succ_of_lt (by omega), Nat.sub_add_cancel hpos]
  · have hnew : accepted m_listen_socket [e] = (new_entry m_listen_socket e).toList := by
      rw [accepted]
      cases hn : new_entry m_listen_socket e <;> simp [hn]
    have hrem : remaining m_listen_socket [e] = [cur_fd] := by simp [remaining, hd, hfst]
    refine ⟨gone_over.length, Nat.le_refl _, ?_⟩
    simp only [if_neg hd, hnew, hrem, List.append_assoc, List.singleton_append,
      List.length_append, List.length_singleton, size_succ_of_lt hlen]

/-! ## The whole pass -/

/-- A ready entry is one handled entry more. -/
theorem handled_concat (gone_over ahead gone_over' ahead' : List PollFd) (log : List Visited)
    (v : Visited) :
    (Pass.border gone_over' ahead' (log ++ [v])).handled.length
      = if v.cur_fd.pollin then (Pass.border gone_over ahead log).handled.length + 1
        else (Pass.border gone_over ahead log).handled.length := by
  simp only [Pass.handled, Pass.border, List.map_append, List.map_singleton, List.filter_append,
    List.length_append]
  by_cases hv : v.cur_fd.pollin = true
  · rw [if_pos hv, List.filter_singleton, hv]
    rfl
  · rw [if_neg hv, List.filter_singleton, Bool.eq_false_iff.mpr hv]
    rfl

theorem NoWrap.concat {log : List Visited} (h : NoWrap log) {v : Visited} (hv : v.i_after ≤ v.i) :
    NoWrap (log ++ [v]) := by
  intro w hw
  rcases List.mem_append.mp hw with hw | hw
  · exact h w hw
  · rw [List.mem_singleton.mp hw]
    exact hv

/-- The loop over the entries ahead of the border, up to the ones in `new`. -/
theorem pass_loop_border (m_listen_socket : Fd) (outcome : Nat → Outcome)
    (gone_over ahead new : List PollFd) (log : List Visited) {k : Nat}
    (hk : (Pass.border gone_over (ahead ++ new) log).handled.length = k)
    (hfirst : gone_over = [] → ∀ e ∈ ahead.head?, e.fd = m_listen_socket)
    (hlen : gone_over.length + ahead.length ≤ max_entries) (hlog : NoWrap log) :
    ∃ log', log'.map Visited.cur_fd = log.map Visited.cur_fd ++ ahead ∧ NoWrap log'
      ∧ ∀ fuel, pass_loop m_listen_socket outcome (ahead.length + fuel)
          (Pass.border gone_over (ahead ++ new) log)
        = pass_loop m_listen_socket outcome fuel
          (Pass.border (gone_over ++ remaining m_listen_socket (served outcome k ahead))
            (new ++ accepted m_listen_socket (served outcome k ahead)) log') := by
  induction ahead generalizing gone_over new log k with
  | nil =>
      refine ⟨log, (List.append_nil _).symm, hlog, ?_⟩
      intro fuel
      simp [served, remaining, accepted]
  | cons cur_fd rest ih =>
      have hcur : gone_over = [] → cur_fd.fd = m_listen_socket := fun h => hfirst h cur_fd rfl
      rw [List.length_cons] at hlen
      obtain ⟨j, hj, hnext⟩ :=
        next_border outcome (rest ++ new) hk hcur (by omega)
      simp only at hnext
      generalize he : (cur_fd, if cur_fd.pollin then some (outcome k) else none) = e at hnext
      have hone : (remaining m_listen_socket [e]).length ≤ 1 := by
        rw [remaining, List.length_map]
        exact List.length_filter_le _ _
      -- at the start of the vector only the listening socket can be gone over, and it stays
      have hbehind : gone_over ++ remaining m_listen_socket [e] ≠ [] := by
        intro hnil
        obtain ⟨hg, hr⟩ := List.append_eq_nil_iff.mp hnil
        have hd : ¬ Dropped m_listen_socket e := fun hd => hd.1 (by rw [← he]; exact hcur hg)
        simp [remaining, hd] at hr
      obtain ⟨log', hmap, hwrap, hloop⟩ :=
        ih (gone_over ++ remaining m_listen_socket [e]) (new ++ accepted m_listen_socket [e])
          (log ++ [⟨cur_fd, gone_over.length, j⟩]) (k := if cur_fd.pollin then k + 1 else k)
          (by rw [handled_concat gone_over (cur_fd :: rest ++ new), hk])
          (fun h => absurd h hbehind)
          (by rw [List.length_append]; omega)
          (hlog.concat hj)
      refine ⟨log', ?_, hwrap, ?_⟩
      · rw [hmap, List.map_append, List.append_assoc]
        rfl
      · intro fuel
        have hat : (Pass.border gone_over (cur_fd :: (rest ++ new)) log).poll_fds[
            (Pass.border gone_over (cur_fd :: (rest ++ new)) log).i]? = some cur_fd := by
          simp [Pass.border]
        have hfuel : (cur_fd :: rest).length + fuel = (rest.length + fuel) + 1 := by
          rw [List.length_cons]
          omega
        rw [served_cons, he, remaining_append, accepted_append, ← List.append_assoc,
          ← List.append_assoc, ← hloop fuel, hfuel, List.cons_append, pass_loop, hat]
        simp only
        rw [hnext, List.append_assoc]

/-- The loop ends at the end of the vector. -/
theorem pass_loop_end (m_listen_socket : Fd) (outcome : Nat → Outcome) (fuel : Nat)
    (gone_over : List PollFd) (log : List Visited) :
    pass_loop m_listen_socket outcome (fuel + 1) (Pass.border gone_over [] log)
      = some (Pass.border gone_over [] log) := by
  simp [pass_loop, Pass.border]

/-- The first entry is the listening socket's. -/
def ListeningFirst (m_listen_socket : Fd) (poll_fds : List PollFd) : Prop :=
  poll_fds.head?.map PollFd.fd = some m_listen_socket

instance (m_listen_socket : Fd) (poll_fds : List PollFd) :
    Decidable (ListeningFirst m_listen_socket poll_fds) :=
  inferInstanceAs (Decidable (_ = _))

/-- The listening socket stays. -/
theorem remaining_ne_nil {m_listen_socket : Fd} {poll_fds : List PollFd} (outcome : Nat → Outcome)
    (h : ListeningFirst m_listen_socket poll_fds) :
    remaining m_listen_socket (served outcome 0 poll_fds) ≠ [] := by
  obtain ⟨listen, hhead, hfd⟩ := Option.map_eq_some_iff.mp h
  obtain ⟨clients, rfl⟩ := List.head?_eq_some_iff.mp hhead
  intro hnil
  have hkept : listen ∈ remaining m_listen_socket (served outcome 0 (listen :: clients)) := by
    refine List.mem_map.mpr ⟨(listen, if listen.pollin then some (outcome 0) else none), ?_, rfl⟩
    rw [served_cons, List.mem_filter]
    exact ⟨by simp, by simp [Dropped, hfd]⟩
  rw [hnil] at hkept
  cases hkept

/-- **ONE PASS**: over a vector with the listening socket first, whatever is
    ready and whatever the calls return, the loop ends; it has been at every
    entry once and in order, then at the accepted ones, and called `accept` or
    `read_request` for the ready original ones only; the index never went below
    zero; and the vector holds the entries that stay, in their order, with the
    accepted ones behind them. -/
theorem one_pass {m_listen_socket : Fd} {poll_fds : List PollFd} (outcome : Nat → Outcome)
    (hfirst : ListeningFirst m_listen_socket poll_fds)
    (hfit : poll_fds.length
      + (accepted m_listen_socket (served outcome 0 poll_fds)).length ≤ max_entries) :
    ∃ s : Pass,
      (∀ fuel, poll_fds.length + (accepted m_listen_socket (served outcome 0 poll_fds)).length
          < fuel → poll_pass m_listen_socket outcome fuel poll_fds = some s)
        ∧ s.log.map Visited.cur_fd
          = poll_fds ++ accepted m_listen_socket (served outcome 0 poll_fds)
        ∧ s.handled = poll_fds.filter PollFd.pollin
        ∧ NoWrap s.log
        ∧ s.poll_fds = remaining m_listen_socket (served outcome 0 poll_fds)
          ++ accepted m_listen_socket (served outcome 0 poll_fds) := by
  have hstart := remaining_ne_nil outcome hfirst
  have hrem := remaining_length_le m_listen_socket outcome 0 poll_fds
  obtain ⟨log, hmap, hwrap, hloop⟩ :=
    pass_loop_border m_listen_socket outcome [] poll_fds [] [] (k := 0) rfl
      (fun _ e he => by rw [ListeningFirst, he] at hfirst; exact Option.some.inj hfirst)
      (by rw [List.length_nil, Nat.zero_add]; omega) (fun _ hv => nomatch hv)
  generalize served outcome 0 poll_fds = es at *
  have hidle : ∀ e ∈ accepted m_listen_socket es, e.pollin = false :=
    fun e he => pollin_of_mem_accepted he
  -- the accepted entries are gone over as well, and no call is made for them
  obtain ⟨log', hmap', hwrap', hloop'⟩ :=
    pass_loop_border m_listen_socket outcome (remaining m_listen_socket es)
      (accepted m_listen_socket es) [] log rfl (fun h => absurd h hstart) (by omega) hwrap
  rw [served_of_not_ready hidle, remaining_not_ready, accepted_not_ready] at hloop'
  simp only [List.append_nil, List.nil_append] at hloop hloop'
  have hvisited : log'.map Visited.cur_fd = poll_fds ++ accepted m_listen_socket es := by
    rw [hmap', hmap, List.map_nil, List.nil_append]
  refine ⟨Pass.border (remaining m_listen_socket es ++ accepted m_listen_socket es) [] log', ?_,
    hvisited, ?_, hwrap', List.append_nil _⟩
  · intro fuel hfuel
    obtain ⟨spare, rfl⟩ := Nat.exists_eq_add_of_lt hfuel
    rw [poll_pass, Nat.add_assoc, Nat.add_assoc]
    show pass_loop _ _ _ (Pass.border [] poll_fds []) = _
    rw [hloop, hloop', pass_loop_end]
  · have hnone : (accepted m_listen_socket es).filter PollFd.pollin = [] := by
      rw [List.filter_eq_nil_iff]
      intro e he
      simp [hidle e he]
    rw [Pass.handled]
    show (log'.map Visited.cur_fd).filter PollFd.pollin = _
    rw [hvisited, List.filter_append, hnone, List.append_nil]

/-- The listening socket accepts, two adjacent clients go, one is not ready and
    one stays. -/
theorem two_adjacent_gone :
    ∃ s : Pass, poll_pass 3
        (fun k => if k = 0 then ⟨some 9, .READ_MORE⟩
          else if k ≤ 2 then ⟨none, .CONNECTION_ABORTED⟩ else ⟨none, .END_OF_CONNECTION⟩) 20
        [⟨3, true⟩, ⟨5, true⟩, ⟨6, true⟩, ⟨7, false⟩, ⟨8, true⟩] = some s
      ∧ NoWrap s.log ∧ s.handled = [⟨3, true⟩, ⟨5, true⟩, ⟨6, true⟩, ⟨8, true⟩]
      ∧ s.poll_fds = [⟨3, true⟩, ⟨7, false⟩, ⟨8, true⟩, ⟨9, false⟩] := by
  have hfirst : ListeningFirst 3 [⟨3, true⟩, ⟨5, true⟩, ⟨6, true⟩, ⟨7, false⟩, ⟨8, true⟩] := by
    decide
  obtain ⟨s, hs, -, hhandled, hwrap, hfds⟩ :=
    one_pass
      (fun k => if k = 0 then ⟨some 9, .READ_MORE⟩
        else if k ≤ 2 then ⟨none, .CONNECTION_ABORTED⟩ else ⟨none, .END_OF_CONNECTION⟩)
      hfirst (by decide)
  exact ⟨s, hs 20 (by decide), hwrap, hhandled, hfds⟩

/-! ## The server's passes -/

/-- The listening socket's number stands first and nowhere else. -/
def ListeningOnlyFirst (m_listen_socket : Fd) (poll_fds : List PollFd) : Prop :=
  ∃ fds, poll_fds.map PollFd.fd = m_listen_socket :: fds ∧ m_listen_socket ∉ fds

theorem ListeningOnlyFirst.first {m_listen_socket : Fd} {poll_fds : List PollFd}
    (h : ListeningOnlyFirst m_listen_socket poll_fds) :
    ListeningFirst m_listen_socket poll_fds := by
  obtain ⟨fds, hmap, -⟩ := h
  rw [ListeningFirst, ← List.head?_map, hmap, List.head?_cons]

/-- A client is never at the first place. -/
theorem ListeningFirst.pos {m_listen_socket : Fd} {poll_fds : List PollFd} {i : Nat}
    {cur_fd : PollFd} (h : ListeningFirst m_listen_socket poll_fds)
    (hi : poll_fds[i]? = some cur_fd) (hne : cur_fd.fd ≠ m_listen_socket) : 1 ≤ i := by
  rcases i with _ | i
  · rw [ListeningFirst, List.head?_eq_getElem?, hi] at h
    exact absurd (Option.some.inj h) hne
  · exact Nat.succ_pos i

theorem ListeningOnlyFirst.push_back {m_listen_socket n : Fd} {poll_fds : List PollFd}
    (h : ListeningOnlyFirst m_listen_socket poll_fds) (hn : n ≠ m_listen_socket) (b : Bool) :
    ListeningOnlyFirst m_listen_socket (poll_fds ++ [⟨n, b⟩]) := by
  obtain ⟨fds, hmap, hmem⟩ := h
  refine ⟨fds ++ [n], by rw [List.map_append, hmap]; rfl, ?_⟩
  simp [hmem, Ne.symm hn]

theorem ListeningOnlyFirst.erase {m_listen_socket : Fd} {poll_fds : List PollFd} {i : Nat}
    (h : ListeningOnlyFirst m_listen_socket poll_fds) (hi : 1 ≤ i) :
    ListeningOnlyFirst m_listen_socket (poll_fds.eraseIdx i) := by
  obtain ⟨fds, hmap, hmem⟩ := h
  obtain ⟨i, rfl⟩ := Nat.exists_eq_add_of_le' hi
  refine ⟨fds.eraseIdx i, ?_, fun hm => hmem (List.mem_of_mem_eraseIdx hm)⟩
  rw [← List.eraseIdx_map, hmap, List.eraseIdx_cons_succ]

theorem Visit.listening {s s' : Sys} {k : Kernel} {cur : Fd} {rd : ReadResult} {cl : Client}
    (hv : Visit s k cur rd cl s') (h : ListeningOnlyFirst s.m_listen_socket s.poll_fds)
    (hi : 1 ≤ s.i) : ListeningOnlyFirst s'.m_listen_socket s'.poll_fds := by
  cases hv with
  | throws | more | complete => exact h
  | gone => exact h.erase hi

theorem getElem?_of_current {s : HttpServer} {cur : PollFd} (h : current s = some cur) :
    s.poll_fds[s.i]? = some cur := by
  rw [current] at h
  split at h
  · cases h
  · exact h

/-- The vector of the server has the listening socket first and only there. -/
theorem listening_only_first {ok : Sys → Label → Prop} {s : Sys} (h : server.Reach ok s) :
    ListeningOnlyFirst s.m_listen_socket s.poll_fds := by
  refine h.invariant (I := fun s => ListeningOnlyFirst s.m_listen_socket s.poll_fds) ?_ ?_
  · intro s h0
    exact ⟨[], by rw [h0.poll_fds]; rfl, List.not_mem_nil⟩
  · intro s l s' hi _ hs
    cases step_cases hs with
    | poll_error | skip | accept_error | accept_flags | start | work | peer => exact hi
    | poll ready hlen =>
        obtain ⟨fds, hmap, hmem⟩ := hi
        exact ⟨fds, by rw [← hmap]; exact map_fd_set_revents hlen, hmem⟩
    | accept n hn hl =>
        have hne : n ≠ s.m_listen_socket := fun he => hn (he ▸ hl)
        exact hi.push_back hne false
    | read cur rd k cl _ hcur hne hcl hk hv =>
        exact hv.listening hi (hi.first.pos (getElem?_of_current hcur) hne)

/-- The locals of the loop are those of the server. -/
def HttpServer.pass (s : HttpServer) (log : List Visited) : Pass := ⟨s.poll_fds, s.i, log⟩

/-- What the loop can do between two tests of its condition, as a step of a pass
    over the same vector. -/
def OneVisit (s s' : HttpServer) : Prop :=
  ∃ cur_fd o, current s = some cur_fd ∧ ∀ log, ∃ v,
    s'.pass (log ++ [v]) = (s.pass log).next s.m_listen_socket (fun _ => o) cur_fd

/-- A visit that leaves what the body leaves, and goes on to the next index. -/
theorem OneVisit.of_body {s s' : HttpServer} {cur_fd : PollFd} (o : Outcome)
    (hcur : current s = some cur_fd)
    (hbody : (s'.poll_fds, s'.i) = (let r := loop_body s.m_listen_socket o s.poll_fds s.i cur_fd
      (r.1, size_succ r.2))) : OneVisit s s' := by
  obtain ⟨hfds, hi⟩ := Prod.mk.inj hbody
  refine ⟨cur_fd, o, hcur, ?_⟩
  intro log
  refine ⟨⟨cur_fd, s.i, (loop_body s.m_listen_socket o s.poll_fds s.i cur_fd).2⟩, ?_⟩
  rw [HttpServer.pass, hfds, hi]
  rfl

theorem lt_of_current {s : HttpServer} {cur : PollFd} (h : current s = some cur) :
    s.i < s.poll_fds.length :=
  (List.getElem?_eq_some_iff.mp (getElem?_of_current h)).1

/-- A visit that reads and does not leave the loop. -/
theorem visit_client_pass {s : Sys} {k : Kernel} {cur_fd : PollFd} {client : Client}
    {r : Except Fault State} (hcur : current s.toHttpServer = some cur_fd)
    (hready : cur_fd.pollin = true) (hne : cur_fd.fd ≠ s.m_listen_socket)
    (hfirst : ListeningFirst s.m_listen_socket s.poll_fds)
    (hfit : s.poll_fds.length ≤ max_entries) :
    (visit_client s k cur_fd.fd client r).ended = true
      ∨ OneVisit s.toHttpServer (visit_client s k cur_fd.fd client r).toHttpServer := by
  have hi := hfirst.pos (getElem?_of_current hcur) hne
  have hlt := lt_of_current hcur
  cases r with
  | error f => exact Or.inl rfl
  | ok st =>
      refine Or.inr (.of_body ⟨none, st⟩ hcur ?_)
      -- at `i - 1` after the erasure, and the `i++` goes back to `i`
      have hback : size_succ (size_sub s.i 1) = s.i := by
        rw [size_sub_of_le hi, size_succ_of_lt (by omega), Nat.sub_add_cancel hi]
      have hnext : size_succ s.i = s.i + 1 := size_succ_of_lt (by omega)
      cases st <;> simp [visit_client, loop_body, hready, hne, hback, hnext]

/-- An accept that does not leave the loop. -/
theorem accept_pass {s s' : Sys} {r : AcceptResult} (hfit : s.poll_fds.length ≤ max_entries)
    (hs : step s (.accept r) = some s') :
    s'.ended = true ∨ OneVisit s.toHttpServer s'.toHttpServer := by
  obtain ⟨cur_fd, hcur, h⟩ := Option.bind_eq_some_iff.mp hs
  have hnext : size_succ s.i = s.i + 1 :=
    size_succ_of_lt (Nat.lt_of_lt_of_le (lt_of_current hcur) hfit)
  split at h
  · next hg =>
      cases r with
      | error =>
          cases h
          refine Or.inr (.of_body ⟨none, .READ_MORE⟩ hcur ?_)
          simp [loop_body, hg, hnext]
      | fd n nonblocking =>
          simp only at h
          split at h
          · cases h
          · split at h
            · cases h
              refine Or.inr (.of_body ⟨some n, .READ_MORE⟩ hcur ?_)
              simp [loop_body, hg, hnext, accept_client, push_client]
            · cases h
              exact Or.inl rfl
  · cases h

/-- **THE SERVER'S LOOP IS THIS LOOP**: a step of the server leaves the loop,
    starts a pass over a vector with the listening socket first and only there,
    is one step of the pass, or touches neither the vector nor the index. -/
theorem step_pass {ok : Sys → Label → Prop} {s s' : Sys} {l : Label} (h : server.Reach ok s)
    (hfit : s.poll_fds.length ≤ max_entries) (hs : step s l = some s') :
    s'.ended = true
      ∨ (ListeningOnlyFirst s'.m_listen_socket s'.poll_fds ∧ s'.i = 0)
      ∨ OneVisit s.toHttpServer s'.toHttpServer
      ∨ ∀ log, s'.pass log = s.pass log := by
  have hfirst := listening_only_first h
  cases l with
  | poll ready =>
      cases step_cases hs with
      | poll_error => exact Or.inl rfl
      | poll ready hlen =>
          obtain ⟨fds, hmap, hmem⟩ := hfirst
          exact Or.inr (Or.inl ⟨⟨fds, by rw [← hmap]; exact map_fd_set_revents hlen, hmem⟩, rfl⟩)
      | peer _ _ _ _ _ _ _ hl => simp at hl
  | skip =>
      obtain ⟨cur_fd, hcur, h⟩ := Option.bind_eq_some_iff.mp hs
      split at h
      · cases h
      · next hready =>
          have hlt := lt_of_current hcur
          cases h
          refine Or.inr (Or.inr (Or.inl (.of_body ⟨none, .READ_MORE⟩ hcur ?_)))
          simp [loop_body, hready, size_succ_of_lt (Nat.lt_of_lt_of_le hlt hfit)]
  | accept r =>
      rcases accept_pass hfit hs with hend | hvisit
      · exact Or.inl hend
      · exact Or.inr (Or.inr (Or.inl hvisit))
  | read rd =>
      obtain ⟨cur_fd, hcur, h⟩ := Option.bind_eq_some_iff.mp hs
      split at h
      · next hg =>
          obtain ⟨k, -, rfl⟩ := Option.map_eq_some_iff.mp h
          rcases visit_client_pass hcur hg.1 hg.2 hfirst.first hfit with hend | hvisit
          · exact Or.inl hend
          · exact Or.inr (Or.inr (Or.inl hvisit))
      · cases h
  | start | work | peer_send | peer_close | peer_reset =>
      cases step_cases hs <;> exact Or.inr (Or.inr (Or.inr fun log => rfl))

end WebLib.EventLoop
