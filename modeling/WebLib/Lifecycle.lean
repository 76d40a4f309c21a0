import WebLib.EventLoop

/-! # Starting and stopping the server

    `listen_start` makes a socket, sets it up statement by statement and stays in
    `event_loop`; `stop_server` closes `m_listen_socket` and clears `is_running`,
    from a signal handler or another thread, so between any two statements of the
    first; `~HttpServer` closes `m_listen_socket` once more.  None of them asks
    whether the number is still theirs, and the rest of the process opens and
    closes descriptors of its own in the meantime.

    The history numbers the sockets of `server_setup` and notes what each `close`
    of the server closed. -/

namespace WebLib.Lifecycle

open WebLib UnorderedMap TransitionSystem

/-- A descriptor number. -/
abbrev Fd := Nat

/-- What a descriptor refers to: the `k`-th socket of `server_setup`, or what the
    rest of the process opened. -/
inductive File where
  | listener (k : Nat)
  | other
deriving DecidableEq, Repr

/-- The statement `listen_start` is at. -/
inductive Stage where
  /-- not called, returned, or left by an exception -/
  | idle
  /-- at `setsockopt` -/
  | created
  /-- at `bind` -/
  | flagged
  /-- at `is_running = true` -/
  | bound
  /-- at `listen` -/
  | running
  /-- at `while (is_running)` -/
  | loop
  /-- in the body of that loop -/
  | body
deriving DecidableEq, Repr

/-- Between `socket` and the loop. -/
def Stage.setting_up : Stage → Bool
  | .created | .flagged | .bound | .running => true
  | _ => false

/-- The members of `HttpServer` that are read here; `none` is the negative number
    of a failed `socket`. -/
structure HttpServer where
  m_listen_socket : Option Fd
  is_running : Bool
  stage : Stage
deriving DecidableEq, Repr

/-- With the descriptor table, whether the destructor has run, the numbers
    `socket` returned, what each `close` closed, and whether one came after the
    last successful `socket`. -/
structure Sys extends HttpServer where
  files : UnorderedMap Fd File
  destroyed : Bool
  sockets : List Fd
  closes : List (Option File)
  stopped : Bool

/-- What each call returns: a number or not, success or not; `pass` is the body
    of the loop, which can throw. -/
inductive Action where
  | socket (r : Option Fd)
  | setsockopt (ok : Bool)
  | bind (ok : Bool)
  | run
  | listen (ok : Bool)
  | test
  | pass (ok : Bool)
  | stop_server
  | destroy
  | other_open (fd : Fd)
  | other_close (fd : Fd)
deriving DecidableEq, Repr

/-- The number that the rest of the process opens. -/
def Action.opened : Action → Option Fd
  | .other_open fd => some fd
  | _ => none

namespace Sys

/-- What `m_listen_socket` refers to. -/
def file (s : Sys) : Option File := s.m_listen_socket.bind s.files.find

def goto (s : Sys) (stage : Stage) : Sys := { s with stage := stage }

/-- A call on `m_listen_socket` at this stage; a failure throws, and a number
    that is not open makes it fail. -/
def call (s : Sys) (at_stage : Stage) (ok : Bool) (next : Stage) : Option Sys :=
  if s.stage = at_stage then
    if ok then if s.file = none then none else some (s.goto next)
    else some (s.goto .idle)
  else none

/-- `close(m_listen_socket)`. -/
def close_listener (s : Sys) : Sys :=
  { s with
    files := match s.m_listen_socket with
      | none => s.files
      | some fd => s.files.erase fd
    closes := s.closes ++ [s.file]
    stopped := true }

/-- The socket that `server_setup` has just made. -/
def open_listener (s : Sys) (fd : Fd) : Sys :=
  { s with
    m_listen_socket := some fd
    files := s.files.assign fd (.listener s.sockets.length)
    sockets := s.sockets ++ [fd]
    stage := .created
    stopped := false }

end Sys

def step (s : Sys) (a : Action) : Option Sys :=
  if s.destroyed then none
  else
    match a with
    | .socket r =>
        if s.stage = .idle then
          match r with
          | none => some { s with m_listen_socket := none }
          | some fd => if fd ∈ s.files then none else some (s.open_listener fd)
        else none
    | .setsockopt ok => s.call .created ok .flagged
    | .bind ok => s.call .flagged ok .bound
    | .run => if s.stage = .bound then some { s.goto .running with is_running := true } else none
    | .listen ok => s.call .running ok .loop
    | .test =>
        if s.stage = .loop then some (s.goto (if s.is_running then .body else .idle)) else none
    | .pass ok => if s.stage = .body then some (s.goto (if ok then .loop else .idle)) else none
    | .stop_server => some { s.close_listener with is_running := false }
    | .destroy => some { s.close_listener with destroyed := true }
    | .other_open fd =>
        if fd ∈ s.files then none else some { s with files := s.files.assign fd .other }
    | .other_close fd =>
        if s.files.find fd = some .other then some { s with files := s.files.erase fd } else none

/-- The server object as static storage and its constructor leave it. -/
def init (files : UnorderedMap Fd File) : Sys :=
  { m_listen_socket := some 0
    is_running := false
    stage := .idle
    files := files
    destroyed := false
    sockets := []
    closes := []
    stopped := false }

/-- The server in a process that has opened what it likes. -/
def lifecycle : TransitionSystem Sys Action where
  init s := ∃ files : UnorderedMap Fd File,
    s = init files ∧ ∀ fd f, files.find fd = some f → f = .other
  step := step

/-! ## The steps -/

/-- What a step does. -/
inductive Move (s : Sys) : Action → Sys → Prop where
  | no_socket (hstage : s.stage = .idle) : Move s (.socket none) { s with m_listen_socket := none }
  | socket {fd : Fd} (hstage : s.stage = .idle) (hfd : fd ∉ s.files) :
      Move s (.socket (some fd)) (s.open_listener fd)
  /-- a call that succeeded, which it does on an open number only -/
  | called {a : Action} {next : Stage} (hfrom : s.stage.setting_up = true)
      (hnext : next.setting_up = true ∧ next ≠ .running ∨ s.stage = .running ∧ next = .loop)
      (hfile : s.file ≠ none) : Move s a (s.goto next)
  /-- an exception, or `while (is_running)` that was false -/
  | left {a : Action} (hfrom : s.stage ≠ .idle) : Move s a (s.goto .idle)
  | run (hstage : s.stage = .bound) : Move s .run { s.goto .running with is_running := true }
  | entered (hstage : s.stage = .loop) (hrun : s.is_running = true) : Move s .test (s.goto .body)
  | passed (hstage : s.stage = .body) : Move s (.pass true) (s.goto .loop)
  | stop_server : Move s .stop_server { s.close_listener with is_running := false }
  | destroy : Move s .destroy { s.close_listener with destroyed := true }
  | other_open {fd : Fd} (hfd : fd ∉ s.files) :
      Move s (.other_open fd) { s with files := s.files.assign fd .other }
  | other_close {fd : Fd} (hfd : s.files.find fd = some .other) :
      Move s (.other_close fd) { s with files := s.files.erase fd }

theorem call_move {s s' : Sys} {at_stage next : Stage} {ok : Bool} (a : Action)
    (h : s.call at_stage ok next = some s') (hat : at_stage.setting_up = true)
    (hnext : next.setting_up = true ∧ next ≠ .running ∨ at_stage = .running ∧ next = .loop) :
    Move s a s' := by
  rw [Sys.call] at h
  split at h
  · next hstage =>
      split at h
      · split at h
        · cases h
        · next hfile =>
            cases h
            exact .called (hstage ▸ hat) (hstage ▸ hnext) hfile
      · cases h
        refine .left fun hidle => ?_
        rw [← hstage, hidle] at hat
        cases hat
  · cases h

theorem step_move {s s' : Sys} {a : Action} (h : step s a = some s') : Move s a s' := by
  rw [step.eq_def] at h
  split at h
  · cases h
  cases a <;> simp only at h
  case socket r =>
    split at h
    · next hstage =>
        cases r with
        | none => cases h; exact .no_socket hstage
        | some fd =>
            simp only at h
            split at h <;> cases h
            exact .socket hstage ‹_›
    · cases h
  case setsockopt ok => exact call_move _ h rfl (Or.inl ⟨rfl, by decide⟩)
  case bind ok => exact call_move _ h rfl (Or.inl ⟨rfl, by decide⟩)
  case run => split at h <;> cases h; exact .run ‹_›
  case listen ok => exact call_move _ h rfl (Or.inr ⟨rfl, rfl⟩)
  case test =>
    split at h <;> cases h
    next hstage =>
      split
      · next hrun => exact .entered hstage hrun
      · exact .left (by rw [hstage]; decide)
  case pass ok =>
    split at h <;> cases h
    next hstage =>
      cases ok with
      | true => exact .passed hstage
      | false => exact .left (by rw [hstage]; decide)
  case stop_server => cases h; exact .stop_server
  case destroy => cases h; exact .destroy
  case other_open fd => split at h <;> cases h; exact .other_open ‹_›
  case other_close fd => split at h <;> cases h; exact .other_close ‹_›

/-! ## The number in `m_listen_socket` -/

/-- The last socket that `server_setup` made. -/
def Sys.last (s : Sys) : File := .listener (s.sockets.length - 1)

/-- Nobody but the server opens a descriptor under the number of the socket that
    is being set up. -/
def Undisturbed (s : Sys) (a : Action) : Prop :=
  ∀ fd ∈ a.opened, s.stage.setting_up = true → s.m_listen_socket ≠ some fd

instance (s : Sys) (a : Action) : Decidable (Undisturbed s a) :=
  inferInstanceAs (Decidable (∀ fd ∈ a.opened, _))

/-- What `listen_start` relies on where it is. -/
structure Serves (s : Sys) : Prop where
  own : s.stage ≠ .idle → s.stopped = false → s.file = some s.last
  gone : s.stage.setting_up = true → s.stopped = true → s.file = none
  flag : s.stage = .running → s.stopped = false → s.is_running = true
  answers : s.destroyed = false → s.stage = .loop ∨ s.stage = .body → s.is_running = !s.stopped

@[simp] theorem file_close_listener (s : Sys) : s.close_listener.file = none := by
  rw [Sys.file, Sys.close_listener]
  cases hm : s.m_listen_socket with
  | none => rfl
  | some fd =>
      simp only [Option.bind_some]
      rw [find_erase, if_pos rfl]

@[simp] theorem file_open_listener (s : Sys) (fd : Fd) :
    (s.open_listener fd).file = some (.listener s.sockets.length) := by
  show (s.files.assign fd (.listener s.sockets.length)).find fd = _
  rw [find_assign, if_pos rfl]

/-- A number that was not open is not that of an open file. -/
theorem file_other_open {s : Sys} {fd : Fd} (hne : s.m_listen_socket ≠ some fd) :
    Sys.file { s with files := s.files.assign fd .other } = s.file := by
  rw [Sys.file, Sys.file]
  cases hm : s.m_listen_socket with
  | none => rfl
  | some n =>
      simp only [Option.bind_some]
      rw [find_assign, if_neg]
      rintro rfl
      exact hne hm

theorem file_other_close (s : Sys) (fd : Fd) :
    Sys.file { s with files := s.files.erase fd }
      = if s.m_listen_socket = some fd then none else s.file := by
  rw [Sys.file, Sys.file]
  cases hm : s.m_listen_socket with
  | none => rfl
  | some n =>
      simp only [Option.bind_some, Option.some.injEq]
      rw [find_erase]

/-- An open number is not one that can be opened. -/
theorem number_ne_of_file {s : Sys} {f : File} {fd : Fd} (hf : s.file = some f)
    (hfd : fd ∉ s.files) : s.m_listen_socket ≠ some fd := by
  intro hm
  rw [Sys.file, hm, Option.bind_some, find_eq_none_iff.mpr hfd] at hf
  cases hf

/-- At rest there is nothing to rely on. -/
theorem Serves.of_idle {s : Sys} (h : s.stage = .idle) : Serves s where
  own hstage := absurd h hstage
  gone hstage := by rw [h] at hstage; cases hstage
  flag hstage := by rw [h] at hstage; cases hstage
  answers _ hstage := by rw [h] at hstage; rcases hstage with hl | hb <;> contradiction

/-- A call of the set-up that succeeded. -/
theorem Serves.called {s : Sys} {next : Stage} (h : Serves s)
    (hfrom : s.stage.setting_up = true)
    (hnext : next.setting_up = true ∧ next ≠ .running ∨ s.stage = .running ∧ next = .loop)
    (hfile : s.file ≠ none) : Serves (s.goto next) where
  own _ := h.own fun hi => by rw [hi] at hfrom; cases hfrom
  gone _ := h.gone hfrom
  flag hr := by
    rcases hnext with ⟨-, hne⟩ | ⟨-, hloop⟩
    · exact absurd hr hne
    · rw [hloop] at hr
      cases hr
  answers _ hl := by
    rcases hnext with ⟨hset, -⟩ | ⟨hrunning, -⟩
    · have hout : next.setting_up = false := by rcases hl with rfl | rfl <;> rfl
      rw [hset] at hout
      cases hout
    · -- `listen` succeeded, so the number was open and no stop had come
      show s.is_running = !s.stopped
      cases hst : s.stopped with
      | false => exact h.flag hrunning hst
      | true => exact absurd (h.gone hfrom hst) hfile

/-- A step within the loop. -/
theorem Serves.looping {s : Sys} {next : Stage} (h : Serves s)
    (hstage : s.stage = .loop ∨ s.stage = .body) (hnext : next = .loop ∨ next = .body) :
    Serves (s.goto next) where
  own _ := h.own (by rcases hstage with hl | hl <;> rw [hl] <;> decide)
  gone hset := by
    rcases hnext with rfl | rfl <;> cases hset
  flag hr := by
    rcases hnext with rfl | rfl <;> cases hr
  answers hd _ := h.answers hd hstage

theorem Serves.step {s s' : Sys} {a : Action} (h : Serves s) (hok : Undisturbed s a)
    (hs : Lifecycle.step s a = some s') : Serves s' := by
  cases step_move hs with
  | no_socket hstage => exact .of_idle hstage
  | @socket fd hstage hfd =>
      refine ⟨fun _ _ => ?_, fun _ hst => ?_, fun hr => ?_, fun _ hl => ?_⟩
      · rw [file_open_listener, Sys.last, Sys.open_listener, List.length_append,
          List.length_singleton, Nat.add_sub_cancel]
      · cases hst
      · cases hr
      · rcases hl with hl | hl <;> cases hl
  | called hfrom hnext hfile => exact h.called hfrom hnext hfile
  | left _ => exact .of_idle rfl
  | run hstage =>
      have hidle : s.stage ≠ .idle := fun hi => by rw [hi] at hstage; cases hstage
      refine ⟨fun _ => h.own hidle, fun _ => h.gone (by rw [hstage]; rfl), fun _ _ => rfl,
        fun _ hl => ?_⟩
      rcases hl with hl | hl <;> cases hl
  | entered hstage _ => exact h.looping (Or.inl hstage) (Or.inr rfl)
  | passed hstage => exact h.looping (Or.inr hstage) (Or.inl rfl)
  | stop_server =>
      exact ⟨(fun _ hst => nomatch hst), fun _ _ => file_close_listener s,
        (fun _ hst => nomatch hst), fun _ _ => rfl⟩
  | destroy =>
      exact ⟨(fun _ hst => nomatch hst), fun _ _ => file_close_listener s,
        (fun _ hst => nomatch hst), (fun hd _ => nomatch hd)⟩
  | @other_open fd hfd =>
      refine ⟨fun hstage hst => ?_, fun hset hst => ?_, h.flag, h.answers⟩
      · have hown := h.own hstage hst
        rw [file_other_open (number_ne_of_file hown hfd)]
        exact hown
      · rw [file_other_open (hok fd rfl hset)]
        exact h.gone hset hst
  | @other_close fd hfd =>
      refine ⟨fun hstage hst => ?_, fun hset hst => ?_, h.flag, h.answers⟩
      · have hown := h.own hstage hst
        rw [file_other_close, if_neg]
        · exact hown
        · intro hm
          rw [Sys.file, hm, Option.bind_some, hfd] at hown
          cases hown
      · rw [file_other_close, h.gone hset hst, ite_self]

theorem serves {s : Sys} (h : lifecycle.Reach Undisturbed s) : Serves s := by
  refine h.invariant ?_ fun s a s' hserves hok hs => hserves.step hok hs
  rintro s ⟨files, rfl, -⟩
  exact .of_idle rfl

/-- **NO STOP IS LOST ONCE THERE IS A SOCKET**: in every undisturbed run, when
    `listen_start` is in the loop, `is_running` is true exactly as long as
    `stop_server` has not been called since `socket` returned, wherever in the set-up
    that call came; and as long as it is true, `m_listen_socket` is the socket of
    this very set-up. -/
theorem stop_not_lost {s : Sys} (h : lifecycle.Reach Undisturbed s) (hd : s.destroyed = false)
    (hstage : s.stage = .loop ∨ s.stage = .body) :
    (s.is_running = true ↔ s.stopped = false)
      ∧ (s.is_running = true → s.file = some s.last) := by
  have hserves := serves h
  have hanswers := hserves.answers hd hstage
  have hidle : s.stage ≠ .idle := by rcases hstage with hl | hl <;> rw [hl] <;> decide
  have hiff : s.is_running = true ↔ s.stopped = false := by
    rw [hanswers, Bool.not_eq_true']
  exact ⟨hiff, fun hrun => hserves.own hidle (hiff.mp hrun)⟩

/-- The signal comes in the body of the loop, after a connection was accepted. -/
theorem stop_in_the_loop : ∃ s : Sys, lifecycle.Reach Undisturbed s ∧ s.stage = .loop
    ∧ s.stopped = true ∧ s.is_running = false := by
  have h0 : lifecycle.Reach Undisturbed (init ∅) := .init ⟨∅, rfl, fun _ _ hf => nomatch hf⟩
  obtain ⟨s, hs, hd, hstage, hstopped⟩ := h0.exists_of_run
    (fun s => s.destroyed = false ∧ s.stage = .loop ∧ s.stopped = true)
    [.socket (some 3), .setsockopt true, .bind true, .run, .listen true, .test, .other_open 4,
      .stop_server, .pass true]
    (by decide)
  refine ⟨s, hs, hstage, hstopped, ?_⟩
  cases hrun : s.is_running with
  | false => rfl
  | true =>
      have hlive := (stop_not_lost hs hd (Or.inl hstage)).1.mp hrun
      rw [hstopped] at hlive
      cases hlive

/-! ## Entering `event_loop` -/

/-- The descriptor table as `WebLib.EventLoop` has it before a connection. -/
def others (files : UnorderedMap Fd File) : UnorderedMap Fd EventLoop.File where
  entries := files.entries.map fun e => ⟨e.1, .other⟩
  nodupKeys := by
    have hkeys := files.nodupKeys
    rw [List.NodupKeys, List.keys] at hkeys ⊢
    rw [List.map_map]
    exact hkeys

theorem find_others {files : UnorderedMap Fd File} {fd : Fd} {f : EventLoop.File}
    (h : (others files).find fd = some f) : f = .other := by
  obtain ⟨e, -, he⟩ := List.mem_map.mp (mem_entries_iff.mpr h)
  cases he
  rfl

theorem mem_others {files : UnorderedMap Fd File} {fd : Fd} (h : fd ∈ files) :
    fd ∈ others files := by
  obtain ⟨f, hf⟩ := mem_iff_find.mp h
  exact mem_iff_find.mpr
    ⟨.other, mem_entries_iff.mp (List.mem_map.mpr ⟨_, mem_entries_iff.mpr hf, rfl⟩)⟩

/-- What a first call of `event_loop` starts with. -/
def Sys.event_loop (s : Sys) (threads_count : Nat) : Option EventLoop.Sys :=
  s.m_listen_socket.map fun m_listen_socket =>
    { EventLoop.entered m_listen_socket threads_count with files := others s.files }

/-- While `is_running` is true at the loop, it is an initial state of the server. -/
theorem enters_event_loop {s : Sys} (h : lifecycle.Reach Undisturbed s)
    (hd : s.destroyed = false) (hstage : s.stage = .loop) (hrun : s.is_running = true)
    (threads_count : Nat) :
    ∃ e, s.event_loop threads_count = some e ∧ EventLoop.server.init e := by
  have hserves := serves h
  have hstopped : s.stopped = false := by
    have hanswers := hserves.answers hd (Or.inl hstage)
    rwa [hrun, eq_comm, Bool.not_eq_true'] at hanswers
  have hfile := hserves.own (by rw [hstage]; decide) hstopped
  rw [Sys.file, Option.bind_eq_some_iff] at hfile
  obtain ⟨fd, hm, hfind⟩ := hfile
  refine ⟨_, by rw [Sys.event_loop, hm]; rfl, ?_⟩
  exact { EventLoop.init_entered fd threads_count with
    listening := mem_others (mem_iff_find.mpr ⟨_, hfind⟩)
    files := fun _ _ hf => find_others hf }

/-! ## What the server closes -/

/-- How often the server closed its `k`-th socket. -/
def Sys.closings (s : Sys) (k : Nat) : Nat := s.closes.count (some (.listener k))

/-- The books: a socket is open under the number it was made with or was closed,
    once, and no socket was closed that was not made. -/
structure Booked (s : Sys) : Prop where
  known : ∀ fd k, s.files.find fd = some (.listener k) → s.sockets[k]? = some fd
  made : ∀ k, s.sockets[k]? = none → s.closings k = 0
  law : ∀ k fd, s.sockets[k]? = some fd →
    s.closings k + (if s.files.find fd = some (.listener k) then 1 else 0) = 1

/-- Nothing of the server's is opened or closed. -/
theorem Booked.quiet {s s' : Sys} (h : Booked s) (hsockets : s'.sockets = s.sockets)
    (hcloses : s'.closes = s.closes)
    (hfiles : ∀ fd k,
      s'.files.find fd = some (.listener k) ↔ s.files.find fd = some (.listener k)) :
    Booked s' := by
  refine ⟨fun fd k hf => ?_, fun k hk => ?_, fun k fd hk => ?_⟩
  · rw [hsockets]
    exact h.known fd k ((hfiles fd k).mp hf)
  · rw [Sys.closings, hcloses]
    exact h.made k (hsockets ▸ hk)
  · rw [Sys.closings, hcloses]
    simp only [hfiles]
    exact h.law k fd (hsockets ▸ hk)

/-- A new socket is open under a number that was not. -/
theorem Booked.open_listener {s : Sys} (h : Booked s) {fd : Fd} (hfd : fd ∉ s.files) :
    Booked (s.open_listener fd) := by
  have hlast : (s.open_listener fd).sockets = s.sockets ++ [fd] := rfl
  have hfind : ∀ n, (s.open_listener fd).files.find n
      = if n = fd then some (.listener s.sockets.length) else s.files.find n :=
    fun n => find_assign s.files fd n _
  refine ⟨fun n k hf => ?_, fun k hk => ?_, fun k n hk => ?_⟩
  · rw [hfind] at hf
    rw [hlast, List.getElem?_append]
    split at hf
    · next hn =>
        cases hf
        rw [hn, if_neg (Nat.lt_irrefl _), Nat.sub_self]
        rfl
    · have hold := h.known n k hf
      rw [if_pos (List.getElem?_eq_some_iff.mp hold).1]
      exact hold
  · rw [hlast, List.getElem?_eq_none_iff, List.length_append, List.length_singleton] at hk
    exact h.made k (List.getElem?_eq_none_iff.mpr (by omega))
  · rw [hlast, List.getElem?_append] at hk
    rw [hfind]
    split at hk
    · next hlt =>
        have hlaw := h.law k n hk
        by_cases hn : n = fd
        · rw [hn, find_eq_none_iff.mpr hfd, if_neg (by simp)] at hlaw
          rw [if_pos hn, if_neg (by simp; omega)]
          exact hlaw
        · rw [if_neg hn]
          exact hlaw
    · next hge =>
        have hk' : k = s.sockets.length ∧ fd = n := by
          obtain ⟨hz, hn⟩ := List.getElem?_eq_some_iff.mp hk
          rw [List.length_singleton] at hz
          exact ⟨by omega, by simpa using hn⟩
        obtain ⟨rfl, rfl⟩ := hk'
        have hzero := h.made _ (List.getElem?_eq_none_iff.mpr (Nat.le_refl _))
        rw [if_pos rfl, if_pos rfl]
        show s.closings s.sockets.length + 1 = 1
        rw [hzero]

theorem file_eq_some_iff {s : Sys} {f : File} :
    s.file = some f ↔ ∃ fd, s.m_listen_socket = some fd ∧ s.files.find fd = some f := by
  rw [Sys.file, Option.bind_eq_some_iff]

theorem find_close_listener (s : Sys) (fd : Fd) :
    s.close_listener.files.find fd
      = if s.m_listen_socket = some fd then none else s.files.find fd := by
  rw [Sys.close_listener]
  cases hm : s.m_listen_socket with
  | none => rfl
  | some n =>
      simp only [Option.some.injEq, eq_comm (a := n) (b := fd)]
      exact find_erase s.files n fd

theorem closings_close_listener (s : Sys) (k : Nat) :
    s.close_listener.closings k
      = s.closings k + if s.file = some (.listener k) then 1 else 0 := by
  show (s.closes ++ [s.file]).count (some (.listener k)) = _
  rw [List.count_append, List.count_singleton]
  simp only [Sys.closings, beq_iff_eq]

/-- `close` takes a socket from the table to the history. -/
theorem Booked.close_listener {s : Sys} (h : Booked s) : Booked s.close_listener := by
  refine ⟨fun n k hf => ?_, fun k hk => ?_, fun k n hk => ?_⟩
  · rw [find_close_listener] at hf
    split at hf
    · cases hf
    · exact h.known n k hf
  · rw [closings_close_listener, h.made k hk, if_neg]
    intro hfile
    obtain ⟨fd, -, hfind⟩ := file_eq_some_iff.mp hfile
    have hknown := h.known fd k hfind
    rw [show s.sockets[k]? = none from hk] at hknown
    cases hknown
  · have hlaw := h.law k n hk
    rw [closings_close_listener, find_close_listener]
    by_cases hfile : s.file = some (.listener k)
    · -- the socket is open under its own number only, which is the one that is closed
      obtain ⟨fd, hm, hfind⟩ := file_eq_some_iff.mp hfile
      obtain rfl : fd = n := Option.some.inj ((h.known fd k hfind).symm.trans hk)
      rw [if_pos hfind] at hlaw
      rw [if_pos hfile, if_pos hm, if_neg (by simp)]
      exact hlaw
    · rw [if_neg hfile]
      by_cases hm : s.m_listen_socket = some n
      · have hfind : s.files.find n ≠ some (.listener k) :=
          fun hf => hfile (file_eq_some_iff.mpr ⟨n, hm, hf⟩)
        rw [if_neg hfind] at hlaw
        rw [if_pos hm, if_neg (by simp)]
        exact hlaw
      · rw [if_neg hm]
        exact hlaw

theorem Booked.step {s s' : Sys} {a : Action} (h : Booked s)
    (hs : Lifecycle.step s a = some s') : Booked s' := by
  cases step_move hs with
  | socket _ hfd => exact h.open_listener hfd
  | stop_server | destroy =>
      exact h.close_listener.quiet rfl rfl fun _ _ => Iff.rfl
  | @other_open fd hfd =>
      refine h.quiet rfl rfl fun n k => ?_
      show (s.files.assign fd .other).find n = _ ↔ _
      rw [find_assign]
      split
      · next hn => rw [hn, find_eq_none_iff.mpr hfd]; simp
      · exact Iff.rfl
  | @other_close fd hfd =>
      refine h.quiet rfl rfl fun n k => ?_
      show find (s.files.erase fd) n = _ ↔ _
      rw [find_erase]
      split
      · next hn => rw [hn, hfd]; simp
      · exact Iff.rfl
  | _ => exact h.quiet rfl rfl fun _ _ => Iff.rfl

theorem booked {ok : Sys → Action → Prop} {s : Sys} (h : lifecycle.Reach ok s) : Booked s := by
  refine h.invariant ?_ fun s a s' hbooked _ hs => hbooked.step hs
  rintro s ⟨files, rfl, hother⟩
  refine ⟨fun fd k hf => ?_, fun k _ => rfl, fun k fd hk => nomatch hk⟩
  cases hother fd _ hf

/-- **EVERY LISTENING SOCKET IS ON THE BOOKS**: in every run, a socket that
    `server_setup` made is open under the number it was made with or has been closed
    once, by the server, and never both; so none is closed twice, however often
    `stop_server` and the destructor close the number. -/
theorem listeners_booked {s : Sys} (h : lifecycle.Reachable s) {k : Nat} {fd : Fd}
    (hk : s.sockets[k]? = some fd) :
    (s.files.find fd = some (.listener k) ∧ some (.listener k) ∉ s.closes)
      ∨ (s.closings k = 1 ∧ ∀ n, s.files.find n ≠ some (.listener k)) := by
  have hbooked := booked h
  have hlaw := hbooked.law k fd hk
  by_cases hopen : s.files.find fd = some (.listener k)
  · rw [if_pos hopen] at hlaw
    exact Or.inl ⟨hopen, List.count_eq_zero.mp (by rw [Sys.closings] at hlaw; omega)⟩
  · rw [if_neg hopen] at hlaw
    refine Or.inr ⟨hlaw, fun n hn => ?_⟩
    obtain rfl : n = fd := Option.some.inj ((hbooked.known n k hn).symm.trans hk)
    exact hopen hn

/-- A second `listen_start` forgets the first socket, which stays open. -/
theorem restart_leaks : ∃ s : Sys, lifecycle.Reachable s ∧ s.sockets = [3, 4]
    ∧ s.closes = [some (.listener 1), none] ∧ s.files.find 3 = some (.listener 0) := by
  have h0 : lifecycle.Reachable (init ∅) := .init ⟨∅, rfl, fun _ _ hf => nomatch hf⟩
  obtain ⟨s, hs, hsockets, hcloses⟩ := h0.exists_of_run
    (fun s => s.sockets = [3, 4] ∧ s.closes = [some (.listener 1), none])
    [.socket (some 3), .setsockopt true, .bind false, .socket (some 4), .setsockopt true,
      .bind true, .stop_server, .run, .listen false, .destroy]
    (by decide)
  have hfirst : s.sockets[0]? = some 3 := by rw [hsockets]; rfl
  rcases listeners_booked hs hfirst with ⟨hopen, -⟩ | ⟨hone, -⟩
  · exact ⟨s, hs, hsockets, hcloses, hopen⟩
  · rw [Sys.closings, hcloses] at hone
    cases hone

/-! ## What the server closes that is not its own -/

/-- No number in `m_listen_socket` is opened by anybody else, and no `close` comes
    before the first `socket`, when it would be that of descriptor 0. -/
def Apart (s : Sys) (a : Action) : Prop :=
  (∀ fd ∈ a.opened, s.m_listen_socket ≠ some fd)
    ∧ (a = .stop_server ∨ a = .destroy → s.m_listen_socket = none ∨ s.sockets ≠ [])

instance (s : Sys) (a : Action) : Decidable (Apart s a) :=
  inferInstanceAs (Decidable ((∀ fd ∈ a.opened, _) ∧ _))

/-- The number is the server's, or nobody's. -/
structure Own (s : Sys) : Prop where
  file : s.m_listen_socket = none ∨ s.sockets ≠ [] → s.file ≠ some .other
  closes : some .other ∉ s.closes

theorem Own.quiet {s s' : Sys} (h : Own s) (hnumber : s'.m_listen_socket = s.m_listen_socket)
    (hsockets : s'.sockets = s.sockets) (hcloses : s'.closes = s.closes)
    (hfile : s'.file = some .other → s.file = some .other) : Own s' := by
  refine ⟨fun hstart hf => ?_, hcloses ▸ h.closes⟩
  rw [hnumber, hsockets] at hstart
  exact h.file hstart (hfile hf)

theorem Own.close_listener {s : Sys} (h : Own s)
    (hstart : s.m_listen_socket = none ∨ s.sockets ≠ []) : Own s.close_listener := by
  refine ⟨fun _ hf => ?_, fun hm => ?_⟩
  · rw [file_close_listener] at hf
    cases hf
  · rcases List.mem_append.mp hm with hold | hnew
    · exact h.closes hold
    · exact h.file hstart (List.mem_singleton.mp hnew).symm

theorem Own.step {s s' : Sys} {a : Action} (h : Own s) (hok : Apart s a)
    (hs : Lifecycle.step s a = some s') : Own s' := by
  cases step_move hs with
  | no_socket _ => exact ⟨(fun _ hf => nomatch hf), h.closes⟩
  | socket _ hfd =>
      refine ⟨fun _ hf => ?_, h.closes⟩
      rw [file_open_listener] at hf
      cases hf
  | stop_server =>
      exact (h.close_listener (hok.2 (Or.inl rfl))).quiet rfl rfl rfl id
  | destroy =>
      exact (h.close_listener (hok.2 (Or.inr rfl))).quiet rfl rfl rfl id
  | @other_open fd hfd =>
      refine h.quiet rfl rfl rfl fun hf => ?_
      rwa [file_other_open (hok.1 fd rfl)] at hf
  | @other_close fd hfd =>
      refine h.quiet rfl rfl rfl fun hf => ?_
      rw [file_other_close] at hf
      split at hf
      · cases hf
      · exact hf
  | _ => exact h.quiet rfl rfl rfl id

/-- **THE SERVER CLOSES NOTHING ELSE**: in every run that keeps the number apart,
    what a `close` of the server closes is one of its own sockets or nothing at all,
    however often and in whatever order it is called. -/
theorem closes_only_own {s : Sys} (h : lifecycle.Reach Apart s) {f : File}
    (hf : some f ∈ s.closes) : ∃ k, k < s.sockets.length ∧ f = .listener k ∧ s.closings k = 1 := by
  have hown : Own s := by
    refine h.invariant ?_ fun s a s' hown hok hs => hown.step hok hs
    rintro s ⟨files, rfl, -⟩
    refine ⟨fun hstart => ?_, List.not_mem_nil⟩
    rcases hstart with hstart | hstart
    · cases hstart
    · exact absurd rfl hstart
  cases f with
  | other => exact absurd hf hown.closes
  | listener k =>
      have hbooked := booked h
      have hcount : s.closings k ≠ 0 := by
        rw [Sys.closings, Ne, List.count_eq_zero]
        exact fun hn => hn hf
      cases hk : s.sockets[k]? with
      | none => exact absurd (hbooked.made k hk) hcount
      | some fd =>
          have hlaw := hbooked.law k fd hk
          exact ⟨k, (List.getElem?_eq_some_iff.mp hk).1, rfl, by omega⟩

/-- SIGINT: `stop_server`, then the destructor, with a client open. -/
theorem closed_by_signal : ∃ s : Sys, lifecycle.Reach Apart s
    ∧ s.closes = [some (.listener 0), none] ∧ s.closings 0 = 1 := by
  have h0 : lifecycle.Reach Apart (init ∅) := .init ⟨∅, rfl, fun _ _ hf => nomatch hf⟩
  obtain ⟨s, hs, hcloses⟩ := h0.exists_of_run
    (fun s => s.closes = [some (.listener 0), none])
    [.socket (some 3), .setsockopt true, .bind true, .run, .listen true, .test, .other_open 4,
      .stop_server, .destroy]
    (by decide)
  obtain ⟨k, -, hk, hone⟩ :=
    closes_only_own hs (f := .listener 0) (by rw [hcloses]; exact List.mem_cons_self)
  cases hk
  exact ⟨s, hs, hcloses, hone⟩

/-- A worker opens a file under the number between the two: the destructor closes
    that. -/
example : ((lifecycle.run (fun _ _ => True) (init ∅)
    [.socket (some 3), .setsockopt true, .bind true, .run, .listen true, .test,
      .stop_server, .other_open 3, .destroy]).map Sys.closes)
    = some [some (.listener 0), some .other] := by decide

end WebLib.Lifecycle
