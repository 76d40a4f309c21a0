import WebLib.ReadRequest
import WebLib.TransitionSystem

/-! # The event loop, the workers, the kernel and the peers

    One system: the state of `HttpServer` (its poll vector with the position of
    the loop over it, its client map, its tasks), the kernel's descriptor table
    and sockets, and a history that no step reads.  The steps are those of the
    code at the grain of one system call: `poll`, one visit of an entry (which
    accepts, reads or does nothing), a worker taking a task, a worker running
    `handle_incoming_request` to its end, and the peers sending and closing.
    What the environment chooses is in the label; a label the kernel could not
    produce in a state has no step there.

    The invariants are proved from the effects of a step, which
    `WebLib.Steps` lists once. -/

namespace WebLib.EventLoop

open WebLib ByteString ReadRequest UnorderedMap

/-- A descriptor number; the kernel hands out no negative one. -/
abbrev Fd := Nat

/-- The identity of a connection: the number of connections accepted before. -/
abbrev ConnId := Nat

/-! ## State -/

/-- `pollfd`; of `revents` the loop tests `POLLIN` only. -/
structure PollFd where
  fd : Fd
  pollin : Bool
deriving DecidableEq, Repr

/-- A task enqueued for `handle_incoming_request`: its argument, and for the
    history the connection behind the number and the buffer at that moment. -/
structure Task where
  client_socket : Fd
  conn : Option ConnId
  request : Str
deriving DecidableEq, Repr

/-- `HttpServer`, the locals of `event_loop`, and the thread pool's queue with
    the tasks its workers have taken. -/
structure HttpServer where
  m_listen_socket : Fd
  threads_count : Nat
  poll_fds : List PollFd
  i : Nat
  ended : Bool
  m_active_clients : UnorderedMap Fd Client
  m_tasks : List Task
  running : List Task

/-- What a descriptor refers to: an accepted socket, or anything else. -/
inductive File where
  | other
  | sock (c : ConnId)
deriving DecidableEq, Repr

/-- A connection as the kernel has it: the number `accept` gave it, the bytes
    sent and not yet read, the bytes read, and what its peer did to it. -/
structure Conn where
  fd : Fd
  inbox : Str
  received : Str
  closed : Bool
  reset : Bool
deriving DecidableEq, Repr

/-- The descriptor table and the connections in order of acceptance. -/
structure Kernel where
  files : UnorderedMap Fd File
  conns : List Conn

/-- A completed `handle_incoming_request`: the arguments `process_request` was
    called with, if it was, the connection whose socket it was given, and the
    connection whose socket the final `close` closed. -/
structure Handled where
  task : Task
  call : Option (Fd × Str)
  answered : Option ConnId
  closed : Option ConnId
deriving DecidableEq, Repr

/-- What happened so far, and for each key of the client map the connection
    whose `accept` made the present entry, if one did. -/
structure History where
  dispatched : List Task
  handled : List Handled
  born : Fd → Option ConnId

structure Sys extends HttpServer, Kernel, History

/-- The number a connection was accepted with. -/
def Kernel.accepted_as (k : Kernel) (c : ConnId) : Option Fd := k.conns[c]?.map Conn.fd

/-- The connection whose socket is open under a number. -/
def Kernel.owner (k : Kernel) (fd : Fd) : Option ConnId :=
  match k.files.find fd with
  | some (.sock c) => some c
  | _ => none

/-- The bytes the server has read from a connection. -/
def Kernel.received (k : Kernel) (c : ConnId) : Str :=
  (k.conns[c]?.map Conn.received).getD []

/-- The numbers of the poll entries the loop treats as clients. -/
def HttpServer.fds (s : HttpServer) : List Fd :=
  (s.poll_fds.filter fun p => p.fd ≠ s.m_listen_socket).map PollFd.fd

/-- The tasks that are queued, or taken and not yet run. -/
def HttpServer.pending (s : HttpServer) : List Task := s.running ++ s.m_tasks

/-- A task with this argument is pending. -/
def HttpServer.Busy (s : HttpServer) (fd : Fd) : Prop :=
  ∃ t ∈ s.pending, t.client_socket = fd

instance (s : HttpServer) (fd : Fd) : Decidable (s.Busy fd) :=
  inferInstanceAs (Decidable (∃ t ∈ s.pending, t.client_socket = fd))

/-! ## System calls -/

/-- `read` on a connection. -/
def Conn.read (conn : Conn) : ReadResult → Option Conn
  | .data c =>
      if c.bytes <+: conn.inbox then
        some { conn with
          inbox := conn.inbox.drop c.bytes.length, received := conn.received ++ c.bytes }
      else none
  | .eof => if conn.inbox = [] ∧ conn.closed then some conn else none
  | .would_block => if conn.inbox = [] ∧ ¬ conn.closed then some conn else none
  | .error => if conn.reset then some conn else none

/-- `read` on a number: `EBADF` when it is not open, anything when it is not
    an accepted socket. -/
def Kernel.read (k : Kernel) (fd : Fd) (rd : ReadResult) : Option Kernel :=
  match k.files.find fd with
  | none => if rd = .error then some k else none
  -- an entry made by `operator[]` names descriptor 0
  | some .other => some k
  | some (.sock c) =>
      match k.conns[c]? with
      | none => none
      | some conn => (conn.read rd).map fun conn' => { k with conns := k.conns.set c conn' }

/-- `accept`, when it hands out `n`. -/
def Kernel.accept (k : Kernel) (n : Fd) : Kernel :=
  { files := k.files.assign n (.sock k.conns.length)
    conns := k.conns ++ [⟨n, [], [], false, false⟩] }

/-- `close`. -/
def Kernel.close (k : Kernel) (fd : Fd) : Kernel := { k with files := k.files.erase fd }

/-- `poll`'s effect on the vector. -/
def set_revents (poll_fds : List PollFd) (ready : List Bool) : List PollFd :=
  List.zipWith (fun p b => { p with pollin := b }) poll_fds ready

/-! ## The code of one step -/

/-- What `m_active_clients[fd]` refers to; a missing entry is made. -/
def subscript (m : UnorderedMap Fd Client) (fd : Fd) : Client := (m.find fd).getD {}

/-- The body of the loop on an accepted socket. -/
def push_client (s : HttpServer) (client_socket : Fd) : HttpServer :=
  { s with
    poll_fds := s.poll_fds ++ [⟨client_socket, false⟩]
    m_active_clients := s.m_active_clients.emplace client_socket (.accepted client_socket)
    i := s.i + 1 }

/-- The body of the loop on a client entry, after its `read`: the kernel is
    `k`, and `client`, `r` are what `read_request` left and returned.  A task
    is enqueued with `client.fd`; an erasure drops `client.fd` from the map and
    the entry at `i` from the vector, and the loop stays at `i`. -/
def visit_client (s : Sys) (k : Kernel) (cur_fd : Fd) (client : Client)
    (r : Except Fault State) : Sys :=
  let clients := s.m_active_clients.assign cur_fd client
  match r with
  -- nothing catches around `read_request`: the loop is left
  | .error _ => { s with toKernel := k, m_active_clients := clients, ended := true }
  | .ok .READ_MORE => { s with toKernel := k, m_active_clients := clients, i := s.i + 1 }
  | .ok .END_OF_CONNECTION =>
      let task : Task := ⟨client.fd, s.owner client.fd, client.raw_http⟩
      { s with
        toKernel := k
        m_active_clients := clients
        m_tasks := s.m_tasks ++ [task]
        i := s.i + 1
        dispatched := s.dispatched ++ [task] }
  -- the loop forgets the socket and does not close it
  | .ok .CONNECTION_ABORTED | .ok .CONNECTION_ERROR =>
      { s with
        toKernel := k
        poll_fds := s.poll_fds.eraseIdx s.i
        m_active_clients := clients.erase client.fd
        born := Function.update s.born client.fd none }

/-- `handle_incoming_request` up to its `close`: the map after `operator[]`,
    and the arguments of `process_request` unless the buffer is empty. -/
def handle_incoming_request (m : UnorderedMap Fd Client) (client_socket : Fd) :
    UnorderedMap Fd Client × Option (Fd × Str) :=
  let client := subscript m client_socket
  (m.emplace client_socket {},
    if client.raw_http = [] then none else some (client.fd, client.raw_http))

/-- The task at `j` among the running ones, run to its end. -/
def run_task (s : Sys) (j : Nat) (t : Task) : Sys :=
  let h := handle_incoming_request s.m_active_clients t.client_socket
  { s with
    toKernel := s.toKernel.close t.client_socket
    running := s.running.eraseIdx j
    m_active_clients := h.1
    handled := s.handled ++
      [⟨t, h.2, h.2.bind fun call => s.owner call.1, s.owner t.client_socket⟩] }

/-- The accepted socket `n` enters the vector and the map; `emplace` makes an
    entry for the new connection only when the number has none. -/
def accept_client (s : Sys) (n : Fd) : Sys :=
  { s with
    toKernel := s.toKernel.accept n
    toHttpServer := push_client s.toHttpServer n
    born := if n ∈ s.m_active_clients then s.born
      else Function.update s.born n (some s.conns.length) }

/-! ## Labels and steps -/

/-- What `accept` and the two `fcntl` calls after it return: a number, and
    whether the socket could be made non-blocking. -/
inductive AcceptResult where
  | fd (client_socket : Fd) (nonblocking : Bool)
  | error
deriving DecidableEq, Repr

inductive Label where
  | poll (ready : Option (List Bool))
  | skip
  | accept (r : AcceptResult)
  | read (rd : ReadResult)
  | start
  | work (j : Nat)
  | peer_send (c : ConnId) (bytes : Str)
  | peer_close (c : ConnId)
  | peer_reset (c : ConnId)
deriving DecidableEq, Repr

/-- A step of the peer of `c`. -/
def peer_step (s : Sys) (c : ConnId) (f : Conn → Conn) : Option Sys :=
  s.conns[c]?.map fun conn => { s with conns := s.conns.set c (f conn) }

/-- The entry the loop is at. -/
def current (s : HttpServer) : Option PollFd := if s.ended then none else s.poll_fds[s.i]?

def step (s : Sys) : Label → Option Sys
  | .poll ready =>
      if s.ended = true ∨ s.i < s.poll_fds.length then none
      else
        match ready with
        | none => some { s with ended := true }
        | some ready =>
            let poll_fds := set_revents s.poll_fds ready
            if ready.length = s.poll_fds.length
                ∧ ∀ p ∈ poll_fds, p.pollin = true → p.fd ∈ s.files then
              some { s with poll_fds := poll_fds, i := 0 }
            else none
  | .skip =>
      (current s.toHttpServer).bind fun cur_fd =>
        if cur_fd.pollin then none else some { s with i := s.i + 1 }
  | .accept r =>
      (current s.toHttpServer).bind fun cur_fd =>
        if cur_fd.pollin ∧ cur_fd.fd = s.m_listen_socket then
          match r with
          | .error => some { s with i := s.i + 1 }
          | .fd n nonblocking =>
              if n ∈ s.files ∨ s.m_listen_socket ∉ s.files then none
              else if nonblocking then some (accept_client s n)
              -- a failing `fcntl` throws after the socket was opened
              else some { s with toKernel := s.toKernel.accept n, ended := true }
        else none
  | .read rd =>
      (current s.toHttpServer).bind fun cur_fd =>
        if cur_fd.pollin ∧ cur_fd.fd ≠ s.m_listen_socket then
          let client := subscript s.m_active_clients cur_fd.fd
          (s.toKernel.read client.fd rd).map fun k =>
            visit_client s k cur_fd.fd (read_request client rd).1 (read_request client rd).2
        else none
  | .start =>
      match s.m_tasks with
      | [] => none
      | t :: rest =>
          if s.running.length < s.threads_count then
            some { s with m_tasks := rest, running := s.running ++ [t] }
          else none
  | .work j => s.running[j]?.map fun t => run_task s j t
  | .peer_send c bytes => peer_step s c fun conn => { conn with inbox := conn.inbox ++ bytes }
  | .peer_close c => peer_step s c fun conn => { conn with closed := true }
  | .peer_reset c => peer_step s c fun conn => { conn with reset := true }

/-- A server that has just entered `event_loop`: only the listening socket is
    polled, and no open descriptor is an accepted socket. -/
structure Init (s : Sys) : Prop where
  poll_fds : s.poll_fds = [⟨s.m_listen_socket, false⟩]
  i : s.i = 1
  clients : s.m_active_clients = ∅
  tasks : s.pending = []
  listening : s.m_listen_socket ∈ s.files
  files : ∀ fd f, s.files.find fd = some f → f = .other
  conns : s.conns = []
  dispatched : s.dispatched = []
  handled : s.handled = []
  born : s.born = fun _ => none

/-- The state in which `event_loop` is entered, when nothing but the listening
    socket is open. -/
def entered (m_listen_socket : Fd) (threads_count : Nat) : Sys :=
  { m_listen_socket := m_listen_socket
    threads_count := threads_count
    poll_fds := [⟨m_listen_socket, false⟩]
    i := 1
    ended := false
    m_active_clients := ∅
    m_tasks := []
    running := []
    files := assign ∅ m_listen_socket .other
    conns := []
    dispatched := []
    handled := []
    born := fun _ => none }

theorem init_entered (m_listen_socket : Fd) (threads_count : Nat) :
    Init (entered m_listen_socket threads_count) where
  poll_fds := rfl
  i := rfl
  clients := rfl
  tasks := rfl
  listening := mem_iff_find.mpr ⟨.other, by
    rw [entered, find_assign, if_pos rfl]⟩
  files := by
    intro fd f hf
    rw [entered, find_assign] at hf
    split at hf
    · exact (Option.some.inj hf).symm
    · cases hf
  conns := rfl
  dispatched := rfl
  handled := rfl
  born := rfl

/-- Two requests, each in one read. -/
def get_a : Chunk := ⟨str "GET /a HTTP/1.1\r\nHost: w\r\n\r\n", by decide, by decide⟩

def get_b : Chunk := ⟨str "GET /b HTTP/1.1\r\nHost: w\r\n\r\n", by decide, by decide⟩

/-- The server in its environment. -/
def server : TransitionSystem Sys Label where
  init := Init
  step := step

end WebLib.EventLoop
