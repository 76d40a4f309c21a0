import WebLib.Answers
import WebLib.Sending
import WebLib.TaskEnd

/-! # Workers that send

    `WebLib.EventLoop` runs a task in one step and does not look at what it sends.
    Here a worker takes a step for each system call of its task: it calls
    `process_request`, is told the outcome of one `send` or `poll` after another,
    and closes the socket; the loop, the peers and the other workers go on
    between any two of these.  What user code does may differ from call to call:
    `users` lists its ways, and the worker's first step picks one.

    The process can go down in a task: an exception that nothing catches, an
    expression without a meaning, or the signal of a `send` to a peer that is
    gone, which `respond` does not suppress.  Nothing happens after that. -/

namespace WebLib.Exchange

open WebLib ByteString Utils UnorderedMap HttpBinder HttpRouter TaskEnd TransitionSystem Sending
open WebLib.ReadRequest (Client)
open WebLib.EventLoop (Fd ConnId Sys Task Label Handled)

/-! ## State -/

/-- What the workers run: the platform, the ways of the user's filters and
    handlers, and the routes. -/
structure Program (Handler Filter Behaviour : Type) where
  platform : Platform
  users : Behaviour → UserCode Handler Filter
  m_handles : Handles Handler Filter

/-- A worker inside `handle_incoming_request`: the arguments of `process_request`
    unless the buffer was empty, the way user code goes in this call, and the
    outcomes of the system calls so far. -/
structure Job (Behaviour : Type) where
  call : Option (Fd × Str)
  behaviour : Behaviour
  script : List SendOutcome

inductive Process where
  | up
  /-- `std::terminate` -/
  | terminated
  /-- `SIGPIPE` -/
  | killed
  | undefined
deriving DecidableEq, Repr

/-- The server, what each worker with a task is at (`none`: not yet inside the
    call), and the bytes each connection's socket has taken. -/
structure State (Behaviour : Type) extends Sys where
  jobs : List (Option (Job Behaviour))
  sent : ConnId → Str
  process : Process

variable {Handler Filter Behaviour : Type} (prog : Program Handler Filter Behaviour)

/-! ## The code of a task -/

/-- `process_request` on these bytes, as far as the outcomes go. -/
def Program.reply (b : Behaviour) (raw_http : Str) (script : List SendOutcome) : Run :=
  (process_request prog.platform (prog.users b) prog.m_handles raw_http script).toRun

/-- The `try` block of `handle_incoming_request`, as far as the outcomes go. -/
def Program.block (job : Job Behaviour) : Run :=
  match job.call with
  | none => ⟨[], .throws (.library (.runtime_error (str "Request is empty"))), job.script⟩
  | some call => prog.reply job.behaviour call.2 job.script

/-- The rest of the task when its block ended with `e`: the catch clauses of
    `handle_incoming_request` and of the wrapper, and the `close` between. -/
def task_end (client_socket : Fd) (e : Ending) : TaskRun :=
  match e with
  | .returned => ⟨.returned, some client_socket⟩
  | .throws ex =>
      if ex.is_std_exception then ⟨.returned, some client_socket⟩ else ⟨.throws ex, none⟩
  | .undefined => ⟨.undefined, none⟩
  | .running => ⟨.running, none⟩

/-- A task, in one piece, is its block and the rest. -/
theorem task_eq (m_active_clients : UnorderedMap Fd Client) (client_socket : Fd) (b : Behaviour)
    (script : List SendOutcome) :
    task prog.platform (prog.users b) prog.m_handles m_active_clients client_socket script
      = task_end client_socket (prog.block ⟨(EventLoop.handle_incoming_request m_active_clients
          client_socket).2, b, script⟩).ending := by
  have hblock : incoming_block prog.platform (prog.users b) prog.m_handles m_active_clients
      client_socket script = (prog.block ⟨(EventLoop.handle_incoming_request m_active_clients
        client_socket).2, b, script⟩).ending := by
    rw [incoming_block, Program.block]
    cases (EventLoop.handle_incoming_request m_active_clients client_socket).2 with
    | none => rfl
    | some call => rfl
  rw [task, handle_incoming_request, hblock]
  cases (prog.block _).ending with
  | throws ex => cases hstd : ex.is_std_exception <;> simp [task_end, hstd]
  | returned => rfl
  | undefined => rfl
  | running => rfl

/-! ## Steps -/

inductive Move (Behaviour : Type) where
  /-- anything but the run of a task -/
  | other (l : Label)
  | enter (j : Nat) (b : Behaviour)
  | send (j : Nat) (outcome : SendOutcome)
  | broken_pipe (j : Nat)
  | finish (j : Nat)

/-- The socket under this number takes bytes. -/
def put (x : State Behaviour) (fd : Fd) (bs : Str) : ConnId → Str :=
  match x.owner fd with
  | none => x.sent
  | some c => Function.update x.sent c (x.sent c ++ bs)

/-- The peer of this number's connection has closed or reset it. -/
def Gone (x : State Behaviour) (fd : Fd) : Prop :=
  ∃ c ∈ x.owner fd, ∃ conn ∈ x.conns[c]?, conn.closed = true ∨ conn.reset = true

instance (x : State Behaviour) (fd : Fd) : Decidable (Gone x fd) :=
  inferInstanceAs (Decidable (∃ c ∈ x.owner fd, ∃ conn ∈ x.conns[c]?,
    conn.closed = true ∨ conn.reset = true))

/-- The end of the task `t` of worker `j`, which called `process_request` with
    `call`. -/
def close_task (s : Sys) (j : Nat) (t : Task) (call : Option (Fd × Str)) : Sys :=
  { s with
    toKernel := s.toKernel.close t.client_socket
    running := s.running.eraseIdx j
    handled := s.handled ++
      [⟨t, call, call.bind fun call => s.owner call.1, s.owner t.client_socket⟩] }

/-- A step of a process that is up. -/
def move (x : State Behaviour) : Move Behaviour → Option (State Behaviour)
  | .other (.work _) => none
  | .other .start =>
      (EventLoop.step x.toSys .start).map fun s =>
        { x with toSys := s, jobs := x.jobs ++ [none] }
  | .other l => (EventLoop.step x.toSys l).map fun s => { x with toSys := s }
  | .enter j b =>
      match x.running[j]?, x.jobs[j]? with
      | some t, some none =>
          let h := EventLoop.handle_incoming_request x.m_active_clients t.client_socket
          some { x with
            m_active_clients := h.1
            jobs := x.jobs.set j (some ⟨h.2, b, []⟩) }
      | _, _ => none
  | .send j outcome =>
      match x.jobs[j]? with
      | some (some ⟨some (fd, raw_http), b, script⟩) =>
          let before := prog.reply b raw_http script
          let after := prog.reply b raw_http (script ++ [outcome])
          -- on a number that is not open every call fails
          if before.ending = .running ∧ (fd ∈ x.files ∨ outcome = .failed) then
            some { x with
              jobs := x.jobs.set j (some ⟨some (fd, raw_http), b, script ++ [outcome]⟩)
              sent := put x fd ((bytes after.log).drop (bytes before.log).length) }
          else none
      | _ => none
  | .broken_pipe j =>
      match x.jobs[j]? with
      | some (some ⟨some (fd, raw_http), b, script⟩) =>
          if (prog.reply b raw_http script).ending = .running ∧ Gone x fd then
            some { x with process := .killed }
          else none
      | _ => none
  | .finish j =>
      match x.running[j]?, x.jobs[j]? with
      | some t, some (some job) =>
          match worker_after (task_end t.client_socket (prog.block job).ending) with
          | .next_wait => some { x with
              toSys := close_task x.toSys j t job.call
              jobs := x.jobs.eraseIdx j }
          | .terminated => some { x with process := .terminated }
          | .undefined => some { x with process := .undefined }
          | .in_task => none
      | _, _ => none

def step (x : State Behaviour) (m : Move Behaviour) : Option (State Behaviour) :=
  if x.process = .up then move prog x m else none

/-- The event loop is entered, and nothing has been sent. -/
structure Init (x : State Behaviour) : Prop where
  server : EventLoop.Init x.toSys
  jobs : x.jobs = []
  sent : x.sent = fun _ => []
  process : x.process = .up

/-- The server whose workers send. -/
def exchange : TransitionSystem (State Behaviour) (Move Behaviour) where
  init := Init
  step := step prog

/-- The orderly steps of the server; a worker's own steps are all orderly. -/
def Orderly (x : State Behaviour) : Move Behaviour → Prop
  | .other l => EventLoop.Orderly x.toSys l
  | _ => True

instance (x : State Behaviour) : ∀ m, Decidable (Orderly x m)
  | .other l => inferInstanceAs (Decidable (EventLoop.Orderly x.toSys l))
  | .enter _ _ | .send _ _ | .broken_pipe _ | .finish _ => .isTrue trivial

/-- The block is over and nothing wild left it. -/
def Over (e : Ending) : Prop := e = .returned ∨ ∃ ex, e = .throws ex ∧ ex.is_std_exception = true

/-! ## What a step does -/

/-- The steps, each with what it needs and what it leaves. -/
inductive Step (x : State Behaviour) : Move Behaviour → State Behaviour → Prop where
  | other (l : Label) (s : Sys) : (∀ j, l ≠ .work j) → l ≠ .start →
      EventLoop.step x.toSys l = some s → Step x (.other l) { x with toSys := s }
  | start (s : Sys) : EventLoop.step x.toSys .start = some s →
      Step x (.other .start) { x with toSys := s, jobs := x.jobs ++ [none] }
  | enter (j : Nat) (b : Behaviour) (t : Task) : x.running[j]? = some t →
      x.jobs[j]? = some none →
      Step x (.enter j b) { x with
        m_active_clients :=
          (EventLoop.handle_incoming_request x.m_active_clients t.client_socket).1
        jobs := x.jobs.set j (some
          ⟨(EventLoop.handle_incoming_request x.m_active_clients t.client_socket).2, b, []⟩) }
  | send (j : Nat) (outcome : SendOutcome) (fd : Fd) (raw_http : Str) (b : Behaviour)
      (script : List SendOutcome) : x.jobs[j]? = some (some ⟨some (fd, raw_http), b, script⟩) →
      (prog.reply b raw_http script).ending = .running → (fd ∈ x.files ∨ outcome = .failed) →
      Step x (.send j outcome) { x with
        jobs := x.jobs.set j (some ⟨some (fd, raw_http), b, script ++ [outcome]⟩)
        sent := put x fd ((bytes (prog.reply b raw_http (script ++ [outcome])).log).drop
          (bytes (prog.reply b raw_http script).log).length) }
  | broken_pipe (j : Nat) (fd : Fd) (raw_http : Str) (b : Behaviour)
      (script : List SendOutcome) : x.jobs[j]? = some (some ⟨some (fd, raw_http), b, script⟩) →
      (prog.reply b raw_http script).ending = .running → Gone x fd →
      Step x (.broken_pipe j) { x with process := .killed }
  | finish (j : Nat) (t : Task) (job : Job Behaviour) : x.running[j]? = some t →
      x.jobs[j]? = some (some job) → Over (prog.block job).ending →
      Step x (.finish j) { x with
        toSys := close_task x.toSys j t job.call, jobs := x.jobs.eraseIdx j }
  | terminated (j : Nat) (t : Task) (job : Job Behaviour) : x.running[j]? = some t →
      x.jobs[j]? = some (some job) → (prog.block job).ending = .throws .user_object →
      Step x (.finish j) { x with process := .terminated }
  | undefined (j : Nat) (t : Task) (job : Job Behaviour) : x.running[j]? = some t →
      x.jobs[j]? = some (some job) → (prog.block job).ending = .undefined →
      Step x (.finish j) { x with process := .undefined }

/-- What becomes of a worker whose block ended so. -/
theorem fate (client_socket : Fd) (e : Ending) :
    (Over e ∧ worker_after (task_end client_socket e) = .next_wait)
      ∨ (e = .throws .user_object ∧ worker_after (task_end client_socket e) = .terminated)
      ∨ (e = .undefined ∧ worker_after (task_end client_socket e) = .undefined)
      ∨ (e = .running ∧ worker_after (task_end client_socket e) = .in_task) := by
  cases e with
  | returned => exact Or.inl ⟨Or.inl rfl, rfl⟩
  | throws ex =>
      cases hstd : ex.is_std_exception with
      | true => exact Or.inl ⟨Or.inr ⟨ex, rfl, hstd⟩, by simp [task_end, hstd, worker_after]⟩
      | false =>
          obtain rfl : ex = .user_object := by
            cases ex <;> first | rfl | cases hstd
          exact Or.inr (Or.inl ⟨rfl, rfl⟩)
  | undefined => exact Or.inr (Or.inr (Or.inl ⟨rfl, rfl⟩))
  | running => exact Or.inr (Or.inr (Or.inr ⟨rfl, rfl⟩))

theorem step_cases {x x' : State Behaviour} {m : Move Behaviour} (h : step prog x m = some x') :
    Step prog x m x' ∧ x.process = .up := by
  rw [step] at h
  split at h
  · next hup =>
      refine ⟨?_, hup⟩
      cases m with
      | other l =>
          cases l with
          | work j => cases h
          | start =>
              obtain ⟨s, hs, rfl⟩ := Option.map_eq_some_iff.mp h
              exact .start s hs
          | poll | skip | accept | read | peer_send | peer_close | peer_reset =>
              obtain ⟨s, hs, rfl⟩ := Option.map_eq_some_iff.mp h
              exact .other _ s (fun j hj => nomatch hj) (fun hs => nomatch hs) hs
      | enter j b =>
          rw [move] at h
          split at h
          · next t ht hj =>
              obtain rfl := Option.some.inj h
              exact .enter j b t ht hj
          · cases h
      | send j outcome =>
          rw [move] at h
          split at h
          · next fd raw_http b script hj =>
              simp only at h
              split at h
              · next hg =>
                  obtain rfl := Option.some.inj h
                  exact .send j outcome fd raw_http b script hj hg.1 hg.2
              · cases h
          · cases h
      | broken_pipe j =>
          rw [move] at h
          split at h
          · next fd raw_http b script hj =>
              split at h
              · next hg =>
                  obtain rfl := Option.some.inj h
                  exact .broken_pipe j fd raw_http b script hj hg.1 hg.2
              · cases h
          · cases h
      | finish j =>
          rw [move] at h
          split at h
          · next t job ht hj =>
              rcases fate t.client_socket (prog.block job).ending with
                ⟨hover, hw⟩ | ⟨hend, hw⟩ | ⟨hend, hw⟩ | ⟨-, hw⟩
              all_goals rw [hw] at h
              · obtain rfl := Option.some.inj h
                exact .finish j t job ht hj hover
              · obtain rfl := Option.some.inj h
                exact .terminated j t job ht hj hend
              · obtain rfl := Option.some.inj h
                exact .undefined j t job ht hj hend
              · cases h
          · cases h
  · cases h

end WebLib.Exchange
