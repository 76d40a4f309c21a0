import WebLib.EventLoop
import WebLib.HttpRouter

/-! # How a connection's task ends

    Three handlers surround user code: the catch clause of `handle_request`,
    that of `handle_incoming_request` with the `close` after it, and the wrapper
    `enqueue_detach` puts around the task.  All three catch
    `const std::exception &`; an object of another type passes all of them, past
    the `close`, and out of the worker's thread function. -/

namespace WebLib.TaskEnd

open WebLib ByteString Utils UnorderedMap HttpBinder ReadRequest HttpRouter
open WebLib.EventLoop (Fd)

variable {Handler Filter : Type} (platform : Platform) (user : UserCode Handler Filter)

/-! ## The three levels -/

/-- How the task ends, and the socket `close` was called with. -/
structure TaskRun where
  ending : Ending
  closed : Option Fd
deriving DecidableEq, Repr

/-- The `try` block of `handle_incoming_request`. -/
def incoming_block (m_handles : Handles Handler Filter) (m_active_clients : UnorderedMap Fd Client)
    (client_socket : Fd) (script : List SendOutcome) : Ending :=
  match (EventLoop.handle_incoming_request m_active_clients client_socket).2 with
  | none => .throws (.library (.runtime_error (str "Request is empty")))
  | some (_, raw_http) => (process_request platform user m_handles raw_http script).ending

/-- `handle_incoming_request`: a standard exception is logged, then the socket is
    closed. -/
def handle_incoming_request (m_handles : Handles Handler Filter)
    (m_active_clients : UnorderedMap Fd Client) (client_socket : Fd)
    (script : List SendOutcome) : TaskRun :=
  match incoming_block platform user m_handles m_active_clients client_socket script with
  | .returned => ⟨.returned, some client_socket⟩
  | .throws ex =>
      if ex.is_std_exception then ⟨.returned, some client_socket⟩ else ⟨.throws ex, none⟩
  | .undefined => ⟨.undefined, none⟩
  | .running => ⟨.running, none⟩

/-- `task()`: the wrapper `enqueue_detach` made. -/
def task (m_handles : Handles Handler Filter) (m_active_clients : UnorderedMap Fd Client)
    (client_socket : Fd) (script : List SendOutcome) : TaskRun :=
  let r := handle_incoming_request platform user m_handles m_active_clients client_socket script
  match r.ending with
  | .throws ex => if ex.is_std_exception then { r with ending := .returned } else r
  | _ => r

/-- What becomes of the worker. -/
inductive Worker where
  | next_wait
  /-- an exception left the thread function: `std::terminate` -/
  | terminated
  | undefined
  | in_task
deriving DecidableEq, Repr

/-- The worker loop after `task()`. -/
def worker_after (r : TaskRun) : Worker :=
  match r.ending with
  | .returned => .next_wait
  | .throws _ => .terminated
  | .undefined => .undefined
  | .running => .in_task

/-! ## What has to hold of user code -/

/-- Neither defined nor an exception that anything catches. -/
def Wild (e : Ending) : Prop := e = .undefined ∨ e = .throws .user_object

/-- On this request nothing undefined is evaluated, and no filter or handler that
    runs lets an object out that is not derived from `std::exception`. -/
structure Contained (m_handles : Handles Handler Filter) (path raw_http : Str)
    (request_type : RequestType) (script : List SendOutcome) : Prop where
  route : find_handle m_handles path request_type ≠ .error .undefined
  request : ∀ handle, find_handle m_handles path request_type = .ok (some handle) →
    HttpRequest.construct raw_http handle.m_path handle.m_parameters ≠ .error .undefined
  filters : ∀ handle req, find_handle m_handles path request_type = .ok (some handle) →
    HttpRequest.construct raw_http handle.m_path handle.m_parameters = .ok req →
    (pass_middlewares user req handle.m_filters).2 ≠ .error .user_object
  handler : ∀ handle req h, find_handle m_handles path request_type = .ok (some handle) →
    HttpRequest.construct raw_http handle.m_path handle.m_parameters = .ok req →
    (pass_middlewares user req handle.m_filters).2 = .ok true → handle.m_handle = some h →
    ((user.handler h req).run script).ending ≠ .throws .user_object

theorem of_fault_wild_iff (f : Fault) (script : List SendOutcome) :
    Wild (Run.of_fault f script).ending ↔ f = .undefined := by
  cases f <;> simp [Wild, Run.of_fault]

theorem respond_once_not_wild (resp : HttpResponse) (script : List SendOutcome) :
    ¬ Wild (respond_once resp script).ending := by
  rw [Wild, respond_once]
  simp only
  split <;> simp

/-- User code alone evaluates nothing undefined. -/
theorem run_defined (code : HandlerCode) : ∀ script, (code.run script).ending ≠ .undefined := by
  induction code with
  | done => intro script h; cases h
  | throw e => intro script h; cases h
  | respond resp k ih =>
      intro script
      rw [HandlerCode.run]
      simp only
      split
      · simp
      · exact ih none _
      · exact ih _ _

section

variable {m_handles : Handles Handler Filter} {path raw_http : Str} {request_type : RequestType}
  {script : List SendOutcome}

/-- Without a route there is no user code to run. -/
theorem contained_of_no_handle (hr : find_handle m_handles path request_type ≠ .error .undefined)
    (hf : ∀ handle, find_handle m_handles path request_type ≠ .ok (some handle)) :
    Contained user m_handles path raw_http request_type script where
  route := hr
  request := fun handle h => absurd h (hf handle)
  filters := fun handle _ h => absurd h (hf handle)
  handler := fun handle _ _ h => absurd h (hf handle)

/-- With a route its own handle decides. -/
theorem contained_of_found {handle : HttpHandle Handler Filter}
    (hf : find_handle m_handles path request_type = .ok (some handle))
    (hc : HttpRequest.construct raw_http handle.m_path handle.m_parameters ≠ .error .undefined)
    (hp : ∀ req, HttpRequest.construct raw_http handle.m_path handle.m_parameters = .ok req →
      (pass_middlewares user req handle.m_filters).2 ≠ .error .user_object)
    (hh : ∀ req h, HttpRequest.construct raw_http handle.m_path handle.m_parameters = .ok req →
      (pass_middlewares user req handle.m_filters).2 = .ok true → handle.m_handle = some h →
      ((user.handler h req).run script).ending ≠ .throws .user_object) :
    Contained user m_handles path raw_http request_type script := by
  have same : ∀ handle', find_handle m_handles path request_type = .ok (some handle') →
      handle' = handle := by
    intro handle' h
    rw [hf] at h
    cases h
    rfl
  refine ⟨by rw [hf]; simp, ?_, ?_, ?_⟩
  · intro handle' h
    rw [same handle' h]
    exact hc
  · intro handle' req h
    rw [same handle' h]
    exact hp req
  · intro handle' req hd h
    rw [same handle' h]
    exact hh req hd

/-- With a request built for it too. -/
theorem contained_of_built {handle : HttpHandle Handler Filter} {req : HttpRequest}
    (hf : find_handle m_handles path request_type = .ok (some handle))
    (hc : HttpRequest.construct raw_http handle.m_path handle.m_parameters = .ok req)
    (hp : (pass_middlewares user req handle.m_filters).2 ≠ .error .user_object)
    (hh : (pass_middlewares user req handle.m_filters).2 = .ok true →
      ∀ h, handle.m_handle = some h →
        ((user.handler h req).run script).ending ≠ .throws .user_object) :
    Contained user m_handles path raw_http request_type script := by
  refine contained_of_found user hf (by rw [hc]; simp) ?_ ?_
  · intro req' hc'
    rw [hc] at hc'
    obtain rfl := Except.ok.inj hc'
    exact hp
  · intro req' h hc' hpass
    rw [hc] at hc'
    obtain rfl := Except.ok.inj hc'
    exact hh hpass h

end

/-- Nothing wild leaves the block of a contained request. -/
theorem attempt_not_wild {m_handles : Handles Handler Filter} {path raw_http : Str}
    {request_type : RequestType} {script : List SendOutcome}
    (h : Contained user m_handles path raw_http request_type script) :
    ¬ Wild (attempt platform user m_handles path raw_http request_type script).ending := by
  have hcases := attempt_cases platform user m_handles path raw_http request_type script
  generalize attempt platform user m_handles path raw_http request_type script = r at hcases ⊢
  cases hcases with
  | lookup_fault hf =>
      rw [of_fault_wild_iff]
      rintro rfl
      exact h.route hf
  | no_route hf => exact respond_once_not_wild _ _
  | bad_request hf hc =>
      rw [of_fault_wild_iff]
      rintro rfl
      exact h.request _ hf hc
  | filter_throws hf hc hp =>
      rintro (hw | hw)
      · cases hw
      · exact h.filters _ _ hf hc (by rw [hp, Ending.throws.inj hw])
  | refused hf hc hp => exact respond_once_not_wild _ _
  | no_handler hf hc hp hh => simp [Wild]
  | handled hf hc hp hh =>
      rintro (hw | hw)
      · exact run_defined _ _ hw
      · exact h.handler _ _ _ hf hc hp hh hw

/-- A block nothing wild leaves had a contained request. -/
theorem contained_of_not_wild {m_handles : Handles Handler Filter} {path raw_http : Str}
    {request_type : RequestType} {script : List SendOutcome}
    (h : ¬ Wild (attempt platform user m_handles path raw_http request_type script).ending) :
    Contained user m_handles path raw_http request_type script := by
  have hcases := attempt_cases platform user m_handles path raw_http request_type script
  generalize attempt platform user m_handles path raw_http request_type script = r at hcases h
  cases hcases with
  | lookup_fault hf =>
      rw [of_fault_wild_iff] at h
      refine contained_of_no_handle user ?_ (by rw [hf]; simp)
      rw [hf]
      exact fun hc => h (Except.error.inj hc)
  | no_route hf => exact contained_of_no_handle user (by rw [hf]; simp) (by rw [hf]; simp)
  | bad_request hf hc =>
      rw [of_fault_wild_iff] at h
      refine contained_of_found user hf ?_ (by rw [hc]; simp) (by rw [hc]; simp)
      rw [hc]
      exact fun hf => h (Except.error.inj hf)
  | filter_throws hf hc hp =>
      refine contained_of_built user hf hc ?_ (by rw [hp]; simp)
      rw [hp]
      intro hw
      exact h (Or.inr (by rw [Except.error.inj hw]))
  | refused hf hc hp => exact contained_of_built user hf hc (by rw [hp]; simp) (by rw [hp]; simp)
  | no_handler hf hc hp hh =>
      exact contained_of_built user hf hc (by rw [hp]; simp) (by rw [hh]; simp)
  | handled hf hc hp hh =>
      refine contained_of_built user hf hc (by rw [hp]; simp) ?_
      intro _ g hg
      obtain rfl := Option.some.inj (hh.symm.trans hg)
      exact fun hw => h (Or.inr hw)

/-! ## Through the levels -/

/-- The catch clause of `handle_request` makes nothing wild and stops nothing
    wild. -/
theorem handle_request_wild_iff (m_handles : Handles Handler Filter) (path raw_http : Str)
    (request_type : RequestType) (script : List SendOutcome) :
    Wild (handle_request platform user m_handles path raw_http request_type script).ending
      ↔ Wild (attempt platform user m_handles path raw_http request_type script).ending := by
  rw [handle_request]
  generalize attempt platform user m_handles path raw_http request_type script = r
  simp only
  split
  · next ex hend =>
      split
      · next hstd =>
          refine iff_of_false (respond_once_not_wild _ _) ?_
          rintro (hw | hw)
          · rw [hend] at hw
            cases hw
          · rw [hend] at hw
            cases hw
            cases hstd
      · exact Iff.rfl
  · exact Iff.rfl

/-- The request line is split or refused. -/
theorem parse_request_line_defined (raw_http : Str) :
    parse_request_line raw_http ≠ .error .undefined := by
  rw [parse_request_line]
  split
  · simp
  · simp only
    split
    · simp
    · rw [substr]
      split <;> simp [Except.map]

/-- The condition of a task: if its client has a buffer with a request line, that
    request is contained. -/
def TaskContained (m_handles : Handles Handler Filter) (m_active_clients : UnorderedMap Fd Client)
    (client_socket : Fd) (script : List SendOutcome) : Prop :=
  ∀ fd raw_http method path,
    (EventLoop.handle_incoming_request m_active_clients client_socket).2 = some (fd, raw_http) →
    parse_request_line raw_http = .ok (method, path) →
    Contained user m_handles path raw_http (HttpRequest.req_type_from_str method) script

theorem incoming_block_wild_iff (m_handles : Handles Handler Filter)
    (m_active_clients : UnorderedMap Fd Client) (client_socket : Fd)
    (script : List SendOutcome) :
    ¬ Wild (incoming_block platform user m_handles m_active_clients client_socket script)
      ↔ TaskContained user m_handles m_active_clients client_socket script := by
  rw [incoming_block, TaskContained]
  cases hcall : (EventLoop.handle_incoming_request m_active_clients client_socket).2 with
  | none => simp [Wild]
  | some call =>
      obtain ⟨fd, raw_http⟩ := call
      simp only [process_request]
      cases hline : parse_request_line raw_http with
      | error f =>
          have hf : f ≠ .undefined := fun h => parse_request_line_defined raw_http (h ▸ hline)
          refine iff_of_true ?_ ?_
          · rw [of_fault_wild_iff]
            exact hf
          · rintro _ _ method path heq hline'
            cases heq
            rw [hline] at hline'
            cases hline'
      | ok mp =>
          obtain ⟨method, path⟩ := mp
          simp only [handle_request_wild_iff]
          constructor
          · rintro h _ _ method' path' heq hline'
            cases heq
            rw [hline] at hline'
            cases hline'
            exact contained_of_not_wild platform user h
          · intro h
            exact attempt_not_wild platform user (h fd raw_http method path rfl hline)

/-! ## The end of a task -/

/-- The task is over or still inside a system call; once it is over the socket
    has been closed and the worker goes on. -/
structure EndsWell (client_socket : Fd) (r : TaskRun) : Prop where
  ends : r.ending = .returned ∨ r.ending = .running
  closed : r.ending = .returned → r.closed = some client_socket ∧ worker_after r = .next_wait

/-- A handler that throws an integer. -/
def wild_user : UserCode Nat Nat where
  filter _ _ := .ok true
  handler _ _ := .throw .user_object

/-- One route, and a client whose whole request has been read. -/
def wild_route : Handles Nat Nat := (register_handler ∅ (str "/a") (some 0) [.GET]).1

def wild_clients : UnorderedMap Fd Client :=
  assign ∅ 5 { fd := 5, raw_http := str "GET /a HTTP/1.1\r\nHost: w\r\n\r\n" }

end WebLib.TaskEnd
