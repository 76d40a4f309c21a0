import WebLib.HttpRequest
import WebLib.HttpResponse

/-! # `HttpRouter`: from a raw request to a handler

    `handle_request` looks the route up, builds the request, evaluates the
    route's filters in order and invokes its handler; a `std::exception` from
    any of these is answered with a 500.  Filters and handlers are user code: a
    filter returns or throws, a handler is a program that calls `respond` on the
    writer and goes on with how that ended.  `Handling` records what was
    evaluated, what was sent and how the call ends. -/

namespace WebLib

open ByteString Utils UnorderedMap HttpBinder

/-! ## Exceptions -/

/-- An object that is thrown. -/
inductive Thrown where
  | library (e : Exn)
  | handle_not_set
  | bad_function_call
  | writing_socket_error
  /-- an exception of the user's own, derived from `std::exception` -/
  | user_exception (what : Str)
  /-- an object of any other type -/
  | user_object
deriving DecidableEq, Repr

/-- What `catch (const std::exception &)` catches. -/
def Thrown.is_std_exception : Thrown → Bool
  | .user_object => false
  | _ => true

/-- What is not under `src`: the JSON text of `error_response(type, message)`,
    and the `what()` of the exceptions of the standard library. -/
structure Platform where
  error_response_text : Str → Str → Str
  standard_what : Thrown → Str

/-- `ex.what()`. -/
def Thrown.what (platform : Platform) : Thrown → Str
  | .library (.runtime_error text) => text
  | .library .header_parsing_error => str "Header is ill-formed"
  | .library (.query_parsing_error text) => text
  | .library .endpoint_already_set => str "Endpoint is already set"
  | .library .filter_before_controller => str "Filter is set before a controller"
  | .handle_not_set => str "Handle is not set"
  | .writing_socket_error => str "Writing to socket failed"
  | .user_exception text => text
  | e => platform.standard_what e

/-! ## User code -/

/-- A handler's run on one request: it ends, throws, or calls `respond` and goes
    on with the exception of that call, if there was one. -/
inductive HandlerCode where
  | done
  | throw (e : Thrown)
  | respond (resp : HttpResponse) (k : Option Thrown → HandlerCode)

/-- What registered filters and handlers do. -/
structure UserCode (Handler Filter : Type) where
  filter : Filter → HttpRequest → Except Thrown Bool
  handler : Handler → HttpRequest → HandlerCode

/-- No path of the program calls `respond` more than `n` times. -/
def HandlerCode.AtMost : Nat → HandlerCode → Prop
  | _, .done => True
  | _, .throw _ => True
  | 0, .respond _ _ => False
  | n + 1, .respond _ k => ∀ e, (k e).AtMost n

/-! ## Sending -/

/-- How a piece of code ends. -/
inductive Ending where
  | returned
  | throws (e : Thrown)
  | undefined
  /-- still inside `send` or `poll` -/
  | running
deriving DecidableEq, Repr

/-- One call of `respond`: the text, and what the socket accepted of it. -/
structure Written where
  response : Str
  accepted : Str
deriving DecidableEq, Repr

/-- The calls of `respond` a piece of code made, its end, and the outcomes left. -/
structure Run where
  log : List Written
  ending : Ending
  rest : List SendOutcome
deriving DecidableEq, Repr

def Run.of_fault (f : Fault) (script : List SendOutcome) : Run :=
  match f with
  | .throws e => ⟨[], .throws (.library e), script⟩
  | .undefined => ⟨[], .undefined, script⟩

/-- `resp.respond(res)` as the only statement. -/
def respond_once (res : HttpResponse) (script : List SendOutcome) : Run :=
  let sent := respond res script
  let ending := match sent.ending with
    | .returned => .returned
    | .throws => .throws .writing_socket_error
    | .running => .running
  ⟨[⟨res.to_string, sent.bytes⟩], ending, sent.rest⟩

/-- A handler's program on the socket. -/
def HandlerCode.run : HandlerCode → List SendOutcome → Run
  | .done, script => ⟨[], .returned, script⟩
  | .throw e, script => ⟨[], .throws e, script⟩
  | .respond resp k, script =>
      let sent := WebLib.respond resp script
      match sent.ending with
      | .running => ⟨[⟨resp.to_string, sent.bytes⟩], .running, sent.rest⟩
      | .returned =>
          let r := (k none).run sent.rest
          { r with log := ⟨resp.to_string, sent.bytes⟩ :: r.log }
      | .throws =>
          let r := (k (some .writing_socket_error)).run sent.rest
          { r with log := ⟨resp.to_string, sent.bytes⟩ :: r.log }

namespace HttpRouter

variable {Handler Filter : Type} (platform : Platform) (user : UserCode Handler Filter)

/-- The responses `handle_request` builds: a status, the text of an error
    object, and the content type set last. -/
def error_page (status_code : Int) (type message : Str) : HttpResponse :=
  ((({} : HttpResponse).set_status status_code).set_body
    (platform.error_response_text type message)).set_content_type .TEXT

def forbidden : HttpResponse := error_page platform 403 (str "Middleware") (str "Access denied")

def not_found : HttpResponse := error_page platform 404 (str "Not found") (str "No such handle")

def internal_error (ex : Thrown) : HttpResponse :=
  error_page platform 500 (str "Internal error") (str "Server internal error: " ++ ex.what platform)

/-! ## Filters -/

/-- What was evaluated, in order. -/
inductive Event (Handler Filter : Type) where
  | filter (f : Option Filter) (req : HttpRequest) (verdict : Except Thrown Bool)
  | handler (h : Handler) (req : HttpRequest)

/-- `filter(request)`; an empty `std::function` throws. -/
def call_filter (f : Option Filter) (request : HttpRequest) : Except Thrown Bool :=
  match f with
  | none => .error .bad_function_call
  | some f => user.filter f request

/-- `pass_middlewares`: `any_of` stops at the first filter that refuses. -/
def pass_middlewares (request : HttpRequest) :
    List (Option Filter) → List (Event Handler Filter) × Except Thrown Bool
  | [] => ([], .ok true)
  | f :: m_filters =>
      let verdict := call_filter user f request
      match verdict with
      | .ok true =>
          let r := pass_middlewares request m_filters
          (.filter f request verdict :: r.1, r.2)
      | _ => ([.filter f request verdict], verdict)

/-! ## Dispatch -/

/-- What one call of `handle_request` did. -/
structure Handling (Handler Filter : Type) extends Run where
  events : List (Event Handler Filter)

/-- `(*handle)(req, resp)`. -/
def invoke (m_handle : Option Handler) (req : HttpRequest) (script : List SendOutcome) :
    List (Event Handler Filter) × Run :=
  match m_handle with
  | none => ([], ⟨[], .throws .handle_not_set, script⟩)
  | some h => ([.handler h req], (user.handler h req).run script)

/-- The `try` block for a route that was found. -/
def dispatch (handle : HttpHandle Handler Filter) (raw_http : Str) (script : List SendOutcome) :
    Handling Handler Filter :=
  match HttpRequest.construct raw_http handle.m_path handle.m_parameters with
  | .error f => { Run.of_fault f script with events := [] }
  | .ok req =>
      match pass_middlewares user req handle.m_filters with
      | (events, .error e) => ⟨⟨[], .throws e, script⟩, events⟩
      | (events, .ok false) => ⟨respond_once (forbidden platform) script, events⟩
      | (events, .ok true) =>
          let r := invoke user handle.m_handle req script
          ⟨r.2, events ++ r.1⟩

/-- The `try` block of `handle_request`. -/
def attempt (m_handles : Handles Handler Filter) (path raw_http : Str)
    (request_type : RequestType) (script : List SendOutcome) : Handling Handler Filter :=
  match find_handle m_handles path request_type with
  | .error f => { Run.of_fault f script with events := [] }
  | .ok none => ⟨respond_once (not_found platform) script, []⟩
  | .ok (some handle) => dispatch platform user handle raw_http script

/-- `handle_request`: the block, and the 500 for an exception out of it. -/
def handle_request (m_handles : Handles Handler Filter) (path raw_http : Str)
    (request_type : RequestType) (script : List SendOutcome) : Handling Handler Filter :=
  let r := attempt platform user m_handles path raw_http request_type script
  match r.ending with
  | .throws ex =>
      if ex.is_std_exception then
        let page := respond_once (internal_error platform ex) r.rest
        { r with log := r.log ++ page.log, ending := page.ending, rest := page.rest }
      else r
  | _ => r

/-- `process_request`, whose own parsing is outside the `try` block. -/
def process_request (m_handles : Handles Handler Filter) (raw_http : Str)
    (script : List SendOutcome) : Handling Handler Filter :=
  match parse_request_line raw_http with
  | .error f => { Run.of_fault f script with events := [] }
  | .ok (method, path) =>
      handle_request platform user m_handles path raw_http
        (HttpRequest.req_type_from_str method) script

/-! ## What the `try` block can do -/

/-- Filters that all pass are all evaluated. -/
theorem pass_middlewares_ok {request : HttpRequest} {m_filters : List (Option Filter)}
    (h : (pass_middlewares user request m_filters).2 = .ok true) :
    (pass_middlewares user request m_filters).1
      = m_filters.map fun f => .filter f request (.ok true) := by
  induction m_filters with
  | nil => rfl
  | cons f m_filters ih =>
      rw [pass_middlewares] at h ⊢
      simp only at h ⊢
      split at h
      · next hv =>
          simp only [hv, ih h, List.map_cons]
      · next hv => exact absurd h hv

/-- Only filters are evaluated, on this request; one that does not pass decides
    the result. -/
theorem pass_middlewares_event {request : HttpRequest} {m_filters : List (Option Filter)}
    {e : Event Handler Filter} (he : e ∈ (pass_middlewares user request m_filters).1) :
    ∃ f v, e = .filter f request v
      ∧ (v ≠ .ok true → (pass_middlewares user request m_filters).2 = v) := by
  induction m_filters with
  | nil => cases he
  | cons f m_filters ih =>
      rw [pass_middlewares] at he ⊢
      simp only at he ⊢
      split at he
      · next hv =>
          rcases List.mem_cons.mp he with rfl | he
          · exact ⟨f, _, rfl, fun hne => absurd hv hne⟩
          · exact ih he
      · next hv =>
          refine ⟨f, _, List.mem_singleton.mp he, fun _ => ?_⟩
          rfl

/-- The ways through the block. -/
inductive Outcome (m_handles : Handles Handler Filter) (path raw_http : Str)
    (request_type : RequestType) (script : List SendOutcome) : Handling Handler Filter → Prop where
  | lookup_fault {f : Fault} : find_handle m_handles path request_type = .error f →
      Outcome m_handles path raw_http request_type script ⟨Run.of_fault f script, []⟩
  | no_route : find_handle m_handles path request_type = .ok none →
      Outcome m_handles path raw_http request_type script
        ⟨respond_once (not_found platform) script, []⟩
  | bad_request {handle : HttpHandle Handler Filter} {f : Fault} :
      find_handle m_handles path request_type = .ok (some handle) →
      HttpRequest.construct raw_http handle.m_path handle.m_parameters = .error f →
      Outcome m_handles path raw_http request_type script ⟨Run.of_fault f script, []⟩
  | filter_throws {handle : HttpHandle Handler Filter} {req : HttpRequest} {e : Thrown} :
      find_handle m_handles path request_type = .ok (some handle) →
      HttpRequest.construct raw_http handle.m_path handle.m_parameters = .ok req →
      (pass_middlewares user req handle.m_filters).2 = .error e →
      Outcome m_handles path raw_http request_type script
        ⟨⟨[], .throws e, script⟩, (pass_middlewares user req handle.m_filters).1⟩
  | refused {handle : HttpHandle Handler Filter} {req : HttpRequest} :
      find_handle m_handles path request_type = .ok (some handle) →
      HttpRequest.construct raw_http handle.m_path handle.m_parameters = .ok req →
      (pass_middlewares user req handle.m_filters).2 = .ok false →
      Outcome m_handles path raw_http request_type script
        ⟨respond_once (forbidden platform) script, (pass_middlewares user req handle.m_filters).1⟩
  | no_handler {handle : HttpHandle Handler Filter} {req : HttpRequest} :
      find_handle m_handles path request_type = .ok (some handle) →
      HttpRequest.construct raw_http handle.m_path handle.m_parameters = .ok req →
      (pass_middlewares user req handle.m_filters).2 = .ok true → handle.m_handle = none →
      Outcome m_handles path raw_http request_type script
        ⟨⟨[], .throws .handle_not_set, script⟩, (pass_middlewares user req handle.m_filters).1⟩
  | handled {handle : HttpHandle Handler Filter} {req : HttpRequest} {h : Handler} :
      find_handle m_handles path request_type = .ok (some handle) →
      HttpRequest.construct raw_http handle.m_path handle.m_parameters = .ok req →
      (pass_middlewares user req handle.m_filters).2 = .ok true → handle.m_handle = some h →
      Outcome m_handles path raw_http request_type script
        ⟨(user.handler h req).run script,
          (pass_middlewares user req handle.m_filters).1 ++ [.handler h req]⟩

/-- **EVERY CALL** goes one of the ways. -/
theorem attempt_cases (m_handles : Handles Handler Filter) (path raw_http : Str)
    (request_type : RequestType) (script : List SendOutcome) :
    Outcome platform user m_handles path raw_http request_type script
      (attempt platform user m_handles path raw_http request_type script) := by
  rw [attempt]
  cases hf : find_handle m_handles path request_type with
  | error f => exact .lookup_fault hf
  | ok found =>
      cases found with
      | none => exact .no_route hf
      | some handle =>
          simp only [dispatch]
          cases hc : HttpRequest.construct raw_http handle.m_path handle.m_parameters with
          | error f => exact .bad_request hf hc
          | ok req =>
              simp only
              cases hp : pass_middlewares user req handle.m_filters with
              | mk events verdict =>
                  have hev : events = (pass_middlewares user req handle.m_filters).1 := by rw [hp]
                  have hv : (pass_middlewares user req handle.m_filters).2 = verdict := by rw [hp]
                  cases verdict with
                  | error e => rw [hev]; exact .filter_throws hf hc hv
                  | ok passed =>
                      cases passed with
                      | false => rw [hev]; exact .refused hf hc hv
                      | true =>
                          cases hh : handle.m_handle with
                          | none =>
                              simp only [invoke, List.append_nil]
                              rw [hev]
                              exact .no_handler hf hc hv hh
                          | some h =>
                              simp only [invoke]
                              rw [hev]
                              exact .handled hf hc hv hh

end HttpRouter

end WebLib
