import WebLib.Answers
import WebLib.HttpRouter
import WebLib.RequestLine

/-! # From the wire to the handler

    The event loop, the queue, the workers, the request line parser, the router,
    the constructor of `HttpRequest` and the filters, one behind the other: what
    a peer sent in any segments is what the handler of its route is called
    with. -/

namespace WebLib.Wire

open WebLib ByteString Utils UnorderedMap HttpHeaders ReadRequest RequestText HttpBinder
  HttpRequest Decoding HttpRouter TransitionSystem EventLoop

/-- The parts of a request whose header declares the length of its body, with
    names that have no white space in them. -/
structure Message extends Parts where
  names_ok : ∀ h ∈ headers, ∀ b ∈ h.1, isWs b = false
  length_ok : match first_pair (to_lowercase_str CONTENT_LENGTH) headers with
    | none => body = []
    | some v => Writes v body.length

/-- A request with the parts `P`, and `m_query` for the parameters of its route. -/
structure Carries (P : Parts) (m_query : UnorderedMap Str Str) (req : HttpRequest) : Prop where
  method : req.get_method = P.method
  version : req.get_version = P.version
  body : req.body_as_str = P.body
  query : req.m_query = m_query
  header : ∀ n, to_lowercase_str n ≠ COOKIE_HEADER →
    req.get_header n = first_pair (to_lowercase_str n) P.headers

/-! ## The text of a message -/

theorem first_line_lf (P : Parts) : (10 : Byte) ∉ P.first_line := by
  have hm : (10 : Byte) ∉ req_type_to_str P.method := by cases P.method <;> decide
  have ht : (10 : Byte) ∉ P.target := fun h => absurd (P.target_ok 10 h) (by decide)
  have hv : (10 : Byte) ∉ P.version := fun h => absurd (P.version_ok.2 10 h) (by decide)
  have hh : (10 : Byte) ∉ str "HTTP" := by decide
  simp [Parts.first_line, hm, ht, hv, hh]

/-- The message as the framing of `read_request` sees it. -/
def Message.request (M : Message) : Request where
  request_line := M.first_line
  headers := M.headers
  body := M.body
  line_ok := ⟨M.first_line_cr, first_line_lf M.toParts⟩
  headers_ne := M.headers_ne
  names_ok := fun h hh => ⟨(M.headers_ok h hh).name.ne, (M.headers_ok h hh).colon, M.names_ok h hh⟩
  values_ok := fun h hh =>
    ⟨(M.header_ok hh).value_line.1, (M.header_ok hh).value_line.2, (M.header_ok hh).visible⟩
  length_ok := by
    rw [declared_eq_first_pair M.headers_ok]
    exact M.length_ok

theorem Message.request_bytes (M : Message) : M.request.bytes = M.bytes := rfl

/-- The request line is read back. -/
theorem parse_request_line_parts (P : Parts) :
    parse_request_line P.bytes = .ok (req_type_to_str P.method, P.target) := by
  refine parse_request_line_ok_iff.mpr ⟨str "HTTP" ++ 47 :: P.version
    ++ (CRNL ++ (header_text P.headers ++ (CRNLCRNL ++ P.body))), ?_,
    (Parts.method_plain P.method).1, fun h => absurd (P.target_ok 32 h) (by decide)⟩
  simp [Parts.bytes, Parts.first_line]

/-- A request can be built when the query can, and carries the parts. -/
theorem construct_parts (P : Parts) {path : Str} {pnames : List Str}
    {m_query : UnorderedMap Str Str} (hq : extract_queries P.bytes path pnames = .ok m_query) :
    ∃ req, construct P.bytes path pnames = .ok req ∧ Carries P m_query req := by
  obtain ⟨m, hm, hfind⟩ := extract_headers_header_text P.headers_ne fun _ hh => P.header_ok hh
  have hs : extract_headers P.bytes = .ok m :=
    (extract_headers_lines P.first_line_cr P.headers_ne (fun _ hh => P.header_ok hh) P.body).trans
      hm
  refine ⟨⟨m, m_query, method_of P.bytes, P.body, version_of P.bytes⟩,
    construct_eq_ok_iff.mpr ⟨hs, hq, P.body_of_bytes, rfl, rfl⟩, ?_, P.version_of_bytes, rfl, rfl, ?_⟩
  · rw [get_method, P.method_of_bytes, req_type_from_to]
  · intro n hn
    rw [← declared_eq_first_pair P.headers_ok]
    exact hfind _ hn

/-! ## The router -/

variable {Handler Filter : Type} (platform : Platform) (user : UserCode Handler Filter)

/-- Filters that admit the request are evaluated in order, and all pass. -/
theorem pass_middlewares_of_all {req : HttpRequest} {m_filters : List (Option Filter)}
    (h : ∀ f ∈ m_filters, call_filter user f req = .ok true) :
    (pass_middlewares user req m_filters : List (Event Handler Filter) × _)
      = (m_filters.map fun f => .filter f req (.ok true), .ok true) := by
  induction m_filters with
  | nil => rfl
  | cons f m_filters ih =>
      have hf := h f List.mem_cons_self
      rw [pass_middlewares]
      simp only [hf, ih fun g hg => h g (List.mem_cons_of_mem _ hg), List.map_cons]

/-- A message on a route whose filters admit it is what the route's handler is
    invoked with. -/
theorem attempt_parts (P : Parts) {m_handles : Handles Handler Filter}
    {handle : HttpHandle Handler Filter} {hd : Handler} {m_query : UnorderedMap Str Str}
    (hfind : find_handle m_handles P.target P.method = .ok (some handle))
    (hq : extract_queries P.bytes handle.m_path handle.m_parameters = .ok m_query)
    (hhandler : handle.m_handle = some hd)
    (hpass : ∀ f ∈ handle.m_filters, ∀ req, Carries P m_query req →
      call_filter user f req = .ok true) (script : List SendOutcome) :
    ∃ req, Carries P m_query req
      ∧ attempt platform user m_handles P.target P.bytes P.method script
        = ⟨(user.handler hd req).run script,
            (handle.m_filters.map fun f => .filter f req (.ok true)) ++ [.handler hd req]⟩ := by
  obtain ⟨req, hreq, hcarries⟩ := construct_parts P hq
  refine ⟨req, hcarries, ?_⟩
  have hfilters : (pass_middlewares user req handle.m_filters : List (Event Handler Filter) × _)
      = (handle.m_filters.map fun f => .filter f req (.ok true), .ok true) :=
    pass_middlewares_of_all user fun f hf => hpass f hf req hcarries
  simp only [attempt, hfind, dispatch, hreq, hfilters, invoke, hhandler]

/-- It reaches the handler, and what the handler writes is what is sent. -/
theorem process_parts (P : Parts) {m_handles : Handles Handler Filter}
    {handle : HttpHandle Handler Filter} {hd : Handler} {m_query : UnorderedMap Str Str}
    (hfind : find_handle m_handles P.target P.method = .ok (some handle))
    (hq : extract_queries P.bytes handle.m_path handle.m_parameters = .ok m_query)
    (hhandler : handle.m_handle = some hd)
    (hpass : ∀ f ∈ handle.m_filters, ∀ req, Carries P m_query req →
      call_filter user f req = .ok true) (script : List SendOutcome) :
    ∃ req, Carries P m_query req
      ∧ (process_request platform user m_handles P.bytes script).events
        = (handle.m_filters.map fun f => .filter f req (.ok true)) ++ [.handler hd req]
      ∧ (((user.handler hd req).run script).ending = .returned →
        (process_request platform user m_handles P.bytes script).toRun
          = (user.handler hd req).run script) := by
  obtain ⟨req, hcarries, hattempt⟩ :=
    attempt_parts platform user P hfind hq hhandler hpass script
  refine ⟨req, hcarries, ?_⟩
  rw [process_request, parse_request_line_parts]
  simp only [req_type_from_to, handle_request, hattempt]
  constructor
  · split
    · split <;> rfl
    · rfl
  · intro hret
    simp only [hret]

theorem wire_version_ok :
    (47 : Byte) ∉ str "1.1" ∧ ∀ b ∈ str "1.1", isWs b = false :=
  ⟨by decide, visible_of_all (by decide)⟩

/-- A message for the route below. -/
def wire_message : Message where
  method := .GET
  target := str "/a/7?v=1"
  version := str "1.1"
  headers := [(str "Host", str "w")]
  body := []
  target_ok := visible_of_all (by decide)
  version_ok := wire_version_ok
  headers_ne := List.cons_ne_nil _ _
  headers_ok := by
    intro h hh
    obtain rfl := List.mem_singleton.mp hh
    exact ⟨by decide, by decide, by decide, by decide, by decide⟩
  names_ok := by
    intro h hh
    obtain rfl := List.mem_singleton.mp hh
    exact visible_of_all (by decide)
  length_ok := rfl

/-- The message but for its last two bytes, and these. -/
def wire_first : Chunk := ⟨wire_message.bytes.take 30, by decide, by decide⟩

def wire_last : Chunk := ⟨wire_message.bytes.drop 30, by decide, by decide⟩

/-- Every filter passes, every handler answers with an empty response. -/
def wire_user : UserCode Nat Nat where
  filter _ _ := .ok true
  handler _ _ := .respond ({} : HttpResponse) fun _ => .done

def wire_template : Str := str "/a/" ++ (group (str "x") ++ (str "?v=" ++ group (str "y")))

def wire_routes : Handles Nat Nat :=
  (register_filter (register_handler ∅ wire_template (some 0) [.GET]).1 wire_template (some 1)).1

end WebLib.Wire
