import WebLib.HttpBinder
import WebLib.HttpQuery
import WebLib.ReadRequest

/-! # `HttpRequest`: the parsed request

    The constructor searches the raw text four times, once for each part, and
    copies: nothing it stores refers to the buffer.  A search that fails gives
    `npos`, and the position after it wraps around. -/

namespace WebLib

open ByteString Utils UnorderedMap HttpHeaders ReadRequest HttpBinder

/-- `HttpRequest`; `m_query` is the map `m_parameters` of its `HttpQuery`. -/
structure HttpRequest where
  m_headers : HttpHeaders := ∅
  m_query : UnorderedMap Str Str := ∅
  m_method : Str := []
  m_body : Str := []
  m_version : Str := []

namespace HttpRequest

/-! ## Methods -/

def METHOD_GET : Str := str "GET"
def METHOD_POST : Str := str "POST"
def METHOD_OPTIONS : Str := str "OPTIONS"
def METHOD_PUT : Str := str "PUT"
def METHOD_DELETE : Str := str "DELETE"

def req_type_to_str : RequestType → Str
  | .GET => METHOD_GET
  | .POST => METHOD_POST
  | .OPTIONS => METHOD_OPTIONS
  | .PUT => METHOD_PUT
  | .DELETE => METHOD_DELETE

/-- Anything unknown counts as `GET`. -/
def req_type_from_str (s : Str) : RequestType :=
  if s = METHOD_GET then .GET
  else if s = METHOD_POST then .POST
  else if s = METHOD_OPTIONS then .OPTIONS
  else if s = METHOD_PUT then .PUT
  else if s = METHOD_DELETE then .DELETE
  else .GET

/-- The known names are read back. -/
theorem req_type_from_to (type : RequestType) :
    req_type_from_str (req_type_to_str type) = type := by
  cases type <;> decide

/-! ## The constructor -/

/-- `raw.find(pat)` as a `size_t`. -/
def find_pos (pat raw : Str) : Nat := (Search.find pat raw).getD npos

/-- `raw.find(pat) + pat.size()`, which wraps after a failed search. -/
def find_end (pat raw : Str) : Nat :=
  match Search.find pat raw with
  | some pos => pos + pat.length
  | none => pat.length - 1

/-- `extract_headers`. -/
def extract_headers (raw_http : Str) : Except Fault HttpHeaders :=
  let header_start_pos := find_end CRNL raw_http
  let header_end_pos := find_pos CRNLCRNL raw_http
  match substr raw_http header_start_pos (size_sub header_end_pos header_start_pos) with
  | .error f => .error f
  | .ok headers_section => extract_headers_from_str ∅ headers_section

/-- `extract_queries`. -/
def extract_queries (raw_http path : Str) (pnames : List Str) :
    Except Fault (UnorderedMap Str Str) :=
  HttpQuery.parse_from_string ∅ raw_http pnames path

/-- The text before the first space. -/
def method_of (raw_http : Str) : Str := raw_http.take (find_pos [32] raw_http)

/-- The text after the last slash of the first line; the whole line when it has
    no slash. -/
def version_of (raw_http : Str) : Str :=
  let line := raw_http.take (find_pos CRNL raw_http)
  line.rtakeWhile fun c => c ≠ 47

/-- The text after the first blank line. -/
def body_of (raw_http : Str) : Except Fault Str :=
  let pos := find_end CRNLCRNL raw_http
  if pos ≤ raw_http.length then .ok (raw_http.drop pos) else .error (.throws .out_of_range)

/-- `HttpRequest::HttpRequest(raw_http, path, pnames)`. -/
def construct (raw_http path : Str) (pnames : List Str) : Except Fault HttpRequest :=
  match extract_headers raw_http with
  | .error f => .error f
  | .ok m_headers =>
      match extract_queries raw_http path pnames with
      | .error f => .error f
      | .ok m_query =>
          match body_of raw_http with
          | .error f => .error f
          | .ok m_body =>
              .ok { m_headers, m_query, m_body
                    m_method := method_of raw_http, m_version := version_of raw_http }

/-! ## Reading it -/

def get_header (req : HttpRequest) (header_name : Str) : Option Str :=
  HttpHeaders.get_header req.m_headers header_name

def get_headers (req : HttpRequest) : Headers := req.m_headers.m_headers

def get_cookie (req : HttpRequest) (name : Str) : Option Cookie :=
  HttpHeaders.get_cookie req.m_headers name

def get_cookies (req : HttpRequest) : UnorderedMap Str Cookie := req.m_headers.m_cookies

def get_query (req : HttpRequest) (query_name : Str) : Str :=
  HttpQuery.get_query req.m_query query_name

def body_as_str (req : HttpRequest) : Str := req.m_body

def get_method (req : HttpRequest) : RequestType := req_type_from_str req.m_method

def get_version (req : HttpRequest) : Str := req.m_version

/-! ## What the parts are -/

/-- The construction succeeds when its three fallible parts do. -/
theorem construct_eq_ok_iff {raw_http path : Str} {pnames : List Str} {req : HttpRequest} :
    construct raw_http path pnames = .ok req
      ↔ extract_headers raw_http = .ok req.m_headers
        ∧ extract_queries raw_http path pnames = .ok req.m_query
        ∧ body_of raw_http = .ok req.m_body
        ∧ req.m_method = method_of raw_http ∧ req.m_version = version_of raw_http := by
  rw [construct]
  obtain ⟨m_headers, m_query, m_method, m_body, m_version⟩ := req
  cases extract_headers raw_http with
  | error f => simp
  | ok hs =>
      cases extract_queries raw_http path pnames with
      | error f => simp
      | ok q =>
          cases body_of raw_http with
          | error f => simp
          | ok b =>
              simp only [Except.ok.injEq, HttpRequest.mk.injEq]
              constructor
              · rintro ⟨rfl, rfl, rfl, rfl, rfl⟩
                exact ⟨rfl, rfl, rfl, rfl, rfl⟩
              · rintro ⟨rfl, rfl, rfl, rfl, rfl⟩
                exact ⟨rfl, rfl, rfl, rfl, rfl⟩

/-- The body starts behind the first blank line. -/
theorem body_of_find {raw : Str} {pos : Nat} (h : Search.find CRNLCRNL raw = some pos) :
    body_of raw = .ok (raw.drop (pos + CRNLCRNL.length)) := by
  have hfit := Search.find_le_length h
  rw [body_of, find_end, h]
  exact if_pos hfit

/-- No names, no parameters. -/
theorem extract_queries_nil (raw path : Str) : extract_queries raw path [] = .ok ∅ := rfl

end HttpRequest

end WebLib
