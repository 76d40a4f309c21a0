import WebLib.UnorderedMap
import WebLib.ByteString

/-! # `HttpResponse` and its writer

    A response is its header map, status and body; `to_string` writes the
    headers in the iteration order of the map.  `HttpResponseWriter::respond`
    sends the text in as many pieces as the socket takes.  What `send` and
    `poll` return is a script: the run ends with the script when the code is
    still inside a system call. -/

namespace WebLib

open ByteString UnorderedMap

/-! ## The response -/

def CONTENT_TYPE : Str := str "Content-Type"
def CONTENT_LENGTH_HEADER : Str := str "Content-Length"

/-- `ContentType`. -/
inductive ContentType where
  | HTML
  | JSON
  | TEXT
  | XML
  | CSS
  | JS
  | JPEG
  | PNG
  | GIF
  | PDF
  | CSV
  | FORM
deriving DecidableEq, Repr

/-- The `HeaderConsts::CONTENT_TYPE_...` of a type. -/
def ContentType.text : ContentType → Str
  | .HTML => str "text/html"
  | .JSON => str "application/json"
  | .TEXT => str "text/plain"
  | .XML => str "application/xml"
  | .CSS => str "text/css"
  | .JS => str "application/javascript"
  | .JPEG => str "image/jpeg"
  | .PNG => str "image/png"
  | .GIF => str "image/gif"
  | .PDF => str "application/pdf"
  | .CSV => str "text/csv"
  | .FORM => str "application/x-www-form-urlencoded"

/-- The `HttpConsts::STATUS_...` of a code. -/
def status_message : Int → Str
  | 200 => str "OK"
  | 201 => str "Created"
  | 204 => str "No Content"
  | 400 => str "Bad Request"
  | 401 => str "Unauthorized"
  | 403 => str "Forbidden"
  | 404 => str "Not Found"
  | 405 => str "Method Not Allowed"
  | 500 => str "Internal Server Error"
  | 502 => str "Bad Gateway"
  | 503 => str "Service Unavailable"
  | 504 => str "Gateway Timeout"
  | _ => str "Unknown"

structure HttpResponse where
  m_headers : UnorderedMap Str Str := assign ∅ CONTENT_TYPE ContentType.TEXT.text
  m_body : Str := []
  m_status_code : Int := 200
  m_status_message : Str := status_message 200
  m_http_version : Str := str "1.1"

namespace HttpResponse

def set_body (resp : HttpResponse) (text : Str) : HttpResponse := { resp with m_body := text }

def set_status (resp : HttpResponse) (status_code : Int) : HttpResponse :=
  { resp with m_status_code := status_code, m_status_message := status_message status_code }

def set_content_type (resp : HttpResponse) (type : ContentType) : HttpResponse :=
  { resp with m_headers := resp.m_headers.assign CONTENT_TYPE type.text }

/-- A decimal number, as `std::format` writes it. -/
def number (n : Int) : Str := str (toString n)

/-- `name: value` and a line end. -/
def header_line (name value : Str) : Str := name ++ str ": " ++ value ++ str "\r\n"

def to_string (resp : HttpResponse) : Str :=
  let status_line := str "HTTP/" ++ resp.m_http_version ++ str " " ++ number resp.m_status_code
    ++ str " " ++ resp.m_status_message ++ str "\r\n"
  let headers := resp.m_headers.entries.flatMap fun kv => header_line kv.1 kv.2
  let content_length :=
    if CONTENT_LENGTH_HEADER ∈ resp.m_headers then []
    else header_line CONTENT_LENGTH_HEADER (number resp.m_body.length)
  status_line ++ headers ++ content_length ++ str "\r\n" ++ resp.m_body

/-- There is always something to send. -/
theorem to_string_ne_nil (resp : HttpResponse) : resp.to_string ≠ [] := by
  have h : str "HTTP/" ≠ [] := by decide
  simp [to_string, h]

end HttpResponse

/-! ## Sending it -/

/-- What one round of the loop gets from the kernel. -/
inductive SendOutcome where
  /-- `send` takes this many bytes, never more than it is offered -/
  | accepted (n : Nat)
  /-- `EAGAIN`, and whether the `poll` that follows reports the socket ready -/
  | would_block (ready : Bool)
  /-- `send` fails with another error -/
  | failed
deriving DecidableEq, Repr

/-- How a call of `respond` ends. -/
inductive RespondEnd where
  | returned
  /-- `writing_socket_error` -/
  | throws
  /-- the script is over inside the call -/
  | running
deriving DecidableEq, Repr

/-- The bytes accepted, the end, and the outcomes not used. -/
structure Sent where
  bytes : Str
  ending : RespondEnd
  rest : List SendOutcome
deriving DecidableEq, Repr

/-- The `while` loop, with `write_total_size` bytes sent before. -/
def respond_loop (response : Str) (write_total_size : Nat) : List SendOutcome → Sent
  | [] =>
      if write_total_size < response.length then ⟨[], .running, []⟩ else ⟨[], .returned, []⟩
  | outcome :: script =>
      if write_total_size < response.length then
        match outcome with
        | .accepted n =>
            let bytes_sent := min n (response.length - write_total_size)
            let sent := respond_loop response (write_total_size + bytes_sent) script
            { sent with bytes := (response.drop write_total_size).take bytes_sent ++ sent.bytes }
        -- "Connection is lost when writing": a plain return
        | .would_block false => ⟨[], .returned, script⟩
        | .would_block true => respond_loop response write_total_size script
        | .failed => ⟨[], .throws, script⟩
      else ⟨[], .returned, outcome :: script⟩

/-- `HttpResponseWriter::respond`. -/
def respond (resp : HttpResponse) (script : List SendOutcome) : Sent :=
  respond_loop resp.to_string 0 script

section

variable {response : Str} {k : Nat}

theorem respond_loop_done (h : response.length ≤ k) (script : List SendOutcome) :
    respond_loop response k script = ⟨[], .returned, script⟩ := by
  cases script <;> simp [respond_loop, Nat.not_lt.mpr h]

theorem respond_loop_nil (h : k < response.length) :
    respond_loop response k [] = ⟨[], .running, []⟩ := by
  simp [respond_loop, h]

theorem respond_loop_accepted (h : k < response.length) (n : Nat) (script : List SendOutcome) :
    respond_loop response k (.accepted n :: script)
      = { respond_loop response (k + min n (response.length - k)) script with
          bytes := (response.drop k).take (min n (response.length - k))
            ++ (respond_loop response (k + min n (response.length - k)) script).bytes } := by
  simp [respond_loop, h]

theorem respond_loop_lost (h : k < response.length) (script : List SendOutcome) :
    respond_loop response k (.would_block false :: script) = ⟨[], .returned, script⟩ := by
  simp [respond_loop, h]

theorem respond_loop_ready (h : k < response.length) (script : List SendOutcome) :
    respond_loop response k (.would_block true :: script) = respond_loop response k script := by
  simp [respond_loop, h]

theorem respond_loop_failed (h : k < response.length) (script : List SendOutcome) :
    respond_loop response k (.failed :: script) = ⟨[], .throws, script⟩ := by
  simp [respond_loop, h]

end

/-- **PARTIAL WRITES**: what is accepted continues what was. -/
theorem respond_loop_prefix (response : Str) (script : List SendOutcome) :
    ∀ k, (respond_loop response k script).bytes <+: response.drop k := by
  induction script with
  | nil =>
      intro k
      rw [respond_loop]
      split <;> exact List.nil_prefix
  | cons outcome script ih =>
      intro k
      by_cases h : k < response.length
      · cases outcome with
        | accepted n =>
            obtain ⟨t, ht⟩ := ih (k + min n (response.length - k))
            rw [respond_loop_accepted h]
            refine ⟨t, ?_⟩
            rw [List.append_assoc, ht, ← List.drop_drop, List.take_append_drop]
        | would_block ready =>
            cases ready with
            | false => rw [respond_loop_lost h]; exact List.nil_prefix
            | true => rw [respond_loop_ready h]; exact ih k
        | failed => rw [respond_loop_failed h]; exact List.nil_prefix
      · rw [respond_loop_done (Nat.le_of_not_lt h)]
        exact List.nil_prefix

theorem respond_prefix (resp : HttpResponse) (script : List SendOutcome) :
    (respond resp script).bytes <+: resp.to_string :=
  respond_loop_prefix resp.to_string script 0

/-- The next response finds a socket that takes something before it fails. -/
def TakesBytes : List SendOutcome → Prop
  | .accepted 0 :: script => TakesBytes script
  | .accepted (_ + 1) :: _ => True
  | .would_block true :: script => TakesBytes script
  | _ => False

theorem respond_loop_bytes_iff (response : Str) (script : List SendOutcome) {k : Nat}
    (h : k < response.length) :
    (respond_loop response k script).bytes ≠ [] ↔ TakesBytes script := by
  induction script with
  | nil => simp [respond_loop_nil h, TakesBytes]
  | cons outcome script ih =>
      cases outcome with
      | accepted n =>
          rw [respond_loop_accepted h]
          cases n with
          | zero => simpa [TakesBytes] using ih
          | succ n =>
              have hpos : min (n + 1) (response.length - k) ≠ 0 := by omega
              have hne : response.drop k ≠ [] := by simpa using h
              simp [TakesBytes, hpos, hne]
      | would_block ready =>
          cases ready with
          | false => simp [respond_loop_lost h, TakesBytes]
          | true => rw [respond_loop_ready h]; exact ih
      | failed => simp [respond_loop_failed h, TakesBytes]

/-- Whether a response puts anything on the socket is up to the socket alone. -/
theorem respond_bytes_iff (resp : HttpResponse) (script : List SendOutcome) :
    (respond resp script).bytes ≠ [] ↔ TakesBytes script :=
  respond_loop_bytes_iff _ _ (List.length_pos_iff.mpr resp.to_string_ne_nil)

end WebLib
