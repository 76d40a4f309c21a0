import WebLib.HttpHeaders

/-! # `HttpServer::read_request`: one read of one client

    A `Client` accumulates the bytes read so far.  A call reads once; when the
    header terminator is in the buffer for the first time it parses the block
    before it for the content length, and in later calls it counts the bytes
    after the terminator.  A call either returns one of four states or fails;
    the client keeps what was assigned before the failure. -/

namespace WebLib.ReadRequest

open WebLib ByteString HttpHeaders

/-- `HttpConsts::CRNL`. -/
def CRNL : Str := [13, 10]

/-- `HttpConsts::CRNLCRNL`. -/
def CRNLCRNL : Str := [13, 10, 13, 10]

/-- `HttpServer::Client`; the initializers are those of the declaration, and
    `Client{}` is what `operator[]` of the client map makes. -/
structure Client where
  fd : Nat := 0
  raw_http : Str := []
  content_length : Int := -1
  body_bytes_rd : Int := 0
  is_in_body : Bool := false
  header_end_pos : Nat := 0
deriving DecidableEq, Repr

/-- `Client{client_socket, {}, -1, 0, false, 0}`. -/
def Client.accepted (client_socket : Nat) : Client :=
  ⟨client_socket, [], -1, 0, false, 0⟩

/-- `Client::State`. -/
inductive State where
  | READ_MORE
  | CONNECTION_ABORTED
  | END_OF_CONNECTION
  | CONNECTION_ERROR
deriving DecidableEq, Repr

/-- The bytes one `read` into the 4096-byte buffer can deliver. -/
structure Chunk where
  bytes : Str
  nonempty : bytes ≠ []
  le_buf : bytes.length ≤ 4096
deriving DecidableEq, Repr

/-- What `read` returns: bytes, `0`, `EAGAIN`/`EWOULDBLOCK`, another error. -/
inductive ReadResult where
  | data (c : Chunk)
  | eof
  | would_block
  | error
deriving DecidableEq, Repr

/-- The length handed to `substr` when the header terminator is at
    `header_end_pos` and the request line ends at `sline_end_pos`. -/
def headers_len (header_end_pos sline_end_pos : Nat) : Nat :=
  size_sub header_end_pos (sline_end_pos + CRNL.length)

/-- The content length of the header block that ends at `header_end_pos`.
    Of the two exceptions of `std::stoi` only `invalid_argument` is caught. -/
def parse_content_length (raw_http : Str) (header_end_pos : Nat) : Except Fault Int :=
  match Search.find CRNL raw_http with
  | none => .error (.throws (.runtime_error (str "Http request is ill formed")))
  | some sline_end_pos =>
      match substr raw_http (sline_end_pos + CRNL.length)
          (headers_len header_end_pos sline_end_pos) with
      | .error f => .error f
      | .ok headers_s =>
          match extract_headers_from_str ∅ headers_s with
          | .error f => .error f
          | .ok headers =>
              match stoi ((get_header headers CONTENT_LENGTH).getD (str "0")) with
              | .ok n => .ok n
              -- the one exception that is caught
              | .error .invalid_argument => .ok 0
              | .error e => .error (.throws e)

/-- The first branch, entered when the terminator is at `pos`. -/
def header_branch (client : Client) (pos : Nat) : Client × Except Fault State :=
  match parse_content_length client.raw_http pos with
  | .error f => (client, .error f)
  | .ok n =>
      -- bytes after the terminator that came with it are not counted here
      if n = 0 then ({ client with content_length := n }, .ok .END_OF_CONNECTION)
      else ({ client with content_length := n, is_in_body := true }, .ok .READ_MORE)

/-- The second branch: the bytes after the terminator are counted. -/
def body_branch (client : Client) : Client × Except Fault State :=
  let body_bytes_rd :=
    to_int ((client.raw_http.length : Int) - (client.header_end_pos + CRNLCRNL.length))
  let client := { client with body_bytes_rd := body_bytes_rd }
  if client.content_length ≤ client.body_bytes_rd then (client, .ok .END_OF_CONNECTION)
  else (client, .ok .READ_MORE)

/-- The code after `append`.  `header_end_pos` is assigned, also with `npos`,
    whenever the client is not in the body. -/
def after_append (client : Client) : Client × Except Fault State :=
  if client.is_in_body then body_branch client
  else
    match Search.find CRNLCRNL client.raw_http with
    | none => ({ client with header_end_pos := npos }, .ok .READ_MORE)
    | some pos => header_branch { client with header_end_pos := pos } pos

/-- `read_request`. -/
def read_request (client : Client) (rd : ReadResult) : Client × Except Fault State :=
  match rd with
  | .eof => (client, .ok .CONNECTION_ABORTED)
  | .would_block => (client, .ok .READ_MORE)
  | .error => (client, .ok .CONNECTION_ERROR)
  | .data c => after_append { client with raw_http := client.raw_http ++ c.bytes }

/-- The calls on one client, up to the first that fails, and what they
    returned. -/
def read_all (client : Client) : List ReadResult → Client × List (Except Fault State)
  | [] => (client, [])
  | rd :: rds =>
      match read_request client rd with
      | (client', .error f) => (client', [.error f])
      | (client', .ok st) => ((read_all client' rds).1, .ok st :: (read_all client' rds).2)

/-- The bytes a read delivers. -/
def ReadResult.bytes : ReadResult → Str
  | .data c => c.bytes
  | _ => []

/-- The bytes a sequence of reads delivers. -/
def delivered (rds : List ReadResult) : Str := rds.flatMap ReadResult.bytes

@[simp] theorem delivered_nil : delivered [] = [] := rfl

@[simp] theorem delivered_cons (rd : ReadResult) (rds : List ReadResult) :
    delivered (rd :: rds) = rd.bytes ++ delivered rds := rfl

/-! ## What one call can do to the client -/

theorem header_branch_frame (client : Client) (pos : Nat) :
    (header_branch client pos).1.fd = client.fd
      ∧ (header_branch client pos).1.raw_http = client.raw_http := by
  rw [header_branch]
  cases parse_content_length client.raw_http pos with
  | error f => exact ⟨rfl, rfl⟩
  | ok n => by_cases hn : n = 0 <;> simp [hn]

theorem body_branch_frame (client : Client) :
    (body_branch client).1.fd = client.fd
      ∧ (body_branch client).1.raw_http = client.raw_http := by
  rw [body_branch]
  simp only
  split <;> exact ⟨rfl, rfl⟩

/-- **FRAME**: a call keeps the descriptor and appends exactly what it read. -/
theorem read_request_frame (client : Client) (rd : ReadResult) :
    (read_request client rd).1.fd = client.fd
      ∧ (read_request client rd).1.raw_http = client.raw_http ++ rd.bytes := by
  cases rd with
  | eof => simp [read_request, ReadResult.bytes]
  | would_block => simp [read_request, ReadResult.bytes]
  | error => simp [read_request, ReadResult.bytes]
  | data c =>
      rw [read_request, after_append]
      simp only [ReadResult.bytes]
      split
      · exact body_branch_frame _
      · cases Search.find CRNLCRNL (client.raw_http ++ c.bytes) with
        | none => exact ⟨rfl, rfl⟩
        | some pos => exact header_branch_frame _ pos

@[simp] theorem read_request_fd (client : Client) (rd : ReadResult) :
    (read_request client rd).1.fd = client.fd := (read_request_frame client rd).1

@[simp] theorem read_request_raw (client : Client) (rd : ReadResult) :
    (read_request client rd).1.raw_http = client.raw_http ++ rd.bytes :=
  (read_request_frame client rd).2

/-- A request is only ever complete after a read that delivered bytes. -/
theorem read_request_end {client : Client} {rd : ReadResult}
    (h : (read_request client rd).2 = .ok .END_OF_CONNECTION) : ∃ c, rd = .data c := by
  cases rd with
  | data c => exact ⟨c, rfl⟩
  | eof => cases h
  | would_block => cases h
  | error => cases h

/-- A call reports the end of the connection or an error only when the read
    did, and then leaves the client as it was. -/
theorem read_request_closed {client : Client} {rd : ReadResult}
    (h : (read_request client rd).2 = .ok .CONNECTION_ABORTED
      ∨ (read_request client rd).2 = .ok .CONNECTION_ERROR) :
    rd = .eof ∨ rd = .error := by
  cases rd with
  | eof => exact Or.inl rfl
  | error => exact Or.inr rfl
  | would_block => exact absurd h (by simp [read_request])
  | data c =>
      -- after bytes each branch reports more to come, the end, or a failure
      exfalso
      unfold read_request after_append body_branch header_branch at h
      simp only at h
      split at h
      · split at h <;> simp at h
      · cases hf : Search.find CRNLCRNL (client.raw_http ++ c.bytes) with
        | none => rw [hf] at h; simp at h
        | some pos =>
            rw [hf] at h
            cases hp : parse_content_length (client.raw_http ++ c.bytes) pos with
            | error f => simp [hp] at h
            | ok n => by_cases hn : n = 0 <;> simp [hp, hn] at h

end WebLib.ReadRequest
