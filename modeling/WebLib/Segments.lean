import WebLib.BodyCounter

/-! # Only the bytes count

    A client keeps five values beside its buffer, assigned in different calls,
    and which call assigns them depends on how the stream was cut.  While the
    calls ask for more, all but the counter are what the bytes read so far say,
    and the counter is assigned before it is compared.  So what the later calls
    return does not depend on the segments before them. -/

namespace WebLib.ReadRequest

open WebLib ByteString Utils HttpHeaders

/-- A client without its counter. -/
def Client.uncounted (client : Client) : Client := { client with body_bytes_rd := 0 }

/-- What the bytes read so far say: nothing yet is declared, or the first
    terminator stands somewhere and the block before it declares a length. -/
def client_of (fd : Nat) (raw_http : Str) : Client :=
  match Search.find CRNLCRNL raw_http with
  | none => ⟨fd, raw_http, -1, 0, false, if raw_http = [] then 0 else npos⟩
  | some pos =>
      let sline_end_pos := (Search.find CRNL raw_http).getD npos
      ⟨fd, raw_http, declared_length (header_block raw_http sline_end_pos pos), 0, true, pos⟩

/-! ## The counter -/

theorem header_branch_uncounted (client : Client) (pos : Nat) :
    header_branch client.uncounted pos
      = ((header_branch client pos).1.uncounted, (header_branch client pos).2) := by
  simp only [header_branch, Client.uncounted]
  cases parse_content_length client.raw_http pos with
  | error f => rfl
  | ok n => by_cases hn : n = 0 <;> simp [hn]

/-- The body branch assigns the counter before it reads it. -/
theorem body_branch_uncounted (client : Client) :
    body_branch client.uncounted = body_branch client := rfl

/-- **A CALL DOES NOT READ THE COUNTER** that an earlier call left. -/
theorem read_request_uncounted (client : Client) (rd : ReadResult) :
    (read_request client.uncounted rd).1.uncounted = (read_request client rd).1.uncounted
      ∧ (read_request client.uncounted rd).2 = (read_request client rd).2 := by
  cases rd with
  | eof => exact ⟨rfl, rfl⟩
  | would_block => exact ⟨rfl, rfl⟩
  | error => exact ⟨rfl, rfl⟩
  | data c =>
      have happend : ({ client.uncounted with raw_http := client.uncounted.raw_http ++ c.bytes }
          : Client) = Client.uncounted { client with raw_http := client.raw_http ++ c.bytes } := rfl
      simp only [read_request, happend]
      generalize ({ client with raw_http := client.raw_http ++ c.bytes } : Client) = grown
      simp only [after_append]
      by_cases hb : grown.is_in_body = true
      · have hb' : grown.uncounted.is_in_body = true := hb
        rw [if_pos hb, if_pos hb', body_branch_uncounted]
        exact ⟨rfl, rfl⟩
      · have hb' : ¬ grown.uncounted.is_in_body = true := hb
        rw [if_neg hb, if_neg hb']
        cases hp : Search.find CRNLCRNL grown.raw_http with
        | none =>
            have hp' : Search.find CRNLCRNL grown.uncounted.raw_http = none := hp
            rw [hp']
            exact ⟨rfl, rfl⟩
        | some pos =>
            have hp' : Search.find CRNLCRNL grown.uncounted.raw_http = some pos := hp
            have hmove : ({ grown.uncounted with header_end_pos := pos } : Client)
                = Client.uncounted { grown with header_end_pos := pos } := rfl
            rw [hp']
            simp only [hmove, header_branch_uncounted, and_true]
            rfl

theorem read_all_uncounted {rds : List ReadResult} : ∀ {client client' : Client},
    client.uncounted = client'.uncounted →
      (read_all client rds).1.uncounted = (read_all client' rds).1.uncounted
        ∧ (read_all client rds).2 = (read_all client' rds).2 := by
  induction rds with
  | nil => exact fun h => ⟨h, rfl⟩
  | cons rd rds ih =>
      intro client client' h
      have hstep := read_request_uncounted client rd
      rw [h] at hstep
      obtain ⟨hclient, houtcome⟩ := hstep
      obtain ⟨hclient', houtcome'⟩ := read_request_uncounted client' rd
      have hsame := hclient.symm.trans hclient'
      have hsame' := houtcome.symm.trans houtcome'
      rw [read_all, read_all]
      cases hr : read_request client rd with
      | mk grown r =>
          cases hr' : read_request client' rd with
          | mk grown' r' =>
              rw [hr, hr'] at hsame hsame'
              obtain rfl : r = r' := hsame'
              cases r with
              | error f => exact ⟨hsame, rfl⟩
              | ok st =>
                  obtain ⟨hrest, hlist⟩ := ih hsame
                  exact ⟨hrest, congrArg (List.cons _) hlist⟩

/-! ## The other values -/

/-- A client outside its body has what the last search left. -/
def Searched (client : Client) : Prop :=
  client.is_in_body = false → client.content_length = -1
    ∧ client.header_end_pos = if client.raw_http = [] then 0 else npos

theorem Searched.step {client : Client} {rd : ReadResult} (h : Searched client)
    (hr : (read_request client rd).2 = .ok .READ_MORE) : Searched (read_request client rd).1 := by
  cases rd with
  | eof => cases hr
  | would_block => exact h
  | error => cases hr
  | data c =>
      simp only [read_request, after_append] at hr ⊢
      by_cases hb : client.is_in_body = true
      · simp only [hb, if_true, body_branch]
        split <;> exact fun hf => by cases hf
      · have hflag : client.is_in_body = false := by simpa using hb
        simp only [hflag, Bool.false_eq_true, if_false] at hr ⊢
        cases hp : Search.find CRNLCRNL (client.raw_http ++ c.bytes) with
        | none =>
            intro _
            refine ⟨(h hflag).1, ?_⟩
            rw [if_neg fun hnil => c.nonempty (List.append_eq_nil_iff.mp hnil).2]
        | some pos =>
            simp only [hp, header_branch] at hr ⊢
            cases hn : parse_content_length (client.raw_http ++ c.bytes) pos with
            | error f => rw [hn] at hr; cases hr
            | ok n =>
                rw [hn] at hr
                by_cases hz : n = 0
                · simp only [if_pos hz] at hr
                  cases hr
                · simp only [if_neg hz]
                  exact fun hf => (by cases hf)

theorem read_all_searched {rds : List ReadResult} :
    ∀ {client : Client}, Searched client → (∀ r ∈ (read_all client rds).2, r = .ok .READ_MORE) →
      Searched (read_all client rds).1 := by
  induction rds with
  | nil => exact fun h _ => h
  | cons rd rds ih =>
      intro client h hrun
      rw [read_all] at hrun ⊢
      cases hr : read_request client rd with
      | mk client' r =>
          rw [hr] at hrun
          cases r with
          | error f => cases hrun _ List.mem_cons_self
          | ok st =>
              have hmore : (read_request client rd).2 = .ok .READ_MORE := by
                rw [hr]
                exact hrun _ List.mem_cons_self
              have h' := h.step hmore
              rw [hr] at h'
              exact ih h' fun r hmem => hrun r (List.mem_cons_of_mem _ hmem)

theorem read_all_fd {rds : List ReadResult} : ∀ {client : Client},
    (read_all client rds).1.fd = client.fd := by
  induction rds with
  | nil => exact fun {_} => rfl
  | cons rd rds ih =>
      intro client
      have hfd := read_request_fd client rd
      rw [read_all]
      cases hr : read_request client rd with
      | mk client' r =>
          rw [hr] at hfd
          cases r with
          | error f => exact hfd
          | ok st => exact ih.trans hfd

theorem Running.returned {fd : Nat} {rds : List ReadResult} (h : Running fd rds) :
    Returned (read_all (Client.accepted fd) rds).2 := fun r hr => ⟨_, h r hr⟩

/-- **THE CLIENT IS WHAT THE BYTES SAY**, but for its counter. -/
theorem Running.uncounted {fd : Nat} {rds : List ReadResult} (h : Running fd rds) :
    (read_all (Client.accepted fd) rds).1.uncounted = client_of fd (delivered rds) := by
  obtain ⟨hinf, hwait⟩ := h.waiting
  have hsearched : Searched (read_all (Client.accepted fd) rds).1 :=
    read_all_searched (fun _ => ⟨rfl, rfl⟩) h
  have hraw : (read_all (Client.accepted fd) rds).1.raw_http = delivered rds :=
    read_all_raw h.returned
  have hfd : (read_all (Client.accepted fd) rds).1.fd = fd := read_all_fd
  generalize (read_all (Client.accepted fd) rds).1 = client at *
  obtain ⟨cfd, raw, content_length, body_bytes_rd, is_in_body, header_end_pos⟩ := client
  obtain rfl : raw = delivered rds := hraw
  obtain rfl : cfd = fd := hfd
  cases is_in_body with
  | false =>
      obtain ⟨hlen, hpos⟩ := hsearched rfl
      have hnone := hwait.head rfl
      rw [client_of, hnone]
      simp only [Client.uncounted] at hlen hpos ⊢
      rw [hlen, hpos]
  | true =>
      have hd := hinf rfl
      obtain ⟨sline, hs, -, hn⟩ := hd.length
      have hp := hd.terminator
      rw [client_of]
      simp only [Client.uncounted] at hs hn hp ⊢
      simp only [hp, hs, Option.getD_some, hn]

/-- **ONLY THE BYTES COUNT**: after any reads that asked for more, in whatever
    segments and with whatever empty reads between, all later calls return what
    they return on the client that the bytes alone make, and leave the same. -/
theorem segments_do_not_matter {fd : Nat} {rds : List ReadResult} (h : Running fd rds)
    (more : List ReadResult) :
    (read_all (read_all (Client.accepted fd) rds).1 more).2
        = (read_all (client_of fd (delivered rds)) more).2
      ∧ (read_all (read_all (Client.accepted fd) rds).1 more).1.uncounted
        = (read_all (client_of fd (delivered rds)) more).1.uncounted := by
  have hsame : (read_all (Client.accepted fd) rds).1.uncounted
      = (client_of fd (delivered rds)).uncounted := by
    rw [h.uncounted, ← h.uncounted]
    rfl
  obtain ⟨hclient, houtcomes⟩ := read_all_uncounted hsame
  exact ⟨houtcomes, hclient⟩

/-- The head in one read and an empty read, or all at once: the body then ends
    the request. -/
theorem head_then_body :
    (read_all (read_all (Client.accepted 5) [.data Framing.sample_head, .would_block]).1
        [.data Framing.sample_body]).2
      = (read_all (client_of 5 (delivered [.data Framing.sample_head, .would_block]))
          [.data Framing.sample_body]).2
    ∧ (read_all (read_all (Client.accepted 5) [.data Framing.sample_head, .would_block]).1
        [.data Framing.sample_body]).1.uncounted
      = (read_all (client_of 5 (delivered [.data Framing.sample_head, .would_block]))
          [.data Framing.sample_body]).1.uncounted := by
  have hmore : (read_all (Client.accepted 5) [.data Framing.sample_head, .would_block]).2
      = [.ok .READ_MORE, .ok .READ_MORE] := by decide
  refine segments_do_not_matter ?_ [.data Framing.sample_body]
  intro r hr
  rw [hmore] at hr
  rcases List.mem_pair.mp hr with rfl | rfl <;> rfl

end WebLib.ReadRequest
