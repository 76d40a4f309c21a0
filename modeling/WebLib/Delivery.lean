import WebLib.Answers

/-! # What a handler can rely on

    `read_request` parses the header block to learn how long the body is, and
    the constructor of `HttpRequest` parses it again for the handler.  Both cut
    the same block out of the buffer, so a handler that reads the length from
    its request finds the number the server waited for, and at least that much
    of a body. -/

namespace WebLib.EventLoop

open WebLib ByteString Utils HttpHeaders ReadRequest ReadSafety HttpRequest UnorderedMap
  TransitionSystem
open WebLib.BodyCut (Ends buffered)

/-- The content length that a header map declares, as `read_request` takes it. -/
def declared_by (m_headers : HttpHeaders) : Except Fault Int :=
  match stoi ((get_header m_headers CONTENT_LENGTH).getD (str "0")) with
  | .ok n => .ok n
  | .error .invalid_argument => .ok 0
  | .error e => .error (.throws e)

/-- The two parses cut the same block. -/
theorem parse_content_length_extract {raw : Str} {pos : Nat}
    (hp : Search.find CRNLCRNL raw = some pos) {n : Int}
    (h : parse_content_length raw pos = .ok n) :
    ∃ m, extract_headers raw = .ok m ∧ declared_by m = .ok n := by
  rw [parse_content_length] at h
  cases hs : Search.find CRNL raw with
  | none =>
      rw [hs] at h
      cases h
  | some sline =>
      have hlen : size_sub pos (sline + CRNL.length) = headers_len pos sline := rfl
      rw [hs] at h
      simp only at h
      simp only [extract_headers, find_end, find_pos, hs, hp, Option.getD_some, hlen]
      cases hsub : substr raw (sline + CRNL.length) (headers_len pos sline) with
      | error f =>
          rw [hsub] at h
          cases h
      | ok block =>
          rw [hsub] at h
          simp only at h ⊢
          cases hm : extract_headers_from_str ∅ block with
          | error f =>
              rw [hm] at h
              cases h
          | ok m =>
              rw [hm] at h
              exact ⟨m, rfl, h⟩

/-! ## A head that was read is good -/

/-- A head that the branch has read is good. -/
theorem headOk_of_parse {raw : Str} {pos : Nat} (hp : Search.find CRNLCRNL raw = some pos)
    {n : Int} (h : parse_content_length raw pos = .ok n) : HeadOk raw := by
  obtain ⟨sline, hs, hle, -⟩ := (parse_content_length_declares hp h).length
  exact (headOk_iff hp hs).mpr ⟨⟨n, h⟩, by omega⟩

/-- A call that returns leaves a good head, or none yet. -/
theorem survivor_of_ok {client : Client} {rd : ReadResult} (hc : Survivor client) {st : State}
    (h : (read_request client rd).2 = .ok st) : Survivor (read_request client rd).1 := by
  refine survivor_step hc ?_
  cases rd with
  | eof => simpa [ReadResult.bytes] using hc.head
  | would_block => simpa [ReadResult.bytes] using hc.head
  | error => simpa [ReadResult.bytes] using hc.head
  | data c =>
      show HeadOk (client.raw_http ++ c.bytes)
      cases hp : Search.find CRNLCRNL (client.raw_http ++ c.bytes) with
      | none => exact headOk_of_none hp
      | some pos =>
          by_cases hb : client.is_in_body = true
          · obtain ⟨old, hold⟩ := hc.body hb
            exact (headOk_append c.bytes hold).mpr hc.head
          · simp only [read_request, after_append, if_neg hb, hp] at h
            obtain ⟨n, hn⟩ := header_branch_ok_iff.mp ⟨st, h⟩
            exact headOk_of_parse hp hn

theorem read_all_survivor {rds : List ReadResult} :
    ∀ {client : Client}, Survivor client → Returned (read_all client rds).2 →
      Survivor (read_all client rds).1 := by
  induction rds with
  | nil => exact fun hc _ => hc
  | cons rd rds ih =>
      intro client hc hret
      rw [read_all] at hret ⊢
      cases hr : read_request client rd with
      | mk client' r =>
          rw [hr] at hret
          cases r with
          | error f =>
              obtain ⟨st, hst⟩ := hret _ List.mem_cons_self
              cases hst
          | ok st =>
              have hok : (read_request client rd).2 = .ok st := by rw [hr]
              have hc' := survivor_of_ok hc hok
              rw [hr] at hc'
              exact ih hc' fun r hmem => hret r (List.mem_cons_of_mem _ hmem)

/-! ## A complete request -/

/-- What the buffer of a complete request is good for: its header block is
    read, it declares a length, and that much follows the blank line. -/
structure Sufficient (raw : Str) (n : Int) : Prop where
  headers : ∃ m, extract_headers raw = .ok m ∧ declared_by m = .ok n
  body : ∃ b, body_of raw = .ok b ∧ n ≤ b.length

/-- **A COMPLETE REQUEST SUFFICES**, whatever the bytes are. -/
theorem sufficient_of_ends {fd : Nat} {before : List ReadResult} {last : Chunk}
    (h : Ends fd before last) : ∃ n, Sufficient (buffered fd before last) n := by
  have hinformed : Informed (read_all (Client.accepted fd) before).1 :=
    read_all_informed (fun hb => Bool.noConfusion hb) h.returned
  have hsurvivor : Survivor (read_all (Client.accepted fd) before).1 :=
    read_all_survivor ⟨headOk_of_none rfl, fun hb => Bool.noConfusion hb⟩ h.returned
  have hcomplete := (read_request_informed hinformed h.done).2 rfl
  have hhead := (survivor_of_ok hsurvivor h.done).head
  have hd := hcomplete.declares
  have henough := hcomplete.enough
  rw [show (read_request (read_all (Client.accepted fd) before).1 (.data last)).1.raw_http
    = buffered fd before last from rfl] at hd henough hhead
  obtain ⟨sline, hs, hle, -⟩ := hd.length
  obtain ⟨n, hn⟩ := ((headOk_iff hd.terminator hs).mp hhead).1
  obtain ⟨m, hm, hdecl⟩ := parse_content_length_extract hd.terminator hn
  obtain ⟨-, hlen⟩ := hd.unique (parse_content_length_declares hd.terminator hn)
  refine ⟨n, ⟨m, hm, hdecl⟩, _, body_of_find hd.terminator, ?_⟩
  rw [hlen]
  exact henough

end WebLib.EventLoop
