import WebLib.Framing
import WebLib.ReadSafety

/-! # When `read_request` reports a complete request

    `header_end_pos` is assigned inside a condition, also with `npos`, and
    `content_length` and `is_in_body` live on over the calls.  What carries a
    run is that a client in the body already knows both values its buffer
    determines, and that later bytes, line ends and terminators among them, do
    not change what the buffer determines. -/

namespace WebLib.ReadRequest

open WebLib ByteString Utils HttpHeaders ReadSafety

/-! ## What a buffer determines -/

/-- The header block: the text between the request line and the terminator. -/
def header_block (raw : Str) (sline pos : Nat) : Str :=
  (raw.drop (sline + CRNL.length)).take (pos - (sline + CRNL.length))

/-- The number on the first `Content-Length` line of a block; zero when there is
    no such line, or no number on it. -/
def declared_length (block : Str) : Int :=
  match first_value (to_lowercase_str CONTENT_LENGTH) (getlines block) with
  | none => 0
  | some v => if (strtol_parts v).2 = [] then 0 else strtol_value v

/-- The first terminator stands at `pos`, and the block before it declares `n`. -/
structure Declares (raw : Str) (pos : Nat) (n : Int) : Prop where
  terminator : Search.find CRNLCRNL raw = some pos
  length : ∃ sline, Search.find CRNL raw = some sline ∧ sline + CRNL.length ≤ pos
    ∧ n = declared_length (header_block raw sline pos)

/-- Later bytes change neither. -/
theorem Declares.append {raw : Str} {pos : Nat} {n : Int} (h : Declares raw pos n) (t : Str) :
    Declares (raw ++ t) pos n := by
  obtain ⟨sline, hs, hle, hn⟩ := h.length
  refine ⟨Search.find_append_of_some t h.terminator, sline, Search.find_append_of_some t hs,
    hle, ?_⟩
  have hfit := Search.find_le_length h.terminator
  have hcr := Search.find_le_length hs
  rw [hn, header_block, header_block, List.drop_append_of_le_length hcr,
    List.take_append_of_le_length]
  rw [List.length_drop]
  omega

/-- And they are determined: a buffer declares one position and one length. -/
theorem Declares.unique {raw : Str} {pos pos' : Nat} {n n' : Int} (h : Declares raw pos n)
    (h' : Declares raw pos' n') : pos' = pos ∧ n' = n := by
  obtain rfl : pos = pos' := Option.some.inj (h.terminator.symm.trans h'.terminator)
  obtain ⟨sline, hs, -, hn⟩ := h.length
  obtain ⟨sline', hs', -, hn'⟩ := h'.length
  obtain rfl : sline = sline' := Option.some.inj (hs.symm.trans hs')
  exact ⟨rfl, hn'.trans hn.symm⟩

/-! ## The header branch -/

/-- A blank line right behind the request line ends in an exception: the parser
    is handed the rest of the buffer, whose first line has no colon. -/
theorem parse_content_length_blank {raw : Str} {pos : Nat}
    (hp : Search.find CRNLCRNL raw = some pos) (hs : Search.find CRNL raw = some pos) :
    parse_content_length raw pos = .error (.throws .header_parsing_error) := by
  obtain ⟨-, ⟨rest, hrest⟩, -⟩ := Search.find_eq_some_iff.mp hp
  have hfit := Search.find_le_length hs
  have hcr : CRNL.length = 2 := rfl
  have hdrop : raw.drop (pos + CRNL.length) = 13 :: 10 :: rest := by
    rw [← List.drop_drop, ← hrest]
    rfl
  -- the length handed to `substr` wraps to a huge number
  obtain ⟨k, hk⟩ : ∃ k, headers_len pos pos = k + 2 := by
    rw [headers_len, size_sub, if_neg (by omega), hcr, sizeMod]
    exact ⟨2 ^ 64 - 4, by omega⟩
  rw [parse_content_length]
  simp only [hs, substr_of_le _ hfit, hdrop, hk]
  have hblock : extract_headers_from_str ∅ (((13 : Byte) :: 10 :: rest).take (k + 2))
      = .error (.throws .header_parsing_error) := by
    have hcr : (10 : Byte) ∉ [13] := by decide
    have hsplit : (((13 : Byte) :: 10 :: rest).take (k + 2)).splitOn 10
        = [13] :: (rest.take k).splitOn 10 :=
      List.splitOn_append_cons_self_of_not_mem hcr _
    have hlines : ∃ ls, getlines (((13 : Byte) :: 10 :: rest).take (k + 2)) = [13] :: ls := by
      rw [getlines, hsplit]
      split
      · exact ⟨_, List.dropLast_cons_of_ne_nil (List.splitOn_ne_nil _ _)⟩
      · exact ⟨_, rfl⟩
    obtain ⟨ls, hls⟩ := hlines
    have hline : header_of_line [13] = .error (.throws .header_parsing_error) := by decide
    rw [extract_headers_from_str, if_neg (by simp), hls, extract_headers_loop, hline]
  rw [hblock]

/-- **WHAT THE HEADER BRANCH READS** is what the buffer declares. -/
theorem parse_content_length_declares {raw : Str} {pos : Nat} {n : Int}
    (hp : Search.find CRNLCRNL raw = some pos) (h : parse_content_length raw pos = .ok n) :
    Declares raw pos n := by
  obtain ⟨sline, hle, hs⟩ := Search.find_prefix CRNL ⟨[13, 10], rfl⟩ hp
  have hne : sline ≠ pos := by
    rintro rfl
    rw [parse_content_length_blank hp hs] at h
    cases h
  have hlen : sline + CRNL.length ≤ pos := blank_not_safe_len hp hs (by omega)
  refine ⟨hp, sline, hs, hlen, ?_⟩
  have hsub : substr raw (sline + CRNL.length) (headers_len pos sline)
      = .ok (header_block raw sline pos) := by
    rw [headers_len, size_sub_of_le hlen, substr_of_le _ (Search.find_le_length hs)]
    rfl
  rw [parse_content_length] at h
  simp only [hs, hsub] at h
  generalize header_block raw sline pos = block at h ⊢
  cases hm : extract_headers_from_str ∅ block with
  | error f =>
      rw [hm] at h
      cases h
  | ok m =>
      have hget : get_header m CONTENT_LENGTH
          = first_value (to_lowercase_str CONTENT_LENGTH) (getlines block) :=
        extract_headers_find (by decide) hm
      rw [hm] at h
      simp only [hget] at h
      rw [declared_length]
      cases hv : first_value (to_lowercase_str CONTENT_LENGTH) (getlines block) with
      | none =>
          rw [hv] at h
          have hz : stoi (str "0") = .ok 0 := by decide
          simpa [hz] using h.symm
      | some v =>
          rw [hv] at h
          simp only [Option.getD_some, stoi] at h
          by_cases hd : (strtol_parts v).2 = []
          · simpa [hd] using h.symm
          · by_cases hr : strtol_value v < INT_MIN ∨ INT_MAX < strtol_value v
            · simp [hd, hr] at h
            · simpa [hd, hr] using h.symm

/-! ## The invariant of a client -/

/-- A client in the body has the values its buffer declares. -/
def Informed (client : Client) : Prop :=
  client.is_in_body = true →
    Declares client.raw_http client.header_end_pos client.content_length

/-- Everything the client's own values promise has arrived. -/
structure Complete (client : Client) : Prop where
  declares : Declares client.raw_http client.header_end_pos client.content_length
  enough : client.content_length
    ≤ (client.raw_http.drop (client.header_end_pos + CRNLCRNL.length)).length

/-- Narrowing a count to `int` never makes it larger. -/
theorem to_int_le {n : Int} (h : 0 ≤ n) : to_int n ≤ n := by
  rw [to_int, Int.bmod_def]
  omega

theorem header_branch_informed {client : Client} {pos : Nat}
    (hp : Search.find CRNLCRNL client.raw_http = some pos) (hpos : client.header_end_pos = pos)
    {st : State} (h : (header_branch client pos).2 = .ok st) :
    Informed (header_branch client pos).1
      ∧ (st = .END_OF_CONNECTION → Complete (header_branch client pos).1) := by
  rw [header_branch] at h ⊢
  cases hn : parse_content_length client.raw_http pos with
  | error f =>
      rw [hn] at h
      cases h
  | ok n =>
      have hd := parse_content_length_declares hp hn
      rw [hn] at h
      by_cases hz : n = 0
      · -- nothing is declared, so nothing has to follow
        simp only [if_pos hz]
        refine ⟨fun _ => ?_, fun _ => ⟨?_, ?_⟩⟩
        · rw [hpos]; exact hd
        · rw [hpos]; exact hd
        · rw [hz]; exact Int.natCast_nonneg _
      · simp only [if_neg hz] at h ⊢
        refine ⟨fun _ => ?_, ?_⟩
        · rw [hpos]; exact hd
        · rintro rfl
          cases h

theorem body_branch_informed {client : Client}
    (hd : Declares client.raw_http client.header_end_pos client.content_length) {st : State}
    (h : (body_branch client).2 = .ok st) :
    Informed (body_branch client).1
      ∧ (st = .END_OF_CONNECTION → Complete (body_branch client).1) := by
  have hfit := Search.find_le_length hd.terminator
  rw [body_branch] at h ⊢
  simp only at h ⊢
  split at h
  · next hle =>
      rw [if_pos hle]
      refine ⟨fun _ => hd, fun _ => ⟨hd, ?_⟩⟩
      rw [List.length_drop]
      have hcount : (0 : Int) ≤ (client.raw_http.length : Int)
          - (client.header_end_pos + CRNLCRNL.length) := by omega
      have := to_int_le hcount
      simp only
      omega
  · next hle =>
      rw [if_neg hle]
      refine ⟨fun _ => hd, ?_⟩
      rintro rfl
      cases h

/-- **ONE CALL** that returns keeps the invariant, and reports a complete
    request only for one. -/
theorem read_request_informed {client : Client} {rd : ReadResult} {st : State} (hc : Informed client)
    (h : (read_request client rd).2 = .ok st) :
    Informed (read_request client rd).1
      ∧ (st = .END_OF_CONNECTION → Complete (read_request client rd).1) := by
  cases rd with
  | eof => cases h; exact ⟨hc, fun hst => by cases hst⟩
  | would_block => cases h; exact ⟨hc, fun hst => by cases hst⟩
  | error => cases h; exact ⟨hc, fun hst => by cases hst⟩
  | data c =>
      rw [read_request, after_append] at h ⊢
      simp only at h ⊢
      by_cases hb : client.is_in_body = true
      · rw [if_pos hb] at h ⊢
        exact body_branch_informed ((hc hb).append c.bytes) h
      · rw [if_neg hb] at h ⊢
        cases hp : Search.find CRNLCRNL (client.raw_http ++ c.bytes) with
        | none =>
            rw [hp] at h
            cases h
            exact ⟨fun hb' => absurd hb' hb, fun hst => by cases hst⟩
        | some pos =>
            rw [hp] at h
            exact header_branch_informed hp rfl h

/-- Every call of a sequence returned. -/
def Returned (outcomes : List (Except Fault State)) : Prop :=
  ∀ r ∈ outcomes, ∃ st, r = .ok st

theorem read_all_informed {rds : List ReadResult} :
    ∀ {client : Client}, Informed client → Returned (read_all client rds).2 →
      Informed (read_all client rds).1 := by
  induction rds with
  | nil => intro client hc _; exact hc
  | cons rd rds ih =>
      intro client hc hret
      rw [read_all] at hret ⊢
      cases hr : read_request client rd with
      | mk client' r =>
          cases r with
          | error f =>
              rw [hr] at hret
              obtain ⟨st, hst⟩ := hret _ List.mem_cons_self
              cases hst
          | ok st =>
              rw [hr] at hret
              have hc' : Informed client' := by
                have := (read_request_informed hc (by rw [hr])).1
                rwa [hr] at this
              exact ih hc' fun r hmem => hret r (List.mem_cons_of_mem _ hmem)

/-- Calls that returned have appended what they read. -/
theorem read_all_raw {rds : List ReadResult} :
    ∀ {client : Client}, Returned (read_all client rds).2 →
      (read_all client rds).1.raw_http = client.raw_http ++ delivered rds := by
  induction rds with
  | nil => intro client _; simp [read_all]
  | cons rd rds ih =>
      intro client hret
      have hraw := read_request_raw client rd
      rw [read_all] at hret ⊢
      cases hr : read_request client rd with
      | mk client' r =>
          rw [hr] at hret hraw
          cases r with
          | error f =>
              obtain ⟨st, hst⟩ := hret _ List.mem_cons_self
              cases hst
          | ok st =>
              have := ih fun r hmem => hret r (List.mem_cons_of_mem _ hmem)
              rw [this, hraw, delivered_cons, List.append_assoc]

end WebLib.ReadRequest
