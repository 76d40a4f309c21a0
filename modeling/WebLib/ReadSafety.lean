import WebLib.ReadRequest

/-! # Which inputs `read_request` survives

    Nothing around `read_request` catches: a call that throws ends the event
    loop for every client.  Three things can go wrong in the header branch:
    the length handed to `substr` wraps, the line parser throws or steps past
    a line, and `std::stoi` throws the exception that is not caught.  All three
    are decided by the text up to the first blank line, so the sequences of
    reads that are survived are characterised by the bytes alone. -/

namespace WebLib.ReadSafety

open WebLib ByteString Utils HttpHeaders ReadRequest

/-! ## Safe calls -/

/-- The call evaluates a `substr` length that wrapped around. -/
def WildLength (client : Client) (rd : ReadResult) : Prop :=
  ∃ c pos sline, rd = .data c ∧ client.is_in_body = false
    ∧ Search.find CRNLCRNL (client.raw_http ++ c.bytes) = some pos
    ∧ Search.find CRNL (client.raw_http ++ c.bytes) = some sline
    ∧ pos < sline + CRNL.length

/-- The call returns one of the four states, and evaluates nothing undefined
    or out of range on the way. -/
def Safe (client : Client) (rd : ReadResult) : Prop :=
  (∃ st, (read_request client rd).2 = .ok st) ∧ ¬ WildLength client rd

/-- Every call of a sequence is safe. -/
def AllSafe (client : Client) : List ReadResult → Prop
  | [] => True
  | rd :: rds => Safe client rd ∧ AllSafe (read_request client rd).1 rds

/-! ## Good header blocks -/

/-- The number `v` writes is outside the range of `int`. -/
def Overflows (v : Str) : Prop :=
  (strtol_parts v).2 ≠ [] ∧ (strtol_value v < INT_MIN ∨ INT_MAX < strtol_value v)

/-- A header block that is read to the end and declares no number beyond the
    range of `int`. -/
structure BlockOk (block : Str) : Prop where
  lines : ∀ line ∈ getlines block, LineOk line
  length : ∀ v, first_value (to_lowercase_str CONTENT_LENGTH) (getlines block) = some v →
    ¬ Overflows v

/-- If there is a blank line yet, then the first one does not follow the request
    line directly, and the block between the two is good. -/
def HeadOk (raw : Str) : Prop :=
  ∀ pos sline, Search.find CRNLCRNL raw = some pos → Search.find CRNL raw = some sline →
    sline < pos ∧
      BlockOk ((raw.drop (sline + CRNL.length)).take (pos - (sline + CRNL.length)))

theorem headOk_of_none {raw : Str} (h : Search.find CRNLCRNL raw = none) : HeadOk raw := by
  intro pos sline hp
  rw [h] at hp
  cases hp

/-- Once the blank line is there, later text does not matter. -/
theorem headOk_append {raw : Str} {pos : Nat} (t : Str)
    (h : Search.find CRNLCRNL raw = some pos) : HeadOk (raw ++ t) ↔ HeadOk raw := by
  obtain ⟨sline, hle, hs⟩ := Search.find_prefix CRNL ⟨[13, 10], rfl⟩ h
  have hfit := Search.find_le_length h
  have hblock : ((raw ++ t).drop (sline + CRNL.length)).take (pos - (sline + CRNL.length))
      = (raw.drop (sline + CRNL.length)).take (pos - (sline + CRNL.length)) := by
    have hcr := Search.find_le_length hs
    rw [List.drop_append_of_le_length hcr, List.take_append_of_le_length]
    rw [List.length_drop]
    omega
  constructor
  · intro hok p s hp hs'
    obtain rfl : pos = p := Option.some.inj (h.symm.trans hp)
    obtain rfl : sline = s := Option.some.inj (hs.symm.trans hs')
    have := hok pos sline (Search.find_append_of_some t h) (Search.find_append_of_some t hs)
    rw [hblock] at this
    exact this
  · intro hok p s hp hs'
    obtain rfl : pos = p := Option.some.inj ((Search.find_append_of_some t h).symm.trans hp)
    obtain rfl : sline = s :=
      Option.some.inj ((Search.find_append_of_some t hs).symm.trans hs')
    rw [hblock]
    exact hok pos sline h hs

/-! ## One call -/

theorem stoi_out_of_range_iff {v : Str} :
    stoi v = .error .out_of_range ↔ Overflows v := by
  rw [stoi, Overflows]
  by_cases hd : (strtol_parts v).2 = []
  · simp [hd]
  · rw [if_neg hd]
    by_cases hr : strtol_value v < INT_MIN ∨ INT_MAX < strtol_value v
    · rw [if_pos hr]
      exact ⟨fun _ => ⟨hd, hr⟩, fun _ => rfl⟩
    · rw [if_neg hr]
      refine ⟨fun hc => ?_, fun hc => absurd hc.2 hr⟩
      cases hc

/-- `std::stoi` throws one of its two exceptions or returns. -/
theorem stoi_cases (v : Str) :
    (∃ n, stoi v = .ok n) ∨ stoi v = .error .invalid_argument ∨ stoi v = .error .out_of_range := by
  rw [stoi]
  split
  · exact Or.inr (Or.inl rfl)
  · split
    · exact Or.inr (Or.inr rfl)
    · exact Or.inl ⟨_, rfl⟩

/-- When the lines of a block have been read, what can still throw is `stoi`. -/
theorem blockOk_iff_stoi {block : Str} {m : HttpHeaders}
    (hm : extract_headers_from_str ∅ block = .ok m) :
    BlockOk block
      ↔ stoi ((get_header m CONTENT_LENGTH).getD (str "0")) ≠ .error .out_of_range := by
  have hget : get_header m CONTENT_LENGTH
      = first_value (to_lowercase_str CONTENT_LENGTH) (getlines block) :=
    extract_headers_find (by decide) hm
  rw [hget]
  constructor
  · intro hok
    cases hv : first_value (to_lowercase_str CONTENT_LENGTH) (getlines block) with
    | none => decide
    | some v =>
        intro hc
        exact hok.length v hv (stoi_out_of_range_iff.mp hc)
  · intro hne
    refine ⟨extract_headers_ok_iff.mp ⟨m, hm⟩, fun v hv hov => ?_⟩
    rw [hv] at hne
    exact hne (stoi_out_of_range_iff.mpr hov)

/-- **THE HEADER BRANCH RETURNS** exactly on good blocks. -/
theorem parse_content_length_ok_iff {raw : Str} {pos sline : Nat}
    (hs : Search.find CRNL raw = some sline) (hle : sline + CRNL.length ≤ pos) :
    (∃ n, parse_content_length raw pos = .ok n)
      ↔ BlockOk ((raw.drop (sline + CRNL.length)).take (pos - (sline + CRNL.length))) := by
  have hsub : substr raw (sline + CRNL.length) (headers_len pos sline)
      = .ok ((raw.drop (sline + CRNL.length)).take (pos - (sline + CRNL.length))) := by
    rw [headers_len, size_sub_of_le hle, substr_of_le _ (Search.find_le_length hs)]
  rw [parse_content_length]
  simp only [hs, hsub]
  generalize (raw.drop (sline + CRNL.length)).take (pos - (sline + CRNL.length)) = block
  cases hm : extract_headers_from_str ∅ block with
  | error f =>
      constructor
      · rintro ⟨n, hn⟩
        cases hn
      · intro hok
        obtain ⟨m, hm'⟩ := extract_headers_ok_iff.mpr hok.lines
        rw [hm] at hm'
        cases hm'
  | ok m =>
      rw [blockOk_iff_stoi hm]
      simp only
      rcases stoi_cases ((get_header m CONTENT_LENGTH).getD (str "0")) with ⟨n, hn⟩ | hn | hn
      · simp [hn]
      · simp [hn]
      · simp [hn]

/-- A blank line right after the request line: the parser is given the rest of
    the buffer and throws on its first line. -/
theorem blank_not_safe_len {pos sline : Nat} {raw : Str}
    (hp : Search.find CRNLCRNL raw = some pos) (hs : Search.find CRNL raw = some sline)
    (hlt : sline < pos) : sline + CRNL.length ≤ pos := by
  by_contra hc
  have hcr : CRNL.length = 2 := rfl
  obtain rfl : pos = sline + 1 := by omega
  -- the byte after a carriage return would have to be both bytes of a line end
  obtain ⟨-, ⟨t, ht⟩, -⟩ := Search.find_eq_some_iff.mp hp
  obtain ⟨-, ⟨u, hu⟩, -⟩ := Search.find_eq_some_iff.mp hs
  have h1 : raw[sline + 1]? = some 13 := by
    have := congrArg (fun l : Str => l[0]?) ht
    simpa [CRNLCRNL] using this.symm
  have h2 : raw[sline + 1]? = some 10 := by
    have := congrArg (fun l : Str => l[1]?) hu
    simpa [CRNL] using this.symm
  rw [h1] at h2
  exact absurd h2 (by decide)

/-- The header branch fails only in the parser. -/
theorem header_branch_ok_iff {client : Client} {pos : Nat} :
    (∃ st, (header_branch client pos).2 = .ok st)
      ↔ ∃ n, parse_content_length client.raw_http pos = .ok n := by
  rw [header_branch]
  cases parse_content_length client.raw_http pos with
  | error f => simp
  | ok n => by_cases hn : n = 0 <;> simp [hn]

/-- A head that has come is good when it parses and its block does not start behind
    the blank line. -/
theorem headOk_iff {raw : Str} {pos sline : Nat} (hp : Search.find CRNLCRNL raw = some pos)
    (hs : Search.find CRNL raw = some sline) :
    HeadOk raw ↔ (∃ n, parse_content_length raw pos = .ok n) ∧ ¬ pos < sline + CRNL.length := by
  constructor
  · intro hok
    obtain ⟨hlt, hblock⟩ := hok pos sline hp hs
    have hlen := blank_not_safe_len hp hs hlt
    exact ⟨(parse_content_length_ok_iff hs hlen).mpr hblock, by omega⟩
  · rintro ⟨hok, hlen⟩ p s hp' hs'
    obtain rfl : pos = p := Option.some.inj (hp.symm.trans hp')
    obtain rfl : sline = s := Option.some.inj (hs.symm.trans hs')
    have hcr : CRNL.length = 2 := rfl
    exact ⟨by omega, (parse_content_length_ok_iff hs (by omega)).mp hok⟩

/-- **ONE CALL** is safe exactly when the client is in the body already or the
    head, as far as it has come, is good. -/
theorem safe_data_iff {client : Client} {c : Chunk} :
    Safe client (.data c)
      ↔ client.is_in_body = true ∨ HeadOk (client.raw_http ++ c.bytes) := by
  rw [Safe, WildLength]
  simp only [read_request, after_append]
  cases hb : client.is_in_body with
  | true =>
      -- in the body nothing is searched and nothing is parsed
      refine ⟨fun _ => Or.inl rfl, fun _ => ⟨?_, ?_⟩⟩
      · simp only [if_true, body_branch]
        split <;> exact ⟨_, rfl⟩
      · rintro ⟨_, _, _, -, hf, -⟩
        cases hf
  | false =>
      simp only [Bool.false_eq_true, if_false, false_or, ReadResult.data.injEq]
      cases hp : Search.find CRNLCRNL (client.raw_http ++ c.bytes) with
      | none =>
          -- no blank line yet: the call only asks for more
          refine ⟨fun _ => headOk_of_none hp, fun _ => ⟨⟨_, rfl⟩, ?_⟩⟩
          rintro ⟨c', pos, s, rfl, -, hp', -⟩
          rw [hp] at hp'
          cases hp'
      | some pos =>
          obtain ⟨sline, -, hs⟩ := Search.find_prefix CRNL ⟨[13, 10], rfl⟩ hp
          rw [headOk_iff hp hs]
          refine and_congr header_branch_ok_iff (not_congr ⟨?_, ?_⟩)
          · rintro ⟨c', p, s, rfl, -, hp', hs', hlt⟩
            obtain rfl : pos = p := Option.some.inj (hp.symm.trans hp')
            obtain rfl : sline = s := Option.some.inj (hs.symm.trans hs')
            exact hlt
          · intro hlt
            exact ⟨c, pos, sline, rfl, trivial, hp, hs, hlt⟩

/-- A read that brings no bytes evaluates no length. -/
theorem safe_of_no_data {client : Client} {rd : ReadResult} (h : ∀ c, rd ≠ .data c)
    (hok : ∃ st, (read_request client rd).2 = .ok st) : Safe client rd := by
  refine ⟨hok, ?_⟩
  rintro ⟨c, _, _, hrd, -⟩
  exact h c hrd

/-! ## Whole sequences -/

/-- What holds of a client between safe calls: the part of the head it has seen
    is good, and it is in the body only if it has seen all of the head. -/
structure Survivor (client : Client) : Prop where
  head : HeadOk client.raw_http
  body : client.is_in_body = true → ∃ pos, Search.find CRNLCRNL client.raw_http = some pos

theorem survivor_step {client : Client} {rd : ReadResult} (hc : Survivor client)
    (hok : HeadOk (client.raw_http ++ rd.bytes)) : Survivor (read_request client rd).1 := by
  refine ⟨by rw [read_request_raw]; exact hok, ?_⟩
  rw [read_request_raw]
  cases rd with
  | eof => simpa [read_request, ReadResult.bytes] using hc.body
  | would_block => simpa [read_request, ReadResult.bytes] using hc.body
  | error => simpa [read_request, ReadResult.bytes] using hc.body
  | data c =>
      simp only [read_request, after_append, ReadResult.bytes]
      cases hb : client.is_in_body with
      | true =>
          intro _
          obtain ⟨pos, hp⟩ := hc.body hb
          exact ⟨pos, Search.find_append_of_some _ hp⟩
      | false =>
          cases hp : Search.find CRNLCRNL (client.raw_http ++ c.bytes) with
          | none => simp
          | some pos => exact fun _ => ⟨pos, rfl⟩

theorem allSafe_iff {rds : List ReadResult} :
    ∀ {client : Client}, Survivor client →
      (AllSafe client rds ↔ HeadOk (client.raw_http ++ delivered rds)) := by
  induction rds with
  | nil =>
      intro client hc
      rw [delivered_nil, List.append_nil]
      exact ⟨fun _ => hc.head, fun _ => trivial⟩
  | cons rd rds ih =>
      intro client hc
      rw [delivered_cons, ← List.append_assoc, AllSafe]
      have hsafe : Safe client rd ↔ HeadOk (client.raw_http ++ rd.bytes) := by
        cases rd with
        | data c =>
            rw [safe_data_iff]
            refine ⟨?_, Or.inr⟩
            rintro (hb | hok)
            · obtain ⟨pos, hp⟩ := hc.body hb
              exact (headOk_append _ hp).mpr hc.head
            · exact hok
        | eof =>
            simp only [ReadResult.bytes, List.append_nil]
            exact ⟨fun _ => hc.head, fun _ => safe_of_no_data (by simp) ⟨_, rfl⟩⟩
        | would_block =>
            simp only [ReadResult.bytes, List.append_nil]
            exact ⟨fun _ => hc.head, fun _ => safe_of_no_data (by simp) ⟨_, rfl⟩⟩
        | error =>
            simp only [ReadResult.bytes, List.append_nil]
            exact ⟨fun _ => hc.head, fun _ => safe_of_no_data (by simp) ⟨_, rfl⟩⟩
      by_cases hok : HeadOk (client.raw_http ++ rd.bytes)
      · rw [ih (survivor_step hc hok), read_request_raw]
        exact and_iff_right (hsafe.mpr hok)
      · -- a bad head is complete, so it stays bad
        refine ⟨fun h => absurd (hsafe.mp h.1) hok, fun h => ?_⟩
        cases hp : Search.find CRNLCRNL (client.raw_http ++ rd.bytes) with
        | none => exact absurd (headOk_of_none hp) hok
        | some pos => exact absurd ((headOk_append _ hp).mp h) hok

/-- **SURVIVAL**: the calls on a freshly accepted client are all safe exactly
    when the first header block among the delivered bytes is good. -/
theorem read_request_safe_iff (fd : Nat) (rds : List ReadResult) :
    AllSafe (Client.accepted fd) rds ↔ HeadOk (delivered rds) :=
  allSafe_iff ⟨headOk_of_none rfl, fun h => Bool.noConfusion h⟩

/-- A request without header lines. -/
def bare_request : Chunk := ⟨str "GET / HTTP/1.1\r\n\r\n", by decide, by decide⟩

/-- It ends the event loop. -/
theorem bare_request_not_safe :
    ¬ AllSafe (Client.accepted 5) [.data bare_request]
      ∧ (read_request (Client.accepted 5) (.data bare_request)).2
        = .error (.throws .header_parsing_error) := by
  have hthrow : (read_request (Client.accepted 5) (.data bare_request)).2
      = .error (.throws .header_parsing_error) := by decide
  refine ⟨?_, hthrow⟩
  rintro ⟨⟨⟨st, hst⟩, -⟩, -⟩
  rw [hthrow] at hst
  cases hst

end WebLib.ReadSafety
