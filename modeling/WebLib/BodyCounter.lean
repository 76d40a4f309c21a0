import WebLib.Completion
import WebLib.Decoding

/-! # The body counter

    `body_bytes_rd` is an `int`, and the distance it is assigned is not.  A
    client in the body that waits for more has fewer bytes than it declared, so
    one read takes the distance at most 4095 bytes past the declared length.  A
    length that near the largest `int` can be counted past it; no other can. -/

namespace WebLib.ReadRequest

open WebLib ByteString Utils HttpHeaders RequestText Framing

/-- The bytes behind the first header terminator. -/
def after_terminator (raw_http : Str) : Nat :=
  match Search.find CRNLCRNL raw_http with
  | none => 0
  | some pos => raw_http.length - (pos + CRNLCRNL.length)

/-- The loop reads a client again only after `READ_MORE`. -/
def Running (fd : Nat) (rds : List ReadResult) : Prop :=
  ∀ r ∈ (read_all (Client.accepted fd) rds).2, r = .ok .READ_MORE

/-- A call that reads `c` stores the number of bytes behind the terminator, and
    reports the end exactly when the declared number has arrived. -/
structure Counts (client : Client) (c : Chunk) : Prop where
  stored : (read_request client (.data c)).1.body_bytes_rd
    = after_terminator (client.raw_http ++ c.bytes)
  recognised : (read_request client (.data c)).2 = .ok .END_OF_CONNECTION
    ↔ client.content_length ≤ after_terminator (client.raw_http ++ c.bytes)

/-- The most a read can bring beyond what was missing. -/
def overshoot : Int := 4095

/-! ## One call -/

theorem to_int_eq_iff {n : Nat} : to_int n = n ↔ (n : Int) ≤ INT_MAX := by
  constructor
  · intro h
    rw [to_int, Int.bmod_def] at h
    rw [INT_MAX]
    omega
  · intro h
    refine to_int_of_mem ?_ h
    rw [INT_MIN]
    omega

/-- The body branch, on a client that knows its terminator. -/
theorem read_request_in_body {client : Client} (hc : Informed client)
    (hb : client.is_in_body = true) (c : Chunk) :
    read_request client (.data c)
      = ({ client with
            raw_http := client.raw_http ++ c.bytes
            body_bytes_rd := to_int (after_terminator (client.raw_http ++ c.bytes)) },
          .ok (if client.content_length ≤ to_int (after_terminator (client.raw_http ++ c.bytes))
            then .END_OF_CONNECTION else .READ_MORE)) := by
  have hpos := ((hc hb).append c.bytes).terminator
  have hfit := Search.find_le_length hpos
  have hcount : ((client.raw_http ++ c.bytes).length : Int)
      - (client.header_end_pos + CRNLCRNL.length)
        = (after_terminator (client.raw_http ++ c.bytes) : Nat) := by
    simp only [after_terminator, hpos]
    omega
  simp only [read_request, after_append, hb, if_true, body_branch, hcount]
  split <;> rfl

/-- **ONE CALL COUNTS** exactly when the count fits an `int`. -/
theorem counts_iff_fits {client : Client} (hc : Informed client) (hb : client.is_in_body = true)
    (c : Chunk) :
    Counts client c ↔ (after_terminator (client.raw_http ++ c.bytes) : Int) ≤ INT_MAX := by
  rw [← to_int_eq_iff]
  have hcall := read_request_in_body hc hb c
  have hstored : (read_request client (.data c)).1.body_bytes_rd
      = to_int (after_terminator (client.raw_http ++ c.bytes)) := by simp only [hcall]
  have hstate := congrArg Prod.snd hcall
  constructor
  · exact fun h => hstored.symm.trans h.stored
  · intro h
    rw [h] at hstored hstate
    refine ⟨hstored, ?_⟩
    rw [hstate]
    by_cases hle : client.content_length ≤ (after_terminator (client.raw_http ++ c.bytes) : Int)
    · rw [if_pos hle]
      exact ⟨fun _ => hle, fun _ => rfl⟩
    · rw [if_neg hle]
      exact ⟨fun hend => (by cases hend), fun h => absurd h hle⟩

/-! ## What a waiting client still misses -/

/-- Before the terminator nothing is behind it; in the body either the head has
    only just come, or bytes are missing. -/
structure Waiting (client : Client) : Prop where
  head : client.is_in_body = false → Search.find CRNLCRNL client.raw_http = none
  body : client.is_in_body = true → client.content_length ≤ INT_MAX - overshoot →
    after_terminator client.raw_http < 4096
      ∨ (after_terminator client.raw_http : Int) < client.content_length

/-- A terminator that was not there ends inside the last read. -/
theorem after_terminator_lt {raw : Str} {c : Chunk} (h : Search.find CRNLCRNL raw = none) :
    after_terminator (raw ++ c.bytes) < 4096 := by
  rw [after_terminator]
  cases hp : Search.find CRNLCRNL (raw ++ c.bytes) with
  | none => exact Nat.succ_pos 4095
  | some pos =>
      have hlate : raw.length < pos + CRNLCRNL.length := by
        by_contra hle
        obtain ⟨-, hpre, -⟩ := Search.find_eq_some_iff.mp hp
        rw [List.drop_append_of_le_length (by omega)] at hpre
        have hin : CRNLCRNL <+: raw.drop pos := by
          refine List.prefix_of_prefix_length_le hpre (List.prefix_append _ _) ?_
          rw [List.length_drop]
          omega
        exact Search.find_eq_none_iff.mp h (hin.isInfix.trans (List.drop_suffix pos raw).isInfix)
      have hbuf := c.le_buf
      simp only [List.length_append]
      omega

/-- What is counted by the next call fits. -/
theorem Waiting.fits {client : Client} (h : Waiting client) (hc : Informed client)
    (hb : client.is_in_body = true) (hn : client.content_length ≤ INT_MAX - overshoot) (c : Chunk) :
    (after_terminator (client.raw_http ++ c.bytes) : Int) ≤ INT_MAX := by
  have hpos := (hc hb).terminator
  have hpos' := ((hc hb).append c.bytes).terminator
  have hfit := Search.find_le_length hpos
  have hbuf := c.le_buf
  have hbody := h.body hb hn
  simp only [after_terminator, hpos] at hbody
  simp only [after_terminator, hpos', List.length_append]
  rw [INT_MAX, overshoot] at *
  omega

theorem Waiting.step {client : Client} {rd : ReadResult} (h : Waiting client) (hc : Informed client)
    (hr : (read_request client rd).2 = .ok .READ_MORE) : Waiting (read_request client rd).1 := by
  cases rd with
  | eof => cases hr
  | would_block => exact h
  | error => cases hr
  | data c =>
      by_cases hb : client.is_in_body = true
      · rw [read_request_in_body hc hb] at hr ⊢
        refine ⟨fun hf => ?_, fun _ hn => Or.inr ?_⟩
        · exact absurd (hb.symm.trans hf) (by decide)
        · have hcount := to_int_eq_iff.mpr (h.fits hc hb hn c)
          simp only [hcount] at hr
          simp only
          by_contra hle
          rw [if_pos (by omega)] at hr
          cases hr
      · have hflag : client.is_in_body = false := by simpa using hb
        have hnone := h.head hflag
        simp only [read_request, after_append, hflag, Bool.false_eq_true, if_false] at hr ⊢
        cases hp : Search.find CRNLCRNL (client.raw_http ++ c.bytes) with
        | none => exact ⟨fun _ => hp, fun hf => absurd hf Bool.false_ne_true⟩
        | some pos =>
            simp only [hp, header_branch] at hr ⊢
            cases hn : parse_content_length (client.raw_http ++ c.bytes) pos with
            | error f => rw [hn] at hr; cases hr
            | ok n =>
                rw [hn] at hr
                by_cases hz : n = 0
                · simp only [if_pos hz] at hr
                  cases hr
                · simp only [if_neg hz]
                  exact ⟨fun hf => (by cases hf), fun _ _ => Or.inl (after_terminator_lt hnone)⟩

/-! ## Runs -/

/-- A further call runs on the client the others left. -/
theorem read_all_concat {rds : List ReadResult} (rd : ReadResult) :
    ∀ {client : Client}, (∀ r ∈ (read_all client rds).2, r = .ok .READ_MORE) →
      read_all client (rds ++ [rd]) = ((read_request (read_all client rds).1 rd).1,
        (read_all client rds).2 ++ [(read_request (read_all client rds).1 rd).2]) := by
  induction rds with
  | nil =>
      intro client _
      rw [List.nil_append, read_all]
      cases hr : read_request client rd with
      | mk client' r => cases r <;> simp [read_all, hr]
  | cons rd' rds ih =>
      intro client hrun
      rw [List.cons_append, read_all, read_all]
      rw [read_all] at hrun
      cases hr : read_request client rd' with
      | mk client' r =>
          rw [hr] at hrun
          cases r with
          | error f => cases hrun _ List.mem_cons_self
          | ok st =>
              have hrest := ih fun r hr => hrun r (List.mem_cons_of_mem _ hr)
              simp only [hrest, List.cons_append]

/-- What a client waits for over any calls that asked for more. -/
theorem read_all_waiting {rds : List ReadResult} :
    ∀ {client : Client}, Informed client → Waiting client →
      (∀ r ∈ (read_all client rds).2, r = .ok .READ_MORE) →
      Informed (read_all client rds).1 ∧ Waiting (read_all client rds).1 := by
  induction rds with
  | nil => exact fun hc hw _ => ⟨hc, hw⟩
  | cons rd rds ih =>
      intro client hc hw hrun
      rw [read_all] at hrun ⊢
      cases hr : read_request client rd with
      | mk client' r =>
          rw [hr] at hrun
          cases r with
          | error f => cases hrun _ List.mem_cons_self
          | ok st =>
              have hmore : (read_request client rd).2 = .ok .READ_MORE := by
                rw [hr]
                exact hrun _ List.mem_cons_self
              have hc' := (read_request_informed hc hmore).1
              have hw' := hw.step hc hmore
              rw [hr] at hc' hw'
              exact ih hc' hw' fun r hr => hrun r (List.mem_cons_of_mem _ hr)

theorem Running.waiting {fd : Nat} {rds : List ReadResult} (h : Running fd rds) :
    Informed (read_all (Client.accepted fd) rds).1
      ∧ Waiting (read_all (Client.accepted fd) rds).1 :=
  read_all_waiting (fun hb => (by cases hb)) ⟨fun _ => rfl, fun hb => (by cases hb)⟩ h

/-! ## A request byte by byte -/

/-- One byte. -/
def byte_chunk (b : Byte) : Chunk := ⟨[b], List.cons_ne_nil _ _, Nat.succ_pos 4095⟩

def byte_read (b : Byte) : ReadResult := .data (byte_chunk b)

/-- Where a client is that has read `p` of a request. -/
def Phase (R : Request) (client : Client) (p : Str) : Prop :=
  (p.length < Request.head_length R ∧ InHead client p)
    ∨ ∃ t, p = R.head ++ (CRNLCRNL ++ t) ∧ InBody R client t

/-- While bytes are missing each read asks for more. -/
theorem Phase.read {R : Request} {client : Client} {p q : Str} {c : Chunk} (h : Phase R client p)
    (hsplit : (p ++ c.bytes) ++ q = R.bytes) (hq : q ≠ [])
    (hfit : (R.body.length : Int) ≤ INT_MAX) :
    (read_request client (.data c)).2 = .ok .READ_MORE
      ∧ Phase R (read_request client (.data c)).1 (p ++ c.bytes) := by
  rcases h with ⟨-, hc⟩ | ⟨t, rfl, hc⟩
  · by_cases hlt : (p ++ c.bytes).length < Request.head_length R
    · obtain ⟨hr, hc'⟩ := read_in_head hc hsplit hlt
      exact ⟨hr, Or.inl ⟨hlt, hc'⟩⟩
    · obtain ⟨t, htq, ⟨hb, -⟩ | ⟨-, -, hr, hbody⟩ | ⟨hbig, -⟩⟩ :=
        read_ends_head hc hsplit (Nat.not_lt.mp hlt)
      · rw [hb] at htq
        exact absurd (List.append_eq_nil_iff.mp htq).2 hq
      · refine ⟨hr, Or.inr ⟨t, ?_, hbody⟩⟩
        rw [← hbody.raw, read_request_raw, hc.raw]
        rfl
      · omega
  · have hbody : (t ++ c.bytes) ++ q = R.body := by
      simp only [Request.bytes, List.append_assoc] at hsplit
      simpa using hsplit
    obtain ⟨hr, hc'⟩ := read_in_body hc hbody hfit
    rw [if_neg hq] at hr
    exact ⟨hr, Or.inr ⟨_, by simp, hc'⟩⟩

theorem Phase.read_bytes {R : Request} (fd : Nat) {p : Str} :
    ∀ {q : Str}, p ++ q = R.bytes → q ≠ [] → (R.body.length : Int) ≤ INT_MAX →
      Running fd (p.map byte_read)
        ∧ Phase R (read_all (Client.accepted fd) (p.map byte_read)).1 p := by
  induction p using List.reverseRecOn with
  | nil =>
      intro q _ _ _
      refine ⟨List.forall_mem_nil _, Or.inl ⟨?_, rfl, rfl⟩⟩
      rw [Request.head_length]
      simp
  | append_singleton p b ih =>
      intro q hsplit hq hfit
      have hsplit' : p ++ (b :: q) = R.bytes := by simpa using hsplit
      obtain ⟨hrun, hphase⟩ := ih hsplit' (List.cons_ne_nil _ _) hfit
      obtain ⟨hmore, hnext⟩ := hphase.read (c := byte_chunk b) hsplit hq hfit
      rw [Running, List.map_append, List.map_singleton, read_all_concat _ hrun]
      exact ⟨List.forall_mem_append.mpr ⟨hrun, List.forall_mem_singleton.mpr hmore⟩, hnext⟩

/-- A `POST` that declares `n` bytes and has them. -/
def post (n : Nat) : Request where
  request_line := str "POST / HTTP/1.1"
  headers := [(str "Content-Length", str (toString n))]
  body := List.replicate n 97
  line_ok := ⟨by decide, by decide⟩
  headers_ne := List.cons_ne_nil _ _
  names_ok := by
    have hcolon : 58 ∉ str "Content-Length" := by decide
    refine List.forall_mem_singleton.mpr ⟨List.cons_ne_nil _ _, hcolon, ?_⟩
    exact visible_of_all (show ((str "Content-Length").all fun b => !isWs b) = true by decide)
  values_ok := by
    have hline := oneLine_of_int n
    obtain ⟨b, s, hs⟩ := List.exists_cons_of_ne_nil (str_nat_ne_nil n)
    have hb : b ∈ str (toString n) := by
      rw [hs]
      exact List.mem_cons_self
    exact List.forall_mem_singleton.mpr
      ⟨hline.1, hline.2, b, hb, (isdigit_visible (isdigit_of_nat n b hb)).1⟩
  length_ok := by
    have hvisible : ∀ b ∈ str (toString n), isWs b = false :=
      fun b hb => (isdigit_visible (isdigit_of_nat n b hb)).1
    have htrim : trim (str (toString n)) = str (toString n) :=
      (Decoding.Trimmed.of_visible (str_nat_ne_nil n) hvisible).trim_eq
    have hname : to_lowercase_str (str "Content-Length") = to_lowercase_str CONTENT_LENGTH := rfl
    have hdeclared : declared (to_lowercase_str CONTENT_LENGTH)
        [(str "Content-Length", str (toString n))] = some (str (toString n)) := by
      rw [declared, List.findSome?_cons, if_pos hname, htrim]
    rw [hdeclared]
    refine ⟨str_nat_ne_nil n, isdigit_of_nat n, ?_⟩
    rw [decimal_of_nat, List.length_replicate]

theorem after_terminator_head (R : Request) (t : Str) :
    after_terminator (R.head ++ (CRNLCRNL ++ t)) = t.length := by
  simp only [after_terminator, find_terminator, List.length_append]
  omega

/-- Its head and `k` bytes of its body, one at a time. -/
def post_reads (n k : Nat) : List ReadResult :=
  ((post n).head ++ (CRNLCRNL ++ List.replicate k 97)).map byte_read

theorem post_reads_running (fd : Nat) {n k : Nat} (hk : k < n) (hn : (n : Int) ≤ INT_MAX) :
    Running fd (post_reads n k)
      ∧ InBody (post n) (read_all (Client.accepted fd) (post_reads n k)).1
        (List.replicate k 97) := by
  have hbody : (post n).body = List.replicate k 97 ++ List.replicate (n - k) 97 := by
    rw [List.replicate_append_replicate]
    show List.replicate n 97 = _
    congr 1
    omega
  have hlength : ((post n).body.length : Int) ≤ INT_MAX := by
    rwa [show (post n).body = List.replicate n 97 from rfl, List.length_replicate]
  have hsplit : ((post n).head ++ (CRNLCRNL ++ List.replicate k 97)) ++ List.replicate (n - k) 97
      = (post n).bytes := by
    rw [Request.bytes, hbody]
    simp only [List.append_assoc]
  have hrest : List.replicate (n - k) (97 : Byte) ≠ [] := by
    rw [Ne, List.replicate_eq_nil_iff]
    omega
  obtain ⟨hrun, ⟨hlt, -⟩ | ⟨t, ht, hin⟩⟩ := Phase.read_bytes fd hsplit hrest hlength
  · rw [Request.head_length] at hlt
    have hcrnl : CRNLCRNL.length = 4 := rfl
    simp only [List.length_append] at hlt
    omega
  · have heq := List.append_cancel_left (List.append_cancel_left ht)
    exact ⟨hrun, heq ▸ hin⟩

/-- What the next call counts. -/
theorem post_reads_count (fd : Nat) {n k : Nat} (hk : k < n) (hn : (n : Int) ≤ INT_MAX)
    (c : Chunk) :
    after_terminator ((read_all (Client.accepted fd) (post_reads n k)).1.raw_http ++ c.bytes)
      = k + c.bytes.length := by
  obtain ⟨-, hin⟩ := post_reads_running fd hk hn
  rw [hin.raw, List.append_assoc, List.append_assoc, after_terminator_head, List.length_append,
    List.length_replicate]

/-! ## The exact condition -/

/-- Every call on a client that declared `n` bytes counts, up to the one that ends
    it. -/
def CountsAll (n : Int) : Prop :=
  ∀ fd rds c, Running fd rds →
    (read_all (Client.accepted fd) rds).1.is_in_body = true →
    (read_all (Client.accepted fd) rds).1.content_length = n →
    Counts (read_all (Client.accepted fd) rds).1 c

/-- A full buffer. -/
def full_chunk : Chunk :=
  ⟨List.replicate 4096 97, by rw [Ne, List.replicate_eq_nil_iff]; exact Nat.succ_ne_zero 4095,
    by rw [List.length_replicate]⟩

/-- **THE COUNTER DOES NOT WRAP** exactly when the declared length is at least one
    read below the largest `int`. -/
theorem counts_all_iff {n : Int} (hn : n ≤ INT_MAX) : CountsAll n ↔ n ≤ INT_MAX - overshoot := by
  constructor
  · intro hall
    by_contra hlarge
    have hpos : 0 < n := by
      rw [INT_MAX, overshoot] at hlarge
      omega
    obtain ⟨m, rfl⟩ : ∃ m : Nat, n = m := ⟨n.toNat, by omega⟩
    have hk : m - 1 < m := by omega
    obtain ⟨hrun, hin⟩ := post_reads_running 5 hk hn
    have hlength : (read_all (Client.accepted 5) (post_reads m (m - 1))).1.content_length = m := by
      rw [hin.length, show (post m).body = List.replicate m 97 from rfl, List.length_replicate]
    have hcounts := hall 5 _ full_chunk hrun hin.flag hlength
    rw [counts_iff_fits hrun.waiting.1 hin.flag, post_reads_count 5 hk hn,
      show full_chunk.bytes = List.replicate 4096 97 from rfl, List.length_replicate] at hcounts
    rw [INT_MAX, overshoot] at *
    omega
  · rintro hsmall fd rds c hrun hb rfl
    obtain ⟨hc, hw⟩ := hrun.waiting
    exact (counts_iff_fits hc hb c).mpr (hw.fits hc hb hsmall c)

theorem counts_all_five : (5 : Int) ≤ INT_MAX ∧ (CountsAll 5 ↔ 5 ≤ INT_MAX - overshoot) :=
  ⟨by decide, counts_all_iff (by decide)⟩

/-- Two bytes. -/
def two_chunk : Chunk := ⟨[97, 98], List.cons_ne_nil _ _, by decide⟩

/-- The longest body, and one byte more: the whole body has arrived, the counter is
    negative, and the call waits for more. -/
theorem full_body_not_recognised :
    Running 5 (post_reads 2147483647 2147483646)
      ∧ ∃ client, client = (read_all (Client.accepted 5) (post_reads 2147483647 2147483646)).1
        ∧ client.is_in_body = true ∧ client.content_length = 2147483647
        ∧ after_terminator (client.raw_http ++ two_chunk.bytes) = 2147483648
        ∧ (read_request client (.data two_chunk)).1.body_bytes_rd = -2147483648
        ∧ (read_request client (.data two_chunk)).2 = .ok .READ_MORE
        ∧ ¬ Counts client two_chunk := by
  have hk : 2147483646 < 2147483647 := by omega
  have hn : ((2147483647 : Nat) : Int) ≤ INT_MAX := by decide
  obtain ⟨hrun, hin⟩ := post_reads_running 5 hk hn
  have hcount := post_reads_count 5 hk hn two_chunk
  have hlength : (read_all (Client.accepted 5)
      (post_reads 2147483647 2147483646)).1.content_length = 2147483647 := by
    rw [hin.length, show (post 2147483647).body = List.replicate 2147483647 97 from rfl,
      List.length_replicate]
    rfl
  have hwrap : to_int ((2147483646 + two_chunk.bytes.length : Nat) : Int) = -2147483648 := by decide
  have hcall := read_request_in_body hrun.waiting.1 hin.flag two_chunk
  rw [hcount, hwrap, hlength] at hcall
  have hstored := congrArg (fun result => result.1.body_bytes_rd) hcall
  refine ⟨hrun, _, rfl, hin.flag, hlength, hcount, hstored, congrArg Prod.snd hcall, fun h => ?_⟩
  have hexact := hstored.symm.trans h.stored
  rw [hcount] at hexact
  exact absurd hexact (by decide)

end WebLib.ReadRequest
