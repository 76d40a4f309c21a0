import WebLib.RequestText

/-! # When a request is recognised as complete

    A request arrives in pieces.  `read_request` handles the end of the head
    and the body in two EXCLUSIVE branches of one call, so a read that carries
    the end of the head is never looked at for body bytes.  `framing_iff` says
    exactly which segmentations are framed as they should be: those whose last
    read lies inside the body (and whose length fits an `int`). -/

namespace WebLib.Framing

open WebLib ByteString ReadRequest RequestText

/-- The reads of a segmentation: pieces, and `EAGAIN` between them. -/
def reads (cuts : List (Option Chunk)) : List ReadResult :=
  cuts.map fun | some c => .data c | none => .would_block

/-- Every call before the last piece asks for more, and the call that reads the
    last piece reports the end. -/
def Framed (fd : Nat) (cuts : List (Option Chunk)) (last : Chunk) : Prop :=
  (read_all (Client.accepted fd) (reads cuts ++ [.data last])).2
    = List.replicate cuts.length (.ok .READ_MORE) ++ [.ok .END_OF_CONNECTION]

/-! ## The two phases of a client -/

/-- Before the end of the head. -/
structure InHead (client : Client) (p : Str) : Prop where
  raw : client.raw_http = p
  flag : client.is_in_body = false

/-- After it, with `t` of the body read. -/
structure InBody (R : Request) (client : Client) (t : Str) : Prop where
  raw : client.raw_http = R.head ++ (CRNLCRNL ++ t)
  flag : client.is_in_body = true
  length : client.content_length = R.body.length
  pos : client.header_end_pos = R.head.length

/-- The head with its terminator is a prefix of the request of this length. -/
def Request.head_length (R : Request) : Nat := R.head.length + 4

/-- A prefix of the request that ends before the terminator does has none. -/
theorem find_in_head {R : Request} {p q : Str} (h : p ++ q = R.bytes)
    (hp : p.length < Request.head_length R) : Search.find CRNLCRNL p = none := by
  cases hf : Search.find CRNLCRNL p with
  | none => rfl
  | some i =>
      have hall : Search.find CRNLCRNL (p ++ q) = some i := Search.find_append_of_some q hf
      rw [h, Request.bytes, find_terminator] at hall
      have hi := Search.find_le_length hf
      rw [← Option.some.inj hall] at hi
      rw [Request.head_length] at hp
      simp [CRNLCRNL] at hi
      omega

/-- A prefix of the request that contains the head is the head and a part of
    the body. -/
theorem split_at_head {R : Request} {p q : Str} (h : p ++ q = R.bytes)
    (hp : Request.head_length R ≤ p.length) :
    ∃ t, p = R.head ++ (CRNLCRNL ++ t) ∧ t ++ q = R.body := by
  rw [Request.bytes, ← List.append_assoc] at h
  rcases List.append_eq_append_iff.mp h with ⟨a, ha, hb⟩ | ⟨c, hc, hd⟩
  · have hlen := congrArg List.length ha
    rw [Request.head_length] at hp
    simp only [List.length_append, CRNLCRNL, List.length_cons, List.length_nil] at hlen
    -- `p` ends where the terminator does
    have ha0 : a = [] := List.length_eq_zero_iff.mp (by omega)
    subst ha0
    refine ⟨[], ?_, by simpa using hb⟩
    rw [List.append_nil] at ha
    simp [ha]
  · exact ⟨c, by rw [hc, List.append_assoc], hd.symm⟩

/-! ## One call in each phase -/

/-- **HEAD, MORE TO COME**: the terminator is not complete yet. -/
theorem read_in_head {R : Request} {client : Client} {p q : Str} {c : Chunk}
    (hc : InHead client p) (h : (p ++ c.bytes) ++ q = R.bytes)
    (hlt : (p ++ c.bytes).length < Request.head_length R) :
    (read_request client (.data c)).2 = .ok .READ_MORE
      ∧ InHead (read_request client (.data c)).1 (p ++ c.bytes) := by
  have hstep : read_request client (.data c)
      = ({ client with raw_http := p ++ c.bytes, header_end_pos := npos },
          .ok .READ_MORE) := by
    simp only [read_request, after_append, hc.raw, hc.flag, find_in_head h hlt,
      Bool.false_eq_true, if_false]
  rw [hstep]
  exact ⟨rfl, ⟨rfl, hc.flag⟩⟩

/-- **HEAD COMPLETE**: the answer depends on the declared length alone, not on
    how much of the body the same read carried. -/
theorem read_ends_head {R : Request} {client : Client} {p q : Str} {c : Chunk}
    (hc : InHead client p) (h : (p ++ c.bytes) ++ q = R.bytes)
    (hge : Request.head_length R ≤ (p ++ c.bytes).length) :
    ∃ t, t ++ q = R.body ∧
      ((R.body = [] ∧ (read_request client (.data c)).2 = .ok .END_OF_CONNECTION)
        ∨ (R.body ≠ [] ∧ (R.body.length : Int) ≤ INT_MAX
            ∧ (read_request client (.data c)).2 = .ok .READ_MORE
            ∧ InBody R (read_request client (.data c)).1 t)
        ∨ (INT_MAX < (R.body.length : Int)
            ∧ (read_request client (.data c)).2 = .error (.throws .out_of_range))) := by
  obtain ⟨t, hp, htq⟩ := split_at_head h hge
  refine ⟨t, htq, ?_⟩
  have hstep : read_request client (.data c)
      = header_branch { client with
          raw_http := R.head ++ (CRNLCRNL ++ t), header_end_pos := R.head.length }
          R.head.length := by
    simp only [read_request, after_append, hc.raw, hc.flag, hp, find_terminator,
      Bool.false_eq_true, if_false]
  rw [hstep]
  rw [header_branch]
  simp only [parse_content_length_head]
  by_cases hfit : (R.body.length : Int) ≤ INT_MAX
  · rw [if_pos hfit]
    by_cases hb : R.body = []
    · refine Or.inl ⟨hb, ?_⟩
      simp [hb]
    · refine Or.inr (Or.inl ⟨hb, hfit, ?_⟩)
      have hne : (R.body.length : Int) ≠ 0 := by simpa using hb
      simp only [if_neg hne]
      exact ⟨trivial, ⟨rfl, rfl, rfl, rfl⟩⟩
  · rw [if_neg hfit]
    exact Or.inr (Or.inr ⟨by omega, rfl⟩)

/-- **BODY**: the bytes after the terminator are counted exactly. -/
theorem read_in_body {R : Request} {client : Client} {t q : Str} {c : Chunk}
    (hc : InBody R client t) (h : (t ++ c.bytes) ++ q = R.body)
    (hfit : (R.body.length : Int) ≤ INT_MAX) :
    (read_request client (.data c)).2
        = .ok (if q = [] then .END_OF_CONNECTION else .READ_MORE)
      ∧ InBody R (read_request client (.data c)).1 (t ++ c.bytes) := by
  have hlen := congrArg List.length h
  rw [List.length_append] at hlen
  have hcount : to_int (((client.raw_http ++ c.bytes).length : Int)
        - (client.header_end_pos + CRNLCRNL.length))
      = ((t ++ c.bytes).length : Int) := by
    have hd : (((client.raw_http ++ c.bytes).length : Int)
        - (client.header_end_pos + CRNLCRNL.length)) = ((t ++ c.bytes).length : Int) := by
      rw [hc.raw, hc.pos]
      simp only [List.length_append, Int.natCast_add]
      omega
    rw [hd]
    -- the count stays below the length, which fits an `int`
    refine to_int_of_mem ?_ ?_
    · rw [INT_MIN]
      omega
    · omega
  simp only [read_request, after_append, hc.flag, if_true, body_branch, hcount, hc.length]
  by_cases hq : q = []
  · subst hq
    rw [if_pos rfl, if_pos (by simp at hlen; simp; omega)]
    exact ⟨rfl, ⟨by simp [hc.raw], rfl, rfl, hc.pos⟩⟩
  · have hpos : 0 < q.length := List.length_pos_iff.mpr hq
    rw [if_neg hq, if_neg (by omega)]
    exact ⟨rfl, ⟨by simp [hc.raw], rfl, rfl, hc.pos⟩⟩

/-! ## Whole segmentations -/

private theorem read_all_more {client : Client} {rd : ReadResult} (rds : List ReadResult)
    (h : (read_request client rd).2 = .ok .READ_MORE) :
    (read_all client (rd :: rds)).2
      = .ok .READ_MORE :: (read_all (read_request client rd).1 rds).2 := by
  rw [read_all]
  cases hr : read_request client rd with
  | mk client' r =>
      rw [hr] at h
      obtain rfl : r = .ok .READ_MORE := h
      rfl

private theorem read_all_last {client : Client} {rd : ReadResult} :
    (read_all client [rd]).2 = [(read_request client rd).2] := by
  rw [read_all]
  cases hr : read_request client rd with
  | mk client' r => cases r <;> rfl

private theorem read_all_error {client : Client} {rd : ReadResult} {f : Fault}
    (rds : List ReadResult) (h : (read_request client rd).2 = .error f) :
    (read_all client (rd :: rds)).2 = [.error f] := by
  rw [read_all]
  cases hr : read_request client rd with
  | mk client' r =>
      rw [hr] at h
      obtain rfl : r = .error f := h
      rfl

/-- The answers of a segmentation that is framed as it should be. -/
def answers (n : Nat) : List (Except Fault State) :=
  List.replicate n (.ok .READ_MORE) ++ [.ok .END_OF_CONNECTION]

/-- From inside the body on, every segmentation is framed as it should be. -/
theorem framed_from_body {R : Request} (hfit : (R.body.length : Int) ≤ INT_MAX)
    (last : Chunk) :
    ∀ (cuts : List (Option Chunk)) (client : Client) (t : Str), InBody R client t →
      t ++ (delivered (reads cuts) ++ last.bytes) = R.body →
      (read_all client (reads cuts ++ [.data last])).2 = answers cuts.length := by
  intro cuts
  induction cuts with
  | nil =>
      intro client t hc h
      have h' : (t ++ last.bytes) ++ [] = R.body := by simpa [reads] using h
      obtain ⟨hr, -⟩ := read_in_body hc h' hfit
      rw [if_pos rfl] at hr
      show (read_all client [.data last]).2 = _
      rw [read_all_last, hr]
      rfl
  | cons cut cuts ih =>
      intro client t hc h
      cases cut with
      | none =>
          have hih := ih client t hc (by simpa [reads, ReadResult.bytes] using h)
          show (read_all client (.would_block :: (reads cuts ++ [.data last]))).2 = _
          rw [read_all_more _ rfl]
          exact congrArg (List.cons _) hih
      | some c =>
          have h' : (t ++ c.bytes) ++ (delivered (reads cuts) ++ last.bytes) = R.body := by
            simpa [reads, ReadResult.bytes] using h
          obtain ⟨hr, hc'⟩ := read_in_body hc h' hfit
          rw [if_neg (by simp [last.nonempty])] at hr
          show (read_all client (.data c :: (reads cuts ++ [.data last]))).2 = _
          rw [read_all_more _ hr]
          exact congrArg (List.cons _) (ih _ _ hc' h')

/-- The segmentations on which framing works: no body, or a body of a length
    that fits an `int` and a last read that carries nothing but body. -/
def CutsBody (R : Request) (last : Chunk) : Prop :=
  R.body = [] ∨ ((R.body.length : Int) ≤ INT_MAX ∧ last.bytes.length ≤ R.body.length)

theorem length_bytes (R : Request) :
    R.bytes.length = Request.head_length R + R.body.length := by
  simp only [Request.bytes, Request.head_length, CRNLCRNL, List.length_append,
    List.length_cons, List.length_nil]
  omega

/-- One read carries the rest of the head and all of the body. -/
theorem framed_last {R : Request} (last : Chunk) {client : Client} {p : Str}
    (hc : InHead client p) (hp : p.length < Request.head_length R)
    (h : p ++ last.bytes = R.bytes) :
    (read_all client [.data last]).2 = [.ok .END_OF_CONNECTION] ↔ CutsBody R last := by
  have hbytes := length_bytes R
  have h' : (p ++ last.bytes) ++ [] = R.bytes := by rw [List.append_nil, h]
  have hlen := congrArg List.length h'
  simp only [List.append_nil, List.length_append] at hlen
  obtain ⟨t, -, hcase⟩ := read_ends_head hc h' (by rw [List.length_append]; omega)
  rw [read_all_last, List.cons.injEq, eq_self, and_true]
  rcases hcase with ⟨hb, hr⟩ | ⟨hb, -, hr, -⟩ | ⟨hbig, hr⟩
  · rw [hr]
    exact ⟨fun _ => Or.inl hb, fun _ => rfl⟩
  · rw [hr]
    refine ⟨fun hc => (by simp at hc), ?_⟩
    rintro (hb' | ⟨-, hlast⟩)
    · exact absurd hb' hb
    · omega
  · rw [hr]
    refine ⟨fun hc => (by simp at hc), ?_⟩
    rintro (hb' | ⟨hfit, -⟩)
    · rw [hb'] at hbig
      exact absurd hbig (by decide)
    · omega

/-- The head ends in a read, and the last read is still to come. -/
theorem framed_head_end {R : Request} (last : Chunk) (cuts : List (Option Chunk)) {c : Chunk}
    {client : Client} {p : Str} (hc : InHead client p)
    (h : (p ++ c.bytes) ++ (delivered (reads cuts) ++ last.bytes) = R.bytes)
    (hend : Request.head_length R ≤ (p ++ c.bytes).length) :
    (read_all client (.data c :: (reads cuts ++ [.data last]))).2
        = .ok .READ_MORE :: answers cuts.length
      ↔ CutsBody R last := by
  have hbytes := length_bytes R
  obtain ⟨t, htq, hcase⟩ := read_ends_head hc h hend
  have hlast : last.bytes.length ≤ R.body.length := by
    rw [← htq]
    simp only [List.length_append]
    omega
  have hbne : R.body ≠ [] := by
    intro hb
    rw [hb] at hlast
    exact last.nonempty (List.length_eq_zero_iff.mp (Nat.le_zero.mp hlast))
  rcases hcase with ⟨hb, -⟩ | ⟨-, hfit, hr, hbody⟩ | ⟨hbig, hr⟩
  · exact absurd hb hbne
  · rw [read_all_more _ hr, List.cons.injEq, eq_self, true_and,
      framed_from_body hfit last cuts _ t hbody htq]
    exact ⟨fun _ => Or.inr ⟨hfit, hlast⟩, fun _ => rfl⟩
  · rw [read_all_error _ hr]
    refine ⟨fun hc => (by simp at hc), ?_⟩
    rintro (hb | ⟨hfit, -⟩)
    · exact absurd hb hbne
    · omega

theorem framed_from_head {R : Request} (last : Chunk) :
    ∀ (cuts : List (Option Chunk)) (client : Client) (p : Str), InHead client p →
      p.length < Request.head_length R →
      p ++ (delivered (reads cuts) ++ last.bytes) = R.bytes →
      ((read_all client (reads cuts ++ [.data last])).2 = answers cuts.length
        ↔ CutsBody R last) := by
  intro cuts
  induction cuts with
  | nil =>
      intro client p hc hp h
      exact framed_last last hc hp (by simpa [reads] using h)
  | cons cut cuts ih =>
      intro client p hc hp h
      cases cut with
      | none =>
          have hih := ih client p hc hp (by simpa [reads, ReadResult.bytes] using h)
          show (read_all client (.would_block :: (reads cuts ++ [.data last]))).2
            = .ok .READ_MORE :: answers cuts.length ↔ _
          rw [read_all_more _ rfl, List.cons.injEq, eq_self, true_and]
          exact hih
      | some c =>
          have h' : (p ++ c.bytes) ++ (delivered (reads cuts) ++ last.bytes) = R.bytes := by
            simpa [reads, ReadResult.bytes] using h
          show (read_all client (.data c :: (reads cuts ++ [.data last]))).2
            = .ok .READ_MORE :: answers cuts.length ↔ _
          by_cases hlt : (p ++ c.bytes).length < Request.head_length R
          · obtain ⟨hr, hc'⟩ := read_in_head hc h' hlt
            rw [read_all_more _ hr, List.cons.injEq, eq_self, true_and]
            exact ih _ _ hc' hlt h'
          · exact framed_head_end last cuts hc h' (Nat.not_lt.mp hlt)

/-- **FRAMING**: a segmentation of a well-formed request is framed as it should
    be exactly when its last read carries nothing but body. -/
theorem framing_iff (R : Request) (fd : Nat) (cuts : List (Option Chunk)) (last : Chunk)
    (h : delivered (reads cuts) ++ last.bytes = R.bytes) :
    Framed fd cuts last ↔ CutsBody R last := by
  refine framed_from_head last cuts (Client.accepted fd) [] ⟨rfl, rfl⟩ ?_ h
  rw [Request.head_length]
  simp

/-! ## A request in one read -/

/-- A `POST` with a two-byte body. -/
def sample_post : Request where
  request_line := str "POST /api HTTP/1.1"
  headers := [(str "Content-Length", str "2")]
  body := str "hi"
  line_ok := ⟨by decide, by decide⟩
  headers_ne := List.cons_ne_nil _ _
  names_ok := List.forall_mem_singleton.mpr
    ⟨List.cons_ne_nil _ _, by decide, visible_of_all (by decide)⟩
  values_ok := List.forall_mem_singleton.mpr ⟨by decide, by decide, 50, by decide, rfl⟩
  length_ok := show Writes (str "2") 2 from
    ⟨List.cons_ne_nil _ _, List.forall_mem_singleton.mpr rfl, rfl⟩

/-- The whole request in one read. -/
def sample_whole : Chunk := ⟨sample_post.bytes, by decide, by decide⟩

/-- Its head and its body in two reads. -/
def sample_head : Chunk := ⟨sample_post.head ++ CRNLCRNL, by decide, by decide⟩

def sample_body : Chunk := ⟨sample_post.body, by decide, by decide⟩

theorem framing_iff_sample :
    Framed 5 [some sample_head, none] sample_body ↔ CutsBody sample_post sample_body :=
  framing_iff sample_post 5 [some sample_head, none] sample_body (by decide)

/-- In one read the request is never recognised as complete. -/
theorem sample_whole_not_framed :
    delivered (reads []) ++ sample_whole.bytes = sample_post.bytes
      ∧ ¬ Framed 5 [] sample_whole := by
  constructor
  · decide
  · rw [Framed]
    decide

end WebLib.Framing
