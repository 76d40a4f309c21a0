import WebLib.Completion
import WebLib.Decoding

/-! # The body a handler is given

    `read_request` takes the declared length as a lower bound; the constructor
    of `HttpRequest` takes everything behind the blank line.  The two agree on
    a stream exactly when the read that completes the request brings nothing
    that comes after it. -/

namespace WebLib.BodyCut

open WebLib ByteString Utils HttpHeaders ReadRequest RequestText HttpRequest

/-- The block of a well-formed request declares the length of its body. -/
theorem declared_length_headers (R : Request) :
    declared_length (header_text R.headers) = R.body.length := by
  have hok : ∀ h ∈ R.headers, HeaderOk h := fun _ hh => R.header_ok hh
  rw [declared_length, first_value_header_text R.headers_ne hok]
  have hlength := R.length_ok
  cases hd : declared (to_lowercase_str CONTENT_LENGTH) R.headers with
  | none =>
      rw [hd] at hlength
      have hbody : R.body = [] := hlength
      rw [hbody]
      rfl
  | some v =>
      rw [hd] at hlength
      obtain ⟨hne, hvalue⟩ := strtol_of_writes hlength
      simp only [if_neg hne, hvalue]

/-- Any buffer that begins with the head and its blank line declares it. -/
theorem declares_head (R : Request) (tail : Str) :
    Declares (R.head ++ (CRNLCRNL ++ tail)) R.head.length R.body.length := by
  have hlen : R.request_line.length + CRNL.length ≤ R.head.length := by
    rw [Request.head, List.length_append, List.length_append]
    omega
  refine ⟨find_terminator R tail, R.request_line.length, find_line_end R _, hlen, ?_⟩
  have hcount : R.head.length - (R.request_line.length + CRNL.length)
      = (header_text R.headers).length := by
    rw [Request.head, List.length_append, List.length_append]
    omega
  have hblock : header_block (R.head ++ (CRNLCRNL ++ tail)) R.request_line.length R.head.length
      = header_text R.headers := by
    rw [header_block, hcount, Request.head, ← List.drop_drop, List.append_assoc, List.drop_left,
      List.append_assoc, List.drop_left, List.take_left]
  rw [hblock, declared_length_headers]

/-- The calls ask for more up to the last, which reports the end. -/
structure Ends (fd : Nat) (rds : List ReadResult) (last : Chunk) : Prop where
  more : ∀ r ∈ (read_all (Client.accepted fd) rds).2, r = .ok .READ_MORE
  done : (read_request (read_all (Client.accepted fd) rds).1 (.data last)).2
    = .ok .END_OF_CONNECTION

/-- The buffer the request is built from. -/
def buffered (fd : Nat) (rds : List ReadResult) (last : Chunk) : Str :=
  (read_request (read_all (Client.accepted fd) rds).1 (.data last)).1.raw_http

theorem Ends.returned {fd : Nat} {rds : List ReadResult} {last : Chunk} (h : Ends fd rds last) :
    Returned (read_all (Client.accepted fd) rds).2 :=
  fun r hr => ⟨_, h.more r hr⟩

theorem Ends.buffered_eq {fd : Nat} {rds : List ReadResult} {last : Chunk}
    (h : Ends fd rds last) : buffered fd rds last = delivered rds ++ last.bytes := by
  rw [buffered, read_request_raw, read_all_raw h.returned]
  rfl

/-- When the end is reported, the buffer is the head, its blank line and at
    least the body's length of what the stream has next. -/
theorem Ends.split {R : Request} {extra : Str} {fd : Nat} {rds : List ReadResult} {last : Chunk}
    (h : Ends fd rds last) (hpre : delivered rds ++ last.bytes <+: R.bytes ++ extra) :
    ∃ t, buffered fd rds last = R.head ++ (CRNLCRNL ++ t) ∧ t <+: R.body ++ extra
      ∧ R.body.length ≤ t.length := by
  have hinformed : Informed (read_all (Client.accepted fd) rds).1 :=
    read_all_informed (fun hb => Bool.noConfusion hb) h.returned
  have hc := (read_request_informed hinformed h.done).2 rfl
  have hd := hc.declares
  have henough := hc.enough
  rw [← h.buffered_eq] at hpre
  rw [show (read_request (read_all (Client.accepted fd) rds).1 (.data last)).1.raw_http
    = buffered fd rds last from rfl] at hd henough
  obtain ⟨rest, hrest⟩ := hpre
  have hstream : R.bytes ++ extra = R.head ++ (CRNLCRNL ++ (R.body ++ extra)) := by
    simp [Request.bytes]
  -- the buffer's terminator is the stream's, which is the one behind the head
  have hwhole := hd.append rest
  rw [hrest, hstream] at hwhole
  obtain ⟨hpos, hlen⟩ := (declares_head R (R.body ++ extra)).unique hwhole
  rw [hpos] at hd henough
  rw [hlen] at henough
  have hfit := Search.find_le_length hd.terminator
  have hhead : R.head ++ CRNLCRNL <+: R.bytes ++ extra :=
    ⟨R.body ++ extra, by rw [hstream, List.append_assoc]⟩
  obtain ⟨t, ht⟩ : R.head ++ CRNLCRNL <+: buffered fd rds last :=
    List.prefix_of_prefix_length_le hhead ⟨rest, hrest⟩ (by rw [List.length_append]; exact hfit)
  rw [List.append_assoc] at ht
  refine ⟨t, ht.symm, ⟨rest, ?_⟩, ?_⟩
  · rw [← ht, hstream, List.append_assoc, List.append_assoc] at hrest
    exact List.append_cancel_left (List.append_cancel_left hrest)
  · rw [← ht, ← List.drop_drop, List.drop_left, List.drop_left] at henough
    exact_mod_cast henough

/-- Every request built from the buffer has the declared body. -/
def BodyExact (R : Request) (raw_http : Str) : Prop :=
  ∀ path pnames req, construct raw_http path pnames = .ok req → req.body_as_str = R.body

/-- A request built from a buffer with the head has what is behind it, and one
    without parameters can always be built. -/
theorem construct_head (R : Request) (t : Str) :
    (∀ path pnames req, construct (R.head ++ (CRNLCRNL ++ t)) path pnames = .ok req →
        req.body_as_str = t)
      ∧ ∃ req, construct (R.head ++ (CRNLCRNL ++ t)) [] [] = .ok req := by
  have hbody : body_of (R.head ++ (CRNLCRNL ++ t)) = .ok t := by
    rw [body_of_find (find_terminator R t), ← List.drop_drop, List.drop_left, List.drop_left]
  constructor
  · intro path pnames req hreq
    obtain ⟨-, -, hb, -⟩ := construct_eq_ok_iff.mp hreq
    exact Except.ok.inj (hb.symm.trans hbody)
  · obtain ⟨m, hm, -⟩ := extract_headers_header_text R.headers_ne fun _ hh => R.header_ok hh
    have hs : extract_headers (R.head ++ (CRNLCRNL ++ t)) = .ok m :=
      (Decoding.extract_headers_lines R.line_ok.1 R.headers_ne (fun _ hh => R.header_ok hh) t).trans
        hm
    exact ⟨⟨m, ∅, _, t, _⟩, construct_eq_ok_iff.mpr
      ⟨hs, extract_queries_nil _ _, hbody, rfl, rfl⟩⟩

/-- **THE BODY IS CUT** where the request ends exactly when no byte behind it
    was read up to the call that reports the end. -/
theorem body_exact_iff (R : Request) (extra : Str) (fd : Nat) (rds : List ReadResult)
    (last : Chunk) (hpre : delivered rds ++ last.bytes <+: R.bytes ++ extra)
    (hend : Ends fd rds last) :
    BodyExact R (buffered fd rds last)
      ↔ (delivered rds ++ last.bytes).length ≤ R.bytes.length := by
  obtain ⟨t, ht, htpre, hlen⟩ := hend.split hpre
  obtain ⟨hbody, req, hreq⟩ := construct_head R t
  have hcount : (delivered rds ++ last.bytes).length ≤ R.bytes.length
      ↔ t.length ≤ R.body.length := by
    rw [← hend.buffered_eq, ht, Request.bytes]
    simp only [List.length_append]
    omega
  rw [hcount, ht]
  constructor
  · intro h
    rw [← h [] [] req hreq, hbody [] [] req hreq]
  · intro hle path pnames req' hreq'
    have hprefix : R.body <+: t :=
      List.prefix_of_prefix_length_le (List.prefix_append _ _) htpre hlen
    rw [hbody path pnames req' hreq', hprefix.eq_of_length (by omega)]

/-- The body of a `POST` in one read, and the beginning of the next request. -/
def body_and_more : Chunk := ⟨str "hiGET / HTTP/1.1", by decide, by decide⟩

theorem body_exact_sample :
    BodyExact Framing.sample_post
      (buffered 5 [.data Framing.sample_head, .would_block] Framing.sample_body) := by
  have hmore : (read_all (Client.accepted 5) [.data Framing.sample_head, .would_block]).2
      = [.ok .READ_MORE, .ok .READ_MORE] := by decide
  refine (body_exact_iff Framing.sample_post (str "GET / HTTP/1.1") 5
    [.data Framing.sample_head, .would_block] Framing.sample_body (by decide)
    ⟨?_, by decide⟩).mpr (by decide)
  intro r hr
  rw [hmore] at hr
  rcases List.mem_pair.mp hr with rfl | rfl <;> rfl

/-- A handler is given the two bytes of its request and the next request. -/
theorem body_and_more_not_exact :
    delivered [.data Framing.sample_head] ++ body_and_more.bytes
        <+: Framing.sample_post.bytes ++ str "GET / HTTP/1.1"
      ∧ Ends 5 [.data Framing.sample_head] body_and_more
      ∧ ¬ BodyExact Framing.sample_post
          (buffered 5 [.data Framing.sample_head] body_and_more) := by
  have hmore : (read_all (Client.accepted 5) [.data Framing.sample_head]).2
      = [.ok .READ_MORE] := by decide
  have hend : Ends 5 [.data Framing.sample_head] body_and_more := by
    refine ⟨fun r hr => ?_, by decide⟩
    rw [hmore] at hr
    exact List.mem_singleton.mp hr
  have hbuf : buffered 5 [.data Framing.sample_head] body_and_more
      = Framing.sample_post.head ++ (CRNLCRNL ++ body_and_more.bytes) := by decide
  refine ⟨by decide, hend, fun h => ?_⟩
  obtain ⟨hbody, req, hreq⟩ := construct_head Framing.sample_post body_and_more.bytes
  rw [hbuf] at h
  exact absurd ((hbody [] [] req hreq).symm.trans (h [] [] req hreq)) (by decide)

end WebLib.BodyCut
