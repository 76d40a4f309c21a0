import WebLib.HttpRequest
import WebLib.RequestText

/-! # Decoding undoes encoding

    A request as its parts, and its text: request line, header lines, blank
    line, body.  The constructor of `HttpRequest` looks for each part on its
    own, by the first line end, the first blank line, the first space and the
    last slash of the first line.  `decode_bytes` is the round trip: with the
    separators kept out of the parts before them, every search stops at the
    separator the text was joined with, whatever the body contains. -/

namespace WebLib.Decoding

open WebLib ByteString Utils UnorderedMap HttpHeaders ReadRequest RequestText HttpBinder
  HttpRequest

/-- A text with something in it and no white space around it. -/
structure Trimmed (s : Str) : Prop where
  ne : s ≠ []
  first : ∀ b ∈ s.head?, isWs b = false
  last : ∀ b ∈ s.getLast?, isWs b = false

theorem visible_of_option {o : Option Byte} (h : (o.all fun b => !isWs b) = true) :
    ∀ b ∈ o, isWs b = false := by
  intro b hb
  simpa [Option.mem_def.mp hb] using h

theorem option_of_visible {o : Option Byte} (h : ∀ b ∈ o, isWs b = false) :
    (o.all fun b => !isWs b) = true := by
  cases o with
  | none => rfl
  | some b => simpa using h b rfl

instance (s : Str) : Decidable (Trimmed s) :=
  decidable_of_iff (s ≠ [] ∧ (s.head?.all fun b => !isWs b) = true
      ∧ (s.getLast?.all fun b => !isWs b) = true)
    ⟨fun ⟨hne, hf, hl⟩ => ⟨hne, visible_of_option hf, visible_of_option hl⟩,
      fun h => ⟨h.ne, option_of_visible h.first, option_of_visible h.last⟩⟩

/-- A header pair that can be written on a line. -/
structure PairOk (h : Str × Str) : Prop where
  name : Trimmed h.1
  value : Trimmed h.2
  colon : (58 : Byte) ∉ h.1
  name_line : (13 : Byte) ∉ h.1 ∧ (10 : Byte) ∉ h.1
  value_line : (13 : Byte) ∉ h.2 ∧ (10 : Byte) ∉ h.2

/-- The parts of a request. -/
structure Parts where
  method : RequestType
  target : Str
  version : Str
  headers : List (Str × Str)
  body : Str
  target_ok : ∀ b ∈ target, isWs b = false
  version_ok : (47 : Byte) ∉ version ∧ ∀ b ∈ version, isWs b = false
  headers_ne : headers ≠ []
  headers_ok : ∀ h ∈ headers, PairOk h

/-- Method, target and `HTTP/` with the version. -/
def Parts.first_line (P : Parts) : Str :=
  req_type_to_str P.method ++ 32 :: (P.target ++ 32 :: (str "HTTP" ++ 47 :: P.version))

/-- The text of the request. -/
def Parts.bytes (P : Parts) : Str :=
  (P.first_line ++ (CRNL ++ header_text P.headers)) ++ (CRNLCRNL ++ P.body)

/-- The value of the first pair with a name that folds to `n`. -/
def first_pair (n : Str) (headers : List (Str × Str)) : Option Str :=
  (headers.find? fun h => to_lowercase_str h.1 = n).map Prod.snd

/-! ## The header pairs -/

theorem Trimmed.trim_eq {s : Str} (h : Trimmed s) : trim s = s := by
  have : trim ([] ++ (s ++ [])) = s :=
    trim_sandwich (by simp) (by simp) h.first h.last h.ne
  simpa using this

/-- A text without white space. -/
theorem Trimmed.of_visible {s : Str} (hne : s ≠ []) (h : ∀ b ∈ s, isWs b = false) : Trimmed s where
  ne := hne
  first := fun b hb => h b (List.mem_of_mem_head? hb)
  last := fun b hb => h b (List.mem_of_getLast? hb)

theorem PairOk.header_ok {h : Str × Str} (hp : PairOk h) : HeaderOk h := by
  obtain ⟨b, t, hb⟩ := List.exists_cons_of_ne_nil hp.value.ne
  refine ⟨hp.colon, hp.name.first, hp.name_line, hp.value_line, b, ?_, ?_⟩
  · rw [hb]
    exact List.mem_cons_self
  · exact hp.value.first b (by rw [hb]; rfl)

/-- What trimmed pairs declare is what they hold. -/
theorem declared_eq_first_pair {headers : List (Str × Str)} (h : ∀ p ∈ headers, PairOk p)
    (n : Str) : declared n headers = first_pair n headers := by
  rw [declared, Search.findSome?_ite (fun h : Str × Str => to_lowercase_str h.1 = n), first_pair]
  refine Option.map_congr fun p hp => ?_
  exact (h p (List.mem_of_find?_eq_some hp)).value.trim_eq

theorem first_pair_isSome {headers : List (Str × Str)} {n : Str} :
    (∃ v, first_pair n headers = some v) ↔ ∃ h ∈ headers, to_lowercase_str h.1 = n := by
  rw [← Option.isSome_iff_exists, first_pair, Option.isSome_map, List.find?_isSome]
  simp

/-! ## The searches -/

/-- The section handed to the header parser is the block of lines. -/
theorem extract_headers_section {line : Str} {lines : List Str} (hl : (13 : Byte) ∉ line)
    (hne : lines ≠ []) (hok : ∀ m ∈ lines, m ≠ [] ∧ (13 : Byte) ∉ m) (tail : Str) :
    extract_headers ((line ++ (CRNL ++ CRNL.intercalate lines)) ++ (CRNLCRNL ++ tail))
      = extract_headers_from_str ∅ (CRNL.intercalate lines) := by
  have hline := find_line_end_of hl (CRNL.intercalate lines ++ (CRNLCRNL ++ tail))
  have hblank := find_terminator_block hl hne hok tail
  have hassoc : (line ++ (CRNL ++ CRNL.intercalate lines)) ++ (CRNLCRNL ++ tail)
      = line ++ (CRNL ++ (CRNL.intercalate lines ++ (CRNLCRNL ++ tail))) := by simp
  rw [← hassoc] at hline
  have hstart : find_end CRNL ((line ++ (CRNL ++ CRNL.intercalate lines)) ++ (CRNLCRNL ++ tail))
      = line.length + CRNL.length := by
    rw [find_end, hline]
  have hend : find_pos CRNLCRNL ((line ++ (CRNL ++ CRNL.intercalate lines)) ++ (CRNLCRNL ++ tail))
      = line.length + CRNL.length + (CRNL.intercalate lines).length := by
    rw [find_pos, hblank, Option.getD_some, List.length_append, List.length_append, Nat.add_assoc]
  rw [extract_headers, hstart, hend, size_sub_of_le (by omega), Nat.add_sub_cancel_left,
    substr_of_le _ (Search.find_le_length hline), hassoc, ← List.drop_drop, List.drop_left,
    List.drop_left, List.take_left]

theorem extract_headers_lines {line : Str} {headers : List (Str × Str)} (hl : (13 : Byte) ∉ line)
    (hne : headers ≠ []) (hok : ∀ h ∈ headers, HeaderOk h) (tail : Str) :
    extract_headers ((line ++ (CRNL ++ header_text headers)) ++ (CRNLCRNL ++ tail))
      = extract_headers_from_str ∅ (header_text headers) :=
  extract_headers_section hl (by simpa using hne) (header_lines_ok hok) tail

namespace Parts

variable (P : Parts)

theorem header_ok {h : Str × Str} (hh : h ∈ P.headers) : HeaderOk h := (P.headers_ok h hh).header_ok

theorem method_plain (type : RequestType) :
    (32 : Byte) ∉ req_type_to_str type ∧ (13 : Byte) ∉ req_type_to_str type := by
  cases type <;> decide

/-- White space of any kind is kept out of the first line but for its spaces. -/
theorem first_line_cr : (13 : Byte) ∉ P.first_line := by
  have ht : (13 : Byte) ∉ P.target := fun h => absurd (P.target_ok 13 h) (by decide)
  have hv : (13 : Byte) ∉ P.version := fun h => absurd (P.version_ok.2 13 h) (by decide)
  have hh : (13 : Byte) ∉ str "HTTP" := by decide
  simp [first_line, (method_plain P.method).2, ht, hv, hh]

theorem find_blank : Search.find CRNLCRNL P.bytes
    = some (P.first_line ++ (CRNL ++ header_text P.headers)).length :=
  find_terminator_of P.first_line_cr P.headers_ne (fun _ hh => P.header_ok hh) P.body

theorem find_line : Search.find CRNL P.bytes = some P.first_line.length := by
  rw [bytes, List.append_assoc, List.append_assoc]
  exact find_line_end_of P.first_line_cr _

theorem find_space : Search.find [32] P.bytes = some (req_type_to_str P.method).length := by
  refine Search.find_singleton_eq_some_iff.mpr ⟨req_type_to_str P.method,
    P.target ++ 32 :: (str "HTTP" ++ 47 :: P.version)
      ++ (CRNL ++ (header_text P.headers ++ (CRNLCRNL ++ P.body))), ?_,
    (method_plain P.method).1, rfl⟩
  simp [bytes, first_line]

/-! ## The parts read back -/

theorem method_of_bytes : method_of P.bytes = req_type_to_str P.method := by
  have hsplit : P.bytes = req_type_to_str P.method ++ (32 :: (P.target
      ++ 32 :: (str "HTTP" ++ 47 :: P.version))
      ++ (CRNL ++ (header_text P.headers ++ (CRNLCRNL ++ P.body)))) := by
    simp [bytes, first_line]
  rw [method_of, find_pos, P.find_space, Option.getD_some, hsplit, List.take_left]

/-- The last slash of the first line is the one before the version. -/
theorem version_of_bytes : version_of P.bytes = P.version := by
  have htake : P.bytes.take (find_pos CRNL P.bytes) = P.first_line := by
    rw [find_pos, P.find_line, Option.getD_some, bytes, List.append_assoc, List.take_left]
  have hline : P.first_line
      = (P.version.reverse ++ 47 :: (req_type_to_str P.method
          ++ 32 :: (P.target ++ 32 :: str "HTTP")).reverse).reverse := by
    simp [first_line]
  have hall : ∀ c ∈ P.version.reverse, decide (c ≠ 47) = true := by
    intro c hc
    rw [decide_eq_true_eq]
    rintro rfl
    exact P.version_ok.1 (List.mem_reverse.mp hc)
  rw [version_of, htake, hline, List.rtakeWhile_reverse, List.takeWhile_append_of_pos hall,
    List.takeWhile_cons_of_neg (by simp), List.append_nil, List.reverse_reverse]

theorem body_of_bytes : body_of P.bytes = .ok P.body := by
  rw [body_of_find P.find_blank, bytes, ← List.drop_drop, List.drop_left, List.drop_left]

end Parts

/-- **DECODING UNDOES ENCODING**: the constructor succeeds on the text of any
    parts, and gives each of them back; a header is found under its name in any
    letter case, with the value of its first line, and no other key is there. -/
theorem decode_bytes (P : Parts) (path : Str) :
    ∃ req, construct P.bytes path [] = .ok req
      ∧ req.get_method = P.method
      ∧ req.get_version = P.version
      ∧ req.body_as_str = P.body
      ∧ (∀ h ∈ P.headers, ∀ n, to_lowercase_str n = to_lowercase_str h.1 →
          to_lowercase_str n ≠ COOKIE_HEADER →
          ∃ v, first_pair (to_lowercase_str n) P.headers = some v ∧ req.get_header n = some v)
      ∧ ∀ k, k ∈ req.get_headers ↔
          k ≠ COOKIE_HEADER ∧ ∃ h ∈ P.headers, to_lowercase_str h.1 = k := by
  obtain ⟨m, hm, hfind⟩ := extract_headers_header_text P.headers_ne fun _ hh => P.header_ok hh
  have hpair : ∀ n, n ≠ COOKIE_HEADER → m.m_headers.find n = first_pair n P.headers := by
    intro n hn
    rw [hfind n hn, declared_eq_first_pair P.headers_ok]
  refine ⟨⟨m, ∅, method_of P.bytes, P.body, version_of P.bytes⟩, ?_, ?_, ?_, rfl, ?_, ?_⟩
  · rw [construct_eq_ok_iff]
    have hs : extract_headers P.bytes = .ok m :=
      (extract_headers_lines P.first_line_cr P.headers_ne (fun _ hh => P.header_ok hh) P.body).trans
        hm
    exact ⟨hs, extract_queries_nil _ _, P.body_of_bytes, rfl, rfl⟩
  · rw [get_method, P.method_of_bytes, req_type_from_to]
  · exact P.version_of_bytes
  · intro h hh n hn hc
    obtain ⟨v, hv⟩ := first_pair_isSome.mpr ⟨h, hh, hn.symm⟩
    exact ⟨v, hv, (hpair _ hc).trans hv⟩
  · intro k
    rw [get_headers, mem_iff_find]
    by_cases hc : k = COOKIE_HEADER
    · rw [hc, extract_headers_cookie hm]
      simp
    · rw [hpair k hc, first_pair_isSome]
      exact (and_iff_right hc).symm

/-- Two spellings of one name, a cookie, and a body that begins with a blank
    line. -/
def sample_parts : Parts where
  method := .PUT
  target := str "/api"
  version := str "1.1"
  headers := [(str "X-Tag", str "a: b"), (str "Cookie", str "k=v"), (str "x-tag", str "c")]
  body := str "\r\n\r\nhi"
  target_ok := visible_of_all (by decide)
  version_ok := ⟨by decide, visible_of_all (by decide)⟩
  headers_ne := List.cons_ne_nil _ _
  headers_ok := by
    intro h hh
    rcases List.mem_cons.mp hh with rfl | hh
    · exact ⟨by decide, by decide, by decide, by decide, by decide⟩
    rcases List.mem_pair.mp hh with rfl | rfl
    · exact ⟨by decide, by decide, by decide, by decide, by decide⟩
    · exact ⟨by decide, by decide, by decide, by decide, by decide⟩

theorem decode_sample : ∃ req, construct sample_parts.bytes [] [] = .ok req
    ∧ req.get_method = .PUT ∧ req.body_as_str = str "\r\n\r\nhi"
    ∧ req.get_header (str "X-TAG") = some (str "a: b") := by
  obtain ⟨req, hreq, hm, -, hb, hh, -⟩ := decode_bytes sample_parts []
  obtain ⟨v, hv, hget⟩ := hh (str "X-Tag", str "a: b") List.mem_cons_self (str "X-TAG")
    (by decide) (by decide)
  have hfirst : first_pair (to_lowercase_str (str "X-TAG")) sample_parts.headers
      = some (str "a: b") := by decide
  exact ⟨req, hreq, hm, hb, hget.trans (hv.symm.trans hfirst)⟩

end WebLib.Decoding
