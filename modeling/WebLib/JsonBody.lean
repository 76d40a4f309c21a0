import WebLib.FieldGrammar

/-! # `body_as_json`

    The content type is a value of the header map.  `body_as_json` looks for it
    among the keys, which are folded header names, so that a request is taken
    for JSON when one of its headers is NAMED `application/json`.  The reader of
    JSON texts is a parameter. -/

namespace WebLib

open ByteString Utils UnorderedMap HttpHeaders ReadRequest RequestText

namespace HttpRequest

/-- `HeaderConsts::CONTENT_TYPE_APP_JSON`. -/
def CONTENT_TYPE_APP_JSON : Str := str "application/json"

/-- `body_as_json`; `parse` is `CharReader::parse` on the bytes of the body. -/
def body_as_json {Json : Type} (parse : Str → Option Json) (req : HttpRequest) : Option Json :=
  if CONTENT_TYPE_APP_JSON ∈ req.get_headers then parse req.m_body else none

end HttpRequest

namespace JsonBody

open HttpRequest Decoding FieldGrammar

/-- A first line, header fields, a blank line and a body. -/
structure Message where
  first_line : Str
  headers : List Field
  body : Str
  line_ok : (13 : Byte) ∉ first_line
  headers_ok : ∀ f ∈ headers, FieldOk f

namespace Message

variable (M : Message)

def bytes : Str :=
  CRNL.intercalate (M.first_line :: M.headers.map Field.line) ++ (CRNLCRNL ++ M.body)

/-- `HeaderConsts::CONTENT_TYPE`, folded. -/
def content_type : Str := to_lowercase_str (str "Content-Type")

/-- The request has the content type. -/
def SaysJson : Prop :=
  ∃ f ∈ M.headers, to_lowercase_str f.name = content_type ∧ f.value = CONTENT_TYPE_APP_JSON

/-- The request has a header of that name. -/
def NamesJson : Prop := ∃ f ∈ M.headers, to_lowercase_str f.name = CONTENT_TYPE_APP_JSON

instance : Decidable M.SaysJson := inferInstanceAs (Decidable (∃ f ∈ M.headers, _))

instance : Decidable M.NamesJson := inferInstanceAs (Decidable (∃ f ∈ M.headers, _))

/-! ## What is constructed -/

/-- A blank line at the start of a block is no header. -/
theorem extract_headers_blank (s : Str) : ¬ ∃ m, extract_headers_from_str ∅ (CRNL ++ s) = .ok m := by
  rw [extract_headers_ok_iff]
  intro hall
  have hline : (10 : Byte) ∉ [(13 : Byte)] := by decide
  have hsplit : (CRNL ++ s).splitOn 10 = [13] :: s.splitOn 10 :=
    List.splitOn_append_cons_self_of_not_mem hline s
  have hmem : [13] ∈ getlines (CRNL ++ s) := by
    rw [getlines, hsplit]
    obtain ⟨first, rest, hs⟩ := List.exists_cons_of_ne_nil (List.splitOn_ne_nil 10 s)
    split
    · rw [hs, List.dropLast_cons_cons]
      exact List.mem_cons_self
    · exact List.mem_cons_self
  obtain ⟨name, rest, htrim, -⟩ := hall _ hmem
  have hblank : trim [13] = [] := by decide
  rw [hblank] at htrim
  simp at htrim

/-- The section of a request without headers starts with the blank line. -/
theorem not_construct_of_nil (hnil : M.headers = []) {path : Str} {pnames : List Str}
    {req : HttpRequest} : construct M.bytes path pnames ≠ .ok req := by
  intro h
  obtain ⟨hs, -⟩ := construct_eq_ok_iff.mp h
  have hbytes : M.bytes = M.first_line ++ (CRNL ++ (CRNL ++ M.body)) := by
    rw [bytes, hnil, List.map_nil, List.intercalate_singleton]
    rfl
  have hline : Search.find CRNL M.bytes = some M.first_line.length := by
    rw [hbytes]
    exact find_line_end_of M.line_ok _
  have hblank : Search.find CRNLCRNL M.bytes = some M.first_line.length := by
    have hstart : (CRNL ++ (CRNL ++ M.body)) = CRNLCRNL ++ M.body := rfl
    rw [hbytes, hstart, show CRNLCRNL = 13 :: [10, 13, 10] from rfl,
      Search.find_append_of_head_notMem _ M.line_ok, List.cons_append, Search.find,
      if_pos ⟨M.body, rfl⟩]
    simp
  have hdrop : M.bytes.drop (M.first_line.length + CRNL.length) = CRNL ++ M.body := by
    rw [hbytes, ← List.drop_drop, List.drop_left, List.drop_left]
  -- the length wraps around, and is more than the two bytes of the line end
  have hsub : size_sub M.first_line.length (M.first_line.length + CRNL.length)
      = CRNL.length + (sizeMod - 4) := by
    have hlen : CRNL.length = 2 := rfl
    rw [size_sub, if_neg (by omega), sizeMod]
    omega
  rw [extract_headers, find_end, hline, find_pos, hblank, Option.getD_some, hsub,
    substr_of_le _ (Search.find_le_length hline), hdrop, List.take_length_add_append] at hs
  exact extract_headers_blank _ ⟨_, hs⟩

/-- The body is the body, and a key is the folded name of a header. -/
theorem construct_parts {path : Str} {pnames : List Str} {req : HttpRequest}
    (h : construct M.bytes path pnames = .ok req) :
    req.m_body = M.body
      ∧ ∀ k, k ≠ COOKIE_HEADER →
        (k ∈ req.get_headers ↔ ∃ f ∈ M.headers, to_lowercase_str f.name = k) := by
  have hne : M.headers ≠ [] := fun hnil => M.not_construct_of_nil hnil h
  have hlines : M.headers.map Field.line ≠ [] := by simpa using hne
  have hline_ok : ∀ m ∈ M.headers.map Field.line, m ≠ [] ∧ (13 : Byte) ∉ m :=
    List.forall_mem_map.mpr fun f hf => ⟨f.line_ne, (M.headers_ok f hf).one_line.1⟩
  have hbytes : M.bytes
      = (M.first_line ++ (CRNL ++ CRNL.intercalate (M.headers.map Field.line)))
        ++ (CRNLCRNL ++ M.body) := by
    rw [bytes, List.intercalate_cons_of_ne_nil hlines, List.append_assoc M.first_line]
  rw [hbytes] at h
  obtain ⟨hs, -, hbody, -⟩ := construct_eq_ok_iff.mp h
  rw [extract_headers_section M.line_ok hlines hline_ok] at hs
  -- a block that was read has a value on every line
  obtain ⟨m, hm, hfind⟩ :=
    extract_headers_fields M.headers_ok (values_of_extract M.headers_ok hs)
  rw [body_of_find (find_terminator_block M.line_ok hlines hline_ok M.body), ← List.drop_drop,
    List.drop_left, List.drop_left] at hbody
  refine ⟨(Except.ok.inj hbody).symm, fun k hk => ?_⟩
  rw [get_headers, Except.ok.inj (hs.symm.trans hm), mem_iff_find, hfind k hk,
    ← Option.isSome_iff_exists, Option.isSome_map, first_field, List.find?_isSome]
  simp

end Message

theorem ite_eq_ite_iff {α : Type} {p q : Prop} [Decidable p] [Decidable q] {a : Option α} :
    (if p then a else none) = (if q then a else none) ↔ (p ↔ q) ∨ a = none := by
  by_cases hp : p <;> by_cases hq : q <;> simp [hp, hq, eq_comm]

/-- **A JSON BODY** is there when the request says so exactly when naming the type
    and having it come to the same, or the body is no JSON text. -/
theorem body_as_json_iff (M : Message) {path : Str} {pnames : List Str} {req : HttpRequest}
    (h : construct M.bytes path pnames = .ok req) {Json : Type} (parse : Str → Option Json) :
    (req.body_as_json parse = if M.SaysJson then parse M.body else none)
      ↔ (M.NamesJson ↔ M.SaysJson) ∨ parse M.body = none := by
  obtain ⟨hbody, hkeys⟩ := M.construct_parts h
  have hnames : CONTENT_TYPE_APP_JSON ∈ req.get_headers ↔ M.NamesJson :=
    hkeys CONTENT_TYPE_APP_JSON (by decide)
  rw [body_as_json, hbody]
  simp only [hnames]
  exact ite_eq_ite_iff

/-- A request as a client sends it. -/
def sample_message : Message where
  first_line := str "POST / HTTP/1.1"
  headers := [⟨str "Content-Type", [32], str "application/json", []⟩]
  body := str "7"
  line_ok := by decide
  headers_ok := by decide

/-- A reader that knows one number. -/
def sample_parse (text : Str) : Option Nat := if text = str "7" then some 7 else none

theorem sample_constructed : ∃ req, construct sample_message.bytes (str "/") [] = .ok req :=
  ⟨_, rfl⟩

theorem body_as_json_sample : ∃ req, construct sample_message.bytes (str "/") [] = .ok req
    ∧ ((req.body_as_json sample_parse
          = if sample_message.SaysJson then sample_parse sample_message.body else none)
      ↔ (sample_message.NamesJson ↔ sample_message.SaysJson)
        ∨ sample_parse sample_message.body = none) := by
  obtain ⟨req, hreq⟩ := sample_constructed
  exact ⟨req, hreq, body_as_json_iff sample_message hreq sample_parse⟩

/-- The body of that request is not available. -/
theorem json_body_missing : sample_message.SaysJson
    ∧ sample_parse sample_message.body = some 7
    ∧ ∃ req, construct sample_message.bytes (str "/") [] = .ok req
      ∧ req.body_as_json sample_parse = none := by
  refine ⟨by decide, by decide, ?_⟩
  obtain ⟨req, hreq⟩ := sample_constructed
  obtain ⟨-, hkeys⟩ := sample_message.construct_parts hreq
  refine ⟨req, hreq, if_neg ?_⟩
  rw [hkeys _ (by decide)]
  decide

end JsonBody

end WebLib
