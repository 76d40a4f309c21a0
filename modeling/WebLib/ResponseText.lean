import WebLib.RequestText
import WebLib.ResponseCalls

/-! # The text of a response and what frames it

    `to_string` is a status line, the header lines, a blank line and the body.
    The reader of this file knows nothing of the map behind it: it cuts a text
    at the first blank line, looks for the one line named Content-Length, in
    any letter case, and takes as many bytes as that line says. -/

namespace WebLib.HttpResponse

open WebLib ByteString UnorderedMap Utils ReadRequest RequestText

universe u

/-! ## The text line by line -/

def status_line (resp : HttpResponse) : Str :=
  str "HTTP/" ++ resp.m_http_version ++ str " " ++ number resp.m_status_code ++ str " "
    ++ resp.m_status_message

/-- The header `to_string` adds by itself. -/
def length_header (resp : HttpResponse) : Str × Str :=
  (CONTENT_LENGTH_HEADER, number resp.m_body.length)

/-- The headers `to_string` writes: those of the map in its iteration order, and
    the length unless the map has the key, spelled exactly so. -/
def header_lines (resp : HttpResponse) : List (Str × Str) :=
  resp.m_headers.entries.map (fun kv => (kv.1, kv.2))
    ++ if CONTENT_LENGTH_HEADER ∈ resp.m_headers then [] else [resp.length_header]

theorem intercalate_append_sep (sep l : Str) :
    ∀ ls : List Str, sep.intercalate (l :: ls) ++ sep = l ++ sep ++ ls.flatMap (· ++ sep) := by
  intro ls
  induction ls generalizing l with
  | nil => simp
  | cons m ls ih =>
      rw [List.intercalate_cons_cons, List.append_assoc, List.append_assoc, ih, List.flatMap_cons]
      simp only [List.append_assoc]

/-- **THE TEXT**: the lines joined by line ends, a blank line, the body. -/
theorem to_string_eq (resp : HttpResponse) :
    resp.to_string
      = CRNL.intercalate (resp.status_line :: resp.header_lines.map RequestText.header_line)
        ++ (CRNLCRNL ++ resp.m_body) := by
  have hline : ∀ kv : Str × Str,
      RequestText.header_line kv ++ CRNL = HttpResponse.header_line kv.1 kv.2 := by
    intro kv
    simp only [RequestText.header_line, HttpResponse.header_line, List.append_assoc]
    rfl
  have hlines : ((resp.header_lines.map RequestText.header_line).flatMap (· ++ CRNL))
      = (resp.m_headers.entries.flatMap fun kv => HttpResponse.header_line kv.1 kv.2)
        ++ if CONTENT_LENGTH_HEADER ∈ resp.m_headers then []
          else HttpResponse.header_line CONTENT_LENGTH_HEADER (number resp.m_body.length) := by
    rw [List.flatMap_map, header_lines, List.flatMap_append, List.flatMap_map]
    simp only [hline]
    split <;> simp [length_header]
  rw [show CRNLCRNL = CRNL ++ CRNL from rfl, List.append_assoc CRNL, ← List.append_assoc,
    intercalate_append_sep, hlines, to_string, status_line]
  simp only [List.append_assoc]
  rfl

/-- The same response with another iteration order of its map. -/
structure Reordered (resp resp' : HttpResponse) : Prop where
  entries : resp'.m_headers.entries.Perm resp.m_headers.entries
  body : resp'.m_body = resp.m_body
  status_code : resp'.m_status_code = resp.m_status_code
  status_message : resp'.m_status_message = resp.m_status_message
  http_version : resp'.m_http_version = resp.m_http_version

theorem Reordered.refl (resp : HttpResponse) : Reordered resp resp :=
  ⟨List.Perm.refl _, rfl, rfl, rfl, rfl⟩

theorem Reordered.find {resp resp' : HttpResponse} (h : Reordered resp resp') (n : Str) :
    resp'.m_headers.find n = resp.m_headers.find n :=
  AList.perm_lookup h.entries

/-! ## A reader -/

/-- The texts before and after the first blank line. -/
def cut (text : Str) : Option (Str × Str) :=
  (Search.find CRNLCRNL text).map fun pos =>
    (text.take pos, text.drop (pos + CRNLCRNL.length))

/-- The lines of a head. -/
def head_lines : Str → List Str
  | [] => [[]]
  | 13 :: 10 :: s => [] :: head_lines s
  | b :: s => (head_lines s).modifyHead (b :: ·)

/-- The name of a line is what stands before its first colon. -/
def line_name (line : Str) : Str := line.takeWhile (· != 58)

/-- The value follows the colon and a blank. -/
def line_value (line : Str) : Str := (line.dropWhile (· != 58)).drop 2

def is_length_line (line : Str) : Bool :=
  to_lowercase_str (line_name line) == to_lowercase_str CONTENT_LENGTH_HEADER

/-- The number that the only Content-Length line writes. -/
def content_length (head : Str) : Option Nat :=
  match (head_lines head).filter is_length_line with
  | [line] =>
      let value := line_value line
      if value ≠ [] ∧ value.all isdigit then some (decimal value) else none
  | _ => none

/-- The body, and what is left over. -/
def read_body (text : Str) : Option (Str × Str) :=
  (cut text).bind fun (head, rest) =>
    (content_length head).map fun n => (rest.take n, rest.drop n)

theorem head_lines_append {l : Str} (hl : (13 : Byte) ∉ l) (s : Str) :
    head_lines (l ++ CRNL ++ s) = l :: head_lines s := by
  induction l with
  | nil => rfl
  | cons b l ih =>
      have hb : b ≠ 13 := fun h => hl (h ▸ List.mem_cons_self)
      have hrest := ih (fun hmem => hl (List.mem_cons_of_mem _ hmem))
      rw [List.cons_append, List.cons_append, head_lines, hrest]
      · rfl
      · intro s' h13
        exact absurd h13 hb

theorem head_lines_of_notMem {l : Str} (hl : (13 : Byte) ∉ l) : head_lines l = [l] := by
  induction l with
  | nil => rfl
  | cons b l ih =>
      have hb : b ≠ 13 := fun h => hl (h ▸ List.mem_cons_self)
      rw [head_lines, ih (fun hmem => hl (List.mem_cons_of_mem _ hmem))]
      · rfl
      · intro s' h13
        exact absurd h13 hb

/-- The lines of joined lines are these lines. -/
theorem head_lines_intercalate :
    ∀ (ls : List Str) (l : Str), (∀ m ∈ l :: ls, (13 : Byte) ∉ m) →
      head_lines (CRNL.intercalate (l :: ls)) = l :: ls := by
  intro ls
  induction ls with
  | nil =>
      intro l h
      rw [List.intercalate_singleton]
      exact head_lines_of_notMem (h l List.mem_cons_self)
  | cons m ls ih =>
      intro l h
      rw [List.intercalate_cons_cons, head_lines_append (h l List.mem_cons_self),
        ih m (fun x hx => h x (List.mem_cons_of_mem _ hx))]

theorem before_colon {s : Str} (hc : (58 : Byte) ∉ s) : ∀ b ∈ s, (b != 58) = true := by
  intro b hb
  rw [bne_iff_ne]
  rintro rfl
  exact hc hb

theorem line_name_header_line {h : Str × Str} (hc : (58 : Byte) ∉ h.1) :
    line_name (RequestText.header_line h) = h.1 := by
  rw [line_name, RequestText.header_line, List.takeWhile_append_of_pos (before_colon hc)]
  simp

theorem line_value_header_line {h : Str × Str} (hc : (58 : Byte) ∉ h.1) :
    line_value (RequestText.header_line h) = h.2 := by
  rw [line_value, RequestText.header_line, List.dropWhile_append_of_pos (before_colon hc)]
  rfl

/-! ## What the calls keep -/

/-- No text the caller gives has a line end, and no header name a colon. -/
def Call.Plain {Json : Type u} : Call Json → Prop
  | .set_header name value => (58 : Byte) ∉ name ∧ OneLine name ∧ OneLine value
  | .set_header_of_type _ value => OneLine value
  | .set_cookie cookie => cookie.OneLine
  | .set_custom_message msg => OneLine msg
  | .set_version http_ver => OneLine http_ver
  | .remove_header _ | .set_content_type _ | .set_body _ | .set_body_json _ | .set_status _ => True

/-- A touch that sets Content-Length, in some letter case. -/
def LengthTouch : Option (Str × Option Str) → Prop
  | some (name, some _) => to_lowercase_str name = to_lowercase_str CONTENT_LENGTH_HEADER
  | _ => False

/-- The call sets Content-Length. -/
def Call.SetsLength {Json : Type u} (call : Call Json) : Prop := LengthTouch call.touch

instance (t : Option (Str × Option Str)) : Decidable (LengthTouch t) :=
  match t with
  | some (_, some _) => inferInstanceAs (Decidable (_ = _))
  | some (_, none) | none => isFalse id

instance {Json : Type u} (call : Call Json) : Decidable call.Plain :=
  match call with
  | .set_header name value =>
      inferInstanceAs (Decidable ((58 : Byte) ∉ name ∧ OneLine name ∧ OneLine value))
  | .set_header_of_type _ value => inferInstanceAs (Decidable (OneLine value))
  | .set_cookie cookie => inferInstanceAs (Decidable cookie.OneLine)
  | .set_custom_message msg => inferInstanceAs (Decidable (OneLine msg))
  | .set_version http_ver => inferInstanceAs (Decidable (OneLine http_ver))
  | .remove_header _ | .set_content_type _ | .set_body _ | .set_body_json _ | .set_status _ =>
      isTrue trivial

instance {Json : Type u} (call : Call Json) : Decidable call.SetsLength :=
  inferInstanceAs (Decidable (LengthTouch call.touch))

/-- A header as it can stand in a map that the calls make. -/
structure PlainHeader (name value : Str) : Prop where
  colon : (58 : Byte) ∉ name
  name_line : OneLine name
  value_line : OneLine value
  not_length : to_lowercase_str name ≠ to_lowercase_str CONTENT_LENGTH_HEADER

/-- A response that plain calls make. -/
structure Plain (resp : HttpResponse) : Prop where
  headers : ∀ name value, resp.m_headers.find name = some value → PlainHeader name value
  message : OneLine resp.m_status_message
  version : OneLine resp.m_http_version

theorem HeaderType.name_plain {header_type : HeaderType} {name : Str}
    (h : header_type.name = some name) : (58 : Byte) ∉ name ∧ OneLine name := by
  cases header_type <;> cases h <;> decide

theorem ContentType.text_oneLine (type : ContentType) : OneLine type.text := by
  cases type <;> decide

theorem status_message_oneLine (code : Int) : OneLine (status_message code) := by
  unfold status_message
  split <;> decide

variable {Json : Type u} (writeString : Json → Str)

/-- What a plain call sets is a plain header. -/
theorem Call.Plain.touch {call : Call Json} (h : call.Plain) (hlen : ¬ call.SetsLength)
    {name value : Str} (ht : call.touch = some (name, some value)) : PlainHeader name value := by
  have hne : to_lowercase_str name ≠ to_lowercase_str CONTENT_LENGTH_HEADER := by
    simpa only [Call.SetsLength, ht, LengthTouch] using hlen
  cases call with
  | set_header name' value' =>
      simp only [Call.touch] at ht
      split at ht
      · cases ht
      · cases ht
        exact ⟨h.1, h.2.1, h.2.2, hne⟩
  | set_header_of_type header_type value' =>
      obtain ⟨name', hname, heq⟩ := Option.map_eq_some_iff.mp ht
      cases heq
      obtain ⟨hc, hl⟩ := HeaderType.name_plain hname
      exact ⟨hc, hl, h, hne⟩
  | set_content_type type =>
      cases ht
      exact ⟨by decide, by decide, ContentType.text_oneLine type, hne⟩
  | set_cookie cookie =>
      obtain ⟨text, htext, heq⟩ := Option.map_eq_some_iff.mp ht
      cases heq
      have hok : cookie.to_string = .ok value := by
        cases hc : cookie.to_string with
        | ok t => rw [hc] at htext; cases htext; rfl
        | error e => rw [hc] at htext; cases htext
      exact ⟨by decide, by decide, Cookie.OneLine.to_string h hok, hne⟩
  | _ => cases ht

theorem plain_new : Plain {} where
  headers := by
    intro name value h
    rw [show ({} : HttpResponse).m_headers = assign ∅ CONTENT_TYPE ContentType.TEXT.text from rfl,
      find_assign] at h
    split at h
    · next hname =>
        cases h
        subst hname
        exact ⟨by decide, by decide, by decide, by decide⟩
    · cases h
  message := by decide
  version := by decide

/-- A plain call keeps the response plain. -/
theorem Plain.after {resp : HttpResponse} (h : Plain resp) {call : Call Json} (hc : call.Plain)
    (hlen : ¬ call.SetsLength) : Plain (call.after writeString resp) where
  headers := by
    intro name value hfind
    rw [after_eq, find_touched] at hfind
    cases ht : call.touch with
    | none =>
        rw [ht] at hfind
        exact h.headers name value hfind
    | some t =>
        rw [ht] at hfind
        simp only at hfind
        split at hfind
        · next hname => exact hc.touch hlen (by rw [ht, hname, ← hfind])
        · exact h.headers name value hfind
  message := by
    rw [after_eq]
    cases call with
    | set_custom_message msg => exact hc
    | set_status status_code => exact status_message_oneLine status_code
    | _ => exact h.message
  version := by
    rw [after_eq]
    cases call with
    | set_version http_ver => exact hc
    | _ => exact h.version

theorem plain_after {calls : List (Call Json)}
    (h : ∀ call ∈ calls, call.Plain ∧ ¬ call.SetsLength) : Plain (after writeString calls) := by
  induction calls using List.reverseRecOn with
  | nil => exact plain_new
  | append_singleton calls call ih =>
      rw [after_concat]
      obtain ⟨hc, hlen⟩ := h call (by simp)
      exact (ih fun c hmem => h c (List.mem_append_left _ hmem)).after writeString hc hlen

/-- A plain response stays one in every iteration order of its map. -/
theorem Plain.reordered {resp resp' : HttpResponse} (h : Plain resp) (hr : Reordered resp resp') :
    Plain resp' where
  headers := by
    intro name value hfind
    exact h.headers name value (hr.find name ▸ hfind)
  message := hr.status_message ▸ h.message
  version := hr.http_version ▸ h.version

/-! ## A plain response frames itself -/

/-- The status line starts with `HTTP`. -/
theorem is_length_line_status (resp : HttpResponse) : is_length_line resp.status_line = false := by
  obtain ⟨t, ht⟩ : ∃ t, resp.status_line = 72 :: t := ⟨_, rfl⟩
  have hlength : to_lowercase_str CONTENT_LENGTH_HEADER = 99 :: str "ontent-length" := by decide
  rw [ht, is_length_line, hlength, beq_eq_false_iff_ne]
  intro heq
  have hhead : tolower 72 = 99 := (List.cons.inj heq).1
  exact absurd hhead (by decide)

theorem colon_notMem_length : (58 : Byte) ∉ CONTENT_LENGTH_HEADER := by decide

namespace Plain

variable {resp : HttpResponse} (h : Plain resp)

include h

/-- The map has no spelling of Content-Length, so the automatic one is added. -/
theorem header_lines_eq : resp.header_lines
    = resp.m_headers.entries.map (fun kv => (kv.1, kv.2)) ++ [resp.length_header] := by
  have hnot : CONTENT_LENGTH_HEADER ∉ resp.m_headers := by
    intro hmem
    obtain ⟨value, hfind⟩ := mem_iff_find.mp hmem
    exact (h.headers _ value hfind).not_length rfl
  rw [header_lines, if_neg hnot]

theorem entry {kv : Sigma fun _ : Str => Str} (hkv : kv ∈ resp.m_headers.entries) :
    PlainHeader kv.1 kv.2 :=
  h.headers kv.1 kv.2 (mem_entries_iff.mp hkv)

theorem lines_eq : resp.header_lines.map RequestText.header_line
    = resp.m_headers.entries.map (fun kv => RequestText.header_line (kv.1, kv.2))
      ++ [RequestText.header_line resp.length_header] := by
  rw [h.header_lines_eq, List.map_append, List.map_map]
  rfl

theorem status_line_oneLine : OneLine resp.status_line := by
  have hcode : OneLine (number resp.m_status_code) := oneLine_of_int _
  have hhttp : OneLine (str "HTTP/") := by decide
  have hblank : OneLine (str " ") := by decide
  simp only [status_line, oneLine_append]
  exact ⟨⟨⟨⟨⟨hhttp, h.version⟩, hblank⟩, hcode⟩, hblank⟩, h.message⟩

/-- No line has a line end of its own. -/
theorem lines_oneLine : ∀ l ∈ resp.status_line :: resp.header_lines.map RequestText.header_line,
    OneLine l := by
  have hsep : OneLine [58, 32] := by decide
  have hline : ∀ kv : Str × Str, OneLine kv.1 → OneLine kv.2 →
      OneLine (RequestText.header_line kv) := by
    intro kv hname hvalue
    rw [RequestText.header_line, show kv.1 ++ 58 :: 32 :: kv.2 = kv.1 ++ [58, 32] ++ kv.2 by simp]
    exact oneLine_append.mpr ⟨oneLine_append.mpr ⟨hname, hsep⟩, hvalue⟩
  intro l hl
  rw [h.lines_eq] at hl
  simp only [List.mem_cons, List.mem_append, List.mem_map, List.not_mem_nil, or_false] at hl
  rcases hl with rfl | ⟨kv, hkv, rfl⟩ | rfl
  · exact h.status_line_oneLine
  · exact hline _ (h.entry hkv).name_line (h.entry hkv).value_line
  · have hname : OneLine CONTENT_LENGTH_HEADER := by decide
    exact hline resp.length_header hname (oneLine_of_int _)

/-- The first blank line is the one after the headers, whatever the body. -/
theorem cut_to_string : cut resp.to_string
    = some (CRNL.intercalate (resp.status_line :: resp.header_lines.map RequestText.header_line),
      resp.m_body) := by
  have hne : ∀ l ∈ resp.header_lines.map RequestText.header_line, l ≠ [] := by
    intro l hl
    obtain ⟨kv, -, rfl⟩ := List.mem_map.mp hl
    simp [RequestText.header_line]
  rw [cut, to_string_eq, find_terminator_lines _ _ _ (fun l hl => (h.lines_oneLine l hl).1) hne,
    Option.map_some, List.take_left, ← List.drop_drop, List.drop_left, List.drop_left]

theorem head_lines_eq :
    head_lines (CRNL.intercalate (resp.status_line :: resp.header_lines.map RequestText.header_line))
      = resp.status_line :: resp.header_lines.map RequestText.header_line :=
  head_lines_intercalate _ _ fun l hl => (h.lines_oneLine l hl).1

/-- Exactly one line is named Content-Length. -/
theorem length_lines :
    (resp.status_line :: resp.header_lines.map RequestText.header_line).filter is_length_line
      = [RequestText.header_line resp.length_header] := by
  have hentries : (resp.m_headers.entries.map
      fun kv => RequestText.header_line (kv.1, kv.2)).filter is_length_line = [] := by
    rw [List.filter_eq_nil_iff]
    intro l hl
    obtain ⟨kv, hkv, rfl⟩ := List.mem_map.mp hl
    rw [is_length_line, line_name_header_line (h.entry hkv).colon]
    simpa using (h.entry hkv).not_length
  have hlength : is_length_line (RequestText.header_line resp.length_header) = true := by
    rw [is_length_line, line_name_header_line colon_notMem_length]
    exact beq_self_eq_true _
  rw [List.filter_cons_of_neg (by simp [is_length_line_status]), h.lines_eq, List.filter_append,
    hentries, List.filter_cons_of_pos hlength]
  rfl

/-- The number in it is the length of the body. -/
theorem content_length_eq : content_length
    (CRNL.intercalate (resp.status_line :: resp.header_lines.map RequestText.header_line))
      = some resp.m_body.length := by
  have hvalue : line_value (RequestText.header_line resp.length_header)
      = str (toString resp.m_body.length) := by
    rw [line_value_header_line colon_notMem_length]
    rfl
  have hdigits : (str (toString resp.m_body.length)).all isdigit = true :=
    List.all_eq_true.mpr (isdigit_of_nat _)
  simp only [content_length, h.head_lines_eq, h.length_lines, hvalue]
  rw [if_pos ⟨str_nat_ne_nil _, hdigits⟩, decimal_of_nat]

end Plain

/-- The text frames itself: a reader that knows only the text finds the body and
    nothing after it, and the lines before are the status line, the headers of
    the map and the length. -/
structure SelfFramed (resp : HttpResponse) : Prop where
  body : read_body resp.to_string = some (resp.m_body, [])
  head : ∃ head rest, cut resp.to_string = some (head, rest)
    ∧ head_lines head = resp.status_line
      :: (resp.m_headers.entries.map fun kv => RequestText.header_line (kv.1, kv.2))
      ++ [RequestText.header_line resp.length_header]
    ∧ (head_lines head).filter is_length_line = [RequestText.header_line resp.length_header]

theorem Plain.selfFramed {resp : HttpResponse} (h : Plain resp) : SelfFramed resp where
  body := by
    rw [read_body, h.cut_to_string]
    simp only [Option.bind_some, h.content_length_eq, Option.map_some, List.take_length,
      List.drop_length]
  head := by
    refine ⟨_, _, h.cut_to_string, ?_, ?_⟩
    · rw [h.head_lines_eq, h.lines_eq]
      rfl
    · rw [h.head_lines_eq, h.length_lines]

/-- **RESPONSE SELF-FRAMING**: whatever calls of mutators made the response, in
    any order and number, as long as the texts they give have no line ends, the
    header names no colon, and nobody sets Content-Length. -/
theorem self_framing {calls : List (Call Json)}
    (h : ∀ call ∈ calls, call.Plain ∧ ¬ call.SetsLength) {resp : HttpResponse}
    (hresp : Reordered (after writeString calls) resp) : SelfFramed resp :=
  ((plain_after writeString h).reordered hresp).selfFramed

/-- A body with a blank line and a length of its own, after a header was set
    twice and the length removed. -/
theorem two_blank_lines_self_framed : SelfFramed (after (fun _ : Nat => [])
    [.set_header (str "X-A") (str "1"), .set_status 404, .remove_header CONTENT_LENGTH_HEADER,
      .set_cookie (.new (str "a") (str "b")), .set_header (str "X-A") (str ":2"),
      .set_body (str "\r\n\r\nContent-Length: 1\r\n")]) :=
  self_framing _ (by decide) (Reordered.refl _)

end WebLib.HttpResponse
