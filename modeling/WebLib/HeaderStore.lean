import WebLib.FoldedKeys
import WebLib.HttpRequest
import WebLib.TransitionSystem

/-! # `set_header` behind the parser

    The parser enters a header under its folded name and `get_header` looks the
    folded name up; `set_header` assigns under the name as it is spelled.  An
    object is used by parsing blocks and by setting headers, in any order; what
    it should read as is a store indexed by folded names. -/

namespace WebLib

open ByteString Utils UnorderedMap FoldedKeys

namespace HttpHeaders

/-- `set_header`. -/
def set_header (m : HttpHeaders) (name value : Str) : HttpHeaders :=
  { m with m_headers := m.m_headers.assign name value }

/-- The loop of `extract_headers_from_str` on the object itself: after an
    exception it keeps what was read before. -/
def read_lines (m : HttpHeaders) : List Str → HttpHeaders × Except Fault Unit
  | [] => (m, .ok ())
  | line :: lines =>
      match header_of_line line with
      | .error f => (m, .error f)
      | .ok h => read_lines (insert_header m h) lines

/-- `parse_from_string`. -/
def parse_from_string (m : HttpHeaders) (raw_http : Str) : HttpHeaders × Except Fault Unit :=
  if raw_http = [] then (m, .ok ()) else read_lines m (getlines raw_http)

/-! ## What a parse enters -/

/-- The lines before the first one that cannot be read. -/
def readable_lines (lines : List Str) : List Str :=
  lines.takeWhile fun line => (header_of_line line).isOk

theorem extract_headers_readable (m : HttpHeaders) (lines : List Str) :
    extract_headers_loop m (readable_lines lines) = .ok (read_lines m lines).1 := by
  induction lines generalizing m with
  | nil => rfl
  | cons line lines ih =>
      cases hh : header_of_line line with
      | error f =>
          rw [readable_lines, List.takeWhile_cons_of_neg (by rw [hh]; exact Bool.false_ne_true),
            read_lines, hh]
          rfl
      | ok h =>
          rw [readable_lines, List.takeWhile_cons_of_pos (by rw [hh]; rfl), read_lines, hh,
            extract_headers_loop, hh]
          exact ih (insert_header m h)

/-- On a block that is read to the end the two readings are one. -/
theorem read_lines_of_ok {m m' : HttpHeaders} {lines : List Str}
    (h : extract_headers_loop m lines = .ok m') : read_lines m lines = (m', .ok ()) := by
  induction lines generalizing m with
  | nil => rw [read_lines, Except.ok.inj h]
  | cons line lines ih =>
      rw [extract_headers_loop] at h
      rw [read_lines]
      cases hh : header_of_line line with
      | error f => rw [hh] at h; cases h
      | ok hd =>
          rw [hh] at h
          exact ih h

theorem parse_from_string_of_ok {m m' : HttpHeaders} {raw_http : Str}
    (h : extract_headers_from_str m raw_http = .ok m') :
    parse_from_string m raw_http = (m', .ok ()) := by
  rw [extract_headers_from_str] at h
  rw [parse_from_string]
  by_cases hr : raw_http = []
  · rw [if_pos hr] at h ⊢
    rw [Except.ok.inj h]
  · rw [if_neg hr] at h ⊢
    exact read_lines_of_ok h

/-- What a store indexed by folded names holds after a parse: a name that is there
    keeps its value, and cookie lines enter nothing. -/
def parsed (store : Str → Option Str) (raw_http : Str) : Str → Option Str :=
  fun k => (store k).or
    (if k = COOKIE_HEADER then none else first_value k (readable_lines (getlines raw_http)))

theorem parse_from_string_find (m : HttpHeaders) (raw_http k : Str) :
    (parse_from_string m raw_http).1.m_headers.find k = parsed m.m_headers.find raw_http k := by
  have hloop : (read_lines m (getlines raw_http)).1.m_headers.find k
      = parsed m.m_headers.find raw_http k := by
    have hread := extract_headers_readable m (getlines raw_http)
    rw [parsed]
    by_cases hc : k = COOKIE_HEADER
    · rw [if_pos hc, Option.or_none, hc]
      exact extract_headers_loop_preserves
        (P := fun m' => m'.m_headers.find COOKIE_HEADER = m.m_headers.find COOKIE_HEADER)
        (fun m' hd hm => (insert_header_cookie m' hd).trans hm) hread rfl
    · rw [if_neg hc, extract_headers_loop_find hc hread]
  by_cases hr : raw_http = []
  · subst hr
    exact hloop
  · rw [parse_from_string, if_neg hr]
    exact hloop

/-! ## One call -/

/-- `get_header` reads `value` under every spelling of `name`, and under every other
    name what it read before. -/
structure ReadAfterWrite (m : HttpHeaders) (name value : Str) : Prop where
  same : ∀ k, to_lowercase_str k = to_lowercase_str name →
    get_header (m.set_header name value) k = some value
  others : ∀ k, to_lowercase_str k ≠ to_lowercase_str name →
    get_header (m.set_header name value) k = get_header m k

/-- A name without upper-case letters, or a header that has the value already. -/
def SetOk (m : HttpHeaders) (name value : Str) : Prop :=
  to_lowercase_str name = name ∨ get_header m name = some value

instance (m : HttpHeaders) (name value : Str) : Decidable (SetOk m name value) :=
  inferInstanceAs (Decidable (_ ∨ _))

theorem read_after_write_iff {m : HttpHeaders} {name value : Str} :
    ReadAfterWrite m name value ↔ SetOk m name value := by
  refine Iff.trans ⟨fun h => ?_, fun h => ?_⟩ (overwrites_assign_iff to_lowercase_str_idem)
  · exact (⟨h.same, h.others⟩ : Overwrites to_lowercase_str m.m_headers _ name value)
  · exact ⟨h.same, h.others⟩

end HttpHeaders

namespace HttpRequest

/-- `set_header`. -/
def set_header (req : HttpRequest) (name value : Str) : HttpRequest :=
  { req with m_headers := req.m_headers.set_header name value }

@[simp] theorem get_header_set_header (req : HttpRequest) (name value k : Str) :
    (req.set_header name value).get_header k
      = HttpHeaders.get_header (req.m_headers.set_header name value) k := rfl

end HttpRequest

namespace HttpHeaders

/-! ## Any calls -/

inductive HeaderCall where
  | parse (raw_http : Str)
  | set (name value : Str)
deriving DecidableEq, Repr

/-- An object, and what it should read as. -/
structure HeaderObject where
  headers : HttpHeaders := ∅
  store : Str → Option Str := fun _ => none

/-- An object in use: a parse that throws leaves it as far as it got. -/
def header_object : TransitionSystem HeaderObject HeaderCall where
  init s := s = {}
  step s
    | .parse raw_http =>
        match parse_from_string s.headers raw_http with
        | (_, .error .undefined) => none
        | (headers, _) => some ⟨headers, parsed s.store raw_http⟩
    | .set name value =>
        some ⟨s.headers.set_header name value,
          Function.update s.store (to_lowercase_str name) (some value)⟩

/-- The calls that `SetOk` admits. -/
def CallOk (s : HeaderObject) : HeaderCall → Prop
  | .parse _ => True
  | .set name value => SetOk s.headers name value

def HeaderObject.Reads (s : HeaderObject) : Prop :=
  ∀ k, get_header s.headers k = s.store (to_lowercase_str k)

theorem HeaderObject.Reads.step {s s' : HeaderObject} {call : HeaderCall} (h : s.Reads)
    (hok : CallOk s call) (hs : header_object.step s call = some s') : s'.Reads := by
  cases call with
  | parse raw_http =>
      have heq : s' = ⟨(parse_from_string s.headers raw_http).1, parsed s.store raw_http⟩ := by
        simp only [header_object] at hs
        split at hs
        · cases hs
        · next hp => rw [hp]; exact (Option.some.inj hs).symm
      intro k
      rw [heq, get_header, parse_from_string_find]
      show parsed _ _ _ = parsed s.store raw_http (to_lowercase_str k)
      rw [parsed, parsed]
      exact congrArg (Option.or · _) (h k)
  | set name value =>
      obtain rfl := Option.some.inj hs
      exact ((overwrites_assign_iff to_lowercase_str_idem).mpr hok).read_update h

/-- **READ AFTER WRITE**: in every state of an object, setting a header is read as
    it should be exactly when the name has no upper-case letters or the header
    has the value already; and an object whose calls are all of that kind
    reads as the store its history makes. -/
theorem header_read_after_write (s : HeaderObject) :
    (header_object.Reachable s → ∀ name value,
        ReadAfterWrite s.headers name value ↔ SetOk s.headers name value)
      ∧ (header_object.Reach CallOk s →
          ∀ k, get_header s.headers k = s.store (to_lowercase_str k)) := by
  refine ⟨fun _ _ _ => read_after_write_iff, fun h => ?_⟩
  refine h.invariant (I := HeaderObject.Reads) ?_ fun _ _ _ hi hok hs => hi.step hok hs
  rintro s rfl k
  exact find_empty _

/-- A request that says what its body is, and is told otherwise. -/
theorem overwritten_header_stays :
    ∃ s, header_object.Reachable s
      ∧ get_header (s.headers.set_header (str "Content-Type") (str "application/json"))
          (str "Content-Type") = some (str "text/plain")
      ∧ ¬ ReadAfterWrite s.headers (str "Content-Type") (str "application/json") := by
  have hstep : header_object.step {} (.parse (str "Content-Type: text/plain"))
      = some ⟨⟨(∅ : UnorderedMap Str Str).emplace (str "content-type") (str "text/plain"), ∅⟩,
          parsed (fun _ => none) (str "Content-Type: text/plain")⟩ := by rfl
  refine ⟨_, .step (.init rfl) trivial hstep, by decide, fun h => ?_⟩
  exact absurd (read_after_write_iff.mp h) (by decide)

end HttpHeaders

end WebLib
