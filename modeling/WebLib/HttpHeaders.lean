import WebLib.Cookie
import WebLib.UnorderedMap
import WebLib.Utils

/-! # `HttpHeaders`: reading a header block line by line

    A block is read with `getline`, one `name: value` line at a time.  A line
    without a colon throws; a line whose colon is its last visible byte makes
    the code step PAST the end of the line, which is undefined behaviour.
    `LineOk` says which lines do neither, and `extract_headers_ok_iff` that
    they are exactly the lines of the blocks that are read to the end. -/

namespace WebLib

open ByteString Utils UnorderedMap

/-- `HttpHeaders`: folded names to values, and folded names to cookies. -/
structure HttpHeaders where
  m_headers : UnorderedMap Str Str := ∅
  m_cookies : UnorderedMap Str Cookie := ∅

namespace HttpHeaders

instance : EmptyCollection HttpHeaders := ⟨{}⟩

@[simp] theorem m_headers_empty : (∅ : HttpHeaders).m_headers = ∅ := rfl
@[simp] theorem m_cookies_empty : (∅ : HttpHeaders).m_cookies = ∅ := rfl

/-- `HeaderConsts::COOKIE_HEADER`. -/
def COOKIE_HEADER : Str := str "cookie"

/-- `HeaderConsts::CONTENT_LENGTH`. -/
def CONTENT_LENGTH : Str := str "Content-Length"

/-- What `get_headers` returns. -/
abbrev Headers := UnorderedMap Str Str

/-! ## Cookies -/

/-- The body of the `for_each`: one `name=value`; anything else is only logged. -/
def insert_cookie (m : HttpHeaders) (cookie : Str) : HttpHeaders :=
  match views_split 61 cookie with
  | [name, value] =>
      { m with
        m_cookies := m.m_cookies.emplace (to_lowercase_str name) (Cookie.new name value) }
  | _ => m

/-- `parse_cookie`.  Nothing calls it. -/
def parse_cookie (m : HttpHeaders) (cookie : Str) : HttpHeaders :=
  ((views_split 59 cookie).map trim).foldl insert_cookie m

/-- `get_cookie`: the requested name is folded first. -/
def get_cookie (m : HttpHeaders) (name : Str) : Option Cookie :=
  m.m_cookies.find (to_lowercase_str name)

/-! ## Header lines -/

/-- The body of the loop up to the insertion: the folded name and the trimmed
    value of one line.  The value starts two bytes after the colon, and the
    iterator `begin() + pos + 2` must not be past `end()`. -/
def header_of_line (line : Str) : Except Fault (Str × Str) :=
  let header := trim line
  match find_char 58 header with
  | none => .error (.throws .header_parsing_error)
  | some pos =>
      if pos + 2 ≤ header.length then
        .ok (to_lowercase_str (header.take pos), trim (header.drop (pos + 2)))
      -- the colon is the last visible byte
      else .error .undefined

/-- The insertion of one header: the first line of a name wins.  The branch of a
    cookie line is empty. -/
def insert_header (m : HttpHeaders) (h : Str × Str) : HttpHeaders :=
  if h.1 ≠ COOKIE_HEADER then { m with m_headers := m.m_headers.emplace h.1 h.2 } else m

/-- The `while (std::getline(..))` loop. -/
def extract_headers_loop (m : HttpHeaders) : List Str → Except Fault HttpHeaders
  | [] => .ok m
  | line :: lines =>
      match header_of_line line with
      | .error f => .error f
      | .ok h => extract_headers_loop (insert_header m h) lines

/-- `extract_headers_from_str`, run on the object `m`. -/
def extract_headers_from_str (m : HttpHeaders) (raw_headers : Str) : Except Fault HttpHeaders :=
  if raw_headers = [] then .ok m else extract_headers_loop m (getlines raw_headers)

/-- `get_header`: the requested name is folded first. -/
def get_header (m : HttpHeaders) (header_name : Str) : Option Str :=
  m.m_headers.find (to_lowercase_str header_name)

/-! ## Which blocks are read to the end -/

/-- A line whose first colon is followed by at least one more visible byte. -/
def LineOk (line : Str) : Prop :=
  ∃ name rest, trim line = name ++ 58 :: rest ∧ (58 : Byte) ∉ name ∧ rest ≠ []

/-- A good line, read: name before the colon, value two bytes after it. -/
theorem header_of_line_of_split {line name : Str} {b : Byte} {rest : Str}
    (h : trim line = name ++ 58 :: b :: rest) (hn : (58 : Byte) ∉ name) :
    header_of_line line = .ok (to_lowercase_str name, trim rest) := by
  have hf : find_char 58 (trim line) = some name.length :=
    Search.find_singleton_eq_some_iff.mpr ⟨name, b :: rest, h, hn, rfl⟩
  rw [header_of_line]
  simp only [hf]
  rw [if_pos (by rw [h]; simp), h, List.take_left]
  congr 3
  rw [List.drop_length_add_append]
  rfl

theorem header_of_line_ok_iff {line : Str} :
    (∃ h, header_of_line line = .ok h) ↔ LineOk line := by
  constructor
  · rintro ⟨h, hh⟩
    unfold header_of_line at hh
    simp only at hh
    cases hf : find_char 58 (trim line) with
    | none => rw [hf] at hh; cases hh
    | some pos =>
        obtain ⟨a, b, hab, ha, rfl⟩ := Search.find_singleton_eq_some_iff.mp hf
        refine ⟨a, b, hab, ha, ?_⟩
        rintro rfl
        rw [hf] at hh
        simp only at hh
        rw [if_neg (by rw [hab]; simp)] at hh
        cases hh
  · rintro ⟨name, rest, h, hn, hne⟩
    obtain ⟨b, rest, rfl⟩ := List.exists_cons_of_ne_nil hne
    exact ⟨_, header_of_line_of_split h hn⟩

theorem extract_headers_loop_ok_iff {m : HttpHeaders} {lines : List Str} :
    (∃ m', extract_headers_loop m lines = .ok m') ↔ ∀ line ∈ lines, LineOk line := by
  induction lines generalizing m with
  | nil => simp [extract_headers_loop]
  | cons line lines ih =>
      rw [List.forall_mem_cons, ← header_of_line_ok_iff]
      rw [extract_headers_loop]
      cases hh : header_of_line line with
      | error f => simp
      | ok h =>
          simp only [Except.ok.injEq, exists_eq', true_and]
          exact ih

/-- **READ TO THE END**: the blocks that neither throw nor step past a line. -/
theorem extract_headers_ok_iff {m : HttpHeaders} {block : Str} :
    (∃ m', extract_headers_from_str m block = .ok m')
      ↔ ∀ line ∈ getlines block, LineOk line := by
  rw [extract_headers_from_str]
  by_cases hb : block = []
  · subst hb
    have : getlines [] = [] := rfl
    simp [this]
  · rw [if_neg hb]
    exact extract_headers_loop_ok_iff

/-! ## The value of one header -/

/-- The value of the first line that carries the folded name `n`. -/
def first_value (n : Str) (lines : List Str) : Option Str :=
  lines.findSome? fun line =>
    match header_of_line line with
    | .ok h => if h.1 = n then some h.2 else none
    | .error _ => none

theorem extract_headers_loop_find {m m' : HttpHeaders} {lines : List Str} {n : Str}
    (hn : n ≠ COOKIE_HEADER) (h : extract_headers_loop m lines = .ok m') :
    m'.m_headers.find n = (m.m_headers.find n).or (first_value n lines) := by
  -- over the lines, for every map: what a line finds in the map stays
  induction lines generalizing m with
  | nil =>
      obtain rfl : m = m' := Except.ok.inj h
      simp [first_value]
  | cons line lines ih =>
      rw [extract_headers_loop] at h
      cases hh : header_of_line line with
      | error f => rw [hh] at h; cases h
      | ok hd =>
          rw [hh] at h
          rw [ih h]
          have hfirst : first_value n (line :: lines)
              = (if hd.1 = n then some hd.2 else none).or (first_value n lines) := by
            simp only [first_value]
            rw [List.findSome?_cons]
            simp only [hh]
            by_cases hc : hd.1 = n <;> simp [hc]
          rw [hfirst, ← Option.or_assoc]
          congr 1
          rw [insert_header]
          by_cases hc : hd.1 = COOKIE_HEADER
          · simp [hc, Ne.symm hn]
          · rw [if_pos hc, find_emplace]
            by_cases he : hd.1 = n
            · subst he
              cases hm : m.m_headers.find hd.1 <;> simp
            · simp [he, Ne.symm he]

/-- Reading a block into an empty object: a name has the value of its first
    line. -/
theorem extract_headers_find {m : HttpHeaders} {block n : Str}
    (hn : n ≠ COOKIE_HEADER) (h : extract_headers_from_str ∅ block = .ok m) :
    m.m_headers.find n = first_value n (getlines block) := by
  rw [extract_headers_from_str] at h
  by_cases hb : block = []
  · rw [if_pos hb] at h
    obtain rfl : ∅ = m := Except.ok.inj h
    subst hb
    rfl
  · rw [if_neg hb] at h
    rw [extract_headers_loop_find hn h, m_headers_empty, find_empty, Option.none_or]

/-! ## What no line changes -/

theorem extract_headers_loop_preserves {P : HttpHeaders → Prop}
    (hstep : ∀ m h, P m → P (insert_header m h)) {m m' : HttpHeaders} {lines : List Str}
    (h : extract_headers_loop m lines = .ok m') (hm : P m) : P m' := by
  induction lines generalizing m with
  | nil => exact Except.ok.inj h ▸ hm
  | cons line lines ih =>
      rw [extract_headers_loop] at h
      cases hh : header_of_line line with
      | error f => rw [hh] at h; cases h
      | ok hd =>
          rw [hh] at h
          exact ih h (hstep m hd hm)

/-- **INVARIANTS OF A BLOCK**: what one insertion preserves, a block preserves. -/
theorem extract_headers_preserves {P : HttpHeaders → Prop}
    (hstep : ∀ m h, P m → P (insert_header m h)) {m m' : HttpHeaders} {block : Str}
    (h : extract_headers_from_str m block = .ok m') (hm : P m) : P m' := by
  rw [extract_headers_from_str] at h
  by_cases hb : block = []
  · rw [if_pos hb] at h
    exact Except.ok.inj h ▸ hm
  · rw [if_neg hb] at h
    exact extract_headers_loop_preserves hstep h hm

/-- **NO LINE SETS A COOKIE**, whatever its name is. -/
theorem extract_headers_m_cookies {m m' : HttpHeaders} {block : Str}
    (h : extract_headers_from_str m block = .ok m') : m'.m_cookies = m.m_cookies := by
  refine extract_headers_preserves (P := fun m' => m'.m_cookies = m.m_cookies) ?_ h rfl
  intro m₁ hd hm
  rw [insert_header]
  split
  · exact hm
  · exact hm

theorem insert_header_cookie (m : HttpHeaders) (h : Str × Str) :
    (insert_header m h).m_headers.find COOKIE_HEADER = m.m_headers.find COOKIE_HEADER := by
  rw [insert_header]
  by_cases hc : h.1 = COOKIE_HEADER
  · rw [if_neg (by simpa using hc)]
  · rw [if_pos hc, find_emplace, if_neg (Ne.symm hc)]

/-- A cookie line is read and forgotten. -/
theorem extract_headers_cookie {m : HttpHeaders} {block : Str}
    (h : extract_headers_from_str ∅ block = .ok m) : m.m_headers.find COOKIE_HEADER = none := by
  refine extract_headers_preserves (P := fun m => m.m_headers.find COOKIE_HEADER = none) ?_ h
    (find_empty _)
  exact fun m₁ hd hm => (insert_header_cookie m₁ hd).trans hm

end HttpHeaders

end WebLib
