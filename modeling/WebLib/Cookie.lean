import WebLib.ByteString

/-! # Cookies

    A cookie is a name, a value and the attributes a response may add; the text
    of a response cookie is `name=value` with the attributes that are set, the
    `SameSite` one always last. -/

namespace WebLib

open ByteString

inductive SameSite where
  | None
  | Lax
  | Strict
deriving DecidableEq, Repr

/-- The `CookieConsts::SAME_SITE_...` of a policy. -/
def SameSite.text : SameSite → Str
  | .Lax => str "Lax"
  | .Strict => str "Strict"
  | .None => str "None"

/-- `Cookie{name, value}` leaves the other members at their defaults; the setters
    of the attributes set `m_response_cookie`. -/
structure Cookie where
  m_name : Str := []
  m_value : Str := []
  m_httpOnly : Bool := false
  m_secure : Bool := false
  m_max_age : Option Int := none
  m_path : Str := []
  m_domain : Str := []
  m_samesite : SameSite := .None
  m_response_cookie : Bool := false
deriving DecidableEq, Repr

namespace Cookie

/-- The constructor. -/
def new (key val : Str) : Cookie := { m_name := key, m_value := val }

/-- `find_last_of(c)`. -/
def find_last_of (c : Byte) (s : Str) : Option Nat :=
  (find_char c s.reverse).map fun i => s.length - 1 - i

/-- The attributes of a response cookie, `"; "` between them. -/
def attributes (cookie : Cookie) : Str :=
  (match cookie.m_max_age with
    | some n => str "Max-Age=" ++ str (toString n) ++ str "; "
    | none => [])
  ++ (if cookie.m_secure then str "Secure; " else [])
  ++ (if cookie.m_httpOnly then str "HttpOnly; " else [])
  ++ (if cookie.m_path.isEmpty then [] else str "Path=" ++ cookie.m_path ++ str "; ")
  ++ (if cookie.m_domain.isEmpty then [] else str "Domain=" ++ cookie.m_domain ++ str "; ")
  ++ str "SameSite=" ++ cookie.m_samesite.text

/-- "If ended with ; truncate it". -/
def truncate (cookie : Str) : Except Exn Str :=
  let col_pos := (find_last_of 59 cookie).getD npos
  if size_sub cookie.length 2 ≤ col_pos then
    if col_pos ≤ cookie.length then .ok (cookie.take col_pos) else .error .out_of_range
  else .ok cookie

def to_string (cookie : Cookie) : Except Exn Str :=
  if cookie.m_name.isEmpty || cookie.m_value.isEmpty then .error .empty_cookie
  else
    let text := cookie.m_name ++ str "=" ++ cookie.m_value
    if cookie.m_response_cookie then truncate (text ++ str "; " ++ cookie.attributes ++ str "; ")
    else .ok text

/-- The last `;` of a text that ends with `"; "` is cut off with the blank. -/
theorem truncate_append (s : Str) : truncate (s ++ str "; ") = .ok s := by
  have hlast : find_last_of 59 (s ++ str "; ") = some s.length := by
    have hfind : find_char 59 (s ++ str "; ").reverse = some 1 := by
      rw [List.reverse_append]
      rfl
    rw [find_last_of, hfind]
    simp [show (str "; ").length = 2 from rfl]
  have hsub : size_sub (s ++ str "; ").length 2 = s.length := by
    rw [size_sub, if_pos (by simp [str]), List.length_append]
    rfl
  rw [truncate, hlast, hsub]
  simp

/-- A cookie that `to_string` does not throw on. -/
def Filled (cookie : Cookie) : Prop := cookie.m_name ≠ [] ∧ cookie.m_value ≠ []

instance (cookie : Cookie) : Decidable cookie.Filled :=
  inferInstanceAs (Decidable (_ ∧ _))

/-- **THE TEXT OF A COOKIE**: the truncation takes exactly what the last
    attribute left over. -/
theorem to_string_of_filled {cookie : Cookie} (h : cookie.Filled) :
    cookie.to_string = .ok (cookie.m_name ++ str "=" ++ cookie.m_value
      ++ if cookie.m_response_cookie then str "; " ++ cookie.attributes else []) := by
  have hne : (cookie.m_name.isEmpty || cookie.m_value.isEmpty) = false := by
    simp [h.1, h.2]
  rw [to_string, hne, if_neg (by simp)]
  cases cookie.m_response_cookie with
  | true => simp only [if_true, truncate_append]; simp only [List.append_assoc]
  | false => simp

theorem filled_of_to_string {cookie : Cookie} {text : Str} (h : cookie.to_string = .ok text) :
    cookie.Filled := by
  rw [to_string] at h
  split at h
  · cases h
  · next hne => simpa [Filled] using hne

/-- No text the caller gave the cookie has a line end. -/
structure OneLine (cookie : Cookie) : Prop where
  name : ByteString.OneLine cookie.m_name
  value : ByteString.OneLine cookie.m_value
  path : ByteString.OneLine cookie.m_path
  domain : ByteString.OneLine cookie.m_domain

instance (cookie : Cookie) : Decidable cookie.OneLine :=
  decidable_of_iff (ByteString.OneLine cookie.m_name ∧ ByteString.OneLine cookie.m_value
      ∧ ByteString.OneLine cookie.m_path ∧ ByteString.OneLine cookie.m_domain)
    ⟨fun h => ⟨h.1, h.2.1, h.2.2.1, h.2.2.2⟩, fun h => ⟨h.name, h.value, h.path, h.domain⟩⟩

theorem OneLine.attributes {cookie : Cookie} (h : cookie.OneLine) :
    ByteString.OneLine cookie.attributes := by
  have hsame : ByteString.OneLine cookie.m_samesite.text := by
    cases cookie.m_samesite <;> decide
  simp only [Cookie.attributes, oneLine_append]
  refine ⟨⟨⟨⟨⟨⟨?_, ?_⟩, ?_⟩, ?_⟩, ?_⟩, by decide⟩, hsame⟩
  · cases cookie.m_max_age with
    | none => exact oneLine_nil
    | some n => exact oneLine_append.mpr ⟨oneLine_append.mpr ⟨by decide, oneLine_of_int n⟩, by decide⟩
  · cases cookie.m_secure <;> decide
  · cases cookie.m_httpOnly <;> decide
  · split
    · exact oneLine_nil
    · exact oneLine_append.mpr ⟨oneLine_append.mpr ⟨by decide, h.path⟩, by decide⟩
  · split
    · exact oneLine_nil
    · exact oneLine_append.mpr ⟨oneLine_append.mpr ⟨by decide, h.domain⟩, by decide⟩

/-- The text of such a cookie has no line end. -/
theorem OneLine.to_string {cookie : Cookie} (h : cookie.OneLine) {text : Str}
    (ht : cookie.to_string = .ok text) : ByteString.OneLine text := by
  rw [to_string_of_filled (filled_of_to_string ht)] at ht
  cases ht
  simp only [oneLine_append]
  refine ⟨⟨⟨h.name, by decide⟩, h.value⟩, ?_⟩
  split
  · exact oneLine_append.mpr ⟨by decide, h.attributes⟩
  · exact oneLine_nil

end Cookie

end WebLib
