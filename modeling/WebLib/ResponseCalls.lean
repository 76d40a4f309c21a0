import WebLib.HttpResponse
import WebLib.Cookie

/-! # The mutators of a response

    A response is what a sequence of calls made of a new one; a call that throws
    leaves it as it was.  What a call does to the header map is one assignment
    or one erasure of one key, spelled exactly so (`Call.touch`); the lookups
    after a sequence are the last touches of their keys. -/

namespace WebLib

open ByteString UnorderedMap

universe u

def SET_COOKIE : Str := str "Set-Cookie"

/-- `HeaderType`; a `std::uint8_t` that is none of the enumerators is `other`. -/
inductive HeaderType where
  | CONTENT_TYPE
  | CONTENT_LENGTH
  | CACHE_CONTROL
  | EXPIRES
  | SET_COOKIE
  | LOCATION
  | SERVER
  | ACCEPT
  | USER_AGENT
  | HOST
  | ACCEPT_LANGUAGE
  | other
deriving DecidableEq, Repr

/-- The `HeaderConsts` name of a type. -/
def HeaderType.name : HeaderType → Option Str
  | .CONTENT_TYPE => some WebLib.CONTENT_TYPE
  | .CONTENT_LENGTH => some CONTENT_LENGTH_HEADER
  | .CACHE_CONTROL => some (str "Cache-Control")
  | .EXPIRES => some (str "Expires")
  | .SET_COOKIE => some WebLib.SET_COOKIE
  | .LOCATION => some (str "Location")
  | .SERVER => some (str "Server")
  | .ACCEPT => some (str "Accept")
  | .USER_AGENT => some (str "User-Agent")
  | .HOST => some (str "Host")
  | .ACCEPT_LANGUAGE => some (str "Accept-Language")
  | .other => none

namespace HttpResponse

/-- `set_header` by name. -/
def set_header (resp : HttpResponse) (name value : Str) : Except Exn HttpResponse :=
  if name = SET_COOKIE then .error (.runtime_error (str "Use add_cookie() instead!"))
  else .ok { resp with m_headers := resp.m_headers.assign name value }

def set_cookie (resp : HttpResponse) (cookie : Cookie) : Except Exn HttpResponse :=
  cookie.to_string.map fun cookie_str =>
    { resp with m_headers := resp.m_headers.assign SET_COOKIE cookie_str }

/-- `set_header` by type. -/
def set_header_of_type (resp : HttpResponse) (header_type : HeaderType) (value : Str) :
    Except Exn HttpResponse :=
  match header_type.name with
  | some name => .ok { resp with m_headers := resp.m_headers.assign name value }
  | none => .error (.runtime_error (str "Use set_header(string)"))

def remove_header (resp : HttpResponse) (name : Str) : HttpResponse :=
  { resp with m_headers := resp.m_headers.erase name }

/-- `Json::writeString` is the parameter. -/
def set_body_json {Json : Type u} (writeString : Json → Str) (resp : HttpResponse)
    (json_obj : Json) : HttpResponse :=
  resp.set_body (writeString json_obj)

def set_version (resp : HttpResponse) (http_ver : Str) : HttpResponse :=
  { resp with m_http_version := http_ver }

def set_custom_message (resp : HttpResponse) (msg : Str) : HttpResponse :=
  { resp with m_status_message := msg }

/-- A call of a mutator with its arguments. -/
inductive Call (Json : Type u) where
  | set_header (name value : Str)
  | set_header_of_type (header_type : HeaderType) (value : Str)
  | remove_header (name : Str)
  | set_content_type (type : ContentType)
  | set_cookie (cookie : Cookie)
  | set_body (text : Str)
  | set_body_json (json_obj : Json)
  | set_status (status_code : Int)
  | set_custom_message (msg : Str)
  | set_version (http_ver : Str)

variable {Json : Type u} (writeString : Json → Str)

def Call.run (resp : HttpResponse) : Call Json → Except Exn HttpResponse
  | .set_header name value => resp.set_header name value
  | .set_header_of_type header_type value => resp.set_header_of_type header_type value
  | .remove_header name => .ok (resp.remove_header name)
  | .set_content_type type => .ok (resp.set_content_type type)
  | .set_cookie cookie => resp.set_cookie cookie
  | .set_body text => .ok (resp.set_body text)
  | .set_body_json json_obj => .ok (resp.set_body_json writeString json_obj)
  | .set_status status_code => .ok (resp.set_status status_code)
  | .set_custom_message msg => .ok (resp.set_custom_message msg)
  | .set_version http_ver => .ok (resp.set_version http_ver)

/-- A call that throws leaves the response as it was. -/
def Call.after (resp : HttpResponse) (call : Call Json) : HttpResponse :=
  match call.run writeString resp with
  | .ok resp' => resp'
  | .error _ => resp

/-- The response that a sequence of calls makes of a new one. -/
def after (calls : List (Call Json)) : HttpResponse := calls.foldl (Call.after writeString) {}

theorem after_concat (calls : List (Call Json)) (call : Call Json) :
    after writeString (calls ++ [call]) = call.after writeString (after writeString calls) := by
  rw [after, List.foldl_append]
  rfl

/-! ## What a call does to the header map -/

/-- The key a call touches, with the value it assigns or nothing if it erases. -/
def Call.touch : Call Json → Option (Str × Option Str)
  | .set_header name value => if name = SET_COOKIE then none else some (name, some value)
  | .set_header_of_type header_type value => header_type.name.map fun name => (name, some value)
  | .remove_header name => some (name, none)
  | .set_content_type type => some (CONTENT_TYPE, some type.text)
  | .set_cookie cookie => cookie.to_string.toOption.map fun text => (SET_COOKIE, some text)
  | .set_body _ | .set_body_json _ | .set_status _ | .set_custom_message _ | .set_version _ => none

/-- What a touch does to the header map. -/
def touched (m : UnorderedMap Str Str) : Option (Str × Option Str) → UnorderedMap Str Str
  | some (name, some value) => m.assign name value
  | some (name, none) => m.erase name
  | none => m

/-- What a call does besides. -/
def Call.beside (resp : HttpResponse) : Call Json → HttpResponse
  | .set_body text => resp.set_body text
  | .set_body_json json_obj => resp.set_body_json writeString json_obj
  | .set_status status_code => resp.set_status status_code
  | .set_custom_message msg => resp.set_custom_message msg
  | .set_version http_ver => resp.set_version http_ver
  | .set_header _ _ | .set_header_of_type _ _ | .remove_header _ | .set_content_type _
  | .set_cookie _ => resp

/-- **WHAT A CALL DOES**: its touch, and nothing when it throws. -/
theorem after_eq (resp : HttpResponse) (call : Call Json) :
    call.after writeString resp
      = { call.beside writeString resp with m_headers := touched resp.m_headers call.touch } := by
  cases call with
  | set_header name value =>
      simp only [Call.after, Call.run, HttpResponse.set_header, Call.touch]
      by_cases hname : name = SET_COOKIE
      · rw [if_pos hname, if_pos hname]
        rfl
      · rw [if_neg hname, if_neg hname]
        rfl
  | set_header_of_type header_type value =>
      simp only [Call.after, Call.run, HttpResponse.set_header_of_type, Call.touch]
      cases header_type.name <;> rfl
  | set_cookie cookie =>
      simp only [Call.after, Call.run, HttpResponse.set_cookie, Call.touch]
      cases cookie.to_string <;> rfl
  | _ => rfl

theorem find_touched (m : UnorderedMap Str Str) (t : Option (Str × Option Str)) (n : Str) :
    (touched m t).find n = match t with
      | some (name, value) => if n = name then value else m.find n
      | none => m.find n := by
  cases t with
  | none => rfl
  | some t =>
      obtain ⟨name, value⟩ := t
      cases value with
      | some value => exact find_assign m name n value
      | none => exact find_erase m name n

/-- The value the calls leave under a key: that of its last touch, or the one a
    new response has. -/
def in_place (calls : List (Call Json)) (n : Str) : Option Str :=
  (calls.reverse.findSome? fun call =>
    match call.touch with
    | some (name, value) => if n = name then some value else none
    | none => none).getD (({} : HttpResponse).m_headers.find n)

theorem find_after (calls : List (Call Json)) (n : Str) :
    (after writeString calls).m_headers.find n = in_place calls n := by
  induction calls using List.reverseRecOn with
  | nil => rfl
  | append_singleton calls call ih =>
      rw [after_concat, after_eq, find_touched, in_place, List.reverse_concat,
        List.findSome?_cons]
      cases call.touch with
      | none => exact ih
      | some t =>
          by_cases hn : n = t.1
          · simp [hn]
          · simp only [if_neg hn]
            exact ih

end HttpResponse

end WebLib
