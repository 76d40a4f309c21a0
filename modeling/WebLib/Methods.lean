import WebLib.Filters
import WebLib.RequestLine

/-! # Methods and routes

    A route is registered with the methods it serves, and a request asks for one
    by a token of its own spelling.  The token is mapped to a `RequestType`
    first, and whatever is not one of the five names is mapped to `GET`.  So a
    handler sees the tokens of its methods, and, if `GET` is among them, every
    unknown token as well. -/

namespace WebLib.HttpRouter

open WebLib ByteString Utils UnorderedMap HttpBinder HttpRequest

variable {Handler Filter : Type}

/-! ## Tokens -/

/-- The token names one of the types, or it names none at all and `GET` is one of
    them. -/
def Admits (types : List RequestType) (token : Str) : Prop :=
  (∃ type ∈ types, token = req_type_to_str type)
    ∨ ((∀ type, token ≠ req_type_to_str type) ∧ .GET ∈ types)

/-- A token is the name of its type, or it is unknown and counts as `GET`. -/
theorem req_type_from_str_cases (token : Str) :
    token = req_type_to_str (req_type_from_str token)
      ∨ ((∀ type, token ≠ req_type_to_str type) ∧ req_type_from_str token = .GET) := by
  by_cases hknown : ∃ type, token = req_type_to_str type
  · obtain ⟨type, rfl⟩ := hknown
    rw [req_type_from_to]
    exact Or.inl rfl
  · have hne : ∀ type, token ≠ req_type_to_str type := fun type he => hknown ⟨type, he⟩
    refine Or.inr ⟨hne, ?_⟩
    have hget : token ≠ METHOD_GET := hne .GET
    have hpost : token ≠ METHOD_POST := hne .POST
    have hoptions : token ≠ METHOD_OPTIONS := hne .OPTIONS
    have hput : token ≠ METHOD_PUT := hne .PUT
    have hdelete : token ≠ METHOD_DELETE := hne .DELETE
    rw [req_type_from_str, if_neg hget, if_neg hpost, if_neg hoptions, if_neg hput,
      if_neg hdelete]

theorem mem_types_iff {types : List RequestType} {token : Str} :
    req_type_from_str token ∈ types ↔ Admits types token := by
  constructor
  · intro hmem
    rcases req_type_from_str_cases token with hname | ⟨hne, hget⟩
    · exact Or.inl ⟨_, hmem, hname⟩
    · exact Or.inr ⟨hne, hget ▸ hmem⟩
  · rintro (⟨type, hmem, rfl⟩ | ⟨hne, hmem⟩)
    · rwa [req_type_from_to]
    · rcases req_type_from_str_cases token with hname | ⟨-, hget⟩
      · exact absurd hname (hne _)
      · rwa [hget]

/-! ## Where a route comes from -/

theorem register_handler_find {m_handles : Handles Handler Filter} {endpoint_name k : Str}
    {handler : Option Handler} {types : List RequestType} {handle : HttpHandle Handler Filter}
    (h : (register_handler m_handles endpoint_name handler types).1.find k = some handle) :
    m_handles.find k = some handle ∨ handle = handle_obj endpoint_name handler types := by
  rw [register_handler] at h
  split at h
  · exact Or.inl h
  · split at h
    · exact Or.inl h
    · next key _ =>
        rw [find_emplace] at h
        split at h
        · next hk =>
            rw [hk]
            cases hold : m_handles.find key with
            | none =>
                rw [hold, Option.getD_none] at h
                exact Or.inr (Option.some.inj h).symm
            | some old =>
                rw [hold, Option.getD_some] at h
                exact Or.inl h
        · exact Or.inl h

/-- **ONE CALL MADE IT**: the template, the handler and the methods of a route come
    from one registration. -/
theorem registry_handle (calls : List (Registration Handler Filter)) :
    ∀ key handle, (registry calls).m_handles.find key = some handle →
      .handler handle.m_path handle.m_handle handle.m_methods ∈ calls := by
  induction calls using List.reverseRecOn with
  | nil =>
      intro key handle h
      cases (find_empty key).symm.trans h
  | append_singleton calls call ih =>
      intro key handle h
      rw [registry, List.foldl_append, List.foldl_cons, List.foldl_nil] at h
      change ((registry calls).call call).m_handles.find key = some handle at h
      cases call with
      | handler endpoint_name handler types =>
          rcases register_handler_find h with hold | rfl
          · exact List.mem_append_left _ (ih key handle hold)
          · rw [handle_obj_eq]
            exact List.mem_append_right _ List.mem_cons_self
      | filter route filter =>
          rcases (registry calls).call_filter_cases route filter with heq | ⟨k, old, hold, heq⟩
          · rw [heq] at h
            exact List.mem_append_left _ (ih key handle h)
          · -- a filter changes neither template, handler nor methods
            rw [heq, find_assign] at h
            split at h
            · obtain rfl := Option.some.inj h
              exact List.mem_append_left _ (ih k old hold)
            · exact List.mem_append_left _ (ih key handle h)

/-! ## Requests -/

variable (platform : Platform) (user : UserCode Handler Filter)

/-- The method of a request line is the text before its first space. -/
theorem method_of_parse {raw_http method path : Str}
    (h : parse_request_line raw_http = .ok (method, path)) : method_of raw_http = method := by
  obtain ⟨rest, rfl, hm, -⟩ := parse_request_line_ok_iff.mp h
  have hfind : Search.find [32] (method ++ 32 :: (path ++ 32 :: rest)) = some method.length :=
    Search.find_singleton_append hm _
  rw [method_of, find_pos, hfind, Option.getD_some, List.take_left]

/-- **METHODS ARE HONOURED**: a handler is invoked for a route that was registered
    with it and matches the path, and the methods of that registration admit
    the token of the request. -/
theorem method_admitted (calls : List (Registration Handler Filter)) {raw_http : Str}
    {script : List SendOutcome} {h : Handler} {req : HttpRequest}
    (he : .handler h req
      ∈ (process_request platform user (registry calls).m_handles raw_http script).events) :
    ∃ endpoint_name types, .handler endpoint_name (some h) types ∈ calls
      ∧ Admits types (method_of raw_http)
      ∧ ∃ path key, parse_request_line raw_http = .ok (method_of raw_http, path)
        ∧ process_url_str endpoint_name = .ok key ∧ match_path key path = .ok true := by
  rw [process_request] at he
  split at he
  · cases he
  · next method path hparse =>
      rw [handle_request_events] at he
      obtain ⟨handle, hfound, hh, -, -⟩ := attempt_handler platform user he
      obtain ⟨key, hkey, hmethod, hmatch⟩ := find_handle_some hfound
      have hmem : req_type_from_str method ∈ handle.m_methods := by
        simpa [HttpHandle.has_method] using hmethod
      have hcall := registry_handle calls key handle hkey
      rw [hh] at hcall
      rw [method_of_parse hparse]
      exact ⟨handle.m_path, handle.m_methods, hcall, mem_types_iff.mp hmem, path, key, hparse,
        (registry_sound calls).path key handle hkey, hmatch⟩

/-- A `GET` request. -/
theorem method_admitted_sample : ∃ endpoint_name types,
    .handler endpoint_name (some 3) types ∈ sample_calls ∧ Admits types (method_of sample_raw) := by
  obtain ⟨req, hev⟩ : ∃ req, (process_request sample_platform sample_user
      (registry sample_calls).m_handles sample_raw [.accepted 100]).events
        = [.filter (some 2) req (.ok true), .filter (some 4) req (.ok true), .handler 3 req] :=
    ⟨_, rfl⟩
  have he : .handler 3 req ∈ (process_request sample_platform sample_user
      (registry sample_calls).m_handles sample_raw [.accepted 100]).events := by
    rw [hev]
    simp
  obtain ⟨endpoint_name, types, hcall, hadmits, -⟩ :=
    method_admitted sample_platform sample_user sample_calls he
  exact ⟨endpoint_name, types, hcall, hadmits⟩

/-- A request with a token that is no method's name. -/
def unknown_method : Str := str "FOO /a HTTP/1.1\r\nHost: w\r\n\r\n"

/-- It reaches the handler of a route for `GET`. -/
theorem unknown_method_handled : method_of unknown_method = str "FOO"
    ∧ (∀ type, str "FOO" ≠ req_type_to_str type)
    ∧ ∃ req, .handler 3 req ∈ (process_request sample_platform sample_user
        (registry sample_calls).m_handles unknown_method [.accepted 100]).events := by
  refine ⟨by decide, fun type => by cases type <;> decide, ?_⟩
  obtain ⟨req, hev⟩ : ∃ req, (process_request sample_platform sample_user
      (registry sample_calls).m_handles unknown_method [.accepted 100]).events
        = [.filter (some 2) req (.ok true), .filter (some 4) req (.ok true), .handler 3 req] :=
    ⟨_, rfl⟩
  exact ⟨req, by rw [hev]; simp⟩

end WebLib.HttpRouter
