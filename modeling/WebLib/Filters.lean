import WebLib.HttpRouter

/-! # Filters guard their route

    A filter and a handler meet only through the normal form of the template
    they were registered with.  The filters that registrations handed over are
    logged next to the table, and the invariant is that the table has exactly
    the logged filters under every key.  `handle_request` then invokes a handler
    as the last thing it evaluates, after every filter of its route. -/

namespace WebLib.HttpRouter

open WebLib ByteString Utils UnorderedMap HttpBinder

variable {Handler Filter : Type}

/-! ## Registrations, with the filters that were accepted -/

/-- The table, and the key and filter of every `register_filter` that returned. -/
structure Registry (Handler Filter : Type) where
  m_handles : Handles Handler Filter
  filters : List (Str × Option Filter)

/-- One call, which may throw. -/
def Registry.call (r : Registry Handler Filter) : Registration Handler Filter →
    Registry Handler Filter
  | .handler endpoint_name handler types =>
      { r with m_handles := (register_handler r.m_handles endpoint_name handler types).1 }
  | .filter route filter =>
      let done := register_filter r.m_handles route filter
      match done.2, process_url_str route with
      | .ok (), .ok key => ⟨done.1, r.filters ++ [(key, filter)]⟩
      | _, _ => { r with m_handles := done.1 }

/-- A sequence of calls on an empty table. -/
def registry (calls : List (Registration Handler Filter)) : Registry Handler Filter :=
  calls.foldl Registry.call ⟨∅, []⟩

/-- The filters accepted for a key, in order. -/
def Registry.filters_of (r : Registry Handler Filter) (key : Str) : List (Option Filter) :=
  (r.filters.filter fun kf => kf.1 = key).map Prod.snd

theorem Registry.mem_filters_of {r : Registry Handler Filter} {key : Str} {f : Option Filter} :
    f ∈ r.filters_of key ↔ (key, f) ∈ r.filters := by
  simp [filters_of]

/-- A handle has the filters accepted for its key and the template it is
    registered under; a key without a handle has no filters. -/
structure Registry.Sound (r : Registry Handler Filter) : Prop where
  filters : ∀ key handle, r.m_handles.find key = some handle →
    handle.m_filters = r.filters_of key
  absent : ∀ key, r.m_handles.find key = none → r.filters_of key = []
  path : ∀ key handle, r.m_handles.find key = some handle →
    process_url_str handle.m_path = .ok key

theorem Registry.Sound.register_handler {r : Registry Handler Filter} (h : r.Sound)
    (endpoint_name : Str) (handler : Option Handler) (types : List RequestType) :
    (r.call (.handler endpoint_name handler types)).Sound := by
  rw [Registry.call, HttpBinder.register_handler]
  split
  · exact h
  · split
    · exact h
    · next key hkey =>
        by_cases hmem : key ∈ r.m_handles
        · rw [emplace_of_mem _ hmem]
          exact h
        · have hnone := find_eq_none_iff.mpr hmem
          have hfind : ∀ k, (r.m_handles.emplace key
              (handle_obj endpoint_name handler types)).find k
              = if k = key then some (handle_obj endpoint_name handler types)
                else r.m_handles.find k := by
            intro k
            rw [find_emplace, hnone, Option.getD_none]
          refine ⟨?_, ?_, PathsNormal.emplace h.path hkey handler types⟩
          · intro k handle hk
            simp only [hfind] at hk
            split at hk
            · next hkk =>
                -- a new handle has no filters, and none was accepted before it
                cases hk
                rw [handle_obj_eq, hkk]
                exact (h.absent key hnone).symm
            · exact h.filters k handle hk
          · intro k hk
            simp only [hfind] at hk
            split at hk
            · cases hk
            · exact h.absent k hk

/-- `register_filter` fails and changes nothing, or adds the filter to the handle
    of its key and to the log. -/
theorem Registry.call_filter_cases (r : Registry Handler Filter) (route : Str)
    (filter : Option Filter) :
    r.call (.filter route filter) = r
      ∨ ∃ key handle, r.m_handles.find key = some handle
          ∧ r.call (.filter route filter)
            = ⟨r.m_handles.assign key (handle.add_filter filter), r.filters ++ [(key, filter)]⟩ := by
  cases hkey : process_url_str route with
  | error f => exact Or.inl (by simp only [call, register_filter, hkey])
  | ok key =>
      cases hfind : r.m_handles.find key with
      | none => exact Or.inl (by simp only [call, register_filter, hkey, hfind])
      | some handle =>
          exact Or.inr ⟨key, handle, hfind, by simp only [call, register_filter, hkey, hfind]⟩

theorem Registry.Sound.register_filter {r : Registry Handler Filter} (h : r.Sound)
    (route : Str) (filter : Option Filter) : (r.call (.filter route filter)).Sound := by
  rcases r.call_filter_cases route filter with heq | ⟨key, handle, hfind, heq⟩
  · rw [heq]
    exact h
  rw [heq]
  have hnew : ∀ k, (⟨r.m_handles.assign key (handle.add_filter filter),
      r.filters ++ [(key, filter)]⟩ : Registry Handler Filter).filters_of k
      = r.filters_of k ++ if k = key then [filter] else [] := by
    intro k
    by_cases hk : k = key
    · simp [Registry.filters_of, hk]
    · simp [Registry.filters_of, hk, Ne.symm hk]
  refine ⟨?_, ?_, PathsNormal.assign h.path hfind filter⟩
  · intro k handle' hk
    rw [hnew]
    rw [find_assign] at hk
    split at hk
    · next hkk =>
        cases hk
        rw [if_pos hkk, hkk, ← h.filters key handle hfind]
        rfl
    · next hkk =>
        rw [if_neg hkk, List.append_nil]
        exact h.filters k handle' hk
  · intro k hk
    rw [hnew]
    rw [find_assign] at hk
    split at hk
    · cases hk
    · next hkk =>
        rw [if_neg hkk, List.append_nil]
        exact h.absent k hk

/-- **THE INVARIANT OF REGISTRATION**, over any calls. -/
theorem registry_sound (calls : List (Registration Handler Filter)) : (registry calls).Sound := by
  have hfold : ∀ (calls : List (Registration Handler Filter)) (r : Registry Handler Filter),
      r.Sound → (calls.foldl Registry.call r).Sound := by
    intro calls
    induction calls with
    | nil => intro r h; exact h
    | cons call calls ih =>
        intro r h
        rw [List.foldl_cons]
        refine ih _ ?_
        cases call with
        | handler endpoint_name handler types => exact h.register_handler endpoint_name handler types
        | filter route filter => exact h.register_filter route filter
  refine hfold calls _ ⟨?_, fun _ _ => rfl, ?_⟩
  · intro key handle hk
    rw [find_empty] at hk
    cases hk
  · intro key handle hk
    rw [find_empty] at hk
    cases hk

/-! ## What is evaluated -/

variable (platform : Platform) (user : UserCode Handler Filter)

/-- The catch clause evaluates nothing. -/
theorem handle_request_events (m_handles : Handles Handler Filter) (path raw_http : Str)
    (request_type : RequestType) (script : List SendOutcome) :
    (handle_request platform user m_handles path raw_http request_type script).events
      = (attempt platform user m_handles path raw_http request_type script).events := by
  rw [handle_request]
  simp only
  split
  · split <;> rfl
  · rfl

/-- **A HANDLER COMES LAST**: it belongs to the handle that was found, gets the
    request built for it, and every filter of the handle has passed before. -/
theorem attempt_handler {m_handles : Handles Handler Filter} {path raw_http : Str}
    {request_type : RequestType} {script : List SendOutcome} {h : Handler} {req : HttpRequest}
    (he : .handler h req
      ∈ (attempt platform user m_handles path raw_http request_type script).events) :
    ∃ handle, find_handle m_handles path request_type = .ok (some handle)
      ∧ handle.m_handle = some h
      ∧ HttpRequest.construct raw_http handle.m_path handle.m_parameters = .ok req
      ∧ (attempt platform user m_handles path raw_http request_type script).events
        = (handle.m_filters.map fun f => .filter f req (.ok true)) ++ [.handler h req] := by
  have hcases := attempt_cases platform user m_handles path raw_http request_type script
  generalize attempt platform user m_handles path raw_http request_type script = r at he hcases ⊢
  -- a filter's event is no handler's
  have hfilter : ∀ {req' : HttpRequest} {m_filters : List (Option Filter)},
      .handler h req ∉ (pass_middlewares user req' m_filters).1 := by
    intro req' m_filters hmem
    obtain ⟨f, v, hev, -⟩ := pass_middlewares_event user hmem
    cases hev
  cases hcases with
  | lookup_fault hf => cases he
  | no_route hf => cases he
  | bad_request hf hc => cases he
  | filter_throws hf hc hp => exact absurd he hfilter
  | refused hf hc hp => exact absurd he hfilter
  | no_handler hf hc hp hh => exact absurd he hfilter
  | handled hf hc hp hh =>
      rcases List.mem_append.mp he with hmem | hmem
      · exact absurd hmem hfilter
      · cases List.mem_singleton.mp hmem
        exact ⟨_, hf, hh, hc, by rw [pass_middlewares_ok user hp]⟩

/-- **FILTERS GUARD THEIR ROUTE**: after any registrations and on any request, a
    handler is invoked only for a route whose accepted filters have all been
    evaluated on the request before and have passed; and none is invoked when a
    filter refuses or throws, or the request cannot be built. -/
theorem filters_guard (calls : List (Registration Handler Filter)) (path raw_http : Str)
    (request_type : RequestType) (script : List SendOutcome) :
    let r := registry calls
    let events := (handle_request platform user r.m_handles path raw_http request_type script).events
    (∀ h req, .handler h req ∈ events →
      ∃ key handle before, r.m_handles.find key = some handle
        ∧ match_path key path = .ok true
        ∧ process_url_str handle.m_path = .ok key
        ∧ handle.m_handle = some h
        ∧ HttpRequest.construct raw_http handle.m_path handle.m_parameters = .ok req
        ∧ events = before ++ [.handler h req]
        ∧ ∀ f, (key, f) ∈ r.filters → .filter f req (.ok true) ∈ before)
      ∧ (∀ f req v, .filter f req v ∈ events → v ≠ .ok true → ∀ h req', .handler h req' ∉ events)
      ∧ (∀ handle f, find_handle r.m_handles path request_type = .ok (some handle) →
          HttpRequest.construct raw_http handle.m_path handle.m_parameters = .error f →
          ∀ h req, .handler h req ∉ events) := by
  simp only [handle_request_events]
  refine ⟨?_, ?_, ?_⟩
  · intro h req he
    obtain ⟨handle, hf, hh, hc, hev⟩ := attempt_handler platform user he
    obtain ⟨key, hkey, -, hmatch⟩ := find_handle_some hf
    have hsound := registry_sound calls
    refine ⟨key, handle, _, hkey, hmatch, hsound.path key handle hkey, hh, hc, hev, ?_⟩
    intro f hlog
    rw [hsound.filters key handle hkey]
    exact List.mem_map.mpr ⟨f, Registry.mem_filters_of.mpr hlog, rfl⟩
  · intro f req v hfe hv h req' he
    obtain ⟨handle, -, -, -, hev⟩ := attempt_handler platform user he
    rw [hev] at hfe
    rcases List.mem_append.mp hfe with hmem | hmem
    · obtain ⟨g, -, heq⟩ := List.mem_map.mp hmem
      cases heq
      exact hv rfl
    · cases List.mem_singleton.mp hmem
  · intro handle f hf hc h req he
    obtain ⟨handle', hf', -, hc', -⟩ := attempt_handler platform user he
    rw [hf] at hf'
    cases hf'
    rw [hc] at hc'
    cases hc'

/-- A platform that answers with the message itself. -/
def sample_platform : Platform := ⟨fun _ message => message, fun _ => []⟩

/-- Filter `n` passes when `n` is even; handler `n` answers with `n` bytes. -/
def sample_user : UserCode Nat Nat where
  filter f _ := .ok (f % 2 = 0)
  handler h _ := .respond (({} : HttpResponse).set_body (List.replicate h 120)) fun _ => .done

/-- A route with two filters; the filter for the other route is turned down. -/
def sample_calls : List (Registration Nat Nat) :=
  [.handler (str "/a") (some 3) [.GET], .filter (str "/a") (some 2), .filter (str "/b") (some 1),
    .filter (str "/a") (some 4)]

def sample_raw : Str := str "GET /a HTTP/1.1\r\nHost: w\r\n\r\n"

theorem filters_guard_sample : ∃ req before,
    (handle_request sample_platform sample_user (registry sample_calls).m_handles (str "/a")
      sample_raw .GET [.accepted 100]).events = before ++ [.handler 3 req]
      ∧ .filter (some 2) req (.ok true) ∈ before ∧ .filter (some 4) req (.ok true) ∈ before := by
  obtain ⟨req, hev⟩ : ∃ req, (handle_request sample_platform sample_user
      (registry sample_calls).m_handles (str "/a") sample_raw .GET [.accepted 100]).events
        = [.filter (some 2) req (.ok true), .filter (some 4) req (.ok true), .handler 3 req] :=
    ⟨_, rfl⟩
  obtain ⟨hguard, -⟩ := filters_guard sample_platform sample_user sample_calls (str "/a")
    sample_raw .GET [.accepted 100]
  obtain ⟨key, handle, before, hkey, -, -, -, -, hbefore, hall⟩ :=
    hguard 3 req (by rw [hev]; simp)
  have hkeys : (registry sample_calls).m_handles.keys = [str "/a"] := rfl
  obtain rfl : key = str "/a" := by
    have hmem : key ∈ (registry sample_calls).m_handles := mem_iff_find.mpr ⟨handle, hkey⟩
    rw [AList.mem_keys, hkeys] at hmem
    exact List.mem_singleton.mp hmem
  have hlog : (registry sample_calls).filters = [(str "/a", some 2), (str "/a", some 4)] := rfl
  exact ⟨req, before, hbefore, hall _ (by rw [hlog]; simp), hall _ (by rw [hlog]; simp)⟩

end WebLib.HttpRouter
