import WebLib.TransitionSystem
import WebLib.UnorderedMap
import WebLib.Utils

/-! # `HttpBinder`: the route table

    `register_handler` looks the template up as it is written and inserts it
    under its normalised form; `register_filter` looks the normalised form up;
    `match_path` compares a normalised pattern with the path of a request.  User
    handlers and filters are values of arbitrary types, an empty `std::function`
    being `none`. -/

namespace WebLib.HttpBinder

open WebLib ByteString Utils UnorderedMap

inductive RequestType where
  | POST
  | GET
  | PUT
  | DELETE
  | OPTIONS
deriving DecidableEq, Repr

/-- `HttpHandle`. -/
structure HttpHandle (Handler Filter : Type) where
  m_methods : List RequestType := []
  m_filters : List (Option Filter) := []
  m_parameters : List Str := []
  m_path : Str := []
  m_handle : Option Handler := none
deriving DecidableEq, Repr

namespace HttpHandle

variable {Handler Filter : Type}

def add_filter (h : HttpHandle Handler Filter) (filter : Option Filter) :
    HttpHandle Handler Filter := { h with m_filters := h.m_filters ++ [filter] }

def set_handle_method (h : HttpHandle Handler Filter) (handle : Option Handler) :
    HttpHandle Handler Filter := { h with m_handle := handle }

def add_http_method (h : HttpHandle Handler Filter) (method : RequestType) :
    HttpHandle Handler Filter := { h with m_methods := h.m_methods ++ [method] }

def set_parameters (h : HttpHandle Handler Filter) (params : List Str) :
    HttpHandle Handler Filter := { h with m_parameters := params }

def set_path (h : HttpHandle Handler Filter) (ep_name : Str) :
    HttpHandle Handler Filter := { h with m_path := ep_name }

def has_method (h : HttpHandle Handler Filter) (type : RequestType) : Bool :=
  h.m_methods.any fun _type => _type = type

/-- The fold over the pack of methods adds them in order. -/
theorem foldl_add_http_method (types : List RequestType) (h : HttpHandle Handler Filter) :
    types.foldl add_http_method h = { h with m_methods := h.m_methods ++ types } := by
  induction types generalizing h with
  | nil => simp
  | cons type types ih => rw [List.foldl_cons, ih]; simp [add_http_method]

end HttpHandle

/-- `m_handles`. -/
abbrev Handles (Handler Filter : Type) := UnorderedMap Str (HttpHandle Handler Filter)

/-! ## Registration -/

variable {Handler Filter : Type}

/-- The object `register_handler` builds. -/
def handle_obj (endpoint_name : Str) (handler : Option Handler) (types : List RequestType) :
    HttpHandle Handler Filter :=
  (((types.foldl HttpHandle.add_http_method {}).set_handle_method handler).set_parameters
    (extract_params endpoint_name)).set_path endpoint_name

/-- `register_handler`: the table afterwards and how the call ends. -/
def register_handler (m_handles : Handles Handler Filter) (endpoint_name : Str)
    (handler : Option Handler) (types : List RequestType) :
    Handles Handler Filter × Except Fault Unit :=
  -- looked up as written, entered below in normal form
  if endpoint_name ∈ m_handles then (m_handles, .error (.throws .endpoint_already_set))
  else
    match process_url_str endpoint_name with
    | .error f => (m_handles, .error f)
    | .ok key => (m_handles.emplace key (handle_obj endpoint_name handler types), .ok ())

/-- `register_filter`. -/
def register_filter (m_handles : Handles Handler Filter) (route : Str)
    (filter : Option Filter) : Handles Handler Filter × Except Fault Unit :=
  match process_url_str route with
  | .error f => (m_handles, .error f)
  | .ok key =>
      match m_handles.find key with
      | none => (m_handles, .error (.throws .filter_before_controller))
      | some handle => (m_handles.assign key (handle.add_filter filter), .ok ())

/-! ## Matching -/

/-- The non-empty pieces between slashes. -/
def split_path (s : Str) : List Str := (views_split 47 s).filter fun piece => piece ≠ []

/-- The rest of `parse_query` on the pieces that are left.  `front` of an empty
    vector is undefined; of several values of a key the first one stays. -/
def parse_query_loop : List Str → UnorderedMap Str Str → Except Fault (UnorderedMap Str Str)
  | [], params => .ok params
  | key_value_pair :: rest, params =>
      match views_split 61 key_value_pair with
      | [] => .error .undefined
      | front :: more =>
          parse_query_loop rest (params.emplace front ((front :: more).getLast (by simp)))

def parse_query (query : Str) : Except Fault (UnorderedMap Str Str) :=
  parse_query_loop (views_split 38 query) ∅

/-- The comparison of the query maps. -/
def match_query (pattern_params path_params : UnorderedMap Str Str) : Bool :=
  pattern_params.size = path_params.size
    && pattern_params.entries.all fun kv =>
      match path_params.find kv.1 with
      | none => false
      | some value => kv.2 = EMPTY_GROUP || value = kv.2

/-- `match_path`. -/
def match_path (pattern path : Str) : Except Fault Bool :=
  let pattern_parts := split_path (path_part pattern)
  let path_parts := split_path (path_part path)
  if pattern_parts.length ≠ path_parts.length then .ok false
  else if (pattern_parts.zip path_parts).any fun z => z.1 ≠ EMPTY_GROUP ∧ z.1 ≠ z.2 then
    .ok false
  else
    match query_part pattern with
    -- a pattern without a query accepts every query
    | none => .ok true
    | some pattern_query =>
        let path_query := (query_part path).getD []
        if path_query = [] then .ok false
        else
          match parse_query pattern_query with
          | .error f => .error f
          | .ok pattern_params =>
              match parse_query path_query with
              | .error f => .error f
              | .ok path_params => .ok (match_query pattern_params path_params)

/-- The loop of `find_handle` over the table. -/
def find_handle_loop (path : Str) (type : RequestType) :
    List (Str × HttpHandle Handler Filter) → Except Fault (Option (HttpHandle Handler Filter))
  | [] => .ok none
  | (pattern, handle) :: rest =>
      if handle.has_method type then
        match match_path pattern path with
        | .error f => .error f
        | .ok true => .ok (some handle)
        | .ok false => find_handle_loop path type rest
      else find_handle_loop path type rest

/-- `find_handle`, for the iteration order of `entries`. -/
def find_handle (m_handles : Handles Handler Filter) (path : Str) (type : RequestType) :
    Except Fault (Option (HttpHandle Handler Filter)) :=
  find_handle_loop path type (m_handles.entries.map fun kv => (kv.1, kv.2))

theorem find_handle_loop_some {path : Str} {type : RequestType}
    {entries : List (Str × HttpHandle Handler Filter)} {handle : HttpHandle Handler Filter}
    (h : find_handle_loop path type entries = .ok (some handle)) :
    ∃ pattern, (pattern, handle) ∈ entries ∧ handle.has_method type = true
      ∧ match_path pattern path = .ok true := by
  induction entries with
  | nil => cases h
  | cons entry entries ih =>
      obtain ⟨pattern, handle'⟩ := entry
      rw [find_handle_loop] at h
      split at h
      · next hm =>
          split at h
          · cases h
          · next hmatch =>
              cases h
              exact ⟨pattern, List.mem_cons_self, hm, hmatch⟩
          · obtain ⟨p, hp, hrest⟩ := ih h
            exact ⟨p, List.mem_cons_of_mem _ hp, hrest⟩
      · obtain ⟨p, hp, hrest⟩ := ih h
        exact ⟨p, List.mem_cons_of_mem _ hp, hrest⟩

/-- A found handle is in the table, has the method, and its key matches. -/
theorem find_handle_some {m_handles : Handles Handler Filter} {path : Str} {type : RequestType}
    {handle : HttpHandle Handler Filter}
    (h : find_handle m_handles path type = .ok (some handle)) :
    ∃ pattern, m_handles.find pattern = some handle ∧ handle.has_method type = true
      ∧ match_path pattern path = .ok true := by
  obtain ⟨pattern, hmem, hrest⟩ := find_handle_loop_some h
  obtain ⟨kv, hkv, heq⟩ := List.mem_map.mp hmem
  cases heq
  exact ⟨kv.1, AList.mem_lookup_iff.mpr hkv, hrest⟩

/-! ## The tables that registrations make -/

/-- A call that registers something. -/
inductive Registration (Handler Filter : Type) where
  | handler (endpoint_name : Str) (handler : Option Handler) (types : List RequestType)
  | filter (route : Str) (filter : Option Filter)

/-- Any calls in any order, returning or throwing. -/
def binder : TransitionSystem (Handles Handler Filter) (Registration Handler Filter) where
  init m_handles := m_handles = ∅
  step m_handles
    | .handler endpoint_name handler types =>
        some (register_handler m_handles endpoint_name handler types).1
    | .filter route filter => some (register_filter m_handles route filter).1

/-- What a successful registration enters: methods, template, its parameters and
    the handler. -/
theorem handle_obj_eq (endpoint_name : Str) (handler : Option Handler)
    (types : List RequestType) :
    (handle_obj endpoint_name handler types : HttpHandle Handler Filter)
      = ⟨types, [], extract_params endpoint_name, endpoint_name, handler⟩ := by
  rw [handle_obj, HttpHandle.foldl_add_http_method]
  rfl

/-- **KEYS ARE NORMAL**: in every table, each key is a template that
    `process_url_str` leaves as it is. -/
theorem key_normal {m_handles : Handles Handler Filter} (h : binder.Reachable m_handles) :
    ∀ k ∈ m_handles, process_url_str k = .ok k := by
  refine h.invariant (I := fun m => ∀ k ∈ m, process_url_str k = .ok k) ?_ ?_
  · rintro m rfl k hk
    exact absurd hk (AList.notMem_empty k)
  · intro m l m' hi _ hs
    cases l with
    | handler endpoint_name handler types =>
        obtain rfl := Option.some.inj hs
        rw [register_handler]
        split
        · exact hi
        · split
          · exact hi
          · rename_i key hkey
            intro k hk
            rcases mem_emplace.mp hk with rfl | hold
            · exact process_url_str_idem _ hkey
            · exact hi k hold
    | filter route filter =>
        obtain rfl := Option.some.inj hs
        rw [register_filter]
        split
        · exact hi
        · split
          · exact hi
          · rename_i key hkey _ _ _
            intro k hk
            rcases (AList.mem_insert _).mp hk with rfl | hold
            · exact process_url_str_idem _ hkey
            · exact hi k hold

/-- Each handle keeps the template whose normal form it is entered under. -/
def PathsNormal (m_handles : Handles Handler Filter) : Prop :=
  ∀ key handle, m_handles.find key = some handle → process_url_str handle.m_path = .ok key

theorem PathsNormal.emplace {m_handles : Handles Handler Filter} (h : PathsNormal m_handles)
    {endpoint_name key : Str} (hkey : process_url_str endpoint_name = .ok key)
    (handler : Option Handler) (types : List RequestType) :
    PathsNormal (m_handles.emplace key (handle_obj endpoint_name handler types)) := by
  intro k handle hk
  rw [find_emplace] at hk
  split at hk
  · next heq =>
      subst heq
      cases hold : m_handles.find k with
      | none =>
          rw [hold, Option.getD_none] at hk
          rw [← Option.some.inj hk, handle_obj_eq]
          exact hkey
      | some old =>
          rw [hold, Option.getD_some] at hk
          exact Option.some.inj hk ▸ h k old hold
  · exact h k handle hk

theorem PathsNormal.assign {m_handles : Handles Handler Filter} (h : PathsNormal m_handles)
    {key : Str} {handle : HttpHandle Handler Filter} (hfind : m_handles.find key = some handle)
    (filter : Option Filter) : PathsNormal (m_handles.assign key (handle.add_filter filter)) := by
  intro k handle' hk
  rw [find_assign] at hk
  split at hk
  · next heq =>
      rw [← Option.some.inj hk, heq]
      exact h key handle hfind
  · exact h k handle' hk

/-- **PATHS ARE NORMAL**: different keys have different handles. -/
theorem paths_normal {m_handles : Handles Handler Filter} (h : binder.Reachable m_handles) :
    PathsNormal m_handles := by
  refine h.invariant (I := PathsNormal) ?_ ?_
  · rintro m rfl key handle hk
    rw [find_empty] at hk
    cases hk
  · intro m l m' hi _ hs
    cases l with
    | handler endpoint_name handler types =>
        obtain rfl := Option.some.inj hs
        rw [register_handler]
        split
        · exact hi
        · split
          · exact hi
          · next hkey => exact hi.emplace hkey handler types
    | filter route filter =>
        obtain rfl := Option.some.inj hs
        rw [register_filter]
        split
        · exact hi
        · split
          · exact hi
          · next hfind => exact hi.assign hfind filter

end WebLib.HttpBinder
