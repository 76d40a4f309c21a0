import WebLib.HttpBinder

/-! # What a route ends up with

    The table is filled by calls from anywhere in the program, each of which may
    throw.  Read per route, its history is short: the first handler registered
    under the normal form makes the handle, with its methods, its template and
    the names of its parameters, and every filter that names the route later is
    added, in order.  Later handlers for the route, earlier filters for it and
    all calls for other routes leave no trace. -/

namespace WebLib.HttpBinder

open WebLib ByteString Utils UnorderedMap

variable {Handler Filter : Type}

/-! ## The calls -/

/-- The template a call names. -/
def Registration.template : Registration Handler Filter → Str
  | .handler endpoint_name _ _ => endpoint_name
  | .filter route _ => route

/-- The call names the route with the normal form `key`. -/
def Registration.Names (key : Str) (call : Registration Handler Filter) : Prop :=
  process_url_str call.template = .ok key

instance (key : Str) (call : Registration Handler Filter) : Decidable (call.Names key) :=
  inferInstanceAs (Decidable (process_url_str call.template = .ok key))

/-- The table after a call, which may have thrown. -/
def register (m_handles : Handles Handler Filter) :
    Registration Handler Filter → Handles Handler Filter
  | .handler endpoint_name handler types =>
      (register_handler m_handles endpoint_name handler types).1
  | .filter route filter => (register_filter m_handles route filter).1

/-- The table after a sequence of calls. -/
def handles_after (calls : List (Registration Handler Filter)) : Handles Handler Filter :=
  calls.foldl register ∅

/-! ## The history of one route -/

/-- A call that makes the handle of the route when there is none. -/
def Registration.makes (key : Str) : Registration Handler Filter → Bool
  | .handler endpoint_name _ _ => process_url_str endpoint_name = .ok key
  | .filter .. => false

/-- The filter a call adds to the route. -/
def Registration.adds (key : Str) : Registration Handler Filter → Option (Option Filter)
  | .handler .. => none
  | .filter route f => if process_url_str route = .ok key then some f else none

/-- A handle with more filters. -/
def with_filters (handle : HttpHandle Handler Filter) (m_filters : List (Option Filter)) :
    HttpHandle Handler Filter := { handle with m_filters := handle.m_filters ++ m_filters }

/-- The handle of a route, from the calls: what the first one that makes it
    enters, with the filters of the calls after it. -/
def handle_of (key : Str) (calls : List (Registration Handler Filter)) :
    Option (HttpHandle Handler Filter) :=
  match calls.dropWhile fun call => !call.makes key with
  | .handler endpoint_name handler types :: later =>
      some (with_filters (handle_obj endpoint_name handler types)
        (later.filterMap (Registration.adds key)))
  | _ => none

/-- What a call does to one route. -/
def route_step (key : Str) (found : Option (HttpHandle Handler Filter))
    (call : Registration Handler Filter) : Option (HttpHandle Handler Filter) :=
  match found with
  | some handle => some (with_filters handle (call.adds key).toList)
  | none => handle_of key [call]

theorem with_filters_nil (handle : HttpHandle Handler Filter) : with_filters handle [] = handle := by
  rw [with_filters, List.append_nil]

theorem with_filters_append (handle : HttpHandle Handler Filter) (f g : List (Option Filter)) :
    with_filters (with_filters handle f) g = with_filters handle (f ++ g) := by
  simp only [with_filters, List.append_assoc]

/-! ## One call -/

/-- Every key is a normal form. -/
def KeysNormal (m_handles : Handles Handler Filter) : Prop :=
  ∀ key ∈ m_handles, process_url_str key = .ok key

/-- A handler is entered for its own route only, and only when there is none. -/
theorem find_register_handler {m_handles : Handles Handler Filter} (h : KeysNormal m_handles)
    (endpoint_name : Str) (handler : Option Handler) (types : List RequestType) (key : Str) :
    (register_handler m_handles endpoint_name handler types).1.find key
      = route_step key (m_handles.find key) (.handler endpoint_name handler types) := by
  have hkeep : ∀ handle, m_handles.find key = some handle →
      route_step key (m_handles.find key) (.handler endpoint_name handler types)
        = some handle := by
    intro handle hfind
    rw [hfind, route_step, Registration.adds, Option.toList_none, with_filters_nil]
  rw [register_handler]
  split
  · next hmem =>
      cases hfind : m_handles.find key with
      | some handle => rw [← hfind, hkeep handle hfind, hfind]
      | none =>
          -- a name that is a key is its own normal form, so another route's
          have hne : ¬ process_url_str endpoint_name = .ok key := by
            intro hkey
            obtain rfl := Except.ok.inj ((h endpoint_name hmem).symm.trans hkey)
            exact find_eq_none_iff.mp hfind hmem
          simp [route_step, handle_of, Registration.makes, hne]
  · split
    · next f hf =>
        cases hfind : m_handles.find key with
        | some handle => rw [← hfind, hkeep handle hfind, hfind]
        | none => simp [route_step, handle_of, Registration.makes, hf]
    · next name hname =>
        rw [find_emplace]
        cases hfind : m_handles.find key with
        | some handle =>
            rw [← hfind, hkeep handle hfind]
            by_cases hk : key = name
            · rw [if_pos hk, ← hk, hfind, Option.getD_some]
            · rw [if_neg hk, hfind]
        | none =>
            by_cases hk : key = name
            · rw [if_pos hk, ← hk, hfind, Option.getD_none, hk]
              simp [route_step, handle_of, Registration.makes, hname, with_filters_nil]
            · have hne : ¬ name = key := Ne.symm hk
              rw [if_neg hk]
              simp [route_step, handle_of, Registration.makes, hname, hne]

/-- A filter is added to its own route only, and only when there is a handle. -/
theorem find_register_filter (m_handles : Handles Handler Filter) (route : Str)
    (f : Option Filter) (key : Str) :
    (register_filter m_handles route f).1.find key
      = route_step key (m_handles.find key) (.filter route f) := by
  have hnone : handle_of key [(.filter route f : Registration Handler Filter)] = none := by
    simp [handle_of, Registration.makes]
  rw [register_filter]
  split
  · next e he =>
      cases hfind : m_handles.find key with
      | none => rw [route_step, hnone]
      | some handle =>
          simp [route_step, Registration.adds, he, with_filters_nil]
  · next name hname =>
      split
      · next hmissing =>
          cases hfind : m_handles.find key with
          | none => rw [route_step, hnone]
          | some handle =>
              have hne : ¬ name = key := by
                rintro rfl
                rw [hmissing] at hfind
                cases hfind
              simp [route_step, Registration.adds, hname, hne, with_filters_nil]
      · next handle hhandle =>
          rw [find_assign]
          by_cases hk : key = name
          · rw [if_pos hk, hk, hhandle]
            simp [route_step, Registration.adds, hname, HttpHandle.add_filter, with_filters]
          · have hne : ¬ name = key := Ne.symm hk
            rw [if_neg hk]
            cases hfind : m_handles.find key with
            | none => rw [route_step, hnone]
            | some other =>
                simp [route_step, Registration.adds, hname, hne, with_filters_nil]

/-- **ONE CALL, ONE ROUTE**: what a call does to a route depends on this route. -/
theorem find_register {m_handles : Handles Handler Filter} (h : KeysNormal m_handles)
    (call : Registration Handler Filter) (key : Str) :
    (register m_handles call).find key = route_step key (m_handles.find key) call := by
  cases call with
  | handler endpoint_name handler types => exact find_register_handler h endpoint_name handler types key
  | filter route f => exact find_register_filter m_handles route f key

theorem KeysNormal.register {m_handles : Handles Handler Filter} (h : KeysNormal m_handles)
    (call : Registration Handler Filter) : KeysNormal (HttpBinder.register m_handles call) := by
  intro key hmem
  obtain ⟨handle, hfind⟩ := mem_iff_find.mp hmem
  rw [find_register h] at hfind
  cases hold : m_handles.find key with
  | some old => exact h key (mem_iff_find.mpr ⟨old, hold⟩)
  | none =>
      rw [hold, route_step] at hfind
      cases call with
      | filter route f => simp [handle_of, Registration.makes] at hfind
      | handler endpoint_name hd types =>
          by_cases hkey : process_url_str endpoint_name = .ok key
          · exact process_url_str_idem endpoint_name hkey
          · simp [handle_of, Registration.makes, hkey] at hfind

/-! ## All calls -/

/-- A further call, on the history of a route. -/
theorem handle_of_concat (key : Str) (calls : List (Registration Handler Filter))
    (call : Registration Handler Filter) :
    handle_of key (calls ++ [call]) = route_step key (handle_of key calls) call := by
  rw [handle_of, List.dropWhile_append]
  cases hd : calls.dropWhile fun call => !call.makes key with
  | nil =>
      have hnone : handle_of key calls = none := by rw [handle_of, hd]
      rw [hnone]
      rfl
  | cons first later =>
      -- what is left starts with a call that makes the handle
      have hmakes : first.makes key = true := by
        have hhead := List.head?_dropWhile_not
          (fun call : Registration Handler Filter => !call.makes key) calls
        rw [hd] at hhead
        simpa using hhead
      cases first with
      | filter route f => cases hmakes
      | handler endpoint_name hd' types =>
          simp only [List.isEmpty_cons, Bool.false_eq_true, if_false, List.cons_append]
          rw [handle_of, hd, route_step]
          simp only [List.filterMap_append, with_filters_append]
          cases ha : call.adds key <;> simp [ha]

/-- A call for another route. -/
theorem route_step_of_not_names {key : Str} {call : Registration Handler Filter}
    (h : ¬ call.Names key) (found : Option (HttpHandle Handler Filter)) :
    route_step key found call = found := by
  cases call with
  | handler endpoint_name handler types =>
      have hne : ¬ process_url_str endpoint_name = .ok key := h
      cases found with
      | none => simp [route_step, handle_of, Registration.makes, hne]
      | some handle => simp [route_step, Registration.adds, with_filters_nil]
  | filter route f =>
      have hne : ¬ process_url_str route = .ok key := h
      cases found with
      | none => simp [route_step, handle_of, Registration.makes]
      | some handle => simp [route_step, Registration.adds, hne, with_filters_nil]

theorem handle_of_filter (key : Str) (calls : List (Registration Handler Filter)) :
    handle_of key (calls.filter fun call => call.Names key) = handle_of key calls := by
  induction calls using List.reverseRecOn with
  | nil => rfl
  | append_singleton calls call ih =>
      rw [List.filter_append, handle_of_concat]
      by_cases h : call.Names key
      · rw [List.filter_cons_of_pos (by simpa using h), List.filter_nil, handle_of_concat, ih]
      · rw [List.filter_cons_of_neg (by simpa using h), List.filter_nil, List.append_nil, ih,
          route_step_of_not_names h]

/-- The table by its histories. -/
theorem find_handles_after (calls : List (Registration Handler Filter)) :
    KeysNormal (handles_after calls)
      ∧ ∀ key, (handles_after calls).find key = handle_of key calls := by
  induction calls using List.reverseRecOn with
  | nil =>
      refine ⟨fun key hmem => ?_, fun key => rfl⟩
      obtain ⟨handle, hfind⟩ := mem_iff_find.mp hmem
      rw [handles_after, List.foldl_nil, find_empty] at hfind
      cases hfind
  | append_singleton calls call ih =>
      obtain ⟨hnormal, hfind⟩ := ih
      have hafter : handles_after (calls ++ [call]) = register (handles_after calls) call := by
        rw [handles_after, List.foldl_append]
        rfl
      rw [hafter]
      refine ⟨hnormal.register call, fun key => ?_⟩
      rw [find_register hnormal, hfind, handle_of_concat]

/-- **WHAT A ROUTE ENDS UP WITH**: after any calls in any order, returning or
    throwing, the handle under a normal form is the one its history says, and
    the calls for other routes could as well have been left out. -/
theorem route_of_calls (calls : List (Registration Handler Filter)) (key : Str) :
    (handles_after calls).find key = handle_of key calls
      ∧ (handles_after calls).find key
        = (handles_after (calls.filter fun call => call.Names key)).find key := by
  refine ⟨(find_handles_after calls).2 key, ?_⟩
  rw [(find_handles_after calls).2, (find_handles_after _).2, handle_of_filter]

/-- Two spellings of one route: the filter before the handler and the second
    handler leave no trace. -/
example : handle_of (str "/a/{}")
    [.filter (str "/a/{x}") (some 1), .handler (str "/a/{x}") (some 2) [.GET],
      .filter (str "/b") (some 3), .filter (str "/a/{y}") (some 4),
      .handler (str "/a/{z}") (some 5) [.POST]]
    = some ⟨[.GET], [some 4], [str "x"], str "/a/{x}", some 2⟩ := by decide

end WebLib.HttpBinder
