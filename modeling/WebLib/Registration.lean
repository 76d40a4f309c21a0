import WebLib.HttpBinder

/-! # Registering a handler

    The duplicate check compares the template as written, the insertion uses its
    normal form and leaves a present key alone.  A template that is not in
    normal form and whose normal form is taken passes the check and is
    dropped. -/

namespace WebLib.HttpBinder

open WebLib ByteString Utils UnorderedMap TransitionSystem

variable {Handler Filter : Type}

/-- The call throws and changes nothing. -/
def Rejects (m_handles : Handles Handler Filter) (endpoint_name : Str)
    (handler : Option Handler) (types : List RequestType) : Prop :=
  (∃ e, (register_handler m_handles endpoint_name handler types).2 = .error (.throws e))
    ∧ (register_handler m_handles endpoint_name handler types).1 = m_handles

/-- The call returns, and the table is the old one with the handle under `key`. -/
def Enters (m_handles : Handles Handler Filter) (endpoint_name key : Str)
    (handler : Option Handler) (types : List RequestType) : Prop :=
  (register_handler m_handles endpoint_name handler types).2 = .ok ()
    ∧ ∀ k, (register_handler m_handles endpoint_name handler types).1.find k
      = if k = key then
          some ⟨types, [], extract_params endpoint_name, endpoint_name, handler⟩
        else m_handles.find k

/-- A registration loses nothing: it is rejected when its template is ill-formed
    or its route is taken, and entered otherwise. -/
def Lossless (m_handles : Handles Handler Filter) (endpoint_name : Str)
    (handler : Option Handler) (types : List RequestType) : Prop :=
  match process_url_str endpoint_name with
  | .error _ => Rejects m_handles endpoint_name handler types
  | .ok key =>
      if key ∈ m_handles then Rejects m_handles endpoint_name handler types
      else Enters m_handles endpoint_name key handler types

theorem rejects_of_mem {m_handles : Handles Handler Filter} {endpoint_name : Str}
    (h : endpoint_name ∈ m_handles) (handler : Option Handler) (types : List RequestType) :
    Rejects m_handles endpoint_name handler types := by
  rw [Rejects, register_handler, if_pos h]
  exact ⟨⟨_, rfl⟩, rfl⟩

theorem rejects_of_error {m_handles : Handles Handler Filter} {endpoint_name : Str} {f : Fault}
    (h : process_url_str endpoint_name = .error f) (handler : Option Handler)
    (types : List RequestType) : Rejects m_handles endpoint_name handler types := by
  by_cases hmem : endpoint_name ∈ m_handles
  · exact rejects_of_mem hmem handler types
  · obtain ⟨e, rfl⟩ := process_url_str_error endpoint_name h
    rw [Rejects, register_handler, if_neg hmem, h]
    exact ⟨⟨e, rfl⟩, rfl⟩

theorem enters_of_notMem {m_handles : Handles Handler Filter} {endpoint_name key : Str}
    (h : process_url_str endpoint_name = .ok key) (hname : endpoint_name ∉ m_handles)
    (hkey : key ∉ m_handles) (handler : Option Handler) (types : List RequestType) :
    Enters m_handles endpoint_name key handler types := by
  rw [Enters, register_handler, if_neg hname, h]
  refine ⟨rfl, ?_⟩
  intro k
  show (m_handles.emplace key _).find k = _
  rw [find_emplace, find_eq_none_iff.mpr hkey, Option.getD_none, handle_obj_eq]

/-- A taken route is refused only under its own name. -/
theorem returns_of_mem {m_handles : Handles Handler Filter} {endpoint_name key : Str}
    (h : process_url_str endpoint_name = .ok key) (hname : endpoint_name ∉ m_handles)
    (hkey : key ∈ m_handles) (handler : Option Handler) (types : List RequestType) :
    register_handler m_handles endpoint_name handler types = (m_handles, .ok ()) := by
  rw [register_handler, if_neg hname, h]
  show (m_handles.emplace key _, _) = _
  rw [emplace_of_mem _ hkey]

/-- **WHEN A REGISTRATION LOSES NOTHING**: on every table that calls can make,
    exactly when the template is written in normal form or its normal form is
    not taken. -/
theorem register_handler_lossless_iff {m_handles : Handles Handler Filter}
    (hreach : binder.Reachable m_handles) (endpoint_name : Str) (handler : Option Handler)
    (types : List RequestType) :
    Lossless m_handles endpoint_name handler types
      ↔ ∀ key, process_url_str endpoint_name = .ok key → key ∈ m_handles →
          endpoint_name = key := by
  have hnormal : ∀ key, process_url_str endpoint_name = .ok key →
      endpoint_name ∈ m_handles → endpoint_name = key := by
    intro key hkey hmem
    exact Except.ok.inj ((key_normal hreach endpoint_name hmem).symm.trans hkey)
  rw [Lossless]
  cases hp : process_url_str endpoint_name with
  | error f =>
      constructor
      · intro _ key hkey
        cases hkey
      · intro _
        exact rejects_of_error hp handler types
  | ok key =>
      by_cases hkey : key ∈ m_handles
      · simp only [if_pos hkey]
        constructor
        · rintro ⟨⟨e, he⟩, -⟩ key' hkey' -
          obtain rfl := Except.ok.inj hkey'
          by_contra hne
          -- keys are normal, so a name that is none of them passes the check
          have hname : endpoint_name ∉ m_handles := fun hmem => hne (hnormal key hp hmem)
          rw [returns_of_mem hp hname hkey] at he
          cases he
        · intro heq
          exact rejects_of_mem (heq key rfl hkey ▸ hkey) handler types
      · simp only [if_neg hkey]
        constructor
        · intro _ key' hkey' hmem
          exact absurd (Except.ok.inj hkey' ▸ hmem) hkey
        · intro _
          refine enters_of_notMem hp ?_ hkey handler types
          intro hmem
          exact hkey (hnormal key hp hmem ▸ hmem)

/-- Two templates and the table of the first one. -/
def template_a : Str := str "/a/" ++ group (str "x")

def template_b : Str := str "/b/" ++ group (str "x")

def one_route : Handles Nat Nat := (register_handler ∅ template_a (some 0) [.GET]).1

theorem reachable_one_route : binder.Reachable one_route :=
  .step (.init rfl) trivial (l := .handler template_a (some 0) [.GET]) rfl

theorem register_handler_lossless_other :
    Lossless one_route template_b (some 1) [.GET]
      ↔ ∀ key, process_url_str template_b = .ok key → key ∈ one_route → template_b = key :=
  register_handler_lossless_iff reachable_one_route template_b (some 1) [.GET]

/-- The same template again: the call returns and the second handler is lost. -/
theorem second_registration_lost : binder.Reachable one_route
    ∧ register_handler one_route template_a (some 1) [.GET] = (one_route, .ok ())
    ∧ ¬ Lossless one_route template_a (some 1) [.GET] := by
  have hkey : process_url_str template_a = .ok (str "/a/" ++ EMPTY_GROUP) := by decide
  have hmem : str "/a/" ++ EMPTY_GROUP ∈ one_route := by decide
  have hreturns : register_handler one_route template_a (some 1) [.GET]
      = (one_route, .ok ()) := returns_of_mem hkey (by decide) hmem (some 1) [.GET]
  refine ⟨reachable_one_route, hreturns, ?_⟩
  intro hlossless
  rw [Lossless] at hlossless
  rw [hkey] at hlossless
  simp only [if_pos hmem] at hlossless
  obtain ⟨⟨e, he⟩, -⟩ := hlossless
  rw [hreturns] at he
  cases he

end WebLib.HttpBinder
