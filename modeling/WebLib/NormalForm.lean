import WebLib.GroupNames
import WebLib.HttpBinder

/-! # Normal forms of route templates

    The cut of a template is unique, and its key is a template whose cut has the
    same texts and empty groups.  So the texts between the groups can be read
    off the key: two templates have one key exactly when they differ in the
    names of their placeholders only.  Handlers and filters meet at the key. -/

namespace WebLib.Templates

open WebLib ByteString Utils UnorderedMap HttpBinder

/-- A `'{'` outside the groups that are closed, and no `'}'` behind it. -/
def OpenGroup (url : Str) : Prop :=
  ∃ before rest, (∃ parts tail, Cut before parts tail) ∧ url = before ++ 123 :: rest ∧ 125 ∉ rest

/-- Templates with the same texts between their groups. -/
def SameTexts (url url' : Str) : Prop :=
  ∃ parts parts' tail, Cut url parts tail ∧ Cut url' parts' tail
    ∧ parts.map Prod.fst = parts'.map Prod.fst

/-- What a cut template becomes. -/
def key_of (parts : List (Str × Str)) (tail : Str) : Str :=
  weave (fun _ => EMPTY_GROUP) parts ++ tail

/-- The error of a group that is not closed. -/
def ill_formed : Fault := .throws (.runtime_error (str "Ill-formed template path"))

/-! ## Which templates are rejected -/

theorem process_url_str_of_open {url : Str} (h : OpenGroup url) :
    process_url_str url = .error ill_formed := by
  obtain ⟨before, rest, ⟨parts, tail, hcut⟩, rfl, hrest⟩ := h
  rw [process_url_str_behind_cut hcut,
    process_url_str_group_open (Search.find_singleton_eq_none_iff.mpr hrest)]
  rfl

/-- A template is cut, or it has an open group. -/
theorem cut_or_open (url : Str) : (∃ parts tail, Cut url parts tail) ∨ OpenGroup url := by
  induction url using template_induction with
  | hnil => exact Or.inl ⟨[], [], ⟨rfl, by simp, by simp, List.not_mem_nil⟩⟩
  | hcopy c rest hc ih =>
      rcases ih with ⟨parts, tail, hcut⟩ | ⟨before, more, ⟨parts, tail, hcut⟩, rfl, hmore⟩
      · obtain ⟨parts', tail', hcut', -⟩ := hcut.copy hc
        exact Or.inl ⟨parts', tail', hcut'⟩
      · obtain ⟨parts', tail', hcut', -⟩ := hcut.copy hc
        exact Or.inr ⟨c :: before, more, ⟨parts', tail', hcut'⟩, rfl, hmore⟩
  | hopen rest he =>
      exact Or.inr ⟨[], rest, ⟨[], [], ⟨rfl, by simp, by simp, List.not_mem_nil⟩⟩, rfl,
        Search.find_singleton_eq_none_iff.mp he⟩
  | hgroup rest e he ih =>
      obtain ⟨x, s, rfl, hx, rfl⟩ := Search.find_singleton_eq_some_iff.mp he
      rw [Search.drop_past] at ih
      rcases ih with ⟨parts, tail, hcut⟩ | ⟨before, more, ⟨parts, tail, hcut⟩, rfl, hmore⟩
      · exact Or.inl ⟨_, tail, hcut.group hx⟩
      · refine Or.inr ⟨123 :: (x ++ 125 :: before), more, ⟨_, tail, hcut.group hx⟩, ?_, hmore⟩
        simp

/-! ## The cut is unique -/

theorem Cut.unique {url tail tail' : Str} {parts parts' : List (Str × Str)}
    (h : Cut url parts tail) (h' : Cut url parts' tail') : parts = parts' ∧ tail = tail' := by
  induction parts generalizing url parts' with
  | nil =>
      cases parts' with
      | nil => exact ⟨rfl, h.text_nil.symm.trans h'.text_nil⟩
      | cons p' parts' =>
          -- a text without a `'{'` has no group
          have hmem : 123 ∈ url := by
            rw [h'.text_cons]
            simp [WebLib.Utils.group]
          exact absurd (h.text_nil ▸ hmem) h.behind
  | cons p parts ih =>
      cases parts' with
      | nil =>
          have hmem : 123 ∈ url := by
            rw [h.text_cons]
            simp [WebLib.Utils.group]
          exact absurd (h'.text_nil ▸ hmem) h'.behind
      | cons p' parts' =>
          have htext := h.text_cons.symm.trans h'.text_cons
          rw [group_append, group_append] at htext
          -- up to the first `'{'`, and from there to the first `'}'`
          obtain ⟨hfst, hrest⟩ := Search.first_split_unique (h.before p List.mem_cons_self)
            (h'.before p' List.mem_cons_self) htext
          obtain ⟨hsnd, hrest⟩ := Search.first_split_unique (h.name p List.mem_cons_self)
            (h'.name p' List.mem_cons_self) hrest
          obtain ⟨hparts, htail⟩ := ih h.of_cons (hrest ▸ h'.of_cons)
          exact ⟨by rw [Prod.ext hfst hsnd, hparts], htail⟩

/-- The key is cut at the same texts, with nothing in its groups. -/
theorem Cut.key {url tail : Str} {parts : List (Str × Str)} (h : Cut url parts tail) :
    Cut (key_of parts tail) (parts.map fun p => (p.1, [])) tail where
  text := by
    rw [key_of, weave, weave, List.flatMap_map]
    rfl
  before := List.forall_mem_map.mpr h.before
  name := List.forall_mem_map.mpr fun _ _ => List.not_mem_nil
  behind := h.behind

/-- **KEYS FORGET THE NAMES ONLY**. -/
theorem same_key_iff {url url' key key' : Str} (h : process_url_str url = .ok key)
    (h' : process_url_str url' = .ok key') : key = key' ↔ SameTexts url url' := by
  obtain ⟨parts, tail, hcut, rfl⟩ := exists_cut url h
  obtain ⟨parts', tail', hcut', rfl⟩ := exists_cut url' h'
  constructor
  · intro heq
    have hkey : Cut (key_of parts tail) (parts'.map fun p => (p.1, [])) tail' := by
      have heq : key_of parts tail = key_of parts' tail' := heq
      exact heq ▸ hcut'.key
    obtain ⟨hparts, rfl⟩ := hcut.key.unique hkey
    refine ⟨parts, parts', tail, hcut, hcut', ?_⟩
    have hfst := congrArg (List.map Prod.fst) hparts
    rwa [List.map_map, List.map_map] at hfst
  · rintro ⟨ps, ps', t, hps, hps', hfst⟩
    obtain ⟨rfl, rfl⟩ := hcut.unique hps
    obtain ⟨rfl, rfl⟩ := hcut'.unique hps'
    have hweave : ∀ ps : List (Str × Str), weave (fun _ => EMPTY_GROUP) ps
        = (ps.map Prod.fst).flatMap fun text => text ++ EMPTY_GROUP := by
      intro ps
      rw [weave, List.flatMap_map]
    rw [hweave, hweave, hfst]

/-! ## Filters and routes -/

variable {Handler Filter : Type}

/-- A filter goes to the route whose template has the texts of its own, and to no
    other. -/
theorem register_filter_find {m_handles : Handles Handler Filter}
    (h : binder.Reachable m_handles) (route : Str) (filter : Option Filter) {key : Str}
    {handle : HttpHandle Handler Filter} (hfind : m_handles.find key = some handle) :
    (SameTexts route handle.m_path →
        (register_filter m_handles route filter).1.find key = some (handle.add_filter filter))
      ∧ (¬ SameTexts route handle.m_path →
        (register_filter m_handles route filter).1.find key = some handle) := by
  have hkey : process_url_str handle.m_path = .ok key := paths_normal h key handle hfind
  cases hroute : process_url_str route with
  | error f =>
      have hsame : ¬ SameTexts route handle.m_path := by
        rintro ⟨parts, _, tail, hcut, -⟩
        rw [process_url_str_of_cut hcut] at hroute
        cases hroute
      refine ⟨fun hs => absurd hs hsame, fun _ => ?_⟩
      rw [register_filter, hroute]
      exact hfind
  | ok key' =>
      rw [← same_key_iff hroute hkey]
      refine ⟨?_, fun hne => ?_⟩
      · rintro rfl
        simp only [register_filter, hroute, hfind]
        rw [find_assign, if_pos rfl]
      · simp only [register_filter, hroute]
        cases m_handles.find key' with
        | none => exact hfind
        | some other =>
            simp only
            rw [find_assign, if_neg (Ne.symm hne)]
            exact hfind

/-- **NORMAL FORM**: what is rejected, the cut of what is not, its key, which
    templates share a key, and which route a filter finds. -/
theorem process_url_str_normal_form (url : Str) :
    ((∃ e, process_url_str url = .error (.throws e)) ↔ OpenGroup url)
      ∧ (¬ OpenGroup url → ∃ parts tail, Cut url parts tail
          ∧ (∀ parts' tail', Cut url parts' tail' → parts' = parts ∧ tail' = tail)
          ∧ process_url_str url = .ok (key_of parts tail)
          ∧ process_url_str (key_of parts tail) = .ok (key_of parts tail))
      ∧ (∀ url' key key', process_url_str url = .ok key → process_url_str url' = .ok key' →
          (key = key' ↔ SameTexts url url'))
      ∧ ∀ (Handler Filter : Type) (m_handles : Handles Handler Filter),
          binder.Reachable m_handles → ∀ (filter : Option Filter) (key : Str)
            (handle : HttpHandle Handler Filter), m_handles.find key = some handle →
            (SameTexts url handle.m_path →
                (register_filter m_handles url filter).1.find key
                  = some (handle.add_filter filter))
              ∧ (¬ SameTexts url handle.m_path →
                (register_filter m_handles url filter).1.find key = some handle) := by
  refine ⟨⟨?_, ?_⟩, ?_, ?_, ?_⟩
  · rintro ⟨e, he⟩
    rcases cut_or_open url with ⟨parts, tail, hcut⟩ | hopen
    · rw [process_url_str_of_cut hcut] at he
      cases he
    · exact hopen
  · exact fun hopen => ⟨_, process_url_str_of_open hopen⟩
  · intro hclosed
    obtain ⟨parts, tail, hcut⟩ := (cut_or_open url).resolve_right hclosed
    have hkey : process_url_str url = .ok (key_of parts tail) := process_url_str_of_cut hcut
    refine ⟨parts, tail, hcut, ?_, hkey, process_url_str_idem url hkey⟩
    exact fun parts' tail' hcut' => hcut'.unique hcut
  · exact fun url' key key' h h' => same_key_iff h h'
  · exact fun Handler Filter m_handles h filter key handle hfind =>
      register_filter_find h url filter hfind

end WebLib.Templates
