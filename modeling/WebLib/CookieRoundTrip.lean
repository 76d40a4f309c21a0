import WebLib.RequestCookies

/-! # Cookie strings read back

    `to_string` writes `name=value` for any value; `parse_cookie` splits a pair
    at every equals sign and drops it when there are more than one.  So a value
    that ends in padding is written and not read. -/

namespace WebLib.RequestCookies

open WebLib ByteString Utils UnorderedMap HttpHeaders Decoding

/-- Cookies that a client may be asked to send back. -/
structure Sendable (cookies : List (Str × Str)) : Prop where
  name : ∀ c ∈ cookies, Token c.1
  value : ∀ c ∈ cookies, Trimmed c.2 ∧ 59 ∉ c.2
  distinct : (cookies.map fun c => to_lowercase_str c.1).Nodup

/-- The texts of the cookies, joined. -/
def joined (cookies : List (Str × Str)) : Except Exn Str :=
  (cookies.mapM fun c => (Cookie.new c.1 c.2).to_string).map fun texts =>
    (str "; ").intercalate texts

/-- Each cookie under its folded name, and nothing else. -/
structure Decoded (m : HttpHeaders) (cookies : List (Str × Str)) : Prop where
  found : ∀ c ∈ cookies, m.m_cookies.find (to_lowercase_str c.1) = some (Cookie.new c.1 c.2)
  only : ∀ k ∈ m.m_cookies, ∃ c ∈ cookies, to_lowercase_str c.1 = k

/-- A cookie without attributes is written as its pair. -/
theorem to_string_new {c : Str × Str} (hname : c.1 ≠ []) (hvalue : c.2 ≠ []) :
    (Cookie.new c.1 c.2).to_string = .ok (cookie_pair c) := by
  have hfilled : (Cookie.new c.1 c.2).Filled := ⟨hname, hvalue⟩
  rw [Cookie.to_string_of_filled hfilled]
  simp [Cookie.new, cookie_pair, str]

theorem joined_eq {cookies : List (Str × Str)} (h : Sendable cookies) :
    joined cookies = .ok (cookie_text cookies) := by
  have hmap : ∀ cookies : List (Str × Str), (∀ c ∈ cookies, c.1 ≠ [] ∧ c.2 ≠ []) →
      (cookies.mapM fun c => (Cookie.new c.1 c.2).to_string) = .ok (cookies.map cookie_pair) := by
    intro cookies
    induction cookies with
    | nil => exact fun _ => rfl
    | cons c cookies ih =>
        intro hne
        obtain ⟨hc, hrest⟩ := List.forall_mem_cons.mp hne
        rw [List.mapM_cons, to_string_new hc.1 hc.2, ih hrest]
        rfl
  rw [joined, hmap cookies fun c hc => ⟨(h.name c hc).ne, (h.value c hc).1.ne⟩]
  rfl

theorem Sendable.piece {cookies : List (Str × Str)} (h : Sendable cookies) {c : Str × Str}
    (hc : c ∈ cookies) : Trimmed (cookie_pair c) ∧ 59 ∉ cookie_pair c :=
  cookie_pair_piece (h.name c hc) (h.value c hc).1 (h.value c hc).2

theorem find_parse_joined {cookies : List (Str × Str)} (h : Sendable cookies) (k : Str) :
    (parse_cookie ∅ (cookie_text cookies)).m_cookies.find k
      = first_cookie k (cookies.filter fun c => 61 ∉ c.2) := by
  rw [parse_cookie, cookie_text, pieces_intercalate (List.forall_mem_map.mpr fun c hc => h.piece hc),
    find_insert_cookies fun c hc => (h.name c hc).equals, m_cookies_empty, find_empty,
    Option.none_or]

theorem mem_of_first_cookie {k : Str} {cookies : List (Str × Str)} {cookie : Cookie}
    (h : first_cookie k cookies = some cookie) :
    ∃ c ∈ cookies, to_lowercase_str c.1 = k ∧ cookie = Cookie.new c.1 c.2 := by
  obtain ⟨c, hc, hnew⟩ := Option.map_eq_some_iff.mp h
  exact ⟨c, List.mem_of_find?_eq_some hc, by simpa using List.find?_some hc, hnew.symm⟩

/-- **COOKIES READ BACK** exactly when no value has an equals sign. -/
theorem decoded_joined_iff {cookies : List (Str × Str)} (h : Sendable cookies) :
    ∃ text, joined cookies = .ok text
      ∧ (Decoded (parse_cookie ∅ text) cookies ↔ ∀ c ∈ cookies, 61 ∉ c.2) := by
  refine ⟨cookie_text cookies, joined_eq h, ?_, ?_⟩
  · intro hdecoded c hc
    have hfound := hdecoded.found c hc
    rw [find_parse_joined h] at hfound
    -- the pair that was entered is the one with the name
    obtain ⟨d, hd, hname, -⟩ := mem_of_first_cookie hfound
    obtain ⟨hmem, hvalue⟩ := List.mem_filter.mp hd
    rw [← List.inj_on_of_nodup_map h.distinct hmem hc hname]
    exact of_decide_eq_true hvalue
  · intro hvalues
    have hall : cookies.filter (fun c => 61 ∉ c.2) = cookies :=
      List.filter_eq_self.mpr fun c hc => decide_eq_true (hvalues c hc)
    have hfind : ∀ k, (parse_cookie ∅ (cookie_text cookies)).m_cookies.find k
        = first_cookie k cookies := by
      intro k
      rw [find_parse_joined h, hall]
    refine ⟨fun c hc => ?_, fun k hk => ?_⟩
    · rw [hfind, first_cookie_of_mem h.distinct hc]
    · obtain ⟨cookie, hcookie⟩ := mem_iff_find.mp hk
      rw [hfind] at hcookie
      obtain ⟨c, hc, hname, -⟩ := mem_of_first_cookie hcookie
      exact ⟨c, hc, hname⟩

/-- Two cookies without an equals sign. -/
theorem two_cookies_decoded :
    ∃ text, joined [(str "sid", str "abc"), (str "Theme", str "dark")] = .ok text
      ∧ (Decoded (parse_cookie ∅ text) [(str "sid", str "abc"), (str "Theme", str "dark")]
        ↔ ∀ c ∈ [(str "sid", str "abc"), (str "Theme", str "dark")], 61 ∉ c.2) := by
  refine decoded_joined_iff ⟨by decide, ?_, by decide⟩
  have hvalue : ∀ s : Str, Token s → Trimmed s ∧ 59 ∉ s :=
    fun s hs => ⟨Trimmed.of_visible hs.ne hs.visible, hs.semicolon⟩
  exact List.forall_mem_cons.mpr ⟨hvalue _ (by decide),
    List.forall_mem_singleton.mpr (hvalue _ (by decide))⟩

/-- A value with padding is lost. -/
theorem padded_value_lost :
    Sendable [(str "sid", str "YWI=")]
      ∧ joined [(str "sid", str "YWI=")] = .ok (str "sid=YWI=")
      ∧ (parse_cookie ∅ (str "sid=YWI=")).m_cookies.find (str "sid") = none
      ∧ ¬ Decoded (parse_cookie ∅ (str "sid=YWI=")) [(str "sid", str "YWI=")] := by
  have hnone : (parse_cookie ∅ (str "sid=YWI=")).m_cookies.find (str "sid") = none := by decide
  refine ⟨⟨by decide, ?_, by decide⟩, by rfl, hnone, fun h => ?_⟩
  · exact List.forall_mem_singleton.mpr
      ⟨Trimmed.of_visible (by decide) (visible_of_all (by decide)), by decide⟩
  · have hfound := h.found _ List.mem_cons_self
    have hfold : to_lowercase_str (str "sid") = str "sid" := by decide
    rw [hfold, hnone] at hfound
    cases hfound

end WebLib.RequestCookies
