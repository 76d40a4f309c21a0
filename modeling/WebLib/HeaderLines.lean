import WebLib.ResponseText

/-! # One line per header

    Header names are the same in any letter case, but the map behind a response
    compares them byte by byte: a name set under two spellings has two lines,
    one of them out of date, and the automatic Content-Length joins any spelling
    that is not its own.  `Set-Cookie` is the opposite case: it may repeat, but
    the map has one place for it, which every call of `set_cookie` overwrites.

    Both are read off the calls alone: which keys are in place at the end, and
    which call was the last to set a name. -/

namespace WebLib.HttpResponse

open WebLib ByteString UnorderedMap Utils

universe u

variable {Json : Type u} (writeString : Json → Str)

/-! ## What is in place and what was set last -/

/-- The last call that set a name in any letter case: how it spelled the name,
    and the value. -/
def last_set (calls : List (Call Json)) (n : Str) : Option (Str × Str) :=
  calls.reverse.findSome? fun call =>
    match call.touch with
    | some (name, some value) =>
        if to_lowercase_str name = to_lowercase_str n then some (name, value) else none
    | _ => none

theorem last_set_concat (calls : List (Call Json)) (call : Call Json) (n : Str) :
    last_set (calls ++ [call]) n = match call.touch with
      | some (name, some value) =>
          if to_lowercase_str name = to_lowercase_str n then some (name, value)
          else last_set calls n
      | _ => last_set calls n := by
  rw [last_set, List.reverse_concat, List.findSome?_cons]
  cases call.touch with
  | none => rfl
  | some t =>
      obtain ⟨name, value⟩ := t
      cases value with
      | none => rfl
      | some value =>
          by_cases h : to_lowercase_str name = to_lowercase_str n
          · simp [h]
          · simp only [if_neg h]
            rfl

theorem in_place_concat (calls : List (Call Json)) (call : Call Json) (n : Str) :
    in_place (calls ++ [call]) n = match call.touch with
      | some (name, value) => if n = name then value else in_place calls n
      | none => in_place calls n := by
  have hfind := find_touched (after (fun _ => []) calls).m_headers call.touch n
  rw [find_after] at hfind
  rw [← find_after (fun _ => []), after_concat, after_eq]
  refine hfind.trans ?_
  cases call.touch <;> rfl

/-- If the last call that set a name spelled it as the key in place, it set the
    value in place. -/
theorem value_of_last_set {calls : List (Call Json)} {n value value' : Str}
    (hin : in_place calls n = some value) (hlast : last_set calls n = some (n, value')) :
    value' = value := by
  induction calls using List.reverseRecOn with
  | nil => cases hlast
  | append_singleton calls call ih =>
      rw [in_place_concat] at hin
      rw [last_set_concat] at hlast
      match ht : call.touch with
      | none =>
          rw [ht] at hin hlast
          exact ih hin hlast
      | some (name, none) =>
          rw [ht] at hin hlast
          by_cases hname : n = name
          · simp [hname] at hin
          · exact ih (by simpa [hname] using hin) hlast
      | some (name, some v) =>
          rw [ht] at hin hlast
          by_cases hname : n = name
          · subst hname
            simp only [if_true, Option.some.injEq, Prod.mk.injEq, true_and] at hin hlast
            exact hlast.symm.trans hin
          · simp only [if_neg hname] at hin
            simp only at hlast
            split at hlast
            · cases hlast
              exact absurd rfl hname
            · exact ih hin hlast

/-- The body the calls leave. -/
def last_body (calls : List (Call Json)) : Str :=
  (calls.reverse.findSome? fun call =>
    match call with
    | .set_body text => some text
    | .set_body_json json_obj => some (writeString json_obj)
    | _ => none).getD []

theorem body_after (calls : List (Call Json)) :
    (after writeString calls).m_body = last_body writeString calls := by
  induction calls using List.reverseRecOn with
  | nil => rfl
  | append_singleton calls call ih =>
      rw [after_concat, after_eq, last_body, List.reverse_concat, List.findSome?_cons]
      cases call with
      | set_body text => rfl
      | set_body_json json_obj => rfl
      | _ => exact ih

theorem mem_header_lines {resp : HttpResponse} {h : Str × Str} :
    h ∈ resp.header_lines ↔ resp.m_headers.find h.1 = some h.2
      ∨ (CONTENT_LENGTH_HEADER ∉ resp.m_headers ∧ h = resp.length_header) := by
  rw [header_lines, List.mem_append, ← mem_entries_iff]
  refine or_congr ?_ ?_
  · constructor
    · intro hmem
      obtain ⟨kv, hkv, rfl⟩ := List.mem_map.mp hmem
      exact hkv
    · intro hmem
      exact List.mem_map.mpr ⟨_, hmem, rfl⟩
  · by_cases hlen : CONTENT_LENGTH_HEADER ∈ resp.m_headers
    · simp [hlen]
    · simp [hlen]

/-! ## One line per header -/

/-- The lines of different headers, but for `Set-Cookie`, have different names
    in any letter case, -/
def Apart (a b : Str × Str) : Prop :=
  to_lowercase_str a.1 = to_lowercase_str b.1 →
    to_lowercase_str a.1 = to_lowercase_str SET_COOKIE

/-- and each line has the value of the last call that set its name. -/
structure OneLineEach (calls : List (Call Json)) (resp : HttpResponse) : Prop where
  apart : resp.header_lines.Pairwise Apart
  latest : ∀ h ∈ resp.header_lines, ∀ set, last_set calls h.1 = some set → h.2 = set.2

/-- One spelling of each name is left, and it is the one set last.  The default
    Content-Type is in place from the start, the automatic length at the end. -/
structure OneSpelling (calls : List (Call Json)) : Prop where
  /-- no two spellings of a name are in place, but for `Set-Cookie` -/
  alone : ∀ m n, in_place calls m ≠ none → in_place calls n ≠ none →
    to_lowercase_str m = to_lowercase_str n →
      m = n ∨ to_lowercase_str m = to_lowercase_str SET_COOKIE
  /-- the last call that set the name spelled it so, or set the same value -/
  latest : ∀ n value, in_place calls n = some value → ∀ set, last_set calls n = some set →
    set.1 = n ∨ set.2 = value
  /-- without the key Content-Length no other spelling is in place, and a length
      that was set and removed is that of the body -/
  length : in_place calls CONTENT_LENGTH_HEADER = none →
    (∀ n, to_lowercase_str n = to_lowercase_str CONTENT_LENGTH_HEADER → in_place calls n = none)
    ∧ ∀ set, last_set calls CONTENT_LENGTH_HEADER = some set →
      set.2 = number (last_body writeString calls).length

instance : Std.Symm Apart where
  symm := by
    intro a b h heq
    rw [heq]
    exact h heq.symm

/-- The lines of the map are those in place, in any of its iteration orders. -/
theorem mem_lines_after {calls : List (Call Json)} {resp : HttpResponse}
    (hr : Reordered (after writeString calls) resp) {h : Str × Str} :
    h ∈ resp.header_lines ↔ in_place calls h.1 = some h.2
      ∨ (in_place calls CONTENT_LENGTH_HEADER = none
        ∧ h = (CONTENT_LENGTH_HEADER, number (last_body writeString calls).length)) := by
  rw [mem_header_lines, hr.find, find_after, ← find_eq_none_iff, hr.find, find_after,
    length_header, hr.body, body_after]

theorem OneSpelling.oneLineEach {calls : List (Call Json)} (h : OneSpelling writeString calls)
    {resp : HttpResponse} (hr : Reordered (after writeString calls) resp) :
    OneLineEach calls resp where
  apart := by
    have hin : ∀ kv ∈ resp.m_headers.entries, in_place calls kv.1 = some kv.2 := by
      intro kv hkv
      rw [← find_after writeString, ← hr.find]
      exact mem_entries_iff.mp hkv
    rw [header_lines, List.pairwise_append]
    refine ⟨?_, ?_, ?_⟩
    · have hkeys := List.nodupKeys_iff_pairwise.mp resp.m_headers.nodupKeys
      rw [List.pairwise_map]
      refine hkeys.imp_of_mem ?_
      intro a b ha hb hne heq
      rcases h.alone a.1 b.1 (by simp [hin a ha]) (by simp [hin b hb]) heq with hab | hcookie
      · exact absurd hab hne
      · exact hcookie
    · split <;> simp
    · -- the automatic line has a name that no other line has
      intro a ha b hb heq
      obtain ⟨kv, hkv, rfl⟩ := List.mem_map.mp ha
      split at hb
      · cases hb
      · next hlen =>
          rw [List.mem_singleton.mp hb] at heq
          rw [← find_eq_none_iff, hr.find, find_after] at hlen
          have hnone := (h.length hlen).1 kv.1 heq
          rw [hin kv hkv] at hnone
          cases hnone
  latest := by
    intro line hline set hset
    rcases (mem_lines_after writeString hr).mp hline with hin | ⟨hnone, rfl⟩
    · rcases h.latest line.1 line.2 hin set hset with hname | hvalue
      · exact (value_of_last_set hin (hset.trans (by rw [← hname]))).symm
      · exact hvalue.symm
    · exact ((h.length hnone).2 set hset).symm

theorem OneLineEach.oneSpelling {calls : List (Call Json)}
    (h : OneLineEach calls (after writeString calls)) : OneSpelling writeString calls := by
  have hmem : ∀ line, line ∈ (after writeString calls).header_lines ↔ _ := fun line =>
    mem_lines_after writeString (Reordered.refl (after writeString calls))
  refine ⟨?_, ?_, ?_⟩
  · intro m n hm hn heq
    obtain ⟨v, hv⟩ := Option.ne_none_iff_exists'.mp hm
    obtain ⟨w, hw⟩ := Option.ne_none_iff_exists'.mp hn
    by_cases hmn : m = n
    · exact Or.inl hmn
    · have hne : (m, v) ≠ (n, w) := fun he => hmn (congrArg Prod.fst he)
      have hmv := (hmem (m, v)).mpr (Or.inl hv)
      have hnw := (hmem (n, w)).mpr (Or.inl hw)
      exact Or.inr (h.apart.forall hmv hnw hne heq)
  · intro n value hin set hset
    have hline := (hmem (n, value)).mpr (Or.inl hin)
    exact Or.inr (h.latest _ hline set hset).symm
  · intro hnone
    have hauto := (hmem _).mpr (Or.inr ⟨hnone, rfl⟩)
    refine ⟨?_, fun set hset => (h.latest _ hauto set hset).symm⟩
    intro n heq
    by_contra hin
    obtain ⟨v, hv⟩ := Option.ne_none_iff_exists'.mp hin
    have hne : (n, v) ≠ (CONTENT_LENGTH_HEADER, number (last_body writeString calls).length) := by
      intro he
      have hn : n = CONTENT_LENGTH_HEADER := congrArg Prod.fst he
      rw [hn, hnone] at hv
      cases hv
    have hcookie := h.apart.forall ((hmem (n, v)).mpr (Or.inl hv)) hauto hne heq
    rw [heq] at hcookie
    exact absurd hcookie (by decide)

/-- **ONE LINE PER HEADER**: the calls leave one line for each name, with its
    latest value, exactly when one spelling of each name is left and it is the
    one set last. -/
theorem oneLineEach_iff (calls : List (Call Json)) :
    (∀ resp, Reordered (after writeString calls) resp → OneLineEach calls resp)
      ↔ OneSpelling writeString calls := by
  constructor
  · intro h
    exact (h _ (Reordered.refl _)).oneSpelling
  · intro h resp hr
    exact h.oneLineEach writeString hr

/-- The default Content-Type and a lower-case one. -/
theorem two_content_types : ¬ ∀ resp,
    Reordered (after (fun _ : Nat => []) [.set_header (str "content-type") (str "text/html")]) resp →
      OneLineEach [(.set_header (str "content-type") (str "text/html") : Call Nat)] resp := by
  intro h
  have hapart := (h _ (Reordered.refl _)).apart
  have hlines : (after (fun _ : Nat => [])
      [.set_header (str "content-type") (str "text/html")]).header_lines
      = [(str "content-type", str "text/html"), (CONTENT_TYPE, str "text/plain"),
        (CONTENT_LENGTH_HEADER, str "0")] := by decide
  rw [hlines] at hapart
  have hcookie := (List.pairwise_cons.mp hapart).1 (CONTENT_TYPE, str "text/plain") (by simp)
  exact absurd (hcookie (by decide)) (by decide)

/-! ## One place for the cookies -/

/-- The cookies set, in the order of the calls. -/
def cookies (calls : List (Call Json)) : List Cookie :=
  calls.filterMap fun call =>
    match call with
    | .set_cookie cookie => some cookie
    | _ => none

/-- The call sets a cookie that has a name and a value, or leaves the key
    `Set-Cookie` alone. -/
def Call.CookieOnly : Call Json → Prop
  | .set_cookie cookie => cookie.Filled
  | call => ∀ value, call.touch ≠ some (SET_COOKIE, value)

/-- Every cookie set has its line. -/
def EveryCookie (calls : List (Call Json)) (resp : HttpResponse) : Prop :=
  ∀ cookie ∈ cookies calls, ∃ text, cookie.to_string = .ok text
    ∧ (SET_COOKIE, text) ∈ resp.header_lines

/-- What is in place is the text of the last cookie. -/
theorem in_place_cookie {calls : List (Call Json)} (h : ∀ call ∈ calls, call.CookieOnly) :
    in_place calls SET_COOKIE
      = (cookies calls).getLast?.bind fun cookie => cookie.to_string.toOption := by
  induction calls using List.reverseRecOn with
  | nil => rfl
  | append_singleton calls call ih =>
      have ih := ih fun c hc => h c (List.mem_append_left _ hc)
      have hcall := h call (by simp)
      have hother : (∀ value, call.touch ≠ some (SET_COOKIE, value)) →
          in_place (calls ++ [call]) SET_COOKIE = in_place calls SET_COOKIE := by
        intro hne
        rw [in_place_concat]
        cases ht : call.touch with
        | none => rfl
        | some t =>
            have hname : SET_COOKIE ≠ t.1 := by
              intro he
              exact hne t.2 (by rw [ht, he])
            simp [hname]
      cases call with
      | set_cookie cookie =>
          have htext := Cookie.to_string_of_filled hcall
          rw [in_place_concat, Call.touch, cookies, List.filterMap_append]
          simp [htext, Except.toOption]
      | _ => exact (hother hcall).trans (ih.trans (by simp [cookies]))

/-- The line with a text of a cookie is the one in place. -/
theorem cookie_line_iff {calls : List (Call Json)} {resp : HttpResponse}
    (hr : Reordered (after writeString calls) resp) (text : Str) :
    (SET_COOKIE, text) ∈ resp.header_lines ↔ in_place calls SET_COOKIE = some text := by
  rw [mem_lines_after writeString hr]
  have hne : (SET_COOKIE, text)
      ≠ (CONTENT_LENGTH_HEADER, number (last_body writeString calls).length) := by
    intro he
    have hname : SET_COOKIE = CONTENT_LENGTH_HEADER := congrArg Prod.fst he
    exact absurd hname (by decide)
  simp [hne]

/-- **NO COOKIE IS LOST** exactly when all cookies set have one text: with
    different texts only the last one stays. -/
theorem everyCookie_iff {calls : List (Call Json)} (h : ∀ call ∈ calls, call.CookieOnly) :
    (∀ resp, Reordered (after writeString calls) resp → EveryCookie calls resp)
      ↔ ∀ cookie ∈ cookies calls, ∀ other ∈ cookies calls,
          cookie.to_string = other.to_string := by
  constructor
  · intro hall cookie hc other ho
    have hr := Reordered.refl (after writeString calls)
    obtain ⟨text, htext, hline⟩ := hall _ hr cookie hc
    obtain ⟨text', htext', hline'⟩ := hall _ hr other ho
    rw [cookie_line_iff writeString hr] at hline hline'
    rw [htext, htext', Option.some.inj (hline.symm.trans hline')]
  · intro hsame resp hr cookie hc
    obtain ⟨last, hlast⟩ : ∃ last, (cookies calls).getLast? = some last :=
      Option.isSome_iff_exists.mp (by simp [List.ne_nil_of_mem hc])
    have hmem : last ∈ cookies calls := List.mem_of_getLast? hlast
    obtain ⟨call, hcall, hcookie⟩ := List.mem_filterMap.mp hmem
    have hfilled : last.Filled := by
      cases call with
      | set_cookie cookie => cases hcookie; exact h _ hcall
      | _ => cases hcookie
    have htext := Cookie.to_string_of_filled hfilled
    refine ⟨_, (hsame cookie hc last hmem).trans htext, ?_⟩
    rw [cookie_line_iff writeString hr, in_place_cookie h, hlast, Option.bind_some, htext]
    rfl

/-- One cookie among other calls. -/
def one_cookie : List (Call Nat) :=
  [.set_cookie (.new (str "a") (str "1")), .set_status 404,
    .set_header (str "set-cookie") (str "b=2")]

theorem one_cookie_has_line : EveryCookie one_cookie (after (fun _ => []) one_cookie) := by
  refine (everyCookie_iff _ ?_).mpr ?_ _ (Reordered.refl _)
  · intro call hcall
    simp only [one_cookie, List.mem_cons, List.not_mem_nil, or_false] at hcall
    rcases hcall with rfl | rfl | rfl
    · exact ⟨by decide, by decide⟩
    · intro value h
      cases h
    · intro value h
      have hname : str "set-cookie" = SET_COOKIE := congrArg Prod.fst (Option.some.inj h)
      exact absurd hname (by decide)
  · intro cookie hc other ho
    rw [List.mem_singleton.mp hc, List.mem_singleton.mp ho]

def two_cookies : List (Call Nat) :=
  [.set_cookie (.new (str "a") (str "1")), .set_cookie (.new (str "b") (str "2"))]

/-- The second cookie overwrites the first. -/
theorem first_cookie_lost : ¬ ∀ resp, Reordered (after (fun _ => []) two_cookies) resp →
    EveryCookie two_cookies resp := by
  intro h
  have hr := Reordered.refl (after (fun _ => []) two_cookies)
  obtain ⟨text, htext, hline⟩ := h _ hr (.new (str "a") (str "1")) List.mem_cons_self
  have hfirst : text = str "a=1" := by
    cases htext
    rfl
  have hplace : in_place two_cookies SET_COOKIE = some (str "b=2") := rfl
  rw [cookie_line_iff _ hr, hplace, hfirst] at hline
  exact absurd hline (by decide)

end WebLib.HttpResponse
