import WebLib.ReadRequest

/-! # The request line

    `parse_request_line` ends method and path at the first two spaces of the
    whole message.  Nothing stops the search at the end of the first line: a
    line with fewer spaces takes them from the headers behind it, and then the
    method or the path has a line end in it. -/

namespace WebLib.Utils

open WebLib ByteString ReadRequest

/-- The request line, split at its two spaces. -/
theorem parse_request_line_ok_iff {raw_http method path : Str} :
    parse_request_line raw_http = .ok (method, path)
      ↔ ∃ rest, raw_http = method ++ 32 :: (path ++ 32 :: rest) ∧ 32 ∉ method ∧ 32 ∉ path := by
  have hread : ∀ m p rest : Str, 32 ∉ m → 32 ∉ p →
      parse_request_line (m ++ 32 :: (p ++ 32 :: rest)) = .ok (m, p) := by
    intro m p rest hm hp
    have hmethod : find_char 32 (m ++ 32 :: (p ++ 32 :: rest)) = some m.length :=
      Search.find_singleton_append hm _
    have hdrop : (m ++ 32 :: (p ++ 32 :: rest)).drop (m.length + 1) = p ++ 32 :: rest :=
      Search.drop_past m 32 _
    have hpath : find_from 32 (m ++ 32 :: (p ++ 32 :: rest)) (m.length + 1)
        = some (p.length + (m.length + 1)) := by
      rw [find_from, hdrop, Search.find_singleton_append hp rest]
      rfl
    have hsize : size_sub (size_sub (p.length + (m.length + 1)) m.length) 1 = p.length := by
      rw [size_sub_of_le (show m.length ≤ p.length + (m.length + 1) by omega),
        size_sub_of_le (by omega)]
      omega
    simp only [parse_request_line, hmethod, hpath, hsize]
    rw [substr_of_le _ (by simp), hdrop, List.take_left, List.take_left]
    rfl
  constructor
  · intro h
    cases hm : find_char 32 raw_http with
    | none =>
        rw [parse_request_line, hm] at h
        cases h
    | some i =>
        obtain ⟨m, more, rfl, hmem, rfl⟩ := Search.find_singleton_eq_some_iff.mp hm
        cases hp : find_char 32 more with
        | none =>
            have hdrop : (m ++ 32 :: more).drop (m.length + 1) = more :=
              Search.drop_past m 32 more
            rw [parse_request_line, hm] at h
            simp only [find_from, hdrop, hp, Option.map_none] at h
            cases h
        | some j =>
            obtain ⟨p, rest, rfl, hpath, -⟩ := Search.find_singleton_eq_some_iff.mp hp
            rw [hread m p rest hmem hpath] at h
            cases h
            exact ⟨rest, rfl, hmem, hpath⟩
  · rintro ⟨rest, rfl, hm, hp⟩
    exact hread method path rest hm hp

/-! ## Messages that are rejected -/

/-- The error of a message without two spaces. -/
def line_error : Fault := .throws (.runtime_error (str "HTTP request is ill-formed"))

theorem parse_request_line_of_count_lt {raw_http : Str} (h : raw_http.count 32 < 2) :
    parse_request_line raw_http = .error line_error := by
  cases hm : find_char 32 raw_http with
  | none =>
      rw [parse_request_line, hm]
      rfl
  | some i =>
      obtain ⟨m, more, rfl, hmem, rfl⟩ := Search.find_singleton_eq_some_iff.mp hm
      have hmore : 32 ∉ more := by
        rw [List.count_append, List.count_cons_self] at h
        exact List.count_eq_zero.mp (by omega)
      have hp : find_char 32 more = none := Search.find_singleton_eq_none_iff.mpr hmore
      have hdrop : (m ++ 32 :: more).drop (m.length + 1) = more := Search.drop_past m 32 more
      rw [parse_request_line, hm]
      simp only [find_from, hdrop, hp, Option.map_none]
      rfl

theorem exists_parse_request_line {raw_http : Str} (h : 2 ≤ raw_http.count 32) :
    ∃ method path, parse_request_line raw_http = .ok (method, path) := by
  have hmem : 32 ∈ raw_http := List.count_pos_iff.mp (by omega)
  obtain ⟨m, more, rfl, hm⟩ := List.eq_append_cons_of_mem hmem
  rw [List.count_append, List.count_eq_zero.mpr hm, List.count_cons_self] at h
  have hmem' : 32 ∈ more := List.count_pos_iff.mp (by omega)
  obtain ⟨p, rest, rfl, hp⟩ := List.eq_append_cons_of_mem hmem'
  exact ⟨m, p, parse_request_line_ok_iff.mpr ⟨rest, rfl, hm, hp⟩⟩

/-! ## The first line -/

/-- A text without spaces and line ends. -/
structure Plain (s : Str) : Prop where
  space : 32 ∉ s
  one_line : OneLine s

instance (s : Str) : Decidable (Plain s) :=
  decidable_of_iff (32 ∉ s ∧ OneLine s) ⟨fun h => ⟨h.1, h.2⟩, fun h => ⟨h.1, h.2⟩⟩

/-- The text before the first line end. -/
def first_line (raw_http : Str) : Str :=
  raw_http.take ((Search.find CRNL raw_http).getD raw_http.length)

/-- What it means to read the first line only. -/
structure FirstLineOnly (raw_http : Str) : Prop where
  succeeds : (∃ parts, parse_request_line raw_http = .ok parts)
    ↔ 2 ≤ (first_line raw_http).count 32
  parts : ∀ method path, parse_request_line raw_http = .ok (method, path) →
    (∃ rest, raw_http = method ++ 32 :: (path ++ 32 :: rest))
      ∧ Plain method ∧ Plain path ∧ method ++ 32 :: path <+: first_line raw_http
  throws : ¬ 2 ≤ (first_line raw_http).count 32 →
    ∃ e, parse_request_line raw_http = .error (.throws e)

/-- The line itself has a plain method and a plain path, each with its space. -/
def PlainLine (line : Str) : Prop :=
  ∃ method path tail, line = method ++ 32 :: (path ++ 32 :: tail) ∧ Plain method ∧ Plain path

theorem count_line (method path tail : Str) :
    2 ≤ (method ++ 32 :: (path ++ 32 :: tail)).count (32 : Byte) := by
  rw [List.count_append, List.count_cons_self, List.count_append, List.count_cons_self]
  omega

theorem PlainLine.first_line_only {raw_http : Str} (h : PlainLine (first_line raw_http)) :
    FirstLineOnly raw_http := by
  obtain ⟨method, path, tail, hline, hm, hp⟩ := h
  obtain ⟨more, hraw⟩ : first_line raw_http <+: raw_http := List.take_prefix _ _
  have hparse : parse_request_line raw_http = .ok (method, path) :=
    parse_request_line_ok_iff.mpr ⟨tail ++ more, by rw [← hraw, hline]; simp, hm.space, hp.space⟩
  have hcount : 2 ≤ (first_line raw_http).count 32 := hline ▸ count_line method path tail
  refine ⟨⟨fun _ => hcount, fun _ => ⟨_, hparse⟩⟩, ?_, fun hlt => absurd hcount hlt⟩
  intro method' path' h'
  rw [hparse] at h'
  cases h'
  refine ⟨⟨tail ++ more, ?_⟩, hm, hp, 32 :: tail, ?_⟩
  · rw [← hraw, hline]
    simp
  · rw [hline]
    simp

/-- **THE FIRST LINE ONLY**: exactly when that line has its two spaces before any
    lone line end, or when there are no two spaces in the whole message. -/
theorem first_line_only_iff (raw_http : Str) :
    FirstLineOnly raw_http ↔ PlainLine (first_line raw_http) ∨ raw_http.count 32 < 2 := by
  obtain ⟨behind, hraw⟩ : first_line raw_http <+: raw_http := List.take_prefix _ _
  constructor
  · intro hfirst
    refine or_iff_not_imp_right.mpr fun hcount => ?_
    obtain ⟨method, path, hparse⟩ := exists_parse_request_line (Nat.le_of_not_lt hcount)
    obtain ⟨⟨rest, hsplit⟩, hm, hp, more, hline⟩ := hfirst.parts method path hparse
    have htwo : 2 ≤ (first_line raw_http).count 32 := hfirst.succeeds.mp ⟨_, hparse⟩
    -- the line has a second space, so it goes on behind the path
    cases more with
    | nil =>
        rw [← hline] at htwo
        simp [List.count_eq_zero.mpr hm.space, List.count_eq_zero.mpr hp.space] at htwo
    | cons b tail =>
        have hb : b = 32 := by
          have hboth : method ++ 32 :: path ++ b :: tail ++ behind
              = method ++ 32 :: (path ++ 32 :: rest) := by rw [hline, hraw, hsplit]
          simp only [List.append_assoc, List.cons_append] at hboth
          have hpath := (List.cons.inj (List.append_cancel_left hboth)).2
          exact (List.cons.inj (List.append_cancel_left hpath)).1
        exact ⟨method, path, tail, by rw [← hline, hb]; simp, hm, hp⟩
  · rintro (hline | hcount)
    · exact hline.first_line_only
    · have herror := parse_request_line_of_count_lt hcount
      have hle : (first_line raw_http).count 32 ≤ raw_http.count 32 :=
        (List.take_sublist _ raw_http).count_le 32
      refine ⟨⟨?_, fun htwo => by omega⟩, ?_, fun _ => ⟨_, herror⟩⟩
      · rintro ⟨parts, hparts⟩
        rw [herror] at hparts
        cases hparts
      · intro method path hparse
        rw [herror] at hparse
        cases hparse

/-- A line without spaces: the method goes on to the first header. -/
theorem method_over_line_end :
    first_line (str "GET\r\nHost: a b\r\n\r\n") = str "GET"
      ∧ parse_request_line (str "GET\r\nHost: a b\r\n\r\n")
        = .ok (str "GET\r\nHost:", str "a")
      ∧ ¬ FirstLineOnly (str "GET\r\nHost: a b\r\n\r\n") := by
  have hparse : parse_request_line (str "GET\r\nHost: a b\r\n\r\n")
      = .ok (str "GET\r\nHost:", str "a") := by rfl
  refine ⟨by decide, hparse, fun h => ?_⟩
  exact absurd (h.succeeds.mp ⟨_, hparse⟩) (by decide)

end WebLib.Utils
