import WebLib.HttpQuery
import WebLib.RequestLine

/-! # The two readings of the request target

    `parse_request_line` ends method and path at the first two spaces;
    `HttpQuery::parse_from_string` takes what stands between the first slash of
    the message and the byte before its first `HTTP`.  Each reading is one way
    to split the message, and the two agree exactly on the messages that split
    both ways around the same text. -/

namespace WebLib.HttpQuery

open WebLib ByteString Utils

/-- `std::string::max_size()`. -/
def max_size : Nat := 2 ^ 63 - 1

/-! ## The slice -/

/-- `path` is the text between the first slash and the byte before the first
    `HTTP`. -/
def SlashToVersion (raw_http path : Str) : Prop :=
  ∃ before b after, raw_http = before ++ 47 :: (path ++ b :: (HTTP ++ after)) ∧ 47 ∉ before
    ∧ Search.find HTTP raw_http = some (before.length + path.length + 2)

/-- A slice that fits has a length that did not wrap. -/
theorem slice_fits {version start length : Nat} (hlen : length ≤ max_size)
    (hstart : start + 1 ≤ length) (hversion : version = npos ∨ version ≤ length)
    (hfit : start + 1 + size_sub (size_sub version start) 2 ≤ length) :
    start + 2 ≤ version ∧ version ≤ length
      ∧ size_sub (size_sub version start) 2 = version - (start + 2) := by
  simp only [size_sub, npos, sizeMod, max_size] at *
  split_ifs at hfit ⊢ <;> omega

/-- The text between the slash and `HTTP`, less its last byte. -/
theorem split_at_version {before rest path : Str} {version : Nat} (hbefore : 47 ∉ before)
    (hv : Search.find HTTP (before ++ 47 :: rest) = some version)
    (hge : before.length + 2 ≤ version)
    (hpath : rest.take (version - (before.length + 2)) = path) :
    SlashToVersion (before ++ 47 :: rest) path := by
  have hinside := Search.find_le_length hv
  obtain ⟨-, ⟨after, hafter⟩, -⟩ := Search.find_eq_some_iff.mp hv
  have hfour : HTTP.length = 4 := rfl
  simp only [List.length_append, List.length_cons] at hinside
  have hshort : version - (before.length + 2) < rest.length := by omega
  have hlength : path.length = version - (before.length + 2) := by
    rw [← hpath, List.length_take]
    omega
  have hrest : rest.drop (version - (before.length + 2) + 1) = HTTP ++ after := by
    have hat : version = before.length + (version - (before.length + 2) + 1 + 1) := by omega
    rw [hafter]
    conv_rhs => rw [hat, ← List.drop_drop, List.drop_left]
    rfl
  have hsplit : rest = path ++ rest[version - (before.length + 2)] :: (HTTP ++ after) := by
    rw [← hrest, ← List.drop_eq_getElem_cons hshort, ← hpath, List.take_append_drop]
  refine ⟨before, rest[version - (before.length + 2)], after, ?_, hbefore, ?_⟩
  · rw [← hsplit]
  · rw [hv, hlength]
    congr 1
    omega

/-- **WHAT THE SLICE IS**. -/
theorem request_path_ok_iff {raw_http path : Str} (hlen : raw_http.length ≤ max_size) :
    request_path raw_http = .ok path ↔ SlashToVersion raw_http path := by
  constructor
  · intro h
    cases hs : find_char 47 raw_http with
    | none =>
        rw [request_path, hs] at h
        cases h
    | some start =>
        rw [request_path, hs] at h
        simp only [string_view] at h
        split at h
        · next hfit =>
            obtain ⟨before, rest, rfl, hbefore, rfl⟩ := Search.find_singleton_eq_some_iff.mp hs
            have hslash : before.length + 1 ≤ (before ++ 47 :: rest).length := by simp
            have hdrop : (before ++ 47 :: rest).drop (before.length + 1) = rest :=
              Search.drop_past before 47 rest
            cases hv : Search.find HTTP (before ++ 47 :: rest) with
            | none =>
                rw [hv, Option.getD_none] at hfit
                obtain ⟨-, hle, -⟩ := slice_fits hlen hslash (Or.inl rfl) hfit
                have hbound := hle.trans hlen
                exact absurd hbound (by decide)
            | some version =>
                have hinside := Search.find_le_length hv
                rw [hv, Option.getD_some] at hfit h
                obtain ⟨hge, hle, hsize⟩ := slice_fits hlen hslash (Or.inr (by omega)) hfit
                rw [hsize, hdrop] at h
                exact split_at_version hbefore hv hge (Except.ok.inj h)
        · cases h
  · rintro ⟨before, b, after, hraw, hbefore, hv⟩
    have hs : find_char 47 raw_http = some before.length :=
      Search.find_singleton_eq_some_iff.mpr ⟨before, _, hraw, hbefore, rfl⟩
    have hsize : size_sub (size_sub (before.length + path.length + 2) before.length) 2
        = path.length := by
      rw [size_sub_of_le (show before.length ≤ before.length + path.length + 2 by omega),
        size_sub_of_le (by omega)]
      omega
    have hfit : before.length + 1 + path.length ≤ raw_http.length := by
      rw [hraw]
      simp only [List.length_append, List.length_cons]
      omega
    have hdrop : raw_http.drop (before.length + 1) = path ++ b :: (HTTP ++ after) := by
      rw [hraw, Search.drop_past]
    rw [request_path, hs, hv]
    simp only [Option.getD_some, hsize]
    rw [string_view, if_pos hfit, hdrop, List.take_left]

/-! ## Where the readings agree -/

/-- What is found within a prefix is found in the prefix. -/
theorem find_of_append {pat s t : Str} {i : Nat} (h : Search.find pat (s ++ t) = some i)
    (hp : pat <:+: s) : Search.find pat s = some i := by
  cases hs : Search.find pat s with
  | none => exact absurd hp (Search.find_eq_none_iff.mp hs)
  | some j => rw [← h, Search.find_append_of_some t hs]

/-- A slice that starts in the method ends in it: the method's end is the first
    space, and neither the slice nor `HTTP` has one. -/
theorem slice_in_method {m p after more : Str} {b : Byte} (hm : 32 ∉ m) (hp : 32 ∉ p)
    (h : m ++ 32 :: 47 :: more = p ++ b :: (HTTP ++ after)) :
    ∃ c, m = p ++ b :: (HTTP ++ c) := by
  have hHTTP : (32 : Byte) ∉ HTTP := by decide
  by_cases hb : b = 32
  · -- the space is the byte before `HTTP`, which then is the slash
    subst hb
    obtain ⟨-, heq⟩ := Search.first_split_unique hm hp h
    exact absurd (List.cons.inj heq).1 (by decide)
  · have hafter : 32 ∈ after := by
      have hmem : (32 : Byte) ∈ p ++ b :: (HTTP ++ after) := by
        rw [← h]
        simp
      simpa [hp, Ne.symm hb, hHTTP] using hmem
    obtain ⟨c, after', rfl, hc⟩ := List.eq_append_cons_of_mem hafter
    have hnot : (32 : Byte) ∉ p ++ b :: (HTTP ++ c) := by
      simp [hp, Ne.symm hb, hHTTP, hc]
    have hsplit : m ++ 32 :: 47 :: more = (p ++ b :: (HTTP ++ c)) ++ 32 :: after' := by
      rw [h]
      simp
    exact ⟨c, (Search.first_split_unique hm hnot hsplit).1⟩

/-- The method has no slash and `HTTP` comes first right after the path; or the
    method has the rest of the path behind its own first slash, and then `HTTP`. -/
def TargetMarked (raw_http method path : Str) : Prop :=
  (47 ∉ method ∧ Search.find HTTP raw_http = some (method.length + path.length + 2))
    ∨ SlashToVersion method (path.drop 1)

theorem TargetMarked.slash {raw_http method p rest : Str}
    (hraw : raw_http = method ++ 32 :: (47 :: p ++ 32 :: rest))
    (h : TargetMarked raw_http method (47 :: p)) : SlashToVersion raw_http p := by
  rcases h with ⟨hmethod, hv⟩ | ⟨before, b, after, rfl, hbefore, hv⟩
  · obtain ⟨-, ⟨after, hafter⟩, -⟩ := Search.find_eq_some_iff.mp hv
    have hat : method.length + (47 :: p).length + 2 = (method ++ 32 :: (47 :: p ++ [32])).length := by
      simp only [List.length_append, List.length_cons, List.length_nil]
      omega
    have hrest : raw_http.drop (method.length + (47 :: p).length + 2) = rest := by
      rw [hat, hraw, show method ++ 32 :: (47 :: p ++ 32 :: rest)
        = (method ++ 32 :: (47 :: p ++ [32])) ++ rest by simp, List.drop_left]
    refine ⟨method ++ [32], 32, after, ?_, by simp [hmethod], ?_⟩
    · rw [hraw, hafter, hrest]
      simp
    · rw [hv]
      simp only [List.length_append, List.length_cons, List.length_nil]
      congr 1
      omega
  · refine ⟨before, b, after ++ 32 :: (47 :: p ++ 32 :: rest), ?_, hbefore, ?_⟩
    · rw [hraw]
      simp
    · rw [hraw]
      exact Search.find_append_of_some _ hv

theorem SlashToVersion.marked {raw_http method p rest : Str}
    (hraw : raw_http = method ++ 32 :: (47 :: p ++ 32 :: rest)) (hm : 32 ∉ method) (hp : 32 ∉ p)
    (h : SlashToVersion raw_http p) : TargetMarked raw_http method (47 :: p) := by
  obtain ⟨before, b, after, hsplit, hbefore, hv⟩ := h
  by_cases hslash : 47 ∈ method
  · obtain ⟨m₁, m₂, rfl, hm₁⟩ := List.eq_append_cons_of_mem hslash
    have hboth : m₁ ++ 47 :: (m₂ ++ 32 :: 47 :: (p ++ 32 :: rest))
        = before ++ 47 :: (p ++ b :: (HTTP ++ after)) := by
      rw [← hsplit, hraw]
      simp
    obtain ⟨rfl, htail⟩ := Search.first_split_unique hm₁ hbefore hboth
    have hm₂ : 32 ∉ m₂ := fun hmem => hm (by simp [hmem])
    obtain ⟨c, rfl⟩ := slice_in_method hm₂ hp htail
    refine Or.inr ⟨m₁, b, c, rfl, hm₁, ?_⟩
    rw [hraw] at hv
    exact find_of_append hv ⟨m₁ ++ 47 :: (p ++ [b]), c, by simp⟩
  · have hboth : (method ++ [32]) ++ 47 :: (p ++ 32 :: rest)
        = before ++ 47 :: (p ++ b :: (HTTP ++ after)) := by
      rw [← hsplit, hraw]
      simp
    obtain ⟨rfl, -⟩ := Search.first_split_unique (by simp [hslash]) hbefore hboth
    refine Or.inl ⟨hslash, ?_⟩
    rw [hv]
    simp only [List.length_append, List.length_cons, List.length_nil]
    congr 1
    omega

/-- **THE TWO READINGS OF THE TARGET** agree exactly on the messages that have
    their first slash in the path and their first `HTTP` right after it, or have
    the same text so marked in the method. -/
theorem request_path_eq_iff {raw_http method path : Str} (hlen : raw_http.length ≤ max_size)
    (h : parse_request_line raw_http = .ok (method, path)) (hslash : path.head? = some 47) :
    request_path raw_http = .ok (path.drop 1) ↔ TargetMarked raw_http method path := by
  obtain ⟨rest, hraw, hm, hpath⟩ := parse_request_line_ok_iff.mp h
  obtain ⟨p, rfl⟩ : ∃ p, path = 47 :: p := by
    cases path with
    | nil => cases hslash
    | cons c p => exact ⟨p, by rw [Option.some.inj hslash]⟩
  have hp : 32 ∉ p := fun hmem => hpath (List.mem_cons_of_mem _ hmem)
  rw [List.drop_one, List.tail_cons, request_path_ok_iff hlen]
  exact ⟨fun hs => hs.marked hraw hm hp, fun hmarked => hmarked.slash hraw⟩

/-- An ordinary request line. -/
theorem plain_target_agrees : request_path (str "GET /a/b?k=1 HTTP/1.1\r\n")
    = .ok (str "a/b?k=1") :=
  have h : parse_request_line (str "GET /a/b?k=1 HTTP/1.1\r\n")
      = .ok (str "GET", str "/a/b?k=1") := by rfl
  (request_path_eq_iff (by decide) h (by rfl)).mpr (Or.inl ⟨by decide, by rfl⟩)

/-- A path with `HTTP` in it: the length wraps, and the slice runs past the end. -/
theorem http_in_path :
    parse_request_line (str "GET /HTTP HTTP/1.1\r\n") = .ok (str "GET", str "/HTTP")
      ∧ request_path (str "GET /HTTP HTTP/1.1\r\n") = .error .undefined :=
  ⟨by rfl, by rfl⟩

end WebLib.HttpQuery
