import WebLib.FoldedKeys
import WebLib.HttpQuery

/-! # Reading parameters under their names

    `parse_from_string` enters each text under its name as the template or the
    request spells it; `get_query` folds the name it is asked for.  So a name
    with an upper-case letter is entered where nobody looks. -/

namespace WebLib.HttpQuery

open WebLib ByteString Utils UnorderedMap FoldedKeys

/-- The names of a template and of the static pairs of a request, in order and as
    they are spelled, each with the text of the request that goes under it. -/
def named_texts (t raw_http : Str) : List (Str × Str) :=
  match request_path raw_http with
  | .error _ => []
  | .ok p =>
      (fill (extract_params t) (slots (t.drop 1) p ((query_part (t.drop 1)).getD [])
        ((query_part p).getD []))).getD []

/-- `x` is a name, and `v` the first text under it. -/
def Names (t raw_http x v : Str) : Prop :=
  ((named_texts t raw_http).find? fun z => z.1 = x) = some (x, v)

instance (t raw_http x v : Str) : Decidable (Names t raw_http x v) :=
  inferInstanceAs (Decidable (_ = _))

/-- What is parsed is the named texts. -/
theorem parsed_eq_named {t raw_http : Str} {m : UnorderedMap Str Str}
    (hnames : extract_params t ≠ [])
    (h : parse_from_string ∅ raw_http (extract_params t) t = .ok m) :
    m = emplace_all ∅ (named_texts t raw_http) := by
  obtain ⟨p, tq, pq, texts, hp, hshape, hfill, rfl⟩ := (parse_from_string_ok_iff hnames).mp h
  simp only [named_texts, hp, hshape.t_query, hshape.p_query, hfill, Option.getD_some]

theorem find_parsed_iff {t raw_http x v : Str} {m : UnorderedMap Str Str}
    (hnames : extract_params t ≠ [])
    (h : parse_from_string ∅ raw_http (extract_params t) t = .ok m) :
    m.find x = some v ↔ Names t raw_http x v := by
  rw [parsed_eq_named hnames h, find_emplace_all, find_empty, Option.none_or, Names,
    Option.map_eq_some_iff]
  constructor
  · rintro ⟨⟨y, w⟩, hf, rfl⟩
    have hy : y = x := by simpa using List.find?_some hf
    rw [hf, hy]
  · exact fun hf => ⟨_, hf, rfl⟩

/-- The name has no upper-case letters; or its text is also the first one under
    its folded spelling; or it is empty and nothing goes under that spelling. -/
def ReadsBack (t raw_http x v : Str) : Prop :=
  to_lowercase_str x = x ∨ Names t raw_http (to_lowercase_str x) v
    ∨ (v = [] ∧ ∀ w, ¬ Names t raw_http (to_lowercase_str x) w)

/-- **READING A PARAMETER**: `get_query` with the name of a stored text returns the
    text exactly when the name reads back. -/
theorem get_query_reads_iff {t raw_http x v : Str} {m : UnorderedMap Str Str}
    (h : parse_from_string ∅ raw_http (extract_params t) t = .ok m) (hx : m.find x = some v) :
    get_query m x = v ↔ ReadsBack t raw_http x v := by
  by_cases hnames : extract_params t = []
  · -- nothing is stored without a placeholder
    rw [parse_from_string, if_pos hnames] at h
    rw [← Except.ok.inj h, find_empty] at hx
    cases hx
  · have hfind : ∀ y w, m.find y = some w ↔ Names t raw_http y w :=
      fun y w => find_parsed_iff hnames h
    have hread := read_eq_some_iff to_lowercase_str hx
    rw [ReadsBack, ← hfind, ← or_assoc, ← hread]
    simp only [← hfind]
    rw [get_query, FoldedKeys.read]
    cases m.find (to_lowercase_str x) with
    | none => simp [eq_comm]
    | some w => simp

/-- A placeholder in lower case. -/
theorem get_query_reads_lower : ∃ m : UnorderedMap Str Str,
    m.find (str "id") = some (str "7")
      ∧ (get_query m (str "id") = str "7"
        ↔ ReadsBack (str "/u/" ++ (group (str "id") ++ str "?v=1"))
          (str "GET /u/7?v=1 HTTP/1.1\r\n\r\n") (str "id") (str "7")) := by
  have hok : parse_from_string ∅ (str "GET /u/7?v=1 HTTP/1.1\r\n\r\n")
      (extract_params (str "/u/" ++ (group (str "id") ++ str "?v=1")))
      (str "/u/" ++ (group (str "id") ++ str "?v=1"))
      = .ok (emplace_all ∅ [(str "id", str "7"), (str "v", str "1")]) := by rfl
  exact ⟨_, by decide, get_query_reads_iff hok (by decide)⟩

/-- A placeholder with an upper-case letter is read as empty. -/
theorem mixed_case_reads_empty : ∃ m : UnorderedMap Str Str,
    parse_from_string ∅ (str "GET /u/7?v=1 HTTP/1.1\r\n\r\n")
        (extract_params (str "/u/" ++ (group (str "userId") ++ str "?v=1")))
        (str "/u/" ++ (group (str "userId") ++ str "?v=1")) = .ok m
      ∧ str "userId" ∈ extract_params (str "/u/" ++ (group (str "userId") ++ str "?v=1"))
      ∧ m.find (str "userId") = some (str "7")
      ∧ get_query m (str "userId") = [] := by
  have hok : parse_from_string ∅ (str "GET /u/7?v=1 HTTP/1.1\r\n\r\n")
      (extract_params (str "/u/" ++ (group (str "userId") ++ str "?v=1")))
      (str "/u/" ++ (group (str "userId") ++ str "?v=1"))
      = .ok (emplace_all ∅ [(str "userId", str "7"), (str "v", str "1")]) := by rfl
  exact ⟨_, hok, by decide, by decide, by decide⟩

end WebLib.HttpQuery
