import WebLib.HttpBinder
import WebLib.HttpQuery

/-! # What the router matches and what extraction accepts

    `match_path` and `parse_from_string` read the same template and the same path
    by different rules.  The first drops empty path pieces and compares queries
    as maps; the second pairs all pieces by position.  Here is where the second
    accepts what the first has matched. -/

namespace WebLib.Extraction

open WebLib ByteString Utils UnorderedMap HttpBinder HttpQuery

/-- A raw request with this method and path. -/
def request_text (method path rest : Str) : Str :=
  method ++ 32 :: (path ++ (str " HTTP/1.1" ++ rest))

/-- The router reads the path of such a request and matches it with a registered
    template. -/
structure Routed (t method path : Str) : Prop where
  method_word : 32 ∉ method
  path_word : 32 ∉ path
  matched : ∃ key, process_url_str t = .ok key ∧ match_path key path = .ok true

/-- The path pieces and the query values of a template that have a brace. -/
def holes (t tq : Str) : Nat :=
  (views_split 47 (path_part t)).countP (fun piece => 123 ∈ piece)
    + (views_split 38 tq).countP fun kv => 123 ∈ value_part kv

/-- Template and message have one shape, and there is a name for each hole. -/
def Extractable (t raw_http : Str) : Prop :=
  ∃ p tq pq, request_path raw_http = .ok p ∧ SameShape (t.drop 1) p tq pq
    ∧ holes (t.drop 1) tq ≤ (extract_params t).length

private theorem countP_fst_zip {α β : Type*} (f : α → Bool) {as : List α} {bs : List β}
    (h : as.length = bs.length) : (as.zip bs).countP (fun z => f z.1) = as.countP f := by
  conv_rhs => rw [← List.map_fst_zip (Nat.le_of_eq h), List.countP_map]
  rfl

/-- Each hole is one open slot. -/
theorem countP_slots {t p tq pq : Str} (h : SameShape t p tq pq) :
    ((slots t p tq pq).countP fun slot => slot.1 = none) = holes t tq := by
  rw [slots, holes, path_slots, List.countP_append, List.countP_map, List.countP_map]
  congr 1
  · rw [← countP_fst_zip (fun piece => decide (123 ∈ piece)) h.path_size,
      List.countP_eq_length_filter, List.countP_eq_length_filter, List.filter_filter]
    rfl
  · rw [← countP_fst_zip (fun kv => decide (123 ∈ value_part kv)) h.query_size]
    congr 1
    funext z
    unfold query_slot
    by_cases hz : 123 ∈ value_part z.1 <;> simp [hz]

/-- Parsing returns exactly when there are no parameters or the shapes agree. -/
theorem parse_returns_iff (t raw_http : Str) :
    (∃ m, parse_from_string ∅ raw_http (extract_params t) t = .ok m)
      ↔ extract_params t = [] ∨ Extractable t raw_http := by
  by_cases hnames : extract_params t = []
  · have hok : parse_from_string ∅ raw_http (extract_params t) t = .ok ∅ := if_pos hnames
    exact ⟨fun _ => Or.inl hnames, fun _ => ⟨∅, hok⟩⟩
  · constructor
    · rintro ⟨m, hm⟩
      obtain ⟨p, tq, pq, texts, hp, hshape, hfill, -⟩ :=
        (parse_from_string_ok_iff hnames).mp hm
      refine Or.inr ⟨p, tq, pq, hp, hshape, ?_⟩
      rw [← countP_slots hshape]
      exact fill_isSome_iff.mp ⟨texts, hfill⟩
    · rintro (hnil | ⟨p, tq, pq, hp, hshape, hholes⟩)
      · exact absurd hnil hnames
      · rw [← countP_slots hshape] at hholes
        obtain ⟨texts, hfill⟩ := fill_isSome_iff.mpr hholes
        exact ⟨_, (parse_from_string_ok_iff hnames).mpr
          ⟨p, tq, pq, texts, hp, hshape, hfill, rfl⟩⟩

/-- **WHERE MATCHING AND EXTRACTION AGREE**: for every template and request, what
    the router has matched is extracted without an error exactly when the
    template has no parameters, or template and request have one shape. -/
theorem matched_extracted_iff (t method path rest : Str) :
    (Routed t method path →
        ∃ m, parse_from_string ∅ (request_text method path rest) (extract_params t) t = .ok m)
      ↔ (Routed t method path →
          extract_params t = [] ∨ Extractable t (request_text method path rest)) := by
  rw [parse_returns_iff]

/-- A template with a path parameter and no query. -/
def template_user : Str := str "/user/" ++ group (str "id")

/-- A template that asks for one path parameter matches, and its own extraction
    throws. -/
theorem matched_not_extracted : Routed template_user (str "GET") (str "/user/5")
    ∧ parse_from_string ∅ (request_text (str "GET") (str "/user/5") (str "\r\n\r\n"))
        (extract_params template_user) template_user = .error query_parsing_error
    ∧ ¬ ∃ m, parse_from_string ∅
        (request_text (str "GET") (str "/user/5") (str "\r\n\r\n"))
        (extract_params template_user) template_user = .ok m := by
  have herror : parse_from_string ∅
      (request_text (str "GET") (str "/user/5") (str "\r\n\r\n"))
      (extract_params template_user) template_user = .error query_parsing_error := by rfl
  refine ⟨⟨by decide, by decide, str "/user/" ++ EMPTY_GROUP, by decide, by decide⟩, herror, ?_⟩
  rintro ⟨m, hm⟩
  rw [herror] at hm
  cases hm

end WebLib.Extraction
