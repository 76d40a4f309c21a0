import WebLib.HttpBinder
import WebLib.HttpQuery

/-! # What `match_path` compares

    A path joined from segments and pairs comes apart into the same segments and
    pairs.  `match_path` says yes, no, or is undefined according to these pieces
    alone. -/

namespace WebLib.HttpBinder

open WebLib ByteString Utils UnorderedMap HttpQuery

/-! ## Joining -/

/-- Segments, the first one after a slash. -/
def join_path (segments : List Str) : Str := 47 :: [47].intercalate segments

/-- Pairs of a key and a value. -/
def join_query (kvs : List (Str × Str)) : Str :=
  [38].intercalate (kvs.map fun kv => kv.1 ++ 61 :: kv.2)

/-- A text that is one segment of a path. -/
structure IsSegment (s : Str) : Prop where
  ne_nil : s ≠ []
  no_slash : 47 ∉ s
  no_mark : 63 ∉ s

/-- A key and a value that are one pair of a query. -/
structure IsPair (kv : Str × Str) : Prop where
  key_amp : 38 ∉ kv.1
  key_eq : 61 ∉ kv.1
  value_amp : 38 ∉ kv.2
  value_eq : 61 ∉ kv.2

theorem no_mark_join_path {segments : List Str} (h : ∀ s ∈ segments, 63 ∉ s) :
    63 ∉ join_path segments := by
  intro hm
  rcases List.mem_cons.mp hm with heq | hm
  · exact absurd heq (by decide)
  · exact notMem_intercalate (by decide) h hm

/-- The segments come apart again. -/
theorem split_path_join {segments : List Str} (h : ∀ s ∈ segments, IsSegment s) :
    split_path (join_path segments) = segments := by
  have hcut : views_split 47 (join_path segments) = [] :: ([47].intercalate segments).splitOn 47 := by
    rw [views_split, join_path, if_neg (List.cons_ne_nil _ _), List.splitOn_cons_eq_if_modifyHead,
      if_pos (by decide)]
  rw [split_path, hcut, List.filter_cons_of_neg (by simp)]
  by_cases hnil : segments = []
  · subst hnil
    rfl
  · rw [List.splitOn_intercalate 47 (fun s hs => (h s hs).no_slash) hnil, List.filter_eq_self]
    intro s hs
    exact decide_eq_true (h s hs).ne_nil

theorem isSegment_of_mem {pattern s : Str} (h : s ∈ split_path (path_part pattern)) :
    IsSegment s := by
  obtain ⟨hmem, hne⟩ := List.mem_filter.mp h
  refine ⟨of_decide_eq_true hne, notMem_of_mem_views_split hmem, ?_⟩
  intro hm
  have := List.mem_takeWhile_imp (subset_of_mem_views_split hmem hm)
  simp at this

/-! ## Queries -/

theorem parse_query_loop_pairs {kvs : List (Str × Str)} (h : ∀ kv ∈ kvs, IsPair kv)
    (params : UnorderedMap Str Str) :
    parse_query_loop (kvs.map fun kv => kv.1 ++ 61 :: kv.2) params
      = .ok (emplace_all params kvs) := by
  induction kvs generalizing params with
  | nil => rfl
  | cons kv kvs ih =>
      obtain ⟨hkv, hkvs⟩ := List.forall_mem_cons.mp h
      rw [List.map_cons, parse_query_loop]
      simp only [views_split_pair hkv.key_eq hkv.value_eq]
      exact ih hkvs _

theorem views_split_join_query {kvs : List (Str × Str)} (h : ∀ kv ∈ kvs, IsPair kv) :
    views_split 38 (join_query kvs) = kvs.map fun kv => kv.1 ++ 61 :: kv.2 := by
  rw [join_query, views_split_intercalate]
  intro piece hp
  obtain ⟨kv, hkv, rfl⟩ := List.mem_map.mp hp
  have hpair := h kv hkv
  exact ⟨by simp [hpair.key_amp, hpair.value_amp], by simp⟩

/-- The pairs come apart again. -/
theorem parse_query_join {kvs : List (Str × Str)} (h : ∀ kv ∈ kvs, IsPair kv) :
    parse_query (join_query kvs) = .ok (emplace_all ∅ kvs) := by
  rw [parse_query, views_split_join_query h, parse_query_loop_pairs h]

theorem parse_query_loop_clean {pieces : List Str} (h : ∀ piece ∈ pieces, 38 ∉ piece)
    {params result : UnorderedMap Str Str} (hparams : ∀ k v, params.find k = some v → IsPair (k, v))
    (hok : parse_query_loop pieces params = .ok result) :
    ∀ k v, result.find k = some v → IsPair (k, v) := by
  induction pieces generalizing params with
  | nil => exact Except.ok.inj hok ▸ hparams
  | cons piece pieces ih =>
      obtain ⟨hpiece, hpieces⟩ := List.forall_mem_cons.mp h
      rw [parse_query_loop] at hok
      split at hok
      · cases hok
      · next front more heq =>
          refine ih hpieces ?_ hok
          have hpart : ∀ s ∈ front :: more, 38 ∉ s ∧ 61 ∉ s := by
            intro s hs
            rw [← heq] at hs
            exact ⟨fun hm => hpiece (subset_of_mem_views_split hs hm), notMem_of_mem_views_split hs⟩
          have hfront := hpart front List.mem_cons_self
          have hback := hpart _ (List.getLast_mem (List.cons_ne_nil front more))
          intro k v hkv
          rw [find_emplace] at hkv
          split at hkv
          · next hk =>
              subst hk
              -- the first value of the key stays
              cases hold : params.find k with
              | none =>
                  rw [hold, Option.getD_none] at hkv
                  obtain rfl := Option.some.inj hkv
                  exact ⟨hfront.1, hfront.2, hback.1, hback.2⟩
              | some w =>
                  rw [hold, Option.getD_some] at hkv
                  obtain rfl := Option.some.inj hkv
                  exact hparams _ _ hold
          · exact hparams k v hkv

/-- Keys and values of a parsed query can be joined again. -/
theorem parse_query_clean {query : Str} {params : UnorderedMap Str Str}
    (h : parse_query query = .ok params) : ∀ k v, params.find k = some v → IsPair (k, v) := by
  refine parse_query_loop_clean (fun piece hp => notMem_of_mem_views_split hp) ?_ h
  intro k v hkv
  cases hkv

theorem parse_query_loop_error {pieces : List Str} {params : UnorderedMap Str Str} {f : Fault}
    (h : parse_query_loop pieces params = .error f) : f = .undefined := by
  induction pieces generalizing params with
  | nil => cases h
  | cons piece pieces ih =>
      rw [parse_query_loop] at h
      split at h
      · exact (Except.error.inj h).symm
      · exact ih h

theorem mem_of_parse_query_loop {pieces : List Str} {params result : UnorderedMap Str Str}
    (h : parse_query_loop pieces params = .ok result) {k : Str} (hk : k ∈ params) :
    k ∈ result := by
  induction pieces generalizing params with
  | nil => exact Except.ok.inj h ▸ hk
  | cons piece pieces ih =>
      rw [parse_query_loop] at h
      split at h
      · cases h
      · exact ih h (mem_emplace.mpr (Or.inr hk))

/-- A query that is not empty has a key. -/
theorem size_pos_of_parse_query {query : Str} {params : UnorderedMap Str Str}
    (h : parse_query query = .ok params) (hne : query ≠ []) : params.size ≠ 0 := by
  obtain ⟨k, hk⟩ : ∃ k, k ∈ params := by
    rw [parse_query] at h
    cases hpieces : views_split 38 query with
    | nil =>
        rw [views_split, if_neg hne] at hpieces
        exact absurd hpieces (List.splitOn_ne_nil _ _)
    | cons piece pieces =>
        rw [hpieces, parse_query_loop] at h
        split at h
        · cases h
        · next front more _ =>
            exact ⟨front, mem_of_parse_query_loop h (mem_emplace.mpr (Or.inl rfl))⟩
  intro hsize
  have hkeys : k ∈ params.entries.map Sigma.fst := hk
  rw [List.eq_nil_of_length_eq_zero hsize] at hkeys
  cases hkeys

theorem match_query_iff {pattern_params path_params : UnorderedMap Str Str} :
    match_query pattern_params path_params = true
      ↔ pattern_params.size = path_params.size
        ∧ ∀ k v, pattern_params.find k = some v →
          ∃ w, path_params.find k = some w ∧ (v = EMPTY_GROUP ∨ w = v) := by
  rw [match_query, Bool.and_eq_true, decide_eq_true_iff, List.all_eq_true]
  refine and_congr_right fun _ => ⟨?_, ?_⟩
  · intro hall k v hkv
    have := hall ⟨k, v⟩ (mem_entries_iff.mpr hkv)
    cases hw : path_params.find k with
    | none => simp [hw] at this
    | some w => exact ⟨w, rfl, by simpa [hw] using this⟩
  · rintro hall ⟨k, v⟩ hkv
    obtain ⟨w, hw, hor⟩ := hall k v (mem_entries_iff.mp hkv)
    simpa [hw] using hor

/-! ## Paths -/

/-- The segments of a pattern match those of a path. -/
abbrev PartsMatch : List Str → List Str → Prop :=
  List.Forall₂ fun pp rp => pp = EMPTY_GROUP ∨ pp = rp

/-- What `match_path` says of a query, when the pattern has one. -/
def query_verdict (pattern_query path_query : Str) : Except Fault Bool :=
  if path_query = [] then .ok false
  else
    match parse_query pattern_query with
    | .error f => .error f
    | .ok pattern_params =>
        match parse_query path_query with
        | .error f => .error f
        | .ok path_params => .ok (match_query pattern_params path_params)

/-- A pattern without a query accepts every query. -/
def verdict (pattern_query path_query : Option Str) : Except Fault Bool :=
  match pattern_query with
  | none => .ok true
  | some pattern_query => query_verdict pattern_query (path_query.getD [])

theorem query_verdict_eq_true_iff {q r : Str} :
    query_verdict q r = .ok true
      ↔ r ≠ [] ∧ ∃ params path_params, parse_query q = .ok params
        ∧ parse_query r = .ok path_params ∧ match_query params path_params = true := by
  rw [query_verdict]
  by_cases hr : r = []
  · simp [hr]
  · rw [if_neg hr]
    cases parse_query q with
    | error f => simp
    | ok params =>
        cases parse_query r with
        | error f => simp
        | ok path_params => simp [hr]

theorem query_verdict_ne_false_iff {q r : Str} :
    query_verdict q r ≠ .ok false
      ↔ r ≠ [] ∧ ∀ params path_params, parse_query q = .ok params →
        parse_query r = .ok path_params → match_query params path_params = true := by
  rw [query_verdict]
  by_cases hr : r = []
  · simp [hr]
  · rw [if_neg hr]
    cases parse_query q with
    | error f => simp [hr]
    | ok params =>
        cases parse_query r with
        | error f => simp [hr]
        | ok path_params => simp [hr]

theorem match_path_of_parts {pattern path : Str}
    (h : PartsMatch (split_path (path_part pattern)) (split_path (path_part path))) :
    match_path pattern path = verdict (query_part pattern) (query_part path) := by
  obtain ⟨hlen, hzip⟩ := List.forall₂_iff_zip.mp h
  have hall : ¬ ((split_path (path_part pattern)).zip (split_path (path_part path))).any
      (fun z => decide (z.1 ≠ EMPTY_GROUP ∧ z.1 ≠ z.2)) = true := by
    rw [List.any_eq_true]
    rintro ⟨⟨pp, rp⟩, hz, hne⟩
    have hne := of_decide_eq_true hne
    exact (hzip hz).elim hne.1 hne.2
  rw [match_path]
  simp only
  rw [if_neg (not_not.mpr hlen), if_neg hall]
  rfl

theorem match_path_of_not_parts {pattern path : Str}
    (h : ¬ PartsMatch (split_path (path_part pattern)) (split_path (path_part path))) :
    match_path pattern path = .ok false := by
  rw [match_path]
  simp only
  by_cases hlen : (split_path (path_part pattern)).length = (split_path (path_part path)).length
  · rw [if_neg (not_not.mpr hlen), if_pos]
    by_contra hall
    refine h (List.forall₂_iff_zip.mpr ⟨hlen, ?_⟩)
    intro pp rp hz
    by_contra hne
    refine hall (List.any_eq_true.mpr ⟨(pp, rp), hz, decide_eq_true ?_⟩)
    exact not_or.mp hne
  · rw [if_pos hlen]

theorem query_verdict_error {q r : Str} {f : Fault} (h : query_verdict q r = .error f) :
    f = .undefined := by
  rw [query_verdict] at h
  split at h
  · cases h
  · split at h
    · next heq =>
        cases h
        exact parse_query_loop_error heq
    · split at h
      · next heq =>
          cases h
          exact parse_query_loop_error heq
      · cases h

/-- `match_path` does not throw. -/
theorem match_path_error {pattern path : Str} {f : Fault}
    (h : match_path pattern path = .error f) : f = .undefined := by
  by_cases hparts : PartsMatch (split_path (path_part pattern)) (split_path (path_part path))
  · rw [match_path_of_parts hparts] at h
    cases hq : query_part pattern with
    | none =>
        rw [hq] at h
        cases h
    | some q =>
        rw [hq] at h
        exact query_verdict_error h
  · rw [match_path_of_not_parts hparts] at h
    cases h

end WebLib.HttpBinder
