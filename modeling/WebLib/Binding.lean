import WebLib.Extraction
import WebLib.Templates

/-! # Parameters bound by position and by name

    A template says what each of its placeholders is: the segment at a place
    among the non-empty ones, or the value of a key.  `parse_from_string` binds by
    position: all path pieces count, the empty ones too, and the keys of the
    query are not compared.  The two agree where the positions show what the
    names ask for. -/

namespace WebLib.Binding

open WebLib ByteString Utils UnorderedMap HttpBinder HttpQuery Templates Extraction

/-! ## The two readings -/

/-- The value a path gives to a key of its query: the first one. -/
def query_value (path key : Str) : Option Str :=
  match query_part path with
  | none => none
  | some query =>
      match parse_query query with
      | .error _ => none
      | .ok params => params.find key

/-- `value` gives each placeholder what the path has for it by name: the segment
    that stands where the placeholder stands among the non-empty segments, and
    the query value of the placeholder's key. -/
structure Named (t path : Str) (value : Str → Option Str) : Prop where
  segment : ∀ (i : Nat) x, (split_path (path_part t))[i]? = some (group x) →
    value x = (split_path (path_part path))[i]?
  query : ∀ tq k x, query_part t = some tq → k ++ 61 :: group x ∈ views_split 38 tq →
    value x = query_value path k

/-- What the request text shows at the query pair of a placeholder: the value of
    the pair at the same position, or of an earlier one that stands at a pair
    without a placeholder and is called like it. -/
def shown (t p x : Str) : Option Str :=
  (((pairs t).zip (views_split 38 ((query_part p).getD []))).find? fun z =>
    value_part z.1 = group x ∨ (123 ∉ z.1 ∧ name_part z.2 = x)).map fun z => value_part z.2

/-- The positions of the request text show what the names ask for: each
    placeholder that is a segment stands at the same text whether empty pieces
    count or not, and each placeholder that is a query value at a value of its
    key. -/
structure InOrder (t path raw_http : Str) : Prop where
  segment : ∀ p, request_path raw_http = .ok p → ∀ (i j : Nat) x,
    (segments t)[i]? = some (group x) → (split_path (path_part t))[j]? = some (group x) →
    (views_split 47 (path_part p))[i]? = (split_path (path_part path))[j]?
  query : ∀ p, request_path raw_http = .ok p → ∀ k x, k ++ 61 :: group x ∈ pairs t →
    shown t p x = query_value path k

/-! ## What the loops enter -/

/-- The placeholders among paired pieces. -/
def names_at (zs : List (Str × Str)) : List Str := zs.filterMap fun z => placeholder z.1

/-- The texts of the request at the placeholders of the path. -/
def path_texts (zs : List (Str × Str)) : List (Str × Str) :=
  zs.filterMap fun z => (placeholder z.1).map fun x => (x, z.2)

/-- The text of two query pairs, with its name. -/
def query_text (z : Str × Str) : Str × Str :=
  ((placeholder z.1).getD (name_part z.2), value_part z.2)

/-- Each placeholder of the path takes its own name. -/
theorem fill_path (names : List Str) (slots : List Slot) (zs : List (Str × Str)) :
    fill (names_at zs ++ names) (path_slots zs ++ slots)
      = (fill names slots).map (path_texts zs ++ ·) := by
  induction zs with
  | nil => simp [names_at, path_slots, path_texts]
  | cons z zs ih =>
      by_cases hz : 123 ∈ z.1
      · obtain ⟨x, hx⟩ := Option.isSome_iff_exists.mp (placeholder_isSome_iff.mpr hz)
        have hslots : path_slots (z :: zs) = (none, z.2) :: path_slots zs := by
          simp [path_slots, hz]
        have htexts : path_texts (z :: zs) = (x, z.2) :: path_texts zs := by
          simp [path_texts, hx]
        have hnames : names_at (z :: zs) = x :: names_at zs := by
          simp [names_at, hx]
        rw [hslots, htexts, hnames, List.cons_append, List.cons_append,
          fill, ih, Option.map_map]
        rfl
      · have hx : placeholder z.1 = none := if_neg hz
        have hslots : path_slots (z :: zs) = path_slots zs := by
          simp [path_slots, hz]
        have htexts : path_texts (z :: zs) = path_texts zs := by
          simp [path_texts, hx]
        have hnames : names_at (z :: zs) = names_at zs := by
          simp [names_at, hx]
        rw [hslots, htexts, hnames, ih]

/-- So does each placeholder of the query, whose brace stands in the value. -/
theorem fill_query {zs : List (Str × Str)} (h : ∀ z ∈ zs, 123 ∈ value_part z.1 ↔ 123 ∈ z.1) :
    fill (names_at zs) (zs.map query_slot)
      = some (zs.map query_text) := by
  induction zs with
  | nil => rfl
  | cons z zs ih =>
      obtain ⟨hz, hzs⟩ := List.forall_mem_cons.mp h
      by_cases hb : 123 ∈ z.1
      · obtain ⟨x, hx⟩ := Option.isSome_iff_exists.mp (placeholder_isSome_iff.mpr hb)
        have hslot : query_slot z = (none, value_part z.2) := if_pos (hz.mpr hb)
        have htext : query_text z = (x, value_part z.2) := by
          rw [query_text, hx, Option.getD_some]
        have hnames : names_at (z :: zs) = x :: names_at zs := by
          simp [names_at, hx]
        rw [List.map_cons, List.map_cons, hslot, htext, hnames, fill, ih hzs,
          Option.map_some]
      · have hx : placeholder z.1 = none := if_neg hb
        have hslot : query_slot z = (some (name_part z.2), value_part z.2) :=
          if_neg (hz.not.mpr hb)
        have htext : query_text z = (name_part z.2, value_part z.2) := by
          rw [query_text, hx, Option.getD_none]
        have hnames : names_at (z :: zs) = names_at zs := by
          simp [names_at, hx]
        rw [List.map_cons, List.map_cons, hslot, htext, hnames]
        cases hn : names_at zs with
        | nil => rw [fill, ← hn, ih hzs, Option.map_some]
        | cons name names => rw [fill, ← hn, ih hzs, Option.map_some]

theorem names_at_zip {ps qs : List Str} (h : ps.length = qs.length) :
    names_at (ps.zip qs) = ps.filterMap placeholder := by
  rw [names_at]
  conv_rhs => rw [← List.map_fst_zip (Nat.le_of_eq h), List.filterMap_map]
  rfl

/-- The brace of a pair stands in its value. -/
theorem mem_value_part_iff {t kv : Str} (h : Placed t) (hkv : kv ∈ pairs t) :
    123 ∈ value_part kv ↔ 123 ∈ kv := by
  rcases h.pair_ok kv hkv with hno | ⟨k, x, -, hk, -, rfl⟩
  · constructor
    · intro hm
      exact (List.dropWhile_suffix _).subset (List.mem_of_mem_drop hm)
    · intro hm
      exact absurd hm hno.1
  · rw [value_part_of_pair hk]
    simp [group]

/-- **NAMES AND SLOTS IN STEP**: the names of a template with placeholders are
    used up one by one, first along the path, then along the query. -/
theorem fill_placed {t p tq pq : Str} (hplaced : Placed t)
    (hshape : SameShape (t.drop 1) p tq pq) :
    fill (extract_params t) (slots (t.drop 1) p tq pq)
      = some (path_texts ((segments t).zip (views_split 47 (path_part p)))
          ++ ((pairs t).zip (views_split 38 pq)).map query_text) := by
  have htq : pairs t = views_split 38 tq := by rw [pairs, hshape.t_query, Option.getD_some]
  have hsize : (pairs t).length = (views_split 38 pq).length := by
    rw [htq]
    exact hshape.query_size
  have hpath : (segments t).length = (views_split 47 (path_part p)).length := hshape.path_size
  have hbrace : ∀ z ∈ (pairs t).zip (views_split 38 pq), 123 ∈ value_part z.1 ↔ 123 ∈ z.1 :=
    fun z hz => mem_value_part_iff hplaced (List.of_mem_zip hz).1
  rw [extract_params_placed hplaced, List.filterMap_append, ← names_at_zip hpath,
    ← names_at_zip hsize, slots, ← htq]
  exact (fill_path _ _ _).trans (by rw [fill_query hbrace, Option.map_some])

/-- **WHAT PARSING ENTERS** for a template with placeholders: the texts at the
    placeholders of the path, then those of the query pairs. -/
theorem parsed_texts {t raw_http : Str} {m : UnorderedMap Str Str} (hplaced : Placed t)
    (hnames : extract_params t ≠ [])
    (h : parse_from_string ∅ raw_http (extract_params t) t = .ok m) :
    ∃ p, request_path raw_http = .ok p
      ∧ (segments t).length = (views_split 47 (path_part p)).length
      ∧ emplace_all ∅ (path_texts ((segments t).zip (views_split 47 (path_part p)))
          ++ ((pairs t).zip (views_split 38 ((query_part p).getD []))).map query_text) = m := by
  obtain ⟨p, tq, pq, texts, hp, hshape, hfill, hm⟩ := (parse_from_string_ok_iff hnames).mp h
  refine ⟨p, hp, hshape.path_size, ?_⟩
  rw [fill_placed hplaced hshape] at hfill
  rw [hshape.p_query, Option.getD_some, Option.some.inj hfill]
  exact hm

/-! ## What a placeholder is bound to -/

theorem keys_path_texts (zs : List (Str × Str)) : (path_texts zs).map Prod.fst = names_at zs := by
  rw [path_texts, names_at, List.map_filterMap]
  congr 1
  funext z
  cases placeholder z.1 <;> rfl

/-- The pieces of the query text that `shown` looks for are those entered under
    the name. -/
theorem query_text_name_iff {t x : Str} (h : Placed t) {z : Str × Str} (hz : z.1 ∈ pairs t) :
    (query_text z).1 = x ↔ value_part z.1 = group x ∨ (123 ∉ z.1 ∧ name_part z.2 = x) := by
  have hbrace : 123 ∈ group x := List.mem_cons_self
  rw [query_text]
  rcases h.pair_ok z.1 hz with hno | ⟨k, y, hk, hk61, -, heq⟩
  -- a static pair: only its name in the request counts
  · have hvalue : value_part z.1 ≠ group x := fun he =>
      hno.1 ((mem_value_part_iff h hz).mp (he ▸ hbrace))
    rw [placeholder_of_noBrace hno, Option.getD_none]
    exact ⟨fun he => Or.inr ⟨hno.1, he⟩, fun he => (he.resolve_left hvalue).2⟩
  · have hname : placeholder z.1 = some y := heq ▸ placeholder_pair hk y
    have hmem : 123 ∈ z.1 := placeholder_isSome_iff.mp (by rw [hname]; rfl)
    rw [hname, Option.getD_some, heq, value_part_of_pair hk61, ← heq]
    constructor
    · rintro rfl
      exact Or.inl rfl
    · rintro (he | ⟨hno, -⟩)
      · exact group_injective he
      · exact absurd hmem hno

/-- The names of the template as the loops meet them. -/
theorem extract_params_zip {t p : Str} (hplaced : Placed t)
    (hpath : (segments t).length = (views_split 47 (path_part p)).length) :
    extract_params t = names_at ((segments t).zip (views_split 47 (path_part p)))
      ++ (pairs t).filterMap placeholder := by
  rw [extract_params_placed hplaced, List.filterMap_append, names_at_zip hpath]

/-- A segment is bound to the piece at its position. -/
theorem find_segment {t raw_http p : Str} {m : UnorderedMap Str Str} (hplaced : Placed t)
    (hnodup : (extract_params t).Nodup)
    (h : parse_from_string ∅ raw_http (extract_params t) t = .ok m)
    (hp : request_path raw_http = .ok p) {i : Nat} {x : Str}
    (hi : (segments t)[i]? = some (group x)) :
    m.find x = (views_split 47 (path_part p))[i]? := by
  have hgroup : placeholder (group x) = some x :=
    placeholder_group (k := []) ⟨List.not_mem_nil, List.not_mem_nil⟩ x
  have hne : extract_params t ≠ [] := by
    rw [extract_params_placed hplaced]
    refine List.ne_nil_of_mem (a := x) (List.mem_filterMap.mpr ⟨group x, ?_, hgroup⟩)
    exact List.mem_append.mpr (Or.inl (List.mem_of_getElem? hi))
  obtain ⟨p', hp', hpath, rfl⟩ := parsed_texts hplaced hne h
  obtain rfl : p = p' := Except.ok.inj (hp.symm.trans hp')
  obtain ⟨a, ha⟩ : ∃ a, (views_split 47 (path_part p))[i]? = some a := by
    obtain ⟨hlt, -⟩ := List.getElem?_eq_some_iff.mp hi
    exact ⟨_, List.getElem?_eq_getElem (hpath ▸ hlt)⟩
  have hmem : (x, a) ∈ path_texts ((segments t).zip (views_split 47 (path_part p))) := by
    refine List.mem_filterMap.mpr ⟨(group x, a), ?_, by rw [hgroup]; rfl⟩
    exact List.mem_of_getElem? (List.getElem?_zip_eq_some.mpr ⟨hi, ha⟩)
  have hkeys : ((path_texts ((segments t).zip (views_split 47 (path_part p)))).map
      Prod.fst).Nodup := by
    rw [keys_path_texts]
    rw [extract_params_zip hplaced hpath] at hnodup
    exact hnodup.of_append_left
  have hfind : (path_texts ((segments t).zip (views_split 47 (path_part p)))).find?
      (fun z => z.1 = x) = some (x, a) := Search.find?_of_nodup_map hkeys hmem
  rw [find_emplace_all, find_empty, Option.none_or, List.find?_append, hfind, ha]
  rfl

/-- A query value is bound to what the request shows at its pair. -/
theorem find_query {t raw_http p : Str} {m : UnorderedMap Str Str} (hplaced : Placed t)
    (hnodup : (extract_params t).Nodup)
    (h : parse_from_string ∅ raw_http (extract_params t) t = .ok m)
    (hp : request_path raw_http = .ok p) {k x : Str} (hk : k ++ 61 :: group x ∈ pairs t) :
    m.find x = shown t p x := by
  have hx : x ∈ (pairs t).filterMap placeholder :=
    List.mem_filterMap.mpr ⟨_, hk, placeholder_pair (noBrace_key hplaced hk) x⟩
  have hne : extract_params t ≠ [] := by
    rw [extract_params_placed hplaced, List.filterMap_append]
    exact List.ne_nil_of_mem (List.mem_append.mpr (Or.inr hx))
  obtain ⟨p', hp', hpath, rfl⟩ := parsed_texts hplaced hne h
  obtain rfl : p = p' := Except.ok.inj (hp.symm.trans hp')
  -- the names are distinct, so no segment has taken this one
  have hpathnone : (path_texts ((segments t).zip (views_split 47 (path_part p)))).find?
      (fun z => z.1 = x) = none := by
    rw [extract_params_zip hplaced hpath] at hnodup
    refine List.find?_eq_none.mpr ?_
    intro z hz heq
    refine List.disjoint_of_nodup_append hnodup ?_ hx
    rw [← keys_path_texts]
    exact List.mem_map.mpr ⟨z, hz, by simpa using heq⟩
  rw [find_emplace_all, find_empty, Option.none_or, List.find?_append, hpathnone, Option.none_or,
    List.find?_map, Option.map_map, shown]
  congr 1
  refine List.find?_congr ?_
  intro z hz
  have := query_text_name_iff (x := x) hplaced (List.of_mem_zip hz).1
  simp only [Function.comp_apply]
  exact decide_eq_decide.mpr this

/-- A template with a placeholder is parsed against some request text. -/
theorem exists_request_path {t raw_http x : Str} {m : UnorderedMap Str Str}
    (hplaced : Placed t) (h : parse_from_string ∅ raw_http (extract_params t) t = .ok m)
    {piece : Str} (hpiece : piece ∈ segments t ++ pairs t) (hx : placeholder piece = some x) :
    ∃ p, request_path raw_http = .ok p := by
  have hne : extract_params t ≠ [] := by
    rw [extract_params_placed hplaced]
    exact List.ne_nil_of_mem (List.mem_filterMap.mpr ⟨piece, hpiece, hx⟩)
  obtain ⟨p, hp, -⟩ := parsed_texts hplaced hne h
  exact ⟨p, hp⟩

/-- A template with two keys, and a request that lists them the other way. -/
def template_keys : Str :=
  str "/a?x=" ++ (group (str "u") ++ (str "&y=" ++ group (str "v")))

def swapped : Str := request_text (str "GET") (str "/a?y=1&x=2") (str "\r\n\r\n")

def ordered : Str := request_text (str "GET") (str "/a?x=1&y=2") (str "\r\n\r\n")

theorem placed_template_keys : Placed template_keys where
  first := by
    intro c hc
    obtain rfl : (47 : Byte) = c := Option.some.inj hc
    decide
  segment_ok := by
    have hsegments : segments template_keys = [str "a"] := by decide
    rw [hsegments]
    exact List.forall_mem_singleton.mpr (Or.inl (by decide))
  pair_ok := by
    have hpairs : pairs template_keys
        = [str "x" ++ 61 :: group (str "u"), str "y" ++ 61 :: group (str "v")] := by decide
    rw [hpairs]
    intro kv hkv
    rcases List.mem_pair.mp hkv with rfl | rfl
    · exact Or.inr ⟨str "x", str "u", by decide, by decide, by decide, rfl⟩
    · exact Or.inr ⟨str "y", str "v", by decide, by decide, by decide, rfl⟩

end WebLib.Binding
