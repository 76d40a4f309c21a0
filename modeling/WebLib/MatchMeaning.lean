import WebLib.Matching

/-! # What `match_path` means

    A query is read into a map, the first value of each key, by splitting every
    piece at its equals signs and taking the two ends.  A piece without a byte
    has no ends: on such a piece the behaviour is undefined.  On all other
    queries the comparison of the maps, by size and by lookup, says that the
    queries have the same keys and agree on the values the pattern fixes. -/

namespace WebLib.HttpBinder

open WebLib ByteString Utils UnorderedMap HttpQuery

/-! ## Reading a query -/

/-- The text after the last equals sign, or the whole piece. -/
def back_part (piece : Str) : Str := piece.rtakeWhile fun c => c ≠ 61

/-- The pairs of a query. -/
def query_pairs (query : Str) : List (Str × Str) :=
  (views_split 38 query).map fun piece => (name_part piece, back_part piece)

theorem rtakeWhile_after_last {s : Str} (h : 61 ∉ s) (t : Str) :
    (t ++ 61 :: s).rtakeWhile (fun c => c ≠ 61) = s := by
  have hpos : ∀ c ∈ s.reverse, decide (c ≠ 61) = true :=
    fun c hc => decide_eq_true fun he => h (he ▸ List.mem_reverse.mp hc)
  rw [List.rtakeWhile, List.reverse_append, List.reverse_cons, List.append_assoc,
    List.takeWhile_append_of_pos hpos, List.singleton_append, List.takeWhile_cons_of_neg (by simp),
    List.append_nil, List.reverse_reverse]

/-- The two ends of a piece that is not empty. -/
theorem views_split_ends {piece : Str} (h : piece ≠ []) :
    ∃ more, views_split 61 piece = name_part piece :: more
      ∧ (name_part piece :: more).getLast (List.cons_ne_nil _ _) = back_part piece := by
  rw [views_split, if_neg h]
  by_cases hmem : 61 ∈ piece
  · obtain ⟨a, b, hfirst, ha⟩ := List.eq_append_cons_of_mem hmem
    obtain ⟨c, d, hlast, hc⟩ := List.eq_append_cons_of_mem (List.mem_reverse.mpr hmem)
    have hlast : piece = d.reverse ++ 61 :: c.reverse := by
      rw [← List.reverse_reverse piece, hlast]
      simp
    have hc : 61 ∉ c.reverse := fun hm => hc (List.mem_reverse.mp hm)
    have hname : name_part piece = a := by rw [hfirst, name_part_of_pair ha]
    have hback : back_part piece = c.reverse := by
      rw [hlast, back_part, rtakeWhile_after_last hc]
    have hsplit : piece.splitOn 61 = a :: b.splitOn 61 := by
      rw [hfirst, List.splitOn_append_cons_self_of_not_mem ha]
    refine ⟨b.splitOn 61, by rw [hname, hsplit], ?_⟩
    have hends : a :: b.splitOn 61 = d.reverse.splitOn 61 ++ [c.reverse] := by
      rw [← hsplit, hlast, List.splitOn_append_cons_self, List.splitOn_eq_singleton hc]
    rw [hback]
    simp only [hname, hends, List.getLast_append_singleton]
  · have hpos : ∀ c ∈ piece, decide (c ≠ 61) = true :=
      fun c hc => decide_eq_true fun he => hmem (he ▸ hc)
    have hname : name_part piece = piece := List.takeWhile_eq_self_iff.mpr hpos
    have hback : back_part piece = piece := List.rtakeWhile_eq_self_iff.mpr hpos
    refine ⟨[], ?_, ?_⟩
    · rw [List.splitOn_eq_singleton hmem, hname]
    · rw [hname, hback]
      rfl

theorem parse_query_loop_eq {pieces : List Str} (h : [] ∉ pieces) (params : UnorderedMap Str Str) :
    parse_query_loop pieces params
      = .ok (emplace_all params (pieces.map fun piece => (name_part piece, back_part piece))) := by
  induction pieces generalizing params with
  | nil => rfl
  | cons piece pieces ih =>
      rw [List.mem_cons, not_or] at h
      obtain ⟨more, hsplit, hlast⟩ := views_split_ends (Ne.symm h.1)
      rw [parse_query_loop]
      simp only [hsplit, hlast]
      exact ih h.2 _

theorem parse_query_loop_undefined {pieces : List Str} (h : [] ∈ pieces)
    (params : UnorderedMap Str Str) : parse_query_loop pieces params = .error .undefined := by
  induction pieces generalizing params with
  | nil => cases h
  | cons piece pieces ih =>
      rw [parse_query_loop]
      split
      · rfl
      · next front more hsplit =>
          refine ih ?_ _
          rcases List.mem_cons.mp h with rfl | h
          · cases hsplit
          · exact h

/-- **READING A QUERY**: undefined on an empty piece, -/
theorem parse_query_undefined {query : Str} (h : [] ∈ views_split 38 query) :
    parse_query query = .error .undefined := parse_query_loop_undefined h ∅

/-- and the first value of each key otherwise. -/
theorem parse_query_eq {query : Str} (h : [] ∉ views_split 38 query) :
    parse_query query = .ok (emplace_all ∅ (query_pairs query)) := parse_query_loop_eq h ∅

/-! ## Where matching is defined -/

/-- The text has a query with an empty piece: a leading, doubled or trailing
    `&`. -/
def EmptyPiece (s : Str) : Prop := ∃ q, query_part s = some q ∧ [] ∈ views_split 38 q

/-- The match gets as far as the queries: the parts match, the pattern has a
    query, and that of the path is not empty. -/
def ComparesQueries (pattern path : Str) : Prop :=
  PartsMatch (split_path (path_part pattern)) (split_path (path_part path))
    ∧ query_part pattern ≠ none ∧ (query_part path).getD [] ≠ []

theorem query_verdict_undefined_iff {q r : Str} (hr : r ≠ []) :
    query_verdict q r = .error .undefined ↔ [] ∈ views_split 38 q ∨ [] ∈ views_split 38 r := by
  rw [query_verdict, if_neg hr]
  by_cases hq : [] ∈ views_split 38 q
  · simp [parse_query_undefined hq, hq]
  · rw [parse_query_eq hq]
    by_cases hr : [] ∈ views_split 38 r
    · simp [parse_query_undefined hr, hr]
    · simp [parse_query_eq hr, hq, hr]

/-- **SAFETY OF MATCHING**: `front` and `back` are called on an empty vector
    exactly when the queries are compared and one of them has an empty piece. -/
theorem match_path_defined_iff (pattern path : Str) :
    match_path pattern path ≠ .error .undefined
      ↔ (ComparesQueries pattern path → ¬ EmptyPiece pattern ∧ ¬ EmptyPiece path) := by
  by_cases hparts : PartsMatch (split_path (path_part pattern)) (split_path (path_part path))
  · rw [match_path_of_parts hparts]
    cases hq : query_part pattern with
    | none => simp [verdict, ComparesQueries, hq]
    | some q =>
        by_cases hr : (query_part path).getD [] = []
        · simp [verdict, query_verdict, ComparesQueries, hr]
        · obtain ⟨r, hpath⟩ : ∃ r, query_part path = some r := by
            cases hp : query_part path with
            | none => simp [hp] at hr
            | some r => exact ⟨r, rfl⟩
          rw [hpath, Option.getD_some] at hr
          simp only [verdict, hpath, Option.getD_some, ne_eq, query_verdict_undefined_iff hr]
          simp [ComparesQueries, EmptyPiece, hparts, hq, hpath, hr]
  · rw [match_path_of_not_parts hparts]
    simp [ComparesQueries, hparts]

/-- A registered pattern, and a request whose query is one `&`. -/
theorem lone_ampersand_undefined : process_url_str (str "/a?k={key}") = .ok (str "/a?k={}")
    ∧ 32 ∉ str "/a?&" ∧ match_path (str "/a?k={}") (str "/a?&") = .error .undefined := by
  refine ⟨by rfl, by decide, ?_⟩
  rfl

/-! ## What a match says -/

/-- The first value of a key. -/
def first_value (pairs : List (Str × Str)) (k : Str) : Option Str :=
  (pairs.find? fun kv => kv.1 = k).map Prod.snd

/-- The queries have the same keys, and every value the pattern fixes is the
    path's. -/
structure QueryMatches (pattern_query path_query : Str) : Prop where
  nonempty : path_query ≠ []
  keys : ∀ k, k ∈ (query_pairs pattern_query).map Prod.fst
    ↔ k ∈ (query_pairs path_query).map Prod.fst
  values : ∀ k v, first_value (query_pairs pattern_query) k = some v → v ≠ EMPTY_GROUP →
    first_value (query_pairs path_query) k = some v

/-- Every non-empty piece of the pattern is a placeholder or the piece of the
    path, and a query of the pattern is matched by one of the path. -/
structure PathMatches (pattern path : Str) : Prop where
  parts : PartsMatch (split_path (path_part pattern)) (split_path (path_part path))
  query : ∀ q, query_part pattern = some q →
    ∃ r, query_part path = some r ∧ QueryMatches q r

theorem find_pairs (pairs : List (Str × Str)) (k : Str) :
    (emplace_all ∅ pairs).find k = first_value pairs k := by
  rw [find_emplace_all, find_empty, Option.none_or, first_value]

theorem mem_pairs (pairs : List (Str × Str)) (k : Str) :
    k ∈ emplace_all ∅ pairs ↔ k ∈ pairs.map Prod.fst := by
  constructor
  · intro h
    by_contra hnot
    exact find_eq_none_iff.mp (find_emplace_all_eq_none hnot) h
  · intro h
    by_contra hnot
    have hnone := find_eq_none_iff.mpr hnot
    rw [find_pairs, first_value, Option.map_eq_none_iff, List.find?_eq_none] at hnone
    obtain ⟨kv, hkv, rfl⟩ := List.mem_map.mp h
    exact hnone kv hkv (decide_eq_true rfl)

/-- **COUNTING**: maps of equal size, all keys of the first in the second, have
    the same keys. -/
theorem match_query_pairs_iff (ps rs : List (Str × Str)) :
    match_query (emplace_all ∅ ps) (emplace_all ∅ rs) = true
      ↔ (∀ k, k ∈ ps.map Prod.fst ↔ k ∈ rs.map Prod.fst)
        ∧ ∀ k v, first_value ps k = some v → v ≠ EMPTY_GROUP → first_value rs k = some v := by
  rw [match_query_iff]
  simp only [find_pairs]
  constructor
  · rintro ⟨hsize, hall⟩
    have hsub : ∀ k ∈ emplace_all ∅ ps, k ∈ emplace_all ∅ rs := by
      intro k hk
      obtain ⟨v, hv⟩ := mem_iff_find.mp hk
      obtain ⟨w, hw, -⟩ := hall k v (by rwa [find_pairs] at hv)
      exact mem_iff_find.mpr ⟨w, by rwa [find_pairs]⟩
    refine ⟨?_, ?_⟩
    · intro k
      rw [← mem_pairs, ← mem_pairs]
      exact ⟨hsub k, mem_of_size_eq hsize hsub k⟩
    · intro k v hv hne
      obtain ⟨w, hw, hor⟩ := hall k v hv
      rw [hw, hor.resolve_left hne]
  · rintro ⟨hkeys, hvalues⟩
    have hmem : ∀ k, k ∈ emplace_all ∅ ps ↔ k ∈ emplace_all ∅ rs := by
      intro k
      rw [mem_pairs, mem_pairs, hkeys]
    refine ⟨size_eq_of_mem_iff hmem, ?_⟩
    intro k v hv
    obtain ⟨w, hw⟩ := mem_iff_find.mp ((hmem k).mp (mem_iff_find.mpr ⟨v, by rwa [find_pairs]⟩))
    rw [find_pairs] at hw
    by_cases hne : v = EMPTY_GROUP
    · exact ⟨w, hw, Or.inl hne⟩
    · rw [hvalues k v hv hne] at hw ⊢
      exact ⟨v, rfl, Or.inr rfl⟩

theorem query_verdict_meaning {q r : Str} (hq : [] ∉ views_split 38 q)
    (hr : [] ∉ views_split 38 r) : query_verdict q r = .ok true ↔ QueryMatches q r := by
  rw [query_verdict_eq_true_iff, parse_query_eq hq, parse_query_eq hr]
  constructor
  · rintro ⟨hne, params, path_params, heq, heq', hmatch⟩
    cases heq
    cases heq'
    obtain ⟨hkeys, hvalues⟩ := (match_query_pairs_iff _ _).mp hmatch
    exact ⟨hne, hkeys, hvalues⟩
  · intro h
    exact ⟨h.nonempty, _, _, rfl, rfl, (match_query_pairs_iff _ _).mpr ⟨h.keys, h.values⟩⟩

/-- **THE MEANING OF `match_path`**. -/
theorem match_path_iff {pattern path : Str} (hpattern : ¬ EmptyPiece pattern)
    (hpath : ¬ EmptyPiece path) : match_path pattern path = .ok true ↔ PathMatches pattern path := by
  by_cases hparts : PartsMatch (split_path (path_part pattern)) (split_path (path_part path))
  · rw [match_path_of_parts hparts]
    cases hq : query_part pattern with
    | none =>
        refine ⟨fun _ => ⟨hparts, ?_⟩, fun _ => rfl⟩
        intro q hq'
        rw [hq] at hq'
        cases hq'
    | some q =>
        have hqp : [] ∉ views_split 38 q := fun hm => hpattern ⟨q, hq, hm⟩
        cases hr : query_part path with
        | none =>
            refine ⟨(fun h => by cases h), fun h => ?_⟩
            obtain ⟨r, hr', -⟩ := h.query q hq
            rw [hr] at hr'
            cases hr'
        | some r =>
            have hrp : [] ∉ views_split 38 r := fun hm => hpath ⟨r, hr, hm⟩
            rw [verdict, Option.getD_some, query_verdict_meaning hqp hrp]
            constructor
            · intro h
              refine ⟨hparts, ?_⟩
              intro q' hq'
              rw [hq] at hq'
              cases hq'
              exact ⟨r, hr, h⟩
            · intro h
              obtain ⟨r', hr', hmatch⟩ := h.query q hq
              rw [hr] at hr'
              cases hr'
              exact hmatch
  · rw [match_path_of_not_parts hparts]
    exact ⟨(fun h => by cases h), fun h => absurd h.parts hparts⟩

/-! ## What does not matter -/

/-- The pairs of a query in another order that keeps the order of the pairs of
    each key. -/
structure SameByKey (pieces pieces' : List Str) : Prop where
  perm : pieces'.Perm pieces
  order : ∀ k, pieces'.filter (fun piece => name_part piece = k)
    = pieces.filter fun piece => name_part piece = k

/-- With different keys every order keeps that order. -/
theorem SameByKey.of_nodup {pieces pieces' : List Str} (hperm : pieces'.Perm pieces)
    (hkeys : (pieces.map name_part).Nodup) : SameByKey pieces pieces' where
  perm := hperm
  order := by
    intro k
    have hfilter : (pieces'.filter fun piece => name_part piece = k).Perm
        (pieces.filter fun piece => name_part piece = k) := hperm.filter _
    have hnodup : ((pieces.filter fun piece => name_part piece = k).map name_part).Nodup :=
      hkeys.sublist (List.filter_sublist.map _)
    have hkey : ∀ piece ∈ pieces.filter (fun piece => name_part piece = k), name_part piece = k :=
      fun piece hm => of_decide_eq_true (List.mem_filter.mp hm).2
    -- at most one pair has the key
    match hl : pieces.filter fun piece => name_part piece = k with
    | [] => rw [hl] at hfilter; exact List.perm_nil.mp hfilter
    | [piece] => rw [hl] at hfilter; exact List.perm_singleton.mp hfilter
    | a :: b :: _ =>
        rw [hl] at hnodup hkey
        have hab : name_part a = name_part b := by rw [hkey a (by simp), hkey b (by simp)]
        simp [hab] at hnodup

/-- The path with the pairs of its query in such an order. -/
def Permuted (path path' : Str) : Prop :=
  ∃ p pieces pieces', 63 ∉ p ∧ (∀ piece ∈ pieces, 38 ∉ piece ∧ piece ≠ [])
    ∧ SameByKey pieces pieces' ∧ path = p ++ 63 :: [38].intercalate pieces
    ∧ path' = p ++ 63 :: [38].intercalate pieces'

theorem first_value_filter (pieces : List Str) (k : Str) :
    first_value (pieces.map fun piece => (name_part piece, back_part piece)) k
      = (pieces.filter fun piece => name_part piece = k).head?.map back_part := by
  rw [first_value, List.find?_map, Option.map_map, List.head?_filter]
  rfl

theorem match_query_congr {m params params' : UnorderedMap Str Str}
    (h : ∀ k, params.find k = params'.find k) : match_query m params = match_query m params' := by
  have hsize : params.size = params'.size := by
    refine size_eq_of_mem_iff fun k => ?_
    rw [mem_iff_find, mem_iff_find, h]
  simp only [match_query, hsize, h]

/-- Only the lookups of the path's map count. -/
theorem query_verdict_congr (q : Str) {r r' : Str} {params params' : UnorderedMap Str Str}
    (hnil : r' = [] ↔ r = []) (hr' : parse_query r' = .ok params') (hr : parse_query r = .ok params)
    (h : ∀ k, params'.find k = params.find k) : query_verdict q r' = query_verdict q r := by
  rw [query_verdict, query_verdict, hr, hr']
  simp only [hnil, match_query_congr h]

theorem intercalate_eq_nil_iff {pieces : List Str} (h : ∀ piece ∈ pieces, 38 ∉ piece ∧ piece ≠ []) :
    [(38 : Byte)].intercalate pieces = [] ↔ pieces = [] := by
  constructor
  · intro hnil
    have hsplit := views_split_intercalate h
    rw [hnil] at hsplit
    exact hsplit.symm
  · rintro rfl
    rfl

theorem Permuted.match_path {path path' : Str} (h : Permuted path path') (pattern : Str) :
    match_path pattern path' = match_path pattern path := by
  obtain ⟨p, pieces, pieces', hp, hpieces, hsame, rfl, rfl⟩ := h
  have hpieces' : ∀ piece ∈ pieces', 38 ∉ piece ∧ piece ≠ [] :=
    fun piece hm => hpieces piece (hsame.perm.mem_iff.mp hm)
  have hread : ∀ ps : List Str, (∀ piece ∈ ps, 38 ∉ piece ∧ piece ≠ []) →
      parse_query ([38].intercalate ps)
        = .ok (emplace_all ∅ (ps.map fun piece => (name_part piece, back_part piece))) := by
    intro ps hps
    have hsplit := views_split_intercalate hps
    rw [parse_query_eq, query_pairs, hsplit]
    rw [hsplit]
    exact fun hm => (hps _ hm).2 rfl
  have hfind : ∀ k,
      (emplace_all ∅ (pieces'.map fun piece => (name_part piece, back_part piece))).find k
        = (emplace_all ∅ (pieces.map fun piece => (name_part piece, back_part piece))).find k := by
    intro k
    rw [find_pairs, find_pairs, first_value_filter, first_value_filter, hsame.order]
  have hnil : [38].intercalate pieces' = [] ↔ [38].intercalate pieces = [] := by
    rw [intercalate_eq_nil_iff hpieces, intercalate_eq_nil_iff hpieces',
      ← List.length_eq_zero_iff, ← List.length_eq_zero_iff, hsame.perm.length_eq]
  have hverdict := fun q => query_verdict_congr q hnil (hread pieces' hpieces') (hread pieces hpieces)
    hfind
  by_cases hparts : PartsMatch (split_path (path_part pattern)) (split_path p)
  · rw [match_path_of_parts (by rwa [(cut_at_mark hp _).1]),
      match_path_of_parts (by rwa [(cut_at_mark hp _).1]), (cut_at_mark hp _).2,
      (cut_at_mark hp _).2]
    cases query_part pattern with
    | none => rfl
    | some q => exact hverdict q
  · rw [match_path_of_not_parts (by rwa [(cut_at_mark hp _).1]),
      match_path_of_not_parts (by rwa [(cut_at_mark hp _).1])]

/-! ## Redundant slashes -/

/-- One more slash in front of the first question mark: at the start, at the end,
    or beside another one. -/
inductive AddSlash : Str → Str → Prop where
  | mk {a b : Str} : 63 ∉ a → a = [] ∨ a.getLast? = some 47 ∨ path_part b = [] ∨ b.head? = some 47 →
      AddSlash (a ++ b) (a ++ 47 :: b)

theorem split_path_append (x y : Str) :
    split_path (x ++ 47 :: y) = split_path x ++ split_path y := by
  have hpieces : ∀ s : Str, split_path s = (s.splitOn 47).filter fun piece => piece ≠ [] := by
    intro s
    rw [split_path, views_split]
    split
    · next h => subst h; rfl
    · rfl
  rw [hpieces, hpieces, hpieces, List.splitOn_append_cons_self, List.filter_append]

theorem path_part_append {a : Str} (ha : 63 ∉ a) (b : Str) :
    path_part (a ++ b) = a ++ path_part b := by
  have hpos : ∀ c ∈ a, decide (c ≠ 63) = true := fun c hc => decide_eq_true fun he => ha (he ▸ hc)
  exact List.takeWhile_append_of_pos hpos

theorem query_part_append {a : Str} (ha : 63 ∉ a) (b : Str) : query_part (a ++ b) = query_part b := by
  have hfind : find_char 63 (a ++ b) = (find_char 63 b).map (· + a.length) :=
    Search.find_append_of_head_notMem b ha
  rw [query_part, query_part, hfind, Option.map_map]
  congr 1
  funext i
  rw [Function.comp_apply, show i + a.length + 1 = a.length + (i + 1) by omega, ← List.drop_drop,
    List.drop_left]

theorem AddSlash.same {s s' : Str} (h : AddSlash s s') :
    split_path (path_part s') = split_path (path_part s) ∧ query_part s' = query_part s := by
  obtain @⟨a, b, ha, hside⟩ := h
  have hslash : ∀ s : Str, path_part (47 :: s) = 47 :: path_part s := fun s => rfl
  have hnil : split_path [] = [] := rfl
  refine ⟨?_, ?_⟩
  · rw [path_part_append ha, path_part_append ha, hslash]
    rcases hside with rfl | hlast | hend | hhead
    · exact split_path_append [] _
    · obtain ⟨a', rfl⟩ := List.getLast?_eq_some_iff.mp hlast
      rw [split_path_append, split_path_append, hnil, List.append_nil, List.append_assoc,
        List.singleton_append, split_path_append]
    · rw [hend, split_path_append, hnil, List.append_nil, List.append_nil]
    · obtain ⟨b', rfl⟩ : ∃ b', b = 47 :: b' := List.head?_eq_some_iff.mp hhead
      have hdouble : split_path (47 :: path_part b') = split_path (path_part b') :=
        split_path_append [] _
      rw [hslash, split_path_append, split_path_append, hdouble]
  · have hmark : query_part (47 :: b) = query_part b := query_part_append (a := [47]) (by simp) b
    rw [query_part_append ha, query_part_append ha, hmark]

/-- Any number of redundant slashes more. -/
abbrev MoreSlashes : Str → Str → Prop := Relation.ReflTransGen AddSlash

theorem more_slashes_same {s s' : Str} (h : MoreSlashes s s') :
    split_path (path_part s') = split_path (path_part s) ∧ query_part s' = query_part s := by
  induction h with
  | refl => exact ⟨rfl, rfl⟩
  | tail _ hadd ih => exact ⟨hadd.same.1.trans ih.1, hadd.same.2.trans ih.2⟩

theorem match_path_more_slashes {pattern pattern' path path' : Str}
    (h : MoreSlashes pattern pattern') (h' : MoreSlashes path path') :
    match_path pattern' path' = match_path pattern path := by
  obtain ⟨hparts, hquery⟩ := more_slashes_same h
  obtain ⟨hparts', hquery'⟩ := more_slashes_same h'
  rw [match_path, match_path, hparts, hquery, hparts', hquery']

/-! ## What matching means -/

/-- **MATCHING**: a match is what the pieces and the queries say, and neither
    another order of the path's pairs nor a redundant slash changes it. -/
theorem match_path_meaning {pattern path : Str} (hpattern : ¬ EmptyPiece pattern)
    (hpath : ¬ EmptyPiece path) :
    (match_path pattern path = .ok true ↔ PathMatches pattern path)
      ∧ (∀ path', Permuted path path' → match_path pattern path' = match_path pattern path)
      ∧ ∀ pattern' path', MoreSlashes pattern pattern' → MoreSlashes path path' →
          match_path pattern' path' = match_path pattern path :=
  ⟨match_path_iff hpattern hpath, fun _ h => h.match_path pattern,
    fun _ _ h h' => match_path_more_slashes h h'⟩

/-- A pattern with a placeholder in each part, and the path's pairs in another
    order. -/
theorem placeholders_match :
    (match_path (str "/u/{}?k={}&l=1") (str "//u/7?l=1&k=2") = .ok true
      ↔ PathMatches (str "/u/{}?k={}&l=1") (str "//u/7?l=1&k=2"))
    ∧ match_path (str "/u/{}?k={}&l=1") (str "//u/7?k=2&l=1")
      = match_path (str "/u/{}?k={}&l=1") (str "//u/7?l=1&k=2") := by
  have hpattern : ¬ EmptyPiece (str "/u/{}?k={}&l=1") := by
    rintro ⟨q, hq, hm⟩
    cases hq
    revert hm
    decide
  have hpath : ¬ EmptyPiece (str "//u/7?l=1&k=2") := by
    rintro ⟨q, hq, hm⟩
    cases hq
    revert hm
    decide
  obtain ⟨hiff, hpermuted, -⟩ := match_path_meaning hpattern hpath
  refine ⟨hiff, hpermuted _ ⟨str "//u/7", [str "l=1", str "k=2"], [str "k=2", str "l=1"], ?_⟩⟩
  exact ⟨by decide, by decide, .of_nodup (by decide) (by decide), rfl, rfl⟩

end WebLib.HttpBinder
