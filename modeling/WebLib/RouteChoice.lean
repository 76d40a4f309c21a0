import WebLib.Matching

/-! # Which handle a path finds

    `find_handle` takes the first entry that matches, in the order in which the
    hash table happens to be walked.  The order matters exactly when two patterns
    overlap: when some path is matched by one and not refused by the other.
    That can be read off the two patterns. -/

namespace WebLib.HttpBinder

open WebLib ByteString Utils UnorderedMap HttpQuery

/-! ## Overlapping patterns -/

/-- Equally many segments, and at each place the same text or a placeholder. -/
def parts_meet (ps qs : List Str) : Bool :=
  ps.length = qs.length
    && (ps.zip qs).all fun z => z.1 = EMPTY_GROUP || z.2 = EMPTY_GROUP || z.1 = z.2

/-- The same keys, and at each the same value or a placeholder. -/
def params_meet (params params' : UnorderedMap Str Str) : Bool :=
  params.size = params'.size
    && params.entries.all fun kv =>
      match params'.find kv.1 with
      | none => false
      | some value => kv.2 = EMPTY_GROUP || value = EMPTY_GROUP || value = kv.2

/-- The first pattern can accept a query that the second does not refuse.  A
    pattern with an empty pair refuses no query: reading it is undefined. -/
def queries_meet : Option Str → Option Str → Bool
  | none, _ => true
  | some q, q' =>
      match parse_query q with
      | .error _ => false
      | .ok params =>
          params.size ≠ 0
            && match q' with
              | none => true
              | some q' =>
                  match parse_query q' with
                  | .error _ => true
                  | .ok params' => params_meet params params'

/-- The pattern `p` overlaps with `q`. -/
def overlap (p q : Str) : Bool :=
  parts_meet (split_path (path_part p)) (split_path (path_part q))
    && queries_meet (query_part p) (query_part q)

/-! ## Segments -/

theorem parts_meet_iff {ps qs : List Str} :
    parts_meet ps qs = true
      ↔ List.Forall₂ (fun p q => p = EMPTY_GROUP ∨ q = EMPTY_GROUP ∨ p = q) ps qs := by
  rw [parts_meet, Bool.and_eq_true, decide_eq_true_iff, List.all_eq_true, List.forall₂_iff_zip]
  refine and_congr_right fun _ => ⟨?_, ?_⟩
  · intro h p q hz
    simpa [or_assoc] using h (p, q) hz
  · rintro h ⟨p, q⟩ hz
    simpa [or_assoc] using h hz

/-- Patterns that match one path meet. -/
theorem parts_meet_of_match {ps qs rs : List Str} (hp : PartsMatch ps rs)
    (hq : PartsMatch qs rs) : parts_meet ps qs = true := by
  rw [parts_meet_iff]
  induction hp generalizing qs with
  | nil =>
      cases hq
      exact List.Forall₂.nil
  | cons hpr _ ih =>
      cases hq with
      | cons hqr hrest =>
          refine List.Forall₂.cons ?_ (ih hrest)
          rcases hpr with hp | hp
          · exact Or.inl hp
          · rcases hqr with hq | hq
            · exact Or.inr (Or.inl hq)
            · exact Or.inr (Or.inr (hp.trans hq.symm))

/-- Patterns that meet match the path of their own texts, with a placeholder only
    where both have one. -/
theorem exists_match_of_parts_meet {ps qs : List Str} (h : parts_meet ps qs = true) :
    ∃ rs, PartsMatch ps rs ∧ PartsMatch qs rs ∧ ∀ r ∈ rs, r ∈ ps ∨ r ∈ qs := by
  rw [parts_meet_iff] at h
  induction h with
  | nil => exact ⟨[], List.Forall₂.nil, List.Forall₂.nil, by simp⟩
  | @cons p q ps qs hpq _ ih =>
      obtain ⟨rs, hps, hqs, hmem⟩ := ih
      obtain ⟨r, hpr, hqr, hr⟩ : ∃ r, (p = EMPTY_GROUP ∨ p = r) ∧ (q = EMPTY_GROUP ∨ q = r)
          ∧ (r = p ∨ r = q) := by
        rcases hpq with hp | hq | heq
        · exact ⟨q, Or.inl hp, Or.inr rfl, Or.inr rfl⟩
        · exact ⟨p, Or.inr rfl, Or.inl hq, Or.inl rfl⟩
        · exact ⟨p, Or.inr rfl, Or.inr heq.symm, Or.inl rfl⟩
      refine ⟨r :: rs, List.Forall₂.cons hpr hps, List.Forall₂.cons hqr hqs, ?_⟩
      intro s hs
      rcases List.mem_cons.mp hs with rfl | hs
      · rcases hr with rfl | rfl
        · exact Or.inl List.mem_cons_self
        · exact Or.inr List.mem_cons_self
      · exact (hmem s hs).imp (List.mem_cons_of_mem _) (List.mem_cons_of_mem _)

/-! ## Queries -/

theorem params_meet_iff {params params' : UnorderedMap Str Str} :
    params_meet params params' = true
      ↔ params.size = params'.size
        ∧ ∀ k v, params.find k = some v →
          ∃ w, params'.find k = some w ∧ (v = EMPTY_GROUP ∨ w = EMPTY_GROUP ∨ w = v) := by
  rw [params_meet, Bool.and_eq_true, decide_eq_true_iff, List.all_eq_true]
  refine and_congr_right fun _ => ⟨?_, ?_⟩
  · intro hall k v hkv
    have := hall ⟨k, v⟩ (mem_entries_iff.mpr hkv)
    cases hw : params'.find k with
    | none => simp [hw] at this
    | some w => exact ⟨w, rfl, by simpa [hw, or_assoc] using this⟩
  · rintro hall ⟨k, v⟩ hkv
    obtain ⟨w, hw, hor⟩ := hall k v (mem_entries_iff.mp hkv)
    simpa [hw, or_assoc] using hor

theorem match_query_self (params : UnorderedMap Str Str) : match_query params params = true :=
  match_query_iff.mpr ⟨rfl, fun _ v hv => ⟨v, hv, Or.inr rfl⟩⟩

/-- Patterns that match one query meet. -/
theorem params_meet_of_match {params params' path_params : UnorderedMap Str Str}
    (h : match_query params path_params = true) (h' : match_query params' path_params = true) :
    params_meet params params' = true := by
  obtain ⟨hsize, hall⟩ := match_query_iff.mp h
  obtain ⟨hsize', hall'⟩ := match_query_iff.mp h'
  -- the path has exactly the keys of the second pattern
  have hkeys : ∀ k ∈ path_params, k ∈ params' := by
    refine mem_of_size_eq hsize' fun k hk => ?_
    obtain ⟨v, hv⟩ := mem_iff_find.mp hk
    obtain ⟨w, hw, -⟩ := hall' k v hv
    exact mem_iff_find.mpr ⟨w, hw⟩
  refine params_meet_iff.mpr ⟨hsize.trans hsize'.symm, ?_⟩
  intro k v hv
  obtain ⟨r, hr, hvr⟩ := hall k v hv
  obtain ⟨w, hw⟩ := mem_iff_find.mp (hkeys k (mem_iff_find.mpr ⟨r, hr⟩))
  obtain ⟨r', hr', hwr⟩ := hall' k w hw
  obtain rfl : r = r' := Option.some.inj (hr.symm.trans hr')
  refine ⟨w, hw, ?_⟩
  rcases hvr with hv | rfl
  · exact Or.inl hv
  · exact Or.inr (hwr.imp_right Eq.symm)

/-- The query of both patterns' texts. -/
def joint_pairs (params params' : UnorderedMap Str Str) : List (Str × Str) :=
  params.entries.map fun kv =>
    (kv.1, if kv.2 = EMPTY_GROUP then (params'.find kv.1).getD [] else kv.2)

theorem joint_pairs_nodup (params params' : UnorderedMap Str Str) :
    ((joint_pairs params params').map Prod.fst).Nodup := by
  rw [joint_pairs, List.map_map]
  exact params.keys_nodup

theorem find_joint_pairs {params params' : UnorderedMap Str Str} {k v : Str}
    (h : params.find k = some v) :
    (emplace_all ∅ (joint_pairs params params')).find k
      = some (if v = EMPTY_GROUP then (params'.find k).getD [] else v) :=
  find_emplace_all_of_mem (joint_pairs_nodup params params')
    (List.mem_map.mpr ⟨⟨k, v⟩, mem_entries_iff.mpr h, rfl⟩)

/-- Patterns that meet match it. -/
theorem match_joint_pairs {params params' : UnorderedMap Str Str}
    (h : params_meet params params' = true) :
    match_query params (emplace_all ∅ (joint_pairs params params')) = true
      ∧ match_query params' (emplace_all ∅ (joint_pairs params params')) = true := by
  obtain ⟨hsize, hall⟩ := params_meet_iff.mp h
  have hlen : (emplace_all ∅ (joint_pairs params params')).size = params.size := by
    rw [size_emplace_all (joint_pairs_nodup _ _), joint_pairs, List.length_map]
    rfl
  constructor
  · refine match_query_iff.mpr ⟨hlen.symm, fun k v hv => ⟨_, find_joint_pairs hv, ?_⟩⟩
    by_cases he : v = EMPTY_GROUP
    · exact Or.inl he
    · exact Or.inr (if_neg he)
  · have hkeys : ∀ k ∈ params', k ∈ params := by
      refine mem_of_size_eq hsize fun k hk => ?_
      obtain ⟨v, hv⟩ := mem_iff_find.mp hk
      obtain ⟨w, hw, -⟩ := hall k v hv
      exact mem_iff_find.mpr ⟨w, hw⟩
    refine match_query_iff.mpr ⟨hsize.symm.trans hlen.symm, fun k w hw => ?_⟩
    obtain ⟨v, hv⟩ := mem_iff_find.mp (hkeys k (mem_iff_find.mpr ⟨w, hw⟩))
    obtain ⟨w', hw', hor⟩ := hall k v hv
    obtain rfl : w = w' := Option.some.inj (hw.symm.trans hw')
    refine ⟨_, find_joint_pairs hv, ?_⟩
    by_cases he : v = EMPTY_GROUP
    · rw [if_pos he, hw]
      exact Or.inr rfl
    · rw [if_neg he]
      exact (hor.resolve_left he).imp_right Eq.symm

/-- The joint query can be written. -/
theorem parse_joint_query {q q' : Str} {params params' : UnorderedMap Str Str}
    (hq : parse_query q = .ok params) (hq' : parse_query q' = .ok params')
    (h : params_meet params params' = true) :
    parse_query (join_query (joint_pairs params params'))
      = .ok (emplace_all ∅ (joint_pairs params params')) := by
  refine parse_query_join ?_
  intro kv hkv
  obtain ⟨⟨k, v⟩, hmem, rfl⟩ := List.mem_map.mp hkv
  have hv := mem_entries_iff.mp hmem
  have hclean := parse_query_clean hq k v hv
  obtain ⟨w, hw, -⟩ := (params_meet_iff.mp h).2 k v hv
  have hclean' := parse_query_clean hq' k w hw
  simp only [hw, Option.getD_some]
  split
  · exact hclean'
  · exact hclean

theorem queries_meet_some_iff {q : Str} {o : Option Str} :
    queries_meet (some q) o = true
      ↔ ∃ params, parse_query q = .ok params ∧ params.size ≠ 0
        ∧ ∀ q' ∈ o, ∀ params', parse_query q' = .ok params' →
          params_meet params params' = true := by
  rw [queries_meet]
  cases parse_query q with
  | error f => simp
  | ok params =>
      cases o with
      | none => simp
      | some q' =>
          cases hq' : parse_query q' with
          | error f => simp [hq']
          | ok params' => simp [hq']

theorem ne_nil_of_parse_query {q : Str} {params : UnorderedMap Str Str}
    (h : parse_query q = .ok params) (hsize : params.size ≠ 0) : q ≠ [] := by
  rintro rfl
  cases h
  exact hsize rfl

/-- A query with an empty pair is refused by no pattern. -/
theorem verdict_empty_pair (o : Option Str) : verdict o (some [38]) ≠ .ok false := by
  cases o with
  | none => simp [verdict]
  | some q =>
      refine query_verdict_ne_false_iff.mpr ⟨by simp, fun _ path_params _ hpath => ?_⟩
      have herror : parse_query [38] = .error .undefined := rfl
      rw [Option.getD_some, herror] at hpath
      cases hpath

/-- The query of a pattern, read as the query of a path. -/
theorem verdict_self {q : Str} {params : UnorderedMap Str Str} (hq : parse_query q = .ok params)
    (hsize : params.size ≠ 0) : verdict (some q) (some q) = .ok true :=
  query_verdict_eq_true_iff.mpr
    ⟨ne_nil_of_parse_query hq hsize, params, params, hq, hq, match_query_self params⟩

/-- It is not refused by a pattern whose query cannot be parsed. -/
theorem verdict_unparsed {q : Str} {o : Option Str} (hne : q ≠ [])
    (h : ∀ q' ∈ o, ∀ params', parse_query q' ≠ .ok params') :
    verdict o (some q) ≠ .ok false := by
  cases o with
  | none => simp [verdict]
  | some q' =>
      exact query_verdict_ne_false_iff.mpr
        ⟨hne, fun params' _ hparams' _ => absurd hparams' (h q' rfl params')⟩

theorem verdict_joint {q q' : Str} {params params' : UnorderedMap Str Str}
    (hq : parse_query q = .ok params) (hq' : parse_query q' = .ok params')
    (hsize : params.size ≠ 0) (h : params_meet params params' = true) :
    ∃ r, verdict (some q) r = .ok true ∧ verdict (some q') r = .ok true := by
  have hjoint := parse_joint_query hq hq' h
  obtain ⟨hmatch, hmatch'⟩ := match_joint_pairs h
  have hne : join_query (joint_pairs params params') ≠ [] := by
    refine ne_nil_of_parse_query hjoint ?_
    rwa [← (match_query_iff.mp hmatch).1]
  exact ⟨some (join_query (joint_pairs params params')),
    query_verdict_eq_true_iff.mpr ⟨hne, _, _, hq, hjoint, hmatch⟩,
    query_verdict_eq_true_iff.mpr ⟨hne, _, _, hq', hjoint, hmatch'⟩⟩

theorem queries_meet_iff {o o' : Option Str} :
    queries_meet o o' = true ↔ ∃ r, verdict o r = .ok true ∧ verdict o' r ≠ .ok false := by
  constructor
  · intro h
    cases o with
    | none => exact ⟨some [38], rfl, verdict_empty_pair o'⟩
    | some q =>
        obtain ⟨params, hq, hsize, hmeet⟩ := queries_meet_some_iff.mp h
        by_cases hparsed : ∃ q' ∈ o', ∃ params', parse_query q' = .ok params'
        · obtain ⟨q', ho, params', hq'⟩ := hparsed
          obtain ⟨r, hr, hr'⟩ := verdict_joint hq hq' hsize (hmeet q' ho params' hq')
          rw [Option.mem_def] at ho
          exact ⟨r, hr, by simp [ho, hr']⟩
        · refine ⟨some q, verdict_self hq hsize, ?_⟩
          exact verdict_unparsed (ne_nil_of_parse_query hq hsize)
            fun q' ho params' hq' => hparsed ⟨q', ho, params', hq'⟩
  · rintro ⟨r, hr, hr'⟩
    cases o with
    | none => rfl
    | some q =>
        obtain ⟨hne, params, path_params, hq, hpath, hmatch⟩ := query_verdict_eq_true_iff.mp hr
        refine queries_meet_some_iff.mpr ⟨params, hq, ?_, ?_⟩
        · rw [(match_query_iff.mp hmatch).1]
          exact size_pos_of_parse_query hpath hne
        · rintro q' rfl params' hq'
          obtain ⟨-, hall⟩ := query_verdict_ne_false_iff.mp hr'
          exact params_meet_of_match hmatch (hall params' path_params hq' hpath)

/-- **OVERLAP**: some path is matched by the first pattern and not refused by the
    second. -/
theorem overlap_iff {p q : Str} :
    overlap p q = true
      ↔ ∃ path, match_path p path = .ok true ∧ match_path q path ≠ .ok false := by
  rw [overlap, Bool.and_eq_true]
  constructor
  · rintro ⟨hparts, hqueries⟩
    obtain ⟨rs, hp, hq, hmem⟩ := exists_match_of_parts_meet hparts
    obtain ⟨r, hr, hr'⟩ := queries_meet_iff.mp hqueries
    have hseg : ∀ s ∈ rs, IsSegment s :=
      fun s hs => (hmem s hs).elim isSegment_of_mem isSegment_of_mem
    have hmark := no_mark_join_path fun s hs => (hseg s hs).no_mark
    obtain ⟨path, hpath, hquery⟩ : ∃ path, path_part path = join_path rs ∧ query_part path = r := by
      cases r with
      | none => exact ⟨_, path_part_of_notMem hmark, query_part_of_notMem hmark⟩
      | some r => exact ⟨_, cut_at_mark hmark r⟩
    have hsplit : split_path (path_part path) = rs := by rw [hpath, split_path_join hseg]
    refine ⟨path, ?_, ?_⟩
    · rw [match_path_of_parts (hsplit.symm ▸ hp), hquery]
      exact hr
    · rw [match_path_of_parts (hsplit.symm ▸ hq), hquery]
      exact hr'
  · rintro ⟨path, hp, hq⟩
    have hparts : PartsMatch (split_path (path_part p)) (split_path (path_part path)) := by
      by_contra hno
      rw [match_path_of_not_parts hno] at hp
      cases hp
    have hparts' : PartsMatch (split_path (path_part q)) (split_path (path_part path)) := by
      by_contra hno
      exact hq (match_path_of_not_parts hno)
    rw [match_path_of_parts hparts] at hp
    rw [match_path_of_parts hparts'] at hq
    exact ⟨parts_meet_of_match hparts hparts', queries_meet_iff.mpr ⟨_, hp, hq⟩⟩

/-! ## The order of the table -/

variable {Handler Filter : Type}

/-- What the loop returns at an entry, if it returns there. -/
def answer (path : Str) (type : RequestType) (entry : Str × HttpHandle Handler Filter) :
    Option (Except Fault (HttpHandle Handler Filter)) :=
  if entry.2.has_method type then
    match match_path entry.1 path with
    | .error f => some (.error f)
    | .ok true => some (.ok entry.2)
    | .ok false => none
  else none

/-- What `find_handle` makes of the first answer. -/
def conclude : Option (Except Fault (HttpHandle Handler Filter)) →
    Except Fault (Option (HttpHandle Handler Filter))
  | none => .ok none
  | some (.error f) => .error f
  | some (.ok handle) => .ok (some handle)

theorem conclude_injective : Function.Injective (@conclude Handler Filter) := by
  rintro (_ | _ | _) (_ | _ | _) h <;> cases h <;> rfl

theorem find_handle_loop_eq (path : Str) (type : RequestType)
    (entries : List (Str × HttpHandle Handler Filter)) :
    find_handle_loop path type entries = conclude (entries.findSome? (answer path type)) := by
  induction entries with
  | nil => rfl
  | cons entry entries ih =>
      obtain ⟨pattern, handle⟩ := entry
      rw [find_handle_loop, List.findSome?_cons, answer]
      by_cases hm : handle.has_method type = true
      · simp only [if_pos hm]
        cases match_path pattern path with
        | error f => rfl
        | ok b =>
            cases b with
            | true => rfl
            | false => exact ih
      · simp only [if_neg hm]
        exact ih

theorem find_handle_eq (m_handles : Handles Handler Filter) (path : Str) (type : RequestType) :
    find_handle m_handles path type
      = conclude (m_handles.entries.findSome? fun kv => answer path type (kv.1, kv.2)) := by
  rw [find_handle, find_handle_loop_eq, List.findSome?_map]
  rfl

/-- `find_handle` returns the same in every iteration order of the table. -/
def OrderFree (m_handles : Handles Handler Filter) (path : Str) (type : RequestType) : Prop :=
  ∀ m_handles' : Handles Handler Filter, m_handles'.entries.Perm m_handles.entries →
    find_handle m_handles' path type = find_handle m_handles path type

/-- All answers are the same. -/
theorem orderFree_iff {m_handles : Handles Handler Filter} {path : Str} {type : RequestType} :
    OrderFree m_handles path type
      ↔ ∀ p h q h', m_handles.find p = some h → m_handles.find q = some h' →
        ∀ x y, answer path type (p, h) = some x → answer path type (q, h') = some y → x = y := by
  have hperm : OrderFree m_handles path type
      ↔ ∀ l : List (Sigma fun _ : Str => HttpHandle Handler Filter), l.Perm m_handles.entries →
        l.findSome? (fun kv => answer path type (kv.1, kv.2))
          = m_handles.entries.findSome? fun kv => answer path type (kv.1, kv.2) := by
    constructor
    · intro hfree l hl
      have hnodup : l.NodupKeys := (List.perm_nodupKeys hl).mpr m_handles.nodupKeys
      have heq := hfree ⟨l, hnodup⟩ hl
      rw [find_handle_eq, find_handle_eq] at heq
      exact conclude_injective heq
    · intro hall m_handles' hl
      rw [find_handle_eq, find_handle_eq, hall m_handles'.entries hl]
  rw [hperm, Search.findSome?_perm_iff]
  constructor
  · intro hall p h q h' hp hq
    exact hall ⟨p, h⟩ (mem_entries_iff.mpr hp) ⟨q, h'⟩ (mem_entries_iff.mpr hq)
  · rintro hall ⟨p, h⟩ hp ⟨q, h'⟩ hq
    exact hall p h q h' (mem_entries_iff.mp hp) (mem_entries_iff.mp hq)

/-- An entry answers with its handle, or not at all, or is undefined. -/
theorem answer_eq_some_iff {path : Str} {type : RequestType} {p : Str}
    {h : HttpHandle Handler Filter} {x : Except Fault (HttpHandle Handler Filter)} :
    answer path type (p, h) = some x
      ↔ h.has_method type = true
        ∧ ((match_path p path = .ok true ∧ x = .ok h)
          ∨ (match_path p path = .error .undefined ∧ x = .error .undefined)) := by
  rw [answer]
  by_cases hm : h.has_method type = true
  · simp only [hm, if_true, true_and]
    cases hmatch : match_path p path with
    | error f =>
        obtain rfl := match_path_error hmatch
        simp [eq_comm]
    | ok b => cases b <;> simp [eq_comm]
  · simp [hm]

/-- The registered patterns that allow the method. -/
def patterns (m_handles : Handles Handler Filter) (type : RequestType) : List Str :=
  (m_handles.entries.filter fun kv => kv.2.has_method type).map Sigma.fst

theorem mem_patterns {m_handles : Handles Handler Filter} {type : RequestType} {p : Str} :
    p ∈ patterns m_handles type
      ↔ ∃ h, m_handles.find p = some h ∧ h.has_method type = true := by
  rw [patterns, List.mem_map]
  constructor
  · rintro ⟨⟨p, h⟩, hmem, rfl⟩
    obtain ⟨hp, hm⟩ := List.mem_filter.mp hmem
    exact ⟨h, mem_entries_iff.mp hp, hm⟩
  · rintro ⟨h, hp, hm⟩
    exact ⟨⟨p, h⟩, List.mem_filter.mpr ⟨mem_entries_iff.mpr hp, hm⟩, rfl⟩

/-- **ONE PATH**: on every table that calls can make, the order does not matter for
    a path exactly when every pattern that matches it is the only one that does
    not refuse it. -/
theorem orderFree_iff_match {m_handles : Handles Handler Filter}
    (hreach : binder.Reachable m_handles) (path : Str) (type : RequestType) :
    OrderFree m_handles path type
      ↔ ∀ p ∈ patterns m_handles type, ∀ q ∈ patterns m_handles type, p ≠ q →
        match_path p path = .ok true → match_path q path = .ok false := by
  simp only [mem_patterns]
  rw [orderFree_iff]
  constructor
  · rintro hsame p ⟨h, hp, hm⟩ q ⟨h', hq, hm'⟩ hne hmatch
    have hx : answer path type (p, h) = some (.ok h) :=
      answer_eq_some_iff.mpr ⟨hm, Or.inl ⟨hmatch, rfl⟩⟩
    cases hresult : match_path q path with
    | error f =>
        obtain rfl := match_path_error hresult
        have hy : answer path type (q, h') = some (.error .undefined) :=
          answer_eq_some_iff.mpr ⟨hm', Or.inr ⟨hresult, rfl⟩⟩
        cases hsame p h q h' hp hq _ _ hx hy
    | ok b =>
        cases b with
        | false => rfl
        | true =>
            have hy : answer path type (q, h') = some (.ok h') :=
              answer_eq_some_iff.mpr ⟨hm', Or.inl ⟨hresult, rfl⟩⟩
            -- one handle is entered under one key only
            obtain rfl : h = h' := Except.ok.inj (hsame p h q h' hp hq _ _ hx hy)
            have hnormal := paths_normal hreach
            exact absurd (Except.ok.inj ((hnormal p h hp).symm.trans (hnormal q h hq))) hne
  · intro hrefused p h q h' hp hq x y hx hy
    by_cases hne : p = q
    · subst hne
      obtain rfl : h = h' := Option.some.inj (hp.symm.trans hq)
      exact Option.some.inj (hx.symm.trans hy)
    obtain ⟨hm, hx⟩ := answer_eq_some_iff.mp hx
    obtain ⟨hm', hy⟩ := answer_eq_some_iff.mp hy
    rcases hx with ⟨hmatch, -⟩ | ⟨hundef, rfl⟩
    · rw [hrefused p ⟨h, hp, hm⟩ q ⟨h', hq, hm'⟩ hne hmatch] at hy
      rcases hy with ⟨hy, -⟩ | ⟨hy, -⟩ <;> cases hy
    · rcases hy with ⟨hmatch, -⟩ | ⟨-, rfl⟩
      · rw [hrefused q ⟨h', hq, hm'⟩ p ⟨h, hp, hm⟩ (Ne.symm hne) hmatch] at hundef
        cases hundef
      · rfl

/-- **WHEN THE ORDER DOES NOT MATTER**: on every table that calls can make and for
    every method, each path finds the same handle in every iteration order exactly
    when no two registered patterns that allow the method overlap. -/
theorem orderFree_iff_no_overlap {m_handles : Handles Handler Filter}
    (hreach : binder.Reachable m_handles) (type : RequestType) :
    (∀ path, OrderFree m_handles path type)
      ↔ ∀ p ∈ patterns m_handles type, ∀ q ∈ patterns m_handles type, p ≠ q →
        overlap p q = false := by
  constructor
  · intro hfree p hp q hq hne
    by_contra hover
    obtain ⟨path, hmatch, hother⟩ := overlap_iff.mp (Bool.eq_true_of_not_eq_false hover)
    exact hother ((orderFree_iff_match hreach path type).mp (hfree path) p hp q hq hne hmatch)
  · intro hsep path
    refine (orderFree_iff_match hreach path type).mpr ?_
    intro p hp q hq hne hmatch
    by_contra hother
    have hover := hsep p hp q hq hne
    rw [overlap_iff.mpr ⟨path, hmatch, hother⟩] at hover
    cases hover

/-- A `GET` route, with a number for its handler. -/
def register_get (m_handles : Handles Nat Nat) (endpoint_name : Str) (handler : Nat) :
    Handles Nat Nat := (register_handler m_handles endpoint_name (some handler) [.GET]).1

theorem reachable_register_get {m_handles : Handles Nat Nat} (h : binder.Reachable m_handles)
    (endpoint_name : Str) (handler : Nat) :
    binder.Reachable (register_get m_handles endpoint_name handler) :=
  .step h trivial (l := .handler endpoint_name (some handler) [.GET]) rfl

/-- `/a/{x}`, `/b/{x}` and `/{y}/b`. -/
def route_a : Str := str "/a/" ++ group (str "x")

def route_b : Str := str "/b/" ++ group (str "x")

def route_yb : Str := 47 :: (group (str "y") ++ str "/b")

def apart : Handles Nat Nat := register_get (register_get ∅ route_a 0) route_b 1

theorem reachable_apart : binder.Reachable apart :=
  reachable_register_get (reachable_register_get (.init rfl) _ _) _ _

theorem orderFree_apart : (∀ path, OrderFree apart path .GET)
    ↔ ∀ p ∈ patterns apart .GET, ∀ q ∈ patterns apart .GET, p ≠ q → overlap p q = false :=
  orderFree_iff_no_overlap reachable_apart .GET

/-- Two routes that share the path `/a/b`, walked in either order. -/
def crossing : Handles Nat Nat := register_get (register_get ∅ route_a 0) route_yb 1

def crossing_turned : Handles Nat Nat := register_get (register_get ∅ route_yb 1) route_a 0

/-- One path, two orders, two handlers. -/
theorem handle_by_order : binder.Reachable crossing
    ∧ crossing_turned.entries.Perm crossing.entries
    ∧ find_handle crossing (str "/a/b") .GET
      = .ok (some ⟨[.GET], [], [str "y"], route_yb, some 1⟩)
    ∧ find_handle crossing_turned (str "/a/b") .GET
      = .ok (some ⟨[.GET], [], [str "x"], route_a, some 0⟩)
    ∧ ¬ OrderFree crossing (str "/a/b") .GET := by
  have hperm : crossing_turned.entries.Perm crossing.entries := List.Perm.swap _ _ _
  have hfirst : find_handle crossing (str "/a/b") .GET
      = .ok (some ⟨[.GET], [], [str "y"], route_yb, some 1⟩) := by rfl
  have hturned : find_handle crossing_turned (str "/a/b") .GET
      = .ok (some ⟨[.GET], [], [str "x"], route_a, some 0⟩) := by rfl
  refine ⟨reachable_register_get (reachable_register_get (.init rfl) _ _) _ _, hperm, hfirst,
    hturned, ?_⟩
  intro hfree
  have heq := hfree crossing_turned hperm
  rw [hfirst, hturned] at heq
  cases heq

end WebLib.HttpBinder
