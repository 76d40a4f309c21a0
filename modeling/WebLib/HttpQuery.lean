import WebLib.UnorderedMap
import WebLib.Utils

/-! # `HttpQuery::parse_from_string`: parameters by position

    Template and request are cut at the same delimiters, the pieces are paired by
    position, and the names of the placeholders are handed out in order.  The
    text of the request is a slice of the whole message, found by searching for
    a slash and for `HTTP`. -/

namespace WebLib.HttpQuery

open WebLib ByteString Utils UnorderedMap

/-- `HttpConsts::HTTP`. -/
def HTTP : Str := str "HTTP"

/-- `query_parsing_error{}`. -/
def query_parsing_error : Fault := .throws (.query_parsing_error (str "Query parsing error"))

/-- The error of a different number of pieces. -/
def size_error : Fault :=
  .throws (.query_parsing_error (str "Template path does not match the actual path"))

/-- The view `path`: from after the first slash to two bytes before `HTTP`. -/
def request_path (raw_http : Str) : Except Fault Str :=
  match find_char 47 raw_http with
  | none => .error query_parsing_error
  | some endpoint_start =>
      string_view raw_http (endpoint_start + 1)
        -- a missing `HTTP`, or one before the slash, makes the length wrap
        (size_sub (size_sub ((Search.find HTTP raw_http).getD npos) endpoint_start) 2)

def split_kv_query (key_value : Str) : Except Fault (Str × Str) :=
  match views_split 61 key_value with
  | [front, back] => .ok (front, back)
  | _ => .error query_parsing_error

/-- The loop over the path pieces; `param_iter` is the list of the names not
    used yet. -/
def bind_path : List (Str × Str) → List Str → UnorderedMap Str Str →
    Except Fault (List Str × UnorderedMap Str Str)
  | [], param_iter, m_parameters => .ok (param_iter, m_parameters)
  | (pattern_arg, path_arg) :: rest, param_iter, m_parameters =>
      if 123 ∈ pattern_arg then
        match param_iter with
        | [] => .error query_parsing_error
        | p :: ps => bind_path rest ps (m_parameters.emplace p path_arg)
      else bind_path rest param_iter m_parameters

/-- The loop over the query pairs.  A pair of the template whose value has no
    brace is entered under the name the request gives it. -/
def bind_query : List (Str × Str) → List Str → UnorderedMap Str Str →
    Except Fault (UnorderedMap Str Str)
  | [], _, m_parameters => .ok m_parameters
  | (t_path_kv, path_kv) :: rest, param_iter, m_parameters =>
      match split_kv_query t_path_kv, split_kv_query path_kv with
      | .error f, _ => .error f
      | .ok _, .error f => .error f
      | .ok (_, t_path_value), .ok (path_name, path_value) =>
          if 123 ∈ t_path_value then
            match param_iter with
            | [] => .error query_parsing_error
            | p :: ps => bind_query rest ps (m_parameters.emplace p path_value)
          -- a static pair: the request's name, not the template's
          else bind_query rest param_iter (m_parameters.emplace path_name path_value)

/-- The rest of `parse_from_string`, on the two views. -/
def bind_parameters (m_parameters : UnorderedMap Str Str) (parameters : List Str)
    (template_path path : Str) : Except Fault (UnorderedMap Str Str) :=
  match find_char 63 template_path, find_char 63 path with
  | none, _ => .error query_parsing_error
  | some _, none => .error query_parsing_error
  | some t_ques_mark, some ques_mark =>
      let t_path_params := views_split 47 (template_path.take t_ques_mark)
      let path_slash_params := views_split 47 (path.take ques_mark)
      if t_path_params.length ≠ path_slash_params.length then .error size_error
      else
        match bind_path (t_path_params.zip path_slash_params) parameters m_parameters with
        | .error f => .error f
        | .ok (param_iter, m_parameters) =>
            let t_path_query_params := views_split 38 (template_path.drop (t_ques_mark + 1))
            let path_query_params := views_split 38 (path.drop (ques_mark + 1))
            if t_path_query_params.length ≠ path_query_params.length then .error size_error
            else
              bind_query (t_path_query_params.zip path_query_params) param_iter m_parameters

/-- `parse_from_string`; `remove_prefix` needs a byte to remove. -/
def parse_from_string (m_parameters : UnorderedMap Str Str) (raw_http : Str)
    (parameters : List Str) (template_path : Str) : Except Fault (UnorderedMap Str Str) :=
  if parameters = [] then .ok m_parameters
  else
    match request_path raw_http with
    | .error f => .error f
    | .ok path =>
        if template_path = [] then .error .undefined
        else bind_parameters m_parameters parameters (template_path.drop 1) path

/-- `get_query`, of the content: the name is folded, and one that is not there
    gives an empty `Query`. -/
def get_query (m_parameters : UnorderedMap Str Str) (query_name : Str) : Str :=
  (m_parameters.find (to_lowercase_str query_name)).getD []

/-! ## Slots and names -/

/-- The text before and after the first equals sign. -/
def name_part (kv : Str) : Str := kv.takeWhile fun c => c ≠ 61

def value_part (kv : Str) : Str := (kv.dropWhile fun c => c ≠ 61).drop 1

/-- A text of the request with the name it goes under; `none` takes the next
    placeholder name. -/
abbrev Slot := Option Str × Str

/-- The slots of paired path pieces: one for each template piece with a brace. -/
def path_slots (pieces : List (Str × Str)) : List Slot :=
  (pieces.filter fun z => 123 ∈ z.1).map fun z => (none, z.2)

/-- The slot of two query pairs. -/
def query_slot (z : Str × Str) : Slot :=
  if 123 ∈ value_part z.1 then (none, value_part z.2) else (some (name_part z.2), value_part z.2)

/-- The texts with their names, in order; nothing when the names run out. -/
def fill : List Str → List Slot → Option (List (Str × Str))
  | _, [] => some []
  | names, (some name, text) :: slots => (fill names slots).map ((name, text) :: ·)
  | [], (none, _) :: _ => none
  | name :: names, (none, text) :: slots => (fill names slots).map ((name, text) :: ·)

/-- Entering texts in order; a name that is there keeps its text. -/
def emplace_all (m : UnorderedMap Str Str) (texts : List (Str × Str)) : UnorderedMap Str Str :=
  texts.foldl (fun m z => m.emplace z.1 z.2) m

/-- The names suffice exactly when there is one for each open slot. -/
theorem fill_isSome_iff {names : List Str} {slots : List Slot} :
    (∃ texts, fill names slots = some texts)
      ↔ (slots.countP fun slot => slot.1 = none) ≤ names.length := by
  induction slots generalizing names with
  | nil => simp [fill]
  | cons slot slots ih =>
      obtain ⟨_ | name, text⟩ := slot
      · cases names with
        | nil => simp [fill]
        | cons name names =>
            rw [List.countP_cons_of_pos (by simp), List.length_cons, Nat.succ_le_succ_iff, ← ih]
            simp [fill, Option.map_eq_some_iff]
      · rw [List.countP_cons_of_neg (by simp), ← ih]
        cases names <;> simp [fill, Option.map_eq_some_iff]

/-- Slots without names of their own take the names one after another. -/
theorem fill_open (names : List Str) (texts : List Str) (slots : List Slot) :
    fill names (texts.map (none, ·) ++ slots)
      = if texts.length ≤ names.length then
          (fill (names.drop texts.length) slots).map (names.zip texts ++ ·)
        else none := by
  induction texts generalizing names with
  | nil => simp
  | cons text texts ih =>
      cases names with
      | nil => simp [fill]
      | cons name names =>
          rw [List.map_cons, List.cons_append, fill, ih]
          by_cases h : texts.length ≤ names.length
          · simp [h, Function.comp_def]
          · simp [h]

/-- The first text entered under a name stays. -/
theorem find_emplace_all (m : UnorderedMap Str Str) (texts : List (Str × Str)) (x : Str) :
    (emplace_all m texts).find x
      = ((m.find x).or ((texts.find? fun z => z.1 = x).map Prod.snd)) := by
  induction texts generalizing m with
  | nil => simp [emplace_all]
  | cons z texts ih =>
      show (emplace_all (m.emplace z.1 z.2) texts).find x = _
      rw [ih, find_emplace]
      by_cases hx : x = z.1
      · rw [if_pos hx, List.find?_cons_of_pos (by simp [hx]), ← hx]
        cases m.find x <;> rfl
      · rw [if_neg hx, List.find?_cons_of_neg (by simp [Ne.symm hx])]

/-- Texts with different names are all found. -/
theorem find_emplace_all_of_mem {texts : List (Str × Str)} (h : (texts.map Prod.fst).Nodup)
    {x a : Str} (hmem : (x, a) ∈ texts) : (emplace_all ∅ texts).find x = some a := by
  have hfind : texts.find? (fun z => z.1 = x) = some (x, a) := Search.find?_of_nodup_map h hmem
  rw [find_emplace_all, find_empty, Option.none_or, hfind]
  rfl

theorem find_emplace_all_eq_none {texts : List (Str × Str)} {x : Str}
    (h : x ∉ texts.map Prod.fst) : (emplace_all ∅ texts).find x = none := by
  rw [find_emplace_all, find_empty, Option.none_or, Option.map_eq_none_iff, List.find?_eq_none]
  intro z hz heq
  exact h (List.mem_map.mpr ⟨z, hz, by simpa using heq⟩)

/-- What is found is one of the texts. -/
theorem mem_of_find_emplace_all {texts : List (Str × Str)} {x a : Str}
    (h : (emplace_all ∅ texts).find x = some a) : (x, a) ∈ texts := by
  rw [find_emplace_all, find_empty, Option.none_or] at h
  obtain ⟨⟨y, b⟩, hf, rfl⟩ := Option.map_eq_some_iff.mp h
  have hy : y = x := by simpa using List.find?_some hf
  exact hy ▸ List.mem_of_find?_eq_some hf

theorem size_emplace_all {texts : List (Str × Str)} (h : (texts.map Prod.fst).Nodup) :
    (emplace_all ∅ texts).size = texts.length := by
  induction texts using List.reverseRecOn with
  | nil => rfl
  | append_singleton texts z ih =>
      rw [List.map_append, List.map_singleton, ← List.concat_eq_append, List.nodup_concat] at h
      have hnot : z.1 ∉ emplace_all ∅ texts :=
        find_eq_none_iff.mp (find_emplace_all_eq_none h.1)
      have heq : emplace_all ∅ (texts ++ [z]) = (emplace_all ∅ texts).emplace z.1 z.2 :=
        List.foldl_append
      rw [heq, size_emplace_of_notMem _ hnot, ih h.2, List.length_append, List.length_singleton]

/-! ## The loops -/

/-- The two parts of a pair. -/
theorem name_part_of_pair {k : Str} (hk : 61 ∉ k) (v : Str) : name_part (k ++ 61 :: v) = k := by
  have hpos : ∀ c ∈ k, decide (c ≠ 61) = true :=
    fun c hc => decide_eq_true fun he => hk (he ▸ hc)
  rw [name_part, List.takeWhile_append_of_pos hpos, List.takeWhile_cons_of_neg (by simp),
    List.append_nil]

theorem value_part_of_pair {k : Str} (hk : 61 ∉ k) (v : Str) : value_part (k ++ 61 :: v) = v := by
  have hpos : ∀ c ∈ k, decide (c ≠ 61) = true :=
    fun c hc => decide_eq_true fun he => hk (he ▸ hc)
  rw [value_part, List.dropWhile_append_of_pos hpos, List.dropWhile_cons_of_neg (by simp),
    List.drop_one, List.tail_cons]

/-- A pair with exactly one equals sign has a name and a value. -/
theorem split_kv_query_of_count {kv : Str} (h : kv.count 61 = 1) :
    split_kv_query kv = .ok (name_part kv, value_part kv) := by
  have hmem : (61 : Byte) ∈ kv := List.count_pos_iff.mp (by rw [h]; exact Nat.one_pos)
  obtain ⟨a, b, rfl, ha⟩ := List.eq_append_cons_of_mem hmem
  have hb : (61 : Byte) ∉ b := by
    rw [List.count_append, List.count_eq_zero.mpr ha, List.count_cons_self, Nat.zero_add] at h
    exact List.count_eq_zero.mp (Nat.succ.inj h)
  rw [split_kv_query, views_split_pair ha hb, name_part_of_pair ha, value_part_of_pair ha]

theorem split_kv_query_of_count_ne {kv : Str} (h : kv.count 61 ≠ 1) :
    split_kv_query kv = .error query_parsing_error := by
  have hlen : (views_split 61 kv).length ≠ 2 := by
    by_cases hkv : kv = []
    · subst hkv
      decide
    · rw [length_views_split hkv]
      exact fun he => h (Nat.succ.inj he)
  rw [split_kv_query]
  split
  · rename_i heq
    rw [heq] at hlen
    exact absurd rfl hlen
  · rfl

/-- **THE PATH LOOP**: names go to the slots as long as there are names. -/
theorem bind_path_eq (pieces : List (Str × Str)) (names : List Str) (m : UnorderedMap Str Str) :
    bind_path pieces names m
      = if (path_slots pieces).length ≤ names.length then
          .ok (names.drop (path_slots pieces).length,
            emplace_all m (names.zip ((path_slots pieces).map Prod.snd)))
        else .error query_parsing_error := by
  induction pieces generalizing names m with
  | nil => simp [bind_path, path_slots, emplace_all]
  | cons z pieces ih =>
      obtain ⟨pattern_arg, path_arg⟩ := z
      by_cases hz : 123 ∈ pattern_arg
      · have hslots : path_slots ((pattern_arg, path_arg) :: pieces)
            = (none, path_arg) :: path_slots pieces := by
          simp only [path_slots]
          rw [List.filter_cons_of_pos (by simpa using hz), List.map_cons]
        simp only [bind_path]
        rw [if_pos hz, hslots]
        cases names with
        | nil => rfl
        | cons p ps =>
            simp only [List.length_cons, Nat.succ_le_succ_iff]
            rw [ih]
            rfl
      · have hslots : path_slots ((pattern_arg, path_arg) :: pieces) = path_slots pieces := by
          simp only [path_slots]
          rw [List.filter_cons_of_neg (by simpa using hz)]
        simp only [bind_path]
        rw [if_neg hz, hslots, ih]

/-- **THE QUERY LOOP**: every pair has one equals sign, and the names suffice. -/
theorem bind_query_eq_ok_iff {pairs : List (Str × Str)} {names : List Str}
    {m m' : UnorderedMap Str Str} :
    bind_query pairs names m = .ok m'
      ↔ (∀ z ∈ pairs, z.1.count 61 = 1 ∧ z.2.count 61 = 1)
        ∧ ∃ texts, fill names (pairs.map query_slot) = some texts
          ∧ emplace_all m texts = m' := by
  induction pairs generalizing names m with
  | nil => simp [bind_query, fill, emplace_all]
  | cons z pairs ih =>
      obtain ⟨t_kv, kv⟩ := z
      by_cases ht : t_kv.count 61 = 1
      · by_cases hkv : kv.count 61 = 1
        · rw [bind_query, split_kv_query_of_count ht, split_kv_query_of_count hkv]
          simp only [List.forall_mem_cons, ht, hkv, and_self, true_and, List.map_cons]
          by_cases hb : 123 ∈ value_part t_kv
          · have hslot : query_slot (t_kv, kv) = (none, value_part kv) := if_pos hb
            rw [if_pos hb, hslot]
            cases names with
            | nil => simp [fill]
            | cons p ps =>
                simp only [fill, Option.map_eq_some_iff]
                rw [ih]
                constructor
                · rintro ⟨hall, texts, hfill, rfl⟩
                  exact ⟨hall, _, ⟨texts, hfill, rfl⟩, rfl⟩
                · rintro ⟨hall, _, ⟨texts, hfill, rfl⟩, rfl⟩
                  exact ⟨hall, texts, hfill, rfl⟩
          · have hslot : query_slot (t_kv, kv) = (some (name_part kv), value_part kv) := if_neg hb
            rw [if_neg hb, hslot]
            simp only [fill, Option.map_eq_some_iff]
            rw [ih]
            constructor
            · rintro ⟨hall, texts, hfill, rfl⟩
              exact ⟨hall, _, ⟨texts, hfill, rfl⟩, rfl⟩
            · rintro ⟨hall, _, ⟨texts, hfill, rfl⟩, rfl⟩
              exact ⟨hall, texts, hfill, rfl⟩
        · rw [bind_query, split_kv_query_of_count ht, split_kv_query_of_count_ne hkv]
          simp [hkv]
      · rw [bind_query, split_kv_query_of_count_ne ht]
        simp [ht]

/-! ## When parsing returns -/

/-- Template and request text have a query each, as many path pieces and query
    pairs as the other, and one equals sign in every pair. -/
structure SameShape (t p tq pq : Str) : Prop where
  t_query : query_part t = some tq
  p_query : query_part p = some pq
  path_size : (views_split 47 (path_part t)).length = (views_split 47 (path_part p)).length
  query_size : (views_split 38 tq).length = (views_split 38 pq).length
  t_pairs : ∀ kv ∈ views_split 38 tq, kv.count 61 = 1
  p_pairs : ∀ kv ∈ views_split 38 pq, kv.count 61 = 1

/-- The slots of a template and a request text, position by position. -/
def slots (t p tq pq : Str) : List Slot :=
  path_slots ((views_split 47 (path_part t)).zip (views_split 47 (path_part p)))
    ++ ((views_split 38 tq).zip (views_split 38 pq)).map query_slot

theorem forall_mem_zip_iff {α β : Type*} {P : α → Prop} {Q : β → Prop} {as : List α}
    {bs : List β} (h : as.length = bs.length) :
    (∀ z ∈ as.zip bs, P z.1 ∧ Q z.2) ↔ (∀ a ∈ as, P a) ∧ ∀ b ∈ bs, Q b := by
  constructor
  · intro hz
    constructor
    · intro a ha
      rw [← List.map_fst_zip (Nat.le_of_eq h)] at ha
      obtain ⟨z, hmem, rfl⟩ := List.mem_map.mp ha
      exact (hz z hmem).1
    · intro b hb
      rw [← List.map_snd_zip (Nat.le_of_eq h.symm)] at hb
      obtain ⟨z, hmem, rfl⟩ := List.mem_map.mp hb
      exact (hz z hmem).2
  · rintro ⟨ha, hb⟩ z hz
    have hmem := List.of_mem_zip hz
    exact ⟨ha z.1 hmem.1, hb z.2 hmem.2⟩

/-- The names that the path loop leaves go to the query loop. -/
theorem fill_slots (names : List Str) (pieces : List (Str × Str)) (more : List Slot) :
    fill names (path_slots pieces ++ more)
      = if (path_slots pieces).length ≤ names.length then
          (fill (names.drop (path_slots pieces).length) more).map
            (names.zip ((path_slots pieces).map Prod.snd) ++ ·)
        else none := by
  have hslots : path_slots pieces = ((path_slots pieces).map Prod.snd).map (none, ·) := by
    rw [path_slots, List.map_map, List.map_map]
    rfl
  conv_lhs => rw [hslots]
  rw [fill_open, List.length_map]

theorem emplace_all_append (m : UnorderedMap Str Str) (a b : List (Str × Str)) :
    emplace_all m (a ++ b) = emplace_all (emplace_all m a) b := List.foldl_append

/-- The two loops on pieces of equal number. -/
theorem bind_pieces_ok_iff {m m' : UnorderedMap Str Str} {names : List Str}
    {pieces : List (Str × Str)} {t_pairs p_pairs : List Str} :
    (match bind_path pieces names m with
      | .error f => .error f
      | .ok (param_iter, m_parameters) =>
          if t_pairs.length ≠ p_pairs.length then .error size_error
          else bind_query (t_pairs.zip p_pairs) param_iter m_parameters) = Except.ok m'
      ↔ t_pairs.length = p_pairs.length
        ∧ ((∀ kv ∈ t_pairs, kv.count 61 = 1) ∧ ∀ kv ∈ p_pairs, kv.count 61 = 1)
        ∧ ∃ texts, fill names (path_slots pieces ++ (t_pairs.zip p_pairs).map query_slot)
            = some texts ∧ emplace_all m texts = m' := by
  rw [bind_path_eq, fill_slots]
  by_cases hlen : (path_slots pieces).length ≤ names.length
  · simp only [if_pos hlen]
    by_cases hsize : t_pairs.length = p_pairs.length
    · have hpairs := forall_mem_zip_iff (P := fun kv : Str => kv.count 61 = 1)
        (Q := fun kv : Str => kv.count 61 = 1) hsize
      rw [if_neg (not_not.mpr hsize), bind_query_eq_ok_iff, hpairs]
      constructor
      · rintro ⟨hall, texts, hfill, rfl⟩
        refine ⟨hsize, hall, names.zip ((path_slots pieces).map Prod.snd) ++ texts, ?_, ?_⟩
        · rw [hfill]
          rfl
        · exact emplace_all_append m _ texts
      · rintro ⟨-, hall, all, hfill, rfl⟩
        obtain ⟨texts, htexts, rfl⟩ := Option.map_eq_some_iff.mp hfill
        exact ⟨hall, texts, htexts, (emplace_all_append m _ texts).symm⟩
    · rw [if_pos hsize]
      constructor
      · intro h
        cases h
      · rintro ⟨hsize', -⟩
        exact absurd hsize' hsize
  · simp only [if_neg hlen]
    constructor
    · intro h
      cases h
    · rintro ⟨-, -, texts, hfill, -⟩
      cases hfill

theorem bind_parameters_ok_iff {m m' : UnorderedMap Str Str} {names : List Str} {t p : Str} :
    bind_parameters m names t p = .ok m'
      ↔ ∃ tq pq texts, SameShape t p tq pq ∧ fill names (slots t p tq pq) = some texts
        ∧ emplace_all m texts = m' := by
  rw [bind_parameters]
  cases ht : find_char 63 t with
  | none =>
      constructor
      · intro h
        cases h
      · rintro ⟨tq, _, _, hshape, -⟩
        obtain ⟨pos, hpos, -⟩ := query_part_eq_some_iff.mp hshape.t_query
        rw [ht] at hpos
        cases hpos
  | some i =>
      cases hp : find_char 63 p with
      | none =>
          constructor
          · intro h
            cases h
          · rintro ⟨_, pq, _, hshape, -⟩
            obtain ⟨pos, hpos, -⟩ := query_part_eq_some_iff.mp hshape.p_query
            rw [hp] at hpos
            cases hpos
      | some j =>
          have htq : query_part t = some (t.drop (i + 1)) :=
            query_part_eq_some_iff.mpr ⟨i, ht, rfl⟩
          have hpq : query_part p = some (p.drop (j + 1)) :=
            query_part_eq_some_iff.mpr ⟨j, hp, rfl⟩
          simp only
          rw [← path_part_of_find ht, ← path_part_of_find hp]
          by_cases hsize : (views_split 47 (path_part t)).length
              = (views_split 47 (path_part p)).length
          · rw [if_neg (not_not.mpr hsize), bind_pieces_ok_iff]
            constructor
            · rintro ⟨hq, hall, texts, hfill, rfl⟩
              exact ⟨_, _, texts, ⟨htq, hpq, hsize, hq, hall.1, hall.2⟩, hfill, rfl⟩
            · rintro ⟨tq, pq, texts, hshape, hfill, rfl⟩
              obtain rfl := Option.some.inj (htq.symm.trans hshape.t_query)
              obtain rfl := Option.some.inj (hpq.symm.trans hshape.p_query)
              exact ⟨hshape.query_size, ⟨hshape.t_pairs, hshape.p_pairs⟩, texts, hfill, rfl⟩
          · rw [if_pos hsize]
            constructor
            · intro h
              cases h
            · rintro ⟨_, _, _, hshape, -⟩
              exact absurd hshape.path_size hsize

/-- **WHEN PARSING RETURNS, AND WHAT**: the request text lies in the message and
    has the shape of the template without its first byte, the names suffice,
    and the texts are entered in order under their names. -/
theorem parse_from_string_ok_iff {m m' : UnorderedMap Str Str} {raw_http t : Str}
    {names : List Str} (hnames : names ≠ []) :
    parse_from_string m raw_http names t = .ok m'
      ↔ ∃ p tq pq texts, request_path raw_http = .ok p ∧ SameShape (t.drop 1) p tq pq
        ∧ fill names (slots (t.drop 1) p tq pq) = some texts ∧ emplace_all m texts = m' := by
  rw [parse_from_string, if_neg hnames]
  cases hp : request_path raw_http with
  | error f =>
      constructor
      · intro h
        cases h
      · rintro ⟨_, _, _, _, hok, -⟩
        cases hok
  | ok p =>
      by_cases ht : t = []
      · subst ht
        constructor
        · intro h
          cases h
        · rintro ⟨_, tq, _, _, _, hshape, -⟩
          cases hshape.t_query
      · simp only [if_neg ht, bind_parameters_ok_iff]
        constructor
        · rintro ⟨tq, pq, texts, h⟩
          exact ⟨p, tq, pq, texts, rfl, h⟩
        · rintro ⟨p', tq, pq, texts, hok, h⟩
          obtain rfl := Except.ok.inj hok
          exact ⟨tq, pq, texts, h⟩

end WebLib.HttpQuery
