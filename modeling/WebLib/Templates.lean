import WebLib.Utils

/-! # Templates whose placeholders stand alone

    A template is a literal byte, in general a slash, and path pieces and query
    pairs of which each has either no brace at all or one placeholder at its
    end.  On such a template `extract_params` lists the placeholders in the
    order of the pieces. -/

namespace WebLib.Templates

open WebLib ByteString Utils

/-- A text without braces. -/
def NoBrace (s : Str) : Prop := (123 : Byte) ∉ s ∧ (125 : Byte) ∉ s

instance (s : Str) : Decidable (NoBrace s) :=
  inferInstanceAs (Decidable ((123 : Byte) ∉ s ∧ (125 : Byte) ∉ s))

/-- The name between the braces of a piece that has some. -/
def placeholder (piece : Str) : Option Str :=
  if 123 ∈ piece then some ((piece.dropWhile fun c => c ≠ 123).drop 1).dropLast else none

/-- A piece without braces, or with a placeholder at its end. -/
def Whole (piece : Str) : Prop :=
  NoBrace piece ∨ ∃ k x, NoBrace k ∧ NoBrace x ∧ piece = k ++ group x

theorem placeholder_group {k : Str} (hk : NoBrace k) (x : Str) :
    placeholder (k ++ group x) = some x := by
  have hpos : ∀ c ∈ k, decide (c ≠ 123) = true :=
    fun c hc => decide_eq_true fun he => hk.1 (he ▸ hc)
  have hmem : (123 : Byte) ∈ k ++ group x := by simp [group]
  rw [placeholder, if_pos hmem, List.dropWhile_append_of_pos hpos, group,
    List.dropWhile_cons_of_neg (by simp), List.drop_one, List.tail_cons, List.dropLast_concat]

theorem placeholder_pair {k : Str} (hk : NoBrace k) (x : Str) :
    placeholder (k ++ 61 :: group x) = some x := by
  have hk' : NoBrace (k ++ [61]) := ⟨by simpa using hk.1, by simpa using hk.2⟩
  rw [← placeholder_group hk' x, List.append_assoc]
  rfl

theorem placeholder_of_noBrace {s : Str} (h : NoBrace s) : placeholder s = none := if_neg h.1

theorem placeholder_isSome_iff {s : Str} : (placeholder s).isSome = true ↔ 123 ∈ s := by
  rw [placeholder]
  split <;> simp_all

theorem group_injective {x y : Str} (h : group x = group y) : x = y :=
  List.append_cancel_right (List.cons.inj h).2

/-! ## What `extract_params` lists -/

/-- Fuel beyond the length of the text changes nothing: every round removes a
    closing brace. -/
theorem extract_params_loop_fuel :
    ∀ (n : Nat) (url : Str), url.length < n →
      extract_params_loop n url = extract_params url := by
  intro n
  induction n using Nat.strong_induction_on with
  | _ n ih =>
      intro url hn
      cases n with
      | zero => exact absurd hn (Nat.not_lt_zero _)
      | succ m =>
          rw [extract_params, extract_params_loop, extract_params_loop]
          cases hs : find_char 123 url with
          | none => rfl
          | some start_pos =>
              cases he : find_char 125 url with
              | none => rfl
              | some end_pos =>
                  have hfit := Search.find_le_length he
                  have hdrop : (url.drop (end_pos + 1)).length < url.length := by
                    rw [List.length_drop]
                    simp only [List.length_cons, List.length_nil] at hfit
                    omega
                  simp only
                  rw [ih m (by omega) _ (by omega)]
                  by_cases hm : url.length = m
                  · rw [hm, ih m (by omega) _ (by omega)]
                  · rw [ih url.length (by omega) _ hdrop]

/-- One round of `extract_params`. -/
theorem extract_params_eq (url : Str) :
    extract_params url
      = match find_char 123 url, find_char 125 url with
        | some start_pos, some end_pos =>
            (url.drop (start_pos + 1)).take (size_sub (size_sub end_pos start_pos) 1)
              :: extract_params (url.drop (end_pos + 1))
        | _, _ => [] := by
  rw [extract_params, extract_params_loop]
  cases hs : find_char 123 url with
  | none => rfl
  | some start_pos =>
      cases he : find_char 125 url with
      | none => rfl
      | some end_pos =>
          have hfit := Search.find_le_length he
          simp only [List.length_cons, List.length_nil] at hfit
          simp only
          rw [extract_params_loop_fuel _ _ (by rw [List.length_drop]; omega)]

/-- Text without braces is skipped. -/
theorem extract_params_append {l : Str} (h : NoBrace l) (s : Str) :
    extract_params (l ++ s) = extract_params s := by
  have hskip : ∀ c ∉ l, find_char c (l ++ s) = (find_char c s).map (· + l.length) :=
    fun c hc => Search.find_append_of_head_notMem s hc
  rw [extract_params_eq (l ++ s), extract_params_eq s, hskip 123 h.1, hskip 125 h.2]
  cases find_char 123 s with
  | none => rfl
  | some start_pos =>
      cases find_char 125 s with
      | none => rfl
      | some end_pos =>
          have hdrop : ∀ i, (l ++ s).drop (i + l.length + 1) = s.drop (i + 1) := by
            intro i
            rw [show i + l.length + 1 = l.length + (i + 1) by omega, ← List.drop_drop,
              List.drop_left]
          -- both braces move by the same distance, also when the length wraps
          have hsub : size_sub (end_pos + l.length) (start_pos + l.length)
              = size_sub end_pos start_pos := by
            rw [size_sub, size_sub]
            split <;> split <;> omega
          simp only [Option.map_some, hdrop, hsub]

/-- A placeholder is listed, up to its first `'}'`. -/
theorem extract_params_group {x : Str} (h : 125 ∉ x) (s : Str) :
    extract_params (group x ++ s) = x :: extract_params s := by
  have hopen : find_char 123 (group x ++ s) = some 0 :=
    Search.find_singleton_eq_some_iff.mpr ⟨[], x ++ [125] ++ s, rfl, List.not_mem_nil, rfl⟩
  have hclose : find_char 125 (group x ++ s) = some (x.length + 1) := by
    refine Search.find_singleton_eq_some_iff.mpr ⟨123 :: x, s, by simp [group], ?_, by simp⟩
    intro hm
    rcases List.mem_cons.mp hm with heq | hx
    · exact absurd heq (by decide)
    · exact h hx
  have hsub : size_sub (size_sub (x.length + 1) 0) 1 = x.length := by
    rw [size_sub_of_le (Nat.zero_le _), size_sub_of_le (by omega)]
    rfl
  have htake : ((group x ++ s).drop (0 + 1)).take x.length = x := by
    simp [group]
  have hdrop : (group x ++ s).drop (x.length + 1 + 1) = s := by
    have hlen : (group x).length = x.length + 1 + 1 := by simp [group]
    rw [← hlen, List.drop_left]
  rw [extract_params_eq, hopen, hclose]
  simp only [hsub, htake, hdrop]

theorem extract_params_whole {piece : Str} (h : Whole piece) (s : Str) :
    extract_params (piece ++ s) = (placeholder piece).toList ++ extract_params s := by
  rcases h with hno | ⟨k, x, hk, hx, rfl⟩
  · rw [extract_params_append hno, placeholder_of_noBrace hno]
    rfl
  · rw [List.append_assoc, extract_params_append hk, extract_params_group hx.2,
      placeholder_group hk]
    rfl

/-- The placeholders of pieces joined by a delimiter, in order. -/
theorem extract_params_intercalate {c : Byte} (hc : NoBrace [c]) (s : Str) :
    ∀ pieces : List Str, (∀ piece ∈ pieces, Whole piece) →
      extract_params ([c].intercalate pieces ++ s)
        = pieces.filterMap placeholder ++ extract_params s
  | [], _ => rfl
  | [piece], h => by
      rw [List.intercalate_singleton, extract_params_whole (h piece List.mem_cons_self)]
      cases hp : placeholder piece <;> simp [hp]
  | piece :: next :: pieces, h => by
      have ih := extract_params_intercalate hc s (next :: pieces)
        fun p hp => h p (List.mem_cons_of_mem _ hp)
      rw [List.intercalate_cons_cons, List.append_assoc, List.append_assoc,
        extract_params_whole (h piece List.mem_cons_self), extract_params_append hc, ih]
      cases hp : placeholder piece <;> simp [hp]

/-! ## Templates -/

/-- The pieces that `parse_from_string` cuts a template into: it skips the first
    byte, in general the slash. -/
def segments (t : Str) : List Str := views_split 47 (path_part (t.drop 1))

def pairs (t : Str) : List Str := views_split 38 ((query_part (t.drop 1)).getD [])

/-- Every brace of the template belongs to a placeholder that fills a path
    segment, which follows other text of the path, or a query value. -/
structure Placed (t : Str) : Prop where
  first : ∀ c ∈ t.head?, c ≠ 123 ∧ c ≠ 125 ∧ c ≠ 63
  segment_ok : ∀ piece ∈ segments t, NoBrace piece ∨ ∃ x, NoBrace x ∧ piece = group x
  pair_ok : ∀ kv ∈ pairs t, NoBrace kv ∨
    ∃ k x, NoBrace k ∧ 61 ∉ k ∧ NoBrace x ∧ kv = k ++ 61 :: group x

theorem Placed.whole {t : Str} (h : Placed t) :
    (∀ piece ∈ segments t, Whole piece) ∧ ∀ kv ∈ pairs t, Whole kv := by
  constructor
  · intro piece hp
    rcases h.segment_ok piece hp with hno | ⟨x, hx, rfl⟩
    · exact Or.inl hno
    · exact Or.inr ⟨[], x, ⟨List.not_mem_nil, List.not_mem_nil⟩, hx, rfl⟩
  · intro kv hkv
    rcases h.pair_ok kv hkv with hno | ⟨k, x, hk, -, hx, rfl⟩
    · exact Or.inl hno
    · refine Or.inr ⟨k ++ [61], x, ⟨?_, ?_⟩, hx, by simp⟩
      · simpa using hk.1
      · simpa using hk.2

/-- The key of a pair with a placeholder has no brace, however the pair is cut. -/
theorem noBrace_key {t k x : Str} (h : Placed t) (hkv : k ++ 61 :: group x ∈ pairs t) :
    NoBrace k := by
  rcases h.pair_ok _ hkv with hno | ⟨k', y, hk', -, hy, heq⟩
  · exact absurd (by simp [group]) hno.1
  · have hcount : ∀ c ∈ [(123 : Byte), 125], k.count c + x.count c = 0 := by
      intro c hc
      have hk0 : k'.count c = 0 := List.count_eq_zero.mpr (by
        rcases List.mem_pair.mp hc with rfl | rfl
        · exact hk'.1
        · exact hk'.2)
      have hy0 : y.count c = 0 := List.count_eq_zero.mpr (by
        rcases List.mem_pair.mp hc with rfl | rfl
        · exact hy.1
        · exact hy.2)
      have := congrArg (List.count c) heq
      simp only [group, List.count_append, List.count_cons, List.count_nil, hk0, hy0] at this
      omega
    have hopen := hcount 123 (by simp)
    have hclose := hcount 125 (by simp)
    exact ⟨List.count_eq_zero.mp (by omega), List.count_eq_zero.mp (by omega)⟩

theorem intercalate_views_split (c : Byte) (s : Str) : [c].intercalate (views_split c s) = s := by
  rw [views_split]
  by_cases hs : s = []
  · rw [if_pos hs, hs]
    rfl
  · rw [if_neg hs, List.intercalate_splitOn]

theorem path_query_append (s : Str) :
    path_part s ++ (match query_part s with | none => [] | some q => 63 :: q) = s := by
  cases hf : find_char 63 s with
  | none =>
      have hno : 63 ∉ s := Search.find_singleton_eq_none_iff.mp hf
      rw [query_part_of_notMem hno, path_part_of_notMem hno]
      exact List.append_nil s
  | some pos =>
      rw [path_part_of_find hf, query_part, hf]
      exact (Search.find_split hf).symm

/-- **THE NAMES IN ORDER**: first those of the segments, then those of the query
    values. -/
theorem extract_params_placed {t : Str} (h : Placed t) :
    extract_params t = (segments t ++ pairs t).filterMap placeholder := by
  have hnil : extract_params [] = [] := rfl
  have hskip : extract_params t = extract_params (t.drop 1) := by
    cases t with
    | nil => rfl
    | cons c u =>
        obtain ⟨h1, h2, -⟩ := h.first c rfl
        have hc : NoBrace [c] :=
          ⟨by simpa using Ne.symm h1, by simpa using Ne.symm h2⟩
        exact extract_params_append hc u
  have hpath : ∀ s, extract_params (path_part (t.drop 1) ++ s)
      = (segments t).filterMap placeholder ++ extract_params s := by
    intro s
    have := extract_params_intercalate (c := 47) (by decide) s _ h.whole.1
    rwa [segments, intercalate_views_split] at this
  rw [hskip, ← path_query_append (t.drop 1), hpath, List.filterMap_append]
  congr 1
  cases hq : query_part (t.drop 1) with
  | none =>
      have hpairs : pairs t = [] := by rw [pairs, hq]; rfl
      rw [hpairs, hnil]
      rfl
  | some q =>
      have := extract_params_intercalate (c := 38) (by decide) [] _ h.whole.2
      rw [pairs, hq, Option.getD_some, intercalate_views_split, List.append_nil, hnil,
        List.append_nil] at this
      rw [pairs, hq, Option.getD_some, ← this]
      exact extract_params_append (l := [63]) (by decide) q

/-! ## The template and what is left of it -/

/-- The skipped byte is in no query. -/
theorem query_part_drop {t : Str} (h : Placed t) : query_part (t.drop 1) = query_part t := by
  cases t with
  | nil => rfl
  | cons c u =>
      obtain ⟨-, -, hc⟩ := h.first c rfl
      have hnot : (63 : Byte) ∉ [c] := by simpa using Ne.symm hc
      have hf : find_char 63 (c :: u) = (find_char 63 u).map (· + 1) :=
        Search.find_append_of_head_notMem (l := [c]) u hnot
      rw [query_part, query_part, hf, Option.map_map]
      rfl

/-- A placeholder that fills a segment of the template fills one of what is
    left. -/
theorem group_mem_segments {t x : Str} (h : Placed t)
    (hx : group x ∈ views_split 47 (path_part t)) : group x ∈ segments t := by
  cases t with
  | nil => cases hx
  | cons c u =>
      obtain ⟨hbrace, -, hc⟩ := h.first c rfl
      have hpath : path_part (c :: u) = c :: path_part u := by
        rw [path_part, List.takeWhile_cons_of_pos (by simpa using hc)]
        rfl
      have hsplit : group x ∈ (path_part u).splitOn 47 := by
        rw [hpath, views_split, if_neg (List.cons_ne_nil _ _),
          List.splitOn_cons_eq_if_modifyHead] at hx
        split at hx
        · exact (List.mem_cons.mp hx).resolve_left (List.cons_ne_nil _ _)
        · -- the first piece starts with the skipped byte, which is no brace
          cases hs : (path_part u).splitOn 47 with
          | nil => rw [hs] at hx; cases hx
          | cons piece pieces =>
              rw [hs, List.modifyHead_cons] at hx
              rcases List.mem_cons.mp hx with heq | hmem
              · exact absurd (List.cons.inj heq).1.symm hbrace
              · exact List.mem_cons_of_mem _ hmem
      show group x ∈ views_split 47 (path_part u)
      rw [views_split]
      by_cases hu : path_part u = []
      · rw [hu] at hsplit
        exact absurd (List.mem_singleton.mp hsplit) (List.cons_ne_nil _ _)
      · rw [if_neg hu]
        exact hsplit

end WebLib.Templates
