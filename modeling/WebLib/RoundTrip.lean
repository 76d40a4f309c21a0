import WebLib.Binding
import WebLib.Matching

/-! # Template instances route and extract back

    A template of segments and query pairs, where each segment and each value is
    a text or one placeholder, and the path that comes of it when the
    placeholders get values.  Both are cut at the same places by all four
    functions that read them, so the names stay in step with the values along
    the segments and then along the pairs. -/

namespace WebLib.RoundTrip

open WebLib ByteString Utils UnorderedMap HttpBinder HttpQuery Extraction Binding

/-! ## Templates -/

/-- None of `/ ? & =` and no white space. -/
def NoDelimiter (s : Str) : Prop :=
  (∀ b ∈ ([47, 63, 38, 61] : Str), b ∉ s) ∧ ∀ b ∈ s, isWs b = false

/-- Nor a brace. -/
def Word (s : Str) : Prop := NoDelimiter s ∧ Templates.NoBrace s

/-- No upper-case letter. -/
def Lower (s : Str) : Prop := ∀ b ∈ s, ¬ (65 ≤ b ∧ b ≤ 90)

theorem noDelimiter_iff_all {s : Str} :
    NoDelimiter s ↔ (s.all fun b => b ∉ ([47, 63, 38, 61] : Str) && !isWs b) = true := by
  simp only [NoDelimiter, List.all_eq_true, Bool.and_eq_true, decide_eq_true_iff,
    Bool.not_eq_true']
  constructor
  · rintro ⟨hdelim, hws⟩ b hb
    exact ⟨fun hm => hdelim b hm hb, hws b hb⟩
  · intro hall
    exact ⟨fun b hm hb => (hall b hb).1 hm, fun b hb => (hall b hb).2⟩

theorem lower_iff_all {s : Str} : Lower s ↔ (s.all fun b => !(65 ≤ b && b ≤ 90)) = true := by
  simp only [Lower, List.all_eq_true, Bool.not_eq_true', Bool.and_eq_false_imp, not_and,
    decide_eq_true_iff, decide_eq_false_iff_not]

instance (s : Str) : Decidable (NoDelimiter s) := decidable_of_iff _ noDelimiter_iff_all.symm

instance (s : Str) : Decidable (Word s) :=
  inferInstanceAs (Decidable (NoDelimiter s ∧ Templates.NoBrace s))

instance (s : Str) : Decidable (Lower s) := decidable_of_iff _ lower_iff_all.symm

/-- A segment, or a value of the query. -/
inductive Piece where
  | text (s : Str)
  | hole (x : Str)
deriving DecidableEq, Repr

namespace Piece

/-- In the template. -/
def written : Piece → Str
  | .text s => s
  | .hole x => group x

/-- In the normal form of the template. -/
def blank : Piece → Str
  | .text s => s
  | .hole _ => EMPTY_GROUP

/-- In a path. -/
def filled (value : Str → Str) : Piece → Str
  | .text s => s
  | .hole x => value x

def name : Piece → Option Str
  | .text _ => none
  | .hole x => some x

def Ok : Piece → Prop
  | .text s => Word s ∧ s ≠ []
  | .hole x => Word x

instance : ∀ piece : Piece, Decidable piece.Ok
  | .text s => inferInstanceAs (Decidable (Word s ∧ s ≠ []))
  | .hole x => inferInstanceAs (Decidable (Word x))

end Piece

/-- The placeholder names, in order. -/
def names_of (segments : List Piece) (query : List (Str × Piece)) : List Str :=
  segments.filterMap Piece.name ++ query.filterMap fun kv => kv.2.name

/-- The keys of the static pairs. -/
def static_keys (query : List (Str × Piece)) : List Str :=
  (query.filter fun kv => kv.2.name = none).map Prod.fst

/-- A template whose pieces are single texts or single placeholders, with at
    least one query pair. -/
structure Template where
  segments : List Piece
  query : List (Str × Piece)
  query_ne_nil : query ≠ []
  segments_ok : ∀ piece ∈ segments, piece.Ok
  query_ok : ∀ kv ∈ query, Word kv.1 ∧ kv.2.Ok
  keys_nodup : (query.map Prod.fst).Nodup
  names_nodup : (names_of segments query).Nodup
  names_not_static : ∀ x ∈ names_of segments query, x ∉ static_keys query
  lower : ∀ x ∈ names_of segments query ++ static_keys query, Lower x

namespace Template

def names (t : Template) : List Str := names_of t.segments t.query

/-- The template with its pieces in one of their forms. -/
def text (t : Template) (f : Piece → Str) : Str :=
  join_path (t.segments.map f) ++ 63 :: join_query (t.query.map fun kv => (kv.1, f kv.2))

def written (t : Template) : Str := t.text Piece.written

/-- Values for the placeholders. -/
structure Assignment (t : Template) where
  value : Str → Str
  value_ok : ∀ x ∈ t.names, NoDelimiter (value x) ∧ value x ≠ []

/-- The template with each placeholder replaced by its value. -/
def path (t : Template) (σ : t.Assignment) : Str := t.text (Piece.filled σ.value)

/-! ## Where a text of the template is cut -/

/-- The pieces in a form that has no delimiters. -/
structure Cuts (t : Template) (f : Piece → Str) : Prop where
  segment : ∀ piece ∈ t.segments, IsSegment (f piece)
  pair : ∀ kv ∈ t.query, IsPair (kv.1, f kv.2)

theorem isSegment_of {s : Str} (h : NoDelimiter s) (hne : s ≠ []) : IsSegment s :=
  ⟨hne, h.1 47 (by simp), h.1 63 (by simp)⟩

theorem isPair_of {k v : Str} (hk : NoDelimiter k) (hv : NoDelimiter v) : IsPair (k, v) :=
  ⟨hk.1 38 (by simp), hk.1 61 (by simp), hv.1 38 (by simp), hv.1 61 (by simp)⟩

theorem noDelimiter_group {x : Str} (h : NoDelimiter x) : NoDelimiter (group x) := by
  refine ⟨?_, ?_⟩
  · intro b hb hm
    rcases List.mem_cons.mp hm with rfl | hm
    · exact absurd hb (by decide)
    · rcases List.mem_append.mp hm with hm | hm
      · exact h.1 b hb hm
      · rw [List.mem_singleton.mp hm] at hb
        exact absurd hb (by decide)
  · intro b hm
    rcases List.mem_cons.mp hm with rfl | hm
    · decide
    · rcases List.mem_append.mp hm with hm | hm
      · exact h.2 b hm
      · rw [List.mem_singleton.mp hm]
        decide

/-- A form with no delimiters and no empty pieces cuts the text. -/
theorem cuts_of {t : Template} {f : Piece → Str}
    (hseg : ∀ piece ∈ t.segments, NoDelimiter (f piece) ∧ f piece ≠ [])
    (hval : ∀ kv ∈ t.query, NoDelimiter (f kv.2)) : t.Cuts f where
  segment piece hp := isSegment_of (hseg piece hp).1 (hseg piece hp).2
  pair kv hkv := isPair_of (t.query_ok kv hkv).1.1 (hval kv hkv)

theorem cuts_written (t : Template) : t.Cuts Piece.written := by
  have hok : ∀ piece : Piece, piece.Ok → NoDelimiter piece.written ∧ piece.written ≠ [] := by
    intro piece h
    cases piece with
    | text s => exact ⟨h.1.1, h.2⟩
    | hole x => exact ⟨noDelimiter_group h.1, List.cons_ne_nil _ _⟩
  exact cuts_of (fun piece hp => hok piece (t.segments_ok piece hp))
    fun kv hkv => (hok kv.2 (t.query_ok kv hkv).2).1

theorem cuts_blank (t : Template) : t.Cuts Piece.blank := by
  have hok : ∀ piece : Piece, piece.Ok → NoDelimiter piece.blank ∧ piece.blank ≠ [] := by
    intro piece h
    cases piece with
    | text s => exact ⟨h.1.1, h.2⟩
    | hole x => exact ⟨noDelimiter_group (x := []) ⟨by simp, by simp⟩, List.cons_ne_nil _ _⟩
  exact cuts_of (fun piece hp => hok piece (t.segments_ok piece hp))
    fun kv hkv => (hok kv.2 (t.query_ok kv hkv).2).1

theorem mem_names_of_segment {t : Template} {x : Str} (h : Piece.hole x ∈ t.segments) :
    x ∈ t.names :=
  List.mem_append.mpr (Or.inl (List.mem_filterMap.mpr ⟨_, h, rfl⟩))

theorem mem_names_of_pair {t : Template} {k x : Str} (h : (k, Piece.hole x) ∈ t.query) :
    x ∈ t.names :=
  List.mem_append.mpr (Or.inr (List.mem_filterMap.mpr ⟨_, h, rfl⟩))

theorem cuts_filled (t : Template) (σ : t.Assignment) : t.Cuts (Piece.filled σ.value) := by
  refine cuts_of ?_ ?_
  · intro piece hp
    cases piece with
    | text s => exact ⟨(t.segments_ok _ hp).1.1, (t.segments_ok _ hp).2⟩
    | hole x => exact σ.value_ok x (mem_names_of_segment hp)
  · rintro ⟨k, piece⟩ hkv
    cases piece with
    | text s => exact (t.query_ok _ hkv).2.1.1
    | hole x => exact (σ.value_ok x (mem_names_of_pair hkv)).1

section Cut

variable {t : Template} {f : Piece → Str} (h : t.Cuts f)
include h

theorem isSegment_map : ∀ s ∈ t.segments.map f, IsSegment s := by
  intro s hs
  obtain ⟨piece, hp, rfl⟩ := List.mem_map.mp hs
  exact h.segment piece hp

theorem isPair_map : ∀ kv ∈ t.query.map (fun kv => (kv.1, f kv.2)), IsPair kv := by
  intro kv hkv
  obtain ⟨kv', hmem, rfl⟩ := List.mem_map.mp hkv
  exact h.pair kv' hmem

theorem text_cut : path_part (t.text f) = join_path (t.segments.map f)
    ∧ query_part (t.text f) = some (join_query (t.query.map fun kv => (kv.1, f kv.2))) :=
  cut_at_mark (no_mark_join_path fun s hs => (isSegment_map h s hs).no_mark) _

theorem split_path_text : split_path (path_part (t.text f)) = t.segments.map f := by
  rw [(text_cut h).1, split_path_join (isSegment_map h)]

/-- Without its first byte, the slash. -/
theorem text_drop_cut : path_part ((t.text f).drop 1) = [47].intercalate (t.segments.map f)
    ∧ query_part ((t.text f).drop 1)
      = some (join_query (t.query.map fun kv => (kv.1, f kv.2))) :=
  cut_at_mark (notMem_intercalate (by decide) fun s hs => (isSegment_map h s hs).no_mark) _

theorem segments_text :
    views_split 47 (path_part ((t.text f).drop 1)) = t.segments.map f := by
  rw [(text_drop_cut h).1, views_split_intercalate]
  intro s hs
  exact ⟨(isSegment_map h s hs).no_slash, (isSegment_map h s hs).ne_nil⟩

theorem pairs_text :
    views_split 38 (join_query (t.query.map fun kv => (kv.1, f kv.2)))
      = t.query.map fun kv => kv.1 ++ 61 :: f kv.2 := by
  rw [views_split_join_query (isPair_map h), List.map_map]
  rfl

end Cut

/-! ## The four readings -/

/-- `process_url_str` reads `a` off as `b`, whatever follows. -/
def ReadsAs (a b : Str) : Prop :=
  ∀ s, process_url_str (a ++ s) = (process_url_str s).map (b ++ ·)

theorem readsAs_noBrace {s : Str} (h : Templates.NoBrace s) : ReadsAs s s :=
  fun rest => process_url_str_append h.1 rest

theorem readsAs_group {x : Str} (h : Templates.NoBrace x) : ReadsAs (group x) EMPTY_GROUP :=
  fun rest => process_url_str_group_append h.2 rest

theorem ReadsAs.append {a b a' b' : Str} (h : ReadsAs a b) (h' : ReadsAs a' b') :
    ReadsAs (a ++ a') (b ++ b') := by
  intro s
  rw [List.append_assoc, h, h']
  cases process_url_str s with
  | error e => rfl
  | ok key => exact congrArg Except.ok (List.append_assoc b b' key).symm

theorem readsAs_intercalate {α : Type} {c : Byte} (hc : Templates.NoBrace [c]) {f g : α → Str} :
    ∀ zs : List α, (∀ z ∈ zs, ReadsAs (f z) (g z)) →
      ReadsAs ([c].intercalate (zs.map f)) ([c].intercalate (zs.map g))
  | [], _ => readsAs_noBrace ⟨List.not_mem_nil, List.not_mem_nil⟩
  | [z], h => by
      rw [List.map_singleton, List.map_singleton, List.intercalate_singleton,
        List.intercalate_singleton]
      exact h z List.mem_cons_self
  | z :: z' :: zs, h => by
      have ih := readsAs_intercalate hc (z' :: zs) fun w hw => h w (List.mem_cons_of_mem _ hw)
      simp only [List.map_cons, List.intercalate_cons_cons] at ih ⊢
      exact ((h z List.mem_cons_self).append (readsAs_noBrace hc)).append ih

theorem readsAs_piece {piece : Piece} (h : piece.Ok) : ReadsAs piece.written piece.blank := by
  cases piece with
  | text s => exact readsAs_noBrace h.1.2
  | hole x => exact readsAs_group h.2

/-- **NORMAL FORM**: each placeholder becomes an empty group. -/
theorem process_written (t : Template) : process_url_str t.written = .ok (t.text Piece.blank) := by
  have hpath : ReadsAs (join_path (t.segments.map Piece.written))
      (join_path (t.segments.map Piece.blank)) := by
    refine (readsAs_noBrace (s := [47]) (by decide)).append ?_
    exact readsAs_intercalate (by decide) _ fun piece hp => readsAs_piece (t.segments_ok piece hp)
  have hquery : ReadsAs (join_query (t.query.map fun kv => (kv.1, kv.2.written)))
      (join_query (t.query.map fun kv => (kv.1, kv.2.blank))) := by
    rw [join_query, join_query, List.map_map, List.map_map]
    refine readsAs_intercalate (by decide) _ fun kv hkv => ?_
    obtain ⟨hkey, hvalue⟩ := t.query_ok kv hkv
    exact (readsAs_noBrace hkey.2).append
      ((readsAs_noBrace (s := [61]) (by decide)).append (readsAs_piece hvalue))
  have hall := (hpath.append ((readsAs_noBrace (s := [63]) (by decide)).append hquery)) []
  rw [List.append_nil, process_url_str_nil] at hall
  rw [written, text]
  exact hall.trans (congrArg Except.ok (List.append_nil _))

/-- **ROUTING**: the normal form matches every instance. -/
theorem match_path_filled (t : Template) (σ : t.Assignment) :
    match_path (t.text Piece.blank) (t.path σ) = .ok true := by
  have hblank := cuts_blank t
  have hfilled := cuts_filled t σ
  have hparts : PartsMatch (split_path (path_part (t.text Piece.blank)))
      (split_path (path_part (t.path σ))) := by
    rw [split_path_text hblank, path, split_path_text hfilled, PartsMatch,
      List.forall₂_map_left_iff, List.forall₂_map_right_iff, List.forall₂_same]
    intro piece _
    cases piece with
    | text s => exact Or.inr rfl
    | hole x => exact Or.inl rfl
  have hkeys : ∀ f : Piece → Str,
      ((t.query.map fun kv => (kv.1, f kv.2)).map Prod.fst).Nodup := by
    intro f
    rw [List.map_map]
    exact t.keys_nodup
  have hne : join_query (t.query.map fun kv => (kv.1, kv.2.filled σ.value)) ≠ [] := by
    intro hnil
    have hpairs := pairs_text hfilled
    rw [hnil] at hpairs
    exact t.query_ne_nil (List.map_eq_nil_iff.mp hpairs.symm)
  rw [match_path_of_parts hparts, (text_cut hblank).2, path, (text_cut hfilled).2,
    verdict, Option.getD_some, query_verdict, if_neg hne, parse_query_join (isPair_map hblank),
    parse_query_join (isPair_map hfilled)]
  refine congrArg Except.ok (match_query_iff.mpr ⟨?_, ?_⟩)
  · rw [size_emplace_all (hkeys _), size_emplace_all (hkeys _), List.length_map, List.length_map]
  · intro k v hkv
    obtain ⟨⟨k', piece⟩, hmem, heq⟩ := List.mem_map.mp (mem_of_find_emplace_all hkv)
    obtain ⟨rfl, rfl⟩ := Prod.mk.inj heq
    refine ⟨piece.filled σ.value, ?_, ?_⟩
    · exact find_emplace_all_of_mem (hkeys _) (List.mem_map.mpr ⟨_, hmem, rfl⟩)
    · cases piece with
      | text s => exact Or.inr rfl
      | hole x => exact Or.inl rfl

theorem noBrace_pair {k v : Str} (hk : Templates.NoBrace k) (hv : Templates.NoBrace v) :
    Templates.NoBrace (k ++ 61 :: v) :=
  ⟨by simpa using ⟨hk.1, hv.1⟩, by simpa using ⟨hk.2, hv.2⟩⟩

/-- Every placeholder of the template stands alone. -/
theorem placed_written (t : Template) : Templates.Placed t.written where
  first := by
    intro c hc
    obtain rfl : (47 : Byte) = c := Option.some.inj hc
    decide
  segment_ok := by
    intro s hs
    rw [Templates.segments, written, segments_text (cuts_written t)] at hs
    obtain ⟨piece, hp, rfl⟩ := List.mem_map.mp hs
    have hok := t.segments_ok piece hp
    cases piece with
    | text s => exact Or.inl hok.1.2
    | hole x => exact Or.inr ⟨x, hok.2, rfl⟩
  pair_ok := by
    intro s hs
    rw [Templates.pairs, written, (text_drop_cut (cuts_written t)).2, Option.getD_some,
      pairs_text (cuts_written t)] at hs
    obtain ⟨⟨k, piece⟩, hkv, rfl⟩ := List.mem_map.mp hs
    obtain ⟨hkey, hok⟩ := t.query_ok _ hkv
    cases piece with
    | text s => exact Or.inl (noBrace_pair hkey.2 hok.1.2)
    | hole x => exact Or.inr ⟨k, x, hkey.2, hkey.1.1 61 (by simp), hok.2, rfl⟩

theorem placeholder_written {piece : Piece} (h : piece.Ok) :
    Templates.placeholder piece.written = piece.name := by
  cases piece with
  | text s => exact Templates.placeholder_of_noBrace h.1.2
  | hole x => exact Templates.placeholder_group (k := []) (by decide) x

theorem placeholder_pair {kv : Str × Piece} (hkey : Word kv.1) (h : kv.2.Ok) :
    Templates.placeholder (kv.1 ++ 61 :: kv.2.written) = kv.2.name := by
  obtain ⟨k, piece⟩ := kv
  cases piece with
  | hole x => exact Templates.placeholder_pair hkey.2 x
  | text s => exact Templates.placeholder_of_noBrace (noBrace_pair hkey.2 h.1.2)

/-- **NAMES**: `extract_params` lists the placeholders in order. -/
theorem extract_params_written (t : Template) : extract_params t.written = t.names := by
  rw [Templates.extract_params_placed (placed_written t), Templates.segments, Templates.pairs,
    written, segments_text (cuts_written t), (text_drop_cut (cuts_written t)).2, Option.getD_some,
    pairs_text (cuts_written t), List.filterMap_append, List.filterMap_map, List.filterMap_map,
    names, names_of]
  congr 1
  · exact List.filterMap_congr fun piece hp => placeholder_written (t.segments_ok piece hp)
  · exact List.filterMap_congr fun kv hkv =>
      placeholder_pair (t.query_ok kv hkv).1 (t.query_ok kv hkv).2

/-! ## What is entered -/

/-- The name the value of a pair goes under. -/
def label (kv : Str × Piece) : Str := kv.2.name.getD kv.1

/-- Names and texts, in the order of the loops. -/
def texts (t : Template) (σ : t.Assignment) : List (Str × Str) :=
  (t.segments.filterMap fun piece => piece.name.map fun x => (x, piece.filled σ.value))
    ++ t.query.map fun kv => (label kv, kv.2.filled σ.value)

/-- The labels are the names of the placeholders and the static keys. -/
theorem labels_perm (query : List (Str × Piece)) :
    (query.map label).Perm ((query.filterMap fun kv => kv.2.name) ++ static_keys query) := by
  induction query with
  | nil => exact List.Perm.refl _
  | cons kv query ih =>
      obtain ⟨k, piece⟩ := kv
      cases piece with
      | hole x => exact ih.cons x
      | text s => exact (ih.cons k).trans List.perm_middle.symm

/-- No two texts go under one name. -/
theorem texts_nodup (t : Template) (σ : t.Assignment) : ((t.texts σ).map Prod.fst).Nodup := by
  have hkeys : (t.texts σ).map Prod.fst
      = t.segments.filterMap Piece.name ++ t.query.map label := by
    rw [texts, List.map_append, List.map_filterMap, List.map_map]
    congr 1
    exact List.filterMap_congr fun piece _ => by cases piece <;> rfl
  have hperm : ((t.texts σ).map Prod.fst).Perm (t.names ++ static_keys t.query) := by
    rw [hkeys, names, names_of, List.append_assoc]
    exact (labels_perm t.query).append_left _
  have hstatic : (static_keys t.query).Nodup :=
    t.keys_nodup.sublist ((List.filter_sublist).map Prod.fst)
  exact hperm.nodup_iff.mpr (t.names_nodup.append hstatic fun x hx hs => t.names_not_static x hx hs)

theorem count_pair {k v : Str} (h : IsPair (k, v)) : (k ++ 61 :: v).count 61 = 1 := by
  rw [List.count_append, List.count_cons_self, List.count_eq_zero.mpr h.key_eq,
    List.count_eq_zero.mpr h.value_eq]

/-- Template and instance have one shape. -/
theorem same_shape (t : Template) (σ : t.Assignment) :
    SameShape (t.written.drop 1) ((t.path σ).drop 1)
      (join_query (t.query.map fun kv => (kv.1, kv.2.written)))
      (join_query (t.query.map fun kv => (kv.1, kv.2.filled σ.value))) := by
  have hwritten := cuts_written t
  have hfilled := cuts_filled t σ
  refine ⟨(text_drop_cut hwritten).2, (text_drop_cut hfilled).2, ?_, ?_, ?_, ?_⟩
  · rw [written, path, segments_text hwritten, segments_text hfilled, List.length_map,
      List.length_map]
  · rw [pairs_text hwritten, pairs_text hfilled, List.length_map, List.length_map]
  · intro s hs
    rw [pairs_text hwritten] at hs
    obtain ⟨kv, hkv, rfl⟩ := List.mem_map.mp hs
    exact count_pair (hwritten.pair kv hkv)
  · intro s hs
    rw [pairs_text hfilled] at hs
    obtain ⟨kv, hkv, rfl⟩ := List.mem_map.mp hs
    exact count_pair (hfilled.pair kv hkv)

/-- **EXTRACTION**: a template with a placeholder binds every name and every
    static key. -/
theorem parse_filled {t : Template} {σ : t.Assignment} {raw_http : Str} (hne : t.names ≠ [])
    (hraw : request_path raw_http = .ok ((t.path σ).drop 1)) :
    parse_from_string ∅ raw_http (extract_params t.written) t.written
      = .ok (emplace_all ∅ (t.texts σ)) := by
  have hwritten := cuts_written t
  have hfilled := cuts_filled t σ
  have hnames : extract_params t.written ≠ [] := by rwa [extract_params_written]
  refine (parse_from_string_ok_iff hnames).mpr
    ⟨_, _, _, _, hraw, same_shape t σ, fill_placed (placed_written t) (same_shape t σ), ?_⟩
  congr 1
  rw [Templates.segments, Templates.pairs, written, segments_text hwritten,
    (text_drop_cut hwritten).2, Option.getD_some, pairs_text hwritten, path,
    segments_text hfilled, pairs_text hfilled, List.zip_map', List.zip_map', texts, path_texts,
    List.filterMap_map, List.map_map]
  congr 1
  · refine List.filterMap_congr fun piece hp => ?_
    rw [Function.comp_apply, placeholder_written (t.segments_ok piece hp)]
  · refine List.map_congr_left fun kv hkv => ?_
    obtain ⟨hkey, hok⟩ := t.query_ok kv hkv
    have hkey_eq : 61 ∉ kv.1 := (hfilled.pair kv hkv).key_eq
    rw [Function.comp_apply, query_text, placeholder_pair hkey hok, name_part_of_pair hkey_eq,
      value_part_of_pair hkey_eq, label]

end Template

/-! ## Round trips -/

/-- The slash of the path is the first one, and the `HTTP` behind it too. -/
theorem request_path_line {method tail : Str} (rest : Str) (hslash : 47 ∉ method)
    (hmethod : ¬ HTTP <:+: method) (htail : ¬ HTTP <:+: 47 :: tail) :
    request_path (method ++ 32 :: ((47 :: tail) ++ 32 :: (HTTP ++ rest))) = .ok tail := by
  have hstart : find_char 47 (method ++ 32 :: ((47 :: tail) ++ 32 :: (HTTP ++ rest)))
      = some (method.length + 1) := by
    refine Search.find_singleton_eq_some_iff.mpr
      ⟨method ++ [32], tail ++ 32 :: (HTTP ++ rest), by simp, ?_, by simp⟩
    simpa using hslash
  have hversion : Search.find HTTP (HTTP ++ rest) = some 0 :=
    Search.find_eq_some_iff.mpr
      ⟨Nat.zero_le _, ⟨rest, rfl⟩, fun j hj => absurd hj (Nat.not_lt_zero j)⟩
  have hhttp : Search.find HTTP (method ++ 32 :: ((47 :: tail) ++ 32 :: (HTTP ++ rest)))
      = some (tail.length + 2 + (method.length + 1)) := by
    rw [Search.find_append_cons_of_notMem _ (by decide) (by decide) hmethod,
      Search.find_append_cons_of_notMem _ (by decide) (by decide) htail, hversion]
    simp
  have hlen : size_sub (tail.length + 2 + (method.length + 1)) (method.length + 1)
      = tail.length + 2 := by
    rw [size_sub_of_le (by omega)]
    omega
  rw [request_path, hstart, hhttp]
  simp only [Option.getD_some]
  rw [hlen, size_sub_of_le (by omega), Nat.add_sub_cancel, string_view,
    if_pos (by simp; omega)]
  have hdrop : (method ++ 32 :: ((47 :: tail) ++ 32 :: (HTTP ++ rest))).drop (method.length + 1 + 1)
      = tail ++ 32 :: (HTTP ++ rest) := by
    have hcut : method ++ 32 :: ((47 :: tail) ++ 32 :: (HTTP ++ rest))
        = (method ++ [32, 47]) ++ (tail ++ 32 :: (HTTP ++ rest)) := by simp
    rw [hcut]
    exact List.drop_left' (by simp)
  rw [hdrop, List.take_left]

theorem request_path_request_text {method tail : Str} (rest : Str) (hslash : 47 ∉ method)
    (hmethod : ¬ HTTP <:+: method) (htail : ¬ HTTP <:+: 47 :: tail) :
    request_path (request_text method (47 :: tail) rest) = .ok tail :=
  request_path_line (str "/1.1" ++ rest) hslash hmethod htail

theorem to_lowercase_of_lower {s : Str} (h : Lower s) : to_lowercase_str s = s := by
  have hfix : ∀ b ∈ s, tolower b = id b := by
    intro b hb
    rw [tolower, if_neg]
    · rfl
    · simpa using h b hb
  rw [to_lowercase_str, List.map_congr_left hfix, List.map_id]

/-- The instance matches the normal form of the template, its request is parsed,
    and the queries are the values of the placeholders and of the static keys. -/
structure RoundTrips (t : Template) (σ : t.Assignment) (method rest : Str) : Prop where
  matched : ∃ key, process_url_str t.written = .ok key ∧ match_path key (t.path σ) = .ok true
  extracted : ∃ m,
    parse_from_string ∅ (request_text method (t.path σ) (str "\r\n" ++ rest))
      (extract_params t.written) t.written = .ok m
    ∧ (∀ x ∈ t.names, get_query m x = σ.value x)
    ∧ ∀ k s, (k, Piece.text s) ∈ t.query → get_query m k = s

/-- What a text is entered under, in lower case, `get_query` gives back. -/
theorem get_query_texts {t : Template} {σ : t.Assignment} {x a : Str} (hx : Lower x)
    (h : (x, a) ∈ t.texts σ) : get_query (emplace_all ∅ (t.texts σ)) x = a := by
  rw [get_query, to_lowercase_of_lower hx, find_emplace_all_of_mem (t.texts_nodup σ) h,
    Option.getD_some]

theorem mem_texts_of_name {t : Template} (σ : t.Assignment) {x : Str} (h : x ∈ t.names) :
    (x, σ.value x) ∈ t.texts σ := by
  have hname : ∀ {piece : Piece}, piece.name = some x → piece = .hole x := by
    intro piece hp
    cases piece with
    | text s => cases hp
    | hole y => rw [Option.some.inj hp]
  rcases List.mem_append.mp h with h | h
  · obtain ⟨piece, hp, hx⟩ := List.mem_filterMap.mp h
    obtain rfl := hname hx
    exact List.mem_append.mpr (Or.inl (List.mem_filterMap.mpr ⟨_, hp, rfl⟩))
  · obtain ⟨⟨k, piece⟩, hkv, hx⟩ := List.mem_filterMap.mp h
    obtain rfl := hname hx
    exact List.mem_append.mpr (Or.inr (List.mem_map.mpr ⟨_, hkv, rfl⟩))

theorem mem_texts_of_static {t : Template} (σ : t.Assignment) {k s : Str}
    (h : (k, Piece.text s) ∈ t.query) : (k, s) ∈ t.texts σ :=
  List.mem_append.mpr (Or.inr (List.mem_map.mpr ⟨_, h, rfl⟩))

theorem mem_static_keys {query : List (Str × Piece)} {k s : Str}
    (h : (k, Piece.text s) ∈ query) : k ∈ static_keys query :=
  List.mem_map.mpr ⟨_, List.mem_filter.mpr ⟨h, decide_eq_true rfl⟩, rfl⟩

/-- A template without placeholders has a static pair. -/
theorem exists_static {t : Template} (h : t.names = []) :
    ∃ k s, (k, Piece.text s) ∈ t.query ∧ s ≠ [] := by
  obtain ⟨⟨k, piece⟩, hkv⟩ := List.exists_mem_of_ne_nil _ t.query_ne_nil
  cases piece with
  | text s => exact ⟨k, s, hkv, (t.query_ok _ hkv).2.2⟩
  | hole x =>
      have hx := Template.mem_names_of_pair hkv
      rw [h] at hx
      cases hx

/-- **ROUND TRIP**: for every template and every assignment, the instance is
    routed and its values extracted exactly when the template has a placeholder.
    Without one `parse_from_string` returns before it reads a static pair. -/
theorem round_trip_iff (t : Template) (σ : t.Assignment) {method : Str} (rest : Str)
    (hslash : 47 ∉ method) (hmethod : ¬ HTTP <:+: method) (hpath : ¬ HTTP <:+: t.path σ) :
    RoundTrips t σ method rest ↔ t.names ≠ [] := by
  constructor
  · rintro ⟨-, m, hparse, -, hstatic⟩ hnil
    obtain ⟨k, s, hkv, hs⟩ := exists_static hnil
    have hempty : m = ∅ := by
      rw [Template.extract_params_written, hnil] at hparse
      exact (Except.ok.inj hparse).symm
    refine hs ?_
    rw [← hstatic k s hkv, hempty, get_query, find_empty, Option.getD_none]
  · intro hne
    have hraw := request_path_request_text (str "\r\n" ++ rest) hslash hmethod hpath
    refine ⟨⟨_, t.process_written, t.match_path_filled σ⟩, _, Template.parse_filled hne hraw,
      ?_, ?_⟩
    · intro x hx
      exact get_query_texts (t.lower x (List.mem_append.mpr (Or.inl hx)))
        (mem_texts_of_name σ hx)
    · intro k s hkv
      exact get_query_texts (t.lower k (List.mem_append.mpr (Or.inr (mem_static_keys hkv))))
        (mem_texts_of_static σ hkv)

/-- `/user/{id}?page={n}&sort=asc` -/
def template_page : Template where
  segments := [.text (str "user"), .hole (str "id")]
  query := [(str "page", .hole (str "n")), (str "sort", .text (str "asc"))]
  query_ne_nil := by decide
  segments_ok := by decide
  query_ok := by decide
  keys_nodup := by decide
  names_nodup := by decide
  names_not_static := by decide
  lower := by decide

def page_seven : template_page.Assignment where
  value x := if x = str "id" then str "42" else str "7"
  value_ok := by decide

theorem round_trip_page : template_page.path page_seven = str "/user/42?page=7&sort=asc"
    ∧ (RoundTrips template_page page_seven (str "GET") (str "\r\n")
      ↔ template_page.names ≠ []) :=
  ⟨by decide, round_trip_iff template_page page_seven (str "\r\n") (by decide) (by decide)
    (by decide)⟩

/-- `/list?sort=asc` -/
def template_sorted : Template where
  segments := [.text (str "list")]
  query := [(str "sort", .text (str "asc"))]
  query_ne_nil := by decide
  segments_ok := by decide
  query_ok := by decide
  keys_nodup := by decide
  names_nodup := by decide
  names_not_static := by decide
  lower := by decide

def no_values : template_sorted.Assignment where
  value _ := []
  value_ok := by decide

/-- The request is parsed without an error and its static pair is not there. -/
theorem static_pair_lost : template_sorted.path no_values = str "/list?sort=asc"
    ∧ 32 ∉ str "GET" ∧ 47 ∉ str "GET" ∧ ¬ HTTP <:+: str "GET"
    ∧ ¬ HTTP <:+: template_sorted.path no_values
    ∧ (str "sort", Piece.text (str "asc")) ∈ template_sorted.query
    ∧ parse_from_string ∅
        (request_text (str "GET") (template_sorted.path no_values) (str "\r\n\r\n"))
        (extract_params template_sorted.written) template_sorted.written = .ok ∅
    ∧ get_query ∅ (str "sort") = []
    ∧ ¬ RoundTrips template_sorted no_values (str "GET") (str "\r\n") := by
  have hparse : parse_from_string ∅
      (request_text (str "GET") (template_sorted.path no_values) (str "\r\n" ++ str "\r\n"))
      (extract_params template_sorted.written) template_sorted.written = .ok ∅ := by rfl
  refine ⟨by decide, by decide, by decide, by decide, by decide, by decide, hparse, rfl, ?_⟩
  rintro ⟨-, m, hm, -, hstatic⟩
  have hempty : ∅ = m := Except.ok.inj (hparse.symm.trans hm)
  have hsort := hstatic (str "sort") (str "asc") (by decide)
  rw [← hempty] at hsort
  exact absurd hsort (by decide)

end WebLib.RoundTrip
