import WebLib.Templates

/-! # The names of a template and the groups of its key

    `process_url_str` cuts a template at its groups: text without `'{'`, a
    group up to its first `'}'`, text, and so on.  `extract_params` looks for
    the first `'{'` and the first `'}'` of what is left independently, so a
    `'}'` that closes nothing costs it a round of its own.  The two agree on the
    templates without such a `'}'` before a group, and on no others. -/

namespace WebLib.Templates

open WebLib ByteString Utils

/-- The texts between the braces that `process_url_loop` replaces: the same
    rounds, which keep what that loop skips. -/
def group_names_loop : Nat → Str → List Str
  | _, [] => []
  | 0, _ :: _ => []
  | n + 1, c :: rest =>
      if c = 123 then
        match find_char 125 rest with
        | none => []
        | some e => rest.take e :: group_names_loop n (rest.drop (e + 1))
      else group_names_loop n rest

def group_names (url : Str) : List Str := group_names_loop url.length url

/-! ## The cut of a template -/

/-- The text of the parts, each a text and the group behind it. -/
def weave (g : Str → Str) (parts : List (Str × Str)) : Str := parts.flatMap fun p => p.1 ++ g p.2

/-- The parts of a template and the text behind its last group. -/
structure Cut (url : Str) (parts : List (Str × Str)) (tail : Str) : Prop where
  text : url = weave group parts ++ tail
  before : ∀ p ∈ parts, 123 ∉ p.1
  name : ∀ p ∈ parts, 125 ∉ p.2
  behind : 123 ∉ tail

theorem weave_cons (g : Str → Str) (p : Str × Str) (parts : List (Str × Str)) :
    weave g (p :: parts) = p.1 ++ (g p.2 ++ weave g parts) := by
  rw [weave, List.flatMap_cons, List.append_assoc]
  rfl

theorem Cut.text_nil {url tail : Str} (h : Cut url [] tail) : url = tail := h.text

theorem Cut.text_cons {url tail : Str} {p : Str × Str} {parts : List (Str × Str)}
    (h : Cut url (p :: parts) tail) :
    url = p.1 ++ (group p.2 ++ (weave group parts ++ tail)) := by
  rw [h.text, weave_cons, List.append_assoc, List.append_assoc]

theorem Cut.of_cons {url tail : Str} {p : Str × Str} {parts : List (Str × Str)}
    (h : Cut url (p :: parts) tail) : Cut (weave group parts ++ tail) parts tail where
  text := rfl
  before := fun q hq => h.before q (List.mem_cons_of_mem _ hq)
  name := fun q hq => h.name q (List.mem_cons_of_mem _ hq)
  behind := h.behind

/-- A byte more in front of the first group. -/
theorem Cut.copy {c : Byte} (hc : c ≠ 123) {rest tail : Str} {parts : List (Str × Str)}
    (h : Cut rest parts tail) :
    ∃ parts' tail', Cut (c :: rest) parts' tail'
      ∧ ∀ g, weave g parts' ++ tail' = c :: (weave g parts ++ tail) := by
  cases parts with
  | nil =>
      refine ⟨[], c :: tail, ⟨congrArg _ h.text, h.before, h.name, ?_⟩, fun g => rfl⟩
      exact List.not_mem_cons_of_ne_of_not_mem (Ne.symm hc) h.behind
  | cons p parts =>
      refine ⟨(c :: p.1, p.2) :: parts, tail, ⟨congrArg _ h.text, ?_, ?_, h.behind⟩, fun g => rfl⟩
      · refine List.forall_mem_cons.mpr ⟨?_, fun q hq => h.before q (List.mem_cons_of_mem _ hq)⟩
        exact List.not_mem_cons_of_ne_of_not_mem (Ne.symm hc) (h.before p List.mem_cons_self)
      · exact List.forall_mem_cons.mpr ⟨h.name p List.mem_cons_self,
          fun q hq => h.name q (List.mem_cons_of_mem _ hq)⟩

/-- A group more in front. -/
theorem Cut.group {x : Str} (hx : 125 ∉ x) {s tail : Str} {parts : List (Str × Str)}
    (h : Cut s parts tail) : Cut (123 :: (x ++ 125 :: s)) (([], x) :: parts) tail where
  text := by rw [h.text, weave_cons, List.nil_append, List.append_assoc, group_append]
  before := List.forall_mem_cons.mpr ⟨List.not_mem_nil, h.before⟩
  name := List.forall_mem_cons.mpr ⟨hx, h.name⟩
  behind := h.behind

/-- **EVERY ACCEPTED TEMPLATE IS CUT**, and its key is the cut with empty
    groups. -/
theorem exists_cut (url : Str) :
    ∀ {key : Str}, process_url_str url = .ok key →
      ∃ parts tail, Cut url parts tail ∧ key = weave (fun _ => EMPTY_GROUP) parts ++ tail := by
  induction url using template_induction with
  | hnil =>
      intro key h
      refine ⟨[], [], ⟨rfl, by simp, by simp, List.not_mem_nil⟩, ?_⟩
      exact (Except.ok.inj h).symm
  | hcopy c rest hc ih =>
      intro key h
      rw [process_url_str_copy hc] at h
      obtain ⟨key', hkey, rfl⟩ := except_map_ok h
      obtain ⟨parts, tail, hcut, rfl⟩ := ih hkey
      obtain ⟨parts', tail', hcut', hweave⟩ := hcut.copy hc
      exact ⟨parts', tail', hcut', (hweave _).symm⟩
  | hopen rest he =>
      intro key h
      rw [process_url_str_group_open he] at h
      cases h
  | hgroup rest e he ih =>
      intro key h
      rw [process_url_str_group he] at h
      obtain ⟨key', hkey, rfl⟩ := except_map_ok h
      obtain ⟨parts, tail, hcut, rfl⟩ := ih hkey
      obtain ⟨x, s, rfl, hx, rfl⟩ := Search.find_singleton_eq_some_iff.mp he
      rw [Search.drop_past] at hcut
      refine ⟨([], x) :: parts, tail, hcut.group hx, ?_⟩
      rw [weave_cons, List.nil_append, List.append_assoc]

/-- Behind a cut text the rounds go on as at the start. -/
theorem process_url_str_behind_cut {before tail : Str} {parts : List (Str × Str)}
    (h : Cut before parts tail) (s : Str) :
    process_url_str (before ++ s)
      = (process_url_str s).map ((weave (fun _ => EMPTY_GROUP) parts ++ tail) ++ ·) := by
  induction parts generalizing before with
  | nil =>
      rw [h.text_nil, process_url_str_append h.behind]
      rfl
  | cons p parts ih =>
      have ht : 123 ∉ p.1 := h.before p List.mem_cons_self
      have hx : 125 ∉ p.2 := h.name p List.mem_cons_self
      rw [h.text_cons, List.append_assoc, List.append_assoc, process_url_str_append ht,
        process_url_str_group_append hx, ih h.of_cons]
      cases process_url_str s with
      | error f => rfl
      | ok key => simp [Except.map, weave_cons]

/-- **A CUT TEMPLATE IS ACCEPTED**: the converse of `exists_cut`. -/
theorem process_url_str_of_cut {url tail : Str} {parts : List (Str × Str)}
    (h : Cut url parts tail) :
    process_url_str url = .ok (weave (fun _ => EMPTY_GROUP) parts ++ tail) := by
  have hkey := process_url_str_behind_cut h []
  rw [List.append_nil, process_url_str_nil] at hkey
  rw [hkey, Except.map, List.append_nil]

/-- The templates that are accepted, and their keys. -/
theorem process_url_str_ok_iff {url key : Str} :
    process_url_str url = .ok key ↔
      ∃ parts tail, Cut url parts tail ∧ key = weave (fun _ => EMPTY_GROUP) parts ++ tail := by
  constructor
  · exact exists_cut url
  · rintro ⟨parts, tail, hcut, rfl⟩
    exact process_url_str_of_cut hcut

theorem group_names_loop_append {t : Str} (ht : 123 ∉ t) (s : Str) :
    ∀ {n : Nat}, (t ++ s).length ≤ n →
      group_names_loop n (t ++ s) = group_names_loop (n - t.length) s := by
  induction t with
  | nil => exact fun _ => rfl
  | cons c t ih =>
      intro n hn
      obtain ⟨hc, ht⟩ := List.ne_and_not_mem_of_not_mem_cons ht
      obtain ⟨m, rfl⟩ : ∃ m, n = m + 1 := ⟨n - 1, by simp at hn; omega⟩
      rw [List.cons_append, group_names_loop, if_neg (Ne.symm hc), ih ht (by simpa using hn),
        List.length_cons, Nat.add_sub_add_right]

/-- The groups of a cut template are those between its parts. -/
theorem group_names_loop_of_cut {parts : List (Str × Str)} :
    ∀ {n : Nat} {url tail : Str}, url.length ≤ n → Cut url parts tail →
      group_names_loop n url = parts.map Prod.snd := by
  induction parts with
  | nil =>
      intro n url tail hn h
      rw [h.text_nil] at hn ⊢
      have hnames := group_names_loop_append h.behind [] ((List.append_nil tail).symm ▸ hn)
      rw [List.append_nil] at hnames
      rw [hnames]
      cases n - tail.length <;> rfl
  | cons p parts ih =>
      intro n url tail hn h
      have ht : 123 ∉ p.1 := h.before p List.mem_cons_self
      have hx : 125 ∉ p.2 := h.name p List.mem_cons_self
      rw [h.text_cons, group_append] at hn ⊢
      rw [group_names_loop_append ht _ hn]
      simp only [List.length_append, List.length_cons] at hn
      obtain ⟨m, hm⟩ : ∃ m, n - p.1.length = m + 1 := ⟨n - p.1.length - 1, by omega⟩
      have hclose : find_char 125 (p.2 ++ 125 :: (weave group parts ++ tail)) = some p.2.length :=
        Search.find_singleton_append hx _
      rw [hm, group_names_loop, if_pos rfl, hclose]
      simp only
      rw [List.take_left, Search.drop_past, ih (by rw [List.length_append]; omega) h.of_cons]
      rfl

/-! ## The rounds of `extract_params` -/

/-- Without a `'{'` there is no round. -/
theorem extract_params_of_notMem {s : Str} (h : 123 ∉ s) : extract_params s = [] := by
  have hopen : find_char 123 s = none := Search.find_singleton_eq_none_iff.mpr h
  rw [extract_params_eq, hopen]

/-- While a `'{'` is left, a round takes the text up to the first `'}'`. -/
theorem length_extract_params_close {u s : Str} (hu : 125 ∉ u) (hopen : 123 ∈ u ++ 125 :: s) :
    (extract_params (u ++ 125 :: s)).length = (extract_params s).length + 1 := by
  have hclose : find_char 125 (u ++ 125 :: s) = some u.length := Search.find_singleton_append hu s
  cases ho : find_char 123 (u ++ 125 :: s) with
  | none => exact absurd hopen (Search.find_singleton_eq_none_iff.mp ho)
  | some start_pos =>
      rw [extract_params_eq, ho, hclose]
      simp only
      rw [List.length_cons, Search.drop_past]

/-- A text and the group behind it take a round for each `'}'`. -/
theorem length_extract_params_part {x : Str} (hx : 125 ∉ x) (s : Str) :
    ∀ {n : Nat} {t : Str}, t.count 125 = n → 123 ∉ t →
      (extract_params (t ++ (group x ++ s))).length = (extract_params s).length + (n + 1) := by
  intro n
  induction n with
  | zero =>
      intro t hn ht
      have hno : NoBrace t := ⟨ht, List.count_eq_zero.mp hn⟩
      rw [extract_params_append hno, extract_params_group hx, List.length_cons]
  | succ n ih =>
      intro t hn ht
      have hmem : 125 ∈ t := List.count_pos_iff.mp (by omega)
      obtain ⟨u, v, rfl, hu⟩ := List.eq_append_cons_of_mem hmem
      have hv : v.count 125 = n := by
        rw [List.count_append, List.count_eq_zero.mpr hu, List.count_cons_self] at hn
        omega
      have hv' : 123 ∉ v := fun h => ht (by simp [h])
      have hopen : 123 ∈ u ++ 125 :: (v ++ (group x ++ s)) := by simp [group]
      rw [List.append_assoc, List.cons_append, length_extract_params_close hu hopen, ih hv hv']
      omega

/-- **HOW MANY NAMES**: one for each group and one for each `'}'` in front of
    a group that closes nothing. -/
theorem length_extract_params {url tail : Str} {parts : List (Str × Str)} (h : Cut url parts tail) :
    (extract_params url).length = parts.length + (parts.map fun p => p.1.count 125).sum := by
  induction parts generalizing url with
  | nil =>
      rw [h.text_nil, extract_params_of_notMem h.behind]
      rfl
  | cons p parts ih =>
      have hpart := length_extract_params_part (h.name p List.mem_cons_self)
        (weave group parts ++ tail) rfl (h.before p List.mem_cons_self)
      rw [h.text_cons, hpart, ih h.of_cons, List.map_cons, List.sum_cons, List.length_cons]
      omega

/-- The names of a cut without such a `'}'`. -/
theorem extract_params_cut {url tail : Str} {parts : List (Str × Str)} (h : Cut url parts tail)
    (hclose : ∀ p ∈ parts, 125 ∉ p.1) : extract_params url = parts.map Prod.snd := by
  induction parts generalizing url with
  | nil =>
      rw [h.text_nil, extract_params_of_notMem h.behind]
      rfl
  | cons p parts ih =>
      have hno : NoBrace p.1 := ⟨h.before p List.mem_cons_self, hclose p List.mem_cons_self⟩
      rw [h.text_cons, extract_params_append hno, extract_params_group (h.name p List.mem_cons_self),
        ih h.of_cons fun q hq => hclose q (List.mem_cons_of_mem _ hq)]
      rfl

/-! ## Where the two agree -/

/-- Up to the last group, every `'}'` closes a group. -/
def Closed (url : Str) : Prop := ∃ parts tail, Cut url parts tail ∧ ∀ p ∈ parts, 125 ∉ p.1

/-- The key has one `'{'` for each group. -/
theorem count_key {url tail : Str} {parts : List (Str × Str)} (h : Cut url parts tail) :
    (weave (fun _ => EMPTY_GROUP) parts ++ tail).count 123 = parts.length := by
  induction parts generalizing url with
  | nil => exact List.count_eq_zero.mpr h.behind
  | cons p parts ih =>
      have ht : p.1.count 123 = 0 := List.count_eq_zero.mpr (h.before p List.mem_cons_self)
      have hgroup : EMPTY_GROUP.count 123 = 1 := rfl
      rw [weave_cons, List.append_assoc, List.append_assoc, List.count_append, List.count_append,
        ih h.of_cons, ht, hgroup, List.length_cons]
      omega

/-- **NAMES AND GROUPS CORRESPOND** exactly when every `'}'` before the last
    group closes one. -/
theorem extract_params_eq_groups_iff {url key : Str} (h : process_url_str url = .ok key) :
    (extract_params url = group_names url ∧ (extract_params url).length = key.count 123)
      ↔ Closed url := by
  obtain ⟨parts, tail, hcut, rfl⟩ := exists_cut url h
  have hnames : group_names url = parts.map Prod.snd :=
    group_names_loop_of_cut (Nat.le_refl _) hcut
  rw [count_key hcut, hnames]
  constructor
  · rintro ⟨-, hlen⟩
    rw [length_extract_params hcut] at hlen
    have hsum : (parts.map fun p => p.1.count 125).sum = 0 := by omega
    refine ⟨parts, tail, hcut, fun p hp => List.count_eq_zero.mp ?_⟩
    exact List.sum_eq_zero_iff.mp hsum _ (List.mem_map_of_mem hp)
  · rintro ⟨parts', tail', hcut', hclose⟩
    have hparts : parts'.map Prod.snd = parts.map Prod.snd := by
      rw [← hnames]
      exact (group_names_loop_of_cut (Nat.le_refl _) hcut').symm
    have heq : extract_params url = parts.map Prod.snd :=
      (extract_params_cut hcut' hclose).trans hparts
    exact ⟨heq, by rw [heq, List.length_map]⟩

/-- A `'{'` inside a group and a `'}'` behind the last one. -/
def inner_brace : Str := str "/" ++ group (str "a" ++ 123 :: str "b") ++ (str "/c" ++ [125])

/-- Neither changes anything. -/
theorem inner_brace_agrees :
    extract_params inner_brace = group_names inner_brace
      ∧ (extract_params inner_brace).length = (str "/{}/c" ++ [125]).count 123 := by
  refine (extract_params_eq_groups_iff rfl).mpr
    ⟨[(str "/", str "a" ++ 123 :: str "b")], str "/c" ++ [125], ?_, by decide⟩
  exact ⟨rfl, by decide, by decide, by decide⟩

/-- A `'}'` in front of a group. -/
def early_close : Str := str "a" ++ 125 :: group (str "x")

/-- The length of its round wraps around, so the round lists the rest of the
    template as a name. -/
theorem early_close_adds_name :
    process_url_str early_close = .ok (str "a" ++ 125 :: EMPTY_GROUP)
      ∧ extract_params early_close = [str "x" ++ [125], str "x"]
      ∧ group_names early_close = [str "x"]
      ∧ ¬ (extract_params early_close = group_names early_close
        ∧ (extract_params early_close).length
          = (str "a" ++ 125 :: EMPTY_GROUP).count 123) := by
  refine ⟨rfl, by decide, by decide, ?_⟩
  rintro ⟨heq, -⟩
  exact absurd heq (by decide)

end WebLib.Templates
