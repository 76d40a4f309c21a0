import WebLib.ByteString

/-! # `utils`: text helpers of the server

    `trim`, `to_lowercase_str`, `parse_request_line`, and the two readings of
    a route template: `process_url_str` replaces each placeholder group by an
    empty one, `extract_params` lists the names between the braces. -/

namespace WebLib.Utils

open WebLib ByteString

/-! ## Trimming and folding -/

/-- `trim_l` tests each byte as an `unsigned char`. -/
def trim_l (s : Str) : Str := s.dropWhile fun elem => isspace elem.toNat

/-- `trim_r` tests each byte as a plain `char`. -/
def trim_r (s : Str) : Str := s.rdropWhile fun elem => isspace (signed_char elem)

def trim (s : Str) : Str := trim_r (trim_l s)

def to_lowercase_str (s : Str) : Str := s.map tolower

theorem to_lowercase_str_idem (s : Str) :
    to_lowercase_str (to_lowercase_str s) = to_lowercase_str s := by
  rw [to_lowercase_str, to_lowercase_str, List.map_map]
  exact List.map_congr_left fun b _ => tolower_idem b

theorem trim_l_eq (s : Str) : trim_l s = s.dropWhile isWs := rfl

theorem trim_r_eq (s : Str) : trim_r s = s.rdropWhile isWs := by
  rw [trim_r]
  congr 1
  funext b
  exact isspace_signed_char b

/-- Text that starts and ends visibly keeps its middle under `trim`, whatever
    white space stands around it. -/
theorem trim_sandwich {ws ws' s : Str} (hw : ∀ b ∈ ws, isWs b = true)
    (hw' : ∀ b ∈ ws', isWs b = true)
    (hfirst : ∀ b ∈ s.head?, isWs b = false)
    (hlast : ∀ b ∈ s.getLast?, isWs b = false) (hne : s ≠ []) :
    trim (ws ++ (s ++ ws')) = s := by
  rw [trim, trim_l_eq, trim_r_eq]
  obtain ⟨a, s', rfl⟩ := List.exists_cons_of_ne_nil hne
  have ha : isWs a = false := hfirst a rfl
  -- from the left the trim stops at `a`, from the right at the last byte
  have hl : (ws ++ (a :: s' ++ ws')).dropWhile isWs = a :: s' ++ ws' := by
    rw [List.dropWhile_append_of_pos hw, List.cons_append,
      List.dropWhile_cons_of_neg (by simp [ha])]
  have hb : isWs ((a :: s').getLast (List.cons_ne_nil _ _)) = false :=
    hlast _ (List.getLast?_eq_getLast_of_ne_nil _)
  rw [hl]
  rw [List.rdropWhile, List.reverse_append, List.dropWhile_append_of_pos]
  · obtain ⟨t, ht⟩ : ∃ t, (a :: s').reverse
        = (a :: s').getLast (List.cons_ne_nil _ _) :: t := by
      refine ⟨((a :: s').reverse).tail, ?_⟩
      rw [← List.head_reverse (by simp)]
      exact (List.cons_head_tail _).symm
    rw [ht, List.dropWhile_cons_of_neg (by simp [hb]), ← ht, List.reverse_reverse]
  · intro b hb'
    exact hw' b (List.mem_reverse.mp hb')

/-- A text with a visible byte is white space around a visible core. -/
theorem exists_core {v : Str} (h : ∃ b ∈ v, isWs b = false) :
    ∃ ws core ws', v = ws ++ (core ++ ws') ∧ (∀ b ∈ ws, isWs b = true)
      ∧ (∀ b ∈ ws', isWs b = true) ∧ (∀ b ∈ core.head?, isWs b = false)
      ∧ (∀ b ∈ core.getLast?, isWs b = false) ∧ core ≠ [] := by
  have hne : v.dropWhile isWs ≠ [] := by
    intro hnil
    obtain ⟨b, hb, hv⟩ := h
    have := List.dropWhile_eq_nil_iff.mp hnil b hb
    rw [hv] at this
    exact Bool.false_ne_true this
  have hfirst : isWs ((v.dropWhile isWs).head hne) = false := by
    have := List.head_dropWhile_not isWs hne
    simpa using this
  -- what is left of the text starts visibly, so the other trim keeps that byte
  have hrne : (v.dropWhile isWs).rdropWhile isWs ≠ [] := by
    intro hnil
    have hall := List.rdropWhile_eq_nil_iff.mp hnil _ (List.head_mem hne)
    rw [hfirst] at hall
    exact Bool.false_ne_true hall
  refine ⟨v.takeWhile isWs, (v.dropWhile isWs).rdropWhile isWs,
    (v.dropWhile isWs).rtakeWhile isWs, ?_, ?_, ?_, ?_, ?_, hrne⟩
  · rw [List.rdropWhile_append_rtakeWhile, List.takeWhile_append_dropWhile]
  · intro b hb
    exact List.mem_takeWhile_imp hb
  · intro b hb
    exact List.mem_rtakeWhile_imp hb
  · intro b hb
    have hpre := List.rdropWhile_prefix isWs (l := v.dropWhile isWs)
    have hhead : (v.dropWhile isWs).head hne = b := by
      obtain ⟨t, ht⟩ := hpre
      obtain ⟨x, xs, hx⟩ := List.exists_cons_of_ne_nil hrne
      rw [hx] at hb ht
      have hxb : x = b := by simpa using hb
      have : (v.dropWhile isWs).head? = some x := by rw [← ht]; rfl
      rw [← hxb]
      exact Option.some.inj ((List.head?_eq_some_head hne).symm.trans this)
    rw [← hhead]
    exact hfirst
  · intro b hb
    have hlast := List.rdropWhile_last_not isWs (v.dropWhile isWs) hrne
    rw [List.getLast?_eq_getLast_of_ne_nil hrne] at hb
    have : ((v.dropWhile isWs).rdropWhile isWs).getLast hrne = b := by simpa using hb
    rw [← this]
    simpa using hlast

theorem length_trim_le (s : Str) : (trim s).length ≤ s.length := by
  rw [trim, trim_l_eq, trim_r_eq]
  exact (List.rdropWhile_prefix isWs _).length_le.trans (List.length_dropWhile_le isWs s)

/-! ## The request line -/

/-- `parse_request_line`: method and path, each ended by a space. -/
def parse_request_line (raw_http : Str) : Except Fault (Str × Str) :=
  match find_char 32 raw_http with
  | none => .error (.throws (.runtime_error (str "HTTP request is ill-formed")))
  | some space_after_method =>
      let method := raw_http.take space_after_method
      match find_from 32 raw_http (space_after_method + 1) with
      | none => .error (.throws (.runtime_error (str "HTTP request is ill-formed")))
      | some space_after_path =>
          (substr raw_http (space_after_method + 1)
              (size_sub (size_sub space_after_path space_after_method) 1)).map
            fun path => (method, path)

/-! ## Paths and queries -/

/-- The part before the first question mark. -/
def path_part (s : Str) : Str := s.takeWhile fun c => c ≠ 63

/-- The part after it, if there is one. -/
def query_part (s : Str) : Option Str := (find_char 63 s).map fun pos => s.drop (pos + 1)

theorem query_part_eq_some_iff {s q : Str} :
    query_part s = some q ↔ ∃ pos, find_char 63 s = some pos ∧ s.drop (pos + 1) = q :=
  Option.map_eq_some_iff

theorem path_part_of_find {s : Str} {pos : Nat} (h : find_char 63 s = some pos) :
    path_part s = s.take pos := by
  obtain ⟨a, b, rfl, ha, rfl⟩ := Search.find_singleton_eq_some_iff.mp h
  have hpos : ∀ c ∈ a, decide (c ≠ 63) = true :=
    fun c hc => decide_eq_true fun he => ha (he ▸ hc)
  rw [path_part, List.takeWhile_append_of_pos hpos, List.takeWhile_cons_of_neg (by simp),
    List.append_nil, List.take_left]

theorem path_part_of_notMem {s : Str} (h : 63 ∉ s) : path_part s = s :=
  List.takeWhile_eq_self_iff.mpr fun _ hc => decide_eq_true fun he => h (he ▸ hc)

theorem query_part_of_notMem {s : Str} (h : 63 ∉ s) : query_part s = none := by
  have hfind : find_char 63 s = none := Search.find_singleton_eq_none_iff.mpr h
  rw [query_part, hfind]
  rfl

/-- The first question mark is where the text is cut. -/
theorem cut_at_mark {p : Str} (h : 63 ∉ p) (q : Str) :
    path_part (p ++ 63 :: q) = p ∧ query_part (p ++ 63 :: q) = some q := by
  have hfind : find_char 63 (p ++ 63 :: q) = some p.length := Search.find_singleton_append h q
  constructor
  · rw [path_part_of_find hfind, List.take_left]
  · rw [query_part, hfind, Option.map_some, Search.drop_past]

/-! ## Route templates -/

/-- An empty placeholder group. -/
def EMPTY_GROUP : Str := [123, 125]

/-- The placeholder group of a name. -/
def group (name : Str) : Str := 123 :: (name ++ [125])

/-- The loop of `process_url_str` on the text from `idx` on; the fuel bounds
    the number of rounds, each of which moves `idx`. -/
def process_url_loop : Nat → Str → Except Fault Str
  | _, [] => .ok []
  -- not reached from `process_url_str`, whose fuel is the length
  | 0, _ :: _ => .ok []
  | n + 1, c :: rest =>
      if c = 123 then
        match find_char 125 rest with
        | none => .error (.throws (.runtime_error (str "Ill-formed template path")))
        | some e => (process_url_loop n (rest.drop (e + 1))).map (EMPTY_GROUP ++ ·)
      else (process_url_loop n rest).map (c :: ·)

/-- `process_url_str`: every group becomes an empty group. -/
def process_url_str (url : Str) : Except Fault Str := process_url_loop url.length url

/-- The loop of `extract_params`; each round removes a prefix of `url`. -/
def extract_params_loop : Nat → Str → List Str
  | 0, _ => []
  | n + 1, url =>
      match find_char 123 url, find_char 125 url with
      | some start_pos, some end_pos =>
          -- a '}' before the '{' wraps the length, and all that is left is taken
          (url.drop (start_pos + 1)).take (size_sub (size_sub end_pos start_pos) 1)
            :: extract_params_loop n (url.drop (end_pos + 1))
      | _, _ => []

/-- `extract_params`: the placeholder names of a template. -/
def extract_params (url : Str) : List Str := extract_params_loop (url.length + 1) url

theorem except_map_ok {α β ε : Type} {x : Except ε α} {f : α → β} {b : β}
    (h : x.map f = .ok b) : ∃ a, x = .ok a ∧ f a = b := by
  cases x with
  | error e => cases h
  | ok a => exact ⟨a, rfl, Except.ok.inj h⟩

private theorem except_map_error {α β ε : Type} {x : Except ε α} {f : α → β} {e : ε}
    (h : x.map f = .error e) : x = .error e := by
  cases x with
  | error e' => exact congrArg _ (Except.error.inj h)
  | ok a => cases h

/-- Fuel beyond the length of the text changes nothing. -/
theorem process_url_loop_fuel :
    ∀ (n : Nat) (s : Str), s.length ≤ n →
      process_url_loop n s = process_url_loop s.length s := by
  intro n
  induction n using Nat.strong_induction_on with
  | _ n ih =>
      intro s hs
      cases s with
      | nil => cases n <;> rfl
      | cons c rest =>
          obtain ⟨m, rfl⟩ : ∃ m, n = m + 1 := ⟨n - 1, by simp at hs; omega⟩
          have hrest : rest.length ≤ m := by simpa using hs
          simp only [List.length_cons, process_url_loop]
          by_cases hc : c = 123
          · rw [if_pos hc, if_pos hc]
            cases hf : find_char 125 rest with
            | none => rfl
            | some e =>
                have hd : (rest.drop (e + 1)).length ≤ rest.length := by simp
                simp only
                rw [ih m (by omega) _ (by omega)]
                by_cases hm : rest.length = m
                · rw [hm, ih m (by omega) _ (by omega)]
                · rw [ih rest.length (by omega) _ hd]
          · rw [if_neg hc, if_neg hc, ih m (by omega) rest hrest]

theorem process_url_str_nil : process_url_str [] = .ok [] := rfl

/-- A group is replaced by an empty one and skipped up to its first `'}'`. -/
theorem process_url_str_group {rest : Str} {e : Nat}
    (h : find_char 125 rest = some e) :
    process_url_str (123 :: rest)
      = (process_url_str (rest.drop (e + 1))).map (EMPTY_GROUP ++ ·) := by
  simp only [process_url_str]
  rw [List.length_cons, process_url_loop, if_pos rfl, h]
  simp only
  rw [process_url_loop_fuel rest.length _ (by simp)]

theorem process_url_str_group_open {rest : Str} (h : find_char 125 rest = none) :
    process_url_str (123 :: rest)
      = .error (.throws (.runtime_error (str "Ill-formed template path"))) := by
  rw [process_url_str, List.length_cons, process_url_loop, if_pos rfl, h]

/-- A byte outside a group is copied. -/
theorem process_url_str_copy {c : Byte} {rest : Str} (h : c ≠ 123) :
    process_url_str (c :: rest) = (process_url_str rest).map (c :: ·) := by
  simp only [process_url_str]
  rw [List.length_cons, process_url_loop, if_neg h]

theorem process_url_str_append {t : Str} (ht : 123 ∉ t) (s : Str) :
    process_url_str (t ++ s) = (process_url_str s).map (t ++ ·) := by
  induction t with
  | nil =>
      rw [List.nil_append]
      cases process_url_str s <;> rfl
  | cons c t ih =>
      obtain ⟨hc, ht⟩ := List.ne_and_not_mem_of_not_mem_cons ht
      rw [List.cons_append, process_url_str_copy (Ne.symm hc), ih ht]
      cases process_url_str s <;> rfl

theorem group_append (x s : Str) : group x ++ s = 123 :: (x ++ 125 :: s) := by simp [group]

theorem process_url_str_group_append {x : Str} (hx : 125 ∉ x) (s : Str) :
    process_url_str (group x ++ s) = (process_url_str s).map (EMPTY_GROUP ++ ·) := by
  rw [group_append, process_url_str_group (Search.find_singleton_append hx s), Search.drop_past]

/-- **INDUCTION OVER A TEMPLATE**, along the rounds of `process_url_str`. -/
theorem template_induction {P : Str → Prop} (hnil : P [])
    (hcopy : ∀ c rest, c ≠ 123 → P rest → P (c :: rest))
    (hopen : ∀ rest, find_char 125 rest = none → P (123 :: rest))
    (hgroup : ∀ rest e, find_char 125 rest = some e → P (rest.drop (e + 1)) → P (123 :: rest))
    (url : Str) : P url := by
  induction hn : url.length using Nat.strong_induction_on generalizing url with
  | _ n ih =>
      cases url with
      | nil => exact hnil
      | cons c rest =>
          have hrest : rest.length < n := by
            rw [← hn, List.length_cons]
            exact Nat.lt_succ_self _
          by_cases hc : c = 123
          · subst hc
            cases he : find_char 125 rest with
            | none => exact hopen rest he
            | some e =>
                have hdrop : (rest.drop (e + 1)).length < n := by
                  rw [List.length_drop]
                  exact Nat.lt_of_le_of_lt (Nat.sub_le _ _) hrest
                exact hgroup rest e he (ih _ hdrop _ rfl)
          · exact hcopy c rest hc (ih _ hrest _ rfl)

/-- **NORMAL FORM**: what `process_url_str` returns it leaves as it is. -/
theorem process_url_str_idem (url : Str) :
    ∀ {key : Str}, process_url_str url = .ok key → process_url_str key = .ok key := by
  induction url using template_induction with
  | hnil =>
      intro key h
      rw [process_url_str_nil] at h
      exact Except.ok.inj h ▸ process_url_str_nil
  | hcopy c rest hc ih =>
      intro key h
      rw [process_url_str_copy hc] at h
      obtain ⟨key', hkey, rfl⟩ := except_map_ok h
      rw [process_url_str_copy hc, ih hkey]
      rfl
  | hopen rest he =>
      intro key h
      rw [process_url_str_group_open he] at h
      cases h
  | hgroup rest e he ih =>
      intro key h
      rw [process_url_str_group he] at h
      obtain ⟨key', hkey, rfl⟩ := except_map_ok h
      -- the group in the result is empty, so it closes at once
      have hclose : find_char 125 (125 :: key') = some 0 :=
        Search.find_singleton_eq_some_iff.mpr ⟨[], key', rfl, List.not_mem_nil, rfl⟩
      show process_url_str (123 :: 125 :: key') = _
      rw [process_url_str_group hclose]
      show (process_url_str key').map _ = _
      rw [ih hkey]
      rfl

/-- `process_url_str` fails by throwing. -/
theorem process_url_str_error (url : Str) :
    ∀ {f : Fault}, process_url_str url = .error f → ∃ e, f = .throws e := by
  induction url using template_induction with
  | hnil =>
      intro f h
      rw [process_url_str_nil] at h
      cases h
  | hcopy c rest hc ih =>
      intro f h
      rw [process_url_str_copy hc] at h
      exact ih (except_map_error h)
  | hopen rest he =>
      intro f h
      rw [process_url_str_group_open he] at h
      exact ⟨_, (Except.error.inj h).symm⟩
  | hgroup rest e he ih =>
      intro f h
      rw [process_url_str_group he] at h
      exact ih (except_map_error h)

end WebLib.Utils
