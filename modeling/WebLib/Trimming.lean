import WebLib.Utils

/-! # What `trim` asks `isspace`

    `trim_l` hands each byte over as an `unsigned char`, `trim_r` as a plain
    `char`, which is negative from 0x80 on.  `isspace` promises nothing outside
    0..255, so the trims are run here with ANY function that is `isspace` there,
    and every argument is noted.  A text that ends in a byte from 0x80 on takes
    `trim_r` out of the domain; every other text is trimmed as it should be. -/

namespace WebLib.Utils

open WebLib ByteString

/-- A function that is `isspace` on the values of an `unsigned char`. -/
structure Isspace where
  test : Int → Bool
  agrees : ∀ c, 0 ≤ c → c ≤ 255 → test c = isspace c

/-- `find_if` with the predicate `!isspace(elem)`, where `elem` is passed on as
    `conv` has it: the arguments, and what is left from the first hit on. -/
def find_visible (is : Isspace) (conv : Byte → Int) : Str → List Int × Str
  | [] => ([], [])
  | elem :: s =>
      if is.test (conv elem) then
        let (args, rest) := find_visible is conv s
        (conv elem :: args, rest)
      else ([conv elem], elem :: s)

/-- `trim_l`: what is before the hit is erased. -/
def noted_trim_l (is : Isspace) (s : Str) : List Int × Str :=
  find_visible is (fun elem => elem.toNat) s

/-- `trim_r`: the search runs over the reversed view, and what is behind the base
    of the hit is erased. -/
def noted_trim_r (is : Isspace) (s : Str) : List Int × Str :=
  let (args, rest) := find_visible is signed_char s.reverse
  (args, rest.reverse)

/-- `trim`. -/
def noted_trim (is : Isspace) (s : Str) : List Int × Str :=
  let (args, left) := noted_trim_l is s
  let (args', trimmed) := noted_trim_r is left
  (args ++ args', trimmed)

theorem find_visible_rest (is : Isspace) (conv : Byte → Int) (s : Str) :
    (find_visible is conv s).2 = s.dropWhile fun elem => is.test (conv elem) := by
  induction s with
  | nil => rfl
  | cons elem s ih =>
      rw [find_visible, List.dropWhile_cons, ← ih]
      split <;> rfl

/-- With a function that goes on as `isspace` does, this is `trim`. -/
theorem noted_trim_eq {is : Isspace} (h : is.test = isspace) (s : Str) :
    (noted_trim is s).2 = trim s := by
  have hleft : (noted_trim_l is s).2 = trim_l s := by
    rw [noted_trim_l, find_visible_rest, h]
    rfl
  show (find_visible is signed_char (noted_trim_l is s).2.reverse).2.reverse = trim s
  rw [hleft, find_visible_rest, h]
  rfl

/-! ## What is left -/

/-- `t` is `s` from its first to its last visible byte, and empty when there is
    none. -/
structure Core (s t : Str) : Prop where
  around : ∃ ws ws', s = ws ++ (t ++ ws') ∧ (∀ b ∈ ws, isWs b = true) ∧ ∀ b ∈ ws', isWs b = true
  first : ∀ b ∈ t.head?, isWs b = false
  last : ∀ b ∈ t.getLast?, isWs b = false

/-- The last visible byte. -/
def last_visible (s : Str) : Option Byte := s.reverse.find? fun b => !isWs b

theorem last_visible_eq {s t : Str} (h : Core s t) : last_visible s = t.getLast? := by
  obtain ⟨ws, ws', rfl, hws, hws'⟩ := h.around
  have hskip : ∀ {ws : Str}, (∀ b ∈ ws, isWs b = true) →
      (ws.reverse.find? fun b => !isWs b) = none := by
    intro ws hws
    refine List.find?_eq_none.mpr fun b hb => ?_
    rw [hws b (List.mem_reverse.mp hb)]
    exact Bool.false_ne_true
  rw [last_visible, List.reverse_append, List.reverse_append, List.find?_append, List.find?_append,
    hskip hws, hskip hws', Option.none_or, Option.or_none]
  cases hl : t.getLast? with
  | none =>
      rw [List.getLast?_eq_none_iff.mp hl]
      rfl
  | some b =>
      obtain ⟨front, rfl⟩ := List.getLast?_eq_some_iff.mp hl
      have hb : isWs b = false := h.last b hl
      simp [hb]

theorem exists_white_core (s : Str) : ∃ t, Core s t := by
  by_cases h : ∃ b ∈ s, isWs b = false
  · obtain ⟨ws, core, ws', hs, hws, hws', hfirst, hlast, -⟩ := exists_core h
    exact ⟨core, ⟨ws, ws', hs, hws, hws'⟩, hfirst, hlast⟩
  · have hall : ∀ b ∈ s, isWs b = true := by
      intro b hb
      by_contra hne
      exact h ⟨b, hb, by simpa using hne⟩
    exact ⟨[], ⟨s, [], by simp, hall, List.forall_mem_nil _⟩, by simp, by simp⟩

/-! ## What is asked -/

theorem test_toNat (is : Isspace) (b : Byte) : is.test b.toNat = isWs b :=
  is.agrees _ (Int.natCast_nonneg _) (by have := b.toNat_lt; omega)

theorem signed_char_of_lt {b : Byte} (h : b < 128) : signed_char b = b.toNat := if_pos h

/-- From 0x80 on the argument is negative. -/
theorem signed_char_neg {b : Byte} (h : ¬ b < 128) : signed_char b < 0 := by
  have hlt := b.toNat_lt
  rw [signed_char, if_neg h]
  omega

theorem lt_of_isWs {b : Byte} (h : isWs b = true) : b < 128 := by
  rw [isWs, isspace] at h
  simp only [Bool.or_eq_true, Bool.and_eq_true, beq_iff_eq, decide_eq_true_eq] at h
  rw [UInt8.lt_iff_toNat_lt]
  have h128 : (128 : Byte).toNat = 128 := rfl
  omega

/-- Bytes passed on as they are. -/
def unsigned (s : Str) : List Int := s.map fun b => (b.toNat : Int)

theorem unsigned_domain (s : Str) : ∀ c ∈ unsigned s, 0 ≤ c ∧ c ≤ 255 := by
  intro c hc
  obtain ⟨b, -, rfl⟩ := List.mem_map.mp hc
  have hlt := b.toNat_lt
  omega

section Search

variable (is : Isspace) {conv : Byte → Int}

/-- White space is passed over. -/
theorem find_visible_white {ws : Str} (hws : ∀ b ∈ ws, isWs b = true)
    (hconv : ∀ b ∈ ws, conv b = b.toNat) (s : Str) :
    find_visible is conv (ws ++ s)
      = (unsigned ws ++ (find_visible is conv s).1, (find_visible is conv s).2) := by
  induction ws with
  | nil => rfl
  | cons b ws ih =>
      obtain ⟨hb, hrest⟩ := List.forall_mem_cons.mp hws
      obtain ⟨hc, hcrest⟩ := List.forall_mem_cons.mp hconv
      have htest : is.test (conv b) = true := by rw [hc, test_toNat, hb]
      rw [List.cons_append, find_visible, if_pos htest, ih hrest hcrest, hc]
      rfl

/-- A visible byte that is passed on as it is ends the search. -/
theorem find_visible_hit {b : Byte} (hb : isWs b = false) (hc : conv b = b.toNat) (s : Str) :
    find_visible is conv (b :: s) = (unsigned [b], b :: s) := by
  have htest : is.test (conv b) = false := by rw [hc, test_toNat, hb]
  rw [find_visible, htest, hc]
  rfl

theorem head_mem_find_visible (conv : Byte → Int) (b : Byte) (s : Str) :
    conv b ∈ (find_visible is conv (b :: s)).1 := by
  rw [find_visible]
  split
  · exact List.mem_cons_self
  · exact List.mem_cons_self

end Search

section Trim

variable (is : Isspace) {ws t ws' : Str}

/-- A text of white space only. -/
theorem noted_trim_white (hws : ∀ b ∈ ws, isWs b = true) :
    noted_trim is ws = (unsigned ws, []) := by
  have hleft : noted_trim_l is ws = (unsigned ws, []) := by
    have hwhite := find_visible_white is hws (fun _ _ => rfl) []
    rwa [List.append_nil, find_visible, List.append_nil] at hwhite
  rw [noted_trim, hleft]
  show (unsigned ws ++ [], _) = _
  rw [List.append_nil]
  rfl

/-- The left trim asks for the white space and the first visible byte. -/
theorem noted_trim_l_core (hws : ∀ b ∈ ws, isWs b = true) (hfirst : ∀ b ∈ t.head?, isWs b = false)
    (hne : t ≠ []) :
    noted_trim_l is (ws ++ (t ++ ws')) = (unsigned (ws ++ t.take 1), t ++ ws') := by
  obtain ⟨a, t, rfl⟩ := List.exists_cons_of_ne_nil hne
  rw [noted_trim_l, find_visible_white is hws fun _ _ => rfl, List.cons_append,
    find_visible_hit is (hfirst a rfl) rfl]
  simp [unsigned]

/-- The right trim asks for the white space and goes on at the last visible byte. -/
theorem noted_trim_r_core {b : Byte} (hws' : ∀ b ∈ ws', isWs b = true) :
    noted_trim_r is (t ++ [b] ++ ws')
      = (unsigned ws'.reverse ++ (find_visible is signed_char (b :: t.reverse)).1,
          (find_visible is signed_char (b :: t.reverse)).2.reverse) := by
  have hwhite : ∀ c ∈ ws'.reverse, isWs c = true := fun c hc => hws' c (List.mem_reverse.mp hc)
  have hrev : (t ++ [b] ++ ws').reverse = ws'.reverse ++ (b :: t.reverse) := by simp
  rw [noted_trim_r, hrev, find_visible_white is hwhite fun c hc => signed_char_of_lt
    (lt_of_isWs (hwhite c hc))]

theorem noted_trim_core {b : Byte} (hws : ∀ b ∈ ws, isWs b = true)
    (hws' : ∀ b ∈ ws', isWs b = true) (hfirst : ∀ c ∈ (t ++ [b]).head?, isWs c = false) :
    noted_trim is (ws ++ (t ++ [b] ++ ws'))
      = (unsigned (ws ++ (t ++ [b]).take 1)
            ++ (unsigned ws'.reverse ++ (find_visible is signed_char (b :: t.reverse)).1),
          (find_visible is signed_char (b :: t.reverse)).2.reverse) := by
  have hleft : noted_trim_l is (ws ++ (t ++ [b] ++ ws')) = (_, t ++ [b] ++ ws') :=
    noted_trim_l_core is hws hfirst (by simp)
  simp only [noted_trim, hleft, noted_trim_r_core is hws']

end Trim

/-! ## The exact condition -/

/-- What is left is the core, a second trim leaves it alone, and every argument of
    `isspace` is in its domain. -/
structure TrimExact (is : Isspace) (s : Str) : Prop where
  core : Core s (noted_trim is s).2
  idem : (noted_trim is (noted_trim is s).2).2 = (noted_trim is s).2
  domain : ∀ c ∈ (noted_trim is s).1, 0 ≤ c ∧ c ≤ 255

theorem noted_trim_of_core (is : Isspace) {s t : Str} (h : Core s t)
    (hlast : ∀ b ∈ t.getLast?, b < 128) :
    (noted_trim is s).2 = t ∧ ∀ c ∈ (noted_trim is s).1, 0 ≤ c ∧ c ≤ 255 := by
  obtain ⟨ws, ws', rfl, hws, hws'⟩ := h.around
  rcases List.eq_nil_or_concat' t with rfl | ⟨front, b, rfl⟩
  · have hwhite : ∀ b ∈ ws ++ ([] ++ ws'), isWs b = true :=
      List.forall_mem_append.mpr ⟨hws, hws'⟩
    rw [noted_trim_white is hwhite]
    exact ⟨rfl, unsigned_domain _⟩
  · have hb : b ∈ (front ++ [b]).getLast? := by simp
    have hhit := find_visible_hit is (h.last b hb) (signed_char_of_lt (hlast b hb))
      front.reverse
    rw [noted_trim_core is hws hws' h.first, hhit]
    refine ⟨by simp, List.forall_mem_append.mpr ⟨unsigned_domain _, ?_⟩⟩
    exact List.forall_mem_append.mpr ⟨unsigned_domain _, unsigned_domain _⟩

/-- A core is its own core. -/
theorem Core.self {s t : Str} (h : Core s t) : Core t t :=
  ⟨⟨[], [], by simp, List.forall_mem_nil _, List.forall_mem_nil _⟩, h.first, h.last⟩

/-- **TRIMMING IS EXACT** on a text exactly when its last visible byte, if it has
    one, is below 0x80. -/
theorem trim_exact_iff (is : Isspace) (s : Str) :
    TrimExact is s ↔ ∀ b ∈ last_visible s, b < 128 := by
  obtain ⟨t, ht⟩ := exists_white_core s
  rw [last_visible_eq ht]
  constructor
  · intro hexact b hb
    by_contra hlarge
    obtain ⟨front, rfl⟩ := List.getLast?_eq_some_iff.mp hb
    obtain ⟨ws, ws', rfl, hws, hws'⟩ := ht.around
    have hdomain := hexact.domain
    rw [noted_trim_core is hws hws' ht.first] at hdomain
    -- the search from the right comes to that byte
    have hneg := signed_char_neg hlarge
    have hmem := head_mem_find_visible is signed_char b front.reverse
    have hin := hdomain (signed_char b) (by simp [hmem])
    omega
  · intro hlast
    obtain ⟨htrim, hdomain⟩ := noted_trim_of_core is ht hlast
    refine ⟨htrim ▸ ht, ?_, hdomain⟩
    rw [htrim]
    exact (noted_trim_of_core is ht.self hlast).1

/-- `isspace` as the tables of a library have it for a `char` too. -/
def table_isspace : Isspace := ⟨isspace, fun _ _ _ => rfl⟩

/-- A header value in UTF-8: the right trim asks for -87. -/
theorem negative_argument :
    (noted_trim table_isspace [32, 195, 169, 13]).1 = [32, 195, 13, -87]
      ∧ (noted_trim table_isspace [32, 195, 169, 13]).2 = [195, 169]
      ∧ ¬ TrimExact table_isspace [32, 195, 169, 13] := by
  refine ⟨by decide, by decide, fun h => ?_⟩
  exact absurd (h.domain (-87) (by decide)) (by decide)

end WebLib.Utils
