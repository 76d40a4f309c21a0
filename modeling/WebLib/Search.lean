import Mathlib

/-! # Searching a sequence for a pattern

    First-occurrence search over an arbitrary alphabet, positions counted from
    the left.  The fact a streaming reader needs is STABILITY: an occurrence
    found in a prefix stays the first one whatever is appended. -/

namespace WebLib.Search

variable {α : Type*} [DecidableEq α]

/-- Position of the first occurrence of `pat`. -/
def find (pat : List α) : List α → Option Nat
  | [] => if pat = [] then some 0 else none
  | a :: s => if pat <+: a :: s then some 0 else (find pat s).map (· + 1)

private theorem find_cons (pat : List α) (a : α) (s : List α) :
    find pat (a :: s)
      = if pat <+: a :: s then some 0 else (find pat s).map (· + 1) := rfl

/-- **FIRST OCCURRENCE**: what a successful search says about its position. -/
theorem find_eq_some_iff {pat s : List α} {i : Nat} :
    find pat s = some i
      ↔ i ≤ s.length ∧ pat <+: s.drop i ∧ ∀ j < i, ¬ pat <+: s.drop j := by
  induction s generalizing i with
  | nil =>
      by_cases hp : pat = []
      · subst hp
        simp only [find, if_pos, Option.some.injEq, List.length_nil, Nat.le_zero]
        constructor
        · rintro rfl
          exact ⟨rfl, List.nil_prefix, fun j hj => absurd hj (Nat.not_lt_zero j)⟩
        · rintro ⟨rfl, -, -⟩
          rfl
      · simp [find, hp]
  | cons a s ih =>
      rw [find_cons]
      by_cases h0 : pat <+: a :: s
      · rw [if_pos h0, Option.some.injEq]
        constructor
        · rintro rfl
          exact ⟨Nat.zero_le _, h0, fun j hj => absurd hj (Nat.not_lt_zero j)⟩
        · rintro ⟨-, -, hmin⟩
          by_contra hne
          exact hmin 0 (by omega) h0
      -- not at the head: the first occurrence is the first one of the tail
      · rw [if_neg h0, Option.map_eq_some_iff]
        constructor
        · rintro ⟨k, hk, rfl⟩
          obtain ⟨hle, hpre, hmin⟩ := ih.mp hk
          refine ⟨Nat.succ_le_succ hle, hpre, ?_⟩
          intro j hj
          cases j with
          | zero => exact h0
          | succ j => exact hmin j (by omega)
        · rintro ⟨hle, hpre, hmin⟩
          cases i with
          | zero => exact absurd hpre h0
          | succ k =>
              refine ⟨k, ih.mpr ⟨Nat.le_of_succ_le_succ hle, hpre, ?_⟩, rfl⟩
              intro j hj
              exact hmin (j + 1) (Nat.succ_lt_succ hj)

/-- A failed search: the pattern occurs nowhere. -/
theorem find_eq_none_iff {pat s : List α} :
    find pat s = none ↔ ¬ pat <:+: s := by
  induction s with
  | nil => simp [find]
  | cons a s ih => by_cases h0 : pat <+: a :: s <;> simp [find_cons, h0, ih, List.infix_cons_iff]

theorem find_le_length {pat s : List α} {i : Nat} (h : find pat s = some i) :
    i + pat.length ≤ s.length := by
  obtain ⟨hle, hpre, -⟩ := find_eq_some_iff.mp h
  have := hpre.length_le
  rw [List.length_drop] at this
  omega

/-- A found pattern splits the sequence at its position. -/
theorem find_split {pat s : List α} {i : Nat} (h : find pat s = some i) :
    s = s.take i ++ (pat ++ s.drop (i + pat.length)) := by
  obtain ⟨-, ⟨t, ht⟩, -⟩ := find_eq_some_iff.mp h
  have hd : s.drop (i + pat.length) = t := by
    rw [← List.drop_drop, ← ht, List.drop_left]
  rw [hd, ht, List.take_append_drop]

/-- **STABILITY**: an occurrence found in a prefix stays the first one. -/
theorem find_append_of_some {pat s : List α} {i : Nat} (t : List α)
    (h : find pat s = some i) : find pat (s ++ t) = some i := by
  have hfit := find_le_length h
  obtain ⟨hle, hpre, hmin⟩ := find_eq_some_iff.mp h
  refine find_eq_some_iff.mpr ⟨by rw [List.length_append]; omega, ?_, ?_⟩
  · rw [List.drop_append_of_le_length hle]
    exact hpre.trans (List.prefix_append _ _)
  -- an earlier occurrence in the whole text would fit into `s` already
  · intro j hj hc
    rw [List.drop_append_of_le_length (by omega)] at hc
    refine hmin j hj (List.prefix_of_prefix_length_le hc (List.prefix_append _ _) ?_)
    rw [List.length_drop]
    omega

/-- A pattern's prefix occurs no later than the pattern. -/
theorem find_prefix (pre : List α) {pat s : List α} {i : Nat} (hp : pre <+: pat)
    (h : find pat s = some i) : ∃ j ≤ i, find pre s = some j := by
  obtain ⟨-, hpre, -⟩ := find_eq_some_iff.mp h
  cases hs : find pre s with
  | none =>
      exact absurd ((hp.trans hpre).isInfix.trans (List.drop_suffix i s).isInfix)
        (find_eq_none_iff.mp hs)
  | some j =>
      refine ⟨j, ?_, rfl⟩
      by_contra hlt
      exact (find_eq_some_iff.mp hs).2.2 i (by omega) (hp.trans hpre)

/-- Text free of the pattern's first letter is skipped. -/
theorem find_append_of_head_notMem {c : α} {p l : List α} (s : List α)
    (h : c ∉ l) : find (c :: p) (l ++ s) = (find (c :: p) s).map (· + l.length) := by
  induction l with
  | nil => simp
  | cons a l ih =>
      have hne : ¬ c :: p <+: a :: (l ++ s) := by
        intro hp
        rw [List.cons_prefix_cons] at hp
        exact h (hp.1 ▸ List.mem_cons_self)
      have hl : c ∉ l := fun hm => h (List.mem_cons_of_mem _ hm)
      rw [List.cons_append, find_cons, if_neg hne, ih hl, Option.map_map]
      congr 1

/-- No occurrence reaches over a letter that the pattern does not have. -/
theorem find_append_cons_of_notMem {c : α} {pat l : List α} (s : List α) (hne : pat ≠ [])
    (hc : c ∉ pat) (h : ¬ pat <:+: l) :
    find pat (l ++ c :: s) = (find pat s).map (· + (l.length + 1)) := by
  have hstop : ∀ l' : List α, ¬ pat <+: l' → ¬ pat <+: l' ++ c :: s := by
    intro l' hl' hp
    have hlong : l' ++ [c] <+: l' ++ c :: s := ⟨s, by simp⟩
    rcases List.prefix_or_prefix_of_prefix hp hlong with hpre | hpre
    · rcases List.prefix_concat_iff.mp hpre with heq | hpre
      · exact hc (heq ▸ by simp)
      · exact hl' hpre
    · exact hc (hpre.subset (by simp))
  induction l with
  | nil =>
      have hstep : ¬ pat <+: c :: s := hstop [] fun hp => hne (List.prefix_nil.mp hp)
      rw [List.nil_append, find_cons, if_neg hstep]
      rfl
  | cons a l ih =>
      have hl : ¬ pat <:+: l := fun hi => h (hi.trans (List.suffix_cons a l).isInfix)
      have hstep : ¬ pat <+: a :: (l ++ c :: s) := hstop (a :: l) fun hp => h hp.isInfix
      rw [List.cons_append, find_cons, if_neg hstep, ih hl, Option.map_map]
      congr 1

/-- A single letter: the text before the first one is free of it. -/
theorem find_singleton_eq_some_iff {c : α} {s : List α} {i : Nat} :
    find [c] s = some i ↔ ∃ a b, s = a ++ c :: b ∧ c ∉ a ∧ a.length = i := by
  constructor
  · intro h
    refine ⟨s.take i, s.drop (i + 1), find_split h, ?_, ?_⟩
    · intro hm
      obtain ⟨j, hj, hget⟩ := List.mem_iff_getElem.mp hm
      rw [List.length_take] at hj
      refine (find_eq_some_iff.mp h).2.2 j (by omega) ?_
      rw [List.getElem_take] at hget
      rw [List.drop_eq_getElem_cons (by omega), hget]
      exact ⟨_, rfl⟩
    · have := find_le_length h
      rw [List.length_take]
      omega
  · rintro ⟨a, b, rfl, ha, rfl⟩
    rw [find_append_of_head_notMem _ ha, find_cons, if_pos ⟨b, rfl⟩]
    simp

theorem find_singleton_eq_none_iff {c : α} {s : List α} :
    find [c] s = none ↔ c ∉ s := by
  rw [find_eq_none_iff, List.singleton_infix_iff]

/-- The element behind a text without it is the first one. -/
theorem find_singleton_append {c : α} {l : List α} (h : c ∉ l) (s : List α) :
    find [c] (l ++ c :: s) = some l.length :=
  find_singleton_eq_some_iff.mpr ⟨l, s, rfl, h, rfl⟩

/-- Two splits at the first of a letter are one. -/
theorem first_split_unique {c : α} {a b a' b' : List α} (ha : c ∉ a) (ha' : c ∉ a')
    (h : a ++ c :: b = a' ++ c :: b') : a = a' ∧ b = b' := by
  have hlen := find_singleton_append ha b
  rw [h, find_singleton_append ha' b'] at hlen
  obtain ⟨hl, hr⟩ := List.append_inj h (Option.some.inj hlen).symm
  exact ⟨hl, (List.cons.inj hr).2⟩

omit [DecidableEq α] in
theorem drop_past (l : List α) (c : α) (s : List α) : (l ++ c :: s).drop (l.length + 1) = s := by
  rw [List.drop_length_add_append]
  rfl

/-! ## The first answer of a list, in any order -/

omit [DecidableEq α] in
/-- **ORDER OF ANSWERS**: the first answer is the same in every order exactly when
    all answers are the same. -/
theorem findSome?_perm_iff {β : Type*} {f : α → Option β} {l : List α} :
    (∀ l' : List α, l'.Perm l → l'.findSome? f = l.findSome? f)
      ↔ ∀ a ∈ l, ∀ b ∈ l, ∀ x y, f a = some x → f b = some y → x = y := by
  constructor
  · intro hsame
    -- any element can be moved to the front
    have hfront : ∀ a ∈ l, ∀ x, f a = some x → l.findSome? f = some x := by
      intro a ha x hx
      obtain ⟨s, t, rfl⟩ := List.append_of_mem ha
      rw [← hsame (a :: (s ++ t)) List.perm_middle.symm, List.findSome?_cons_of_isSome (by simp [hx]),
        hx]
    intro a ha b hb x y hx hy
    exact Option.some.inj ((hfront a ha x hx).symm.trans (hfront b hb y hy))
  · intro hall l' hperm
    cases hl : l.findSome? f with
    | none =>
        rw [List.findSome?_eq_none_iff] at hl ⊢
        exact fun a ha => hl a (hperm.mem_iff.mp ha)
    | some x =>
        obtain ⟨a, ha, hx⟩ := List.exists_of_findSome?_eq_some hl
        have hsome : (l'.findSome? f).isSome = true :=
          List.findSome?_isSome_iff.mpr ⟨a, hperm.mem_iff.mpr ha, by rw [hx]; rfl⟩
        obtain ⟨y, hy⟩ := Option.isSome_iff_exists.mp hsome
        obtain ⟨b, hb, hy'⟩ := List.exists_of_findSome?_eq_some hy
        rw [hy, hall b (hperm.mem_iff.mp hb) a ha y x hy' hx]

omit [DecidableEq α] in
/-- The first answer of a guarded function is that of the first guarded element. -/
theorem findSome?_ite {β : Type*} (p : α → Prop) [DecidablePred p] (f : α → β) (l : List α) :
    (l.findSome? fun a => if p a then some (f a) else none) = (l.find? fun a => p a).map f := by
  induction l with
  | nil => rfl
  | cons a l ih =>
      by_cases h : p a
      · simp [h]
      · simp [h, ih]

omit [DecidableEq α] in
/-- With different keys every element is the first one with its key. -/
theorem find?_of_nodup_map {β : Type*} [DecidableEq β] {key : α → β} {l : List α}
    (h : (l.map key).Nodup) {a : α} (ha : a ∈ l) : l.find? (fun z => key z = key a) = some a := by
  cases hf : l.find? fun z => key z = key a with
  | none => exact absurd (decide_eq_true rfl) (List.find?_eq_none.mp hf a ha)
  | some z =>
      have hz : key z = key a := by simpa using List.find?_some hf
      rw [List.inj_on_of_nodup_map h (List.mem_of_find?_eq_some hf) ha hz]

end WebLib.Search
