import WebLib.UnorderedMap

/-! # Maps read through a fold of their keys

    A reader that folds the key it looks up, as one that ignores letter case
    does, sees the entries under folded keys and no others.  An entry under a
    key that is not folded is invisible, and so is its overwriting.  The two
    results say when a reader sees what was written. -/

namespace WebLib.FoldedKeys

open UnorderedMap

variable {κ ν : Type*} [DecidableEq κ] {fold : κ → κ}

/-- A lookup of the folded key. -/
def read (fold : κ → κ) (m : UnorderedMap κ ν) (k : κ) : Option ν := m.find (fold k)

theorem read_congr {m : UnorderedMap κ ν} {k k' : κ} (h : fold k = fold k') :
    read fold m k = read fold m k' := by
  rw [read, read, h]

theorem read_assign (m : UnorderedMap κ ν) (n k : κ) (v : ν) :
    read fold (m.assign n v) k = if fold k = n then some v else read fold m k :=
  find_assign m n (fold k) v

/-- **READING BACK**: an entry is read under its own key exactly when the key is
    folded, or the folded key has the same value. -/
theorem read_eq_some_iff (fold : κ → κ) {m : UnorderedMap κ ν} {k : κ} {v : ν}
    (h : m.find k = some v) : read fold m k = some v ↔ fold k = k ∨ m.find (fold k) = some v := by
  constructor
  · exact Or.inr
  · rintro (hfold | hfold)
    · rw [read, hfold, h]
    · exact hfold

/-- `m'` reads as `m` with the value `v` for the keys that fold as `n` does. -/
structure Overwrites (fold : κ → κ) (m m' : UnorderedMap κ ν) (n : κ) (v : ν) : Prop where
  same : ∀ k, fold k = fold n → read fold m' k = some v
  others : ∀ k, fold k ≠ fold n → read fold m' k = read fold m k

/-- **READ AFTER WRITE**: an assignment is one for the reader exactly when its key
    is folded, or the reader had the value before. -/
theorem overwrites_assign_iff (hidem : ∀ k, fold (fold k) = fold k) {m : UnorderedMap κ ν} {n : κ}
    {v : ν} :
    Overwrites fold m (m.assign n v) n v ↔ fold n = n ∨ read fold m n = some v := by
  constructor
  · intro h
    refine or_iff_not_imp_left.mpr fun hn => ?_
    have hread := h.same n rfl
    rwa [read_assign, if_neg hn] at hread
  · intro h
    by_cases hn : fold n = n
    · refine ⟨fun k hk => ?_, fun k hk => ?_⟩
      · rw [read_assign, if_pos (hk.trans hn)]
      · rw [read_assign, if_neg fun he => hk (he.trans hn.symm)]
    · have hread := h.resolve_left hn
      -- no key folds to one that is not folded
      have hnever : ∀ k, fold k ≠ n := by
        rintro k rfl
        exact hn (hidem k)
      refine ⟨fun k hk => ?_, fun k hk => ?_⟩
      · rw [read_assign, if_neg (hnever k), read_congr hk, hread]
      · rw [read_assign, if_neg (hnever k)]

/-- A map that reads as a store indexed by folded keys goes on doing so. -/
theorem Overwrites.read_update {m m' : UnorderedMap κ ν} {n : κ} {v : ν} {store : κ → Option ν}
    (h : Overwrites fold m m' n v) (hm : ∀ k, read fold m k = store (fold k)) :
    ∀ k, read fold m' k = Function.update store (fold n) (some v) (fold k) := by
  intro k
  by_cases hk : fold k = fold n
  · rw [h.same k hk, hk, Function.update_self]
  · rw [h.others k hk, hm, Function.update_of_ne hk]

end WebLib.FoldedKeys
