import Mathlib

/-! # Unordered maps with unique keys

    `std::unordered_map` as an association list that carries the uniqueness of
    its keys.  Each operation comes with one lookup equation, so that later
    proofs never unfold an operation. -/

namespace WebLib

/-- A finite map; the order of `entries` is one iteration order of the table. -/
abbrev UnorderedMap (κ ν : Type*) := AList (fun _ : κ => ν)

namespace UnorderedMap

variable {κ ν : Type*} [DecidableEq κ]

/-- `find`. -/
abbrev find (m : UnorderedMap κ ν) (k : κ) : Option ν := m.lookup k

/-- `emplace`: a present key keeps its value. -/
def emplace (m : UnorderedMap κ ν) (k : κ) (v : ν) : UnorderedMap κ ν :=
  if k ∈ m then m else m.insert k v

/-- Assignment through `operator[]`: the value is replaced. -/
abbrev assign (m : UnorderedMap κ ν) (k : κ) (v : ν) : UnorderedMap κ ν :=
  m.insert k v

/-- `size`. -/
def size (m : UnorderedMap κ ν) : Nat := m.entries.length

theorem find_assign (m : UnorderedMap κ ν) (k k' : κ) (v : ν) :
    (m.assign k v).find k' = if k' = k then some v else m.find k' := by
  by_cases h : k' = k
  · subst h
    rw [if_pos rfl]
    exact AList.lookup_insert m
  · rw [if_neg h]
    exact AList.lookup_insert_ne h

theorem find_erase (m : UnorderedMap κ ν) (k k' : κ) :
    find (m.erase k) k' = if k' = k then none else m.find k' := by
  by_cases h : k' = k
  · subst h
    rw [if_pos rfl]
    exact AList.lookup_erase k' m
  · rw [if_neg h]
    exact AList.lookup_erase_ne h

theorem mem_iff_find {m : UnorderedMap κ ν} {k : κ} :
    k ∈ m ↔ ∃ v, m.find k = some v := by
  rw [← AList.lookup_isSome, Option.isSome_iff_exists]

theorem find_eq_none_iff {m : UnorderedMap κ ν} {k : κ} :
    m.find k = none ↔ k ∉ m := AList.lookup_eq_none

theorem find_emplace (m : UnorderedMap κ ν) (k k' : κ) (v : ν) :
    (m.emplace k v).find k'
      = if k' = k then some ((m.find k).getD v) else m.find k' := by
  rw [emplace]
  by_cases hk : k ∈ m
  · obtain ⟨w, hw⟩ := mem_iff_find.mp hk
    rw [if_pos hk, hw]
    by_cases h : k' = k
    · rw [if_pos h, h, hw, Option.getD_some]
    · rw [if_neg h]
  · rw [if_neg hk, find_assign, find_eq_none_iff.mpr hk, Option.getD_none]

theorem mem_emplace {m : UnorderedMap κ ν} {k k' : κ} {v : ν} :
    k' ∈ m.emplace k v ↔ k' = k ∨ k' ∈ m := by
  rw [mem_iff_find, find_emplace]
  by_cases h : k' = k
  · simp [h]
  · simp [h, mem_iff_find]

theorem emplace_of_mem {m : UnorderedMap κ ν} {k : κ} (v : ν) (h : k ∈ m) :
    m.emplace k v = m := if_pos h

theorem mem_entries_iff {m : UnorderedMap κ ν} {k : κ} {v : ν} :
    (⟨k, v⟩ : Sigma fun _ : κ => ν) ∈ m.entries ↔ m.find k = some v := AList.mem_lookup_iff.symm

theorem size_emplace_of_notMem {m : UnorderedMap κ ν} {k : κ} (v : ν) (h : k ∉ m) :
    (m.emplace k v).size = m.size + 1 := by
  rw [emplace, if_neg h, size, size, AList.entries_insert_of_notMem h, List.length_cons]

omit [DecidableEq κ] in
/-- A map with all the keys of one of its size has no others. -/
theorem mem_of_size_eq {m m' : UnorderedMap κ ν} (hsize : m.size = m'.size)
    (h : ∀ k ∈ m, k ∈ m') : ∀ k ∈ m', k ∈ m := by
  intro k hk
  have hsub : m.keys ⊆ m'.keys := fun k hk => h k hk
  have hlen : m'.keys.length ≤ m.keys.length := by
    simp only [AList.keys, List.keys, List.length_map]
    exact Nat.le_of_eq hsize.symm
  exact (((m.keys_nodup).subperm hsub).perm_of_length_le hlen).mem_iff.mpr hk

omit [DecidableEq κ] in
/-- Maps with the same keys have the same size. -/
theorem size_eq_of_mem_iff {m m' : UnorderedMap κ ν} (h : ∀ k, k ∈ m ↔ k ∈ m') :
    m.size = m'.size := by
  have hperm : m.keys.Perm m'.keys :=
    (List.perm_ext_iff_of_nodup m.keys_nodup m'.keys_nodup).mpr h
  have hlen := hperm.length_eq
  simp only [AList.keys, List.keys, List.length_map] at hlen
  exact hlen

@[simp] theorem find_empty (k : κ) : find (∅ : UnorderedMap κ ν) k = none := rfl

end UnorderedMap

end WebLib
