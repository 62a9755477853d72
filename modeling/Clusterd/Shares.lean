import Mathlib.Data.Finset.Basic
/-! # A set shared out among owners: every element has exactly one -/

namespace Shares

open Function Finset

variable {κ α : Type} [DecidableEq κ] [DecidableEq α]

structure Shared (whole : Finset α) (share : κ → Finset α) : Prop where
  mem_iff : ∀ a, a ∈ whole ↔ ∃ k, a ∈ share k
  unique : ∀ {j k : κ} {a : α}, a ∈ share j → a ∈ share k → j = k

variable {whole : Finset α} {share : κ → Finset α}

omit [DecidableEq κ] [DecidableEq α] in
theorem shared_empty : Shared (∅ : Finset α) fun _ : κ => ∅ where
  mem_iff a := ⟨fun h => absurd h (notMem_empty a), fun ⟨_, h⟩ => h⟩
  unique h _ := absurd h (notMem_empty _)

omit [DecidableEq κ] [DecidableEq α] in
theorem Shared.subset (h : Shared whole share) (k : κ) : share k ⊆ whole := fun a ha => (h.mem_iff a).mpr ⟨k, ha⟩

omit [DecidableEq κ] [DecidableEq α] in
theorem Shared.disjoint (h : Shared whole share) {j k : κ} (hjk : j ≠ k) : Disjoint (share j) (share k) :=
  disjoint_left.mpr fun _ hj hk => hjk (h.unique hj hk)

variable (h : Shared whole share) (k : κ)
include h k

theorem Shared.give {more : Finset α} (hf : Disjoint whole more) :
    Shared (whole ∪ more) (update share k (share k ∪ more)) where
  mem_iff a := by
    rw [mem_union, h.mem_iff]
    constructor
    · rintro (⟨j, hj⟩ | ha)
      · by_cases hjk : j = k
        · subst hjk
          exact ⟨j, by rw [update_self]; exact mem_union_left _ hj⟩
        · exact ⟨j, by rw [update_of_ne hjk]; exact hj⟩
      · exact ⟨k, by rw [update_self]; exact mem_union_right _ ha⟩
    · rintro ⟨j, hj⟩
      by_cases hjk : j = k
      · subst hjk
        rw [update_self] at hj
        exact (mem_union.mp hj).imp (fun hj => ⟨j, hj⟩) id
      · rw [update_of_ne hjk] at hj
        exact .inl ⟨j, hj⟩
  unique := by
    intro i j a hi hj
    have hc : ∀ {l : κ}, a ∈ update share k (share k ∪ more) l → a ∈ share l ∨ l = k ∧ a ∈ more := by
      intro l hl
      by_cases hlk : l = k
      · subst hlk
        rw [update_self] at hl
        exact (mem_union.mp hl).imp id fun ha => ⟨rfl, ha⟩
      · rw [update_of_ne hlk] at hl
        exact .inl hl
    rcases hc hi with hi' | ⟨hik, hi'⟩ <;> rcases hc hj with hj' | ⟨hjk, hj'⟩
    · exact h.unique hi' hj'
    · exact absurd hj' (disjoint_left.mp hf (h.subset i hi'))
    · exact absurd hi' (disjoint_left.mp hf (h.subset j hj'))
    · exact hik.trans hjk.symm

theorem Shared.take {less : Finset α} (hl : less ⊆ share k) :
    Shared (whole \ less) (update share k (share k \ less)) where
  mem_iff a := by
    rw [mem_sdiff, h.mem_iff]
    constructor
    · rintro ⟨⟨j, hj⟩, ha⟩
      by_cases hjk : j = k
      · subst hjk
        exact ⟨j, by rw [update_self]; exact mem_sdiff.mpr ⟨hj, ha⟩⟩
      · exact ⟨j, by rw [update_of_ne hjk]; exact hj⟩
    · rintro ⟨j, hj⟩
      by_cases hjk : j = k
      · subst hjk
        rw [update_self] at hj
        exact ⟨⟨j, (mem_sdiff.mp hj).1⟩, (mem_sdiff.mp hj).2⟩
      · rw [update_of_ne hjk] at hj
        exact ⟨⟨j, hj⟩, fun ha => hjk (h.unique hj (hl ha))⟩
  unique := by
    intro i j _ hi hj
    have hle : ∀ l, update share k (share k \ less) l ⊆ share l := by
      intro l
      by_cases hlk : l = k
      · subst hlk
        rw [update_self]
        exact sdiff_subset
      · rw [update_of_ne hlk]
    exact h.unique (hle i hi) (hle j hj)

omit [DecidableEq α] in
theorem Shared.keep {same : Finset α} (hsa : same = share k) : Shared whole (update share k same) := by
  rw [hsa, update_eq_self]
  exact h

end Shares
