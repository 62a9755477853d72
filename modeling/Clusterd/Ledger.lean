import Mathlib.Algebra.Order.BigOperators.Group.List
import Mathlib.Algebra.Order.Ring.Int
import Mathlib.Data.List.AList
/-! # What a table holds, and sums over its values -/

namespace Ledger

open List

variable {κ β : Type} [DecidableEq κ] {table : AList fun _ : κ => β} (f : β → Int)

theorem lookup_insert_some {j k : κ} {b c : β} :
    (table.insert k b).lookup j = some c ↔ j = k ∧ b = c ∨ j ≠ k ∧ table.lookup j = some c := by
  rcases eq_or_ne j k with rfl | hne
  · simp
  · simp [hne]

theorem lookup_erase_some {j k : κ} {c : β} : (table.erase k).lookup j = some c ↔ j ≠ k ∧ table.lookup j = some c := by
  rcases eq_or_ne j k with rfl | hne
  · simp
  · simp [hne]

section

variable (f : β → Int) (table : AList fun _ : κ => β)

def total : Int := (table.entries.map fun entry => f entry.2).sum

def share (k : κ) : Int := ((table.lookup k).map f).getD 0

end

section
variable (table : AList fun _ : κ => β) (k : κ)

theorem total_kerase : ((table.entries.kerase k).map fun entry => f entry.2).sum = total f table - share f table k := by
  unfold total share
  by_cases hmem : k ∈ table.entries.keys
  · obtain ⟨b, _, _, -, he, hk⟩ := exists_of_kerase hmem
    have hl : table.lookup k = some b := by
      refine (AList.mem_lookup_iff).2 ?_
      rw [he]
      exact mem_append_right _ mem_cons_self
    rw [hk, he, hl]
    simp only [map_append, map_cons, sum_append, sum_cons, Option.map_some, Option.getD_some]
    omega
  · rw [kerase_of_notMem_keys hmem, AList.lookup_eq_none.2 hmem]
    simp

/-- **A value replaced.** -/
theorem total_insert (b : β) : total f (table.insert k b) = total f table - share f table k + f b := by
  have he : (table.insert k b).entries = ⟨k, b⟩ :: table.entries.kerase k := rfl
  rw [← total_kerase, total, he, map_cons, sum_cons, add_comm]

/-- **A value taken away.** -/
theorem total_erase : total f (table.erase k) = total f table - share f table k := total_kerase f table k

end

omit [DecidableEq κ] in
theorem total_nonneg {f : β → Int} (hf : ∀ entry ∈ table.entries, 0 ≤ f entry.2) : 0 ≤ total f table := by
  refine sum_nonneg fun _ hn => ?_
  obtain ⟨entry, hen, rfl⟩ := mem_map.1 hn
  exact hf entry hen

theorem share_le_total {f : β → Int} (hf : ∀ entry ∈ table.entries, 0 ≤ f entry.2) (k : κ) :
    share f table k ≤ total f table := by
  have hr : 0 ≤ total f (table.erase k) := total_nonneg fun entry hen => hf entry ((kerase_sublist k _).subset hen)
  rw [total_erase] at hr
  omega

end Ledger
