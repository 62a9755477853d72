import Mathlib.Data.List.Perm.Basic
import Mathlib.Data.List.Nodup
/-!
# Lists whose elements have distinct keys

An element is found, replaced where it stands, or taken out by its key.  Up to order, each of these is told by the element and
the others.
-/
namespace Keyed

open List

variable {α κ : Type} [DecidableEq κ] {key : α → κ} {l l' : List α} {a b : α} {k : κ}

theorem mem_of_find? (h : l.find? (key · == k) = some a) : a ∈ l ∧ key a = k :=
  ⟨mem_of_find?_eq_some h, by simpa using find?_some h⟩

theorem find?_eq_none : l.find? (key · == k) = none ↔ ∀ a ∈ l, key a ≠ k := by
  simp

variable (hd : (l.map key).Nodup)
include hd

/-- **The element of a key is the one that has it.** -/
theorem find?_eq_some_iff : l.find? (key · == k) = some a ↔ a ∈ l ∧ key a = k := by
  refine ⟨mem_of_find?, fun ⟨hmem, hkey⟩ => ?_⟩
  cases hf : l.find? (key · == k) with
  | none => exact absurd hkey (find?_eq_none.1 hf a hmem)
  | some =>
    obtain ⟨hb, hbk⟩ := mem_of_find? hf
    rw [inj_on_of_nodup_map hd hb hmem (hbk.trans hkey.symm)]

theorem find?_perm (h : l.Perm l') : l.find? (key · == k) = l'.find? (key · == k) := by
  have hd' : (l'.map key).Nodup := (h.map key).nodup_iff.1 hd
  ext a
  rw [find?_eq_some_iff hd, find?_eq_some_iff hd', h.mem_iff]

/-- **An element found is the first of some order of the list**, and no other has its key. -/
theorem perm_of_find? (h : l.find? (key · == k) = some a) :
    l.Perm (a :: l.eraseP (key · == k)) ∧ ∀ b ∈ l.eraseP (key · == k), key b ≠ k := by
  obtain ⟨hmem, hkey⟩ := mem_of_find? h
  obtain ⟨b, before, after, _, hb, rfl, he⟩ := exists_of_eraseP hmem (p := (key · == k)) (by simpa using hkey)
  have hba : b = a := by
    have hbm : b ∈ before ++ b :: after := mem_append_right _ mem_cons_self
    exact inj_on_of_nodup_map hd hbm hmem ((by simpa using hb : key b = k).trans hkey.symm)
  subst hba
  rw [he]
  refine ⟨perm_middle, fun _ hc hck => ?_⟩
  have hn := (perm_middle.map key).nodup_iff.1 hd
  rw [map_cons, nodup_cons] at hn
  exact hn.1 (by rw [hkey, ← hck]; exact mem_map_of_mem hc)

theorem find?_cons_new (h : l.find? (key · == key b) = none) (hpe : l'.Perm (b :: l)) :
    (l'.map key).Nodup ∧ ∀ k, l'.find? (key · == k) = if k = key b then some b else l.find? (key · == k) := by
  have hn : ((b :: l).map key).Nodup := by
    rw [map_cons, nodup_cons]
    refine ⟨fun hmem => ?_, hd⟩
    obtain ⟨c, hc, hck⟩ := mem_map.1 hmem
    exact find?_eq_none.1 h c hc hck
  refine ⟨(hpe.map key).nodup_iff.2 hn, fun k => ?_⟩
  rw [find?_perm ((hpe.map key).nodup_iff.2 hn) hpe, find?_cons]
  by_cases hk : k = key b
  · subst hk
    simp
  · rw [if_neg hk]
    have h1 : (key b == k) = false := by simpa using fun heq => hk heq.symm
    rw [h1]

theorem find?_eraseP (k j : κ) :
    (l.eraseP (key · == k)).find? (key · == j) = if j = k then none else l.find? (key · == j) := by
  cases hf : l.find? (key · == k) with
  | none =>
    rw [eraseP_of_forall_not (by simpa using hf)]
    split_ifs with hj
    · rw [hj, hf]
    · rfl
  | some a =>
    obtain ⟨hold, ho⟩ := perm_of_find? hd hf
    have hkey := (mem_of_find? hf).2
    by_cases hj : j = k
    · rw [if_pos hj, find?_eq_none, hj]
      exact ho
    · rw [if_neg hj, find?_perm hd hold, find?_cons]
      have h1 : (key a == j) = false := by simpa [hkey] using fun heq => hj heq.symm
      rw [h1]

theorem find?_cons_eraseP (hpe : l'.Perm (b :: l.eraseP (key · == key b))) :
    (l'.map key).Nodup ∧ ∀ k, l'.find? (key · == k) = if k = key b then some b else l.find? (key · == k) := by
  have hfi := find?_eraseP hd (key b)
  have hd' : ((l.eraseP (key · == key b)).map key).Nodup := hd.sublist (eraseP_sublist.map key)
  obtain ⟨hn, hl⟩ := find?_cons_new hd' ((hfi _).trans (if_pos rfl)) hpe
  refine ⟨hn, fun k => (hl k).trans ?_⟩
  split_ifs with hk
  · rfl
  · rw [hfi, if_neg hk]

end Keyed
