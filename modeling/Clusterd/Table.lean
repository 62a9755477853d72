import Mathlib.Data.List.Basic
/-!
# Tables in key order

A store iterated in key order, as a list of records whose keys ascend: `put` replaces the record of its key or inserts a new
one, `get?` reads one key, `erase` drops one.  Reading is the only observation the rest of the development makes (`get?_put`,
`get?_erase`, `get?_eq_some`).
-/
namespace Table

open List List.Pairwise

variable {α : Type} (key : α → Nat)

def get? (k : Nat) (t : List α) : Option α := t.find? (fun a => key a == k)

def put (a : α) : List α → List α
  | [] => [a]
  | b :: t => if key a < key b then a :: b :: t else if key a = key b then a :: t else b :: put a t

def erase (k : Nat) (t : List α) : List α := t.filter (fun a => !(key a == k))

def eraseAll (ks : List Nat) (t : List α) : List α := ks.foldl (fun t k => erase key k t) t

def Ascending (t : List α) : Prop := t.Pairwise (fun a b => key a < key b)

variable {key} {a : α} {k : Nat} {t : List α}

theorem mem_put {b : α} : ∀ {t : List α}, b ∈ put key a t → b = a ∨ b ∈ t
  | [], h => by simpa [put] using h
  | c :: t, h => by
    unfold put at h
    split at h
    · simpa using h
    split at h
    · rcases mem_cons.1 h with rfl | h
      · exact .inl rfl
      · exact .inr (mem_cons_of_mem _ h)
    · rcases mem_cons.1 h with rfl | h
      · exact .inr mem_cons_self
      · rcases mem_put h with rfl | h
        · exact .inl rfl
        · exact .inr (mem_cons_of_mem _ h)

theorem Ascending.put : ∀ {t : List α}, Ascending key t → Ascending key (Table.put key a t)
  | [], _ => by simp [Table.put, Ascending]
  | b :: t, h => by
    have hb := pairwise_cons.1 h
    unfold Table.put
    split
    next hab =>
      refine cons (fun c hc => ?_) h
      rcases mem_cons.1 hc with rfl | hc
      · exact hab
      · exact Nat.lt_trans hab (hb.1 c hc)
    · split
      next he =>
        exact cons (fun c hc => by rw [he]; exact hb.1 c hc) hb.2
      rename_i hne
      refine cons (fun c hc => ?_) (Ascending.put hb.2)
      rcases mem_put hc with rfl | hc
      · omega
      · exact hb.1 c hc

theorem Ascending.eraseAll : ∀ {ks : List Nat} {t : List α}, Ascending key t → Ascending key (Table.eraseAll key ks t)
  | [], _, h => h
  | j :: ks, t, h => by
    have hj : Ascending key (erase key j t) := filter _ h
    show Ascending key (Table.eraseAll key ks (erase key j t))
    exact Ascending.eraseAll hj

theorem mem_of_get? (h : get? key k t = some a) : a ∈ t ∧ key a = k :=
  ⟨mem_of_find?_eq_some h, by simpa using find?_some h⟩

/-- **A key read is the record of that key**, on ascending keys. -/
theorem get?_eq_some : ∀ {t : List α}, Ascending key t → (get? key k t = some a ↔ a ∈ t ∧ key a = k)
  | [], _ => by simp [get?]
  | b :: t, h => by
    have hb := pairwise_cons.1 h
    refine ⟨mem_of_get?, fun ⟨hm, hk⟩ => ?_⟩
    unfold get?
    rw [find?_cons]
    rcases mem_cons.1 hm with rfl | hm
    · simp [hk]
    have hne : (key b == k) = false := by
      have := hb.1 a hm
      simp; omega
    rw [hne]
    exact (get?_eq_some hb.2).2 ⟨hm, hk⟩

theorem get?_eq_none : get? key k t = none ↔ ∀ a ∈ t, key a ≠ k := by
  simp [get?]

theorem get?_put (a : α) (k : Nat) : ∀ (t : List α), Ascending key t →
    get? key k (put key a t) = if k = key a then some a else get? key k t
  | [], _ => by
    by_cases hk : k = key a
    · simp [put, get?, hk]
    · simp [put, get?, hk, Ne.symm hk]
  | b :: t, h => by
    have hb := pairwise_cons.1 h
    have hc : ∀ (c : α) (s : List α), get? key k (c :: s) = if k = key c then some c else get? key k s := by
      intro c s
      unfold get?
      by_cases hk : k = key c
      · simp [hk]
      · have : (key c == k) = false := by simpa using Ne.symm hk
        simp [hk, this]
    unfold put
    split
    · rw [hc]
    split
    next he =>
      rw [hc, hc, he]
      split <;> rfl
    rename_i hne
    rw [hc, get?_put a k t hb.2, hc]
    by_cases hka : k = key a
    · have : k ≠ key b := by rw [hka]; exact hne
      rw [if_neg this, if_pos hka, if_pos hka]
    · rw [if_neg hka, if_neg hka]

theorem get?_erase (j k : Nat) (t : List α) : get? key k (erase key j t) = if k = j then none else get? key k t := by
  unfold erase get?
  rw [find?_filter]
  by_cases hk : k = j
  · subst hk
    simp
  rw [if_neg hk]
  congr 1
  funext a
  by_cases ha : key a = k
  · simp [ha, hk]
  · have : (key a == k) = false := by simpa using ha
    simp [this]

theorem get?_eraseAll (k : Nat) : ∀ (ks : List Nat) (t : List α),
    get? key k (eraseAll key ks t) = if k ∈ ks then none else get? key k t
  | [], t => by simp [eraseAll]
  | j :: ks, t => by
    show get? key k (eraseAll key ks (erase key j t)) = _
    rw [get?_eraseAll k ks, get?_erase]
    by_cases hj : k = j
    · simp [hj]
    · simp [hj]

end Table
