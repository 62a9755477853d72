import Mathlib.Data.Fintype.Card
/-!
# Counting voters

`Tally A n P`: at least `n` voters of the set `A` satisfy `P`.  A tally grows when one more voter is heard from and when
`P` is weakened (`Tally.insert`, `Tally.mono`).  A quorum is a tally over all voters; two quorums that together are more
than all voters share one (`Quorum.inter`).
-/

def Tally {ρ : Type} (A : Finset ρ) (n : Nat) (P : ρ → Prop) : Prop :=
  ∃ S ⊆ A, n ≤ S.card ∧ ∀ R ∈ S, P R

/-- At least `q` voters satisfy `P`. -/
def Quorum {ρ : Type} (q : Nat) (P : ρ → Prop) : Prop := ∃ S : Finset ρ, q ≤ S.card ∧ ∀ R ∈ S, P R

variable {ρ : Type} {A : Finset ρ} {n q : Nat} {P : ρ → Prop}

theorem Tally.zero (A : Finset ρ) (P : ρ → Prop) : Tally A 0 P :=
  ⟨∅, Finset.empty_subset A, Nat.zero_le _, nofun⟩

theorem Tally.mono {A' : Finset ρ} {P' : ρ → Prop} (h : Tally A n P) (hA : A ⊆ A')
    (hP : ∀ R, P R → P' R) : Tally A' n P' := by
  obtain ⟨S, hS, hn, hPS⟩ := h
  exact ⟨S, hS.trans hA, hn, fun R hR => hP R (hPS R hR)⟩

/-- **One more voter is counted.** -/
theorem Tally.insert [DecidableEq ρ] (h : Tally A n P) {R : ρ} (hR : R ∉ A)
    (hP : P R) : Tally (insert R A) (n + 1) P := by
  obtain ⟨S, hS, _, hPS⟩ := h
  have hRS : R ∉ S := fun hm => hR (hS hm)
  refine ⟨Insert.insert R S, Finset.insert_subset_insert R hS, ?_, fun T hT => ?_⟩
  · rw [Finset.card_insert_of_notMem hRS]
    omega
  · rcases Finset.mem_insert.1 hT with rfl | hT
    · exact hP
    · exact hPS T hT

theorem Tally.quorum (h : Tally A n P) (hq : q ≤ n) : Quorum q P := by
  obtain ⟨S, -, hn, hPS⟩ := h
  exact ⟨S, hq.trans hn, hPS⟩

theorem Quorum.mono {P' : ρ → Prop} (h : Quorum q P) (hP : ∀ R, P R → P' R) : Quorum q P' := by
  obtain ⟨S, hq, hPS⟩ := h
  exact ⟨S, hq, fun R hR => hP R (hPS R hR)⟩

/-- **Two quorums share a voter.** -/
theorem Quorum.inter [Fintype ρ] {P' : ρ → Prop} (hq : Fintype.card ρ < 2 * q) (h : Quorum q P)
    (h' : Quorum q P') : ∃ R, P R ∧ P' R := by
  classical
  obtain ⟨S, _, hP⟩ := h
  obtain ⟨S', _, hP'⟩ := h'
  have hc : (Finset.univ : Finset ρ).card < S.card + S'.card := by
    rw [Finset.card_univ]
    omega
  obtain ⟨R, hR⟩ := Finset.inter_nonempty_of_card_lt_card_add_card (Finset.subset_univ S) (Finset.subset_univ S') hc
  obtain ⟨h1, h2⟩ := Finset.mem_inter.1 hR
  exact ⟨R, hP R h1, hP' R h2⟩

theorem quorum_iff_card [Fintype ρ] [DecidablePred P] : Quorum q P ↔ q ≤ (Finset.univ.filter P).card := by
  constructor
  · rintro ⟨_, hq, hP⟩
    exact hq.trans (Finset.card_le_card (fun R hR => Finset.mem_filter.2 ⟨Finset.mem_univ R, hP R hR⟩))
  · intro h
    exact ⟨Finset.univ.filter P, h, fun _ hR => (Finset.mem_filter.1 hR).2⟩

instance [Fintype ρ] {q : Nat} {P : ρ → Prop} [DecidablePred P] : Decidable (Quorum q P) :=
  decidable_of_iff _ quorum_iff_card.symm
