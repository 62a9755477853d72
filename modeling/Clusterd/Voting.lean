import Clusterd.Quorum
/-!
# Agreement of ballots

Voters vote for values in numbered ballots, a value is chosen when a quorum votes for it in one ballot.  What makes two ballots
agree, whatever the protocol: a value is only asked for in a ballot when each lower one asked for the same value or can choose
nothing any more (`Safe`).  `asked n v` says that ballot `n` asked for `v`, `barred R n` that the voter casts no vote in it, now
or later.
-/
namespace Voting

variable {ρ ν : Type}

def Safe (q : Nat) (asked : Nat → ν → Prop) (barred : ρ → Nat → Prop) (m : Nat) (v : ν) : Prop :=
  ∀ n < m, asked n v ∨ Quorum q (fun R => barred R n)

section Safe
variable {q : Nat} {asked asked' : Nat → ν → Prop} {barred barred' : ρ → Nat → Prop} {m : Nat} {v : ν} {P : ρ → Prop}

theorem Safe.mono (h : Safe q asked barred m v) (ha : ∀ n v, asked n v → asked' n v)
    (hb : ∀ R n, barred R n → barred' R n) : Safe q asked' barred' m v :=
  fun n hn => (h n hn).imp (ha n v) (fun hq => hq.mono fun R hR => hb R n hR)

/-- **Any value is safe when a quorum is barred from every lower ballot.** -/
theorem safe_of_barred (h : Quorum q P) (hb : ∀ R, P R → ∀ n < m, barred R n) : Safe q asked barred m v :=
  fun n hn => .inr (h.mono fun R hR => hb R hR n hn)

/-- **A safe value stays safe when a quorum is barred from every ballot in between.** -/
theorem Safe.raise {k : Nat} (h : Safe q asked barred k v) (hk : asked k v) (hq : Quorum q P)
    (hb : ∀ R, P R → ∀ n, k < n → n < m → barred R n) : Safe q asked barred m v := by
  intro n hn
  rcases lt_trichotomy n k with hlt | rfl | hgt
  · exact h n hlt
  · exact .inl hk
  · exact .inr (hq.mono fun R hR => hb R hR n hgt hn)

end Safe

/-- **Two ballots that each choose a value choose the same one**: ballots only ask for safe values, and each for one. -/
theorem agreement [Fintype ρ] {q : Nat} (hc : Fintype.card ρ < 2 * q) (vote : ρ → Nat → ν → Prop)
    {asked : Nat → ν → Prop} {barred : ρ → Nat → Prop} (hask : ∀ R n v, vote R n v → asked n v)
    (hba : ∀ R n v, barred R n → ¬vote R n v) (hone : ∀ n v v', asked n v → asked n v' → v = v')
    (hs : ∀ m v, asked m v → Safe q asked barred m v) {n m : Nat} {v v' : ν}
    (h : Quorum q (fun R => vote R n v)) (h' : Quorum q (fun R => vote R m v')) : v = v' := by
  have hlt : ∀ {n m : Nat} {v v' : ν}, n < m → Quorum q (fun R => vote R n v) → Quorum q (fun R => vote R m v') →
      v = v' := by
    intro n m v v' hnm h h'
    obtain ⟨R, hR, -⟩ := Quorum.inter hc h h'
    obtain ⟨S, hS, -⟩ := Quorum.inter hc h' h'
    rcases hs m v' (hask S m v' hS) n hnm with ha | hb
    · exact hone n v v' (hask R n v hR) ha
    · obtain ⟨T, hT, hbT⟩ := Quorum.inter hc h hb
      exact absurd hT (hba T n v hbT)
  rcases lt_trichotomy n m with hnm | rfl | hmn
  · exact hlt hnm h h'
  · obtain ⟨R, hR, hR'⟩ := Quorum.inter hc h h'
    exact hone n v v' (hask R n v hR) (hask R n v' hR')
  · exact (hlt hmn h' h).symm

end Voting
