import Mathlib.Algebra.Order.Ring.Int
import Mathlib.Data.List.Pairwise
import Mathlib.Data.List.Sort
/-! # Ranges: coalescing, comparing and subtracting lists of intervals of 64-bit numbers -/
namespace Clusterd.Values

open List

/-- `Value::Range`: the numbers from `start` to `stop`, both included. -/
structure Range where
  (start stop : Nat)
deriving DecidableEq, Repr

/-- What `n` becomes in a `uint64_t`. -/
def wrap (n : Nat) : Nat := n % 2 ^ 64

structure Range.Ok (r : Range) : Prop where
  ordered : r.start ≤ r.stop
  fits : r.stop < 2 ^ 64

namespace Ranges

/-- The order `internal::coalesce` sorts by: the start, then the end. -/
def earlier (l r : Range) : Prop := l.start < r.start ∨ l.start = r.start ∧ l.stop ≤ r.stop

instance : DecidableRel earlier := fun _ _ => inferInstanceAs (Decidable (_ ∨ _))

instance : Std.Total earlier := ⟨fun l r => by unfold earlier; omega⟩

instance : IsTrans Range earlier := ⟨fun l m r => by unfold earlier; omega⟩

/-- The order `internal::subtract` sorts by: the start alone. -/
def startsEarlier (l r : Range) : Prop := l.start ≤ r.start

instance : DecidableRel startsEarlier := fun _ _ => inferInstanceAs (Decidable (_ ≤ _))

instance : Std.Total startsEarlier := ⟨fun l r => by unfold startsEarlier; omega⟩

instance : IsTrans Range startsEarlier := ⟨fun l m r => by unfold startsEarlier; omega⟩

/-- The single pass of `internal::coalesce` over the sorted ranges, `current` being the range it is building. -/
def coalesceFrom (current : Range) : List Range → List Range
  | [] => [current]
  | range :: ranges =>
    if range.start = current.start ∧ range.stop = current.stop then coalesceFrom current ranges
    else if range.start = current.start ∧ current.stop < range.stop then
      coalesceFrom { current with stop := range.stop } ranges
    else if current.start < range.start then
      if range.start ≤ wrap (current.stop + 1) then
        coalesceFrom { current with stop := max current.stop range.stop } ranges
      else current :: coalesceFrom range ranges
    else coalesceFrom current ranges

def coalesce (ranges : List Range) : List Range :=
  match ranges.insertionSort earlier with
  | [] => []
  | range :: rest => coalesceFrom range (range :: rest)

section

variable (left right : List Range)

/-- `operator==` on ranges. -/
def same : Bool :=
  (coalesce left).length == (coalesce right).length &&
    (coalesce left).all fun l => (coalesce right).any fun r => l.start == r.start && l.stop == r.stop

/-- `operator<=` on ranges. -/
def le : Bool :=
  (coalesce left).all fun l => (coalesce right).any fun r => decide (r.start ≤ l.start) && decide (l.stop ≤ r.stop)

/-- `operator+=` on ranges. -/
def add : List Range := coalesce (left ++ right)

end

/-- The loop of `internal::subtract` over the two sorted lists. -/
def sweep : List Range → List Range → List Range
  | [], _ => []
  | left, [] => left
  | l :: left, r :: right =>
    if l.stop < r.start then l :: sweep left (r :: right)
    else if r.stop < l.start then sweep (l :: left) right
    else if l.start < r.start then
      if l.stop ≤ r.stop then ⟨l.start, r.start - 1⟩ :: sweep left (r :: right)
      else ⟨l.start, r.start - 1⟩ :: sweep (⟨r.stop + 1, l.stop⟩ :: left) right
    else if l.stop ≤ r.stop then sweep left (r :: right)
    else sweep (⟨r.stop + 1, l.stop⟩ :: left) right
termination_by left right => left.length + right.length

/-- `internal::subtract`, which is `operator-=` on ranges. -/
def subtract (left right : List Range) : List Range :=
  if left = [] ∨ right = [] then left
  else sweep (left.insertionSort startsEarlier) (right.insertionSort startsEarlier)

/-! ## The numbers a list of ranges covers -/

/-- `n` lies in one of the ranges. -/
def Covers (ranges : List Range) (n : Nat) : Prop := ∃ r ∈ ranges, r.start ≤ n ∧ n ≤ r.stop

instance (ranges : List Range) (n : Nat) : Decidable (Covers ranges n) :=
  inferInstanceAs (Decidable (∃ r ∈ ranges, _))

theorem covers_nil (n : Nat) : ¬ Covers [] n := by
  rintro ⟨_, hr, -⟩
  cases hr

theorem covers_cons (r : Range) (ranges : List Range) (n : Nat) :
    Covers (r :: ranges) n ↔ (r.start ≤ n ∧ n ≤ r.stop) ∨ Covers ranges n := by
  simp [Covers]

theorem covers_append (l r : List Range) (n : Nat) : Covers (l ++ r) n ↔ Covers l n ∨ Covers r n := by
  simp [Covers, or_and_right, exists_or]

theorem covers_perm {l r : List Range} (h : l.Perm r) (n : Nat) : Covers l n ↔ Covers r n := by
  simp only [Covers, h.mem_iff]

variable {ranges : List Range}

theorem covers_of_mem {r : Range} (hr : r ∈ ranges) (hok : r.Ok) : Covers ranges r.start :=
  ⟨r, hr, le_rfl, hok.ordered⟩

theorem eq_nil_of_covers_none (hok : ∀ r ∈ ranges, r.Ok) (h : ∀ n, ¬ Covers ranges n) : ranges = [] := by
  cases ranges with
  | nil => rfl
  | cons r => exact absurd (covers_of_mem (mem_cons_self) (hok r mem_cons_self)) (h _)

theorem covers_after {b : Nat} (h : ∀ r ∈ ranges, b ≤ r.start) {n : Nat} (hn : Covers ranges n) : b ≤ n := by
  obtain ⟨r, hr, hrn⟩ := hn
  exact le_trans (h r hr) hrn.1

def Disjoint (ranges : List Range) : Prop := ranges.Pairwise fun l r => l.stop < r.start ∨ r.stop < l.start

theorem Disjoint.perm {l r : List Range} (h : l.Perm r) (hd : Disjoint l) : Disjoint r :=
  List.Perm.pairwise h hd fun hlr => hlr.symm

/-- **Sorted by their starts, disjoint ranges follow one another.** -/
theorem pairwise_follows (hok : ∀ r ∈ ranges, r.Ok) (hd : Disjoint ranges)
    (hs : ranges.Pairwise startsEarlier) : ranges.Pairwise fun l r => l.stop < r.start := by
  refine (hd.and hs).imp_of_mem fun {l r} hl hr h => ?_
  have hr := (hok r hr).ordered
  have hlr : l.start ≤ r.start := h.2
  rcases h.1 with h | h <;> omega

/-! ## Coalescing -/

def Apart (l r : Range) : Prop := l.start < r.start ∧ (l.stop + 1 < r.start ∨ l.stop + 1 = 2 ^ 64)

structure Coalesced (current : Range) (ranges out : List Range) : Prop where
  ok : ∀ r ∈ out, r.Ok
  covers : ∀ n, Covers out n ↔ Covers (current :: ranges) n
  start : ∀ r ∈ out, current.start ≤ r.start
  apart : out.Pairwise Apart

variable {out : List Range}

theorem Coalesced.absorb {current grown range : Range} (h : Coalesced grown ranges out) (hs : grown.start = current.start)
    (hcov : ∀ n, grown.start ≤ n ∧ n ≤ grown.stop ↔
      (current.start ≤ n ∧ n ≤ current.stop) ∨ (range.start ≤ n ∧ n ≤ range.stop)) :
    Coalesced current (range :: ranges) out where
  ok := h.ok
  covers n := by rw [h.covers, covers_cons, covers_cons, covers_cons, hcov, or_assoc]
  start := fun r hr => hs ▸ h.start r hr
  apart := h.apart

theorem Coalesced.push {current range : Range} (h : Coalesced range ranges out)
    (hcur : current.Ok) (hlt : current.start < range.start) (ha : ¬ range.start ≤ wrap (current.stop + 1)) :
    Coalesced current (range :: ranges) (current :: out) where
  ok := forall_mem_cons.2 ⟨hcur, h.ok⟩
  covers n := by rw [covers_cons, h.covers, covers_cons current]
  start := forall_mem_cons.2 ⟨le_rfl, fun r hr => hlt.le.trans (h.start r hr)⟩
  apart := by
    refine pairwise_cons.2 ⟨fun r hr => ?_, h.apart⟩
    have hr := h.start r hr
    refine ⟨hlt.trans_le hr, ?_⟩
    rcases lt_or_ge (current.stop + 1) (2 ^ 64) with hfit | hfit
    · rw [wrap, Nat.mod_eq_of_lt hfit] at ha
      exact .inl (by omega)
    · exact .inr (le_antisymm hcur.fits hfit)

/-- **The pass over sorted ranges** keeps them proper, covers what they cover and leaves them apart. -/
theorem coalesceFrom_spec : ∀ (current : Range) (ranges : List Range), current.Ok → (∀ r ∈ ranges, r.Ok) →
    (current :: ranges).Pairwise earlier → Coalesced current ranges (coalesceFrom current ranges)
  | current, [], hcur, _, _ =>
    ⟨fun _ hr => mem_singleton.1 hr ▸ hcur, fun _ => .rfl, fun _ hr => mem_singleton.1 hr ▸ le_rfl,
      pairwise_singleton _ _⟩
  | current, range :: ranges, hcur, hok, hs => by
    obtain ⟨hra, hre⟩ := forall_mem_cons.1 hok
    obtain ⟨hfi, hs'⟩ := pairwise_cons.1 hs
    obtain ⟨hfi', hs''⟩ := pairwise_cons.1 hs'
    have hle := hfi range mem_cons_self
    have hc := hcur.ordered
    have hf := hcur.fits
    have hf' := hra.fits
    -- whatever the current range grows to still comes before the rest
    have hg : ∀ grown, grown.start = current.start →
        (current.start = range.start → grown.stop ≤ range.stop) → (grown :: ranges).Pairwise earlier := by
      refine fun _ _ hst => pairwise_cons.2 ⟨fun r hr => ?_, hs''⟩
      have := hfi' r hr
      unfold earlier at this hle ⊢
      omega
    unfold earlier at hle
    unfold coalesceFrom
    split_ifs with h1 h2 h3 h4
    · exact (coalesceFrom_spec current ranges hcur hre (hg current rfl (by omega))).absorb rfl (by omega)
    · have hok' : Range.Ok { current with stop := range.stop } := ⟨by show current.start ≤ range.stop; omega, hf'⟩
      exact (coalesceFrom_spec _ ranges hok' hre (hg _ rfl fun _ => le_rfl)).absorb rfl fun n => by simp only; omega
    · have hst : current.stop + 1 < 2 ^ 64 := by
        -- the successor of the largest number is zero, which no later range starts at
        rcases lt_or_ge (current.stop + 1) (2 ^ 64) with h | h
        · exact h
        · rw [le_antisymm hf h, wrap, Nat.mod_self] at h4
          omega
      rw [wrap, Nat.mod_eq_of_lt hst] at h4
      have hok' : Range.Ok { current with stop := max current.stop range.stop } :=
        ⟨hc.trans (le_max_left _ _), max_lt hf hf'⟩
      exact (coalesceFrom_spec _ ranges hok' hre (hg _ rfl (by omega))).absorb rfl fun _ => by simp only; omega
    · exact (coalesceFrom_spec range ranges hra hre hs').push hcur h3 h4
    · exact (coalesceFrom_spec current ranges hcur hre (hg current rfl (by omega))).absorb rfl (by omega)

section Whole
variable {ranges : List Range} (hok : ∀ r ∈ ranges, r.Ok)
include hok

theorem coalesce_spec : (∀ r ∈ coalesce ranges, r.Ok) ∧ (∀ n, Covers (coalesce ranges) n ↔ Covers ranges n) ∧
    (coalesce ranges).Pairwise Apart := by
  have hpe := perm_insertionSort earlier ranges
  have hso := pairwise_insertionSort earlier ranges
  have hok' : ∀ r ∈ ranges.insertionSort earlier, r.Ok := fun r hr => hok r (hpe.subset hr)
  unfold coalesce
  cases hs : ranges.insertionSort earlier with
  | nil =>
    rw [hs] at hpe
    exact ⟨forall_mem_nil _, fun n => covers_perm hpe n, List.Pairwise.nil⟩
  | cons range rest =>
    rw [hs] at hpe hso hok'
    have hf := (pairwise_cons.1 hso).1
    have hsp := coalesceFrom_spec range (range :: rest) (hok' range mem_cons_self) hok'
      (pairwise_cons.2 ⟨forall_mem_cons.2 ⟨.inr ⟨rfl, le_rfl⟩, hf⟩, hso⟩)
    refine ⟨hsp.ok, fun _ => ?_, hsp.apart⟩
    rw [hsp.covers, ← covers_perm hpe, covers_cons, covers_cons]
    tauto

theorem coalesce_ok : ∀ r ∈ coalesce ranges, r.Ok := (coalesce_spec hok).1

/-- **Coalescing keeps the numbers covered.** -/
theorem covers_coalesce (n : Nat) : Covers (coalesce ranges) n ↔ Covers ranges n := (coalesce_spec hok).2.1 n

theorem coalesce_apart : (coalesce ranges).Pairwise Apart := (coalesce_spec hok).2.2

theorem coalesce_nodup : (coalesce ranges).Nodup :=
  (coalesce_apart hok).imp fun h => by
    rintro rfl
    exact lt_irrefl _ h.1

end Whole

/-! ## Comparing -/

section Compared
variable {left right : List Range} (hl : ∀ r ∈ left, r.Ok) (hr : ∀ r ∈ right, r.Ok)
include hl hr

/-- **One list is at most another exactly when it covers no number the other does not.** -/
theorem le_iff : le left right = true ↔ ∀ n, Covers left n → Covers right n := by
  simp only [le, all_eq_true, any_eq_true, Bool.and_eq_true, decide_eq_true_eq]
  constructor
  · intro h n hn
    rw [← covers_coalesce hl] at hn
    rw [← covers_coalesce hr]
    obtain ⟨l, hmem, _⟩ := hn
    obtain ⟨r, hr, _⟩ := h l hmem
    exact ⟨r, hr, by omega⟩
  intro h l hmem
  have hlok := coalesce_ok hl l hmem
  have hcov : ∀ n, l.start ≤ n → n ≤ l.stop → Covers (coalesce right) n := fun n h1 h2 =>
    (covers_coalesce hr n).2 (h n ((covers_coalesce hl n).1 ⟨l, hmem, h1, h2⟩))
  obtain ⟨r, hrm, hrn⟩ := hcov l.start le_rfl hlok.ordered
  by_cases hs : l.stop ≤ r.stop
  · exact ⟨r, hrm, hrn.1, hs⟩
  -- the number after `r` is covered too, by a range that can only be one reaching the largest number
  obtain ⟨r', hrm', _⟩ := hcov (r.stop + 1) (by omega) (by omega)
  have hne : r' ≠ r := by
    rintro rfl
    omega
  have hf := hlok.fits
  have happ : Apart r' r ∨ Apart r r' := by
    have : Std.Symm fun l r => Apart l r ∨ Apart r l := ⟨fun _ _ => Or.symm⟩
    exact ((coalesce_apart hr).imp (S := fun l r => Apart l r ∨ Apart r l) .inl).forall hrm' hrm hne
  unfold Apart at happ
  exact ⟨r', hrm', by omega, by omega⟩

theorem same_iff : same left right = true ↔ coalesce left = coalesce right := by
  simp only [same, Bool.and_eq_true, beq_iff_eq, all_eq_true, any_eq_true]
  constructor
  · rintro ⟨hlen, hmem⟩
    have hsub : coalesce left ⊆ coalesce right := by
      intro l hl
      obtain ⟨r, hr, _, _⟩ := hmem l hl
      have : l = r := by
        cases l
        cases r
        simp_all
      exact this ▸ hr
    have hpe : (coalesce left).Perm (coalesce right) :=
      (subperm_of_subset (coalesce_nodup hl) hsub).perm_of_length_le hlen.ge
    have hs : ∀ {ranges}, (∀ r ∈ ranges, r.Ok) →
        (coalesce ranges).Pairwise fun l r => l.start ≤ r.start ∧ (l.start = r.start → l = r) := fun hok =>
      (coalesce_apart hok).imp fun h => ⟨h.1.le, fun h' => absurd h' h.1.ne⟩
    exact hpe.eq_of_pairwise (fun l _ _ _ h h' => h.2 (h.1.antisymm h'.1)) (hs hl) (hs hr)
  · intro h
    rw [h]
    exact ⟨rfl, fun l hl => ⟨l, hl, rfl, rfl⟩⟩

end Compared

theorem eq_of_covers : ∀ left right : List Range, (∀ r ∈ left, r.Ok) → (∀ r ∈ right, r.Ok) →
    (left.Pairwise fun l r => l.stop + 1 < r.start) → (right.Pairwise fun l r => l.stop + 1 < r.start) →
    (∀ n, Covers left n ↔ Covers right n) → left = right
  | [], right, _, hr, _, _, h => (eq_nil_of_covers_none hr fun n hn => covers_nil n ((h n).2 hn)).symm
  | l :: left, [], hl, _, _, _, h => absurd ((h l.start).1 (covers_of_mem mem_cons_self (hl l mem_cons_self)))
      (covers_nil _)
  | l :: left, r :: right, hl, hr, hsl, hsr, h => by
    obtain ⟨hl0, hl'⟩ := forall_mem_cons.1 hl
    obtain ⟨hr0, hr'⟩ := forall_mem_cons.1 hr
    obtain ⟨hsl0, hsl'⟩ := pairwise_cons.1 hsl
    obtain ⟨hsr0, hsr'⟩ := pairwise_cons.1 hsr
    have hle : ∀ n, Covers left n → l.stop + 2 ≤ n := fun n => covers_after hsl0
    have hri : ∀ n, Covers right n → r.stop + 2 ≤ n := fun n => covers_after hsr0
    have hcov : ∀ n, (l.start ≤ n ∧ n ≤ l.stop) ∨ Covers left n ↔ (r.start ≤ n ∧ n ≤ r.stop) ∨ Covers right n :=
      fun n => by
        have := h n
        rwa [covers_cons, covers_cons] at this
    have ol := hl0.ordered
    have or := hr0.ordered
    -- the first range of each list starts at the least number and ends before the first gap
    have hs : l.start = r.start := by
      have h1 := hcov l.start
      have h2 := hcov r.start
      have := hle r.start
      have := hri l.start
      grind
    have hst : l.stop = r.stop := by
      have h6 := hri (l.stop + 1)
      grind
    have hh : l = r := by
      cases l
      cases r
      simp only [Range.mk.injEq]
      exact ⟨hs, hst⟩
    subst hh
    have ht := eq_of_covers left right hl' hr' hsl' hsr' fun n => by
      have := hcov n
      have := hle n
      have := hri n
      grind
    rw [ht]

variable {left right : List Range}

/-- **Ranges that cover the same numbers are the same**, below the greatest of 64 bits. -/
theorem same_of_covers (hl : ∀ r ∈ left, r.Ok) (hr : ∀ r ∈ right, r.Ok)
    (h : ∀ n, Covers left n ↔ Covers right n) (hb : ∀ n, Covers left n → n + 1 < 2 ^ 64) : same left right = true := by
  have hg : ∀ {ranges}, (∀ r ∈ ranges, r.Ok) → (∀ n, Covers ranges n → n + 1 < 2 ^ 64) →
      (coalesce ranges).Pairwise fun l r => l.stop + 1 < r.start := fun hok hlt => by
    refine (coalesce_apart hok).imp_of_mem fun {l r} hmem _ ha => ha.2.resolve_right fun _ => ?_
    have hs := hlt l.stop ((covers_coalesce hok _).1 ⟨l, hmem, (coalesce_ok hok l hmem).ordered, le_rfl⟩)
    omega
  rw [same_iff hl hr]
  refine eq_of_covers _ _ (coalesce_ok hl) (coalesce_ok hr) (hg hl hb)
    (hg hr fun n hn => hb n ((h n).2 hn)) fun _ => ?_
  rw [covers_coalesce hl, covers_coalesce hr, h]

/-! ## Subtracting -/

variable {left' right' : List Range} {p : Range}

structure Trimmed (left right out : List Range) : Prop where
  ok : ∀ r ∈ out, r.Ok
  within : ∀ n, Covers out n → Covers left n
  keeps : ∀ n, Covers left n → ¬ Covers right n → Covers out n

theorem Trimmed.skip (h : Trimmed left' right' out) (hle : ∀ n, Covers left' n → Covers left n)
    (hri : ∀ n, Covers left n → ¬ Covers right n → Covers left' n ∧ ¬ Covers right' n) : Trimmed left right out where
  ok := h.ok
  within n hn := hle n (h.within n hn)
  keeps n hl hr := h.keeps n (hri n hl hr).1 (hri n hl hr).2

theorem Trimmed.emit (h : Trimmed left' right' out) (hp : p.Ok)
    (hle : ∀ n, (p.start ≤ n ∧ n ≤ p.stop) ∨ Covers left' n → Covers left n)
    (hri : ∀ n, Covers left n → ¬ Covers right n →
      (p.start ≤ n ∧ n ≤ p.stop) ∨ (Covers left' n ∧ ¬ Covers right' n)) : Trimmed left right (p :: out) where
  ok := forall_mem_cons.2 ⟨hp, h.ok⟩
  within n hn := hle n (((covers_cons p out n).1 hn).imp_right (h.within n))
  keeps n hl hr := (covers_cons p out n).2 ((hri n hl hr).imp_right fun hn => h.keeps n hn.1 hn.2)

section Cut
variable {l r : Range}

theorem cut_ok (hl : ∀ x ∈ l :: left, x.Ok) (h : r.stop < l.stop) : ∀ x ∈ ⟨r.stop + 1, l.stop⟩ :: left, x.Ok :=
  forall_mem_cons.2 ⟨⟨h, (hl l mem_cons_self).fits⟩, (forall_mem_cons.1 hl).2⟩

theorem cut_after (hf : (l :: left).Pairwise fun l r => l.stop < r.start) (h : r.stop < l.stop) :
    ∀ x ∈ ⟨r.stop + 1, l.stop⟩ :: left, r.stop + 1 ≤ x.start :=
  forall_mem_cons.2 ⟨le_rfl, fun x hx => h.trans ((pairwise_cons.1 hf).1 x hx)⟩

end Cut

theorem sweep_trims (left right : List Range) (hl : ∀ r ∈ left, r.Ok) (hr : ∀ r ∈ right, r.Ok) :
    Trimmed left right (sweep left right) := by
  fun_induction sweep left right with
  | case1 right => exact ⟨forall_mem_nil _, fun _ => id, fun n hn _ => hn⟩
  | case2 left h => exact ⟨hl, fun _ => id, fun n hn _ => hn⟩
  | case3 l left r right h ih =>
    obtain ⟨hl0, hl'⟩ := forall_mem_cons.1 hl
    refine (ih hl' hr).emit hl0 (fun n hn => ?_) fun n hn hnot => ?_
    · rwa [covers_cons]
    · rw [covers_cons] at hn
      exact hn.imp_right fun h => ⟨h, hnot⟩
  | case4 l left r right h h' ih =>
    refine (ih hl (forall_mem_cons.1 hr).2).skip (fun _ => id) fun n hn hnot => ⟨hn, fun hri => hnot ?_⟩
    exact (covers_cons r right n).2 (.inr hri)
  | case5 l left r right h h' h'' h3 ih =>
    obtain ⟨hl0, hl'⟩ := forall_mem_cons.1 hl
    have hf := hl0.fits
    refine (ih hl' hr).emit ⟨by simp only; omega, by simp only; omega⟩ (fun n => ?_) fun n => ?_
    all_goals simp only [covers_cons]
    all_goals grind
  | case6 l left r right h h' h'' h3 ih =>
    obtain ⟨hl0, _⟩ := forall_mem_cons.1 hl
    have hf := hl0.fits
    refine (ih (cut_ok hl (by omega)) (forall_mem_cons.1 hr).2).emit ⟨by simp only; omega, by simp only; omega⟩
      (fun n => ?_) fun n => ?_
    all_goals simp only [covers_cons]
    all_goals grind
  | case7 l left r right h h' h'' h3 ih =>
    refine (ih (forall_mem_cons.1 hl).2 hr).skip (fun n => ?_) fun n => ?_
    · simp only [covers_cons]
      exact .inr
    · simp only [covers_cons]
      grind
  | case8 l left r right h h' h'' h3 ih =>
    refine (ih (cut_ok hl (by omega)) (forall_mem_cons.1 hr).2).skip (fun n => ?_) fun _ => ?_
    all_goals simp only [covers_cons]
    all_goals grind

/-- **Subtracting leaves what the other list does not cover, and adds nothing**, also where ranges overlap. -/
theorem subtract_trims (hl : ∀ r ∈ left, r.Ok) (hr : ∀ r ∈ right, r.Ok) : Trimmed left right (subtract left right) := by
  unfold subtract
  split_ifs
  · exact ⟨hl, fun _ => id, fun n hn _ => hn⟩
  have hpl := perm_insertionSort startsEarlier left
  have hpr := perm_insertionSort startsEarlier right
  have h := sweep_trims (left.insertionSort startsEarlier) (right.insertionSort startsEarlier)
    (fun r h => hl r (hpl.subset h)) fun r h => hr r (hpr.subset h)
  exact h.skip (fun n hn => (covers_perm hpl n).1 hn) fun n hn hnot =>
    ⟨(covers_perm hpl n).2 hn, fun h => hnot ((covers_perm hpr n).1 h)⟩

/-- What the sweep makes of ranges that follow one another: the numbers of `left` that are not in `right`, in ranges
that follow one another and start no earlier. -/
structure Swept (left right out : List Range) : Prop where
  ok : ∀ r ∈ out, r.Ok
  covers : ∀ n, Covers out n ↔ Covers left n ∧ ¬ Covers right n
  after : ∀ b, (∀ l ∈ left, b ≤ l.start) → ∀ r ∈ out, b ≤ r.start
  follows : out.Pairwise fun l r => l.stop < r.start

theorem Trimmed.start (h : Trimmed left right out) : ∀ r ∈ out, Covers left r.start :=
  fun r hr => h.within _ (covers_of_mem hr (h.ok r hr))

section
variable (left right : List Range) (hl : ∀ r ∈ left, r.Ok) (hr : ∀ r ∈ right, r.Ok) (hf : left.Pairwise fun l r => l.stop < r.start) (hs : right.Pairwise startsEarlier)
include hl hr hf hs

/-- **Of ranges that follow one another the sweep leaves such ranges**, and nothing that the other list covers. -/
theorem sweep_follows :
    ((sweep left right).Pairwise fun l r => l.stop < r.start) ∧ ∀ n, Covers (sweep left right) n → ¬ Covers right n := by
  fun_induction sweep left right with
  | case1 right => exact ⟨.nil, fun n hn => (covers_nil n hn).elim⟩
  | case2 left h => exact ⟨hf, fun n _ => covers_nil n⟩
  | case3 l left r right h ih =>
    obtain ⟨-, hl'⟩ := forall_mem_cons.1 hl
    obtain ⟨hf0, hf'⟩ := pairwise_cons.1 hf
    have hs0 := (pairwise_cons.1 hs).1
    have ht := sweep_trims left (r :: right) hl' hr
    obtain ⟨ihf, iha⟩ := ih hl' hr hf' hs
    refine ⟨pairwise_cons.2 ⟨fun x hx => covers_after hf0 (ht.start x hx), ihf⟩, fun n hn => ?_⟩
    have hri : Covers right n → r.start ≤ n := covers_after hs0
    have := iha n
    simp only [covers_cons] at hn this ⊢
    grind
  | case4 l left r right h h' ih =>
    have hr' := (forall_mem_cons.1 hr).2
    have hf0 := (pairwise_cons.1 hf).1
    have hl0 := (hl l mem_cons_self).ordered
    obtain ⟨ihf, iha⟩ := ih hl hr' hf (pairwise_cons.1 hs).2
    refine ⟨ihf, fun n hn => ?_⟩
    have hle : Covers left n → l.stop + 1 ≤ n := covers_after hf0
    have := iha n hn
    have := (sweep_trims _ _ hl hr').within n hn
    simp only [covers_cons] at this ⊢
    grind
  | case5 l left r right h h' h'' h3 ih =>
    obtain ⟨-, hl'⟩ := forall_mem_cons.1 hl
    obtain ⟨hf0, hf'⟩ := pairwise_cons.1 hf
    have hs0 := (pairwise_cons.1 hs).1
    have ht := sweep_trims left (r :: right) hl' hr
    obtain ⟨ihf, iha⟩ := ih hl' hr hf' hs
    refine ⟨pairwise_cons.2 ⟨fun x hx => ?_, ihf⟩, fun n hn => ?_⟩
    · have := covers_after hf0 (ht.start x hx)
      simp only
      omega
    · have hri : Covers right n → r.start ≤ n := covers_after hs0
      have := iha n
      simp only [covers_cons] at hn this ⊢
      grind
  | case6 l left r right h h' h'' h3 ih =>
    have hr' := (forall_mem_cons.1 hr).2
    obtain ⟨hs0, hs'⟩ := pairwise_cons.1 hs
    have hlt : r.stop < l.stop := by omega
    have hcu := cut_ok hl hlt
    have ht := sweep_trims _ right hcu hr'
    have haf : ∀ n, Covers _ n → r.stop + 1 ≤ n := fun n => covers_after (cut_after hf hlt)
    obtain ⟨ihf, iha⟩ := ih hcu hr' (pairwise_cons.2 (pairwise_cons.1 hf)) hs'
    refine ⟨pairwise_cons.2 ⟨fun x hx => ?_, ihf⟩, fun n hn => ?_⟩
    · have := haf _ (ht.start x hx)
      have := (hr r mem_cons_self).ordered
      simp only
      omega
    · have hri : Covers right n → r.start ≤ n := covers_after hs0
      have hta := fun hn => haf n (ht.within n hn)
      have := iha n
      simp only [covers_cons] at hn ⊢
      grind
  | case7 l left r right h h' h'' h3 ih => exact ih (forall_mem_cons.1 hl).2 hr (pairwise_cons.1 hf).2 hs
  | case8 l left r right h h' h'' h3 ih =>
    have hr' := (forall_mem_cons.1 hr).2
    have hlt : r.stop < l.stop := by omega
    have hcu := cut_ok hl hlt
    have ht := sweep_trims _ right hcu hr'
    obtain ⟨ihf, iha⟩ := ih hcu hr' (pairwise_cons.2 (pairwise_cons.1 hf)) (pairwise_cons.1 hs).2
    refine ⟨ihf, fun n hn => ?_⟩
    have hta := covers_after (cut_after hf hlt) (ht.within n hn)
    have := iha n hn
    simp only [covers_cons]
    grind

theorem sweep_spec : Swept left right (sweep left right) := by
  have ht := sweep_trims left right hl hr
  obtain ⟨hfo, ha⟩ := sweep_follows left right hl hr hf hs
  refine ⟨ht.ok, fun n => ⟨fun hn => ⟨ht.within n hn, ha n hn⟩, fun hn => ht.keeps n hn.1 hn.2⟩, ?_, hfo⟩
  exact fun _ hb r hr => covers_after hb (ht.start r hr)

end

section Subtracted
variable {left right : List Range} (hl : ∀ r ∈ left, r.Ok) (hr : ∀ r ∈ right, r.Ok) (hd : Disjoint left)
include hl hr hd

/-- **Subtracting from disjoint ranges takes exactly what the other list covers**, and leaves disjoint ranges. -/
theorem subtract_spec : (∀ r ∈ subtract left right, r.Ok) ∧
    (∀ n, Covers (subtract left right) n ↔ Covers left n ∧ ¬ Covers right n) ∧ Disjoint (subtract left right) := by
  unfold subtract
  split_ifs with h
  · refine ⟨hl, fun n => ?_, hd⟩
    rcases h with rfl | rfl <;> simp [covers_nil]
  have hpl := perm_insertionSort startsEarlier left
  have hpr := perm_insertionSort startsEarlier right
  have hl' : ∀ r ∈ left.insertionSort startsEarlier, r.Ok := fun r hr => hl r (hpl.subset hr)
  have hs := sweep_spec _ _ hl' (fun r hmem => hr r (hpr.subset hmem))
    (pairwise_follows hl' (hd.perm hpl.symm) (pairwise_insertionSort _ _)) (pairwise_insertionSort _ _)
  refine ⟨hs.ok, fun _ => ?_, hs.follows.imp .inl⟩
  rw [hs.covers, covers_perm hpl, covers_perm hpr]

end Subtracted

end Ranges
end Clusterd.Values
