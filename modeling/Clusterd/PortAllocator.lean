import Clusterd.Fallible
import Mathlib.Algebra.GroupWithZero.Nat
import Mathlib.Data.Finset.Lattice.Fold
import Mathlib.Order.Interval.Finset.Nat
import Mathlib.Order.Lattice.Nat
/-!
# The ephemeral ports of containers (`EphemeralPortsAllocator`)

Every container gets a block of ports that is aligned to its size, the first one that an interval of free ports has.  The free
and the used ports are `IntervalSet<uint16_t>`, sets of numbers that are kept by their maximal intervals; an interval does not
have its upper bound, so 65535 is in no set.
-/
namespace Clusterd.PortMapping.EphemeralPorts

open List hiding Disjoint

/-! ## The allocator -/

/-- `nextMultipleOf`, with 32 bits. -/
def nextMultipleOf (x m : Nat) : Nat := (x / m + if x % m = 0 then 0 else 1) * m % 2 ^ 32

/-- `Interval<uint16_t>`. -/
structure Interval where
  (lower upper : Nat)
deriving DecidableEq

def Interval.ports (this : Interval) : Finset Nat := Finset.Ico this.lower this.upper

/-- The first number from `lower` on that is not in the set. -/
def upper (ports : Finset Nat) (lower : Nat) : Nat :=
  ((List.range' lower (ports.card + 1)).find? (· ∉ ports)).getD lower

/-- The maximal intervals of a set, in order. -/
def intervals (ports : Finset Nat) : List Interval :=
  ((List.range (ports.sup id + 1)).filter fun p => p ∈ ports ∧ (p = 0 ∨ p - 1 ∉ ports)).map fun p => ⟨p, upper ports p⟩

/-- The `CHECK`s that can fail. -/
inductive Check
  | freeContains
  | notUsedContains
  | notFreeContains
  | usedContains
deriving DecidableEq

structure EphemeralPortsAllocator where
  free : Finset Nat
  used : Finset Nat := ∅

namespace EphemeralPortsAllocator

section

variable (portsPerContainer : Nat) (this : EphemeralPortsAllocator)

/-- One turn of the loop of `allocate`.  The bounds and the size have 16 bits. -/
def candidate (interval : Interval) : Option Interval :=
  let upper := interval.upper
  let lower := interval.lower
  let size := (upper - lower) % 2 ^ 16
  if size < portsPerContainer then none
  else if lower % portsPerContainer ≠ 0 then
    let lower := nextMultipleOf lower portsPerContainer % 2 ^ 16
    if lower + portsPerContainer > upper then none
    else some ⟨lower, (lower + portsPerContainer) % 2 ^ 16⟩
  else some ⟨lower, (lower + portsPerContainer) % 2 ^ 16⟩

/-- `allocate(ports)`. -/
def allocatePorts (ports : Finset Nat) : Except Check EphemeralPortsAllocator :=
  if ¬ ports ⊆ this.free then .error .freeContains
  else if ports ⊆ this.used then .error .notUsedContains
  else .ok { free := this.free \ ports, used := this.used ∪ ports }

def deallocate (ports : Finset Nat) : Except Check EphemeralPortsAllocator :=
  if ports ⊆ this.free then .error .notFreeContains
  else if ¬ ports ⊆ this.used then .error .usedContains
  else .ok { free := this.free ∪ ports, used := this.used \ ports }

/-- `allocate()`, which returns an interval or an error. -/
def allocate : Except Check (EphemeralPortsAllocator × Except String Interval) :=
  if portsPerContainer = 0 then .ok (this, .error "Number of ephemeral ports per container is zero")
  else
    match (intervals this.free).findSome? (candidate portsPerContainer) with
    | none => .ok (this, .error "Failed to allocate ephemeral ports")
    | some allocated => do
      let this ← this.allocatePorts allocated.ports
      return (this, .ok allocated)

end

end EphemeralPortsAllocator

open EphemeralPortsAllocator

/-- The allocator, and the intervals it has returned that were not given back. -/
structure World where
  allocator : EphemeralPortsAllocator
  held : List Interval := []

inductive Call
  | allocate
  | deallocate (ports : Interval)

section

variable (portsPerContainer : Nat)

def World.step (this : World) : Call → Except Check World
  | .allocate => do
    match ← this.allocator.allocate portsPerContainer with
    | (allocator, .ok ports) => return { allocator, held := ports :: this.held }
    | (allocator, .error _) => return { this with allocator }
  | .deallocate ports => do
    let allocator ← this.allocator.deallocate ports.ports
    return { allocator, held := this.held.erase ports }

end

/-- Only what is held is given back. -/
def GivesBack (this : World) : Call → Prop
  | .allocate => True
  | .deallocate ports => ports ∈ this.held

instance (this : World) : (call : Call) → Decidable (GivesBack this call)
  | .allocate => isTrue trivial
  | .deallocate ports => inferInstanceAs (Decidable (ports ∈ this.held))

/-! ## Intervals -/

section

variable {ports : Finset Nat} {lower p : Nat}

/-- More numbers than the set has are not all in it. -/
theorem upper_spec : lower ≤ upper ports lower ∧ upper ports lower ∉ ports ∧
    ∀ p, lower ≤ p → p < upper ports lower → p ∈ ports := by
  cases hfind : (List.range' lower (ports.card + 1)).find? (· ∉ ports) with
  | some q =>
    rw [upper, hfind, Option.getD_some]
    obtain ⟨hq, hmem, hbefore⟩ := find?_range'_eq_some.1 hfind
    refine ⟨(mem_range'_1.1 hmem).1, by simpa using hq, fun p hl hp => ?_⟩
    simpa using hbefore p hl hp
  | none =>
    have hall : Finset.Ico lower (lower + (ports.card + 1)) ⊆ ports := fun p hp => by
      have hp := find?_eq_none.1 hfind p (mem_range'_1.2 (Finset.mem_Ico.1 hp))
      simpa using hp
    have hcard := Finset.card_le_card hall
    rw [Nat.card_Ico] at hcard
    omega

theorem le_upper : lower ≤ upper ports lower := upper_spec.1

theorem upper_notMem : upper ports lower ∉ ports := upper_spec.2.1

theorem mem_of_lt_upper (hl : lower ≤ p) (hp : p < upper ports lower) : p ∈ ports := upper_spec.2.2 p hl hp

theorem mem_intervals {interval : Interval} : interval ∈ intervals ports ↔
    interval.lower ∈ ports ∧ (interval.lower = 0 ∨ interval.lower - 1 ∉ ports) ∧
      interval.upper = upper ports interval.lower := by
  rw [intervals, mem_map]
  constructor
  · rintro ⟨p, hp, rfl⟩
    rw [mem_filter, decide_eq_true_eq] at hp
    exact ⟨hp.2.1, hp.2.2, rfl⟩
  · rintro ⟨hmem, hfirst, hupper⟩
    refine ⟨interval.lower, ?_, by rw [← hupper]⟩
    rw [mem_filter, decide_eq_true_eq, mem_range]
    exact ⟨Nat.lt_succ_of_le (Finset.le_sup (f := id) hmem), hmem, hfirst⟩

end

section

variable {free : Finset Nat} (hf : free ⊆ .range 65535) {size : Nat} {interval : Interval}
include hf

/-- An interval of a set is a part of it, and its bounds have 16 bits. -/
theorem intervals_spec (h : interval ∈ intervals free) :
    interval.ports ⊆ free ∧ interval.lower < interval.upper ∧ interval.upper < 2 ^ 16 := by
  obtain ⟨hmem, -, hupper⟩ := mem_intervals.1 h
  have hlt : interval.lower < 65535 := Finset.mem_range.1 (hf hmem)
  have hbound : interval.upper ≤ 65535 := by
    by_contra hlate
    rw [hupper] at hlate
    have hlast := hf (mem_of_lt_upper hlt.le (Nat.lt_of_not_le hlate))
    exact Nat.lt_irrefl _ (Finset.mem_range.1 hlast)
  have hne : interval.lower ≠ interval.upper := fun heq => by
    rw [heq, hupper] at hmem
    exact upper_notMem hmem
  refine ⟨fun p hp => ?_, lt_of_le_of_ne (hupper ▸ le_upper) hne, Nat.lt_succ_of_le hbound⟩
  obtain ⟨hl, hp⟩ := Finset.mem_Ico.1 hp
  exact mem_of_lt_upper hl (hupper ▸ hp)

omit hf in
/-- **Ports of a set that follow one another lie in one of its intervals.** -/
theorem exists_interval {m : Nat} (hs : 0 < size) (hm : Finset.Ico m (m + size) ⊆ free) :
    ∃ interval ∈ intervals free, interval.lower ≤ m ∧ m + size ≤ interval.upper := by
  -- The interval starts where the ports before `m` that are in the set start.
  have hex : ∃ l, Finset.Ico l (m + size) ⊆ free := ⟨m, hm⟩
  have hsub := Nat.find_spec hex
  have hle : Nat.find hex ≤ m := Nat.find_min' hex hm
  have hmin : ∀ l < Nat.find hex, ¬ Finset.Ico l (m + size) ⊆ free := fun l => Nat.find_min hex
  generalize Nat.find hex = l at hsub hle hmin
  have hl : l ∈ free := hsub (Finset.mem_Ico.2 ⟨le_rfl, by omega⟩)
  refine ⟨⟨l, upper free l⟩, mem_intervals.2 ⟨hl, or_iff_not_imp_left.2 fun hz hbefore => ?_, rfl⟩, hle, ?_⟩
  · have hz : l ≠ 0 := hz
    refine hmin (l - 1) (by omega) fun p hp => ?_
    obtain ⟨hp, hlt⟩ := Finset.mem_Ico.1 hp
    rcases Nat.lt_or_ge p l with hpl | hpl
    · rwa [show p = l - 1 by omega]
    · exact hsub (Finset.mem_Ico.2 ⟨hpl, hlt⟩)
  · by_contra hlt
    exact upper_notMem (hsub (Finset.mem_Ico.2 ⟨le_upper, Nat.lt_of_not_le hlt⟩))

/-! ## Aligned blocks -/

omit hf in
theorem mul_le_of_dvd {x m : Nat} (hx : x % size ≠ 0) (hm : size ∣ m) (hle : x ≤ m) :
    (x / size + 1) * size ≤ m := by
  obtain ⟨k, rfl⟩ := hm
  have hne : x ≠ size * k := by
    rintro rfl
    exact hx (Nat.mul_mod_right size k)
  have hlt : x / size < k := Nat.div_lt_of_lt_mul (lt_of_le_of_ne hle hne)
  rw [Nat.mul_comm size k]
  exact Nat.mul_le_mul_right size hlt

omit hf in
theorem lt_mul_div_succ {x : Nat} (hs : 0 < size) : x < (x / size + 1) * size ∧ (x / size + 1) * size ≤ x + size := by
  have hdiv := Nat.div_add_mod x size
  have hmod := Nat.mod_lt x hs
  rw [Nat.add_mul, Nat.one_mul, Nat.mul_comm]
  omega

/-- **No number of the loop exceeds its bits**: the size, the next multiple if it is asked for, and the end of a block. -/
theorem no_wrap (h : interval ∈ intervals free) (hs : 0 < size) (hfits : size ≤ interval.upper - interval.lower) :
    interval.upper - interval.lower < 2 ^ 16 ∧ (interval.lower / size + 1) * size < 2 ^ 16 ∧
      (interval.lower % size ≠ 0 → nextMultipleOf interval.lower size = (interval.lower / size + 1) * size) := by
  obtain ⟨-, hlt, hbound⟩ := intervals_spec hf h
  obtain ⟨-, hle⟩ := lt_mul_div_succ (x := interval.lower) hs
  have hnext : (interval.lower / size + 1) * size < 2 ^ 16 := by omega
  refine ⟨by omega, hnext, fun hx => ?_⟩
  rw [nextMultipleOf, if_neg hx]
  exact Nat.mod_eq_of_lt (hnext.trans (by decide))

/-- A candidate is an aligned block of the interval. -/
theorem candidate_some (h : interval ∈ intervals free) (hs : 0 < size) {block : Interval}
    (hb : candidate size interval = some block) :
    size ∣ block.lower ∧ block.upper = block.lower + size ∧ block.ports ⊆ free := by
  obtain ⟨hsub, hlt, hbound⟩ := intervals_spec hf h
  have hinside : ∀ l, interval.lower ≤ l → l + size ≤ interval.upper → Finset.Ico l (l + size) ⊆ free :=
    fun l hl hu => (Finset.Ico_subset_Ico hl hu).trans hsub
  have hsize : (interval.upper - interval.lower) % 2 ^ 16 = interval.upper - interval.lower := Nat.mod_eq_of_lt (by omega)
  rw [candidate] at hb
  dsimp only at hb
  rw [hsize] at hb
  split_ifs at hb with hsmall hodd hlate
  · obtain ⟨-, hnext, heq⟩ := no_wrap hf h hs (Nat.le_of_not_lt hsmall)
    rw [heq hodd, Nat.mod_eq_of_lt hnext] at hb hlate
    rw [Nat.mod_eq_of_lt (show (interval.lower / size + 1) * size + size < 2 ^ 16 by omega)] at hb
    cases hb
    exact ⟨Nat.dvd_mul_left _ _, rfl, hinside _ (lt_mul_div_succ hs).1.le (Nat.le_of_not_lt hlate)⟩
  · rw [Nat.mod_eq_of_lt (show interval.lower + size < 2 ^ 16 by omega)] at hb
    cases hb
    exact ⟨Nat.dvd_of_mod_eq_zero (not_not.1 hodd), rfl, hinside interval.lower le_rfl (by omega)⟩

/-- An interval without a candidate has no aligned block. -/
theorem candidate_none (h : interval ∈ intervals free) (hs : 0 < size) (hb : candidate size interval = none) {m : Nat}
    (hm : size ∣ m) (hle : interval.lower ≤ m) : ¬ m + size ≤ interval.upper := by
  intro hin
  obtain ⟨-, hlt, hbound⟩ := intervals_spec hf h
  have hsize : (interval.upper - interval.lower) % 2 ^ 16 = interval.upper - interval.lower := Nat.mod_eq_of_lt (by omega)
  rw [candidate] at hb
  dsimp only at hb
  rw [hsize] at hb
  split_ifs at hb with hsmall hodd hlate
  · omega
  · obtain ⟨-, hnext, heq⟩ := no_wrap hf h hs (Nat.le_of_not_lt hsmall)
    have hfirst := mul_le_of_dvd hodd hm hle
    rw [heq hodd, Nat.mod_eq_of_lt hnext] at hlate
    omega

/-- **A block is found exactly if there is one.** -/
theorem findSome?_candidate (hs : 0 < size) :
    (∀ block, (intervals free).findSome? (candidate size) = some block →
      size ∣ block.lower ∧ block.upper = block.lower + size ∧ block.ports ⊆ free) ∧
    ((intervals free).findSome? (candidate size) = none → ∀ m, size ∣ m → ¬ Finset.Ico m (m + size) ⊆ free) := by
  refine ⟨fun block hb => ?_, fun hnone m hm hsub => ?_⟩
  · obtain ⟨interval, hi, hc⟩ := exists_of_findSome?_eq_some hb
    exact candidate_some hf hi hs hc
  · obtain ⟨interval, hi, hle, hge⟩ := exists_interval hs hsub
    exact candidate_none hf hi hs (findSome?_eq_none_iff.1 hnone interval hi) hm hle hge

end

/-! ## Calls -/

/-- The blocks that are held are disjoint and aligned, of the given ports and all that is used. -/
structure World.Sound (total : Finset Nat) (size : Nat) (this : World) : Prop where
  free : this.allocator.free ⊆ total
  used : ∀ p, p ∈ this.allocator.used ↔ ∃ block ∈ this.held, p ∈ block.ports
  covers : ∀ p ∈ total, p ∈ this.allocator.free ↔ p ∉ this.allocator.used
  disjoint : this.held.Pairwise fun (block other : Interval) => Disjoint block.ports other.ports
  blocks : ∀ block ∈ this.held, size ∣ block.lower ∧ block.upper = block.lower + size ∧ block.ports ⊆ total

namespace World.Sound

variable {total : Finset Nat} {size : Nat} {this : World} {block : Interval}

theorem lower_mem (hs : 0 < size) (hb : block.upper = block.lower + size) : block.lower ∈ block.ports :=
  Finset.mem_Ico.2 ⟨le_rfl, by omega⟩

section

variable (h : this.Sound total size) (hs : 0 < size)
include h hs

/-- **A free block is taken.** -/
theorem allocatePorts (hd : size ∣ block.lower) (hb : block.upper = block.lower + size)
    (hsub : block.ports ⊆ this.allocator.free) : ∃ allocator, this.allocator.allocatePorts block.ports = .ok allocator ∧
      Sound total size { allocator, held := block :: this.held } := by
  have hapart : ∀ p ∈ block.ports, p ∉ this.allocator.used := fun p hp =>
    (h.covers p (h.free (hsub hp))).1 (hsub hp)
  have hused : ¬ block.ports ⊆ this.allocator.used := fun hu =>
    hapart _ (lower_mem hs hb) (hu (lower_mem hs hb))
  rw [EphemeralPortsAllocator.allocatePorts, if_neg (not_not.2 hsub), if_neg hused]
  refine ⟨_, rfl, Finset.sdiff_subset.trans h.free, fun p => ?_, fun p hp => ?_, ?_, ?_⟩
  · rw [Finset.mem_union, h.used, exists_mem_cons_iff, or_comm]
  · rw [Finset.mem_sdiff, Finset.mem_union, not_or, h.covers p hp]
  · refine pairwise_cons.2 ⟨fun other ho => Finset.disjoint_left.2 fun p hp hpo => ?_, h.disjoint⟩
    exact hapart p hp ((h.used p).2 ⟨other, ho, hpo⟩)
  · exact forall_mem_cons.2 ⟨⟨hd, hb, hsub.trans h.free⟩, h.blocks⟩

/-- **A held block is given back.** -/
theorem deallocate (hb : block ∈ this.held) : ∃ allocator, this.allocator.deallocate block.ports = .ok allocator ∧
    Sound total size { allocator, held := this.held.erase block } := by
  obtain ⟨-, heq, hsub⟩ := h.blocks block hb
  have hused : block.ports ⊆ this.allocator.used := fun p hp => (h.used p).2 ⟨block, hb, hp⟩
  have hfree : ¬ block.ports ⊆ this.allocator.free := fun hf =>
    (h.covers _ (hsub (lower_mem hs heq))).1 (hf (lower_mem hs heq)) (hused (lower_mem hs heq))
  have hperm := perm_cons_erase hb
  obtain ⟨hothers, hdisjoint⟩ := pairwise_cons.1 ((hperm.pairwise_iff fun h => h.symm).1 h.disjoint)
  rw [EphemeralPortsAllocator.deallocate, if_neg hfree, if_neg (not_not.2 hused)]
  refine ⟨_, rfl, Finset.union_subset h.free hsub, fun p => ?_, fun p hp => ?_, hdisjoint,
    fun other ho => h.blocks other (erase_subset ho)⟩
  · rw [Finset.mem_sdiff, h.used]
    constructor
    · rintro ⟨⟨other, ho, hp⟩, hno⟩
      rcases mem_cons.1 (hperm.mem_iff.1 ho) with rfl | ho
      · exact absurd hp hno
      · exact ⟨other, ho, hp⟩
    · rintro ⟨other, ho, hp⟩
      exact ⟨⟨other, erase_subset ho, hp⟩, fun hpb => Finset.disjoint_left.1 (hothers other ho) hpb hp⟩
  · rw [Finset.mem_union, Finset.mem_sdiff, h.covers p hp]
    constructor
    · rintro (hno | hpb)
      · exact fun hu => hno hu.1
      · exact fun hu => hu.2 hpb
    · intro hno
      by_cases hpb : p ∈ block.ports
      · exact .inr hpb
      · exact .inl fun hu => hno ⟨hu, hpb⟩

variable (hf : total ⊆ .range 65535)
include hf

/-- What `allocate` comes to: a free aligned block is taken, or there is none. -/
theorem allocate : (∃ allocator block, this.allocator.allocate size = .ok (allocator, .ok block) ∧
      Sound total size { allocator, held := block :: this.held }) ∨
    (∃ message, this.allocator.allocate size = .ok (this.allocator, .error message)) ∧
      ∀ m, size ∣ m → ¬ Finset.Ico m (m + size) ⊆ this.allocator.free := by
  obtain ⟨hsome, hnone⟩ := findSome?_candidate (h.free.trans hf) hs
  rw [EphemeralPortsAllocator.allocate, if_neg hs.ne']
  cases hfound : (intervals this.allocator.free).findSome? (candidate size) with
  | none => exact .inr ⟨⟨_, rfl⟩, hnone hfound⟩
  | some block =>
    obtain ⟨hd, hb, hsub⟩ := hsome block hfound
    obtain ⟨allocator, htaken, hsound⟩ := h.allocatePorts hs hd hb hsub
    exact .inl ⟨allocator, block, by dsimp only; rw [htaken]; rfl, hsound⟩

theorem step (call : Call) (hm : GivesBack this call) :
    ∃ next, this.step size call = .ok next ∧ Sound total size next := by
  cases call with
  | allocate =>
    rw [World.step]
    rcases h.allocate hs hf with ⟨allocator, block, heq, hsound⟩ | ⟨⟨message, heq⟩, -⟩
    · rw [heq]
      exact ⟨_, rfl, hsound⟩
    · rw [heq]
      exact ⟨_, rfl, h⟩
  | deallocate ports =>
    obtain ⟨allocator, heq, hsound⟩ := h.deallocate hs hm
    exact ⟨_, by rw [World.step, heq]; rfl, hsound⟩

end

end World.Sound

/-- **Held blocks are disjoint, aligned and of the given ports, and no check fails**, along every run in which only held blocks
are given back; no number wraps in the loop, and there is an error only when no aligned block is free. -/
theorem blocks_exclusive {total : Finset Nat} {size : Nat} (hsize : 0 < size) (htotal : total ⊆ .range 65535)
    {calls : List Call} (hcalls : Fallible.Meets (World.step size) GivesBack { allocator := { free := total } } calls) :
    ∃ this, calls.foldlM (World.step size) { allocator := { free := total } } = .ok this ∧ this.Sound total size ∧
      (∀ interval ∈ intervals this.allocator.free, size ≤ interval.upper - interval.lower →
        interval.upper - interval.lower < 2 ^ 16 ∧ (interval.lower / size + 1) * size < 2 ^ 16 ∧
          (interval.lower % size ≠ 0 → nextMultipleOf interval.lower size = (interval.lower / size + 1) * size)) ∧
      ∀ allocator message, this.allocator.allocate size = .ok (allocator, .error message) →
        ∀ m, size ∣ m → ¬ Finset.Ico m (m + size) ⊆ this.allocator.free := by
  have hstart : World.Sound total size { allocator := { free := total } } := by
    refine ⟨subset_rfl, fun p => ?_, fun p hp => ?_, .nil, forall_mem_nil _⟩
    · exact iff_of_false (Finset.notMem_empty p) fun ⟨_, hblock, _⟩ => not_mem_nil hblock
    · exact iff_of_true hp (Finset.notMem_empty p)
  obtain ⟨this, hrun, h⟩ := hcalls.runs (I := World.Sound total size) (fun _ call h hm => h.step hsize htotal call hm) hstart
  have hfree := h.free.trans htotal
  refine ⟨this, hrun, h, fun interval hi hfits => no_wrap hfree hi hsize hfits, fun allocator message hfails => ?_⟩
  rcases h.allocate hsize htotal with ⟨_, _, heq, -⟩ | ⟨-, hnone⟩
  · cases heq.symm.trans hfails
  · exact hnone

/-- The ports 6 to 16 have two blocks of four; the first one is given back and taken again. -/
theorem blocks_exclusive_two :
    let calls : List Call := [.allocate, .allocate, .allocate, .deallocate ⟨8, 12⟩, .allocate]
    ∃ this, calls.foldlM (World.step 4) { allocator := { free := Finset.Ico 6 17 } } = .ok this ∧
      this.held = [⟨8, 12⟩, ⟨12, 16⟩] ∧ this.Sound (Finset.Ico 6 17) 4 := by
  intro calls
  have htotal : Finset.Ico 6 17 ⊆ .range 65535 := fun p hp =>
    Finset.mem_range.2 (lt_trans (Finset.mem_Ico.1 hp).2 (by decide))
  obtain ⟨this, hrun, h, -⟩ := @blocks_exclusive (Finset.Ico 6 17) 4 (by decide) htotal calls (by decide +kernel)
  have hheld : (calls.foldlM (World.step 4) { allocator := { free := Finset.Ico 6 17 } }).toOption.map World.held =
    some [⟨8, 12⟩, ⟨12, 16⟩] := by decide +kernel
  rw [hrun] at hheld
  exact ⟨this, hrun, Option.some.inj hheld, h⟩

end Clusterd.PortMapping.EphemeralPorts
