import Clusterd.Fallible
import Mathlib.Data.Nat.Bitwise
import Mathlib.Data.Nat.Log
/-!
# The port ranges of a filter (`port_mapping.cpp`, `filter/ip.hpp`)

A filter matches the ports of a range whose size is a power of two to which it is aligned.  `getPortRanges` cuts an interval into
such ranges, and the size it starts from is the highest power of two in the lower bound: for port 0 there is none.
-/
namespace Clusterd.PortMapping

open Fallible List Nat

/-- An interval of ports, without its upper bound. -/
structure Interval where
  (lower upper : Nat)
  nonempty : lower < upper
  bounded : upper ≤ 65535

def Interval.Has (this : Interval) (port : Nat) : Prop := this.lower ≤ port ∧ port < this.upper

structure IntervalSet where
  intervals : List Interval
  disjoint : intervals.Pairwise fun left right => ∀ port, left.Has port → ¬ right.Has port

def IntervalSet.Has (this : IntervalSet) (port : Nat) : Prop := ∃ interval ∈ this.intervals, interval.Has port

structure PortRange where
  (begin_ end_ : Nat)
deriving DecidableEq

def PortRange.Has (this : PortRange) (port : Nat) : Prop := this.begin_ ≤ port ∧ port ≤ this.end_

def PortRange.mask (this : PortRange) : Nat := 65535 ^^^ (this.end_ - this.begin_)

/-- What stops `getPortRanges`: the check of an error, an operation that is undefined, or too few turns in the model. -/
inductive Stop
  | error (message : String)
  | divisionByZero
  | turns
deriving DecidableEq

def PortRange.fromBeginEnd (begin_ end_ : Nat) : Except Stop PortRange :=
  if begin_ > end_ then .error (.error "'begin' is larger than 'end'")
  else
    let size := (end_ - begin_ + 1) % 2 ^ 16
    if size &&& (size - 1) ≠ 0 then .error (.error ("The size " ++ toString size ++ " is not a power of 2"))
    else if size = 0 then .error .divisionByZero
    else if begin_ % size ≠ 0 then .error (.error "'begin' is not size aligned")
    else .ok { begin_, end_ }

def roundDownToPowerOfTwo (x : Nat) : Nat :=
  let x := x ||| (x >>> 1)
  let x := x ||| (x >>> 2)
  let x := x ||| (x >>> 4)
  let x := x ||| (x >>> 8)
  let x := x ||| (x >>> 16)
  x - (x >>> 1)

/-- The inner loop.  A size has 32 bits, so as many turns are enough. -/
def fit (lower upper : Nat) : Nat → Nat → Nat
  | 0, size => size
  | turns + 1, size =>
    if size > 1 then
      if lower % size = 0 ∧ lower + size ≤ upper then size else fit lower upper turns (size / 2)
    else size

/-- The outer loop.  The end is computed with 64 bits, and kept with 16. -/
def cut (upper : Nat) : Nat → Nat → Except Stop (List PortRange)
  | 0, lower => if lower < upper then .error .turns else .ok []
  | turns + 1, lower =>
    if lower < upper then do
      let size := fit lower upper 32 (roundDownToPowerOfTwo lower)
      let range ← PortRange.fromBeginEnd lower ((lower + size + (2 ^ 64 - 1)) % 2 ^ 64 % 2 ^ 16)
      let ranges ← cut upper turns ((lower + size) % 2 ^ 16)
      return range :: ranges
    else .ok []

/-- `getPortRanges`, with a number of turns for each interval. -/
def getPortRanges (turns : Nat) : List Interval → Except Stop (List PortRange)
  | [] => .ok []
  | interval :: ports => do
    let ranges ← cut interval.upper turns interval.lower
    let others ← getPortRanges turns ports
    return ranges ++ others

/-! ## Rounding down -/

/-- The highest bit of a number, and the bits of a window below it. -/
structure Smeared (top window x : Nat) : Prop where
  bound : x < 2 ^ (top + 1)
  bits : ∀ i, i ≤ top → top < i + window → x.testBit i = true

theorem Smeared.step {top window x : Nat} (h : Smeared top window x) :
    Smeared top (window + window) (x ||| (x >>> window)) where
  bound := or_lt_two_pow h.bound (lt_of_le_of_lt (shiftRight_le x window) h.bound)
  bits i hi hw := by
    rw [testBit_or, testBit_shiftRight, Bool.or_eq_true]
    by_cases hin : top < i + window
    · exact .inl (h.bits i hi hin)
    · exact .inr (h.bits (window + i) (by omega) (by omega))

theorem Smeared.eq {top x : Nat} (h : Smeared top 32 x) (ht : top < 32) : x = 2 ^ (top + 1) - 1 := by
  refine eq_of_testBit_eq fun i => ?_
  rw [testBit_two_pow_sub_one]
  by_cases hi : i ≤ top
  · rw [h.bits i hi (by omega), decide_eq_true (by omega)]
  · rw [decide_eq_false (by omega)]
    exact Nat.testBit_lt_two_pow (lt_of_lt_of_le h.bound (Nat.pow_le_pow_right (by decide) (by omega)))

theorem roundDownToPowerOfTwo_eq {x : Nat} (hx : x ≠ 0) (hb : x < 2 ^ 32) : roundDownToPowerOfTwo x = 2 ^ x.log2 := by
  have hs : Smeared x.log2 1 x := by
    refine ⟨lt_log2_self, fun i _ _ => ?_⟩
    rw [show i = x.log2 by omega]
    exact testBit_log2 hx
  have hlog : x.log2 < 32 := (log2_lt hx).2 hb
  have heq := hs.step.step.step.step.step.eq hlog
  rw [roundDownToPowerOfTwo]
  rw [heq, shiftRight_eq_div_pow, pow_succ]
  omega

/-! ## The ranges of an interval -/

/-- A range of `2 ^ n` ports that is aligned to its size. -/
def PortRange.Aligned (this : PortRange) : Prop :=
  ∃ n, this.end_ + 1 = this.begin_ + 2 ^ n ∧ 2 ^ n ∣ this.begin_ ∧ this.end_ < 2 ^ 16

theorem fit_spec {lower upper : Nat} (h : lower < upper) : ∀ {turns k : Nat}, k ≤ turns →
    ∃ n, fit lower upper turns (2 ^ k) = 2 ^ n ∧ 2 ^ n ∣ lower ∧ lower + 2 ^ n ≤ upper
  | turns, 0, _ => ⟨0, by cases turns <;> rfl, one_dvd lower, h⟩
  | turns + 1, k + 1, hk => by
    have hgt : 2 ^ (k + 1) > 1 := Nat.one_lt_two_pow (Nat.succ_ne_zero k)
    rw [fit]
    split_ifs with hfit
    · exact ⟨k + 1, rfl, dvd_of_mod_eq_zero hfit.1, hfit.2⟩
    · rw [pow_succ, Nat.mul_div_cancel _ (by decide)]
      exact fit_spec h (by omega)

theorem fromBeginEnd_ok {lower n : Nat} (hd : 2 ^ n ∣ lower) (hl : 0 < lower) (hb : lower + 2 ^ n ≤ 65535) :
    PortRange.fromBeginEnd lower (lower + 2 ^ n - 1) = .ok { begin_ := lower, end_ := lower + 2 ^ n - 1 } := by
  have hpos : 0 < 2 ^ n := Nat.two_pow_pos n
  have hsi : (lower + 2 ^ n - 1 - lower + 1) % 2 ^ 16 = 2 ^ n := by omega
  rw [PortRange.fromBeginEnd, if_neg (by omega)]
  simp only [hsi, and_two_pow_sub_one_eq_mod, mod_self, mod_eq_zero_of_dvd hd, ne_eq, not_true_eq_false,
    if_false, hpos.ne']

/-- The ranges are disjoint and aligned, and cover these ports. -/
structure Cuts (has : Nat → Prop) (ranges : List PortRange) : Prop where
  disjoint : ranges.Pairwise fun left right => ∀ port, left.Has port → ¬ right.Has port
  covers : ∀ port, (∃ range ∈ ranges, range.Has port) ↔ has port
  aligned : ∀ range ∈ ranges, range.Aligned

theorem cut_ok {upper : Nat} (hu : upper ≤ 65535) : ∀ (turns lower : Nat), 0 < lower → upper - lower ≤ turns →
    ∃ ranges, cut upper turns lower = .ok ranges ∧ Cuts (fun port => lower ≤ port ∧ port < upper) ranges
  | turns, lower, hl, ht => by
    by_cases hlt : lower < upper
    · obtain ⟨turns, rfl⟩ : ∃ less, turns = less + 1 := ⟨turns - 1, by omega⟩
      have hro : roundDownToPowerOfTwo lower = 2 ^ lower.log2 := roundDownToPowerOfTwo_eq (by omega) (by omega)
      have hlog : lower.log2 < 32 := (log2_lt (by omega)).2 (by omega)
      obtain ⟨n, hfit, hd, _⟩ := fit_spec hlt hlog.le
      obtain ⟨_, hcut, hc⟩ := cut_ok hu turns (lower + 2 ^ n) (by omega) (by omega)
      have hend : (lower + 2 ^ n + (2 ^ 64 - 1)) % 2 ^ 64 % 2 ^ 16 = lower + 2 ^ n - 1 := by omega
      have hne : (lower + 2 ^ n) % 2 ^ 16 = lower + 2 ^ n := mod_eq_of_lt (by omega)
      rw [cut, if_pos hlt, hro, hfit]
      dsimp only
      rw [hend, fromBeginEnd_ok hd hl (by omega), hne, hcut]
      refine ⟨_, rfl, pairwise_cons.2 ⟨fun range hr port hp hq => ?_, hc.disjoint⟩, fun port => ?_, ?_⟩
      · have := (hc.covers port).1 ⟨range, hr, hq⟩
        have := hp.2
        simp only at this
        omega
      · simp only [mem_cons, or_and_right, exists_or, exists_eq_left, hc.covers]
        simp only [PortRange.Has]
        omega
      · refine forall_mem_cons.2 ⟨⟨n, ?_, hd, ?_⟩, hc.aligned⟩
        all_goals (simp only; omega)
    · refine ⟨[], ?_, .nil, fun port => ?_, forall_mem_nil _⟩
      · cases turns <;> rw [cut, if_neg hlt]
      · simp only [not_mem_nil, false_and, exists_false, false_iff]
        omega

/-- **No range begins at port 0**: the size is 0 there. -/
theorem cut_zero {upper : Nat} (hu : 0 < upper) (turns : Nat) (ranges : List PortRange) :
    cut upper turns 0 ≠ .ok ranges := by
  have hfit : fit 0 upper 32 (roundDownToPowerOfTwo 0) = 0 := rfl
  cases turns with
  | zero =>
    rw [cut, if_pos hu]
    nofun
  | succ =>
    rw [cut, if_pos hu, hfit]
    nofun

/-! ## The filters -/

/-- **The mask of an aligned range matches its ports.** -/
theorem PortRange.Aligned.mask {range : PortRange} (h : range.Aligned) {port : Nat} (hp : port < 2 ^ 16) :
    port &&& range.mask = range.begin_ ↔ range.Has port := by
  obtain ⟨n, _, ⟨k, hk⟩, _⟩ := h
  have hma : port &&& range.mask = 2 ^ n * (port / 2 ^ n) := by
    rw [PortRange.mask, show range.end_ - range.begin_ = 2 ^ n - 1 by omega, show 65535 = 2 ^ 16 - 1 from rfl]
    refine eq_of_testBit_eq fun i => ?_
    have hz : ¬ i < 16 → port.testBit i = false := fun hi =>
      Nat.testBit_lt_two_pow (lt_of_lt_of_le hp (Nat.pow_le_pow_right (by decide) (not_lt.1 hi)))
    simp only [testBit_and, testBit_xor, testBit_two_pow_sub_one, testBit_two_pow_mul, testBit_div_two_pow]
    by_cases hi : i < 16 <;> by_cases hn : n ≤ i <;> simp_all
  have hdiv := div_add_mod port (2 ^ n)
  rw [hma, PortRange.Has, hk]
  constructor
  · intro _
    omega
  · rintro ⟨hlo, _⟩
    rw [Nat.div_eq_of_lt_le (k := k)]
    · rw [mul_comm]; exact hlo
    · rw [succ_mul, mul_comm]; omega

theorem getPortRanges_zero {turns : Nat} : ∀ {ports : List Interval} {ranges : List PortRange},
    getPortRanges turns ports = .ok ranges → ∀ interval ∈ ports, interval.lower ≠ 0
  | [], _, _ => forall_mem_nil _
  | interval :: ports, _, h => by
    obtain ⟨ranges, hcut, h⟩ := bind_ok.1 h
    obtain ⟨_, hre, -⟩ := bind_ok.1 h
    refine forall_mem_cons.2 ⟨fun hz => ?_, getPortRanges_zero hre⟩
    rw [hz] at hcut
    exact cut_zero (zero_lt_of_lt interval.nonempty) turns ranges hcut

theorem getPortRanges_ok : ∀ (ports : List Interval),
    (ports.Pairwise fun left right => ∀ port, left.Has port → ¬ right.Has port) → (∀ interval ∈ ports, interval.lower ≠ 0) →
    ∃ ranges, getPortRanges 65535 ports = .ok ranges ∧ Cuts (fun port => ∃ interval ∈ ports, interval.Has port) ranges
  | [], _, _ => ⟨[], rfl, .nil, by simp, forall_mem_nil _⟩
  | interval :: ports, hd, hz => by
    obtain ⟨hfi, hd⟩ := pairwise_cons.1 hd
    obtain ⟨hl, hz⟩ := forall_mem_cons.1 hz
    obtain ⟨ranges, hcut, hc⟩ := cut_ok interval.bounded 65535 interval.lower (Nat.pos_of_ne_zero hl)
      (by have := interval.bounded; omega)
    obtain ⟨others, hre, ho⟩ := getPortRanges_ok ports hd hz
    refine ⟨ranges ++ others, bind_ok.2 ⟨ranges, hcut, bind_ok.2 ⟨others, hre, rfl⟩⟩, ?_, fun port => ?_, ?_⟩
    · refine pairwise_append.2 ⟨hc.disjoint, ho.disjoint, fun left hle right hri port hp hq => ?_⟩
      obtain ⟨other, hmem, hh⟩ := (ho.covers port).1 ⟨right, hri, hq⟩
      exact hfi other hmem port ((hc.covers port).1 ⟨left, hle, hp⟩) hh
    · simp only [mem_append, mem_cons, or_and_right, exists_or, exists_eq_left, hc.covers, ho.covers, Interval.Has]
    · exact forall_mem_append.2 ⟨hc.aligned, ho.aligned⟩

/-- **The filters cover exactly the ports** if and only if no interval has port 0. -/
theorem filters_exact_iff (ports : IntervalSet) :
    (∃ turns ranges, getPortRanges turns ports.intervals = .ok ranges ∧ Cuts ports.Has ranges ∧
      ∀ port < 2 ^ 16, (∃ range ∈ ranges, port &&& range.mask = range.begin_) ↔ ports.Has port) ↔
    ∀ interval ∈ ports.intervals, interval.lower ≠ 0 := by
  refine ⟨fun ⟨turns, ranges, h, _⟩ => getPortRanges_zero h, fun hz => ?_⟩
  obtain ⟨ranges, h, hc⟩ := getPortRanges_ok ports.intervals ports.disjoint hz
  refine ⟨65535, ranges, h, hc, fun port hp => ?_⟩
  refine Iff.trans ?_ (hc.covers port)
  exact exists_congr fun range => and_congr_right fun hr => (hc.aligned range hr).mask hp

/-- **The ports from 0 on are given no ranges**, however many turns there are: the remainder by the size is undefined. -/
theorem filters_zero : getPortRanges 1 [⟨0, 8, by decide, by decide⟩] = .error .divisionByZero ∧
    ∀ turns ranges, getPortRanges turns [⟨0, 8, by decide, by decide⟩] ≠ .ok ranges :=
  ⟨rfl, fun _ _ h => getPortRanges_zero h _ mem_cons_self rfl⟩

end Clusterd.PortMapping
