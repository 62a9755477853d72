import Clusterd.CommonResource
import Mathlib.Algebra.Order.BigOperators.Group.List
/-! # The content of `Resources`: amounts of each kind, disks used as a whole, copies of shared volumes -/
namespace Clusterd.Common

open Values (Value Point Takes takes_of_eq)
open Resource

/-! ## Slots -/

/-- What identifies a disk used as a whole or a shared volume: its kind and its value, up to what counts as the same. -/
structure Token where
  kind : Kind
  value : Value
deriving DecidableEq

def Resource.token (r : Resource) : Token := ⟨r.kind, r.value.normal⟩

def Resource.isPlain (r : Resource) : Bool := !r.shared && !r.isWhole

inductive Slot
  | amount (kind : Kind) (point : Point)
  | whole (token : Token)
  | copies (token : Token)
deriving DecidableEq

def Slot.Unit : Slot → Prop
  | amount _ .scalar => False
  | amount _ _ => True
  | _ => False

namespace Resource_

structure Ok (e : Resource_) : Prop where
  value : e.resource.value.Ok
  shared : e.isShared = e.resource.shared
  nonempty : e.resource.isEmpty = false
  counted : e.isShared = true → 0 < e.count
  distinct : e.resource.Distinct

def Regular (e : Resource_) : Prop := e.resource.value.Regular

def weight (e : Resource_) : Slot → Int
  | .amount kind p => if e.resource.isPlain ∧ e.resource.kind = kind then e.resource.value.amount p else 0
  | .whole token => if e.resource.isWhole ∧ e.resource.token = token then 1 else 0
  | .copies token => if e.resource.shared ∧ e.resource.token = token then e.count else 0

def Alike (x y : Resource_) : Prop :=
  x.resource.kind = y.resource.kind ∧ (x.resource.isPlain = false → x.resource.value.normal = y.resource.value.normal)

end Resource_

variable {r : Resource}

theorem Resource.isPlain_congr {l : Resource} (h : l.kind = r.kind) : l.isPlain = r.isPlain := by
  rw [isPlain, isPlain, shared_congr h, isWhole_congr h]

theorem Resource.isPlain_eq_false : r.isPlain = false ↔ r.isWhole = true ∨ r.shared = true := by
  rw [isPlain]
  cases r.shared <;> cases r.isWhole <;> simp

theorem Resource.shared_of_whole (h : r.isWhole = true) : r.shared = false := by
  rw [isWhole, Bool.and_eq_true] at h
  simpa using h.1

theorem Resource.whole_of_shared (h : r.shared = true) : r.isWhole = false := by
  rw [isWhole, h]
  rfl

theorem Resource.isPlain_eq_true : r.isPlain = true ↔ r.shared = false ∧ r.isWhole = false := by
  rw [isPlain]
  cases r.shared <;> cases r.isWhole <;> simp

def spread (kind : Kind) (v : Value) : Slot → Int
  | .amount k p => if kind = k then v.amount p else 0
  | _ => 0

namespace Resource_

variable {x y e : Resource_}

/-! ## The weight of an entry, by its class -/

theorem weight_of_plain (hp : x.resource.isPlain = true) (s : Slot) :
    x.weight s = spread x.resource.kind x.resource.value s := by
  obtain ⟨hs, hw⟩ := isPlain_eq_true.1 hp
  cases s <;> simp [weight, spread, hp, hs, hw]

theorem weight_of_whole (hw : x.resource.isWhole = true) (s : Slot) :
    x.weight s = if s = .whole x.resource.token then 1 else 0 := by
  have hp : x.resource.isPlain = false := isPlain_eq_false.2 (.inl hw)
  cases s <;> simp [weight, hp, hw, shared_of_whole hw, eq_comm]

theorem weight_of_shared (hs : x.resource.shared = true) (s : Slot) :
    x.weight s = if s = .copies x.resource.token then x.count else 0 := by
  have hp : x.resource.isPlain = false := isPlain_eq_false.2 (.inr hs)
  cases s <;> simp [weight, hp, hs, whole_of_shared hs, eq_comm]

theorem classes (x : Resource_) : x.resource.isPlain = true ∨ x.resource.isWhole = true ∨ x.resource.shared = true := by
  cases hp : x.resource.isPlain with
  | true => exact .inl rfl
  | false => exact .inr (isPlain_eq_false.1 hp)

theorem Alike.refl (x : Resource_) : Alike x x := ⟨rfl, fun _ => rfl⟩

theorem Alike.symm (h : Alike x y) : Alike y x :=
  ⟨h.1.symm, fun hp => (h.2 (isPlain_congr h.1 ▸ hp)).symm⟩

theorem Alike.trans (h : Alike x y) (h' : Alike y e) : Alike x e :=
  ⟨h.1.trans h'.1, fun hp => (h.2 hp).trans (h'.2 (isPlain_congr h.1 ▸ hp))⟩

theorem Alike.token (h : Alike x y) (hp : x.resource.isPlain = false) : x.resource.token = y.resource.token := by
  rw [Resource.token, Resource.token, h.1, h.2 hp]

theorem alike_of_token (h : x.resource.token = y.resource.token) : Alike x y :=
  ⟨congrArg Token.kind h, fun _ => congrArg Token.value h⟩

variable {s : Slot}

theorem alike_of_weight (hx : x.weight s ≠ 0) (hy : y.weight s ≠ 0) : Alike x y := by
  cases s with
  | amount =>
    have hx := of_not_not fun h => hx (if_neg h)
    have hy := of_not_not fun h => hy (if_neg h)
    exact ⟨hx.2.trans hy.2.symm, fun hp => nomatch (hp ▸ hx.1)⟩
  | whole | copies =>
    have hx := of_not_not fun h => hx (if_neg h)
    have hy := of_not_not fun h => hy (if_neg h)
    exact alike_of_token (hx.2.trans hy.2.symm)

theorem weight_nonneg (hx : x.Ok) (s : Slot) : 0 ≤ x.weight s := by
  rcases x.classes with hp | hw | hs
  · rw [weight_of_plain hp]
    cases s with
    | amount _ p =>
      rw [spread]
      split_ifs
      · exact Value.amount_nonneg hx.value p
      · exact le_rfl
    | _ => exact le_rfl
  · rw [weight_of_whole hw]
    split_ifs <;> decide
  rw [weight_of_shared hs]
  split_ifs
  · exact (hx.counted (hx.shared.trans hs)).le
  · exact le_rfl

theorem exists_weight_pos (hx : x.Ok) : ∃ s, 0 < x.weight s := by
  rcases x.classes with hp | hw | hs
  · obtain ⟨p, _⟩ := Value.exists_amount_pos hx.value hx.nonempty
    exact ⟨.amount x.resource.kind p, by rwa [weight_of_plain hp, spread, if_pos rfl]⟩
  · exact ⟨.whole x.resource.token, by rw [weight_of_whole hw, if_pos rfl]; decide⟩
  · exact ⟨.copies x.resource.token, by
      rw [weight_of_shared hs, if_pos rfl]
      exact hx.counted (hx.shared.trans hs)⟩

theorem weight_le_one (x : Resource_) (hs : s.Unit) : x.weight s ≤ 1 := by
  cases s with
  | amount =>
    rw [weight]
    split_ifs
    · refine Value.amount_le_one _ ?_
      rintro rfl
      exact hs
    · decide
  | _ => exact hs.elim

theorem Alike.weight_eq (h : Alike x y) (hw : x.resource.isWhole = true) (s : Slot) : x.weight s = y.weight s := by
  rw [weight_of_whole hw, weight_of_whole (isWhole_congr h.1 ▸ hw), h.token (isPlain_eq_false.2 (.inl hw))]

/-! ## The comparisons, told by slots -/

theorem subtractable_iff (hx : x.Ok) (hy : y.Ok) : x.resource.subtractable y.resource = true ↔ Alike x y := by
  rw [Resource.subtractable_iff hx.distinct hy.distinct, Alike, Value.same_iff hx.value hy.value, Resource.isPlain_eq_false]

theorem addable_iff (hx : x.Ok) (hy : y.Ok) :
    x.resource.addable y.resource = true ↔ Alike x y ∧ x.resource.isWhole = false := by
  rw [Resource.addable_iff hx.distinct hy.distinct, Alike, Value.same_iff hx.value hy.value, Resource.isPlain_eq_false]
  cases x.resource.isWhole <;> simp

theorem Alike.weight_le_iff_amount (h : Alike x y) (hp : x.resource.isPlain = true) :
    (∀ s, y.weight s ≤ x.weight s) ↔ ∀ p, y.resource.value.amount p ≤ x.resource.value.amount p := by
  simp only [weight_of_plain hp, weight_of_plain (isPlain_congr h.1 ▸ hp), h.1]
  constructor
  · intro hle p
    have := hle (.amount y.resource.kind p)
    rwa [spread, spread, if_pos rfl, if_pos rfl] at this
  intro hle s
  cases s with
  | amount _ p =>
    rw [spread, spread]
    split_ifs
    · exact hle p
    · exact le_rfl
  | _ => exact le_rfl

theorem Alike.weight_le_iff_count (h : Alike x y) (hs : x.resource.shared = true) :
    (∀ s, y.weight s ≤ x.weight s) ↔ y.count ≤ x.count := by
  simp only [weight_of_shared hs, weight_of_shared (shared_congr h.1 ▸ hs), h.token (isPlain_eq_false.2 (.inr hs))]
  constructor
  · intro hle
    have := hle (.copies y.resource.token)
    rwa [if_pos rfl, if_pos rfl] at this
  · intro hle _
    split_ifs
    · exact hle
    · exact le_rfl

/-- **An entry contains another exactly when they are alike and it weighs no less in any slot.** -/
theorem contains_iff (hx : x.Ok) (hy : y.Ok) : x.contains y = true ↔ Alike x y ∧ ∀ s, y.weight s ≤ x.weight s := by
  have hsa := Value.same_iff hx.value hy.value
  rw [contains, hx.shared, hy.shared]
  split_ifs with h1 h2
  · simp only [bne_iff_ne, ne_eq] at h1
    exact iff_of_false (by simp) fun h => h1 (shared_congr h.1.1)
  · rw [Bool.and_eq_true, decide_eq_true_iff, same_iff hx.distinct hy.distinct, hsa]
    constructor
    · rintro ⟨hc, hk, hva⟩
      have ha : Alike x y := ⟨hk, fun _ => hva⟩
      exact ⟨ha, (ha.weight_le_iff_count h2).2 hc⟩
    · rintro ⟨h, hwe⟩
      exact ⟨(h.weight_le_iff_count h2).1 hwe, h.1, h.2 (isPlain_eq_false.2 (.inr h2))⟩
  have hle := fun ht => Value.le_iff hy.value hx.value (l := y.resource.value) (r := x.resource.value) ht
  rw [Resource.contains_iff hx.distinct hy.distinct, hsa]
  constructor
  · rintro ⟨hk, hva, hv⟩
    have ha : Alike x y := ⟨hk, fun hp => hva (isPlain_eq_false.1 hp)⟩
    refine ⟨ha, ?_⟩
    rcases x.classes with hp | hw | hs
    · exact (ha.weight_le_iff_amount hp).2 ((hle (type_congr hk).symm).1 hv)
    · exact fun s => (ha.weight_eq hw s).ge
    · exact absurd hs h2
  · rintro ⟨h, hwe⟩
    refine ⟨h.1, fun hwh => h.2 (isPlain_eq_false.2 hwh), (hle (type_congr h.1).symm).2 ?_⟩
    intro p
    cases hp : x.resource.isPlain with
    | true => exact (h.weight_le_iff_amount hp).1 hwe p
    | false => rw [← Value.amount_normal hx.value, h.2 hp, Value.amount_normal hy.value]

/-! ## Taking from an entry and adding to it -/

theorem kind_setValue {r : Resource} {v : Value} (h : v.type = r.value.type) : { r with value := v }.kind = r.kind := by
  simp only [kind, h]

theorem negative_eq_false (hx : x.resource.value.Ok) (hc : x.isShared = true → 0 ≤ x.count) : x.negative = false := by
  have hco : (x.isShared && decide (x.count < 0)) = false := by
    cases hs : x.isShared with
    | false => rfl
    | true => simpa using hc hs
  rw [negative, hco]
  cases hv : x.resource.value with
  | scalar =>
    rw [hv] at hx
    exact decide_eq_false (not_lt.2 hx)
  | _ => rfl

theorem subtract_of_shared (h : x.isShared = true) :
    x.subtract e = { x with sharedCount := some (x.count - e.count) } := by
  rw [subtract, h]
  rfl

theorem subtract_of_unshared (h : x.isShared = false) : x.subtract e =
    { x with resource := { x.resource with value := x.resource.value.subtract e.resource.value } } := by
  rw [subtract, h]
  rfl

theorem add_of_shared (h : x.isShared = true) : x.add e = { x with sharedCount := some (x.count + e.count) } := by
  rw [add, h]
  rfl

theorem add_of_unshared (h : x.isShared = false) : x.add e =
    { x with resource := { x.resource with value := x.resource.value.add e.resource.value } } := by
  rw [add, h]
  rfl

theorem subtract_ok (hx : x.Ok) (he : e.Ok) (hl : (x.subtract e).negative = false ∧ (x.subtract e).isEmpty = false) :
    (x.subtract e).Ok ∧ x.resource.kind = (x.subtract e).resource.kind ∧
      (x.resource.isWhole = false → Alike x (x.subtract e)) := by
  obtain ⟨hneg, hem⟩ := hl
  rw [negative, Bool.or_eq_false_iff] at hneg
  rw [isEmpty, Bool.or_eq_false_iff] at hem
  cases hs : x.resource.shared with
  | true =>
    rw [subtract_of_shared (hx.shared.trans hs)] at hneg hem ⊢
    refine ⟨⟨hx.value, hs.symm, hx.nonempty, fun _ => ?_, hx.distinct⟩, rfl, fun _ => Alike.refl x⟩
    have h1 : ¬ x.count - e.count < 0 := of_decide_eq_false hneg.1
    have h2 : x.count - e.count ≠ 0 := beq_eq_false_iff_ne.1 hem.1
    show 0 < x.count - e.count
    omega
  | false =>
    have hsh : x.isShared = false := hx.shared.trans hs
    rw [subtract_of_unshared hsh] at hneg hem ⊢
    have hk := kind_setValue (r := x.resource) (Value.type_subtract x.resource.value e.resource.value)
    refine ⟨⟨Value.subtract_ok hx.value he.value fun _ hn => ?_, hx.shared, hem.2,
      fun hs' => (nomatch (hsh.symm.trans hs')), hx.distinct⟩, hk.symm, fun hw => ⟨hk.symm, fun hp => ?_⟩⟩
    · have := hneg.2
      rw [hn] at this
      exact not_lt.1 (of_decide_eq_false this)
    · exact nomatch (isPlain_eq_true.2 ⟨hs, hw⟩).symm.trans hp

def WholeRegular (e : Resource_) : Prop := e.resource.isWhole = true → e.Regular

structure Leaves (x e : Resource_) : Prop where
  nonnegative : (x.subtract e).negative = false
  none : (x.subtract e).isEmpty = true → ∀ s, x.weight s = e.weight s
  some : (x.subtract e).isEmpty = false → (x.subtract e).Ok ∧ Alike x (x.subtract e) ∧
    x.resource.isWhole = false ∧ ∀ s, Takes (¬ s.Unit ∨ x.Regular) (x.weight s) (e.weight s) ((x.subtract e).weight s)
  regular : x.Regular → (x.subtract e).Regular

theorem leaves_of_shared (hx : x.Ok) (hs : x.resource.shared = true) (h : Alike x e) (he : 0 ≤ e.count)
    (hle : e.count ≤ x.count) : Leaves x e := by
  have hse : e.resource.shared = true := shared_congr h.1 ▸ hs
  have ht := h.token (isPlain_eq_false.2 (.inr hs))
  have hy := subtract_of_shared (e := e) (hx.shared.trans hs)
  have hem : (x.subtract e).isEmpty = (x.count - e.count == 0) := by
    rw [hy, isEmpty, hx.nonempty, Bool.or_false]
    rfl
  refine ⟨?_, fun hno s => ?_, fun hso => ?_, fun hreg => ?_⟩
  · rw [hy]
    exact negative_eq_false hx.value fun _ => Int.sub_nonneg_of_le hle
  · rw [hem, beq_iff_eq] at hno
    rw [weight_of_shared hs, weight_of_shared hse, ht, show x.count = e.count by omega]
  · rw [hem, beq_eq_false_iff_ne] at hso
    rw [hy]
    refine ⟨⟨hx.value, hs.symm, hx.nonempty, fun _ => ?_, hx.distinct⟩, Alike.refl x, whole_of_shared hs, fun _ => ?_⟩
    · show 0 < x.count - e.count
      omega
    rw [weight_of_shared (x := ⟨x.resource, Option.some (x.count - e.count)⟩) hs, weight_of_shared hs,
      weight_of_shared hse, ht]
    split_ifs
    · exact takes_of_eq he rfl
    · exact takes_of_eq (le_refl 0) rfl
  · rw [hy]
    exact hreg

theorem leaves_of_unshared (hx : x.Ok) (he : e.Ok) (hreg : x.WholeRegular) (hs : x.resource.shared = false)
    (hc : x.contains e = true) : Leaves x e := by
  obtain ⟨h, hle⟩ := (contains_iff hx he).1 hc
  have hsh : x.isShared = false := hx.shared.trans hs
  have hy := subtract_of_unshared (e := e) hsh
  have hv : e.resource.value.le x.resource.value = true := by
    rw [contains, hx.shared, he.shared, ← shared_congr h.1, hs] at hc
    exact ((Resource.contains_iff hx.distinct he.distinct).1 hc).2.2
  obtain ⟨hok, ha⟩ := Value.subtract_spec hx.value he.value hv
  have hk := kind_setValue (r := x.resource) (Value.type_subtract x.resource.value e.resource.value)
  have hem : (x.subtract e).isEmpty = (x.resource.value.subtract e.resource.value).isEmpty := by
    rw [hy]
    show (x.isShared && _ || _) = _
    rw [hsh]
    rfl
  refine ⟨?_, fun hno s => ?_, fun hso => ?_, fun hreg' => ?_⟩
  · rw [hy]
    exact negative_eq_false hok fun hs' => nomatch hsh.symm.trans hs'
  · rw [hem, Value.isEmpty_iff hok] at hno
    rcases x.classes with hp | hw | hs'
    · have hpe : e.resource.isPlain = true := isPlain_congr h.1 ▸ hp
      refine le_antisymm ((h.symm.weight_le_iff_amount hpe).2 (fun p => ?_) s) (hle s)
      have := (ha p).atLeast
      rw [hno p] at this
      omega
    · exact h.weight_eq hw s
    · exact nomatch hs.symm.trans hs'
  · have hp : x.resource.isPlain = true := by
      by_contra hp
      rw [Bool.not_eq_true] at hp
      -- a disk taken whole leaves nothing
      have hr : x.Regular := hreg ((isPlain_eq_false.1 hp).resolve_right (by simp [hs]))
      rw [hem, (Value.isEmpty_iff hok).2 fun p => by
        rw [(ha p).exactly (.inr hr), ← Value.amount_normal hx.value, h.2 hp, Value.amount_normal he.value,
          sub_self]] at hso
      exact nomatch hso
    have hpe : e.resource.isPlain = true := isPlain_congr h.1 ▸ hp
    rw [hem] at hso
    rw [hy]
    refine ⟨⟨hok, hx.shared, hso, fun hs' => (nomatch (hsh.symm.trans hs')), hx.distinct⟩,
      ⟨hk.symm, fun hp' => nomatch (hp.symm.trans hp')⟩, (isPlain_eq_true.1 hp).2, fun s => ?_⟩
    have hl := weight_of_plain (x := ⟨{ x.resource with value := x.resource.value.subtract e.resource.value },
      x.sharedCount⟩) ((isPlain_congr hk).trans hp) s
    rw [hl, weight_of_plain hp, weight_of_plain hpe, hk, ← h.1]
    cases s with
    | amount _ p =>
      rw [spread, spread, spread]
      split_ifs
      · refine (ha p).imp (Or.imp_left fun hu => ?_)
        cases p with
        | scalar => rfl
        | _ => exact absurd trivial hu
      · exact takes_of_eq (le_refl 0) rfl
    | _ => exact takes_of_eq (le_refl 0) rfl
  · rw [hy]
    exact Value.subtract_regular hx.value he.value hreg'

/-- **Taking an entry that is contained leaves the difference**, or nothing if there is none. -/
theorem leaves_of_contains (hx : x.Ok) (he : e.Ok) (hreg : x.WholeRegular) (h : x.contains e = true) : Leaves x e := by
  cases hs : x.resource.shared with
  | false => exact leaves_of_unshared hx he hreg hs h
  | true =>
    obtain ⟨ha, hle⟩ := (contains_iff hx he).1 h
    have hse : e.resource.shared = true := shared_congr ha.1 ▸ hs
    exact leaves_of_shared hx hs ha (he.counted (he.shared.trans hse)).le ((ha.weight_le_iff_count hs).1 hle)

def joined (s : Slot) (x y : Int) : Int :=
  match s with
  | .amount _ p => Value.join p x y
  | _ => x + y

variable {n m : Int}

theorem joined_zero (hn : 0 ≤ n) : joined s n 0 = n := by
  cases s with
  | amount _ p => cases p <;> simp [joined, Value.join, hn]
  | _ => simp [joined]

theorem joined_eq_add (hm : 0 ≤ m) (hn : 0 ≤ n) (h : s.Unit → m + n ≤ 1) : joined s m n = m + n := by
  cases s with
  | amount _ p =>
    cases p with
    | scalar => rfl
    | _ =>
      have := h trivial
      simp only [joined, Value.join]
      omega
  | _ => rfl

theorem zero_joined (hn : 0 ≤ n) : joined s 0 n = n := by
  cases s with
  | amount _ p => cases p <;> simp [joined, Value.join, hn]
  | _ => simp [joined]

theorem joined_assoc {k : Int} (hm : 0 ≤ m) (hn : 0 ≤ n) (h : s.Unit → m + n ≤ 1) :
    joined s (joined s k m) n = joined s k (m + n) := by
  cases s with
  | amount _ p =>
    cases p with
    | scalar => exact add_assoc k m n
    | _ =>
      have := h trivial
      simp only [joined, Value.join]
      omega
  | _ => exact add_assoc k m n

structure Grows (x e : Resource_) : Prop where
  ok : (x.add e).Ok
  alike : Alike x (x.add e)
  weight : ∀ s, (x.add e).weight s = joined s (x.weight s) (e.weight s)

variable (hx : x.Ok) (he : e.Ok) (h : Alike x e)
include hx he h

theorem grows_of_shared (hs : x.resource.shared = true) : Grows x e := by
  have hse : e.resource.shared = true := shared_congr h.1 ▸ hs
  have hy := add_of_shared (e := e) (hx.shared.trans hs)
  have hcx := hx.counted (hx.shared.trans hs)
  have hce := he.counted (he.shared.trans hse)
  refine ⟨?_, ?_, fun _ => ?_⟩
  · rw [hy]
    exact ⟨hx.value, hs.symm, hx.nonempty, fun _ => Int.add_pos hcx hce, hx.distinct⟩
  · rw [hy]
    exact Alike.refl x
  rw [hy, weight_of_shared (x := ⟨x.resource, Option.some (x.count + e.count)⟩) hs, weight_of_shared hs,
    weight_of_shared hse, h.token (isPlain_eq_false.2 (.inr hs))]
  split_ifs with h
  · rw [h]
    rfl
  · rw [joined_zero (le_refl 0)]

theorem grows_of_plain (hp : x.resource.isPlain = true) : Grows x e := by
  have hs : x.isShared = false := hx.shared.trans (isPlain_eq_true.1 hp).1
  have hpe : e.resource.isPlain = true := isPlain_congr h.1 ▸ hp
  have hy := add_of_unshared (e := e) hs
  have hk := kind_setValue (r := x.resource) (Value.type_add x.resource.value e.resource.value)
  have ha := Value.amount_add hx.value he.value (type_congr h.1)
  have hok := Value.add_ok hx.value he.value
  refine ⟨?_, ?_, fun s => ?_⟩
  · rw [hy]
    refine ⟨hok, hx.shared, Bool.eq_false_iff.2 fun hno => ?_, fun hs' => absurd (hs.symm.trans hs') (by decide), hx.distinct⟩
    obtain ⟨p, _⟩ := Value.exists_amount_pos hx.value hx.nonempty
    have hpe := Value.amount_nonneg he.value p
    have hz := (Value.isEmpty_iff hok).1 hno p
    rw [ha] at hz
    cases p <;> simp only [Value.join] at hz <;> omega
  · rw [hy]
    exact ⟨hk.symm, fun hp' => absurd (hp.symm.trans hp') (by decide)⟩
  rw [hy, weight_of_plain (isPlain_congr hk ▸ hp), weight_of_plain hp, weight_of_plain hpe, hk, ← h.1]
  cases s with
  | amount _ p =>
    rw [spread, spread, spread]
    split_ifs
    · exact ha p
    · exact (joined_zero (le_refl 0)).symm
  | _ => rfl

/-- **An entry that is like another and not used as a whole grows by it.** -/
theorem grows_of_alike (hw : x.resource.isWhole = false) : Grows x e := by
  rcases x.classes with hp | hw' | hs
  · exact grows_of_plain hx he h hp
  · exact nomatch hw.symm.trans hw'
  · exact grows_of_shared hx he h hs

end Resource_

/-! ## The content of a list of entries -/

namespace Resources

section

variable (this : Resources)

def content (s : Slot) : Int := (this.map (·.weight s)).sum

def Ok : Prop := ∀ e ∈ this, e.Ok

def Regular : Prop := ∀ e ∈ this, e.Regular

def WholeRegular : Prop := ∀ e ∈ this, e.WholeRegular

def Combined : Prop := this.Pairwise fun x y => x.Alike y → x.resource.isWhole = true

end

variable {a b : Resources} {x e : Resource_}

@[simp] theorem content_nil (s : Slot) : content [] s = 0 := rfl

@[simp] theorem content_cons (e : Resource_) (a : Resources) (s : Slot) :
    content (e :: a) s = e.weight s + content a s := by simp [content]

@[simp] theorem content_append (a b : Resources) (s : Slot) : content (a ++ b) s = content a s + content b s := by
  simp [content]

theorem content_perm (h : a.Perm b) (s : Slot) : content a s = content b s := (h.map _).sum_eq

theorem content_nonneg (ha : Ok a) (s : Slot) : 0 ≤ content a s := by
  refine List.sum_nonneg fun _ hn => ?_
  obtain ⟨e, he, rfl⟩ := List.mem_map.1 hn
  exact e.weight_nonneg (ha e he) s

theorem weight_le_content (ha : Ok a) (he : e ∈ a) (s : Slot) : e.weight s ≤ content a s := by
  obtain ⟨_, _, rfl⟩ := List.append_of_mem he
  have hpre := content_nonneg (fun x hx => ha x (List.mem_append_left _ hx)) s
  have hpo := content_nonneg (fun x hx => ha x (List.mem_append_right _ (List.mem_cons_of_mem _ hx))) s
  rw [content_append, content_cons]
  omega

theorem exists_weight_ne_zero {s : Slot} (h : content a s ≠ 0) : ∃ e ∈ a, e.weight s ≠ 0 := by
  by_contra hno
  refine h (List.sum_eq_zero fun _ hn => ?_)
  obtain ⟨e, he, rfl⟩ := List.mem_map.1 hn
  exact of_not_not fun hne => hno ⟨e, he, hne⟩

end Resources
end Clusterd.Common
