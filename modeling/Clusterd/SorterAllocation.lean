import Clusterd.CommonAmounts
import Clusterd.Fallible
import Clusterd.Ledger
/-!
# Allocations (`sorter/drf/sorter.hpp`)

A node of a sorter keeps what is allocated to it on each agent, with the quantities of it all.
-/
namespace Clusterd.Allocator

open Common Fallible Common.Resources

abbrev SlaveId := String

inductive Check
  /-- `CHECK_CONTAINS`, `CHECK_NOTNONE` and the like: something is there. -/
  | contains
deriving DecidableEq

def check (kind : Check) (condition : Bool) : Except Check Unit := if condition then .ok () else .error kind

def found {α : Type} (value : Option α) : Except Check α :=
  match value with
  | some a => .ok a
  | none => .error .contains

theorem check_ok {kind : Check} {condition : Bool} {u : Unit} : check kind condition = .ok u ↔ condition = true := by
  cases condition with
  | true => exact ⟨fun _ => rfl, fun _ => rfl⟩
  | false => exact ⟨nofun, nofun⟩

theorem found_ok {α : Type} {value : Option α} {a : α} : found value = .ok a ↔ value = some a := by
  cases value with
  | some => exact ⟨fun h => congrArg some (Except.ok.inj h), fun h => congrArg Except.ok (Option.some.inj h)⟩
  | none => exact ⟨nofun, nofun⟩

/-- The entry of a table replaced; it goes if it is empty. -/
def setOrErase (table : AList fun _ : String => Resources) (key : String) (resources : Resources) :
    AList fun _ : String => Resources :=
  if resources.isEmpty then table.erase key else table.insert key resources

/-! ## Allocations -/

structure Allocation where
  resources : AList (fun _ : SlaveId => Resources) := ∅
  totals : ResourceQuantities := default

namespace Allocation

variable (this : Allocation) (slaveId : SlaveId)

/-- `resources[slaveId]`. -/
def on : Resources := (this.resources.lookup slaveId).getD []

/-- The quantities that change with `changed`, a shared resource counting if `resources` does not hold it. -/
def quantities (resources changed : Resources) : ResourceQuantities :=
  .fromScalarResources
    (changed.nonShared.plus (changed.shared.filter fun resource => !resources.containsObject resource)).scalars

def add (toAdd : Resources) : Allocation where
  resources := this.resources.insert slaveId ((this.on slaveId).plus toAdd)
  totals := this.totals + quantities (this.on slaveId) toAdd

def subtract (toRemove : Resources) : Except Check Allocation := do
  let resources ← found (this.resources.lookup slaveId)
  check .contains (resources.contains toRemove)
  let remaining := resources.minus toRemove
  let quantitiesToRemove := quantities remaining toRemove
  check .contains (this.totals.contains quantitiesToRemove)
  return { resources := setOrErase this.resources slaveId remaining, totals := this.totals - quantitiesToRemove }

def update (oldAllocation newAllocation : Resources) : Except Check Allocation := do
  let oldAllocationQuantities := ResourceQuantities.fromScalarResources oldAllocation.scalars
  let newAllocationQuantities := ResourceQuantities.fromScalarResources newAllocation.scalars
  let resources ← found (this.resources.lookup slaveId)
  check .contains (resources.contains oldAllocation)
  check .contains (this.totals.contains oldAllocationQuantities)
  return {
    resources := setOrErase this.resources slaveId ((resources.minus oldAllocation).plus newAllocation)
    totals := this.totals - oldAllocationQuantities + newAllocationQuantities }

end Allocation

/-!
# What the allocation of a node keeps

The total quantities of an allocation are those of its resources on each agent, a shared volume counting once.  Adding and
subtracting keep this; replacing does so if it does not change which shared volumes there are without their counting.
-/
namespace Allocation

open ResourceQuantities Ledger List

variable {this : Allocation} {slaveId : SlaveId} {a b r old new : Resources} {name : String}

structure Sound (this : Allocation) : Prop where
  tame : ∀ slaveId resources, this.resources.lookup slaveId = some resources → Tame resources
  nonempty : ∀ slaveId resources, this.resources.lookup slaveId = some resources → resources ≠ []
  totals : ∀ name, (this.totals.get name : Int) = Ledger.total (total · name .scalar) this.resources

theorem Sound.on (h : Sound this) (slaveId : SlaveId) : Tame (this.on slaveId) := by
  rw [Allocation.on]
  cases hl : this.resources.lookup slaveId with
  | none => exact tame_nil
  | some resources => exact h.tame slaveId resources hl

/-! ## Quantities -/

theorem total_counted_split (ha : Kept a) (name : String) : ∀ {b : Resources}, Ok b → SharedValid b →
    total b.nonShared name .scalar + total (b.shared.filter fun resource => !a.containsObject resource) name .scalar =
      total (counted a b) name .scalar
  | [], _, _ => rfl
  | e :: b, hb, hv => by
    obtain ⟨he, hb⟩ := forall_mem_cons.1 hb
    obtain ⟨hev, hv⟩ := forall_mem_cons.1 hv
    have ih := total_counted_split ha name hb hv
    rw [total_counted_cons, ← ih]
    unfold nonShared shared Resources.filter
    cases hs : e.resource.shared with
    | false => simp [hs, total_cons, add_assoc]
    | true =>
      have hiff := ha.containsObject_iff he hs (hev hs)
      by_cases hpos : 0 < content a (.copies e.resource.token)
      · simp [hs, hpos, hiff.2 hpos]
      have hf : a.containsObject e.resource = false := Bool.eq_false_iff.2 fun ht => hpos (hiff.1 ht)
      simp only [hs, hpos, hf, total_cons, filter_cons, Bool.not_true, Bool.not_false, Bool.false_eq_true,
        if_true, if_false, and_false]
      omega

/-- **The quantities that change are those of the entries that count.** -/
theorem get_quantities (ha : Kept a) (hb : Kept b) (hv : SharedValid b) (name : String) :
    ((quantities a b).get name : Int) = total (counted a b) name .scalar := by
  have hsh : Kept (b.shared.filter fun resource => !a.containsObject resource) :=
    hb.sublist (filter_sublist.trans filter_sublist)
  have hns : Kept b.nonShared := hb.sublist filter_sublist
  have hno : ∀ token, content b.nonShared (.copies token) = 0 :=
    Unshared.copies fun e he => by simpa using (mem_filter.1 he).2
  have hall : counted b.nonShared (b.shared.filter fun resource => !a.containsObject resource) =
      b.shared.filter fun resource => !a.containsObject resource :=
    filter_eq_self.2 fun _ _ => by simp [hno]
  rw [quantities, get_fromScalarResources name (Kept.plus _ hns hsh.ok).1.ok,
    Kept.total_plus_counted name _ hns hsh, hall, total_counted_split ha name hb.ok hv]

/-! ## What the operations leave -/

theorem share_eq (this : Allocation) (slaveId : SlaveId) (name : String) :
    share (total · name .scalar) this.resources slaveId = total (this.on slaveId) name .scalar := by
  rw [share, on]
  cases this.resources.lookup slaveId <;> rfl

theorem add_ne_nil {e : Resource_} (h : a ≠ [] ∨ e.isEmpty = false) : a.add e ≠ [] := by
  rw [Resources.add]
  split_ifs with he
  · exact h.resolve_right (by simp [he])
  cases a with
  | nil => exact cons_ne_nil _ _
  | cons =>
    rw [combine]
    split_ifs <;> exact cons_ne_nil _ _

theorem plus_ne_nil : ∀ {b a : Resources}, a ≠ [] ∨ b ≠ [] → Ok b → a.plus b ≠ []
  | [], _, h, _ => h.resolve_right fun hb => hb rfl
  | e :: b, a, _, hb => by
    obtain ⟨he, hb⟩ := forall_mem_cons.1 hb
    show (a.add e).plus b ≠ []
    exact plus_ne_nil (.inl (add_ne_nil (.inr he.isEmpty))) hb

/-- **Adding something.** -/
theorem Sound.add (h : Sound this) (slaveId : SlaveId) (hr : Tame r) (hne : r ≠ []) : Sound (this.add slaveId r) := by
  have hon := h.on slaveId
  refine ⟨?_, ?_, fun name => ?_⟩
  · intro other resources hl
    rcases lookup_insert_some.1 hl with ⟨rfl, rfl⟩ | ⟨-, hl⟩
    · exact hon.plus hr
    · exact h.tame other resources hl
  · intro other resources hl
    rcases lookup_insert_some.1 hl with ⟨rfl, rfl⟩ | ⟨-, hl⟩
    · exact plus_ne_nil (.inr hne) hr.kept.ok
    · exact h.nonempty other resources hl
  · unfold Allocation.add
    rw [get_add, Nat.cast_add, h.totals, get_quantities hon.kept hr.kept hr.valid,
      total_insert, share_eq, Kept.total_plus_counted name r hon.kept hr.kept]
    omega

theorem lookup_setOrErase (table : AList fun _ : String => Resources) (slaveId : SlaveId) (r : Resources)
    (other : SlaveId) : (setOrErase table slaveId r).lookup other =
      if other = slaveId then if r = [] then none else some r else table.lookup other := by
  unfold setOrErase
  cases r with
  | nil =>
    rw [if_pos rfl, if_pos (isEmpty_nil)]
    split_ifs with heq
    · rw [heq, AList.lookup_erase]
    · rw [AList.lookup_erase_ne heq]
  | cons e r =>
    rw [if_neg (by simp), if_neg (cons_ne_nil e r)]
    split_ifs with heq
    · rw [heq, AList.lookup_insert]
    · rw [AList.lookup_insert_ne heq]

section
variable (this : Allocation) (slaveId : SlaveId) (r : Resources)

theorem total_setOrErase (name : String) :
    total (total · name .scalar) (setOrErase this.resources slaveId r) =
      total (total · name .scalar) this.resources - total (this.on slaveId) name .scalar + total r name .scalar := by
  unfold setOrErase
  cases r with
  | nil => rw [if_pos isEmpty_nil, total_erase, share_eq, total_nil, add_zero]
  | cons => rw [if_neg (by simp), total_insert, share_eq]

theorem on_replaced (totals : ResourceQuantities) (other : SlaveId) :
    ({ resources := setOrErase this.resources slaveId r, totals } : Allocation).on other =
      if other = slaveId then r else this.on other := by
  rw [on, lookup_setOrErase]
  split_ifs with heq he
  · exact he.symm
  · rfl
  · rfl

end

theorem Sound.replaced (h : Sound this) (hr : Tame r) {totals : ResourceQuantities}
    (ht : ∀ name, (totals.get name : Int) = this.totals.get name - total (this.on slaveId) name .scalar +
      total r name .scalar) : Sound { resources := setOrErase this.resources slaveId r, totals } := by
  refine ⟨?_, ?_, fun _ => ?_⟩
  · intro other resources hl
    rw [lookup_setOrErase] at hl
    split_ifs at hl with heq he
    · cases hl
      exact hr
    · exact h.tame other resources hl
  · intro other resources hl
    rw [lookup_setOrErase] at hl
    split_ifs at hl with heq he
    · cases hl
      exact he
    · exact h.nonempty other resources hl
  · rw [ht, h.totals, total_setOrErase]

theorem Sound.total_le (h : Sound this) (slaveId : SlaveId) (name : String) :
    total (this.on slaveId) name .scalar ≤ this.totals.get name := by
  rw [h.totals, ← share_eq]
  refine share_le_total (fun entry hen => ?_) slaveId
  have hl : this.resources.lookup entry.1 = some entry.2 := AList.mem_lookup_iff.2 hen
  exact total_nonneg (h.tame _ _ hl).kept.ok name .scalar

section
variable (h : Sound this) (hs : (this.resources.lookup slaveId).isSome)
include h hs

theorem Sound.taken (hr : Ok r) (hle : ∀ s, content r s ≤ content (this.on slaveId) s) :
    this.resources.lookup slaveId = some (this.on slaveId) ∧ (this.on slaveId).contains r = true ∧
      Tame ((this.on slaveId).minus r) := by
  obtain ⟨resources, hl⟩ := Option.isSome_iff_exists.1 hs
  have hon : this.on slaveId = resources := by rw [Allocation.on, hl]; rfl
  have ht := h.on slaveId
  exact ⟨hon ▸ hl, Kept.contains_of_covered r ht.kept ht.whole hr hle, (ht.minus hr hle).1⟩

/-- **Subtracting what is there.** -/
theorem Sound.subtract (hr : Kept r)
    (hv : SharedValid r) (hle : ∀ s, content r s ≤ content (this.on slaveId) s) :
    ∃ after, this.subtract slaveId r = .ok after ∧ Sound after ∧
      ∀ other, after.on other = if other = slaveId then (this.on slaveId).minus r else this.on other := by
  obtain ⟨hl, hch, hlf⟩ := h.taken hs hr.ok hle
  have ht := h.on slaveId
  have hq := get_quantities hlf.kept hr hv
  have hm := fun name => Kept.total_minus_counted name r ht.kept ht.whole hr hle
  have hc : this.totals.contains (quantities ((this.on slaveId).minus r) r) = true := by
    refine ResourceQuantities_contains_of_le fun name => ?_
    have hn := total_nonneg hlf.kept.ok name .scalar
    have := hq name
    have := hm name
    have := h.total_le slaveId name
    omega
  refine ⟨{ resources := setOrErase this.resources slaveId ((this.on slaveId).minus r)
            totals := this.totals - quantities ((this.on slaveId).minus r) r }, ?_, h.replaced hlf ?_, on_replaced _ _ _ _⟩
  · exact bind_ok.2 ⟨_, found_ok.2 hl, bind_ok.2 ⟨(), check_ok.2 hch, bind_ok.2 ⟨(), check_ok.2 hc, rfl⟩⟩⟩
  · intro name
    have hle' := get_le_of_contains hc name
    have := hq name
    have := hm name
    rw [get_sub]
    omega

/-- **Replacing what is there**, if the shared volumes that come or go count. -/
theorem Sound.update (hold : Kept old) (hnew : Tame new)
    (hle : ∀ s, content old s ≤ content (this.on slaveId) s) (he : Exchanges (this.on slaveId) old new) :
    ∃ after, this.update slaveId old new = .ok after ∧ Sound after ∧
      ∀ other, after.on other = if other = slaveId then ((this.on slaveId).minus old).plus new else this.on other := by
  obtain ⟨hl, hch, hlf⟩ := h.taken hs hold.ok hle
  have ht := h.on slaveId
  have hc : this.totals.contains (.fromScalarResources old.scalars) = true := by
    refine ResourceQuantities_contains_of_le fun name => ?_
    have := get_fromScalarResources name hold.ok
    have := Kept.total_le name .scalar old ht.kept hold hle
    have := h.total_le slaveId name
    omega
  refine ⟨{ resources := setOrErase this.resources slaveId (((this.on slaveId).minus old).plus new)
            totals := this.totals - .fromScalarResources old.scalars + .fromScalarResources new.scalars }, ?_,
    h.replaced (hlf.plus hnew) ?_, on_replaced _ _ _ _⟩
  · exact bind_ok.2 ⟨_, found_ok.2 hl, bind_ok.2 ⟨(), check_ok.2 hch, bind_ok.2 ⟨(), check_ok.2 hc, rfl⟩⟩⟩
  · intro name
    have hle' := get_le_of_contains hc name
    have := get_fromScalarResources name hold.ok
    have := get_fromScalarResources name hnew.kept.ok
    have := Kept.total_exchange ht.kept ht.whole hold hnew.kept hle he name
    rw [get_add, Nat.cast_add, get_sub]
    omega

end

end Allocation

end Clusterd.Allocator

/-! # The calls on one allocation -/

namespace Clusterd.Sorters

open Common Common.Resources Fallible List
open Allocator (Allocation Check SlaveId)

inductive Change
  | add (slaveId : SlaveId) (toAdd : Resources)
  | subtract (slaveId : SlaveId) (toRemove : Resources)
  | update (slaveId : SlaveId) (oldAllocation newAllocation : Resources)

def Change.perform (this : Allocation) : Change → Except Check Allocation
  | .add slaveId toAdd => .ok (this.add slaveId toAdd)
  | .subtract slaveId toRemove => this.subtract slaveId toRemove
  | .update slaveId oldAllocation newAllocation => this.update slaveId oldAllocation newAllocation

/-- What is taken is there in full, and a replacement drops a shared volume with its last copy only and brings in none
that is there already. -/
def Change.Counts (this : Allocation) : Change → Prop
  | .add _ toAdd => toAdd ≠ [] ∧ Tame toAdd
  | .subtract slaveId toRemove =>
    (this.resources.lookup slaveId).isSome ∧ Kept toRemove ∧ SharedValid toRemove ∧
      ∀ s, content toRemove s ≤ content (this.on slaveId) s
  | .update slaveId old new =>
    (this.resources.lookup slaveId).isSome ∧ Kept old ∧ Tame new ∧
      (∀ s, content old s ≤ content (this.on slaveId) s) ∧ Exchanges (this.on slaveId) old new

theorem Change.step {this : Allocation} (h : this.Sound) : ∀ change : Change, change.Counts this →
    ∃ after, change.perform this = .ok after ∧ after.Sound
  | .add slaveId _, hc => ⟨_, rfl, h.add slaveId hc.2 hc.1⟩
  | .subtract _ _, ⟨hs, hr, hv, hle⟩ => by
    obtain ⟨after, hsu, ha, -⟩ := h.subtract hs hr hv hle
    exact ⟨after, hsu, ha⟩
  | .update _ _ _, ⟨hs, hold, hnew, hle, he⟩ => by
    obtain ⟨after, hup, ha, -⟩ := h.update hs hold hnew hle he
    exact ⟨after, hup, ha⟩

/-- **The totals of an allocation count every shared volume of an agent once**, and no check fails. -/
theorem totals_count_once {changes : List Change} (h : Meets Change.perform Change.Counts {} changes) :
    ∃ this, changes.foldlM Change.perform {} = .ok this ∧
      ∀ name, (this.totals.get name : Int) = Ledger.total (total · name .scalar) this.resources := by
  obtain ⟨this, hrun, hs⟩ := h.runs (I := Allocation.Sound) (fun _ change hs hc => change.step hs hc) (s := {}) ⟨nofun, nofun, fun _ => rfl⟩
  exact ⟨this, hrun, hs.totals⟩

def oneCopy : Resources := [Resource_.of sharedVolume]

theorem oneCopy_built : Built oneCopy := @Built.addObject [] sharedVolume .empty sharedVolume_fits

theorem oneCopy_below : Below oneCopy := by
  intro _ _ hne
  refine absurd ?_ hne
  rfl

theorem totals_count_once_replaced : ∃ this,
    [Change.add "s" oneCopy, .update "s" oneCopy []].foldlM Change.perform {} = .ok this ∧
      ∀ name, (this.totals.get name : Int) = Ledger.total (total · name .scalar) this.resources := by
  have ht : Tame oneCopy := oneCopy_built.tame (forall_mem_singleton.2 trivial) oneCopy_below
  refine totals_count_once ⟨⟨cons_ne_nil _ _, ht⟩, fun after ha => ?_⟩
  have hon : after.on "s" = oneCopy := by
    rw [← Except.ok.inj ha]
    rfl
  refine ⟨⟨by rw [← Except.ok.inj ha]; rfl, ht.kept, tame_nil, fun _ => by rw [hon], fun _ => ⟨fun _ _ => ?_, fun _ hpos => ?_⟩⟩,
    fun _ _ => trivial⟩
  · rw [hon]
  · exact absurd hpos (lt_irrefl 0)

/-- One of two copies is replaced by nothing: the volume is not counted any more, and its other copy cannot be taken. -/
theorem update_counts_copy : ∃ this,
    [Change.add "s" oneCopy, .add "s" oneCopy, .update "s" oneCopy []].foldlM Change.perform {} = .ok this ∧
      this.on "s" = oneCopy ∧ total (this.on "s") "disk" .scalar = 1000 ∧ this.totals.get "disk" = 0 ∧
      this.subtract "s" oneCopy = .error .contains :=
  ⟨_, rfl, rfl, rfl, rfl, rfl⟩

end Clusterd.Sorters
