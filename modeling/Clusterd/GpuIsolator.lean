import Clusterd.Run
import Mathlib.Data.Finset.Card
import Mathlib.Data.List.AList
/-!
# The GPU allocators (`gpu/allocator.cpp`, `gpu/rocm_allocator.cpp`)

`NvidiaGpuAllocatorProcess` and `RocmGpuAllocatorProcess` are the same text.  A set of GPUs is gone through in the order of
its comparison, which `order` gives as the list of all GPUs.
-/
namespace Clusterd.Gpus

open Finset List

structure Gpu where
  (major minor : Nat)
deriving DecidableEq

def first (order : List Gpu) (count : Nat) (gpus : Finset Gpu) : Finset Gpu :=
  ((order.filter (· ∈ gpus)).take count).toFinset

theorem first_subset (order : List Gpu) (count : Nat) (gpus : Finset Gpu) : first order count gpus ⊆ gpus := by
  intro _ hgpu
  have hmem := mem_of_mem_take (mem_toFinset.mp hgpu)
  simpa using (mem_filter.mp hmem).2

variable {gpus : Finset Gpu}

theorem card_first {order : List Gpu} {count : Nat} (hn : order.Nodup)
    (hg : ∀ gpu ∈ gpus, gpu ∈ order) (hc : count ≤ gpus.card) : (first order count gpus).card = count := by
  have hset : (order.filter (· ∈ gpus)).toFinset = gpus := by
    ext gpu
    rw [mem_toFinset, mem_filter, decide_eq_true_iff]
    exact ⟨fun h => h.2, fun h => ⟨hg gpu h, h⟩⟩
  have hf : (order.filter (· ∈ gpus)).Nodup := hn.filter _
  have hl : (order.filter (· ∈ gpus)).length = gpus.card := by
    rw [← toFinset_card_of_nodup hf, hset]
  rw [first, toFinset_card_of_nodup (hf.sublist (take_sublist _ _)), length_take]
  omega

structure Allocator where
  available : Finset Gpu
  allocated : Finset Gpu := ∅
deriving DecidableEq

namespace Allocator

/-- `allocate` of given GPUs; `none` is a failure. -/
def allocate (this : Allocator) (gpus : Finset Gpu) : Option Allocator :=
  let allocation := this.available ∩ gpus
  if allocation.card < gpus.card then none
  else some { available := this.available \ allocation, allocated := this.allocated ∪ allocation }

/-- `allocate` of a number of GPUs, with the GPUs. -/
def allocateCount (order : List Gpu) (this : Allocator) (count : Nat) : Option (Allocator × Finset Gpu) :=
  if this.available.card < count then none
  else
    let allocation := first order count this.available
    (this.allocate allocation).map (·, allocation)

def deallocate (this : Allocator) (gpus : Finset Gpu) : Option Allocator :=
  let deallocation := this.allocated ∩ gpus
  if deallocation.card < gpus.card then none
  else some { available := this.available ∪ deallocation, allocated := this.allocated \ deallocation }

structure Tracks (total : Finset Gpu) (this : Allocator) : Prop where
  covers : this.available ∪ this.allocated = total
  disjoint : Disjoint this.available this.allocated

theorem tracks_new (total : Finset Gpu) : Tracks total { available := total } where
  covers := union_empty total
  disjoint := disjoint_empty_right total

variable {total allocation : Finset Gpu} {order : List Gpu} {this after : Allocator}

theorem allocate_of_subset (hg : gpus ⊆ this.available) :
    this.allocate gpus = some { available := this.available \ gpus, allocated := this.allocated ∪ gpus } := by
  simp [allocate, inter_eq_right.mpr hg]

structure Handed (this after : Allocator) (allocation : Finset Gpu) : Prop where
  free : allocation ⊆ this.available
  available : after.available = this.available \ allocation
  allocated : after.allocated = this.allocated ∪ allocation

theorem allocateCount_some {count : Nat} (h : allocateCount order this count = some (after, allocation)) :
    Handed this after allocation ∧ allocation = first order count this.available ∧ count ≤ this.available.card := by
  have hf := first_subset order count this.available
  simp only [allocateCount, allocate_of_subset hf, Option.map_some] at h
  split_ifs at h with hc
  cases h
  exact ⟨⟨hf, rfl, rfl⟩, rfl, not_lt.mp hc⟩

theorem Tracks.handed (ht : Tracks total this) (h : Handed this after allocation) : Tracks total after where
  covers := by
    rw [h.available, h.allocated, ← ht.covers]
    ext gpu
    have hf := @h.free gpu
    simp only [mem_union, mem_sdiff]
    tauto
  disjoint := by
    rw [h.available, h.allocated, disjoint_union_right]
    exact ⟨ht.disjoint.mono_left sdiff_subset, sdiff_disjoint⟩

theorem deallocate_of_subset (hg : gpus ⊆ this.allocated) :
    this.deallocate gpus = some { available := this.available ∪ gpus, allocated := this.allocated \ gpus } := by
  simp [deallocate, inter_eq_right.mpr hg]

theorem Tracks.deallocated (ht : Tracks total this) (hg : gpus ⊆ this.allocated) :
    Tracks total { available := this.available ∪ gpus, allocated := this.allocated \ gpus } where
  covers := by
    rw [← ht.covers]
    ext gpu
    simp only [mem_union, mem_sdiff]
    tauto
  disjoint := by
    rw [disjoint_union_left]
    exact ⟨ht.disjoint.mono_right sdiff_subset, disjoint_sdiff⟩

end Allocator

end Clusterd.Gpus

/-!
# The GPU isolators (`gpu/isolator.cpp`, `gpu/rocm_isolator.cpp`)

`NvidiaGpuIsolatorProcess` and `RocmGpuIsolatorProcess` handle GPUs by the same text.  What a call leaves to a continuation is
pending on the container, and the steps of different containers interleave; a call waits for the one before it on its
container.  The device operations succeed.
-/
namespace Clusterd.Gpus

abbrev ContainerId := String

inductive Pending
  /-- `prepare`, until access to the control devices is granted (cgroups v2). -/
  | configure (gpus : Nat)
  /-- `allocate` at the allocator. -/
  | allocate (additional requested : Nat)
  /-- `_update`. -/
  | grant (allocation : Finset Gpu) (requested : Nat)
  /-- The continuation of `_update` (cgroups v2). -/
  | record (allocation : Finset Gpu) (requested : Nat)
  /-- `reconfigure` with GPUs to remove (cgroups v2). -/
  | revoke (deallocated : Finset Gpu) (requested : Nat)
  /-- `deallocate` at the allocator. -/
  | deallocate (deallocated : Finset Gpu) (requested : Nat)
  /-- `deallocate` at the allocator, for `cleanup`. -/
  | release
  /-- The continuation of `cleanup`. -/
  | forget
deriving DecidableEq

structure Info where
  allocated : Finset Gpu := ∅
  requested : Nat := 0
  pending : Option Pending := none
deriving DecidableEq

structure Isolator where
  usingCgroups2 : Bool
  /-- The order of the GPUs. -/
  order : List Gpu
  allocator : Allocator
  infos : AList (fun _ : ContainerId => Info) := ∅
  /-- The GPUs that the cgroup of a container can access. -/
  access : AList (fun _ : ContainerId => Finset Gpu) := ∅

inductive Event
  /-- `prepare`, with the `gpus` asked for in thousandths. -/
  | prepare (containerId : ContainerId) (gpus : Nat)
  | update (containerId : ContainerId) (gpus : Nat)
  | cleanup (containerId : ContainerId)
  /-- The next step of the call on a container. -/
  | proceed (containerId : ContainerId)

namespace Isolator

variable (this : Isolator)

section

variable (containerId : ContainerId)

def accessible : Finset Gpu := (this.access.lookup containerId).getD ∅

def setInfo (info : Info) : Isolator :=
  { this with infos := this.infos.insert containerId info }

def setAccess (gpus : Finset Gpu) : Isolator :=
  { this with access := this.access.insert containerId gpus }

/-- `update`, on a container that is known: a count that is not whole is a failure. -/
def update (info : Info) (gpus : Nat) : Isolator :=
  let requested := gpus / 1000
  if gpus % 1000 ≠ 0 then this.setInfo containerId { info with pending := none }
  else if info.allocated.card < requested then
    this.setInfo containerId
      { info with pending := some (.allocate (requested - info.allocated.card) requested) }
  else if requested < info.allocated.card then
    let deallocated := first this.order (info.allocated.card - requested) info.allocated
    let remaining := { info with allocated := info.allocated \ deallocated }
    if this.usingCgroups2 then
      this.setInfo containerId { remaining with pending := some (.revoke deallocated requested) }
    else
      (this.setAccess containerId (this.accessible containerId \ deallocated)).setInfo containerId
        { remaining with pending := some (.deallocate deallocated requested) }
  else this.setInfo containerId { info with pending := none, requested }

/-- `prepare`: the cgroup of a container is new. -/
def prepare (gpus : Nat) : Isolator :=
  let created := this.setAccess containerId ∅
  if this.usingCgroups2 then created.setInfo containerId { pending := some (.configure gpus) }
  else created.update containerId {} gpus

def advance (info : Info) : Pending → Isolator
  | .configure gpus => this.update containerId info gpus
  | .allocate additional requested =>
    match Allocator.allocateCount this.order this.allocator additional with
    | none => this.setInfo containerId { info with pending := none }
    | some (allocator, allocation) =>
      { this with allocator }.setInfo containerId { info with pending := some (.grant allocation requested) }
  | .grant allocation requested =>
    let granted := this.setAccess containerId (this.accessible containerId ∪ allocation)
    if this.usingCgroups2 then
      granted.setInfo containerId { info with pending := some (.record allocation requested) }
    else granted.setInfo containerId { allocated := allocation, requested }
  | .record allocation requested => this.setInfo containerId { allocated := allocation, requested }
  | .revoke deallocated requested =>
    (this.setAccess containerId (this.accessible containerId \ deallocated)).setInfo containerId
      { info with pending := some (.deallocate deallocated requested) }
  | .deallocate deallocated requested =>
    match this.allocator.deallocate deallocated with
    | none => this.setInfo containerId { info with pending := none }
    | some allocator => { this with allocator }.setInfo containerId { info with pending := none, requested }
  | .release =>
    match this.allocator.deallocate info.allocated with
    | none => this.setInfo containerId { info with pending := none }
    | some allocator => { this with allocator }.setInfo containerId { info with pending := some .forget }
  | .forget => { this with infos := this.infos.erase containerId }

end

def step : Event → Isolator
  | .prepare containerId gpus =>
    match this.infos.lookup containerId with
    | none => this.prepare containerId gpus
    | some _ => this
  | .update containerId gpus =>
    match this.infos.lookup containerId with
    | some info => if info.pending = none then this.update containerId info gpus else this
    | none => this
  | .cleanup containerId =>
    match this.infos.lookup containerId with
    | some info =>
      if info.pending = none then this.setInfo containerId { info with pending := some .release } else this
    | none => this
  | .proceed containerId =>
    match this.infos.lookup containerId with
    | some info =>
      match info.pending with
      | some pending => this.advance containerId info pending
      | none => this
    | none => this

end Isolator

end Clusterd.Gpus
