import Clusterd.Fallible
import Clusterd.GpuRocm
import Clusterd.Ledger
import Mathlib.Data.List.Sort
/-!
# ROCm GPUs on an agent with both containerizers (`containerizer.cpp`, `docker.cpp`)

The docker containerizer is given an allocator made by `Containerizer::create`, the ROCm isolator of the mesos
containerizer one made by `MesosContainerizer::create`.  Both start with all the GPUs.
-/
namespace Clusterd.Gpus

open List Allocator Fallible
open Finset (sdiff_subset empty_subset union_subset card_le_card)

/-- What the agent starts with: its flags, `Resources::parse` of the `gpus`, and the devices of the machine. -/
structure Host where
  flags : Rocm.Flags
  parse : Stout.Text → Except Stout.Text (Option Nat)
  /-- The DRM render devices. -/
  discovered : List Gpu
  /-- Whether `/dev/kfd` exists. -/
  kfd : Bool := true
  /-- Whether NVML is available. -/
  nvml : Bool := false

namespace Host

variable (host : Host)

def enumerateGpuResources : Except Stout.Text (Option Nat) :=
  Rocm.enumerateGpuResources host.parse host.kfd host.flags host.discovered

def enumerateGpus (gpus : Option Nat) : Except Stout.Text (Finset Gpu) :=
  Rocm.enumerateGpus host.flags gpus host.discovered

/-- The order of `operator<` on GPUs, in which a `set<Gpu>` is gone through. -/
def order : List Gpu :=
  host.discovered.dedup.insertionSort fun left right =>
    left.major < right.major ∨ left.major = right.major ∧ left.minor ≤ right.minor

end Host

/-! ## The docker containerizer -/
structure Docker where
  order : List Gpu
  /-- The ROCm components, if there are any. -/
  rocm : Option Allocator
  containers : AList (fun _ : ContainerId => Finset Gpu) := ∅
  requests : List (ContainerId × Nat) := []
  allocations : List (ContainerId × Finset Gpu) := []
  /-- GPUs given back, for a container that still has them or for none. -/
  returns : List (Option ContainerId × Finset Gpu) := []
  deallocations : List (ContainerId × Finset Gpu) := []

inductive DockerEvent
  /-- A container is made. -/
  | launch (containerId : ContainerId)
  | allocateRocmGpus (containerId : ContainerId) (count : Nat)
  /-- `allocate` at the allocator. -/
  | allocate
  /-- `_allocateRocmGpus`. -/
  | allocated
  | deallocateRocmGpus (containerId : ContainerId)
  /-- `deallocate` at the allocator. -/
  | deallocate
  /-- `_deallocateRocmGpus`. -/
  | deallocated
  /-- `____destroy`. -/
  | destroy (containerId : ContainerId)

namespace Docker

def step (this : Docker) : DockerEvent → Docker
  | .launch containerId =>
    if (this.containers.lookup containerId).isSome then this
    else { this with containers := this.containers.insert containerId ∅ }
  | .allocateRocmGpus containerId count =>
    if this.rocm.isSome && (this.containers.lookup containerId).isSome then
      { this with requests := this.requests ++ [(containerId, count)] }
    else this
  | .allocate =>
    match this.requests with
    | [] => this
    | (containerId, count) :: requests =>
      match this.rocm.bind (Allocator.allocateCount this.order · count) with
      | none => { this with requests }
      | some (allocator, allocation) =>
        { this with requests, rocm := some allocator, allocations := this.allocations ++ [(containerId, allocation)] }
  | .allocated =>
    match this.allocations with
    | [] => this
    | (containerId, allocation) :: allocations =>
      match this.containers.lookup containerId with
      | none => { this with allocations, returns := this.returns ++ [(none, allocation)] }
      | some gpus => { this with allocations, containers := this.containers.insert containerId (gpus ∪ allocation) }
  | .deallocateRocmGpus containerId =>
    match this.containers.lookup containerId with
    | none => this
    | some gpus => { this with returns := this.returns ++ [(some containerId, gpus)] }
  | .deallocate =>
    match this.returns with
    | [] => this
    | (containerId, gpus) :: returns =>
      match this.rocm.bind (·.deallocate gpus) with
      | none => { this with returns }
      | some allocator =>
        { this with
          returns
          rocm := some allocator
          deallocations := this.deallocations ++ containerId.toList.map (·, gpus) }
  | .deallocated =>
    match this.deallocations with
    | [] => this
    | (containerId, deallocated) :: deallocations =>
      match this.containers.lookup containerId with
      | none => { this with deallocations }
      | some gpus => { this with deallocations, containers := this.containers.insert containerId (gpus \ deallocated) }
  | .destroy containerId => { this with containers := this.containers.erase containerId }

end Docker

/-! ## The agent -/
structure Agent where
  docker : Docker
  mesos : Isolator

/-- The components that `Containerizer::create` makes for the docker containerizer. -/
def rocmComponents (host : Host) : Except Stout.Text (Option Allocator) :=
  if !host.nvml && host.kfd then do
    let gpus ← host.enumerateGpuResources
    if 0 < gpus.getD 0 then
      let total ← host.enumerateGpus gpus
      return some { available := total }
    else return none
  else .ok none

/-- The isolator that `MesosContainerizer::create` makes, with an allocator of its own. -/
def rocmIsolator (host : Host) (usingCgroups2 : Bool) : Except Stout.Text Isolator := do
  let gpus ← host.enumerateGpuResources
  let total ← host.enumerateGpus gpus
  return { usingCgroups2, order := host.order, allocator := { available := total } }

/-- `Containerizer::create`, for both containerizers and ROCm isolation. -/
def Agent.create (host : Host) (usingCgroups2 : Bool) : Except Stout.Text Agent := do
  let rocm ← rocmComponents host
  let mesos ← rocmIsolator host usingCgroups2
  return { docker := { order := host.order, rocm }, mesos }

inductive AgentEvent
  | docker (event : DockerEvent)
  | mesos (event : Event)

namespace Agent

def step (this : Agent) : AgentEvent → Agent
  | .docker event => { this with docker := this.docker.step event }
  | .mesos event => { this with mesos := this.mesos.step event }

def HeldByDocker (this : Agent) (gpu : Gpu) : Prop := ∃ c gpus, this.docker.containers.lookup c = some gpus ∧ gpu ∈ gpus

def HeldByMesos (this : Agent) (gpu : Gpu) : Prop := ∃ c info, this.mesos.infos.lookup c = some info ∧ gpu ∈ info.allocated

end Agent

/-! ## What one containerizer has -/
def Info.mentioned (info : Info) : Finset Gpu :=
  match info.pending with
  | some (.grant gpus _) | some (.record gpus _) => info.allocated ∪ gpus
  | some (.configure _) | some (.allocate _ _) | some (.revoke _ _) | some (.deallocate _ _) | some .release
  | some .forget | none => info.allocated

structure Docker.Within (gpus : Finset Gpu) (this : Docker) : Prop where
  allocated : ∀ allocator, this.rocm = some allocator → allocator.allocated ⊆ gpus
  containers : ∀ c held, this.containers.lookup c = some held → held ⊆ gpus
  allocations : ∀ allocation ∈ this.allocations, allocation.2 ⊆ gpus

structure Isolator.Within (gpus : Finset Gpu) (this : Isolator) : Prop where
  allocated : this.allocator.allocated ⊆ gpus
  infos : ∀ c info, this.infos.lookup c = some info → info.mentioned ⊆ gpus

structure Docker.Draws (total gpus : Finset Gpu) (this : Docker) : Prop extends Docker.Within gpus this where
  subset : gpus ⊆ total
  available : ∀ allocator, this.rocm = some allocator → allocator.available ⊆ total

structure Isolator.Draws (total gpus : Finset Gpu) (this : Isolator) : Prop extends Isolator.Within gpus this where
  subset : gpus ⊆ total
  available : this.allocator.available ⊆ total

variable {gpus total : Finset Gpu} {before after : Allocator} {key : ContainerId}

theorem Allocator.deallocate_some {given : Finset Gpu} (h : before.deallocate given = some after) :
    after.allocated ⊆ before.allocated ∧ after.available ⊆ before.available ∪ before.allocated := by
  simp only [deallocate] at h
  split_ifs at h
  cases h
  exact ⟨sdiff_subset, Finset.union_subset_union_right Finset.inter_subset_left⟩

theorem forall_lookup_insert {β : Type} {P : β → Prop} {table : AList fun _ : ContainerId => β}
    {value : β} (h : ∀ c v, table.lookup c = some v → P v) (hv : P value) :
    ∀ c v, (table.insert key value).lookup c = some v → P v := by
  intro c v hl
  by_cases hc : c = key
  · subst hc
    rw [AList.lookup_insert] at hl
    exact Option.some.inj hl ▸ hv
  · rw [AList.lookup_insert_ne hc] at hl
    exact h c v hl

theorem forall_lookup_erase {β : Type} {P : β → Prop} {table : AList fun _ : ContainerId => β}
    (h : ∀ c v, table.lookup c = some v → P v) : ∀ c v, (table.erase key).lookup c = some v → P v := by
  intro c v hl
  obtain ⟨-, hl⟩ := Ledger.lookup_erase_some.1 hl
  exact h c v hl

namespace Docker

variable {this : Docker}

theorem Draws.step (h : Draws total gpus this) (event : DockerEvent) (hall : event = .allocate → total ⊆ gpus) :
    Draws total gpus (this.step event) := by
  cases event with
  | launch =>
    rw [Docker.step]
    split_ifs
    · exact h
    · exact { h with containers := forall_lookup_insert h.containers (empty_subset gpus) }
  | allocateRocmGpus =>
    rw [Docker.step]
    split_ifs
    · exact { h with }
    · exact h
  | allocate =>
    rw [Docker.step]
    split
    · exact h
    split
    · exact { h with }
    rename_i allocation hbi
    obtain ⟨before, hr, hc⟩ := Option.bind_eq_some_iff.mp hbi
    have hh := (allocateCount_some hc).1
    have ha : allocation ⊆ gpus := (hh.free.trans (h.available before hr)).trans (hall rfl)
    refine { h with allocated := ?_, allocations := ?_, available := ?_ }
    · rintro _ ⟨⟩
      rw [hh.allocated]
      exact union_subset (h.allocated before hr) ha
    · intro pair hpa
      rcases mem_append.mp hpa with hpa | hpa
      · exact h.allocations pair hpa
      · rw [mem_singleton.mp hpa]
        exact ha
    · rintro _ ⟨⟩
      rw [hh.available]
      exact sdiff_subset.trans (h.available before hr)
  | allocated =>
    rw [Docker.step]
    split
    · exact h
    rename_i containerId allocation allocations hal
    have hre : ∀ pair ∈ allocations, pair.2 ⊆ gpus := fun pair hpa =>
      h.allocations pair (hal ▸ mem_cons_of_mem _ hpa)
    have ha : allocation ⊆ gpus := h.allocations (containerId, allocation) (hal ▸ mem_cons_self)
    split
    · exact { h with allocations := hre }
    rename_i held hl
    have hhe := h.containers containerId held hl
    exact { h with
      allocations := hre
      containers := forall_lookup_insert h.containers (union_subset hhe ha) }
  | deallocateRocmGpus =>
    rw [Docker.step]
    split
    · exact h
    · exact { h with }
  | deallocate =>
    rw [Docker.step]
    split
    · exact h
    split
    · exact { h with }
    rename_i hbi
    obtain ⟨before, hr, hd⟩ := Option.bind_eq_some_iff.mp hbi
    obtain ⟨hallo, hav⟩ := deallocate_some hd
    have hb := h.allocated before hr
    refine { h with allocated := ?_, available := ?_ }
    · rintro _ ⟨⟩
      exact hallo.trans hb
    · rintro _ ⟨⟩
      exact hav.trans (union_subset (h.available before hr) (hb.trans h.subset))
  | deallocated =>
    rw [Docker.step]
    split
    · exact h
    split
    · exact { h with }
    next containerId _ _ _ _ held hl =>
      have hhe := h.containers containerId held hl
      exact { h with containers := forall_lookup_insert h.containers (sdiff_subset.trans hhe) }
  | destroy => exact { h with containers := forall_lookup_erase h.containers }

end Docker

theorem Info.allocated_subset (info : Info) : info.allocated ⊆ info.mentioned := by
  rw [mentioned]
  split
  · exact Finset.subset_union_left
  · exact Finset.subset_union_left
  all_goals exact Finset.Subset.refl _

namespace Isolator

variable {this : Isolator} {containerId : ContainerId} {info : Info}

def Allocates (this : Isolator) (containerId : ContainerId) : Prop :=
  ∃ info additional requested, this.infos.lookup containerId = some info ∧
    info.pending = some (.allocate additional requested)

variable (h : Draws total gpus this)
include h

theorem Draws.setInfo (hin : info.mentioned ⊆ gpus) : Draws total gpus (this.setInfo containerId info) :=
  { h with infos := forall_lookup_insert h.infos hin }

theorem Draws.setAccess (accessible : Finset Gpu) : Draws total gpus (this.setAccess containerId accessible) :=
  { h with }

theorem Draws.deallocate {gone : Finset Gpu} {allocator : Allocator}
    (hd : this.allocator.deallocate gone = some allocator) : Draws total gpus { this with allocator } :=
  have hs := deallocate_some hd
  { h with
    allocated := hs.1.trans h.allocated
    available := hs.2.trans (union_subset h.available (h.allocated.trans h.subset)) }

theorem Draws.update (hin : info.allocated ⊆ gpus) (requested : Nat) :
    Draws total gpus (this.update containerId info requested) := by
  have hr : ∀ gone, info.allocated \ gone ⊆ gpus := fun _ => sdiff_subset.trans hin
  rw [Isolator.update]
  split_ifs
  · exact h.setInfo hin
  · exact h.setInfo hin
  · exact h.setInfo (hr _)
  · exact (h.setAccess _).setInfo (hr _)
  · exact h.setInfo hin

theorem Draws.advance (hl : this.infos.lookup containerId = some info)
    {pending : Pending} (hpe : info.pending = some pending) (hall : this.Allocates containerId → total ⊆ gpus) :
    Draws total gpus (this.advance containerId info pending) := by
  have hm := h.infos containerId info hl
  have hin := info.allocated_subset.trans hm
  rw [Info.mentioned, hpe] at hm
  cases pending with
  | configure requested => exact h.update hin requested
  | allocate additional requested =>
    rw [Isolator.advance]
    cases hc : allocateCount this.order this.allocator additional with
    | none => exact h.setInfo hin
    | some pair =>
      obtain ⟨allocator, allocation⟩ := pair
      have hh := (allocateCount_some hc).1
      have ha : allocation ⊆ gpus :=
        (hh.free.trans h.available).trans (hall ⟨info, additional, requested, hl, hpe⟩)
      have haf : Draws total gpus { this with allocator } :=
        { h with
          allocated := hh.allocated ▸ union_subset h.allocated ha
          available := hh.available ▸ sdiff_subset.trans h.available }
      exact haf.setInfo (union_subset hin ha)
  | grant =>
    rw [Isolator.advance]
    split_ifs
    · exact (h.setAccess _).setInfo hm
    · exact (h.setAccess _).setInfo (Finset.union_subset_right hm)
  | record => exact h.setInfo (Finset.union_subset_right hm)
  | revoke => exact (h.setAccess _).setInfo hin
  | deallocate | release =>
    rw [Isolator.advance]
    split
    · exact h.setInfo hin
    next hd => exact (h.deallocate hd).setInfo hin
  | forget => exact { h with infos := forall_lookup_erase h.infos }

theorem Draws.step (event : Event)
    (hall : ∀ c, event = .proceed c → this.Allocates c → total ⊆ gpus) : Draws total gpus (this.step event) := by
  cases event with
  | prepare _ requested =>
    rw [Isolator.step]
    split
    · rw [Isolator.prepare]
      split_ifs
      · exact (h.setAccess _).setInfo (empty_subset gpus)
      · exact (h.setAccess _).update (empty_subset gpus) requested
    · exact h
  | update containerId requested =>
    rw [Isolator.step]
    split
    next info hl =>
      split_ifs
      · exact h.update (info.allocated_subset.trans (h.infos containerId info hl)) requested
      · exact h
    · exact h
  | cleanup containerId =>
    rw [Isolator.step]
    split
    next info hl =>
      split_ifs
      · exact h.setInfo (info.allocated_subset.trans (h.infos containerId info hl))
      · exact h
    · exact h
  | proceed containerId =>
    rw [Isolator.step]
    split
    next hl =>
      split
      next hpe =>
        exact h.advance hl hpe (hall containerId rfl)
      · exact h
    · exact h

end Isolator

/-! ## Both containerizers -/
namespace Agent

def Alone (this : Agent) : AgentEvent → Prop
  | .docker .allocate => this.mesos.Within ∅
  | .mesos (.proceed containerId) => this.mesos.Allocates containerId → this.docker.Within ∅
  | _ => True

structure Wf (total : Finset Gpu) (this : Agent) : Prop where
  docker : this.docker.Draws total total
  mesos : this.mesos.Draws total total
  one : this.docker.Within ∅ ∨ this.mesos.Within ∅

variable {this : Agent}

theorem Wf.step (h : Wf total this) (event : AgentEvent) (hal : this.Alone event) : Wf total (this.step event) := by
  have hd : this.docker.Within ∅ → this.docker.Draws total ∅ := fun hw =>
    { hw with subset := empty_subset total, available := h.docker.available }
  have hm : this.mesos.Within ∅ → this.mesos.Draws total ∅ := fun hw =>
    { hw with subset := empty_subset total, available := h.mesos.available }
  cases event with
  | docker event =>
    refine ⟨h.docker.step event (fun _ => Finset.Subset.refl _), h.mesos, ?_⟩
    by_cases ha : event = .allocate
    · subst ha
      exact .inr hal
    · exact h.one.imp_left fun hw => ((hd hw).step event (fun heq => absurd heq ha)).toWithin
  | mesos event =>
    refine ⟨h.docker, h.mesos.step event (fun _ _ _ => Finset.Subset.refl _), ?_⟩
    by_cases ha : ∃ c, event = .proceed c ∧ this.mesos.Allocates c
    · obtain ⟨c, rfl, hc⟩ := ha
      exact .inl (hal hc)
    · exact h.one.imp_right fun hw =>
        ((hm hw).step event (fun c heq hc => absurd ⟨c, heq, hc⟩ ha)).toWithin

def handedOut (this : Agent) : Nat :=
  ((this.docker.rocm.map Allocator.allocated).getD ∅).card + this.mesos.allocator.allocated.card

theorem Wf.handedOut_le (h : Wf total this) : this.handedOut ≤ total.card := by
  have hd : ∀ {gpus}, this.docker.Within gpus → (this.docker.rocm.map allocated).getD ∅ ⊆ gpus := by
    intro gpus hw
    cases hr : this.docker.rocm with
    | none => exact empty_subset gpus
    | some allocator => exact hw.allocated allocator hr
  rw [handedOut]
  rcases h.one with hone | hone
  · rw [Finset.subset_empty.mp (hd hone), Finset.card_empty, zero_add]
    exact card_le_card h.mesos.allocated
  · rw [Finset.subset_empty.mp hone.allocated, Finset.card_empty]
    exact card_le_card (hd h.docker.toWithin)

theorem Wf.not_held (h : Wf total this) (gpu : Gpu) : ¬(this.HeldByDocker gpu ∧ this.HeldByMesos gpu) := by
  rintro ⟨⟨c, held, hl, hgpu⟩, d, info, hin, hgpu'⟩
  rcases h.one with hone | hone
  · exact Finset.notMem_empty gpu (hone.containers c held hl hgpu)
  · exact Finset.notMem_empty gpu (hone.infos d info hin (info.allocated_subset hgpu'))

theorem rocmComponents_ok {host : Host} {advertised : Option Nat} {rocm : Option Allocator}
    (ha : host.enumerateGpuResources = .ok advertised) (ht : host.enumerateGpus advertised = .ok total)
    (h : rocmComponents host = .ok rocm) : ∀ allocator, rocm = some allocator → allocator = { available := total } := by
  rintro allocator rfl
  rw [rocmComponents] at h
  split_ifs at h
  · obtain ⟨_, hg, h⟩ := bind_ok.mp h
    cases ha.symm.trans hg
    split_ifs at h
    · obtain ⟨_, he, h⟩ := bind_ok.mp h
      cases ht.symm.trans he
      cases h
      rfl
    · cases h
  · cases h

theorem wf_create {host : Host} {usingCgroups2 : Bool} {advertised : Option Nat} (hr : host.flags.hasRocm = true)
    (ha : host.enumerateGpuResources = .ok advertised) (hc : create host usingCgroups2 = .ok this) :
    ∃ total, Wf total this ∧ 1000 * total.card ≤ advertised.getD 0 := by
  obtain ⟨_, hco, hc⟩ := bind_ok.mp hc
  obtain ⟨_, hi, hc⟩ := bind_ok.mp hc
  cases hc
  obtain ⟨_, hg, hi⟩ := bind_ok.mp hi
  cases ha.symm.trans hg
  obtain ⟨total, ht, hi⟩ := bind_ok.mp hi
  cases hi
  have hal := rocmComponents_ok ha ht hco
  refine ⟨total, ⟨?_, ?_, ?_⟩, Rocm.card_le_advertised hr ha ht⟩
  · exact
      { allocated := fun allocator h => (hal allocator h) ▸ empty_subset _
        containers := nofun
        allocations := nofun
        subset := Finset.Subset.refl _
        available := fun allocator h => (hal allocator h) ▸ Finset.Subset.refl _ }
  · exact
      { allocated := empty_subset _
        infos := nofun
        subset := Finset.Subset.refl _
        available := Finset.Subset.refl _ }
  · exact .inr ⟨empty_subset _, nofun⟩

/-- **A ROCm GPU is with one containerizer.** In a run in which GPUs are handed out to one containerizer only while the
other has none, no GPU is held by containers of both, and no more GPUs are handed out than the agent advertises. -/
theorem rocm_gpus_exclusive (host : Host) (usingCgroups2 : Bool) (hrocm : host.flags.hasRocm = true)
    {advertised : Option Nat} (hadvertised : host.enumerateGpuResources = .ok advertised) {started : Agent}
    (hstarted : create host usingCgroups2 = .ok started) (events : List AgentEvent)
    (hrun : Run.Along step Alone started events) :
    let this := events.foldl step started
    (∀ gpu, ¬(this.HeldByDocker gpu ∧ this.HeldByMesos gpu)) ∧ 1000 * this.handedOut ≤ advertised.getD 0 := by
  intro this
  obtain ⟨total, hwf, hcard⟩ := wf_create hrocm hadvertised hstarted
  have h : Wf total this := hrun.invariant (fun _ event hs hP => hs.step event hP) events hwf
  exact ⟨h.not_held, (Nat.mul_le_mul_left 1000 h.handedOut_le).trans hcard⟩

def twoGpus : Host where
  flags := { isolation := "gpu/rocm".toList }
  parse _ := .ok none
  discovered := [⟨226, 128⟩, ⟨226, 129⟩]

def started : Agent where
  docker := { order := [⟨226, 128⟩, ⟨226, 129⟩], rocm := some { available := {⟨226, 128⟩, ⟨226, 129⟩} } }
  mesos :=
    { usingCgroups2 := false
      order := [⟨226, 128⟩, ⟨226, 129⟩]
      allocator := { available := {⟨226, 128⟩, ⟨226, 129⟩} } }

def dockerLaunch : List AgentEvent :=
  [.docker (.launch "d"), .docker (.allocateRocmGpus "d" 1), .docker .allocate, .docker .allocated]

def mesosLaunch : List AgentEvent := [.mesos (.prepare "m" 1000), .mesos (.proceed "m"), .mesos (.proceed "m")]

/-- The docker container is gone before the mesos container is launched. -/
def launches : List AgentEvent :=
  dockerLaunch ++ [.docker (.deallocateRocmGpus "d"), .docker .deallocate, .docker .deallocated, .docker (.destroy "d")] ++
    mesosLaunch

theorem rocm_gpus_exclusive_launches :
    Run.Along step Alone started launches ∧ (launches.foldl step started).HeldByMesos ⟨226, 128⟩ ∧
      ¬(launches.foldl step started).HeldByDocker ⟨226, 128⟩ ∧ 1000 * (launches.foldl step started).handedOut ≤ 2000 := by
  have hdone : ∀ docker : Docker, docker.rocm.map allocated = some ∅ → docker.containers = ∅ → docker.allocations = [] →
      docker.Within ∅ := by
    intro docker hr hc ha
    refine ⟨fun allocator h => ?_, fun c held h => ?_, fun allocation h => ?_⟩
    · rw [h] at hr
      rw [Option.some.inj hr]
    · rw [hc] at h
      nomatch h
    · rw [ha] at h
      nomatch h
  have hrun : Run.Along step Alone started launches :=
    ⟨trivial, trivial, ⟨Finset.empty_subset _, nofun⟩, trivial, trivial, trivial, trivial, trivial, trivial,
      fun _ => hdone _ rfl rfl rfl, fun _ => hdone _ rfl rfl rfl, trivial⟩
  have hmesos : (launches.foldl step started).HeldByMesos ⟨226, 128⟩ :=
    ⟨"m", { allocated := {⟨226, 128⟩}, requested := 1 }, by decide, by decide⟩
  have hadvertised : twoGpus.enumerateGpuResources = .ok (some 2000) := by decide +kernel
  have hcreate : create twoGpus false = .ok started := by rfl
  have h := rocm_gpus_exclusive twoGpus false (by decide +kernel) hadvertised hcreate launches hrun
  exact ⟨hrun, hmesos, fun hdocker => h.1 _ ⟨hdocker, hmesos⟩, h.2⟩

/-- **Each containerizer is given GPUs of its own allocator**: a mesos container is given the GPU that a docker container
has, and with both GPUs asked for on both sides four are handed out of the two that the agent advertises. -/
theorem rocm_gpu_shared :
    let this := (dockerLaunch ++ mesosLaunch).foldl step started
    let more : List AgentEvent :=
      [.docker (.allocateRocmGpus "d" 1), .docker .allocate, .mesos (.prepare "n" 1000), .mesos (.proceed "n")]
    create twoGpus false = .ok started ∧ twoGpus.enumerateGpuResources = .ok (some 2000) ∧
      this.HeldByDocker ⟨226, 128⟩ ∧ this.HeldByMesos ⟨226, 128⟩ ∧ (more.foldl step this).handedOut = 4 := by
  refine ⟨by rfl, by rfl, ⟨"d", {⟨226, 128⟩}, by decide, by decide⟩, ?_, by decide⟩
  exact ⟨"m", { allocated := {⟨226, 128⟩}, requested := 1 }, by decide, by decide⟩

end Agent

end Clusterd.Gpus
