import Clusterd.CgroupsPaths
import Clusterd.GpuIsolator
/-!
# ROCm GPUs: what is advertised, and what containers see (`gpu/rocm_allocator.cpp`, `gpu/rocm_isolator.cpp`)

The agent advertises as many GPUs as `--resources` says, or as there are, and manages those of `--rocm_gpu_devices`.  A root
container gets the device nodes of its GPUs; `_prepare` looks for the GPUs of a nested container under its own ID, where there are
none.
-/
namespace Clusterd.Rocm

open Gpus (Gpu)
open Stout (Text)
open Stout.Strings (tokenize)
open Finset Option

/-! ## Enumeration -/

structure Flags where
  isolation : Text
  resources : Option Text := none
  rocmGpuDevices : Option (List Nat) := none

def Flags.hasRocm (this : Flags) : Bool := (tokenize this.isolation ',').contains "gpu/rocm".toList

/-- The GPUs of a list of indices among the discovered ones. -/
def select (discovered : List Gpu) : List Nat → Except Text (Finset Gpu)
  | [] => .ok ∅
  | index :: indices =>
    match discovered[index]? with
    | none => .error ("ROCm GPU device index ".toList ++ (toString index).toList ++ " does not exist".toList)
    | some gpu => (select discovered indices).map (insert gpu)

/-- `enumerateGpus`, with the `gpus` of the resources in thousandths. -/
def enumerateGpus (flags : Flags) (gpus : Option Nat) (discovered : List Gpu) : Except Text (Finset Gpu) :=
  select discovered (flags.rocmGpuDevices.getD (List.range ((gpus.getD 0 + 999) / 1000)))

/-- `enumerateGpuResources`: the `gpus` in thousandths, if there are any.  `parse` is `Resources::parse`, of which the `gpus`
are kept. -/
def enumerateGpuResources (parse : Text → Except Text (Option Nat)) (kfd : Bool) (flags : Flags) (discovered : List Gpu) :
    Except Text (Option Nat) :=
  if flags.rocmGpuDevices.isSome && !flags.hasRocm then
    .error "'--rocm_gpu_devices' can only be specified if the `--isolation` flag contains 'gpu/rocm'".toList
  else
    match parse (flags.resources.getD []) with
    | .error error => .error error
    | .ok gpus =>
      if !flags.hasRocm then .ok gpus
      else if (flags.resources.getD []).tails.any ("gpus".toList.isPrefixOf ·) && gpus.getD 0 == 0 then
        if flags.rocmGpuDevices.isSome then
          .error "'--rocm_gpu_devices' cannot be specified when '--resources' specifies 0 GPUs".toList
        else .ok none
      else if !kfd then .error "Cannot enable 'gpu/rocm': '/dev/kfd' does not exist".toList
      else
        match gpus, flags.rocmGpuDevices with
        | some _, none => .error "The 'gpus' resource cannot be set without also setting '--rocm_gpu_devices'".toList
        | some gpus, some indices =>
          if 1000 * indices.length ≠ gpus then
            .error "'--resources' and '--rocm_gpu_devices' specify different numbers of GPU devices".toList
          else .ok (some gpus)
        | none, _ => .ok (some (1000 * discovered.length))

variable {discovered : List Gpu} {indices : List Nat}

theorem select_ok : ∀ {indices : List Nat} {total : Finset Gpu}, select discovered indices = .ok total →
    (∀ index ∈ indices, index < discovered.length) ∧ total.image some = indices.toFinset.image (discovered[·]?)
  | [], _, h => by
    cases h
    simp
  | index :: indices, _, h => by
    rw [select] at h
    split at h
    · nomatch h
    next hi =>
      cases hre : select discovered indices with
      | error => rw [hre] at h; nomatch h
      | ok =>
        rw [hre] at h
        cases h
        obtain ⟨hb, him⟩ := select_ok hre
        refine ⟨List.forall_mem_cons.2 ⟨(List.getElem?_eq_some_iff.1 hi).1, hb⟩, ?_⟩
        rw [image_insert, him, List.toFinset_cons, image_insert, hi]

theorem card_select (hn : discovered.Nodup) {total : Finset Gpu}
    (h : select discovered indices = .ok total) : total.card = indices.toFinset.card := by
  obtain ⟨hb, him⟩ := select_ok h
  rw [← card_image_of_injective total (some_injective _), him]
  exact card_image_of_injOn fun i hi _ _ heq => (List.getElem?_inj (hb i (List.mem_toFinset.1 hi)) hn).1 heq

/-- Different indices are all indices if there are as many. -/
theorem length_eq_card_iff {n : Nat} (hb : ∀ index ∈ indices, index < n) :
    n = indices.toFinset.card ↔ ∀ index < n, index ∈ indices := by
  have hsub : indices.toFinset ⊆ range n := fun index hi => mem_range.2 (hb index (List.mem_toFinset.1 hi))
  constructor
  · intro hca index hi
    have heq := eq_of_subset_of_card_le hsub (by rw [card_range, ← hca])
    exact List.mem_toFinset.1 (heq ▸ mem_range.2 hi)
  · intro hall
    rw [hsub.antisymm fun index hi => List.mem_toFinset.2 (hall index (mem_range.1 hi)), card_range]

theorem card_select_le {total : Finset Gpu} (h : select discovered indices = .ok total) :
    total.card ≤ indices.length ∧ total.card ≤ discovered.length := by
  obtain ⟨hb, him⟩ := select_ok h
  have hcard : total.card ≤ indices.toFinset.card := by
    rw [← card_image_of_injective total (some_injective _), him]
    exact card_image_le
  have hsub : indices.toFinset ⊆ range discovered.length :=
    fun index hi => mem_range.2 (hb index (List.mem_toFinset.1 hi))
  exact ⟨hcard.trans (List.toFinset_card_le indices), hcard.trans ((card_le_card hsub).trans_eq (card_range _))⟩

/-- **No more GPUs are managed than advertised.** -/
theorem card_le_advertised {parse : Text → Except Text (Option Nat)} {kfd : Bool} {flags : Flags}
    (hrocm : flags.hasRocm = true) {advertised : Option Nat} {total : Finset Gpu}
    (hr : enumerateGpuResources parse kfd flags discovered = .ok advertised)
    (hc : enumerateGpus flags advertised discovered = .ok total) : 1000 * total.card ≤ advertised.getD 0 := by
  obtain ⟨hindices, hdiscovered⟩ := card_select_le hc
  unfold enumerateGpuResources at hr
  rw [hrocm, if_neg (by simp)] at hr
  split at hr
  · nomatch hr
  rename_i hp
  rw [if_neg (by simp)] at hr
  split_ifs at hr with hzero hd hkfd
  · cases hr
    rw [not_isSome_iff_eq_none.1 hd, getD_none, List.length_range, getD_none] at hindices
    rw [getD_none]
    omega
  · split at hr
    · nomatch hr
    next hd =>
      split_ifs at hr with hlength
      cases hr
      rw [hd, getD_some] at hindices
      rw [getD_some]
      omega
    · cases hr
      rw [getD_some]
      omega

/-- **The advertised GPUs are the managed ones** if and only if the indices of `--rocm_gpu_devices` are those of different GPUs, or
of all of them where `--resources` has no `gpus`. -/
theorem advertised_iff (parse : Text → Except Text (Option Nat)) (kfd : Bool) (flags : Flags) (hrocm : flags.hasRocm = true)
    (hn : discovered.Nodup) {advertised : Option Nat} {total : Finset Gpu}
    (hr : enumerateGpuResources parse kfd flags discovered = .ok advertised)
    (hc : enumerateGpus flags advertised discovered = .ok total) :
    advertised.getD 0 = 1000 * total.card ↔ ∀ indices ∈ flags.rocmGpuDevices,
      if parse (flags.resources.getD []) = .ok none then ∀ index < discovered.length, index ∈ indices else indices.Nodup := by
  rw [card_select hn hc]
  unfold enumerateGpuResources at hr
  rw [hrocm, if_neg (by simp)] at hr
  split at hr
  · nomatch hr
  rename_i hp
  rw [hp]
  rw [if_neg (by simp)] at hr
  split_ifs at hr with hzero hd hkfd
  · cases hr
    simp [not_isSome_iff_eq_none.1 hd]
  · split at hr
    · nomatch hr
    next indices hd =>
      split_ifs at hr with hlength
      cases hr
      simp only [hd, ← Decidable.not_not.1 hlength, getD_some, mem_some_iff, forall_eq', Except.ok.injEq,
        reduceCtorEq, if_false, Nat.mul_right_inj (show 1000 ≠ 0 by decide), eq_comm (a := indices.length)]
      exact Multiset.toFinset_card_eq_card_iff_nodup
    · cases hr
      cases hd : flags.rocmGpuDevices with
      | none => simp [List.toFinset_card_of_nodup List.nodup_range]; omega
      | some =>
        rw [enumerateGpus, hd] at hc
        simp only [getD_some, mem_some_iff, forall_eq', if_true, Nat.mul_right_inj (show 1000 ≠ 0 by decide)]
        exact length_eq_card_iff (select_ok hc).1

/-- Of two GPUs, `--resources=gpus:2` and `--rocm_gpu_devices=0,0` manage one. -/
theorem advertised_twice :
    let flags : Flags := ⟨"gpu/rocm".toList, some "gpus:2".toList, some [0, 0]⟩
    flags.hasRocm = true ∧ enumerateGpuResources (fun _ => .ok (some 2000)) true flags [⟨226, 128⟩, ⟨226, 129⟩] = .ok (some 2000) ∧
      (enumerateGpus flags (some 2000) [⟨226, 128⟩, ⟨226, 129⟩]).map Finset.card = .ok 1 :=
  ⟨by decide +kernel, rfl, rfl⟩

theorem advertised_both :
    let flags : Flags := ⟨"gpu/rocm".toList, some "gpus:2".toList, some [0, 1]⟩
    (some 2000).getD 0 = 1000 * ({⟨226, 128⟩, ⟨226, 129⟩} : Finset Gpu).card ↔ ∀ indices ∈ flags.rocmGpuDevices,
      if Except.ok (some 2000) = (.ok none : Except Text (Option Nat)) then ∀ index < 2, index ∈ indices else indices.Nodup :=
  advertised_iff (fun _ => .ok (some 2000)) true ⟨"gpu/rocm".toList, _, _⟩ (by decide +kernel)
    (show [⟨226, 128⟩, ⟨226, 129⟩].Nodup by decide) rfl rfl

/-! ## Device nodes -/

open Cgroups (ContainerId)
open Stout.Path (join)

structure ContainerConfig where
  debug : Bool := false
  rootfs : Option Text := none

/-- The GPUs of the containers that have an `Info`. -/
abbrev Infos := AList fun _ : ContainerId => Finset Gpu

section

variable (renderNodes : List (Text × Gpu))

/-- The devices of a launch with their mount points. -/
def mounts (allocated : Finset Gpu) (rootfs : Text) : List (Text × Text) :=
  ("/dev/kfd".toList :: (renderNodes.filter (·.2 ∈ allocated)).map (·.1)).map fun device => (device, join rootfs device)

section

variable (infos : Infos) (containerId : ContainerId) (config : ContainerConfig)

/-- `_prepare`, with the container's devices directory there. -/
def prepare_ :
    Except Text (Option (List (Text × Text))) :=
  match config.rootfs with
  | none => .ok none
  | some rootfs =>
    match infos.lookup containerId with
    | none => .error "Unknown container".toList
    | some allocated => .ok (some (mounts renderNodes allocated rootfs))

/-- `prepare`, where `update` ends with `allocated`. -/
def prepare
    (allocated : Except Text (Finset Gpu)) : Infos × Except Text (Option (List (Text × Text))) :=
  match containerId.parent with
  | some _ => (infos, if config.debug then .ok none else prepare_ renderNodes infos containerId config)
  | none =>
    if (infos.lookup containerId).isSome then (infos, .error "Container has already been prepared".toList)
    else
      match allocated with
      | .error error => (infos.insert containerId ∅, .error error)
      | .ok allocated =>
        (infos.insert containerId allocated, prepare_ renderNodes (infos.insert containerId allocated) containerId config)

end

/-- What happens to the records of the isolator; `update` and `recover` are seen by the GPUs they leave with the container. -/
inductive Event where
  | recover (containerId : ContainerId) (allocated : Finset Gpu)
  | prepare (containerId : ContainerId) (config : ContainerConfig) (allocated : Except Text (Finset Gpu))
  | update (containerId : ContainerId) (allocated : Finset Gpu)
  | cleanup (containerId : ContainerId)

def step (infos : Infos) : Event → Infos
  | .recover containerId allocated => if containerId.parent.isSome then infos else infos.insert containerId allocated
  | .prepare containerId config allocated => (prepare renderNodes infos containerId config allocated).1
  | .update containerId allocated =>
    if containerId.parent.isSome then infos else infos.replace containerId allocated
  | .cleanup containerId => if containerId.parent.isSome then infos else infos.erase containerId

end

def root : ContainerId → ContainerId
  | .top value => .top value
  | .nested parent _ => root parent

/-- Only root containers have an `Info`. -/
theorem parent_none (renderNodes : List (Text × Gpu)) : ∀ (events : List Event) {infos : Infos},
    (∀ containerId ∈ infos, containerId.parent = none) →
    ∀ containerId ∈ events.foldl (step renderNodes) infos, containerId.parent = none
  | [], _, h => h
  | event :: events, infos, h => by
    refine parent_none renderNodes events ?_
    cases event with
    | recover =>
      simp only [step]
      split <;> grind [AList.mem_insert, not_isSome_iff_eq_none]
    | prepare =>
      simp only [step, prepare]
      split
      · exact h
      split
      · exact h
      split <;> grind [AList.mem_insert]
    | update =>
      simp only [step]
      split <;> grind [AList.mem_replace]
    | cleanup =>
      simp only [step]
      split <;> grind [AList.mem_erase]

/-- **A container with a root filesystem sees the GPUs of its root container** if and only if it is the root container. -/
theorem mounts_iff (renderNodes : List (Text × Gpu)) (events : List Event) (containerId : ContainerId) (rootfs : Text)
    (gpus allocated : Finset Gpu) :
    let infos := events.foldl (step renderNodes) ∅
    let prepared := prepare renderNodes infos containerId ⟨false, some rootfs⟩ (.ok gpus)
    (containerId.parent = none → infos.lookup containerId = none) → prepared.1.lookup (root containerId) = some allocated →
    (prepared.2 = .ok (some (mounts renderNodes allocated rootfs)) ↔ containerId.parent = none) := by
  intro infos prepared hnew ha
  cases containerId with
  | top value =>
    have hnone : infos.lookup (.top value) = none := hnew rfl
    have hprepared : prepared = (infos.insert (.top value) gpus, .ok (some (mounts renderNodes gpus rootfs))) := by
      simp only [prepared, prepare, prepare_, ContainerId.parent, hnone, isSome_none, Bool.false_eq_true, if_false,
        AList.lookup_insert]
    rw [hprepared, root, AList.lookup_insert] at ha
    rw [hprepared, ← some.inj ha]
    exact iff_of_true rfl rfl
  | nested parent value =>
    have hnone : infos.lookup (.nested parent value) = none :=
      AList.lookup_eq_none.2 fun h => nomatch parent_none renderNodes events (by simp) _ h
    have hprepared : prepared.2 = .error "Unknown container".toList := by
      simp [prepared, prepare, prepare_, ContainerId.parent, hnone]
    rw [hprepared]
    exact iff_of_false nofun nofun

/-- A nested container of a prepared root container is not known. -/
theorem mounts_nested :
    let infos := [Event.prepare (.top ['c']) ⟨false, some "/r".toList⟩ (.ok {⟨226, 128⟩})].foldl (step [("/dev/dri/renderD128".toList, ⟨226, 128⟩)]) ∅
    infos.lookup (root (.nested (.top ['c']) ['n'])) = some {⟨226, 128⟩} ∧
      (prepare [("/dev/dri/renderD128".toList, ⟨226, 128⟩)] infos (.nested (.top ['c']) ['n']) ⟨false, some "/n".toList⟩ (.ok ∅)).2 =
        .error "Unknown container".toList :=
  ⟨rfl, rfl⟩

theorem mounts_root :
    (prepare [("/dev/dri/renderD128".toList, ⟨226, 128⟩)] ∅ (.top ['c']) ⟨false, some "/r".toList⟩ (.ok {⟨226, 128⟩})).2 =
      .ok (some (mounts [("/dev/dri/renderD128".toList, ⟨226, 128⟩)] {⟨226, 128⟩} "/r".toList)) :=
  (mounts_iff _ [] (.top ['c']) _ {⟨226, 128⟩} {⟨226, 128⟩} (fun _ => rfl) rfl).2 rfl

end Clusterd.Rocm
