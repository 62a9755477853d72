import Clusterd.CgroupsPaths
import Clusterd.Run
import Mathlib.Data.Finset.Basic
/-!
# Images of containers, and pruning

The provisioner records the layers each container runs on, in memory and in a file that is read back after a restart of the
agent.  Pruning moves every layer out of the Docker store that is neither recorded nor of an excluded image.  The record of a
container is that of its last image, and a config, recorded by its own path, is looked for in the directory above it.
-/
namespace Clusterd.Provisioner

open List
open Cgroups (ContainerId)

/-- A path, by its components. -/
abbrev Path := List String

structure Flags where
  dockerStoreDir : Path
  backend : String

structure Image where
  reference : String
  layerIds : List String
  configDigest : Option String := none
deriving DecidableEq

/-- The entries of the image in the directory of the layers. -/
def Image.entries (this : Image) : List String := this.layerIds ++ this.configDigest.toList

def getImageLayerPath (flags : Flags) (layerId : String) : Path := flags.dockerStoreDir ++ ["layers", layerId]

def getImageLayerRootfsPath (flags : Flags) (layerId : String) : Path :=
  getImageLayerPath flags layerId ++ [if flags.backend = "overlay" then "rootfs.overlay" else "rootfs"]

/-- The layers of an `ImageInfo`, and its config. -/
def Image.paths (flags : Flags) (this : Image) : List Path :=
  this.layerIds.map (getImageLayerRootfsPath flags) ++ (this.configDigest.map (getImageLayerPath flags)).toList

/-- What is recorded of the layers of containers. -/
abbrev Records := List (ContainerId × Option (List Path))

def Records.ids (this : Records) : List ContainerId := this.map Prod.fst

def Records.put (this : Records) (id : ContainerId) (layers : List Path) : Records :=
  (id, some layers) :: this.filter (·.1 ≠ id)

def lineage : ContainerId → List ContainerId
  | .top value => [.top value]
  | .nested parent value => .nested parent value :: lineage parent

/-- The directory of a nested container is below that of its parent. -/
def Records.mkdir (this : Records) (id : ContainerId) : Records :=
  this ++ ((lineage id).filter (· ∉ this.ids)).map fun id => (id, none)

structure World where
  infos : Records := []
  /-- The directories of the containers, with the layers that are checkpointed. -/
  directories : Records := []
  /-- In memory and on disk. -/
  storedImages : List Image := []
  /-- What `listLayers` lists. -/
  layers : Finset String := ∅
  /-- The images provisioned for containers that were not destroyed since: for specification only. -/
  provisioned : List (ContainerId × Image) := []

namespace World

section

variable (this : World)

def stored (reference : String) : Option Image := this.storedImages.find? (·.reference = reference)

/-- `StoreProcess::get`: a cached image if all of it is in the store, or else what the puller has pulled. -/
def get (reference : String) (cached : Bool) (pulled : Option Image) : World × Option Image :=
  match (this.stored reference).filter fun image => cached && image.entries.all (· ∈ this.layers), pulled with
  | some image, _ => (this, some image)
  | none, none => (this, none)
  | none, some image =>
    ({ this with
      layers := this.layers ∪ image.entries.toFinset
      storedImages := image :: this.storedImages.filter (·.reference ≠ image.reference) }, some image)

/-- `provision`; `succeeds` says how the backend does. -/
def provision (flags : Flags) (this : World) (id : ContainerId) (reference : String) (cached : Bool)
    (pulled : Option Image) (succeeds : Bool) : World :=
  match this.get reference cached pulled with
  | (this, none) => this
  | (this, some image) =>
    let this := { this with infos := this.infos.put id (image.paths flags), directories := this.directories.mkdir id }
    if succeeds then
      { this with
        directories := this.directories.put id (image.paths flags)
        provisioned := (id, image) :: this.provisioned }
    else this

/-- Whether a container is destroyed along with `id`, as its children are. -/
def destroyedWith (infos : Records) (id : ContainerId) : ContainerId → Bool
  | .top value => .top value = id
  | .nested parent value => .nested parent value = id ∨ parent ∈ infos.ids ∧ destroyedWith infos id parent

/-- `destroy`.  With a directory goes what is below it. -/
def destroy (id : ContainerId) : World :=
  if id ∈ this.infos.ids then
    { this with
      infos := this.infos.filter (!destroyedWith this.infos id ·.1)
      directories := this.directories.filter (id ∉ lineage ·.1)
      provisioned := this.provisioned.filter (!destroyedWith this.infos id ·.1) }
  else this

def reloaded : World := { this with infos := this.directories }

/-- `recover` destroys the containers that are not known. -/
def recover (knownContainerIds : List ContainerId) : World :=
  (this.directories.ids.filter (· ∉ knownContainerIds)).foldl destroy this.reloaded

/-- `MetadataManagerProcess::prune`. -/
def retainedImages (excludedImages : List String) : List Image :=
  excludedImages.filterMap this.stored

end

/-- `pruneImages`, given the references of the excluded images. -/
def pruneImages (flags : Flags) (this : World) (excludedImages : List String) : World :=
  let retainedImages := this.retainedImages excludedImages
  let activeLayerPaths := this.infos.flatMap fun info => info.2.getD []
  { this with
    storedImages := retainedImages
    layers := this.layers.filter fun layerId => layerId ∈ retainedImages.flatMap Image.entries ∨
      -- The paths are taken for those of a rootfs in a layer.
      getImageLayerPath flags layerId ∈ activeLayerPaths.map List.dropLast }

end World

inductive Event
  | provision (id : ContainerId) (reference : String) (cached : Bool) (pulled : Option Image) (succeeds : Bool)
  | destroy (id : ContainerId)
  | recover (knownContainerIds : List ContainerId)
  | pruneImages (excludedImages : List String)

def World.step (flags : Flags) (this : World) : Event → World
  | .provision id reference cached pulled succeeds => this.provision flags id reference cached pulled succeeds
  | .destroy id => this.destroy id
  | .recover knownContainerIds => this.recover knownContainerIds
  | .pruneImages excludedImages => this.pruneImages flags excludedImages

/-! ## Layers in use -/

/-- Pruning keeps what is in the store of images in use and of excluded ones, and all layers of the images still listed. -/
structure Spares (flags : Flags) (this : World) (excludedImages : List String) : Prop where
  used : ∀ use ∈ this.provisioned, ∀ entry ∈ use.2.entries, entry ∈ this.layers →
    entry ∈ (this.pruneImages flags excludedImages).layers
  excluded : ∀ reference ∈ excludedImages, ∀ image, this.stored reference = some image → ∀ entry ∈ image.entries,
    entry ∈ this.layers → entry ∈ (this.pruneImages flags excludedImages).layers
  listed : ∀ image ∈ (this.pruneImages flags excludedImages).storedImages, ∀ layerId ∈ image.layerIds,
    layerId ∈ (this.pruneImages flags excludedImages).layers

/-- With the container are destroyed all that have a record and are below it. -/
def Whole (this : World) (id : ContainerId) : Prop :=
  ∀ other ∈ this.infos.ids, id ∈ lineage other → World.destroyedWith this.infos id other = true

/-- A container is given one image, is not outlived by one below it, and the images in use that have a config are excluded. -/
def Meets (this : World) : Event → Prop
  | .provision id _ _ _ _ => id ∉ this.infos.ids
  | .destroy id => Whole this id
  | .recover knownContainerIds =>
    Run.Along World.destroy Whole this.reloaded (this.directories.ids.filter (· ∉ knownContainerIds))
  | .pruneImages excludedImages => ∀ use ∈ this.provisioned, ∀ digest ∈ use.2.configDigest,
    digest ∈ (this.retainedImages excludedImages).flatMap Image.entries

/-- Images in use are recorded, and stored images are in the store. -/
structure World.Sound (flags : Flags) (this : World) : Prop where
  recorded : ∀ use ∈ this.provisioned, (use.1, some (use.2.paths flags)) ∈ this.infos ∧
    (use.1, some (use.2.paths flags)) ∈ this.directories
  stored : ∀ image ∈ this.storedImages, ∀ entry ∈ image.entries, entry ∈ this.layers

namespace World.Sound

variable {flags : Flags} {this : World} (h : this.Sound flags)
include h

theorem destroy {id : ContainerId} (hw : Whole this id) : (this.destroy id).Sound flags := by
  unfold World.destroy
  split
  · refine ⟨fun use huse => ?_, h.stored⟩
    obtain ⟨hmem, hk⟩ := mem_filter.1 huse
    obtain ⟨hin, hd⟩ := h.recorded use hmem
    have hb : id ∉ lineage use.1 := fun hid => by simp [hw use.1 (mem_map_of_mem hin) hid] at hk
    exact ⟨mem_filter.2 ⟨hin, hk⟩, mem_filter.2 ⟨hd, by simpa using hb⟩⟩
  · exact h

theorem get (reference : String) (cached : Bool) (pulled : Option Image) :
    (this.get reference cached pulled).1.Sound flags ∧ (this.get reference cached pulled).1.infos = this.infos := by
  unfold World.get
  split
  · exact ⟨h, rfl⟩
  · exact ⟨h, rfl⟩
  refine ⟨⟨h.recorded, fun image hi entry hen => ?_⟩, rfl⟩
  rw [Finset.mem_union, mem_toFinset]
  rcases mem_cons.1 hi with rfl | hi
  · exact .inr hen
  · exact .inl (h.stored image (mem_of_mem_filter hi) entry hen)

theorem provision {id : ContainerId} (hid : id ∉ this.infos.ids) (reference : String) (cached : Bool)
    (pulled : Option Image) (succeeds : Bool) :
    (this.provision flags id reference cached pulled succeeds).Sound flags := by
  obtain ⟨hget, hi⟩ := h.get reference cached pulled
  rw [← hi] at hid
  unfold World.provision
  split
  next heq =>
    rw [heq] at hget
    exact hget
  next this' image heq =>
    rw [heq] at hget hid
    -- The container has had no image so far.
    have hput : ∀ {records : Records} {layers}, ∀ use ∈ this'.provisioned, (use.1, some (use.2.paths flags)) ∈ records →
        (use.1, some (use.2.paths flags)) ∈ records.put id layers := by
      refine fun use huse hmem => mem_cons_of_mem _ (mem_filter.2 ⟨hmem, ?_⟩)
      simpa using fun heq : use.1 = id => hid (heq ▸ mem_map_of_mem (hget.recorded use huse).1)
    have hm : ∀ use ∈ this'.provisioned, (use.1, some (use.2.paths flags)) ∈ this'.directories.mkdir id :=
      fun use huse => mem_append_left _ (hget.recorded use huse).2
    split
    · refine ⟨fun use huse => ?_, hget.stored⟩
      rcases mem_cons.1 huse with rfl | huse
      · exact ⟨mem_cons_self, mem_cons_self⟩
      · exact ⟨hput use huse (hget.recorded use huse).1, hput use huse (hm use huse)⟩
    · exact ⟨fun use huse => ⟨hput use huse (hget.recorded use huse).1, hm use huse⟩, hget.stored⟩

theorem spares (excludedImages : List String) (hm : Meets this (.pruneImages excludedImages)) :
    Spares flags this excludedImages := by
  have hli : ∀ image ∈ this.retainedImages excludedImages, ∀ entry ∈ image.entries, entry ∈ this.layers →
      entry ∈ (this.pruneImages flags excludedImages).layers := fun image hi entry hen hl =>
    Finset.mem_filter.2 ⟨hl, .inl (mem_flatMap.2 ⟨image, hi, hen⟩)⟩
  have hr : ∀ {image}, image ∈ this.retainedImages excludedImages ↔
      ∃ reference ∈ excludedImages, this.stored reference = some image := by
    simp [World.retainedImages]
  refine ⟨fun use huse entry hen hl => Finset.mem_filter.2 ⟨hl, ?_⟩,
    fun reference hre image hs => hli image (hr.2 ⟨reference, hre, hs⟩), ?_⟩
  · rcases mem_append.1 hen with hid | hd
    · -- The directory of the rootfs of a layer is the layer.
      refine .inr (mem_map.2 ⟨getImageLayerRootfsPath flags entry, mem_flatMap.2 ⟨_, (h.recorded use huse).1, ?_⟩, ?_⟩)
      · exact mem_append_left _ (mem_map_of_mem hid)
      · exact dropLast_concat
    · exact .inl (hm use huse entry (Option.mem_toList.1 hd))
  · intro image hi layerId hid
    obtain ⟨_, -, hs⟩ := hr.1 hi
    have hen : layerId ∈ image.entries := mem_append_left _ hid
    exact hli image hi layerId hen (h.stored image (mem_of_find?_eq_some hs) layerId hen)

theorem step {event : Event} (hm : Meets this event) : (this.step flags event).Sound flags := by
  cases event with
  | provision _ reference cached pulled succeeds => exact h.provision hm reference cached pulled succeeds
  | destroy => exact h.destroy hm
  | recover =>
    have hre : this.reloaded.Sound flags :=
      ⟨fun use huse => ⟨(h.recorded use huse).2, (h.recorded use huse).2⟩, h.stored⟩
    exact Run.Along.invariant (I := Sound flags) (fun _ _ h hw => h.destroy hw) _ hre hm
  | pruneImages excludedImages =>
    refine ⟨h.recorded, fun image hi entry hen => ?_⟩
    obtain ⟨reference, hr, hs⟩ := mem_filterMap.1 hi
    exact (h.spares excludedImages hm).excluded reference hr image hs entry hen
      (h.stored image (mem_of_find?_eq_some hs) entry hen)

end World.Sound

/-- **Pruning spares the layers in use** after every run in which containers have one image each and are not outlived by
those below them, if the images in use that have a config are excluded. -/
theorem prune_spares (flags : Flags) (events : List Event) (excludedImages : List String)
    (hmeets : Run.Along (World.step flags) Meets {} (events ++ [.pruneImages excludedImages])) :
    Spares flags (events.foldl (World.step flags) {}) excludedImages :=
  World.Sound.spares (Run.Along.invariant (fun _ _ h hmeets => h.step hmeets) events
    ⟨fun _ huse => absurd huse not_mem_nil, fun _ himage => absurd himage not_mem_nil⟩ (hmeets.left events))
    excludedImages (Run.Along.at events hmeets)

def storeFlags : Flags := ⟨["store"], "copy"⟩

/-- The first container runs on one layer, and the second was destroyed. -/
def twoContainers : List Event :=
  [.provision (.top ['c']) "a" true (some { reference := "a", layerIds := ["1"] }) true,
    .provision (.top ['d']) "b" true (some { reference := "b", layerIds := ["2"] }) true, .destroy (.top ['d']),
    .recover [.top ['c']]]

theorem prune_spares_first : Spares storeFlags (twoContainers.foldl (World.step storeFlags) {}) [] := by
  refine prune_spares storeFlags twoContainers [] ⟨?_, ?_, ?_, trivial, ?_, trivial⟩
  all_goals simp only [Meets, Whole]
  all_goals decide +kernel

/-- **A container with two images loses the layers of the first**, and one whose image has a config loses the config. -/
theorem prune_takes_used :
    ¬ Spares storeFlags ([Event.provision (.top ['c']) "a" true (some { reference := "a", layerIds := ["1"] }) true,
      .provision (.top ['c']) "b" true (some { reference := "b", layerIds := ["2"] }) true].foldl
        (World.step storeFlags) {}) [] ∧
    ¬ Spares storeFlags ([Event.provision (.top ['c']) "a" true
      (some { reference := "a", layerIds := ["1"], configDigest := some "3" }) true].foldl (World.step storeFlags) {}) [] := by
  refine ⟨fun h => ?_, fun h => ?_⟩
  · exact absurd (h.used (.top ['c'], { reference := "a", layerIds := ["1"] }) (by decide) "1" (by decide)) (by decide +kernel)
  · exact absurd (h.used (.top ['c'], { reference := "a", layerIds := ["1"], configDigest := some "3" }) (by decide) "3"
      (by decide)) (by decide +kernel)

end Clusterd.Provisioner
