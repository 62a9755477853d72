import Clusterd.GpuIsolator
import Clusterd.Ledger
import Clusterd.Shares
/-!
# Who owns a GPU

Each GPU that the allocator has handed out is owned by one container: it is recorded as allocated to it, or on its way there or
back.  This holds along every run in which no update raises the count of a container that already has GPUs, since `_update`
records only the GPUs that it adds.
-/
namespace Clusterd.Gpus

open Shares Finset Option Info Allocator

def Info.owned (info : Info) : Finset Gpu :=
  match info.pending with
  | some (.grant allocation _) | some (.record allocation _) => info.allocated ∪ allocation
  | some (.revoke deallocated _) | some (.deallocate deallocated _) => info.allocated ∪ deallocated
  | some .forget => ∅
  | some (.configure _) | some (.allocate _ _) | some .release | none => info.allocated

def Info.Sound (accessible : Finset Gpu) (info : Info) : Prop :=
  match info.pending with
  | none | some .release => accessible = info.allocated ∧ info.allocated.card = info.requested
  | some (.configure _) => accessible = ∅ ∧ info.allocated = ∅ ∧ info.requested = 0
  | some (.allocate additional requested) =>
    accessible = ∅ ∧ info.allocated = ∅ ∧ info.requested = 0 ∧ additional = requested
  | some (.grant allocation requested) => accessible = ∅ ∧ info.allocated = ∅ ∧ allocation.card = requested
  | some (.record allocation requested) => accessible = allocation ∧ info.allocated = ∅ ∧ allocation.card = requested
  | some (.revoke deallocated requested) =>
    accessible = info.allocated ∪ deallocated ∧ Disjoint info.allocated deallocated ∧ info.allocated.card = requested
  | some (.deallocate deallocated requested) =>
    accessible = info.allocated ∧ Disjoint info.allocated deallocated ∧ info.allocated.card = requested
  | some .forget => True

namespace Isolator

def share (this : Isolator) (containerId : ContainerId) : Finset Gpu :=
  ((this.infos.lookup containerId).map Info.owned).getD ∅

structure Wf (total : Finset Gpu) (this : Isolator) : Prop where
  nodup : this.order.Nodup
  listed : ∀ gpu ∈ total, gpu ∈ this.order
  tracks : this.allocator.Tracks total
  shared : Shared this.allocator.allocated this.share
  sound : ∀ containerId info, this.infos.lookup containerId = some info → info.Sound (this.accessible containerId)

variable {total : Finset Gpu} {this : Isolator} {containerId : ContainerId} {info : Info}

theorem share_of_lookup (h : this.infos.lookup containerId = some info) : this.share containerId = info.owned := by
  rw [share, h, map_some, getD_some]

theorem share_of_none (h : this.infos.lookup containerId = none) : this.share containerId = ∅ := by
  rw [share, h, map_none, getD_none]

variable (h : Wf total this) {gpus : Finset Gpu}
include h

theorem Wf.change {allocator : Allocator} {access : AList fun _ : ContainerId => Finset Gpu} (ht : allocator.Tracks total)
    (hs : Shared allocator.allocated (Function.update this.share containerId info.owned))
    (ha : ∀ other, other ≠ containerId → access.lookup other = this.access.lookup other)
    (hso : info.Sound ((access.lookup containerId).getD ∅)) :
    Wf total { this with allocator, access, infos := this.infos.insert containerId info } where
  nodup := h.nodup
  listed := h.listed
  tracks := ht
  shared := by
    have hsh : ({ this with allocator, access, infos := this.infos.insert containerId info } : Isolator).share =
        Function.update this.share containerId info.owned := by
      funext other
      by_cases ho : other = containerId
      · subst ho
        rw [Function.update_self, share, AList.lookup_insert, map_some, getD_some]
      · rw [Function.update_of_ne ho, share, AList.lookup_insert_ne ho, share]
    rw [hsh]
    exact hs
  sound other otherInfo hl := by
    rcases Ledger.lookup_insert_some.1 hl with ⟨rfl, rfl⟩ | ⟨ho, hl⟩
    · exact hso
    · rw [accessible, ha other ho]
      exact h.sound other otherInfo hl

theorem Wf.keep (ho : info.owned = this.share containerId)
    (hs : info.Sound (this.accessible containerId)) : Wf total (this.setInfo containerId info) :=
  h.change h.tracks (h.shared.keep containerId ho) (fun _ _ => rfl) hs

theorem Wf.keepAccess (ho : info.owned = this.share containerId)
    (hs : info.Sound gpus) : Wf total ((this.setAccess containerId gpus).setInfo containerId info) := by
  refine h.change h.tracks (h.shared.keep containerId ho) (fun _ hot => AList.lookup_insert_ne hot) ?_
  show info.Sound (((this.access.insert containerId gpus).lookup containerId).getD ∅)
  rw [AList.lookup_insert]
  exact hs

/-! ## Steps -/

theorem Wf.update {gpus : Nat} (hs : this.share containerId = info.allocated)
    (ha : this.accessible containerId = info.allocated) (hc : info.allocated.card = info.requested)
    (hg : gpus / 1000 ≤ info.allocated.card ∨ info.allocated = ∅) : Wf total (this.update containerId info gpus) := by
  have hmem : info.allocated ⊆ total := by
    rw [← hs, ← h.tracks.covers]
    exact (h.shared.subset containerId).trans subset_union_right
  have hf := card_first h.nodup (fun gpu hgpu => h.listed gpu (hmem hgpu))
    (Nat.sub_le info.allocated.card (gpus / 1000))
  have hsu := first_subset this.order (info.allocated.card - gpus / 1000) info.allocated
  rw [Isolator.update]
  split_ifs with hw hm hl
  · exact h.keep hs.symm ⟨ha, hc⟩
  · have he := hg.resolve_left (not_le.mpr hm)
    have hz : info.allocated.card = 0 := by rw [he, card_empty]
    exact h.keep hs.symm ⟨ha.trans he, he, hc.symm.trans hz, by rw [hz, Nat.sub_zero]⟩
  · refine h.keep (by rw [hs]; exact sdiff_union_of_subset hsu) ⟨?_, sdiff_disjoint, ?_⟩
    · rw [ha]
      exact (sdiff_union_of_subset hsu).symm
    · rw [card_sdiff_of_subset hsu]
      omega
  · refine h.keepAccess (by rw [hs]; exact sdiff_union_of_subset hsu) ⟨?_, sdiff_disjoint, ?_⟩
    · rw [ha]
    · rw [card_sdiff_of_subset hsu]
      omega
  · exact h.keep hs.symm ⟨ha, show info.allocated.card = gpus / 1000 by omega⟩

theorem Wf.setAccess (hno : this.infos.lookup containerId = none) (gpus : Finset Gpu) :
    Wf total (this.setAccess containerId gpus) where
  nodup := h.nodup
  listed := h.listed
  tracks := h.tracks
  shared := h.shared
  sound other otherInfo hl := by
    have ho : other ≠ containerId := by
      rintro rfl
      rw [show this.infos.lookup other = some otherInfo from hl] at hno
      cases hno
    rw [accessible, Isolator.setAccess, AList.lookup_insert_ne ho]
    exact h.sound other otherInfo hl

theorem Wf.prepare (hno : this.infos.lookup containerId = none) (gpus : Nat) :
    Wf total (this.prepare containerId gpus) := by
  have hc := h.setAccess hno ∅
  have hs : (this.setAccess containerId ∅).share containerId = ∅ := share_of_none hno
  have ha : (this.setAccess containerId ∅).accessible containerId = ∅ := by
    rw [accessible, Isolator.setAccess, AList.lookup_insert, getD_some]
  unfold Isolator.prepare
  split_ifs
  · exact hc.keep hs.symm ⟨ha, rfl, rfl⟩
  · exact hc.update hs ha rfl (.inr rfl)

theorem Wf.deallocate (hg : gpus ⊆ this.share containerId)
    (ho : info.owned = this.share containerId \ gpus) (hs : info.Sound (this.accessible containerId)) :
    Wf total { this with
      allocator := { available := this.allocator.available ∪ gpus, allocated := this.allocator.allocated \ gpus }
      infos := this.infos.insert containerId info } := by
  refine h.change (h.tracks.deallocated (hg.trans (h.shared.subset containerId))) ?_ (fun _ _ => rfl) hs
  rw [ho]
  exact h.shared.take containerId hg

theorem Wf.forget (hs : this.share containerId = ∅) : Wf total { this with infos := this.infos.erase containerId } where
  nodup := h.nodup
  listed := h.listed
  tracks := h.tracks
  shared := by
    have hsa : ({ this with infos := this.infos.erase containerId } : Isolator).share = this.share := by
      funext other
      by_cases ho : other = containerId
      · subst ho
        rw [hs, share, AList.lookup_erase, map_none, getD_none]
      · rw [share, AList.lookup_erase_ne ho, share]
    rw [hsa]
    exact h.shared
  sound other otherInfo hl := by
    have ho : other ≠ containerId := by
      rintro rfl
      rw [AList.lookup_erase] at hl
      cases hl
    rw [AList.lookup_erase_ne ho] at hl
    exact h.sound other otherInfo hl

/-- **What a container does next keeps every GPU with one owner.** -/
theorem Wf.advance (hl : this.infos.lookup containerId = some info) {pending : Pending}
    (hpe : info.pending = some pending) : Wf total (this.advance containerId info pending) := by
  have hs := share_of_lookup hl
  have hso := h.sound containerId info hl
  rw [owned, hpe] at hs
  rw [Sound, hpe] at hso
  cases pending with
  | configure =>
    obtain ⟨ha, he, hr⟩ := hso
    exact h.update hs (by rw [ha, he]) (by rw [he, hr, card_empty]) (.inr he)
  | allocate additional =>
    dsimp only at hs
    obtain ⟨ha, he, hr, had⟩ := hso
    rw [Isolator.advance]
    cases hco : allocateCount this.order this.allocator additional with
    | none => exact h.keep hs.symm ⟨by rw [ha, he], by rw [he, hr, card_empty]⟩
    | some pair =>
      obtain ⟨_, allocation⟩ := pair
      obtain ⟨hh, hf, hen⟩ := allocateCount_some hco
      have hc : allocation.card = additional := by
        rw [hf]
        refine card_first h.nodup (fun gpu hgpu => h.listed gpu ?_) hen
        rw [← h.tracks.covers]
        exact mem_union_left _ hgpu
      refine h.change (h.tracks.handed hh) ?_ (fun _ _ => rfl) ⟨ha, he, hc.trans had⟩
      rw [hh.allocated]
      rw [← hs]
      exact h.shared.give containerId (h.tracks.disjoint.symm.mono_right hh.free)
  | grant allocation =>
    dsimp only at hs
    obtain ⟨ha, he, hc⟩ := hso
    have hu : this.accessible containerId ∪ allocation = allocation := by rw [ha, empty_union]
    have ho : allocation = this.share containerId := by rw [hs, he, empty_union]
    rw [Isolator.advance, hu]
    split_ifs
    · exact h.keepAccess hs.symm ⟨rfl, he, hc⟩
    · exact h.keepAccess ho ⟨rfl, hc⟩
  | record allocation =>
    dsimp only at hs
    obtain ⟨ha, he, hc⟩ := hso
    have ho : allocation = this.share containerId := by rw [hs, he, empty_union]
    exact h.keep ho ⟨ha, hc⟩
  | revoke =>
    obtain ⟨ha, hd, hc⟩ := hso
    refine h.keepAccess hs.symm ⟨?_, hd, hc⟩
    rw [ha, union_sdiff_cancel_right hd]
  | deallocate deallocated =>
    obtain ⟨ha, hd, hc⟩ := hso
    have hsu : deallocated ⊆ this.share containerId := hs ▸ subset_union_right
    rw [Isolator.advance, deallocate_of_subset (hsu.trans (h.shared.subset containerId))]
    refine h.deallocate hsu ?_ ⟨ha, hc⟩
    rw [hs, union_sdiff_cancel_right hd]
    rfl
  | release =>
    have hsu : info.allocated ⊆ this.share containerId := hs.symm.subset
    rw [Isolator.advance, deallocate_of_subset (hsu.trans (h.shared.subset containerId))]
    refine h.deallocate hsu ?_ trivial
    rw [hs, sdiff_self]
    rfl
  | forget => exact h.forget hs

def Grows (this : Isolator) : Event → Prop
  | .update containerId gpus =>
    ∀ info, this.infos.lookup containerId = some info → gpus / 1000 ≤ info.allocated.card ∨ info.allocated = ∅
  | _ => True

theorem Wf.step (event : Event) (hg : this.Grows event) : Wf total (this.step event) := by
  cases event with
  | prepare containerId gpus =>
    rw [Isolator.step]
    cases hl : this.infos.lookup containerId with
    | none => exact h.prepare hl gpus
    | some => exact h
  | update containerId =>
    rw [Isolator.step]
    cases hl : this.infos.lookup containerId with
    | none => exact h
    | some info =>
      have hs := h.sound containerId info hl
      have hsh := share_of_lookup hl
      dsimp only
      split_ifs with hpe
      · simp only [Sound, hpe] at hs
        simp only [owned, hpe] at hsh
        exact h.update hsh hs.1 hs.2 (hg info hl)
      · exact h
  | cleanup containerId =>
    rw [Isolator.step]
    cases hl : this.infos.lookup containerId with
    | none => exact h
    | some info =>
      have hs := h.sound containerId info hl
      have hsh := share_of_lookup hl
      dsimp only
      split_ifs with hpe
      · simp only [Sound, hpe] at hs
        simp only [owned, hpe] at hsh
        exact h.keep hsh.symm hs
      · exact h
  | proceed containerId =>
    rw [Isolator.step]
    cases hl : this.infos.lookup containerId with
    | none => exact h
    | some info =>
      dsimp only
      cases hpe : info.pending with
      | none => exact h
      | some => exact h.advance hl hpe

/-! ## Runs -/

def new (usingCgroups2 : Bool) (order : List Gpu) : Isolator where
  usingCgroups2 := usingCgroups2
  order := order
  allocator := { available := order.toFinset }

omit h

theorem wf_new (usingCgroups2 : Bool) {order : List Gpu} (ho : order.Nodup) :
    Wf order.toFinset (new usingCgroups2 order) where
  nodup := ho
  listed _ hgpu := List.mem_toFinset.mp hgpu
  tracks := tracks_new _
  shared := shared_empty
  sound _ _ hl := nomatch hl

def AtRest (this : Isolator) (containerId : ContainerId) (info : Info) : Prop :=
  this.infos.lookup containerId = some info ∧ info.pending = none

/-- **Every GPU is owned by one container or available.** In a run in which an update raises the count only of a container
that has no GPUs, the GPUs of containers at rest are disjoint from each other and from the available ones, are those that
the cgroup can access, and are as many as were asked for; when no call is in progress they and the available ones are all
there are, and once all containers are gone all are available. -/
theorem gpus_owned_once (usingCgroups2 : Bool) {order : List Gpu} (horder : order.Nodup) (events : List Event)
    (hrun : Run.Along step Grows (new usingCgroups2 order) events) :
    let this := events.foldl step (new usingCgroups2 order)
    (∀ c d i j, this.AtRest c i → this.AtRest d j → c ≠ d → Disjoint i.allocated j.allocated) ∧
    (∀ c i, this.AtRest c i → Disjoint i.allocated this.allocator.available ∧
      this.accessible c = i.allocated ∧ i.allocated.card = i.requested) ∧
    ((∀ c i, this.infos.lookup c = some i → i.pending = none) →
      ∀ gpu, gpu ∈ order ↔ gpu ∈ this.allocator.available ∨ ∃ c i, this.AtRest c i ∧ gpu ∈ i.allocated) ∧
    ((∀ c, this.infos.lookup c = none) → this.allocator.available = order.toFinset) := by
  intro this
  have h : Wf order.toFinset this :=
    hrun.invariant (fun _ event hs hP => hs.step event hP) events (wf_new usingCgroups2 horder)
  have hshare : ∀ {c i}, this.AtRest c i → this.share c = i.allocated := by
    intro c i hrest
    rw [share_of_lookup hrest.1, Info.owned, hrest.2]
  have hallocated : ∀ gpu, gpu ∈ order ↔ gpu ∈ this.allocator.available ∨ ∃ c, gpu ∈ this.share c := by
    intro gpu
    rw [← h.shared.mem_iff, ← mem_union, h.tracks.covers, List.mem_toFinset]
  refine ⟨?_, ?_, ?_, ?_⟩
  · intro c _ i _ hi hj hcd
    rw [← hshare hi, ← hshare hj]
    exact h.shared.disjoint hcd
  · intro c i hi
    have hsound := h.sound c i hi.1
    simp only [Info.Sound, hi.2] at hsound
    refine ⟨?_, hsound⟩
    rw [← hshare hi]
    exact h.tracks.disjoint.symm.mono_left (h.shared.subset c)
  · intro hquiet gpu
    rw [hallocated gpu]
    refine or_congr_right ⟨?_, ?_⟩
    · rintro ⟨c, hc⟩
      cases hlookup : this.infos.lookup c with
      | none => simp [share_of_none hlookup] at hc
      | some i =>
        have hrest : this.AtRest c i := ⟨hlookup, hquiet c i hlookup⟩
        exact ⟨c, i, hrest, hshare hrest ▸ hc⟩
    · rintro ⟨c, _, hrest, hgpu⟩
      exact ⟨c, (hshare hrest).symm ▸ hgpu⟩
  · intro hnone
    ext gpu
    rw [List.mem_toFinset, hallocated gpu]
    refine ⟨.inl, fun hgpu => hgpu.resolve_right ?_⟩
    rintro ⟨c, hc⟩
    simp [share_of_none (hnone c)] at hc

def renderNodes : List Gpu := [⟨226, 128⟩, ⟨226, 129⟩]

def launched : List Event := [.prepare "c" 1000, .proceed "c", .proceed "c"]

/-- Another container comes and goes; the first one gives its GPU back and asks for both. -/
def regrown : List Event :=
  launched ++ [.prepare "d" 1000, .proceed "d", .proceed "d", .cleanup "d", .proceed "d", .proceed "d", .update "c" 0,
    .proceed "c", .update "c" 2000, .proceed "c", .proceed "c"]

instance (this : Isolator) : (event : Event) → Decidable (this.Grows event)
  | .update containerId gpus =>
    inferInstanceAs (Decidable (∀ info ∈ this.infos.lookup containerId, gpus / 1000 ≤ info.allocated.card ∨ info.allocated = ∅))
  | .prepare _ _ | .cleanup _ | .proceed _ => isTrue trivial

theorem gpus_owned_once_regrown :
    (renderNodes.Nodup ∧ Run.Along step Grows (new false renderNodes) regrown) ∧
      (regrown.foldl step (new false renderNodes)).accessible "c" = {⟨226, 128⟩, ⟨226, 129⟩} := by
  have hrun : Run.Along step Grows (new false renderNodes) regrown := by decide
  refine ⟨⟨by decide, hrun⟩, ?_⟩
  have hrest : (regrown.foldl step (new false renderNodes)).AtRest "c"
      { allocated := {⟨226, 128⟩, ⟨226, 129⟩}, requested := 2 } := ⟨by decide, rfl⟩
  exact ((gpus_owned_once false (by decide) regrown hrun).2.1 "c" _ hrest).2.1

/-- **A container with one GPU that asks for two ends up with one recorded**: the cgroup can access both, and the first GPU
is not available again even when the container is gone. -/
theorem grown_gpu_lost :
    let grown := launched ++ [.update "c" 2000, .proceed "c", .proceed "c"]
    let gone := grown ++ [.cleanup "c", .proceed "c", .proceed "c"]
    let this := grown.foldl step (new false renderNodes)
    this.infos.lookup "c" = some { allocated := {⟨226, 129⟩}, requested := 2 } ∧
      this.accessible "c" = {⟨226, 128⟩, ⟨226, 129⟩} ∧ this.allocator.available = ∅ ∧
      (gone.foldl step (new false renderNodes)).infos.keys = [] ∧
      (gone.foldl step (new false renderNodes)).allocator.available = {⟨226, 129⟩} := by
  decide

end Isolator
end Clusterd.Gpus
