import Clusterd.CommonContains
import Clusterd.Ledger
import Clusterd.Run
import Clusterd.SlaveCheckpoint
/-!
# The checkpoint survives crashes

Once the file with resources and operations exists, a call is in force as soon as its target file is written: recovery finds the
target, finishes the directories and renames it.  Before that, recovery reads the resources from one format and the operations
from the other, and may put the operations of an interrupted call next to the resources before it.  The invariant: a disk is
settled on a pair, or leads forward to the interrupted one.
-/
namespace Clusterd.Slave

open Common Stout List DirectoryStep World Resource Step

/-! ## Directories -/

def Apart (places : Set Text) : Prop := ∀ p ∈ places, ∀ q ∈ places, place p <+: place q → p = q

def DirectoryStep.path : DirectoryStep → Text
  | .create path => path
  | .delete path _ => path

variable {flags : Flags} {places : Set Text} {directories : Finset (List Text)} {steps : List DirectoryStep}
  {p q : Text}

theorem mem_create (happart : Apart places) (hp : p ∈ places) (hq : q ∈ places) :
    place p ∈ apply directories (.create q) ↔ place p ∈ directories ∨ p = q := by
  rw [apply]
  split
  next he =>
    constructor
    · exact .inl
    · rintro (h | rfl)
      · exact h
      · exact he
  · rw [Finset.mem_union, mem_toFinset, mem_inits]
    refine or_congr .rfl ⟨happart p hp q hq, ?_⟩
    rintro rfl
    exact prefix_rfl

theorem mem_delete (happart : Apart places) (hp : p ∈ places) (hq : q ∈ places) {removeRoot : Bool} :
    place p ∈ apply directories (.delete q removeRoot) ↔ place p ∈ directories ∧ ¬ (p = q ∧ removeRoot = true) := by
  rw [apply]
  split
  next hm =>
    refine ⟨fun h => ⟨h, ?_⟩, And.left⟩
    rintro ⟨rfl, -⟩
    exact hm h
  · rw [Finset.mem_filter]
    refine and_congr .rfl (not_congr ⟨?_, ?_⟩)
    · rintro ⟨hb, hr⟩
      obtain rfl := happart q hq p hp hb
      exact ⟨rfl, hr rfl⟩
    · rintro ⟨rfl, hr⟩
      exact ⟨prefix_rfl, fun _ => hr⟩

variable (happart : Apart places) (hp : p ∈ places) (hwi : ∀ step ∈ steps, step.path ∈ places)
include happart hp hwi

theorem mem_foldl_apply (hk : ∀ root, .delete p root ∉ steps) (h : place p ∈ directories) :
    place p ∈ steps.foldl apply directories :=
  foldlRecOn (motive := (place p ∈ ·)) steps _ h fun _ h step hs => by
    have hpa := hwi _ hs
    cases step with
    | create => exact (mem_create happart hp hpa).2 (.inl h)
    | delete _ removeRoot =>
      refine (mem_delete happart hp hpa).2 ⟨h, ?_⟩
      rintro ⟨rfl, -⟩
      exact hk removeRoot hs

theorem notMem_foldl_apply
    (hn : .create p ∉ steps) (h : place p ∉ directories) : place p ∉ steps.foldl apply directories :=
  foldlRecOn (motive := (place p ∉ ·)) steps _ h fun _ h step hs => by
    have hpa := hwi _ hs
    cases step with
    | create =>
      intro hmem
      rcases (mem_create happart hp hpa).1 hmem with hmem | rfl
      · exact h hmem
      · exact hn hs
    | delete => exact fun hmem => h ((mem_delete happart hp hpa).1 hmem).1

theorem mem_foldl_created (hk : ∀ root, .delete p root ∉ steps) (h : .create p ∈ steps) :
    place p ∈ steps.foldl apply directories := by
  obtain ⟨pre, post, rfl⟩ := append_of_mem h
  have hpo : ∀ {step}, step ∈ post → step ∈ pre ++ .create p :: post :=
    fun hs => mem_append_right _ (mem_cons_of_mem _ hs)
  rw [foldl_append, foldl_cons]
  exact mem_foldl_apply happart hp (fun step hs => hwi step (hpo hs)) (fun root hr => hk root (hpo hr))
    ((mem_create happart hp hp).2 (.inr rfl))

theorem notMem_foldl_deleted (hn : .create p ∉ steps) (h : .delete p true ∈ steps) :
    place p ∉ steps.foldl apply directories := by
  obtain ⟨pre, post, rfl⟩ := append_of_mem h
  have hpo : ∀ {step}, step ∈ post → step ∈ pre ++ .delete p true :: post :=
    fun hs => mem_append_right _ (mem_cons_of_mem _ hs)
  rw [foldl_append, foldl_cons]
  exact notMem_foldl_apply happart hp (fun step hs => hwi step (hpo hs)) (fun hc => hn (hpo hc))
    fun hmem => ((mem_delete happart hp hp).1 hmem).2 ⟨rfl, rfl⟩

/-! ## The volumes of resources -/

/-- What says where a volume is: its reservations and its source without their labels, and the id of its persistence. -/
def volumeKey (volume : Resource) : List ReservationInfo × Option (Option Source × Option String) :=
  (volume.reservations.map (·.kind.1), volume.disk.map fun disk => (disk.source.map (·.kind.1), disk.persistence.map (·.id)))

variable {v w : Resource}

omit happart hp hwi

theorem getPersistentVolumePath_of_key {v w : Resource} (h : volumeKey v = volumeKey w) (workDir : Text) :
    getPersistentVolumePath workDir v = getPersistentVolumePath workDir w := by
  obtain ⟨hr, hd⟩ := Prod.mk.inj h
  have hrole : ∀ volume : Resource, volume.reservationRole =
      ((volume.reservations.map (·.kind.1)).getLast?.map (·.role)).getD "" := fun volume => by
    rw [getLast?_map, Option.map_map]
    rfl
  have hempty : v.reservations.isEmpty = w.reservations.isEmpty := by
    rw [← isEmpty_map (f := (·.kind.1)), hr, isEmpty_map]
  unfold getPersistentVolumePath
  rw [hrole v, hrole w, hr, hempty]
  -- The rest reads the source of the disk and the id of its persistence.
  cases hv : v.disk <;> cases hw : w.disk <;> simp only [hv, hw, Option.map_none, Option.map_some] at hd
  · rfl
  · exact nomatch hd
  · exact nomatch hd
  next disk disk' =>
    obtain ⟨hs, hp⟩ := Prod.mk.inj (Option.some.inj hd)
    cases hvp : disk.persistence <;> cases hwp : disk'.persistence <;> simp only [hvp, hwp, Option.map_none, Option.map_some] at hp
    · simp [hvp, hwp]
    · cases hp
    · cases hp
    next persistence persistence' =>
      have hid : persistence.id = persistence'.id := Option.some.inj hp
      cases hvs : disk.source <;> cases hws : disk'.source <;> simp only [hvs, hws, Option.map_none, Option.map_some] at hs
      · simp [hvp, hwp, hvs, hws, hid]
      · cases hs
      · cases hs
      next source source' =>
        have hk : source.kind.1 = source'.kind.1 := Option.some.inj hs
        have ht : source.type = source'.type := congrArg (·.type) hk
        have hpath : source.path = source'.path := congrArg (·.path) hk
        have hmount : source.mount = source'.mount := congrArg (·.mount) hk
        have hroot : diskRoot workDir source = diskRoot workDir source' := by
          have hsid : source.id = source'.id := congrArg (·.id) hk
          unfold diskRoot
          rw [hsid]
        simp [hvp, hwp, hvs, hws, hid, ht, hpath, hmount, hroot]

theorem isMount_of_key (h : volumeKey v = volumeKey w) : isMount v = isMount w := by
  have hs : ∀ volume : Resource, (volume.disk.bind (·.source)).map (·.type) =
      ((volumeKey volume).2.bind (·.1)).map (·.type) := by
    intro volume
    rw [volumeKey]
    cases volume.disk with
    | none => rfl
    | some disk => cases hd : disk.source <;> simp [hd, Source.kind]
  rw [isMount, isMount, hs, hs, h]

def Alike (flags : Flags) (a b : Resources) : Prop :=
  (∀ path, path ∈ volumePaths flags a ↔ path ∈ volumePaths flags b) ∧
    ∀ path, path ∈ mountPaths flags a ↔ path ∈ mountPaths flags b

theorem map_of_agree {α β : Type} {same : α → α → Bool} {f : α → β} (h : ∀ l r, same l r = true → f l = f r) :
    ∀ {left right : Option α}, agree same left right = true → left.map f = right.map f
  | none, none, _ => rfl
  | some l, some r, ha => congrArg some (h l r ha)

theorem map_of_zip {α β : Type} {same : α → α → Bool} {f : α → β} (h : ∀ l r, same l r = true → f l = f r) :
    ∀ {left right : List α}, left.length = right.length → ((left.zip right).all fun p => same p.1 p.2) = true →
      left.map f = right.map f
  | [], [], _, _ => rfl
  | l :: left, r :: right, hl, ha => by
    rw [zip_cons_cons, all_cons, Bool.and_eq_true] at ha
    rw [map_cons, map_cons, h l r ha.1, map_of_zip h (by simpa using hl) ha.2]

theorem volumeKey_of_sameDisk (hr : v.sameReservations w = true)
    (hd : v.sameDisk w = true) : volumeKey v = volumeKey w := by
  rw [sameReservations, Bool.and_eq_true, beq_iff_eq] at hr
  refine Prod.ext (map_of_zip (fun l r h => ?_) hr.1 hr.2) (map_of_agree (fun l r h => ?_) hd)
  · simp only [ReservationInfo.same, Bool.and_eq_true, beq_iff_eq] at h
    simp only [ReservationInfo.kind, h]
  · rw [DiskInfo.same, Bool.and_eq_true, beq_iff_eq] at h
    rw [h.2, map_of_agree (fun s t h => ?_) h.1]
    simp only [Source.same, Bool.and_eq_true, beq_iff_eq] at h
    simp only [Source.kind, h]

theorem volumeKey_of_same (h : v.same w = true) : volumeKey v = volumeKey w := by
  simp only [same, compareResourceMetadata, Bool.and_eq_true, beq_iff_eq] at h
  exact volumeKey_of_sameDisk (by tauto) (by tauto)

theorem volumeKey_of_subtractable (h : v.subtractable w = true) : volumeKey v = volumeKey w := by
  unfold subtractable at h
  split at h
  · exact nomatch h
  split at h
  · exact volumeKey_of_same h
  · simp only [Bool.and_eq_true, beq_iff_eq] at h
    exact volumeKey_of_sameDisk (by tauto) (by tauto)

theorem volumeKey_of_contains {x e : Resource_} (h : x.contains e = true) :
    volumeKey x.resource = volumeKey e.resource := by
  unfold Resource_.contains at h
  split at h
  · exact nomatch h
  · split at h
    · exact volumeKey_of_same (Bool.and_eq_true_iff.1 h).2
    · exact volumeKey_of_subtractable (Bool.and_eq_true_iff.1 h).1

theorem volumeKey_subtract (x e : Resource_) : volumeKey (x.subtract e).resource = volumeKey x.resource := by
  rw [Resource_.subtract]
  split <;> rfl

variable {a : Resources}

theorem exists_key_of_subtract {e y : Resource_} (hy : y ∈ a.subtract e) :
    ∃ x ∈ a, volumeKey x.resource = volumeKey y.resource := by
  by_cases he : e.isEmpty = true
  · rw [Resources.subtract, if_pos he] at hy
    exact ⟨y, hy, rfl⟩
  rcases Resources.subtract_cases a (Bool.eq_false_iff.2 he) with ⟨-, heq⟩ | ⟨_, x, _, rfl, -, -, hpe⟩
  · exact ⟨y, heq ▸ hy, rfl⟩
  have hy := hpe.subset hy
  split at hy
  · refine ⟨y, ?_, rfl⟩
    rw [mem_append]
    rw [mem_append] at hy
    tauto
  · rw [mem_append, mem_cons] at hy
    rcases hy with hy | rfl | hy
    · exact ⟨y, mem_append_left _ hy, rfl⟩
    · exact ⟨x, mem_append_right _ mem_cons_self, (volumeKey_subtract x e).symm⟩
    · exact ⟨y, mem_append_right _ (mem_cons_of_mem _ hy), rfl⟩

/-- **What is contained has the key of something that contains it.** -/
theorem exists_key_of_contains : ∀ {b a : Resources}, a.contains b = true → ∀ e ∈ b,
    ∃ x ∈ a, volumeKey x.resource = volumeKey e.resource
  | [], _, _, _, he => nomatch he
  | entry :: rest, a, h, e, he => by
    rw [Resources.contains, Bool.and_eq_true] at h
    rcases mem_cons.1 he with rfl | he
    · obtain ⟨x, hx, hc⟩ := any_eq_true.1 h.1
      exact ⟨x, hx, volumeKey_of_contains hc⟩
    obtain ⟨y, hy, hkey⟩ := exists_key_of_contains h.2 e he
    split at hy
    · obtain ⟨x, hx, hsa⟩ := exists_key_of_subtract hy
      exact ⟨x, hx, hsa.trans hkey⟩
    · exact ⟨y, hy, hkey⟩

theorem isPersistentVolume_of_key (h : volumeKey v = volumeKey w) : v.isPersistentVolume = w.isPersistentVolume := by
  have hid : ∀ volume, volume.isPersistentVolume = ((volumeKey volume).2.bind (·.2)).isSome := by
    intro volume
    rw [volumeKey, isPersistentVolume]
    cases volume.disk with
    | none => rfl
    | some => exact (Option.isSome_map).symm
  rw [hid, hid, h]

variable {volume : Resource}

theorem mem_persistentVolumes {resources : Resources} :
    volume ∈ persistentVolumes resources ↔ ∃ e ∈ resources, e.resource = volume ∧ volume.isPersistentVolume = true := by
  rw [persistentVolumes, mem_map]
  constructor
  · rintro ⟨e, he, rfl⟩
    obtain ⟨hmem, hv⟩ := mem_filter.1 he
    exact ⟨e, hmem, rfl, hv⟩
  · rintro ⟨e, he, rfl, hv⟩
    exact ⟨e, mem_filter.2 ⟨he, hv⟩, rfl⟩

variable {path : Text} {b : Resources}

theorem mem_volumePaths {resources : Resources} : path ∈ volumePaths flags resources ↔
    ∃ volume ∈ persistentVolumes resources, getPersistentVolumePath flags.workDir volume = some path := mem_filterMap

theorem mem_mountPaths {resources : Resources} : path ∈ mountPaths flags resources ↔
    ∃ volume ∈ persistentVolumes resources, isMount volume = true ∧
      getPersistentVolumePath flags.workDir volume = some path := by
  simp [mountPaths, mem_filterMap, and_assoc]

theorem exists_volume_of_contains (h : a.contains b = true)
    (hv : volume ∈ persistentVolumes b) : ∃ other ∈ persistentVolumes a, volumeKey other = volumeKey volume := by
  obtain ⟨e, he, rfl, hpe⟩ := mem_persistentVolumes.1 hv
  obtain ⟨x, hx, hkey⟩ := exists_key_of_contains h e he
  exact ⟨x.resource, mem_persistentVolumes.2 ⟨x, hx, rfl, (isPersistentVolume_of_key hkey).trans hpe⟩, hkey⟩

/-- **Resources that compare equal have volumes in the same places.** -/
theorem alike_of_same (h : a.same b = true) : Alike flags a b := by
  obtain ⟨hab, hba⟩ := Bool.and_eq_true_iff.1 h
  have hpat : ∀ {a b}, a.contains b = true → ∀ path, path ∈ volumePaths flags b →
      path ∈ volumePaths flags a := by
    intro a b h path hpa
    obtain ⟨volume, hv, hs⟩ := mem_volumePaths.1 hpa
    obtain ⟨other, ho, hkey⟩ := exists_volume_of_contains h hv
    exact mem_volumePaths.2 ⟨other, ho, (getPersistentVolumePath_of_key hkey _).trans hs⟩
  have hm : ∀ {a b}, a.contains b = true → ∀ path, path ∈ mountPaths flags b →
      path ∈ mountPaths flags a := by
    intro _ _ h path hpa
    obtain ⟨_, hv, hmo, hs⟩ := mem_mountPaths.1 hpa
    obtain ⟨other, ho, hkey⟩ := exists_volume_of_contains h hv
    exact mem_mountPaths.2 ⟨other, ho, (isMount_of_key hkey).trans hmo,
      (getPersistentVolumePath_of_key hkey _).trans hs⟩
  exact ⟨fun path => ⟨hpat hba path, hpat hab path⟩, fun path => ⟨hm hba path, hm hab path⟩⟩

variable {new : Resources}

theorem mem_destroyedPaths {old : Resources} : path ∈ destroyedPaths flags old new ↔
    path ∈ volumePaths flags old ∧ path ∉ volumePaths flags new ∧ path ∉ mountPaths flags old := by
  rw [destroyedPaths, mem_filter, decide_eq_true_iff]

/-! ## Synchronising the directories -/

/-- The volumes pass the checks of `getPersistentVolumePath` and are in the given places. -/
def Placed (flags : Flags) (places : Set Text) (resources : Resources) : Prop :=
  ∀ volume ∈ persistentVolumes resources, ∃ path ∈ places, getPersistentVolumePath flags.workDir volume = some path

theorem Placed.mem (h : Placed flags places resources) (hpa : path ∈ volumePaths flags resources) : path ∈ places := by
  obtain ⟨volume, hv, hs⟩ := mem_volumePaths.1 hpa
  obtain ⟨_, ho, heq⟩ := h volume hv
  rw [hs] at heq
  exact Option.some.inj heq ▸ ho

theorem isReserved_of_path {workDir : Text}
    (h : getPersistentVolumePath workDir volume = some path) : volume.isReserved = true := by
  obtain ⟨_, -, h⟩ := Option.bind_eq_some_iff.1 h
  obtain ⟨_, -, h⟩ := Option.bind_eq_some_iff.1 h
  by_contra hr
  have he : volume.reservations.isEmpty = true := by
    rw [Bool.not_eq_true, isReserved, Bool.not_eq_false'] at hr
    exact hr
  rw [he, Bool.true_or, Bool.true_or] at h
  exact nomatch h

structure PathMap (flags : Flags) (volumes : List Resource) (pathMap : AList fun _ : Text => Resource) : Prop where
  keys : ∀ path, path ∈ pathMap ↔ path ∈ volumes.filterMap (getPersistentVolumePath flags.workDir)
  found : ∀ path volume, pathMap.lookup path = some volume →
    volume ∈ volumes ∧ getPersistentVolumePath flags.workDir volume = some path

theorem PathMap.insert {volumes : List Resource} {pathMap : AList fun _ : Text => Resource} (h : PathMap flags volumes pathMap) (hpa : getPersistentVolumePath flags.workDir volume = some path) :
    PathMap flags (volumes ++ [volume]) (pathMap.insert path volume) where
  keys other := by
    rw [AList.mem_insert, h.keys, filterMap_append, or_comm]
    simp [hpa, eq_comm]
  found other found hf := by
    rcases Ledger.lookup_insert_some.1 hf with ⟨rfl, rfl⟩ | ⟨-, hf⟩
    · exact ⟨mem_append_right _ mem_cons_self, hpa⟩
    · exact ⟨mem_append_left _ (h.found other found hf).1, (h.found other found hf).2⟩

theorem toPathMap_some {resources : Resources} (h : Placed flags places resources) :
    ∃ pathMap, toPathMap flags.workDir resources = some pathMap ∧
      PathMap flags (persistentVolumes resources) pathMap := by
  have hl : ∀ rest done pathMap, PathMap flags done pathMap →
      (∀ volume ∈ rest, ∃ path ∈ places, getPersistentVolumePath flags.workDir volume = some path) →
      ∃ result, rest.foldlM (fun pathMap volume =>
          if !volume.isReserved then none
          else (getPersistentVolumePath flags.workDir volume).map fun path => pathMap.insert path volume) pathMap =
        some result ∧ PathMap flags (done ++ rest) result := by
    intro rest
    induction rest with
    | nil =>
      intro done pathMap hmap _
      exact ⟨pathMap, rfl, by rwa [append_nil]⟩
    | cons volume _ ih =>
      intro _ _ hmap hpl
      obtain ⟨path, -, hpa⟩ := hpl volume mem_cons_self
      obtain ⟨result, hr, hend⟩ := ih _ _ (hmap.insert hpa) fun v hv => hpl v (mem_cons_of_mem _ hv)
      refine ⟨result, ?_, by rwa [append_assoc] at hend⟩
      rw [foldlM_cons, isReserved_of_path hpa, hpa]
      exact hr
  have hs : PathMap flags [] ∅ :=
    ⟨fun path => iff_of_false (AList.notMem_empty path) not_mem_nil, fun _ _ hf => nomatch hf⟩
  exact hl _ [] ∅ hs h

structure Setting where
  flags : Flags
  places : Set Text
  apart : Apart places

variable {s : Setting}

abbrev Setting.Placed (s : Setting) (resources : Resources) : Prop := Slave.Placed s.flags s.places resources

structure Syncs (s : Setting) (old new : Resources) (sync : List DirectoryStep) : Prop where
  within : ∀ step ∈ sync, step.path ∈ s.places
  creates : ∀ path, .create path ∈ sync → path ∈ volumePaths s.flags new
  deletes : ∀ path removeRoot, .delete path removeRoot ∈ sync → path ∉ volumePaths s.flags new
  made : ∀ directories, ∀ path ∈ volumePaths s.flags new, (path ∈ volumePaths s.flags old → place path ∈ directories) →
    place path ∈ sync.foldl DirectoryStep.apply directories
  removed : ∀ directories, ∀ path ∈ destroyedPaths s.flags old new,
    place path ∉ sync.foldl DirectoryStep.apply directories

theorem sync_some (order : Order) {old : Resources} (hold : s.Placed old) (hnew : s.Placed new) :
    ∃ sync, syncCheckpointedResources s.flags order old new = some sync ∧ Syncs s old new sync := by
  obtain ⟨oldPathMap, hom, hold'⟩ := toPathMap_some hold
  obtain ⟨newPathMap, hnm, hnew'⟩ := toPathMap_some hnew
  have hok : ∀ path, path ∈ oldPathMap.keys ↔ path ∈ volumePaths s.flags old := hold'.keys
  have hnk : ∀ path, path ∈ newPathMap.keys ↔ path ∈ volumePaths s.flags new := hnew'.keys
  obtain ⟨creates, hc⟩ : ∃ creates, order.visit (newPathMap.keys.filter (· ∉ oldPathMap.keys)) = creates := ⟨_, rfl⟩
  obtain ⟨deletes, hd⟩ : ∃ deletes, order.visit (oldPathMap.keys.filter (· ∉ newPathMap.keys)) = deletes := ⟨_, rfl⟩
  have hcr : ∀ path, path ∈ creates ↔ path ∈ volumePaths s.flags new ∧ path ∉ volumePaths s.flags old := by
    intro path
    rw [← hc, (order.perm _).mem_iff, mem_filter, decide_eq_true_iff, hnk, hok]
  have hde : ∀ path, path ∈ deletes ↔ path ∈ volumePaths s.flags old ∧ path ∉ volumePaths s.flags new := by
    intro path
    rw [← hd, (order.perm _).mem_iff, mem_filter, decide_eq_true_iff, hnk, hok]
  have hsy : syncCheckpointedResources s.flags order old new =
      some (creates.map .create ++ deletes.map (deletion oldPathMap)) := by
    rw [syncCheckpointedResources, hom, hnm, ← hc, ← hd]
    rfl
  have hwi : ∀ step ∈ creates.map create ++ deletes.map (deletion oldPathMap), step.path ∈ s.places := by
    intro _ hs
    rcases mem_append.1 hs with h | h
    · obtain ⟨path, hpa, rfl⟩ := mem_map.1 h
      exact hnew.mem ((hcr path).1 hpa).1
    · obtain ⟨path, hpa, rfl⟩ := mem_map.1 h
      exact hold.mem ((hde path).1 hpa).1
  have hcre : ∀ path, .create path ∈ creates.map create ++ deletes.map (deletion oldPathMap) →
      path ∈ volumePaths s.flags new := by
    intro path hpa
    rcases mem_append.1 hpa with h | h
    · obtain ⟨other, ho, heq⟩ := mem_map.1 h
      exact create.inj heq ▸ ((hcr other).1 ho).1
    · obtain ⟨other, -, heq⟩ := mem_map.1 h
      exact nomatch heq
  have hdel : ∀ path root, .delete path root ∈ creates.map create ++ deletes.map (deletion oldPathMap) →
      path ∉ volumePaths s.flags new := by
    intro path _ hpa
    rcases mem_append.1 hpa with h | h
    · obtain ⟨other, -, heq⟩ := mem_map.1 h
      exact nomatch heq
    · obtain ⟨other, ho, heq⟩ := mem_map.1 h
      exact (delete.inj heq).1 ▸ ((hde other).1 ho).2
  refine ⟨_, hsy, hwi, hcre, hdel, fun directories path hpa he => ?_, fun _ path hpa => ?_⟩
  · have hk := fun root h => hdel path root h hpa
    by_cases hold'' : path ∈ volumePaths s.flags old
    · exact mem_foldl_apply s.apart (hnew.mem hpa) hwi hk (he hold'')
    · refine mem_foldl_created s.apart (hnew.mem hpa) hwi hk (mem_append_left _ ?_)
      exact mem_map_of_mem ((hcr path).2 ⟨hpa, hold''⟩)
  · obtain ⟨hpo, hpn, hpl⟩ := mem_destroyedPaths.1 hpa
    refine notMem_foldl_deleted s.apart (hold.mem hpo) hwi (fun h => hpn (hcre path h)) ?_
    refine mem_append_right _ (mem_map.2 ⟨path, (hde path).2 ⟨hpo, hpn⟩, ?_⟩)
    -- The volume found under the path is not on a MOUNT disk.
    obtain ⟨volume, hv⟩ := Option.isSome_iff_exists.1 (AList.lookup_isSome.2 ((hold'.keys path).2 hpo))
    obtain ⟨hmem, hso⟩ := hold'.found path volume hv
    have hm : isMount volume = false := Bool.eq_false_iff.2 fun hm =>
      hpl (mem_mountPaths.2 ⟨volume, hmem, hm, hso⟩)
    rw [deletion, hv, Option.map_some, Option.getD_some, hm, Bool.not_false]

theorem Syncs.alike {old old' : Resources} {sync : List DirectoryStep} (h : Syncs s old new sync)
    (ha : Alike s.flags old old') : Syncs s old' new sync where
  within := h.within
  creates := h.creates
  deletes := h.deletes
  made directories path hpa he :=
    h.made directories path hpa fun hold => he ((ha.1 path).1 hold)
  removed directories path hpa := by
    rw [mem_destroyedPaths, ← ha.1, ← ha.2, ← mem_destroyedPaths] at hpa
    exact h.removed directories path hpa

/-! ## Disks that recovery can make sense of -/

section

variable (s : Setting) (destroyed : List Text) (disk : Disk)

structure Settled (state : ResourceState) : Prop where
  form : disk.resourceState = some state ∧ disk.resourceStateTarget = none ∨
    disk.resourceState = none ∧ recoverOperations disk = state.operations ∧
      (disk.resourcesInfo = none ∧ state.resources = [] ∧ destroyed = [] ∨
        disk.resourcesInfo = some state.resources ∧ disk.resourcesTarget = none)
  volumes : ∀ path ∈ volumePaths s.flags state.resources, place path ∈ disk.directories
  gone : ∀ path ∈ destroyed, place path ∉ disk.directories

structure Forward (old : Resources) (state : ResourceState) : Prop
    where
  target : disk.resourceStateTarget = some state
  read : ResourcesState.recover disk = ⟨old, some state.resources⟩
  volumes : ∀ path ∈ volumePaths s.flags old, path ∈ volumePaths s.flags state.resources → place path ∈ disk.directories
  gone : ∀ path ∈ destroyed, path ∉ volumePaths s.flags state.resources → place path ∉ disk.directories

end

theorem recover_of_state {disk : Disk} {state : ResourceState} (h : disk.resourceState = some state) :
    ResourcesState.recover disk = ⟨state.resources, disk.resourceStateTarget.map (·.resources)⟩ := by
  rw [ResourcesState.recover, h]

theorem recover_of_info {disk : Disk} {info : Resources} (h : disk.resourceState = none)
    (hin : disk.resourcesInfo = some info) : ResourcesState.recover disk = ⟨info, disk.resourcesTarget⟩ := by
  rw [ResourcesState.recover, h, hin]

theorem recoverOperations_of_target {disk : Disk} {state : ResourceState} (h : disk.resourceStateTarget = some state) :
    recoverOperations disk = state.operations := by
  rw [recoverOperations, h]

theorem Settled.read {destroyed : List Text} {disk : Disk} {state : ResourceState} (h : Settled s destroyed disk state) :
    ResourcesState.recover disk = ⟨state.resources, none⟩ ∧ recoverOperations disk = state.operations := by
  rcases h.form with ⟨hst, hta⟩ | ⟨hst, hop, ⟨hin, he, -⟩ | ⟨hin, hta⟩⟩
  · rw [recover_of_state hst, recoverOperations, hst, hta]
    exact ⟨rfl, rfl⟩
  · refine ⟨?_, hop⟩
    rw [ResourcesState.recover, hst, hin, he]
  · refine ⟨?_, hop⟩
    rw [recover_of_info hst hin, hta]

theorem mem_gonePaths {destroyed : List Text} {old : Resources} : path ∈ gonePaths s.flags destroyed old new ↔
      (path ∈ destroyed ∨ path ∈ destroyedPaths s.flags old new) ∧ path ∉ volumePaths s.flags new := by
  rw [gonePaths, mem_filter, mem_append, decide_eq_true_iff]

variable {destroyed : List Text} {disk : Disk} {old : Resources} {state : ResourceState} {sync : List DirectoryStep}

theorem Forward.syncing (h : Forward s destroyed disk old state)
    (hold : s.Placed old) (hde : ∀ path ∈ destroyed, path ∈ s.places)
    (hsy : Syncs s old state.resources sync) (hs : ∀ step ∈ steps, step ∈ sync) :
    Forward s destroyed { disk with directories := steps.foldl apply disk.directories } old state where
  target := h.target
  read := h.read
  volumes path hpa hnew :=
    mem_foldl_apply s.apart (hold.mem hpa) (fun step hst => hsy.within step (hs step hst))
      (fun root hr => hsy.deletes path root (hs _ hr) hnew) (h.volumes path hpa hnew)
  gone path hpa hnew :=
    notMem_foldl_apply s.apart (hde path hpa) (fun step hst => hsy.within step (hs step hst))
      (fun hc => hnew (hsy.creates path (hs _ hc))) (h.gone path hpa hnew)

/-- **After the whole synchronisation the directories are those of the new pair.** -/
theorem Syncs.settles (hsy : Syncs s old state.resources sync)
    (hde : ∀ path ∈ destroyed, path ∈ s.places) {directories : Finset (List Text)}
    (hv : ∀ path ∈ volumePaths s.flags old, path ∈ volumePaths s.flags state.resources → place path ∈ directories)
    (hg : ∀ path ∈ destroyed, path ∉ volumePaths s.flags state.resources → place path ∉ directories) :
    (∀ path ∈ volumePaths s.flags state.resources, place path ∈ sync.foldl apply directories) ∧
      ∀ path ∈ gonePaths s.flags destroyed old state.resources, place path ∉ sync.foldl apply directories := by
  refine ⟨fun path hpa => hsy.made directories path hpa fun hold => hv path hold hpa, fun path hpa => ?_⟩
  obtain ⟨hb | hnow, hnew⟩ := mem_gonePaths.1 hpa
  · exact notMem_foldl_apply s.apart (hde path hb) hsy.within (fun h => hnew (hsy.creates path h)) (hg path hb hnew)
  · exact hsy.removed directories path hnow

/-! ## Performing steps -/

theorem Plan.run_of_perform {α : Type} {plan : Plan α} {disk next : Disk} (h : disk.perform plan.steps = (next, true)) :
    plan.run disk = (next, plan.result) := by
  rw [Plan.run, h]
  rfl

theorem perform_directories (rest : List Step) : ∀ (sync : List DirectoryStep) (disk : Disk),
    disk.perform (sync.map directory ++ rest) =
      { disk with directories := sync.foldl apply disk.directories }.perform rest
  | [], _ => rfl
  | _ :: sync, _ => perform_directories rest sync _

theorem perform_take_directories (rest : List Step) (sync : List DirectoryStep) (disk : Disk) (done : Nat) :
    (∃ steps : List DirectoryStep, (∀ step ∈ steps, step ∈ sync) ∧
      disk.perform ((sync.map directory ++ rest).take done) =
        ({ disk with directories := steps.foldl apply disk.directories }, true)) ∨
    ∃ more, disk.perform ((sync.map directory ++ rest).take done) =
      { disk with directories := sync.foldl apply disk.directories }.perform (rest.take (more + 1)) := by
  rcases lt_or_ge sync.length done with hlt | hle
  · refine .inr ⟨done - sync.length - 1, ?_⟩
    have hm : done - sync.length - 1 + 1 = done - sync.length := by omega
    rw [hm, take_append, take_of_length_le (by rw [length_map]; omega), length_map, perform_directories]
  · refine .inl ⟨sync.take done, fun _ => mem_of_mem_take, ?_⟩
    have ht : (sync.map directory ++ rest).take done = (sync.take done).map directory ++ [] := by
      rw [take_append_of_le_length (by rwa [length_map]), map_take, append_nil]
    rw [ht, perform_directories]
    rfl

/-! ## The invariant -/

structure Known (s : Setting) (state : ResourceState) : Prop where
  placed : s.Placed state.resources
  compatible : ∃ total, applyCheckpointedResources s.flags.resources state.resources = .ok total
  own : ∀ operation ∈ state.operations, operation.providerId = none

structure Running (s : Setting) (world : World) (agent : Agent) : Prop where
  settled : Settled s world.destroyed world.disk world.current
  exact : world.disk.resourceState = none → agent.checkpointedResources = world.current.resources
  placed : s.Placed agent.checkpointedResources
  alike : Alike s.flags agent.checkpointedResources world.current.resources
  finished : world.interrupted = none

def Admitted (world : World) (state : ResourceState) : Prop :=
  state = world.current ∨ ∃ after, world.interrupted = some after ∧ state.Is after

inductive Down (s : Setting) (world : World) : Prop where
  | settled (state : ResourceState) (hstate : Admitted world state) (hknown : Known s state) (h : Settled s (world.settle s.flags state).destroyed world.disk state)
  | forward (after : ResourceState) (hafter : world.interrupted = some after) (hknown : Known s after)
      (h : Forward s world.destroyed world.disk world.current.resources after)

structure Sound (s : Setting) (world : World) : Prop where
  known : Known s world.current
  destroyed : ∀ path ∈ world.destroyed, path ∈ s.places ∧ path ∉ volumePaths s.flags world.current.resources
  running : ∀ agent, world.agent = some agent → Running s world agent
  down : world.agent = none → Down s world

variable {world : World} {after : ResourceState}

theorem Sound.within (h : Sound s world) (path : Text) (hpa : path ∈ world.destroyed) : path ∈ s.places :=
  (h.destroyed path hpa).1

theorem ResourceState.is_self (state : ResourceState) : state.Is state := ⟨.inl rfl, rfl⟩

section
variable (haf : world.interrupted = some after) (h : state.Is after)
include haf h

theorem settle_of_is : world.settle s.flags state = world.commit s.flags state := by
  rw [settle, haf]
  exact if_pos h

theorem settle_destroyed_of_is :
    (world.settle s.flags state).destroyed = gonePaths s.flags world.destroyed world.current.resources state.resources := by
  rw [settle_of_is haf h]
  rfl

end

theorem settle_of_not (h : ¬ ∃ after, world.interrupted = some after ∧ state.Is after) :
    world.settle s.flags state = world := by
  unfold settle
  split
  · rfl
  next after haf => exact if_neg fun his => h ⟨after, haf, his⟩

theorem settle_with (state : ResourceState) (disk : Disk) (agent : Option Agent) :
    (settle s.flags { world with disk, agent } state).destroyed = (world.settle s.flags state).destroyed := by
  unfold settle
  dsimp only
  split
  · rfl
  · split <;> rfl

theorem settle_destroyed (hde : ∀ path ∈ world.destroyed, path ∉ volumePaths s.flags world.current.resources)
    (hst : state.resources = world.current.resources) : (world.settle s.flags state).destroyed = world.destroyed := by
  have hno : destroyedPaths s.flags world.current.resources world.current.resources = [] := by
    rw [eq_nil_iff_forall_not_mem]
    intro path hpa
    exact (mem_destroyedPaths.1 hpa).2.1 (mem_destroyedPaths.1 hpa).1
  have hg : gonePaths s.flags world.destroyed world.current.resources state.resources = world.destroyed := by
    rw [hst, gonePaths, hno, append_nil, filter_eq_self]
    exact fun path hpa => decide_eq_true (hde path hpa)
  unfold settle
  split
  · rfl
  · split
    · exact hg
    · rfl

theorem mem_places_of_gone {old : Resources} (hold : s.Placed old) (hde : ∀ path ∈ destroyed, path ∈ s.places) :
    ∀ path ∈ gonePaths s.flags destroyed old new, path ∈ s.places ∧ path ∉ volumePaths s.flags new := by
  intro path hpa
  obtain ⟨hb | hnow, hnew⟩ := mem_gonePaths.1 hpa
  · exact ⟨hde path hb, hnew⟩
  · exact ⟨hold.mem (mem_destroyedPaths.1 hnow).1, hnew⟩

theorem Known.finishRecovery (h : Known s state) :
    finishRecovery s.flags state.resources state.operations = some ({ checkpointedResources := state.resources }, state) := by
  obtain ⟨_, ht⟩ := h.compatible
  rw [Slave.finishRecovery, ht]
  rw [if_neg]
  rintro ⟨operation, hmem, hpr⟩
  rw [h.own operation hmem] at hpr
  exact nomatch hpr

/-- **Recovery of a settled disk** yields the pair it is settled on. -/
theorem Settled.recover (h : Settled s destroyed disk state) (hkn : Known s state) (order : Order) :
    recover s.flags order disk = ⟨[], some ({ checkpointedResources := state.resources }, state)⟩ := by
  obtain ⟨hr, hop⟩ := h.read
  rw [Slave.recover, hr]
  rw [hop, hkn.finishRecovery]

/-- **Recovery of a disk that leads forward** finishes the directories and renames the target. -/
theorem Forward.recover (h : Forward s destroyed disk old state)
    (hkn : Known s state) (hold : s.Placed old) (order : Order) : ∃ sync, Syncs s old state.resources sync ∧
      recover s.flags order disk = ⟨sync.map .directory ++ [.renameState, .renameTarget],
        some ({ checkpointedResources := state.resources }, state)⟩ := by
  obtain ⟨sync, hsy, hs⟩ := sync_some order hold hkn.placed
  refine ⟨sync, hs, ?_⟩
  rw [Slave.recover, h.read]
  dsimp only
  rw [hsy, recoverOperations_of_target h.target, hkn.finishRecovery]

theorem Forward.renamed (h : Forward s destroyed disk old state)
    (hde : ∀ path ∈ destroyed, path ∈ s.places) (hsy : Syncs s old state.resources sync) (more : Nat) :
    Settled s (gonePaths s.flags destroyed old state.resources)
      ({ disk with directories := sync.foldl apply disk.directories }.perform
        ([renameState, .renameTarget].take (more + 1))).1 state := by
  obtain ⟨hv, hg⟩ := hsy.settles hde h.volumes h.gone
  have hr : { disk with directories := sync.foldl apply disk.directories }.step .renameState =
      some { disk with
        directories := sync.foldl apply disk.directories
        resourceStateTarget := none
        resourceState := some state } := by
    rw [Disk.step, h.target]
  cases more with
  | zero =>
    rw [take_succ_cons, Disk.perform, hr]
    exact ⟨.inl ⟨rfl, rfl⟩, hv, hg⟩
  | succ =>
    rw [take_succ_cons, take_succ_cons, take_nil, Disk.perform, hr]
    cases disk.resourcesTarget with
    | none | some => exact ⟨.inl ⟨rfl, rfl⟩, hv, hg⟩

/-! ## Restarting -/

variable (hsound : Sound s world)
include hsound

/-- **An uninterrupted recovery settles the disk on an admitted pair**, and yields it unless the last rename fails. -/
theorem Down.restart (h : Down s world) (order : Order) : ∃ state, Admitted world state ∧ Known s state ∧
      Settled s (world.settle s.flags state).destroyed ((recover s.flags order world.disk).run world.disk).1 state ∧
      (((recover s.flags order world.disk).run world.disk).2 = none ∨
        ((recover s.flags order world.disk).run world.disk).2 =
          some ({ checkpointedResources := state.resources }, state)) := by
  cases h with
  | settled state hst hkn h =>
    refine ⟨state, hst, hkn, ?_⟩
    rw [h.recover hkn order]
    exact ⟨h, .inr rfl⟩
  | forward after haf hkn h =>
    obtain ⟨_, hsy, hr⟩ := h.recover hkn hsound.known.placed order
    refine ⟨after, .inr ⟨after, haf, after.is_self⟩, hkn, ?_⟩
    rw [hr, Plan.run, perform_directories, settle_of_is haf after.is_self]
    refine ⟨h.renamed hsound.within hsy 1, ?_⟩
    split
    · exact .inr rfl
    · exact .inl rfl

/-- **A recovery that crashes leaves a disk for the next one.** -/
theorem Down.crashed (h : Down s world) (order : Order) (done : Nat) :
    Down s { world with disk := (recover s.flags order world.disk).crash world.disk done, agent := none } := by
  cases h with
  | settled state hst hkn h =>
    rw [h.recover hkn order, Plan.crash, take_nil]
    exact .settled state hst hkn ((settle_with state world.disk none).symm ▸ h)
  | forward after haf hkn h =>
    obtain ⟨sync, hsy, hr⟩ := h.recover hkn hsound.known.placed order
    rw [hr, Plan.crash]
    rcases perform_take_directories [.renameState, .renameTarget] sync world.disk done with
      ⟨steps, hs, heq⟩ | ⟨more, heq⟩
    · rw [heq]
      exact .forward after haf hkn (h.syncing hsound.known.placed hsound.within hsy hs)
    rw [heq]
    refine .settled after (.inr ⟨after, haf, after.is_self⟩) hkn ?_
    rw [settle_destroyed_of_is (by exact haf) after.is_self]
    exact h.renamed hsound.within hsy more

/-- **A restart keeps the invariant.** -/
theorem Sound.restart (order : Order) (crash : Option Nat) : Sound s (world.step s.flags (.restart order crash)) := by
  unfold step
  cases hag : world.agent with
  | some => exact hsound
  | none =>
    have hd := hsound.down hag
    cases crash with
    | some done =>
      exact ⟨hsound.known, hsound.destroyed, nofun, fun _ => hd.crashed hsound order done⟩
    | none =>
      obtain ⟨state, ha, hkn, hs, hr⟩ := hd.restart hsound order
      dsimp only
      rcases hrun : (recover s.flags order world.disk).run world.disk with ⟨disk, _⟩
      rw [hrun] at hs hr
      -- The pair is in force from now on if it is not the one before.
      have hse : (world.settle s.flags state).current = state ∧ ∀ path ∈ (world.settle s.flags state).destroyed,
          path ∈ s.places ∧ path ∉ volumePaths s.flags state.resources := by
        by_cases his : ∃ after, world.interrupted = some after ∧ state.Is after
        · obtain ⟨_, haf, his⟩ := his
          rw [settle_of_is haf his]
          exact ⟨rfl, mem_places_of_gone hsound.known.placed hsound.within⟩
        · obtain rfl := ha.resolve_right his
          rw [settle_of_not his]
          exact ⟨rfl, hsound.destroyed⟩
      rcases hr with rfl | rfl
      · refine ⟨hsound.known, hsound.destroyed, nofun, fun _ => ?_⟩
        exact .settled state ha hkn ((settle_with state disk none).symm ▸ hs)
      dsimp only
      rw [hse.1]
      refine ⟨hkn, hse.2, fun _ h => ?_, nofun⟩
      obtain rfl := Option.some.inj h
      exact ⟨hs, fun _ => rfl, hkn.placed, ⟨fun _ => .rfl, fun _ => .rfl⟩, rfl⟩

theorem Sound.fallen : Down s world := by
  cases ha : world.agent with
  | none => exact hsound.down ha
  | some agent =>
    have hs := @settle_destroyed s world.current world (fun path hpa => (hsound.destroyed path hpa).2) rfl
    exact .settled world.current (.inl rfl) hsound.known (hs.symm ▸ (hsound.running agent ha).settled)

theorem Sound.crash : Sound s (world.step s.flags .crash) := by
  refine ⟨hsound.known, hsound.destroyed, nofun, fun _ => ?_⟩
  cases hsound.fallen with
  | settled state hst hkn h => exact .settled state hst hkn ((settle_with state world.disk none).symm ▸ h)
  | forward after haf hkn h => exact .forward after haf hkn h

/-! ## Checkpointing -/

/-- What a call may ask for without running into the two formats: its volumes have directories in the given places; if a
crash interrupts it before the file with resources and operations exists, it does not change both; and it does not ask
for what the agent remembers while other operations are in force. -/
def Meets (flags : Flags) (places : Set Text) (world : World) : Event → Prop
  | .checkpoint _ resources operations crash => ∀ agent, world.agent = some agent →
    Placed flags places (requested resources operations).resources ∧
      (crash.isSome → world.disk.resourceState.isSome ∨
        (requested resources operations).resources.same agent.checkpointedResources ∨
        (requested resources operations).operations = world.current.operations) ∧
      ((requested resources operations).resources.same agent.checkpointedResources →
        (requested resources operations).operations = agent.checkpointedOperations →
        (requested resources operations).operations = world.current.operations)
  | .crash => True
  | .restart _ _ => True

variable {agent : Agent} {resources : List Resource} {operations : Finset Operation}

section

variable (s : Setting) (agent : Agent) (state : ResourceState)

inductive CallPlan : Plan Agent → Prop where
  | refused : CallPlan ⟨[], none⟩
  | ignored (hsame : state.resources.same agent.checkpointedResources = true)
      (hoperations : state.operations = agent.checkpointedOperations) : CallPlan ⟨[], some agent⟩
  | operations (hknown : Known s state) (hsame : state.resources.same agent.checkpointedResources = true)
      (hoperations : state.operations ≠ agent.checkpointedOperations) :
      CallPlan ⟨[.checkpointState state, .renameState],
        some { agent with checkpointedOperations := state.operations }⟩
  | resources (hknown : Known s state) (hchanged : ¬ state.resources.same agent.checkpointedResources = true)
      (sync : List DirectoryStep) (hsync : Syncs s agent.checkpointedResources state.resources sync) :
      CallPlan ⟨[.checkpointState state, .checkpointTarget state.resources] ++
        (sync.map .directory ++ [.renameTarget, .renameState]), some ⟨state.resources, state.operations⟩⟩

end

omit hsound

theorem checkpoint_plan (order : Order) (ha : s.Placed agent.checkpointedResources)
    (hpl : s.Placed (requested resources operations).resources) : CallPlan s agent (requested resources operations)
      (checkpointResourceState s.flags order agent resources operations) := by
  unfold checkpointResourceState
  by_cases hpr : resources.any hasResourceProvider = true
  · rw [if_pos hpr]
    exact .refused
  rw [if_neg hpr]
  by_cases hi : (Resources.ofObjects resources).same agent.checkpointedResources = true ∧
      operations.filter (operationNeedsCheckpointing · = true) = agent.checkpointedOperations
  · rw [if_pos hi]
    exact .ignored hi.1 hi.2
  rw [if_neg hi]
  cases ht : applyCheckpointedResources s.flags.resources (Resources.ofObjects resources) with
  | error => exact .refused
  | ok total =>
    have hkn : Known s (requested resources operations) := by
      refine ⟨hpl, ⟨total, ht⟩, fun _ ho => ?_⟩
      have hn := (Finset.mem_filter.1 ho).2
      unfold operationNeedsCheckpointing at hn
      split at hn
      · exact nomatch hn
      next hpr => exact Option.not_isSome_iff_eq_none.1 hpr
    by_cases hsa : (Resources.ofObjects resources).same agent.checkpointedResources = true
    · rw [if_pos hsa]
      exact .operations hkn hsa fun hop => hi ⟨hsa, hop⟩
    rw [if_neg hsa]
    obtain ⟨sync, hs, hsy⟩ := sync_some order ha hpl
    have hs' : syncCheckpointedResources s.flags order agent.checkpointedResources (Resources.ofObjects resources) =
        some sync := hs
    rw [hs']
    exact .resources hkn hsa sync hsy

inductive Begun (s : Setting) (destroyed : List Text) (disk : Disk) (old : Resources) (state : ResourceState) : Prop where
  | forward (h : Forward s destroyed disk old state)
  | early (hstate : disk.resourceState = none) (hinfo : disk.resourcesInfo = none)
      (htarget : disk.resourceStateTarget = some state) (hold : old = []) (hdestroyed : destroyed = [])

variable (h : Begun s destroyed disk old state)
include h

theorem Begun.directories_of :
    (∀ path ∈ volumePaths s.flags old, path ∈ volumePaths s.flags state.resources → place path ∈ disk.directories) ∧
      ∀ path ∈ destroyed, path ∉ volumePaths s.flags state.resources → place path ∉ disk.directories := by
  cases h with
  | forward h => exact ⟨h.volumes, h.gone⟩
  | early _ _ _ hold hde =>
    rw [hold, hde]
    exact ⟨fun path hpa => absurd hpa not_mem_nil, fun _ hpa => absurd hpa not_mem_nil⟩

theorem Begun.target : disk.resourceStateTarget = some state := by
  cases h with
  | forward h => exact h.target
  | early _ _ hta => exact hta

theorem Begun.syncing (hold : s.Placed old) (hde : ∀ path ∈ destroyed, path ∈ s.places)
    (hsy : Syncs s old state.resources sync) (hs : ∀ step ∈ steps, step ∈ sync) :
    Begun s destroyed { disk with directories := steps.foldl apply disk.directories } old state := by
  cases h with
  | forward h => exact .forward (h.syncing hold hde hsy hs)
  | early hst hin hta hold hde => exact .early hst hin hta hold hde

def Disk.written (disk : Disk) (state : ResourceState) : Disk := { disk with resourceStateTarget := some state }

def Disk.targeted (disk : Disk) (state : ResourceState) : Disk :=
  { disk with resourceStateTarget := some state, resourcesTarget := some state.resources }

def World.broken (world : World) (state : ResourceState) (disk : Disk) : World :=
  { world with disk, agent := none, interrupted := some state }

omit h

theorem down_of_operations (hsound : Sound s world) (hkn : Known s state)
    (hpa : state.resources.same world.current.resources = true ∨ state.operations = world.current.operations)
    (h : Settled s world.destroyed disk ⟨world.current.resources, state.operations⟩) :
    Down s (world.broken state disk) := by
  refine .settled ⟨world.current.resources, state.operations⟩ ?_ ?_ ?_
  · rcases hpa with hsa | hop
    · exact .inr ⟨state, rfl, .inr hsa, rfl⟩
    · rw [hop]
      exact .inl rfl
  · exact ⟨hsound.known.placed, hsound.known.compatible, hkn.own⟩
  have hs : ((world.broken state disk).settle s.flags ⟨world.current.resources, state.operations⟩).destroyed =
      world.destroyed := settle_destroyed (fun path hpt => (hsound.destroyed path hpt).2) rfl
  rw [hs]
  exact h

theorem Running.written (hrun : Running s world agent) (hsound : Sound s world)
    (hkn : Known s state) (hpa : world.disk.resourceState.isSome ∨
      state.resources.same agent.checkpointedResources = true ∨ state.operations = world.current.operations) :
    Down s (world.broken state (world.disk.written state)) := by
  rcases hrun.settled.form with ⟨hst, -⟩ | ⟨hst, -, hf⟩
  · refine .forward state rfl hkn ⟨rfl, ?_, fun path hpt _ => hrun.settled.volumes path hpt,
      fun path hpt _ => hrun.settled.gone path hpt⟩
    exact @recover_of_state (world.disk.written state) _ hst
  · have hpa : state.resources.same world.current.resources = true ∨ state.operations = world.current.operations := by
      rw [hrun.exact hst, hst] at hpa
      exact hpa.resolve_left (by simp)
    exact down_of_operations hsound hkn hpa ⟨.inr ⟨hst, rfl, hf⟩, hrun.settled.volumes, hrun.settled.gone⟩

theorem Running.begun (hrun : Running s world agent) (state : ResourceState) :
    Begun s world.destroyed (world.disk.targeted state) world.current.resources state := by
  have hv := fun path hpa (_ : path ∈ volumePaths s.flags state.resources) => hrun.settled.volumes path hpa
  have hg := fun path hpa (_ : path ∉ volumePaths s.flags state.resources) => hrun.settled.gone path hpa
  rcases hrun.settled.form with ⟨hst, -⟩ | ⟨hst, -, ⟨hin, he, hno⟩ | ⟨hin, -⟩⟩
  · exact .forward ⟨rfl, @recover_of_state (world.disk.targeted state) _ hst, hv, hg⟩
  · exact .early hst hin rfl he hno
  · exact .forward ⟨rfl, @recover_of_info (world.disk.targeted state) _ hst hin, hv, hg⟩

theorem Begun.down (hsound : Sound s world) (hkn : Known s state)
    (h : Begun s world.destroyed disk world.current.resources state)
    (he : disk.resourceState = none → state.operations = world.current.operations) :
    Down s (world.broken state disk) := by
  cases h with
  | forward h => exact .forward state rfl hkn h
  | early hst hin hta hold hde =>
    refine down_of_operations hsound hkn (.inr (he hst)) ⟨.inr ⟨hst,
      (recoverOperations_of_target hta :), .inl ⟨hin, hold, hde⟩⟩, ?_, ?_⟩
    · intro _ hpa
      rw [hold] at hpa
      exact nomatch hpa
    · rw [hde]
      exact nofun

def Disk.informed (disk : Disk) (state : ResourceState) (sync : List DirectoryStep) : Disk :=
  { disk with
    directories := sync.foldl DirectoryStep.apply disk.directories
    resourcesTarget := none
    resourcesInfo := some state.resources }

theorem Begun.informed (hsound : Sound s world) (hkn : Known s state)
    (h : Begun s world.destroyed disk world.current.resources state)
    (hsy : Syncs s world.current.resources state.resources sync) :
    Down s (world.broken state (disk.informed state sync)) := by
  obtain ⟨hv, hg⟩ := hsy.settles hsound.within h.directories_of.1 h.directories_of.2
  cases hst : disk.resourceState with
  | none =>
    refine .settled state (.inr ⟨state, rfl, state.is_self⟩) hkn ?_
    rw [settle_destroyed_of_is rfl state.is_self]
    have hop : recoverOperations (disk.informed state sync) = state.operations := recoverOperations_of_target h.target
    exact ⟨.inr ⟨hst, hop, .inr ⟨rfl, rfl⟩⟩, hv, hg⟩
  | some =>
    cases h with
    | early hno => exact nomatch hno.symm.trans hst
    | forward h =>
      have hs := h.syncing hsound.known.placed hsound.within hsy fun _ => id
      have hr := (@recover_of_state (disk.informed state sync) _ hst).trans ((recover_of_state hst).symm.trans h.read)
      exact .forward state rfl hkn ⟨h.target, hr, hs.volumes, hs.gone⟩

def Disk.committed (disk : Disk) (state : ResourceState) : Disk :=
  { disk with resourceStateTarget := none, resourceState := some state }

theorem Sound.broken (hsound : Sound s world) (h : Down s (world.broken state disk)) :
    Sound s (world.broken state disk) :=
  ⟨hsound.known, hsound.destroyed, nofun, fun _ => h⟩

theorem down_of_committed (hkn : Known s state)
    (h : Settled s (gonePaths s.flags world.destroyed world.current.resources state.resources) disk state) :
    Down s (world.broken state disk) := by
  refine .settled state (.inr ⟨state, rfl, state.is_self⟩) hkn ?_
  rw [settle_destroyed_of_is rfl state.is_self]
  exact h

theorem Running.committed_operations (hrun : Running s world agent)
    (hsa : state.resources.same agent.checkpointedResources = true) :
    Settled s (gonePaths s.flags world.destroyed world.current.resources state.resources)
      (world.disk.committed state) state := by
  have ha : Alike s.flags state.resources agent.checkpointedResources := alike_of_same hsa
  have hpat : ∀ path, path ∈ volumePaths s.flags state.resources ↔ path ∈ volumePaths s.flags world.current.resources :=
    fun path => (ha.1 path).trans (hrun.alike.1 path)
  refine ⟨.inl ⟨rfl, rfl⟩, fun path hpa => hrun.settled.volumes path ((hpat path).1 hpa), fun path hpa => ?_⟩
  obtain ⟨hb | hnow, hnew⟩ := mem_gonePaths.1 hpa
  · exact hrun.settled.gone path hb
  · exact absurd ((hpat path).2 (mem_destroyedPaths.1 hnow).1) hnew

variable (hrun : Running s world agent) (hsound : Sound s world)
include hrun hsound

theorem Running.committed_resources (hsy : Syncs s world.current.resources state.resources sync) :
    Settled s (gonePaths s.flags world.destroyed world.current.resources state.resources)
      (((world.disk.targeted state).informed state sync).committed state) state := by
  obtain ⟨hv, hg⟩ := hsy.settles hsound.within
    (fun path hpa _ => hrun.settled.volumes path hpa) (fun path hpa _ => hrun.settled.gone path hpa)
  exact ⟨.inl ⟨rfl, rfl⟩, hv, hg⟩

theorem Running.untouched (state : ResourceState) : Down s (world.broken state world.disk) := by
  have hs : ((world.broken state world.disk).settle s.flags world.current).destroyed = world.destroyed :=
    settle_destroyed (fun path hpa => (hsound.destroyed path hpa).2) rfl
  refine .settled world.current (.inl rfl) hsound.known ?_
  rw [hs]
  exact hrun.settled

/-- **A crash anywhere in a call leaves a disk that recovery can make sense of.** -/
theorem Running.crashed {plan : Plan Agent} (hpl : CallPlan s agent state plan)
    (hpa : world.disk.resourceState.isSome ∨ state.resources.same agent.checkpointedResources = true ∨
      state.operations = world.current.operations) (done : Nat) :
    Down s (world.broken state (plan.crash world.disk done)) := by
  have hn := hrun.untouched hsound state
  cases hpl with
  | refused | ignored =>
    rw [Plan.crash, take_nil]
    exact hn
  | operations hkn hsa =>
    match done with
    | 0 => exact hn
    | 1 => exact hrun.written hsound hkn hpa
    | done + 2 =>
      rw [Plan.crash, take_succ_cons, take_succ_cons, take_nil]
      exact down_of_committed hkn (hrun.committed_operations hsa)
  | resources hkn hch sync hsy =>
    have hsy := hsy.alike hrun.alike
    have hb := hrun.begun state
    have he : world.disk.resourceState = none → state.operations = world.current.operations := by
      intro hno
      rw [hno] at hpa
      exact (hpa.resolve_left (by simp)).resolve_left hch
    match done with
    | 0 => exact hn
    | 1 => exact hrun.written hsound hkn hpa
    | done + 2 =>
      have hc : (world.disk.perform (([checkpointState state, .checkpointTarget state.resources] ++
          (sync.map directory ++ [renameTarget, .renameState])).take (done + 2))) =
          (world.disk.targeted state).perform ((sync.map directory ++ [renameTarget, .renameState]).take done) :=
        rfl
      rw [Plan.crash, hc]
      rcases perform_take_directories [.renameTarget, .renameState] sync (world.disk.targeted state) done with
        ⟨steps, hs, heq⟩ | ⟨more, heq⟩
      · rw [heq]
        exact (hb.syncing hsound.known.placed hsound.within hsy hs).down hsound hkn he
      rw [heq]
      match more with
      | 0 => exact hb.informed hsound hkn hsy
      | more + 1 =>
        rw [take_succ_cons, take_succ_cons, take_nil]
        exact down_of_committed hkn (hrun.committed_resources hsound hsy)

omit hrun hsound

theorem Sound.committed (hsound : Sound s world) (hkn : Known s state) {next : Agent}
    (hn : s.Placed next.checkpointedResources) (ha : Alike s.flags next.checkpointedResources state.resources)
    (hf : world.interrupted = none) (hst : disk.resourceState ≠ none)
    (h : Settled s (gonePaths s.flags world.destroyed world.current.resources state.resources) disk state) :
    Sound s { world.commit s.flags state with disk, agent := some next } where
  known := hkn
  destroyed := mem_places_of_gone hsound.known.placed hsound.within
  running agent hag := by
    obtain rfl := Option.some.inj hag
    exact ⟨h, fun hno => absurd hno hst, hn, ha, hf⟩
  down h := nomatch h

/-- **A call keeps the invariant.** -/
theorem Sound.checkpoint (hsound : Sound s world) (order : Order)
    (resources : List Resource) (operations : Finset Operation) (crash : Option Nat)
    (hm : Meets s.flags s.places world (.checkpoint order resources operations crash)) :
    Sound s (world.step s.flags (.checkpoint order resources operations crash)) := by
  unfold step
  cases ha : world.agent with
  | none => exact hsound
  | some agent =>
    have hrun := hsound.running agent ha
    obtain ⟨hpla, hpa, hr⟩ := hm agent ha
    have hpl := @checkpoint_plan s agent resources operations order hrun.placed hpla
    obtain ⟨state, hst⟩ : ∃ state, requested resources operations = state := ⟨_, rfl⟩
    rw [hst] at hpl hpa hr
    cases crash with
    | some done =>
      dsimp only
      rw [hst]
      exact hsound.broken (hrun.crashed hsound hpl (hpa rfl) done)
    | none =>
      dsimp only
      rw [hst]
      generalize checkpointResourceState s.flags order agent resources operations = plan at hpl
      cases hpl with
      | refused => exact hsound.broken (hrun.untouched hsound state)
      | ignored hsa hop =>
        have hc : world.called s.flags agent state = world :=
          if_pos ⟨hsa, hop, hr hsa hop⟩
        rw [hc]
        refine ⟨hsound.known, hsound.destroyed, fun _ hn => ?_, nofun⟩
        obtain rfl := Option.some.inj hn
        exact ⟨hrun.settled, hrun.exact, hrun.placed, hrun.alike, hrun.finished⟩
      | operations hkn hsa hop =>
        have hc : world.called s.flags agent state = world.commit s.flags state := if_neg fun h => hop h.2.1
        have hal : Alike s.flags state.resources agent.checkpointedResources := alike_of_same hsa
        rw [hc]
        exact hsound.committed hkn hrun.placed ⟨fun path => (hal.1 path).symm, fun path => (hal.2 path).symm⟩
          hrun.finished nofun (hrun.committed_operations hsa)
      | resources hkn hch sync hsy =>
        have hc : world.called s.flags agent state = world.commit s.flags state := if_neg fun h => hch h.1
        have hpe : world.disk.perform ([.checkpointState state, .checkpointTarget state.resources] ++
            (sync.map directory ++ [renameTarget, .renameState])) =
            (((world.disk.targeted state).informed state sync).committed state, true) :=
          perform_directories [renameTarget, .renameState] sync (world.disk.targeted state)
        rw [Plan.run_of_perform hpe]
        rw [hc]
        exact hsound.committed hkn hkn.placed ⟨fun _ => .rfl, fun _ => .rfl⟩ hrun.finished nofun
          (hrun.committed_resources hsound (hsy.alike hrun.alike))

theorem Sound.step (hsound : Sound s world) (event : Event)
    (hm : Meets s.flags s.places world event) : Sound s (world.step s.flags event) := by
  cases event with
  | checkpoint order resources operations crash =>
    exact hsound.checkpoint order resources operations crash hm
  | crash => exact hsound.crash
  | restart order crash => exact hsound.restart order crash

theorem sound_start (s : Setting) : Sound s {} where
  known := ⟨fun volume hv => absurd hv not_mem_nil, ⟨s.flags.resources, rfl⟩,
    fun operation ho => absurd ho (Finset.notMem_empty _)⟩
  destroyed path hpa := absurd hpa not_mem_nil
  running agent ha := by
    obtain rfl := Option.some.inj ha
    exact ⟨⟨.inr ⟨rfl, rfl, .inl ⟨rfl, rfl, rfl⟩⟩, fun path hpa => absurd hpa not_mem_nil,
      fun _ hpa => absurd hpa not_mem_nil⟩, fun _ => rfl, fun _ hv => absurd hv not_mem_nil,
      ⟨fun _ => .rfl, fun _ => .rfl⟩, rfl⟩
  down h := nomatch h

/-! ## Crash atomicity -/

/-- The agent can be restarted after a crash: recovery succeeds, at the second attempt if not at the first.  It yields the
pair before or after the interrupted call, every volume of that pair has its directory, and the directories of destroyed
volumes are gone. -/
structure Recovers (flags : Flags) (world : World) : Prop where
  eventually : ∀ first second : Order, ((recover flags first world.disk).run world.disk).2.isSome ∨
    ((recover flags second ((recover flags first world.disk).run world.disk).1).run
      ((recover flags first world.disk).run world.disk).1).2.isSome
  atomic : ∀ order disk agent state, (recover flags order world.disk).run world.disk = (disk, some (agent, state)) →
    Admitted world state ∧
      (∀ volume ∈ persistentVolumes state.resources, ∃ path, getPersistentVolumePath flags.workDir volume = some path ∧
        place path ∈ disk.directories) ∧
      ∀ path ∈ (world.settle flags state).destroyed, place path ∉ disk.directories

theorem Sound.recovers (hsound : Sound s world) : Recovers s.flags world where
  eventually first second := by
    obtain ⟨state, -, hkn, hs, hr⟩ := hsound.fallen.restart hsound first
    rcases hr with hf | hy
    · right
      rw [hs.recover hkn second]
      rfl
    · left
      rw [hy]
      rfl
  atomic order disk agent state hrun := by
    obtain ⟨_, ha, hkn, hs, hr⟩ := hsound.fallen.restart hsound order
    rw [hrun] at hs hr
    obtain ⟨-, rfl⟩ := Prod.mk.inj (Option.some.inj (hr.resolve_left nofun))
    refine ⟨ha, fun volume hv => ?_, hs.gone⟩
    obtain ⟨path, -, hpa⟩ := hkn.placed volume hv
    exact ⟨path, hpa, hs.volumes path (mem_volumePaths.2 ⟨volume, hv, hpa⟩)⟩

/-- **The checkpoint is crash-atomic**: after every run of calls, crashes and restarts in which no crash hits a call that
changes resources and operations before the file with both exists, and no call is ignored while other operations are in
force, the agent recovers the pair before or after the interrupted call. -/
theorem checkpoint_atomic (flags : Flags) (places : Set Text) (happart : Apart places) (events : List Event)
    (hmeets : Run.Along (World.step flags) (Meets flags places) {} events) :
    Recovers flags (events.foldl (World.step flags) {}) :=
  @Sound.recovers ⟨flags, places, happart⟩ _
    (hmeets.invariant (fun _ event hsound hmeets => hsound.step event hmeets) events (sound_start _))

def listed : Order := ⟨id, fun _ => .rfl⟩

def agentDisk : Resource := { name := "disk", value := .scalar 10000 }

def agentFlags : Flags := ⟨"/w".toList, Resources.ofObjects [agentDisk]⟩

def reservedVolume : Resource :=
  { agentDisk with
    reservations := [{ type := .dynamic, role := "r" }], disk := some { persistence := some { id := "v" } } }

def finishedCreate : Operation := { uuid := 1, type := .create, state := .finished, hasUuid := true }

def createAndDestroy : List Event :=
  [.checkpoint listed [reservedVolume] {finishedCreate} none, .checkpoint listed [] ∅ (some 2)]

theorem checkpoint_atomic_volume : Recovers agentFlags (createAndDestroy.foldl (World.step agentFlags) {}) := by
  have hvolume : ∀ volume ∈ persistentVolumes (requested [reservedVolume] {finishedCreate}).resources,
      getPersistentVolumePath agentFlags.workDir volume = some "/w/volumes/roles/r/v".toList := by
    decide +kernel
  have hfirst : ∀ agent ∈ ({} : World).agent,
      ¬ (requested [reservedVolume] {finishedCreate}).resources.same agent.checkpointedResources := by
    decide +kernel
  have hsecond : (step agentFlags {} (.checkpoint listed [reservedVolume] {finishedCreate} none)).disk.resourceState.isSome ∧
      ∀ agent ∈ (step agentFlags {} (.checkpoint listed [reservedVolume] {finishedCreate} none)).agent,
        ¬ (requested [] ∅).resources.same agent.checkpointedResources := by
    decide +kernel
  refine checkpoint_atomic agentFlags {"/w/volumes/roles/r/v".toList} ?_ createAndDestroy ⟨?_, ?_, trivial⟩
  · rintro p rfl q rfl -
    rfl
  · exact fun agent hagent => ⟨fun volume h => ⟨_, rfl, hvolume volume h⟩, nofun,
      fun hsame => absurd hsame (hfirst agent hagent)⟩
  · exact fun agent hagent => ⟨fun _ h => absurd h not_mem_nil, fun _ => .inl hsecond.1,
      fun hsame => absurd hsame (hsecond.2 agent hagent)⟩

def firstCall : World := World.step agentFlags {} (.checkpoint listed [reservedVolume] {finishedCreate} (some 1))

/-- **The operations of an interrupted first call are recovered without its resources**: the operation has finished, and
the volume it has created is not there. -/
theorem firstCall_mixed : ¬ Recovers agentFlags firstCall := by
  intro h
  have hyielded : ((recover agentFlags listed firstCall.disk).run firstCall.disk).2.map (·.2) =
      some ⟨[], {finishedCreate}⟩ := by
    decide +kernel
  obtain ⟨⟨agent, _⟩, hresult, rfl⟩ := Option.map_eq_some_iff.1 hyielded
  rcases (h.atomic listed _ agent _ (Prod.ext rfl hresult)).1 with hbefore | ⟨after, hafter, his⟩
  · exact absurd hbefore (by decide +kernel)
  · obtain rfl := Option.some.inj hafter
    exact absurd his (by decide +kernel)

end Clusterd.Slave
