import Clusterd.Ledger
import Clusterd.StoutPath
import Mathlib.Data.Finset.Max
/-!
# The volume gid manager

A shared volume is given a group ID of its own from a configured range.  `allocate` records the ID of a volume path,
`deallocate` returns the IDs of all volumes at or below a path, `recover` reads the record back after a restart of the agent.
`allocate` writes the record to the checkpoint itself, `deallocate` in a continuation, after the owner groups of the released
volumes have been set back.
-/
namespace Clusterd.Gids

open Stout Stout.Strings Stout.Path

/-- `VolumeGidInfo::Type`. -/
inductive VolumeType where
  | unknown | persistent | sandboxPath
deriving DecidableEq

/-- `VolumeGidInfo`. -/
structure Info where
  type : VolumeType
  path : Text
  gid : Nat
deriving DecidableEq

/-- The process.  `setting` are the paths whose ownership is being set, `unwritten` the number of continuations of
`deallocate` that are still to write the checkpoint. -/
structure Manager where
  (totalGids freeGids : Finset Nat)
  infos : AList (fun _ : Text => Info) := ∅
  setting : List Text := []
  unwritten : Nat := 0

def Manager.fresh (gids : Finset Nat) : Manager := { totalGids := gids, freeGids := gids }

/-- What `allocate` answers: a gid, a gid once the ownership of the volume is set, or a failure. -/
inductive Answer where
  | gid (gid : Nat)
  | setting (gid : Nat)
  | failure (message : Text)
deriving DecidableEq

namespace Manager

variable (manager : Manager)

/-- `persist` writes all of the record. -/
def persist : List Info := manager.infos.entries.map fun entry => entry.2

/-- `allocate`; `stat` is the group of the path in the file system, or the error.  The checkpoint is written when there
is one in the result. -/
def allocate (manager : Manager) (path : Text) (type : VolumeType) (stat : Except Text Nat) :
    Manager × Answer × Option (List Info) :=
  match manager.infos.lookup path with
  | some info =>
    -- The gid of the path is known; if its ownership is still being set, the caller waits for it.
    (manager, if path ∈ manager.setting then .setting info.gid else .gid info.gid, none)
  | none =>
    match stat with
    | .error e => (manager, .failure ("Failed to stat '".toList ++ path ++ "': ".toList ++ e), none)
    | .ok group =>
      if group ∈ manager.totalGids then
        -- The path is a mount point of another volume, which has been given the gid.
        (manager, .gid group, none)
      else if h : manager.freeGids.Nonempty then
        let gid := manager.freeGids.min' h
        let manager := { manager with
          freeGids := manager.freeGids.erase gid,
          infos := manager.infos.insert path { type, path, gid },
          setting := path :: manager.setting }
        (manager, .setting gid, some manager.persist)
      else
        (manager, .failure ("Failed to allocate gid to the volume path '".toList ++ path ++
          "' because the free gid range is exhausted".toList), none)

/-- One turn of the loop of `deallocate`. -/
def release (path : Text) (manager : Manager) (info : Info) : Manager :=
  if startsWith info.path path then
    { manager with
      -- A gid outside of the range stems from an earlier configuration.
      freeGids := if info.gid ∈ manager.totalGids then insert info.gid manager.freeGids else manager.freeGids,
      infos := manager.infos.erase info.path }
  else manager

/-- `deallocate`, up to its continuation. -/
def deallocate (path : Text) : Manager :=
  let released := manager.persist.foldl (release path) manager
  if manager.persist.any fun info => startsWith info.path path then
    { released with unwritten := released.unwritten + 1 }
  else released

/-- One turn of the first loop of `recover`: the record and the orphaned paths. -/
def restore (rebooted : Bool) (present : Text → Bool) (state : Manager × List Text) (info : Info) :
    Manager × List Text :=
  let manager := { state.1 with
    freeGids := state.1.freeGids.erase info.gid,
    infos := state.1.infos.insert info.path info }
  if rebooted && info.type = .sandboxPath then
    -- The containers are gone, so nobody else releases the volume.
    (manager, state.2.insert (dirname info.path))
  else if !present info.path then (manager, state.2.insert info.path)
  else (manager, state.2)

/-- `recover`; there is no checkpoint before the first change. -/
def recover (checkpoint : Option (List Info)) (rebooted : Bool) (present : Text → Bool) : Manager :=
  match checkpoint with
  | none => manager
  | some infos =>
    let (manager, orphans) := infos.foldl (restore rebooted present) (manager, [])
    orphans.foldl deallocate manager

end Manager

/-! ## Runs -/
structure Agent where
  manager : Manager
  checkpoint : Option (List Info) := none

inductive Event where
  | allocate (path : Text) (type : VolumeType) (stat : Except Text Nat)
  | ownershipSet (path : Text)
  | deallocate (path : Text)
  | deallocated
  | restart (rebooted : Bool) (present : Text → Bool)

def Agent.step (agent : Agent) : Event → Agent
  | .allocate path type stat =>
    let (manager, _, written) := agent.manager.allocate path type stat
    { manager, checkpoint := written <|> agent.checkpoint }
  | .ownershipSet path => { agent with manager.setting := agent.manager.setting.erase path }
  | .deallocate path => { agent with manager := agent.manager.deallocate path }
  | .deallocated =>
    if agent.manager.unwritten = 0 then agent
    else { manager := { agent.manager with unwritten := agent.manager.unwritten - 1 },
           checkpoint := some agent.manager.persist }
  | .restart rebooted present =>
    { agent with manager := (Manager.fresh agent.manager.totalGids).recover agent.checkpoint rebooted present }

def Agent.after (gids : Finset Nat) (events : List Event) : Agent :=
  events.foldl Agent.step { manager := Manager.fresh gids }

/-!
# Group IDs are exclusive

Along every run each gid of the configured range is free or on record for one volume path.  `deallocate` compares paths letter
by letter, so it also releases the gids of siblings whose names go on where the path ends (`startsWith_iff`); it releases what
it should exactly when no such sibling is on record.
-/
open List Manager AList

variable {manager : Manager} {path : Text}

/-! ## One manager -/
def Manager.recorded (manager : Manager) : Finset Nat := (manager.persist.map Info.gid).toFinset

variable {info : Info} {gid : Nat}

theorem mem_persist : info ∈ manager.persist ↔ ∃ path, manager.infos.lookup path = some info := by
  rw [persist, mem_map]
  constructor
  · rintro ⟨⟨path, info⟩, hen, rfl⟩
    exact ⟨path, mem_lookup_iff.2 hen⟩
  · rintro ⟨path, hl⟩
    exact ⟨⟨path, info⟩, mem_lookup_iff.1 hl, rfl⟩

theorem mem_recorded :
    gid ∈ manager.recorded ↔ ∃ path info, manager.infos.lookup path = some info ∧ info.gid = gid := by
  rw [recorded, mem_toFinset, mem_map]
  constructor
  · rintro ⟨info, hin, rfl⟩
    obtain ⟨path, hl⟩ := mem_persist.1 hin
    exact ⟨path, info, hl, rfl⟩
  · rintro ⟨path, info, hl, rfl⟩
    exact ⟨info, mem_persist.2 ⟨path, hl⟩, rfl⟩

structure Manager.Sound (manager : Manager) : Prop where
  keyed : ∀ path info, manager.infos.lookup path = some info → info.path = path
  ranged : ∀ path info, manager.infos.lookup path = some info → info.gid ∈ manager.totalGids
  exclusive : ∀ path other info otherInfo, manager.infos.lookup path = some info →
    manager.infos.lookup other = some otherInfo → info.gid = otherInfo.gid → path = other
  free : ∀ gid, gid ∈ manager.freeGids ↔ gid ∈ manager.totalGids ∧ gid ∉ manager.recorded

structure Listed (gids : Finset Nat) (infos : List Info) : Prop where
  ranged : ∀ info ∈ infos, info.gid ∈ gids
  gid : ∀ info ∈ infos, ∀ other ∈ infos, info.gid = other.gid → info = other
  path : ∀ info ∈ infos, ∀ other ∈ infos, info.path = other.path → info = other

theorem Manager.Sound.listed (h : manager.Sound) : Listed manager.totalGids manager.persist where
  ranged info hin := by
    obtain ⟨path, hl⟩ := mem_persist.1 hin
    exact h.ranged path info hl
  gid info hin other ho hgid := by
    obtain ⟨path, hl⟩ := mem_persist.1 hin
    obtain ⟨path', hl'⟩ := mem_persist.1 ho
    obtain rfl := h.exclusive path path' info other hl hl' hgid
    exact Option.some.inj (hl.symm.trans hl')
  path info hin other ho hpa := by
    obtain ⟨path, hl⟩ := mem_persist.1 hin
    obtain ⟨path', hl'⟩ := mem_persist.1 ho
    obtain rfl : path = path' := by
      rw [← h.keyed path info hl, hpa, h.keyed path' other hl']
    exact Option.some.inj (hl.symm.trans hl')

theorem sound_fresh (gids : Finset Nat) : (fresh gids).Sound where
  keyed _ _ h := nomatch h
  ranged _ _ h := nomatch h
  exclusive _ _ _ _ h := nomatch h
  free _ := ⟨fun hgid => ⟨hgid, not_mem_nil⟩, And.left⟩

theorem Manager.Sound.insert (h : manager.Sound) (hr : info.gid ∈ manager.totalGids)
    (hgid : ∀ path other, manager.infos.lookup path = some other → other.gid = info.gid → path = info.path)
    (hpa : ∀ other, manager.infos.lookup info.path = some other → other.gid = info.gid) {setting : List Text} :
    ({ manager with
      freeGids := manager.freeGids.erase info.gid,
      infos := manager.infos.insert info.path info, setting } : Manager).Sound where
  keyed path other hl := by
    rcases Ledger.lookup_insert_some.1 hl with ⟨rfl, rfl⟩ | ⟨-, hl⟩
    · rfl
    · exact h.keyed path other hl
  ranged path other hl := by
    rcases Ledger.lookup_insert_some.1 hl with ⟨rfl, rfl⟩ | ⟨-, hl⟩
    · exact hr
    · exact h.ranged path other hl
  exclusive path path' other other' hl hl' heq := by
    by_cases hsa : path = info.path
    · by_cases hsa' : path' = info.path
      · exact hsa.trans hsa'.symm
      subst hsa
      rw [lookup_insert] at hl
      rw [lookup_insert_ne hsa'] at hl'
      cases hl
      exact (hgid path' other' hl' heq.symm).symm
    · rw [lookup_insert_ne hsa] at hl
      rcases Ledger.lookup_insert_some.1 hl' with ⟨rfl, rfl⟩ | ⟨-, hl'⟩
      · exact hgid path other hl heq
      · exact h.exclusive path path' other other' hl hl' heq
  free gid := by
    rw [Finset.mem_erase, h.free gid, mem_recorded, mem_recorded]
    constructor
    · rintro ⟨hne, ht, hf⟩
      refine ⟨ht, ?_⟩
      rintro ⟨path, other, hl, ho⟩
      rcases Ledger.lookup_insert_some.1 hl with ⟨rfl, rfl⟩ | ⟨-, hl⟩
      · exact hne ho.symm
      · exact hf ⟨path, other, hl, ho⟩
    · rintro ⟨ht, hf⟩
      refine ⟨?_, ht, ?_⟩
      · rintro rfl
        exact hf ⟨info.path, info, lookup_insert _, rfl⟩
      rintro ⟨path, other, hl, ho⟩
      by_cases hsa : path = info.path
      · subst hsa
        exact hf ⟨info.path, info, lookup_insert _, (hpa other hl).symm.trans ho⟩
      · exact hf ⟨path, other, by rw [lookup_insert_ne hsa]; exact hl, ho⟩

/-- **A new gid is the smallest free one.** -/
theorem Manager.Sound.allocate (h : manager.Sound) (path : Text) (type : VolumeType) (stat : Except Text Nat) :
    (manager.allocate path type stat).1.Sound ∧ (manager.allocate path type stat).1.totalGids = manager.totalGids ∧
      ∀ written, (manager.allocate path type stat).2.2 = some written →
        written = (manager.allocate path type stat).1.persist := by
  unfold Manager.allocate
  cases hl : manager.infos.lookup path with
  | some => exact ⟨h, rfl, by simp⟩
  | none =>
    cases stat with
    | error => exact ⟨h, rfl, by simp⟩
    | ok =>
      dsimp only
      split_ifs with hg hf
      · exact ⟨h, rfl, by simp⟩
      · have hmin := (h.free _).1 (manager.freeGids.min'_mem hf)
        have hr : (⟨type, path, manager.freeGids.min' hf⟩ : Info).gid ∈ manager.totalGids := hmin.1
        refine ⟨h.insert hr ?_ ?_, rfl, fun _ hw => (Option.some.inj hw).symm⟩
        · intro other otherInfo ho hgid
          exact absurd (mem_recorded.2 ⟨other, otherInfo, ho, hgid⟩) hmin.2
        · intro _ ho
          rw [hl] at ho
          cases ho
      · exact ⟨h, rfl, by simp⟩

/-! ## The loop of `deallocate` -/
theorem totalGids_release (path : Text) (manager : Manager) (info : Info) :
    (manager.release path info).totalGids = manager.totalGids := by
  unfold release
  split
  · rfl
  · rfl

theorem mem_freeGids_release {path : Text} {manager : Manager} :
    gid ∈ (manager.release path info).freeGids ↔ gid ∈ manager.freeGids ∨
      gid ∈ manager.totalGids ∧ startsWith info.path path = true ∧ info.gid = gid := by
  unfold release
  split_ifs with hs ht
  · rw [Finset.mem_insert]
    constructor
    · rintro (rfl | hf)
      · exact .inr ⟨ht, hs, rfl⟩
      · exact .inl hf
    · rintro (hf | ⟨-, -, rfl⟩)
      · exact .inr hf
      · exact .inl rfl
  · refine ⟨.inl, ?_⟩
    rintro (hf | ⟨hgid, -, rfl⟩)
    · exact hf
    · exact absurd hgid ht
  · refine ⟨.inl, ?_⟩
    rintro (hf | ⟨-, hyes, -⟩)
    · exact hf
    · exact absurd hyes hs

theorem lookup_release {path other : Text} {manager : Manager} {found : Info} :
    (manager.release path info).infos.lookup other = some found ↔
      manager.infos.lookup other = some found ∧ ¬ (startsWith info.path path = true ∧ info.path = other) := by
  unfold release
  by_cases hs : startsWith info.path path = true
  · rw [if_pos hs]
    by_cases hsa : other = info.path
    · subst hsa
      rw [lookup_erase]
      exact ⟨nofun, fun h => absurd ⟨hs, rfl⟩ h.2⟩
    · rw [lookup_erase_ne hsa]
      exact ⟨fun h => ⟨h, fun hpa => hsa hpa.2.symm⟩, And.left⟩
  · rw [if_neg hs]
    exact ⟨fun h => ⟨h, fun hyes => hs hyes.1⟩, And.left⟩

/-- **What the loop releases**: the given infos whose paths start with `path`. -/
theorem foldl_release (path : Text) : ∀ (infos : List Info) (manager : Manager),
    (infos.foldl (release path) manager).totalGids = manager.totalGids ∧
    (∀ gid, gid ∈ (infos.foldl (release path) manager).freeGids ↔ gid ∈ manager.freeGids ∨
      gid ∈ manager.totalGids ∧ ∃ info ∈ infos, startsWith info.path path = true ∧ info.gid = gid) ∧
    ∀ other found, (infos.foldl (release path) manager).infos.lookup other = some found ↔
      manager.infos.lookup other = some found ∧ ¬ ∃ info ∈ infos, startsWith info.path path = true ∧ info.path = other
  | [], manager => by simp
  | info :: infos, manager => by
    obtain ⟨ht, hf, hl⟩ := foldl_release path infos (manager.release path info)
    rw [totalGids_release] at ht hf
    refine ⟨ht, fun gid => ?_, fun other found => ?_⟩
    · rw [foldl_cons, hf gid, mem_freeGids_release, exists_mem_cons_iff]
      tauto
    · rw [foldl_cons, hl other found, lookup_release, exists_mem_cons_iff, and_assoc, not_or]

/-- **What `deallocate` does**: the paths that start with the given one are off the record and their gids free. -/
theorem deallocate_spec (h : manager.Sound) (path : Text) : (manager.deallocate path).totalGids = manager.totalGids ∧
    (∀ gid, gid ∈ (manager.deallocate path).freeGids ↔ gid ∈ manager.freeGids ∨
      ∃ other info, manager.infos.lookup other = some info ∧ startsWith other path = true ∧ info.gid = gid) ∧
    ∀ other found, (manager.deallocate path).infos.lookup other = some found ↔
      manager.infos.lookup other = some found ∧ startsWith other path = false := by
  obtain ⟨ht, hf, hl⟩ := foldl_release path manager.persist manager
  have hd : (manager.deallocate path).totalGids = (manager.persist.foldl (release path) manager).totalGids ∧
      (manager.deallocate path).freeGids = (manager.persist.foldl (release path) manager).freeGids ∧
      (manager.deallocate path).infos = (manager.persist.foldl (release path) manager).infos := by
    unfold deallocate
    split
    · exact ⟨rfl, rfl, rfl⟩
    · exact ⟨rfl, rfl, rfl⟩
  rw [hd.1, hd.2.1, hd.2.2]
  refine ⟨ht, fun gid => ?_, fun other found => ?_⟩
  · rw [hf gid]
    refine or_congr_right ⟨?_, ?_⟩
    · rintro ⟨-, info, hin, hs, rfl⟩
      obtain ⟨other, ho⟩ := mem_persist.1 hin
      rw [h.keyed other info ho] at hs
      exact ⟨other, info, ho, hs, rfl⟩
    · rintro ⟨other, info, ho, hs, rfl⟩
      refine ⟨h.ranged other info ho, info, mem_persist.2 ⟨other, ho⟩, ?_, rfl⟩
      rw [h.keyed other info ho]
      exact hs
  · rw [hl other found]
    refine and_congr_right fun ho => ?_
    rw [Bool.eq_false_iff]
    refine not_congr ⟨?_, ?_⟩
    · rintro ⟨_, -, hs, rfl⟩
      exact hs
    intro hs
    refine ⟨found, mem_persist.2 ⟨other, ho⟩, ?_, h.keyed other found ho⟩
    rw [h.keyed other found ho]
    exact hs

theorem Manager.Sound.deallocate (h : manager.Sound) (path : Text) : (manager.deallocate path).Sound := by
  obtain ⟨ht, hf, hl⟩ := deallocate_spec h path
  refine ⟨fun other info ho => ?_, fun other info ho => ?_, fun other other' info info' ho ho' => ?_, fun gid => ?_⟩
  · exact h.keyed other info ((hl other info).1 ho).1
  · rw [ht]
    exact h.ranged other info ((hl other info).1 ho).1
  · exact h.exclusive other other' info info' ((hl other info).1 ho).1 ((hl other' info').1 ho').1
  rw [hf gid, h.free gid, ht, mem_recorded, mem_recorded]
  constructor
  · rintro (⟨ht', hnot⟩ | ⟨other, info, ho, hs, rfl⟩)
    · refine ⟨ht', ?_⟩
      rintro ⟨other, info, ho, hgid⟩
      exact hnot ⟨other, info, ((hl other info).1 ho).1, hgid⟩
    refine ⟨h.ranged other info ho, ?_⟩
    rintro ⟨other', info', ho', hgid⟩
    obtain ⟨hb, hk⟩ := (hl other' info').1 ho'
    obtain rfl := h.exclusive other' other info' info hb ho hgid
    rw [hs] at hk
    exact nomatch hk
  · rintro ⟨ht', hnot⟩
    by_cases hr : ∃ other info, manager.infos.lookup other = some info ∧ info.gid = gid
    · obtain ⟨other, info, ho, hgid⟩ := hr
      refine .inr ⟨other, info, ho, ?_, hgid⟩
      by_contra hs
      exact hnot ⟨other, info, (hl other info).2 ⟨ho, Bool.eq_false_iff.2 hs⟩, hgid⟩
    · exact .inl ⟨ht', hr⟩

/-! ## Restarts -/
structure Restored (gids : Finset Nat) (infos : List Info) (manager : Manager) : Prop where
  sound : manager.Sound
  total : manager.totalGids = gids
  mem : ∀ path info, manager.infos.lookup path = some info → info ∈ infos

variable {gids : Finset Nat}

theorem Restored.restore {infos : List Info} {state : Manager × List Text}
    (hl : Listed gids infos) (h : Restored gids infos state.1) (hin : info ∈ infos) (rebooted : Bool)
    (present : Text → Bool) : Restored gids infos (Manager.restore rebooted present state info).1 := by
  obtain ⟨manager, orphans⟩ := state
  have hm : (Manager.restore rebooted present (manager, orphans) info).1 =
      { manager with freeGids := manager.freeGids.erase info.gid, infos := manager.infos.insert info.path info } := by
    unfold Manager.restore
    split_ifs
    · rfl
    · rfl
    · rfl
  rw [hm]
  refine ⟨h.sound.insert ?_ ?_ ?_, h.total, fun path other hlo => ?_⟩
  · rw [h.total]
    exact hl.ranged info hin
  · intro path other ho hgid
    rw [← h.sound.keyed path other ho, hl.gid other (h.mem path other ho) info hin hgid]
  · intro other ho
    rw [hl.path other (h.mem _ other ho) info hin (h.sound.keyed _ other ho)]
  · rcases Ledger.lookup_insert_some.1 hlo with ⟨rfl, rfl⟩ | ⟨-, hlo⟩
    · exact hin
    · exact h.mem path other hlo

/-- **The record read back is sound**, since it is one that a sound manager has written. -/
theorem sound_recover {checkpoint : Option (List Info)}
    (h : ∀ infos, checkpoint = some infos → Listed gids infos) (rebooted : Bool) (present : Text → Bool) :
    ((fresh gids).recover checkpoint rebooted present).Sound ∧
      ((fresh gids).recover checkpoint rebooted present).totalGids = gids := by
  cases checkpoint with
  | none => exact ⟨sound_fresh gids, rfl⟩
  | some infos =>
    have hf : Restored gids infos (fresh gids, ([] : List Text)).1 :=
      ⟨sound_fresh gids, rfl, nofun⟩
    have hr : Restored gids infos (infos.foldl (restore rebooted present) (fresh gids, [])).1 :=
      foldlRecOn (motive := fun state : Manager × List Text => Restored gids infos state.1) infos _ hf fun _ hst _ hin =>
        hst.restore (h infos rfl) hin rebooted present
    refine foldlRecOn (motive := fun manager => manager.Sound ∧ manager.totalGids = gids) _ deallocate
      ⟨hr.sound, hr.total⟩ ?_
    rintro manager ⟨hs, ht⟩ path -
    exact ⟨hs.deallocate path, (deallocate_spec hs path).1.trans ht⟩

/-! ## Runs -/
structure Agent.Sound (gids : Finset Nat) (agent : Agent) : Prop where
  manager : agent.manager.Sound
  total : agent.manager.totalGids = gids
  checkpoint : ∀ infos, agent.checkpoint = some infos → Listed gids infos

theorem Manager.Sound.same (h : manager.Sound) {other : Manager} (ht : other.totalGids = manager.totalGids)
    (hf : other.freeGids = manager.freeGids) (hi : other.infos = manager.infos) : other.Sound := by
  obtain ⟨_, free, _, _, _⟩ := other
  obtain rfl := ht
  obtain rfl := hf
  obtain rfl := hi
  exact ⟨h.keyed, h.ranged, h.exclusive, h.free⟩

theorem Agent.Sound.step {agent : Agent} (h : agent.Sound gids) (event : Event) : (agent.step event).Sound gids := by
  cases event with
  | allocate path type stat =>
    obtain ⟨hs, ht, hw⟩ := h.manager.allocate path type stat
    refine ⟨hs, ht.trans h.total, fun infos hi => ?_⟩
    cases hc : (agent.manager.allocate path type stat).2.2 with
    | none =>
      refine h.checkpoint infos ?_
      have : ((agent.manager.allocate path type stat).2.2 <|> agent.checkpoint) = some infos := hi
      rw [hc] at this
      exact this
    | some written =>
      have : ((agent.manager.allocate path type stat).2.2 <|> agent.checkpoint) = some infos := hi
      rw [hc] at this
      obtain rfl : written = infos := Option.some.inj this
      rw [hw written hc, ← h.total, ← ht]
      exact hs.listed
  | ownershipSet => exact ⟨h.manager.same rfl rfl rfl, h.total, h.checkpoint⟩
  | deallocate path =>
    exact ⟨h.manager.deallocate path, (deallocate_spec h.manager path).1.trans h.total, h.checkpoint⟩
  | deallocated =>
    unfold Agent.step
    dsimp only
    split
    · exact h
    refine ⟨h.manager.same rfl rfl rfl, h.total, fun infos hi => ?_⟩
    obtain rfl : agent.manager.persist = infos := Option.some.inj hi
    rw [← h.total]
    exact h.manager.listed
  | restart rebooted present =>
    unfold Agent.step
    rw [h.total]
    obtain ⟨hs, ht⟩ := sound_recover h.checkpoint rebooted present
    exact ⟨hs, ht, h.checkpoint⟩

theorem sound_after (gids : Finset Nat) (events : List Event) : (Agent.after gids events).Sound gids :=
  have hs : Agent.Sound gids { manager := fresh gids } :=
    ⟨sound_fresh gids, rfl, nofun⟩
  foldlRecOn (motive := Agent.Sound gids) events Agent.step hs fun _ ha event _ => ha.step event

/-! ## Which volumes `deallocate` should release -/
/-- The volume path is `path` itself or lies in the directory `path`. -/
def Covers (path volume : Text) : Prop := volume = path ∨ removeSuffix path [separator] ++ [separator] <+: volume

/-- The volume path goes on where `path` ends, without a separator in between. -/
def Sibling (path volume : Text) : Prop := Open path ∧ ∃ c rest, c ≠ separator ∧ volume = path ++ c :: rest

/-- **What the comparison of texts accepts.** -/
theorem startsWith_iff (path volume : Text) :
    startsWith volume path = true ↔ Covers path volume ∨ Sibling path volume := by
  rw [startsWith, isPrefixOf_iff_prefix, Covers]
  by_cases ho : Open path
  · rw [removeSuffix_open ho]
    constructor
    · rintro ⟨more, rfl⟩
      cases more with
      | nil => exact .inl (.inl (append_nil _))
      | cons c rest =>
        by_cases hc : c = separator
        · subst hc
          exact .inl (.inr ⟨rest, by rw [append_assoc, singleton_append]⟩)
        · exact .inr ⟨ho, c, rest, hc, rfl⟩
    · rintro ((rfl | hpr) | ⟨-, _, _, -, rfl⟩)
      · exact prefix_rfl
      · exact (prefix_append _ _).trans hpr
      · exact prefix_append _ _
  · -- A path with a trailing separator has no siblings.
    obtain ⟨before, rfl⟩ : ∃ before, path = before ++ [separator] := by
      simpa [Open] using ho
    rw [removeSuffix_closed]
    constructor
    · exact fun h => .inl (.inr h)
    rintro ((rfl | hpr) | ⟨ho', -⟩)
    · exact prefix_rfl
    · exact hpr
    · exact absurd ho' ho

theorem Sibling.not_covers {path volume : Text} (h : Sibling path volume) : ¬ Covers path volume := by
  obtain ⟨ho, _, _, hc, rfl⟩ := h
  rw [Covers, removeSuffix_open ho]
  rintro (hs | hpr)
  · exact cons_ne_nil _ _ (append_right_eq_self.1 hs)
  · rw [prefix_append_right_inj, cons_prefix_cons] at hpr
    exact hc hpr.1.symm

/-- The gids that `deallocate` of `path` returns to the free range are those of `path` and of the volumes in it. -/
def Manager.ReleasesExactly (manager : Manager) (path : Text) : Prop :=
  ∀ gid, (gid ∈ (manager.deallocate path).freeGids ∧ gid ∉ manager.freeGids) ↔
    ∃ volume info, manager.infos.lookup volume = some info ∧ info.gid = gid ∧ Covers path volume

theorem Manager.Sound.releasesExactly_iff (h : manager.Sound) (path : Text) :
    manager.ReleasesExactly path ↔ ∀ volume ∈ manager.infos, ¬ Sibling path volume := by
  obtain ⟨-, hf, -⟩ := deallocate_spec h path
  -- What is released is on record, so it was not free before.
  have hr : ∀ gid, (gid ∈ (manager.deallocate path).freeGids ∧ gid ∉ manager.freeGids) ↔
      ∃ volume info, manager.infos.lookup volume = some info ∧ startsWith volume path = true ∧ info.gid = gid := by
    intro gid
    rw [hf gid]
    constructor
    · rintro ⟨hgid | hgid, hnot⟩
      · exact absurd hgid hnot
      · exact hgid
    · rintro ⟨volume, info, hv, hs, rfl⟩
      refine ⟨.inr ⟨volume, info, hv, hs, rfl⟩, fun hgid => ?_⟩
      exact ((h.free _).1 hgid).2 (mem_recorded.2 ⟨volume, info, hv, rfl⟩)
  constructor
  · intro he volume hv hsi
    obtain ⟨info, hin⟩ := Option.isSome_iff_exists.1 (lookup_isSome.2 hv)
    have hgid := (hr info.gid).2 ⟨volume, info, hin, (startsWith_iff path volume).2 (.inr hsi), rfl⟩
    obtain ⟨other, otherInfo, ho, hsa, hc⟩ := (he info.gid).1 hgid
    obtain rfl := h.exclusive other volume otherInfo info ho hin hsa
    exact hsi.not_covers hc
  · intro hno gid
    rw [hr gid]
    constructor
    · rintro ⟨volume, info, hv, hs, hgid⟩
      have hmem : volume ∈ manager.infos := lookup_isSome.1 (by rw [hv]; rfl)
      exact ⟨volume, info, hv, hgid, ((startsWith_iff path volume).1 hs).resolve_right (hno volume hmem)⟩
    · rintro ⟨volume, info, hv, hgid, hc⟩
      exact ⟨volume, info, hv, (startsWith_iff path volume).2 (.inl hc), hgid⟩

/-- **Along every run the gids of the range are free or on record for one volume path each, and `deallocate` of a path
releases exactly the gids of the path and of the volumes in it**, unless a sibling whose name goes on where the path
ends is on record. -/
theorem gids_exclusive (gids : Finset Nat) (events : List Event) :
    (∀ path other info otherInfo, (Agent.after gids events).manager.infos.lookup path = some info →
      (Agent.after gids events).manager.infos.lookup other = some otherInfo → path ≠ other →
      info.gid ≠ otherInfo.gid) ∧
    Disjoint (Agent.after gids events).manager.freeGids (Agent.after gids events).manager.recorded ∧
    (Agent.after gids events).manager.freeGids ∪ (Agent.after gids events).manager.recorded = gids ∧
    ∀ path, (Agent.after gids events).manager.ReleasesExactly path ↔
      ∀ volume ∈ (Agent.after gids events).manager.infos, ¬ Sibling path volume := by
  obtain ⟨hsound, htotal, -⟩ := sound_after gids events
  refine ⟨fun path other info otherInfo hpath hother hne hgid => ?_, ?_, ?_, hsound.releasesExactly_iff⟩
  · exact hne (hsound.exclusive path other info otherInfo hpath hother hgid)
  · exact Finset.disjoint_left.2 fun gid hfree => ((hsound.free gid).1 hfree).2
  ext gid
  rw [Finset.mem_union, hsound.free gid, htotal]
  constructor
  · rintro (hgid | hgid)
    · exact hgid.1
    · obtain ⟨path, info, hpath, rfl⟩ := mem_recorded.1 hgid
      rw [← htotal]
      exact hsound.ranged path info hpath
  · intro hgid
    by_cases hrecorded : gid ∈ (Agent.after gids events).manager.recorded
    · exact .inr hrecorded
    · exact .inl ⟨hgid, hrecorded⟩

/-- Two shared persistent volumes are given gids; releasing the volume `/v/a` also releases the gid of `/v/ab`. -/
theorem deallocate_releases_sibling :
    ¬ (Agent.after {10, 11} [.allocate "/v/a".toList .persistent (.ok 0),
      .allocate "/v/ab".toList .persistent (.ok 0)]).manager.ReleasesExactly "/v/a".toList := by
  rw [(sound_after _ _).manager.releasesExactly_iff]
  intro hnone
  refine hnone "/v/ab".toList (by decide +kernel) ⟨?_, 'b', [], by decide, rfl⟩
  rintro before hbefore
  have hlast := congrArg getLast? hbefore
  rw [getLast?_concat] at hlast
  exact nomatch hlast

end Clusterd.Gids
