import Clusterd.CgroupsPaths
import Clusterd.CommonOperation
import Clusterd.StatusManager
import Mathlib.Data.Finset.Union
/-!
# The agent's checkpoint of its resources (`Slave::checkpointResourceState`, `Slave::recover`)

The agent keeps its dynamically reserved resources, persistent volumes and unfinished operations in two formats, the resources
alone and with the operations, each with a target file and a committed file.  A call writes the targets, makes and removes the
directories of volumes, and renames the targets; recovery reads the four files and finishes what it finds begun.  A write, a
rename, and making or removing a directory are atomic, and the agent may crash between any two of them.
-/
namespace Clusterd.Slave

open Common Stout Stout.Strings Stout.Path
open Cgroups (validateID)
open Status (OperationState isTerminalState)

/-! ## Directories of persistent volumes -/

/-- The characters that `http::encode` never leaves as they are. -/
def reservedCharacters : Text := "$&+,/:;=?@ \"<>#%\x7b\x7d|\\^~[]`".toList

/-- Two digits, as `std::uppercase` and `std::hex` print them. -/
def hex (n : Nat) : Text := [(Nat.digitChar (n / 16)).toUpper, (Nat.digitChar (n % 16)).toUpper]

def encode (s : Text) : Text :=
  s.flatMap fun c =>
    if c ∈ reservedCharacters ∨ c.toNat < 0x20 ∨ 0x7f < c.toNat then '%' :: hex c.toNat else [c]

def getMountTargetPath (mountRootDir volumeId : Text) : Text := join (join mountRootDir (encode volumeId)) "target".toList

/-- `getPersistentVolumePath`, of a role and an ID. -/
def rolePath (workDir role persistenceId : Text) : Text :=
  joinAll [workDir, "volumes".toList, "roles".toList, role.map fun c => if c = '/' then ' ' else c, persistenceId]

def diskRoot (workDir : Text) (source : Source) (root : Text) : Text :=
  let root := if startsWith root [separator] then root else join workDir root
  match source.id with
  | some id => getMountTargetPath root id.toList
  | none => root

/-- `getPersistentVolumePath`; `none` is a failed check. -/
def getPersistentVolumePath (workDir : Text) (volume : Resource) : Option Text := do
  let disk ← volume.disk
  let persistence ← disk.persistence
  if volume.reservations.isEmpty || (Roles.validate volume.reservationRole).isSome ||
      (validateID persistence.id.toList).isSome then none
  else
    match disk.source with
    | none => some (rolePath workDir volume.reservationRole.toList persistence.id.toList)
    | some source =>
      match source.type with
      | .path => do
        let root ← source.path.join
        some (rolePath (diskRoot workDir source root.toList) volume.reservationRole.toList persistence.id.toList)
      | .mount => do
        let root ← source.mount.join
        some (diskRoot workDir source root.toList)
      | .block | .raw | .unknown => none

def isMount (volume : Resource) : Bool := (volume.disk.bind (·.source)).map (·.type) == some .mount

/-! ## Files -/

inductive OperationType
  | unknown
  | launch
  | launchGroup
  | reserve
  | unreserve
  | create
  | destroy
  | growVolume
  | shrinkVolume
  | createDisk
  | destroyDisk
deriving DecidableEq

/-- `Operation`, with what decides whether it is checkpointed. -/
structure Operation where
  uuid : Nat
  type : OperationType
  /-- What `getResourceProviderId` finds. -/
  providerId : Option String := none
  /-- `latest_status().state()`. -/
  state : OperationState
  /-- Whether the latest status has a UUID. -/
  hasUuid : Bool := false
deriving DecidableEq

def operationNeedsCheckpointing (operation : Operation) : Bool :=
  if operation.providerId.isSome then false
  else if !isTerminalState operation.state then operation.type == .create || operation.type == .destroy
  else operation.hasUuid

structure ResourceState where
  resources : Resources := []
  operations : Finset Operation := ∅
deriving DecidableEq

def place (path : Text) : List Text := tokenize path separator

structure Disk where
  resourceState : Option ResourceState := none
  resourceStateTarget : Option ResourceState := none
  resourcesInfo : Option Resources := none
  resourcesTarget : Option Resources := none
  directories : Finset (List Text) := ∅

/-- What `syncCheckpointedResources` does for one path. -/
inductive DirectoryStep
  | create (path : Text)
  | delete (path : Text) (removeRoot : Bool)

/-- `os::mkdir` makes the directories on the way, `os::rmdir` removes those below. -/
def DirectoryStep.apply (directories : Finset (List Text)) : DirectoryStep → Finset (List Text)
  | .create path => if place path ∈ directories then directories else directories ∪ (place path).inits.toFinset
  | .delete path removeRoot =>
    if place path ∉ directories then directories
    else directories.filter fun other => ¬ (place path <+: other ∧ (other = place path → removeRoot = true))

inductive Step
  | checkpointState (resourceState : ResourceState)
  | checkpointTarget (resources : Resources)
  | directory (step : DirectoryStep)
  | renameTarget
  | renameState

/-- One step; `none` is the failure of a rename whose file does not exist. -/
def Disk.step (disk : Disk) : Step → Option Disk
  | .checkpointState resourceState => some { disk with resourceStateTarget := some resourceState }
  | .checkpointTarget resources => some { disk with resourcesTarget := some resources }
  | .directory step => some { disk with directories := step.apply disk.directories }
  | .renameTarget =>
    match disk.resourcesTarget with
    | none => none
    | some resources => some { disk with resourcesTarget := none, resourcesInfo := some resources }
  | .renameState =>
    match disk.resourceStateTarget with
    | none => none
    | some resourceState => some { disk with resourceStateTarget := none, resourceState := some resourceState }

def Disk.perform (disk : Disk) : List Step → Disk × Bool
  | [] => (disk, true)
  | step :: steps =>
    match disk.step step with
    | none => (disk, false)
    | some next => next.perform steps

structure Plan (α : Type) where
  steps : List Step
  result : Option α

def Plan.run {α : Type} (plan : Plan α) (disk : Disk) : Disk × Option α :=
  ((disk.perform plan.steps).1, if (disk.perform plan.steps).2 then plan.result else none)

def Plan.crash {α : Type} (plan : Plan α) (disk : Disk) (done : Nat) : Disk := (disk.perform (plan.steps.take done)).1

/-! ## Checkpointing -/

structure Flags where
  workDir : Text
  resources : Resources

structure Order where
  visit : List Text → List Text
  perm : ∀ keys, (visit keys).Perm keys

structure Agent where
  checkpointedResources : Resources := []
  checkpointedOperations : Finset Operation := ∅

def persistentVolumes (resources : Resources) : List Resource :=
  (resources.filter Resource.isPersistentVolume).map (·.resource)

/-- `toPathMap`; `none` is a failed check. -/
def toPathMap (workDir : Text) (resources : Resources) : Option (AList fun _ : Text => Resource) :=
  (persistentVolumes resources).foldlM (fun pathMap volume =>
    if !volume.isReserved then none
    else (getPersistentVolumePath workDir volume).map fun path => pathMap.insert path volume) ∅

/-- The root of a volume on a MOUNT disk is not removed. -/
def deletion (oldPathMap : AList fun _ : Text => Resource) (path : Text) : DirectoryStep :=
  .delete path (!((oldPathMap.lookup path).map isMount).getD false)

variable (flags : Flags)

def syncCheckpointedResources (order : Order) (checkpointedResources newCheckpointedResources : Resources) :
    Option (List DirectoryStep) := do
  let oldPathMap ← toPathMap flags.workDir checkpointedResources
  let newPathMap ← toPathMap flags.workDir newCheckpointedResources
  let createPaths := newPathMap.keys.filter (· ∉ oldPathMap.keys)
  let deletePaths := oldPathMap.keys.filter (· ∉ newPathMap.keys)
  return (order.visit createPaths).map .create ++ (order.visit deletePaths).map (deletion oldPathMap)

def checkpointResourceState (order : Order) (agent : Agent) (resources : List Resource)
    (operations : Finset Operation) : Plan Agent :=
  let resourcesToCheckpoint := Resources.ofObjects resources
  let operationsToCheckpoint := operations.filter (operationNeedsCheckpointing ·)
  let resourceState : ResourceState := ⟨resourcesToCheckpoint, operationsToCheckpoint⟩
  if resources.any Resource.hasResourceProvider then
    -- "Resource providers must perform their own checkpointing"
    ⟨[], none⟩
  else if resourcesToCheckpoint.same agent.checkpointedResources ∧
      operationsToCheckpoint = agent.checkpointedOperations then
    -- "Ignoring new checkpointed resources and operations identical to the current version"
    ⟨[], some agent⟩
  else
    match applyCheckpointedResources flags.resources resourcesToCheckpoint with
    | .error _ => ⟨[], none⟩
    | .ok _ =>
      if resourcesToCheckpoint.same agent.checkpointedResources then
        ⟨[.checkpointState resourceState, .renameState],
          some { agent with checkpointedOperations := operationsToCheckpoint }⟩
      else
        match syncCheckpointedResources flags order agent.checkpointedResources resourcesToCheckpoint with
        | none => ⟨[.checkpointState resourceState, .checkpointTarget resourcesToCheckpoint], none⟩
        | some sync =>
          ⟨[.checkpointState resourceState, .checkpointTarget resourcesToCheckpoint] ++
              (sync.map .directory ++ [.renameTarget, .renameState]),
            some ⟨resourcesToCheckpoint, operationsToCheckpoint⟩⟩

/-! ## Recovery -/

structure ResourcesState where
  resources : Resources := []
  target : Option Resources := none

def ResourcesState.recover (disk : Disk) : ResourcesState :=
  match disk.resourceState with
  | some resourceState => ⟨resourceState.resources, disk.resourceStateTarget.map (·.resources)⟩
  | none =>
    match disk.resourcesInfo with
    | none => {}
    | some info => ⟨info, disk.resourcesTarget⟩

/-- The operations that `SlaveState::recover` finds. -/
def recoverOperations (disk : Disk) : Finset Operation :=
  match disk.resourceStateTarget with
  | some target => target.operations
  | none => (disk.resourceState.map (·.operations)).getD ∅

/-- The rest of recovery, once the resources are in sync: the check against `--resources`, and the check that the
operations are on agent default resources.  The operations are added to the agent's, but `checkpointedOperations` is as
the constructor left it. -/
def finishRecovery (checkpointedResources : Resources) (operations : Finset Operation) :
    Option (Agent × ResourceState) :=
  match applyCheckpointedResources flags.resources checkpointedResources with
  | .error _ => none
  | .ok _ =>
    if ∃ operation ∈ operations, operation.providerId.isSome then none
    else some ({ checkpointedResources }, ⟨checkpointedResources, operations⟩)

/-- `Slave::recover`, with the resources and operations it yields. -/
def recover (flags : Flags) (order : Order) (disk : Disk) : Plan (Agent × ResourceState) :=
  let resourcesState := ResourcesState.recover disk
  let operations := recoverOperations disk
  match resourcesState.target with
  | none => ⟨[], finishRecovery flags resourcesState.resources operations⟩
  | some targetResources =>
    match syncCheckpointedResources flags order resourcesState.resources targetResources with
    | none => ⟨[], none⟩
    | some sync => ⟨sync.map .directory ++ [.renameState, .renameTarget], finishRecovery flags targetResources operations⟩

/-! ## Runs -/

def volumePaths (resources : Resources) : List Text :=
  (persistentVolumes resources).filterMap (getPersistentVolumePath flags.workDir)

def mountPaths (resources : Resources) : List Text :=
  ((persistentVolumes resources).filter isMount).filterMap (getPersistentVolumePath flags.workDir)

def destroyedPaths (old new : Resources) : List Text :=
  (volumePaths flags old).filter fun path => path ∉ volumePaths flags new ∧ path ∉ mountPaths flags old

/-- The paths without a volume after that, those destroyed before included. -/
def gonePaths (destroyed : List Text) (old new : Resources) : List Text :=
  (destroyed ++ destroyedPaths flags old new).filter (· ∉ volumePaths flags new)

/-- The agent and its disk, with the pair of the last call in force, the directories of volumes destroyed by such calls,
and the pair of a call that a crash has interrupted. -/
structure World where
  disk : Disk := {}
  /-- `none` while the agent is down. -/
  agent : Option Agent := some {}
  current : ResourceState := {}
  destroyed : List Text := []
  interrupted : Option ResourceState := none

variable (world : World)

def World.commit (state : ResourceState) : World :=
  { world with
    current := state
    destroyed := gonePaths flags world.destroyed world.current.resources state.resources }

def ResourceState.Is (recovered state : ResourceState) : Prop :=
  (recovered.resources = state.resources ∨ state.resources.same recovered.resources) ∧
    recovered.operations = state.operations

instance (recovered state : ResourceState) : Decidable (recovered.Is state) := inferInstanceAs (Decidable (_ ∧ _))

/-- A recovered pair is in force if it is the one of the interrupted call. -/
def World.settle (recovered : ResourceState) : World :=
  match world.interrupted with
  | none => world
  | some state => if recovered.Is state then world.commit flags recovered else world

inductive Event
  /-- A call to `checkpointResourceState` with the agent's operations, perhaps with a crash after some of its steps. -/
  | checkpoint (order : Order) (resources : List Resource) (operations : Finset Operation) (crash : Option Nat)
  | crash
  /-- The agent starts again and recovers, perhaps with a crash after some of the steps. -/
  | restart (order : Order) (crash : Option Nat)

def requested (resources : List Resource) (operations : Finset Operation) : ResourceState :=
  ⟨Resources.ofObjects resources, operations.filter (operationNeedsCheckpointing ·)⟩

def World.called (agent : Agent) (state : ResourceState) : World :=
  if state.resources.same agent.checkpointedResources ∧ state.operations = agent.checkpointedOperations ∧
      state.operations = world.current.operations then world
  else world.commit flags state

def World.step (event : Event) : World :=
  match event with
  | .checkpoint order resources operations crash =>
    match world.agent with
    | none => world
    | some agent =>
      let plan := checkpointResourceState flags order agent resources operations
      match crash with
      | some done =>
        { world with
          disk := plan.crash world.disk done, agent := none, interrupted := some (requested resources operations) }
      | none =>
        match plan.run world.disk with
        | (disk, none) =>
          { world with disk, agent := none, interrupted := some (requested resources operations) }
        | (disk, some next) =>
          { world.called flags agent (requested resources operations) with disk, agent := some next }
  | .crash => { world with agent := none }
  | .restart order crash =>
    match world.agent with
    | some _ => world
    | none =>
      let plan := recover flags order world.disk
      match crash with
      | some done => { world with disk := plan.crash world.disk done }
      | none =>
        match plan.run world.disk with
        | (disk, none) => { world with disk }
        | (disk, some (agent, state)) => { world.settle flags state with disk, agent := some agent, interrupted := none }

end Clusterd.Slave
