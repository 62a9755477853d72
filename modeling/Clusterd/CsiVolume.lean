import Mathlib.Data.List.Basic
/-!
# CSI volumes (`csi/v1_volume_manager.cpp`)

`VolumeManagerProcess` moves each volume along its lifecycle by calls to the CSI plugin.  Volumes are independent, so one is
modelled: what is known of it in memory and on disk, the operations in its sequence, and the functions that wait for each
other.  A function ends at once, calls another one and goes on after it, or waits for a call.

Called directly, it hands its result to the caller in the same turn; deferred, it does not.  Removing the volume discards its
sequence, and of the running operation only what was deferred in the same turn is still done.
-/
namespace Clusterd.Csi

abbrev BootId := Nat

inductive State
  | created
  | nodeReady
  | volReady
  | published
  | controllerPublish
  | controllerUnpublish
  | nodeStage
  | nodeUnstage
  | nodePublish
  | nodeUnpublish
deriving DecidableEq

structure VolumeState where
  state : State
  bootId : Option BootId := none
  nodePublishRequired : Bool := false
  preProvisioned : Bool := false
deriving DecidableEq

structure Plugin where
  (publishUnpublishVolume stageUnstageVolume createDeleteVolume : Bool)
  /-- Whether `NODE_SERVICE` is among the services. -/
  (nodeService targetPathExists : Bool)

inductive Rpc
  | controllerPublishVolume
  | controllerUnpublishVolume
  | nodeStageVolume
  | nodeUnstageVolume
  | nodePublishVolume
  | nodeUnpublishVolume
  | deleteVolume
deriving DecidableEq

structure Node where
  attached : Bool := false
  staged : Bool := false
  published : Bool := false
deriving DecidableEq

def Node.called (this : Node) : Rpc → Node
  | .controllerPublishVolume => { this with attached := true }
  | .nodeStageVolume => { this with staged := true }
  | .nodePublishVolume => { this with published := true }
  | .controllerUnpublishVolume | .nodeUnstageVolume | .nodeUnpublishVolume | .deleteVolume => this

def Node.succeeded (this : Node) : Rpc → Node
  | .controllerUnpublishVolume => { this with attached := false }
  | .nodeUnstageVolume => { this with staged := false }
  | .nodeUnpublishVolume => { this with published := false }
  | .controllerPublishVolume | .nodeStageVolume | .nodePublishVolume | .deleteVolume => this

inductive Action
  | call (rpc : Rpc)
  | removeMountPath
deriving DecidableEq

inductive Operation
  | attachVolume
  | detachVolume
  | publishVolume
  | unpublishVolume
  | deleteVolume
deriving DecidableEq

inductive Function
  | deleteVolume_
  | attachVolume_
  | detachVolume_
  | publishVolume_
  | publishVolume__
  | unpublishVolume_
  | unpublishVolume__
deriving DecidableEq

def Operation.function : Operation → Function
  | .attachVolume => .attachVolume_
  | .detachVolume => .detachVolume_
  | .publishVolume => .publishVolume_
  | .unpublishVolume => .unpublishVolume_
  | .deleteVolume => .deleteVolume_

inductive Result
  | success
  | failure
  | discarded
deriving DecidableEq

inductive Frame
  | direct (function : Function)
  | deferred (function : Function)
  | reply (rpc : Rpc)
deriving DecidableEq

/-- `VolumeData`, with the operations in the sequence that have not started. -/
structure VolumeData where
  state : VolumeState
  sequence : List Operation := []
deriving DecidableEq

structure World where
  bootId : BootId
  volume : Option VolumeData := none
  running : Option (Operation × List Frame) := none
  /-- The checkpointed state of the volume. -/
  checkpoint : Option VolumeState := none
  /-- Whether the staging path exists. -/
  stagingPath : Bool := false
  node : Node := {}
  /-- What the last event has done, and what the calls before may have left behind. -/
  actions : List (Action × Node) := []
  /-- The operations that have ended with the last event. -/
  ended : List (Operation × Result) := []
deriving DecidableEq

inductive Check
  | contains
  | published
  | nodePublishRequired
  | bootId
  | noBootId
  | nodeId
  | stagingPath
deriving DecidableEq

/-- How a step goes: a directory cannot be made or emptied, or a call fails; the secrets for a call are not resolved; a call
succeeds, but a path is not as it should be, or cannot be removed. -/
inductive Outcome
  | ok
  | failed
  | unresolved
  | leftover
deriving DecidableEq

/-- How a function goes on. -/
inductive Next
  | done
  | failed
  | frames (frames : List Frame)

namespace World

def set (this : World) (state : VolumeState) : World :=
  { this with volume := this.volume.map fun volume => { volume with state } }

variable {state : VolumeState} {this : World}

theorem set_volume {sequence : List Operation} (h : this.volume = some ⟨state, sequence⟩) (state' : VolumeState) :
    (this.set state').volume = some ⟨state', sequence⟩ := by
  rw [set, h]
  rfl

section

variable (this : World)

/-- A change in memory, and `checkpointVolumeState`. -/
def checkpointVolumeState (state : VolumeState) : World :=
  { this.set state with checkpoint := some state }

def call (rpc : Rpc) : World :=
  { this with actions := this.actions ++ [(.call rpc, this.node)], node := this.node.called rpc }

def succeeded (rpc : Rpc) : World := { this with node := this.node.succeeded rpc }

/-- `garbageCollectMountPath`: the mount path holds the staging path. -/
def garbageCollectMountPath (outcome : Outcome) : World :=
  { this with
    actions := this.actions ++ [(.removeMountPath, this.node)]
    stagingPath := this.stagingPath && outcome != .ok }

/-- The operations that have not started are discarded with the sequence. -/
def discardSequence : World :=
  match this.volume with
  | none => this
  | some volume => { this with ended := this.ended ++ volume.sequence.map fun operation => (operation, .discarded) }

def removeVolume (outcome : Outcome) : World :=
  { this.discardSequence with volume := none, checkpoint := none }.garbageCollectMountPath outcome

end

/-! ## The functions -/

section

variable (plugin : Plugin) (this : World) (volume : VolumeState) (outcome : Outcome)

/-- `_deleteVolume` and `__deleteVolume`. -/
def deleteVolume_ : Except Check (World × Next) :=
  if volume.nodePublishRequired then
    if volume.state ≠ .published then .error .published
    -- The data cannot be cleaned up.
    else if outcome = .failed then .ok (this, .failed)
    else
      .ok (this.checkpointVolumeState { volume with nodePublishRequired := false },
        .frames [.direct .detachVolume_, .deferred .deleteVolume_])
  else if volume.state ≠ .created then .ok (this, .frames [.direct .detachVolume_, .deferred .deleteVolume_])
  else if plugin.createDeleteVolume then .ok (this.call .deleteVolume, .frames [.reply .deleteVolume])
  else .ok (this.removeVolume outcome, .done)

def attachVolume_ : Except Check (World × Next) :=
  match volume.state with
  | .nodeReady => .ok (this, .done)
  | .created =>
    if plugin.publishUnpublishVolume = false then .ok (this.set { volume with state := .nodeReady }, .done)
    else if plugin.nodeService = false then .error .nodeId
    else
      .ok ((this.checkpointVolumeState { volume with state := .controllerPublish }).call .controllerPublishVolume,
        .frames [.reply .controllerPublishVolume])
  | .controllerPublish =>
    if plugin.publishUnpublishVolume = false then .ok (this.set { volume with state := .nodeReady }, .done)
    else if plugin.nodeService = false then .error .nodeId
    else .ok (this.call .controllerPublishVolume, .frames [.reply .controllerPublishVolume])
  | .controllerUnpublish =>
    if plugin.publishUnpublishVolume = false then .ok (this.set { volume with state := .nodeReady }, .done)
    else .ok (this, .frames [.direct .detachVolume_, .deferred .attachVolume_])
  | .volReady | .published | .nodeStage | .nodeUnstage | .nodePublish | .nodeUnpublish => .ok (this, .failed)

def detachVolume_ : Except Check (World × Next) :=
  match volume.state with
  | .created => .ok (this, .done)
  | .nodeReady | .controllerPublish =>
    if plugin.publishUnpublishVolume = false then .ok (this.set { volume with state := .created }, .done)
    else if plugin.nodeService = false then .error .nodeId
    else
      .ok ((this.checkpointVolumeState { volume with state := .controllerUnpublish }).call .controllerUnpublishVolume,
        .frames [.reply .controllerUnpublishVolume])
  | .controllerUnpublish =>
    if plugin.publishUnpublishVolume = false then .ok (this.set { volume with state := .created }, .done)
    else if plugin.nodeService = false then .error .nodeId
    else .ok (this.call .controllerUnpublishVolume, .frames [.reply .controllerUnpublishVolume])
  | .volReady | .published | .nodeStage | .nodeUnstage | .nodePublish | .nodeUnpublish =>
    .ok (this, .frames [.direct .unpublishVolume_, .deferred .detachVolume_])

/-- The call of `NodePublishVolume` at the end of `_publishVolume`. -/
def nodePublishVolume : Except Check (World × Next) :=
  if plugin.stageUnstageVolume ∧ this.stagingPath = false then .error .stagingPath
  else if outcome = .unresolved then .ok (this, .failed)
  else .ok (this.call .nodePublishVolume, .frames [.reply .nodePublishVolume])

def publishVolume_ : Except Check (World × Next) :=
  match volume.state with
  | .published => if volume.nodePublishRequired then .ok (this, .done) else .error .nodePublishRequired
  | .nodeUnpublish => .ok (this, .frames [.direct .unpublishVolume__, .deferred .publishVolume_])
  | .volReady =>
    -- The target path or its parent cannot be created.
    if outcome = .failed then .ok (this, .failed)
    else (this.checkpointVolumeState { volume with state := .nodePublish }).nodePublishVolume plugin outcome
  | .nodePublish => if outcome = .failed then .ok (this, .failed) else this.nodePublishVolume plugin outcome
  | .created | .nodeReady | .controllerPublish | .controllerUnpublish | .nodeStage | .nodeUnstage =>
    .ok (this, .frames [.direct .publishVolume__, .deferred .publishVolume_])

/-- The call of `NodeStageVolume` at the end of `__publishVolume`. -/
def nodeStageVolume : Except Check (World × Next) :=
  if outcome = .unresolved then .ok (this, .failed)
  else .ok (this.call .nodeStageVolume, .frames [.reply .nodeStageVolume])

set_option linter.style.nameCheck false in
def publishVolume__ : Except Check (World × Next) :=
  match volume.state with
  | .volReady => if volume.bootId = none then .error .bootId else .ok (this, .done)
  | .nodeReady =>
    if plugin.stageUnstageVolume = false then
      .ok (this.set { volume with state := .volReady, bootId := some this.bootId }, .done)
    -- The staging path cannot be created.
    else if outcome = .failed then .ok (this, .failed)
    else
      ({ this with stagingPath := true }.checkpointVolumeState { volume with state := .nodeStage }).nodeStageVolume outcome
  | .nodeStage =>
    if plugin.stageUnstageVolume = false then
      .ok (this.set { volume with state := .volReady, bootId := some this.bootId }, .done)
    else if outcome = .failed then .ok (this, .failed)
    else { this with stagingPath := true }.nodeStageVolume outcome
  | .nodeUnstage =>
    if plugin.stageUnstageVolume = false then
      .ok (this.set { volume with state := .volReady, bootId := some this.bootId }, .done)
    else .ok (this, .frames [.direct .unpublishVolume_, .deferred .publishVolume__])
  | .created | .controllerPublish | .controllerUnpublish | .published | .nodePublish | .nodeUnpublish =>
    .ok (this, .frames [.direct .attachVolume_, .deferred .publishVolume__])

/-- The call of `NodeUnstageVolume` at the end of `_unpublishVolume`. -/
def nodeUnstageVolume : Except Check (World × Next) :=
  if this.stagingPath = false then .error .stagingPath
  else .ok (this.call .nodeUnstageVolume, .frames [.reply .nodeUnstageVolume])

def unpublishVolume_ : Except Check (World × Next) :=
  match volume.state with
  | .nodeReady =>
    if volume.bootId ≠ none then .error .noBootId
    -- A volume that was pre-provisioned has reached the end of its lifecycle.
    else if volume.preProvisioned then .ok (this.removeVolume outcome, .done)
    else .ok (this, .done)
  | .volReady | .nodeStage =>
    if plugin.stageUnstageVolume = false then
      if volume.preProvisioned then .ok (this.removeVolume outcome, .done)
      else .ok (this.set { volume with state := .nodeReady, bootId := none }, .done)
    else (this.checkpointVolumeState { volume with state := .nodeUnstage }).nodeUnstageVolume
  | .nodeUnstage =>
    if plugin.stageUnstageVolume = false then
      if volume.preProvisioned then .ok (this.removeVolume outcome, .done)
      else .ok (this.set { volume with state := .nodeReady, bootId := none }, .done)
    else this.nodeUnstageVolume
  | .created | .controllerPublish | .controllerUnpublish | .published | .nodePublish | .nodeUnpublish =>
    .ok (this, .frames [.direct .unpublishVolume__, .deferred .unpublishVolume_])

set_option linter.style.nameCheck false in
def unpublishVolume__ : Except Check (World × Next) :=
  match volume.state with
  | .volReady => .ok (this, .done)
  | .published | .nodePublish =>
    .ok ((this.checkpointVolumeState { volume with state := .nodeUnpublish }).call .nodeUnpublishVolume,
      .frames [.reply .nodeUnpublishVolume])
  | .nodeUnpublish => .ok (this.call .nodeUnpublishVolume, .frames [.reply .nodeUnpublishVolume])
  | .created | .nodeReady | .controllerPublish | .controllerUnpublish | .nodeStage | .nodeUnstage => .ok (this, .failed)

def enter : Function → Except Check (World × Next)
  | .deleteVolume_ => this.deleteVolume_ plugin volume outcome
  | .attachVolume_ => this.attachVolume_ plugin volume
  | .detachVolume_ => this.detachVolume_ plugin volume
  | .publishVolume_ => this.publishVolume_ plugin volume outcome
  | .publishVolume__ => this.publishVolume__ plugin volume outcome
  | .unpublishVolume_ => this.unpublishVolume_ plugin volume outcome
  | .unpublishVolume__ => this.unpublishVolume__ volume

def replied : Rpc → World × Next
  | .controllerPublishVolume => (this.checkpointVolumeState { volume with state := .nodeReady }, .done)
  | .controllerUnpublishVolume => (this.checkpointVolumeState { volume with state := .created }, .done)
  | .nodeStageVolume =>
    (this.checkpointVolumeState { volume with state := .volReady, bootId := some this.bootId }, .done)
  | .nodeUnstageVolume =>
    if volume.preProvisioned then (this.removeVolume outcome, .done)
    else (this.checkpointVolumeState { volume with state := .nodeReady, bootId := none }, .done)
  | .nodePublishVolume =>
    -- The target path was not created.
    if outcome = .leftover then (this, .failed)
    else (this.checkpointVolumeState { volume with state := .published, nodePublishRequired := true }, .done)
  | .nodeUnpublishVolume =>
    -- The target path was not removed.
    if plugin.targetPathExists = false ∧ outcome = .leftover then (this, .failed)
    else (this.checkpointVolumeState { volume with state := .volReady }, .done)
  | .deleteVolume => (this.removeVolume outcome, .done)

def perform : Frame → Except Check (World × Next)
  | .direct function | .deferred function =>
    match this.volume with
    | none => .error .contains
    | some volume => this.enter plugin volume.state outcome function
  | .reply rpc =>
    match outcome with
    | .failed | .unresolved => .ok (this, .failed)
    | .ok | .leftover =>
      match this.volume with
      | none => .error .contains
      | some volume => .ok ((this.succeeded rpc).replied plugin volume.state outcome rpc)

end

def stop (this : World) (operation : Operation) (result : Result) : World :=
  { this with running := none, ended := this.ended ++ [(operation, result)] }

def goOn (this : World) (operation : Operation) (frame : Frame) (rest : List Frame) : Next → World
  | .failed => this.stop operation .failure
  | .frames frames => { this with running := some (operation, frames ++ rest) }
  | .done =>
    match rest, this.volume, frame with
    | [], _, _ => this.stop operation .success
    -- The volume was removed in another turn than the one in which the rest was deferred.
    | _ :: _, none, .deferred _ | _ :: _, none, .reply _ => this.stop operation .discarded
    | _, _, _ => { this with running := some (operation, rest) }

variable {frame next : Frame} {rest : List Frame} {operation : Operation}

theorem goOn_done {volume : VolumeData} (hv : this.volume = some volume) :
    this.goOn operation frame (next :: rest) .done = { this with running := some (operation, next :: rest) } := by
  simp [goOn, hv]

theorem goOn_removed (hv : this.volume = none) (hf : ∀ function, frame ≠ .direct function) :
    this.goOn operation frame (next :: rest) .done = this.stop operation .discarded := by
  cases frame with
  | direct function => exact absurd rfl (hf function)
  | deferred | reply => simp [goOn, hv]

def advance (plugin : Plugin) (this : World) (outcome : Outcome) : Except Check World :=
  match this.running with
  | some (operation, frame :: rest) =>
    match this.perform plugin outcome frame with
    | .error check => .error check
    | .ok (this, next) => .ok (this.goOn operation frame rest next)
  | _ => .ok this

def start (this : World) : World :=
  match this.running, this.volume with
  | none, some ⟨state, operation :: sequence⟩ =>
    { this with volume := some { state, sequence }, running := some (operation, [.deferred operation.function]) }
  | _, _ => this

/-! ## Requests and recovery -/

def track (this : World) (state : VolumeState) : World :=
  match this.volume, this.running with
  | some _, some (operation, _) =>
    { (this.stop operation .discarded).discardSequence with volume := some { state }, checkpoint := some state }
  | _, _ => { this.discardSequence with volume := some { state }, checkpoint := some state }

theorem track_new (hv : this.volume = none) :
    this.track state = { this with volume := some { state }, checkpoint := some state } := by
  simp [track, discardSequence, hv]

def add (this : World) (operation : Operation) : World :=
  match this.volume with
  | some volume => { this with volume := some { volume with sequence := volume.sequence ++ [operation] } }
  | none => { this with ended := this.ended ++ [(operation, .failure)] }

end World

inductive Request
  /-- `createVolume` or `validateVolume`, once the plugin has answered. -/
  | createVolume
  | attachVolume
  | detachVolume
  | publishVolume (volumeState : Option VolumeState)
  | unpublishVolume
  /-- For a volume that is not tracked, `succeeds` says how `DeleteVolume` goes. -/
  | deleteVolume (succeeds : Bool)

namespace World

def request (plugin : Plugin) (this : World) : Request → World
  | .createVolume =>
    match this.volume with
    | some _ => this
    | none => this.track { state := .created }
  | .attachVolume => this.add .attachVolume
  | .detachVolume => this.add .detachVolume
  | .publishVolume none => this.add .publishVolume
  | .publishVolume (some state) =>
    if state.preProvisioned = false then { this with ended := [(.publishVolume, .failure)] }
    else if state.state ≠ .volReady ∧ state.state ≠ .nodeReady then { this with ended := [(.publishVolume, .failure)] }
    else (this.track state).add .publishVolume
  | .unpublishVolume =>
    match this.volume with
    | none => { this with ended := [(.unpublishVolume, .success)] }
    | some _ => this.add .unpublishVolume
  | .deleteVolume succeeds =>
    match this.volume with
    | some _ => this.add .deleteVolume
    | none =>
      if plugin.createDeleteVolume then
        { this.call .deleteVolume with ended := [(.deleteVolume, if succeeds then .success else .failure)] }
      else { this with ended := [(.deleteVolume, .success)] }

end World

def State.publishable : State → Bool
  | .volReady | .published | .nodeUnstage | .nodePublish | .nodeUnpublish => true
  | .created | .nodeReady | .controllerPublish | .controllerUnpublish | .nodeStage => false

/-- A volume that was made publishable before the node was rebooted is reset to `NODE_READY`. -/
def VolumeState.recovered (this : VolumeState) (bootId : BootId) : VolumeState :=
  if this.state.publishable ∧ this.bootId ≠ some bootId then { this with state := .nodeReady, bootId := none } else this

/-- The agent has died, and `recover`.  What is mounted does not survive a reboot of the node. -/
def World.recover (this : World) (bootId : BootId) (outcome : Outcome) : World :=
  let node := if bootId = this.bootId then this.node else { attached := this.node.attached }
  let this := { this with bootId, node, volume := none, running := none }
  match this.checkpoint with
  | none => this.garbageCollectMountPath outcome
  | some state =>
    -- A volume that was used by a container is brought back to `PUBLISHED`.
    let sequence := if state.nodePublishRequired then [Operation.publishVolume] else []
    { this with volume := some { state := state.recovered bootId, sequence } }

inductive Event
  | request (request : Request)
  | start
  | advance (outcome : Outcome)
  | restart (bootId : BootId) (outcome : Outcome)

def World.step (plugin : Plugin) (this : World) (event : Event) : Except Check World :=
  let this := { this with actions := [], ended := [] }
  match event with
  | .request request => .ok (this.request plugin request)
  | .start => .ok this.start
  | .advance outcome => this.advance plugin outcome
  | .restart bootId outcome => .ok (this.recover bootId outcome)

end Clusterd.Csi
