import Clusterd.Continuations
import Clusterd.CsiVolume
import Clusterd.Fallible
/-!
# No check of the volume manager fails

Each function is given what it needs of the volume, the state that it leads to and a bound on its steps (`Frame.Pre`,
`Frame.post`, `Frame.cost`).  An operation that starts on a volume that meets the needs of its function then ends, and if it
succeeds it ends in the state that it is for.
-/
namespace Clusterd.Csi

open Continuations VolumeState Csi.Frame Result List World Option

/-- What the functions decide on. -/
structure View where
  state : State
  (required preProvisioned : Bool)

def VolumeState.view (this : VolumeState) : View :=
  ⟨this.state, this.nodePublishRequired, this.preProvisioned⟩

def Rpc.during : Rpc → State
  | .controllerPublishVolume => .controllerPublish
  | .controllerUnpublishVolume => .controllerUnpublish
  | .nodeStageVolume => .nodeStage
  | .nodeUnstageVolume => .nodeUnstage
  | .nodePublishVolume => .nodePublish
  | .nodeUnpublishVolume => .nodeUnpublish
  | .deleteVolume => .created

def Function.post (view : View) : Function → Option View
  | .deleteVolume_ => none
  | .attachVolume_ => some { view with state := .nodeReady }
  | .detachVolume_ => some { view with state := .created }
  | .publishVolume_ => some { view with state := .published, required := true }
  | .publishVolume__ | .unpublishVolume__ => some { view with state := .volReady }
  | .unpublishVolume_ => if view.preProvisioned then none else some { view with state := .nodeReady }

def Rpc.post (view : View) : Rpc → Option View
  | .controllerPublishVolume => some { view with state := .nodeReady }
  | .controllerUnpublishVolume => some { view with state := .created }
  | .nodeStageVolume | .nodeUnpublishVolume => some { view with state := .volReady }
  | .nodeUnstageVolume => if view.preProvisioned then none else some { view with state := .nodeReady }
  | .nodePublishVolume => some { view with state := .published, required := true }
  | .deleteVolume => none

def Frame.post : Frame → View → Option View
  | .direct function, view | .deferred function, view => function.post view
  | .reply rpc, view => rpc.post view

/-- The volume is not one that `_unpublishVolume` removes at once. -/
def Stays (plugin : Plugin) (view : View) : Prop :=
  view.preProvisioned → view.state = .volReady → plugin.stageUnstageVolume

def Function.Pre (plugin : Plugin) (view : View) : Function → Prop
  | .deleteVolume_ => (view.required → view.state = .published) ∧ Stays plugin view
  | .detachVolume_ => Stays plugin view
  | .publishVolume_ => view.state = .published → view.required
  | .publishVolume__ => view.state ≠ .volReady ∧ view.state ≠ .published ∧ view.state ≠ .nodePublish ∧
    view.state ≠ .nodeUnpublish
  | .attachVolume_ | .unpublishVolume_ | .unpublishVolume__ => True

def Frame.Pre (plugin : Plugin) : Frame → View → Prop
  | .direct .deleteVolume_, _ => False
  | .direct .unpublishVolume_, view => Stays plugin view ∧ (view.preProvisioned → view.state ≠ .nodeReady)
  | .direct function, view | .deferred function, view => function.Pre plugin view
  | .reply rpc, view => view.state = rpc.during

def Function.cost : Function → State → Nat
  | .unpublishVolume__, .published | .unpublishVolume__, .nodePublish | .unpublishVolume__, .nodeUnpublish => 2
  | .unpublishVolume__, _ => 1
  | .unpublishVolume_, .nodeReady => 1
  | .unpublishVolume_, .volReady | .unpublishVolume_, .nodeStage | .unpublishVolume_, .nodeUnstage => 2
  | .unpublishVolume_, _ => 5
  | .detachVolume_, .created => 1
  | .detachVolume_, .nodeReady | .detachVolume_, .controllerPublish | .detachVolume_, .controllerUnpublish => 2
  | .detachVolume_, _ => 8
  | .attachVolume_, .created | .attachVolume_, .controllerPublish => 2
  | .attachVolume_, .controllerUnpublish => 5
  | .attachVolume_, _ => 1
  | .publishVolume__, .nodeReady | .publishVolume__, .nodeStage => 2
  | .publishVolume__, .nodeUnstage => 5
  | .publishVolume__, _ => 8
  | .publishVolume_, .published => 1
  | .publishVolume_, .volReady | .publishVolume_, .nodePublish => 2
  | .publishVolume_, .nodeUnpublish => 5
  | .publishVolume_, _ => 11
  | .deleteVolume_, .created => 2
  | .deleteVolume_, _ => 11

def Frame.cost : Frame → View → Nat
  | .direct function, view | .deferred function, view => function.cost view.state
  | .reply _, _ => 1

/-! ## Sound volumes -/

/-- The boot ID and the staging path are there in the states that need them, and only a plugin that can stage has volumes that
are being staged. -/
structure VolumeState.Sound (plugin : Plugin) (stagingPath : Bool) (this : VolumeState) : Prop where
  bootId : this.state = .nodeReady ∨ this.state = .created ∨ this.state = .controllerPublish ∨
    this.state = .controllerUnpublish ∨ this.state = .nodeStage → this.bootId = none
  stagingPath : plugin.stageUnstageVolume → this.state = .nodeStage ∨ this.state.publishable → stagingPath
  stages : this.state = .nodeStage ∨ this.state = .nodeUnstage → plugin.stageUnstageVolume

theorem VolumeState.sound_above {plugin : Plugin} {stagingPath : Bool} {this : VolumeState} (hbi : this.bootId = none)
    (hst : this.state = .nodeReady ∨ this.state = .created ∨ this.state = .controllerPublish ∨
      this.state = .controllerUnpublish) : this.Sound plugin stagingPath where
  bootId _ := hbi
  stagingPath _ hb := by
    rcases hst with hst | hst | hst | hst
    all_goals simp [hst, State.publishable] at hb
  stages hs := by
    rcases hst with hst | hst | hst | hst
    all_goals simp [hst] at hs

theorem VolumeState.sound_below {plugin : Plugin} {stagingPath : Bool} {this : VolumeState}
    (hst : this.state.publishable = true) (hsp : plugin.stageUnstageVolume → stagingPath)
    (hs : this.state = .nodeUnstage → plugin.stageUnstageVolume) : this.Sound plugin stagingPath where
  bootId ha := by
    rcases ha with ha | ha | ha | ha | ha
    all_goals simp [ha, State.publishable] at hst
  stagingPath hplugin _ := hsp hplugin
  stages hs' := by
    rcases hs' with ha | hu
    · simp [ha, State.publishable] at hst
    · exact hs hu

namespace World

structure Sound (plugin : Plugin) (this : World) : Prop where
  tracked : this.checkpoint.isSome = this.volume.isSome
  memory : ∀ volume, this.volume = some volume → volume.state.Sound plugin this.stagingPath
  disk : ∀ state, this.checkpoint = some state → state.Sound plugin this.stagingPath

variable {plugin : Plugin} {this : World} {state state' : VolumeState} {sequence : List Operation} {frame : Frame}
  {outcome : Outcome}

section
variable (h : this.Sound plugin) (hvo : this.volume = some ⟨state, sequence⟩) (hst : state'.Sound plugin this.stagingPath)
include h hvo hst

theorem Sound.set : (this.set state').Sound plugin where
  tracked := by
    rw [set_volume hvo, show (this.set state').checkpoint = this.checkpoint from rfl, h.tracked, hvo]
    rfl
  memory volume hvo' := by
    rw [set_volume hvo] at hvo'
    cases hvo'
    exact hst
  disk := h.disk

theorem Sound.checkpoint : (this.checkpointVolumeState state').Sound plugin where
  tracked := by
    show true = (this.set state').volume.isSome
    rw [set_volume hvo]
    rfl
  memory := (h.set hvo hst).memory
  disk other ho := by
    cases ho
    exact hst

end

theorem Sound.stage (h : this.Sound plugin) : Sound plugin { this with stagingPath := true } where
  tracked := h.tracked
  memory volume hvo :=
    let hst := h.memory volume hvo
    ⟨hst.bootId, fun _ _ => rfl, hst.stages⟩
  disk state hst :=
    let hst := h.disk state hst
    ⟨hst.bootId, fun _ _ => rfl, hst.stages⟩

theorem Sound.remove (outcome : Outcome) : (this.removeVolume outcome).Sound plugin where
  tracked := rfl
  memory _ hvo := (nomatch hvo)
  disk _ hst := (nomatch hst)

/-! ## Steps -/

section

variable (plugin : Plugin) (view : View) (frame : Frame) (sequence : List Operation) (after : World)

inductive Goes : Next → Prop
  | failed (state : VolumeState) : after.volume = some ⟨state, sequence⟩ → Goes .failed
  | done (state : VolumeState) : after.volume = some ⟨state, sequence⟩ → frame.post view = some state.view →
    Goes .done
  | removed : after.volume = none → frame.post view = none → (∀ function, frame ≠ .direct function) →
    Goes .done
  | frames (state : VolumeState) (frames : List Frame) : after.volume = some ⟨state, sequence⟩ → frames ≠ [] →
    Leads (Frame.Pre plugin) Frame.post state.view frames (frame.post view) →
    total Frame.post Frame.cost state.view frames < frame.cost view →
    Goes (.frames frames)

end

def Performs (plugin : Plugin) (this : World) (state : VolumeState) (sequence : List Operation) (frame : Frame)
    (result : Except Check (World × Next)) : Prop :=
  ∃ after next, result = .ok (after, next) ∧ after.Sound plugin ∧ Goes plugin state.view frame sequence after next ∧
    ∀ operation, (operation, Result.success) ∈ after.ended → (operation, Result.success) ∈ this.ended

variable (h : this.Sound plugin) (hvo : this.volume = some ⟨state, sequence⟩) {rpc : Rpc}
include h hvo

theorem performs_failed : Performs plugin this state sequence frame (.ok (this, .failed)) :=
  ⟨_, _, rfl, h, .failed state hvo, fun _ => id⟩

theorem performs_stay
    (hpo : frame.post state.view = some state.view) : Performs plugin this state sequence frame (.ok (this, .done)) :=
  ⟨_, _, rfl, h, .done state hvo hpo, fun _ => id⟩

section
variable (hst : state'.Sound plugin this.stagingPath) (hpo : frame.post state.view = some state'.view)
include hst hpo

theorem performs_set : Performs plugin this state sequence frame (.ok (this.set state', .done)) :=
  ⟨_, _, rfl, h.set hvo hst, .done state' (set_volume hvo state') hpo, fun _ => id⟩

theorem performs_checkpoint :
    Performs plugin this state sequence frame (.ok (this.checkpointVolumeState state', .done)) :=
  ⟨_, _, rfl, h.checkpoint hvo hst, .done state' (set_volume hvo state') hpo, fun _ => id⟩

end

theorem performs_frames {frames : List Frame} (hf : frames ≠ [])
    (hl : Leads (Pre plugin) post state.view frames (frame.post state.view))
    (hc : total post cost state.view frames < frame.cost state.view) :
    Performs plugin this state sequence frame (.ok (this, .frames frames)) :=
  ⟨_, _, rfl, h, .frames state frames hvo hf hl hc, fun _ => id⟩

omit h hvo

theorem performs_removed (hvo : this.volume = some ⟨state, sequence⟩) (hpo : frame.post state.view = none)
    (hf : ∀ function, frame ≠ .direct function) :
    Performs plugin this state sequence frame (.ok (this.removeVolume outcome, .done)) := by
  refine ⟨_, _, rfl, Sound.remove outcome, .removed rfl hpo hf, fun operation hmem => ?_⟩
  have he : (this.removeVolume outcome).ended =
      this.ended ++ sequence.map fun operation => (operation, discarded) := by
    simp [removeVolume, garbageCollectMountPath, discardSequence, hvo]
  rw [he] at hmem
  simpa using hmem

theorem performs_call {before : World} (hb : before.Sound plugin)
    (hvo : before.volume = some ⟨state', sequence⟩) (he : before.ended = this.ended)
    (hd : state'.state = rpc.during) (hpo : frame.post state.view = rpc.post state'.view)
    (hc : 1 < frame.cost state.view) :
    Performs plugin this state sequence frame (.ok (before.call rpc, .frames [.reply rpc])) := by
  refine ⟨_, _, rfl, ⟨hb.tracked, hb.memory, hb.disk⟩, .frames state' _ hvo nofun ?_ ?_, ?_⟩
  · rw [hpo]
    refine ⟨hd, ?_⟩
    rw [show post (.reply rpc) state'.view = rpc.post state'.view from rfl]
    cases rpc.post state'.view with
    | some => rfl
    | none => exact fun _ => rfl
  · have ht : total post cost state'.view [.reply rpc] = 1 := by
      rw [total_cons]
      cases hr : post (.reply rpc) state'.view <;> rfl
    rw [ht]
    exact hc
  · intro _ hmem
    rw [← he]
    exact hmem

section Functions

attribute [local simp] Leads Pre Function.Pre post Function.post cost Function.cost view total Stays

variable (h : this.Sound plugin) (hvo : this.volume = some ⟨state, sequence⟩)
  (hplugin : plugin.publishUnpublishVolume → plugin.nodeService)
include h hvo

theorem performs_unpublish (hpo : frame.post state.view = Function.post state.view .unpublishVolume__)
    (hco : frame.cost state.view = Function.cost .unpublishVolume__ state.state) :
    Performs plugin this state sequence frame (this.unpublishVolume__ state) := by
  have hs := h.memory _ hvo
  have hu : ∀ hsa,
      VolumeState.Sound plugin this.stagingPath { state with state := .nodeUnpublish } := fun hsa =>
    sound_below rfl (fun hst => hs.stagingPath hst (.inr hsa)) nofun
  unfold unpublishVolume__
  cases hsa : state.state with
  | volReady =>
    refine performs_stay h hvo ?_
    rw [hpo, Function.post, view, hsa]
  | published | nodePublish =>
    have hc := h.checkpoint hvo (hu (by rw [hsa]; rfl))
    exact performs_call hc (set_volume hvo _) rfl rfl hpo (by rw [hco, hsa]; decide)
  | nodeUnpublish => exact performs_call h hvo rfl hsa hpo (by rw [hco, hsa]; decide)
  | created | nodeReady | controllerPublish | controllerUnpublish | nodeStage | nodeUnstage =>
    exact performs_failed h hvo

include hplugin in
theorem performs_attach (hpo : frame.post state.view = Function.post state.view .attachVolume_)
    (hco : frame.cost state.view = Function.cost .attachVolume_ state.state) :
    Performs plugin this state sequence frame (this.attachVolume_ plugin state) := by
  have hs := h.memory _ hvo
  have hr : ∀ hbi, VolumeState.Sound plugin this.stagingPath
      { state with state := .nodeReady } := fun hbi => sound_above hbi (.inl rfl)
  unfold attachVolume_
  cases hst : state.state with
  | nodeReady =>
    refine performs_stay h hvo ?_
    rw [hpo, Function.post, view, hst]
  | created =>
    have hbi := hs.bootId (by simp [hst])
    split_ifs with hc hn
    · exact performs_set h hvo (hr hbi) hpo
    · exact absurd (hplugin (by simpa using hc)) (by simp [hn])
    · have hch := h.checkpoint hvo
        (@VolumeState.sound_above plugin _ { state with state := .controllerPublish } hbi (by simp))
      exact performs_call hch (set_volume hvo _) rfl rfl hpo (by rw [hco, hst]; decide)
  | controllerPublish =>
    have hbi := hs.bootId (by simp [hst])
    split_ifs with hc hn
    · exact performs_set h hvo (hr hbi) hpo
    · exact absurd (hplugin (by simpa using hc)) (by simp [hn])
    · exact performs_call h hvo rfl hst hpo (by rw [hco, hst]; decide)
  | controllerUnpublish =>
    have hbi := hs.bootId (by simp [hst])
    dsimp only
    split_ifs with hc
    · exact performs_set h hvo (hr hbi) hpo
    refine performs_frames h hvo nofun ?_ ?_
    · rw [hpo]
      simp [hst]
    · rw [hco]
      simp [hst]
  | volReady | published | nodeStage | nodeUnstage | nodePublish | nodeUnpublish => exact performs_failed h hvo

include hplugin in
theorem performs_detach (hpre : Stays plugin state.view)
    (hpo : frame.post state.view = Function.post state.view .detachVolume_)
    (hco : frame.cost state.view = Function.cost .detachVolume_ state.state) :
    Performs plugin this state sequence frame (this.detachVolume_ plugin state) := by
  have hs := h.memory _ hvo
  have hcr : ∀ hbi, VolumeState.Sound plugin this.stagingPath
      { state with state := .created } := fun hbi => sound_above hbi (by simp)
  unfold detachVolume_
  cases hst : state.state with
  | created =>
    refine performs_stay h hvo ?_
    rw [hpo, Function.post, view, hst]
  | nodeReady | controllerPublish =>
    have hbi := hs.bootId (by simp [hst])
    split_ifs with hc hn
    · exact performs_set h hvo (hcr hbi) hpo
    · exact absurd (hplugin (by simpa using hc)) (by simp [hn])
    · have hch := h.checkpoint hvo
        (@VolumeState.sound_above plugin _ { state with state := .controllerUnpublish } hbi (by simp))
      exact performs_call hch (set_volume hvo _) rfl rfl hpo (by rw [hco, hst]; decide)
  | controllerUnpublish =>
    have hbi := hs.bootId (by simp [hst])
    split_ifs with hc hn
    · exact performs_set h hvo (hcr hbi) hpo
    · exact absurd (hplugin (by simpa using hc)) (by simp [hn])
    · exact performs_call h hvo rfl hst hpo (by rw [hco, hst]; decide)
  | volReady | published | nodeStage | nodeUnstage | nodePublish | nodeUnpublish =>
    refine performs_frames h hvo nofun ?_ ?_
    · rw [hpo]
      cases hpr : state.preProvisioned
      all_goals simp_all
    · rw [hco, hst]
      cases hpr : state.preProvisioned
      all_goals simp [hst, hpr]

theorem performs_unstage (hf : frame = .direct .unpublishVolume_ ∨ frame = .deferred .unpublishVolume_)
    (hpre : frame.Pre plugin state.view) :
    Performs plugin this state sequence frame (this.unpublishVolume_ plugin state outcome) := by
  have hso := h.memory _ hvo
  have hpo : frame.post state.view = Function.post state.view .unpublishVolume_ := by
    rcases hf with rfl | rfl <;> rfl
  have hc : frame.cost state.view = Function.cost .unpublishVolume_ state.state := by
    rcases hf with rfl | rfl <;> rfl
  have hd : ∀ {state' : VolumeState}, state'.view = { state.view with state := .nodeReady } →
      state.preProvisioned = false → frame.post state.view = some state'.view := by
    intro state' hv hpr
    rw [hpo, hv]
    simp [hpr]
  -- A volume that is removed at once is not in the middle of another function.
  have hr : state.preProvisioned = true → (state.state = .nodeReady ∨ plugin.stageUnstageVolume = false ∧
      state.state = .volReady) → Performs plugin this state sequence frame (.ok (this.removeVolume outcome, .done)) := by
    intro hpr hsa
    refine performs_removed hvo (by rw [hpo]; simp [hpr]) ?_
    rintro function rfl
    rcases hf with hf | hf
    · cases hf
      obtain ⟨hsta, hre⟩ := hpre
      rcases hsa with hsa | ⟨hplugin, hsa⟩
      · exact hre hpr hsa
      · exact absurd (hsta hpr hsa) (by simp [hplugin])
    · exact nomatch hf
  have hca : plugin.stageUnstageVolume = true → state.state = .nodeStage ∨ state.state.publishable = true →
      1 < frame.cost state.view → ∀ {before : World} {state' : VolumeState}, before.Sound plugin →
      before.volume = some ⟨state', sequence⟩ → before.ended = this.ended → before.stagingPath = this.stagingPath →
      state'.view = { state.view with state := .nodeUnstage } →
      Performs plugin this state sequence frame before.nodeUnstageVolume := by
    intro hplugin hsa hl _ _ hb hvo' he hst hv
    rw [nodeUnstageVolume, if_neg (by simp [hst, hso.stagingPath hplugin hsa])]
    refine performs_call hb hvo' he (congrArg View.state hv) ?_ hl
    rw [hpo, hv]
    rfl
  unfold unpublishVolume_
  cases hsa : state.state with
  | nodeReady =>
    dsimp only
    split_ifs with hbi hpr
    · exact absurd (hso.bootId (by simp [hsa])) hbi
    · exact hr hpr (.inl hsa)
    · exact performs_stay h hvo (hd (by simp [hsa]) (by simpa using hpr))
  | volReady =>
    dsimp only
    split_ifs with hplugin hpr
    · exact hr hpr (.inr ⟨hplugin, hsa⟩)
    · exact performs_set h hvo (sound_above rfl (.inl rfl)) (hd rfl (by simpa using hpr))
    have hplugin : plugin.stageUnstageVolume = true := by simpa using hplugin
    have hpu : state.state.publishable = true := by rw [hsa]; rfl
    have hs : VolumeState.Sound plugin this.stagingPath { state with state := .nodeUnstage } :=
      sound_below rfl (fun hs => hso.stagingPath hs (.inr hpu)) (fun _ => hplugin)
    exact hca hplugin (.inr hpu) (by rw [hc, hsa]; decide) (h.checkpoint hvo hs) (set_volume hvo _) rfl rfl rfl
  | nodeStage =>
    dsimp only
    have hplugin := hso.stages (.inl hsa)
    rw [if_neg (by simp [hplugin])]
    have hs : VolumeState.Sound plugin this.stagingPath { state with state := .nodeUnstage } :=
      sound_below rfl (fun hs => hso.stagingPath hs (.inl hsa)) (fun _ => hplugin)
    exact hca hplugin (.inl hsa) (by rw [hc, hsa]; decide) (h.checkpoint hvo hs) (set_volume hvo _) rfl rfl rfl
  | nodeUnstage =>
    dsimp only
    have hplugin := hso.stages (.inr hsa)
    rw [if_neg (by simp [hplugin])]
    exact hca hplugin (.inr (by rw [hsa]; rfl)) (by rw [hc, hsa]; decide) h hvo rfl rfl (by simp [hsa])
  | created | controllerPublish | controllerUnpublish | published | nodePublish | nodeUnpublish =>
    refine performs_frames h hvo nofun ?_ ?_
    · rw [hpo]
      cases hpr : state.preProvisioned
      all_goals simp [hpr]
    · rw [hc]
      cases hpr : state.preProvisioned
      all_goals simp [hsa, hpr]

theorem performs_stage (hpre : Function.Pre plugin state.view .publishVolume__)
    (hpo : frame.post state.view = Function.post state.view .publishVolume__)
    (hc : frame.cost state.view = Function.cost .publishVolume__ state.state) :
    Performs plugin this state sequence frame (this.publishVolume__ plugin state outcome) := by
  obtain ⟨hvr, hpu, hpub, hu⟩ := hpre
  have hs := h.memory _ hvo
  have hr : plugin.stageUnstageVolume = false → VolumeState.Sound plugin this.stagingPath
      { state with state := .volReady, bootId := some this.bootId } := fun hplugin =>
    sound_below rfl (fun hst => absurd hst (by simp [hplugin])) nofun
  have hca : 1 < frame.cost state.view → ∀ {before : World} {state' : VolumeState}, before.Sound plugin →
      before.volume = some ⟨state', sequence⟩ → before.ended = this.ended →
      state'.view = { state.view with state := .nodeStage } →
      Performs plugin this state sequence frame (before.nodeStageVolume outcome) := by
    intro hl _ state' hb hvo' he hv
    unfold nodeStageVolume
    split_ifs with hse
    · exact ⟨_, _, rfl, hb, .failed state' hvo', fun _ hmem => he ▸ hmem⟩
    · refine performs_call hb hvo' he (congrArg View.state hv) ?_ hl
      rw [hpo, hv]
      rfl
  unfold publishVolume__
  cases hsa : state.state with
  | volReady => exact absurd hsa hvr
  | published => exact absurd hsa hpu
  | nodePublish => exact absurd hsa hpub
  | nodeUnpublish => exact absurd hsa hu
  | nodeReady =>
    dsimp only
    split_ifs with hplugin hm
    · exact performs_set h hvo (hr hplugin) hpo
    · exact performs_failed h hvo
    · have hst : VolumeState.Sound plugin true { state with state := .nodeStage } :=
        ⟨fun _ => hs.bootId (.inl hsa), fun _ _ => rfl, fun _ => by simpa using hplugin⟩
      exact hca (by rw [hc, hsa]; decide) (h.stage.checkpoint hvo hst) (set_volume hvo _) rfl rfl
  | nodeStage =>
    dsimp only
    rw [if_neg (by simp [hs.stages (.inl hsa)])]
    split_ifs with hm
    · exact performs_failed h hvo
    · exact hca (by rw [hc, hsa]; decide) h.stage hvo rfl (by simp [hsa])
  | nodeUnstage =>
    dsimp only
    rw [if_neg (by simp [hs.stages (.inr hsa)])]
    refine performs_frames h hvo nofun ?_ ?_
    · rw [hpo]
      cases hpr : state.preProvisioned
      all_goals simp [hsa, hpr]
    · rw [hc]
      cases hpr : state.preProvisioned
      all_goals simp [hsa, hpr]
  | created | controllerPublish | controllerUnpublish =>
    refine performs_frames h hvo nofun ?_ ?_
    · rw [hpo]
      simp
    · rw [hc]
      simp [hsa]

theorem performs_publish (hpre : Function.Pre plugin state.view .publishVolume_)
    (hpo : frame.post state.view = Function.post state.view .publishVolume_)
    (hc : frame.cost state.view = Function.cost .publishVolume_ state.state) :
    Performs plugin this state sequence frame (this.publishVolume_ plugin state outcome) := by
  have hs := h.memory _ hvo
  have hca : state.state.publishable = true → 1 < frame.cost state.view → ∀ {before : World} {state' : VolumeState},
      before.Sound plugin → before.volume = some ⟨state', sequence⟩ → before.ended = this.ended →
      before.stagingPath = this.stagingPath → state'.view = { state.view with state := .nodePublish } →
      Performs plugin this state sequence frame (before.nodePublishVolume plugin outcome) := by
    intro hsa hl _ state' hb hvo' he hst hv
    unfold nodePublishVolume
    split_ifs with hpa hse
    · exact absurd (hs.stagingPath hpa.1 (.inr hsa)) (by simp [← hst, hpa.2])
    · exact ⟨_, _, rfl, hb, .failed state' hvo', fun _ hmem => he ▸ hmem⟩
    · refine performs_call hb hvo' he (congrArg View.state hv) ?_ hl
      rw [hpo, hv]
      rfl
  unfold publishVolume_
  cases hsa : state.state with
  | published =>
    have hr : state.nodePublishRequired = true := hpre hsa
    rw [if_pos hr]
    refine performs_stay h hvo ?_
    rw [hpo, Function.post, view, hsa, hr]
  | nodeUnpublish =>
    refine performs_frames h hvo nofun ?_ ?_
    · rw [hpo]
      simp
    · rw [hc]
      simp [hsa]
  | volReady =>
    dsimp only
    split_ifs with hm
    · exact performs_failed h hvo
    have hpu : state.state.publishable = true := by rw [hsa]; rfl
    have hpub : VolumeState.Sound plugin this.stagingPath { state with state := .nodePublish } :=
      sound_below rfl (fun hsta => hs.stagingPath hsta (.inr hpu)) nofun
    exact hca hpu (by rw [hc, hsa]; decide) (h.checkpoint hvo hpub) (set_volume hvo _) rfl rfl rfl
  | nodePublish =>
    dsimp only
    split_ifs with hm
    · exact performs_failed h hvo
    · exact hca (by rw [hsa]; rfl) (by rw [hc, hsa]; decide) h hvo rfl rfl (by simp [hsa])
  | created | nodeReady | controllerPublish | controllerUnpublish | nodeStage | nodeUnstage =>
    refine performs_frames h hvo nofun ?_ ?_
    · rw [hpo]
      simp [hsa]
    · rw [hc]
      simp [hsa]

theorem performs_delete (hf : frame = .deferred .deleteVolume_) (hpre : Function.Pre plugin state.view .deleteVolume_) :
    Performs plugin this state sequence frame (this.deleteVolume_ plugin state outcome) := by
  subst hf
  obtain ⟨hpu, hst⟩ := hpre
  have hs := h.memory _ hvo
  unfold deleteVolume_
  split_ifs with hr hsa hrm hsa hplugin
  · exact absurd (hpu hr) hsa
  · exact performs_failed h hvo
  · have hsa : state.state = .published := hpu hr
    have hc : VolumeState.Sound plugin this.stagingPath { state with nodePublishRequired := false } :=
      ⟨hs.bootId, hs.stagingPath, hs.stages⟩
    refine ⟨_, _, rfl, h.checkpoint hvo hc, .frames { state with nodePublishRequired := false } _
      (set_volume hvo _) nofun ?_ ?_, fun _ => id⟩
    · simp [hsa]
    · simp [hsa]
  · refine performs_frames h hvo nofun ?_ ?_
    · exact ⟨hst, ⟨fun hr' => absurd hr' hr, nofun⟩, fun _ => rfl⟩
    · cases hca : state.state
      all_goals simp_all
  · have hsa : state.state = .created := not_not.mp hsa
    exact performs_call h hvo rfl hsa rfl (by simp [hsa])
  · exact performs_removed hvo rfl nofun

/-- **A call that has succeeded leads where the function that has made it leads to.** -/
theorem performs_replied (hpre : state.state = rpc.during) :
    Performs plugin this state sequence (.reply rpc) (.ok ((this.succeeded rpc).replied plugin state outcome rpc)) := by
  have hs := h.memory _ hvo
  have ha : (this.succeeded rpc).Sound plugin := ⟨h.tracked, h.memory, h.disk⟩
  cases rpc with
  | controllerPublishVolume | controllerUnpublishVolume =>
    have hbi := hs.bootId (by simp [hpre, Rpc.during])
    exact performs_checkpoint ha hvo (sound_above hbi (by simp)) rfl
  | nodeStageVolume =>
    refine performs_checkpoint ha hvo (sound_below rfl ?_ (by simp)) rfl
    exact fun hst => hs.stagingPath hst (.inl hpre)
  | nodeUnstageVolume =>
    rw [replied]
    split_ifs with hpr
    · exact performs_removed hvo (if_pos hpr) (by simp)
    · exact performs_checkpoint ha hvo (sound_above rfl (.inl rfl)) (if_neg hpr)
  | nodePublishVolume | nodeUnpublishVolume =>
    rw [replied]
    split_ifs with hpa
    · exact performs_failed ha hvo
    · refine performs_checkpoint ha hvo (sound_below rfl ?_ (by simp)) rfl
      exact fun hst => hs.stagingPath hst (.inr (by rw [hpre]; rfl))
  | deleteVolume => exact performs_removed hvo rfl (by simp)

include hplugin in
/-- **A step whose needs are met fails no check.** -/
theorem performs_perform (hpre : frame.Pre plugin state.view) :
    Performs plugin this state sequence frame (this.perform plugin outcome frame) := by
  cases frame with
  | direct function | deferred function =>
    rw [perform, hvo]
    cases function with
    | deleteVolume_ => first | exact performs_delete h hvo rfl hpre | exact hpre.elim
    | attachVolume_ => exact performs_attach h hvo hplugin rfl rfl
    | detachVolume_ => exact performs_detach h hvo hplugin hpre rfl rfl
    | publishVolume_ => exact performs_publish h hvo hpre rfl rfl
    | publishVolume__ => exact performs_stage h hvo hpre rfl rfl
    | unpublishVolume_ => exact performs_unstage h hvo (by simp) hpre
    | unpublishVolume__ => exact performs_unpublish h hvo rfl rfl
  | reply =>
    cases outcome with
    | failed | unresolved => exact performs_failed h hvo
    | ok | leftover =>
      rw [perform, hvo]
      exact performs_replied h hvo hpre

end Functions

/-! ## Operations -/

end World

def Operation.Target (result : Option View) : Operation → Prop
  | .attachVolume => ∃ view, result = some view ∧ view.state = .nodeReady
  | .detachVolume => ∃ view, result = some view ∧ view.state = .created
  | .publishVolume => ∃ view, result = some view ∧ view.state = .published
  -- A volume that was pre-provisioned is not tracked any more.
  | .unpublishVolume => ∀ view, result = some view → view.state = .nodeReady ∧ view.preProvisioned = false
  | .deleteVolume => result = none

def World.view (this : World) : Option View := this.volume.map fun volume => volume.state.view

def World.bound (this : World) : Nat :=
  match this.running, this.view with
  | some (_, frames), some view => total Frame.post Frame.cost view frames
  | _, _ => 0

structure World.Runs (plugin : Plugin) (this : World) (operation : Operation) (frames : List Frame) : Prop where
  nonempty : frames ≠ []
  leads : ∃ view result, this.view = some view ∧ Leads (Frame.Pre plugin) Frame.post view frames result ∧
    operation.Target result

structure World.Wf (plugin : Plugin) (this : World) : Prop where
  sound : this.Sound plugin
  runs : ∀ operation frames, this.running = some (operation, frames) → this.Runs plugin operation frames
  bound : this.bound ≤ 11

theorem Operation.target_post (operation : Operation) (view : View) : operation.Target (operation.function.post view) := by
  cases operation with
  | attachVolume | detachVolume | publishVolume => exact ⟨_, rfl, rfl⟩
  | unpublishVolume =>
    intro _ hv
    simp only [Operation.function, Function.post] at hv
    split_ifs at hv with hpr
    cases hv
    exact ⟨rfl, by simpa using hpr⟩
  | deleteVolume => rfl

theorem Function.cost_le (function : Function) (state : State) : function.cost state ≤ 11 := by
  cases function <;> cases state <;> decide

theorem Frame.cost_pos (frame : Frame) (view : View) : 0 < frame.cost view := by
  cases frame with
  | reply => exact Nat.one_pos
  | direct function | deferred function =>
    show 0 < function.cost view.state
    cases function <;> cases view.state <;> decide

namespace World

variable {plugin : Plugin} {this : World} {state : VolumeState} {sequence : List Operation} {operation : Operation}
  {frames : List Frame}

theorem view_of_volume (hvo : this.volume = some ⟨state, sequence⟩) : this.view = some state.view := by
  rw [view, hvo]
  rfl

theorem bound_of_running (hvo : this.volume = some ⟨state, sequence⟩) (hr : this.running = some (operation, frames)) :
    this.bound = total post cost state.view frames := by
  rw [bound, hr, view_of_volume hvo]

theorem Sound.idle (h : this.Sound plugin) (hr : this.running = none) : this.Wf plugin where
  sound := h
  runs operation frames hs := by
    rw [hr] at hs
    exact nomatch hs
  bound := by
    rw [bound, hr]
    exact Nat.zero_le _

structure Advanced (plugin : Plugin) (bound : Nat) (after : World) : Prop where
  wf : after.Wf plugin
  target : ∀ operation, (operation, Result.success) ∈ after.ended → operation.Target after.view
  ends : after.running = none ∨ after.bound < bound

section
variable (h : this.Sound plugin) (he : ∀ operation, (operation, success) ∉ this.ended)
include h he

theorem Sound.stop {result : Result} (hr : result = .success → operation.Target this.view) (bound : Nat) :
    (this.stop operation result).Advanced plugin bound where
  wf := Sound.idle ⟨h.tracked, h.memory, h.disk⟩ rfl
  target other hmem := by
    rcases mem_append.mp hmem with hmem | hmem
    · exact absurd hmem (he other)
    · cases mem_singleton.mp hmem
      exact hr rfl
  ends := .inl rfl

theorem Sound.goOn (hvo : this.volume = some ⟨state, sequence⟩) (hf : frames ≠ []) {result : Option View}
    (hl : Leads (Pre plugin) post state.view frames result) (hta : operation.Target result)
    {bound : Nat} (ht : total post cost state.view frames < bound) (hb : bound ≤ 11) :
    Advanced plugin bound { this with running := some (operation, frames) } := by
  have hle : World.bound { this with running := some (operation, frames) } < bound := by
    rw [@bound_of_running { this with running := some (operation, frames) } _ _ _ _ hvo rfl]
    exact ht
  refine ⟨⟨⟨h.tracked, h.memory, h.disk⟩, ?_, by omega⟩, fun other hmem => absurd hmem (he other), .inr hle⟩
  intro _ _ hr
  cases hr
  exact ⟨hf, state.view, result, view_of_volume hvo, hl, hta⟩

end

/-- **One step of the operation that runs.** -/
theorem Wf.advance (h : this.Wf plugin) (hplugin : plugin.publishUnpublishVolume → plugin.nodeService)
    (he : this.ended = []) (outcome : Outcome) :
    ∃ after, this.advance plugin outcome = .ok after ∧ after.Advanced plugin this.bound := by
  rw [World.advance]
  cases hr : this.running with
  | none => exact ⟨this, rfl, h, fun _ hmem => by simp [he] at hmem, .inl hr⟩
  | some running =>
    obtain ⟨operation, frames⟩ := running
    obtain ⟨hn, view, result, hv, hl, hta⟩ := h.runs operation frames hr
    cases frames with
    | nil => exact absurd rfl hn
    | cons frame rest =>
      obtain ⟨⟨state, _⟩, hvo, rfl⟩ := map_eq_some_iff.mp hv
      have hb := bound_of_running hvo hr
      obtain ⟨after, next, hpe, hso, hg, hs⟩ :=
        @performs_perform _ _ _ _ _ outcome h.sound hvo hplugin hl.1
      have hs : ∀ operation, (operation, success) ∉ after.ended := by
        intro operation hmem
        have hmem := hs operation hmem
        rw [he] at hmem
        exact nomatch hmem
      dsimp only
      rw [hpe]
      refine ⟨_, rfl, ?_⟩
      cases hg with
      | failed => exact @Sound.stop _ _ _ hso hs .failure nofun _
      | done state' hvo' hpo =>
        have hre := hl.tail hpo
        cases rest with
        | nil =>
          refine hso.stop hs (fun _ => ?_) _
          rw [view_of_volume hvo', ← show result = some state'.view from hre]
          exact hta
        | cons =>
          rw [goOn_done hvo']
          refine hso.goOn hs hvo' (cons_ne_nil _ _) hre hta ?_ h.bound
          rw [hb, total_cons _ frame, hpo]
          exact Nat.lt_add_of_pos_left (frame.cost_pos state.view)
      | removed hvo' hpo hfr =>
        cases rest with
        | nil =>
          refine hso.stop hs (fun _ => ?_) _
          have hres : result = none := by
            have hla := hl.2
            rw [hpo] at hla
            exact hla rfl
          rw [show after.view = none by rw [view, hvo']; rfl, ← hres]
          exact hta
        | cons =>
          rw [goOn_removed hvo' hfr]
          exact @Sound.stop _ _ _ hso hs .discarded nofun _
      | frames _ _ hvo' hf hl' hc =>
        obtain ⟨hall, hle⟩ := hl.replace hl' hc
        exact hso.goOn hs hvo' (append_ne_nil_of_left_ne_nil hf _) hall hta (by rw [hb]; exact hle) h.bound

/-! ## Requests and recovery -/

theorem Wf.same {after : World} (h : this.Wf plugin)
    (hvo : after.volume.map VolumeData.state = this.volume.map VolumeData.state)
    (hc : after.checkpoint = this.checkpoint) (hsp : after.stagingPath = this.stagingPath)
    (hr : after.running = this.running) : after.Wf plugin := by
  have hv : after.view = this.view := by
    have hmap := congrArg (Option.map VolumeState.view) hvo
    rw [Option.map_map, Option.map_map] at hmap
    exact hmap
  refine ⟨⟨?_, ?_, ?_⟩, ?_, ?_⟩
  · have hs := congrArg isSome hvo
    rw [isSome_map, isSome_map] at hs
    rw [hc, h.sound.tracked, hs]
  · intro _ haf
    rw [haf] at hvo
    obtain ⟨other, ho, heq⟩ := map_eq_some_iff.mp hvo.symm
    rw [← heq, hsp]
    exact h.sound.memory other ho
  · rw [hc, hsp]
    exact h.sound.disk
  · intro operation frames hs
    obtain ⟨hf, view, hl⟩ := h.runs operation frames (hr ▸ hs)
    exact ⟨hf, view, by rw [hv]; exact hl⟩
  · have hb : after.bound = this.bound := by rw [World.bound, World.bound, hr, hv]
    rw [hb]
    exact h.bound

theorem Wf.add (h : this.Wf plugin) (operation : Operation) : (this.add operation).Wf plugin := by
  rw [World.add]
  cases hvo : this.volume with
  | none => exact h.same (by rw [hvo]) rfl rfl rfl
  | some => exact h.same (by rw [hvo]; rfl) rfl rfl rfl

theorem success_add {other : Operation} (hmem : (other, success) ∈ (this.add operation).ended) :
    (other, success) ∈ this.ended := by
  rw [add] at hmem
  cases hvo : this.volume with
  | none =>
    rw [hvo] at hmem
    simpa using hmem
  | some =>
    rw [hvo] at hmem
    exact hmem

variable (h : this.Wf plugin)
include h

theorem Wf.track (hvo : this.volume = none) (hst : state.Sound plugin this.stagingPath) :
    (this.track state).Wf plugin ∧ (this.track state).ended = this.ended := by
  have hr : this.running = none := by
    cases hr : this.running with
    | none => rfl
    | some running =>
      obtain ⟨-, view, -, hv, -⟩ := h.runs running.1 running.2 hr
      rw [World.view, hvo] at hv
      exact nomatch hv
  rw [track_new hvo]
  refine ⟨Sound.idle ⟨rfl, ?_, ?_⟩ hr, rfl⟩
  · intro _ hs
    cases hs
    exact hst
  · intro _ hs
    cases hs
    exact hst

def Startable (plugin : Plugin) (state : VolumeState) : Operation → Prop
  -- A volume that was used by a container is published when it is deleted.
  | .deleteVolume => (state.nodePublishRequired → state.state = .published) ∧ Stays plugin state.view
  | .detachVolume => Stays plugin state.view
  | .publishVolume => state.state = .published → state.nodePublishRequired
  | .attachVolume | .unpublishVolume => True

def Admits (plugin : Plugin) (this : World) : Event → Prop
  -- The volume is not tracked yet.
  | .request (.publishVolume (some state)) => this.volume = none ∧ (state.state = .nodeReady → state.bootId = none) ∧
    (state.state = .volReady → plugin.stageUnstageVolume = false)
  | .start =>
    match this.volume with
    | some ⟨state, operation :: _⟩ => Startable plugin state operation
    | _ => True
  | _ => True

instance (plugin : Plugin) (state : VolumeState) : ∀ operation, Decidable (Startable plugin state operation)
  | .deleteVolume => inferInstanceAs (Decidable ((_ → _) ∧ (_ → _ → _)))
  | .detachVolume => inferInstanceAs (Decidable (_ → _ → _))
  | .publishVolume => inferInstanceAs (Decidable (_ → _))
  | .attachVolume | .unpublishVolume => inferInstanceAs (Decidable True)

instance (plugin : Plugin) (this : World) : ∀ event, Decidable (this.Admits plugin event)
  | .request (.publishVolume (some _)) => inferInstanceAs (Decidable (_ ∧ (_ → _) ∧ (_ → _)))
  | .start =>
    match h : this.volume with
    | some ⟨state, operation :: _⟩ => decidable_of_iff (Startable plugin state operation) (by rw [Admits, h])
    | some ⟨_, []⟩ | none => isTrue (by rw [Admits, h]; trivial)
  | .request (.publishVolume none) | .request .createVolume | .request .attachVolume | .request .detachVolume
  | .request .unpublishVolume | .request (.deleteVolume _) | .advance _ | .restart _ _ => inferInstanceAs (Decidable True)

theorem Wf.request (he : this.ended = []) (request : Request)
    (hr : this.Admits plugin (.request request)) : (this.request plugin request).Wf plugin ∧
      ∀ operation, (operation, success) ∈ (this.request plugin request).ended →
        operation.Target (this.request plugin request).view := by
  have hno : ∀ {after : World}, after.ended = [] → ∀ operation, (operation, success) ∈ after.ended →
      operation.Target after.view := by
    intro _ haf operation hmem
    rw [haf] at hmem
    exact nomatch hmem
  have hadd : ∀ {before : World} (operation : Operation), before.Wf plugin → before.ended = [] →
      (before.add operation).Wf plugin ∧ ∀ other, (other, success) ∈ (before.add operation).ended →
        other.Target (before.add operation).view := by
    intro _ operation hwf hb
    refine ⟨hwf.add operation, fun _ hmem => ?_⟩
    have hmem := success_add hmem
    rw [hb] at hmem
    exact nomatch hmem
  cases request with
  | createVolume =>
    rw [World.request]
    cases hvo : this.volume with
    | some => exact ⟨h, hno he⟩
    | none =>
      obtain ⟨hwf, hsa⟩ := @Wf.track _ _ { state := .created } h hvo (sound_above rfl (by simp))
      exact ⟨hwf, hno (hsa.trans he)⟩
  | attachVolume => exact hadd .attachVolume h he
  | detachVolume => exact hadd .detachVolume h he
  | publishVolume volumeState =>
    cases volumeState with
    | none => exact hadd .publishVolume h he
    | some state =>
      obtain ⟨hvo, hre, hvr⟩ := hr
      rw [World.request]
      split_ifs with hpr hsta
      · exact ⟨h.same rfl rfl rfl rfl, fun _ hmem => by simp at hmem⟩
      · exact ⟨h.same rfl rfl rfl rfl, fun _ hmem => by simp at hmem⟩
      have hs : state.Sound plugin this.stagingPath := by
        by_cases hn : state.state = .nodeReady
        · exact sound_above (hre hn) (.inl hn)
        have hvol : state.state = .volReady := by
          by_contra hvol
          exact hsta ⟨hvol, hn⟩
        refine sound_below (by rw [hvol]; rfl) (fun hst => ?_) (by rw [hvol]; nofun)
        exact absurd hst (by simp [hvr hvol])
      obtain ⟨hwf, hsa⟩ := h.track hvo hs
      exact hadd .publishVolume hwf (hsa.trans he)
  | unpublishVolume =>
    rw [World.request]
    cases hvo : this.volume with
    | some => exact hadd .unpublishVolume h he
    | none =>
      have hwf : Wf plugin { this with ended := [(.unpublishVolume, .success)] } := h.same rfl rfl rfl rfl
      rw [hvo] at hwf
      refine ⟨hwf, fun operation hmem => ?_⟩
      cases mem_singleton.mp hmem
      exact nofun
  | deleteVolume =>
    rw [World.request]
    cases hvo : this.volume with
    | some => exact hadd .deleteVolume h he
    | none =>
      by_cases hplugin : plugin.createDeleteVolume = true
      · rw [if_pos hplugin]
        refine ⟨h.same rfl rfl rfl rfl, fun operation hmem => ?_⟩
        have hta : operation = .deleteVolume := (Prod.mk.inj (mem_singleton.mp hmem)).1
        rw [hta]
        show this.view = none
        rw [view, hvo]
        rfl
      · rw [if_neg hplugin]
        have hwf : Wf plugin { this with ended := [(.deleteVolume, .success)] } := h.same rfl rfl rfl rfl
        rw [hvo] at hwf
        refine ⟨hwf, fun _ hmem => ?_⟩
        cases mem_singleton.mp hmem
        rfl

theorem Wf.start (hst : this.Admits plugin .start) : this.start.Wf plugin := by
  rw [World.start]
  split
  · next state operation sequence _ hvo =>
    have hpre : Pre plugin (.deferred operation.function) state.view := by
      cases operation with
      | attachVolume | unpublishVolume => exact trivial
      | detachVolume | publishVolume | deleteVolume =>
        rw [Admits, hvo] at hst
        exact hst
    have hl : Leads (Pre plugin) post state.view [.deferred operation.function]
        (operation.function.post state.view) := by
      refine ⟨hpre, ?_⟩
      rw [show post (.deferred operation.function) state.view = operation.function.post state.view from rfl]
      cases operation.function.post state.view with
      | some => rfl
      | none => exact fun _ => rfl
    have hso := h.sound.memory _ hvo
    refine ⟨⟨?_, ?_, h.sound.disk⟩, ?_, ?_⟩
    · rw [h.sound.tracked, hvo]
      rfl
    · intro _ hs
      cases hs
      exact hso
    · intro _ _ hs
      cases hs
      exact ⟨nofun, state.view, _, rfl, hl, operation.target_post state.view⟩
    show total post cost state.view [.deferred operation.function] ≤ 11
    rw [total_cons]
    have hc := operation.function.cost_le state.state
    have hr : totalFrom post cost [] (post (.deferred operation.function) state.view) = 0 := by
      cases post (.deferred operation.function) state.view <;> rfl
    rw [hr]
    exact hc
  · exact h

/-- **`recover` finds a sound volume.** -/
theorem Wf.recover (bootId : BootId) (outcome : Outcome) : (this.recover bootId outcome).Wf plugin := by
  rw [World.recover]
  cases hc : this.checkpoint with
  | none =>
    refine Sound.idle ⟨?_, nofun, ?_⟩ rfl
    · rfl
    · nofun
  | some state =>
    have hso := h.sound.disk state hc
    have hr : (state.recovered bootId).Sound plugin this.stagingPath := by
      rw [recovered]
      split_ifs with hre
      · exact sound_above rfl (.inl rfl)
      · exact hso
    refine Sound.idle ⟨rfl, ?_, ?_⟩ rfl
    · intro _ hs
      cases hs
      exact hr
    · intro _ hs
      cases hs
      exact hso

/-! ## Runs -/

theorem Wf.step (hplugin : plugin.publishUnpublishVolume → plugin.nodeService) (event : Event)
    (hev : this.Admits plugin event) : ∃ after, this.step plugin event = .ok after ∧ after.Wf plugin ∧
      ∀ operation, (operation, success) ∈ after.ended → operation.Target after.view := by
  have hc : Wf plugin { this with actions := [], ended := [] } := h.same rfl rfl rfl rfl
  cases event with
  | request request => exact ⟨_, rfl, hc.request rfl request hev⟩
  | start =>
    refine ⟨_, rfl, hc.start hev, fun operation hmem => ?_⟩
    have he : World.ended (World.start { this with actions := [], ended := [] }) = [] := by
      rw [World.start]
      split <;> rfl
    rw [he] at hmem
    exact nomatch hmem
  | advance outcome =>
    obtain ⟨after, haf, ha⟩ := hc.advance hplugin rfl outcome
    exact ⟨after, haf, ha.wf, ha.target⟩
  | restart bootId outcome =>
    refine ⟨_, rfl, hc.recover bootId outcome, fun _ hmem => ?_⟩
    have he : World.ended (World.recover { this with actions := [], ended := [] } bootId outcome) = [] := by
      cases this.checkpoint <;> rfl
    rw [he] at hmem
    exact nomatch hmem

omit h

/-- **An operation ends within its bound**, whatever the outcomes of its steps. -/
theorem Wf.ends (hplugin : plugin.publishUnpublishVolume → plugin.nodeService) :
    ∀ (outcomes : List Outcome) {this : World}, this.Wf plugin → this.bound ≤ outcomes.length →
      ∃ k ≤ outcomes.length, ∃ after,
        ((outcomes.take k).map Event.advance).foldlM (World.step plugin) this = .ok after ∧ after.running = none
  | outcomes, this, h, hb => by
    cases hr : this.running with
    | none => exact ⟨0, Nat.zero_le _, this, rfl, hr⟩
    | some running =>
      obtain ⟨hn, view, _, hv, -⟩ := h.runs running.1 running.2 hr
      have hpos : 0 < this.bound := by
        rw [World.bound, hr, hv]
        obtain ⟨frame, _, hf⟩ := exists_cons_of_ne_nil hn
        show 0 < total _ _ view running.2
        rw [hf]
        exact Nat.add_pos_left (frame.cost_pos view) _
      cases outcomes with
      | nil => exact absurd hb (by simp only [length_nil]; omega)
      | cons outcome outcomes =>
        have hc : Wf plugin { this with actions := [], ended := [] } := h.same rfl rfl rfl rfl
        obtain ⟨after, haf, ha⟩ := hc.advance hplugin rfl outcome
        rcases ha.ends with hno | hle
        · refine ⟨1, by simp, after, ?_, hno⟩
          exact Fallible.bind_ok.mpr ⟨after, haf, rfl⟩
        have hb' : after.bound ≤ outcomes.length := by
          have hsa : World.bound { this with actions := [], ended := [] } = this.bound := rfl
          rw [length_cons] at hb
          omega
        obtain ⟨k, hk, last, hl, hno⟩ := Wf.ends hplugin outcomes ha.wf hb'
        refine ⟨k + 1, by simpa using hk, last, ?_, hno⟩
        exact Fallible.bind_ok.mpr ⟨after, haf, hl⟩

structure EndsWell (plugin : Plugin) (this : World) : Prop where
  target : ∀ operation, (operation, Result.success) ∈ this.ended → operation.Target this.view
  ends : ∀ outcomes : List Outcome, outcomes.length = 11 → ∃ k ≤ 11, ∃ after,
    ((outcomes.take k).map Event.advance).foldlM (World.step plugin) this = .ok after ∧ after.running = none

/-- **The volume manager never aborts**, along every run in which a volume is tracked as pre-provisioned only if it is not
tracked and needs nothing staged, a volume that a container has used is deleted only while it is published, and no volume is
detached or deleted that `_unpublishVolume` would remove at once. -/
theorem never_aborts (plugin : Plugin) (hplugin : plugin.publishUnpublishVolume → plugin.nodeService) (bootId : BootId)
    (events : List Event) (hevents : Fallible.Meets (World.step plugin) (Admits plugin) { bootId } events) :
    ∃ this, events.foldlM (World.step plugin) { bootId } = .ok this ∧ this.EndsWell plugin := by
  have hempty : World.Sound plugin { bootId } := by
    refine ⟨rfl, ?_, ?_⟩
    · exact nofun
    · exact nofun
  obtain ⟨this, hrun, hwf, htarget⟩ := hevents.runs
    (I := fun this => this.Wf plugin ∧ ∀ operation, (operation, success) ∈ this.ended → operation.Target this.view)
    (fun this event h hevent => h.1.step hplugin event hevent)
    ⟨hempty.idle rfl, nofun⟩
  refine ⟨this, hrun, htarget, fun outcomes hlength => ?_⟩
  rw [← hlength]
  exact hwf.ends hplugin outcomes (by rw [hlength]; exact hwf.bound)

/-- A volume is published, found published after a restart, and deleted. -/
theorem never_aborts_published :
    let plugin : Plugin := ⟨true, true, true, true, false⟩
    let events := [.request .createVolume, .request (.publishVolume none), .start] ++ List.replicate 9 (.advance .ok) ++
      [.restart 1 .ok, .start, .advance .ok, .request (.deleteVolume true), .start, .advance .ok]
    ∃ this, events.foldlM (World.step plugin) { bootId := 1 } = .ok this ∧ this.EndsWell plugin :=
  never_aborts _ (fun _ => rfl) 1 _ (by decide)

/-- A volume is published, unpublished and deleted: it still says that a container has used it, and is not published. -/
theorem unpublished_delete_aborts : ¬ ∀ (plugin : Plugin) (bootId : BootId) (events : List Event),
    ∃ this, events.foldlM (World.step plugin) { bootId } = .ok this ∧ this.EndsWell plugin := by
  intro h
  obtain ⟨_, hrun, -⟩ := h ⟨false, false, true, true, false⟩ 1
    ([.request .createVolume, .request (.publishVolume none), .start] ++ List.replicate 6 (.advance .ok) ++
      [.request .unpublishVolume, .start] ++ List.replicate 4 (.advance .ok) ++
      [.request (.deleteVolume true), .start, .advance .ok])
  exact nomatch hrun

end World

end Clusterd.Csi
