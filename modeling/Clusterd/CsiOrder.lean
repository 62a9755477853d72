import Clusterd.CsiVolume
import Clusterd.Fallible
/-!
# The order of the calls for a CSI volume

What the calls may have left behind on the node is told by the state of the volume, in memory and on disk.  Hence a volume is
unstaged, detached, deleted or forgotten only if nothing is left behind that must be undone before.  This takes that a volume is
not tracked anew while in use, and that the agent does not restart while one is unstaged that was never staged for sure:
`recover` then takes the node for rebooted.
-/
namespace Clusterd.Csi

open List Csi.Frame World

/-- Who makes the requests. -/
inductive Client
  | csiServer
  | storageProvider

/-- `createVolumeState` of the CSI server. -/
def createVolumeState : VolumeState := { state := .nodeReady, preProvisioned := true }

def Client.Sends : Client → Request → Prop
  | .csiServer, .publishVolume state => state = some createVolumeState
  | .csiServer, .unpublishVolume => True
  | .storageProvider, .createVolume | .storageProvider, .deleteVolume _ => True
  | .storageProvider, .publishVolume state => state = none
  | _, _ => False

def Action.Safe (node : Node) : Action → Prop
  | .call .nodeUnstageVolume => node.published = false
  | .call .controllerUnpublishVolume => node.staged = false
  | .call .deleteVolume => node.published = false ∧ node.staged = false ∧ node.attached = false
  | .removeMountPath => node.published = false ∧ node.staged = false
  | .call .controllerPublishVolume | .call .nodeStageVolume | .call .nodePublishVolume | .call .nodeUnpublishVolume => True

def State.mayBePublished : State → Bool
  | .nodePublish | .published | .nodeUnpublish => true
  | .created | .nodeReady | .volReady | .controllerPublish | .controllerUnpublish | .nodeStage | .nodeUnstage => false

def State.mayBeStaged (state : State) : Bool := state = .nodeStage || state.publishable

def State.above (state : State) : Bool :=
  state = .created || state = .controllerPublish || state = .controllerUnpublish

/-- What is left behind is told by the state of the volume.  The CSI server has only volumes that were pre-provisioned, which
are never attached or detached, and the storage provider has no such volumes. -/
structure Fits (client : Client) (plugin : Plugin) (node : Node) (state : VolumeState) : Prop where
  published : node.published → state.state.mayBePublished
  staged : node.staged → state.state.mayBeStaged ∧ plugin.stageUnstageVolume
  attached : node.attached → state.state ≠ .created ∧ plugin.publishUnpublishVolume ∧ client = .storageProvider
  bootId : state.state.publishable = false → state.bootId = none
  provisioned : state.preProvisioned ↔ client = .csiServer
  above : state.state.above → client = .storageProvider

def VolumeState.Current (this : VolumeState) (bootId : BootId) : Prop :=
  this.state.publishable → this.bootId = some bootId ∨ this.state = .nodeUnstage ∧ this.bootId = none

theorem VolumeState.recovered_current (this : VolumeState) (bootId : BootId) : (this.recovered bootId).Current bootId := by
  rw [recovered]
  split_ifs with hr
  · exact nofun
  · intro hst
    by_contra hbi
    exact hr ⟨hst, fun hs => hbi (.inl hs)⟩

def State.silent (state : State) : Bool := state = .created || state = .nodeReady || state = .volReady

variable {bootId : BootId}

theorem VolumeState.recovered_eq {this : VolumeState}
    (hl : (this.recovered bootId).state.silent = false) : this.recovered bootId = this := by
  unfold recovered at hl ⊢
  split_ifs at hl ⊢
  · exact nomatch hl
  · rfl

namespace Fits

variable {client : Client} {plugin : Plugin} {node : Node} {state state' : VolumeState}
  (h : Fits client plugin node state)
include h

theorem not_published (hst : state.state.mayBePublished = false) : node.published = false := by
  by_contra hnot
  exact absurd (h.published (by simpa using hnot)) (by simp [hst])

theorem not_staged
    (hst : state.state.mayBeStaged = false ∨ plugin.stageUnstageVolume = false) : node.staged = false := by
  by_contra hnot
  obtain ⟨hs, hpl⟩ := h.staged (by simpa using hnot)
  rcases hst with hst | hst
  · exact absurd hs (by simp [hst])
  · exact absurd hpl (by simp [hst])

theorem not_attached (hst : state.state = .created ∨ plugin.publishUnpublishVolume = false ∨ client = .csiServer) :
    node.attached = false := by
  by_contra hnot
  obtain ⟨hcr, hpl, hc⟩ := h.attached (by simpa using hnot)
  rcases hst with hst | hst | hst
  · exact hcr hst
  · exact absurd hpl (by simp [hst])
  · rw [hst] at hc
    exact nomatch hc

theorem move (hpr : state'.preProvisioned = state.preProvisioned)
    (hpu : node.published = false ∨ state'.state.mayBePublished = true)
    (hst : node.staged = false ∨ state'.state.mayBeStaged = true) (ha : node.attached = false ∨ state'.state ≠ .created)
    (hbi : state'.state.publishable = false → state'.bootId = none)
    (hab : state'.state.above = true → client = .storageProvider) : Fits client plugin node state' where
  published hs := hpu.resolve_left (by simp [hs])
  staged hs := ⟨hst.resolve_left (by simp [hs]), (h.staged hs).2⟩
  attached hs := ⟨ha.resolve_left (by simp [hs]), (h.attached hs).2⟩
  bootId := hbi
  provisioned := by rw [hpr]; exact h.provisioned
  above := hab

theorem succeeded (rpc : Rpc) : Fits client plugin (node.succeeded rpc) state := by
  cases rpc with
  | controllerUnpublishVolume => exact ⟨h.published, h.staged, nofun, h.bootId, h.provisioned, h.above⟩
  | nodeUnstageVolume => exact ⟨h.published, nofun, h.attached, h.bootId, h.provisioned, h.above⟩
  | nodeUnpublishVolume => exact ⟨nofun, h.staged, h.attached, h.bootId, h.provisioned, h.above⟩
  | controllerPublishVolume | nodeStageVolume | nodePublishVolume | deleteVolume => exact h

/-- **The recovery takes a volume for unused only if nothing is left behind.** -/
theorem recovered (hc : node.staged ∨ node.published → state.Current bootId)
    (hun : state.state = .nodeUnstage → node.staged ∨ node.published → state.bootId ≠ none) :
    Fits client plugin node (state.recovered bootId) := by
  rw [VolumeState.recovered]
  split_ifs with hr
  · have hu : ¬ (node.staged ∨ node.published) := by
      intro hl
      rcases hc hl hr.1 with hbi | ⟨hst, hbi⟩
      · exact hr.2 hbi
      · exact hun hst hl hbi
    rw [not_or, Bool.not_eq_true, Bool.not_eq_true] at hu
    exact h.move rfl (.inl hu.2) (.inl hu.1) (.inr nofun) (fun _ => rfl) nofun
  · exact h

end Fits

def Frame.Allowed (client : Client) : Frame → Prop
  | .direct function | .deferred function => client = .csiServer → function ≠ .deleteVolume_ ∧ function ≠ .detachVolume_
  | .reply _ => True

def Frame.Suits (plugin : Plugin) (state : VolumeState) : Frame → Prop
  | .reply .controllerPublishVolume => state.state = .controllerPublish
  | .reply .controllerUnpublishVolume => state.state = .controllerUnpublish
  | .reply .nodeStageVolume => state.state = .nodeStage
  | .reply .nodeUnstageVolume => state.state = .nodeUnstage
  | .reply .nodePublishVolume => state.state = .nodePublish
  | .reply .nodeUnpublishVolume => state.state = .nodeUnpublish
  | .reply .deleteVolume => state.state = .created
  | .direct .unpublishVolume_ => state.preProvisioned → state.state = .nodeUnstage ∧ plugin.stageUnstageVolume
  | .direct .deleteVolume_ => False
  | .direct _ | .deferred _ => True

theorem Fits.called {client : Client} {plugin : Plugin} {node : Node} {state : VolumeState} {rpc : Rpc}
    (h : Fits client plugin node state) (hs : (reply rpc).Suits plugin state)
    (hc : rpc = .controllerPublishVolume → plugin.publishUnpublishVolume)
    (hst : rpc = .nodeStageVolume → plugin.stageUnstageVolume) : Fits client plugin (node.called rpc) state := by
  cases rpc with
  | controllerPublishVolume =>
    have hsa : state.state = .controllerPublish := hs
    have hcl := h.above (by rw [hsa]; rfl)
    exact ⟨h.published, h.staged, fun _ => ⟨by rw [hsa]; nofun, hc rfl, hcl⟩, h.bootId, h.provisioned, h.above⟩
  | nodeStageVolume =>
    have hsa : state.state = .nodeStage := hs
    exact ⟨h.published, fun _ => ⟨by rw [hsa]; rfl, hst rfl⟩, h.attached, h.bootId, h.provisioned, h.above⟩
  | nodePublishVolume =>
    have hsa : state.state = .nodePublish := hs
    exact ⟨fun _ => by rw [hsa]; rfl, h.staged, h.attached, h.bootId, h.provisioned, h.above⟩
  | controllerUnpublishVolume | nodeUnstageVolume | nodeUnpublishVolume | deleteVolume => exact h

namespace World

structure Tidy (client : Client) (plugin : Plugin) (this : World) : Prop where
  tracked : this.checkpoint.isSome = this.volume.isSome
  untracked : this.volume = none → this.node = {}
  fits : ∀ volume, this.volume = some volume → Fits client plugin this.node volume.state
  current : ∀ volume, this.volume = some volume → volume.state.Current this.bootId
  saved : ∀ volume, this.volume = some volume → volume.state.state.silent = false →
    this.checkpoint = some volume.state
  disk : ∀ state, this.checkpoint = some state → Fits client plugin this.node state ∧
    (this.node.staged ∨ this.node.published → state.Current this.bootId)
  actions : ∀ entry ∈ this.actions, entry.1.Safe entry.2

variable {client : Client} {plugin : Plugin} {this : World} {state state' : VolumeState} {sequence : List Operation}
  {outcome : Outcome} {rpc : Rpc} (h : this.Tidy client plugin) (hvo : this.volume = some ⟨state, sequence⟩)
include h hvo

section
variable (hf : Fits client plugin this.node state') (hc : state'.Current this.bootId)
include hf hc

theorem Tidy.set (hsi : state'.state.silent = true) : (this.set state').Tidy client plugin := by
  have hset := set_volume hvo state'
  refine ⟨?_, ?_, ?_, ?_, ?_, h.disk, h.actions⟩
  · rw [hset, show (this.set state').checkpoint = this.checkpoint from rfl, h.tracked, hvo]
    rfl
  · intro hno
    rw [hset] at hno
    exact nomatch hno
  · intro volume hs
    cases hset.symm.trans hs
    exact hf
  · intro volume hs
    cases hset.symm.trans hs
    exact hc
  · intro _ hs hl
    cases hset.symm.trans hs
    exact absurd hsi (by simp [hl])

theorem Tidy.checkpoint : (this.checkpointVolumeState state').Tidy client plugin := by
  have hset : (this.checkpointVolumeState state').volume = some ⟨state', sequence⟩ := set_volume hvo state'
  refine ⟨?_, ?_, ?_, ?_, ?_, ?_, h.actions⟩
  · rw [hset]
    rfl
  · intro hno
    rw [hset] at hno
    exact nomatch hno
  · intro volume hs
    cases hset.symm.trans hs
    exact hf
  · intro volume hs
    cases hset.symm.trans hs
    exact hc
  · intro _ hs _
    cases hset.symm.trans hs
    rfl
  · intro _ ho
    cases ho
    exact ⟨hf, fun _ => hc⟩

end

theorem Tidy.call (hsa : (Action.call rpc).Safe this.node) (hf : Fits client plugin (this.node.called rpc) state)
    (hs : state.state.silent = false ∨ this.node.called rpc = this.node) : (this.call rpc).Tidy client plugin := by
  refine ⟨h.tracked, ?_, ?_, h.current, h.saved, ?_, ?_⟩
  · intro hno
    exact nomatch hvo.symm.trans hno
  · intro _ hso
    cases hvo.symm.trans hso
    exact hf
  · intro other ho
    rcases hs with hl | hsm
    · cases (h.saved _ hvo hl).symm.trans ho
      exact ⟨hf, fun _ => h.current _ hvo⟩
    have hd := h.disk other ho
    show Fits client plugin (this.node.called rpc) other ∧ _
    rw [hsm]
    refine ⟨hd.1, ?_⟩
    show (this.node.called rpc).staged ∨ (this.node.called rpc).published → _
    rw [hsm]
    exact hd.2
  · intro entry hen
    rcases mem_append.mp hen with hold | hnew
    · exact h.actions entry hold
    · cases mem_singleton.mp hnew
      exact hsa

theorem Tidy.succeeded (rpc : Rpc) : (this.succeeded rpc).Tidy client plugin := by
  refine ⟨h.tracked, ?_, ?_, h.current, h.saved, ?_, h.actions⟩
  · intro hno
    exact nomatch hvo.symm.trans hno
  · exact fun volume hs => (h.fits volume hs).succeeded rpc
  intro other ho
  refine ⟨(h.disk other ho).1.succeeded rpc, fun hl => (h.disk other ho).2 ?_⟩
  cases rpc with
  | nodeUnstageVolume => exact hl.imp_left nofun
  | nodeUnpublishVolume => exact hl.imp_right nofun
  | controllerPublishVolume | controllerUnpublishVolume | nodeStageVolume | nodePublishVolume | deleteVolume =>
    exact hl

omit h hvo

/-- **A volume is forgotten if nothing is left behind.** -/
theorem Tidy.removeVolume (h : this.Tidy client plugin) (hn : this.node = {}) (outcome : Outcome) :
    (this.removeVolume outcome).Tidy client plugin := by
  have hsa : (this.removeVolume outcome).node = this.node := by
    rw [World.removeVolume, discardSequence]
    cases this.volume <;> rfl
  have ha : (this.removeVolume outcome).actions = this.actions ++ [(.removeMountPath, this.node)] := by
    rw [World.removeVolume, discardSequence]
    cases this.volume <;> rfl
  refine ⟨rfl, fun _ => hsa.trans hn, ?_, ?_, ?_, ?_, ?_⟩
  iterate 4 exact fun _ hno => by cases hno
  rw [ha]
  intro entry hen
  rcases mem_append.mp hen with hold | hnew
  · exact h.actions entry hold
  · cases mem_singleton.mp hnew
    rw [hn]
    exact ⟨rfl, rfl⟩

end World

/-! ## Steps -/

structure Suited (client : Client) (plugin : Plugin) (state : VolumeState) (frames : List Frame) : Prop where
  nonempty : frames ≠ []
  allowed : ∀ frame ∈ frames, frame.Allowed client
  head : ∀ frame ∈ frames.head?, frame.Suits plugin state
  tail : ∀ frame ∈ frames.tail, ∃ function, frame = .deferred function

namespace World

variable {client : Client} {plugin : Plugin} {this : World} {state state' : VolumeState} {sequence : List Operation}
  {outcome : Outcome} {rpc : Rpc} {frame : Frame}

def Keeps (client : Client) (plugin : Plugin) (sequence : List Operation) (frame : Frame)
    (result : Except Check (World × Next)) : Prop :=
  ∀ after next, result = .ok (after, next) → after.Tidy client plugin ∧
    match next with
    | .failed => ∃ state, after.volume = some ⟨state, sequence⟩
    | .done => (∃ state, after.volume = some ⟨state, sequence⟩) ∨
      after.volume = none ∧ ∀ function, frame ≠ .direct function
    | .frames frames => ∃ state, after.volume = some ⟨state, sequence⟩ ∧ Suited client plugin state frames

theorem keeps_error (check : Check) : Keeps client plugin sequence frame (.error check) :=
  fun _ _ he => (nomatch he)

theorem keeps_removed (h : this.Tidy client plugin) (hn : this.node = {}) (hf : ∀ function, frame ≠ .direct function) :
    Keeps client plugin sequence frame (.ok (this.removeVolume outcome, .done)) := by
  rintro after next ⟨⟩
  exact ⟨h.removeVolume hn outcome, .inr ⟨rfl, hf⟩⟩

section Functions

variable (h : this.Tidy client plugin) (hvo : this.volume = some ⟨state, sequence⟩)
include h hvo

theorem keeps_failed : Keeps client plugin sequence frame (.ok (this, .failed)) := by
  rintro after next ⟨⟩
  exact ⟨h, state, hvo⟩

theorem keeps_done : Keeps client plugin sequence frame (.ok (this, .done)) := by
  rintro after next ⟨⟩
  exact ⟨h, .inl ⟨state, hvo⟩⟩

theorem keeps_frames {function function' : Function} (hs : (direct function).Suits plugin state)
    (hdi : (direct function).Allowed client) (hd : (deferred function').Allowed client) :
    Keeps client plugin sequence frame (.ok (this, .frames [.direct function, .deferred function'])) := by
  rintro after next ⟨⟩
  refine ⟨h, state, hvo, cons_ne_nil _ _, ?_, ?_, ?_⟩
  · simp only [mem_cons, not_mem_nil, or_false]
    rintro frame (rfl | rfl)
    · exact hdi
    · exact hd
  · rintro frame ⟨⟩
    exact hs
  · intro _ hmem
    exact ⟨function', mem_singleton.mp hmem⟩

theorem keeps_call (hs : (reply rpc).Suits plugin state) (hsf : (Action.call rpc).Safe this.node)
    (hf : Fits client plugin (this.node.called rpc) state) :
    Keeps client plugin sequence frame (.ok (this.call rpc, .frames [.reply rpc])) := by
  have hsa : state.state.silent = false ∨ this.node.called rpc = this.node := by
    cases rpc with
    | deleteVolume => exact .inr rfl
    | controllerPublishVolume | controllerUnpublishVolume | nodeStageVolume | nodeUnstageVolume | nodePublishVolume
    | nodeUnpublishVolume =>
      refine .inl ?_
      rw [show state.state = _ from hs]
      rfl
  rintro after next ⟨⟩
  refine ⟨h.call hvo hsf hf hsa, state, hvo, cons_ne_nil _ _, ?_, ?_, forall_mem_nil _⟩
  · intro frame hmem
    rw [mem_singleton.mp hmem]
    trivial
  · rintro frame ⟨⟩
    exact hs

theorem bootId_eq (hst : state.state.publishable = true) (hu : state.state ≠ .nodeUnstage) :
    state.bootId = some this.bootId :=
  (h.current _ hvo hst).resolve_right fun hno => hu hno.1

theorem current_unstage : { state with state := .nodeUnstage : VolumeState }.Current this.bootId := by
  intro _
  by_cases hst : state.state.publishable = true
  · exact (h.current _ hvo hst).imp_right fun hno => ⟨rfl, hno.2⟩
  · exact .inr ⟨rfl, (h.fits _ hvo).bootId (by simpa using hst)⟩

theorem keeps_attach (hal : (deferred .attachVolume_).Allowed client) :
    Keeps client plugin sequence frame (this.attachVolume_ plugin state) := by
  have hf := h.fits _ hvo
  have ha : state.state.above = true → client = .storageProvider ∧ this.node.published = false ∧
      this.node.staged = false ∧ state.bootId = none := by
    intro ha
    refine ⟨hf.above ha, hf.not_published ?_, hf.not_staged (.inl ?_), hf.bootId ?_⟩
    all_goals (cases hst : state.state <;> simp_all [State.above, State.mayBePublished, State.mayBeStaged, State.publishable])
  -- The volume is made available on the node without a call.
  have hr : state.state.above = true →
      Keeps client plugin sequence frame (.ok (this.set { state with state := .nodeReady }, .done)) := by
    intro hst
    obtain ⟨-, hpu, hs, hbi⟩ := ha hst
    refine keeps_done (h.set hvo ?_ nofun rfl) (set_volume hvo _)
    exact hf.move rfl (.inl hpu) (.inl hs) (.inr nofun) (fun _ => hbi) nofun
  unfold attachVolume_
  cases hst : state.state with
  | nodeReady => exact keeps_done h hvo
  | created =>
    have hst' : state.state.above = true := by rw [hst]; rfl
    split_ifs with hpl hn
    · exact hr hst'
    · exact keeps_error _
    obtain ⟨hc, hpu, hs, hbi⟩ := ha hst'
    have hm : Fits client plugin this.node { state with state := .controllerPublish } :=
      hf.move rfl (.inl hpu) (.inl hs) (.inr nofun) (fun _ => hbi) (fun _ => hc)
    refine keeps_call (h.checkpoint hvo hm nofun) (set_volume hvo _) rfl trivial (hm.called rfl ?_ nofun)
    exact fun _ => by simpa using hpl
  | controllerPublish =>
    split_ifs with hpl hn
    · exact hr (by rw [hst]; rfl)
    · exact keeps_error _
    · exact keeps_call h hvo hst trivial (hf.called hst (fun _ => by simpa using hpl) nofun)
  | controllerUnpublish =>
    have hst' : state.state.above = true := by rw [hst]; rfl
    dsimp only
    split_ifs with hpl
    · exact hr hst'
    · refine keeps_frames h hvo trivial (fun hc => ?_) hal
      rw [(ha hst').1] at hc
      exact nomatch hc
  | volReady | published | nodeStage | nodeUnstage | nodePublish | nodeUnpublish => exact keeps_failed h hvo

theorem keeps_detach (hc : client = .storageProvider) :
    Keeps client plugin sequence frame (this.detachVolume_ plugin state) := by
  have hf := h.fits _ hvo
  have hm : state.state.mayBePublished = false → state.state.mayBeStaged = false → ∀ target,
      target ≠ .created ∨ plugin.publishUnpublishVolume = false →
      Fits client plugin this.node { state with state := target } := by
    intro hpu hst _ ha
    refine hf.move rfl (.inl (hf.not_published hpu)) (.inl (hf.not_staged (.inl hst))) ?_
      (fun _ => hf.bootId ?_) (fun _ => hc)
    · exact ha.symm.imp_left fun hpl => hf.not_attached (.inr (.inl hpl))
    · cases hsa : state.state <;> simp_all [State.mayBeStaged, State.publishable]
  unfold detachVolume_
  cases hsa : state.state with
  | created => exact keeps_done h hvo
  | nodeReady | controllerPublish =>
    have hm := hm (by rw [hsa]; rfl) (by rw [hsa]; rfl)
    split_ifs with hpl hn
    · exact keeps_done (h.set hvo (hm .created (.inr hpl)) nofun rfl) (set_volume hvo _)
    · exact keeps_error _
    · refine keeps_call (h.checkpoint hvo (hm .controllerUnpublish (.inl nofun)) nofun) (set_volume hvo _) rfl
        (hf.not_staged (.inl (by rw [hsa]; rfl))) ?_
      exact (hm .controllerUnpublish (.inl nofun)).called rfl nofun nofun
  | controllerUnpublish =>
    have hm := hm (by rw [hsa]; rfl) (by rw [hsa]; rfl)
    split_ifs with hpl hn
    · exact keeps_done (h.set hvo (hm .created (.inr hpl)) nofun rfl) (set_volume hvo _)
    · exact keeps_error _
    · exact keeps_call h hvo hsa (hf.not_staged (.inl (by rw [hsa]; rfl))) (hf.called hsa nofun nofun)
  | volReady | published | nodeStage | nodeUnstage | nodePublish | nodeUnpublish =>
    have hs : client ≠ .csiServer := by rw [hc]; nofun
    exact keeps_frames h hvo (fun hpr => absurd (hf.provisioned.mp hpr) hs)
      (fun _ => ⟨nofun, nofun⟩) (fun hc => absurd hc hs)

theorem keeps_nodeUnstage (hst : state.state = .nodeUnstage) :
    Keeps client plugin sequence frame this.nodeUnstageVolume := by
  have hf := h.fits _ hvo
  rw [nodeUnstageVolume]
  split_ifs
  · exact keeps_error _
  · exact keeps_call h hvo hst (hf.not_published (by rw [hst]; rfl)) (hf.called hst nofun nofun)

theorem node_empty (hpu : state.state.mayBePublished = false)
    (hs : state.state.mayBeStaged = false ∨ plugin.stageUnstageVolume = false)
    (ha : state.state = .created ∨ plugin.publishUnpublishVolume = false ∨ client = .csiServer) : this.node = {} := by
  have hf := h.fits _ hvo
  have hpu := hf.not_published hpu
  have hs := hf.not_staged hs
  have ha := hf.not_attached ha
  cases hn : this.node
  simp_all

theorem keeps_unpublish (hfr : state.preProvisioned → ∀ function, frame = .direct function →
      state.state = .nodeUnstage ∧ plugin.stageUnstageVolume) (ha : (deferred .unpublishVolume_).Allowed client) :
    Keeps client plugin sequence frame (this.unpublishVolume_ plugin state outcome) := by
  have hf := h.fits _ hvo
  -- The volume is no longer on the node without a call.
  have hr : state.state.mayBePublished = false → plugin.stageUnstageVolume = false →
      Keeps client plugin sequence frame (if state.preProvisioned then .ok (this.removeVolume outcome, .done)
          else .ok (this.set { state with state := .nodeReady, bootId := none }, .done)) := by
    intro hpu hpl
    split_ifs with hpr
    · have hc := hf.provisioned.mp hpr
      refine keeps_removed h (node_empty h hvo hpu (.inr hpl) (.inr (.inr hc))) ?_
      intro function heq
      exact absurd (hfr hpr function heq).2 (by simp [hpl])
    · refine keeps_done (h.set hvo ?_ nofun rfl) (set_volume hvo _)
      exact hf.move rfl (.inl (hf.not_published hpu)) (.inl (hf.not_staged (.inr hpl)))
        (.inr nofun) (fun _ => rfl) nofun
  unfold unpublishVolume_
  cases hst : state.state with
  | nodeReady =>
    dsimp only
    split_ifs with hbi hpr
    · exact keeps_error _
    · have hc := hf.provisioned.mp hpr
      refine keeps_removed h (node_empty h hvo (by rw [hst]; rfl) (.inl (by rw [hst]; rfl)) (.inr (.inr hc))) ?_
      intro function heq
      exact (nomatch hst.symm.trans (hfr hpr function heq).1)
    · exact keeps_done h hvo
  | volReady | nodeStage =>
    dsimp only
    split
    next hpl =>
      exact hr (by rw [hst]; rfl) hpl
    · have hm : Fits client plugin this.node { state with state := .nodeUnstage } :=
        hf.move rfl (.inl (hf.not_published (by rw [hst]; rfl))) (.inr rfl) (.inr nofun) nofun nofun
      exact keeps_nodeUnstage (h.checkpoint hvo hm (current_unstage h hvo)) (set_volume hvo _) rfl
  | nodeUnstage =>
    dsimp only
    split
    next hpl =>
      exact hr (by rw [hst]; rfl) hpl
    · exact keeps_nodeUnstage h hvo hst
  | created | controllerPublish | controllerUnpublish | published | nodePublish | nodeUnpublish =>
    exact keeps_frames h hvo trivial (fun _ => ⟨nofun, nofun⟩) ha

theorem keeps_unpublish' : Keeps client plugin sequence frame (this.unpublishVolume__ state) := by
  have hf := h.fits _ hvo
  unfold unpublishVolume__
  cases hst : state.state with
  | volReady => exact keeps_done h hvo
  | published | nodePublish =>
    have hm : Fits client plugin this.node { state with state := .nodeUnpublish } :=
      hf.move rfl (.inr rfl) (.inr rfl) (.inr nofun) nofun nofun
    have hbi := bootId_eq h hvo (by rw [hst]; rfl) (by rw [hst]; nofun)
    exact keeps_call (h.checkpoint hvo hm fun _ => .inl hbi) (set_volume hvo _) rfl trivial
      (hm.called rfl nofun nofun)
  | nodeUnpublish => exact keeps_call h hvo hst trivial (hf.called hst nofun nofun)
  | created | nodeReady | controllerPublish | controllerUnpublish | nodeStage | nodeUnstage => exact keeps_failed h hvo

theorem keeps_nodePublish (hst : state.state = .nodePublish) :
    Keeps client plugin sequence frame (this.nodePublishVolume plugin outcome) := by
  rw [nodePublishVolume]
  split_ifs
  · exact keeps_error _
  · exact keeps_failed h hvo
  · exact keeps_call h hvo hst trivial ((h.fits _ hvo).called hst nofun nofun)

theorem keeps_publish (ha : (deferred .publishVolume_).Allowed client) :
    Keeps client plugin sequence frame (this.publishVolume_ plugin state outcome) := by
  have hf := h.fits _ hvo
  unfold publishVolume_
  cases hst : state.state with
  | published =>
    dsimp only
    split_ifs
    · exact keeps_done h hvo
    · exact keeps_error _
  | volReady =>
    dsimp only
    split_ifs
    · exact keeps_failed h hvo
    have hm : Fits client plugin this.node { state with state := .nodePublish } :=
      hf.move rfl (.inr rfl) (.inr rfl) (.inr nofun) nofun nofun
    have hbi := bootId_eq h hvo (by rw [hst]; rfl) (by rw [hst]; nofun)
    exact keeps_nodePublish (h.checkpoint hvo hm fun _ => .inl hbi) (set_volume hvo _) rfl
  | nodePublish =>
    dsimp only
    split_ifs
    · exact keeps_failed h hvo
    · exact keeps_nodePublish h hvo hst
  | nodeUnpublish | created | nodeReady | controllerPublish | controllerUnpublish | nodeStage | nodeUnstage =>
    exact keeps_frames h hvo trivial (fun _ => ⟨nofun, nofun⟩) ha

theorem keeps_nodeStage (hst : state.state = .nodeStage) (hpl : plugin.stageUnstageVolume) :
    Keeps client plugin sequence frame (this.nodeStageVolume outcome) := by
  rw [nodeStageVolume]
  split_ifs
  · exact keeps_failed h hvo
  · exact keeps_call h hvo hst trivial ((h.fits _ hvo).called hst nofun fun _ => hpl)

theorem keeps_publish' (ha : (deferred .publishVolume__).Allowed client) :
    Keeps client plugin sequence frame (this.publishVolume__ plugin state outcome) := by
  have hf := h.fits _ hvo
  have hpa : { this with stagingPath := true }.Tidy client plugin :=
    ⟨h.tracked, h.untracked, h.fits, h.current, h.saved, h.disk, h.actions⟩
  -- The volume is made publishable without a call.
  have hr : state.state.mayBePublished = false → Keeps client plugin sequence frame
      (.ok (this.set { state with state := .volReady, bootId := some this.bootId }, .done)) := by
    intro hpu
    refine keeps_done (h.set hvo ?_ (fun _ => .inl rfl) rfl) (set_volume hvo _)
    exact hf.move rfl (.inl (hf.not_published hpu)) (.inr rfl) (.inr nofun) nofun nofun
  unfold publishVolume__
  cases hst : state.state with
  | volReady =>
    dsimp only
    split_ifs
    · exact keeps_error _
    · exact keeps_done h hvo
  | nodeReady =>
    dsimp only
    split_ifs with hpl
    · exact hr (by rw [hst]; rfl)
    · exact keeps_failed h hvo
    have hm : Fits client plugin this.node { state with state := .nodeStage } :=
      hf.move rfl (.inl (hf.not_published (by rw [hst]; rfl))) (.inr rfl) (.inr nofun)
        (fun _ => hf.bootId (by rw [hst]; rfl)) nofun
    exact keeps_nodeStage (hpa.checkpoint hvo hm nofun) (set_volume hvo _) rfl (by simpa using hpl)
  | nodeStage =>
    dsimp only
    split_ifs with hpl
    · exact hr (by rw [hst]; rfl)
    · exact keeps_failed h hvo
    · exact keeps_nodeStage hpa hvo hst (by simpa using hpl)
  | nodeUnstage =>
    dsimp only
    split_ifs with hpl
    · exact hr (by rw [hst]; rfl)
    · exact keeps_frames h hvo (fun _ => ⟨hst, by simpa using hpl⟩) (fun _ => ⟨nofun, nofun⟩) ha
  | created | controllerPublish | controllerUnpublish | published | nodePublish | nodeUnpublish =>
    exact keeps_frames h hvo trivial (fun _ => ⟨nofun, nofun⟩) ha

theorem keeps_delete (hcl : client = .storageProvider) (hfr : ∀ function, frame ≠ .direct function) :
    Keeps client plugin sequence frame (this.deleteVolume_ plugin state outcome) := by
  have hf := h.fits _ hvo
  have ha : ∀ function, client = .csiServer → function ≠ Function.deleteVolume_ ∧ function ≠ .detachVolume_ := by
    rw [hcl]
    exact nofun
  unfold deleteVolume_
  split_ifs with hr hpu hcle hc hpl
  · exact keeps_error _
  · exact keeps_failed h hvo
  · have hm : Fits client plugin this.node { state with nodePublishRequired := false } :=
      ⟨hf.published, hf.staged, hf.attached, hf.bootId, hf.provisioned, hf.above⟩
    exact keeps_frames (h.checkpoint hvo hm (h.current _ hvo)) (set_volume hvo _) trivial (ha _) (ha _)
  · exact keeps_frames h hvo trivial (ha _) (ha _)
  · have hc : state.state = .created := by simpa using hc
    have hn := node_empty h hvo (by rw [hc]; rfl) (.inl (by rw [hc]; rfl)) (.inl hc)
    refine keeps_call h hvo hc ?_ (hf.called hc nofun nofun)
    rw [hn]
    exact ⟨rfl, rfl, rfl⟩
  · have hc : state.state = .created := by simpa using hc
    have hn := node_empty h hvo (by rw [hc]; rfl) (.inl (by rw [hc]; rfl)) (.inl hc)
    exact keeps_removed h hn hfr

theorem keeps_replied (hs : (reply rpc).Suits plugin state) (outcome : Outcome) :
    Keeps client plugin sequence (.reply rpc) (.ok ((this.succeeded rpc).replied plugin state outcome rpc)) := by
  have hf := (h.fits _ hvo).succeeded rpc
  have ht := h.succeeded hvo rpc
  have hd : ∀ state', Fits client plugin (this.node.succeeded rpc) state' → state'.Current this.bootId →
      Keeps client plugin sequence (.reply rpc) (.ok ((this.succeeded rpc).checkpointVolumeState state', .done)) :=
    fun state' hf hc => keeps_done (ht.checkpoint hvo hf hc) (set_volume hvo state')
  cases rpc with
  | controllerPublishVolume =>
    have hst : state.state = .controllerPublish := hs
    refine hd _ (hf.move rfl (.inl (hf.not_published ?_)) (.inl (hf.not_staged (.inl ?_))) (.inr nofun)
      (fun _ => hf.bootId ?_) nofun) nofun
    all_goals (rw [hst]; rfl)
  | controllerUnpublishVolume =>
    have hst : state.state = .controllerUnpublish := hs
    refine hd _ (hf.move rfl (.inl (hf.not_published ?_)) (.inl (hf.not_staged (.inl ?_))) (.inl rfl)
      (fun _ => hf.bootId ?_) (fun _ => hf.above ?_)) nofun
    all_goals (rw [hst]; rfl)
  | nodeStageVolume =>
    have hst : state.state = .nodeStage := hs
    refine hd _ (hf.move rfl (.inl (hf.not_published ?_)) (.inr rfl) (.inr nofun) nofun nofun) (fun _ => .inl rfl)
    rw [hst]
    rfl
  | nodeUnstageVolume =>
    have hst : state.state = .nodeUnstage := hs
    have hpu := hf.not_published (by rw [hst]; rfl)
    unfold replied
    dsimp only
    split_ifs with hpr
    · refine keeps_removed ht ?_ nofun
      have ha := hf.not_attached (.inr (.inr (hf.provisioned.mp hpr)))
      show (⟨this.node.attached, false, this.node.published⟩ : Node) = {}
      rw [show this.node.attached = false from ha, show this.node.published = false from hpu]
    · exact hd _ (hf.move rfl (.inl hpu) (.inl rfl) (.inr nofun) (fun _ => rfl) nofun) nofun
  | nodePublishVolume | nodeUnpublishVolume =>
    unfold replied
    dsimp only
    split_ifs
    · exact keeps_failed ht hvo
    · have hst : state.state = _ := hs
      have hbi := bootId_eq h hvo (by rw [hst]; rfl) (by rw [hst]; nofun)
      exact hd _ (hf.move rfl (by simp [Node.succeeded, State.mayBePublished]) (.inr rfl) (.inr nofun) nofun nofun) (fun _ => .inl hbi)
  | deleteVolume =>
    have hst : state.state = .created := hs
    exact keeps_removed ht (node_empty ht hvo (by rw [hst]; rfl) (.inl (by rw [hst]; rfl)) (.inl hst)) nofun

/-- **What one step of an operation leaves.** -/
theorem keeps_perform (ha : frame.Allowed client) (hsu : frame.Suits plugin state) (outcome : Outcome) :
    Keeps client plugin sequence frame (this.perform plugin outcome frame) := by
  have hs : ∀ {function : Function}, function = .deleteVolume_ ∨ function = .detachVolume_ →
      (client = .csiServer → function ≠ .deleteVolume_ ∧ function ≠ .detachVolume_) → client = .storageProvider := by
    intro function hf hse
    cases client with
    | storageProvider => rfl
    | csiServer => exact (hf.elim (hse rfl).1 (hse rfl).2).elim
  cases frame with
  | direct function | deferred function =>
    rw [perform, hvo]
    cases function with
    | deleteVolume_ => first | exact hsu.elim | exact keeps_delete h hvo (hs (.inl rfl) ha) nofun
    | attachVolume_ => exact keeps_attach h hvo ha
    | detachVolume_ => exact keeps_detach h hvo (hs (.inr rfl) ha)
    | publishVolume_ => exact keeps_publish h hvo ha
    | publishVolume__ => exact keeps_publish' h hvo ha
    | unpublishVolume_ => first | exact keeps_unpublish h hvo (fun hpr _ _ => hsu hpr) ha | exact keeps_unpublish h hvo nofun ha
    | unpublishVolume__ => exact keeps_unpublish' h hvo
  | reply =>
    unfold perform
    cases outcome with
    | failed | unresolved => exact keeps_failed h hvo
    | ok | leftover =>
      rw [hvo]
      exact keeps_replied h hvo hsu _

end Functions

/-! ## Runs -/

structure Orderly (client : Client) (plugin : Plugin) (this : World) : Prop where
  tidy : this.Tidy client plugin
  queued : ∀ volume, this.volume = some volume → ∀ operation ∈ volume.sequence,
    (Frame.deferred operation.function).Allowed client
  running : ∀ operation frames, this.running = some (operation, frames) →
    ∃ volume, this.volume = some volume ∧ Suited client plugin volume.state frames

theorem Tidy.same {other : World} (h : this.Tidy client plugin) (hbi : other.bootId = this.bootId)
    (hvo : other.volume.map VolumeData.state = this.volume.map VolumeData.state)
    (hc : other.checkpoint = this.checkpoint) (hn : other.node = this.node)
    (ha : ∀ entry ∈ other.actions, entry.1.Safe entry.2) : other.Tidy client plugin := by
  have hs : ∀ volume, other.volume = some volume → ∃ volume', this.volume = some volume' ∧ volume'.state = volume.state := by
    intro volume ho
    rw [ho] at hvo
    exact Option.map_eq_some_iff.mp hvo.symm
  refine ⟨?_, ?_, ?_, ?_, ?_, ?_, ha⟩
  · rw [hc, h.tracked, ← Option.isSome_map, ← hvo, Option.isSome_map]
  · intro hno
    rw [hn]
    rw [hno] at hvo
    exact h.untracked (Option.map_eq_none_iff.mp hvo.symm)
  · intro volume ho
    obtain ⟨volume', ht, hst⟩ := hs volume ho
    rw [hn, ← hst]
    exact h.fits volume' ht
  · intro volume ho
    obtain ⟨volume', ht, hst⟩ := hs volume ho
    rw [hbi, ← hst]
    exact h.current volume' ht
  · intro volume ho hl
    obtain ⟨volume', ht, hst⟩ := hs volume ho
    rw [hc, ← hst]
    exact h.saved volume' ht (by rw [hst]; exact hl)
  · intro state hst
    rw [hn, hbi]
    exact h.disk state (hc ▸ hst)

theorem Orderly.stop (h : this.Tidy client plugin)
    (hq : ∀ volume, this.volume = some volume → ∀ operation ∈ volume.sequence,
      (deferred operation.function).Allowed client) (operation : Operation) (result : Result) :
    (this.stop operation result).Orderly client plugin :=
  ⟨h.same rfl rfl rfl rfl h.actions, hq, nofun⟩

/-- **The rest of an operation after one of its steps.** -/
theorem Orderly.goOn {result : Except Check (World × Next)} {next : Next} {rest : List Frame}
    (hk : Keeps client plugin sequence frame result) (hr : result = .ok (this, next))
    (hqu : ∀ operation ∈ sequence, (deferred operation.function).Allowed client)
    (ha : ∀ frame ∈ rest, frame.Allowed client) (hd : ∀ frame ∈ rest, ∃ function, frame = .deferred function)
    (operation : Operation) : (this.goOn operation frame rest next).Orderly client plugin := by
  obtain ⟨ht, hn⟩ := hk this next hr
  have hq : ∀ {state}, this.volume = some ⟨state, sequence⟩ → ∀ volume, this.volume = some volume →
      ∀ operation ∈ volume.sequence, (deferred operation.function).Allowed client := by
    intro state hvo volume hso
    cases hvo.symm.trans hso
    exact hqu
  have hrun : ∀ {state} {frames}, this.volume = some ⟨state, sequence⟩ →
      Suited client plugin state frames → { this with running := some (operation, frames) }.Orderly client plugin := by
    intro state frames hvo hs
    refine ⟨ht.same rfl rfl rfl rfl ht.actions, hq hvo, ?_⟩
    rintro _ _ ⟨⟩
    exact ⟨_, hvo, hs⟩
  cases next with
  | failed =>
    obtain ⟨state, hvo⟩ := hn
    exact Orderly.stop ht (hq hvo) operation .failure
  | frames =>
    obtain ⟨state, hvo, hs⟩ := hn
    refine hrun hvo ⟨?_, ?_, ?_, ?_⟩
    · exact append_ne_nil_of_left_ne_nil hs.nonempty rest
    · intro frame hmem
      exact (mem_append.mp hmem).elim (hs.allowed frame) (ha frame)
    · rw [head?_append_of_ne_nil _ hs.nonempty]
      exact hs.head
    · rw [tail_append_of_ne_nil hs.nonempty]
      intro frame hmem
      exact (mem_append.mp hmem).elim (hs.tail frame) (hd frame)
  | done =>
    cases rest with
    | nil =>
      refine Orderly.stop ht ?_ operation .success
      rcases hn with ⟨state, hvo⟩ | ⟨hno, -⟩
      · exact hq hvo
      · intro volume hso
        exact (nomatch hno.symm.trans hso)
    | cons next =>
      rcases hn with ⟨_, hvo⟩ | ⟨hno, hf⟩
      · rw [goOn_done hvo]
        refine hrun hvo ⟨cons_ne_nil _ _, ha, ?_, fun frame hmem => hd frame (mem_cons_of_mem _ hmem)⟩
        rintro frame ⟨⟩
        obtain ⟨_, rfl⟩ := hd next mem_cons_self
        trivial
      · rw [goOn_removed hno hf]
        exact Orderly.stop ht (fun _ hso => (nomatch hno.symm.trans hso)) operation .discarded

variable (h : this.Orderly client plugin) {after : World}
include h

theorem Orderly.advance (outcome : Outcome)
    (haf : this.advance plugin outcome = .ok after) : after.Orderly client plugin := by
  rw [World.advance] at haf
  split at haf
  · next operation frame rest hr =>
    obtain ⟨⟨_, _⟩, hvo, hs⟩ := h.running _ _ hr
    have hk := keeps_perform h.tidy hvo (hs.allowed frame mem_cons_self) (hs.head frame rfl) outcome
    split at haf
    · exact nomatch haf
    next this' next hpe =>
    cases haf
    exact Orderly.goOn hk hpe (h.queued _ hvo)
      (fun frame hmem => hs.allowed frame (mem_cons_of_mem _ hmem)) hs.tail operation
  · cases haf
    exact h

theorem Orderly.start : this.start.Orderly client plugin := by
  rw [World.start]
  split
  · next operation sequence _ hvo =>
    refine ⟨h.tidy.same rfl (by rw [hvo]; rfl) rfl rfl h.tidy.actions, ?_, ?_⟩
    · rintro _ ⟨⟩ other hmem
      exact h.queued _ hvo other (mem_cons_of_mem _ hmem)
    rintro _ _ ⟨⟩
    refine ⟨_, rfl, cons_ne_nil _ _, ?_, ?_, forall_mem_nil _⟩
    · intro frame hmem
      rw [mem_singleton.mp hmem]
      exact h.queued _ hvo operation mem_cons_self
    · rintro frame ⟨⟩
      trivial
  · exact h

theorem Orderly.add {operation : Operation}
    (ha : (deferred operation.function).Allowed client) : (this.add operation).Orderly client plugin := by
  rw [World.add]
  split
  · next hvo =>
    refine ⟨h.tidy.same rfl (by rw [hvo]; rfl) rfl rfl h.tidy.actions, ?_, ?_⟩
    · rintro _ ⟨⟩ other hmem
      rcases mem_append.mp hmem with hold | hnew
      · exact h.queued _ hvo other hold
      · rw [mem_singleton.mp hnew]
        exact ha
    · intro other frames hr
      obtain ⟨_, hso, hs⟩ := h.running other frames hr
      cases hvo.symm.trans hso
      exact ⟨_, rfl, hs⟩
  · exact ⟨h.tidy.same rfl rfl rfl rfl h.tidy.actions, h.queued, h.running⟩

theorem Orderly.track (hno : this.volume = none) (hsi : state.state.silent = true)
    (hbi : state.bootId = none) (hpu : state.state.publishable = false) (hpr : state.preProvisioned ↔ client = .csiServer)
    (ha : state.state.above → client = .storageProvider) : (this.track state).Orderly client plugin := by
  have hr : this.running = none := by
    cases hs : this.running with
    | none => rfl
    | some =>
      obtain ⟨_, hvo, -⟩ := h.running _ _ hs
      exact (nomatch hno.symm.trans hvo)
  have hf : Fits client plugin this.node state := by
    rw [h.tidy.untracked hno]
    exact ⟨nofun, nofun, nofun, fun _ => hbi, hpr, ha⟩
  have hc : state.Current this.bootId := by
    intro hst
    rw [hpu] at hst
    exact nomatch hst
  rw [track_new hno]
  refine ⟨⟨rfl, nofun, ?_, ?_, ?_, ?_, h.tidy.actions⟩, ?_, ?_⟩
  · rintro _ ⟨⟩
    exact hf
  · rintro _ ⟨⟩
    exact hc
  · rintro _ ⟨⟩ hl
    exact absurd hsi (by simp [hl])
  · rintro _ ⟨⟩
    exact ⟨hf, fun _ => hc⟩
  · rintro _ ⟨⟩
    exact forall_mem_nil _
  · intro _ _ hs
    exact (nomatch hr.symm.trans hs)

def InOrder (this : World) : Event → Prop
  | .request (.publishVolume (some _)) => this.volume = none
  | .restart bootId _ =>
    bootId = this.bootId → ∀ state ∈ this.checkpoint, state.state = .nodeUnstage → state.bootId ≠ none
  | _ => True

instance (this : World) : ∀ event, Decidable (this.InOrder event)
  | .request (.publishVolume (some _)) => inferInstanceAs (Decidable (this.volume = none))
  | .restart _ _ => inferInstanceAs (Decidable (_ → ∀ state ∈ this.checkpoint, _ → _))
  | .request (.publishVolume none) | .request .createVolume | .request .attachVolume | .request .detachVolume
  | .request .unpublishVolume | .request (.deleteVolume _) | .advance _ | .start => inferInstanceAs (Decidable True)

theorem Orderly.request {request : Request} (hs : client.Sends request)
    (hr : this.InOrder (.request request)) : (this.request plugin request).Orderly client plugin := by
  have he : ∀ {before : World}, before.Orderly client plugin → ∀ ended, { before with ended }.Orderly client plugin :=
    fun hb _ => ⟨hb.tidy.same rfl rfl rfl rfl hb.tidy.actions, hb.queued, hb.running⟩
  cases client with
  | csiServer =>
    cases request with
    | publishVolume state =>
      obtain rfl : state = some createVolumeState := hs
      have ht : (this.track createVolumeState).Orderly .csiServer plugin :=
        h.track hr rfl rfl rfl ⟨fun _ => rfl, fun _ => rfl⟩ nofun
      exact ht.add fun _ => ⟨nofun, nofun⟩
    | unpublishVolume =>
      rw [request]
      split
      · exact he h _
      · exact h.add fun _ => ⟨nofun, nofun⟩
    | createVolume | attachVolume | detachVolume | deleteVolume => exact hs.elim
  | storageProvider =>
    cases request with
    | createVolume =>
      rw [request]
      split
      · exact h
      · next hno => exact h.track hno rfl rfl rfl ⟨nofun, nofun⟩ fun _ => rfl
    | publishVolume state =>
      obtain rfl : state = none := hs
      exact h.add nofun
    | deleteVolume =>
      rw [request]
      split
      · exact h.add nofun
      next hno =>
      have hc : (this.call .deleteVolume).Orderly .storageProvider plugin := by
        refine ⟨h.tidy.same rfl rfl rfl rfl ?_, h.queued, h.running⟩
        intro entry hen
        rcases mem_append.mp hen with hold | hnew
        · exact h.tidy.actions entry hold
        · rw [mem_singleton.mp hnew, h.tidy.untracked hno]
          exact ⟨rfl, rfl, rfl⟩
      split
      · exact he hc _
      · exact he h _
    | attachVolume | detachVolume | unpublishVolume => exact hs.elim

theorem Orderly.recover {outcome : Outcome}
    (hre : this.InOrder (.restart bootId outcome)) : (this.recover bootId outcome).Orderly client plugin := by
  unfold World.recover
  generalize hn : (if bootId = this.bootId then this.node else { attached := this.node.attached }) = node
  have hf : ∀ {state}, Fits client plugin this.node state → Fits client plugin node state := by
    intro state hf
    rw [← hn]
    split_ifs
    · exact hf
    · exact ⟨nofun, nofun, hf.attached, hf.bootId, hf.provisioned, hf.above⟩
  have hl : node.staged ∨ node.published → bootId = this.bootId ∧ (this.node.staged ∨ this.node.published) := by
    rw [← hn]
    split_ifs with hsa
    · exact fun hl => ⟨hsa, hl⟩
    · exact fun hl => hl.elim nofun nofun
  cases hc : this.checkpoint with
  | none =>
    have hvo : this.volume = none := by
      have ht := h.tidy.tracked
      rw [hc] at ht
      exact Option.isNone_iff_eq_none.mp (by simpa using ht.symm)
    have he : node = {} := by
      rw [← hn, h.tidy.untracked hvo, ite_self]
    refine ⟨⟨rfl, fun _ => he, nofun, nofun, nofun, nofun, ?_⟩, nofun, nofun⟩
    intro entry hen
    rcases mem_append.mp hen with hold | hnew
    · exact h.tidy.actions entry hold
    · rw [mem_singleton.mp hnew, he]
      exact ⟨rfl, rfl⟩
  | some state =>
    obtain ⟨hd, hcu⟩ := h.tidy.disk state hc
    have hcu' : node.staged ∨ node.published → state.Current bootId := by
      intro hs
      obtain ⟨rfl, hb⟩ := hl hs
      exact hcu hb
    have hr : Fits client plugin node (state.recovered bootId) :=
      (hf hd).recovered hcu' fun hst hs => hre (hl hs).1 state hc hst
    refine ⟨⟨rfl, nofun, ?_, ?_, ?_, ?_, h.tidy.actions⟩, ?_, nofun⟩
    · rintro _ ⟨⟩
      exact hr
    · rintro _ ⟨⟩
      exact VolumeState.recovered_current state bootId
    · rintro _ ⟨⟩ hlo
      exact congrArg some (VolumeState.recovered_eq hlo).symm
    · rintro _ ⟨⟩
      exact ⟨hf hd, hcu'⟩
    rintro _ ⟨⟩ operation hmem
    split_ifs at hmem
    · rw [mem_singleton.mp hmem]
      exact fun _ => ⟨nofun, nofun⟩
    · exact nomatch hmem

theorem Orderly.step {event : Event} (hio : this.InOrder event)
    (hs : ∀ request, event = .request request → client.Sends request) (haf : this.step plugin event = .ok after) :
    after.Orderly client plugin := by
  have hc : { this with actions := [], ended := [] }.Orderly client plugin :=
    ⟨h.tidy.same rfl rfl rfl rfl (forall_mem_nil _), h.queued, h.running⟩
  cases event with
  | request request =>
    cases haf
    have hr : { this with actions := [], ended := [] }.InOrder (.request request) := by
      rcases request with _ | _ | _ | (_ | state) | _ | _
      case publishVolume.some => exact hio
      all_goals exact trivial
    exact hc.request (hs request rfl) hr
  | start =>
    cases haf
    exact hc.start
  | advance outcome => exact hc.advance outcome haf
  | restart =>
    cases haf
    exact hc.recover hio

omit h

/-- **A volume is unstaged, detached, deleted or forgotten only if nothing is left behind that must be undone before**, if it
is not tracked anew and the agent is not restarted while a volume is being unstaged that was never staged for sure. -/
theorem order_kept (client : Client) (plugin : Plugin) (bootId : BootId) (events : List Event)
    (hclient : ∀ request, Event.request request ∈ events → client.Sends request)
    (hevents : Fallible.Meets (World.step plugin) InOrder { bootId } events) {this : World}
    (hrun : events.foldlM (World.step plugin) { bootId } = .ok this) : ∀ entry ∈ this.actions, entry.1.Safe entry.2 := by
  have hempty : World.Orderly client plugin { bootId } :=
    ⟨⟨rfl, fun _ => rfl, nofun, nofun, nofun, nofun, forall_mem_nil _⟩, nofun, nofun⟩
  have hmeets := hevents.and_forall (Q := fun event => ∀ request, event = .request request → client.Sends request)
    (fun event hmem request heq => hclient request (heq ▸ hmem))
  have horderly := hmeets.invariant (I := World.Orderly client plugin)
    (fun _ _ _ h hevent hafter => h.step hevent.1 hevent.2 hafter) hempty hrun
  exact horderly.tidy.actions

/-- A volume is published, found published after a restart, and unpublished once a failed call has been made again. -/
theorem order_kept_unpublished :
    let plugin : Plugin := ⟨false, true, false, true, false⟩
    let events := [.request (.publishVolume (some createVolumeState)), .start] ++ replicate 6 (.advance .ok) ++
      [.restart 1 .ok, .start, .advance .ok, .request .unpublishVolume, .start, .advance .ok, .advance .ok, .advance .failed,
        .request .unpublishVolume, .start] ++ replicate 5 (.advance .ok)
    ∃ this, events.foldlM (World.step plugin) { bootId := 1 } = .ok this ∧ this.actions = [(.removeMountPath, ({} : Node))] ∧
      ∀ entry ∈ this.actions, entry.1.Safe entry.2 := by
  intro plugin events
  exact ⟨_, rfl, rfl, order_kept .csiServer plugin 1 events (by simp [events, Client.Sends]) (by decide) rfl⟩

/-- A container has a volume published that another one uses, and staging it fails.  Then the volume is unstaged while it is
published. -/
theorem published_unstaged : ¬ ∀ (client : Client) (plugin : Plugin) (bootId : BootId) (events : List Event),
    (∀ request, Event.request request ∈ events → client.Sends request) →
    ∀ this, events.foldlM (World.step plugin) { bootId } = .ok this → ∀ entry ∈ this.actions, entry.1.Safe entry.2 := by
  intro h
  have hsafe := h .csiServer ⟨false, true, false, true, false⟩ 1
    ([.request (.publishVolume (some createVolumeState)), .start] ++ replicate 6 (.advance .ok) ++
      [.request (.publishVolume (some createVolumeState)), .start, .advance .ok, .advance .ok, .advance .failed,
        .request .unpublishVolume, .start, .advance .ok])
    (by simp [Client.Sends]) _ rfl (.call .nodeUnstageVolume, { staged := true, published := true }) mem_cons_self
  exact nomatch hsafe

end World

end Clusterd.Csi
