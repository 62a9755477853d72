import Clusterd.LogEvidence
import Clusterd.LogProposers
/-!
# Every step keeps what stands behind it

The evidence of `LogEvidence` as an invariant: each process keeps its own part (`CoordinatorOk.output`,
`FillOk.promiseHeard`, `FillOk.writeHeard`) and each replica its records (`ReplicaOk`), whatever the events.  `Sound` is
all of it, for the whole cluster.
-/
namespace Clusterd.Log

namespace Cluster

open WriteUnderway Replica Proc Coordinator Finset.Subset Finset
variable {ρ : Type}

section

variable (cfg : Config ρ) (w : Cluster ρ)

def backing (c : Nat) (p : Proc ρ Client) : Backing where
  campaign := w.Campaign c p.call p.answered
  won := w.Won cfg c
  writing := w.WriteUnderway (.coordinator c) p.call p.answered

def CoordinatorOk (c : Nat) (p : Proc ρ Client) : Prop :=
  p.machine.Holds (w.backing cfg c p)

def FillOk (f : Nat) (p : Proc ρ Fill) : Prop :=
  match p.machine.phase with
  | .promising s =>
    s.proposal = p.machine.proposal ∧ s.position = p.machine.position ∧ w.Survey f p.call p.answered s
  | .writing a s => w.WriteUnderway (.fill f) p.call p.answered a s
  | .retrying | .filled _ | .stopped => True

def MayWrite (request : WriteRequest) : Source ρ → Prop
  | .coordinator _ => True
  | .fill f => w.Surveyed cfg f request.proposal request.position request.value
  | .recovery _ => False

def OutputOk (source : Source ρ) : Option Output → Prop
  | some (.write request) => request.learned = false ∧ request.value ≠ .nop true ∧ w.MayWrite cfg request source
  | some (.learned a) => a.learned = true ∧ w.Warranted cfg a
  | _ => True

end

variable {c : Nat} {w w' : Cluster ρ} {cfg : Config ρ} {p : Proc ρ Client}

theorem CoordinatorOk.mono (hg : Grows w w') (h : w.CoordinatorOk cfg c p) : w'.CoordinatorOk cfg c p :=
  Holds.mono h (fun _ _ hw => hw.mono hg) (fun _ hs => Campaign.mono hg (Subset.refl _) hs)
    (fun _ _ hs => WriteUnderway.mono hg (Subset.refl _) hs) id

variable {f : Nat} {A : Finset ρ}

theorem FillOk.mono (hg : Grows w w') {p : Proc ρ Fill}
    (hA : p.answered ⊆ A) (h : w.FillOk f p) : w'.FillOk f { p with answered := A } := by
  unfold FillOk at h ⊢
  simp only
  split at h
  · exact ⟨h.1, h.2.1, h.2.2.mono hg hA⟩
  · exact WriteUnderway.mono hg hA h
  · trivial
  · trivial
  · trivial

variable {v : Value}

theorem writtenValue_plain (h : v ≠ .nop true) : writtenValue v = v := by
  cases v with
  | nop t =>
    cases t with
    | false => rfl
    | true => exact absurd rfl h
  | append | truncate => rfl

variable {id : Nat} {a : Action}

theorem fillOk_runWritePhase {m : Fill} {p : Proc ρ Fill}
    (hv : a.value = some v) (hpl : v ≠ .nop true) (hl : a.learned = false)
    (hc : w'.requests[id]? = some (.fill f, .write (writeRequest m.proposal a v))) :
    w'.FillOk f (p.advance (m.runWritePhase a v).1 (m.runWritePhase a v).2 id) := by
  have hw : (writeRequest m.proposal a v).value = v := writtenValue_plain hpl
  exact ⟨hc, by rw [hv, hw], rfl, hl, by rw [hw]; exact hpl, fun _ => Tally.zero _ _⟩

theorem Warranted.reproposed (h : w.Warranted cfg a) (n : Nat) :
    w.Warranted cfg (a.reproposed n) := ⟨h.learned, h.unlearned⟩

variable {call n : Nat}

section
variable {p : Nat} (h : w.requests[call]? = some (.fill f, .promise { proposal := n, position := some p }))
include h

theorem survey_start : w.Survey f call ∅ { proposal := n, position := p } :=
  ⟨h, fun _ => Tally.zero _ _, nofun⟩

theorem fillOk_start : w.FillOk f { machine := (Fill.start n p).1, call := call } := ⟨rfl, rfl, survey_start h⟩

end

/-! ## Replicas -/

structure ReplicaOk (cfg : Config ρ) (w : Cluster ρ) (r : Replica) : Prop where
  wf : r.Wf
  records : ∀ a ∈ r.storage.actions, w.Warranted cfg a
  beginning : r.beginning = 0 ∨ w.Bounded cfg r.beginning

variable {r : Replica}

theorem ReplicaOk.mono (hg : Grows w w') (h : w.ReplicaOk cfg r) : w'.ReplicaOk cfg r :=
  ⟨h.wf, fun a ha => (h.records a ha).mono hg, h.beginning.imp id (fun hb => hb.mono hg)⟩

section
variable (h : w.ReplicaOk cfg r)
include h

theorem ReplicaOk.persist (ha : w.Warranted cfg a) : w.ReplicaOk cfg (r.persist a) := by
  refine ⟨h.wf.persist a, fun b hb => ?_, ?_⟩
  · rcases Replica.LevelDb.mem_persist h.wf.storage hb with rfl | ⟨hb, -⟩
    · exact ha
    · exact h.records b hb
  rw [persist_beginning]
  rcases le_total r.beginning a.truncatesTo with hle | hle
  · rw [max_eq_right hle]
    exact ha.truncatesTo
  · rw [max_eq_left hle]
    exact h.beginning

theorem ReplicaOk.update (status : Status) :
    w.ReplicaOk cfg (r.update status) := ⟨h.wf.update status, h.records, h.beginning⟩

theorem ReplicaOk.restore : w.ReplicaOk cfg (restore r.storage) := by
  refine ⟨wf_restore h.wf.storage.ascending, h.records, ?_⟩
  rcases restore_beginning_spec r.storage with h0 | ⟨a, ha, hta⟩
  · exact .inl h0
  · rw [← hta]
    exact (h.records a ha).truncatesTo

theorem ReplicaOk.learned (ha : w.Warranted cfg a) : w.ReplicaOk cfg (r.learned a) := by
  unfold Replica.learned
  split
  · exact h.persist ha
  · exact h

theorem ReplicaOk.promise (request : PromiseRequest) : w.ReplicaOk cfg (r.promise request).1 ∧
      ∀ reply, (r.promise request).2 = some reply → reply.type ≠ none ∧ ∀ a, reply.action = some a → w.Warranted cfg a := by
  have ho := h.wf.promise request
  generalize (r.promise request).1 = r' at ho ⊢
  generalize (r.promise request).2 = reply at ho ⊢
  cases ho with
  | truncated p =>
    refine ⟨h, fun reply hr => ?_⟩
    cases hr
    refine ⟨nofun, fun a ha => ?_⟩
    cases ha
    refine ⟨fun _ => .inl ⟨rfl, ?_⟩, nofun⟩
    rcases h.beginning with h0 | ⟨n, q, t, hc, hb⟩
    · omega
    · exact ⟨n, q, t, hc, show p + 1 ≤ t by omega⟩
  | grantedFresh =>
    refine ⟨h.persist ⟨nofun, nofun⟩, fun reply hr => ?_⟩
    cases hr
    exact ⟨nofun, nofun⟩
  | granted _ a _ _ _ hrec =>
    have ha := h.records a (h.wf.mem_of_record.1 hrec).1
    refine ⟨h.persist ⟨ha.learned, ha.unlearned⟩, fun reply hr => ?_⟩
    cases hr
    refine ⟨nofun, fun _ hb => ?_⟩
    cases hb
    exact ha
  | grantedImplicit =>
    refine ⟨⟨h.wf.updatePromised _, h.records, h.beginning⟩, fun reply hr => ?_⟩
    cases hr
    exact ⟨nofun, nofun⟩
  | _ =>
    refine ⟨h, fun _ hr => ?_⟩
    cases hr
    exact ⟨nofun, nofun⟩

theorem ReplicaOk.write (hl : request.learned = false) (hv : request.value ≠ .nop true) :
    w.ReplicaOk cfg (r.write request).1 ∧ ∀ reply, (r.write request).2 = some reply → reply.type ≠ none := by
  have hnew : ∀ n, w.Warranted cfg (written request n) := fun _ =>
    ⟨fun h => absurd (hl.symm.trans h) (by simp), fun _ he =>
      hv (by rw [← writtenValue_plain hv]; exact Option.some.inj he)⟩
  have ho := h.wf.write request
  generalize (r.write request).1 = r' at ho ⊢
  generalize (r.write request).2 = reply at ho ⊢
  cases ho with
  | acceptedFresh | accepted =>
    refine ⟨h.persist (hnew _), fun reply hr => ?_⟩
    cases hr
    exact nofun
  | _ =>
    refine ⟨h, fun _ hr => ?_⟩
    cases hr
    try exact nofun

end

theorem replicaOk_fresh (cfg : Config ρ) (w : Cluster ρ) : w.ReplicaOk cfg fresh :=
  ⟨wf_fresh, fun _ ha => absurd ha List.not_mem_nil, .inl rfl⟩

variable {y : Response ρ} {request : WriteRequest}

/-! ## The invariant -/

theorem Heard.mono (hg : Grows w w') (h : w.Heard y) : w'.Heard y := by
  obtain ⟨source, hs⟩ := h.request
  exact ⟨hg.response h.mem, ⟨source, hg.request hs⟩, h.typed⟩

variable {source : Source ρ}

theorem MayWrite.mono (hg : Grows w w') (h : w.MayWrite cfg request source) : w'.MayWrite cfg request source := by
  cases source with
  | coordinator => trivial
  | fill => exact Surveyed.mono hg h
  | recovery => exact h

variable {out : Option Output}

theorem OutputOk.mono (hg : Grows w w') (h : w.OutputOk cfg source out) : w'.OutputOk cfg source out := by
  unfold OutputOk at h ⊢
  split at h
  · exact ⟨h.1, h.2.1, h.2.2.mono hg⟩
  · exact ⟨h.1, h.2.mono hg⟩
  · trivial

/-- **Something stands behind everything in the cluster.** -/
structure Sound (cfg : Config ρ) (w : Cluster ρ) : Prop where
  replicas : ∀ R, w.ReplicaOk cfg (w.replicas R)
  responses : ∀ y ∈ w.responses, w.Heard y ∧ ∀ n p a, y.answer.granted = some (n, p, some a) → w.Warranted cfg a
  requests : ∀ source request, (source, .write request) ∈ w.requests →
    w.OutputOk cfg source (some (.write request))
  learned : ∀ a ∈ w.learned, a.learned = true ∧ w.Warranted cfg a
  coordinators : ∀ c, w.CoordinatorOk cfg c (w.coordinators c)
  fills : ∀ f p, w.fills[f]? = some p → w.FillOk f p

theorem Sound.granted (h : w.Sound cfg) : ∀ i R n p a, w.Granted i R n p (some a) → w.Warranted cfg a := by
  rintro i R n p a ⟨y, hy, -, -, hgr⟩
  exact (h.responses y hy).2 n p a hgr

theorem mem_respond {R : ρ} {a : Option Answer} (h : y ∈ (w.respond id R a).responses) :
    y ∈ w.responses ∨ ∃ b, a = some b ∧ y = { id := id, replica := R, answer := b } := by
  rcases List.mem_append.1 h with h | h
  · exact .inl h
  · cases a with
    | none => exact nomatch h
    | some b => exact .inr ⟨b, rfl, List.mem_singleton.1 h⟩

/-! ## Coordinators and fills -/

variable [DecidableEq ρ]

def Carries (w : Cluster ρ) (p : Proc ρ Client) (A : Finset ρ) : Coordinator.Input → Prop
  | .promiseResponse r => ∃ y request, w.Heard y ∧ p.call = y.id ∧ y.replica ∉ p.answered ∧
      y.answer = .promise request r ∧ A = insert y.replica p.answered
  | .writeResponse r => ∃ y request, w.Heard y ∧ p.call = y.id ∧ y.replica ∉ p.answered ∧
      y.answer = .write request r ∧ A = insert y.replica p.answered
  | _ => A = p.answered

variable {x : Input} {next : Fill × Option Output}

theorem Carries.subset (h : w.Carries p A x) : p.answered ⊆ A := by
  unfold Carries at h
  split at h
  · obtain ⟨y, request, -, -, -, -, rfl⟩ := h
    exact subset_insert _ _
  · obtain ⟨_, _, -, -, -, -, rfl⟩ := h
    exact subset_insert _ _
  · rw [h]

theorem carries_of_local (h : x.isResponse = false) : w.Carries p p.answered x := by
  unfold Carries
  split
  · cases h
  · cases h
  · rfl

theorem value?_plain (h : x.value? = some v) : v ≠ .nop true ∧ writtenValue v = v := by
  unfold Input.value? at h
  split at h
  · cases h
    exact ⟨nofun, rfl⟩
  · cases h
    exact ⟨nofun, rfl⟩
  · cases h

theorem backing_next (hx : w.Carries p A x) (hg : Grows w w') (k : Client)
    (hca : ∀ q, out.bind Output.asRequest = some q → w'.requests[id]? = some (.coordinator c, q))
    (hr : x.isResponse = true → out.bind Output.asRequest = none) :
    (w.backing cfg c p).Next cfg.quorum p.machine.coordinator x out
      (w'.backing cfg c (advance { p with answered := A } k out id)) := by
  have hk : out.bind Output.asRequest = none →
      w'.backing cfg c (advance { p with answered := A } k out id) = w'.backing cfg c { p with answered := A } := by
    intro h
    rw [advance_of_none h]
    rfl
  have hsub := hx.subset
  refine ⟨fun n e hw => Won.mono hg hw, fun ho s hs => ?_, fun ho a s hs => ?_, fun _ ho => ?_,
    fun r s s' _ hxr hp hs => ?_, fun r s _ _ _ hxr hp ht he hs => ?_, fun v hv ho => ?_,
    fun _ _ _ _ hxr hp hs => ?_⟩
  · rw [hk (by rw [ho]; rfl)]
    exact Campaign.mono hg hsub hs
  · rw [hk (by rw [ho]; rfl)]
    exact mono hg hsub hs
  · subst ho
    exact ⟨hca _ rfl, fun _ => Tally.zero _ _⟩
  · subst hxr
    obtain ⟨y, request, hy, hid, hR, ha, rfl⟩ := hx
    obtain ⟨hc, hpr⟩ := Campaign.pending hs hy hid ha hR hp
    rw [hk (hr rfl)]
    exact ⟨hc.mono hg (Subset.refl _), hpr⟩
  · subst hxr
    obtain ⟨y, request, hy, hid, hR, ha, rfl⟩ := hx
    exact (Campaign.won hs hy hid ha hR hp ht he).mono hg
  · subst ho
    obtain ⟨hpl, hwv⟩ := value?_plain hv
    have hval : (writeRequest p.machine.coordinator.proposal (p.machine.coordinator.action v) v).value = v := hwv
    exact ⟨hca _ rfl, congrArg some hval.symm, rfl, rfl, by rw [hval]; exact hpl, fun _ => Tally.zero _ _⟩
  · subst hxr
    obtain ⟨_, _, hy, hid, hR, ha, rfl⟩ := hx
    rw [hk (hr rfl)]
    exact (pending hs hy hid ha hR hp).mono hg (Subset.refl _)

theorem CoordinatorOk.output {k : Coordinator} (h : w.CoordinatorOk cfg c p)
    (ho : Outcome cfg.quorum p.machine.coordinator x k out) (hx : w.Carries p A x) (hg : Grows w w') :
    w'.OutputOk cfg (.coordinator c) out ∧ (x.isResponse = true → out.bind Output.asRequest = none) := by
  unfold CoordinatorOk Client.Holds Holds at h
  cases ho with
  | campaigns _ _ hxn =>
    subst hxn
    exact ⟨trivial, nofun⟩
  | catching _ _ out _ hout =>
    cases out with
    | none => exact ⟨trivial, fun _ => rfl⟩
    | some o =>
      obtain ⟨_, _, rfl⟩ := hout o rfl
      exact ⟨trivial, fun _ => rfl⟩
  | writes v _ hv =>
    obtain ⟨hpl, hwv⟩ := value?_plain hv
    refine ⟨⟨rfl, ?_, trivial⟩, fun hf => ?_⟩
    · rw [show (writeRequest _ _ v).value = v from hwv]
      exact hpl
    cases x with
    | promiseResponse | writeResponse => cases hv
    | _ => cases hf
  | written _ _ _ _ hs hxr ht hok' =>
    rw [hs] at h
    obtain ⟨⟨_, _, hwr⟩, -⟩ := h
    subst hxr
    obtain ⟨_, _, hy, hid, hR, ha, rfl⟩ := hx
    exact ⟨⟨rfl, (hwr.warranted (hwr.chosen hy hid ha hR ht hok')).mono hg⟩, fun _ => rfl⟩
  | _ => exact ⟨trivial, fun _ => rfl⟩

/-- **A fill keeps what stands behind it when it hears a promise**, and so does what it sends out. -/
theorem FillOk.promiseHeard {p : Proc ρ Fill}
    {request : PromiseRequest} {r : PromiseResponse} (h : w.FillOk f p) (hy : w.Heard y) (hid : p.call = y.id)
    (hR : y.replica ∉ p.answered) (ha : y.answer = .promise request r)
    (hgr : ∀ i R n q a, w.Granted i R n q (some a) → w.Warranted cfg a) (hg : Grows w w')
    (ho : Fill.PromiseOutcome cfg.quorum p.machine r next.1 next.2)
    (hc : ∀ q, next.2.bind Output.asRequest = some q → w'.requests[id]? = some (.fill f, q)) :
    w'.FillOk f ((p.mark y.replica).advance next.1 next.2 id) ∧ w'.OutputOk cfg (.fill f) next.2 := by
  have hok := h
  obtain ⟨_, _⟩ := next
  unfold FillOk at h
  cases ho with
  | idle =>
    exact ⟨hok.mono hg (subset_insert _ _), trivial⟩
  | pending _ _ hs ht =>
    rw [hs] at h
    obtain ⟨hpr, hpos, hsur⟩ := h
    obtain ⟨hsur', hpr', hpos'⟩ := hsur.pending hy hid ha hR ht
    exact ⟨⟨hpr'.trans hpr, hpos'.trans hpos, hsur'.mono hg (Subset.refl _)⟩, trivial⟩
  | stopped | retrying =>
    exact ⟨trivial, trivial⟩
  | relayed _ _ a _ hs ht hok' hact _ _ hl =>
    rw [hs] at h
    refine ⟨trivial, hl, ?_⟩
    rcases h.2.2.surveyed hy hid ha hR ht hok' with ⟨a', ha', -, hg'⟩ | ⟨-, hf⟩
    · rw [hact] at ha'
      cases ha'
      exact ((hgr _ _ _ _ _ hg').reproposed _).mono hg
    · obtain ⟨R, -, hul, -⟩ := hf a hact
      rw [hl] at hul
      cases hul
  | rewritten _ _ a v hs ht hok' hact hv hpos hl =>
    rw [hs] at h
    obtain ⟨hpr, hpos', hsur⟩ := h
    rcases hsur.surveyed hy hid ha hR ht hok' with ⟨a', ha', hl', -⟩ | ⟨hq, hf⟩
    · rw [hact] at ha'
      cases ha'
      rw [hl] at hl'
      cases hl'
    obtain ⟨_, hgra, -, -⟩ := hf a hact
    have hpl : v ≠ .nop true := fun he => (hgr _ _ _ _ _ hgra).unlearned hl (he ▸ hv)
    have hw : (writeRequest p.machine.proposal (a.reproposed p.machine.proposal) v).value = v := writtenValue_plain hpl
    have hv' : (a.reproposed p.machine.proposal).value = some v := hv
    refine ⟨fillOk_runWritePhase hv' hpl hl (hc _ rfl), rfl, by rw [hw]; exact hpl, ?_⟩
    unfold MayWrite
    rw [hw]
    refine Surveyed.mono hg ⟨p.call, some a, ?_, ?_, nofun, fun _ hb => ?_⟩
    · have hask := hsur.asked
      unfold ExplicitPromise.request at hask
      rw [hpr, hpos', ← hpos] at hask
      exact hask
    · rw [← hact]
      rw [hpr, hpos', ← hpos] at hq
      exact hq
    · cases hb
      have hfa := hf a hact
      rw [hpr, hpos', ← hpos] at hfa
      exact ⟨hv, hfa⟩
  | fresh _ _ hs ht hok' hact =>
    rw [hs] at h
    obtain ⟨hpr, hpos', hsur⟩ := h
    rcases hsur.surveyed hy hid ha hR ht hok' with ⟨_, ha', -, -⟩ | ⟨hq, -⟩
    · rw [hact] at ha'
      cases ha'
    refine ⟨fillOk_runWritePhase rfl nofun rfl (hc _ rfl), rfl, nofun, ?_⟩
    refine Surveyed.mono hg ⟨p.call, none, ?_, ?_, fun _ => rfl, nofun⟩
    · have hask := hsur.asked
      unfold ExplicitPromise.request at hask
      rw [hpr, hpos'] at hask
      exact hask
    · rw [← hact]
      rw [hpr, hpos'] at hq
      exact hq

theorem FillOk.writeHeard (cfg : Config ρ) {p : Proc ρ Fill} {r : WriteResponse} (h : w.FillOk f p) (hy : w.Heard y) (hid : p.call = y.id)
    (hR : y.replica ∉ p.answered) (ha : y.answer = .write request r) (hg : Grows w w')
    (ho : Fill.WriteOutcome cfg.quorum p.machine r next.1 next.2) (id : Nat) :
    w'.FillOk f ((p.mark y.replica).advance next.1 next.2 id) ∧ w'.OutputOk cfg (.fill f) next.2 := by
  have hok := h
  obtain ⟨_, _⟩ := next
  unfold FillOk at h
  cases ho with
  | idle =>
    exact ⟨hok.mono hg (subset_insert _ _), trivial⟩
  | pending _ _ _ hs ht =>
    rw [hs] at h
    exact ⟨(pending h hy hid ha hR ht).mono hg (Subset.refl _), trivial⟩
  | stopped | retrying =>
    exact ⟨trivial, trivial⟩
  | written _ _ _ hs ht hok' =>
    rw [hs] at h
    exact ⟨trivial, rfl, (warranted h (chosen h hy hid ha hR ht hok')).mono hg⟩

end Cluster

/-!
# Something stands behind everything, in every run

Every event keeps `Sound` (`Sound.step`): in particular no replica moves its beginning further than a truncation that a quorum
has accepted.
-/

namespace Cluster

open Function
variable {ρ : Type} {w w' : Cluster ρ} {cfg : Config ρ} {source : Source ρ}

theorem Sound.send (h : w.Sound cfg) {out : Option Output}
    (hreq : w'.requests = w.requests) (hre : w'.responses = w.responses) (hl : w'.learned = w.learned)
    (hr : ∀ R, w.ReplicaOk cfg (w'.replicas R)) (hc : ∀ c, (w'.send source out).CoordinatorOk cfg c (w'.coordinators c))
    (hf : ∀ f p, w'.fills[f]? = some p → (w'.send source out).FillOk f p)
    (hout : (w'.send source out).OutputOk cfg source out) : (w'.send source out).Sound cfg := by
  have hg : Grows w (w'.send source out) := grows_send hreq hre hl source out
  refine ⟨fun R => ?_, fun y hy => ?_, fun source' request hm => ?_, fun a ha => ?_, fun c => ?_, fun f p hp => ?_⟩
  · rw [send_replicas]
    exact (hr R).mono hg
  · rw [send_responses, hre] at hy
    exact ⟨(h.responses y hy).1.mono hg, fun n p a ha => ((h.responses y hy).2 n p a ha).mono hg⟩
  · rw [send_requests, hreq] at hm
    rcases List.mem_append.1 hm with hm | hm
    · exact (h.requests source' request hm).mono hg
    · obtain ⟨rfl, rfl⟩ := sent_write hm
      exact hout
  · rw [send_learned, hl] at ha
    rcases List.mem_append.1 ha with ha | ha
    · exact ⟨(h.learned a ha).1, (h.learned a ha).2.mono hg⟩
    unfold announced at ha
    split at ha
    · obtain rfl := List.mem_singleton.1 ha
      exact hout
    · exact nomatch ha
  · rw [send_coordinators]
    exact hc c
  rw [send_fills] at hp
  rcases lt_or_ge f w'.fills.length with hlt | hge
  · rw [List.getElem?_append_left hlt] at hp
    exact hf f p hp
  rw [List.getElem?_append_right hge] at hp
  unfold spawned at hp
  split at hp
  next n q =>
    obtain ⟨hlen, rfl⟩ := List.getElem?_eq_some_iff.1 hp
    have hfl : f = w'.fills.length := by simp at hlen; omega
    subst hfl
    simp only [Nat.sub_self, List.getElem_cons_zero]
    refine fillOk_start ?_
    rw [send_requests, List.getElem?_append_right (Nat.le_refl _), Nat.sub_self]
    rfl
  · simp at hp

theorem Sound.stepFill (h : w.Sound cfg) {f : Nat} {p : Proc ρ Fill} {next : Fill × Option Output}
    (hok : (w.stepFill f p next).FillOk f (p.advance next.1 next.2 w.requests.length))
    (hout : (w.stepFill f p next).OutputOk cfg (.fill f) next.2) : (w.stepFill f p next).Sound cfg := by
  have hg := grows_stepFill w f p next
  refine h.send rfl rfl rfl h.replicas (fun d => ?_) (fun g q hq => ?_) hout
  · exact (h.coordinators d).mono hg
  simp only [List.getElem?_set] at hq
  by_cases hgf : f = g
  · subst hgf
    rw [if_pos rfl] at hq
    split at hq
    · cases hq
      exact hok
    · cases hq
  · rw [if_neg hgf] at hq
    exact (h.fills g q hq).mono hg (refl _)

theorem sound_start (cfg : Config ρ) (voting : ρ → Bool) : (start voting).Sound cfg := by
  refine ⟨fun _ => ?_, fun _ hy => absurd hy List.not_mem_nil, fun _ _ hm => absurd hm List.not_mem_nil,
    fun _ ha => absurd ha List.not_mem_nil, fun _ => trivial, nofun⟩
  unfold start
  simp only
  split
  · exact (replicaOk_fresh cfg _).update .voting
  · exact replicaOk_fresh cfg _

variable [DecidableEq ρ] (size : Nat)

theorem Sound.replica (h : w.Sound cfg) (hg : Grows w w') {R : ρ} {r : Replica}
    (hr : w'.replicas = update w.replicas R r) (hok : w'.ReplicaOk cfg r)
    (hc : w'.coordinators = w.coordinators) (hf : w'.fills = w.fills) (hreq : w'.requests = w.requests)
    (hl : w'.learned = w.learned) (hre : ∀ y ∈ w'.responses, y ∈ w.responses ∨
      w'.Heard y ∧ ∀ n p a, y.answer.granted = some (n, p, some a) → w'.Warranted cfg a) : w'.Sound cfg := by
  refine ⟨fun S => ?_, fun y hy => ?_, fun source request hm => ?_, fun a ha => ?_, fun c => ?_, fun f p hp => ?_⟩
  · rw [hr]
    by_cases hS : S = R
    · subst hS
      rw [update_self]
      exact hok
    · rw [update_of_ne hS]
      exact (h.replicas S).mono hg
  · rcases hre y hy with hy | hy
    · exact ⟨(h.responses y hy).1.mono hg, fun n p a ha => ((h.responses y hy).2 n p a ha).mono hg⟩
    · exact hy
  · rw [hreq] at hm
    exact (h.requests source request hm).mono hg
  · rw [hl] at ha
    exact ⟨(h.learned a ha).1, (h.learned a ha).2.mono hg⟩
  · rw [hc]
    exact (h.coordinators c).mono hg
  · rw [hf] at hp
    exact (h.fills f p hp).mono hg (refl _)

theorem Sound.stepCoordinator (h : w.Sound cfg) {c : Nat} {A : Finset ρ}
    {x : Coordinator.Input} (hx : w.Carries (w.coordinators c) A x) :
    (w.stepCoordinator cfg c { w.coordinators c with answered := A } x).Sound cfg := by
  have hg := grows_stepCoordinator cfg w c { w.coordinators c with answered := A } x
  have hc : ∀ q, ((w.coordinators c).machine.step cfg.quorum x).2.bind Output.asRequest = some q →
      (w.stepCoordinator cfg c { w.coordinators c with answered := A } x).requests[w.requests.length]? =
        some (.coordinator c, q) := fun _ hq => sent_call _ _ hq
  obtain ⟨hout, hr⟩ := (h.coordinators c).output (Coordinator.step_outcome cfg.quorum _ x) hx hg
  have hs := Client.Holds.step (h.coordinators c)
    (fun _ => backing_next hx hg ((w.coordinators c).machine.step cfg.quorum x).1 hc hr)
  refine h.send rfl rfl rfl h.replicas (fun d => ?_) (fun f p hp => ?_) hout
  · by_cases hd : d = c
    · subst hd
      simp only [update_self]
      unfold CoordinatorOk
      rw [Proc.advance_machine]
      exact hs
    · simp only [update_of_ne hd]
      exact (h.coordinators d).mono hg
  · exact (h.fills f p hp).mono hg (refl _)

theorem recover_output (status : Status) : ∀ o, (RecoverState.recover size status).output = some o → o = .recover := by
  intro _ ho
  unfold RecoverState.recover at ho
  split at ho
  · cases ho
  · cases ho
    rfl

theorem finish_output (result : Option RecoverResponse) :
    ∀ o, (RecoverState.finish size result).output = some o → o = .recover := by
  intro o ho
  unfold RecoverState.finish at ho
  split at ho
  · cases ho
  split at ho
  · exact recover_output size .starting o ho
  · cases ho
  · split at ho <;> cases ho
  · cases ho

theorem stepRecovery_output (quorum size : Nat) (autoInitialize : Bool) (s : RecoverState) (x : RecoverState.Input) :
    ∀ o, (s.step quorum size autoInitialize x).output = some o → o = .recover ∨ ∃ n p, o = .fill n p := by
  intro o ho
  cases x with
  | status status =>
    cases s with
    | start => exact .inl (recover_output size status o ho)
    | _ => cases ho
  | response =>
    cases s with
    | protocol =>
      simp only [RecoverState.step] at ho
      split at ho
      · cases ho
      · exact .inl (finish_output size _ o ho)
      · cases ho
    | _ => cases ho
  | timedout =>
    cases s with
    | protocol =>
      cases ho
      exact .inl rfl
    | _ => cases ho
  | checked missing f =>
    cases s with
    | catchingUp _ _ u =>
      simp only [RecoverState.step] at ho
      split at ho
      · cases ho
      · exact .inr (Coordinator.catchup_checked_output u missing f o ho)
    | _ => cases ho
  | filled =>
    cases s with
    | catchingUp =>
      simp only [RecoverState.step] at ho
      split at ho <;> cases ho
    | _ => cases ho

variable {id : Nat}

theorem Sound.promise (h : w.Sound cfg) (R : ρ)
    {request : PromiseRequest} (hreq : w.requests[id]? = some (source, .promise request)) :
    ((w.setReplica R ((w.replicas R).promise request).1).respond id R
      (((w.replicas R).promise request).2.map (.promise request))).Sound cfg := by
  have hg := grows_respond w R ((w.replicas R).promise request).1 id
    (((w.replicas R).promise request).2.map (.promise request))
  obtain ⟨hok, hre⟩ := (h.replicas R).promise request
  refine h.replica hg rfl (hok.mono hg) rfl rfl rfl rfl (fun _ hy => ?_)
  rcases mem_respond hy with hold | ⟨b, hb, rfl⟩
  · exact .inl hold
  obtain ⟨reply, hr, rfl⟩ := Option.map_eq_some_iff.1 hb
  obtain ⟨ht, hwar⟩ := hre reply hr
  refine .inr ⟨⟨hy, ⟨source, hg.request hreq⟩, ht⟩, fun _ _ a ha => ?_⟩
  unfold Answer.granted at ha
  simp only at ha
  split at ha
  · obtain ⟨_, -, he⟩ := Option.map_eq_some_iff.1 ha
    simp only [Prod.mk.injEq] at he
    exact (hwar a he.2.2).mono hg
  · cases ha

theorem Sound.write (h : w.Sound cfg) (R : ρ)
    {request : WriteRequest} (hreq : w.requests[id]? = some (source, .write request)) :
    ((w.setReplica R ((w.replicas R).write request).1).respond id R
      (((w.replicas R).write request).2.map (.write request))).Sound cfg := by
  have hg := grows_respond w R ((w.replicas R).write request).1 id
    (((w.replicas R).write request).2.map (.write request))
  obtain ⟨hl, hv, -⟩ := h.requests source request (List.mem_of_getElem? hreq)
  obtain ⟨hok, hre⟩ := (h.replicas R).write hl hv
  refine h.replica hg rfl (hok.mono hg) rfl rfl rfl rfl (fun _ hy => ?_)
  rcases mem_respond hy with hold | ⟨b, hb, rfl⟩
  · exact .inl hold
  · obtain ⟨reply, hr, rfl⟩ := Option.map_eq_some_iff.1 hb
    exact .inr ⟨⟨hy, ⟨source, hg.request hreq⟩, hre reply hr⟩, nofun⟩

variable [Fintype ρ]

theorem Sound.stepRecovery (h : w.Sound cfg) (R : ρ) (p : Proc ρ RecoverState)
    (x : RecoverState.Input) : (w.stepRecovery cfg R p x).Sound cfg := by
  have hg := grows_stepRecovery cfg w R p x
  have hout : ∀ w' : Cluster ρ, w'.OutputOk cfg (.recovery R)
      (p.machine.step cfg.quorum (Fintype.card ρ) cfg.autoInitialize x).output := by
    intro w'
    have ho := stepRecovery_output cfg.quorum (Fintype.card ρ) cfg.autoInitialize p.machine x
    cases hst : (p.machine.step cfg.quorum (Fintype.card ρ) cfg.autoInitialize x).output with
    | none => trivial
    | some o =>
      rcases ho o hst with rfl | ⟨n, q, rfl⟩
      · trivial
      · trivial
  unfold Cluster.stepRecovery at hg ⊢
  simp only at hg ⊢
  have hc : ∀ {w'}, Grows w w' → ∀ c, w'.CoordinatorOk cfg c (w.coordinators c) :=
    fun hg c => (h.coordinators c).mono hg
  have hf : ∀ {w'}, Grows w w' → ∀ f q, w.fills[f]? = some q → w'.FillOk f q :=
    fun hg f q hq => (h.fills f q hq).mono hg (refl _)
  split at hg
  · refine h.send rfl rfl rfl (fun S => ?_) (hc hg) (hf hg) (hout _)
    by_cases hS : S = R
    · subst hS
      simp only [setReplica, update_self]
      exact (h.replicas S).update _
    · simp only [setReplica, update_of_ne hS]
      exact h.replicas S
  · exact h.send rfl rfl rfl h.replicas (hc hg) (hf hg) (hout _)

/-- **Every event keeps something behind everything.** -/
theorem Sound.step (h : w.Sound cfg) (e : Event ρ) : (w.step cfg e).Sound cfg := by
  have hc := step_change cfg w e
  have hg := hc.grows
  generalize w.step cfg e = w' at hc hg ⊢
  cases hc with
  | none => exact h
  | promise _ R _ _ hreq => exact h.promise R hreq
  | write _ R _ _ hreq => exact h.write R hreq
  | recover _ R source hreq =>
    refine h.replica hg (update_eq_self R w.replicas).symm ((h.replicas R).mono hg) rfl rfl rfl rfl (fun y hy => ?_)
    rcases mem_respond hy with hold | ⟨b, hb, rfl⟩
    · exact .inl hold
    · cases hb
      exact .inr ⟨⟨hy, ⟨source, hreq⟩, trivial⟩, nofun⟩
  | learn _ R a ha =>
    exact h.replica hg rfl (((h.replicas R).learned (h.learned a (List.mem_of_getElem? ha)).2).mono hg) rfl rfl rfl rfl
      (fun y hy => .inl hy)
  | restart R =>
    exact h.replica hg rfl ((h.replicas R).restore.mono hg) rfl rfl rfl rfl (fun y hy => .inl hy)
  | lose => exact h.replica hg rfl (replicaOk_fresh cfg _) rfl rfl rfl rfl (fun y hy => .inl hy)
  | spawn n p =>
    rw [show w.spawn n p = w.send (.fill 0) (some (.fill n p)) from rfl] at hg ⊢
    exact h.send rfl rfl rfl h.replicas (fun c => (h.coordinators c).mono hg)
      (fun f q hq => (h.fills f q hq).mono hg (refl _)) trivial
  | coordinator _ _ _ hx => exact h.stepCoordinator (carries_of_local hx)
  | promiseHeard k c y request r q hy hreq hid hR ha | writeHeard k c y request r q hy hreq hid hR ha =>
    exact h.stepCoordinator ⟨y, request, (h.responses y hy).1, hid, hR, ha, rfl⟩
  | fillPromiseHeard _ f p y _ r hp hy hid hR ha =>
    obtain ⟨hok, hout⟩ := (h.fills f p hp).promiseHeard (h.responses y hy).1 hid hR ha h.granted hg
      (Fill.promiseReceived_outcome cfg.quorum p.machine r) (fun _ hq => sent_call _ _ hq)
    exact h.stepFill hok hout
  | fillWriteHeard _ f p y _ r hp hy hid hR ha =>
    obtain ⟨hok, hout⟩ := (h.fills f p hp).writeHeard cfg (h.responses y hy).1 hid hR ha hg
      (Fill.writeReceived_outcome cfg.quorum p.machine r) w.requests.length
    exact h.stepFill hok hout
  | fillRetries =>
    refine h.stepFill ?_ trivial
    exact ⟨rfl, rfl, survey_start (sent_call _ _ rfl)⟩
  | fillStops =>
    refine h.stepFill ?_ trivial
    trivial
  | recovery _ R x => exact h.stepRecovery R _ x
  | recoverHeard _ R => exact h.stepRecovery R _ _

theorem Sound.run : ∀ (es : List (Event ρ)) {w : Cluster ρ}, w.Sound cfg → (w.run cfg es).Sound cfg
  | [], _, h => h
  | e :: es, _, h => Sound.run es (h.step e)

/-- **No replica forgets a position that no quorum truncated**: its beginning is at most the target of a truncation
that a quorum has accepted, in every run, whichever way it learned of it. -/
theorem beginning_le_chosen_target (cfg : Config ρ) (voting : ρ → Bool) (es : List (Event ρ)) (R : ρ) :
    let w := (start voting).run cfg es
    (w.replicas R).beginning = 0 ∨ ∃ n p target, w.Chosen cfg n p (.truncate target) ∧ (w.replicas R).beginning ≤ target :=
  ((sound_start cfg voting).run es).replicas R |>.beginning

/-- **What a replica tells of a position**, in every run: what is read from `beginning` on is its record, it is missing if it
is not truncated and not learned, and what it learned was chosen, unless a truncation beyond the position was. -/
theorem replica_tells (cfg : Config ρ) (voting : ρ → Bool) (es : List (Event ρ)) (R : ρ) (p : Nat) :
    let w := (start voting).run cfg es
    let r := w.replicas R
    r.read p = (if p < r.beginning then .error "Attempted to read truncated position" else .ok (r.record p)) ∧
    (r.missing p = true ↔ r.beginning ≤ p ∧ ∀ a, r.record p = some a → a.learned = false) ∧
    ∀ a, r.record p = some a → a.learned = true → a.value = some (.nop true) ∧ w.Bounded cfg (p + 1) ∨
      ∃ n v, a.value = some v ∧ w.Chosen cfg n p v := by
  have hr := ((sound_start cfg voting).run es).replicas R
  refine ⟨hr.wf.read p, hr.wf.missing p, fun a ha hl => ?_⟩
  obtain ⟨hm, rfl⟩ := hr.wf.mem_of_record.1 ha
  exact ((hr.records a hm).learned hl).imp_right fun ⟨n, v, hv, _, hc⟩ => ⟨n, v, hv, hc⟩

end Cluster

end Clusterd.Log
