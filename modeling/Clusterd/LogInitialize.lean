import Clusterd.LogElection
/-!
# Initializing a log, and rejoining one

With auto-initialization an empty replica may become a voter through `STARTING`, once every replica is found empty or starting.
A replica that has accepted a write and keeps its state votes for good and says so in every later round (`Standing`), so one
that loses its state after a value was chosen is never found among starting ones only: it votes again only out of `RECOVERING`,
when its catch-up is complete.
-/
namespace Clusterd.Log

open RecoverState List Fintype
open Function (update update_self update_of_ne)

/-! ## What a recover process does -/
namespace RecoverProtocol

def counted (s : RecoverProtocol) (response : RecoverResponse) (status : Status) : Nat :=
  Function.update s.responsesReceived response.status (s.responsesReceived response.status + 1) status

section

variable (quorum : Nat) (s : RecoverProtocol) (response : RecoverResponse)

inductive Outcome :
    Received RecoverProtocol (Option RecoverResponse) → Prop
  | pending (s' : RecoverProtocol) : s'.status = s.status → s'.responsesReceived = s.counted response →
      Outcome (.pending s')
  | again : Outcome (.set none)
  | starting : s.status = .empty → 2 * quorum - 1 ≤ s.counted response .empty + s.counted response .starting →
      Outcome (.set (some { status := .starting }))
  | voting : s.status = .starting → Outcome (.set (some { status := .voting }))
  | recovering (lowest highest : Nat) :
      Outcome (.set (some { status := .recovering, beginning := some lowest, ending := some highest }))
  | abort : Outcome .abort

end

theorem check_outcome (quorum : Nat) (autoInitialize : Bool) {s s' : RecoverProtocol} {response : RecoverResponse}
    (hs : s'.status = s.status) (hc : s'.responsesReceived = s.counted response) :
    Outcome quorum s response (s'.check quorum autoInitialize) := by
  unfold check
  split
  · split
    · split
      · exact .recovering _ _
      · exact .abort
    · exact .abort
  split
  next status hi =>
    cases autoInitialize with
    | false => cases hi
    | true =>
      simp only [if_true, initialized] at hi
      split at hi
      · split at hi
        · cases hi
          rename_i hst hle
          rw [hc] at hle
          exact .starting (hs.symm.trans hst) hle
        · cases hi
      · split at hi
        · cases hi
          rename_i hst _
          exact .voting (hs.symm.trans hst)
        · cases hi
      · cases hi
  · split
    · exact .again
    · exact .pending s' hs hc

/-- **Every response leads to one of the outcomes.** -/
theorem received_outcome (quorum : Nat) (autoInitialize : Bool) (s : RecoverProtocol) (response : RecoverResponse) :
    Outcome quorum s response (s.received quorum autoInitialize response) := by
  unfold received
  split
  · split
    · exact check_outcome quorum autoInitialize rfl rfl
    · exact .abort
  · exact check_outcome quorum autoInitialize rfl rfl

end RecoverProtocol

namespace RecoverState

def Tracks (s : RecoverState) (status : Status) : Prop :=
  match s with
  | .protocol round => round.status = status ∧ status ≠ .voting
  | .catchingUp .. => status = .recovering
  | _ => True

def Done : RecoverState → Prop
  | .catchingUp _ _ u => u.positions = []
  | _ => False

/-- The positions of the catch-up that are not left are truncated or learned. -/
def Covered (s : RecoverState) (r : Replica) : Prop :=
  ∀ first last u, s = .catchingUp first last u → ∀ p, first ≤ p → p ≤ last → p ∈ u.positions ∨ r.missing p = false

/-- The catch-up is complete: each of its positions is truncated or has a learned record. -/
def CaughtUp (s : RecoverState) (r : Replica) : Prop :=
  ∃ first last u, s = .catchingUp first last u ∧
    ∀ p, first ≤ p → p ≤ last → p < r.beginning ∨ ∃ a, r.record p = some a ∧ a.learned = true

theorem Covered.caughtUp {s : RecoverState} {r : Replica} (h : s.Covered r) (hr : r.Wf) (hd : s.Done) : s.CaughtUp r := by
  cases s with
  | catchingUp first last u =>
    refine ⟨first, last, u, rfl, fun p hf hl => ?_⟩
    have hp : r.missing p = false := by
      refine (h first last u rfl p hf hl).resolve_left fun hmem => ?_
      rw [show u.positions = [] from hd] at hmem
      exact nomatch hmem
    by_contra hno
    rw [not_or, not_exists] at hno
    have := (hr.missing p).2 ⟨Nat.le_of_not_lt hno.1, fun a ha => Bool.eq_false_iff.2 fun hl => hno.2 a ⟨ha, hl⟩⟩
    rw [hp] at this
    cases this
  | _ => exact hd.elim

theorem tracks_recover (size : Nat) (status : Status) : (recover size status).state.Tracks status := by
  unfold recover
  split
  · trivial
  · exact ⟨rfl, ‹_›⟩

variable {autoInitialize : Bool} {x : Input} {quorum size : Nat} {s : RecoverState} {status : Status}

theorem Tracks.step (h : s.Tracks status) (hx : ∀ t, x = .status t → t = status) :
    (s.step quorum size autoInitialize x).state.Tracks
      ((s.step quorum size autoInitialize x).update.getD status) := by
  cases x with
  | status t =>
    obtain rfl := hx t rfl
    cases s with
    | start =>
      have ht := tracks_recover size t
      simp only [step]
      unfold recover at ht ⊢
      split
      · trivial
      next hv =>
        rw [if_neg hv] at ht
        exact ht
    | _ => exact h
  | response response =>
    cases s with
    | protocol round =>
      have ho := round.received_outcome quorum autoInitialize response
      simp only [step]
      generalize round.received quorum autoInitialize response = out at ho
      cases ho with
      | pending _ hs => exact ⟨hs.trans h.1, h.2⟩
      | again => trivial
      | starting => exact tracks_recover size .starting
      | voting => trivial
      | recovering => rfl
      | abort => trivial
    | _ => exact h
  | timedout =>
    cases s with
    | protocol | catchingUp => exact h
    | _ => trivial
  | checked =>
    cases s with
    | catchingUp =>
      simp only [step]
      split
      · trivial
      · exact h
    | _ => exact h
  | filled =>
    cases s with
    | catchingUp =>
      simp only [step]
      split
      · exact h
      · trivial
    | _ => exact h

/-- **The process of a voting replica changes nothing.** -/
theorem Tracks.update_voting (h : s.Tracks .voting) (hx : ∀ t, x = .status t → t = .voting) : (s.step quorum size autoInitialize x).update = none := by
  cases s with
  | protocol => exact absurd rfl h.2
  | catchingUp => cases h
  | start =>
    cases x with
    | status t =>
      obtain rfl := hx t rfl
      rfl
    | _ => rfl
  | recovered | failed => cases x <;> rfl

/-- **What makes a replica vote, or start.** -/
theorem update_spec (h : (s.step quorum size autoInitialize x).update = some status) : (status = .voting ∧ s.Done) ∨
    (∃ round response, s = .protocol round ∧ x = .response response ∧
      ((status = .voting ∧ round.status = .starting) ∨ status = .recovering ∨
        (status = .starting ∧ round.status = .empty ∧
          2 * quorum - 1 ≤ round.counted response .empty + round.counted response .starting))) := by
  cases x with
  | status =>
    cases s with
    | start =>
      simp only [step, recover] at h
      split at h <;> cases h
    | _ => cases h
  | response response =>
    cases s with
    | protocol round =>
      refine .inr ⟨round, response, rfl, rfl, ?_⟩
      have ho := round.received_outcome quorum autoInitialize response
      simp only [step] at h
      generalize round.received quorum autoInitialize response = out at ho h
      cases ho with
      | pending | again => cases h
      | starting hs hle =>
        cases h
        exact .inr (.inr ⟨rfl, hs, hle⟩)
      | voting hs =>
        cases h
        exact .inl ⟨rfl, hs⟩
      | recovering =>
        cases h
        exact .inr (.inl rfl)
      | abort => cases h
    | _ => cases h
  | timedout => cases s <;> cases h
  | checked =>
    cases s with
    | catchingUp =>
      simp only [step] at h
      split at h
      · cases h
        exact .inl ⟨rfl, ‹_›⟩
      · cases h
    | _ => cases h
  | filled =>
    cases s with
    | catchingUp =>
      simp only [step] at h
      split at h <;> cases h
    | _ => cases h

theorem Covered.mono {r r' : Replica} (h : s.Covered r) (hm : ∀ p, r.missing p = false → r'.missing p = false) :
    s.Covered r' :=
  fun first last u hu p hf hl => (h first last u hu p hf hl).imp_right (hm p)

/-- **A catch-up starts with all of its positions, and drops one only when the replica does not miss it.** -/
theorem Covered.step {r : Replica} (h : s.Covered r) (hx : (∃ response, x = .response response) ∨ x.Tells s r) :
    (s.step quorum size autoInitialize x).state.Covered r := by
  cases x with
  | status status =>
    cases s with
    | start =>
      simp only [RecoverState.step, recover]
      split
      · rintro _ _ _ ⟨⟩
      · rintro _ _ _ ⟨⟩
    | _ => exact h
  | response response =>
    cases s with
    | protocol round =>
      have ho := round.received_outcome quorum autoInitialize response
      simp only [RecoverState.step]
      generalize round.received quorum autoInitialize response = out at ho
      cases ho with
      | recovering lowest highest =>
        rintro _ _ _ ⟨⟩ p hf hl
        exact .inl (mem_range'_1.2 ⟨hf, by omega⟩)
      | starting =>
        simp only [finish, recover]
        split
        · rintro _ _ _ ⟨⟩
        · rintro _ _ _ ⟨⟩
      | pending | again | voting | abort => rintro _ _ _ ⟨⟩
    | _ => exact h
  | timedout =>
    cases s with
    | protocol => rintro _ _ _ ⟨⟩
    | catchingUp first last u =>
      rintro _ _ _ ⟨⟩
      exact h first last u rfl
    | _ => exact h
  | checked missing f =>
    cases s with
    | catchingUp first last u =>
      have hmissing : missing = u.currentMissing r := hx.resolve_left (by rintro ⟨_, ⟨⟩⟩) u rfl
      simp only [RecoverState.step]
      split
      · rintro _ _ _ ⟨⟩
      rintro _ _ _ ⟨⟩ p hf hl
      unfold CatchUp.checked
      split
      next q rest _ hq =>
        split
        · exact h first last u rfl p hf hl
        next hm =>
          have hq' : r.missing q = false := by
            unfold CatchUp.currentMissing at hmissing
            rw [hq] at hmissing
            exact hmissing.symm.trans (Bool.eq_false_iff.2 hm)
          rcases h first last u rfl p hf hl with hmem | hp
          · rw [hq] at hmem
            rcases mem_cons.1 hmem with rfl | hmem
            · exact .inr hq'
            · exact .inl hmem
          · exact .inr hp
      · exact h first last u rfl p hf hl
    | _ => exact h
  | filled a =>
    cases s with
    | catchingUp first last u =>
      simp only [RecoverState.step]
      split
      next u' hu =>
        unfold CatchUp.filled at hu
        split at hu
        · cases hu
        · cases hu
          rintro _ _ _ ⟨⟩
          exact h first last u rfl
      · rintro _ _ _ ⟨⟩
    | _ => exact h

theorem protocol_spec {round' : RecoverProtocol} (h : (s.step quorum size autoInitialize x).state = .protocol round') :
    ((s.step quorum size autoInitialize x).output = some .recover ∧ ∀ status, round'.responsesReceived status = 0) ∨
    ((s.step quorum size autoInitialize x).output = none ∧ ∃ round, s = .protocol round ∧
      (round' = round ∨ ∃ response, x = .response response ∧ round'.responsesReceived = round.counted response)) := by
  have hr : ∀ {status}, (recover size status).state = .protocol round' →
      (recover size status).output = some .recover ∧ ∀ status, round'.responsesReceived status = 0 := by
    intro status h
    unfold recover at h ⊢
    split at h
    · cases h
    · cases h
      rw [if_neg ‹_›]
      exact ⟨rfl, fun _ => rfl⟩
  cases x with
  | status =>
    cases s with
    | start => exact .inl (hr h)
    | protocol =>
      cases h
      exact .inr ⟨rfl, _, rfl, .inl rfl⟩
    | _ => cases h
  | response response =>
    cases s with
    | protocol round =>
      have ho := round.received_outcome quorum autoInitialize response
      simp only [step] at h ⊢
      generalize round.received quorum autoInitialize response = out at ho h ⊢
      cases ho with
      | pending _ _ hc =>
        cases h
        exact .inr ⟨rfl, round, rfl, .inr ⟨response, rfl, hc⟩⟩
      | starting => exact .inl (hr h)
      | _ => cases h
    | _ => cases h
  | timedout =>
    cases s with
    | protocol =>
      cases h
      exact .inl ⟨rfl, fun _ => rfl⟩
    | _ => cases h
  | checked | filled =>
    cases s with
    | protocol =>
      cases h
      exact .inr ⟨rfl, _, rfl, .inl rfl⟩
    | catchingUp =>
      simp only [step] at h
      split at h <;> cases h
    | _ => cases h

end RecoverState

/-! ## The recover processes in the cluster -/
namespace Replica

theorem fresh_status : fresh.status = .empty := rfl

variable {r : Replica}

theorem restore_status (h : r.Wf) : (restore r.storage).status = r.status :=
  congrArg Metadata.status ((restore_metadata r.storage).trans h.header)

theorem promise_status (h : r.Wf) (request : PromiseRequest) : (r.promise request).1.status = r.status := by
  have ho := h.promise request
  generalize (r.promise request).1 = r' at ho ⊢
  generalize (r.promise request).2 = reply at ho
  cases ho <;> rfl

theorem write_status (h : r.Wf) (request : WriteRequest) : (r.write request).1.status = r.status := by
  have ho := h.write request
  generalize (r.write request).1 = r' at ho ⊢
  generalize (r.write request).2 = reply at ho
  cases ho <;> rfl

theorem learned_status (r : Replica) (a : Action) : (r.learned a).status = r.status := by
  unfold learned
  split <;> rfl

/-- **What a replica learns takes no position away.** -/
theorem learned_missing (h : r.Wf) (a : Action) {p : Nat} (hp : r.missing p = false) : (r.learned a).missing p = false := by
  unfold learned
  split
  next ha =>
    by_contra hm
    obtain ⟨hb, hno⟩ := ((h.persist a).missing p).1 (Bool.not_eq_false _ ▸ hm)
    rw [h.record_persist a p hb] at hno
    split at hno
    · exact absurd ha (Bool.eq_false_iff.1 (hno a rfl))
    · rw [persist_beginning] at hb
      have := (h.missing p).2 ⟨(le_max_left _ _).trans hb, hno⟩
      rw [hp] at this
      cases this
  · exact hp

end Replica

namespace Cluster
variable {ρ : Type} [DecidableEq ρ] {w : Cluster ρ} {S : ρ}

theorem status_setReplica {r : Replica} (h : r.status = (w.replicas S).status) (R : ρ) :
    ((w.setReplica S r).replicas R).status = (w.replicas R).status := by
  show (update w.replicas S r R).status = _
  by_cases hR : R = S
  · subst hR
    rw [update_self, h]
  · rw [update_of_ne hR]

variable [Fintype ρ]

def recoverStep (cfg : Config ρ) (w : Cluster ρ) (R : ρ) (x : RecoverState.Input) : RecoverStep :=
  (w.recoveries R).machine.step cfg.quorum (Fintype.card ρ) cfg.autoInitialize x

inductive Recovers (cfg : Config ρ) (w : Cluster ρ) (e : Event ρ) (R : ρ) : Proc ρ RecoverState → Status → Prop
  | stays : Recovers cfg w e R (w.recoveries R) (w.replicas R).status
  | restarts : Recovers cfg w e R { machine := .start } (w.replicas R).status
  | loses : e = .lose R → Recovers cfg w e R { machine := .start } .empty
  | steps (A : Finset ρ) (x : RecoverState.Input) : (∀ s, x = .status s → s = (w.replicas R).status) →
      ((∀ r, x ≠ .response r) ∧ A = (w.recoveries R).answered ∨
        ∃ y ∈ w.responses, ∃ r, x = .response r ∧ y.answer = .recover r ∧ (w.recoveries R).call = y.id ∧
          y.replica ∉ (w.recoveries R).answered ∧ A = insert y.replica (w.recoveries R).answered) →
      Recovers cfg w e R
        (({ w.recoveries R with answered := A } : Proc ρ RecoverState).advance (w.recoverStep cfg R x).state
          (w.recoverStep cfg R x).output w.requests.length)
        ((w.recoverStep cfg R x).update.getD (w.replicas R).status)

section
variable (cfg : Config ρ) (w : Cluster ρ) (S : ρ) (p : Proc ρ RecoverState) (x : Input)

theorem recoveries_stepRecovery : (w.stepRecovery cfg S p x).recoveries = update w.recoveries S
      (p.advance (p.machine.step cfg.quorum (card ρ) cfg.autoInitialize x).state
        (p.machine.step cfg.quorum (card ρ) cfg.autoInitialize x).output w.requests.length) := by
  unfold stepRecovery
  simp only [send_recoveries]
  split <;> rfl

theorem status_stepRecovery (R : ρ) : ((w.stepRecovery cfg S p x).replicas R).status =
      if R = S then (p.machine.step cfg.quorum (card ρ) cfg.autoInitialize x).update.getD (w.replicas R).status
      else (w.replicas R).status := by
  unfold stepRecovery
  simp only [send_replicas]
  by_cases hR : R = S
  · subst hR
    rw [if_pos rfl]
    split
    next status hu =>
      rw [hu]
      simp [setReplica, Replica.update, Replica.status]
    next hu =>
      rw [hu]
      rfl
  · rw [if_neg hR]
    split
    · simp [setReplica, update_of_ne hR]
    · rfl

end

variable {cfg : Config ρ} {e : Event ρ}

/-- **An event is at most one step of each recover process.** -/
theorem Change.recovers {w' : Cluster ρ} (h : Change cfg w e w')
    (hwf : ∀ R, (w.replicas R).Wf) (R : ρ) : Recovers cfg w e R (w'.recoveries R) (w'.replicas R).status := by
  have hsa : ∀ {w'' : Cluster ρ}, w''.recoveries = w.recoveries →
      (w''.replicas R).status = (w.replicas R).status → Recovers cfg w e R (w''.recoveries R) (w''.replicas R).status := by
    intro w'' hrec hst
    rw [hrec, hst]
    exact .stays
  have hse : ∀ S A x, (∀ s, x = .status s → s = (w.replicas S).status) →
      ((∀ r, x ≠ .response r) ∧ A = (w.recoveries S).answered ∨
        ∃ y ∈ w.responses, ∃ r, x = .response r ∧ y.answer = .recover r ∧ (w.recoveries S).call = y.id ∧
          y.replica ∉ (w.recoveries S).answered ∧ A = insert y.replica (w.recoveries S).answered) →
      let w'' := w.stepRecovery cfg S { w.recoveries S with answered := A } x
      Recovers cfg w e R (w''.recoveries R) (w''.replicas R).status := by
    intro S A x hs hx
    simp only
    rw [recoveries_stepRecovery, status_stepRecovery]
    by_cases hRS : R = S
    · subst hRS
      rw [if_pos rfl, update_self]
      exact .steps A x hs hx
    · rw [if_neg hRS, update_of_ne hRS]
      exact .stays
  cases h with
  | none => exact .stays
  | promise _ S _ request => exact hsa rfl (status_setReplica (Replica.promise_status (hwf S) request) R)
  | write _ S _ request => exact hsa rfl (status_setReplica (Replica.write_status (hwf S) request) R)
  | recover => exact .stays
  | learn _ _ a => exact hsa rfl (status_setReplica (Replica.learned_status _ a) R)
  | restart S =>
    simp only
    rw [status_setReplica (Replica.restore_status (hwf S)) R]
    by_cases hR : R = S
    · subst hR
      rw [update_self]
      exact .restarts
    · rw [update_of_ne hR]
      exact .stays
  | lose S =>
    simp only [setReplica]
    by_cases hR : R = S
    · subst hR
      rw [update_self, update_self]
      exact .loses rfl
    · rw [update_of_ne hR, update_of_ne hR]
      exact .stays
  | spawn => exact .stays
  | coordinator | promiseHeard | writeHeard =>
    exact hsa (by simp [stepCoordinator]) (by simp [stepCoordinator])
  | fillPromiseHeard | fillWriteHeard | fillRetries | fillStops => exact hsa (by simp [stepFill]) (by simp [stepFill])
  | recovery _ S x hx =>
    refine hse S _ x (fun s hs => ?_) (.inl ⟨fun r hr => ?_, rfl⟩)
    · rw [hs] at hx
      exact hx
    · rw [hr] at hx
      exact hx
  | recoverHeard _ S y r hy hc hR ha =>
    exact hse S _ (.response r) (by simp) (.inr ⟨y, hy, r, rfl, ha, hc, hR, rfl⟩)

def Tracked (w : Cluster ρ) : Prop := ∀ R, (w.recoveries R).machine.Tracks (w.replicas R).status

def Covered (w : Cluster ρ) : Prop := ∀ R, (w.recoveries R).machine.Covered (w.replicas R)

theorem missing_stepRecovery (S R : ρ) (q : Proc ρ RecoverState) (x : RecoverState.Input) (p : Nat) :
    ((w.stepRecovery cfg S q x).replicas R).missing p = (w.replicas R).missing p := by
  unfold stepRecovery
  simp only [send_replicas]
  split
  · show (update w.replicas S _ R).missing p = _
    by_cases hR : R = S
    · subst hR
      rw [update_self]
      rfl
    · rw [update_of_ne hR]
  · rfl

/-- **A replica that catches up only learns**: it does not vote, so it ignores promise and write requests. -/
theorem Change.covered {w' : Cluster ρ} (h : Change cfg w e w') (hwf : ∀ R, (w.replicas R).Wf) (ht : w.Tracked)
    (hc : w.Covered) : w'.Covered := by
  intro R
  have hset : ∀ {w'' : Cluster ρ} {S : ρ} {r : Replica}, w''.recoveries = w.recoveries →
      w''.replicas = update w.replicas S r →
      ((w.replicas S).status = .recovering → ∀ p, (w.replicas S).missing p = false → r.missing p = false) →
      (w''.recoveries R).machine.Covered (w''.replicas R) := by
    intro w'' S r hrec hrep hm
    rw [hrec, hrep]
    by_cases hR : R = S
    · subst hR
      rw [update_self]
      intro first last u hu
      have hs := ht R
      rw [hu] at hs
      exact (hc R).mono (hm hs) first last u hu
    · rw [update_of_ne hR]
      exact hc R
  have hsame : ∀ {w'' : Cluster ρ}, w''.recoveries = w.recoveries → w''.replicas = w.replicas →
      (w''.recoveries R).machine.Covered (w''.replicas R) := by
    intro w'' hrec hrep
    rw [hrec, hrep]
    exact hc R
  have hstep : ∀ S A x, (∃ r, x = .response r) ∨ x.Tells (w.recoveries S).machine (w.replicas S) →
      let w'' := w.stepRecovery cfg S { w.recoveries S with answered := A } x
      (w''.recoveries R).machine.Covered (w''.replicas R) := by
    intro S A x hx
    refine Covered.mono (r := w.replicas R) ?_ fun p hp => (missing_stepRecovery S R _ x p).trans hp
    rw [recoveries_stepRecovery]
    by_cases hR : R = S
    · subst hR
      rw [update_self, Proc.advance_machine]
      exact (hc R).step hx
    · rw [update_of_ne hR]
      exact hc R
  have hquiet : ∀ {S}, (w.replicas S).status = .recovering → (w.replicas S).status ≠ .voting := by
    intro S hs
    rw [hs]
    decide
  cases h with
  | none | recover | spawn => exact hc R
  | promise _ S _ request =>
    refine hset rfl rfl fun hs p hp => ?_
    unfold Replica.promise
    rw [if_pos (hquiet hs)]
    exact hp
  | write _ S _ request =>
    refine hset rfl rfl fun hs p hp => ?_
    unfold Replica.write
    rw [if_pos (hquiet hs)]
    exact hp
  | learn _ S a => exact hset rfl rfl fun _ p hp => Replica.learned_missing (hwf S) a hp
  | restart S | lose S =>
    simp only [setReplica]
    by_cases hR : R = S
    · subst hR
      rw [update_self]
      rintro _ _ _ ⟨⟩
    · rw [update_of_ne hR, update_of_ne hR]
      exact hc R
  | coordinator | promiseHeard | writeHeard => exact hsame (by simp [stepCoordinator]) (by simp [stepCoordinator])
  | fillPromiseHeard | fillWriteHeard | fillRetries | fillStops => exact hsame (by simp [stepFill]) (by simp [stepFill])
  | recovery _ S x hx => exact hstep S _ x (.inr hx)
  | recoverHeard _ S y r => exact hstep S _ (.response r) (.inl ⟨r, rfl⟩)

variable {p : Proc ρ RecoverState} {status : Status} {R : ρ}

section
variable (h : Recovers cfg w e R p status) (ht : (w.recoveries R).machine.Tracks (w.replicas R).status)
include h ht

theorem Recovers.tracks : p.machine.Tracks status := by
  cases h with
  | stays => exact ht
  | restarts | loses => trivial
  | steps _ _ hs =>
    rw [Proc.advance_machine]
    exact ht.step hs

/-- **A voter stays one as long as it keeps its state.** -/
theorem Recovers.voting (he : e ≠ .lose R) (hv : (w.replicas R).status = .voting) : status = .voting := by
  cases h with
  | stays | restarts => exact hv
  | loses hl => exact absurd hl he
  | steps _ x hs =>
    rw [hv] at ht hs
    rw [show (w.recoverStep cfg R x).update = none from ht.update_voting hs]
    exact hv

end

/-! ## A replica that stands -/
structure Standing (cfg : Config ρ) (S : ρ) (w : Cluster ρ) : Prop where
  sound : w.Sound cfg
  tracked : w.Tracked
  covered : w.Covered
  voter : ∀ n p v, w.Accepted S n p v → (w.replicas S).status = .voting

theorem Standing.recovers (h : w.Standing cfg S) (e : Event ρ) (R : ρ) :
    Recovers cfg w e R ((w.step cfg e).recoveries R) ((w.step cfg e).replicas R).status :=
  (step_change cfg w e).recovers (fun R => (h.sound.replicas R).wf) R

theorem Standing.step (h : w.Standing cfg S) (he : e ≠ .lose S) : (w.step cfg e).Standing cfg S := by
  refine ⟨h.sound.step e, fun R => (h.recovers e R).tracks (h.tracked R),
    (step_change cfg w e).covered (fun R => (h.sound.replicas R).wf) h.tracked h.covered, fun n p v ha => ?_⟩
  refine (h.recovers e S).voting (h.tracked S) he ?_
  obtain ⟨x, hx, hacc⟩ := accepted_iff.1 ha
  rcases (step_change cfg w e).life S with hl | ⟨d, -, hl⟩
  · rw [hl] at hx
    exact h.voter n p v (accepted_iff.2 ⟨x, hx, hacc⟩)
  rw [hl] at hx
  rcases Life.accepted_step (h.sound.replicas S).wf hx hacc with hx | ⟨_, _, _, hv, _⟩
  · exact h.voter n p v (accepted_iff.2 ⟨x, hx, hacc⟩)
  · exact hv

omit [DecidableEq ρ] [Fintype ρ] in
theorem standing_start (cfg : Config ρ) (S : ρ) (voting : ρ → Bool) : (start voting).Standing cfg S :=
  ⟨sound_start cfg voting, fun _ => trivial, fun _ => nofun, fun _ _ _ ⟨_, hy, _⟩ => nomatch hy⟩

structure Outvoted (S R : ρ) (N : Nat) (w : Cluster ρ) : Prop where
  voting : (w.replicas S).status = .voting
  requests : N ≤ w.requests.length
  answers : ∀ y ∈ w.responses, y.replica = S → N ≤ y.id → ∀ r, y.answer = .recover r → r.status = .voting
  status : (w.replicas R).status ≠ .starting
  round : ∀ round, (w.recoveries R).machine = .protocol round → N ≤ (w.recoveries R).call ∧
    Tally (w.recoveries R).answered (round.responsesReceived .empty + round.responsesReceived .starting) (· ≠ S)

omit [DecidableEq ρ] in
theorem not_tally_ne {A : Finset ρ} {n : Nat} (hn : card ρ ≤ n) : ¬Tally A n (· ≠ S) := by
  rintro ⟨T, -, _, hne⟩
  have hlt : T.card < card ρ := Finset.card_lt_univ_of_notMem (fun hS : S ∈ T => hne S hS rfl)
  omega

omit [Fintype ρ] in
theorem Outvoted.counted {N : Nat} {w : Cluster ρ} (h : w.Outvoted S R N) {round : RecoverProtocol}
    (hr : (w.recoveries R).machine = .protocol round) {y : Response ρ} (hy : y ∈ w.responses)
    (hc : (w.recoveries R).call = y.id) (hR : y.replica ∉ (w.recoveries R).answered) {r : RecoverResponse}
    (ha : y.answer = .recover r) :
    Tally (insert y.replica (w.recoveries R).answered) (round.counted r .empty + round.counted r .starting) (· ≠ S) := by
  obtain ⟨hN, ht⟩ := h.round round hr
  have hv : y.replica = S → r.status = .voting := fun hS => h.answers y hy hS (hc ▸ hN) r ha
  have hsub := ht.mono (Finset.subset_insert y.replica _) (fun _ => id)
  have hone : y.replica ≠ S → Tally (insert y.replica (w.recoveries R).answered)
      (round.responsesReceived .empty + round.responsesReceived .starting + 1) (· ≠ S) := fun hS => ht.insert hR hS
  unfold RecoverProtocol.counted
  cases hs : r.status with
  | voting | recovering => simpa [update] using hsub
  | starting | empty =>
    have := hone (fun hS => by rw [hv hS] at hs; cases hs)
    simpa [update, add_assoc, add_comm, add_left_comm] using this

variable {N : Nat} {es : List (Event ρ)}

/-- **Beside a voter, no replica starts.** -/
theorem Outvoted.step (hcr : card ρ = 2 * cfg.quorum - 1)
    (h : w.Outvoted S R N) (hs : w.Standing cfg S) (he : e ≠ .lose S) : (w.step cfg e).Outvoted S R N := by
  have hch := step_change cfg w e
  have hrec := hs.recovers e R
  refine ⟨(hs.recovers e S).voting (hs.tracked S) he h.voting, ?_, fun y hy hS hN r ha => ?_, ?_, ?_⟩
  · obtain ⟨_, hl⟩ := hch.grows.requests
    rw [hl, length_append]
    exact Nat.le_add_right_of_le h.requests
  · have hmem : (y.id, y.answer) ∈ ((w.step cfg e).life S).answers := mem_life.2 (hS ▸ hy)
    have hold : (y.id, y.answer) ∈ (w.life S).answers → r.status = .voting :=
      fun hx => h.answers _ (mem_life.1 hx) rfl hN r ha
    rcases hch.life S with hl | ⟨d, -, hl⟩
    · rw [hl] at hmem
      exact hold hmem
    rw [hl] at hmem
    rcases Life.mem_step hmem with hx | ⟨_, _, _, _, _, hx⟩ | ⟨_, _, _, _, _, hx⟩ | ⟨_, _, hx⟩
    · exact hold hx
    · rw [ha] at hx
      cases hx
    · rw [ha] at hx
      cases hx
    rw [ha] at hx
    cases hx
    show (w.replicas S).recover.status = .voting
    unfold Replica.recover
    rw [if_pos h.voting]
    exact h.voting
  · generalize (w.step cfg e).recoveries R = p at hrec
    generalize ((w.step cfg e).replicas R).status = status at hrec
    cases hrec with
    | stays | restarts => exact h.status
    | loses => exact nofun
    | steps _ x _ hh =>
      cases hu : (w.recoverStep cfg R x).update with
      | none => exact h.status
      | some =>
        rintro rfl
        rcases update_spec hu with ⟨hv, -⟩ | ⟨round, response, hr, rfl, hca⟩
        · cases hv
        rcases hca with ⟨hv, -⟩ | hv | ⟨-, -, hle⟩
        · cases hv
        · cases hv
        rcases hh with ⟨hno, -⟩ | ⟨y, hy, r, hxr, ha, hcl, hR, -⟩
        · exact hno _ rfl
        · cases hxr
          exact not_tally_ne (hcr ▸ hle) (h.counted hr hy hcl hR ha)
  · generalize (w.step cfg e).recoveries R = p at hrec
    generalize ((w.step cfg e).replicas R).status = status at hrec
    cases hrec with
    | stays => exact h.round
    | restarts | loses => exact nofun
    | steps _ x _ hh =>
      intro _ hr'
      rw [Proc.advance_machine] at hr'
      rcases protocol_spec hr' with ⟨hout, hz⟩ | ⟨hout, round, hr, hca⟩
      · rw [show (w.recoverStep cfg R x).output = some .recover from hout, hz, hz]
        exact ⟨h.requests, Tally.zero _ _⟩
      rw [show (w.recoverStep cfg R x).output = none from hout]
      obtain ⟨hN, ht⟩ := h.round round hr
      refine ⟨hN, ?_⟩
      rcases hca with rfl | ⟨response, rfl, hc⟩
      · rcases hh with ⟨-, rfl⟩ | ⟨y, -, r, -, -, -, -, rfl⟩
        · exact ht
        · exact ht.mono (Finset.subset_insert _ _) (fun _ => id)
      · rcases hh with ⟨hno, -⟩ | ⟨_, hy, _, hxr, ha, hcl, hR, rfl⟩
        · exact absurd rfl (hno _)
        · cases hxr
          rw [hc]
          exact h.counted hr hy hcl hR ha

/-- **A replica beside a voter votes only when its catch-up is complete.** -/
theorem Outvoted.caughtUp (h : w.Outvoted S R N) (hs : w.Standing cfg S) (hv : (w.replicas R).status ≠ .voting)
    (hv' : ((w.step cfg e).replicas R).status = .voting) :
    (w.replicas R).status = .recovering ∧ (w.recoveries R).machine.CaughtUp (w.replicas R) := by
  have hrec := hs.recovers e R
  rw [hv'] at hrec
  generalize (w.step cfg e).recoveries R = p at hrec
  generalize hst : Status.voting = status at hrec
  cases hrec with
  | stays | restarts => exact absurd hst.symm hv
  | loses => cases hst
  | steps _ x =>
    have ht := hs.tracked R
    cases hu : (w.recoverStep cfg R x).update with
    | none =>
      rw [hu] at hst
      exact absurd hst.symm hv
    | some status =>
      rw [hu] at hst
      cases hst
      rcases update_spec hu with ⟨-, hd⟩ | ⟨_, _, hr, -, hca⟩
      · have hc := (hs.covered R).caughtUp (hs.sound.replicas R).wf hd
        refine ⟨?_, hc⟩
        obtain ⟨_, _, _, hm, -⟩ := hc
        rw [hm] at ht
        exact ht
      · rcases hca with ⟨-, hro⟩ | hf | ⟨hf, -⟩
        · rw [hr] at ht
          exact absurd (ht.1.symm.trans hro) h.status
        · cases hf
        · cases hf

omit [Fintype ρ] in
def losers (es : List (Event ρ)) : Finset ρ :=
  (es.filterMap fun
    | .lose R => some R
    | _ => none).toFinset

omit [Fintype ρ] in
theorem ne_lose_of_notMem_losers (h : S ∉ losers es) : ∀ e ∈ es, e ≠ .lose S := by
  rintro e he rfl
  exact h (mem_toFinset.2 (mem_filterMap.2 ⟨_, he, rfl⟩))

theorem Standing.run (h : w.Standing cfg S) (he : ∀ e ∈ es, e ≠ .lose S) : (w.run cfg es).Standing cfg S :=
  Run.Along.invariant (I := fun w : Cluster ρ => w.Standing cfg S) (P := fun _ e => e ≠ .lose S) (fun _ _ hw he => hw.step he) es h
    (Run.along_of_forall he)

/-- **A replica that lost its state after a value was chosen votes again only out of `RECOVERING`**, with every position of its
catch-up truncated or learned, and is never `STARTING`: whatever else happens, and in whatever order responses arrive, as long as fewer than a
quorum of the replicas lose their state. -/
theorem readmitted_only_by_recovering (cfg : Config ρ) (hcard : Fintype.card ρ = 2 * cfg.quorum - 1) (voting : ρ → Bool)
    (pre post : List (Event ρ)) (R : ρ) (hl : (losers (pre ++ .lose R :: post)).card < cfg.quorum) (n p : Nat) (v : Value)
    (hc : ((start voting).run cfg pre).Chosen cfg n p v) (e : Event ρ) :
    let w := (start voting).run cfg (pre ++ .lose R :: post)
    (w.replicas R).status ≠ .starting ∧
      ((w.replicas R).status ≠ .voting → ((w.step cfg e).replicas R).status = .voting →
        (w.replicas R).status = .recovering ∧ (w.recoveries R).machine.CaughtUp (w.replicas R)) := by
  obtain ⟨_, hQ, hacc⟩ := hc
  obtain ⟨S, hS, hnot⟩ := Finset.exists_mem_notMem_of_card_lt_card (hl.trans_le hQ)
  have hkeeps := ne_lose_of_notMem_losers hnot
  have hpre : ((start voting).run cfg pre).Standing cfg S :=
    (standing_start cfg S voting).run (fun e he => hkeeps e (List.mem_append_left _ he))
  have hvoting := hpre.voter n p v (hacc S hS)
  have hloses : Event.lose R ≠ .lose S := hkeeps _ (List.mem_append_right _ List.mem_cons_self)
  have hRS : S ≠ R := fun h => hloses (h ▸ rfl)
  have hpost : ∀ e ∈ post, e ≠ .lose S :=
    fun e he => hkeeps e (List.mem_append_right _ (List.mem_cons_of_mem _ he))
  generalize hw : (start voting).run cfg pre = w at hpre hvoting
  have hlost : (w.step cfg (.lose R)).Outvoted S R w.requests.length := by
    refine ⟨?_, le_rfl, fun y hy _ _ => ?_, ?_, fun _ hr => ?_⟩
    · simpa [step, setReplica, Function.update_of_ne hRS] using hvoting
    · obtain ⟨_, hreq⟩ := (hpre.sound.responses y hy).1.request
      have := (List.getElem?_eq_some_iff.1 hreq).1
      omega
    · simp [step, setReplica, Replica.fresh_status]
    · simp [step] at hr
  have hrun := Run.Along.invariant (I := fun w' : Cluster ρ => w'.Standing cfg S ∧ w'.Outvoted S R w.requests.length)
    (P := fun _ e => e ≠ .lose S) (fun _ _ hw he => ⟨hw.1.step he, hw.2.step hcard hw.1 he⟩) post
    ⟨hpre.step hloses, hlost⟩ (Run.along_of_forall hpost)
  have hsplit : (start voting).run cfg (pre ++ .lose R :: post) = (w.step cfg (.lose R)).run cfg post := by
    rw [← hw]
    exact List.foldl_append
  rw [hsplit]
  exact ⟨hrun.2.status, fun hv hv' => hrun.2.caughtUp hrun.1 hv hv'⟩

def selfInitializing : Config (Fin 3) := { three with autoInitialize := true }

/-- Replica `1` has lost its state, finds replicas `0` and `2` voting and catches up the position `0`. -/
def catchingUp : List (Event (Fin 3)) :=
  [.recover 1, .deliver 3 0, .deliver 3 2, .receive 6, .receive 7, .check (.recovery 1), .deliver 4 0, .deliver 4 2,
   .receive 8, .receive 9, .retry 1, .deliver 5 0, .receive 10, .learn 1 1, .filled (.recovery 1), .check (.recovery 1)]

/-- The last check of the catch-up makes replica `1` vote. -/
theorem readmitted_only_by_recovering_one :
    (((start fun _ => true).run selfInitializing (firstElection ++ .lose 1 :: catchingUp)).replicas 1).status = .recovering ∧
    (((start fun _ => true).run selfInitializing (firstElection ++ .lose 1 :: catchingUp)).recoveries 1).machine.CaughtUp
      (((start fun _ => true).run selfInitializing (firstElection ++ .lose 1 :: catchingUp)).replicas 1) := by
  have hl : (losers (firstElection ++ .lose 1 :: catchingUp)).card < selfInitializing.quorum := by decide +kernel
  have hc : ((start fun _ => true).run selfInitializing firstElection).Chosen selfInitializing 2 0 (.nop false) := by
    decide +kernel
  apply (readmitted_only_by_recovering selfInitializing (by decide) (fun _ => true) firstElection catchingUp 1 hl 2 0
    (.nop false) hc (.check (.recovery 1))).2
  · decide +kernel
  · decide +kernel

/-- All replicas become `STARTING`, and replica `0` votes before the others do. -/
def firstVoter : List (Event (Fin 3)) :=
  [.recover 0, .recover 1, .recover 2, .deliver 0 0, .deliver 0 1, .deliver 0 2, .receive 0, .receive 1, .receive 2,
   .deliver 1 0, .deliver 1 1, .deliver 1 2, .receive 3, .receive 4, .receive 5, .deliver 2 0, .deliver 2 1, .deliver 2 2,
   .receive 6, .receive 7, .receive 8, .deliver 3 0, .deliver 3 1, .deliver 3 2, .receive 9, .receive 10, .receive 11]

/-- Replica `0` has lost its state and is `STARTING` again, with one response on its way; the others vote by then, and
choose a value. -/
def lateResponse : List (Event (Fin 3)) :=
  [.recover 0, .deliver 6 0, .deliver 6 1, .deliver 6 2, .receive 12, .receive 13, .receive 14, .deliver 7 0, .deliver 7 1,
   .deliver 7 2, .receive 15, .receive 16, .deliver 4 0, .deliver 4 1, .deliver 4 2, .receive 18, .receive 19, .receive 20,
   .deliver 5 0, .deliver 5 1, .deliver 5 2, .receive 21, .receive 22, .receive 23, .elect 1, .promised 1, .deliver 8 1,
   .deliver 8 2, .receive 24, .receive 25, .missing 1, .check (.coordinator 1), .deliver 9 1, .deliver 9 2, .receive 26,
   .receive 27, .deliver 10 1, .deliver 10 2, .receive 28, .receive 29, .learn 0 1, .learn 0 2, .filled (.coordinator 1),
   .check (.coordinator 1), .check (.coordinator 1), .append 1 [7], .deliver 11 1, .deliver 11 2]

/-- **A replica that lost its state before the value was chosen may start after it.**  Replica `0` alone loses its state,
as a voter; replicas `1` and `2` choose a value, and then replica `0` votes again out of `STARTING`. -/
theorem readmitted_by_starting :
    let w₀ := (start fun _ => false).run selfInitializing firstVoter
    let w := (start fun _ => false).run selfInitializing (firstVoter ++ .lose 0 :: lateResponse)
    (w₀.replicas 0).status = .voting ∧ (losers (firstVoter ++ .lose 0 :: lateResponse)).card = 1 ∧
      w.Chosen selfInitializing 1 1 (.append [7]) ∧ (w.replicas 0).status = .starting ∧
      ((w.step selfInitializing (.receive 17)).replicas 0).status = .voting := by
  decide +kernel

end Cluster
end Clusterd.Log
