import Clusterd.LogCluster
import Clusterd.LogPhases
import Clusterd.Quorum
/-!
# What a step changes, and what the messages tell

`Change` lists once what an event can do to the cluster; every invariant is a case analysis over it.  Messages are never dropped
(`Grows`), so what they tell stays told: who accepted a write (`Accepted`, and `Chosen` by a quorum), who promised a number and
with which end (`Promised`), who promised a position and what it reported (`Granted`).
-/
namespace Clusterd.Log

def Answer.request : Answer → Request
  | .promise request _ => .promise request
  | .write request _ => .write request
  | .recover _ => .recover

def Answer.accepted : Answer → Option (Nat × Nat × Value)
  | .write request response =>
    if response.type = some .accept then some (request.proposal, request.position, request.value) else none
  | _ => none

def Answer.promised : Answer → Option (Nat × Nat)
  | .promise request response =>
    if request.position = none ∧ response.type = some .accept then
      response.position.map fun ending => (request.proposal, ending)
    else none
  | _ => none

def Answer.granted : Answer → Option (Nat × Nat × Option Action)
  | .promise request response =>
    if response.type = some .accept then
      request.position.map fun position => (request.proposal, position, response.action)
    else none
  | _ => none

def Event.writes? {ρ : Type} : Event ρ → Option (Nat × Value)
  | .append c bytes => some (c, .append bytes)
  | .truncate c target => some (c, .truncate target)
  | _ => none

def Coordinator.Input.isResponse : Coordinator.Input → Bool
  | .promiseResponse _ => true
  | .writeResponse _ => true
  | _ => false

variable {id : Nat} {out : Option Output} {ρ σ : Type} {p : Proc ρ σ} {q : Request}

theorem Proc.advance_of_none {m : σ}
    (h : out.bind Output.asRequest = none) : p.advance m out id = { p with machine := m } := by
  unfold Proc.advance
  rw [h]

@[simp] theorem Proc.advance_machine {ρ σ : Type} (p : Proc ρ σ) (m : σ) (out : Option Output) (id : Nat) :
    (p.advance m out id).machine = m := by
  unfold Proc.advance
  split <;> rfl

/-- What a recover process hears of its own replica is so. -/
def RecoverState.Input.Tells (machine : RecoverState) (r : Replica) : RecoverState.Input → Prop
  | .status s => s = r.status
  | .response _ => False
  | .checked m _ => ∀ u, machine.catchup? = some u → m = u.currentMissing r
  | .timedout | .filled _ => True

namespace Cluster
variable {ρ : Type}

/-- The replica accepted a write of `v` at position `p` under proposal number `n`. -/
def Accepted (w : Cluster ρ) (R : ρ) (n p : Nat) (v : Value) : Prop :=
  ∃ x ∈ w.responses, x.replica = R ∧ x.answer.accepted = some (n, p, v)

/-- The replica promised `n` implicitly, in response to the `i`-th request, and reported the end `e`. -/
def Promised (w : Cluster ρ) (i : Nat) (R : ρ) (n e : Nat) : Prop :=
  ∃ x ∈ w.responses, x.id = i ∧ x.replica = R ∧ x.answer.promised = some (n, e)

def Granted (w : Cluster ρ) (i : Nat) (R : ρ) (n p : Nat) (a : Option Action) : Prop :=
  ∃ x ∈ w.responses, x.id = i ∧ x.replica = R ∧ x.answer.granted = some (n, p, a)

instance [DecidableEq ρ] (w : Cluster ρ) (R : ρ) (n p : Nat) (v : Value) : Decidable (w.Accepted R n p v) :=
  inferInstanceAs (Decidable (∃ x ∈ w.responses, x.replica = R ∧ x.answer.accepted = some (n, p, v)))

instance [DecidableEq ρ] (w : Cluster ρ) (i : Nat) (R : ρ) (n e : Nat) : Decidable (w.Promised i R n e) :=
  inferInstanceAs (Decidable (∃ x ∈ w.responses, x.id = i ∧ x.replica = R ∧ x.answer.promised = some (n, e)))

/-- **A quorum of replicas accepted the write.** -/
def Chosen (cfg : Config ρ) (w : Cluster ρ) (n p : Nat) (v : Value) : Prop :=
  Quorum cfg.quorum (fun R => w.Accepted R n p v)

instance [DecidableEq ρ] [Fintype ρ] (cfg : Config ρ) (w : Cluster ρ) (n p : Nat) (v : Value) :
    Decidable (w.Chosen cfg n p v) := inferInstanceAs (Decidable (Quorum cfg.quorum (fun R => w.Accepted R n p v)))

/-! ## Messages stay -/

structure Grows (w w' : Cluster ρ) : Prop where
  requests : ∃ l, w'.requests = w.requests ++ l
  responses : ∃ l, w'.responses = w.responses ++ l
  learned : ∃ l, w'.learned = w.learned ++ l

theorem Grows.refl (w : Cluster ρ) : Grows w w := ⟨⟨[], by simp⟩, ⟨[], by simp⟩, [], by simp⟩

variable {w w' : Cluster ρ} {i : Nat}

theorem Grows.request (h : Grows w w') {x : Source ρ × Request}
    (hx : w.requests[i]? = some x) : w'.requests[i]? = some x := by
  obtain ⟨_, hl⟩ := h.requests
  rw [hl, List.getElem?_append_left (List.getElem?_eq_some_iff.1 hx).1, hx]

theorem Grows.response (h : Grows w w') {x : Response ρ} (hx : x ∈ w.responses) : x ∈ w'.responses := by
  obtain ⟨l, hl⟩ := h.responses
  rw [hl]
  exact List.mem_append_left l hx

variable {n : Nat} {v : Value} {R : ρ}

theorem Accepted.mono (hg : Grows w w') {p : Nat} (h : w.Accepted R n p v) : w'.Accepted R n p v := by
  obtain ⟨x, hx, h⟩ := h
  exact ⟨x, hg.response hx, h⟩

theorem Promised.mono (hg : Grows w w') {e : Nat} (h : w.Promised i R n e) : w'.Promised i R n e := by
  obtain ⟨x, hx, h⟩ := h
  exact ⟨x, hg.response hx, h⟩

theorem Granted.mono (hg : Grows w w') {p : Nat} {a : Option Action}
    (h : w.Granted i R n p a) : w'.Granted i R n p a := by
  obtain ⟨x, hx, h⟩ := h
  exact ⟨x, hg.response hx, h⟩

variable {cfg : Config ρ}

theorem Chosen.mono (hg : Grows w w') {p : Nat} (h : w.Chosen cfg n p v) : w'.Chosen cfg n p v :=
  Quorum.mono h (fun _ hR => hR.mono hg)

/-! ## What is sent -/

def sent (w : Cluster ρ) (source : Source ρ) : Option Output → List (Source ρ × Request)
  | some (.promise r) => [(source, .promise r)]
  | some (.write r) => [(source, .write r)]
  | some .recover => [(source, .recover)]
  | some (.fill n p) => [(.fill w.fills.length, .promise { proposal := n, position := some p })]
  | _ => []

def announced : Option Output → List Action
  | some (.learned a) => [a]
  | _ => []

def spawned (w : Cluster ρ) : Option Output → List (Proc ρ Fill)
  | some (.fill n p) => [{ machine := (Fill.start n p).1, call := w.requests.length }]
  | _ => []

section
variable (w : Cluster ρ) (source : Source ρ) (out : Option Output)

theorem send_requests : (w.send source out).requests = w.requests ++ w.sent source out := by
  rcases out with _ | _ | _ | _ | _ | _ <;> simp [send, sent, spawn, ExplicitPromise.request]

theorem send_learned : (w.send source out).learned = w.learned ++ announced out := by
  rcases out with _ | _ | _ | _ | _ | _ <;> simp [send, announced, spawn]

theorem send_fills : (w.send source out).fills = w.fills ++ w.spawned out := by
  rcases out with _ | _ | _ | _ | _ | _ <;> simp [send, spawned, spawn]

@[simp] theorem send_replicas : (w.send source out).replicas = w.replicas := by
  rcases out with _ | _ | _ | _ | _ | _ <;> rfl

@[simp] theorem send_responses : (w.send source out).responses = w.responses := by
  rcases out with _ | _ | _ | _ | _ | _ <;> rfl

@[simp] theorem send_coordinators : (w.send source out).coordinators = w.coordinators := by
  rcases out with _ | _ | _ | _ | _ | _ <;> rfl

@[simp] theorem send_recoveries : (w.send source out).recoveries = w.recoveries := by
  rcases out with _ | _ | _ | _ | _ | _ <;> rfl

end

theorem grows_send (h1 : w'.requests = w.requests) (h2 : w'.responses = w.responses)
    (h3 : w'.learned = w.learned) (source : Source ρ) (out : Option Output) : Grows w (w'.send source out) :=
  ⟨⟨_, by rw [send_requests, h1]⟩, ⟨[], by rw [send_responses, h2, List.append_nil]⟩, _, by rw [send_learned, h3]⟩

theorem grows_stepCoordinator (cfg : Config ρ) (w : Cluster ρ) (c : Nat) (p : Proc ρ Client) (x : Coordinator.Input) :
    Grows w (w.stepCoordinator cfg c p x) := by
  apply grows_send <;> rfl

theorem grows_stepFill (w : Cluster ρ) (f : Nat) (p : Proc ρ Fill) (next : Fill × Option Output) :
    Grows w (w.stepFill f p next) := by
  apply grows_send <;> rfl

theorem sent_call (w : Cluster ρ) (source : Source ρ) {out : Option Output}
    (h : out.bind Output.asRequest = some q) : (w.send source out).requests[w.requests.length]? = some (source, q) := by
  rw [send_requests, List.getElem?_append_right (Nat.le_refl _)]
  rcases out with _ | _ | _ | _ | _ | _ <;> simp_all [sent, Output.asRequest]

/-! ## What a step changes -/

variable [DecidableEq ρ] [Fintype ρ]

section

variable (cfg : Config ρ) (w : Cluster ρ)

inductive Change : Event ρ → Cluster ρ → Prop
  | none (e : Event ρ) : Change e w
  | promise (id : Nat) (R : ρ) (source : Source ρ) (request : PromiseRequest) :
      w.requests[id]? = some (source, .promise request) →
      Change (.deliver id R) ((w.setReplica R ((w.replicas R).promise request).1).respond id R
        (((w.replicas R).promise request).2.map (.promise request)))
  | write (id : Nat) (R : ρ) (source : Source ρ) (request : WriteRequest) :
      w.requests[id]? = some (source, .write request) →
      Change (.deliver id R) ((w.setReplica R ((w.replicas R).write request).1).respond id R
        (((w.replicas R).write request).2.map (.write request)))
  | recover (id : Nat) (R : ρ) (source : Source ρ) : w.requests[id]? = some (source, .recover) →
      Change (.deliver id R) (w.respond id R (some (.recover (w.replicas R).recover)))
  | learn (k : Nat) (R : ρ) (a : Action) : w.learned[k]? = some a →
      Change (.learn k R) (w.setReplica R ((w.replicas R).learned a))
  | restart (R : ρ) :
      Change (.restart R)
        { w.setReplica R (Replica.restore (w.replicas R).storage) with
          recoveries := Function.update w.recoveries R { machine := .start } }
  | lose (R : ρ) :
      Change (.lose R)
        { w.setReplica R Replica.fresh with
          recoveries := Function.update w.recoveries R { machine := .start } }
  | spawn (n p : Nat) : Change (.fill n p) (w.spawn n p)
  | coordinator (e : Event ρ) (c : Nat) (x : Coordinator.Input) : x.isResponse = false →
      (∀ v, x.value? = some v → e.writes? = some (c, v)) →
      Change e (w.stepCoordinator cfg c (w.coordinators c) x)
  | promiseHeard (k c : Nat) (y : Response ρ) (request : PromiseRequest) (r : PromiseResponse) (q : Request) :
      y ∈ w.responses → w.requests[y.id]? = some (.coordinator c, q) → (w.coordinators c).call = y.id →
      y.replica ∉ (w.coordinators c).answered → y.answer = .promise request r →
      Change (.receive k) (w.stepCoordinator cfg c ((w.coordinators c).mark y.replica) (.promiseResponse r))
  | writeHeard (k c : Nat) (y : Response ρ) (request : WriteRequest) (r : WriteResponse) (q : Request) :
      y ∈ w.responses → w.requests[y.id]? = some (.coordinator c, q) → (w.coordinators c).call = y.id →
      y.replica ∉ (w.coordinators c).answered → y.answer = .write request r →
      Change (.receive k) (w.stepCoordinator cfg c ((w.coordinators c).mark y.replica) (.writeResponse r))
  | fillPromiseHeard (k f : Nat) (p : Proc ρ Fill) (y : Response ρ) (request : PromiseRequest) (r : PromiseResponse) :
      w.fills[f]? = some p → y ∈ w.responses → p.call = y.id → y.replica ∉ p.answered →
      y.answer = .promise request r →
      Change (.receive k) (w.stepFill f (p.mark y.replica) (p.machine.promiseReceived cfg.quorum r))
  | fillWriteHeard (k f : Nat) (p : Proc ρ Fill) (y : Response ρ) (request : WriteRequest) (r : WriteResponse) :
      w.fills[f]? = some p → y ∈ w.responses → p.call = y.id → y.replica ∉ p.answered →
      y.answer = .write request r →
      Change (.receive k) (w.stepFill f (p.mark y.replica) (p.machine.writeReceived cfg.quorum r))
  | fillRetries (f : Nat) (p : Proc ρ Fill) : w.fills[f]? = some p → p.machine.phase = .retrying →
      Change (.retry f) (w.stepFill f p p.machine.runPromisePhase)
  | fillStops (f : Nat) (p : Proc ρ Fill) : w.fills[f]? = some p →
      Change (.discard f) (w.stepFill f p p.machine.stop)
  | recovery (e : Event ρ) (R : ρ) (x : RecoverState.Input) : x.Tells (w.recoveries R).machine (w.replicas R) →
      Change e (w.stepRecovery cfg R (w.recoveries R) x)
  | recoverHeard (k : Nat) (R : ρ) (y : Response ρ) (r : RecoverResponse) : y ∈ w.responses →
      (w.recoveries R).call = y.id → y.replica ∉ (w.recoveries R).answered → y.answer = .recover r →
      Change (.receive k) (w.stepRecovery cfg R ((w.recoveries R).mark y.replica) (.response r))

end

section
variable (cfg : Config ρ) (w : Cluster ρ)

theorem receive_change (k : Nat) (y : Response ρ) (hy : y ∈ w.responses) :
    Change cfg w (.receive k) (w.receive cfg y) := by
  unfold receive
  split
  next c q hq =>
    simp only
    split
    next hc =>
      split
      · exact .promiseHeard k c y _ _ q hy hq hc.1 hc.2 ‹_›
      · exact .writeHeard k c y _ _ q hy hq hc.1 hc.2 ‹_›
      · exact .none _
    · exact .none _
  next f q hq =>
    split
    next p hp =>
      split
      next hc =>
        split
        · exact .fillPromiseHeard k f p y _ _ hp hy hc.1 hc.2 ‹_›
        · exact .fillWriteHeard k f p y _ _ hp hy hc.1 hc.2 ‹_›
        · exact .none _
      · exact .none _
    · exact .none _
  next R q hq =>
    simp only
    split
    next hc =>
      split
      · exact .recoverHeard k R y _ hy hc.1 hc.2 ‹_›
      · exact .none _
    · exact .none _
  · exact .none _

theorem deliver_change (id : Nat) (R : ρ) : Change cfg w (.deliver id R) (w.deliver id R) := by
  unfold deliver
  split
  · exact .promise id R _ _ ‹_›
  · exact .write id R _ _ ‹_›
  · exact .recover id R _ ‹_›
  · exact .none _

theorem stepCatchup_change (e : Event ρ)
    {coordinator : CatchUp → ρ → Option Coordinator.Input} {recovery : CatchUp → ρ → Option RecoverState.Input}
    (hc : ∀ u R x, coordinator u R = some x → x.isResponse = false ∧ x.value? = none)
    (hr : ∀ u R x, (w.recoveries R).machine.catchup? = some u → recovery u R = some x →
      x.Tells (w.recoveries R).machine (w.replicas R)) (owner : Source ρ) :
    Change cfg w e (w.stepCatchup cfg coordinator recovery owner) := by
  unfold stepCatchup
  split
  next c =>
    split
    next x hx =>
      obtain ⟨u, -, hu⟩ := Option.bind_eq_some_iff.1 hx
      obtain ⟨h1, h2⟩ := hc u _ x hu
      exact .coordinator e c x h1 (fun _ hv => by rw [h2] at hv; cases hv)
    · exact .none _
  next R =>
    split
    next x hx =>
      obtain ⟨u, hm, hu⟩ := Option.bind_eq_some_iff.1 hx
      exact .recovery e R x (hr u R x hm hu)
    · exact .none _
  · exact .none _

/-- **Every event is one of the changes.** -/
theorem step_change (e : Event ρ) : Change cfg w e (w.step cfg e) := by
  have hl : ∀ x c, x.isResponse = false → x.value? = none →
      Change cfg w e (w.stepCoordinator cfg c (w.coordinators c) x) :=
    fun x c hr h => .coordinator e c x hr (fun v hv => by rw [h] at hv; cases hv)
  cases e with
  | deliver id R => exact deliver_change cfg w id R
  | learn k R =>
    simp only [step]
    split
    · exact .learn k R _ ‹_›
    · exact .none _
  | receive k =>
    simp only [step]
    split
    · exact receive_change cfg w k _ (List.mem_of_getElem? ‹_›)
    · exact .none _
  | restart R => exact .restart R
  | lose R => exact .lose R
  | elect c => exact hl .elect c rfl rfl
  | demote c => exact hl .demote c rfl rfl
  | append c | truncate c => exact .coordinator _ c _ rfl (fun _ hv => by cases hv; rfl)
  | abandon c => exact hl .abandon c rfl rfl
  | promised c | missing c => exact hl _ c rfl rfl
  | learned c =>
    simp only [step]
    split
    · exact hl _ c rfl rfl
    · exact .none _
  | fill n p => exact .spawn n p
  | retry f =>
    simp only [step]
    split
    · split
      · exact .fillRetries f _ ‹_› ‹_›
      · exact .none _
    · exact .none _
  | discard f =>
    simp only [step]
    split
    · exact .fillStops f _ ‹_›
    · exact .none _
  | recover R => exact .recovery _ R _ rfl
  | check owner =>
    simp only [step]
    refine stepCatchup_change cfg w _ (fun u R x hx => ?_) (fun u R x hm hx => ?_) owner
    · cases hx
      exact ⟨rfl, rfl⟩
    · cases hx
      intro u' hm'
      cases hm.symm.trans hm'
      rfl
  | filled owner =>
    simp only [step]
    refine stepCatchup_change cfg w _ (fun u R x hx => ?_) (fun u R x _ hx => ?_) owner
    · obtain ⟨a, -, rfl⟩ := Option.map_eq_some_iff.1 hx
      exact ⟨rfl, rfl⟩
    · obtain ⟨_, -, rfl⟩ := Option.map_eq_some_iff.1 hx
      trivial
  | timedout owner =>
    simp only [step]
    split
    · exact .recovery _ _ _ trivial
    refine stepCatchup_change cfg w _ (fun u R x hx => ?_) (fun _ _ _ _ hx => ?_) owner
    · cases hx
      exact ⟨rfl, rfl⟩
    · cases hx

end

omit [Fintype ρ] in
theorem grows_respond (w : Cluster ρ) (R : ρ) (r : Replica) (id : Nat) (a : Option Answer) :
    Grows w ((w.setReplica R r).respond id R a) :=
  ⟨⟨[], by simp [setReplica, respond]⟩, ⟨_, rfl⟩, [], by simp [setReplica, respond]⟩

omit [Fintype ρ] in
theorem grows_setReplica (w : Cluster ρ) (R : ρ) (r : Replica) (rs : ρ → Proc ρ RecoverState) :
    Grows w { w.setReplica R r with recoveries := rs } :=
  ⟨⟨[], by simp [setReplica]⟩, ⟨[], by simp [setReplica]⟩, [], by simp [setReplica]⟩

theorem grows_stepRecovery (cfg : Config ρ) (w : Cluster ρ) (R : ρ) (p : Proc ρ RecoverState) (x : RecoverState.Input) :
    Grows w (w.stepRecovery cfg R p x) := by
  unfold stepRecovery
  simp only
  split <;> apply grows_send <;> rfl

/-- **No event takes a message back.** -/
theorem Change.grows {e : Event ρ} (h : Change cfg w e w') : Grows w w' := by
  cases h with
  | none => exact Grows.refl w
  | promise id R | write id R => exact grows_respond w R _ id _
  | recover => exact ⟨⟨[], by simp [respond]⟩, ⟨_, rfl⟩, [], by simp [respond]⟩
  | learn _ R => exact grows_setReplica w R _ w.recoveries
  | restart R | lose R => exact grows_setReplica w R _ _
  | spawn => exact ⟨⟨_, rfl⟩, ⟨[], (List.append_nil _).symm⟩, [], (List.append_nil _).symm⟩
  | coordinator _ c x => exact grows_stepCoordinator cfg w c _ x
  | promiseHeard k c | writeHeard k c =>
    exact grows_stepCoordinator cfg w c _ _
  | fillPromiseHeard k f | fillWriteHeard k f | fillRetries f | fillStops f => exact grows_stepFill w f _ _
  | recovery _ R x => exact grows_stepRecovery cfg w R _ x
  | recoverHeard _ R => exact grows_stepRecovery cfg w R _ _

end Cluster
end Clusterd.Log
