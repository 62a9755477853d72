import Clusterd.LogHistory
/-!
# A change of the cluster, seen from one proposer

Seen from one coordinator or fill, an event is at most one step of its own, and the write requests it adds are what that step
sends out (`Change.client`, `Change.filling`).  What was written before is always behind the number to write under next
(`Client.Ahead`, `Fill.Ahead`).
-/
namespace Clusterd.Log

open RecoverState

/-! ## One proposer -/

namespace Fill

inductive Steps (quorum : Nat) (m : Fill) : Fill → Option Output → Prop
  | promise (r : PromiseResponse) : Steps quorum m (m.promiseReceived quorum r).1 (m.promiseReceived quorum r).2
  | write (r : WriteResponse) : Steps quorum m (m.writeReceived quorum r).1 (m.writeReceived quorum r).2
  | retry : m.phase = .retrying → Steps quorum m m.runPromisePhase.1 m.runPromisePhase.2
  | stop : Steps quorum m m.stop.1 m.stop.2

def Ahead (m : Fill) (n : Nat) : Prop :=
  match m.phase with
  | .promising _ | .retrying => n < m.proposal
  | .writing _ _ | .filled _ | .stopped => n ≤ m.proposal

variable {m : Fill} {n : Nat}

theorem Ahead.le (h : m.Ahead n) : n ≤ m.proposal := by
  unfold Ahead at h
  split at h
  · exact h.le
  · exact h.le
  · exact h
  · exact h
  · exact h

theorem Ahead.lt (h : m.Ahead n) {s : ExplicitPromise} (hs : m.phase = .promising s) : n < m.proposal := by
  unfold Ahead at h
  rw [hs] at h
  exact h

variable {m' : Fill} {quorum : Nat}

/-- **A fill leaves behind what it wrote under.** -/
theorem Steps.ahead {out : Option Output} (h : Steps quorum m m' out) (hn : m.Ahead n) : m'.Ahead n := by
  cases h with
  | promise r =>
    have ho := m.promiseReceived_outcome quorum r
    generalize (m.promiseReceived quorum r).1 = m' at ho ⊢
    generalize (m.promiseReceived quorum r).2 = out at ho
    cases ho with
    | idle => exact hn
    | pending _ _ hs => exact hn.lt hs
    | stopped => exact hn.le
    | retrying _ hk => exact Nat.lt_succ_of_le (hn.le.trans hk)
    | relayed | rewritten | fresh => exact hn.le
  | write r =>
    have ho := m.writeReceived_outcome quorum r
    generalize (m.writeReceived quorum r).1 = m' at ho ⊢
    generalize (m.writeReceived quorum r).2 = out at ho
    cases ho with
    | idle => exact hn
    | pending | stopped => exact hn.le
    | retrying _ hk => exact Nat.lt_succ_of_le (hn.le.trans hk)
    | written => exact hn.le
  | retry hs =>
    unfold Ahead at hn
    rw [hs] at hn
    exact hn
  | stop => exact hn.le

/-- **A fill writes under a number it has not written under before.** -/
theorem Steps.writes {request : WriteRequest} (h : Steps quorum m m' (some (.write request))) :
    (∀ n, m.Ahead n → n < request.proposal) ∧ m'.Ahead request.proposal := by
  generalize hout : some (Output.write request) = out at h
  cases h with
  | promise r =>
    have ho := m.promiseReceived_outcome quorum r
    rw [← hout] at ho
    generalize (m.promiseReceived quorum r).1 = m' at ho ⊢
    generalize hout' : some (Output.write request) = out at ho
    cases ho with
    | rewritten s _ a v hs | fresh s _ hs =>
      cases hout'
      exact ⟨fun _ hn => hn.lt hs, le_rfl⟩
    | _ => cases hout'
  | write r =>
    have ho := m.writeReceived_outcome quorum r
    rw [← hout] at ho
    generalize (m.writeReceived quorum r).1 = m' at ho ⊢
    generalize hout' : some (Output.write request) = out at ho
    cases ho with
    | _ => cases hout'
  | retry | stop => cases hout

end Fill

variable {wrote : Nat → Nat → Prop}

namespace Coordinator

/-- What the coordinator wrote before is behind what it writes next: `wrote n p` are the numbers and positions written.
One that was refused a write knows only that it wrote under no higher number. -/
def Ahead (wrote : Nat → Nat → Prop) (c : Coordinator) (refused : Bool) : Prop :=
  match c.state with
  | .initial | .electing .lastProposal | .aborted => ∀ n p, wrote n p → n ≤ c.proposal
  | .electing _ => ∀ n p, wrote n p → n < c.proposal
  | .elected => (∀ n p, wrote n p → n ≤ c.proposal) ∧
      (refused = false → ∀ n p, wrote n p → n < c.proposal ∨ n = c.proposal ∧ p < c.index)
  | .writing _ => (∀ n p, wrote n p → n ≤ c.proposal) ∧
      (refused = false → ∀ n p, wrote n p → n < c.proposal ∨ n = c.proposal ∧ p ≤ c.index)

variable {refused : Bool} {c : Coordinator}

theorem Ahead.le (h : c.Ahead wrote refused) : ∀ n p, wrote n p → n ≤ c.proposal := by
  unfold Ahead at h
  split at h
  · exact h
  · exact h
  · exact h
  · exact fun n p hw => le_of_lt (h n p hw)
  · exact h.1
  · exact h.1

variable {refused' : Bool}

theorem Ahead.mono {wrote' : Nat → Nat → Prop}
    (h : c.Ahead wrote refused) (hw : ∀ n p, wrote' n p → wrote n p) (hr : refused' = false → refused = false) :
    c.Ahead wrote' refused' := by
  unfold Ahead at h ⊢
  split at h
  any_goals exact fun n p hn => h n p (hw n p hn)
  all_goals exact ⟨fun n p hn => h.1 n p (hw n p hn), fun hf n p hn => h.2 (hr hf) n p (hw n p hn)⟩

/-- **A coordinator leaves behind what it wrote.** -/
theorem Ahead.outcome {quorum : Nat} {c' : Coordinator} {x : Input} {out : Option Output}
    {wrote' : Nat → Nat → Prop} (h : c.Ahead wrote refused) (ho : Outcome quorum c x c' out)
    (hw : ∀ n p, wrote' n p → wrote n p ∨
      ∃ request, out = some (.write request) ∧ request.proposal = n ∧ request.position = p)
    (hr : refused' = false → refused = false ∧ c.refuses quorum x = false) : c'.Ahead wrote' refused' := by
  have hle := h.le
  have hold : (∀ request, out ≠ some (.write request)) → ∀ n p, wrote' n p → wrote n p :=
    fun hno n p hn => (hw n p hn).resolve_right (fun ⟨request, hout, _⟩ => hno request hout)
  have hall : (∀ request, out ≠ some (.write request)) → ∀ n p, wrote' n p → n ≤ c.proposal :=
    fun hno n p hn => hle n p (hold hno n p hn)
  have hk := h
  unfold Ahead at h
  cases ho with
  | idle => exact hk.mono (hold (fun _ h => by cases h)) (fun hf => (hr hf).1)
  | halts _ hm => exact fun n p hn => (hall (fun _ h => by cases h) n p hn).trans hm
  | aborts | elects => exact hall (fun _ h => by cases h)
  | campaigns =>
    intro n p hn
    have hn := hall (fun _ h => by cases h) n p hn
    exact Nat.lt_succ_of_le (hn.trans (le_max_left _ _))
  | counts s s' r hs | wins s r result e hs | catches u hs =>
    rw [hs] at h
    exact fun n p hn => h n p (hold (fun _ h => by cases h) n p hn)
  | catching _ _ _ hs hfi =>
    rw [hs] at h
    refine fun n p hn => h n p (hold (fun request ho => ?_) n p hn)
    obtain ⟨m, _, he⟩ := hfi _ ho
    cases he
  | elected _ hs =>
    rw [hs] at h
    have hlt := fun n p hn => h n p (hold (fun _ h => by cases h) n p hn)
    exact ⟨fun n p hn => le_of_lt (hlt n p hn), fun _ n p hn => .inl (hlt n p hn)⟩
  | writes _ hs =>
    rw [hs] at h
    refine ⟨fun n p hn => ?_, fun hf n p hn => ?_⟩
    · rcases hw n p hn with hn | ⟨request, hout, rfl, -⟩
      · exact hle n p hn
      · cases hout
        exact le_rfl
    · rcases hw n p hn with hn | ⟨request, hout, rfl, rfl⟩
      · exact (h.2 (hr hf).1 n p hn).imp id (fun h => ⟨h.1, h.2.le⟩)
      · cases hout
        exact .inr ⟨rfl, le_rfl⟩
  | countsWrite a s s' r hs | written a s r result hs =>
    rw [hs] at h
    have hno := hold (fun _ h => by cases h)
    exact ⟨fun n p hn => h.1 n p (hno n p hn), fun hf n p hn => h.2 (hr hf).1 n p (hno n p hn)⟩
  | refused _ href hm =>
    refine ⟨fun n p hn => (hall (fun _ h => by cases h) n p hn).trans hm, fun hf => ?_⟩
    rw [(hr hf).2] at href
    cases href
  | learned _ hs =>
    rw [hs] at h
    have hno := hold (fun _ h => by cases h)
    exact ⟨fun n p hn => h.1 n p (hno n p hn),
      fun hf n p hn => (h.2 (hr hf).1 n p (hno n p hn)).imp id (fun h => ⟨h.1, Nat.lt_succ_of_le h.2⟩)⟩

end Coordinator

namespace Client

def Ahead (wrote : Nat → Nat → Prop) (k : Client) : Prop := k.coordinator.Ahead wrote k.refused

variable {k : Client} {x : Coordinator.Input} {quorum : Nat}

theorem Ahead.step {wrote' : Nat → Nat → Prop} (h : k.Ahead wrote) (hw : ∀ n p, wrote' n p → wrote n p ∨
      ∃ request, (k.step quorum x).2 = some (.write request) ∧ request.proposal = n ∧ request.position = p) :
    (k.step quorum x).1.Ahead wrote' := by
  by_cases hd : x = .demote ∧ k.coordinator.state = .elected
  · obtain ⟨rfl, hs⟩ := hd
    have hc : (k.step quorum .demote).1.coordinator = { k.coordinator with state := .initial } := by
      show (k.coordinator.step quorum .demote).1 = _
      simp [Coordinator.step, Coordinator.demote, hs]
    unfold Ahead
    rw [hc]
    intro n p hn
    rcases hw n p hn with hn | ⟨request, hout, -⟩
    · exact Coordinator.Ahead.le h n p hn
    · cases hout
  · exact Coordinator.Ahead.outcome h (Coordinator.step_outcome quorum k.coordinator x) hw (refused_step hd)

/-- **A client that heeds its refusals writes at a number and position its coordinator has not written at.** -/
theorem Ahead.writes (h : k.Ahead wrote)
    (hx : k.Obeys x) {request : WriteRequest} (hw : (k.step quorum x).2 = some (.write request)) :
    ¬wrote request.proposal request.position := by
  obtain ⟨_, hs, hv, rfl⟩ := Coordinator.step_write hw
  unfold Ahead Coordinator.Ahead at h
  rw [hs] at h
  intro hwr
  rcases h.2 (hx.refused hv) _ _ hwr with hlt | ⟨-, hlt⟩
  · exact lt_irrefl _ hlt
  · exact lt_irrefl _ hlt

end Client

/-! ## The proposers in the cluster -/

namespace Cluster
variable {ρ : Type} {request : WriteRequest} {w : Cluster ρ} {out : Option Output} {source source' : Source ρ}

theorem sent_write
    (h : (source', Request.write request) ∈ w.sent source out) : source' = source ∧ out = some (.write request) := by
  unfold sent at h
  split at h <;> simp at h
  obtain ⟨rfl, rfl⟩ := h
  exact ⟨rfl, rfl⟩

theorem wrote_send (h : (source', .write request) ∈ (w.send source out).requests) :
    (source', .write request) ∈ w.requests ∨ source' = source ∧ out = some (.write request) := by
  rw [send_requests] at h
  exact (List.mem_append.1 h).imp id sent_write

variable {cfg : Config ρ} {c : Nat} {x : Coordinator.Input}

theorem wrote_stepCoordinator {p : Proc ρ Client}
    (h : (source, .write request) ∈ (w.stepCoordinator cfg c p x).requests) : (source, .write request) ∈ w.requests ∨
      source = .coordinator c ∧ (p.machine.step cfg.quorum x).2 = some (.write request) := by
  have hs := wrote_send h
  exact hs

variable {f : Nat} {next : Fill × Option Output}

theorem wrote_stepFill {p : Proc ρ Fill} (h : (source, .write request) ∈ (w.stepFill f p next).requests) :
    (source, .write request) ∈ w.requests ∨ source = .fill f ∧ next.2 = some (.write request) := by
  have hs := wrote_send h
  exact hs

theorem wrote_spawn {n p : Nat}
    (h : (source, .write request) ∈ (w.spawn n p).requests) : (source, .write request) ∈ w.requests := by
  rcases List.mem_append.1 h with h | h
  · exact h
  · cases List.mem_singleton.1 h

theorem fills_send (source : Source ρ) (out : Option Output) {p : Proc ρ Fill}
    (h : w.fills[f]? = some p) : (w.send source out).fills[f]? = some p := by
  rw [send_fills, List.getElem?_append_left (List.getElem?_eq_some_iff.1 h).1, h]

theorem coordinators_stepCoordinator (cfg : Config ρ) (w : Cluster ρ) (c d : Nat) (p : Proc ρ Client)
    (x : Coordinator.Input) : ((w.stepCoordinator cfg c p x).coordinators d).machine =
      if d = c then (p.machine.step cfg.quorum x).1 else (w.coordinators d).machine := by
  simp only [stepCoordinator, send_coordinators]
  by_cases hd : d = c
  · subst hd
    rw [if_pos rfl, Function.update_self, Proc.advance_machine]
  · rw [if_neg hd, Function.update_of_ne hd]

variable {q : Proc ρ Fill}

theorem fills_stepFill (f : Nat) (p : Proc ρ Fill) (next : Fill × Option Output) {g : Nat}
    (h : w.fills[g]? = some q) : ∃ q', (w.stepFill f p next).fills[g]? = some q' ∧
      q'.machine = if g = f then next.1 else q.machine := by
  have hlt := (List.getElem?_eq_some_iff.1 h).1
  by_cases hg : g = f
  · subst hg
    refine ⟨p.advance next.1 next.2 w.requests.length, fills_send _ _ ?_, by rw [if_pos rfl, Proc.advance_machine]⟩
    simp [hlt]
  · refine ⟨q, fills_send _ _ ?_, by rw [if_neg hg]⟩
    simp [Ne.symm hg, h]

variable {w' : Cluster ρ} {e : Event ρ}

/-- **An event is at most one step of each coordinator**, and what that sends out is what it writes. -/
def ClientSteps (cfg : Config ρ) (w : Cluster ρ) (e : Event ρ) (c : Nat) (w' : Cluster ρ) : Prop :=
  ((w'.coordinators c).machine = (w.coordinators c).machine ∧
    ∀ request, (.coordinator c, .write request) ∈ w'.requests → (.coordinator c, .write request) ∈ w.requests) ∨
  ∃ x, (∀ v, x.value? = some v → e.writes? = some (c, v)) ∧
    (w'.coordinators c).machine = ((w.coordinators c).machine.step cfg.quorum x).1 ∧
    ∀ request, (.coordinator c, .write request) ∈ w'.requests → (.coordinator c, .write request) ∈ w.requests ∨
      ((w.coordinators c).machine.step cfg.quorum x).2 = some (.write request)

theorem client_stepCoordinator (c : Nat) {d : Nat} {A : Finset ρ}
    (hv : ∀ v, x.value? = some v → e.writes? = some (d, v)) :
    ClientSteps cfg w e c (w.stepCoordinator cfg d { w.coordinators d with answered := A } x) := by
  rw [ClientSteps, coordinators_stepCoordinator]
  by_cases hc : c = d
  · subst hc
    exact .inr ⟨x, hv, if_pos rfl, fun request hm => (wrote_stepCoordinator hm).imp id (fun h => h.2)⟩
  · refine .inl ⟨if_neg hc, fun _ hm => (wrote_stepCoordinator hm).resolve_right (fun ⟨hd, _⟩ => ?_)⟩
    exact hc (Source.coordinator.inj hd)

theorem client_stepFill {f : Nat} {p : Proc ρ Fill} : ClientSteps cfg w e c (w.stepFill f p next) :=
  .inl ⟨by simp [stepFill], fun _ hm => (wrote_stepFill hm).resolve_right (fun h => by cases h.1)⟩

/-- **An event is at most one step of each fill**, and what that sends out is what it writes. -/
def FillSteps (cfg : Config ρ) (w : Cluster ρ) (f : Nat) (w' : Cluster ρ) : Prop :=
  ((∀ p, w.fills[f]? = some p → ∃ p', w'.fills[f]? = some p' ∧ p'.machine = p.machine) ∧
    ∀ request, (.fill f, .write request) ∈ w'.requests → (.fill f, .write request) ∈ w.requests) ∨
  ∃ p p' out, w.fills[f]? = some p ∧ w'.fills[f]? = some p' ∧ Fill.Steps cfg.quorum p.machine p'.machine out ∧
    ∀ request, (.fill f, .write request) ∈ w'.requests → (.fill f, .write request) ∈ w.requests ∨
      out = some (.write request)

theorem filling_stepFill (f : Nat) {g : Nat} {p : Proc ρ Fill} (A : Finset ρ)
    (hp : w.fills[g]? = some p) (hs : Fill.Steps cfg.quorum p.machine next.1 next.2) :
    FillSteps cfg w f (w.stepFill g { p with answered := A } next) := by
  by_cases hf : f = g
  · subst hf
    obtain ⟨p', hp', hm⟩ := fills_stepFill f { p with answered := A } next hp
    rw [if_pos rfl] at hm
    exact .inr ⟨p, p', next.2, hp, hp', hm ▸ hs, fun request hm => (wrote_stepFill hm).imp id (fun h => h.2)⟩
  · refine .inl ⟨fun _ hq => ?_, fun _ hm => (wrote_stepFill hm).resolve_right (fun ⟨hd, _⟩ => ?_)⟩
    · obtain ⟨q', hq', hm⟩ := fills_stepFill g { p with answered := A } next hq
      exact ⟨q', hq', by rw [hm, if_neg hf]⟩
    · exact hf (Source.fill.inj hd)

theorem filling_stepCoordinator {f : Nat} {p : Proc ρ Client} : FillSteps cfg w f (w.stepCoordinator cfg c p x) :=
  .inl ⟨fun p hp => ⟨p, fills_send _ _ hp, rfl⟩,
    fun _ hm => (wrote_stepCoordinator hm).resolve_right (fun h => by cases h.1)⟩

variable [DecidableEq ρ] [Fintype ρ] {p : Proc ρ RecoverState} {R : ρ}

theorem wrote_stepRecovery {x : Input}
    (h : (source, .write request) ∈ (w.stepRecovery cfg R p x).requests) :
    (source, .write request) ∈ w.requests ∨ source = .recovery R := by
  refine (wrote_send h).imp (fun h => ?_) (fun h => h.1)
  revert h
  split
  · exact id
  · exact id

theorem coordinators_stepRecovery (cfg : Config ρ) (w : Cluster ρ) (R : ρ) (p : Proc ρ RecoverState)
    (x : Input) : (w.stepRecovery cfg R p x).coordinators = w.coordinators := by
  unfold stepRecovery
  simp only [send_coordinators]
  split <;> rfl

theorem fills_stepRecovery {x : Input}
    (h : w.fills[f]? = some q) : (w.stepRecovery cfg R p x).fills[f]? = some q := by
  unfold stepRecovery
  simp only
  split
  · exact fills_send _ _ h
  · exact fills_send _ _ h

theorem client_stepRecovery {x : Input} : ClientSteps cfg w e c (w.stepRecovery cfg R p x) :=
  .inl ⟨by rw [coordinators_stepRecovery], fun _ hm => (wrote_stepRecovery hm).resolve_right nofun⟩

theorem Change.client (h : Change cfg w e w') (c : Nat) : ClientSteps cfg w e c w' := by
  cases h with
  | spawn => exact .inl ⟨rfl, fun _ hm => wrote_spawn hm⟩
  | coordinator _ _ _ _ hv => exact client_stepCoordinator c hv
  | promiseHeard | writeHeard =>
    exact client_stepCoordinator c nofun
  | fillPromiseHeard | fillWriteHeard | fillRetries | fillStops => exact client_stepFill
  | recovery | recoverHeard => exact client_stepRecovery
  | _ => exact .inl ⟨rfl, fun _ => id⟩

theorem filling_stepRecovery {f : Nat} {x : Input} : FillSteps cfg w f (w.stepRecovery cfg R p x) :=
  .inl ⟨fun p hp => ⟨p, fills_stepRecovery hp, rfl⟩, fun _ hm => (wrote_stepRecovery hm).resolve_right nofun⟩

theorem Change.filling (h : Change cfg w e w') (f : Nat) : FillSteps cfg w f w' := by
  cases h with
  | spawn n q =>
    exact .inl ⟨fun p hp => ⟨p, fills_send (.fill 0) (some (.fill n q)) hp, rfl⟩, fun _ hm => wrote_spawn hm⟩
  | coordinator | promiseHeard | writeHeard =>
    exact filling_stepCoordinator
  | fillPromiseHeard _ _ _ _ _ r hp => exact filling_stepFill f _ hp (.promise r)
  | fillWriteHeard _ _ _ _ _ r hp => exact filling_stepFill f _ hp (.write r)
  | fillRetries _ p hp hs => exact filling_stepFill f p.answered hp (.retry hs)
  | fillStops _ p hp => exact filling_stepFill f p.answered hp .stop
  | recovery | recoverHeard => exact filling_stepRecovery
  | _ => exact .inl ⟨fun p hp => ⟨p, hp, rfl⟩, fun _ => id⟩

end Cluster
end Clusterd.Log
