import Clusterd.LogConsensus
/-!
# What the proposers can do

What one response does to a phase, and what one input does to a fill and to a coordinator, with the guard that leads to
it, once and for all: the invariants of the protocol are case analyses over the outcomes listed here.
-/
namespace Clusterd.Log

def PromiseResponse.Grants (r : PromiseResponse) : Prop := r.type ≠ some .ignored ∧ isRejectedPromise r = false

def WriteResponse.Grants (r : WriteResponse) : Prop := r.type ≠ some .ignored ∧ isRejectedWrite r = false

theorem raise_spec (highest : Option Nat) (n : Nat) :
    ∃ m, raise highest n = some m ∧ n ≤ m ∧ ∀ k, highest = some k → k ≤ m := by
  unfold raise
  cases highest with
  | none => exact ⟨n, rfl, le_rfl, nofun⟩
  | some j =>
    simp only
    split
    · exact ⟨n, rfl, le_rfl, fun k h => by cases h; omega⟩
    · exact ⟨j, rfl, by omega, fun _ h => by cases h; omega⟩

variable (quorum : Nat)

namespace ImplicitPromise

def count (s : ImplicitPromise) (ending : Nat) : ImplicitPromise :=
  { s with
    responsesReceived := s.responsesReceived + 1
    highestEndPosition := raise s.highestEndPosition ending }

section

variable (quorum : Nat) (s : ImplicitPromise) (r : PromiseResponse)

inductive Outcome :
    Received ImplicitPromise PromiseResponse → Prop
  | ignored (n : Nat) : r.type = some .ignored → Outcome (.pending { s with ignoresReceived := n })
  | counted (e : Nat) : s.highestNackProposal = none → r.Grants → r.position = some e →
      Outcome (.pending (s.count e))
  | accepted (e : Nat) : s.highestNackProposal = none → r.Grants → r.position = some e →
      quorum ≤ s.responsesReceived + 1 →
      Outcome (.set { type := some .accept, okay := true, position := (s.count e).highestEndPosition })
  | rejected (s' : ImplicitPromise) : s'.proposal = s.proposal → s'.highestNackProposal ≠ none →
      Outcome (.pending s')
  | lost (result : PromiseResponse) : result.type ≠ some .accept → Outcome (.set result)
  | abort : Outcome .abort

end

theorem received_outcome (s : ImplicitPromise) (r : PromiseResponse) : Outcome quorum s r (s.received quorum r) := by
  unfold received
  by_cases hi : r.type = some .ignored
  · rw [if_pos hi]
    simp only
    split
    · exact .lost _ (by simp)
    · exact .ignored _ hi
  rw [if_neg hi]
  by_cases hr : isRejectedPromise r = true
  · obtain ⟨m, hm, -, -⟩ := raise_spec s.highestNackProposal r.proposal
    rw [if_pos hr, hm]
    unfold check
    split
    · exact .lost _ (by simp)
    · exact .rejected _ rfl (by simp)
  rw [if_neg hr]
  cases hn : s.highestNackProposal with
  | some =>
    simp only [Option.isSome_some, if_true]
    unfold check
    split
    · exact .lost _ (by simp)
    · exact .rejected _ rfl (by simp)
  | none =>
    simp only [Option.isSome_none, Bool.false_eq_true, if_false]
    cases hp : r.position with
    | none => exact .abort
    | some e =>
      obtain ⟨_, hm, -, -⟩ := raise_spec s.highestEndPosition e
      have hg : r.Grants := ⟨hi, by simpa using hr⟩
      simp only [check, hm]
      split
      · have ho := Outcome.accepted e hn hg hp ‹_›
        simpa only [count, hm] using ho
      · have ho := @Outcome.counted quorum s r e hn hg hp
        simpa only [count, hm, hn] using ho

end ImplicitPromise

def PromiseResponse.ReportsUnlearned (r : PromiseResponse) (position : Nat) : Prop :=
  (r.action = none ∧ r.position = some position) ∨ ∃ a, r.action = some a ∧ a.position = position ∧ a.learned = false

namespace ExplicitPromise

def count (s : ExplicitPromise) (r : PromiseResponse) : ExplicitPromise :=
  { s with
    responsesReceived := s.responsesReceived + 1
    highestAckAction :=
      match r.action with
      | some a => if a.performed.isSome then raiseAction s.highestAckAction a else s.highestAckAction
      | none => s.highestAckAction }

theorem count_cases (s : ExplicitPromise) (r : PromiseResponse) :
    ((s.count r).highestAckAction = s.highestAckAction ∧ ∀ a, r.action = some a → a.performed = none) ∨
      ∃ b k, r.action = some b ∧ b.performed = some k ∧
        (s.count r).highestAckAction = raiseAction s.highestAckAction b := by
  cases hr : r.action with
  | none => exact .inl ⟨by simp [count, hr], nofun⟩
  | some b =>
    cases hk : b.performed with
    | none => exact .inl ⟨by simp [count, hr, hk], fun _ h => by cases h; exact hk⟩
    | some k => exact .inr ⟨b, k, rfl, hk, by simp [count, hr, hk]⟩

section

variable (quorum : Nat) (s : ExplicitPromise) (r : PromiseResponse)

inductive Outcome :
    Received ExplicitPromise PromiseResponse → Prop
  | ignored (n : Nat) : r.type = some .ignored → Outcome (.pending { s with ignoresReceived := n })
  | counted : s.highestNackProposal = none → r.Grants → r.ReportsUnlearned s.position →
      Outcome (.pending (s.count r))
  | accepted : s.highestNackProposal = none → r.Grants → r.ReportsUnlearned s.position →
      quorum ≤ s.responsesReceived + 1 →
      Outcome (.set { type := some .accept, okay := true, action := (s.count r).highestAckAction })
  | learned (a : Action) : r.Grants → r.action = some a → a.learned = true → a.position = s.position →
      Outcome (.set r)
  | rejected (s' : ExplicitPromise) : s'.proposal = s.proposal → s'.position = s.position →
      s'.highestAckAction = s.highestAckAction → s'.highestNackProposal ≠ none → Outcome (.pending s')
  | lost (result : PromiseResponse) : result.okay = false → Outcome (.set result)
  | abort : Outcome .abort

end

theorem check_count {s : ExplicitPromise} {r : PromiseResponse} (hn : s.highestNackProposal = none)
    (hg : r.Grants) (hu : r.ReportsUnlearned s.position) : Outcome quorum s r (check quorum (s.count r)) := by
  have hr : (s.count r).highestNackProposal = none := hn
  unfold check result
  rw [hr]
  split
  · exact .accepted hn hg hu ‹_›
  · exact .counted hn hg hu

theorem received_outcome (s : ExplicitPromise) (r : PromiseResponse) : Outcome quorum s r (s.received quorum r) := by
  unfold received
  by_cases hi : r.type = some .ignored
  · rw [if_pos hi]
    simp only
    split
    · exact .lost _ rfl
    · exact .ignored _ hi
  rw [if_neg hi]
  by_cases hr : isRejectedPromise r = true
  · obtain ⟨_, hm, -, -⟩ := raise_spec s.highestNackProposal r.proposal
    rw [if_pos hr, hm]
    unfold check result
    split
    · exact .lost _ rfl
    · exact .rejected _ rfl rfl rfl (by simp)
  rw [if_neg hr]
  cases hn : s.highestNackProposal with
  | some =>
    simp only [Option.isSome_some, if_true]
    unfold check result
    split
    · exact .lost _ rfl
    · exact .rejected _ rfl rfl rfl (by simp)
  | none =>
    simp only [Option.isSome_none, Bool.false_eq_true, if_false]
    have hg : r.Grants := ⟨hi, by simpa using hr⟩
    split
    · exact .abort
    cases ha : r.action with
    | none =>
      simp only
      split
      next hp =>
        have ho := check_count quorum hn hg (.inl ⟨ha, hp⟩)
        simpa only [count, ha, hn] using ho
      · exact .abort
    | some a =>
      simp only
      by_cases hp : a.position = s.position
      · rw [if_neg (not_not.2 hp)]
        by_cases hl : a.learned = true
        · rw [if_pos hl]
          exact .learned a hg ha hl hp
        rw [if_neg hl]
        have ho := check_count quorum hn hg (.inr ⟨a, ha, hp, by simpa using hl⟩)
        split
        next hf =>
          simpa only [count, ha, hf, hn, if_true] using ho
        next hf =>
          simpa only [count, ha, hf, hn, if_false, Bool.false_eq_true] using ho
      · rw [if_pos hp]
        exact .abort

end ExplicitPromise

namespace Write

section

variable (quorum : Nat) (s : Write) (r : WriteResponse)

inductive Outcome : Received Write WriteResponse → Prop
  | ignored (n : Nat) : r.type = some .ignored → Outcome (.pending { s with ignoresReceived := n })
  | counted : s.highestNackProposal = none → r.Grants →
      Outcome (.pending { s with responsesReceived := s.responsesReceived + 1 })
  | accepted : s.highestNackProposal = none → r.Grants → quorum ≤ s.responsesReceived + 1 →
      Outcome (.set { type := some .accept, okay := true })
  | rejected (s' : Write) : s'.request = s.request → s'.highestNackProposal ≠ none → Outcome (.pending s')
  | lost (result : WriteResponse) : result.okay = false → Outcome (.set result)
  | abort : Outcome .abort

end

theorem received_outcome (s : Write) (r : WriteResponse) : Outcome quorum s r (s.received quorum r) := by
  unfold received
  split
  · exact .abort
  by_cases hi : r.type = some .ignored
  · rw [if_pos hi]
    simp only
    split
    · exact .lost _ rfl
    · exact .ignored _ hi
  rw [if_neg hi]
  by_cases hr : isRejectedWrite r = true
  · obtain ⟨_, hm, -, -⟩ := raise_spec s.highestNackProposal r.proposal
    rw [if_pos hr, hm]
    unfold check
    split
    · exact .lost _ rfl
    · exact .rejected _ rfl (by simp)
  rw [if_neg hr]
  have hg : r.Grants := ⟨hi, by simpa using hr⟩
  unfold check
  cases hn : s.highestNackProposal with
  | some =>
    split
    · exact .lost _ rfl
    · exact .rejected _ rfl (by simp)
  | none =>
    split
    · exact .accepted hn hg ‹_›
    · have ho := @Outcome.counted quorum s r hn hg
      simpa only [hn] using ho

theorem received_request {quorum : Nat} {s s' : Write} {r : WriteResponse} (h : s.received quorum r = .pending s') :
    s'.request = s.request := by
  have ho := s.received_outcome quorum r
  rw [h] at ho
  cases ho with
  | ignored | counted => rfl
  | rejected _ hr => exact hr

end Write

def Action.reproposed (a : Action) (proposal : Nat) : Action :=
  { a with promised := proposal, performed := some proposal }

namespace Fill

def noop (f : Fill) : Action :=
  { position := f.position, promised := f.proposal, performed := some f.proposal, value := some (.nop false) }

section

variable (quorum : Nat) (f : Fill) (r : PromiseResponse)

inductive PromiseOutcome : Fill → Option Output → Prop
  | idle : PromiseOutcome f none
  | pending (s s' : ExplicitPromise) : f.phase = .promising s → s.received quorum r = .pending s' →
      PromiseOutcome { f with phase := .promising s' } none
  | stopped : PromiseOutcome { f with phase := .stopped } none
  | retrying (n : Nat) : f.proposal ≤ n →
      PromiseOutcome { f with proposal := n + 1, phase := .retrying } none
  | relayed (s : ExplicitPromise) (result : PromiseResponse) (a : Action) (v : Value) : f.phase = .promising s →
      s.received quorum r = .set result → result.okay = true → result.action = some a → a.value = some v →
      a.position = f.position → a.learned = true →
      PromiseOutcome { f with phase := .filled (a.reproposed f.proposal) }
        (some (.learned (a.reproposed f.proposal)))
  | rewritten (s : ExplicitPromise) (result : PromiseResponse) (a : Action) (v : Value) : f.phase = .promising s →
      s.received quorum r = .set result → result.okay = true → result.action = some a → a.value = some v →
      a.position = f.position → a.learned = false →
      PromiseOutcome (f.runWritePhase (a.reproposed f.proposal) v).1
        (f.runWritePhase (a.reproposed f.proposal) v).2
  | fresh (s : ExplicitPromise) (result : PromiseResponse) : f.phase = .promising s →
      s.received quorum r = .set result → result.okay = true → result.action = none →
      PromiseOutcome (f.runWritePhase f.noop (.nop false)).1 (f.runWritePhase f.noop (.nop false)).2

end

theorem retry_outcome (f : Fill) (r : PromiseResponse) (n : Nat) :
    PromiseOutcome quorum f r (f.retry n).1 (f.retry n).2 := by
  unfold retry
  split
  · exact .stopped
  · exact .retrying n (by omega)

theorem promiseReceived_outcome (f : Fill) (r : PromiseResponse) :
    PromiseOutcome quorum f r (f.promiseReceived quorum r).1 (f.promiseReceived quorum r).2 := by
  unfold promiseReceived
  split
  next s hs =>
    split
    · exact .pending s _ hs ‹_›
    next result hr =>
      unfold checkPromisePhase
      cases ho : result.okay with
      | false =>
        exact retry_outcome quorum f r _
      | true =>
        simp only [Bool.not_true, Bool.false_eq_true, if_false]
        cases ha : result.action with
        | none => exact .fresh s result hs hr ho ha
        | some a =>
          simp only
          cases hv : a.value with
          | none => exact .stopped
          | some v =>
            simp only
            split
            · exact .stopped
            rename_i hp
            have hp : a.position = f.position := not_not.1 hp
            cases hl : a.learned with
            | true =>
              have hout := PromiseOutcome.relayed s result a v hs hr ho ha hv hp hl
              simpa only [Action.reproposed, hv, hl, if_true, runLearnPhase] using hout
            | false =>
              have hout := PromiseOutcome.rewritten s result a v hs hr ho ha hv hp hl
              simpa only [Action.reproposed, hv, hl, Bool.false_eq_true, if_false] using hout
    · exact .stopped
  · exact .idle

section

variable (quorum : Nat) (f : Fill) (r : WriteResponse)

inductive WriteOutcome : Fill → Option Output → Prop
  | idle : WriteOutcome f none
  | pending (a : Action) (s s' : Write) : f.phase = .writing a s → s.received quorum r = .pending s' →
      WriteOutcome { f with phase := .writing a s' } none
  | stopped : WriteOutcome { f with phase := .stopped } none
  | retrying (n : Nat) : f.proposal ≤ n →
      WriteOutcome { f with proposal := n + 1, phase := .retrying } none
  | written (a : Action) (s : Write) (result : WriteResponse) : f.phase = .writing a s →
      s.received quorum r = .set result → result.okay = true →
      WriteOutcome { f with phase := .filled { a with learned := true } }
        (some (.learned { a with learned := true }))

end

theorem writeReceived_outcome (f : Fill) (r : WriteResponse) :
    WriteOutcome quorum f r (f.writeReceived quorum r).1 (f.writeReceived quorum r).2 := by
  unfold writeReceived
  split
  next a s hs =>
    split
    · exact .pending a s _ hs ‹_›
    next result hr =>
      unfold checkWritePhase
      cases ho : result.okay with
      | false =>
        simp only [Bool.not_false, if_true]
        unfold retry
        split
        · exact .stopped
        · exact .retrying _ (by omega)
      | true => exact .written a s result hs hr ho
    · exact .stopped
  · exact .idle

end Fill

namespace Coordinator

def action (c : Coordinator) (v : Value) : Action :=
  { position := c.index, promised := c.proposal, performed := some c.proposal, value := some v }

def Input.value? : Input → Option Value
  | .append bytes => some (.append bytes)
  | .truncate target => some (.truncate target)
  | _ => none

section

variable (quorum : Nat) (c : Coordinator) (x : Input)

inductive Outcome : Coordinator → Option Output → Prop
  | idle : Outcome c none
  | halts (n : Nat) : c.proposal ≤ n → Outcome { c with state := .initial, proposal := n } none
  | aborts : Outcome c.abort none
  | elects : c.state = .initial → Outcome { c with state := .electing .lastProposal } none
  | campaigns (n : Nat) : c.state = .electing .lastProposal → x = .promised n →
      Outcome (c.updateProposal n).runPromisePhase.1 (c.updateProposal n).runPromisePhase.2
  | counts (s s' : ImplicitPromise) (r : PromiseResponse) : c.state = .electing (.promising s) →
      x = .promiseResponse r → s.received quorum r = .pending s' →
      Outcome { c with state := .electing (.promising s') } none
  | wins (s : ImplicitPromise) (r result : PromiseResponse) (e : Nat) : c.state = .electing (.promising s) →
      x = .promiseResponse r → s.received quorum r = .set result → result.type = some .accept →
      result.position = some e → Outcome { c with state := .electing .missing, index := e } none
  | catches (u : CatchUp) : c.state = .electing .missing →
      Outcome { c with state := .electing (.catchingUp u) } none
  | catching (u u' : CatchUp) (out : Option Output) : c.state = .electing (.catchingUp u) →
      (∀ o, out = some o → ∃ n p, o = .fill n p) →
      Outcome { c with state := .electing (.catchingUp u') } out
  | elected (u : CatchUp) : c.state = .electing (.catchingUp u) → Outcome c.updateIndexAfterElected none
  | writes (v : Value) : c.state = .elected → x.value? = some v →
      Outcome
        { c with state := .writing (.writing (c.action v) { request := writeRequest c.proposal (c.action v) v }) }
        (some (.write (writeRequest c.proposal (c.action v) v)))
  | countsWrite (a : Action) (s s' : Write) (r : WriteResponse) : c.state = .writing (.writing a s) →
      x = .writeResponse r → s.received quorum r = .pending s' →
      Outcome { c with state := .writing (.writing a s') } none
  | refused (n : Nat) : c.refuses quorum x = true → c.proposal ≤ n →
      Outcome { c with state := .elected, proposal := n } none
  | written (a : Action) (s : Write) (r result : WriteResponse) : c.state = .writing (.writing a s) →
      x = .writeResponse r → s.received quorum r = .set result → result.okay = true →
      Outcome { c with state := .writing (.learning a) } (some (.learned { a with learned := true }))
  | learned (a : Action) : c.state = .writing (.learning a) →
      Outcome { c with state := .elected, index := c.index + 1 } none

end

theorem write_outcome (c : Coordinator) {x : Input} {v : Value} (hx : x.value? = some v) :
    Outcome quorum c x (c.write v).1 (c.write v).2.2 := by
  unfold write
  split
  · exact .idle
  · exact .idle
  · exact .idle
  next hs =>
    exact .writes v hs hx
  · exact .idle

theorem promiseReceived_outcome (c : Coordinator) (r : PromiseResponse) :
    Outcome quorum c (.promiseResponse r) (c.promiseReceived quorum r) none := by
  unfold promiseReceived
  split
  next s hs =>
    split
    · exact .counts s _ r hs rfl ‹_›
    next result hr =>
      unfold checkPromisePhase
      split
      · exact .halts c.proposal le_rfl
      · split
        · exact .halts _ ‹_›
        · exact .aborts
      next ht =>
        split
        · exact .wins s r result _ hs rfl hr ht ‹_›
        · exact .aborts
      · exact .aborts
    · exact .aborts
  · exact .idle

theorem writeReceived_outcome (c : Coordinator) (r : WriteResponse) :
    Outcome quorum c (.writeResponse r) (c.writeReceived quorum r).1 (c.writeReceived quorum r).2 := by
  unfold writeReceived
  split
  next a s hs =>
    split
    · exact .countsWrite a s _ r hs rfl ‹_›
    next result hr =>
      unfold checkWritePhase
      cases ho : result.okay with
      | false =>
        simp only [Bool.not_false, if_true]
        split
        · exact .refused _ (by simp [refuses, hs, hr, ho]) ‹_›
        · exact .aborts
      | true => exact .written a s r result hs rfl hr ho
    · exact .aborts
  · exact .idle

theorem catchup_checked_output (u : CatchUp) (missing : Bool) (f : Nat) :
    ∀ o, (u.checked missing f).2 = some o → ∃ n p, o = .fill n p := by
  intro _ ho
  unfold CatchUp.checked at ho
  split at ho
  · split at ho
    · cases ho
      exact ⟨_, _, rfl⟩
    · cases ho
  · cases ho

/-- **Every input has one of the outcomes.** -/
theorem step_outcome (c : Coordinator) (x : Input) : Outcome quorum c x (c.step quorum x).1 (c.step quorum x).2 := by
  cases x with
  | elect =>
    unfold step elect
    simp only
    split
    · exact .idle
    · exact .idle
    · exact .idle
    · exact .elects ‹_›
    · exact .idle
  | demote =>
    unfold step demote
    simp only
    split
    · exact .idle
    · exact .idle
    · exact .idle
    · exact .halts c.proposal le_rfl
    · exact .idle
  | append | truncate => exact write_outcome quorum c rfl
  | abandon =>
    unfold step abandon
    simp only
    split
    · exact .halts c.proposal le_rfl
    · exact .halts c.proposal le_rfl
    · exact .idle
  | promised n =>
    unfold step
    simp only
    split
    · exact .campaigns n ‹_› rfl
    · exact .idle
  | promiseResponse r => exact promiseReceived_outcome quorum c r
  | missing =>
    unfold step
    simp only
    split
    · exact .catches _ ‹_›
    · exact .idle
  | checked missing f =>
    show Outcome quorum c _ (c.catchupChecked missing f).1 (c.catchupChecked missing f).2
    unfold catchupChecked
    split
    next u hs =>
      split
      · exact .elected u hs
      · exact .catching u _ _ hs (catchup_checked_output u missing f)
    · exact .idle
  | filled a =>
    show Outcome quorum c _ (c.catchupFilled a) none
    unfold catchupFilled
    split
    next u hs =>
      split
      · exact .catching u _ _ hs nofun
      · exact .aborts
    · exact .idle
  | timedout =>
    show Outcome quorum c _ c.catchupTimedout none
    unfold catchupTimedout
    split
    next u hs =>
      exact .catching u _ _ hs nofun
    · exact .idle
  | writeResponse r => exact writeReceived_outcome quorum c r
  | learned =>
    unfold step
    simp only
    split
    next a hs =>
      unfold updateIndexAfterWritten
      split
      · exact .aborts
      · exact .learned a hs
    · exact .idle

theorem step_write {quorum : Nat} {c : Coordinator} {x : Input} {request : WriteRequest}
    (h : (c.step quorum x).2 = some (.write request)) :
    ∃ v, c.state = .elected ∧ x.value? = some v ∧ request = writeRequest c.proposal (c.action v) v := by
  have ho := step_outcome quorum c x
  rw [h] at ho
  generalize (c.step quorum x).1 = c' at ho
  generalize hout : some (Output.write request) = out at ho
  cases ho with
  | writes v hs hv =>
    cases hout
    exact ⟨v, hs, hv, rfl⟩
  | catching _ _ _ _ hf =>
    obtain ⟨_, _, he⟩ := hf _ hout.symm
    cases he
  | _ => cases hout

end Coordinator

end Clusterd.Log

/-!
# What a coordinator holds

A coordinator that is elected, and was not refused a write since, writes under a number it has won; one that campaigns has
counted only promises of its number.  What it is to have won, and to have counted, is left open (`Backing`): a number of
responses for a coordinator taken alone, a quorum of replicas in the cluster.  One step keeps what a coordinator holds
(`Coordinator.Holds.outcome`), given that its responses are counted.
-/
namespace Clusterd.Log

/-- What counts as evidence for a coordinator: for a promise phase, for a number won with no end reported beyond some
position, for a write phase. -/
structure Backing where
  campaign : ImplicitPromise → Prop
  won : Nat → Nat → Prop
  writing : Action → Write → Prop

def Coordinator.Holds (b : Backing) (c : Coordinator) (refused : Bool) : Prop :=
  match c.state with
  | .electing (.promising s) => s.proposal = c.proposal ∧ b.campaign s
  | .electing .missing | .electing (.catchingUp _) => b.won c.proposal c.index
  | .elected | .writing (.learning _) => refused = false → ∃ e < c.index, b.won c.proposal e
  | .writing (.writing a s) =>
    (s.request.proposal = c.proposal ∧ a.position = c.index ∧ b.writing a s) ∧
      (refused = false → ∃ e < c.index, b.won c.proposal e)
  | .initial | .electing .lastProposal | .aborted => True

structure Backing.Next (quorum : Nat) (c : Coordinator) (x : Coordinator.Input) (out : Option Output) (b b' : Backing) :
    Prop where
  won : ∀ n e, b.won n e → b'.won n e
  campaign : out = none → ∀ s, b.campaign s → b'.campaign s
  writing : out = none → ∀ a s, b.writing a s → b'.writing a s
  starts : ∀ n, out = some (.promise { proposal := n }) → b'.campaign { proposal := n }
  counts : ∀ r s s', c.state = .electing (.promising s) → x = .promiseResponse r →
    s.received quorum r = .pending s' → b.campaign s → b'.campaign s' ∧ s'.proposal = s.proposal
  wins : ∀ r s result e, c.state = .electing (.promising s) → x = .promiseResponse r →
    s.received quorum r = .set result → result.type = some .accept → result.position = some e → b.campaign s →
    b'.won s.proposal e
  writes : ∀ v, x.value? = some v → out = some (.write (writeRequest c.proposal (c.action v) v)) →
    b'.writing (c.action v) { request := writeRequest c.proposal (c.action v) v }
  countsWrite : ∀ r a s s', x = .writeResponse r → s.received quorum r = .pending s' → b.writing a s → b'.writing a s'

namespace Coordinator

variable {c : Coordinator} {quorum : Nat} {x : Input}

theorem Holds.mono {refused refused' : Bool} {b b' : Backing} (h : c.Holds b refused)
    (hw : ∀ n e, b.won n e → b'.won n e) (hc : ∀ s, b.campaign s → b'.campaign s)
    (hwr : ∀ a s, b.writing a s → b'.writing a s) (hr : refused' = false → refused = false) : c.Holds b' refused' := by
  have hwon : (refused = false → ∃ e < c.index, b.won c.proposal e) → refused' = false →
      ∃ e < c.index, b'.won c.proposal e := by
    intro h hf
    obtain ⟨e, he, hwe⟩ := h (hr hf)
    exact ⟨e, he, hw _ _ hwe⟩
  unfold Holds at h ⊢
  split at h
  · exact ⟨h.1, hc _ h.2⟩
  · exact hw _ _ h
  · exact hw _ _ h
  · exact hwon h
  · exact hwon h
  · exact ⟨⟨h.1.1, h.1.2.1, hwr _ _ h.1.2.2⟩, hwon h.2⟩
  · trivial
  · trivial
  · trivial

/-- **A coordinator keeps what it holds.** -/
theorem Holds.outcome {c' : Coordinator} {refused refused' : Bool} {out : Option Output}
    {b b' : Backing} (h : c.Holds b refused) (ho : Outcome quorum c x c' out) (hn : b.Next quorum c x out b')
    (hr : refused' = false → refused = false ∧ c.refuses quorum x = false) : c'.Holds b' refused' := by
  have hwon : (refused = false → ∃ e < c.index, b.won c.proposal e) → refused' = false →
      ∃ e < c.index, b'.won c.proposal e := by
    intro h hf
    obtain ⟨e, he, hw⟩ := h (hr hf).1
    exact ⟨e, he, hn.won _ _ hw⟩
  have hold := h
  unfold Holds at h
  cases ho with
  | idle => exact hold.mono hn.won (hn.campaign rfl) (hn.writing rfl) (fun hf => (hr hf).1)
  | halts | aborts | elects => trivial
  | campaigns => exact ⟨rfl, hn.starts _ rfl⟩
  | counts s s' r hs hx hp =>
    rw [hs] at h
    obtain ⟨hc, hpr⟩ := hn.counts r s s' hs hx hp h.2
    exact ⟨hpr.trans h.1, hc⟩
  | wins s r result e hs hx hp ht he =>
    rw [hs] at h
    have hw := hn.wins r s result e hs hx hp ht he h.2
    rw [h.1] at hw
    exact hw
  | catches u hs | catching u u' out hs =>
    rw [hs] at h
    exact hn.won _ _ h
  | elected _ hs =>
    rw [hs] at h
    exact fun _ => ⟨_, Nat.lt_succ_self _, hn.won _ _ h⟩
  | writes v hs hv =>
    rw [hs] at h
    exact ⟨⟨rfl, rfl, hn.writes v hv rfl⟩, hwon h⟩
  | countsWrite a s s' r hs hx hp =>
    rw [hs] at h
    obtain ⟨⟨h1, h2, h3⟩, h4⟩ := h
    have hreq := congrArg WriteRequest.proposal (Write.received_request hp)
    exact ⟨⟨hreq.trans h1, h2, hn.countsWrite r a s s' hx hp h3⟩, hwon h4⟩
  | refused _ href =>
    intro hf
    rw [(hr hf).2] at href
    cases href
  | written _ _ _ _ hs =>
    rw [hs] at h
    exact hwon h.2
  | learned _ hs =>
    rw [hs] at h
    intro hf
    obtain ⟨e, he, hw⟩ := hwon h hf
    exact ⟨e, Nat.lt_succ_of_lt he, hw⟩

theorem state_of_refuses (h : c.refuses quorum x = true) :
    (c.step quorum x).1.state = .elected ∨ (c.step quorum x).1.state = .aborted := by
  unfold refuses at h
  split at h
  · split at h
    next hs =>
      split at h
      next hr =>
        simp only [step, writeReceived, hs, hr, checkWritePhase, h, if_true]
        split
        · exact .inl rfl
        · exact .inr rfl
      · cases h
    · cases h
  · cases h

end Coordinator

namespace Client

def Holds (b : Backing) (k : Client) : Prop := k.coordinator.Holds b k.refused

variable {k : Client} {x : Coordinator.Input} {quorum : Nat}

theorem refused_step (hd : ¬(x = .demote ∧ k.coordinator.state = .elected)) (h : (k.step quorum x).1.refused = false) :
    k.refused = false ∧ k.coordinator.refuses quorum x = false := by
  unfold step at h
  split at h
  · cases h
  next hf =>
    exact ⟨h, by simpa using hf⟩

theorem holds_of_refuses (b : Backing) (h : k.coordinator.refuses quorum x = true) : (k.step quorum x).1.Holds b := by
  have hr : (k.step quorum x).1.refused = true := by simp [step, h]
  have hs : (k.step quorum x).1.coordinator.state = .elected ∨ (k.step quorum x).1.coordinator.state = .aborted :=
    Coordinator.state_of_refuses h
  unfold Holds Coordinator.Holds
  rw [hr]
  rcases hs with hs | hs
  · rw [hs]
    exact nofun
  · rw [hs]
    trivial

theorem Holds.step {b b' : Backing} (h : k.Holds b)
    (hn : k.coordinator.refuses quorum x = false → b.Next quorum k.coordinator x (k.step quorum x).2 b') :
    (k.step quorum x).1.Holds b' := by
  by_cases hr : k.coordinator.refuses quorum x = true
  · exact holds_of_refuses b' hr
  have hn := hn (by simpa using hr)
  by_cases hd : x = .demote ∧ k.coordinator.state = .elected
  · obtain ⟨rfl, hs⟩ := hd
    have hst : (k.step quorum .demote).1.coordinator.state = .initial := by
      show (k.coordinator.step quorum .demote).1.state = .initial
      simp [Coordinator.step, Coordinator.demote, hs]
    unfold Holds Coordinator.Holds
    rw [hst]
    trivial
  · exact Coordinator.Holds.outcome h (Coordinator.step_outcome quorum k.coordinator x) hn (refused_step hd)

theorem Obeys.refused (h : k.Obeys x) {v : Value} (hv : x.value? = some v) : k.refused = false := by
  cases x with
  | append | truncate => exact h
  | _ => cases hv

/-- **A client that heeds its refusals writes under a number its coordinator has won**, beyond every end reported. -/
theorem Holds.writes {b : Backing} (h : k.Holds b) (hx : k.Obeys x)
    {request : WriteRequest} (hw : (k.step quorum x).2 = some (.write request)) :
    ∃ e < request.position, b.won request.proposal e := by
  obtain ⟨_, hs, hv, rfl⟩ := Coordinator.step_write hw
  unfold Holds Coordinator.Holds at h
  rw [hs] at h
  exact h (hx.refused hv)

end Client

/-! ## The numbers of the rejections -/

open Received Replica List

/-- A response to a request under `n`: a rejection carries at least `n`. -/
@[grind] def Bounds (n : Nat) (type : Option ResponseType) (okay : Bool) (proposal : Nat) : Prop :=
  type = some .ignored ∨ type = some .accept ∧ okay = true ∨ type = some .reject ∧ n ≤ proposal

abbrev PromiseResponse.Bounds (n : Nat) (a : PromiseResponse) : Prop := Log.Bounds n a.type a.okay a.proposal

abbrev WriteResponse.Bounds (n : Nat) (a : WriteResponse) : Prop := Log.Bounds n a.type a.okay a.proposal

@[grind] def Nacks (n : Nat) (highest : Option Nat) : Prop := ∀ m, highest = some m → n ≤ m

namespace Received

variable {σ τ υ : Type} {received : σ → υ → Received σ τ} {P : σ → Prop} {Q : τ → Prop}

@[grind] def Meets (P : σ → Prop) (Q : τ → Prop) : Received σ τ → Prop
  | pending s => P s
  | set result => Q result
  | abort => True

/-- The responses come in one after the other, until the phase has a result. -/
def run (received : σ → υ → Received σ τ) (s : σ) (answers : List υ) : Received σ τ :=
  answers.foldl (fun x a =>
    match x with
    | pending s => received s a
    | x => x) (pending s)

theorem run_set {s : σ} {answers : List υ} {result : τ} (hr : run received s answers = .set result) (hs : P s)
    (h : ∀ s, ∀ a ∈ answers, P s → (received s a).Meets P Q) : Q result := by
  have hm : (run received s answers).Meets P Q := by
    refine answers.foldlRecOn _ (motive := Meets P Q) hs fun x hx a ha => ?_
    cases x with
    | pending s => exact h s a ha hx
    | set => exact hx
    | abort => exact hx
  rwa [hr] at hm

theorem run_of_ended {x : Received σ τ} (hx : ∀ s, x ≠ pending s) (answers : List υ) :
    answers.foldl (fun x a =>
      match x with
      | pending s => received s a
      | x => x) x = x := by
  induction answers with
  | nil => rfl
  | cons a answers ih =>
    cases x with
    | pending s => exact absurd rfl (hx s)
    | set => exact ih
    | abort => exact ih

/-- A phase goes on with the rest of the responses exactly if the first one does not end it. -/
theorem run_cons {s : σ} {a : υ} {answers : List υ} {result : τ} : run received s (a :: answers) = .set result ↔
    received s a = .set result ∨ ∃ s', received s a = .pending s' ∧ run received s' answers = .set result := by
  unfold run
  rw [foldl_cons]
  show foldl _ (received s a) answers = _ ↔ _
  cases received s a with
  | pending s' => simp
  | set => rw [run_of_ended nofun]; simp
  | abort => rw [run_of_ended nofun]; simp

end Received

section

variable {n : Nat} {a : PromiseResponse} {b : WriteResponse} {r : Replica}

theorem Nacks.raise {k : Nat} {highest : Option Nat} (h : Nacks n highest) (hk : n ≤ k) : Nacks n (raise highest k) := by
  unfold Nacks Log.raise at *
  grind

theorem ExplicitPromise.received_bounds (s : ExplicitPromise) (hs : Nacks n s.highestNackProposal) (ha : a.Bounds n) :
    (s.received quorum a).Meets (fun s => Nacks n s.highestNackProposal) (·.Bounds n) := by
  unfold received check result
  rcases ha with ht | ⟨ht, ho⟩ | ⟨ht, hp⟩
  · grind
  · grind [isRejectedPromise]
  · have hr := hs.raise hp
    grind [isRejectedPromise]

theorem ImplicitPromise.received_bounds (s : ImplicitPromise) (hs : Nacks n s.highestNackProposal) (ha : a.Bounds n) :
    (s.received quorum a).Meets (fun s => Nacks n s.highestNackProposal) (·.Bounds n) := by
  unfold received check
  rcases ha with ht | ⟨ht, ho⟩ | ⟨ht, hp⟩
  · grind
  · grind [isRejectedPromise]
  · have hr := hs.raise hp
    grind [isRejectedPromise]

theorem Write.received_bounds (s : Write) (hs : Nacks n s.highestNackProposal) (hb : b.Bounds n) :
    (s.received quorum b).Meets (fun s => Nacks n s.highestNackProposal) (·.Bounds n) := by
  unfold received check
  rcases hb with ht | ⟨ht, ho⟩ | ⟨ht, hp⟩
  · grind
  · grind [isRejectedWrite]
  · have hr := hs.raise hp
    grind [isRejectedWrite]

theorem Replica.promise_bounds {request : PromiseRequest} (h : (r.promise request).2 = some a) :
    a.Bounds request.proposal := by
  unfold promise at h
  grind

theorem Replica.write_bounds {request : WriteRequest} (h : (r.write request).2 = some b) :
    b.Bounds request.proposal := by
  unfold write at h
  grind

end

/-! ## Responses that ignore a request -/

/-- What a response is to the process that counts it. -/
inductive ResponseKind
  | ignored
  | rejected
  | learned
  | granted
deriving DecidableEq

def PromiseResponse.kind (a : PromiseResponse) : ResponseKind :=
  if a.type = some .ignored then .ignored
  else if isRejectedPromise a then .rejected
  else if a.action.any (·.learned) then .learned
  else .granted

def WriteResponse.kind (a : WriteResponse) : ResponseKind :=
  if a.type = some .ignored then .ignored else if isRejectedWrite a then .rejected else .granted

/-- Added to `ignores` and `responses` that came before, a quorum of the answers are IGNORED before a quorum of the others has
come, and before a learned action that no rejection precedes. -/
def IgnoredFirst (quorum ignores responses : Nat) (nacked : Bool) (answers : List ResponseKind) : Prop :=
  ∃ front, front <+: answers ∧ quorum ≤ ignores + front.count .ignored ∧
    responses + front.length < quorum + front.count .ignored ∧
    (nacked = false → ∀ before, before ++ [.learned] <+: front → .rejected ∈ before)

section

variable {quorum ignores responses : Nat} {nacked : Bool} {answers : List ResponseKind} {a : ResponseKind}

theorem ignoredFirst_of_quorum (hi : quorum ≤ ignores) (hr : responses < quorum) :
    IgnoredFirst quorum ignores responses nacked answers :=
  ⟨[], nil_prefix, hi, hr, fun _ before h => by simp at h⟩

theorem not_ignoredFirst (hr : quorum ≤ responses) : ¬ IgnoredFirst quorum ignores responses nacked answers := by
  rintro ⟨front, -, -, hlt, -⟩
  have := front.count_le_length (a := ResponseKind.ignored)
  omega

/-- An answer that is IGNORED is counted. -/
theorem ignoredFirst_ignored (hi : ignores < quorum) : IgnoredFirst quorum ignores responses nacked (.ignored :: answers) ↔
    IgnoredFirst quorum (ignores + 1) responses nacked answers := by
  constructor
  · rintro ⟨_ | ⟨b, front⟩, hf, hq, hl, hn⟩
    · simp at hq
      omega
    obtain ⟨rfl, hfront⟩ := cons_prefix_cons.1 hf
    rw [count_cons_self] at hq hl
    rw [length_cons] at hl
    refine ⟨front, hfront, by omega, by omega, fun hna before hb => ?_⟩
    simpa using hn hna (.ignored :: before) (cons_prefix_cons.2 ⟨rfl, hb⟩)
  · rintro ⟨front, hf, hq, hl, hn⟩
    refine ⟨.ignored :: front, cons_prefix_cons.2 ⟨rfl, hf⟩, ?_, ?_, fun hna before hb => ?_⟩
    · rw [count_cons_self]
      omega
    · rw [count_cons_self, length_cons]
      omega
    · cases before with
      | nil => simp at hb
      | cons c before =>
        obtain ⟨rfl, hbefore⟩ := cons_prefix_cons.1 hb
        exact mem_cons_of_mem _ (hn hna before hbefore)

/-- Any other answer counts as a response, and must not be a learned action before any rejection. -/
theorem ignoredFirst_other (hi : ignores < quorum) (ha : a ≠ .ignored) :
    IgnoredFirst quorum ignores responses nacked (a :: answers) ↔ (a = .learned → nacked = true) ∧
      IgnoredFirst quorum ignores (responses + 1) (nacked || a == .rejected) answers := by
  constructor
  · rintro ⟨_ | ⟨b, front⟩, hf, hq, hl, hn⟩
    · simp at hq
      omega
    obtain ⟨rfl, hfront⟩ := cons_prefix_cons.1 hf
    rw [count_cons_of_ne ha] at hq hl
    rw [length_cons] at hl
    refine ⟨fun hb => ?_, front, hfront, hq, by omega, fun hna before hbe => ?_⟩
    · by_contra hna
      have := hn (by simpa using hna) [] (by simp [hb])
      simp at this
    · rw [Bool.or_eq_false_iff] at hna
      have := hn hna.1 (b :: before) (cons_prefix_cons.2 ⟨rfl, hbe⟩)
      exact (mem_cons.1 this).resolve_left fun h => by simp [← h] at hna
  · rintro ⟨hlearned, front, hf, hq, hl, hn⟩
    refine ⟨a :: front, cons_prefix_cons.2 ⟨rfl, hf⟩, ?_, ?_, fun hna before hb => ?_⟩
    · rwa [count_cons_of_ne ha]
    · rw [count_cons_of_ne ha, length_cons]
      omega
    · cases before with
      | nil => simp [hna] at hlearned; simp at hb; exact absurd hb.symm hlearned
      | cons c before =>
        obtain ⟨rfl, hbefore⟩ := cons_prefix_cons.1 hb
        by_cases hc : c = .rejected
        · exact hc ▸ mem_cons_self
        · exact mem_cons_of_mem _ (hn (by simp [hna, hc]) before hbefore)

end

/-- What one response does to the counts of a phase, or which result it gives the phase. -/
structure Tallies {σ τ υ : Type} (quorum : Nat) (received : σ → υ → Received σ τ) (answer : υ → ResponseKind)
    (ignores responses : σ → Nat) (nacked : σ → Bool) (blank : τ) (type : τ → Option ResponseType) : Prop where
  ignored : ∀ s a, answer a = .ignored → received s a = .abort ∨ quorum ≤ ignores s + 1 ∧ received s a = .set blank ∨
    ∃ s', received s a = .pending s' ∧ ignores s + 1 < quorum ∧ ignores s' = ignores s + 1 ∧ responses s' = responses s ∧
      nacked s' = nacked s
  other : ∀ s a, answer a ≠ .ignored → received s a = .abort ∨
    (∃ result, received s a = .set result ∧ type result ≠ some .ignored ∧
      (quorum ≤ responses s + 1 ∨ answer a = .learned ∧ nacked s = false)) ∨
    ∃ s', received s a = .pending s' ∧ responses s + 1 < quorum ∧ (answer a = .learned → nacked s = true) ∧
      ignores s' = ignores s ∧ responses s' = responses s + 1 ∧ nacked s' = (nacked s || answer a == .rejected)

/-- **The result of a phase is IGNORED exactly if a quorum of its responses is, first.** -/
theorem Tallies.run {σ τ υ : Type} {quorum : Nat} {received : σ → υ → Received σ τ} {answer : υ → ResponseKind}
    {ignores responses : σ → Nat} {nacked : σ → Bool} {blank : τ} {type : τ → Option ResponseType}
    (h : Tallies quorum received answer ignores responses nacked blank type) {result : τ} :
    ∀ (answers : List υ) (s : σ), ignores s < quorum → responses s < quorum → run received s answers = .set result →
      IgnoredFirst quorum (ignores s) (responses s) (nacked s) (answers.map answer) ∧ result = blank ∨
        ¬ IgnoredFirst quorum (ignores s) (responses s) (nacked s) (answers.map answer) ∧ type result ≠ some .ignored
  | [], _, _, _, hr => by cases hr
  | a :: answers, s, hi, hre, hr => by
    rw [map_cons]
    by_cases ha : answer a = .ignored
    · rw [ha, ignoredFirst_ignored hi]
      rcases h.ignored s a ha with hab | ⟨hq, hset⟩ | ⟨s', hp, hlt, hi', hr', hn'⟩
      · simp [run_cons, hab] at hr
      · simp only [run_cons, hset, set.injEq, reduceCtorEq, false_and, exists_false, or_false] at hr
        exact .inl ⟨ignoredFirst_of_quorum hq hre, hr.symm⟩
      · simp only [run_cons, hp, reduceCtorEq, pending.injEq, exists_eq_left', false_or] at hr
        have ih := h.run answers s' (by omega) (by omega) hr
        rwa [hi', hr', hn'] at ih
    · rw [ignoredFirst_other hi ha]
      rcases h.other s a ha with hab | ⟨result', hset, ht, hend⟩ | ⟨s', hp, hlt, hl, hi', hr', hn'⟩
      · simp [run_cons, hab] at hr
      · simp only [run_cons, hset, set.injEq, reduceCtorEq, false_and, exists_false, or_false] at hr
        refine .inr ⟨fun hfirst => ?_, hr ▸ ht⟩
        rcases hend with hq | ⟨hlearned, hna⟩
        · exact not_ignoredFirst hq hfirst.2
        · cases hna.symm.trans (hfirst.1 hlearned)
      · simp only [run_cons, hp, reduceCtorEq, pending.injEq, exists_eq_left', false_or] at hr
        have ih := h.run answers s' (by omega) (by omega) hr
        rw [hi', hr', hn'] at ih
        rwa [and_iff_right hl]

theorem ExplicitPromise.tallies (quorum : Nat) : Tallies quorum (ExplicitPromise.received quorum) PromiseResponse.kind
    (·.ignoresReceived) (·.responsesReceived) (·.highestNackProposal.isSome) { type := some .ignored } (·.type) where
  ignored s a ha := by
    unfold PromiseResponse.kind at ha
    unfold received
    grind
  other s a ha := by
    unfold PromiseResponse.kind at *
    unfold received check result raise
    grind

theorem Write.tallies (quorum : Nat) : Tallies quorum (Write.received quorum) WriteResponse.kind
    (·.ignoresReceived) (·.responsesReceived) (·.highestNackProposal.isSome) { type := some .ignored } (·.type) where
  ignored s a ha := by
    unfold WriteResponse.kind at ha
    unfold received
    grind
  other s a ha := by
    unfold WriteResponse.kind at *
    unfold received check raise
    grind

/-- The responses to a promise request, and to a write request, of replicas that are in any state. -/
def promiseResponses (request : PromiseRequest) (rs : List Replica) : List PromiseResponse :=
  rs.filterMap fun r => (r.promise request).2

def writeResponses (request : WriteRequest) (rs : List Replica) : List WriteResponse :=
  rs.filterMap fun r => (r.write request).2

theorem bounds_of_promiseResponses {request : PromiseRequest} {rs : List Replica} :
    ∀ a ∈ promiseResponses request rs, a.Bounds request.proposal := fun a ha => by
  obtain ⟨r, -, hr⟩ := mem_filterMap.1 ha
  exact promise_bounds hr

theorem bounds_of_writeResponses {request : WriteRequest} {rs : List Replica} :
    ∀ a ∈ writeResponses request rs, a.Bounds request.proposal := fun a ha => by
  obtain ⟨r, -, hr⟩ := mem_filterMap.1 ha
  exact write_bounds hr

/-- **The checks on the numbers of the rejections hold exactly if** a quorum of IGNORED responses does not come first, or the
number is `0`; the coordinator's promise phase needs no condition. -/
theorem rejections_pass {quorum : Nat} (hquorum : 0 < quorum) (rs : List Replica) :
    (∀ (f : Fill) phase result, f.runPromisePhase.1.phase = .promising phase →
      run (ExplicitPromise.received quorum) phase (promiseResponses phase.request rs) = .set result → result.okay = false →
      ((f.checkPromisePhase result).1.phase = .retrying ↔
        (IgnoredFirst quorum 0 0 false ((promiseResponses phase.request rs).map (·.kind)) → f.proposal = 0))) ∧
    (∀ (f : Fill) a v phase result, (f.runWritePhase a v).1.phase = .writing a phase →
      run (Write.received quorum) phase (writeResponses phase.request rs) = .set result →
      ((f.checkWritePhase a result).1.phase ≠ .stopped ↔
        (IgnoredFirst quorum 0 0 false ((writeResponses phase.request rs).map (·.kind)) → f.proposal = 0))) ∧
    (∀ (c : Coordinator) phase result, c.runPromisePhase.1.state = .electing (.promising phase) →
      run (ImplicitPromise.received quorum) phase (promiseResponses phase.request rs) = .set result →
      result.type = some .reject → (c.checkPromisePhase result).state = .initial) ∧
    ∀ (c : Coordinator) v a phase result, c.state = .elected → (c.write v).1.state = .writing (.writing a phase) →
      run (Write.received quorum) phase (writeResponses phase.request rs) = .set result →
      ((c.checkWritePhase a result).1.state ≠ .aborted ↔
        (IgnoredFirst quorum 0 0 false ((writeResponses phase.request rs).map (·.kind)) → c.proposal = 0)) := by
  refine ⟨fun f phase result hp hr ho => ?_, fun f a v phase result hp hr => ?_, fun c phase result hp hr _ => ?_,
    fun c _ a phase result hc hp hr => ?_⟩
  · cases hp
    have hb : result.Bounds f.proposal :=
      run_set hr nofun fun s a ha hs => s.received_bounds hs (bounds_of_promiseResponses a ha)
    unfold Fill.checkPromisePhase Fill.retry
    rcases (ExplicitPromise.tallies quorum).run _ _ hquorum hquorum hr with ⟨hfirst, rfl⟩ | ⟨hfirst, ht⟩
    · refine ⟨fun h _ => ?_, fun h => ?_⟩
      · grind [Fill.stop]
      · have := h hfirst
        grind
    · refine iff_of_true ?_ fun h => absurd h hfirst
      grind
  · cases hp
    have hb : result.Bounds f.proposal :=
      run_set hr nofun fun s a ha hs => s.received_bounds hs (bounds_of_writeResponses a ha)
    unfold Fill.checkWritePhase Fill.retry Fill.runLearnPhase
    rcases (Write.tallies quorum).run _ _ hquorum hquorum hr with ⟨hfirst, rfl⟩ | ⟨hfirst, ht⟩
    · refine ⟨fun h _ => ?_, fun h => ?_⟩
      · grind [Fill.stop]
      · have := h hfirst
        grind
    · refine iff_of_true ?_ fun h => absurd h hfirst
      grind
  · cases hp
    have hb : result.Bounds c.proposal :=
      run_set hr nofun fun s a ha hs => s.received_bounds hs (bounds_of_promiseResponses a ha)
    unfold Coordinator.checkPromisePhase
    grind
  · rw [Coordinator.write, hc] at hp
    cases hp
    have hb : result.Bounds c.proposal :=
      run_set hr nofun fun s a ha hs => s.received_bounds hs (bounds_of_writeResponses a ha)
    unfold Coordinator.checkWritePhase
    rcases (Write.tallies quorum).run _ _ hquorum hquorum hr with ⟨hfirst, rfl⟩ | ⟨hfirst, ht⟩
    · refine ⟨fun h _ => ?_, fun h => ?_⟩
      · grind [Coordinator.abort]
      · have := h hfirst
        grind
    · refine iff_of_true ?_ fun h => absurd h hfirst
      grind

/-- The fill is rejected by a replica that has promised `5`, before one that is still empty has ignored it. -/
theorem rejections_pass_five : (({ position := 0, proposal := 1, phase := .retrying } : Fill).checkPromisePhase
    { type := some .reject, proposal := 5 }).1.phase = .retrying := by
  refine ((rejections_pass Nat.one_pos [((restore {}).update .voting).updatePromised 5, restore {}]).1 _ _ _ rfl rfl rfl).2
    fun h => ?_
  have hone := ((ignoredFirst_other (a := .rejected) Nat.one_pos (by decide)).1 h).2
  exact absurd hone (not_ignoredFirst (le_refl 1))

/-- **A quorum that ignores a request aborts the fill, and the coordinator.**  The phase ends without a number. -/
theorem ignored_aborts :
    let phase : Write := { request := { proposal := 1, position := 0, value := .append [] } }
    run (ExplicitPromise.received 1) { proposal := 1, position := 0 }
      (promiseResponses { proposal := 1, position := some 0 } [restore {}]) = .set { type := some .ignored } ∧
    (({ position := 0, proposal := 1, phase := .retrying } : Fill).checkPromisePhase
      { type := some .ignored }).1.phase = .stopped ∧
    run (Write.received 1) phase (writeResponses phase.request [restore {}]) = .set { type := some .ignored } ∧
    (({ state := .elected, proposal := 1 } : Coordinator).checkWritePhase { position := 0, promised := 1 }
      { type := some .ignored }).1.state = .aborted := ⟨rfl, rfl, rfl, rfl⟩

end Clusterd.Log
