import Clusterd.Fallible
/-!
# The contender for leadership

A contender joins its group, watches the membership it is given and withdraws.  Three promises tell how far it is, each with a
callback that completes it.  Two answers go wrong: a contender that withdraws before it knows of its membership leaves the call
of `contend` unanswered, and a repeated `withdraw` returns a pointer, which is a `bool` that is true.
-/
namespace Clusterd.Contender

/-- `none` while it is pending; none of them is discarded. -/
abbrev Future (α : Type) := Option (Except String α)

/-- The calls that are dispatched to the process. -/
inductive Message
  | joined
  | cancel
  | cancelled (result : Except String Bool)
deriving DecidableEq

/-- What a call of `withdraw` returns: a value, or the future of `withdrawing`. -/
inductive Reply
  | value (value : Bool)
  | promised
deriving DecidableEq

/-- The checks that abort the process. -/
inductive Check
  | candidacyReady
  | withdrawingOrWatching
  | watchingNone
  | contendingSome
deriving DecidableEq

structure World where
  /-- Its value is the future of `watching`. -/
  contending : Option (Future Unit) := none
  watching : Option (Future Unit) := none
  withdrawing : Option (Future Bool) := none
  candidacy : Future Unit := none
  mailbox : List Message := []
  /-- Whether `cancel` is to be dispatched once the candidacy is known. -/
  cancelling : Bool := false
  /-- How many calls of `Group::cancel` are pending. -/
  cancels : Nat := 0
  /-- The future `cancelled` of the membership, and whether the process waits for it. -/
  lost : Future Bool := none
  watched : Bool := false
  replies : List Reply := []
deriving DecidableEq

namespace World

variable (this : World)

def contend : World :=
  if this.contending.isSome then this else { this with contending := some none }

def cancel : World :=
  if this.candidacy = some (.ok ()) then { this with cancels := this.cancels + 1 }
  else { this with withdrawing := this.withdrawing.map (·.or (some (.ok false))) }

def withdraw : World :=
  match this.contending, this.withdrawing, this.candidacy with
  | none, _, _ => { this with replies := this.replies ++ [.value false] }
  -- `return withdrawing.get()`: a pointer to the promise.
  | some _, some _, _ => { this with replies := this.replies ++ [.value true] }
  | some _, none, none =>
    { this with withdrawing := some none, cancelling := true, replies := this.replies ++ [.promised] }
  | some _, none, some (.ok _) => cancel { this with withdrawing := some none, replies := this.replies ++ [.promised] }
  | some _, none, some (.error _) => { this with withdrawing := some none, replies := this.replies ++ [.value false] }

def cancelled (result : Except String Bool) : Except Check World :=
  if this.candidacy ≠ some (.ok ()) then .error .candidacyReady
  else if this.withdrawing = none ∧ this.watching = none then .error .withdrawingOrWatching
  else .ok { this with
    withdrawing := this.withdrawing.map (·.or (some result))
    watching := this.watching.map (·.or (some (result.map fun _ => ()))) }

def joined : Except Check World :=
  match this.watching, this.contending, this.candidacy with
  | some _, _, _ => .error .watchingNone
  | none, none, _ => .error .contendingSome
  | none, some outer, some (.error message) => .ok { this with contending := some (outer.or (some (.error message))) }
  | none, some outer, _ =>
    if this.withdrawing.isSome then .ok this
    else if outer.isSome then .ok { this with watching := some none }
    else .ok { this with
      contending := some (some (.ok ()))
      watching := some none
      watched := true
      mailbox := this.mailbox ++ (this.lost.map Message.cancelled).toList }

def receive : Message → Except Check World
  | .joined => this.joined
  | .cancel => .ok this.cancel
  | .cancelled result => this.cancelled result

end World

inductive Event
  | contend
  | withdraw
  /-- The future of `Group::join` completes, one of `Group::cancel`, or that of the membership. -/
  | join (result : Except String Unit)
  | cancelled (result : Except String Bool)
  | lose (result : Except String Bool)
  /-- The process takes the next message. -/
  | handle

section

variable (this : World)

def World.step : Event → Except Check World
  | .contend => .ok this.contend
  | .withdraw => .ok this.withdraw
  | .join result => .ok <|
    if this.contending.isSome ∧ this.candidacy = none then
      { this with
        candidacy := some result
        mailbox := this.mailbox ++ .joined :: if this.cancelling then [.cancel] else [] }
    else this
  | .cancelled result => .ok <|
    if this.cancels = 0 then this
    else { this with cancels := this.cancels - 1, mailbox := this.mailbox ++ [.cancelled result] }
  | .lose result => .ok <|
    if this.candidacy = some (.ok ()) ∧ this.lost = none then
      { this with
        lost := some result
        mailbox := this.mailbox ++ if this.watched then [.cancelled result] else [] }
    else this
  | .handle =>
    match this.mailbox with
    | [] => .ok this
    | message :: rest => receive { this with mailbox := rest } message

/-! ## Answers -/

/-- The futures of `join` and `cancel` have completed, and so have their callbacks. -/
def World.Done : Prop :=
  (this.contending.isSome → this.candidacy.isSome) ∧ this.cancels = 0 ∧ this.mailbox = []

/-- What a call of `withdraw` was answered. -/
def World.result : Reply → Future Bool
  | .value value => some (.ok value)
  | .promised => this.withdrawing.join

/-- **Every request is answered.** -/
structure Answers : Prop where
  outer : this.Done → ∀ future ∈ this.contending, future.isSome
  withdrawals : this.Done → ∀ reply ∈ this.replies, (this.result reply).isSome
  same : ∀ reply ∈ this.replies, ∀ other ∈ this.replies, this.result reply = this.result other
  /-- The loss of the membership completes the inner future, once its callback is run. -/
  inner : ∀ future ∈ this.watching, this.lost.isSome → this.mailbox = [] → future.isSome

/-- No one withdraws before a membership is watched, unless there will be none, nor again, unless the membership was
cancelled, nor before contending. -/
def Meets : Event → Prop
  | .contend => this.contending.isSome ∨ this.replies = []
  | .withdraw => this.contending = none ∨ this.withdrawing = some (some (.ok true)) ∨
    this.withdrawing = none ∧ (this.candidacy = some (.ok ()) → .joined ∉ this.mailbox)
  | .join result => this.withdrawing = none ∨ result ≠ .ok ()
  | .cancelled _ | .lose _ | .handle => True

end

instance (this : World) : (event : Event) → Decidable (Meets this event)
  | .contend | .withdraw | .join _ => by unfold Meets; infer_instance
  | .cancelled _ | .lose _ | .handle => isTrue trivial

/-- How a contender withdraws whose candidacy fails, with the message that is left to handle. -/
inductive Leaving : Option (Future Bool) → Bool → List Reply → List Message → Prop
  | stays : Leaving none false [] []
  | early : Leaving (some none) true [.promised] [.cancel]
  | done : Leaving (some (some (.ok false))) true [.promised] []
  | late : Leaving (some none) false [.value false] []

/-- Where a contender is. -/
inductive Phase : World → Prop
  | fresh (replies : List Reply) (hreplies : ∀ reply ∈ replies, reply = .value false) : Phase { replies }
  | joining : Phase { contending := some none }
  | leaving : Phase { contending := some none, withdrawing := some none, cancelling := true, replies := [.promised] }
  | refused (message : String) {withdrawing cancelling replies rest} (h : Leaving withdrawing cancelling replies rest) :
      Phase {
        contending := some none, candidacy := some (.error message), withdrawing, cancelling, replies
        mailbox := .joined :: rest }
  | failed (message : String) {withdrawing cancelling replies rest} (h : Leaving withdrawing cancelling replies rest) :
      Phase {
        contending := some (some (.error message)), candidacy := some (.error message), withdrawing, cancelling, replies
        mailbox := rest }
  | joined (lost : Future Bool) : Phase {
      contending := some none, candidacy := some (.ok ()), mailbox := [.joined], lost }
  | watching {inner : Future Unit} {withdrawing : Option (Future Bool)} {mailbox : List Message} {cancels : Nat}
      {lost : Future Bool} {replies : List Reply} (hmailbox : ∀ message ∈ mailbox, ∃ result, message = .cancelled result)
      (hinner : lost.isSome → mailbox = [] → inner.isSome) (hnone : withdrawing = none → replies = [])
      (hpending : withdrawing = some none → mailbox = [] → cancels ≠ 0)
      (hreplies : ∀ reply ∈ replies, reply = .promised ∨ reply = .value true ∧ withdrawing = some (some (.ok true))) :
      Phase {
        contending := some (some (.ok ())), candidacy := some (.ok ()), watching := some inner, withdrawing, mailbox
        cancels, lost, watched := true, replies }

theorem Phase.step {this : World} (h : Phase this) {event : Event} (hm : Meets this event) :
    ∃ next, this.step event = .ok next ∧ Phase next := by
  cases h with
  | fresh replies hrp =>
    cases event with
    | contend =>
      obtain hs | rfl : (none : Option (Future Unit)).isSome = true ∨ replies = [] := hm
      · cases hs
      · exact ⟨_, rfl, .joining⟩
    | withdraw => exact ⟨_, rfl, .fresh _ (by simpa [or_imp, forall_and] using hrp)⟩
    | join | cancelled | lose | handle => exact ⟨_, rfl, .fresh replies hrp⟩
  | joining =>
    cases event with
    | contend | cancelled | lose | handle => exact ⟨_, rfl, .joining⟩
    | withdraw => exact ⟨_, rfl, .leaving⟩
    | join result =>
      cases result with
      | ok => exact ⟨_, rfl, .joined none⟩
      | error message => exact ⟨_, rfl, .refused message .stays⟩
  | leaving =>
    cases event with
    | contend | cancelled | lose | handle => exact ⟨_, rfl, .leaving⟩
    | withdraw => simp [Meets] at hm
    | join result =>
      cases result with
      | ok => simp [Meets] at hm
      | error message => exact ⟨_, rfl, .refused message .early⟩
  | refused message h =>
    cases event with
    | contend | join | cancelled | lose => exact ⟨_, rfl, .refused message h⟩
    | withdraw =>
      cases h with
      | stays => exact ⟨_, rfl, .refused message .late⟩
      | early | done | late => simp [Meets] at hm
    | handle => exact ⟨_, rfl, .failed message h⟩
  | failed message h =>
    cases event with
    | contend | join | cancelled | lose => exact ⟨_, rfl, .failed message h⟩
    | withdraw =>
      cases h with
      | stays => exact ⟨_, rfl, .failed message .late⟩
      | early | done | late => simp [Meets] at hm
    | handle =>
      cases h with
      | stays => exact ⟨_, rfl, .failed message .stays⟩
      | early | done => exact ⟨_, rfl, .failed message .done⟩
      | late => exact ⟨_, rfl, .failed message .late⟩
  | joined lost =>
    cases event with
    | contend | join | cancelled => exact ⟨_, rfl, .joined lost⟩
    | withdraw => simp [Meets] at hm
    | lose => cases lost <;> exact ⟨_, rfl, .joined _⟩
    | handle =>
      -- From here on the contender waits for the loss, of which it may be told at once.
      cases lost with
      | none => exact ⟨_, rfl, .watching nofun nofun (fun _ => rfl) nofun nofun⟩
      | some => exact ⟨_, rfl, .watching (by simp) nofun (fun _ => rfl) nofun nofun⟩
  | @watching inner withdrawing mailbox cancels lost replies hma hin hno hpe hrp =>
    cases event with
    | contend | join => exact ⟨_, rfl, .watching hma hin hno hpe hrp⟩
    | withdraw =>
      obtain hc | rfl | ⟨rfl, -⟩ := hm
      · cases hc
      · have hrp' := List.forall_mem_append.2 ⟨hrp, List.forall_mem_singleton.2 (.inr ⟨rfl, rfl⟩)⟩
        exact ⟨_, rfl, .watching hma hin nofun nofun hrp'⟩
      · rw [hno rfl]
        exact ⟨_, rfl, .watching hma hin nofun (fun _ _ => Nat.succ_ne_zero _) (by simp)⟩
    | cancelled result =>
      cases cancels with
      | zero => exact ⟨_, rfl, .watching hma hin hno hpe hrp⟩
      | succ =>
        have hma' := List.forall_mem_append.2 ⟨hma, List.forall_mem_singleton.2 ⟨result, rfl⟩⟩
        exact ⟨_, rfl, .watching hma' (by simp) hno (by simp) hrp⟩
    | lose result =>
      cases lost with
      | some => exact ⟨_, rfl, .watching hma hin hno hpe hrp⟩
      | none =>
        have hma' := List.forall_mem_append.2 ⟨hma, List.forall_mem_singleton.2 ⟨result, rfl⟩⟩
        exact ⟨_, rfl, .watching hma' (by simp) hno (by simp) hrp⟩
    | handle =>
      cases mailbox with
      | nil => exact ⟨_, rfl, .watching hma hin hno hpe hrp⟩
      | cons =>
        obtain ⟨⟨_, rfl⟩, hr⟩ := List.forall_mem_cons.1 hma
        cases withdrawing with
        | none => exact ⟨_, rfl, .watching hr (by simp) hno nofun hrp⟩
        | some =>
          refine ⟨_, rfl, .watching hr (by simp) nofun (by simp) fun reply hre => ?_⟩
          refine (hrp reply hre).imp_right fun ⟨hv, hf⟩ => ⟨hv, ?_⟩
          rw [Option.some.inj hf]
          rfl

theorem World.result_eq {this : World} {reply : Reply}
    (h : reply = .promised ∨ reply = .value true ∧ this.withdrawing = some (some (.ok true))) :
    this.result reply = this.withdrawing.join := by
  obtain rfl | ⟨rfl, hw⟩ := h
  · rfl
  · rw [hw]
    rfl

theorem Phase.answers {this : World} (h : Phase this) : Answers this := by
  cases h with
  | fresh _ hre =>
    refine ⟨nofun, fun _ reply hr => ?_, fun reply hr other ho => ?_, nofun⟩
    · rw [hre reply hr]
      rfl
    · rw [hre reply hr, hre other ho]
  | joining | joined => exact ⟨by simp [World.Done], nofun, nofun, nofun⟩
  | leaving => exact ⟨by simp [World.Done], by simp [World.Done], by simp, nofun⟩
  | refused _ h => exact ⟨by simp [World.Done], by simp [World.Done], by cases h <;> simp, nofun⟩
  | failed _ h =>
    refine ⟨by simp, ?_, by cases h <;> simp, nofun⟩
    cases h <;> simp [World.Done, World.result]
  | @watching inner withdrawing mailbox cancels lost replies hma hin hno hpe hre =>
    refine ⟨by simp, fun hd reply hr => ?_, fun reply hr other ho => ?_, by simpa using hin⟩
    · rw [World.result_eq (hre reply hr)]
      cases withdrawing with
      | none => simp [hno rfl] at hr
      | some future =>
        cases future with
        | none => exact absurd hd.2.1 (hpe rfl hd.2.2)
        | some => rfl
    · rw [World.result_eq (hre reply hr), World.result_eq (hre other ho)]

/-- **Every request is answered, and no check fails**, in every run in which no one withdraws before a membership is watched,
twice or before contending. -/
theorem requests_answered (events : List Event) (hmeets : Fallible.Meets World.step Meets {} events) :
    ∃ this, events.foldlM World.step {} = .ok this ∧ Answers this := by
  obtain ⟨this, hrun, hphase⟩ := hmeets.runs (fun _ _ h hmeets => Phase.step h hmeets) (.fresh [] nofun)
  exact ⟨this, hrun, hphase.answers⟩

theorem requests_answered_withdrawn :
    ∃ this, [Event.contend, .join (.ok ()), .handle, .withdraw, .cancelled (.ok true), .handle, .withdraw].foldlM
      World.step {} = .ok this ∧ Answers this :=
  requests_answered _ (by decide +kernel)

/-- **A call of `contend` is not answered if the contender withdraws too early, and a second `withdraw` returns true** when
the first one fails. -/
theorem withdrawn_unanswered :
    (∃ this, [Event.contend, .withdraw, .join (.ok ()), .handle, .handle, .cancelled (.ok true), .handle].foldlM
      World.step {} = .ok this ∧ ¬ Answers this) ∧
    (∃ this, [Event.contend, .join (.ok ()), .handle, .withdraw, .withdraw, .cancelled (.error "no"), .handle].foldlM
      World.step {} = .ok this ∧ ¬ Answers this) := by
  refine ⟨⟨_, rfl, fun h => ?_⟩, _, rfl, fun h => ?_⟩
  · exact nomatch h.outer ⟨fun _ => rfl, rfl, rfl⟩ none rfl
  · exact nomatch h.same (.value true) (by decide) .promised (by decide)

end Clusterd.Contender
