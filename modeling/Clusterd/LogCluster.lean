import Clusterd.LogConsensus
import Clusterd.LogRestart
/-!
# Recovering a replica (`log/recover.cpp`)

The recover protocol broadcasts a recover request and counts the statuses in the responses, one round after another,
until it knows the next status of the local replica; the recover process updates the replica and, on `RECOVERING`,
catches it up before it votes again.
-/
namespace Clusterd.Log

open Function

structure RecoverProtocol where
  /-- The status of the local replica when the protocol was started. -/
  status : Status
  /-- The responses still awaited. -/
  responses : Nat
  responsesReceived : Status → Nat := fun _ => 0
  lowestBeginPosition : Option Nat := none
  highestEndPosition : Option Nat := none

namespace RecoverProtocol

def lower : Option Nat → Nat → Nat
  | none, n => n
  | some m, n => min m n

def higher : Option Nat → Nat → Nat
  | none, n => n
  | some m, n => max m n

/-- The auto-initialization: once all `2 * quorum - 1` replicas are found `EMPTY` or `STARTING`, an `EMPTY` replica
becomes `STARTING`; once all are found `STARTING` or `VOTING`, a `STARTING` replica becomes `VOTING`. -/
def initialized (quorum : Nat) (s : RecoverProtocol) : Option Status :=
  let clusterSize := 2 * quorum - 1
  match s.status with
  | .empty =>
    if clusterSize ≤ s.responsesReceived .empty + s.responsesReceived .starting then some .starting else none
  | .starting =>
    if clusterSize ≤ s.responsesReceived .starting + s.responsesReceived .voting then some .voting else none
  | _ => none

section

variable (quorum : Nat) (autoInitialize : Bool) (s : RecoverProtocol)

/-- A result of `none` makes the protocol run again: every replica has answered. -/
def check :
    Received RecoverProtocol (Option RecoverResponse) :=
  if quorum ≤ s.responsesReceived .voting then
    match s.lowestBeginPosition, s.highestEndPosition with
    | some lowest, some highest =>
      if lowest ≤ highest then
        .set (some { status := .recovering, beginning := some lowest, ending := some highest })
      else .abort
    | _, _ => .abort
  else
    match if autoInitialize then s.initialized quorum else none with
    | some status => .set (some { status := status })
    | none => if s.responses = 0 then .set none else .pending s

def received (response : RecoverResponse) :
    Received RecoverProtocol (Option RecoverResponse) :=
  let s :=
    { s with
      responses := s.responses - 1
      responsesReceived :=
        Function.update s.responsesReceived response.status (s.responsesReceived response.status + 1) }
  if response.status = .voting then
    match response.beginning, response.ending with
    | some lowest, some highest =>
      check quorum autoInitialize
        { s with
          lowestBeginPosition := some (lower s.lowestBeginPosition lowest)
          highestEndPosition := some (higher s.highestEndPosition highest) }
    | _, _ => .abort
  else check quorum autoInitialize s

end

end RecoverProtocol

inductive RecoverState where
  /-- About to look at the status of the local replica. -/
  | start
  | protocol (round : RecoverProtocol)
  /-- Catching up the positions from the first to the last. -/
  | catchingUp (first last : Nat) (catchup : CatchUp)
  | recovered
  | failed

structure RecoverStep where
  state : RecoverState
  update : Option Status := none
  output : Option Output := none

namespace RecoverState

def runProtocol (size : Nat) (status : Status) : RecoverState := .protocol { status := status, responses := size }

/-- `recover(status)`: a replica that votes needs no recovery. -/
def recover (size : Nat) (status : Status) : RecoverStep :=
  if status = .voting then { state := .recovered }
  else { state := runProtocol size status, output := some .recover }

/-- `_recover(result)`. -/
def finish (size : Nat) : Option RecoverResponse → RecoverStep
  | none => { state := .start }
  | some result =>
    match result.status with
    | .starting => { recover size .starting with update := some .starting }
    | .voting => { state := .recovered, update := some .voting }
    | .recovering =>
      match result.beginning, result.ending with
      | some first, some last =>
        { state := .catchingUp first last (CatchUp.start none (List.range' first (last + 1 - first)))
          update := some .recovering }
      | _, _ => { state := .failed }
    | .empty => { state := .failed }

/-- What the recover process reacts to. -/
inductive Input where
  | status (status : Status)
  | response (response : RecoverResponse)
  /-- The round, or the catch-up of a position, takes too long. -/
  | timedout
  | checked (missing : Bool) (f : Nat)
  | filled (action : Action)

def step (quorum size : Nat) (autoInitialize : Bool) (s : RecoverState) : Input → RecoverStep
  | .status status =>
    match s with
    | .start => recover size status
    | _ => { state := s }
  | .response response =>
    match s with
    | .protocol round =>
      match round.received quorum autoInitialize response with
      | .pending round => { state := .protocol round }
      | .set result => finish size result
      | .abort => { state := .failed }
    | _ => { state := s }
  | .timedout =>
    match s with
    | .protocol round => { state := runProtocol size round.status, output := some .recover }
    | .catchingUp first last u => { state := .catchingUp first last u.timedout }
    | _ => { state := s }
  | .checked missing f =>
    match s with
    | .catchingUp first last u =>
      if u.positions = [] then { state := .recovered, update := some .voting }
      else { state := .catchingUp first last (u.checked missing f).1, output := (u.checked missing f).2 }
    | _ => { state := s }
  | .filled a =>
    match s with
    | .catchingUp first last u =>
      match u.filled a with
      | some u => { state := .catchingUp first last u }
      | none => { state := .failed }
    | _ => { state := s }

end RecoverState

/-!
# The replicated log as one system

The replicas, any number of coordinators with their clients and of fills, a recover process for each replica, and the messages.
A message once sent stays: it may be delivered late, more than once or never, in any order.  A process waits for the responses
to its last request and counts each replica once.  It reads its local replica at the step that uses what it reads, and a status
update happens at the step that decides it: what such a step sends out may be delayed all the same.
-/

/-- Who sent a request. -/
inductive Source (ρ : Type) where
  | coordinator (c : Nat)
  | fill (f : Nat)
  | recovery (R : ρ)
  deriving DecidableEq

inductive Request where
  | promise (request : PromiseRequest)
  | write (request : WriteRequest)
  | recover
  deriving DecidableEq

/-- A response, with the request it answers. -/
inductive Answer where
  | promise (request : PromiseRequest) (response : PromiseResponse)
  | write (request : WriteRequest) (response : WriteResponse)
  | recover (response : RecoverResponse)
  deriving DecidableEq

structure Response (ρ : Type) where
  id : Nat
  replica : ρ
  answer : Answer
  deriving DecidableEq

structure Proc (ρ σ : Type) where
  machine : σ
  call : Nat := 0
  answered : Finset ρ := ∅

/-- The quorum size, whether the log initializes itself, and the local replica of each coordinator. -/
structure Config (ρ : Type) where
  quorum : Nat
  autoInitialize : Bool := false
  home : Nat → ρ

structure Cluster (ρ : Type) where
  replicas : ρ → Replica
  coordinators : Nat → Proc ρ Client := fun _ => { machine := {} }
  fills : List (Proc ρ Fill) := []
  recoveries : ρ → Proc ρ RecoverState := fun _ => { machine := .start }
  requests : List (Source ρ × Request) := []
  responses : List (Response ρ) := []
  learned : List Action := []

inductive Event (ρ : Type) where
  /-- The `id`-th request reaches a replica. -/
  | deliver (id : Nat) (R : ρ)
  /-- The `k`-th learned message reaches a replica. -/
  | learn (k : Nat) (R : ρ)
  /-- The `k`-th response reaches the process that asked. -/
  | receive (k : Nat)
  | restart (R : ρ)
  /-- A replica loses its stored state and starts on an empty store. -/
  | lose (R : ρ)
  | elect (c : Nat)
  | demote (c : Nat)
  | append (c : Nat) (bytes : Bytes)
  | truncate (c : Nat) (target : Nat)
  | abandon (c : Nat)
  /-- A coordinator reads the last proposal number its local replica promised. -/
  | promised (c : Nat)
  /-- A coordinator reads the positions its local replica is missing. -/
  | missing (c : Nat)
  /-- A coordinator asks its local replica whether it has learned what was written. -/
  | learned (c : Nat)
  | fill (proposal position : Nat)
  | retry (f : Nat)
  | discard (f : Nat)
  /-- A recover process looks at the status of its replica. -/
  | recover (R : ρ)
  /-- A catch-up asks the local replica about its current position. -/
  | check (owner : Source ρ)
  | filled (owner : Source ρ)
  | timedout (owner : Source ρ)
  deriving DecidableEq

def Output.asRequest : Output → Option Request
  | .promise request => some (.promise request)
  | .write request => some (.write request)
  | .recover => some .recover
  | .learned _ => none
  | .fill _ _ => none

namespace Proc
variable {ρ σ : Type}

def advance (p : Proc ρ σ) (machine : σ) (out : Option Output) (id : Nat) : Proc ρ σ :=
  match out.bind Output.asRequest with
  | some _ => { machine := machine, call := id, answered := ∅ }
  | none => { p with machine := machine }

def mark [DecidableEq ρ] (p : Proc ρ σ) (R : ρ) : Proc ρ σ := { p with answered := insert R p.answered }

end Proc

def Coordinator.catchup? (c : Coordinator) : Option CatchUp :=
  match c.state with
  | .electing (.catchingUp u) => some u
  | _ => none

def RecoverState.catchup? : RecoverState → Option CatchUp
  | .catchingUp _ _ u => some u
  | _ => none

def CatchUp.currentMissing (u : CatchUp) (r : Replica) : Bool :=
  match u.positions with
  | [] => false
  | p :: _ => r.missing p

namespace Cluster
variable {ρ : Type} [DecidableEq ρ]

section

variable (w : Cluster ρ)

def setReplica (R : ρ) (r : Replica) : Cluster ρ :=
  { w with replicas := Function.update w.replicas R r }

def respond (id : Nat) (R : ρ) (answer : Option Answer) : Cluster ρ :=
  { w with responses := w.responses ++ (answer.map fun a => { id := id, replica := R, answer := a }).toList }

def spawn (proposal position : Nat) : Cluster ρ :=
  let phase : ExplicitPromise := { proposal := proposal, position := position }
  { w with
    fills := w.fills ++ [{ machine := (Fill.start proposal position).1, call := w.requests.length }]
    requests := w.requests ++ [(.fill w.fills.length, .promise phase.request)] }

def send (source : Source ρ) : Option Output → Cluster ρ
  | none => w
  | some (.promise r) => { w with requests := w.requests ++ [(source, .promise r)] }
  | some (.write r) => { w with requests := w.requests ++ [(source, .write r)] }
  | some .recover => { w with requests := w.requests ++ [(source, .recover)] }
  | some (.learned a) => { w with learned := w.learned ++ [a] }
  | some (.fill n p) => w.spawn n p

end

def stepCoordinator (cfg : Config ρ) (w : Cluster ρ) (c : Nat) (p : Proc ρ Client) (x : Coordinator.Input) : Cluster ρ :=
  let next := p.machine.step cfg.quorum x
  let w := { w with coordinators := Function.update w.coordinators c (p.advance next.1 next.2 w.requests.length) }
  w.send (.coordinator c) next.2

def stepFill (w : Cluster ρ) (f : Nat) (p : Proc ρ Fill) (next : Fill × Option Output) : Cluster ρ :=
  let w := { w with fills := w.fills.set f (p.advance next.1 next.2 w.requests.length) }
  w.send (.fill f) next.2

variable [Fintype ρ]

def stepRecovery (cfg : Config ρ) (w : Cluster ρ) (R : ρ) (p : Proc ρ RecoverState) (x : RecoverState.Input) :
    Cluster ρ :=
  let next := p.machine.step cfg.quorum (Fintype.card ρ) cfg.autoInitialize x
  let w := { w with recoveries := Function.update w.recoveries R (p.advance next.state next.output w.requests.length) }
  let w := match next.update with
    | some status => w.setReplica R ((w.replicas R).update status)
    | none => w
  w.send (.recovery R) next.output

def deliver (w : Cluster ρ) (id : Nat) (R : ρ) : Cluster ρ :=
  match w.requests[id]? with
  | some (_, .promise request) =>
    let (r, reply) := (w.replicas R).promise request
    (w.setReplica R r).respond id R (reply.map (.promise request))
  | some (_, .write request) =>
    let (r, reply) := (w.replicas R).write request
    (w.setReplica R r).respond id R (reply.map (.write request))
  | some (_, .recover) => w.respond id R (some (.recover (w.replicas R).recover))
  | none => w

def receive (cfg : Config ρ) (w : Cluster ρ) (x : Response ρ) : Cluster ρ :=
  match w.requests[x.id]? with
  | some (.coordinator c, _) =>
    let p := w.coordinators c
    if p.call = x.id ∧ x.replica ∉ p.answered then
      match x.answer with
      | .promise _ r => w.stepCoordinator cfg c (p.mark x.replica) (.promiseResponse r)
      | .write _ r => w.stepCoordinator cfg c (p.mark x.replica) (.writeResponse r)
      | .recover _ => w
    else w
  | some (.fill f, _) =>
    match w.fills[f]? with
    | some p =>
      if p.call = x.id ∧ x.replica ∉ p.answered then
        match x.answer with
        | .promise _ r => w.stepFill f (p.mark x.replica) (p.machine.promiseReceived cfg.quorum r)
        | .write _ r => w.stepFill f (p.mark x.replica) (p.machine.writeReceived cfg.quorum r)
        | .recover _ => w
      else w
    | none => w
  | some (.recovery R, _) =>
    let p := w.recoveries R
    if p.call = x.id ∧ x.replica ∉ p.answered then
      match x.answer with
      | .recover r => w.stepRecovery cfg R (p.mark x.replica) (.response r)
      | _ => w
    else w
  | none => w

def stepCatchup (cfg : Config ρ) (w : Cluster ρ) (coordinator : CatchUp → ρ → Option Coordinator.Input)
    (recovery : CatchUp → ρ → Option RecoverState.Input) : Source ρ → Cluster ρ
  | .coordinator c =>
    match (w.coordinators c).machine.coordinator.catchup?.bind (coordinator · (cfg.home c)) with
    | some x => w.stepCoordinator cfg c (w.coordinators c) x
    | none => w
  | .recovery R =>
    match (w.recoveries R).machine.catchup?.bind (recovery · R) with
    | some x => w.stepRecovery cfg R (w.recoveries R) x
    | none => w
  | .fill _ => w

def filledAction (w : Cluster ρ) (u : CatchUp) : Option Action :=
  match u.filling.bind fun f => w.fills[f]? with
  | some p => match p.machine.phase with
    | .filled a => some a
    | _ => none
  | none => none

def step (cfg : Config ρ) (w : Cluster ρ) : Event ρ → Cluster ρ
  | .deliver id R => w.deliver id R
  | .learn k R =>
    match w.learned[k]? with
    | some a => w.setReplica R ((w.replicas R).learned a)
    | none => w
  | .receive k =>
    match w.responses[k]? with
    | some x => w.receive cfg x
    | none => w
  | .restart R =>
    let w := w.setReplica R (Replica.restore (w.replicas R).storage)
    { w with recoveries := Function.update w.recoveries R { machine := .start } }
  | .lose R =>
    let w := w.setReplica R Replica.fresh
    { w with recoveries := Function.update w.recoveries R { machine := .start } }
  | .elect c => w.stepCoordinator cfg c (w.coordinators c) .elect
  | .demote c => w.stepCoordinator cfg c (w.coordinators c) .demote
  | .append c bytes => w.stepCoordinator cfg c (w.coordinators c) (.append bytes)
  | .truncate c target => w.stepCoordinator cfg c (w.coordinators c) (.truncate target)
  | .abandon c => w.stepCoordinator cfg c (w.coordinators c) .abandon
  | .promised c => w.stepCoordinator cfg c (w.coordinators c) (.promised (w.replicas (cfg.home c)).promised)
  | .missing c =>
    let index := (w.coordinators c).machine.coordinator.index
    let positions := (w.replicas (cfg.home c)).missingIn 0 index
    w.stepCoordinator cfg c (w.coordinators c) (.missing ((List.range (index + 1)).filter (· ∈ positions)))
  | .learned c =>
    match (w.coordinators c).machine.coordinator.state with
    | .writing (.learning a) =>
      w.stepCoordinator cfg c (w.coordinators c) (.learned ((w.replicas (cfg.home c)).missing a.position))
    | _ => w
  | .fill n p => w.spawn n p
  | .retry f =>
    match w.fills[f]? with
    | some p => if p.machine.phase = .retrying then w.stepFill f p p.machine.runPromisePhase else w
    | none => w
  | .discard f =>
    match w.fills[f]? with
    | some p => w.stepFill f p p.machine.stop
    | none => w
  | .recover R => w.stepRecovery cfg R (w.recoveries R) (.status (w.replicas R).status)
  | .check owner =>
    w.stepCatchup cfg (fun u R => some (.checked (u.currentMissing (w.replicas R)) w.fills.length))
      (fun u R => some (.checked (u.currentMissing (w.replicas R)) w.fills.length)) owner
  | .filled owner =>
    w.stepCatchup cfg (fun u _ => (w.filledAction u).map .filled) (fun u _ => (w.filledAction u).map .filled) owner
  | .timedout owner =>
    match owner with
    | .recovery R => w.stepRecovery cfg R (w.recoveries R) .timedout
    | owner => w.stepCatchup cfg (fun _ _ => some .timedout) (fun _ _ => none) owner

def run (cfg : Config ρ) (w : Cluster ρ) (es : List (Event ρ)) : Cluster ρ := es.foldl (step cfg) w

/-- A log that was never used: empty stores, in `VOTING` status where the operator has initialized the replica. -/
def start (voting : ρ → Bool) : Cluster ρ :=
  { replicas := fun R => if voting R then Replica.fresh.update .voting else Replica.fresh }

def initialized : Cluster ρ := start fun _ => true

end Cluster

end Clusterd.Log
