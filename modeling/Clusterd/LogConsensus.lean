import Clusterd.LogReplica
/-!
# The proposer's phases (`log/consensus.cpp`)

Each phase broadcasts one request and counts the responses until a quorum has answered: the two promise phases, the write phase,
and the fill of one position, which runs a promise phase, writes what it found (or a no-op) and broadcasts what was agreed.  A
`CHECK` that fails aborts the process.
-/
namespace Clusterd.Log

inductive Received (σ τ : Type) where
  | pending (phase : σ)
  | set (result : τ)
  | abort

def isRejectedPromise (response : PromiseResponse) : Bool :=
  match response.type with
  | some t => t == .reject
  | none => !response.okay

def isRejectedWrite (response : WriteResponse) : Bool :=
  match response.type with
  | some t => t == .reject
  | none => !response.okay

def raise (highest : Option Nat) (n : Nat) : Option Nat :=
  match highest with
  | none => some n
  | some m => if m < n then some n else some m

structure ExplicitPromise where
  (proposal position : Nat)
  responsesReceived : Nat := 0
  ignoresReceived : Nat := 0
  highestNackProposal : Option Nat := none
  highestAckAction : Option Action := none
  deriving DecidableEq

namespace ExplicitPromise

def request (s : ExplicitPromise) : PromiseRequest := { proposal := s.proposal, position := some s.position }

def result (s : ExplicitPromise) : PromiseResponse :=
  match s.highestNackProposal with
  | some n => { type := some .reject, okay := false, proposal := n }
  | none => { type := some .accept, okay := true, action := s.highestAckAction }

def check (quorum : Nat) (s : ExplicitPromise) : Received ExplicitPromise PromiseResponse :=
  if quorum ≤ s.responsesReceived then .set s.result else .pending s

/-- The performed action with the highest proposal number. -/
def raiseAction (highest : Option Action) (a : Action) : Option Action :=
  match highest with
  | none => some a
  | some b => if b.performed.getD 0 < a.performed.getD 0 then some a else some b

def received (quorum : Nat) (s : ExplicitPromise) (response : PromiseResponse) :
    Received ExplicitPromise PromiseResponse :=
  if response.type = some .ignored then
    let s := { s with ignoresReceived := s.ignoresReceived + 1 }
    if quorum ≤ s.ignoresReceived then .set { type := some .ignored } else .pending s
  else
    let s := { s with responsesReceived := s.responsesReceived + 1 }
    if isRejectedPromise response then
      check quorum { s with highestNackProposal := raise s.highestNackProposal response.proposal }
    else if s.highestNackProposal.isSome then check quorum s
    else if response.proposal ≠ s.proposal then .abort
    else
      match response.action with
      | some a =>
        if a.position ≠ s.position then .abort
        else if a.learned then .set response
        else if a.performed.isSome then check quorum { s with highestAckAction := raiseAction s.highestAckAction a }
        else check quorum s
      | none => if response.position = some s.position then check quorum s else .abort

end ExplicitPromise

structure ImplicitPromise where
  proposal : Nat
  responsesReceived : Nat := 0
  ignoresReceived : Nat := 0
  highestNackProposal : Option Nat := none
  highestEndPosition : Option Nat := none
  deriving DecidableEq

namespace ImplicitPromise

def request (s : ImplicitPromise) : PromiseRequest := { proposal := s.proposal }

def check (quorum : Nat) (s : ImplicitPromise) : Received ImplicitPromise PromiseResponse :=
  if quorum ≤ s.responsesReceived then
    match s.highestNackProposal, s.highestEndPosition with
    | some n, _ => .set { type := some .reject, okay := false, proposal := n }
    | none, some e => .set { type := some .accept, okay := true, position := some e }
    | none, none => .abort
  else .pending s

def received (quorum : Nat) (s : ImplicitPromise) (response : PromiseResponse) :
    Received ImplicitPromise PromiseResponse :=
  if response.type = some .ignored then
    let s := { s with ignoresReceived := s.ignoresReceived + 1 }
    if quorum ≤ s.ignoresReceived then .set { type := some .ignored } else .pending s
  else
    let s := { s with responsesReceived := s.responsesReceived + 1 }
    if isRejectedPromise response then
      check quorum { s with highestNackProposal := raise s.highestNackProposal response.proposal }
    else if s.highestNackProposal.isSome then check quorum s
    else
      match response.position with
      | some e => check quorum { s with highestEndPosition := raise s.highestEndPosition e }
      | none => .abort

end ImplicitPromise

structure Write where
  request : WriteRequest
  responsesReceived : Nat := 0
  ignoresReceived : Nat := 0
  highestNackProposal : Option Nat := none
  deriving DecidableEq

namespace Write

def check (quorum : Nat) (s : Write) : Received Write WriteResponse :=
  if quorum ≤ s.responsesReceived then
    match s.highestNackProposal with
    | some n => .set { type := some .reject, okay := false, proposal := n }
    | none => .set { type := some .accept, okay := true }
  else .pending s

def received (quorum : Nat) (s : Write) (response : WriteResponse) : Received Write WriteResponse :=
  if response.position ≠ s.request.position then .abort
  else if response.type = some .ignored then
    let s := { s with ignoresReceived := s.ignoresReceived + 1 }
    if quorum ≤ s.ignoresReceived then .set { type := some .ignored } else .pending s
  else
    let s := { s with responsesReceived := s.responsesReceived + 1 }
    if isRejectedWrite response then
      check quorum { s with highestNackProposal := raise s.highestNackProposal response.proposal }
    else check quorum s

end Write

/-- The request a write phase sends for an action: its type and payload, a `NOP` without its tombstone. -/
def writeRequest (proposal : Nat) (a : Action) (v : Value) : WriteRequest :=
  { proposal := proposal, position := a.position, value := Replica.writtenValue v }

/-- What a process sends out: a request or a learned message for all replicas, or a fill to be started. -/
inductive Output where
  | promise (request : PromiseRequest)
  | write (request : WriteRequest)
  | recover
  | learned (action : Action)
  | fill (proposal position : Nat)
  deriving DecidableEq

inductive FillPhase where
  | promising (phase : ExplicitPromise)
  | retrying
  | writing (action : Action) (phase : Write)
  | filled (action : Action)
  | stopped
  deriving DecidableEq

/-- The fill of one position. -/
structure Fill where
  (position proposal : Nat)
  phase : FillPhase
  deriving DecidableEq

namespace Fill

section

variable (f : Fill)

def runPromisePhase : Fill × Option Output :=
  let phase : ExplicitPromise := { proposal := f.proposal, position := f.position }
  ({ f with phase := .promising phase }, some (.promise phase.request))

def start (proposal position : Nat) : Fill × Option Output :=
  runPromisePhase { position := position, proposal := proposal, phase := .retrying }

def stop : Fill × Option Output := ({ f with phase := .stopped }, none)

def retry (highestNackProposal : Nat) : Fill × Option Output :=
  if highestNackProposal < f.proposal then f.stop
  else ({ f with proposal := highestNackProposal + 1, phase := .retrying }, none)

def runWritePhase (a : Action) (v : Value) : Fill × Option Output :=
  let request := writeRequest f.proposal a v
  ({ f with phase := .writing a { request := request } }, some (.write request))

def runLearnPhase (a : Action) : Fill × Option Output :=
  ({ f with phase := .filled a }, some (.learned a))

def checkPromisePhase (response : PromiseResponse) : Fill × Option Output :=
  if !response.okay then f.retry response.proposal
  else
    match response.action with
    | some a =>
      match a.value with
      | none => f.stop
      | some v =>
        if a.position ≠ f.position then f.stop
        else
          let a := { a with promised := f.proposal, performed := some f.proposal }
          if a.learned then f.runLearnPhase a else f.runWritePhase a v
    | none =>
      let a : Action :=
        { position := f.position
          promised := f.proposal
          performed := some f.proposal
          value := some (.nop false) }
      f.runWritePhase a (.nop false)

def checkWritePhase (a : Action) (response : WriteResponse) : Fill × Option Output :=
  if !response.okay then f.retry response.proposal
  else f.runLearnPhase { a with learned := true }

end

def promiseReceived (quorum : Nat) (f : Fill) (response : PromiseResponse) : Fill × Option Output :=
  match f.phase with
  | .promising phase =>
    match phase.received quorum response with
    | .pending phase => ({ f with phase := .promising phase }, none)
    | .set result => f.checkPromisePhase result
    | .abort => f.stop
  | _ => (f, none)

def writeReceived (quorum : Nat) (f : Fill) (response : WriteResponse) : Fill × Option Output :=
  match f.phase with
  | .writing a phase =>
    match phase.received quorum response with
    | .pending phase => ({ f with phase := .writing a phase }, none)
    | .set result => f.checkWritePhase a result
    | .abort => f.stop
  | _ => (f, none)

end Fill

/-!
# Catching up the local replica (`log/catchup.cpp`)

The positions are caught up one after another.  Each is checked against the local replica and filled until it is not missing
there; the proposal number a fill ended with is used for the next fill, and the next position of the interval.  A position that
takes too long is begun again.
-/

structure CatchUp where
  /-- The positions left, the current one first. -/
  positions : List Nat
  /-- The proposal number every interval starts with. -/
  initial : Nat
  /-- The proposal number the current position was begun with. -/
  (begun proposal : Nat)
  /-- The fill under way, if the current position has been found missing. -/
  filling : Option Nat := none
  deriving DecidableEq

namespace CatchUp

def start (proposal : Option Nat) (positions : List Nat) : CatchUp :=
  let n := proposal.getD 0
  { positions := positions, initial := n, begun := n, proposal := n }

variable (u : CatchUp)

def nextProposal (position : Nat) (rest : List Nat) : Nat :=
  if rest.head? = some (position + 1) then u.proposal else u.initial

/-- The local replica has been asked whether the current position is missing; `f` names the fill to be started. -/
def checked (missing : Bool) (f : Nat) : CatchUp × Option Output :=
  match u.filling, u.positions with
  | none, p :: rest =>
    if missing then ({ u with filling := some f }, some (.fill u.proposal p))
    else
      let n := u.nextProposal p rest
      ({ u with positions := rest, begun := n, proposal := n }, none)
  | _, _ => (u, none)

def filled (a : Action) : Option CatchUp :=
  if a.promised < u.proposal then none else some { u with proposal := a.promised, filling := none }

/-- The fill is discarded and the current position begun again. -/
def timedout : CatchUp := { u with proposal := u.begun, filling := none }

end CatchUp

/-!
# The coordinator (`log/coordinator.cpp`)

A coordinator is elected by an implicit promise phase under a number above every one it knows, catches up its local replica, and
then writes one action at a time at its index.  The continuation it waits for is part of its state, so one that is not elected
has no write under way.  `step` is one input: a call of its client, or the completion of what it waits for; an input it does not
wait for changes nothing.
-/

/-- What an election waits for. -/
inductive Electing where
  | lastProposal
  | promising (phase : ImplicitPromise)
  | missing
  | catchingUp (catchup : CatchUp)
  deriving DecidableEq

/-- What a write waits for. -/
inductive Writing where
  | writing (action : Action) (phase : Write)
  | learning (action : Action)
  deriving DecidableEq

inductive CoordinatorState where
  | initial
  | electing (phase : Electing)
  | elected
  | writing (phase : Writing)
  | aborted
  deriving DecidableEq

structure Coordinator where
  state : CoordinatorState := .initial
  proposal : Nat := 0
  index : Nat := 0
  deriving DecidableEq

inductive Reply where
  | pending
  | none
  | position (position : Nat)
  | failure (message : String)
  deriving DecidableEq

namespace Coordinator

section

variable (c : Coordinator)

def abort : Coordinator := { c with state := .aborted }

def elect : Coordinator × Reply :=
  match c.state with
  | .electing _ => (c, .pending)
  | .elected => (c, .position (c.index - 1))
  | .writing _ => (c, .failure "Coordinator already elected, and is currently writing")
  | .initial => ({ c with state := .electing .lastProposal }, .pending)
  | .aborted => (c, .pending)

def updateProposal (promised : Nat) : Coordinator :=
  { c with proposal := max c.proposal promised + 1 }

def runPromisePhase : Coordinator × Option Output :=
  let phase : ImplicitPromise := { proposal := c.proposal }
  ({ c with state := .electing (.promising phase) }, some (.promise phase.request))

def checkPromisePhase (response : PromiseResponse) : Coordinator :=
  match response.type with
  | some .ignored => { c with state := .initial }
  | some .reject =>
    if c.proposal ≤ response.proposal then { c with state := .initial, proposal := response.proposal } else c.abort
  | some .accept =>
    match response.position with
    | some position => { c with state := .electing .missing, index := position }
    | none => c.abort
  | none => c.abort

def catchupMissingPositions (positions : List Nat) : Coordinator :=
  { c with state := .electing (.catchingUp (CatchUp.start (some (c.proposal + 1)) positions)) }

def updateIndexAfterElected : Coordinator :=
  { c with state := .elected, index := c.index + 1 }

def demote : Coordinator × Reply :=
  match c.state with
  | .initial => (c, .failure "Coordinator is not elected")
  | .electing _ => (c, .failure "Coordinator is being elected")
  | .writing _ => (c, .failure "Coordinator is currently writing")
  | .elected => ({ c with state := .initial }, .position (c.index - 1))
  | .aborted => (c, .pending)

def write (value : Value) : Coordinator × Reply × Option Output :=
  match c.state with
  | .initial => (c, .none, none)
  | .electing _ => (c, .none, none)
  | .writing _ => (c, .failure "Coordinator is currently writing", none)
  | .elected =>
    let action : Action :=
      { position := c.index
        promised := c.proposal
        performed := some c.proposal
        value := some value }
    let request := writeRequest c.proposal action value
    ({ c with state := .writing (.writing action { request := request }) }, .pending, some (.write request))
  | .aborted => (c, .pending, none)

def append (bytes : Bytes) : Coordinator × Reply × Option Output := c.write (.append bytes)

def truncate (target : Nat) : Coordinator × Reply × Option Output := c.write (.truncate target)

/-- On a NACK the write returns `None`, and the coordinator is elected as before, under the number of the rejection. -/
def checkWritePhase (a : Action) (response : WriteResponse) : Coordinator × Option Output :=
  if !response.okay then
    if c.proposal ≤ response.proposal then ({ c with state := .elected, proposal := response.proposal }, none)
    else (c.abort, none)
  else ({ c with state := .writing (.learning a) }, some (.learned { a with learned := true }))

/-- The local replica must have learned what was written. -/
def updateIndexAfterWritten (missing : Bool) : Coordinator :=
  if missing then c.abort else { c with state := .elected, index := c.index + 1 }

/-- What a coordinator reacts to. -/
inductive Input where
  | elect
  | demote
  | append (bytes : Bytes)
  | truncate (target : Nat)
  /-- The election or the write fails or is discarded. -/
  | abandon
  | promised (promised : Nat)
  | promiseResponse (response : PromiseResponse)
  | missing (positions : List Nat)
  | checked (missing : Bool) (f : Nat)
  | filled (action : Action)
  | timedout
  | writeResponse (response : WriteResponse)
  | learned (missing : Bool)
  deriving DecidableEq

def abandon : Coordinator :=
  match c.state with
  | .electing _ => { c with state := .initial }
  | .writing _ => { c with state := .initial }
  | _ => c

def promiseReceived (quorum : Nat) (c : Coordinator) (response : PromiseResponse) : Coordinator :=
  match c.state with
  | .electing (.promising phase) =>
    match phase.received quorum response with
    | .pending phase => { c with state := .electing (.promising phase) }
    | .set result => c.checkPromisePhase result
    | .abort => c.abort
  | _ => c

def writeReceived (quorum : Nat) (c : Coordinator) (response : WriteResponse) : Coordinator × Option Output :=
  match c.state with
  | .writing (.writing a phase) =>
    match phase.received quorum response with
    | .pending phase => ({ c with state := .writing (.writing a phase) }, none)
    | .set result => c.checkWritePhase a result
    | .abort => (c.abort, none)
  | _ => (c, none)

/-- The catch-up of an election, which ends when no position is left. -/
def catchupChecked (missing : Bool) (f : Nat) : Coordinator × Option Output :=
  match c.state with
  | .electing (.catchingUp u) =>
    if u.positions = [] then (c.updateIndexAfterElected, none)
    else
      let (u, out) := u.checked missing f
      ({ c with state := .electing (.catchingUp u) }, out)
  | _ => (c, none)

def catchupFilled (a : Action) : Coordinator :=
  match c.state with
  | .electing (.catchingUp u) =>
    match u.filled a with
    | some u => { c with state := .electing (.catchingUp u) }
    | none => c.abort
  | _ => c

def catchupTimedout : Coordinator :=
  match c.state with
  | .electing (.catchingUp u) => { c with state := .electing (.catchingUp u.timedout) }
  | _ => c

end

def step (quorum : Nat) (c : Coordinator) : Input → Coordinator × Option Output
  | .elect => (c.elect.1, none)
  | .demote => (c.demote.1, none)
  | .append bytes => ((c.append bytes).1, (c.append bytes).2.2)
  | .truncate target => ((c.truncate target).1, (c.truncate target).2.2)
  | .abandon => (c.abandon, none)
  | .promised n => if c.state = .electing .lastProposal then (c.updateProposal n).runPromisePhase else (c, none)
  | .promiseResponse r => (c.promiseReceived quorum r, none)
  | .missing ps => if c.state = .electing .missing then (c.catchupMissingPositions ps, none) else (c, none)
  | .checked missing f => c.catchupChecked missing f
  | .filled a => (c.catchupFilled a, none)
  | .timedout => (c.catchupTimedout, none)
  | .writeResponse r => c.writeReceived quorum r
  | .learned missing =>
    match c.state with
    | .writing (.learning _) => (c.updateIndexAfterWritten missing, none)
    | _ => (c, none)

/-- The input makes the write under way return `None`. -/
def refuses (quorum : Nat) (c : Coordinator) : Input → Bool
  | .writeResponse r =>
    match c.state with
    | .writing (.writing _ phase) =>
      match phase.received quorum r with
      | .set result => !result.okay
      | _ => false
    | _ => false
  | _ => false

end Coordinator

/-- A coordinator together with what its client was told: `refused` when a write returned `None` and the coordinator has
not been demoted since.  `Log::Writer` asks its client to start anew then. -/
structure Client where
  coordinator : Coordinator := {}
  refused : Bool := false
  deriving DecidableEq

namespace Client

def step (quorum : Nat) (k : Client) (x : Coordinator.Input) : Client × Option Output :=
  ({ coordinator := (k.coordinator.step quorum x).1
     refused :=
      if k.coordinator.refuses quorum x then true
      else if x = .demote ∧ k.coordinator.state = .elected then false
      else k.refused },
   (k.coordinator.step quorum x).2)

def Obeys (k : Client) : Coordinator.Input → Prop
  | .append _ => k.refused = false
  | .truncate _ => k.refused = false
  | _ => True

instance (k : Client) : ∀ x, Decidable (k.Obeys x)
  | .append _ => inferInstanceAs (Decidable (k.refused = false))
  | .truncate _ => inferInstanceAs (Decidable (k.refused = false))
  | .elect | .demote | .abandon | .promised _ | .promiseResponse _ | .missing _ | .checked _ _ | .filled _ | .timedout
  | .writeResponse _ | .learned _ => inferInstanceAs (Decidable True)

end Client

end Clusterd.Log
