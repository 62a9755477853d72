import Mathlib.Data.Finset.Insert
import Mathlib.Data.List.AList
/-!
# Status update streams (`status_update_manager_process.hpp`)

`StatusUpdateStream` keeps the updates of one stream and, if checkpointed, writes each update and acknowledgement
to a file before it is handled.  A record of the file is there as a whole or, if it is the last one, in part.
-/
namespace Clusterd.Status

open List

abbrev Uuid := Nat

abbrev FrameworkId := String

abbrev StreamId := String

def statusUpdateType : String := "operation status update"

inductive OperationState
  | unsupported
  | pending
  | finished
  | failed
  | error
  | dropped
  | unreachable
  | goneByOperator
  | recovering
  | unknown
deriving DecidableEq

def isTerminalState : OperationState → Bool
  | .dropped | .error | .failed | .finished | .goneByOperator => true
  | .pending | .recovering | .unknown | .unreachable | .unsupported => false

structure Update where
  uuid : Option Uuid
  state : OperationState
  frameworkId : Option FrameworkId := none
  hasLatestStatus : Bool := false
deriving DecidableEq

inductive Record
  | update (update : Update)
  | ack (uuid : Option Uuid)
deriving DecidableEq

inductive RecordType
  | update
  | ack

structure File where
  records : List Record := []
  /-- Whether a part of one more record was written. -/
  torn : Bool := false
deriving DecidableEq

inductive Write
  | done
  | failed (error : String)

structure Stream where
  streamId : StreamId
  path : Option String
  frameworkId : Option FrameworkId := none
  terminated : Bool := false
  /-- When the update that was forwarded is to be sent again. -/
  timeout : Option Nat := none
  pending : List Update := []
  /-- An update without uuid is not accepted. -/
  received : Finset (Option Uuid) := ∅
  acknowledged : Finset (Option Uuid) := ∅
  error : Option String := none
  /-- What the file descriptor refers to. -/
  file : File := {}
  /-- All updates accepted so far: for specification only. -/
  updates : List Update := []
deriving DecidableEq

namespace Stream

variable (this : Stream)

def checkpointed : Bool := this.path.isSome

/-- `next`: the next update in the queue. -/
def next : Except String (Option Update) :=
  match this.error with
  | some error => .error error
  | none => .ok this.pending.head?

/-- `_handle`: handles the status update without checkpointing. -/
def handle_ (update : Update) : RecordType → Stream
  | .update =>
    { this with
      frameworkId := update.frameworkId.or this.frameworkId
      received := insert update.uuid this.received
      pending := this.pending ++ [update]
      updates := this.updates ++ [update] }
  | .ack =>
    { this with
      acknowledged := insert update.uuid this.acknowledged
      pending := this.pending.tail
      terminated := this.terminated || isTerminalState update.state }

def record (update : Update) : RecordType → Record
  | .update => .update update
  | .ack => .ack update.uuid

/-- `handle`: handles the status update and writes it to disk, if necessary. -/
def handle (update : Update) (type : RecordType) (write : Write) : Stream × Except String Unit :=
  match this.path with
  | none => (this.handle_ update type, .ok ())
  | some path =>
    match write with
    | .failed error =>
      let error := "Failed to write to file '" ++ path ++ "': " ++ error
      ({ this with error := some error, file := { this.file with torn := true } }, .error error)
    | .done =>
      let file := { this.file with records := this.file.records ++ [record update type] }
      ({ this with file }.handle_ update type, .ok ())

/-- `update`: whether the update is handled, or is a duplicate. -/
def update (this : Stream) (update : Update) (write : Write) : Stream × Except String Bool :=
  match this.error with
  | some error => (this, .error error)
  | none =>
    if update.uuid = none then (this, .error "Status update is missing 'uuid'")
    else if update.uuid ∈ this.acknowledged then (this, .ok false)
    else if update.uuid ∈ this.received then (this, .ok false)
    else
      match this.handle update .update write with
      | (this, .error error) => (this, .error error)
      | (this, .ok ()) => (this, .ok true)

/-- `acknowledgement`: whether the acknowledgement is handled, or is not for the next update. -/
def acknowledgement (uuid : Uuid) (write : Write) : Stream × Except String Bool :=
  match this.next with
  | .error error => (this, .error error)
  | .ok none =>
    (this, .error ("Unexpected acknowledgment (UUID: " ++ toString uuid ++ ") for " ++ statusUpdateType ++ " stream " ++
      this.streamId))
  | .ok (some update) =>
    if some uuid ∈ this.acknowledged then (this, .ok false)
    else if some uuid ≠ update.uuid then (this, .ok false)
    else
      match this.handle update .ack write with
      | (this, .error error) => (this, .error error)
      | (this, .ok ()) => (this, .ok true)

end Stream

/-! ## What a call does -/

def Stream.written (this : Stream) (record : Record) : File :=
  if this.checkpointed then { this.file with records := this.file.records ++ [record] } else this.file

inductive Handled (this : Stream) (update : Update) (type : RecordType) : Stream → Except String Bool → Prop
  | done : Handled this update type ({ this with file := this.written (Stream.record update type) }.handle_ update type)
      (.ok true)
  | failed (error : String) :
    Handled this update type { this with error := some error, file := { this.file with torn := true } } (.error error)

namespace Stream

structure Takes (this : Stream) (update : Update) : Prop where
  noError : this.error = none
  uuid : update.uuid ≠ none
  notAcknowledged : update.uuid ∉ this.acknowledged
  notReceived : update.uuid ∉ this.received

structure Awaits (this : Stream) (uuid : Uuid) (update : Update) : Prop where
  noError : this.error = none
  next : this.pending.head? = some update
  uuid : update.uuid = some uuid

variable {this : Stream} {update : Update}

theorem handled_handle (this : Stream) (update : Update) (type : RecordType) (write : Write) :
    ∃ after result, this.handle update type write = (after, result) ∧
      Handled this update type after (result.map fun _ => true) := by
  rw [handle]
  cases hpa : this.path with
  | none =>
    have hw : this.written (record update type) = this.file := by simp [written, checkpointed, hpa]
    have hd : Handled this update type _ _ := .done
    rw [hw] at hd
    exact ⟨_, _, rfl, hd⟩
  | some path =>
    cases write with
    | failed error =>
      have hf := @Handled.failed this update type ("Failed to write to file '" ++ path ++ "': " ++ error)
      rw [hpa] at hf
      exact ⟨_, _, rfl, hf⟩
    | done =>
      have hw : this.written (record update type) =
          { this.file with records := this.file.records ++ [record update type] } := by
        simp [written, checkpointed, hpa]
      have hd : Handled this update type _ _ := .done
      rw [hw, hpa] at hd
      exact ⟨_, _, rfl, hd⟩

/-- **What `update` does**: nothing, or it takes on the update. -/
theorem update_cases (this : Stream) (update : Update) (write : Write) :
    ∃ after result, this.update update write = (after, result) ∧
      ((after = this ∧ result ≠ .ok true) ∨ (this.Takes update ∧ Handled this update .update after result)) := by
  rw [Stream.update]
  cases he : this.error with
  | some => exact ⟨this, _, rfl, .inl ⟨rfl, nofun⟩⟩
  | none =>
    split_ifs with hu ha hr
    · exact ⟨this, _, rfl, .inl ⟨rfl, nofun⟩⟩
    · exact ⟨this, _, rfl, .inl ⟨rfl, nofun⟩⟩
    · exact ⟨this, _, rfl, .inl ⟨rfl, nofun⟩⟩
    obtain ⟨after, result, hh, hd⟩ := handled_handle this update .update write
    rw [hh]
    cases result with
    | ok | error => exact ⟨after, _, rfl, .inr ⟨⟨he, hu, ha, hr⟩, hd⟩⟩

/-- **What `acknowledgement` does**: nothing, or it takes on the next update. -/
theorem acknowledgement_cases (this : Stream) (uuid : Uuid) (write : Write) :
    ∃ after result, this.acknowledgement uuid write = (after, result) ∧ ((after = this ∧ result ≠ .ok true) ∨
        ∃ update, this.Awaits uuid update ∧ Handled this update .ack after result) := by
  rw [Stream.acknowledgement, next]
  cases he : this.error with
  | some => exact ⟨this, _, rfl, .inl ⟨rfl, nofun⟩⟩
  | none =>
    cases hhe : this.pending.head? with
    | none => exact ⟨this, _, rfl, .inl ⟨rfl, nofun⟩⟩
    | some update =>
      dsimp only
      split_ifs with hac hu
      · exact ⟨this, _, rfl, .inl ⟨rfl, nofun⟩⟩
      · exact ⟨this, _, rfl, .inl ⟨rfl, nofun⟩⟩
      have ha : this.Awaits uuid update := ⟨he, hhe, (not_not.mp hu).symm⟩
      obtain ⟨after, result, hh, hd⟩ := handled_handle this update .ack write
      rw [hh]
      cases result with
      | ok | error => exact ⟨after, _, rfl, .inr ⟨update, ha, hd⟩⟩

/-! ## The queue -/

def unacknowledged (this : Stream) : List Update := this.updates.filter (·.uuid ∉ this.acknowledged)

structure Wf (this : Stream) : Prop where
  nodup : (this.updates.map Update.uuid).Nodup
  received : ∀ uuid, uuid ∈ this.received ↔ uuid ∈ this.updates.map Update.uuid
  acknowledged : this.acknowledged ⊆ this.received
  pending : this.pending = this.unacknowledged

theorem Wf.handle_update (h : this.Wf) (hnew : update.uuid ∉ this.received) : (this.handle_ update .update).Wf where
  nodup := by
    rw [handle_, map_append]
    refine nodup_append.mpr ⟨h.nodup, nodup_singleton _, fun _ ha _ hb hab => ?_⟩
    rw [map_singleton, mem_singleton] at hb
    exact hnew ((h.received _).mpr (hb ▸ hab ▸ ha))
  received uuid := by
    simp only [handle_, Finset.mem_insert, h.received, map_append, mem_append, map_singleton, mem_singleton]
    exact or_comm
  acknowledged := h.acknowledged.trans (Finset.subset_insert _ _)
  pending := by
    have hnot : update.uuid ∉ this.acknowledged := fun hmem => hnew (h.acknowledged hmem)
    simp only [handle_, unacknowledged, filter_append, h.pending]
    simp [hnot]

theorem Wf.handle_ack (h : this.Wf) (hh : this.pending.head? = some update) : (this.handle_ update .ack).Wf where
  nodup := h.nodup
  received := h.received
  acknowledged := by
    have hmem : update ∈ this.updates := by
      have hpe := mem_of_head? hh
      rw [h.pending] at hpe
      exact (mem_filter.mp hpe).1
    exact Finset.insert_subset ((h.received _).mpr (mem_map_of_mem hmem)) h.acknowledged
  pending := by
    obtain ⟨rest, hr⟩ : ∃ rest, this.pending = update :: rest := head?_eq_some_iff.mp hh
    -- The uuids differ, so that the first update is the only one that is acknowledged.
    have hn : ((update :: rest).map Update.uuid).Nodup := by
      rw [← hr, h.pending]
      exact h.nodup.sublist (filter_sublist.map _)
    have hf : (handle_ this update .ack).unacknowledged =
        this.unacknowledged.filter fun other => other.uuid ≠ update.uuid := by
      simp only [handle_, unacknowledged, filter_filter, Finset.mem_insert, not_or]
      refine filter_congr fun other _ => ?_
      simp
    rw [hf, ← h.pending, hr, filter_cons_of_neg (by simp)]
    simp only [handle_, hr, tail_cons]
    refine (filter_eq_self.mpr fun _ ho => ?_).symm
    rw [map_cons, nodup_cons] at hn
    simp only [ne_eq, decide_not, Bool.not_eq_true', decide_eq_false_iff_not]
    exact fun heq => hn.1 (heq ▸ mem_map_of_mem ho)

end Stream

/-!
# The status update manager (`status_update_manager_process.hpp`)

`StatusUpdateManagerProcess` forwards the first pending update of each stream and starts a timer that forwards it again until it
is acknowledged.  A timer is never cancelled: it runs on when its stream is cleaned up or its update acknowledged, and whoever
forwards an update records in the stream when the last timer is due.
-/

abbrev Duration := Nat

def seconds (n : Nat) : Duration := n * 1000000000

def retryIntervalMin : Duration := seconds 10

def retryIntervalMax : Duration := seconds 600

structure Timer where
  streamId : StreamId
  duration : Duration
  deadline : Nat
deriving DecidableEq

structure Message where
  streamId : StreamId
  update : Update
  latestStatus : OperationState
deriving DecidableEq

structure Manager where
  now : Nat := 0
  paused : Bool := false
  streams : AList fun _ : StreamId => Stream := ∅
  frameworkStreams : AList fun _ : FrameworkId => List StreamId := ∅
  timers : List Timer := []
  /-- What the last event has forwarded. -/
  sent : List Message := []

inductive Check
  | updateStream
  | updateTimeout
  | updateNext
  | forwardPaused
  | forwardLatestStatus
  | timeoutNone
  | cleanupStream
  | cleanupFramework
deriving DecidableEq

inductive Failure
  /-- `The file '<path>' already exists`, `Failed to create '<directory>': <error>` or `Failed to open '<path>' : <error>`. -/
  | create (error : String)
  /-- `Expected <type> to not contain 'latest_status'`. -/
  | latestStatus
  /-- `Mismatched checkpoint value for <type> <update> (expected checkpoint=<expected> actual checkpoint=<actual>)`. -/
  | checkpoint (update : Update) (expected actual : Bool)
  /-- `Mismatched framework ID for <type> <update> (expected <expected> got <actual>)`. -/
  | hasFrameworkId (update : Update) (expected actual : Option FrameworkId)
  /-- `Mismatched framework ID for <type> <update> (expected <expected> actual <actual>)`. -/
  | frameworkId (update : Update) (expected actual : Option FrameworkId)
  | stream (error : String)
  /-- `Cannot find the <type> stream <streamId>`. -/
  | unknownStream (streamId : StreamId)
  /-- `Duplicate <type> acknowledgement`. -/
  | duplicate
deriving DecidableEq

inductive Open
  | opened
  | failed (error : String)

namespace Manager

section

variable (this : Manager)

section

variable (stream : Stream)

def setStream : Manager :=
  { this with streams := this.streams.insert stream.streamId stream }

/-- `forward`: hands out the update and starts a timer.  Returns when the timer is due. -/
def forward (update : Update) (duration : Duration) : Except Check (Manager × Nat) :=
  if this.paused then .error .forwardPaused
  else if update.hasLatestStatus then .error .forwardLatestStatus
  else
    let latestStatus := (stream.pending.getLast?.getD update).state
    let deadline := this.now + duration
    .ok ({ this with
      sent := this.sent ++ [{ streamId := stream.streamId, update, latestStatus }]
      timers := this.timers ++ [{ streamId := stream.streamId, duration, deadline }] }, deadline)

/-- `stream->timeout = forward(…)`. -/
def send (update : Update) (duration : Duration) : Except Check Manager := do
  let (this, timeout) ← this.forward stream update duration
  return this.setStream { stream with timeout := some timeout }

def addStream : Manager :=
  let this := this.setStream stream
  match stream.frameworkId with
  | none => this
  | some frameworkId =>
    let streamIds := (this.frameworkStreams.lookup frameworkId).getD []
    { this with frameworkStreams := this.frameworkStreams.insert frameworkId (streamIds.insert stream.streamId) }

end

def createStatusUpdateStream (getPath : StreamId → String) (this : Manager) (streamId : StreamId)
    (frameworkId : Option FrameworkId) (checkpoint : Bool) (file : Open) : Except String Manager :=
  match checkpoint, file with
  | true, .failed error => .error error
  | true, .opened => .ok (this.addStream { streamId, path := some (getPath streamId), frameworkId })
  | false, _ => .ok (this.addStream { streamId, path := none, frameworkId })

def cleanupStatusUpdateStream (streamId : StreamId) : Except Check Manager :=
  match this.streams.lookup streamId with
  | none => .error .cleanupStream
  | some stream =>
    let streams := this.streams.erase streamId
    match stream.frameworkId with
    | none => .ok { this with streams }
    | some frameworkId =>
      match this.frameworkStreams.lookup frameworkId with
      | none => .error .cleanupFramework
      | some streamIds =>
        if (streamIds.erase streamId).isEmpty then
          .ok { this with streams, frameworkStreams := this.frameworkStreams.erase frameworkId }
        else
          .ok { this with
            streams, frameworkStreams := this.frameworkStreams.insert frameworkId (streamIds.erase streamId) }

/-- `update`, once the stream exists. -/
def update_ (update : Update) (stream : Stream) (checkpoint : Bool) (write : Write) :
    Except Check (Manager × Except Failure Unit) :=
  if update.hasLatestStatus then .ok (this, .error .latestStatus)
  else if stream.checkpointed ≠ checkpoint then
    .ok (this, .error (.checkpoint update stream.checkpointed checkpoint))
  else if update.frameworkId.isSome ≠ stream.frameworkId.isSome then
    .ok (this, .error (.hasFrameworkId update stream.frameworkId update.frameworkId))
  else if update.frameworkId ≠ stream.frameworkId then
    .ok (this, .error (.frameworkId update stream.frameworkId update.frameworkId))
  else
    match stream.update update write with
    | (stream, .error error) => .ok (this.setStream stream, .error (.stream error))
    | (stream, .ok false) => .ok (this.setStream stream, .ok ())
    | (stream, .ok true) =>
      let this := this.setStream stream
      -- Forward the update if it is at the front of the queue.
      if this.paused = false ∧ stream.pending.length = 1 then
        if stream.timeout.isSome then .error .updateTimeout
        else
          match stream.next with
          | .error error => .ok (this, .error (.stream error))
          | .ok none => .error .updateNext
          | .ok (some next) => do return (← this.send stream next retryIntervalMin, .ok ())
      else .ok (this, .ok ())

def update (getPath : StreamId → String) (this : Manager) (update : Update) (streamId : StreamId) (checkpoint : Bool)
    (file : Open) (write : Write) : Except Check (Manager × Except Failure Unit) :=
  match this.streams.lookup streamId with
  | some stream => this.update_ update stream checkpoint write
  | none =>
    match this.createStatusUpdateStream getPath streamId update.frameworkId checkpoint file with
    | .error error => .ok (this, .error (.create error))
    | .ok this =>
      match this.streams.lookup streamId with
      | none => .error .updateStream
      | some stream => this.update_ update stream checkpoint write

/-- `acknowledgement`, once it is handled: the stream ends, or its next update is forwarded. -/
def acknowledgement_ (stream : Stream) : Except Check (Manager × Except Failure Bool) :=
  match stream.next with
  | .error error => .ok (this, .error (.stream error))
  | .ok next =>
    if stream.terminated then do return (← this.cleanupStatusUpdateStream stream.streamId, .ok false)
    else
      match this.paused, next with
      | false, some next => do return (← this.send stream next retryIntervalMin, .ok true)
      | _, _ => .ok (this, .ok true)

/-- `acknowledgement`: whether the stream goes on. -/
def acknowledgement (this : Manager) (streamId : StreamId) (uuid : Uuid) (write : Write) :
    Except Check (Manager × Except Failure Bool) :=
  match this.streams.lookup streamId with
  | none => .ok (this, .error (.unknownStream streamId))
  | some stream =>
    match stream.acknowledgement uuid write with
    | (stream, .error error) => .ok (this.setStream stream, .error (.stream error))
    | (stream, .ok false) => .ok (this.setStream stream, .error .duplicate)
    | (stream, .ok true) =>
      let stream := { stream with timeout := none }
      (this.setStream stream).acknowledgement_ stream

def cleanup (frameworkId : FrameworkId) : Except Check Manager :=
  match this.frameworkStreams.lookup frameworkId with
  | none => .ok this
  | some streamIds => streamIds.foldlM cleanupStatusUpdateStream this

def pause : Manager := { this with paused := true }

/-- The body of the loop of `resume`. -/
def resumeStream (streamId : StreamId) : Except Check Manager :=
  match this.streams.lookup streamId with
  | none => .ok this
  | some stream =>
    match stream.next with
    | .ok (some update) => this.send stream update retryIntervalMin
    | .ok none | .error _ => .ok this

def resume : Except Check Manager :=
  this.streams.keys.foldlM resumeStream { this with paused := false }

end

def timeout (this : Manager) (streamId : StreamId) (duration : Duration) : Except Check Manager :=
  if this.paused then .ok this
  else
    match this.streams.lookup streamId with
    | none => .ok this
    | some stream =>
      match stream.pending with
      | [] => .ok this
      | update :: _ =>
        match stream.timeout with
        | none => .error .timeoutNone
        | some timeout =>
          -- Bounded exponential backoff.
          if timeout ≤ this.now then this.send stream update (min (duration * 2) retryIntervalMax) else .ok this

end Manager

/-! ## Events -/

inductive Call
  | update (update : Update) (streamId : StreamId) (checkpoint : Bool) (file : Open) (write : Write)
  | acknowledgement (streamId : StreamId) (uuid : Uuid) (write : Write)
  | pause
  | resume
  | cleanup (frameworkId : FrameworkId)
  /-- Time passes. -/
  | tick (duration : Duration)
  /-- A timer that is due fires. -/
  | fire (index : Nat)

section

variable (getPath : StreamId → String) (this : Manager)

def Manager.call : Call → Except Check Manager
  | .update update streamId checkpoint file write =>
    Prod.fst <$> this.update getPath update streamId checkpoint file write
  | .acknowledgement streamId uuid write => Prod.fst <$> this.acknowledgement streamId uuid write
  | .pause => .ok this.pause
  | .resume => this.resume
  | .cleanup frameworkId => this.cleanup frameworkId
  | .tick duration => .ok { this with now := this.now + duration }
  | .fire index =>
    match this.timers[index]? with
    | none => .ok this
    | some timer =>
      if timer.deadline ≤ this.now then
        { this with timers := this.timers.eraseIdx index }.timeout timer.streamId timer.duration
      else .ok this

def Manager.step (call : Call) : Except Check Manager :=
  { this with sent := [] }.call getPath call

end

end Clusterd.Status
