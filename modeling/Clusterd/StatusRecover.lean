import Clusterd.StatusManager
/-!
# Recovering a status update stream

`StatusUpdateStream::recover` replays the records of the file through `_handle` and drops what is left of a record that was
written in part.  Whatever was called on a stream and however often it was recovered, the file has what is in memory.
-/
namespace Clusterd.Status

open Clusterd.Status.Stream

structure State where
  updates : List Update := []
  error : Bool := false
  terminated : Bool := false

/-- The loop of `recover`. -/
def replay (stream : Stream) (updates : List Update) : List Record → Except String (Stream × List Update)
  | [] => .ok (stream, updates)
  | .ack uuid :: records =>
    match stream.next with
    | .error error => .error error
    | .ok none =>
      .error ("Unexpected " ++ statusUpdateType ++ " acknowledgment (UUID: " ++ toString uuid ++ ") for stream " ++
        stream.streamId)
    | .ok (some update) => replay (stream.handle_ update .ack) updates records
  | .update update :: records => replay (stream.handle_ update .update) (updates ++ [update]) records

/-- `recover`, from the file if there is one: what was written in part is not read, and cut off.  A file without a whole
update is removed. -/
def recover (streamId : StreamId) (path : String) : Option File → Except String (Option (Stream × State))
  | none => .ok none
  | some file =>
    match replay { streamId, path := some path } [] file.records with
    | .error error => .error error
    | .ok (stream, updates) =>
      if updates.isEmpty then .ok none
      else .ok (some ({ stream with file := { file with torn := false } }, { updates, terminated := stream.terminated }))

/-! ## A stream and its restarts -/

structure World where
  stream : Option Stream := none
  accepted : List Update := []

inductive Event
  | create (frameworkId : Option FrameworkId)
  | update (update : Update) (write : Write)
  | acknowledgement (uuid : Uuid) (write : Write)
  /-- The process dies, perhaps in the middle of writing a record, and recovers.  To die between writing the whole of a
  record and handling it is to die after the call. -/
  | restart (torn : Bool)

def Stream.left (this : Stream) (torn : Bool) : File := { this.file with torn := this.file.torn || torn }

def World.step (streamId : StreamId) (path : String) (this : World) : Event → World
  | .create frameworkId =>
    match this.stream with
    | none => { this with stream := some { streamId, path := some path, frameworkId } }
    | some _ => this
  | .update update write =>
    match this.stream with
    | none => this
    | some stream =>
      match stream.update update write with
      | (stream, .ok true) => { stream := some stream, accepted := this.accepted ++ [update] }
      | (stream, _) => { this with stream := some stream }
  | .acknowledgement uuid write =>
    match this.stream with
    | none => this
    | some stream => { this with stream := some (stream.acknowledgement uuid write).1 }
  | .restart torn =>
    match this.stream with
    | none => this
    | some stream =>
      match recover streamId path (some (stream.left torn)) with
      | .ok (some (recovered, _)) => { this with stream := some recovered }
      | .ok none | .error _ => { this with stream := none }

/-! ## Replaying -/

structure Same (a b : Stream) : Prop where
  terminated : a.terminated = b.terminated
  pending : a.pending = b.pending
  received : a.received = b.received
  acknowledged : a.acknowledged = b.acknowledged
  updates : a.updates = b.updates

theorem Same.symm {a b : Stream} (h : Same a b) : Same b a :=
  ⟨h.terminated.symm, h.pending.symm, h.received.symm, h.acknowledged.symm, h.updates.symm⟩

theorem Same.trans {a b c : Stream} (h : Same a b) (h' : Same b c) : Same a c :=
  ⟨h.terminated.trans h'.terminated, h.pending.trans h'.pending, h.received.trans h'.received,
    h.acknowledged.trans h'.acknowledged, h.updates.trans h'.updates⟩

theorem Same.handle_ {a b : Stream} (h : Same a b) (update : Update) (type : RecordType) :
    Same (a.handle_ update type) (b.handle_ update type) := by
  cases type with
  | update | ack =>
    constructor
    all_goals simp only [Stream.handle_, h.terminated, h.pending, h.received, h.acknowledged, h.updates]

theorem Same.wf {a b : Stream} (h : Same a b) (hb : b.Wf) : a.Wf where
  nodup := by rw [h.updates]; exact hb.nodup
  received := by rw [h.updates, h.received]; exact hb.received
  acknowledged := by rw [h.acknowledged, h.received]; exact hb.acknowledged
  pending := by rw [h.pending, unacknowledged, h.updates, h.acknowledged]; exact hb.pending

theorem replay_append : ∀ (records more : List Record) (stream : Stream) (updates : List Update),
    replay stream updates (records ++ more) =
      (replay stream updates records).bind fun result => replay result.1 result.2 more
  | [], _, _, _ => rfl
  | .ack uuid :: records, more, stream, updates => by
    rw [List.cons_append, replay, replay]
    cases stream.next with
    | error => rfl
    | ok next =>
      cases next with
      | none => rfl
      | some => exact replay_append records more _ _
  | .update update :: records, more, stream, updates => by
    exact replay_append records more _ _

structure Backed (streamId : StreamId) (path : String) (stream : Stream) : Prop where
  wf : stream.Wf
  hasPath : stream.path = some path
  replays : ∃ replayed, replay { streamId, path := some path } [] stream.file.records = .ok (replayed, stream.updates) ∧
    Same replayed stream ∧ replayed.error = none ∧ replayed.path = some path

variable {streamId : StreamId} {path : String} {stream : Stream}

theorem backed_create (frameworkId : Option FrameworkId) :
    Backed streamId path { streamId, path := some path, frameworkId } where
  wf := ⟨List.nodup_nil, fun uuid => by simp, Finset.Subset.refl _, rfl⟩
  hasPath := rfl
  replays := ⟨_, rfl, ⟨rfl, rfl, rfl, rfl, rfl⟩, rfl, rfl⟩

variable (h : Backed streamId path stream)
include h

theorem Backed.failed (error : String) :
    Backed streamId path { stream with error := some error, file := { stream.file with torn := true } } :=
  have ⟨replayed, hr, hsa, hno⟩ := h.replays
  ⟨⟨h.wf.nodup, h.wf.received, h.wf.acknowledged, h.wf.pending⟩, h.hasPath,
    replayed, hr, ⟨hsa.terminated, hsa.pending, hsa.received, hsa.acknowledged, hsa.updates⟩, hno⟩

theorem Backed.done {update : Update} {type : RecordType} (hwf : (stream.handle_ update type).Wf)
    (hrep : ∀ replayed : Stream, Same replayed stream → replayed.error = none →
      replay replayed stream.updates [record update type] =
        .ok (replayed.handle_ update type, (stream.handle_ update type).updates)) : Backed streamId path
      ({ stream with file := stream.written (record update type) }.handle_ update type) := by
  obtain ⟨replayed, hr, hsa, hno, hpa⟩ := h.replays
  have hw : stream.written (record update type) =
      { stream.file with records := stream.file.records ++ [record update type] } := by
    rw [written, checkpointed, h.hasPath]
    rfl
  have hf : Same { stream with file := stream.written (record update type) } stream :=
    ⟨rfl, rfl, rfl, rfl, rfl⟩
  have hsa' := hf.handle_ update type
  refine ⟨hsa'.wf hwf, ?_, replayed.handle_ update type, ?_, ?_, ?_, ?_⟩
  · cases type <;> exact h.hasPath
  · have hre : ({ stream with file := stream.written (record update type) }.handle_ update type).file.records =
        stream.file.records ++ [record update type] := by
      rw [hw]
      cases type <;> rfl
    rw [hre, replay_append, hr, hsa'.updates]
    exact hrep replayed hsa hno
  · exact (hsa.handle_ update type).trans hsa'.symm
  · cases type <;> exact hno
  · cases type <;> exact hpa

theorem Backed.update (update : Update) (write : Write) :
    ∃ after result, stream.update update write = (after, result) ∧ Backed streamId path after ∧
      (result = .ok true ∧ after.updates = stream.updates ++ [update] ∧ update.uuid ≠ none ∨
        result ≠ .ok true ∧ after.updates = stream.updates) := by
  obtain ⟨after, result, hu, ⟨rfl, hr⟩ | ⟨ht, hh⟩⟩ := update_cases stream update write
  · exact ⟨_, result, hu, h, .inr ⟨hr, rfl⟩⟩
  refine ⟨after, result, hu, ?_⟩
  cases hh with
  | done =>
    exact ⟨h.done (h.wf.handle_update ht.notReceived) fun _ _ _ => rfl, .inl ⟨rfl, rfl, ht.uuid⟩⟩
  | failed error => exact ⟨h.failed error, .inr ⟨nofun, rfl⟩⟩

theorem Backed.acknowledgement (uuid : Uuid) (write : Write) :
    Backed streamId path (stream.acknowledgement uuid write).1 ∧
      (stream.acknowledgement uuid write).1.updates = stream.updates := by
  obtain ⟨_, _, hack, ⟨rfl, -⟩ | ⟨update, ha, hh⟩⟩ := acknowledgement_cases stream uuid write
  · rw [hack]
    exact ⟨h, rfl⟩
  rw [hack]
  cases hh with
  | done =>
    refine ⟨h.done (h.wf.handle_ack ha.next) fun replayed hsa hno => ?_, rfl⟩
    -- The acknowledgement is matched by its place in the queue.
    have hn : replayed.next = .ok (some update) := by
      rw [Stream.next, hno, hsa.pending, ha.next]
    rw [record, replay, hn]
    rfl
  | failed error => exact ⟨h.failed error, rfl⟩

/-- **Recovering a stream rebuilds it.** -/
theorem Backed.recover (torn : Bool) :
    (stream.updates = [] → recover streamId path (some { stream.file with torn }) = .ok none) ∧
    (stream.updates ≠ [] → ∃ recovered, recover streamId path (some { stream.file with torn }) =
        .ok (some (recovered, { updates := stream.updates, terminated := stream.terminated })) ∧
      Same recovered stream ∧ recovered.error = none ∧ Backed streamId path recovered) := by
  obtain ⟨replayed, hre, hsa, hno, hpa⟩ := h.replays
  rw [Status.recover]
  rw [hre]
  constructor
  · intro he
    rw [he]
    rfl
  intro hs
  have hr : Same { replayed with file := { stream.file with torn := false } } stream :=
    ⟨hsa.terminated, hsa.pending, hsa.received, hsa.acknowledged, hsa.updates⟩
  refine ⟨{ replayed with file := { stream.file with torn := false } }, ?_, hr, hno, ?_⟩
  · rw [← hsa.terminated]
    exact if_neg (by simpa using hs)
  · refine ⟨hr.wf h.wf, hpa, replayed, ?_, hsa.trans hr.symm, hno, hpa⟩
    rw [hr.updates]
    exact hre

omit h

theorem Stream.update_duplicate (h : stream.Wf) (hno : stream.error = none) {update : Update}
    (hu : update ∈ stream.updates) (huu : update.uuid ≠ none) (write : Write) :
    stream.update update write = (stream, .ok false) := by
  have hr : update.uuid ∈ stream.received := (h.received _).mpr (List.mem_map_of_mem hu)
  rw [Stream.update, hno]
  rw [if_neg huu]
  split_ifs <;> rfl

/-! ## Runs -/

structure World.Sound (streamId : StreamId) (path : String) (this : World) : Prop where
  backed : ∀ stream, this.stream = some stream → Backed streamId path stream ∧ stream.updates = this.accepted
  nothing : this.stream = none → this.accepted = []
  uuid : ∀ update ∈ this.accepted, update.uuid ≠ none

theorem World.Sound.of_backed {accepted : List Update} (hb : Backed streamId path stream)
    (hu : stream.updates = accepted) (huu : ∀ update ∈ accepted, update.uuid ≠ none) :
    World.Sound streamId path { stream := some stream, accepted } where
  backed := by
    intro _ ho
    cases ho
    exact ⟨hb, hu⟩
  nothing := nofun
  uuid := huu

theorem World.Sound.step {this : World} (h : this.Sound streamId path) (event : Event) :
    (this.step streamId path event).Sound streamId path := by
  obtain ⟨stream, _⟩ := this
  cases stream with
  | none =>
    cases event with
    | create frameworkId => exact .of_backed (backed_create frameworkId) (h.nothing rfl).symm h.uuid
    | update | acknowledgement | restart => exact h
  | some stream =>
    obtain ⟨hb, hu⟩ := h.backed stream rfl
    cases event with
    | create => exact h
    | update update write =>
      obtain ⟨_, _, hup, haf, ⟨rfl, hm, huu⟩ | ⟨_, hsa⟩⟩ := hb.update update write
      · simp only [World.step, hup]
        refine .of_backed haf (by rw [hm, hu]) fun other ho => ?_
        rcases List.mem_append.mp ho with hold | hnew
        · exact h.uuid other hold
        · rw [List.mem_singleton.mp hnew]
          exact huu
      · simp only [World.step, hup]
        exact .of_backed haf (hsa.trans hu) h.uuid
    | acknowledgement uuid write =>
      obtain ⟨haf, hsa⟩ := hb.acknowledgement uuid write
      exact .of_backed haf (hsa.trans hu) h.uuid
    | restart torn =>
      obtain ⟨he, hs⟩ := hb.recover (stream.file.torn || torn)
      by_cases hnil : stream.updates = []
      · simp only [World.step, left, he hnil]
        exact ⟨nofun, fun _ => hu.symm.trans hnil, h.uuid⟩
      · obtain ⟨_, hr, hsa, -, hb'⟩ := hs hnil
        simp only [World.step, left, hr]
        exact .of_backed hb' (hsa.updates.trans hu) h.uuid

theorem World.Sound.run : ∀ (events : List Event) {this : World}, this.Sound streamId path →
    (events.foldl (World.step streamId path) this).Sound streamId path
  | [], _, h => h
  | event :: events, _, h => World.Sound.run events (h.step event)

/-- **Status updates survive crashes exactly.**  However the process dies, and however often it did before, `recover` rebuilds
from the file the received and acknowledged updates, the queue and whether the stream is terminated, lists every update that
was ever accepted, and leaves a stream that ignores each of them.  There is nothing to recover only if there is no update. -/
theorem recover_exact (streamId : StreamId) (path : String) (events : List Event) :
    let world := events.foldl (World.step streamId path) {}
    (world.stream = none → world.accepted = []) ∧
    ∀ stream, world.stream = some stream → ∀ torn,
      (world.accepted = [] → recover streamId path (some (stream.left torn)) = .ok none) ∧
      (world.accepted ≠ [] → ∃ recovered state,
        recover streamId path (some (stream.left torn)) = .ok (some (recovered, state)) ∧
        recovered.received = stream.received ∧ recovered.acknowledged = stream.acknowledged ∧
        recovered.pending = stream.pending ∧ recovered.terminated = stream.terminated ∧
        state.updates = world.accepted ∧ state.terminated = stream.terminated ∧ state.error = false ∧
        ∀ update ∈ world.accepted, ∀ write, recovered.update update write = (recovered, .ok false)) := by
  intro world
  have hsound : world.Sound streamId path := World.Sound.run events ⟨nofun, fun _ => rfl, nofun⟩
  refine ⟨hsound.nothing, fun stream hstream torn => ?_⟩
  obtain ⟨hbacked, hupdates⟩ := hsound.backed stream hstream
  obtain ⟨hempty, hsome⟩ := hbacked.recover (stream.file.torn || torn)
  rw [← hupdates]
  refine ⟨hempty, fun hnil => ?_⟩
  obtain ⟨recovered, hrecover, hsame, hnone, hbacked'⟩ := hsome hnil
  refine ⟨recovered, _, hrecover, hsame.received, hsame.acknowledged, hsame.pending, hsame.terminated, rfl, rfl, rfl, ?_⟩
  intro update hupdate write
  refine update_duplicate hbacked'.wf hnone (hsame.updates ▸ hupdate) ?_ write
  exact hsound.uuid update (hupdates ▸ hupdate)

/-- Two updates, the acknowledgement of the first, a write that fails and a restart in between. -/
theorem recover_exact_restart : let events : List Event :=
      [.create none, .update ⟨some 1, .pending, none, false⟩ .done, .update ⟨some 2, .finished, none, false⟩ .done,
        .acknowledgement 1 (.failed "No space left on device"), .restart true, .acknowledgement 1 .done]
    ∃ stream, (events.foldl (World.step "operation" "updates") {}).stream = some stream ∧
      ∃ recovered state, recover "operation" "updates" (some (stream.left true)) = .ok (some (recovered, state)) ∧
        recovered.pending = stream.pending := by
  intro events
  have hstream : ((events.foldl (World.step "operation" "updates") {}).stream).isSome = true := by decide
  obtain ⟨stream, hstream⟩ := Option.isSome_iff_exists.mp hstream
  have haccepted : (events.foldl (World.step "operation" "updates") {}).accepted ≠ [] := by decide
  obtain ⟨recovered, state, hrecover, -, -, hpending, -⟩ :=
    ((recover_exact "operation" "updates" events).2 stream hstream true).2 haccepted
  exact ⟨stream, hstream, recovered, state, hrecover, hpending⟩

end Clusterd.Status
