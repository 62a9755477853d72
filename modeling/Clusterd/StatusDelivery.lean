import Clusterd.Fallible
import Clusterd.Ledger
import Clusterd.StatusRecover
/-!
# Status updates are retried until they are acknowledged

While the manager is not paused, each stream with pending updates waits for its recorded timer.  Only `resume` may
leave a stream without one: a stream that could not write a record has no `next` update, and is passed over.
-/
namespace Clusterd.Status

open List AList Status.Stream Manager Ledger

def Retried (timers : List Timer) (stream : Stream) : Prop :=
  ∃ timer ∈ timers, timer.streamId = stream.streamId ∧ stream.timeout = some timer.deadline

instance (timers : List Timer) (stream : Stream) : Decidable (Retried timers stream) :=
  inferInstanceAs (Decidable (∃ timer ∈ timers, _))

structure Stream.Sound (stream : Stream) (streamId : StreamId) : Prop where
  id : stream.streamId = streamId
  wf : stream.Wf
  timeout : stream.pending = [] → stream.timeout = none
  latestStatus : ∀ update ∈ stream.pending, update.hasLatestStatus = false

theorem Stream.Sound.update {stream : Stream} {streamId : StreamId} (h : stream.Sound streamId) {update : Update}
    (hnew : update.uuid ∉ stream.received) (hl : update.hasLatestStatus = false) (file : File) :
    Sound ({ stream with file }.handle_ update .update) streamId where
  id := h.id
  wf := by
    have hsa : Same { stream with file } stream := ⟨rfl, rfl, rfl, rfl, rfl⟩
    exact (hsa.handle_ update .update).wf (h.wf.handle_update hnew)
  timeout hnil := absurd hnil (append_ne_nil_of_right_ne_nil _ (cons_ne_nil update []))
  latestStatus other ho := by
    rcases mem_append.mp ho with hold | hnew
    · exact h.latestStatus other hold
    · rw [mem_singleton.mp hnew]
      exact hl

theorem Stream.Sound.ack {stream : Stream} {streamId : StreamId} (h : stream.Sound streamId) {update : Update}
    (hn : stream.pending.head? = some update) (file : File) :
    Sound { ({ stream with file }.handle_ update .ack) with timeout := none } streamId := by
  have hsa : Same { ({ stream with file }.handle_ update .ack) with timeout := none } (stream.handle_ update .ack) :=
    ⟨rfl, rfl, rfl, rfl, rfl⟩
  exact ⟨h.id, hsa.wf (h.wf.handle_ack hn), fun _ => rfl, fun other ho => h.latestStatus other (mem_of_mem_tail ho)⟩

namespace Manager

structure Wf (skip : List StreamId) (this : Manager) : Prop where
  sound : ∀ streamId stream, this.streams.lookup streamId = some stream → stream.Sound streamId
  retried : this.paused = false → ∀ streamId stream, this.streams.lookup streamId = some stream → streamId ∉ skip →
    stream.pending ≠ [] → Retried this.timers stream
  listed : ∀ streamId stream frameworkId, this.streams.lookup streamId = some stream →
    stream.frameworkId = some frameworkId →
    ∃ streamIds, this.frameworkStreams.lookup frameworkId = some streamIds ∧ streamId ∈ streamIds
  lists : ∀ frameworkId streamIds, this.frameworkStreams.lookup frameworkId = some streamIds →
    streamIds.Nodup ∧ ∀ streamId ∈ streamIds, ∃ stream,
      this.streams.lookup streamId = some stream ∧ stream.frameworkId = some frameworkId
  sent : ∀ message ∈ this.sent, this.paused = false ∧ ∃ stream,
    this.streams.lookup message.streamId = some stream ∧ stream.pending.head? = some message.update

variable {this : Manager} {skip skip' : List StreamId} {streamId : StreamId} {stream stream' : Stream}

theorem forall_sent (hsn : this.sent = []) {P : Message → Prop} : ∀ message ∈ this.sent, P message := by
  rw [hsn]
  exact forall_mem_nil P

theorem lookup_setStream (hid : stream.streamId = streamId) :
    (this.setStream stream).streams.lookup streamId = some stream := by
  rw [← hid]
  exact lookup_insert _

section
variable (h : this.Wf skip) (hl : this.streams.lookup streamId = some stream)
include h hl

theorem Wf.setStream (hs : stream'.Sound streamId) (hf : stream'.frameworkId = stream.frameworkId)
    (hsn : this.sent = [] ∨ stream'.pending = stream.pending)
    (hsk : ∀ other, other ≠ streamId → other ∉ skip' → other ∉ skip)
    (hr : this.paused = false → streamId ∉ skip' → stream'.pending ≠ [] → Retried this.timers stream') :
    (this.setStream stream').Wf skip' := by
  obtain rfl := hs.id
  have hse : (this.setStream stream').streams.lookup stream'.streamId = some stream' := lookup_insert _
  have ho : ∀ other, other ≠ stream'.streamId →
      (this.setStream stream').streams.lookup other = this.streams.lookup other :=
    fun other hne => lookup_insert_ne hne
  constructor
  · intro other otherStream hos
    rcases lookup_insert_some.1 hos with ⟨rfl, rfl⟩ | ⟨-, hos⟩
    · exact hs
    · exact h.sound other otherStream hos
  · intro hpa other otherStream hos hnot hpe
    rcases lookup_insert_some.1 hos with ⟨rfl, rfl⟩ | ⟨hne, hos⟩
    · exact hr hpa hnot hpe
    · exact h.retried hpa other otherStream hos (hsk other hne hnot) hpe
  · intro other otherStream frameworkId hos hid
    rcases lookup_insert_some.1 hos with ⟨rfl, rfl⟩ | ⟨-, hos⟩
    · exact h.listed _ stream frameworkId hl (hf ▸ hid)
    · exact h.listed other otherStream frameworkId hos hid
  · intro frameworkId streamIds hids
    refine ⟨(h.lists frameworkId streamIds hids).1, fun other hmem => ?_⟩
    obtain ⟨otherStream, hos, hid⟩ := (h.lists frameworkId streamIds hids).2 other hmem
    by_cases hne : other = stream'.streamId
    · rw [hne, hl] at hos
      cases hos
      exact ⟨stream', hne ▸ hse, hf.trans hid⟩
    · exact ⟨otherStream, (ho other hne).trans hos, hid⟩
  · rcases hsn with hnil | hsa
    · exact @forall_sent this hnil _
    intro message hm
    obtain ⟨hpa, otherStream, hos, hh⟩ := h.sent message hm
    refine ⟨hpa, ?_⟩
    by_cases hne : message.streamId = stream'.streamId
    · rw [hne, hl] at hos
      cases hos
      exact ⟨stream', hne ▸ hse, hsa ▸ hh⟩
    · exact ⟨otherStream, (ho _ hne).trans hos, hh⟩

theorem Wf.keepStream (hid : stream'.streamId = stream.streamId) (hsa : Same stream' stream)
    (hf : stream'.frameworkId = stream.frameworkId) (ht : stream'.timeout = stream.timeout) :
    (this.setStream stream').Wf skip := by
  have hs := h.sound streamId stream hl
  refine h.setStream hl ⟨hid.trans hs.id, hsa.wf hs.wf, ?_, ?_⟩ hf (.inr hsa.pending) (fun _ _ hnot => hnot) ?_
  · rw [ht, hsa.pending]
    exact hs.timeout
  · rw [hsa.pending]
    exact hs.latestStatus
  · intro hpa hnot hpe
    rw [Retried, hid, ht]
    exact h.retried hpa streamId stream hl hnot (hsa.pending ▸ hpe)

end

/-- **Forwarding the first pending update starts the timer of the stream.** -/
theorem Wf.send (h : this.Wf (streamId :: skip)) (hpa : this.paused = false)
    (hl : this.streams.lookup streamId = some stream) {update : Update} (hn : stream.pending.head? = some update)
    (duration : Duration) : ∃ after, this.send stream update duration = .ok after ∧ after.Wf skip ∧ after.paused = false ∧
      (∀ timer ∈ this.timers, timer ∈ after.timers) ∧
      ∃ timeout, after.streams = this.streams.insert streamId { stream with timeout } := by
  have hs := h.sound streamId stream hl
  have hla := hs.latestStatus update (mem_of_head? hn)
  let timer : Timer := { streamId := stream.streamId, duration, deadline := this.now + duration }
  let message : Message := { streamId := stream.streamId, update, latestStatus := (stream.pending.getLast?.getD update).state }
  let during : Manager := { this with sent := this.sent ++ [message], timers := this.timers ++ [timer] }
  have hd : during.Wf (streamId :: skip) := by
    refine ⟨h.sound, ?_, h.listed, h.lists, ?_⟩
    · intro _ other otherStream ho hnot hpe
      obtain ⟨old, hold, hr⟩ := h.retried hpa other otherStream ho hnot hpe
      exact ⟨old, mem_append_left _ hold, hr⟩
    intro old hold
    rcases mem_append.mp hold with hold | hnew
    · exact h.sent old hold
    obtain rfl := mem_singleton.mp hnew
    refine ⟨hpa, stream, ?_, hn⟩
    show this.streams.lookup stream.streamId = some stream
    rw [hs.id, hl]
  have hf : this.forward stream update duration = .ok (during, this.now + duration) := by
    rw [forward, if_neg (by simp [hpa]), if_neg (by simp [hla])]
  have hse : this.send stream update duration =
      .ok (during.setStream { stream with timeout := some (this.now + duration) }) := by
    rw [Manager.send, hf]
    rfl
  have hs' : Sound { stream with timeout := some (this.now + duration) } streamId :=
    ⟨hs.id, ⟨hs.wf.nodup, hs.wf.received, hs.wf.acknowledged, hs.wf.pending⟩,
      fun hnil => by rw [hnil] at hn; exact (nomatch hn), hs.latestStatus⟩
  refine ⟨_, hse, hd.setStream hl hs' rfl (.inr rfl) ?_ ?_, hpa,
    fun _ ht => mem_append_left _ ht, some (this.now + duration), ?_⟩
  · intro _ hne hnot hmem
    rcases mem_cons.mp hmem with heq | hmem
    · exact hne heq
    · exact hnot hmem
  · intro _ _ _
    exact ⟨timer, mem_append_right _ (mem_singleton_self timer), rfl, rfl⟩
  · rw [← hs.id]
    rfl

/-! ## `update` -/

theorem pending_nil {pending : List Update} {update : Update} (h : (pending ++ [update]).length = 1) : pending = [] := by
  rw [length_append, length_singleton] at h
  exact length_eq_zero_iff.mp (by omega)

theorem Wf.update_ (h : this.Wf []) (hsn : this.sent = []) (hl : this.streams.lookup streamId = some stream)
    (update : Update) (checkpoint : Bool) (write : Write) :
    ∃ after result, this.update_ update stream checkpoint write = .ok (after, result) ∧ after.Wf [] := by
  have hso := h.sound streamId stream hl
  rw [Manager.update_]
  split_ifs with hla hc hhas hfr
  · exact ⟨_, _, rfl, h⟩
  · exact ⟨_, _, rfl, h⟩
  · exact ⟨_, _, rfl, h⟩
  · exact ⟨_, _, rfl, h⟩
  obtain ⟨after, result, hu, ⟨rfl, hr⟩ | ⟨hta, hh⟩⟩ := update_cases stream update write
  · rw [hu]
    have hk := h.keepStream hl rfl ⟨rfl, rfl, rfl, rfl, rfl⟩ rfl rfl
    match result with
    | .error _ | .ok false => exact ⟨_, _, rfl, hk⟩
    | .ok true => exact absurd rfl hr
  rw [hu]
  cases hh with
  | failed => exact ⟨_, _, rfl, h.keepStream hl rfl ⟨rfl, rfl, rfl, rfl, rfl⟩ rfl rfl⟩
  | done =>
    have hnew := hso.update hta.notReceived (by simpa using hla) (stream.written (record update .update))
    have hid : ({ stream with file := stream.written (record update .update) }.handle_ update .update).frameworkId =
        stream.frameworkId := by
      show update.frameworkId.or stream.frameworkId = stream.frameworkId
      rw [not_not.mp hfr, Option.or_self]
    generalize hdef : { stream with file := stream.written (record update .update) }.handle_ update .update =
      new at hnew hid ⊢
    have hpe : new.pending = stream.pending ++ [update] := hdef ▸ rfl
    have ht : new.timeout = stream.timeout := hdef ▸ rfl
    have he : new.error = none := hdef ▸ hta.noError
    dsimp only
    split_ifs with hf hs
    · have hnil := pending_nil (hpe ▸ hf.2)
      rw [ht, hso.timeout hnil] at hs
      exact nomatch hs
    · have hnil := pending_nil (hpe ▸ hf.2)
      have hhe : new.pending.head? = some update := by rw [hpe, hnil]; rfl
      have hset : (this.setStream new).Wf [streamId] :=
        h.setStream hl hnew hid (.inl hsn) (fun _ _ _ => not_mem_nil)
          (fun _ hnot => absurd (mem_singleton_self streamId) hnot)
      obtain ⟨after, haf, hwf, -⟩ := hset.send hf.1 (lookup_setStream hnew.id) hhe retryIntervalMin
      rw [Stream.next, he]
      rw [hhe]
      exact ⟨after, .ok (), by dsimp only; rw [haf]; rfl, hwf⟩
    · refine ⟨_, _, rfl, h.setStream hl hnew hid (.inl hsn) (fun _ _ hnot => hnot) ?_⟩
      intro hpa hnot _
      -- The queue was not empty, so that its timer runs.
      have hs : stream.pending ≠ [] := fun hnil => hf ⟨hpa, by rw [hpe, hnil]; rfl⟩
      rw [Retried, hnew.id, ht, ← hso.id]
      exact h.retried hpa streamId stream hl hnot hs

theorem lookup_addStream (this : Manager) (stream : Stream) (frameworkId : FrameworkId) :
    (this.addStream stream).frameworkStreams.lookup frameworkId = if stream.frameworkId = some frameworkId then
        some (((this.frameworkStreams.lookup frameworkId).getD []).insert stream.streamId)
      else this.frameworkStreams.lookup frameworkId := by
  rw [addStream]
  cases stream.frameworkId with
  | none => rfl
  | some own =>
    by_cases hown : own = frameworkId
    · subst hown
      rw [if_pos rfl]
      exact lookup_insert _
    · rw [if_neg (fun heq => hown (Option.some.inj heq))]
      exact lookup_insert_ne (Ne.symm hown)

theorem streams_addStream (this : Manager) (stream : Stream) :
    (this.addStream stream).streams = this.streams.insert stream.streamId stream := by
  rw [addStream]
  cases stream.frameworkId <;> rfl

variable (h : this.Wf []) (hsn : this.sent = [])
include h hsn

theorem Wf.addStream (hno : this.streams.lookup streamId = none)
    (path : Option String) (frameworkId : Option FrameworkId) :
    (this.addStream { streamId, path, frameworkId }).Wf [] := by
  have hsou : Sound { streamId, path, frameworkId } streamId :=
    ⟨rfl, ⟨nodup_nil, fun _ => by simp, Finset.Subset.refl _, rfl⟩, fun _ => rfl, nofun⟩
  have hl : ∀ {other otherStream}, (this.addStream { streamId, path, frameworkId }).streams.lookup other = some otherStream ↔
      other = streamId ∧ { streamId, path, frameworkId } = otherStream ∨
        other ≠ streamId ∧ this.streams.lookup other = some otherStream := by
    rw [streams_addStream]
    exact lookup_insert_some
  -- No framework lists the stream yet.
  have hk : ∀ {otherId old}, this.frameworkStreams.lookup otherId = some old → ∀ other ∈ old, ∃ otherStream,
      (this.addStream { streamId, path, frameworkId }).streams.lookup other = some otherStream ∧
        otherStream.frameworkId = some otherId := by
    intro otherId old hold other hmem
    obtain ⟨otherStream, hos, hid⟩ := (h.lists otherId old hold).2 other hmem
    have hne : other ≠ streamId := by
      rintro rfl
      exact nomatch hno.symm.trans hos
    exact ⟨otherStream, hl.2 (.inr ⟨hne, hos⟩), hid⟩
  constructor
  · intro other otherStream hos
    rcases hl.1 hos with ⟨rfl, rfl⟩ | ⟨-, hos⟩
    · exact hsou
    · exact h.sound other otherStream hos
  · intro hpa other otherStream hos hnot hso
    rcases hl.1 hos with ⟨rfl, rfl⟩ | ⟨-, hos⟩
    · exact absurd rfl hso
    · have hr := h.retried ?_ other otherStream hos hnot hso
      · cases frameworkId <;> exact hr
      · cases frameworkId <;> exact hpa
  · intro other otherStream otherId hos hid
    rw [lookup_addStream]
    rcases hl.1 hos with ⟨rfl, rfl⟩ | ⟨-, hos⟩
    · rw [if_pos hid]
      exact ⟨_, rfl, mem_insert_self⟩
    obtain ⟨old, hold, hmem⟩ := h.listed other otherStream otherId hos hid
    split_ifs
    · exact ⟨_, rfl, mem_insert_of_mem (by rw [hold]; exact hmem)⟩
    · exact ⟨old, hold, hmem⟩
  · intro otherId streamIds hids
    rw [lookup_addStream] at hids
    split_ifs at hids with hown
    · cases hids
      cases hold : this.frameworkStreams.lookup otherId with
      | none =>
        refine ⟨nodup_singleton streamId, fun other hmem => ?_⟩
        obtain rfl := mem_singleton.mp hmem
        exact ⟨_, hl.2 (.inl ⟨rfl, rfl⟩), hown⟩
      | some old =>
        refine ⟨(h.lists otherId old hold).1.insert, fun other hmem => ?_⟩
        rcases mem_insert_iff.mp hmem with rfl | hmem
        · exact ⟨_, hl.2 (.inl ⟨rfl, rfl⟩), hown⟩
        · exact hk hold other hmem
    · exact ⟨(h.lists otherId streamIds hids).1, hk hids⟩
  · exact forall_sent (by cases frameworkId <;> exact hsn)

theorem Wf.create {getPath : StreamId → String} {frameworkId : Option FrameworkId} {checkpoint : Bool} {file : Open}
    {after : Manager} (hno : this.streams.lookup streamId = none)
    (hc : this.createStatusUpdateStream getPath streamId frameworkId checkpoint file = .ok after) :
    ∃ stream, after.streams.lookup streamId = some stream ∧ after.sent = [] ∧ after.Wf [] := by
  obtain ⟨path, rfl⟩ : ∃ path, this.addStream { streamId, path, frameworkId } = after := by
    cases checkpoint with
    | false => exact ⟨none, Except.ok.inj hc⟩
    | true =>
      cases file with
      | opened => exact ⟨_, Except.ok.inj hc⟩
      | failed => exact nomatch hc
  refine ⟨{ streamId, path, frameworkId }, ?_, ?_, h.addStream hsn hno path frameworkId⟩
  · rw [streams_addStream]
    exact lookup_insert _
  · cases frameworkId <;> exact hsn

/-- **`update` fails no check.** -/
theorem Wf.update (getPath : StreamId → String) (update : Update)
    (streamId : StreamId) (checkpoint : Bool) (file : Open) (write : Write) :
    ∃ after result, this.update getPath update streamId checkpoint file write = .ok (after, result) ∧ after.Wf [] := by
  rw [Manager.update]
  cases hl : this.streams.lookup streamId with
  | some => exact h.update_ hsn hl update checkpoint write
  | none =>
    cases hc : this.createStatusUpdateStream getPath streamId update.frameworkId checkpoint file with
    | error => exact ⟨this, _, rfl, h⟩
    | ok =>
      obtain ⟨_, hs, hsn', hwf⟩ := h.create hsn hl hc
      dsimp only
      rw [hs]
      exact hwf.update_ hsn' hs update checkpoint write

omit h hsn

/-! ## `acknowledgement` and `cleanup` -/

theorem Wf.settle (h : this.Wf (streamId :: skip))
    (hno : this.paused = false → ∀ stream, this.streams.lookup streamId = some stream → stream.pending ≠ [] →
      Retried this.timers stream) : this.Wf skip where
  sound := h.sound
  retried hpa other stream hl hnot hpe := by
    by_cases hne : other = streamId
    · exact hno hpa stream (hne ▸ hl) hpe
    · refine h.retried hpa other stream hl (fun hmem => ?_) hpe
      exact (mem_cons.mp hmem).elim hne hnot
  listed := h.listed
  lists := h.lists
  sent := h.sent

theorem Wf.weaken (h : this.Wf skip) (streamId : StreamId) : this.Wf (streamId :: skip) where
  sound := h.sound
  retried hpa other stream hl hnot := h.retried hpa other stream hl fun hmem =>
    hnot (mem_cons_of_mem _ hmem)
  listed := h.listed
  lists := h.lists
  sent := h.sent

theorem Wf.eraseStream (h : this.Wf (streamId :: skip)) (hsn : this.sent = [])
    {frameworkStreams : AList fun _ : FrameworkId => List StreamId}
    (hk : ∀ frameworkId old, this.frameworkStreams.lookup frameworkId = some old → ∀ other ∈ old, other ≠ streamId →
      ∃ streamIds, frameworkStreams.lookup frameworkId = some streamIds ∧ other ∈ streamIds)
    (hli : ∀ frameworkId streamIds, frameworkStreams.lookup frameworkId = some streamIds →
      ∃ old, this.frameworkStreams.lookup frameworkId = some old ∧ streamIds = old.erase streamId) :
    Wf skip { this with streams := this.streams.erase streamId, frameworkStreams } := by
  have hold : ∀ {other otherStream}, (this.streams.erase streamId).lookup other = some otherStream →
      other ≠ streamId ∧ this.streams.lookup other = some otherStream := lookup_erase_some.1
  constructor
  · exact fun other otherStream hos => h.sound other otherStream (hold hos).2
  · intro hpa other otherStream hos hnot hpe
    obtain ⟨hne, hl⟩ := hold hos
    exact h.retried hpa other otherStream hl (fun hmem => (mem_cons.mp hmem).elim hne hnot) hpe
  · intro other otherStream frameworkId hos hid
    obtain ⟨hne, hl⟩ := hold hos
    obtain ⟨old, hids, hmem⟩ := h.listed other otherStream frameworkId hl hid
    exact hk frameworkId old hids other hmem hne
  · intro frameworkId streamIds hids
    obtain ⟨old, hold, rfl⟩ := hli frameworkId streamIds hids
    obtain ⟨hn, hs⟩ := h.lists frameworkId old hold
    refine ⟨hn.erase _, fun other hmem => ?_⟩
    obtain ⟨hne, hmem⟩ := (List.Nodup.mem_erase_iff hn).mp hmem
    obtain ⟨otherStream, hl, hid⟩ := hs other hmem
    exact ⟨otherStream, (lookup_erase_ne hne).trans hl, hid⟩
  · exact @forall_sent this hsn _

/-- **`cleanupStatusUpdateStream` finds the stream under its framework.** -/
theorem Wf.cleanupStream (h : this.Wf (streamId :: skip)) (hsn : this.sent = [])
    (hl : this.streams.lookup streamId = some stream) :
    ∃ after, this.cleanupStatusUpdateStream streamId = .ok after ∧ after.Wf skip ∧ after.sent = [] ∧
      after.streams = this.streams.erase streamId := by
  -- The other frameworks do not list the stream.
  have ho : ∀ frameworkId old, stream.frameworkId ≠ some frameworkId →
      this.frameworkStreams.lookup frameworkId = some old → old = old.erase streamId := by
    intro frameworkId old hne hold
    refine (erase_of_not_mem fun hmem => ?_).symm
    obtain ⟨other, hot, hid⟩ := (h.lists frameworkId old hold).2 streamId hmem
    rw [hl] at hot
    cases hot
    exact hne hid
  rw [cleanupStatusUpdateStream, hl]
  dsimp only
  cases hid : stream.frameworkId with
  | none =>
    refine ⟨_, rfl, h.eraseStream hsn ?_ ?_, hsn, rfl⟩
    · exact fun _ old hold _ hmem _ => ⟨old, hold, hmem⟩
    · exact fun frameworkId old hold => ⟨old, hold, ho frameworkId old (by rw [hid]; nofun) hold⟩
  | some frameworkId =>
    obtain ⟨streamIds, hids, hmem⟩ := h.listed streamId stream frameworkId hl hid
    have ho' : ∀ other old, other ≠ frameworkId → this.frameworkStreams.lookup other = some old →
        old = old.erase streamId :=
      fun other old hne => ho other old (by rw [hid]; exact fun heq => hne (Option.some.inj heq).symm)
    dsimp only
    rw [hids]
    dsimp only
    split_ifs with he
    · refine ⟨_, rfl, h.eraseStream hsn ?_ ?_, hsn, rfl⟩
      · intro other old hold id hmem hne
        by_cases hown : other = frameworkId
        · rw [hown, hids] at hold
          cases hold
          have hmem' : id ∈ streamIds.erase streamId := (mem_erase_of_ne hne).mpr hmem
          rw [isEmpty_iff.mp he] at hmem'
          exact nomatch hmem'
        · exact ⟨old, (lookup_erase_ne hown).trans hold, hmem⟩
      · intro other old hold
        obtain ⟨hown, hold⟩ := lookup_erase_some.1 hold
        exact ⟨old, hold, ho' other old hown hold⟩
    · refine ⟨_, rfl, h.eraseStream hsn ?_ ?_, hsn, rfl⟩
      · intro other old hold _ hmem hne
        by_cases hown : other = frameworkId
        · subst hown
          rw [hids] at hold
          cases hold
          exact ⟨_, lookup_insert _, (mem_erase_of_ne hne).mpr hmem⟩
        · exact ⟨old, (lookup_insert_ne hown).trans hold, hmem⟩
      · intro other old hold
        rcases lookup_insert_some.1 hold with ⟨rfl, rfl⟩ | ⟨hown, hold⟩
        · exact ⟨streamIds, hids, rfl⟩
        · exact ⟨old, hold, ho' other old hown hold⟩

theorem Wf.acknowledgement_ (h : this.Wf [streamId]) (hsn : this.sent = [])
    (hl : this.streams.lookup streamId = some stream) (he : stream.error = none) :
    ∃ after result, this.acknowledgement_ stream = .ok (after, result) ∧ after.Wf [] := by
  have hs := h.sound streamId stream hl
  rw [Manager.acknowledgement_, Stream.next, he]
  split_ifs with ht
  · obtain ⟨after, haf, hwf, -⟩ := h.cleanupStream hsn hl
    rw [hs.id, haf]
    exact ⟨after, .ok false, rfl, hwf⟩
  cases hpa : this.paused with
  | true =>
    refine ⟨this, .ok true, by cases stream.pending.head? <;> rfl, h.settle fun hf => ?_⟩
    cases hf.symm.trans hpa
  | false =>
    cases hh : stream.pending.head? with
    | none =>
      refine ⟨this, _, rfl, h.settle fun _ _ ho hpe => ?_⟩
      rw [hl] at ho
      cases ho
      exact absurd (head?_eq_none_iff.mp hh) hpe
    | some =>
      obtain ⟨after, haf, hwf, -⟩ := h.send hpa hl hh retryIntervalMin
      dsimp only
      rw [haf]
      exact ⟨after, .ok true, rfl, hwf⟩

theorem Wf.acknowledgement (h : this.Wf []) (hsn : this.sent = []) (streamId : StreamId) (uuid : Uuid) (write : Write) :
    ∃ after result, this.acknowledgement streamId uuid write = .ok (after, result) ∧ after.Wf [] := by
  rw [Manager.acknowledgement]
  cases hl : this.streams.lookup streamId with
  | none => exact ⟨this, _, rfl, h⟩
  | some stream =>
    dsimp only
    obtain ⟨after, result, hack, ⟨rfl, hr⟩ | ⟨update, ha, hh⟩⟩ :=
      acknowledgement_cases stream uuid write
    · rw [hack]
      have hk := h.keepStream hl rfl ⟨rfl, rfl, rfl, rfl, rfl⟩ rfl rfl
      match result with
      | .error _ | .ok false => exact ⟨_, _, rfl, hk⟩
      | .ok true => exact absurd rfl hr
    · rw [hack]
      cases hh with
      | failed => exact ⟨_, _, rfl, h.keepStream hl rfl ⟨rfl, rfl, rfl, rfl, rfl⟩ rfl rfl⟩
      | done =>
        have hnew := (h.sound streamId stream hl).ack ha.next (stream.written (record update .ack))
        have hset := h.setStream hl hnew rfl (.inl hsn) (fun _ _ _ => not_mem_nil)
          (fun _ hnot => absurd (mem_singleton_self streamId) hnot)
        exact hset.acknowledgement_ hsn (lookup_setStream hnew.id) ha.noError

theorem Wf.cleanup (h : this.Wf []) (hsn : this.sent = []) (frameworkId : FrameworkId) :
    ∃ after, this.cleanup frameworkId = .ok after ∧ after.Wf [] := by
  rw [Manager.cleanup]
  cases hids : this.frameworkStreams.lookup frameworkId with
  | none => exact ⟨this, rfl, h⟩
  | some streamIds =>
    obtain ⟨hn, hmem⟩ := h.lists frameworkId streamIds hids
    -- What is left of the list are streams that are not cleaned up yet.
    obtain ⟨after, haf, hwf, -⟩ := @Fallible.foldlM_runs _ _ _ cleanupStatusUpdateStream
      (fun rest this => this.Wf [] ∧ this.sent = [] ∧ rest.Nodup ∧ ∀ streamId ∈ rest, streamId ∈ this.streams)
      (by
        rintro streamId rest before ⟨hwf, hsn, hn, hmem⟩
        obtain ⟨stream, hl⟩ := Option.isSome_iff_exists.mp (lookup_isSome.mpr (hmem streamId mem_cons_self))
        obtain ⟨after, haf, hwf', hsn', hs⟩ := (hwf.weaken streamId).cleanupStream hsn hl
        refine ⟨after, haf, hwf', hsn', (nodup_cons.mp hn).2, fun other ho => ?_⟩
        rw [hs, mem_erase]
        exact ⟨fun heq => (nodup_cons.mp hn).1 (heq ▸ ho), hmem other (mem_cons_of_mem _ ho)⟩)
      streamIds this ⟨h, hsn, hn, fun streamId hsi => by
        obtain ⟨_, hl, -⟩ := hmem streamId hsi
        exact lookup_isSome.mp (by rw [hl]; rfl)⟩
    exact ⟨after, haf, hwf⟩

/-! ## `resume` and `timeout` -/

/-- The streams that `resume` passes over have no pending updates but those that a timer is left for. -/
def Covered (this : Manager) : Prop :=
  ∀ streamId stream, this.streams.lookup streamId = some stream → stream.error ≠ none → stream.pending ≠ [] →
    Retried this.timers stream

theorem Wf.resumeStream (h : this.Wf (streamId :: skip)) (hpa : this.paused = false) (he : this.Covered) :
    ∃ after, this.resumeStream streamId = .ok after ∧ after.Wf skip ∧ after.paused = false ∧ after.Covered := by
  rw [Manager.resumeStream]
  cases hl : this.streams.lookup streamId with
  | none =>
    refine ⟨this, rfl, h.settle fun _ stream hs => ?_, hpa, he⟩
    rw [hl] at hs
    cases hs
  | some stream =>
    have hse : (stream.pending ≠ [] → Retried this.timers stream) → this.Wf skip := fun hr =>
      h.settle fun _ other ho => by
        rw [hl] at ho
        cases ho
        exact hr
    dsimp only
    rw [Stream.next]
    cases hno : stream.error with
    | some => exact ⟨this, rfl, hse (he streamId stream hl (by simp [hno])), hpa, he⟩
    | none =>
      cases hh : stream.pending.head? with
      | none => exact ⟨this, rfl, hse fun hne => absurd (head?_eq_none_iff.mp hh) hne, hpa, he⟩
      | some =>
        obtain ⟨after, haf, hwf, hpa', ht, _, hst⟩ := h.send hpa hl hh retryIntervalMin
        refine ⟨after, haf, hwf, hpa', fun other otherStream ho hso hpe => ?_⟩
        rw [hst] at ho
        rcases lookup_insert_some.1 ho with ⟨rfl, rfl⟩ | ⟨-, ho⟩
        · exact absurd hno hso
        · obtain ⟨timer, hti, hr⟩ := he other otherStream ho hso hpe
          exact ⟨timer, ht timer hti, hr⟩

/-- **`resume` starts a timer for each pending update**, but for those of streams with an error. -/
theorem Wf.resume (h : this.Wf []) (he : this.paused = true → this.Covered) (hsn : this.sent = []) :
    ∃ after, this.resume = .ok after ∧ after.Wf [] := by
  have hs : Wf this.streams.keys { this with paused := false } := by
    refine ⟨h.sound, fun _ streamId stream hl hnot => ?_, h.listed, h.lists, ?_⟩
    · exact absurd (lookup_isSome.mp (by rw [hl]; rfl)) hnot
    · exact @forall_sent this hsn _
  have hc : this.Covered := by
    cases hpa : this.paused with
    | true => exact he hpa
    | false => exact fun streamId stream hl _ => h.retried hpa streamId stream hl not_mem_nil
  obtain ⟨after, haf, hwf, -⟩ := @Fallible.foldlM_runs _ _ _ Manager.resumeStream
    (fun rest this => this.Wf rest ∧ this.paused = false ∧ this.Covered)
    (fun _ _ this ht => ht.1.resumeStream ht.2.1 ht.2.2)
    this.streams.keys { this with paused := false } ⟨hs, rfl, hc⟩
  exact ⟨after, haf, hwf⟩

/-- **A timer that fires is replaced**, unless a later one has been recorded or nothing is pending. -/
theorem Wf.fire (h : this.Wf []) {index : Nat} {timer : Timer}
    (hti : this.timers[index]? = some timer) (hdue : timer.deadline ≤ this.now) :
    ∃ after, { this with timers := this.timers.eraseIdx index }.timeout timer.streamId timer.duration = .ok after ∧
      after.Wf [] := by
  have hk : ∀ other ∈ this.timers, other ≠ timer → other ∈ this.timers.eraseIdx index := by
    intro other ho hne
    obtain ⟨i, hi⟩ := mem_iff_getElem?.mp ho
    refine mem_eraseIdx_iff_getElem?.mpr ⟨i, ?_, hi⟩
    rintro rfl
    exact hne (Option.some.inj (hi.symm.trans hti))
  have hs : Wf [timer.streamId] { this with timers := this.timers.eraseIdx index } := by
    refine ⟨h.sound, fun hpa streamId stream hl hnot hpe => ?_, h.listed, h.lists, h.sent⟩
    obtain ⟨other, ho, hid, ht⟩ := h.retried hpa streamId stream hl not_mem_nil hpe
    refine ⟨other, hk other ho ?_, hid, ht⟩
    rintro rfl
    exact hnot (by rw [hid, (h.sound streamId stream hl).id]; exact mem_singleton_self streamId)
  rw [timeout]
  split_ifs with hpa
  · exact ⟨_, rfl, hs.settle fun hf => nomatch (hf.symm.trans hpa)⟩
  have hpa : this.paused = false := Bool.eq_false_iff.mpr hpa
  cases hl : this.streams.lookup timer.streamId with
  | none =>
    refine ⟨_, rfl, hs.settle fun _ stream hst => ?_⟩
    exact nomatch hl.symm.trans hst
  | some stream =>
    have hse : (stream.pending ≠ [] → Retried (this.timers.eraseIdx index) stream) →
        Wf [] { this with timers := this.timers.eraseIdx index } := fun hr =>
      hs.settle fun _ other ho => by
        cases hl.symm.trans ho
        exact hr
    dsimp only
    cases hpe : stream.pending with
    | nil => exact ⟨_, rfl, hse fun hne => absurd hpe hne⟩
    | cons update =>
      obtain ⟨other, ho, hid, ht⟩ := h.retried hpa timer.streamId stream hl not_mem_nil
        (by rw [hpe]; exact cons_ne_nil _ _)
      rw [ht]
      dsimp only
      split_ifs with he
      · have hh : stream.pending.head? = some update := by rw [hpe]; rfl
        obtain ⟨after, haf, hwf, -⟩ := hs.send hpa hl hh (min (timer.duration * 2) retryIntervalMax)
        exact ⟨after, haf, hwf⟩
      · refine ⟨_, rfl, hse fun _ => ⟨other, hk other ho ?_, hid, ht⟩⟩
        rintro rfl
        exact he hdue

/-! ## Runs -/

/-- `resume` of a paused manager finds no stream that has an error, pending updates and no timer for them. -/
def Resumable (this : Manager) : Call → Prop
  | .resume => this.paused = true → this.Covered
  | _ => True

theorem Wf.step (getPath : StreamId → String) (h : this.Wf []) (call : Call) (hc : this.Resumable call) :
    ∃ after, this.step getPath call = .ok after ∧ after.Wf [] := by
  have hs : Wf [] { this with sent := [] } := ⟨h.sound, h.retried, h.listed, h.lists, forall_mem_nil _⟩
  cases call with
  | update update streamId checkpoint file write =>
    obtain ⟨after, result, haf, hwf⟩ := hs.update rfl getPath update streamId checkpoint file write
    exact ⟨after, by rw [Manager.step, Manager.call, haf]; rfl, hwf⟩
  | acknowledgement streamId uuid write =>
    obtain ⟨after, _, haf, hwf⟩ := hs.acknowledgement rfl streamId uuid write
    exact ⟨after, by rw [Manager.step, Manager.call, haf]; rfl, hwf⟩
  | pause => exact ⟨_, rfl, hs.sound, nofun, hs.listed, hs.lists, forall_mem_nil _⟩
  | resume => exact hs.resume hc rfl
  | cleanup frameworkId => exact hs.cleanup rfl frameworkId
  | tick => exact ⟨_, rfl, hs.sound, hs.retried, hs.listed, hs.lists, hs.sent⟩
  | fire index =>
    rw [Manager.step, Manager.call]
    cases ht : this.timers[index]? with
    | none => exact ⟨_, rfl, hs⟩
    | some =>
      dsimp only
      split_ifs with hdue
      · exact hs.fire ht hdue
      · exact ⟨_, rfl, hs⟩

/-- Whatever the last event has forwarded is the oldest update of its stream that is not acknowledged, and each stream with
pending updates has a timer for them. -/
structure Delivers (this : Manager) : Prop where
  oldest : ∀ message ∈ this.sent, this.paused = false ∧ ∃ stream,
    this.streams.lookup message.streamId = some stream ∧ stream.unacknowledged.head? = some message.update
  timer : this.paused = false → ∀ streamId stream, this.streams.lookup streamId = some stream → stream.pending ≠ [] →
    ∃ timer ∈ this.timers, timer.streamId = streamId ∧ stream.timeout = some timer.deadline

theorem Wf.delivers (h : this.Wf []) : this.Delivers where
  oldest message hm := by
    obtain ⟨hpa, stream, hl, hh⟩ := h.sent message hm
    rw [(h.sound _ stream hl).wf.pending] at hh
    exact ⟨hpa, stream, hl, hh⟩
  timer hpa streamId stream hl hpe := by
    have hr := h.retried hpa streamId stream hl not_mem_nil hpe
    rw [Retried, (h.sound streamId stream hl).id] at hr
    exact hr

/-- **Status updates are delivered in order and retried until they are acknowledged**, and no check fails, along every run in
which `resume` finds no stream that has an error, pending updates and no timer for them. -/
theorem updates_delivered (getPath : StreamId → String) (calls : List Call)
    (hcalls : Fallible.Meets (Manager.step getPath) Resumable {} calls) :
    ∃ this, calls.foldlM (Manager.step getPath) {} = .ok this ∧ this.Delivers := by
  have hempty : Wf [] {} := by
    refine ⟨?_, ?_, ?_, ?_, forall_mem_nil _⟩
    · exact nofun
    · exact nofun
    · exact nofun
    · exact nofun
  obtain ⟨this, hrun, hwf⟩ := hcalls.runs (I := Wf []) (fun _ call h hcall => h.step getPath call hcall) hempty
  exact ⟨this, hrun, hwf.delivers⟩

theorem resumable_of_entries (h : ∀ entry ∈ this.streams.entries, entry.2.error ≠ none → entry.2.pending ≠ [] →
    Retried this.timers entry.2) : this.Resumable .resume := fun _ _ _ hl =>
  h _ (mem_lookup_iff.mp (Option.mem_def.mpr hl))

/-- A record cannot be written while the manager is paused, for a stream that has a timer and for one that has none. -/
theorem updates_delivered_paused : let calls : List Call :=
      [.update ⟨some 1, .pending, none, false⟩ "a" true .opened .done, .pause,
        .update ⟨some 2, .finished, none, false⟩ "a" true .opened (.failed "No space left on device"),
        .update ⟨some 3, .finished, none, false⟩ "b" true .opened (.failed "No space left on device"), .resume]
    ∃ this, calls.foldlM (Manager.step id) {} = .ok this ∧ this.Delivers := by
  refine updates_delivered id _ ⟨trivial, fun _ h₁ => ⟨trivial, fun _ h₂ => ⟨trivial, fun _ h₃ => ⟨trivial, fun _ h₄ =>
    ⟨?_, fun _ _ => trivial⟩⟩⟩⟩⟩
  cases h₁
  cases h₂
  cases h₃
  cases h₄
  exact resumable_of_entries (by decide)

/-- A record cannot be written while the manager is paused: `resume` passes over the stream, and the timer of an update that
was acknowledged finds an update without timeout. -/
theorem unwritten_passed_over : ¬ ∀ calls : List Call, ∃ this, calls.foldlM (Manager.step id) {} = .ok this ∧ this.Delivers := by
  intro h
  obtain ⟨_, hrun, -⟩ := h
    [.update ⟨some 1, .pending, none, false⟩ "a" true .opened .done, .acknowledgement "a" 1 .done, .pause,
      .update ⟨some 2, .pending, none, false⟩ "a" true .opened .done,
      .update ⟨some 3, .finished, none, false⟩ "a" true .opened (.failed "No space left on device"), .resume,
      .tick (seconds 10), .fire 0]
  exact nomatch hrun

end Manager

end Clusterd.Status
