import Clusterd.StatusManager
/-!
# Explicit reconciliation of operations

The master answers for the operations it knows and for agents that are away.  It forwards the others to their agents, one
message for each, if the resource provider is unknown.  The agent goes through the message again, and hands all of it to its
resource provider manager whenever an operation is unknown.  So only a message with one unknown operation, or none, is answered
once.
-/
namespace Clusterd.Reconcile

open Status (OperationState)
open List

/-- `OperationStatus`, without the uuid, which is cleared. -/
structure OperationStatus where
  state : OperationState
  operationId : String
  message : Option String := none
  slaveId : Option String := none
  resourceProviderId : Option String := none

/-- An operation of the framework that has an ID, with the statuses that name it. -/
structure Operation where
  id : String
  latestStatus : OperationStatus
  statuses : List OperationStatus
  named : ∀ status ∈ latestStatus :: statuses, status.operationId = id

/-- `scheduler::Call::ReconcileOperations::Operation`. -/
structure Request where
  operationId : String
  slaveId : Option String := none
  resourceProviderId : Option String := none

/-- `ReconcileOperationsMessage::Operation`; a framework does not know the uuid. -/
structure Forwarded where
  operationId : String
  resourceProviderId : Option String
  operationUuid : Option String := none

/-- `RECONCILE_OPERATIONS`. -/
structure Event where
  resourceProviderId : String
  operationUuids : List (Option String)

/-- `CHECK_SOME(uuid)` of the resource provider. -/
def Event.passes (this : Event) : Prop := ∀ uuid ∈ this.operationUuids, uuid.isSome = true

/-- `ResourceProviderManagerProcess`, with the IDs of its resource providers. -/
structure Manager where
  subscribed : List String := []
  known : List String := []

def Manager.reconcileOperations (this : Manager) (message : List Forwarded) : List OperationStatus × List Event :=
  (message.filterMap fun operation => operation.resourceProviderId.bind fun id =>
      if id ∈ this.subscribed then none
      else some {
        state := if id ∈ this.known then .recovering else .unknown
        operationId := operation.operationId
        resourceProviderId := some id },
    (message.filterMap fun operation => operation.resourceProviderId.filter (· ∈ this.subscribed)).dedup.map fun id =>
      ⟨id, (message.filter (·.resourceProviderId = some id)).map (·.operationUuid)⟩)

/-- A registered agent, with the resource providers that the master has been told of. -/
structure Agent where
  operations : List Operation := []
  manager : Manager := {}
  resourceProviders : List String := []
  agentOperationFeedback : Bool := true

/-- `Slave::reconcileOperations` of a message for a framework. -/
def Agent.reconcileOperations (this : Agent) (slaveId : String) (message : List Forwarded) :
    List OperationStatus × List Event :=
  let answers := message.map fun operation =>
    match this.operations.find? (·.id = operation.operationId) with
    | some stored => ([stored.latestStatus], [])
    | none =>
      let answer := this.manager.reconcileOperations message
      -- The agent injects its ID.
      (answer.1.map fun status : OperationStatus => { status with slaveId := some slaveId }, answer.2)
  (answers.flatMap (·.1), answers.flatMap (·.2))

/-- What the master knows, and the agents that are registered. -/
structure Master where
  operations : List Operation := []
  recovered : List String := []
  registered : String → Option Agent := fun _ => none
  unreachable : List String := []
  gone : List String := []

namespace Master

variable (this : Master)

/-- The status the master answers with, if it does not forward the request. -/
def respond (request : Request) : Option OperationStatus :=
  let status (state : OperationState) (message : String) : OperationStatus :=
    ⟨state, request.operationId, some message, request.slaveId, request.resourceProviderId⟩
  match this.operations.find? (·.id = request.operationId), request.slaveId with
  | some operation, _ => some (operation.statuses.getLast?.getD operation.latestStatus)
  | none, none => some (status .unknown "Reconciliation: Operation is unknown and no 'agent_id' was provided")
  | none, some slaveId =>
    if slaveId ∈ this.recovered then
      some (status .recovering "Reconciliation: Agent is recovered but has not re-registered")
    else
      match this.registered slaveId with
      | some agent =>
        if request.resourceProviderId.any (· ∉ agent.resourceProviders) && agent.agentOperationFeedback then none
        else some (status .unknown "Reconciliation: Operation is unknown")
      | none =>
        if slaveId ∈ this.unreachable then some (status .unreachable "Reconciliation: Agent is unreachable")
        else if slaveId ∈ this.gone then some (status .goneByOperator "Reconciliation: Agent marked gone by operator")
        else some (status .unknown "Reconciliation: Both operation and agent are unknown")

variable (requests : List Request)

/-- The requests that are forwarded to an agent. -/
def asked (slaveId : String) : List Request :=
  requests.filter fun request => request.slaveId = some slaveId ∧ (this.respond request).isNone

/-- `forwardedReconciliations`. -/
def forwarded (slaveId : String) : List Forwarded :=
  (this.asked requests slaveId).map fun request =>
    { operationId := request.operationId, resourceProviderId := request.resourceProviderId }

/-- What comes back from an agent. -/
def answered (slaveId : String) : List OperationStatus × List Event :=
  match this.registered slaveId with
  | some agent => agent.reconcileOperations slaveId (this.forwarded requests slaveId)
  | none => ([], [])

/-- The statuses that the framework receives, and the events for resource providers.  The master passes on the statuses that
it is sent. -/
def reconcileOperations : List OperationStatus × List Event :=
  let answers := (requests.filterMap (·.slaveId)).dedup.map (this.answered requests)
  (requests.filterMap this.respond ++ answers.flatMap (·.1), answers.flatMap (·.2))

end Master

/-! ## One answer for each operation -/

/-- **Every operation is answered once, and no resource provider aborts.** -/
structure Once (this : Master) (requests : List Request) : Prop where
  answers : ∀ request ∈ requests,
    ((this.reconcileOperations requests).1.map (·.operationId)).count request.operationId = 1
  passes : ∀ event ∈ (this.reconcileOperations requests).2, event.passes

def Agent.knows (this : Agent) (operation : Forwarded) : Bool :=
  (this.operations.find? (·.id = operation.operationId)).isSome

/-- The agent knows all operations of a message, or there is a single one, whose resource provider is not subscribed. -/
def Agent.AnswersOnce (this : Agent) (message : List Forwarded) : Prop :=
  (∀ operation ∈ message, this.knows operation = true) ∨
    ∃ operation, message = [operation] ∧ ∀ id ∈ operation.resourceProviderId, id ∉ this.manager.subscribed

variable {status : OperationStatus}

theorem Operation.find_named {operations : List Operation} {id : String} {operation : Operation}
    (h : operations.find? (·.id = id) = some operation)
    (hs : status ∈ operation.latestStatus :: operation.statuses) : status.operationId = id := by
  have hid : operation.id = id := by simpa using find?_some h
  exact hid ▸ operation.named status hs

theorem Master.respond_named {this : Master} {request : Request}
    (h : this.respond request = some status) : status.operationId = request.operationId := by
  unfold Master.respond at h
  split at h
  next operation hf =>
    cases h
    refine Operation.find_named hf ?_
    cases hl : operation.statuses.getLast? with
    | none => exact mem_cons_self
    | some => exact mem_cons_of_mem _ (mem_of_getLast? hl)
  all_goals grind

/-- The IDs of the answers to one operation of a message. -/
def Agent.namesFor (this : Agent) (message : List Forwarded) (operation : Forwarded) : List String :=
  if this.knows operation then [operation.operationId]
  else (this.manager.reconcileOperations message).1.map (·.operationId)

theorem Agent.answers_named (this : Agent) (slaveId : String) (message : List Forwarded) :
    (this.reconcileOperations slaveId message).1.map (·.operationId) = message.flatMap (this.namesFor message) := by
  rw [Agent.reconcileOperations, flatMap_map, map_flatMap]
  refine flatMap_congr fun _ _ => ?_
  rw [Agent.namesFor, Agent.knows]
  split
  next hf => simp [hf, Operation.find_named hf mem_cons_self]
  next hf => simp [hf]

/-- A framework's requests that are forwarded name resource providers, and no uuids. -/
def Plain (message : List Forwarded) : Prop :=
  (message.map (·.operationId)).Nodup ∧
    ∀ operation ∈ message, operation.resourceProviderId.isSome = true ∧ operation.operationUuid = none

section Message

variable {message : List Forwarded} (hpl : Plain message)
include hpl

theorem Manager.answers_named (this : Manager)
    (hu : ∀ operation ∈ message, ∀ id ∈ operation.resourceProviderId, id ∉ this.subscribed) :
    (this.reconcileOperations message).1.map (·.operationId) = message.map (·.operationId) := by
  rw [Manager.reconcileOperations, map_filterMap, ← filterMap_eq_map]
  refine filterMap_congr fun operation ho => ?_
  obtain ⟨id, hid⟩ := Option.isSome_iff_exists.1 (hpl.2 operation ho).1
  simp [hid, hu operation ho id hid]

theorem Manager.passes_iff (this : Manager) : (∀ event ∈ (this.reconcileOperations message).2, event.passes) ↔
    ∀ operation ∈ message, ∀ id ∈ operation.resourceProviderId, id ∉ this.subscribed := by
  constructor
  · intro h operation ho id hid hs
    have he := h ⟨id, _⟩ (mem_map_of_mem (mem_dedup.2 (mem_filterMap.2 ⟨operation, ho,
      Option.filter_eq_some_iff.2 ⟨hid, by simpa using hs⟩⟩)))
    have hso := he _ (mem_map_of_mem (mem_filter.2 ⟨ho, by simpa using hid⟩))
    rw [(hpl.2 operation ho).2] at hso
    cases hso
  · intro h _ he
    obtain ⟨id, hid, -⟩ := mem_map.1 he
    obtain ⟨operation, ho, hf⟩ := mem_filterMap.1 (mem_dedup.1 hid)
    obtain ⟨hpr, hs⟩ := Option.filter_eq_some_iff.1 hf
    exact absurd (of_decide_eq_true hs) (h operation ho id hpr)

omit hpl in
theorem Manager.answers_subset (this : Manager) :
    (this.reconcileOperations message).1.map (·.operationId) ⊆ message.map (·.operationId) := by
  intro _ hid
  obtain ⟨_, hst, rfl⟩ := mem_map.1 hid
  obtain ⟨_, ho, hb⟩ := mem_filterMap.1 hst
  obtain ⟨_, -, hs⟩ := Option.bind_eq_some_iff.1 hb
  split at hs <;> cases hs
  exact mem_map_of_mem ho

omit hpl in
theorem Agent.passes_iff (this : Agent) (slaveId : String) :
    (∀ event ∈ (this.reconcileOperations slaveId message).2, event.passes) ↔ (∀ operation ∈ message, this.knows operation) ∨
      ∀ event ∈ (this.manager.reconcileOperations message).2, event.passes := by
  have hmem : ∀ event, event ∈ (this.reconcileOperations slaveId message).2 ↔
      ∃ operation ∈ message, this.knows operation = false ∧ event ∈ (this.manager.reconcileOperations message).2 := by
    intro _
    simp only [Agent.reconcileOperations, flatMap_map, mem_flatMap, Agent.knows]
    refine exists_congr fun _ => and_congr_right fun _ => ?_
    split <;> simp [*]
  grind

/-- **The answers to a message**, whose operations have distinct IDs. -/
theorem Agent.answersOnce_iff (this : Agent) (slaveId : String) : (∀ operation ∈ message,
        ((this.reconcileOperations slaveId message).1.map (·.operationId)).count operation.operationId = 1) ∧
      (∀ event ∈ (this.reconcileOperations slaveId message).2, event.passes) ↔ this.AnswersOnce message := by
  have hkn : (∀ operation ∈ message, this.knows operation = true) →
      message.flatMap (this.namesFor message) = message.map (·.operationId) := fun h => by
    rw [← flatMap_singleton' (message.map _), flatMap_map]
    exact flatMap_congr fun operation ho => if_pos (h operation ho)
  have hone : ∀ operation ∈ message, (message.map (·.operationId)).count operation.operationId = 1 :=
    fun operation ho => count_eq_one_of_mem hpl.1 (mem_map_of_mem ho)
  rw [this.answers_named, this.passes_iff, this.manager.passes_iff hpl]
  constructor
  · rintro ⟨hc, h | hu⟩
    · exact .inl h
    by_cases hall : ∀ operation ∈ message, this.knows operation = true
    · exact .inl hall
    push Not at hall
    obtain ⟨operation, ho, hun⟩ := hall
    have hn := this.manager.answers_named hpl hu
    have hse : ∀ other ∈ message, other.operationId ∈ this.namesFor message other := fun other hot => by
      rw [Agent.namesFor, hn]
      split
      · exact mem_cons_self
      · exact mem_map_of_mem hot
    obtain ⟨pre, post, hs⟩ := append_of_mem ho
    -- Another operation of the message is answered for itself and along with this one.
    have ha : ∀ other ∈ pre ++ post, False := fun other hot => by
      have hmem : other ∈ message := by grind
      have hc := hc other hmem
      have hown : other.operationId ∈ (pre ++ post).flatMap (this.namesFor message) :=
        mem_flatMap.2 ⟨other, hot, hse other hmem⟩
      have hall : this.namesFor message operation = message.map (·.operationId) := by
        rw [Agent.namesFor, hn, if_neg hun]
      have hpos := count_pos_iff.2 hown
      rw [show message.flatMap _ = (pre ++ operation :: post).flatMap (this.namesFor message) by rw [← hs]] at hc
      rw [flatMap_append, flatMap_cons, count_append, count_append, hall, hone other hmem] at hc
      rw [flatMap_append, count_append] at hpos
      omega
    obtain ⟨rfl, rfl⟩ := append_eq_nil_iff.1 (eq_nil_iff_forall_not_mem.2 ha)
    exact .inr ⟨operation, hs, hu operation ho⟩
  · rintro (h | ⟨operation, rfl, hu⟩)
    · rw [hkn h]
      exact ⟨hone, .inl h⟩
    have hall : ∀ other ∈ [operation], ∀ id ∈ other.resourceProviderId, id ∉ this.manager.subscribed := by
      simpa using hu
    refine ⟨?_, .inr hall⟩
    by_cases ho : this.knows operation = true
    · rw [hkn (forall_mem_singleton.2 ho)]
      exact hone
    · rw [flatMap_singleton, Agent.namesFor, if_neg ho, this.manager.answers_named hpl hall]
      exact hone

end Message

theorem count_flatMap_of_alone {α : Type} {f : α → List String} {l : List α} {a : α} {x : String} (hl : l.Nodup)
    (ha : a ∈ l) (hal : ∀ b ∈ l, x ∈ f b → b = a) : (l.flatMap f).count x = (f a).count x := by
  obtain ⟨pre, post, rfl⟩ := append_of_mem ha
  have hpre : (pre.flatMap f).count x = 0 := count_eq_zero.2 fun hx => by grind
  have hpo : (post.flatMap f).count x = 0 := count_eq_zero.2 fun _ => by grind
  rw [flatMap_append, flatMap_cons, count_append, count_append, hpre, hpo, Nat.zero_add, Nat.add_zero]

namespace Master

variable {this : Master} {requests : List Request} {request : Request} {slaveId : String}

theorem asked_of_none (h : this.respond request = none) : ∃ slaveId agent,
    request.slaveId = some slaveId ∧ this.registered slaveId = some agent ∧ request.resourceProviderId.isSome = true := by
  unfold respond at h
  cases hpr : request.resourceProviderId <;> grind

theorem mem_asked : request ∈ this.asked requests slaveId ↔
    request ∈ requests ∧ request.slaveId = some slaveId ∧ this.respond request = none := by
  simp [asked]

theorem direct_named : ∀ requests : List Request, (requests.filterMap this.respond).map (·.operationId) =
    (requests.filter fun request => (this.respond request).isSome).map (·.operationId)
  | [] => rfl
  | request :: requests => by
    cases h : this.respond request with
    | none => simp [h, direct_named requests]
    | some => simp [h, direct_named requests, respond_named h]

theorem asked_of_named {id : String} (h : id ∈ (this.answered requests slaveId).1.map (·.operationId)) :
    ∃ request ∈ this.asked requests slaveId, request.operationId = id := by
  unfold answered at h
  split at h
  next agent ha =>
    rw [Agent.answers_named] at h
    obtain ⟨_, ho, hid⟩ := mem_flatMap.1 h
    have hmem : id ∈ (this.forwarded requests slaveId).map (·.operationId) := by
      unfold Agent.namesFor at hid
      split at hid
      · exact mem_singleton.1 hid ▸ mem_map_of_mem ho
      · exact agent.manager.answers_subset hid
    rw [forwarded, map_map] at hmem
    exact mem_map.1 hmem
  · cases h

variable (hnodup : (requests.map (·.operationId)).Nodup)
include hnodup

theorem plain_forwarded (slaveId : String) : Plain (this.forwarded requests slaveId) := by
  refine ⟨?_, fun _ ho => ?_⟩
  · rw [forwarded, map_map]
    exact hnodup.sublist (filter_sublist.map _)
  · obtain ⟨_, hr, rfl⟩ := mem_map.1 ho
    obtain ⟨_, _, -, -, hpr⟩ := asked_of_none (mem_asked.1 hr).2.2
    exact ⟨hpr, rfl⟩

theorem asked_slave (hr : request ∈ requests)
    (h : request.operationId ∈ (this.answered requests slaveId).1.map (·.operationId)) :
    request ∈ this.asked requests slaveId := by
  obtain ⟨_, ho, hid⟩ := asked_of_named h
  exact inj_on_of_nodup_map hnodup (mem_asked.1 ho).1 hr hid ▸ ho

theorem count_answers (hr : request ∈ requests) :
    ((this.reconcileOperations requests).1.map (·.operationId)).count request.operationId =
      (if (this.respond request).isSome then 1 else 0) +
        ((requests.filterMap (·.slaveId)).dedup.flatMap fun slaveId =>
          (this.answered requests slaveId).1.map (·.operationId)).count request.operationId := by
  rw [reconcileOperations, map_append, count_append, direct_named, flatMap_map, map_flatMap]
  congr 1
  split
  next h => exact count_eq_one_of_mem (hnodup.sublist (filter_sublist.map _)) (mem_map_of_mem (mem_filter.2 ⟨hr, h⟩))
  next h =>
    refine count_eq_zero.2 fun hmem => ?_
    obtain ⟨_, ho, hid⟩ := mem_map.1 hmem
    obtain rfl := inj_on_of_nodup_map hnodup (mem_filter.1 ho).1 hr hid
    exact h (mem_filter.1 ho).2

theorem count_responded (hr : request ∈ requests) (h : (this.respond request).isSome) :
    ((this.reconcileOperations requests).1.map (·.operationId)).count request.operationId = 1 := by
  rw [count_answers hnodup hr, if_pos h, count_eq_zero.2]
  intro hmem
  obtain ⟨_, -, hid⟩ := mem_flatMap.1 hmem
  have hno := (mem_asked.1 (asked_slave hnodup hr hid)).2.2
  rw [hno] at h
  cases h

theorem count_forwarded (hr : request ∈ this.asked requests slaveId) :
    ((this.reconcileOperations requests).1.map (·.operationId)).count request.operationId =
      ((this.answered requests slaveId).1.map (·.operationId)).count request.operationId := by
  obtain ⟨hmem, hs, hno⟩ := mem_asked.1 hr
  rw [count_answers hnodup hmem, hno, count_flatMap_of_alone (nodup_dedup _)
    (mem_dedup.2 (mem_filterMap.2 ⟨request, hmem, hs⟩)) fun _ _ hid => ?_]
  · exact Nat.zero_add _
  · exact Option.some.inj ((mem_asked.1 (asked_slave hnodup hmem hid)).2.1.symm.trans hs)

end Master

/-- **Every operation is answered once** exactly if every agent knows the operations that are forwarded to it, or is
forwarded a single one, whose resource provider is not subscribed. -/
theorem answered_once_iff (this : Master) (requests : List Request) (hnodup : (requests.map (·.operationId)).Nodup) :
    Once this requests ↔ ∀ slaveId agent, this.registered slaveId = some agent →
      agent.AnswersOnce (this.forwarded requests slaveId) := by
  constructor
  · rintro ⟨hanswers, hpasses⟩ slaveId agent hagent
    have hanswered : this.answered requests slaveId = agent.reconcileOperations slaveId (this.forwarded requests slaveId) := by
      rw [Master.answered, hagent]
    by_cases hslave : slaveId ∈ (requests.filterMap (·.slaveId)).dedup
    · refine (agent.answersOnce_iff (Master.plain_forwarded hnodup slaveId) slaveId).1 ⟨fun operation hoperation => ?_,
        fun event hevent => ?_⟩
      · obtain ⟨request, hrequest, rfl⟩ := mem_map.1 hoperation
        rw [← hanswered, ← Master.count_forwarded hnodup hrequest]
        exact hanswers request (Master.mem_asked.1 hrequest).1
      · exact hpasses event (mem_flatMap.2 ⟨_, mem_map_of_mem hslave, hanswered ▸ hevent⟩)
    · refine .inl fun _ hoperation => absurd ?_ hslave
      obtain ⟨request, hrequest, rfl⟩ := mem_map.1 hoperation
      obtain ⟨hmem, hid, -⟩ := Master.mem_asked.1 hrequest
      exact mem_dedup.2 (mem_filterMap.2 ⟨request, hmem, hid⟩)
  · intro h
    have honce := fun slaveId (agent : Agent) hagent =>
      (agent.answersOnce_iff (Master.plain_forwarded hnodup slaveId) slaveId).2 (h slaveId agent hagent)
    refine ⟨fun request hrequest => ?_, fun event hevent => ?_⟩
    · cases hrespond : this.respond request with
      | some => exact Master.count_responded hnodup hrequest (hrespond ▸ rfl)
      | none =>
        obtain ⟨slaveId, agent, hslave, hagent, -⟩ := Master.asked_of_none hrespond
        have hasked := Master.mem_asked.2 ⟨hrequest, hslave, hrespond⟩
        rw [Master.count_forwarded hnodup hasked, Master.answered, hagent]
        exact (honce slaveId agent hagent).1 ⟨request.operationId, _, _⟩ (mem_map_of_mem hasked)
    · obtain ⟨_, hanswer, hmem⟩ := mem_flatMap.1 hevent
      obtain ⟨slaveId, -, rfl⟩ := mem_map.1 hanswer
      unfold Master.answered at hmem
      split at hmem
      next agent hagent => exact (honce slaveId agent hagent).2 event hmem
      · cases hmem

/-- An operation that has finished. -/
def finished (id : String) : Operation where
  id
  latestStatus := { state := .finished, operationId := id }
  statuses := [{ state := .finished, operationId := id }]
  named := by simp

/-- One operation is known to the master, two to their agent; another one is answered by the resource provider manager of its
agent, and the last is at an agent that is away. -/
def reconciling : Master where
  operations := [finished "o1"]
  registered slaveId :=
    if slaveId = "s1" then some { operations := [finished "o2", finished "o3"] }
    else if slaveId = "s2" then some { manager := { known := ["p2"] } }
    else none
  unreachable := ["s3"]

theorem answered_once_all :
    Once reconciling [⟨"o1", some "s1", none⟩, ⟨"o2", some "s1", some "p1"⟩, ⟨"o3", some "s1", some "p1"⟩,
      ⟨"o4", some "s2", some "p2"⟩, ⟨"o5", some "s3", some "p3"⟩] := by
  refine (answered_once_iff _ _ (by decide)).2 fun slaveId agent hagent => ?_
  simp only [reconciling] at hagent
  split_ifs at hagent with h1 h2
  · cases hagent
    subst h1
    exact .inl (by decide)
  · cases hagent
    subst h2
    exact .inr ⟨⟨"o4", some "p2", none⟩, rfl, by decide⟩

/-- **Operations are answered twice**, and a resource provider that has subscribed meanwhile aborts. -/
theorem answered_twice :
    let requests : List Request := [⟨"o1", some "s1", some "p1"⟩, ⟨"o2", some "s1", some "p1"⟩]
    let agent (subscribed : List String) : Agent := { manager := { subscribed := subscribed } }
    (Master.reconcileOperations { registered := fun _ => some (agent []) } requests).1.map (·.operationId) =
        ["o1", "o2", "o1", "o2"] ∧
      ¬ Once { registered := fun _ => some (agent []) } requests ∧
      (Master.reconcileOperations { registered := fun _ => some (agent ["p1"]) } [⟨"o1", some "s1", some "p1"⟩]) =
        ([], [⟨"p1", [none]⟩]) ∧
      ¬ Once { registered := fun _ => some (agent ["p1"]) } [⟨"o1", some "s1", some "p1"⟩] := by
  refine ⟨by decide, fun h => ?_, rfl, fun h => ?_⟩
  · exact nomatch h.answers ⟨"o1", some "s1", some "p1"⟩ mem_cons_self
  · exact nomatch h.answers ⟨"o1", some "s1", some "p1"⟩ mem_cons_self

end Clusterd.Reconcile
