import Clusterd.MasterOperations
/-!
# The registrar (`master/registrar.cpp`)

One life of the registrar: the registry is fetched, the `Recover` operation persisted, and from then on operations are performed
in batches, each on a copy of the registry that is then stored.  During a store operations queue up; after one that fails none
succeeds any more.  What the registrar defers to itself waits in `mailbox`.  `applied`, `fetched`, `stored`, `stores` and
`answers` record the history; the registrar does not read them.
-/
namespace Clusterd.Master

structure Pending where
  client : Option Nat
  operation : Operation
  deriving DecidableEq

/-- What becomes of the promise of an operation.  `batch` comes before the answers of a batch that was stored. -/
inductive Answer where
  | batch
  | set (p : Pending) (success : Bool)
  | fail (p : Pending) (message : String)
  deriving DecidableEq

/-- The promise that composes operations with recovery. -/
inductive Recovered where
  | none
  | pending
  | ready
  | failed (message : String)
  deriving DecidableEq

/-- What the registrar dispatches to itself: `_apply` and `__recover`. -/
inductive Message where
  | apply (p : Pending)
  | recover (result : Except String Bool)
  deriving DecidableEq

/-- A store that is under way, with the arguments bound to `_update`. -/
structure Store where
  updatedRegistry : Registry
  applied : List (Pending × Bool)

structure Registrar where
  recovered : Recovered := .none
  fetching : Option MasterInfo := none
  registry : Option Registry := none
  operations : List Pending := []
  updating : Bool := false
  error : Option String := none
  store : Option Store := none
  gated : List Pending := []
  mailbox : List Message := []
  applied : List Operation := []
  fetched : Option Registry := none
  stored : Option Registry := none
  stores : Nat := 0
  answers : List Answer := []

/-- The promise of `Recover` dispatches `__recover`. -/
def Answer.recovers : Answer → List Message
  | .set p success => if p.client = none then [.recover (.ok success)] else []
  | .fail p message => if p.client = none then [.recover (.error message)] else []
  | .batch => []

def Registrar.answer (s : Registrar) (answers : List Answer) : Registrar :=
  { s with answers := s.answers ++ answers, mailbox := s.mailbox ++ answers.flatMap Answer.recovers }

def Registrar.fail (operations : List Pending) (message : String) (s : Registrar) : Registrar :=
  s.answer (operations.map (.fail · message))

def Registrar.abort (message : String) (s : Registrar) : Registrar :=
  Registrar.fail s.operations message { s with error := some message, operations := [] }

/-- `operator()` of each operation in turn. -/
def performAll (rules : Rules) : List Pending → Registry → Finset SlaveID → Option (Registry × List (Pending × Bool))
  | [], r, _ => some (r, [])
  | p :: ps, r, ids =>
    match p.operation.perform rules r ids with
    | none => none
    | some done =>
      (performAll rules ps done.registry done.slaveIDs).map fun rest => (rest.1, (p, done.result.isOk) :: rest.2)

variable (rules : Rules) (serialize : Registry → Option String)

/-- There is no state after a `CHECK` that fails, here and below.  `serialize` gives the error of a registry that cannot be
serialized. -/
def Registrar.update (s : Registrar) : Option Registrar :=
  if s.operations = [] then some s
  else if s.updating = true ∨ s.error ≠ none then none
  else
    match s.registry with
    | none => none
    | some registry =>
      match performAll rules s.operations registry registry.admitted.toFinset with
      | none => none
      | some (updatedRegistry, applied) =>
        match serialize updatedRegistry with
        | some e =>
          let message := "Failed to update registry: " ++ e
          some ((Registrar.fail s.operations message { s with updating := true, operations := [] }).abort message)
        | none =>
          some { s with
            updating := true
            store := some ⟨updatedRegistry, applied⟩
            stores := s.stores + 1
            operations := [] }

/-- How a store ends; one that takes too long is discarded and counts as failed. -/
inductive Stored where
  | success
  | versionMismatch
  | failed (message : String)
  | discarded
  deriving DecidableEq

def Stored.reason : Stored → String
  | .failed message => message
  | .discarded => "discarded"
  | _ => "version mismatch"

namespace Registrar

def updated (outcome : Stored) (s : Registrar) : Option Registrar :=
  match s.store with
  | none => some s
  | some store =>
    let s := { s with updating := false, store := none }
    if outcome = .success then
      update rules serialize
        (answer { s with registry := some store.updatedRegistry, stored := some store.updatedRegistry }
          (.batch :: store.applied.map fun p => .set p.1 p.2))
    else
      let message := "Failed to update registry: " ++ outcome.reason
      some ((fail (store.applied.map (·.1)) message s).abort message)

/-- Failing the promise `recovered` fails the operations that wait for it. -/
def failRecovery (message : String) (s : Registrar) : Registrar :=
  fail s.gated message { s with recovered := .failed message, gated := [] }

def recover (info : MasterInfo) (s : Registrar) : Registrar :=
  if s.recovered = .none then { s with fetching := some info, updating := true, recovered := .pending } else s

/-- `_recover`; the fetch fails, or what it returns cannot be deserialized, or there is a registry. -/
def fetch (result : Except String Registry) (s : Registrar) : Option Registrar :=
  match s.fetching with
  | none => some s
  | some info =>
    let s := { s with fetching := none, updating := false }
    match result with
    | .error e => some (s.failRecovery ("Failed to recover registrar: " ++ e))
    | .ok registry =>
      update rules serialize
        { s with
          registry := some registry
          fetched := some registry
          operations := s.operations ++ [⟨none, .recover info⟩] }

/-- `__recover`. -/
def recovery (result : Except String Bool) (s : Registrar) : Option Registrar :=
  match result with
  | .error e => some (s.failRecovery ("Failed to recover registrar: Failed to persist MasterInfo: " ++ e))
  | .ok false =>
    some (s.failRecovery "Failed to recover registrar: Failed to persist MasterInfo: version mismatch")
  | .ok true =>
    if s.registry = none then none
    else some { s with recovered := .ready, mailbox := s.mailbox ++ s.gated.map .apply, gated := [] }

def apply (operation : Operation) (s : Registrar) : Registrar :=
  let p : Pending := ⟨some s.applied.length, operation⟩
  let s := { s with applied := s.applied ++ [operation] }
  match s.recovered with
  | .none => s.answer [.fail p "Attempted to apply the operation before recovering"]
  | .pending => { s with gated := s.gated ++ [p] }
  | .ready => { s with mailbox := s.mailbox ++ [.apply p] }
  | .failed message => s.answer [.fail p message]

/-- `_apply`. -/
def enqueue (p : Pending) (s : Registrar) : Option Registrar :=
  match s.error with
  | some message => some (s.answer [.fail p message])
  | none =>
    if s.registry = none then none
    else
      let s := { s with operations := s.operations ++ [p] }
      if s.updating then some s else update rules serialize s

end Registrar

/-- What can happen to the registrar. -/
inductive RegistrarEvent where
  | recover (info : MasterInfo)
  | fetched (result : Except String Registry)
  | apply (operation : Operation)
  | deliver
  | stored (outcome : Stored)

def Registrar.handle (s : Registrar) : RegistrarEvent → Option Registrar
  | .recover info => some (s.recover info)
  | .fetched result => s.fetch rules serialize result
  | .apply operation => some (s.apply operation)
  | .stored outcome => s.updated rules serialize outcome
  | .deliver =>
    match s.mailbox with
    | [] => some s
    | .apply p :: mailbox => Registrar.enqueue rules serialize p { s with mailbox := mailbox }
    | .recover result :: mailbox => Registrar.recovery result { s with mailbox := mailbox }

def Registrar.step (s : Option Registrar) (e : RegistrarEvent) : Option Registrar :=
  s.bind fun s => s.handle rules serialize e

/-!
# What the registrar does with its operations

What one event can do (`Handled`), and where the operations go: they wait in line behind those that were acknowledged, in
the order in which they were applied, until they are acknowledged or failed (`Registrar.Flows`).
-/
open List Registrar

def mailed (mailbox : List Message) : List Pending :=
  mailbox.filterMap fun
    | .apply p => some p
    | .recover _ => none

def acknowledged (answers : List Answer) : List (Pending × Bool) :=
  answers.filterMap fun
    | .set p success => some (p, success)
    | _ => none

def failed (answers : List Answer) : List Pending :=
  answers.filterMap fun
    | .fail p _ => some p
    | _ => none

def Registrar.storing (s : Registrar) : List Pending := (s.store.map fun store => store.applied.map (·.1)).getD []

def Registrar.waiting (s : Registrar) : List Pending := s.storing ++ s.operations ++ mailed s.mailbox ++ s.gated

def Registrar.line (s : Registrar) : List Pending := (acknowledged s.answers).map (·.1) ++ s.waiting

/-! ## Outcomes -/

/-- **What `update` does.** -/
inductive Begun (rules : Rules) (s : Registrar) : Registrar → Prop
  | idle : s.operations = [] → Begun rules s s
  | refused (message : String) : s.error = none → s.updating = false →
      Begun rules s (Registrar.fail s.operations message
        { s with updating := true, error := some message, operations := [] })
  | begun (r r' : Registry) (applied : List (Pending × Bool)) : s.error = none → s.updating = false →
      s.registry = some r → performAll rules s.operations r r.admitted.toFinset = some (r', applied) →
      Begun rules s
        { s with updating := true, store := some ⟨r', applied⟩, stores := s.stores + 1, operations := [] }

variable {s s' : Registrar} {rules : Rules} {serialize : Registry → Option String} {e : RegistrarEvent}

theorem Registrar.update_begun (h : s.update rules serialize = some s') : Begun rules s s' := by
  unfold update at h
  split at h
  next hnil =>
    cases h
    exact .idle hnil
  split at h
  · cases h
  rename_i hc
  rw [not_or, not_not] at hc
  split at h
  · cases h
  rename_i r hr
  split at h
  · cases h
  rename_i r' applied hpe
  split at h
  next e he =>
    cases h
    have hre := @Begun.refused rules s ("Failed to update registry: " ++ e) hc.2 (by simpa using hc.1)
    simpa [abort, fail, answer] using hre
  · cases h
    exact .begun r r' applied hc.2 (by simpa using hc.1) hr hpe

section

variable (rules : Rules) (s : Registrar)

/-- **What the registrar does on an event.** -/
inductive Handled : RegistrarEvent → Registrar → Prop
  | ignored (e : RegistrarEvent) : (∀ operation, e ≠ .apply operation) →
      (∀ outcome, e = .stored outcome → s.store = none) → Handled e s
  | asked (info : MasterInfo) : s.recovered = .none →
      Handled (.recover info) { s with fetching := some info, updating := true, recovered := .pending }
  | unfetched (info : MasterInfo) (result : Except String Registry) (message : String) : s.fetching = some info →
      Handled (.fetched result) (Registrar.failRecovery message { s with fetching := none, updating := false })
  | fetched (info : MasterInfo) (r : Registry) (s' : Registrar) : s.fetching = some info →
      Begun rules
        { s with
          fetching := none
          updating := false
          registry := some r
          fetched := some r
          operations := s.operations ++ [⟨none, .recover info⟩] } s' →
      Handled (.fetched (.ok r)) s'
  | turnedDown (o : Operation) (message : String) : s.recovered ≠ .pending →
      Handled (.apply o)
        (Registrar.answer { s with applied := s.applied ++ [o] } [.fail ⟨some s.applied.length, o⟩ message])
  | gated (o : Operation) : s.recovered = .pending →
      Handled (.apply o)
        { s with applied := s.applied ++ [o], gated := s.gated ++ [⟨some s.applied.length, o⟩] }
  | mailed (o : Operation) : s.recovered = .ready →
      Handled (.apply o)
        { s with applied := s.applied ++ [o], mailbox := s.mailbox ++ [.apply ⟨some s.applied.length, o⟩] }
  | tooLate (p : Pending) (mailbox : List Message) (message : String) : s.mailbox = .apply p :: mailbox →
      s.error = some message →
      Handled .deliver (Registrar.answer { s with mailbox := mailbox } [.fail p message])
  | queued (p : Pending) (mailbox : List Message) : s.mailbox = .apply p :: mailbox → s.error = none →
      s.updating = true →
      Handled .deliver { s with mailbox := mailbox, operations := s.operations ++ [p] }
  | performed (p : Pending) (mailbox : List Message) (s' : Registrar) : s.mailbox = .apply p :: mailbox →
      s.error = none → Begun rules { s with mailbox := mailbox, operations := s.operations ++ [p] } s' →
      Handled .deliver s'
  | unrecovered (result : Except String Bool) (mailbox : List Message) (message : String) :
      s.mailbox = .recover result :: mailbox →
      Handled .deliver (Registrar.failRecovery message { s with mailbox := mailbox })
  | ready (result : Except String Bool) (mailbox : List Message) : s.mailbox = .recover result :: mailbox →
      Handled .deliver
        { s with recovered := .ready, mailbox := mailbox ++ s.gated.map .apply, gated := [] }
  | committed (store : Store) (s' : Registrar) : s.store = some store →
      Begun rules
        (Registrar.answer
          { s with
            updating := false
            store := none
            registry := some store.updatedRegistry
            stored := some store.updatedRegistry }
          (.batch :: store.applied.map fun p => .set p.1 p.2)) s' →
      Handled (.stored .success) s'
  | aborted (store : Store) (outcome : Stored) (message : String) : s.store = some store → outcome ≠ .success →
      Handled (.stored outcome)
        (Registrar.fail (store.applied.map (·.1) ++ s.operations) message
          { s with updating := false, store := none, error := some message, operations := [] })

end

theorem Registrar.handled (h : s.handle rules serialize e = some s') : Handled rules s e s' := by
  cases e with
  | recover info =>
    cases h
    unfold recover
    split
    next hno =>
      exact .asked info hno
    · exact .ignored _ nofun nofun
  | fetched result =>
    have h : s.fetch rules serialize result = some s' := h
    unfold fetch at h
    split at h
    · cases h
      exact .ignored _ nofun nofun
    rename_i info hin
    split at h
    · cases h
      exact .unfetched info _ _ hin
    · exact .fetched info _ s' hin (update_begun h)
  | apply o =>
    cases h
    unfold apply
    dsimp only
    split
    next hr =>
      exact .turnedDown o _ (by rw [hr]; exact nofun)
    next hr =>
      exact .gated o hr
    next hr =>
      exact .mailed o hr
    next hr =>
      exact .turnedDown o _ (by rw [hr]; exact nofun)
  | deliver =>
    unfold handle at h
    dsimp only at h
    split at h
    · cases h
      exact .ignored _ nofun nofun
    next p mailbox hm =>
      unfold enqueue at h
      split at h
      next message he =>
        cases h
        exact .tooLate p mailbox message hm he
      rename_i he
      split at h
      · cases h
      dsimp only at h
      split at h
      next hup =>
        cases h
        exact .queued p mailbox hm he hup
      · exact .performed p mailbox s' hm he (update_begun h)
    next mailbox hm =>
      unfold recovery at h
      split at h
      · cases h
        exact .unrecovered _ mailbox _ hm
      · cases h
        exact .unrecovered _ mailbox _ hm
      split at h
      · cases h
      · cases h
        exact .ready _ mailbox hm
  | stored outcome =>
    have h : s.updated rules serialize outcome = some s' := h
    unfold updated at h
    split at h
    next hno =>
      cases h
      exact .ignored _ nofun fun _ _ => hno
    rename_i store hs
    split at h
    next hout =>
      rw [hout]
      exact .committed store s' hs (update_begun h)
    next hout =>
      cases h
      have ha := @Handled.aborted rules s store outcome ("Failed to update registry: " ++ outcome.reason) hs hout
      simpa [abort, fail, answer] using ha

/-! ## Where operations go -/

/-- **Operations that were in line, or new ones, stay in line or fail.** -/
structure Registrar.Flows (s : Registrar) (new : List Pending) (s' : Registrar) : Prop where
  line : s'.line.Sublist (s.line ++ new)
  kept : ∀ p ∈ s.line ++ new, p ∈ s'.line ∨ p ∈ failed s'.answers
  failed : ∀ p ∈ failed s.answers, p ∈ failed s'.answers

theorem Registrar.Flows.refl (s : Registrar) : s.Flows [] s where
  line := by rw [append_nil]
  kept p hp := .inl (by rwa [append_nil] at hp)
  failed _ hp := hp

variable {new : List Pending} (ps : List Pending) (applied : List (Pending × Bool))

theorem Registrar.Flows.trans {s'' : Registrar} (h : s.Flows new s') (h' : s'.Flows [] s'') : s.Flows new s'' where
  line := by
    have hl := h'.line
    rw [append_nil] at hl
    exact hl.trans h.line
  kept p hp := (h.kept p hp).elim (fun hp => h'.kept p (by rwa [append_nil])) fun hp => .inr (h'.failed p hp)
  failed p hp := h'.failed p (h.failed p hp)

theorem mailed_append (l l' : List Message) : mailed (l ++ l') = mailed l ++ mailed l' := filterMap_append

theorem acknowledged_append (l l' : List Answer) : acknowledged (l ++ l') = acknowledged l ++ acknowledged l' :=
  filterMap_append

theorem failed_append (l l' : List Answer) : failed (l ++ l') = failed l ++ failed l' := filterMap_append

theorem mailed_apply : mailed (ps.map .apply) = ps := by
  unfold mailed
  rw [filterMap_map]
  exact filterMap_some

theorem acknowledged_set : acknowledged (.batch :: applied.map fun p => .set p.1 p.2) = applied := by
  unfold acknowledged
  rw [filterMap_cons_none rfl, filterMap_map]
  exact filterMap_some

theorem failed_set : failed (.batch :: applied.map fun p => .set p.1 p.2) = [] := by
  unfold failed
  rw [filterMap_cons_none rfl, filterMap_map, filterMap_eq_nil_iff]
  exact fun _ _ => rfl

theorem mailed_recovers (answers : List Answer) : mailed (answers.flatMap Answer.recovers) = [] := by
  unfold mailed
  rw [filterMap_eq_nil_iff]
  intro _ hm
  obtain ⟨a, -, ha⟩ := mem_flatMap.1 hm
  cases a with
  | batch => cases ha
  | set | fail =>
    simp only [Answer.recovers] at ha
    split at ha
    · rw [mem_singleton.1 ha]
    · cases ha

section
variable (message : String)

theorem acknowledged_fail : acknowledged (ps.map (.fail · message)) = [] := by
  unfold acknowledged
  rw [filterMap_map, filterMap_eq_nil_iff]
  exact fun _ _ => rfl

theorem failed_fail : failed (ps.map (.fail · message)) = ps := by
  unfold failed
  rw [filterMap_map]
  exact filterMap_some

theorem Registrar.line_fail (s : Registrar) : (fail ps message s).line = s.line := by
  show (acknowledged (s.answers ++ _)).map _ ++ (s.storing ++ s.operations ++ mailed (s.mailbox ++ _) ++ s.gated) = _
  rw [acknowledged_append, acknowledged_fail, mailed_append, mailed_recovers, append_nil, append_nil]
  rfl

theorem Registrar.failed_answers_fail (s : Registrar) :
    Master.failed (fail ps message s).answers = Master.failed s.answers ++ ps := by
  show Master.failed (s.answers ++ _) = _
  rw [failed_append, failed_fail]

end

theorem Registrar.Flows.drop (front ps back : List Pending) (hs : s.line = front ++ ps ++ back)
    (hs' : s'.line = front ++ back) (hf : Master.failed s'.answers = Master.failed s.answers ++ ps) : s.Flows [] s' where
  line := by
    rw [hs, hs', append_nil]
    exact (sublist_append_left _ _).append_right _
  kept p hp := by
    rw [append_nil, hs, mem_append, mem_append] at hp
    rw [hs', hf, mem_append, mem_append]
    tauto
  failed p hp := by
    rw [hf]
    exact mem_append_left _ hp

theorem Registrar.Flows.congr (hl : s'.line = s.line)
    (hf : Master.failed s'.answers = Master.failed s.answers) : s.Flows [] s' where
  line := by rw [hl, append_nil]
  kept p hp := by
    rw [append_nil] at hp
    exact .inl (hl ▸ hp)
  failed p hp := hf ▸ hp

theorem Registrar.Flows.join (hl : s'.line = s.line ++ new)
    (hf : Master.failed s'.answers = Master.failed s.answers) : s.Flows new s' where
  line := by rw [hl]
  kept p hp := .inl (hl ▸ hp)
  failed p hp := hf ▸ hp

theorem Registrar.Flows.turnDown (hl : s'.line = s.line)
    (hf : Master.failed s'.answers = Master.failed s.answers ++ new) : s.Flows new s' where
  line := by
    rw [hl]
    exact sublist_append_left _ _
  kept p hp := by
    rw [hl, hf, mem_append]
    exact (mem_append.1 hp).imp_right .inr
  failed p hp := by
    rw [hf]
    exact mem_append_left _ hp

theorem performAll_applied : ∀ {ps : List Pending} {r r' : Registry} {ids : Finset SlaveID}
    {applied : List (Pending × Bool)}, performAll rules ps r ids = some (r', applied) → applied.map (·.1) = ps
  | [], _, _, _, _, h => by
    cases h
    rfl
  | p :: ps, r, r', ids, applied, h => by
    unfold performAll at h
    split at h
    · cases h
    · obtain ⟨⟨_, _⟩, hr, heq⟩ := Option.map_eq_some_iff.1 h
      cases heq
      rw [map_cons, performAll_applied hr]

theorem Begun.flows (h : Begun rules s s') (hs : s.updating = false → s.store = none) : s.Flows [] s' := by
  cases h with
  | idle => exact .refl s
  | refused =>
    refine .drop ((acknowledged s.answers).map (·.1) ++ s.storing) s.operations (mailed s.mailbox ++ s.gated) ?_ ?_
      (failed_answers_fail _ _ _)
    · unfold line waiting
      simp
    · rw [line_fail]
      unfold line waiting storing
      simp
  | begun _ _ _ _ hup _ hpe =>
    refine .congr ?_ rfl
    unfold line waiting storing
    rw [hs hup]
    simp [performAll_applied hpe]

theorem Registrar.line_eq (s : Registrar) :
    s.line = (acknowledged s.answers).map (·.1) ++ (s.storing ++ (s.operations ++ (mailed s.mailbox ++ s.gated))) := by
  unfold line waiting
  simp

def Registrar.brought (s : Registrar) : RegistrarEvent → List Pending
  | .apply o => [⟨some s.applied.length, o⟩]
  | _ => []

theorem Registrar.Flows.failRecovery {t : Registrar} {message : String} (hl : t.line = s.line)
    (hf : Master.failed t.answers = Master.failed s.answers) : s.Flows [] (t.failRecovery message) := by
  refine .drop ((acknowledged t.answers).map (·.1) ++ (t.storing ++ (t.operations ++ mailed t.mailbox))) t.gated [] ?_ ?_ ?_
  · rw [← hl, line_eq]
    simp [append_nil]
  · unfold Registrar.failRecovery
    rw [line_fail, line_eq]
    simp only [append_assoc]
    rfl
  · unfold Registrar.failRecovery
    rw [failed_answers_fail, ← hf]

/-- **Where operations go on an event**, other than the fetch that brings `Recover`. -/
theorem Handled.flows (h : Handled rules s e s')
    (hs : s.updating = false → s.store = none) (hg : s.gated ≠ [] → s.recovered = .pending)
    (he : ∀ r, e ≠ .fetched (.ok r)) : s.Flows (s.brought e) s' := by
  cases h with
  | ignored e ha =>
    cases e with
    | apply o => exact absurd rfl (ha o)
    | _ => exact .refl s
  | asked => exact .congr rfl rfl
  | unfetched => exact .failRecovery rfl rfl
  | fetched _ r => exact absurd rfl (he r)
  | turnedDown _ message =>
    exact .turnDown (line_fail [_] message _) (failed_answers_fail [_] message _)
  | gated =>
    refine .join ?_ rfl
    rw [line_eq, line_eq]
    simp [storing, brought]
  | mailed _ hr =>
    have hnil : s.gated = [] := by
      by_contra hne
      rw [hg hne] at hr
      cases hr
    refine .join ?_ rfl
    rw [line_eq, line_eq]
    simp only [storing, brought, mailed_append, hnil, append_assoc, append_nil]
    rfl
  | tooLate p mailbox message hm =>
    refine .drop ((acknowledged s.answers).map (·.1) ++ (s.storing ++ s.operations)) [p] (Master.mailed mailbox ++ s.gated)
      ?_ ?_ (failed_answers_fail [p] message _)
    · rw [line_eq, hm]
      simp only [append_assoc]
      rfl
    · refine (line_fail [p] message _).trans ?_
      rw [line_eq]
      simp [storing]
  | queued _ _ hm =>
    refine .congr ?_ rfl
    rw [line_eq, line_eq, hm]
    simp only [storing, append_assoc]
    rfl
  | performed _ _ _ hm _ hb =>
    refine Registrar.Flows.trans ?_ (hb.flows hs)
    refine .congr ?_ rfl
    rw [line_eq, line_eq, hm]
    simp only [storing, append_assoc]
    rfl
  | unrecovered _ _ _ hm =>
    refine .failRecovery ?_ rfl
    rw [line_eq, line_eq, hm]
    rfl
  | ready _ _ hm =>
    refine .congr ?_ rfl
    rw [line_eq, line_eq, hm]
    simp only [storing, mailed_append, mailed_apply, append_nil]
    rfl
  | committed _ _ hst hb =>
    refine Registrar.Flows.trans ?_ (hb.flows fun _ => rfl)
    refine .congr ?_ ?_
    · rw [line_eq, line_eq]
      simp only [answer, storing, hst, mailed_append, mailed_recovers, acknowledged_append,
        acknowledged_set, map_append, append_assoc, append_nil]
      rfl
    · show failed (s.answers ++ (.batch :: _)) = _
      rw [failed_append, failed_set, append_nil]
  | aborted store _ _ hst =>
    refine .drop ((acknowledged s.answers).map (·.1)) (store.applied.map (·.1) ++ s.operations)
      (Master.mailed s.mailbox ++ s.gated) ?_ ?_ (failed_answers_fail _ _ _)
    · rw [line_eq]
      simp only [storing, hst, append_assoc]
      rfl
    · rw [line_fail]
      rfl

end Clusterd.Master
