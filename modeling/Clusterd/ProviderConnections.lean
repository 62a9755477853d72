import Clusterd.Fallible
/-!
# Connections of resource providers

The resource provider manager keeps the newest connection of each resource provider, and tells the agent who is there.  The
callback on a closed connection finds the resource provider by its ID, not the connection.  So the closure of one that was
replaced removes the new one, or at least tells the agent that the resource provider is gone.  A resubscription that waits
while its resource provider is removed brings it back.
-/
namespace Clusterd.ProviderConnections

open Function (update update_self update_of_ne update_eq_self update_idem forall_update_iff)

/-- A subscription waits for the registrar and then for `_subscribe`; an accepted one is over once its callback was called. -/
inductive Stage
  | admitting
  | dispatched (ready : Bool)
  | accepted
  | over
deriving DecidableEq

/-- `ResourceProvider`, whose info is its type and name.  `closed` is ready if the reader is closed before the writer. -/
structure Connection where
  id : Nat := 0
  info : String × String := ("", "")
  stage : Stage := .over
  writing : Bool := true
  closed : Option Bool := none
  publishes : List Nat := []

/-- `CHECK(resourceProviders.subscribed.contains(id))` of the manager, `CHECK(resourceProvider)` of the agent, and the checks of
a call: the resource provider ID in each of its parts, and `CHECK_SOME(uuid)`. -/
inductive Check
  | subscribed
  | resourceProvider
  | resourceProviderId
  | operationUuid

/-- What the calls say of resource providers, where an ID may be left out, and the UUIDs if they can be read. -/
inductive Call
  | updateOperationStatus (status : Option Nat) (latestStatus : Option (Option Nat)) (operationUuid : Option Nat)
  | updateState (resources : List (Option Nat))
  | updatePublishResourcesStatus (uuid : Option Nat)

/-- `validate`, with the info of the resource provider. -/
def Call.validate (id : Nat) : Call → Bool
  | .updateOperationStatus status _ _ => status = some id
  | .updateState resources => resources.all (· = some id)
  | .updatePublishResourcesStatus _ => true

/-- The agent handles the messages of the manager in order, and then has the resource providers in `agent`.  For specification:
the newest connection that was accepted and not found closed, unless its resource provider was removed since, and the resource
providers that were ever removed. -/
structure World where
  known : Nat → Option (String × String) := fun _ => none
  subscribed : Nat → Option Nat := fun _ => none
  connections : Nat → Connection := fun _ => {}
  ids : Nat := 0
  next : Nat := 0
  agent : Nat → Bool := fun _ => false
  newest : Nat → Option Nat := fun _ => none
  removed : Nat → Bool := fun _ => false

/-- What was dispatched is handled in any order: `subscribe_`, `closed` (the callback) and `remove`, whose registry update has
succeeded.  A `publishResources` for several resource providers is one event for each that it gets to. -/
inductive Event
  | subscribe (id : Option Nat) (info : String × String)
  | admitted (connection : Nat) (ready : Bool)
  | subscribe_ (connection : Nat)
  | close (connection : Nat)
  | closed (connection : Nat)
  | remove (id : Nat)
  | publishResources (id uuid : Nat)
  | call (id stream : Nat) (call : Call)

namespace World

variable (this : World)

def modify (connection : Nat) (f : Connection → Connection) : World :=
  { this with connections := update this.connections connection (f (this.connections connection)) }

/-- `subscribed.erase`, with `~ResourceProvider`. -/
def erase (id : Nat) : World :=
  match this.subscribed id with
  | some connection =>
    { this.modify connection fun provider => { provider with writing := false, publishes := [] } with
      subscribed := update this.subscribed id none }
  | none => this

def subscribe (id : Option Nat) (info : String × String) : World :=
  match id with
  | none => { this.modify this.next fun _ => { id := this.ids, info, stage := .admitting } with
      ids := this.ids + 1, next := this.next + 1 }
  | some id =>
    if this.known id = some info then
      { this.modify this.next fun _ => { id, info, stage := .dispatched true } with next := this.next + 1 }
    else this

def subscribe_ (connection : Nat) : World :=
  let provider := this.connections connection
  match provider.stage with
  | .dispatched true =>
    let erased := this.erase provider.id
    { erased.modify connection ({ · with stage := .accepted }) with
      known := update this.known provider.id (some ((this.known provider.id).getD provider.info))
      subscribed := update erased.subscribed provider.id (some connection)
      agent := update this.agent provider.id true
      newest := update this.newest provider.id (some connection) }
  | .dispatched false => this.modify connection ({ · with stage := .over, writing := false })
  | _ => this

def closed (this : World) (connection : Nat) : Except Check World :=
  let provider := this.connections connection
  match provider.stage, provider.closed with
  | .accepted, some ready =>
    if ready && (this.subscribed provider.id).isNone then .error .subscribed
    else .ok { (if ready then this.erase provider.id else this).modify connection ({ · with stage := .over }) with
      agent := update this.agent provider.id false
      newest := if this.newest provider.id = some connection then update this.newest provider.id none else this.newest }
  | _, _ => .ok this

def remove (id : Nat) : World :=
  { this.erase id with
    known := update this.known id none
    agent := update this.agent id false
    newest := update this.newest id none
    removed := update this.removed id true }

def publishResources (id uuid : Nat) : World :=
  match this.subscribed id with
  | some connection =>
    if (this.connections connection).writing && (this.connections connection).closed.isNone then
      this.modify connection fun provider => { provider with publishes := uuid :: provider.publishes }
    else this
  | none => this

/-- The agent forwards the message without looking for the resource provider. -/
def updateOperationStatus (this : World) (id : Nat) (status : Option Nat) (latestStatus : Option (Option Nat))
    (operationUuid : Option Nat) : Except Check World :=
  if status ≠ some id then .error .resourceProviderId
  else if latestStatus.any (· ≠ some id) then .error .resourceProviderId
  else if operationUuid.isNone then .error .operationUuid
  else .ok this

def updateState (this : World) (id : Nat) (resources : List (Option Nat)) : Except Check World :=
  if resources.any (· ≠ some id) then .error .resourceProviderId
  else if !this.agent id then .error .resourceProvider
  else .ok this

def updatePublishResourcesStatus (connection : Nat) (uuid : Option Nat) : World :=
  match uuid with
  | some uuid => this.modify connection fun provider => { provider with publishes := provider.publishes.erase uuid }
  | none => this

/-- `api`: a call is refused unless it is on the stream of the subscribed connection. -/
def api (this : World) (id stream : Nat) (call : Call) : Except Check World :=
  if this.subscribed id = some stream && call.validate id then
    match call with
    | .updateOperationStatus status latestStatus operationUuid =>
      this.updateOperationStatus id status latestStatus operationUuid
    | .updateState resources => this.updateState id resources
    | .updatePublishResourcesStatus uuid => .ok (this.updatePublishResourcesStatus stream uuid)
  else .ok this

def step : Event → Except Check World
  | .subscribe id info => .ok (this.subscribe id info)
  | .admitted connection ready => .ok <|
    if (this.connections connection).stage = .admitting then
      this.modify connection ({ · with stage := .dispatched ready })
    else this
  | .subscribe_ connection => .ok (this.subscribe_ connection)
  | .close connection => .ok <| this.modify connection fun provider =>
    { provider with closed := provider.closed.or (some provider.writing) }
  | .closed connection => this.closed connection
  | .remove id => .ok (this.remove id)
  | .publishResources id uuid => .ok (this.publishResources id uuid)
  | .call id stream call => this.api id stream call

end World

/-- **The newest connection wins**, the agent knows who is there, and who was removed does not come back. -/
structure NewestWins (this : World) : Prop where
  newest : ∀ id, this.subscribed id = this.newest id
  agent : ∀ id, this.agent id = (this.subscribed id).isSome
  removed : ∀ id, this.removed id = true → this.subscribed id = none ∧ this.known id = none
  publishes : ∀ connection, (this.connections connection).publishes ≠ [] →
    this.subscribed (this.connections connection).id = some connection

/-- A connection is accepted when the callbacks of those before it were called and its resource provider was not removed
meanwhile, a resource provider is not removed between the closure of its connection and the callback, and the latest status in
a call is about the resource provider and the UUID of its operation can be read. -/
def Meets (this : World) : Event → Prop
  | .subscribe_ connection => (this.connections connection).stage = .dispatched true →
    this.removed (this.connections connection).id = false ∧ ∀ other < this.next,
      (this.connections other).id = (this.connections connection).id → (this.connections other).stage ≠ .accepted
  | .remove id => ∀ connection ∈ this.subscribed id, (this.connections connection).closed = none
  | .call id stream (.updateOperationStatus status latestStatus operationUuid) =>
    this.subscribed id = some stream → status = some id →
      (∀ latest ∈ latestStatus, latest = some id) ∧ operationUuid ≠ none
  | _ => True

instance (this : World) : (event : Event) → Decidable (Meets this event)
  | .subscribe_ _ | .remove _ | .call _ _ (.updateOperationStatus _ _ _) => by unfold Meets; infer_instance
  | .subscribe _ _ | .admitted _ _ | .close _ | .closed _ | .publishResources _ _ | .call _ _ (.updateState _)
  | .call _ _ (.updatePublishResourcesStatus _) => isTrue trivial

/-- Accepted, and not closed from this side. -/
def Connection.Live (provider : Connection) : Prop := provider.stage = .accepted ∧ provider.writing = true

/-- This side closes a connection after it was accepted, or when it is dropped; and it knows what a closure says. -/
structure Connection.Fits (provider : Connection) : Prop where
  young : provider.writing = false → provider.stage = .accepted ∨ provider.stage = .over
  closed : ∀ ready, provider.stage ≠ .over → provider.closed = some ready → provider.writing = ready

structure Sound (this : World) : Prop extends NewestWins this where
  current : ∀ id connection, this.subscribed id = some connection ↔
    (this.connections connection).id = id ∧ (this.connections connection).Live
  single : ∀ connection other, (this.connections connection).stage = .accepted →
    (this.connections other).stage = .accepted → (this.connections connection).id = (this.connections other).id →
      connection = other
  fits : ∀ connection, (this.connections connection).Fits
  fresh : ∀ connection, this.next ≤ connection → (this.connections connection).stage = .over

section Steps

variable {this : World} (h : Sound this) {connection : Nat} {provider : Connection}

namespace Sound
include h

/-- **One connection changes, and with it who is subscribed under its ID.**  What is said of the other IDs and connections
stays as it is. -/
theorem change {entry : Option Nat} {known : Nat → Option (String × String)} {removed : Nat → Bool} {ids next : Nat}
    (hentry : entry = some connection ↔ provider.Live)
    (hothers : ∀ other, other ≠ connection →
      (entry = some other ↔ (this.connections other).id = provider.id ∧ (this.connections other).Live))
    (hid : (this.connections connection).Live → (this.connections connection).id = provider.id)
    (hsingle : provider.stage = .accepted → ∀ other, other ≠ connection → (this.connections other).id = provider.id →
      (this.connections other).stage ≠ .accepted)
    (hpublishes : provider.publishes ≠ [] → provider.Live) (hfits : provider.Fits)
    (hremoved : ∀ id, removed id = true → update this.subscribed provider.id entry id = none ∧ known id = none)
    (hnext : this.next ≤ next) (hfresh : next ≤ connection → provider.stage = .over) :
    Sound { this with
      known, removed, ids, next
      connections := update this.connections connection provider
      subscribed := update this.subscribed provider.id entry
      agent := update this.agent provider.id entry.isSome
      newest := update this.newest provider.id entry } := by
  have hcurrent : ∀ id other, update this.subscribed provider.id entry id = some other ↔
      (update this.connections connection provider other).id = id ∧
        (update this.connections connection provider other).Live := by
    intro id other
    by_cases hi : id = provider.id
    · subst hi
      rw [update_self]
      by_cases ho : other = connection
      · subst ho
        rw [update_self, hentry]
        exact ⟨fun hl => ⟨rfl, hl⟩, fun hl => hl.2⟩
      · rw [update_of_ne ho, hothers other ho]
    rw [update_of_ne hi, h.current]
    by_cases ho : other = connection
    · subst ho
      rw [update_self]
      constructor
      · rintro ⟨rfl, hl⟩
        exact absurd (hid hl) hi
      · rintro ⟨rfl, -⟩
        exact absurd rfl hi
    · rw [update_of_ne ho]
  have hnewest : ∀ id, update this.subscribed provider.id entry id = update this.newest provider.id entry id := by
    rw [funext h.newest]
    exact fun _ => rfl
  have hagent : ∀ id, update this.agent provider.id entry.isSome id = (update this.subscribed provider.id entry id).isSome := by
    intro id
    by_cases hi : id = provider.id
    · rw [hi, update_self, update_self]
    · rw [update_of_ne hi, update_of_ne hi, h.agent]
  have hpending : ∀ other, (update this.connections connection provider other).publishes ≠ [] →
      update this.subscribed provider.id entry (update this.connections connection provider other).id = some other := by
    intro other hne
    refine (hcurrent _ other).2 ⟨rfl, ?_⟩
    by_cases ho : other = connection
    · subst ho
      rw [update_self] at hne ⊢
      exact hpublishes hne
    · rw [update_of_ne ho] at hne ⊢
      exact ((h.current _ other).1 (h.publishes other hne)).2
  have honly : ∀ a b, (update this.connections connection provider a).stage = .accepted →
      (update this.connections connection provider b).stage = .accepted →
      (update this.connections connection provider a).id = (update this.connections connection provider b).id → a = b := by
    intro a b ha hb hab
    by_cases hac : a = connection
    · by_cases hbc : b = connection
      · rw [hac, hbc]
      rw [hac, update_self] at ha hab
      rw [update_of_ne hbc] at hb hab
      exact absurd hb (hsingle ha b hbc hab.symm)
    rw [update_of_ne hac] at ha hab
    by_cases hbc : b = connection
    · rw [hbc, update_self] at hb hab
      exact absurd ha (hsingle hb a hac hab)
    · rw [update_of_ne hbc] at hb hab
      exact h.single a b ha hb hab
  exact ⟨⟨hnewest, hagent, hremoved, hpending⟩, hcurrent, honly,
    (forall_update_iff _ fun _ (p : Connection) => p.Fits).2 ⟨hfits, fun other _ => h.fits other⟩,
    (forall_update_iff _ fun other (p : Connection) => next ≤ other → p.stage = .over).2
      ⟨hfresh, fun other _ hle => h.fresh other (Nat.le_trans hnext hle)⟩⟩

theorem live_of_publishes (hne : (this.connections connection).publishes ≠ []) : (this.connections connection).Live :=
  ((h.current _ connection).1 (h.publishes connection hne)).2

/-- **Everyone stays subscribed as they are** if a connection changes that is live before and after, or neither. -/
theorem keep {ids next : Nat} (hlive : provider.Live ↔ (this.connections connection).Live)
    (hid : provider.stage = .accepted ∨ (this.connections connection).Live →
      (this.connections connection).stage = .accepted ∧ (this.connections connection).id = provider.id)
    (hpublishes : provider.publishes ≠ [] → provider.Live) (hfits : provider.Fits)
    (hnext : this.next ≤ next) (hfresh : next ≤ connection → provider.stage = .over) :
    Sound { this with connections := update this.connections connection provider, ids, next } := by
  have hentry : this.subscribed provider.id = some connection ↔ provider.Live := by
    rw [h.current, hlive]
    exact ⟨fun hl => hl.2, fun hl => ⟨(hid (.inr hl)).2, hl⟩⟩
  have hc := @h.change _ _ _ _ this.known this.removed ids _ hentry (fun other _ => h.current _ other)
    (fun hl => (hid (.inr hl)).2)
    (fun ha other ho hsame hacc => ho (h.single other connection hacc (hid (.inl ha)).1 (hsame.trans (hid (.inl ha)).2.symm)))
    hpublishes hfits (by rw [update_eq_self]; exact h.removed) hnext hfresh
  rwa [update_eq_self, ← h.agent, update_eq_self, h.newest, update_eq_self] at hc

/-- A connection that is not accepted changes, and is not accepted then. -/
theorem keep_waiting {ids next : Nat} (hold : (this.connections connection).stage ≠ .accepted)
    (hnew : provider.stage ≠ .accepted) (hpublishes : provider.publishes = []) (hfits : provider.Fits)
    (hnext : this.next ≤ next) (hfresh : next ≤ connection → provider.stage = .over) :
    Sound { this with connections := update this.connections connection provider, ids, next } :=
  h.keep ⟨fun hl => absurd hl.1 hnew, fun hl => absurd hl.1 hold⟩
    (fun ha => ha.elim (fun ha => absurd ha hnew) fun hl => absurd hl.1 hold) (fun hne => absurd hpublishes hne) hfits hnext
    hfresh

theorem no_publishes (hold : (this.connections connection).stage ≠ .accepted) :
    (this.connections connection).publishes = [] := by
  by_contra hne
  exact hold (h.live_of_publishes hne).1

theorem subscribe (id : Option Nat) (info : String × String) : Sound (this.subscribe id info) := by
  have hold : (this.connections this.next).stage ≠ .accepted := by
    rw [h.fresh this.next (Nat.le_refl _)]
    decide
  have hlt : ∀ {stage}, this.next + 1 ≤ this.next → stage = Stage.over := fun hle => absurd hle (Nat.not_succ_le_self _)
  unfold World.subscribe
  split
  · exact h.keep_waiting hold nofun rfl ⟨nofun, nofun⟩ (Nat.le_succ _) hlt
  · split
    · exact h.keep_waiting hold nofun rfl ⟨nofun, nofun⟩ (Nat.le_succ _) hlt
    · exact h

theorem waiting_lt (hold : (this.connections connection).stage ≠ .over) : ¬ this.next ≤ connection :=
  fun hle => hold (h.fresh connection hle)

theorem admitted (connection : Nat) (ready : Bool) (hs : (this.connections connection).stage = .admitting) :
    Sound (this.modify connection ({ · with stage := .dispatched ready })) := by
  have hold : (this.connections connection).stage ≠ .accepted := by rw [hs]; decide
  have hover : (this.connections connection).stage ≠ .over := by rw [hs]; decide
  have hfits := h.fits connection
  refine h.keep_waiting hold nofun (h.no_publishes hold) ⟨fun hw => ?_, fun ready _ => hfits.closed ready hover⟩
    (Nat.le_refl _) fun hle => absurd hle (h.waiting_lt hover)
  exact (hfits.young hw).elim (fun ha => absurd ha hold) fun ho => absurd ho hover

theorem subscribe_ (hm : Meets this (.subscribe_ connection)) : Sound (this.subscribe_ connection) := by
  unfold World.subscribe_
  dsimp only
  split
  next hs =>
    obtain ⟨hremoved, hm⟩ := hm hs
    have hold : (this.connections connection).stage ≠ .accepted := by rw [hs]; decide
    have hover : (this.connections connection).stage ≠ .over := by rw [hs]; decide
    have hfits := h.fits connection
    have hno : ∀ other, (this.connections other).id = (this.connections connection).id →
        (this.connections other).stage ≠ .accepted := by
      intro other hid ha
      rcases Nat.lt_or_ge other this.next with hlt | hge
      · exact hm other hlt hid ha
      · cases ha.symm.trans (h.fresh other hge)
    have hnone : this.subscribed (this.connections connection).id = none := by
      refine Option.eq_none_iff_forall_ne_some.2 fun other ho => ?_
      obtain ⟨hid, hl⟩ := (h.current _ other).1 ho
      exact hno other hid hl.1
    have hwriting : (this.connections connection).writing = true := by
      by_contra hw
      exact (hfits.young (Bool.eq_false_iff.2 hw)).elim hold hover
    simp only [World.erase, hnone]
    refine @h.change _ _ { this.connections connection with stage := .accepted } _ _ _ _ _
      ⟨fun _ => ⟨rfl, hwriting⟩, fun _ => rfl⟩ (fun other ho => ?_) (fun hl => absurd hl.1 hold)
      (fun _ other _ hid => hno other hid) (fun hne => absurd (h.no_publishes hold) hne)
      ⟨fun _ => .inl rfl, fun ready _ => hfits.closed ready hover⟩ (fun id hr => ?_) (Nat.le_refl _)
      fun hle => absurd hle (h.waiting_lt hover)
    · exact ⟨fun he => absurd (Option.some.inj he).symm ho, fun hl => absurd hl.2.1 (hno other hl.1)⟩
    · have hi : id ≠ (this.connections connection).id := by
        rintro rfl
        cases hremoved.symm.trans hr
      rw [update_of_ne hi, update_of_ne hi]
      exact h.removed id hr
  next hs =>
    have hold : (this.connections connection).stage ≠ .accepted := by rw [hs]; decide
    exact h.keep_waiting hold nofun (h.no_publishes hold) ⟨fun _ => .inr rfl, fun _ ho => absurd rfl ho⟩ (Nat.le_refl _)
      fun _ => rfl
  · exact h

/-- **The subscribed connection leaves**: it is not live any more, and no publish request waits for it. -/
theorem leave {known : Nat → Option (String × String)} {removed : Nat → Bool} {id : Nat}
    (hs : this.subscribed id = some connection) (hid : provider.id = id) (hdead : ¬ provider.Live)
    (hpublishes : provider.publishes = []) (hfits : provider.Fits)
    (hremoved : ∀ id', removed id' = true → update this.subscribed id none id' = none ∧ known id' = none) :
    Sound { this with
      known, removed
      connections := update this.connections connection provider
      subscribed := update this.subscribed id none
      agent := update this.agent id false
      newest := update this.newest id none } := by
  subst hid
  obtain ⟨hid, hl⟩ := (h.current _ connection).1 hs
  have hover : (this.connections connection).stage ≠ .over := by rw [hl.1]; decide
  refine h.change ⟨nofun, fun hl => absurd hl hdead⟩ (fun other ho => ⟨nofun, fun hlo => False.elim ?_⟩) (fun _ => hid)
    (fun _ other ho hsame ha => ho (h.single other connection ha hl.1 (hsame.trans hid.symm)))
    (fun hne => absurd hpublishes hne) hfits hremoved (Nat.le_refl _) fun hle => absurd hle (h.waiting_lt hover)
  exact ho (h.single other connection hlo.2.1 hl.1 (hlo.1.trans hid.symm))

theorem gone {id : Nat} (hs : this.subscribed id = none) :
    update this.agent id false = this.agent ∧ update this.newest id none = this.newest := by
  have ha : this.agent id = false := by rw [h.agent, hs]; rfl
  exact ⟨by rw [← ha, update_eq_self], by rw [← hs, h.newest, update_eq_self]⟩

theorem closed_ (connection : Nat) : ∃ next, this.closed connection = .ok next ∧ Sound next := by
  unfold World.closed
  dsimp only
  split
  next ready hs he =>
    have hover : (this.connections connection).stage ≠ .over := by rw [hs]; decide
    have hw := (h.fits connection).closed ready hover he
    cases ready with
    | false =>
      have hdead : ¬ (this.connections connection).Live := fun hl => nomatch hw.symm.trans hl.2
      have hnone : this.subscribed (this.connections connection).id = none := by
        refine Option.eq_none_iff_forall_ne_some.2 fun other ho => ?_
        obtain ⟨hid, hl⟩ := (h.current _ other).1 ho
        rw [h.single other connection hl.1 hs hid] at hl
        exact hdead hl
      obtain ⟨hagent, -⟩ := h.gone hnone
      refine ⟨_, rfl, ?_⟩
      rw [hagent, ← h.newest, hnone, if_neg nofun]
      exact h.keep ⟨nofun, fun hl => absurd hl hdead⟩ (fun ha => ha.elim nofun fun hl => absurd hl hdead)
        (fun hne => absurd (h.live_of_publishes hne) hdead) ⟨fun _ => .inr rfl, fun _ ho => absurd rfl ho⟩ (Nat.le_refl _)
        fun _ => rfl
    | true =>
      have hsub := (h.current _ connection).2 ⟨rfl, hs, hw⟩
      refine ⟨_, if_neg (by simp [hsub]), ?_⟩
      rw [← h.newest, hsub, if_pos rfl, if_pos rfl]
      simp only [World.erase, hsub, World.modify, update_self, update_idem]
      refine h.leave hsub rfl nofun rfl ⟨fun _ => .inr rfl, fun _ ho => absurd rfl ho⟩ fun id hr => ?_
      obtain ⟨hnone, hknown⟩ := h.removed id hr
      refine ⟨?_, hknown⟩
      by_cases hi : id = (this.connections connection).id
      · rw [hi, update_self]
      · rw [update_of_ne hi, hnone]
  · exact ⟨_, rfl, h⟩

theorem remove {id : Nat} (hm : Meets this (.remove id)) : Sound (this.remove id) := by
  have hremoved : ∀ id', update this.removed id true id' = true →
      update this.subscribed id none id' = none ∧ update this.known id none id' = none := by
    intro id' hr
    by_cases hi : id' = id
    · rw [hi, update_self, update_self]
      exact ⟨rfl, rfl⟩
    · rw [update_of_ne hi] at hr ⊢
      rw [update_of_ne hi]
      exact h.removed id' hr
  unfold World.remove World.erase
  cases hs : this.subscribed id with
  | none =>
    obtain ⟨hagent, hnewest⟩ := h.gone hs
    dsimp only
    rw [hagent, hnewest]
    have hsub : update this.subscribed id none = this.subscribed := by rw [← hs, update_eq_self]
    rw [hsub] at hremoved
    exact ⟨⟨h.newest, h.agent, hremoved, h.publishes⟩, h.current, h.single, h.fits, h.fresh⟩
  | some connection =>
    obtain ⟨hid, ha, -⟩ := (h.current id connection).1 hs
    have hopen := hm connection hs
    exact h.leave hs hid nofun rfl ⟨fun _ => .inl ha, fun ready _ hc => nomatch hopen.symm.trans hc⟩ hremoved

theorem close (connection : Nat) : Sound (this.modify connection fun provider =>
    { provider with closed := provider.closed.or (some provider.writing) }) := by
  have hfits := h.fits connection
  refine h.keep Iff.rfl (fun ha => ⟨ha.elim id fun hl => hl.1, rfl⟩) (fun hne => h.live_of_publishes hne)
    ⟨hfits.young, fun ready ho hc => ?_⟩ (Nat.le_refl _) fun hle => h.fresh connection hle
  change (this.connections connection).closed.or (some (this.connections connection).writing) = some ready at hc
  cases hcl : (this.connections connection).closed with
  | none =>
    rw [hcl] at hc
    exact Option.some.inj hc
  | some =>
    rw [hcl] at hc
    exact hfits.closed ready ho (hcl.trans hc)

/-- **Publish requests come and go on the subscribed connection.** -/
theorem publish {id : Nat} (hs : this.subscribed id = some connection) (f : List Nat → List Nat) :
    Sound (this.modify connection fun provider => { provider with publishes := f provider.publishes }) := by
  obtain ⟨-, hl⟩ := (h.current id connection).1 hs
  exact h.keep Iff.rfl (fun _ => ⟨hl.1, rfl⟩) (fun _ => hl) ⟨(h.fits connection).young, (h.fits connection).closed⟩
    (Nat.le_refl _) fun hle => h.fresh connection hle

theorem api {id stream : Nat} {call : Call} (hm : Meets this (.call id stream call)) :
    ∃ next, this.api id stream call = .ok next ∧ Sound next := by
  unfold World.api
  split
  next hv =>
    rw [Bool.and_eq_true, decide_eq_true_eq] at hv
    obtain ⟨hs, hv⟩ := hv
    cases call with
    | updateOperationStatus status latestStatus operationUuid =>
      have hstatus : status = some id := of_decide_eq_true hv
      obtain ⟨hlatest, huuid⟩ := hm hs hstatus
      refine ⟨this, ?_, h⟩
      dsimp only [World.updateOperationStatus]
      have hany : latestStatus.any (· ≠ some id) ≠ true := by
        rw [ne_eq, Option.any_eq_true]
        rintro ⟨latest, hl, hne⟩
        exact of_decide_eq_true hne (hlatest latest hl)
      have hsome : operationUuid.isNone ≠ true := fun hno => huuid (Option.isNone_iff_eq_none.1 hno)
      rw [if_neg (not_not.2 hstatus), if_neg hany, if_neg hsome]
    | updateState resources =>
      refine ⟨this, ?_, h⟩
      have hany : resources.any (· ≠ some id) ≠ true := by
        rw [ne_eq, List.any_eq_true]
        rintro ⟨provider, hp, hne⟩
        exact of_decide_eq_true hne (of_decide_eq_true (List.all_eq_true.1 hv provider hp))
      have hagent : this.agent id = true := by rw [h.agent, hs]; rfl
      dsimp only [World.updateState]
      rw [if_neg hany, hagent]
      rfl
    | updatePublishResourcesStatus uuid =>
      refine ⟨_, rfl, ?_⟩
      cases uuid with
      | none => exact h
      | some uuid => exact h.publish hs (·.erase uuid)
  · exact ⟨this, rfl, h⟩

theorem step {event : Event} (hm : Meets this event) : ∃ next, this.step event = .ok next ∧ Sound next := by
  cases event with
  | subscribe id info => exact ⟨_, rfl, h.subscribe id info⟩
  | admitted connection ready =>
    refine ⟨_, rfl, ?_⟩
    split
    next hs => exact h.admitted connection ready hs
    · exact h
  | subscribe_ => exact ⟨_, rfl, h.subscribe_ hm⟩
  | close connection => exact ⟨_, rfl, h.close connection⟩
  | closed connection => exact h.closed_ connection
  | remove => exact ⟨_, rfl, h.remove hm⟩
  | publishResources id uuid =>
    refine ⟨_, rfl, ?_⟩
    unfold World.publishResources
    split
    next hs =>
      split
      · exact h.publish hs (uuid :: ·)
      · exact h
    · exact h
  | call => exact h.api hm

end Sound

end Steps

/-- **The newest connection wins, who was removed does not come back, and no check fails**, in every run in which a connection
is accepted when the callbacks of those before it were called and its resource provider was not removed meanwhile, no resource
provider is removed between the closure of its connection and the callback, and the operation statuses are well formed. -/
theorem newest_wins (known : Nat → Option (String × String)) (ids : Nat) (events : List Event)
    (hmeets : Fallible.Meets World.step Meets { known, ids } events) :
    ∃ this, events.foldlM World.step { known, ids } = .ok this ∧ NewestWins this := by
  have hstart : Sound { known, ids } :=
    ⟨⟨fun _ => rfl, fun _ => rfl, nofun, fun _ hne => absurd rfl hne⟩, fun _ _ => ⟨nofun, fun hl => nomatch hl.2.1⟩, nofun,
      fun _ => ⟨nofun, fun _ ho => absurd rfl ho⟩, fun _ _ => rfl⟩
  obtain ⟨this, hrun, h⟩ := hmeets.runs (fun _ _ h hmeets => Sound.step h hmeets) hstart
  exact ⟨this, hrun, h.toNewestWins⟩

/-- The provider of the first ID resubscribes after its first connection was found closed. -/
theorem newest_wins_again :
    ∃ this, [Event.subscribe none ("t", "n"), .admitted 0 true, .subscribe_ 0, .publishResources 0 7, .close 0, .closed 0,
      .subscribe (some 0) ("t", "n"), .subscribe_ 1, .call 0 1 (.updateState [some 0]),
      .call 0 1 (.updateOperationStatus (some 0) (some (some 0)) (some 5)), .remove 0,
      .subscribe (some 0) ("t", "n")].foldlM World.step { known := fun _ => none, ids := 0 } = .ok this ∧ NewestWins this :=
  newest_wins _ _ _ (by decide +kernel)

/-- **A resubscription before the old connection is found closed**: the new one is removed, or the agent aborts; and a removal
before that aborts the manager.  A resubscription that is accepted after the removal brings the resource provider back.  And
nothing but its checks reads the latest status and the UUID of an operation. -/
theorem old_closure_wins :
    let subscribed : List Event := [.subscribe none ("t", "n"), .admitted 0 true, .subscribe_ 0]
    let again : Event := .subscribe (some 0) ("t", "n")
    (∃ this, (subscribed ++ [again, .close 0, .subscribe_ 1, .closed 0]).foldlM World.step {} = .ok this ∧
        ¬ NewestWins this) ∧
      (subscribed ++ [again, .subscribe_ 1, .close 0, .closed 0, .call 0 1 (.updateState [])]).foldlM World.step {} =
        .error .resourceProvider ∧
      (subscribed ++ [Event.close 0, .remove 0, .closed 0]).foldlM World.step {} = .error .subscribed ∧
      (∃ this, (subscribed ++ [Event.close 0, .closed 0, again, .remove 0, .subscribe_ 1]).foldlM World.step {} = .ok this ∧
        ¬ NewestWins this) ∧
      (subscribed ++ [Event.call 0 0 (.updateOperationStatus (some 0) (some none) (some 5))]).foldlM World.step {} =
        .error .resourceProviderId ∧
      (subscribed ++ [Event.call 0 0 (.updateOperationStatus (some 0) none none)]).foldlM World.step {} =
        .error .operationUuid := by
  refine ⟨⟨_, rfl, fun h => ?_⟩, rfl, rfl, ⟨_, rfl, fun h => ?_⟩, rfl, rfl⟩
  · cases h.newest 0
  · cases (h.removed 0 rfl).1

end Clusterd.ProviderConnections
