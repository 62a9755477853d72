import Mathlib.Data.Finset.Max
/-!
# ZooKeeper groups (`zookeeper/group.cpp`, `zookeeper/detector.cpp`)

A `GroupProcess` caches the memberships of its group, the children of a znode.  `getChildren` fills the cache and sets a watch,
which ZooKeeper fires once, at the next change.  The watch of a client is completed when the memberships differ from those it
expects.  The group's own changes invalidate the cache, and calls that fail for the time being are retried.  A `LeaderDetector`
watches the group and follows the member with the smallest sequence number.

Others change the children at any time, also before a call reaches the server.
-/
namespace Clusterd.Group

/-- `Group::Membership`, which is compared by its sequence number. -/
abbrev Membership := Nat

/-! ## The server -/

/-- The children of the group's znode, and the child watch of the current session with the events it has fired that the
group has not handled yet. -/
structure Server where
  children : Finset Membership := ∅
  /-- The sequence number of the next child. -/
  next : Nat := 0
  armed : Bool := false
  fired : Nat := 0

section

variable (server : Server)

def Server.fire : Server :=
  if server.armed then { server with armed := false, fired := server.fired + 1 } else server

def Server.create : Server :=
  { server.fire with children := insert server.next server.children, next := server.next + 1 }

def Server.remove (membership : Membership) : Server :=
  { server.fire with children := server.children.erase membership }

inductive Change
  | join
  | leave (membership : Membership)
  /-- A child whose name is not a sequence number comes or goes. -/
  | other

def Server.change : Change → Server
  | .join => server.create
  | .leave membership => if membership ∈ server.children then server.remove membership else server
  | .other => server.fire

end

inductive Outcome
  | ok
  | retryable
  | failed (message : String)
deriving DecidableEq

structure Call where
  changes : List Change := []
  outcome : Outcome := .ok

/-! ## The processes -/

inductive State
  | disconnected
  | connecting
  | connected
  | authenticated
  | ready
deriving DecidableEq

inductive Client
  | detector
  | other
deriving DecidableEq

structure Watch where
  client : Client
  expected : Finset Membership
deriving DecidableEq

inductive Phase
  /-- On its way to the group. -/
  | requesting (expected : Finset Membership)
  /-- Among the group's pending watches. -/
  | waiting
  /-- Completed, and the detector has not handled it yet. -/
  | replied (memberships : Except String (Finset Membership))
  /-- The detector has stopped for an error. -/
  | failed

structure Detector where
  leader : Option Membership := none
  phase : Phase := .requesting ∅

structure History where
  asked : List Watch := []
  replies : List (Watch × Except String (Finset Membership)) := []

structure World where
  server : Server := {}
  /-- The calls that the current handler makes, in order; those not listed succeed. -/
  calls : List Call := []
  error : Option String := none
  /-- Whether there are credentials. -/
  auth : Bool := false
  state : State := .connecting
  /-- Whether the timer runs that limits the time without a connection. -/
  connectTimer : Bool := true
  retrying : Bool := false
  /-- The number of delayed calls to `retry` still to come. -/
  timers : Nat := 0
  /-- The cache. -/
  memberships : Option (Finset Membership) := none
  owned : Finset Membership := ∅
  unowned : Finset Membership := ∅
  joins : List String := []
  cancels : List Membership := []
  datas : List Membership := []
  watches : List Watch := []
  detector : Detector := {}
  history : History := {}

inductive Check
  | state
  | connectTimer
  | owned
  | error

inductive Result (α : Type)
  | some (a : α)
  | none
  | error (message : String)

namespace World

def call (world : World) : World × Outcome :=
  match world.calls with
  | [] => (world, .ok)
  | call :: calls => ({ world with calls, server := call.changes.foldl Server.change world.server }, call.outcome)

variable (world : World)

def ask (watch : Watch) : World :=
  { world with history := { world.history with asked := world.history.asked ++ [watch] } }

def complete (reply : Except String (Finset Membership)) (world : World) (watch : Watch) : World :=
  { world with
    history := { world.history with replies := world.history.replies ++ [(watch, reply)] }
    detector :=
      match watch.client with
      | .other => world.detector
      | .detector => { world.detector with phase := .replied reply } }

/-- `delay(RETRY_INTERVAL, self(), &GroupProcess::retry, RETRY_INTERVAL)`, unless retries are under way. -/
def scheduleRetry : World :=
  if world.retrying then world else { world with retrying := true, timers := world.timers + 1 }

def authenticate (world : World) : World × Except String Bool :=
  if !world.auth then ({ world with state := .authenticated }, .ok true)
  else
    match world.call with
    | (world, .retryable) => (world, .ok false)
    | (world, .failed message) => (world, .error ("Failed to authenticate with ZooKeeper: " ++ message))
    | (world, .ok) => ({ world with state := .authenticated }, .ok true)

/-- `create`; that the znode exists already counts as success. -/
def create : World × Except String Bool :=
  match world.call with
  | (world, .retryable) => (world, .ok false)
  | (world, .failed message) => (world, .error message)
  | (world, .ok) => ({ world with state := .ready }, .ok true)

def doJoin : World × Result Membership :=
  match world.call with
  | (world, .retryable) => (world, .none)
  | (world, .failed message) => (world, .error message)
  | (world, .ok) =>
    ({ world with
        server := world.server.create, memberships := none, owned := insert world.server.next world.owned },
      .some world.server.next)

variable (membership : Membership)

def doCancel : Except Check (World × Result Bool) :=
  match world.call with
  | (world, .retryable) => .ok (world, .none)
  | (world, .failed message) => .ok (world, .error message)
  | (world, .ok) =>
    if membership ∉ world.server.children then
      -- ZNONODE
      .ok (world, .some false)
    else if membership ∉ world.owned then .error .owned
    else .ok ({ world with
        server := world.server.remove membership, memberships := none, owned := world.owned.erase membership },
      .some true)

/-- `doData`, of which only the outcome matters here. -/
def doData : World × Result Unit :=
  match world.call with
  | (world, .retryable) => (world, .none)
  | (world, .failed message) => (world, .error message)
  | (world, .ok) => (world, .some ())

def cache : World × Except String Bool :=
  -- Invalidate first (if it's not already).
  match { world with memberships := none }.call with
  | (world, .retryable) => (world, .ok false)
  | (world, .failed message) => (world, .error ("Non-retryable error attempting to get children: " ++ message))
  | (world, .ok) =>
    let sequences := world.server.children
    let owned := world.owned.filter (· ∈ sequences)
    let unowned := world.unowned.filter (· ∈ sequences \ owned)
    let unexpected := (sequences \ owned) \ unowned
    ({ world with
        server := { world.server with armed := true }
        owned := owned
        unowned := unowned ∪ unexpected
        memberships := some (owned ∪ unowned ∪ unexpected) }, .ok true)

def update : World :=
  match world.memberships with
  | none => world
  | some memberships =>
    { (world.watches.filter (·.expected ≠ memberships)).foldl (complete (.ok memberships)) world with
      watches := world.watches.filter (·.expected = memberships) }

/-- The loop over the pending joins, up to the first that is to be tried again. -/
def doJoins (world : World) : List String → World × Bool
  | [] => ({ world with joins := [] }, true)
  | data :: joins =>
    match { world with joins := data :: joins }.doJoin with
    | (world, .none) => (world, false)
    | (world, _) => world.doJoins joins

def doCancels (world : World) : List Membership → Except Check (World × Bool)
  | [] => .ok ({ world with cancels := [] }, true)
  | membership :: cancels =>
    match { world with cancels := membership :: cancels }.doCancel membership with
    | .error check => .error check
    | .ok (world, .none) => .ok (world, false)
    | .ok (world, _) => world.doCancels cancels

def doDatas (world : World) : List Membership → World × Bool
  | [] => ({ world with datas := [] }, true)
  | membership :: datas =>
    match { world with datas := membership :: datas }.doData with
    | (world, .none) => (world, false)
    | (world, _) => world.doDatas datas

/-- The part of `sync` that sets up the group: authentication and the base path. -/
def setUp : World × Except String Bool :=
  match (if world.state = .connected then world.authenticate else (world, .ok true)) with
  | (world, .ok true) => if world.state = .authenticated then world.create else (world, .ok true)
  | (world, authenticated) => (world, authenticated)

/-- The end of `sync`: fill the cache if it is not valid. -/
def refresh : World × Except String Bool :=
  if world.memberships.isSome then (world, .ok true)
  else
    match world.cache with
    | (world, .ok true) => (world.update, .ok true)
    | (world, cached) => (world, cached)

def sync : Except Check (World × Except String Bool) :=
  match world.setUp with
  | (world, .ok true) =>
    match world.doJoins world.joins with
    | (world, false) => .ok (world, .ok false)
    | (world, true) =>
      match world.doCancels world.cancels with
      | .error check => .error check
      | .ok (world, false) => .ok (world, .ok false)
      | .ok (world, true) =>
        match world.doDatas world.datas with
        | (world, false) => .ok (world, .ok false)
        | (world, true) => .ok world.refresh
  | (world, ready) => .ok (world, ready)

def abort (message : String) : World :=
  { world.watches.foldl (complete (.error message)) world with
    error := some message, retrying := false, joins := [], cancels := [], datas := [], watches := [], owned := ∅ }

/-! ## Requests -/

def join (data : String) : World :=
  if world.error.isSome then world
  else if world.state ≠ .ready then { world with joins := world.joins ++ [data] }
  else
    match world.doJoin with
    | (world, .none) => { world.scheduleRetry with joins := world.joins ++ [data] }
    | (world, _) => world

def cancel : Except Check World :=
  if world.error.isSome ∨ membership ∉ world.owned then .ok world
  else if world.state ≠ .ready then .ok { world with cancels := world.cancels ++ [membership] }
  else
    match world.doCancel membership with
    | .error check => .error check
    | .ok (world, .none) => .ok { world.scheduleRetry with cancels := world.cancels ++ [membership] }
    | .ok (world, _) => .ok world

/-- `data`, which schedules no retry. -/
def data : World :=
  if world.error.isSome then world
  else if world.state ≠ .ready then { world with datas := world.datas ++ [membership] }
  else
    match world.doData with
    | (world, .none) => { world with datas := world.datas ++ [membership] }
    | (world, _) => world

def push (watch : Watch) : World :=
  { world.ask watch with
    watches := world.watches ++ [watch]
    detector :=
      match watch.client with
      | .other => world.detector
      | .detector => { world.detector with phase := .waiting } }

/-- The end of `watch`, with a valid cache. -/
def answer (watch : Watch) : World :=
  match world.memberships with
  | none => world -- not reached
  | some memberships =>
    if memberships = watch.expected then world.push watch else (world.ask watch).complete (.ok memberships) watch

def watch (world : World) (watch : Watch) : World :=
  match world.error with
  | some message => (world.ask watch).complete (.error message) watch
  | none =>
    if world.state ≠ .ready then world.push watch
    else if world.memberships.isSome then world.answer watch
    else
      match world.cache with
      | (world, .error message) => (world.ask watch).complete (.error message) watch
      | (world, .ok false) => world.scheduleRetry.push watch
      | (world, .ok true) => world.answer watch

/-! ## ZooKeeper events and timers -/

/-- What follows a `sync` in `connected`. -/
def connected (reconnect : Bool) : Except Check World :=
  if world.error.isSome then .ok world
  else if reconnect = false ∧ world.state ≠ .connecting ∨
      reconnect = true ∧ (world.state = .disconnected ∨ world.state = .connecting) then .error .state
  else if !world.connectTimer then .error .connectTimer
  else
    match { world with state := if reconnect then world.state else .connected, connectTimer := false }.sync with
    | .error check => .error check
    | .ok (world, .error message) => .ok (world.abort message)
    | .ok (world, .ok false) => .ok world.scheduleRetry
    | .ok (world, .ok true) => .ok world

def reconnecting : Except Check World :=
  if world.error.isSome then .ok world
  else if world.connectTimer then .error .connectTimer
  else .ok { world with retrying := false, connectTimer := true }

/-- `expired`, with the new connection it starts; the watch and the events of the old session are gone. -/
def expired : World :=
  if world.error.isSome then world
  else
    { { world with retrying := false, memberships := some ∅ }.update with
      memberships := none
      owned := ∅
      state := .connecting
      connectTimer := true
      server := { world.server with armed := false, fired := 0 } }

/-- `timedout`, and the `expired` it dispatches. -/
def timedout : World :=
  if world.error.isSome ∨ !world.connectTimer then world else world.expired

/-- `updated`, for an event that the child watch has fired. -/
def updated : World :=
  if world.error.isSome then world
  else
    match world.cache with
    | (world, .error message) => world.abort message
    | (world, .ok false) => world.scheduleRetry
    | (world, .ok true) => world.update

def retry : Except Check World :=
  if !world.retrying then .ok world
  else if world.error.isSome then .error .error
  else if world.state = .disconnected ∨ world.state = .connecting then .error .state
  else
    match { world with retrying := false }.sync with
    | .error check => .error check
    | .ok (world, .error message) => .ok (world.abort message)
    | .ok (world, .ok false) => .ok { world with retrying := true, timers := world.timers + 1 }
    | .ok (world, .ok true) => .ok world

end World

/-! ## The leader detector -/

/-- The election of `watched`: the smallest membership. -/
def elect (memberships : Finset Membership) : Option Membership := memberships.min

def World.watched (world : World) : World :=
  match world.detector.phase with
  | .replied (.error _) => { world with detector := ⟨none, .failed⟩ }
  | .replied (.ok memberships) => { world with detector := ⟨elect memberships, .requesting memberships⟩ }
  | _ => world

/-! ## Runs -/

inductive Event
  /-- Others change the children. -/
  | change (change : Change)
  | join (data : String) (calls : List Call)
  | cancel (membership : Membership) (calls : List Call)
  | data (membership : Membership) (calls : List Call)
  /-- A client other than the detector watches. -/
  | watch (expected : Finset Membership) (calls : List Call)
  | connected (reconnect : Bool) (calls : List Call)
  | reconnecting
  | timedout
  | expired
  | updated (calls : List Call)
  /-- A delayed `retry` is due. -/
  | retry (calls : List Call)
  /-- The detector's watch reaches the group. -/
  | request (calls : List Call)
  /-- The detector handles the reply. -/
  | watched

def Event.calls : Event → List Call
  | .change _ | .reconnecting | .timedout | .expired | .watched => []
  | .join _ calls | .cancel _ calls | .data _ calls | .watch _ calls | .connected _ calls | .updated calls
  | .retry calls | .request calls => calls

def World.step (world : World) : Event → Except Check World
  | .change change => .ok { world with server := world.server.change change }
  | .join data calls => .ok ({ world with calls }.join data)
  | .cancel membership calls => { world with calls }.cancel membership
  | .data membership calls => .ok ({ world with calls }.data membership)
  | .watch expected calls => .ok ({ world with calls }.watch ⟨.other, expected⟩)
  | .connected reconnect calls => { world with calls }.connected reconnect
  | .reconnecting => world.reconnecting
  | .timedout => .ok world.timedout
  | .expired => .ok world.expired
  | .updated calls =>
    if world.server.fired = 0 then .ok world
    else .ok ({ world with calls, server := { world.server with fired := world.server.fired - 1 } }.updated)
  | .retry calls => if world.timers = 0 then .ok world else { world with calls, timers := world.timers - 1 }.retry
  | .request calls =>
    match world.detector.phase with
    | .requesting expected => .ok ({ world with calls }.watch ⟨.detector, expected⟩)
    | _ => .ok world
  | .watched => .ok world.watched

end Clusterd.Group
