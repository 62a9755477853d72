import Clusterd.CommonRoles
import Clusterd.LogMessages
import Mathlib.Algebra.GroupWithZero.Nat
/-!
# The registry of the master (`master/registry.proto`)

What the master keeps in the replicated state, and what an operation on it comes to (`Performed`).  The repeated fields
are lists.  A `SlaveInfo` is its id and the rest of the message; what the operations need to know of the rest is told by
`Rules`.
-/
namespace Clusterd.Master

open Log (Bytes)

abbrev SlaveID := String

/-- Nanoseconds, as in `TimeInfo` and `DurationInfo`. -/
abbrev Nanoseconds := Int

structure SlaveInfo where
  id : SlaveID
  rest : Bytes
  deriving DecidableEq

inductive DrainState where
  | unknown
  | draining
  | drained
  deriving DecidableEq

structure DrainConfig where
  maxGracePeriod : Option Nanoseconds := none
  markGone : Bool := false
  deriving DecidableEq

structure DrainInfo where
  state : DrainState
  config : DrainConfig := {}
  deriving DecidableEq

/-- The draining and deactivation states of an agent, admitted or unreachable. -/
structure Draining where
  drainInfo : Option DrainInfo := none
  deactivated : Bool := false
  deriving DecidableEq

structure Slave extends Draining where
  info : SlaveInfo
  deriving DecidableEq

structure UnreachableSlave extends Draining where
  id : SlaveID
  timestamp : Nanoseconds
  deriving DecidableEq

def Slave.change (f : Draining → Draining) (s : Slave) : Slave := { toDraining := f s.toDraining, info := s.info }

def UnreachableSlave.change (f : Draining → Draining) (s : UnreachableSlave) : UnreachableSlave :=
  { toDraining := f s.toDraining, id := s.id, timestamp := s.timestamp }

structure GoneSlave where
  id : SlaveID
  timestamp : Nanoseconds
  deriving DecidableEq

/-! ## Maintenance -/

structure MachineID where
  hostname : Option String := none
  ip : Option String := none
  deriving DecidableEq

/-- Machines are compared without regard to the case of the hostname. -/
def MachineID.key (m : MachineID) : Option String × Option String := (m.hostname.map String.toLower, m.ip)

inductive MachineMode where
  | up
  | draining
  | down
  deriving DecidableEq

structure Unavailability where
  start : Nanoseconds
  duration : Option Nanoseconds := none
  deriving DecidableEq

structure MachineInfo where
  id : MachineID
  mode : Option MachineMode := none
  unavailability : Option Unavailability := none
  deriving DecidableEq

structure Window where
  machineIds : List MachineID
  unavailability : Unavailability
  deriving DecidableEq

structure Schedule where
  windows : List Window := []
  deriving DecidableEq

/-! ## Quota, weights and the registry -/

/-- The `double` of a scalar. -/
inductive Scalar where
  | finite (value : Rat)
  | infinite (negative : Bool)
  | nan
  deriving DecidableEq

/-- The maps have distinct names. -/
structure QuotaConfig where
  role : String
  guarantees : List (String × Scalar) := []
  limits : List (String × Scalar) := []
  deriving DecidableEq

structure Quota where
  role : String
  deriving DecidableEq

structure WeightInfo where
  role : String
  weight : Rat
  deriving DecidableEq

structure MasterInfo where
  id : String
  deriving DecidableEq

structure Registry where
  master : Option MasterInfo := none
  slaves : List Slave := []
  unreachable : List UnreachableSlave := []
  gone : List GoneSlave := []
  machines : List MachineInfo := []
  schedules : List Schedule := []
  quotas : List Quota := []
  quotaConfigs : List QuotaConfig := []
  weights : List WeightInfo := []
  minimumCapabilities : List String := []
  deriving DecidableEq

def Registry.admitted (r : Registry) : List SlaveID := r.slaves.map (·.info.id)

/-- What the operations ask the rest of the master and its libraries: how resources are converted between formats, when
two infos are the same, how messages are written as JSON and scalars as texts, and which texts `inet_pton` takes. -/
structure Rules where
  upgradeResources : SlaveInfo → SlaveInfo
  downgradeResources : SlaveInfo → Except String SlaveInfo
  same : SlaveInfo → SlaveInfo → Bool
  quotaJson : QuotaConfig → String
  stringify : Scalar → String
  stringifyMap : List (String × Scalar) → String
  json : MachineID → String
  isIPv4 : String → Bool
  downgrade_id : ∀ info info', downgradeResources info = .ok info' → info'.id = info.id

def Rules.plain : Rules where
  upgradeResources := id
  downgradeResources := .ok
  same := fun a b => a = b
  quotaJson := fun q => q.role
  stringify := fun _ => "1"
  stringifyMap := fun _ => ""
  json := fun m => m.hostname.getD ""
  isIPv4 := fun _ => true
  downgrade_id := by
    rintro _ _ ⟨⟩
    rfl

structure Performed where
  result : Except String Bool
  registry : Registry
  slaveIDs : Finset SlaveID

/-! ## Repeated fields -/

/-- `DeleteSubrange`; deleting what is not there is undefined. -/
def deleteSubrange {α : Type} (xs : List α) (start num : Nat) : Option (List α) :=
  if start + num ≤ xs.length then some (xs.take start ++ xs.drop (start + num)) else none

def modifyFirst {α : Type} (p : α → Bool) (f : α → α) : List α → List α
  | [] => []
  | x :: xs => if p x then f x :: xs else x :: modifyFirst p f xs

/-- The loop `for (int i = size - 1; i >= 0; i--)` that changes the element at `i` or deletes it with
`DeleteSubrange(i, 1)`. -/
def reverseLoop {α : Type} (f : α → Option α) : Nat → List α → List α
  | 0, xs => xs
  | i + 1, xs =>
    match xs[i]?.map f with
    | none => xs
    | some none => reverseLoop f i (xs.eraseIdx i)
    | some (some y) => reverseLoop f i (xs.set i y)

section

variable (capabilities : List String) (capability : String)

def addMinimumCapability : List String :=
  if capability ∈ capabilities then capabilities else capabilities ++ [capability]

def removeMinimumCapability : List String :=
  capabilities.erase capability

end

/-!
# Operations on agents (`master/registry_operations.cpp`)

Each operation is what its `perform` does with the registry and the accumulator of the admitted ids.  There is no result
where the master aborts: a `CHECK` fails, or elements are deleted from a repeated field that it does not have.
-/

section

variable (rules : Rules) (info : SlaveInfo) (r : Registry) (ids : Finset SlaveID)

def admitSlave : Option Performed :=
  if info.id ∈ ids then some ⟨.error "Agent already admitted", r, ids⟩
  else
    match rules.downgradeResources info with
    | .error _ => none
    | .ok info =>
      some ⟨.ok true, { r with slaves := r.slaves ++ [{ info := info }] }, insert info.id ids⟩

def updateSlave : Option Performed :=
  if info.id ∉ ids then some ⟨.error "Agent not yet admitted.", r, ids⟩
  else
    match r.slaves.find? (·.info.id = info.id) with
    | none => some ⟨.error ("Failed to find agent " ++ info.id), r, ids⟩
    | some slave =>
      if rules.same info (rules.upgradeResources slave.info) then some ⟨.ok false, r, ids⟩
      else
        match rules.downgradeResources info with
        | .error _ => none
        | .ok info =>
          some ⟨.ok true,
            { r with slaves := modifyFirst (·.info.id = info.id) (fun s => { s with info := info }) r.slaves }, ids⟩

end

def markSlaveUnreachable (info : SlaveInfo) (unreachableTime : Nanoseconds) (r : Registry) (ids : Finset SlaveID) :
    Option Performed :=
  if info.id ∉ ids then some ⟨.error "Agent not yet admitted", r, ids⟩
  else
    match r.slaves.find? (·.info.id = info.id) with
    | none => some ⟨.error ("Failed to find agent " ++ info.id), r, ids⟩
    | some slave =>
      some ⟨.ok true,
        { r with
          unreachable := r.unreachable ++
            [{ toDraining := slave.toDraining, id := info.id, timestamp := unreachableTime }]
          slaves := r.slaves.eraseP (·.info.id = info.id) },
        ids.erase info.id⟩

def markSlaveReachable (rules : Rules) (info : SlaveInfo) (r : Registry) (ids : Finset SlaveID) : Option Performed :=
  if info.id ∈ ids then some ⟨.ok false, r, ids⟩
  else
    let draining := ((r.unreachable.find? (·.id = info.id)).map (·.toDraining)).getD {}
    match rules.downgradeResources info with
    | .error _ => none
    | .ok _ =>
      some ⟨.ok true,
        { r with
          unreachable := r.unreachable.eraseP (·.id = info.id)
          slaves := r.slaves ++ [{ toDraining := draining, info := info }] },
        insert info.id ids⟩

/-- One of the two loops of `Prune`: where an element is named, `DeleteSubrange(i, i+1)`.  The last component says whether
anything was deleted; `fuel` is at least the number of elements not yet looked at. -/
def pruneLoop {α : Type} (toRemove : List SlaveID) (id : α → SlaveID) :
    (fuel i : Nat) → List α → Bool → Option (List α × Bool)
  | 0, _, xs, mutate => some (xs, mutate)
  | fuel + 1, i, xs, mutate =>
    match xs[i]? with
    | none => some (xs, mutate)
    | some x =>
      if id x ∈ toRemove then
        match deleteSubrange xs i (i + 1) with
        | none => none
        | some xs => pruneLoop toRemove id fuel i xs true
      else pruneLoop toRemove id fuel (i + 1) xs mutate

def prune (toRemoveUnreachable toRemoveGone : List SlaveID) (r : Registry) (ids : Finset SlaveID) : Option Performed :=
  match pruneLoop toRemoveUnreachable (·.id) r.unreachable.length 0 r.unreachable false with
  | none => none
  | some (unreachable, mutate) =>
    match pruneLoop toRemoveGone (·.id) r.gone.length 0 r.gone mutate with
    | none => none
    | some (gone, mutate) => some ⟨.ok mutate, { r with unreachable := unreachable, gone := gone }, ids⟩

def removeSlave (info : SlaveInfo) (r : Registry) (ids : Finset SlaveID) : Option Performed :=
  if r.slaves.any (·.info.id = info.id) then
    some ⟨.ok true, { r with slaves := r.slaves.eraseP (·.info.id = info.id) }, ids.erase info.id⟩
  else some ⟨.error "Agent not yet admitted", r, ids⟩

def markSlaveGone (id : SlaveID) (goneTime : Nanoseconds) (r : Registry) (ids : Finset SlaveID) : Option Performed :=
  if r.gone.any (·.id = id) then some ⟨.error ("Agent " ++ id ++ " already marked as gone"), r, ids⟩
  else if id ∈ ids then
    some ⟨.ok true,
      { r with
        slaves := r.slaves.eraseP (·.info.id = id)
        gone := r.gone ++ [{ id := id, timestamp := goneTime }] },
      if r.slaves.any (·.info.id = id) then ids.erase id else ids⟩
  else if r.unreachable.any (·.id = id) then
    some ⟨.ok true,
      { r with
        unreachable := r.unreachable.eraseP (·.id = id)
        gone := r.gone ++ [{ id := id, timestamp := goneTime }] }, ids⟩
  else some ⟨.error ("Failed to find agent " ++ id), r, ids⟩

/-! ## Draining -/

def agentDraining : String := "AGENT_DRAINING"

variable (slaveId : SlaveID)

/-- An agent is looked for in the admitted list if it is said to be there, else in the unreachable list; the first entry
with its id is changed.  The last component says whether it was found. -/
def changeAgent (f : Draining → Draining) (r : Registry) (ids : Finset SlaveID) : Registry × Bool :=
  if slaveId ∈ ids then
    ({ r with slaves := modifyFirst (·.info.id = slaveId) (Slave.change f) r.slaves }, true)
  else
    ({ r with unreachable := modifyFirst (·.id = slaveId) (UnreachableSlave.change f) r.unreachable },
      r.unreachable.any (·.id = slaveId))

/-- The first entry that `changeAgent` would change. -/
def findAgent (r : Registry) (ids : Finset SlaveID) : Option Draining :=
  if slaveId ∈ ids then (r.slaves.find? (·.info.id = slaveId)).map (·.toDraining)
  else (r.unreachable.find? (·.id = slaveId)).map (·.toDraining)

section

variable (maxGracePeriod : Option Nanoseconds) (markGone : Bool)

/-- A grace period that was set before is kept unless another one is given. -/
def Draining.drain (d : Draining) : Draining where
  drainInfo := some
    { state := .draining
      config :=
        { maxGracePeriod := maxGracePeriod <|> d.drainInfo.bind (·.config.maxGracePeriod)
          markGone := markGone } }
  deactivated := true

def drainAgent (r : Registry)
    (ids : Finset SlaveID) : Option Performed :=
  match changeAgent slaveId (Draining.drain maxGracePeriod markGone) r ids with
  | (r, true) =>
    some ⟨.ok true, { r with minimumCapabilities := addMinimumCapability r.minimumCapabilities agentDraining }, ids⟩
  | (r, false) => some ⟨.ok false, r, ids⟩

end

def Draining.isDraining (d : Draining) : Bool :=
  match d.drainInfo with
  | none => false
  | some info => info.state = .draining

def Draining.drained (d : Draining) : Draining :=
  { d with drainInfo := d.drainInfo.map fun info => { info with state := .drained } }

def markAgentDrained (r : Registry) (ids : Finset SlaveID) : Option Performed :=
  if (findAgent slaveId r ids).any (fun d => !d.isDraining) then
    some ⟨.error ("Agent " ++ slaveId ++ " is not DRAINING"), r, ids⟩
  else
    match changeAgent slaveId Draining.drained r ids with
    | (r, found) => some ⟨.ok found, r, ids⟩

def deactivateAgent (r : Registry) (ids : Finset SlaveID) : Option Performed :=
  match changeAgent slaveId (fun d => { d with deactivated := true }) r ids with
  | (r, true) =>
    some ⟨.ok true, { r with minimumCapabilities := addMinimumCapability r.minimumCapabilities agentDraining }, ids⟩
  | (r, false) => some ⟨.ok false, r, ids⟩

/-- One of the two scans of `ReactivateAgent`.  The states of the agent are cleared; the scan ends as soon as the agent was
found and another deactivated one was seen, in either order. -/
def reactivateScan {α : Type} (target : α → Bool) (deactivated : α → Bool) (clear : α → α) :
    List α → (found moreThanOneDeactivated : Bool) → List α × Bool × Bool
  | [], found, more => ([], found, more)
  | x :: xs, found, more =>
    if target x then
      if more then (clear x :: xs, true, more)
      else
        let rest := reactivateScan target deactivated clear xs true more
        (clear x :: rest.1, rest.2)
    else if deactivated x then
      if found then (x :: xs, found, true)
      else
        let rest := reactivateScan target deactivated clear xs found true
        (x :: rest.1, rest.2)
    else
      let rest := reactivateScan target deactivated clear xs found more
      (x :: rest.1, rest.2)

def reactivateAgent (r : Registry) (ids : Finset SlaveID) : Option Performed :=
  let (slaves, found, more) :=
    reactivateScan (·.info.id = slaveId) (·.deactivated) (Slave.change fun _ => {}) r.slaves false false
  let (unreachable, found, more) :=
    if !found || !more then
      reactivateScan (·.id = slaveId) (·.deactivated) (UnreachableSlave.change fun _ => {}) r.unreachable found more
    else (r.unreachable, found, more)
  let capabilities :=
    if found && !more then removeMinimumCapability r.minimumCapabilities agentDraining else r.minimumCapabilities
  some ⟨.ok found, { r with slaves := slaves, unreachable := unreachable, minimumCapabilities := capabilities }, ids⟩

/-!
# Maintenance schedules (`master/maintenance.cpp`)

The three operations on the schedules and the list of machines, and the validation of a schedule before it is applied.
Sets and maps of machines compare their keys (`MachineID.key`).
-/

def Schedule.entries (s : Schedule) : List (MachineID × Unavailability) :=
  s.windows.flatMap fun w => w.machineIds.map fun id => (id, w.unavailability)

def Schedule.keys (s : Schedule) : List (Option String × Option String) := s.entries.map (·.1.key)

/-- The map `updated`: a later window replaces an earlier one. -/
def Schedule.updated (s : Schedule) (key : Option String × Option String) : Option Unavailability :=
  (s.entries.reverse.find? (·.1.key = key)).map (·.2)

instance keyLawful : LawfulBEq (Option String × Option String) := inferInstance

def updateSchedule (schedule : Schedule) (r : Registry) (ids : Finset SlaveID) : Option Performed :=
  let existing := r.schedules.flatMap Schedule.keys
  let kept := reverseLoop (fun m => (schedule.updated m.id.key).map fun unavailability =>
    { m with unavailability := some unavailability }) r.machines.length r.machines
  let added := (schedule.entries.filter fun e => e.1.key ∉ existing).map fun e =>
    { id := e.1, mode := some .draining, unavailability := some e.2 }
  some ⟨.ok true, { r with machines := kept ++ added, schedules := [schedule] }, ids⟩

variable (machines : List MachineID)

/-- Whether the set `ids` of an operation contains the machine. -/
def Named (id : MachineID) : Prop := id.key ∈ machines.map MachineID.key

instance (machines : List MachineID) (id : MachineID) : Decidable (Named machines id) :=
  inferInstanceAs (Decidable (_ ∈ _))

def startMaintenance (r : Registry) (ids : Finset SlaveID) : Option Performed :=
  some ⟨.ok (r.machines.any (Named machines ·.id)),
    { r with machines := r.machines.map fun m => if Named machines m.id then { m with mode := some .down } else m }, ids⟩

def Window.without (w : Window) : Option Window :=
  let machineIds := reverseLoop (fun id => if Named machines id then none else some id) w.machineIds.length w.machineIds
  if machineIds = [] then none else some { w with machineIds := machineIds }

/-- A schedule without the machines, if any windows are left. -/
def Schedule.without (machines : List MachineID) (s : Schedule) : Option Schedule :=
  let windows := reverseLoop (Window.without machines) s.windows.length s.windows
  if windows = [] then none else some { windows := windows }

def stopMaintenance (r : Registry) (ids : Finset SlaveID) : Option Performed :=
  some ⟨.ok (r.machines.any (Named machines ·.id)),
    { r with
      machines := reverseLoop (fun m => if Named machines m.id then none else some m) r.machines.length r.machines
      schedules := reverseLoop (Schedule.without machines) r.schedules.length r.schedules }, ids⟩

/-! ## Validation -/

namespace Validation

def unavailability (u : Unavailability) : Except String Unit :=
  if u.duration.getD 0 < 0 then .error "Unavailability 'duration' is negative" else .ok ()

def machine (rules : Rules) (id : MachineID) : Except String Unit :=
  if id.hostname.getD "" = "" ∧ id.ip.getD "" = "" then .error "Both 'hostname' and 'ip' for a machine are empty"
  else if id.ip.getD "" ≠ "" ∧ rules.isIPv4 (id.ip.getD "") = false then
    .error ("Failed to parse IPv4: " ++ id.ip.getD "")
  else .ok ()

def windowMachines (rules : Rules) :
    List MachineID → List (Option String × Option String) → Except String (List (Option String × Option String))
  | [], updated => .ok updated
  | id :: ids, updated =>
    match machine rules id with
    | .error e => .error e
    | .ok () =>
      if id.key ∈ updated then .error ("Machine '" ++ rules.json id ++ "' appears more than once in the schedule")
      else windowMachines rules ids (updated ++ [id.key])

def windows (rules : Rules) :
    List Window → List (Option String × Option String) → Except String (List (Option String × Option String))
  | [], updated => .ok updated
  | w :: ws, updated =>
    if w.machineIds = [] then .error "List of machines in the maintenance window is empty"
    else
      match unavailability w.unavailability with
      | .error e => .error e
      | .ok () =>
        match windowMachines rules w.machineIds updated with
        | .error e => .error e
        | .ok updated => windows rules ws updated

/-- No machine that is down may be left out of the schedule. -/
def schedule (rules : Rules) (s : Schedule) (machines : List MachineInfo) : Except String Unit :=
  match windows rules s.windows [] with
  | .error e => .error e
  | .ok updated =>
    match machines.find? (fun m => m.mode = some .down ∧ m.id.key ∉ updated) with
    | some m =>
      .error ("Machine '" ++ rules.json m.id ++ "' is deactivated and cannot be removed from the schedule")
    | none => .ok ()

end Validation

/-!
# The operations on the registry

All the operations the master applies, and what `RegistrarProcess::update` makes of a list of them: each is performed on
the registry and the accumulator that the one before left.
-/

namespace Scalar

/-- `convertToFixed`: thousandths, half of one away from zero.  `quota::validate` refuses what is not a number before this is
asked of it. -/
def convertToFixed : Scalar → Int
  | .finite value => if 0 ≤ value then (value * 1000 + 1 / 2).floor else -(-value * 1000 + 1 / 2).floor
  | .infinite _ | .nan => 0

/-- `value() > limit`. -/
def exceeds (limit : Nat) : Scalar → Bool
  | .finite value => decide ((limit : Rat) < value)
  | .infinite negative => !negative
  | .nan => false

/-- `validateInputScalarValue`; the numbers that are not normal are those nearer to zero than `2⁻¹⁰²²`. -/
def validateInput : Scalar → Option String
  | .infinite _ => some "Infinite values not supported"
  | .nan => some "NaN not supported"
  | .finite value =>
    if value = 0 then none
    else if value.num.natAbs * 2 ^ 1022 < value.den then some "Subnormal values not supported"
    else if value < 0 then some "Negative values not supported"
    else none

end Scalar

section

variable (rules : Rules)

def entryText (entry : String × Scalar) : String := "\x7b'" ++ entry.1 ++ "': " ++ rules.stringify entry.2 ++ "\x7d"

def validateTooLarge (values : List (String × Scalar)) : Option String :=
  values.findSome? fun entry =>
    if entry.1 = "mem" ∨ entry.1 = "disk" then
      if entry.2.exceeds 1099511627776 then
        some (entryText rules entry ++ " is invalid: values greater than 1 exabyte (1099511627776) are not supported")
      else none
    else if entry.2.exceeds 1000000000000 then
      some (entryText rules entry ++ " is invalid: values greater than 1 trillion (1000000000000) are not supported")
    else none

def validateScalars (kind : String) (values : List (String × Scalar)) : Option String :=
  values.findSome? fun entry => entry.2.validateInput.map
    ("Invalid " ++ kind ++ " configuration " ++ entryText rules entry ++ ": " ++ ·)

/-- `ResourceLimits::contains`: what has no limit is not bounded. -/
def QuotaConfig.contained (config : QuotaConfig) : Bool :=
  config.guarantees.all fun guarantee => config.limits.all fun limit =>
    decide (limit.1 = guarantee.1 → guarantee.2.convertToFixed ≤ limit.2.convertToFixed)

/-- `quota::validate`. -/
def validateQuota (config : QuotaConfig) : Option String :=
  (Common.Roles.validate config.role).map ("Invalid 'QuotaConfig.role': " ++ ·) <|>
  (validateTooLarge rules config.guarantees).map ("Invalid 'QuotaConfig.guarantees': " ++ ·) <|>
  (validateTooLarge rules config.limits).map ("Invalid 'QuotaConfig.limits': " ++ ·) <|>
  validateScalars rules "guarantee" config.guarantees <|>
  validateScalars rules "limit" config.limits <|>
  if config.contained then none
  else some ("'QuotaConfig.guarantees' " ++ rules.stringifyMap config.guarantees ++
    " is not contained within the 'QuotaConfig.limits' " ++ rules.stringifyMap config.limits)

/-- `Quota(config) == DEFAULT_QUOTA`: no limits, and no guarantees but those of zero, which are dropped. -/
def QuotaConfig.isDefault (config : QuotaConfig) : Bool :=
  config.guarantees.all (·.2.convertToFixed = 0) && config.limits.isEmpty

/-- One config of `UpdateQuota`. -/
def applyQuota (r : Registry) (config : QuotaConfig) : Registry :=
  { r with
    quotaConfigs :=
      if config.isDefault then r.quotaConfigs.eraseP (·.role = config.role)
      else if r.quotaConfigs.any (·.role = config.role) then
        modifyFirst (·.role = config.role) (fun _ => config) r.quotaConfigs
      else r.quotaConfigs ++ [config]
    quotas := r.quotas.eraseP (·.role = config.role) }

def quotaError (config : QuotaConfig) : Option String :=
  (validateQuota rules config).map fun message =>
    "Invalid quota config '" ++ rules.quotaJson config ++ "': " ++ message

def updateQuota (configs : List QuotaConfig) (r : Registry) (ids : Finset SlaveID) : Option Performed :=
  match configs.findSome? (quotaError rules) with
  | some message => some ⟨.error message, r, ids⟩
  | none =>
    let r := configs.foldl applyQuota r
    some ⟨.ok true,
      { r with
        minimumCapabilities :=
          if r.quotaConfigs ≠ [] then addMinimumCapability r.minimumCapabilities "QUOTA_V2"
          else removeMinimumCapability r.minimumCapabilities "QUOTA_V2" }, ids⟩

/-- One weight of `UpdateWeights`, and whether the registry was changed. -/
def applyWeight (state : List WeightInfo × Bool) (w : WeightInfo) : List WeightInfo × Bool :=
  match state.1.find? (·.role = w.role) with
  | none => (state.1 ++ [w], true)
  | some old => if old.weight ≠ w.weight then (modifyFirst (·.role = w.role) (fun _ => w) state.1, true) else state

def updateWeights (weights : List WeightInfo) (r : Registry) (ids : Finset SlaveID) : Option Performed :=
  let (stored, mutated) := weights.foldl applyWeight (r.weights, false)
  some ⟨.ok mutated, { r with weights := stored }, ids⟩

inductive Operation where
  | recover (info : MasterInfo)
  | admitSlave (info : SlaveInfo)
  | updateSlave (info : SlaveInfo)
  | markSlaveUnreachable (info : SlaveInfo) (unreachableTime : Nanoseconds)
  | markSlaveReachable (info : SlaveInfo)
  | prune (toRemoveUnreachable toRemoveGone : List SlaveID)
  | removeSlave (info : SlaveInfo)
  | markSlaveGone (id : SlaveID) (goneTime : Nanoseconds)
  | drainAgent (slaveId : SlaveID) (maxGracePeriod : Option Nanoseconds) (markGone : Bool)
  | markAgentDrained (slaveId : SlaveID)
  | deactivateAgent (slaveId : SlaveID)
  | reactivateAgent (slaveId : SlaveID)
  | updateSchedule (schedule : Schedule)
  | startMaintenance (machines : List MachineID)
  | stopMaintenance (machines : List MachineID)
  | updateQuota (configs : List QuotaConfig)
  | updateWeights (weights : List WeightInfo)
  deriving DecidableEq

def Operation.perform (o : Operation) (r : Registry) (ids : Finset SlaveID) : Option Performed :=
  match o with
  | .recover info => some ⟨.ok true, { r with master := some info }, ids⟩
  | .admitSlave info => Master.admitSlave rules info r ids
  | .updateSlave info => Master.updateSlave rules info r ids
  | .markSlaveUnreachable info time => Master.markSlaveUnreachable info time r ids
  | .markSlaveReachable info => Master.markSlaveReachable rules info r ids
  | .prune unreachable gone => Master.prune unreachable gone r ids
  | .removeSlave info => Master.removeSlave info r ids
  | .markSlaveGone id time => Master.markSlaveGone id time r ids
  | .drainAgent id maxGracePeriod gone => Master.drainAgent id maxGracePeriod gone r ids
  | .markAgentDrained id => Master.markAgentDrained id r ids
  | .deactivateAgent id => Master.deactivateAgent id r ids
  | .reactivateAgent id => Master.reactivateAgent id r ids
  | .updateSchedule schedule => Master.updateSchedule schedule r ids
  | .startMaintenance machines => Master.startMaintenance machines r ids
  | .stopMaintenance machines => Master.stopMaintenance machines r ids
  | .updateQuota configs => Master.updateQuota rules configs r ids
  | .updateWeights weights => Master.updateWeights weights r ids

structure Batch where
  registry : Registry
  slaveIDs : Finset SlaveID

def Batch.start (r : Registry) : Batch := { registry := r, slaveIDs := r.admitted.toFinset }

inductive Step where
  | batch
  | perform (o : Operation)

def Batch.step (b : Option Batch) (s : Step) : Option Batch :=
  match b, s with
  | none, _ => none
  | some b, .batch => some (Batch.start b.registry)
  | some b, .perform o => (o.perform rules b.registry b.slaveIDs).map fun p => ⟨p.registry, p.slaveIDs⟩

end

/-!
# What an operation does

An operation that is performed is refused and changes nothing, or makes one of the changes listed in `Outcome`.  The
invariants of the registry are read off this list.
-/

inductive Deactivates : Operation → SlaveID → (Draining → Draining) → Prop
  | drain (id : SlaveID) (maxGracePeriod : Option Nanoseconds) (markGone : Bool) :
      Deactivates (.drainAgent id maxGracePeriod markGone) id (Draining.drain maxGracePeriod markGone)
  | deactivate (id : SlaveID) : Deactivates (.deactivateAgent id) id fun d => { d with deactivated := true }

def Operation.unrelated : Operation → Bool
  | .recover _ | .updateSchedule _ | .startMaintenance _ | .stopMaintenance _ | .updateQuota _ | .updateWeights _ => true
  | _ => false

def reactivated (slaveId : SlaveID) (r : Registry) : (List Slave × List UnreachableSlave) × Bool × Bool :=
  let admitted :=
    reactivateScan (·.info.id = slaveId) (·.deactivated) (Slave.change fun _ => {}) r.slaves false false
  let unreachable :=
    if !admitted.2.1 || !admitted.2.2 then
      reactivateScan (·.id = slaveId) (·.deactivated) (UnreachableSlave.change fun _ => {}) r.unreachable admitted.2.1
        admitted.2.2
    else (r.unreachable, admitted.2)
  ((admitted.1, unreachable.1), unreachable.2)

section

variable (r : Registry) (ids : Finset SlaveID)

/-- **What an operation does** to the registry and the accumulator. -/
inductive Outcome : Operation → Performed → Prop
  | refused (o : Operation) (message : String) : Outcome o ⟨.error message, r, ids⟩
  | kept (o : Operation) : Outcome o ⟨.ok false, r, ids⟩
  | admitted (info info' : SlaveInfo) : info.id ∉ ids → info'.id = info.id →
      Outcome (.admitSlave info) ⟨.ok true, { r with slaves := r.slaves ++ [{ info := info' }] }, insert info.id ids⟩
  | updated (info info' : SlaveInfo) : info'.id = info.id →
      Outcome (.updateSlave info)
        ⟨.ok true,
          { r with slaves := modifyFirst (·.info.id = info'.id) (fun s => { s with info := info' }) r.slaves }, ids⟩
  | vanished (info : SlaveInfo) (time : Nanoseconds) (slave : Slave) : info.id ∈ ids →
      r.slaves.find? (·.info.id = info.id) = some slave →
      Outcome (.markSlaveUnreachable info time)
        ⟨.ok true,
          { r with
            unreachable := r.unreachable ++ [{ toDraining := slave.toDraining, id := info.id, timestamp := time }]
            slaves := r.slaves.eraseP (·.info.id = info.id) },
          ids.erase info.id⟩
  | returned (info : SlaveInfo) : info.id ∉ ids →
      Outcome (.markSlaveReachable info)
        ⟨.ok true,
          { r with
            unreachable := r.unreachable.eraseP (·.id = info.id)
            slaves := r.slaves ++
              [{ toDraining := ((r.unreachable.find? (·.id = info.id)).map (·.toDraining)).getD {}, info := info }] },
          insert info.id ids⟩
  | pruned (toRemoveUnreachable toRemoveGone : List SlaveID) (unreachable : List UnreachableSlave) (gone : List GoneSlave)
      (mutate mutate' : Bool) :
      pruneLoop toRemoveUnreachable (·.id) r.unreachable.length 0 r.unreachable false = some (unreachable, mutate) →
      pruneLoop toRemoveGone (·.id) r.gone.length 0 r.gone mutate = some (gone, mutate') →
      Outcome (.prune toRemoveUnreachable toRemoveGone)
        ⟨.ok mutate', { r with unreachable := unreachable, gone := gone }, ids⟩
  | removed (info : SlaveInfo) : r.slaves.any (·.info.id = info.id) = true →
      Outcome (.removeSlave info)
        ⟨.ok true, { r with slaves := r.slaves.eraseP (·.info.id = info.id) }, ids.erase info.id⟩
  | gone (id : SlaveID) (time : Nanoseconds) : r.gone.any (·.id = id) = false → id ∈ ids →
      Outcome (.markSlaveGone id time)
        ⟨.ok true,
          { r with
            slaves := r.slaves.eraseP (·.info.id = id)
            gone := r.gone ++ [{ id := id, timestamp := time }] },
          if r.slaves.any (·.info.id = id) then ids.erase id else ids⟩
  | goneUnreachable (id : SlaveID) (time : Nanoseconds) : r.gone.any (·.id = id) = false → id ∉ ids →
      r.unreachable.any (·.id = id) = true →
      Outcome (.markSlaveGone id time)
        ⟨.ok true,
          { r with
            unreachable := r.unreachable.eraseP (·.id = id)
            gone := r.gone ++ [{ id := id, timestamp := time }] }, ids⟩
  | deactivated (o : Operation) (id : SlaveID) (f : Draining → Draining) : Deactivates o id f →
      (changeAgent id f r ids).2 = true →
      Outcome o
        ⟨.ok true,
          { (changeAgent id f r ids).1 with
            minimumCapabilities := addMinimumCapability r.minimumCapabilities agentDraining }, ids⟩
  | drained (id : SlaveID) : (findAgent id r ids).all Draining.isDraining = true →
      Outcome (.markAgentDrained id)
        ⟨.ok (changeAgent id Draining.drained r ids).2, (changeAgent id Draining.drained r ids).1, ids⟩
  | reactivated (id : SlaveID) :
      Outcome (.reactivateAgent id)
        ⟨.ok (Master.reactivated id r).2.1,
          { r with
            slaves := (Master.reactivated id r).1.1
            unreachable := (Master.reactivated id r).1.2
            minimumCapabilities :=
              if (Master.reactivated id r).2.1 && !(Master.reactivated id r).2.2 then
                removeMinimumCapability r.minimumCapabilities agentDraining
              else r.minimumCapabilities }, ids⟩
  | unrelated (o : Operation) (r' : Registry) (mutate : Bool) : o.unrelated = true → r'.slaves = r.slaves →
      r'.unreachable = r.unreachable → r'.gone = r.gone →
      r'.minimumCapabilities.count agentDraining = r.minimumCapabilities.count agentDraining →
      Outcome o ⟨.ok mutate, r', ids⟩

end

/-! ## Each operation -/

variable {rules : Rules} {r : Registry} {ids : Finset SlaveID} {p : Performed} {info : SlaveInfo} {time : Nanoseconds}

theorem admitSlave_outcome (h : admitSlave rules info r ids = some p) : Outcome r ids (.admitSlave info) p := by
  unfold admitSlave at h
  split at h
  · cases h
    exact .refused _ _
  rename_i hid
  split at h
  · cases h
  rename_i info' hd
  cases h
  have hsa := rules.downgrade_id _ _ hd
  rw [hsa]
  exact .admitted info info' hid hsa

theorem updateSlave_outcome (h : updateSlave rules info r ids = some p) : Outcome r ids (.updateSlave info) p := by
  unfold updateSlave at h
  split at h
  · cases h
    exact .refused _ _
  split at h
  · cases h
    exact .refused _ _
  split at h
  · cases h
    exact .kept _
  split at h
  · cases h
  next info' hd =>
    cases h
    exact .updated info info' (rules.downgrade_id _ _ hd)

theorem markSlaveUnreachable_outcome
    (h : markSlaveUnreachable info time r ids = some p) : Outcome r ids (.markSlaveUnreachable info time) p := by
  unfold markSlaveUnreachable at h
  split at h
  · cases h
    exact .refused _ _
  rename_i hid
  split at h
  · cases h
    exact .refused _ _
  next slave hf =>
    cases h
    exact .vanished info time slave (not_not.1 hid) hf

theorem markSlaveReachable_outcome (h : markSlaveReachable rules info r ids = some p) :
    Outcome r ids (.markSlaveReachable info) p := by
  unfold markSlaveReachable at h
  split at h
  · cases h
    exact .kept _
  rename_i hid
  split at h
  · cases h
  · cases h
    exact .returned info hid

theorem prune_outcome {unreachable gone : List SlaveID} (h : prune unreachable gone r ids = some p) :
    Outcome r ids (.prune unreachable gone) p := by
  unfold prune at h
  split at h
  · cases h
  rename_i hu
  split at h
  · cases h
  next hg =>
    cases h
    exact .pruned _ _ _ _ _ _ hu hg

theorem removeSlave_outcome (h : removeSlave info r ids = some p) : Outcome r ids (.removeSlave info) p := by
  unfold removeSlave at h
  split at h
  next hany =>
    cases h
    exact .removed info hany
  · cases h
    exact .refused _ _

variable {id : SlaveID} {f : Draining → Draining}

theorem markSlaveGone_outcome (h : markSlaveGone id time r ids = some p) :
    Outcome r ids (.markSlaveGone id time) p := by
  unfold markSlaveGone at h
  split at h
  · cases h
    exact .refused _ _
  rename_i hg
  have hg : r.gone.any (·.id = id) = false := by simpa using hg
  split at h
  next hid =>
    cases h
    exact .gone id time hg hid
  rename_i hid
  split at h
  next hany =>
    cases h
    exact .goneUnreachable id time hg hid hany
  · cases h
    exact .refused _ _

theorem modifyFirst_eq_self {α : Type} {p : α → Bool} {f : α → α} : ∀ {l : List α}, l.any p = false →
    modifyFirst p f l = l
  | [], _ => rfl
  | a :: l, h => by
    rw [List.any_cons, Bool.or_eq_false_iff] at h
    unfold modifyFirst
    rw [if_neg (by simp [h.1]), modifyFirst_eq_self h.2]

theorem changeAgent_eq_self (h : (changeAgent id f r ids).2 = false) : (changeAgent id f r ids).1 = r := by
  unfold changeAgent at h ⊢
  split at h
  · cases h
  next hid =>
    rw [if_neg hid, modifyFirst_eq_self h]

variable {o : Operation}

theorem deactivates_outcome (ho : Deactivates o id f) (h : (match changeAgent id f r ids with
      | (r, true) =>
        some ⟨.ok true, { r with minimumCapabilities := addMinimumCapability r.minimumCapabilities agentDraining }, ids⟩
      | (r, false) => some ⟨.ok false, r, ids⟩) = some p) : Outcome r ids o p := by
  have hcap : (changeAgent id f r ids).1.minimumCapabilities = r.minimumCapabilities := by
    unfold changeAgent
    split
    · rfl
    · rfl
  have hout := @Outcome.deactivated r ids o id f ho
  have hs := @changeAgent_eq_self r ids id f
  rw [← hcap] at hout
  split at h
  next hr =>
    rw [hr] at hout
    cases h
    exact hout rfl
  next r' hr =>
    rw [hr] at hs
    have hs : r' = r := hs rfl
    cases h
    rw [hs]
    exact .kept _

theorem markAgentDrained_outcome (h : markAgentDrained id r ids = some p) : Outcome r ids (.markAgentDrained id) p := by
  unfold markAgentDrained at h
  split at h
  · cases h
    exact .refused _ _
  rename_i hd
  cases h
  refine .drained id ?_
  cases hf : findAgent id r ids with
  | none => rfl
  | some => simpa [hf] using hd

theorem reactivateAgent_outcome (h : reactivateAgent id r ids = some p) : Outcome r ids (.reactivateAgent id) p := by
  cases h
  exact .reactivated id

theorem count_addMinimumCapability_of_ne {capabilities : List String} {a b : String} (h : a ≠ b) :
    (addMinimumCapability capabilities a).count b = capabilities.count b := by
  unfold addMinimumCapability
  split
  · rfl
  · simp [List.count_append, h]

theorem foldl_applyQuota : ∀ (configs : List QuotaConfig) (r : Registry), ∃ quotas quotaConfigs,
    configs.foldl applyQuota r = { r with quotas := quotas, quotaConfigs := quotaConfigs }
  | [], r => ⟨r.quotas, r.quotaConfigs, rfl⟩
  | c :: configs, r => foldl_applyQuota configs (applyQuota r c)

theorem updateQuota_outcome {configs : List QuotaConfig} (h : updateQuota rules configs r ids = some p) :
    Outcome r ids (.updateQuota configs) p := by
  unfold updateQuota at h
  split at h
  · cases h
    exact .refused _ _
  obtain ⟨_, _, hf⟩ := foldl_applyQuota configs r
  rw [hf] at h
  cases h
  refine .unrelated _ _ _ rfl rfl rfl rfl ?_
  split
  · exact count_addMinimumCapability_of_ne (by decide)
  · exact List.count_erase_of_ne (by decide)

/-- **Every operation has one of the outcomes.** -/
theorem Operation.outcome (h : o.perform rules r ids = some p) : Outcome r ids o p := by
  cases o with
  | recover | updateSchedule | startMaintenance | stopMaintenance | updateWeights =>
    cases h
    exact .unrelated _ _ _ rfl rfl rfl rfl rfl
  | admitSlave => exact admitSlave_outcome h
  | updateSlave => exact updateSlave_outcome h
  | markSlaveUnreachable => exact markSlaveUnreachable_outcome h
  | markSlaveReachable => exact markSlaveReachable_outcome h
  | prune => exact prune_outcome h
  | removeSlave => exact removeSlave_outcome h
  | markSlaveGone => exact markSlaveGone_outcome h
  | drainAgent id maxGracePeriod gone => exact deactivates_outcome (.drain id maxGracePeriod gone) h
  | markAgentDrained => exact markAgentDrained_outcome h
  | deactivateAgent id => exact deactivates_outcome (.deactivate id) h
  | reactivateAgent => exact reactivateAgent_outcome h
  | updateQuota => exact updateQuota_outcome h

/-- **An operation that is refused changes nothing.** -/
theorem Operation.perform_error {message : String} (h : o.perform rules r ids = some p)
    (he : p.result = .error message) : p.registry = r ∧ p.slaveIDs = ids := by
  cases Operation.outcome h with
  | refused => exact ⟨rfl, rfl⟩
  | _ => cases he

end Clusterd.Master
