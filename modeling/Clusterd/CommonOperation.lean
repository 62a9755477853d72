import Clusterd.CommonResource
import Mathlib.Algebra.Order.BigOperators.Group.List
import Mathlib.Data.List.AList
/-! # Offer operations: the conversions they stand for, and applying them to `Resources` -/
namespace Clusterd.Common

open Resources
open Values (Value Range)

inductive Operation
  | unknown
  | launch
  | launchGroup
  | createDisk
  | destroyDisk
  | reserve (resources source : List Resource)
  | unreserve (resources : List Resource)
  | create (volumes : List Resource)
  | destroy (volumes : List Resource)
  | growVolume (volume addition : Resource)
  | shrinkVolume (volume : Resource) (subtract : Int)

inductive ApplyError
  /-- `resources` does not contain `consumed`. -/
  | notContained (resources consumed : Resources)
  /-- Persistent volume cannot be removed due to additional shared copies. -/
  | additionalCopies (volume : Resource)
  /-- Cannot get conversions. -/
  | conversions (message : String)

structure ResourceConversion where
  (consumed converted : Resources)
  postValidation : Option (Resources → Option ApplyError) := none

namespace Resource

/-- The resource a volume is made of: no persistence, no volume, not shared. -/
def stripped (volume : Resource) : Resource :=
  { volume with
    disk := volume.disk.bind fun disk => disk.source.map fun source => { source := some source }
    shared := false }

/-- `scalar()`, which is 0 unless the resource is a scalar. -/
def scalar (r : Resource) : Int :=
  match r.value with
  | .scalar x => x
  | _ => 0

/-- `mutable_scalar()` set to `x`, which matters only to a scalar. -/
def setScalar (r : Resource) (x : Int) : Resource :=
  match r.value with
  | .scalar _ => { r with value := .scalar x }
  | _ => r

end Resource

namespace Resource_

def pop (this : Resource_) : Resource_ :=
  { this with resource := { this.resource with reservations := this.resource.reservations.dropLast } }

end Resource_

namespace Resources

/-- `popReservation`; `none` is the failed check that every entry has a reservation. -/
def popReservation (this : Resources) : Option Resources :=
  if this.any (·.resource.reservations.isEmpty) then none else some (plus [] (this.map Resource_.pop))

end Resources

namespace ResourceConversion

/-- What `getResourceConversions` makes of one resource of an UNRESERVE. -/
def ofUnreserve (reserved : Resource) : Option ResourceConversion := do
  let converted ← (Resources.ofObjects [reserved]).popReservation
  return { consumed := Resources.ofObjects [reserved], converted }

def ofCreate (volume : Resource) : ResourceConversion where
  consumed := Resources.ofObjects [volume.stripped]
  converted := Resources.ofObjects [volume]

def ofDestroy (volume : Resource) : ResourceConversion where
  consumed := Resources.ofObjects [volume]
  converted := Resources.ofObjects [volume.stripped]
  postValidation := some fun resources =>
    if resources.containsObject volume then some (.additionalCopies volume) else none

end ResourceConversion

/-- `getResourceConversions`; `none` is a failed check, an error is its text. -/
def getResourceConversions : Operation → Option (Except String (List ResourceConversion))
  | .unknown => some (.error "Unknown operation")
  | .launch | .launchGroup | .createDisk | .destroyDisk => some (.error "Operation not supported")
  | .reserve resources source =>
    let reserved := Resources.ofObjects resources
    if source ≠ [] then some (.ok [{ consumed := Resources.ofObjects source, converted := reserved }])
    else do
      let consumed ← reserved.popReservation
      return .ok [{ consumed, converted := reserved }]
  | .unreserve resources => do
    let conversions ← resources.mapM ResourceConversion.ofUnreserve
    return .ok conversions
  | .create volumes => some (.ok (volumes.map ResourceConversion.ofCreate))
  | .destroy volumes => some (.ok (volumes.map ResourceConversion.ofDestroy))
  | .growVolume volume addition =>
    if volume.hasResourceProvider then some (.error "Operation not supported for resource provider")
    else some (.ok [{
      consumed := Resources.ofObjects [volume, addition]
      converted := Resources.ofObjects [volume.setScalar (volume.scalar + addition.scalar)] }])
  | .shrinkVolume volume subtract =>
    if volume.hasResourceProvider then some (.error "Operation not supported for resource provider")
    else some (.ok [{
      consumed := Resources.ofObjects [volume]
      converted := Resources.ofObjects [volume.setScalar (volume.scalar - subtract),
        (volume.setScalar subtract).stripped] }])

def ResourceConversion.apply (this : ResourceConversion) (resources : Resources) : Except ApplyError Resources :=
  if !resources.contains this.consumed then .error (.notContained resources this.consumed)
  else
    let result := (resources.minus this.consumed).plus this.converted
    match this.postValidation.bind (· result) with
    | some error => .error error
    | none => .ok result

namespace Resources

/-- `apply` of several conversions, one after the other. -/
def applyAll (this : Resources) : List ResourceConversion → Except ApplyError Resources
  | [] => .ok this
  | conversion :: rest =>
    match conversion.apply this with
    | .error error => .error error
    | .ok result => result.applyAll rest

variable (this : Resources)

/-- `get<Value::Scalar>`. -/
def getScalar (name : String) : Option Int :=
  this.foldl (fun total entry =>
    match entry.resource.value with
    | .scalar x => if entry.resource.name = name then some (total.getD 0 + x) else total
    | _ => total) none

/-- `get<Value::Ranges>`. -/
def getRanges (name : String) : Option (List Range) :=
  this.foldl (fun total entry =>
    match entry.resource.value with
    | .ranges rs => if entry.resource.name = name then some (Values.Ranges.add (total.getD []) rs) else total
    | _ => total) none

section

variable (this : Resources)

def cpus : Option Int := this.getScalar "cpus"

def gpus : Option Int := this.getScalar "gpus"

/-- `mem`, in whole megabytes. -/
def mem : Option Int := (this.getScalar "mem").map (· / 1000)

/-- `disk`, in whole megabytes. -/
def disk : Option Int := (this.getScalar "disk").map (· / 1000)

def ports : Option (List Range) := this.getRanges "ports"

end

/-- `operator==` on ports. -/
def samePorts (left right : Option (List Range)) : Bool :=
  match left, right with
  | none, none => true
  | some l, some r => Values.Ranges.same l r
  | _, _ => false

/-- `apply` of an operation; `none` is a failed check. -/
def apply (operation : Operation) : Option (Except ApplyError Resources) :=
  match getResourceConversions operation with
  | none => none
  | some (.error message) => some (.error (.conversions message))
  | some (.ok conversions) =>
    match this.applyAll conversions with
    | .error error => some (.error error)
    | .ok result =>
      if result.cpus = this.cpus ∧ result.gpus = this.gpus ∧ result.mem = this.mem ∧ result.disk = this.disk ∧
          samePorts result.ports this.ports then some (.ok result)
      else none

end Resources

/-! ## Checkpointed resources -/

namespace Resource

def needCheckpointing (r : Resource) : Bool :=
  !r.hasResourceProvider && (r.isDynamicallyReserved || r.isPersistentVolume)

def staticReservations (r : Resource) : List ReservationInfo :=
  match r.reservations with
  | [] => []
  | reservation :: _ => if reservation.type = .static then [reservation] else []

/-- The agent resource that a checkpointed one is applied to. -/
def unconverted (r : Resource) : Resource :=
  { r with
    reservations := if r.isDynamicallyReserved then r.staticReservations else r.reservations
    disk :=
      if r.isPersistentVolume then r.disk.bind fun disk => disk.source.map fun source => { source := some source }
      else r.disk
    shared := false }

end Resource

inductive CheckpointError
  /-- Unexpected checkpointed resources. -/
  | unexpected (resource : Resource)
  /-- Incompatible agent resources: `totalResources` does not contain `stripped`. -/
  | incompatible (totalResources : Resources) (stripped : Resource)

/-- The body of the loop of `applyCheckpointedResources`. -/
def applyCheckpointedResource (totalResources : Resources) (entry : Resource_) : Except CheckpointError Resources :=
  if !entry.resource.needCheckpointing then .error (.unexpected entry.resource)
  else if !totalResources.containsObject entry.resource.unconverted then
    .error (.incompatible totalResources entry.resource.unconverted)
  else .ok ((totalResources.subtractObject entry.resource.unconverted).addObject entry.resource)

def applyCheckpointedResources (resources checkpointedResources : Resources) : Except CheckpointError Resources :=
  checkpointedResources.foldlM applyCheckpointedResource resources

/-! # Amounts of resources by name -/

/-- `ResourceQuantities`, in thousandths. The vector of the source is the names in some order and the amount of each name:
one that is not listed has none. -/
structure ResourceQuantities where
  names : List String
  get : String → Nat
  listed : ∀ name, get name ≠ 0 → name ∈ names

/-- `scalar()` of an entry, as an amount. -/
def Resource_.amount (this : Resource_) : Nat := this.resource.scalar.toNat

namespace ResourceQuantities

instance : Inhabited ResourceQuantities where
  default := { names := [], get := fun _ => 0, listed := fun _ h => absurd rfl h }

def contains (this right : ResourceQuantities) : Bool :=
  right.names.all fun name => decide (right.get name ≤ this.get name)

instance : Add ResourceQuantities where
  add left right :=
    { names := left.names ++ right.names
      get := fun name => left.get name + right.get name
      listed := fun name h => by
        by_cases hleft : left.get name = 0
        · exact List.mem_append_right _ (right.listed name (by omega))
        · exact List.mem_append_left _ (left.listed name hleft) }

/-- `operator-`, which drops what would be negative. -/
instance : Sub ResourceQuantities where
  sub left right :=
    { names := left.names
      get := fun name => left.get name - right.get name
      listed := fun name h => left.listed name (by omega) }

section
variable (left right : ResourceQuantities) (name : String)

@[simp] theorem get_add : (left + right).get name = left.get name + right.get name := rfl

@[simp] theorem get_sub : (left - right).get name = left.get name - right.get name := rfl

end

theorem get_le_of_contains {this right : ResourceQuantities} (h : this.contains right = true) (name : String) :
    right.get name ≤ this.get name := by
  by_cases hz : right.get name = 0
  · omega
  · exact of_decide_eq_true (List.all_eq_true.mp h name (right.listed name hz))

/-- `fromScalarResources`: the amounts of the entries, each under its name. -/
def fromScalarResources (resources : Resources) : ResourceQuantities where
  names := resources.map (·.resource.name)
  get name := (resources.map fun entry => if entry.resource.name = name then entry.amount else 0).sum
  listed name h := by
    by_contra hmem
    refine h (List.sum_eq_zero fun x hx => ?_)
    obtain ⟨entry, hentry, rfl⟩ := List.mem_map.mp hx
    exact if_neg fun hname => hmem (List.mem_map.mpr ⟨entry, hentry, hname⟩)

end ResourceQuantities

namespace Resources

/-! ## Filters -/

variable (this : Resources)

def scalars : Resources := this.filter (·.value.type == .scalar)

def shared : Resources := this.filter (·.shared)

def nonShared : Resources := this.filter (!·.shared)

end Resources

end Clusterd.Common
