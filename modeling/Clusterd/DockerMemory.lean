import Clusterd.Run
import Mathlib.Data.Rat.Floor
/-!
# Memory updates of a Docker container (cgroups v2)

`update` records the resources it is given, inspects the container and then writes `memory.low` and `memory.max`.  An update
with the recorded resources is ignored unless forced, so one that has failed is not made up for by repeating it; and an update
whose inspection outlasts that of a later one overwrites what the later one wrote.
-/
namespace Clusterd.DockerMemory

open List

/-- `convertToFixed`: scalars are compared by their thousandths. -/
def convertToFixed (value : ℚ) : Int := (value * 1000 + 1 / 2).floor

/-- In MiB. -/
inductive Limit
  | infinite
  | finite (value : ℚ)
deriving DecidableEq

def Limit.toFixed : Limit → Option Int
  | infinite => none
  | finite value => some (convertToFixed value)

/-- The arguments of `update`: the requests and the limits.  What else there is only matters for whether they are the same. -/
structure Call where
  cpus : Option ℚ := none
  mem : Option ℚ := none
  cpusLimit : Option Limit := none
  memLimit : Option Limit := none
  rest : String := ""
deriving DecidableEq

/-- `Megabytes(static_cast<uint64_t>(value))`.  The bytes are a `uint64_t`. -/
def megabytes (value : ℚ) : Nat := value.floor.toNat * 1048576 % 2 ^ 64

def minMemory : Nat := megabytes 32

namespace Call

/-- The comparison of the requests and of the limits. -/
def same (this that : Call) : Bool :=
  this.cpus.map convertToFixed = that.cpus.map convertToFixed && this.mem.map convertToFixed = that.mem.map convertToFixed &&
    this.cpusLimit.map Limit.toFixed = that.cpusLimit.map Limit.toFixed &&
    this.memLimit.map Limit.toFixed = that.memLimit.map Limit.toFixed && this.rest = that.rest

/-- What is written to `memory.low`; the request is the sum of the scalars, in thousandths. -/
def low (this : Call) : Option Nat := this.mem.map fun value => max (megabytes (convertToFixed value / 1000)) minMemory

/-- What is written to `memory.max`; `none` is `max`. -/
def max (this : Call) : Option Nat :=
  match this.memLimit with
  | some (.finite value) => some (Max.max (megabytes value) minMemory)
  | some .infinite => none
  | none => this.low

def namesMemory (this : Call) : Bool := this.mem.isSome || this.memLimit.isSome

end Call

/-- The container: the recorded resources, the control files and the updates whose inspection is not over, the oldest first.
For specification: the last call, and whether it has succeeded if it is over. -/
structure World where
  recorded : Call
  low : Nat
  max : Option Nat
  pending : List Call := []
  last : Option (Call × Option Bool) := none

/-- What becomes of an update: of its inspection, of the search for the cgroup, and of the two writes. -/
structure Outcome where
  inspected : Bool := true
  path : Bool := true
  setLow : Bool := true
  setMax : Bool := true

inductive Event
  | update (call : Call) (force : Bool)
  | inspected (index : Nat) (outcome : Outcome)

namespace World

section

variable (this : World)

def update (call : Call) (force : Bool) : World :=
  if this.recorded.same call && !force then { this with last := some (call, some true) }
  else if call.cpus.isNone && call.mem.isNone && call.cpusLimit.isNone && call.memLimit.isNone then
    { this with recorded := call, last := some (call, some true) }
  else { this with recorded := call, pending := this.pending ++ [call], last := some (call, none) }

/-- `_update` on a host with cgroups v2, and whether it succeeds. -/
def update_ (call : Call) (outcome : Outcome) : World × Bool :=
  if !outcome.inspected then (this, false)
  else if !call.namesMemory then (this, true)
  else if !outcome.path then (this, false)
  else if call.mem.isSome && !outcome.setLow then (this, false)
  else
    let this := { this with low := call.low.getD this.low }
    if outcome.setMax then ({ this with max := call.max }, true) else (this, false)

def step : Event → World
  | .update call force => this.update call force
  | .inspected index outcome =>
    match this.pending[index]? with
    | none => this
    | some call =>
      let (after, success) := this.update_ call outcome
      { after with
        pending := this.pending.eraseIdx index
        -- The last call is the youngest, if it is pending.
        last := this.last.map fun (last, result) =>
          (last, if result.isNone && index + 1 = this.pending.length then some success else result) }

/-- The control files have the values of the call. -/
def Holds (call : Call) : Prop := this.max = call.max ∧ ∀ low ∈ call.low, this.low = low

/-- **The last update wins.** -/
def LastWins : Prop :=
  ∀ call, this.last = some (call, some true) → this.pending = [] → call.namesMemory = true → this.Holds call

/-- An update with the recorded resources is forced or comes when its values are in the control files and nothing is pending,
and the inspection of an update succeeds only when those of the earlier ones are over. -/
def Meets : Event → Prop
  | .update call force =>
    (this.recorded.same call && !force) = true → call.namesMemory = true → this.pending = [] ∧ this.Holds call
  | .inspected index outcome => outcome.inspected = true → index = 0

end

structure Sound (this : World) : Prop where
  wins : ∀ call, this.last = some (call, some true) → call.namesMemory = true → this.pending = [] ∧ this.Holds call
  pending : ∀ call, this.last = some (call, none) → this.pending.getLast? = some call

variable {this : World} {call : Call}

/-- **What a successful `_update` leaves**: the values of its call. -/
theorem holds_update_ {outcome : Outcome} (hs : (this.update_ call outcome).2 = true)
    (hc : call.namesMemory = true) : (this.update_ call outcome).1.Holds call := by
  unfold update_ at hs ⊢
  split_ifs at hs ⊢
  all_goals simp_all [Holds]

theorem getLast?_eraseIdx_of_ne {calls : List Call} {index : Nat} (hl : index < calls.length)
    (hn : index + 1 ≠ calls.length) : (calls.eraseIdx index).getLast? = calls.getLast? := by
  rw [getLast?_eq_getElem?, getLast?_eq_getElem?, length_eraseIdx_of_lt hl, getElem?_eraseIdx,
    if_neg (by omega)]
  congr 1
  omega

theorem sound_update {force : Bool} (hm : this.Meets (.update call force)) : (this.update call force).Sound := by
  unfold World.update
  split_ifs with he hn
  · exact ⟨fun _ hl hc => by cases hl; exact hm he hc, nofun⟩
  · refine ⟨fun _ hl _ => ?_, nofun⟩
    cases hl
    simp_all [Call.namesMemory]
  · exact ⟨nofun, fun _ hl => by cases hl; exact getLast?_concat⟩

theorem Sound.step (h : this.Sound) {event : Event} (hm : this.Meets event) : (this.step event).Sound := by
  cases event with
  | update => exact sound_update hm
  | inspected index outcome =>
    rw [World.step]
    cases hp : this.pending[index]? with
    | none => exact h
    | some call =>
      obtain ⟨hlt, _⟩ := List.getElem?_eq_some_iff.1 hp
      cases hl : this.last with
      | none => exact ⟨nofun, nofun⟩
      | some last =>
        obtain ⟨last, result⟩ := last
        cases result with
        | some =>
          refine ⟨fun _ hw hc => ?_, nofun⟩
          cases hw
          -- Nothing is pending after a last call that has succeeded.
          have hnil := (h.wins _ hl hc).1
          simp [hnil] at hlt
        | none =>
          have hla := h.pending _ hl
          by_cases hi : index + 1 = this.pending.length
          · have hca : call = last := by
              rw [getLast?_eq_getElem?, ← hi, Nat.add_sub_cancel, hp] at hla
              exact Option.some.inj hla
            subst hca
            refine ⟨fun _ hw hc => ?_, fun _ hw => ?_⟩
            · simp [hi] at hw
              obtain ⟨rfl, hs⟩ := hw
              have hre : outcome.inspected = true := by
                by_contra hn
                rw [Bool.not_eq_true] at hn
                simp [update_, hn] at hs
              have hze := hm hre
              refine ⟨eq_nil_of_length_eq_zero ?_, holds_update_ hs hc⟩
              simp only [length_eraseIdx_of_lt hlt]
              omega
            · simp [hi] at hw
          · refine ⟨fun _ hw => ?_, fun _ hw => ?_⟩
            · simp [hi] at hw
            · simp [hi] at hw
              cases hw
              exact (getLast?_eraseIdx_of_ne hlt hi).trans hla

end World

end Clusterd.DockerMemory
