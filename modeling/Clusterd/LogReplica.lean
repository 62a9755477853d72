import Clusterd.LogMessages
import Clusterd.Table
import Mathlib.Order.Interval.Finset.Nat
/-!
# The storage of one replica (`log/leveldb.cpp`)

The database holds one header record (the metadata, or the deprecated promise of an old replica) and a record for each position,
iterated in position order.  `persist` deletes what a learned truncation makes unreachable, from the cached first position on;
`restore` reads the records back.  Every database operation succeeds.
-/
namespace Clusterd.Log

open Finset

inductive Header where
  | promise (proposal : Nat)
  | metadata (metadata : Metadata)
  deriving DecidableEq, Repr

structure LevelDb where
  header : Option Header := none
  actions : List Action := []
  first : Option Nat := none
  deriving DecidableEq, Repr

namespace LevelDb

def minFirst (first : Option Nat) (position : Nat) : Option Nat :=
  match first with
  | none => some position
  | some f => some (min f position)

variable (db : LevelDb)

def persistMetadata (metadata : Metadata) : LevelDb :=
  { db with header := some (.metadata metadata) }

/-- A tombstone is kept: only what stands before it is deleted, so that `restore` sees it. -/
def truncateTo (a : Action) : Option Nat :=
  match a.learned, a.value with
  | true, some (.truncate target) => some target
  | true, some (.nop true) => some a.position
  | _, _ => none

def batch (first truncateTo : Nat) : List Nat := List.range' first (truncateTo - first)

def deleteTo (target : Nat) : LevelDb :=
  match db.first with
  | none => db
  | some f =>
    if f < target then
      { db with actions := Table.eraseAll Action.position (batch f target) db.actions, first := some target }
    else db

def put (db : LevelDb) (a : Action) : LevelDb :=
  { db with actions := Table.put Action.position a db.actions, first := minFirst db.first a.position }

def persist (a : Action) : LevelDb :=
  match truncateTo a with
  | none => db.put a
  | some target => (db.put a).deleteTo target

def read (position : Nat) : Except String Action :=
  match Table.get? Action.position position db.actions with
  | none => .error "NotFound: "
  | some a => .ok a

structure State where
  metadata : Metadata := {}
  beginning : Nat := 0
  ending : Nat := 0
  learned : Finset Nat := ∅
  unlearned : Finset Nat := ∅
  deriving DecidableEq

def restoreHeader : Option Header → Metadata
  | none => {}
  | some (.promise n) => { status := .voting, promised := n }
  | some (.metadata m) => m

def restoreAction (st : State) (a : Action) : State :=
  let st :=
    if a.learned then
      { st with
        learned := insert a.position st.learned
        unlearned := st.unlearned.erase a.position
        beginning :=
          match a.value with
          | some (.truncate target) => max st.beginning target
          | some (.nop true) => max st.beginning (a.position + 1)
          | _ => st.beginning }
    else
      { st with
        learned := st.learned.erase a.position
        unlearned := insert a.position st.unlearned }
  { st with ending := max st.ending a.position }

def restore : State × LevelDb :=
  (db.actions.foldl restoreAction { metadata := restoreHeader db.header },
   { db with first := db.actions.foldl (fun f a => minFirst f a.position) none })

end LevelDb

/-!
# One replica (`log/replica.cpp`)

The replica's cached state and its handlers, over the storage.  A handler returns the replica after the
message and the reply it sends, if any: a request on a truncated position, and a write on a learned one, get none.
-/

structure Replica where
  storage : LevelDb
  metadata : Metadata
  (beginning ending : Nat)
  (holes unlearned : Finset Nat)
  deriving DecidableEq

namespace Replica

/-- A hole is a position of the log that no record holds; the position `0` of a brand new log is one. -/
def restore (storage : LevelDb) : Replica :=
  let (st, storage) := storage.restore
  { storage := storage
    metadata := st.metadata
    beginning := st.beginning
    ending := st.ending
    holes := (Finset.Icc st.beginning st.ending \ st.learned) \ st.unlearned
    unlearned := st.unlearned }

section

variable (r : Replica)

def status : Status := r.metadata.status

def promised : Nat := r.metadata.promised

def read (r : Replica) (position : Nat) : Except String (Option Action) :=
  if position < r.beginning then .error "Attempted to read truncated position"
  else if r.ending < position then .ok none
  else if position ∈ r.holes then .ok none
  else
    match r.storage.read position with
    | .error e => .error e
    | .ok a => .ok (some a)

def missing (position : Nat) : Bool :=
  if position < r.beginning then false
  else if r.ending < position then true
  else decide (position ∈ r.unlearned) || decide (position ∈ r.holes)

/-- The missing positions within `[from, to]`. -/
def missingIn (lower upper : Nat) : Finset Nat :=
  if upper < lower then ∅
  else
    let positions := r.unlearned ∪ r.holes
    let positions := if r.ending < upper then positions ∪ Finset.Ioc r.ending upper else positions
    positions ∩ Finset.Icc lower upper

def update (status : Status) : Replica :=
  { r with
    storage := r.storage.persistMetadata { status := status, promised := r.promised }
    metadata := { r.metadata with status := status } }

def updatePromised (promised : Nat) : Replica :=
  { r with
    storage := r.storage.persistMetadata { status := r.status, promised := promised }
    metadata := { r.metadata with promised := promised } }

def persist (a : Action) : Replica :=
  let holes := r.holes.erase a.position
  let (holes, unlearned, beginning) :=
    if a.learned then
      let unlearned := r.unlearned.erase a.position
      match a.value with
      | some (.truncate target) =>
        (holes \ Finset.Ioo 0 target, unlearned \ Finset.Ioo 0 target, max r.beginning target)
      | some (.nop true) =>
        (holes \ Finset.Ioo 0 a.position, unlearned \ Finset.Ioo 0 a.position, max r.beginning (a.position + 1))
      | _ => (holes, unlearned, r.beginning)
    else (holes, insert a.position r.unlearned, r.beginning)
  { r with
    storage := r.storage.persist a
    holes := if r.ending < a.position then holes ∪ Finset.Ioo r.ending a.position else holes
    unlearned := unlearned
    beginning := beginning
    ending := max r.ending a.position }

/-- The learned no-op that stands for a truncated position. -/
def tombstone (position : Nat) : Action :=
  { position := position
    promised := r.promised
    performed := some r.promised
    learned := true
    value := some (.nop true) }

def promise (request : PromiseRequest) : Replica × Option PromiseResponse :=
  if r.status ≠ .voting then
    (r, some { type := some .ignored, okay := false, proposal := request.proposal })
  else
    match request.position with
    | some position =>
      if position < r.beginning then
        (r, some
          { type := some .accept, okay := true, proposal := request.proposal, action := some (r.tombstone position) })
      else
        match r.read position with
        | .error _ => (r, none)
        | .ok none =>
          if request.proposal ≤ r.promised then
            (r, some { type := some .reject, okay := false, proposal := r.promised })
          else
            (r.persist { position := position, promised := request.proposal }, some
              { type := some .accept, okay := true, proposal := request.proposal, position := some position })
        | .ok (some action) =>
          if request.proposal ≤ action.promised then
            (r, some { type := some .reject, okay := false, proposal := action.promised })
          else
            (r.persist { action with promised := request.proposal }, some
              { type := some .accept, okay := true, proposal := request.proposal, action := some action })
    | none =>
      if request.proposal ≤ r.promised then
        (r, some { type := some .reject, okay := false, proposal := r.promised })
      else
        (r.updatePromised request.proposal, some
          { type := some .accept, okay := true, proposal := request.proposal, position := some r.ending })

/-- The payload a write stores: a `NOP` is stored without its tombstone. -/
def writtenValue : Value → Value
  | .nop _ => .nop false
  | v => v

def write (request : WriteRequest) : Replica × Option WriteResponse :=
  if r.status ≠ .voting then
    (r, some
      { type := some .ignored, okay := false, proposal := request.proposal, position := request.position })
  else
    match r.read request.position with
    | .error _ => (r, none)
    | .ok none =>
      if request.proposal < r.promised then
        (r, some { type := some .reject, okay := false, proposal := r.promised, position := request.position })
      else
        -- the promise recorded here is the replica's, not the request's
        (r.persist
          { position := request.position
            promised := r.promised
            performed := some request.proposal
            learned := request.learned
            value := some (writtenValue request.value) }, some
          { type := some .accept, okay := true, proposal := request.proposal, position := request.position })
    | .ok (some action) =>
      if request.proposal < action.promised then
        (r, some { type := some .reject, okay := false, proposal := action.promised, position := request.position })
      else if action.learned then (r, none)
      else
        (r.persist
          { action with
            performed := some request.proposal
            learned := request.learned
            value := some (writtenValue request.value) }, some
          { type := some .accept, okay := true, proposal := request.proposal, position := request.position })

def recover : RecoverResponse :=
  if r.status = .voting then
    { status := r.status, beginning := some r.beginning, ending := some r.ending }
  else { status := r.status }

end

def learned (r : Replica) (a : Action) : Replica := if a.learned then r.persist a else r

end Replica

end Clusterd.Log
