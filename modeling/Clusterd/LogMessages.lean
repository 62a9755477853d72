import Mathlib.Data.Finset.Basic
/-!
# The replicated log's records and messages

`messages/log.proto`.  An `Action`'s type and its payload travel together in the source (`type` with `nop`, `append` or
`truncate`), and are one `Value` here; an optional flag is read only as "set and true", and is a `Bool`.
-/
namespace Clusterd.Log

abbrev Bytes := List UInt8

/-- What an action does: `NOP`, `APPEND` or `TRUNCATE`, with its payload.  A tombstone `NOP` marks a truncated
position; a `TRUNCATE` is exclusive of its target. -/
inductive Value where
  | nop (tombstone : Bool)
  | append (bytes : Bytes)
  | truncate (target : Nat)
  deriving DecidableEq, Repr

structure Action where
  (position promised : Nat)
  performed : Option Nat := none
  learned : Bool := false
  value : Option Value := none
  deriving DecidableEq, Repr

inductive Status where
  | voting
  | recovering
  | starting
  | empty
  deriving DecidableEq, Repr

structure Metadata where
  status : Status := .empty
  promised : Nat := 0
  deriving DecidableEq, Repr

inductive ResponseType where
  | accept
  | reject
  | ignored
  deriving DecidableEq, Repr

/-- Explicit when it names a position, implicit otherwise. -/
structure PromiseRequest where
  proposal : Nat
  position : Option Nat := none
  deriving DecidableEq, Repr

structure PromiseResponse where
  okay : Bool := false
  type : Option ResponseType := none
  proposal : Nat := 0
  position : Option Nat := none
  action : Option Action := none
  deriving DecidableEq, Repr

structure WriteRequest where
  (proposal position : Nat)
  learned : Bool := false
  value : Value
  deriving DecidableEq, Repr

structure WriteResponse where
  okay : Bool := false
  type : Option ResponseType := none
  proposal : Nat := 0
  position : Nat := 0
  deriving DecidableEq, Repr

structure RecoverResponse where
  status : Status
  beginning : Option Nat := none
  ending : Option Nat := none
  deriving DecidableEq, Repr

/-- What the action truncates the log to once it is learned: the target of a `TRUNCATE`, the position after a
tombstone, and nothing (`0`) otherwise. -/
def Action.truncatesTo (a : Action) : Nat :=
  match a.learned, a.value with
  | true, some (.truncate target) => target
  | true, some (.nop true) => a.position + 1
  | _, _ => 0

end Clusterd.Log
