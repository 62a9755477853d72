import Clusterd.LogMessages
import Mathlib.Data.List.AList
/-!
# State kept in the log (`state/log.cpp`)

`LogStorageProcess`: every entry is kept as a snapshot in the log and the diffs after it, and cached in memory.  The
continuations of `set`, `expunge` and `truncate` are the functions here; when they run, and what the log does meanwhile, is up
to the caller.  The log is the list of the appended operations and the positions where it begins and ends.
-/
namespace Clusterd.State

open Log (Bytes)

abbrev UUID := BitVec 128

structure Entry where
  name : String
  uuid : UUID
  value : Bytes
  deriving DecidableEq

/-- What is appended to the log: a diff is the entry after it, with the diff as its value. -/
inductive Operation where
  | snapshot (entry : Entry)
  | diff (entry : Entry)
  | expunge (name : String)
  deriving DecidableEq

def Operation.name : Operation → String
  | .snapshot entry => entry.name
  | .diff entry => entry.name
  | .expunge name => name

structure Svn where
  (diff patch : Bytes → Bytes → Except String Bytes)
  patch_diff : ∀ a b d, diff a b = .ok d → patch a d = .ok b

/-- How a process stops working: a `CHECK` aborts it, a failure makes the future of its `start` fail. -/
inductive Fault where
  | check
  | failure (message : String)
  deriving DecidableEq

structure Snapshot where
  position : Nat
  entry : Entry
  diffs : Nat := 0
  deriving DecidableEq

def Snapshot.patch (svn : Svn) (s : Snapshot) (diff : Entry) : Except String Snapshot :=
  if diff.name ≠ s.entry.name then .error "Attempted to patch the wrong snapshot"
  else
    match svn.patch s.entry.value diff.value with
    | .error e => .error e
    | .ok patched => .ok { position := s.position, entry := { diff with value := patched }, diffs := s.diffs + 1 }

structure LogEntry where
  position : Nat
  operation : Operation
  deriving DecidableEq

/-! ## The log -/

/-- The entries ever appended, and the positions where the log begins and ends.  Positions without an entry hold no-ops
and truncations. -/
structure SharedLog where
  entries : List LogEntry := []
  beginning : Nat := 0
  ending : Nat := 0
  deriving DecidableEq

namespace SharedLog

variable (log : SharedLog)

/-- The position of the next record, after `gap` positions that hold no entry. -/
def next (gap : Nat) : Nat := log.ending + gap + 1

def append (gap : Nat) (operation : Operation) : SharedLog :=
  { log with
    entries := log.entries ++ [{ position := log.next gap, operation := operation }]
    ending := log.next gap }

def truncate (gap : Nat) (target : Nat) : SharedLog :=
  { log with beginning := max log.beginning target, ending := log.next gap }

def read (first last : Nat) : List LogEntry :=
  log.entries.filter fun e => decide (first ≤ e.position) && decide (e.position ≤ last)

end SharedLog

/-! ## The process -/

abbrev Snapshots := AList (fun _ : String => Snapshot)

structure LogStorage where
  /-- The last position read or written. -/
  index : Option Nat := none
  /-- The position up to which the log was last truncated. -/
  truncated : Option Nat := none
  snapshots : Snapshots := ∅

def Snapshots.apply (svn : Svn) (snapshots : Snapshots) (e : LogEntry) : Except Fault Snapshots :=
  match e.operation with
  | .snapshot entry => .ok (snapshots.insert entry.name { position := e.position, entry := entry })
  | .diff entry =>
    match snapshots.lookup entry.name with
    | none => .error .check
    | some snapshot =>
      match snapshot.patch svn entry with
      | .error error => .error (.failure ("Failed to apply the diff: " ++ error))
      | .ok patched => .ok (snapshots.insert patched.entry.name patched)
  | .expunge name => .ok (snapshots.erase name)

inductive SetStep where
  | refused
  | failed (message : String)
  | append (operation : Operation) (diffs : Nat)

namespace LogStorage

def raise : Option Nat → Nat → Option Nat
  | none, n => some n
  | some m, n => some (max m n)

variable (s : LogStorage)

def put (snapshot : Snapshot) : LogStorage :=
  { s with snapshots := s.snapshots.insert snapshot.entry.name snapshot }

/-- One entry of `apply`: only entries past the index are applied. -/
def applyEntry (svn : Svn) (s : LogStorage) (e : LogEntry) : Except Fault LogStorage :=
  if s.index.all (· < e.position) then
    match Snapshots.apply svn s.snapshots e with
    | .error fault => .error fault
    | .ok snapshots => .ok { s with snapshots := snapshots, index := some e.position }
  else .ok s

def apply (svn : Svn) : LogStorage → List LogEntry → LogStorage × Option Fault
  | s, [] => (s, none)
  | s, e :: es =>
    match s.applyEntry svn e with
    | .error fault => (s, some fault)
    | .ok s => apply svn s es

/-- The first `start` of a process: `__start` reads the log from its beginning. -/
def start (svn : Svn) (log : SharedLog) : LogStorage × Option Fault :=
  apply svn { truncated := some log.beginning } (log.read log.beginning log.ending)

/-- `__set`: the version is checked, and a diff is written if it may be and is the smaller one. -/
def set (svn : Svn) (diffsBetweenSnapshots : Nat) (s : LogStorage) (entry : Entry) (uuid : UUID) : SetStep :=
  match s.snapshots.lookup entry.name with
  | none => .append (.snapshot entry) 0
  | some snapshot =>
    if snapshot.entry.uuid ≠ uuid then .refused
    else if snapshot.diffs < diffsBetweenSnapshots then
      match svn.diff snapshot.entry.value entry.value with
      | .error error => .failed ("Failed to construct diff: " ++ error)
      | .ok diff =>
        if diff.length < entry.value.length then .append (.diff { entry with value := diff }) (snapshot.diffs + 1)
        else .append (.snapshot entry) 0
    else .append (.snapshot entry) 0

/-- `___set`, when the operation was appended at the position. -/
def setAppended (entry : Entry) (diffs position : Nat) : Except Fault LogStorage :=
  let s := { s with index := raise s.index position }
  if 0 < diffs then
    match s.snapshots.lookup entry.name with
    | none => .error .check
    | some old => .ok (s.put { position := old.position, entry := entry, diffs := diffs })
  else .ok (s.put { position := position, entry := entry, diffs := diffs })

/-- `__expunge`: nothing is appended unless the version is the one to be expunged. -/
def expunge (entry : Entry) : Option Operation :=
  match s.snapshots.lookup entry.name with
  | none => none
  | some snapshot => if snapshot.entry.uuid ≠ entry.uuid then none else some (.expunge entry.name)

/-- `___expunge`, when the operation was appended; the index stays where it is. -/
def expungeAppended (entry : Entry) : Except Fault LogStorage :=
  match s.snapshots.lookup entry.name with
  | none => .error .check
  | some _ => .ok { s with snapshots := s.snapshots.erase entry.name }

def minimum : Option Nat :=
  s.snapshots.entries.foldl (fun m x => some (m.elim x.2.position (min x.2.position))) none

/-- `_truncate`: the position to truncate to, if that is further than before. -/
def truncate : Except Fault (Option Nat) :=
  match s.truncated with
  | none => .error .check
  | some truncated => .ok (s.minimum.filter (truncated < ·))

/-- `__truncate`, when the truncation was written at the position. -/
def truncateAppended (minimum position : Nat) : LogStorage :=
  { s with truncated := raise s.truncated minimum, index := raise s.index position }

end LogStorage

inductive Call where
  | set (entry : Entry) (uuid : UUID)
  | expunge (entry : Entry)
  deriving DecidableEq

/-!
# Processes that share the log (`state/log.cpp`)

Several `LogStorageProcess`es, each with a writer of one log, and the log as its writers document it: one of them at most holds
the promise to write, a record is written only for the holder, and who is elected learns where the log ends.  Every continuation
is a step of its own, so that the steps of one process come between those of another, and between its own futures.
-/

inductive Job where
  | update (call : Call)
  | truncate
  deriving DecidableEq

/-- What the future `starting` waits for: the election, `_start` with the position it gave, the beginning of the log, the
entries that are read. -/
inductive Starting where
  | electing
  | elected (position : Nat)
  | finding (position : Nat)
  | reading (first last : Nat)
  | started
  | failed
  deriving DecidableEq

/-- What the job that has the mutex waits for: its turn, `start`, or the writer, whose request has `landed` when it is in the
log. -/
inductive Working where
  | idle
  | locked (job : Job)
  | waiting (call : Call)
  | appending (call : Call) (operation : Operation) (diffs : Nat) (landed : Option Nat)
  | truncating (minimum : Nat) (landed : Option Nat)
  deriving DecidableEq

structure Process where
  storage : LogStorage := {}
  starting : Option Starting := none
  working : Working := .idle
  queue : List Job := []

/-- `__set` and `__expunge`. -/
def LogStorage.prepare (svn : Svn) (diffsBetweenSnapshots : Nat) (s : LogStorage) : Call → SetStep
  | .set entry uuid => s.set svn diffsBetweenSnapshots entry uuid
  | .expunge entry =>
    match s.expunge entry with
    | none => .refused
    | some operation => .append operation 0

/-- `___set` and `___expunge`, when the operation was appended at the position. -/
def LogStorage.appended (s : LogStorage) (diffs position : Nat) : Call → Except Fault LogStorage
  | .set entry _ => s.setAppended entry diffs position
  | .expunge entry => s.expungeAppended entry

namespace Process

variable (p : Process)

def start : Process :=
  match p.starting with
  | none => { p with starting := some .electing }
  | some _ => p

def call (c : Call) : Process := { p with queue := p.queue ++ [.update c] }

def lock : Process :=
  match p.working, p.queue with
  | .idle, job :: queue => { p with working := .locked job, queue := queue }
  | _, _ => p

/-- `_set` and `_expunge` wait for `start`; `_truncate` does not. -/
def enter : Option Process :=
  match p.working with
  | .locked (.update c) => some { p.start with working := .waiting c }
  | .locked .truncate =>
    match p.storage.truncate with
    | .error _ => none
    | .ok none => some { p with working := .idle }
    | .ok (some minimum) => some { p with working := .truncating minimum none }
  | _ => some p

/-- `__set` and `__expunge`, once `start` is done; if it failed the call fails. -/
def proceed (svn : Svn) (diffsBetweenSnapshots : Nat) (p : Process) : Process :=
  match p.working, p.starting with
  | .waiting c, some .started =>
    match p.storage.prepare svn diffsBetweenSnapshots c with
    | .append operation diffs => { p with working := .appending c operation diffs none }
    | _ => { p with working := .idle }
  | .waiting _, some .failed => { p with working := .idle }
  | _, _ => p

/-- `_start`, when the writer was elected. -/
def elected : Option Process :=
  match p.starting with
  | some (.elected position) =>
    match p.storage.index with
    | some index =>
      if p.storage.truncated.isSome then some { p with starting := some (.reading index position) } else none
    | none => some { p with starting := some (.finding position) }
  | _ => some p

/-- `_start`, when the writer was not elected: `start` is tried again. -/
def refused : Process :=
  match p.starting with
  | some .electing => start { p with starting := none }
  | _ => p

/-- `__start`; the beginning is that of the local replica, which may be out of date. -/
def found (log : SharedLog) (beginning : Nat) (p : Process) : Process :=
  match p.starting with
  | some (.finding position) =>
    if beginning ≤ log.beginning then
      { p with
        storage := { p.storage with truncated := some beginning }
        starting := some (.reading beginning position) }
    else p
  | _ => p

/-- `apply` of the entries read. -/
def applied (svn : Svn) (log : SharedLog) (p : Process) : Option Process :=
  match p.starting with
  | some (.reading first last) =>
    match p.storage.apply svn (log.read first last) with
    | (storage, none) => some { p with storage := storage, starting := some .started }
    | (storage, some (.failure _)) => some { p with storage := storage, starting := some .failed }
    | (_, some .check) => none
  | _ => some p

/-- A future that `start` waits for fails. -/
def fail : Process :=
  match p.starting with
  | some .electing | some (.finding _) | some (.reading _ _) => { p with starting := some .failed }
  | _ => p

end Process

/-! ## All of them -/

/-- What the writer answers.  After a failure it writes nothing until it is started again. -/
inductive Answer where
  | position
  | none
  | failure
  deriving DecidableEq

/-- The log, who holds the promise to write, the processes (`none` for one that has aborted), and the calls that returned
true with the positions of their records. -/
structure World (ι : Type) where
  log : SharedLog := {}
  holder : Option ι := none
  processes : ι → Option Process
  acknowledged : List (Call × Nat) := []

/-- The log takes `promise`, `land` and `demote` steps: a writer is elected, a request is written, the promise is lost.
Everything else is a step of a process. -/
inductive Event (ι : Type) where
  | get (i : ι)
  | call (i : ι) (c : Call)
  | lock (i : ι)
  | enter (i : ι)
  | proceed (i : ι)
  | promise (i : ι)
  | elected (i : ι)
  | refused (i : ι)
  | found (i : ι) (beginning : Nat)
  | applied (i : ι)
  | fail (i : ι)
  | land (i : ι) (gap : Nat)
  | reply (i : ι) (answer : Answer)
  | demote
  | restart (i : ι)

namespace World

variable {ι : Type} [DecidableEq ι]

section

variable (w : World ι) (i : ι)

def holds : Bool := decide (w.holder = some i)

def put (p : Option Process) : World ι := { w with processes := Function.update w.processes i p }

def lose : World ι := { w with holder := if w.holder = some i then none else w.holder }

def update (f : Process → Option Process) : World ι :=
  match w.processes i with
  | none => w
  | some p => w.put i (f p)

def promise : World ι :=
  match w.processes i with
  | none => w
  | some p =>
    match p.starting with
    | some .electing => { w.put i (some { p with starting := some (.elected w.log.ending) }) with holder := some i }
    | _ => w

/-- A request is written if its process holds the promise by now, whether or not it did when the request was sent: the
coordinator looks at its state when it comes to the request. -/
def land (gap : Nat) : World ι :=
  match w.processes i with
  | none => w
  | some p =>
    if w.holder = some i then
      match p.working with
      | .appending c operation diffs none =>
        { w.put i (some { p with working := .appending c operation diffs (some (w.log.next gap)) }) with
          log := w.log.append gap operation }
      | .truncating minimum none =>
        { w.put i (some { p with working := .truncating minimum (some (w.log.next gap)) }) with
          log := w.log.truncate gap minimum }
      | _ => w
    else w

/-- `___set`, `___expunge` and `__truncate`.  If an append is not answered with a position the promise is lost, whether or
not the record was written; a truncation may have been refused before the writer was elected. -/
def reply (answer : Answer) : World ι :=
  match w.processes i with
  | none => w
  | some p =>
    match p.working, answer with
    | .appending c _ diffs (some position), .position =>
      match p.storage.appended diffs position c with
      | .error _ => w.put i none
      | .ok storage =>
        { w.put i (some { p with storage := storage, working := .idle, queue := p.queue ++ [.truncate] }) with
          acknowledged := w.acknowledged ++ [(c, position)] }
    | .appending .., .none => (w.lose i).put i (some { p with starting := none, working := .idle })
    | .appending .., .failure => (w.lose i).put i (some { p with working := .idle })
    | .truncating minimum (some position), .position =>
      w.put i (some { p with storage := p.storage.truncateAppended minimum position, working := .idle })
    | .truncating .., .none | .truncating .., .failure => w.put i (some { p with working := .idle })
    | _, _ => w

end

def step (svn : Svn) (diffsBetweenSnapshots : Nat) (w : World ι) : Event ι → World ι
  | .get i => w.update i fun p => some p.start
  | .call i c => w.update i fun p => some (p.call c)
  | .lock i => w.update i fun p => some p.lock
  | .enter i => w.update i Process.enter
  | .proceed i => w.update i fun p => some (p.proceed svn diffsBetweenSnapshots)
  | .promise i => w.promise i
  | .elected i => w.update i Process.elected
  | .refused i => w.update i fun p => some p.refused
  | .found i beginning => w.update i fun p => some (p.found w.log beginning)
  | .applied i => w.update i (Process.applied svn w.log)
  | .fail i => w.update i fun p => some p.fail
  | .land i gap => w.land i gap
  | .reply i answer => w.reply i answer
  | .demote => { w with holder := none }
  | .restart i => (w.lose i).put i (some {})

def fresh : World ι := { processes := fun _ => some {} }

end World

end Clusterd.State
