import Clusterd.Fallible
import Clusterd.LogRestore
import Clusterd.Run
/-!
# When a restart is invisible

A replica that restarts reads its state back from the records, and finds what it had exactly when they still hold its
`beginning` and `ending` (`invisible_iff`): the first is held by a learned `TRUNCATE` to it or a tombstone right before it, the
second by any record.  A learned message is persisted over any record, so a late one can replace the tombstone that holds
`beginning`, and the truncation is forgotten at the next restart.
-/
namespace Clusterd.Log

open List LevelDb Log.Action

inductive Message where
  | promise (request : PromiseRequest)
  | write (request : WriteRequest)
  | learned (action : Action)
  | update (status : Status)
  deriving DecidableEq, Repr

/-- A learned `TRUNCATE` goes no further than its own position. -/
def Action.TruncatesBack (a : Action) : Prop :=
  a.learned = true → ∀ target, a.value = some (.truncate target) → target ≤ a.position

variable {a : Action}

theorem Action.TruncatesBack.truncateTo (h : a.TruncatesBack) : (truncateTo a).getD 0 ≤ a.position := by
  unfold LevelDb.truncateTo
  split
  · exact h ‹_› _ ‹_›
  · exact le_rfl
  · exact Nat.zero_le _

theorem Action.TruncatesBack.truncatesTo (h : a.TruncatesBack) : a.truncatesTo ≤ a.position + 1 := by
  unfold Action.truncatesTo
  split
  · exact Nat.le_succ_of_le (h ‹_› _ ‹_›)
  · exact le_rfl
  · exact Nat.zero_le _

theorem Action.truncatesBack_of_unlearned (h : a.learned = false) : a.TruncatesBack :=
  fun hl => by rw [h] at hl; cases hl

def Message.TruncatesBack : Message → Prop
  | .learned a => a.TruncatesBack
  | .write w => w.learned = true → ∀ target, w.value = .truncate target → target ≤ w.position
  | _ => True

namespace Replica

def handle (r : Replica) : Message → Replica
  | .promise request => (r.promise request).1
  | .write request => (r.write request).1
  | .learned a => r.learned a
  | .update status => r.update status

def handleAll (r : Replica) (ms : List Message) : Replica := ms.foldl handle r

def fresh : Replica := restore {}

section

variable (r : Replica)

/-- **The state rebuilt from the records is the one in memory**, as far as anyone can ask. -/
def RestartInvisible : Prop :=
  (restore r.storage).status = r.status ∧ (restore r.storage).promised = r.promised ∧
  (restore r.storage).beginning = r.beginning ∧ (restore r.storage).ending = r.ending ∧
  ∀ p, (restore r.storage).missing p = r.missing p ∧ (restore r.storage).read p = r.read p

def HoldsBeginning : Prop :=
  r.beginning = 0 ∨ ∃ a ∈ r.storage.actions, a.truncatesTo = r.beginning

def HoldsEnding : Prop :=
  r.ending = 0 ∨ ∃ a ∈ r.storage.actions, a.position = r.ending

def KeepsBeginning (a : Action) : Prop :=
  r.beginning ≤ a.truncatesTo ∨ r.beginning = 0 ∨
    ∃ b ∈ r.storage.actions, b.position ≠ a.position ∧ b.truncatesTo = r.beginning

/-- **The message does not replace the only record that holds the beginning**: only a learned message can. -/
def KeepsIndicator : Message → Prop
  | .learned a => a.learned = true → r.KeepsBeginning a
  | _ => True

end

theorem wf_fresh : fresh.Wf := wf_restore List.Pairwise.nil

variable {r : Replica}

/-- The greatest of some numbers is a bound of them exactly if one of them, or zero, is that bound. -/
theorem greatest_eq_iff {actions : List Action} {f : Action → Nat} {greatest bound : Nat}
    (hg : greatest = 0 ∨ ∃ a ∈ actions, f a = greatest) (hle : ∀ a ∈ actions, f a ≤ greatest)
    (hb : ∀ a ∈ actions, f a ≤ bound) : greatest = bound ↔ bound = 0 ∨ ∃ a ∈ actions, f a = bound := by
  constructor
  · rintro rfl
    exact hg
  have hs : greatest ≤ bound := by
    rcases hg with h0 | ⟨a, ha, rfl⟩
    · omega
    · exact hb a ha
  rintro (_ | ⟨a, ha, rfl⟩)
  · omega
  · exact hs.antisymm (hle a ha)

theorem Wf.restore_beginning (h : r.Wf) : (restore r.storage).beginning = r.beginning ↔ r.HoldsBeginning :=
  greatest_eq_iff (restore_beginning_spec r.storage) (wf_restore h.storage.ascending).truncates_le h.truncates_le

theorem Wf.restore_ending (h : r.Wf) : (restore r.storage).ending = r.ending ↔ r.HoldsEnding :=
  greatest_eq_iff (restore_ending_spec r.storage) (wf_restore h.storage.ascending).le_ending h.le_ending

/-- **A restart is invisible exactly when the records hold the beginning and the end of the log.** -/
theorem Wf.invisible_iff (h : r.Wf) : r.RestartInvisible ↔ r.HoldsBeginning ∧ r.HoldsEnding := by
  have hw := wf_restore h.storage.ascending
  constructor
  · rintro ⟨-, -, hb, he, -⟩
    exact ⟨h.restore_beginning.1 hb, h.restore_ending.1 he⟩
  rintro ⟨hb, he⟩
  have hb := h.restore_beginning.2 hb
  have he := h.restore_ending.2 he
  have hm : (restore r.storage).metadata = r.metadata := (restore_metadata r.storage).trans h.header
  refine ⟨congrArg Metadata.status hm, congrArg Metadata.promised hm, hb, he, fun p => ⟨?_, ?_⟩⟩
  · rw [Bool.eq_iff_iff, hw.missing p, h.missing p, hb]
    rfl
  · rw [hw.read p, h.read p, hb]
    rfl

def TargetsBack (r : Replica) : Prop := ∀ a ∈ r.storage.actions, a.TruncatesBack

variable {a : Action}

theorem Wf.mem_persist (h : r.Wf) {b : Action} (hb : b ∈ r.storage.actions)
    (hne : b.position ≠ a.position) (hle : (truncateTo a).getD 0 ≤ b.position) :
    b ∈ (r.persist a).storage.actions := by
  have hr : (r.storage.persist a).record b.position = some b := by
    rw [h.storage.record_persist, if_neg (by omega), if_neg hne]
    exact (Table.get?_eq_some h.storage.ascending).2 ⟨hb, rfl⟩
  exact (Table.mem_of_get? hr).1

theorem Wf.self_mem_persist (h : r.Wf)
    (hle : (truncateTo a).getD 0 ≤ a.position) : a ∈ (r.persist a).storage.actions := by
  have hr : (r.storage.persist a).record a.position = some a := by
    rw [h.storage.record_persist, if_neg (by omega), if_pos rfl]
  exact (Table.mem_of_get? hr).1

theorem Wf.holdsEnding_persist (h : r.Wf) (he : r.HoldsEnding)
    (hle : (truncateTo a).getD 0 ≤ a.position) : (r.persist a).HoldsEnding := by
  unfold HoldsEnding
  rw [persist_ending]
  rcases lt_or_ge a.position r.ending with hlt | hge
  · rcases he with h0 | ⟨b, hb, hbe⟩
    · omega
    · exact .inr ⟨b, h.mem_persist hb (by omega) (by omega), by omega⟩
  · exact .inr ⟨a, h.self_mem_persist hle, by omega⟩

/-- **Persisting an action keeps a record for the beginning exactly when `KeepsBeginning` says so.** -/
theorem Wf.holdsBeginning_persist (h : r.Wf) (ht : r.TargetsBack)
    (hle : (truncateTo a).getD 0 ≤ a.position) : (r.persist a).HoldsBeginning ↔ r.KeepsBeginning a := by
  have hs := h.self_mem_persist hle
  have hta := a.truncateTo_le
  unfold HoldsBeginning
  rw [persist_beginning]
  constructor
  · rintro (_ | ⟨b, hb, hbt⟩)
    · exact .inr (.inl (by omega))
    rcases LevelDb.mem_persist h.storage hb with rfl | ⟨hmem, hne, -⟩
    · exact .inl (by omega)
    · have := h.truncates_le b hmem
      exact .inr (.inr ⟨b, hmem, hne, by omega⟩)
  · intro hk
    by_cases hle' : r.beginning ≤ a.truncatesTo
    · exact .inr ⟨a, hs, by omega⟩
    rcases hk with hk | hk | ⟨b, hb, hne, hbt⟩
    · exact absurd hk hle'
    · omega
    · have := (ht b hb).truncatesTo
      exact .inr ⟨b, h.mem_persist hb hne (by omega), by omega⟩

theorem Wf.keepsBeginning_of_record (h : r.Wf) (hb : r.HoldsBeginning) (a : Action)
    (hr : ∀ b, r.record a.position = some b → b.truncatesTo ≤ a.truncatesTo) : r.KeepsBeginning a := by
  rcases hb with h0 | ⟨b, hbm, hbt⟩
  · exact .inr (.inl h0)
  · by_cases hp : b.position = a.position
    · exact .inl (hbt ▸ hr b (h.mem_of_record.2 ⟨hbm, hp⟩))
    · exact .inr (.inr ⟨b, hbm, hp, hbt⟩)

theorem truncatesTo_of_unlearned (h : a.learned = false) : a.truncatesTo = 0 := by
  unfold truncatesTo
  simp [h]

structure Restartable (r : Replica) : Prop where
  wf : r.Wf
  targets : r.TargetsBack
  beginning : r.HoldsBeginning
  ending : r.HoldsEnding

theorem TargetsBack.persist (h : r.Wf) (ht : r.TargetsBack) (ha : a.TruncatesBack) : (r.persist a).TargetsBack := by
  intro b hb
  rcases LevelDb.mem_persist h.storage hb with rfl | ⟨hb, -⟩
  · exact ha
  · exact ht b hb

variable (h : r.Restartable) (m : Message)
include h

namespace Restartable

theorem persist (ha : a.TruncatesBack) (hk : r.KeepsBeginning a) : (r.persist a).Restartable :=
  ⟨h.wf.persist a, h.targets.persist h.wf ha,
    (h.wf.holdsBeginning_persist h.targets ha.truncateTo).2 hk, h.wf.holdsEnding_persist h.ending ha.truncateTo⟩

theorem persist_record (ha : a.TruncatesBack)
    (hr : ∀ b, r.record a.position = some b → b.truncatesTo ≤ a.truncatesTo) : (r.persist a).Restartable :=
  h.persist ha (h.wf.keepsBeginning_of_record h.beginning a hr)

theorem promise (request : PromiseRequest) : (r.promise request).1.Restartable := by
  have ho := h.wf.promise request
  generalize (r.promise request).1 = r' at ho ⊢
  generalize (r.promise request).2 = reply at ho
  cases ho with
  | grantedFresh _ _ _ _ hr =>
    exact h.persist_record (truncatesBack_of_unlearned rfl) (fun b hb => by rw [hr] at hb; cases hb)
  | granted _ a _ _ _ hr =>
    obtain ⟨ham, hap⟩ := h.wf.mem_of_record.1 hr
    -- the record is stored again with its own truncation, so it still holds what it held
    have hba : ({ a with promised := request.proposal } : Action).TruncatesBack := h.targets a ham
    refine h.persist_record hba (fun _ hb => ?_)
    rw [show r.record a.position = some a from hap ▸ hr] at hb
    cases hb
    exact le_rfl
  | grantedImplicit => exact ⟨h.wf.updatePromised _, h.targets, h.beginning, h.ending⟩
  | _ => exact h

theorem write (request : WriteRequest)
    (hm : (Message.write request).TruncatesBack) : (r.write request).1.Restartable := by
  have hba : ∀ promised, (written request promised).TruncatesBack := by
    intro _ hl target hv
    refine hm hl target ?_
    unfold written writtenValue at hv
    cases hval : request.value <;> rw [hval] at hv <;> simp_all
  have ho := h.wf.write request
  generalize (r.write request).1 = r' at ho ⊢
  generalize (r.write request).2 = reply at ho
  cases ho with
  | acceptedFresh _ _ hr =>
    exact h.persist_record (hba _) (fun b hb => by rw [written_position, hr] at hb; cases hb)
  | accepted _ _ _ hr _ hl =>
    refine h.persist_record (hba _) (fun _ hb => ?_)
    rw [written_position, hr] at hb
    cases hb
    rw [truncatesTo_of_unlearned hl]
    exact Nat.zero_le _
  | _ => exact h

theorem handle (hm : m.TruncatesBack) (hk : r.KeepsIndicator m) : (r.handle m).Restartable := by
  cases m with
  | promise request => exact h.promise request
  | write request => exact h.write request hm
  | update => exact ⟨h.wf.update _, h.targets, h.beginning, h.ending⟩
  | learned a =>
    show (r.learned a).Restartable
    unfold Replica.learned
    split
    · exact h.persist hm (hk ‹_›)
    · exact h

theorem invisible : r.RestartInvisible :=
  h.wf.invisible_iff.2 ⟨h.beginning, h.ending⟩

/-- **A message after which a restart would be invisible kept a record for the beginning.** -/
theorem keepsIndicator (hm : m.TruncatesBack)
    (hi : (r.handle m).RestartInvisible) : r.KeepsIndicator m := by
  cases m with
  | learned a =>
    intro hl
    have hw : (r.handle (.learned a)) = r.persist a := if_pos hl
    rw [hw, (h.wf.persist a).invisible_iff] at hi
    exact (h.wf.holdsBeginning_persist h.targets hm.truncateTo).1 hi.1
  | _ => trivial

end Restartable

omit h

theorem restartable_fresh : fresh.Restartable :=
  ⟨wf_fresh, fun _ ha => absurd ha not_mem_nil, .inl rfl, .inl rfl⟩

theorem Restartable.run_iff : ∀ (ms : List Message) {r : Replica}, r.Restartable → (∀ m ∈ ms, m.TruncatesBack) →
    ((∀ pre post, ms = pre ++ post → (r.handleAll pre).RestartInvisible) ↔
      ∀ pre m post, ms = pre ++ m :: post → (r.handleAll pre).KeepsIndicator m)
  | [], r, h, _ => by
    refine ⟨fun _ pre m post hs => absurd hs (by simp), fun _ pre post hs => ?_⟩
    obtain ⟨rfl, rfl⟩ := append_eq_nil_iff.1 hs.symm
    exact h.invisible
  | m :: ms, r, h, hms => by
    have hm := hms m mem_cons_self
    constructor
    · intro hi
      have hk : r.KeepsIndicator m := h.keepsIndicator m hm (hi [m] ms rfl)
      have ih := (Restartable.run_iff ms (h.handle m hm hk) (fun m' hm' => hms m' (mem_cons_of_mem _ hm'))).1
        (fun pre post hs => hi (m :: pre) post (by rw [hs]; rfl))
      intro pre m' post hs
      cases pre with
      | nil => cases hs; exact hk
      | cons _ pre =>
        rw [cons_append, cons.injEq] at hs
        obtain ⟨rfl, hs⟩ := hs
        exact ih pre m' post hs
    · intro hk
      have hr := h.handle m hm (hk [] m ms rfl)
      have ih := (Restartable.run_iff ms hr (fun m' hm' => hms m' (mem_cons_of_mem _ hm'))).2
        (fun pre m' post hs => hk (m :: pre) m' post (by rw [hs]; rfl))
      intro pre post hs
      cases pre with
      | nil => exact h.invisible
      | cons _ pre =>
        rw [cons_append, cons.injEq] at hs
        obtain ⟨rfl, hs⟩ := hs
        exact ih pre post hs

/-- **A replica can be restarted unnoticed after every message of a run exactly when no learned message of the run
replaces the only record that holds the beginning of its log.** -/
theorem restart_invisible_iff (ms : List Message) (hms : ∀ m ∈ ms, m.TruncatesBack) :
    (∀ pre post, ms = pre ++ post → (fresh.handleAll pre).RestartInvisible) ↔
      ∀ pre m post, ms = pre ++ m :: post → (fresh.handleAll pre).KeepsIndicator m :=
  restartable_fresh.run_iff ms hms

def TruncatedSomewhere (position : Nat) : Prop :=
  ∃ ms : List Message, (∀ m ∈ ms, m.TruncatesBack ∧ ∀ a, m = .learned a → a.value ≠ some (.nop true)) ∧
    position < (fresh.handleAll ms).beginning

/-- A tombstone for position `5`, then the learned message of the append it stands for, delivered late. -/
def lateLearned : List Message :=
  [.learned { position := 5, promised := 1, performed := some 1, learned := true, value := some (.nop true) },
   .learned { position := 5, promised := 1, performed := some 1, learned := true, value := some (.append [7]) }]

theorem truncatedSomewhere_five : TruncatedSomewhere 5 :=
  ⟨[.learned { position := 7, promised := 1, performed := some 1, learned := true, value := some (.truncate 6) }],
    by simp [Message.TruncatesBack, TruncatesBack], by decide⟩

theorem restart_visible_lateLearned :
    (∀ m ∈ lateLearned, m.TruncatesBack ∧
      ∀ a, m = .learned a → a.learned = true ∧ (a.value = some (.nop true) → TruncatedSomewhere a.position)) ∧
    (fresh.handleAll lateLearned).beginning = 6 ∧ (restore (fresh.handleAll lateLearned).storage).beginning = 0 ∧
    ¬ (fresh.handleAll lateLearned).RestartInvisible := by
  have hb : (fresh.handleAll lateLearned).beginning = 6 := by decide
  have hr : (restore (fresh.handleAll lateLearned).storage).beginning = 0 := by decide
  refine ⟨?_, hb, hr, fun h => ?_⟩
  · intro _ hm
    simp only [lateLearned, mem_cons, not_mem_nil, or_false] at hm
    rcases hm with rfl | rfl
    · refine ⟨fun _ target hv => by simp at hv, fun a ha => ?_⟩
      cases ha
      exact ⟨rfl, fun _ => truncatedSomewhere_five⟩
    · refine ⟨fun _ _ hv => by simp at hv, fun _ ha => ?_⟩
      cases ha
      exact ⟨rfl, fun hv => by simp at hv⟩
  · have := h.2.2.1
    omega

theorem restart_invisible_tombstone : (fresh.handleAll (lateLearned.take 1)).RestartInvisible := by
  refine (restart_invisible_iff (lateLearned.take 1) (fun m hm => ?_)).2 (fun pre _ _ hs => ?_) _ [] rfl
  · simp only [lateLearned, take_succ_cons, take_zero, mem_cons, not_mem_nil, or_false] at hm
    subst hm
    exact fun _ _ hv => by simp at hv
  · cases pre with
    | nil =>
      cases hs
      exact fun _ => .inr (.inl rfl)
    | cons => simp [lateLearned] at hs

/-! ## Reading a range -/

def readFrom (r : Replica) (position : Nat) : Nat → Except String (List Action)
  | 0 => .ok []
  | n + 1 =>
    match r.read position with
    | .error e => .error e
    | .ok none => r.readFrom (position + 1) n
    | .ok (some a) => return a :: (← r.readFrom (position + 1) n)

/-- The actions at the positions of `[from, to]`.  A hole is left out. -/
def readIn (r : Replica) (lower upper : Nat) : Except String (List Action) :=
  if upper < lower then .error "Bad read range (to < from)"
  else if lower < r.beginning then .error "Bad read range (truncated position)"
  else if r.ending < upper then .error "Bad read range (past end of log)"
  else r.readFrom lower (upper + 1 - lower)

def entry (a : Action) : Option (Nat × Bytes) :=
  match a.value with
  | some (.append bytes) => some (a.position, bytes)
  | _ => none

/-- What a log reader makes of the actions (`LogReaderProcess::__read`). -/
def entriesFrom (position : Nat) : List Action → Except String (List (Nat × Bytes))
  | [] => .ok []
  | a :: actions =>
    if a.performed = none ∨ a.learned = false then .error "Bad read range (includes pending entries)"
    else if position ≠ a.position then .error "Bad read range (includes missing entries)"
    else if a.value = none then .error "Check failed: action.has_type()"
    else return (entry a).toList ++ (← entriesFrom (position + 1) actions)

def entries (r : Replica) (lower upper : Nat) : Except String (List (Nat × Bytes)) :=
  r.readIn lower upper >>= entriesFrom lower

/-- The action the replica reads at a position. -/
def stored (r : Replica) (position : Nat) : Option Action :=
  match r.read position with
  | .ok a => a
  | .error _ => none

theorem stored_of_read {p : Nat} {o : Option Action} (h : r.read p = .ok o) : r.stored p = o := by
  rw [stored, h]

theorem read_position {p : Nat} (h : r.read p = .ok (some a)) : a.position = p := by
  have hg := fun b => @Table.mem_of_get? _ position b p r.storage.actions
  unfold read LevelDb.read at h
  grind

/-- Reading the positions one after the other gives what they hold, if none of them gives an error. -/
theorem readFrom_ok : ∀ {n position : Nat} {l : List Action}, r.readFrom position n = .ok l ↔
    (∀ p ∈ range' position n, ∃ o, r.read p = .ok o) ∧ l = (range' position n).filterMap r.stored
  | 0, _, _ => by simp [readFrom, eq_comm]
  | n + 1, position, l => by
    rw [range'_succ, forall_mem_cons, filterMap_cons, readFrom, stored]
    cases hr : r.read position with
    | error => simp
    | ok o =>
      cases o with
      | none => simp [readFrom_ok]
      | some =>
        simp only [Fallible.bind_ok, readFrom_ok, Fallible.pure_ok, Except.ok.injEq, exists_eq', true_and]
        constructor
        · rintro ⟨_, ⟨h, rfl⟩, rfl⟩
          exact ⟨h, rfl⟩
        · rintro ⟨h, rfl⟩
          exact ⟨_, ⟨h, rfl⟩, rfl⟩

/-- An action that a reader takes. -/
def Taken (a : Action) : Prop := a.performed ≠ none ∧ a.learned = true ∧ a.value ≠ none

theorem entriesFrom_ok : ∀ {l : List Action} {position : Nat} {es : List (Nat × Bytes)}, entriesFrom position l = .ok es ↔
    l.map (·.position) = range' position l.length ∧ (∀ a ∈ l, Taken a) ∧ es = l.filterMap entry
  | [], _, _ => by simp [entriesFrom, eq_comm]
  | a :: l, position, es => by
    rw [entriesFrom, map_cons, length_cons, range'_succ, cons.injEq, forall_mem_cons, filterMap_cons, Taken]
    split_ifs with hl hp hv
    · refine iff_of_false nofun fun h => ?_
      obtain ⟨hperformed, hlearned, -⟩ := h.2.1.1
      exact hl.elim hperformed (by simp [hlearned])
    · exact iff_of_false nofun fun h => hp h.1.1.symm
    · exact iff_of_false nofun fun h => h.2.1.1.2.2 hv
    rw [not_or, Bool.not_eq_false] at hl
    simp only [Fallible.bind_ok, entriesFrom_ok, Fallible.pure_ok]
    constructor
    · rintro ⟨_, ⟨hpos, ht, rfl⟩, rfl⟩
      refine ⟨⟨(not_not.1 hp).symm, hpos⟩, ⟨⟨hl.1, hl.2, hv⟩, ht⟩, ?_⟩
      cases entry a <;> rfl
    · rintro ⟨⟨-, hpos⟩, ⟨-, ht⟩, rfl⟩
      refine ⟨_, ⟨hpos, ht, rfl⟩, ?_⟩
      cases entry a <;> rfl

theorem entries_ok {lower upper : Nat} {es : List (Nat × Bytes)} : r.entries lower upper = .ok es ↔
    lower ≤ upper ∧ r.beginning ≤ lower ∧ upper ≤ r.ending ∧ ∃ l, r.readFrom lower (upper + 1 - lower) = .ok l ∧
      entriesFrom lower l = .ok es := by
  rw [entries, Fallible.bind_ok]
  unfold readIn
  split_ifs with h1 h2 h3
  · exact iff_of_false nofun fun h => by omega
  · exact iff_of_false nofun fun h => by omega
  · exact iff_of_false nofun fun h => by omega
  · rw [and_iff_right (not_lt.1 h1), and_iff_right (not_lt.1 h2), and_iff_right (not_lt.1 h3)]

/-- `es` are the appends at the positions of `[from, to]`, all of which are learned. -/
def Complete (r : Replica) (lower upper : Nat) (es : List (Nat × Bytes)) : Prop :=
  ∃ actions : List Action, actions.map (·.position) = range' lower (upper + 1 - lower) ∧
    (∀ a ∈ actions, r.read a.position = .ok (some a) ∧ a.learned = true) ∧ es = actions.filterMap entry

/-- A position that is truncated, past the end, a hole or not learned. -/
def Unreadable (r : Replica) (p : Nat) : Prop :=
  p < r.beginning ∨ r.ending < p ∨ p ∈ r.holes ∨ ∃ a, r.read p = .ok (some a) ∧ a.learned = false

/-- The range is inside the log; learned actions come first in it, if any, and after them only holes, of which there are
some. -/
def EndsInHoles (r : Replica) (lower upper : Nat) : Prop :=
  r.beginning ≤ lower ∧ upper ≤ r.ending ∧ ∃ actions : List Action, lower + actions.length ≤ upper ∧
    actions.map (·.position) = range' lower actions.length ∧
    (∀ a ∈ actions, r.read a.position = .ok (some a) ∧ Taken a) ∧
    ∀ p, lower + actions.length ≤ p → p ≤ upper → p ∈ r.holes

theorem read_hole {p : Nat} (hb : r.beginning ≤ p) (he : p ≤ r.ending) : r.read p = .ok none ↔ p ∈ r.holes := by
  unfold read
  rw [if_neg (not_lt.2 hb), if_neg (not_lt.2 he)]
  split_ifs with h
  · exact iff_of_true rfl h
  · refine iff_of_false ?_ h
    split <;> nofun

/-- What a read that succeeds has found: the range to its end, or a part of it and then holes. -/
theorem complete_or_endsInHoles {lower upper : Nat} {es : List (Nat × Bytes)} (h : r.entries lower upper = .ok es) :
    r.Complete lower upper es ∨ r.EndsInHoles lower upper := by
  obtain ⟨hle, hb, he, l, hl, hes⟩ := entries_ok.1 h
  obtain ⟨hok, hfound⟩ := readFrom_ok.1 hl
  obtain ⟨hpos, ht, rfl⟩ := entriesFrom_ok.1 hes
  have hmem : ∀ a, a ∈ l ↔ ∃ p, (lower ≤ p ∧ p ≤ upper) ∧ r.stored p = some a := by
    intro a
    simp only [hfound, mem_filterMap, mem_range'_1]
    refine exists_congr fun p => and_congr_left fun _ => ?_
    omega
  have hread : ∀ a ∈ l, a.position ≤ upper ∧ r.read a.position = .ok (some a) := by
    intro a ha
    obtain ⟨p, hp, hs⟩ := (hmem a).1 ha
    obtain ⟨o, ho⟩ := hok p (mem_range'_1.2 (by omega))
    rw [stored_of_read ho] at hs
    subst hs
    rw [read_position ho]
    exact ⟨hp.2, ho⟩
  have hnumber : ∀ p, (∃ a ∈ l, a.position = p) ↔ lower ≤ p ∧ p < lower + l.length := by
    intro _
    rw [← mem_range'_1, ← hpos, mem_map]
  rcases lt_or_ge upper (lower + l.length) with hlong | hshort
  · obtain ⟨b, hb, hbp⟩ := (hnumber (lower + l.length - 1)).2 (by omega)
    have hlen : l.length = upper + 1 - lower := by
      have := (hread b hb).1
      omega
    exact .inl ⟨l, hlen ▸ hpos, fun a ha => ⟨(hread a ha).2, (ht a ha).2.1⟩, rfl⟩
  · refine .inr ⟨hb, he, l, hshort, hpos, fun a ha => ⟨(hread a ha).2, ht a ha⟩, fun p hp hu => ?_⟩
    obtain ⟨o, ho⟩ := hok p (mem_range'_1.2 (by omega))
    cases o with
    | none => exact (read_hole (by omega) (by omega)).1 ho
    | some a =>
      have := ((hnumber p).1 ⟨a, (hmem a).2 ⟨p, by omega, stored_of_read ho⟩, read_position ho⟩).2
      omega

/-- Holes at the end of the range are passed over. -/
theorem EndsInHoles.entries {lower upper : Nat} (h : r.EndsInHoles lower upper) :
    ∃ es, r.entries lower upper = .ok es := by
  obtain ⟨hb, he, actions, hlen, hpos, hread, hholes⟩ := h
  have hsplit : range' lower (upper + 1 - lower) =
      actions.map (·.position) ++ range' (lower + actions.length) (upper + 1 - lower - actions.length) := by
    rw [hpos, range'_append_1]
    congr 1
    omega
  have hhole : ∀ p ∈ range' (lower + actions.length) (upper + 1 - lower - actions.length), r.read p = .ok none := by
    intro p hp
    have := mem_range'_1.1 hp
    exact (read_hole (by omega) (by omega)).2 (hholes p (by omega) (by omega))
  have hfound : (range' lower (upper + 1 - lower)).filterMap r.stored = actions := by
    rw [hsplit, filterMap_append, filterMap_eq_nil_iff.2 fun p hp => stored_of_read (hhole p hp), append_nil, filterMap_map]
    refine (filterMap_congr fun a ha => ?_).trans filterMap_some
    exact stored_of_read (hread a ha).1
  refine ⟨_, entries_ok.2 ⟨by omega, hb, he, actions, readFrom_ok.2 ⟨fun p hp => ?_, hfound.symm⟩,
    entriesFrom_ok.2 ⟨hpos, fun a ha => (hread a ha).2, rfl⟩⟩⟩
  rw [hsplit] at hp
  rcases mem_append.1 hp with hp | hp
  · obtain ⟨a, ha, rfl⟩ := mem_map.1 hp
    exact ⟨_, (hread a ha).1⟩
  · exact ⟨_, hhole p hp⟩

theorem Complete.not_unreadable {lower upper p : Nat} {es : List (Nat × Bytes)} (h : r.Complete lower upper es)
    (hp : lower ≤ p) (hu : p ≤ upper) : ¬ r.Unreadable p := by
  obtain ⟨actions, hpos, hread, -⟩ := h
  have hmem : p ∈ actions.map (·.position) := hpos ▸ mem_range'_1.2 (by omega)
  obtain ⟨a, ha, rfl⟩ := mem_map.1 hmem
  obtain ⟨hr, hl⟩ := hread a ha
  have hlow : ¬ a.position < r.beginning := fun h => by
    unfold read at hr
    rw [if_pos h] at hr
    cases hr
  have hhigh : ¬ r.ending < a.position := fun h => by
    unfold read at hr
    rw [if_neg hlow, if_pos h] at hr
    cases hr
  rintro (h | h | h | ⟨b, hb, hbl⟩)
  · exact hlow h
  · exact hhigh h
  · cases hr.symm.trans ((read_hole (not_lt.1 hlow) (not_lt.1 hhigh)).2 h)
  · cases hr.symm.trans hb
    exact absurd (hl.symm.trans hbl) (by decide)

/-- **A read that succeeds is complete, and one of a range with a position that cannot be read fails, exactly if** the range
does not end in holes after learned actions. -/
theorem entries_complete (r : Replica) (lower upper : Nat) :
    ((∀ es, r.entries lower upper = .ok es → r.Complete lower upper es) ∧
      ∀ p, lower ≤ p → p ≤ upper → r.Unreadable p → ∃ error, r.entries lower upper = .error error) ↔
    ¬ r.EndsInHoles lower upper := by
  constructor
  · rintro ⟨hcomplete, -⟩ hends
    obtain ⟨es, hes⟩ := hends.entries
    obtain ⟨-, -, actions, hlen, -, -, hholes⟩ := hends
    exact (hcomplete es hes).not_unreadable (by omega) (le_refl upper) (.inr (.inr (.inl (hholes upper hlen (le_refl upper)))))
  · intro hends
    have hcomplete : ∀ es, r.entries lower upper = .ok es → r.Complete lower upper es := fun es h =>
      (complete_or_endsInHoles h).resolve_right hends
    refine ⟨hcomplete, fun p hp hu hbad => ?_⟩
    cases hes : r.entries lower upper with
    | error error => exact ⟨error, rfl⟩
    | ok es => exact absurd hbad ((hcomplete es hes).not_unreadable hp hu)

theorem entries_complete_one : (fresh.learned
    { position := 0, promised := 1, performed := some 1, learned := true, value := some (.append [7]) }).Complete 0 0 [(0, [7])] := by
  refine ((entries_complete _ 0 0).2 ?_).1 _ rfl
  rintro ⟨-, -, _, hlen, -, -, hholes⟩
  exact absurd (hholes 0 hlen (le_refl 0)) (by decide)

theorem entries_over_holes :
    let r := fresh.learned { position := 3, promised := 1, performed := some 1, learned := true, value := some (.nop false) }
    r.entries 1 2 = .ok [] ∧ r.missing 1 = true ∧ r.missing 2 = true := ⟨rfl, rfl, rfl⟩

/-! ## The missing positions -/

/-- An action is persisted, or the replica restarts. -/
def happens (r : Replica) : Option Action → Replica
  | some a => r.persist a
  | none => restore r.storage

/-- The truncation by `a` leaves behind no gap beyond the end, and no hole at `0`. -/
def Abuts (r : Replica) (a : Action) : Prop :=
  a.TruncatesBack ∧ (a.learned = false → r.beginning ≤ a.position) ∧
    (a.truncatesTo ≤ r.ending + 1 ∨ a.position ≤ r.ending + 1) ∧
    (0 < a.truncatesTo → a.position = 0 ∨ 0 ∉ r.holes ∧ 0 ∉ r.unlearned)

structure Clear (r : Replica) : Prop where
  wf : r.Wf
  targets : r.TargetsBack
  ending : r.beginning ≤ r.ending + 1
  holes : ∀ p ∈ r.holes, r.beginning ≤ p
  unlearned : ∀ p ∈ r.unlearned, r.beginning ≤ p
  records : ∀ a ∈ r.storage.actions, a.learned = false → r.beginning ≤ a.position

theorem persist_below (r : Replica) {p : Nat} (hp : p < a.truncatesTo) :
    (p ∈ (r.persist a).holes → p = 0 ∧ a.position ≠ 0 ∧ 0 ∈ r.holes ∨ r.ending < p ∧ p < a.position) ∧
      (p ∈ (r.persist a).unlearned → p = 0 ∧ a.position ≠ 0 ∧ 0 ∈ r.unlearned) := by
  unfold persist
  unfold truncatesTo at hp
  rcases a with ⟨pos, pr, pf, _ | _, _ | ⟨_ | _⟩ | _ | _⟩ <;> simp only [Bool.false_eq_true, if_false, if_true] at hp ⊢ <;>
    grind

theorem Clear.persist (h : r.Clear) (ha : r.Abuts a) : (r.persist a).Clear := by
  obtain ⟨hba, hun, _⟩ := ha
  have hend := h.ending
  have hta := hba.truncatesTo
  refine ⟨h.wf.persist a, h.targets.persist h.wf hba, ?_, fun p hp => ?_, fun p hp => ?_, fun b hb hl => ?_⟩
  · rw [persist_beginning, persist_ending]
    omega
  · rw [persist_beginning]
    rcases Nat.lt_or_ge p a.truncatesTo with hlt | hge
    · have := (persist_below r hlt).1 hp
      grind
    · have := (persist_holes r a p hge).1 hp
      have := h.holes p
      grind
  · rw [persist_beginning]
    rcases Nat.lt_or_ge p a.truncatesTo with hlt | hge
    · have := (persist_below r hlt).2 hp
      grind
    · have := (persist_unlearned r a p hge).1 hp
      have := h.unlearned p
      grind
  · rw [persist_beginning]
    rcases LevelDb.mem_persist h.wf.storage hb with rfl | ⟨hmem, -, hle⟩
    · rw [truncatesTo_of_unlearned hl]
      exact max_le (hun hl) (Nat.zero_le _)
    · exact max_le (h.records b hmem hl) hle

theorem clear_restore (h : r.Clear) : (restore r.storage).Clear := by
  have hwf := wf_restore h.wf.storage.ascending
  have hb : (restore r.storage).beginning ≤ r.beginning ∧ (restore r.storage).beginning ≤ (restore r.storage).ending + 1 := by
    rcases restore_beginning_spec r.storage with h0 | ⟨a, ha, hta⟩
    · omega
    · have := h.wf.truncates_le a ha
      have := (h.targets a ha).truncatesTo
      have := hwf.le_ending a ha
      omega
  refine ⟨hwf, h.targets, hb.2, fun p hp => ?_, fun p hp => ?_, fun a ha hl => hb.1.trans (h.records a ha hl)⟩
  · exact (Finset.mem_Icc.1 (Finset.mem_sdiff.1 (Finset.mem_sdiff.1 hp).1).1).1
  · obtain ⟨a, ha, hl⟩ := (restore_unlearned h.wf.storage.ascending p).1 hp
    obtain ⟨hmem, rfl⟩ := Table.mem_of_get? ha
    exact hb.1.trans (h.records a hmem hl)

/-- **The range query agrees with the point query**, if no truncation leaves a position behind. -/
theorem missingIn_iff (es : List (Option Action))
    (h : Run.Along happens (fun r e => ∀ a, e = some a → r.Abuts a) fresh es) (lower upper p : Nat) :
    p ∈ (es.foldl happens fresh).missingIn lower upper ↔
      lower ≤ p ∧ p ≤ upper ∧ (es.foldl happens fresh).missing p = true := by
  have hz : ∀ n : Nat, (fresh : Replica).beginning ≤ n := Nat.zero_le
  have hf : fresh.Clear :=
    ⟨wf_fresh, restartable_fresh.targets, hz _, fun _ _ => hz _, fun _ _ => hz _, fun _ _ _ => hz _⟩
  have hc : (es.foldl happens fresh).Clear := by
    refine Run.Along.invariant (fun r e hr he => ?_) es hf h
    cases e with
    | some a => exact hr.persist (he a rfl)
    | none => exact clear_restore hr
  generalize es.foldl happens fresh = r at hc ⊢
  have hh := hc.holes p
  have hu := hc.unlearned p
  have he := hc.ending
  unfold missingIn missing
  grind

/-- A truncation, a restart, and an action that is not learned. -/
def truncatedRun : List (Option Action) :=
  [some { position := 0, promised := 1, performed := some 1, learned := true, value := some (.nop false) },
    some { position := 1, promised := 1, performed := some 1, learned := true, value := some (.truncate 1) }, none,
    some { position := 3, promised := 1 }]

theorem missingIn_iff_unlearned : 3 ∈ (truncatedRun.foldl happens fresh).missingIn 0 4 ∧
    0 ∉ (truncatedRun.foldl happens fresh).missingIn 0 4 := by
  have halong : Run.Along happens (fun r e => ∀ a, e = some a → r.Abuts a) fresh truncatedRun := by
    refine ⟨fun a ha => ?_, fun a ha => ?_, fun a ha => ?_, fun a ha => ?_, trivial⟩
    · cases ha
      exact ⟨fun _ _ hv => by simp at hv, nofun, .inl (Nat.zero_le _), nofun⟩
    · cases ha
      exact ⟨fun _ _ hv => by cases hv; decide, nofun, by decide, fun _ => .inr (by decide)⟩
    · cases ha
    · cases ha
      exact ⟨Action.truncatesBack_of_unlearned rfl, fun _ => by decide, .inl (Nat.zero_le _), nofun⟩
  refine ⟨(missingIn_iff truncatedRun halong 0 4 3).2 (by decide), fun h => ?_⟩
  exact absurd ((missingIn_iff truncatedRun halong 0 4 0).1 h).2.2 (by decide)

theorem missingIn_truncated :
    let r := fresh.persist { position := 10, promised := 1, performed := some 1, learned := true, value := some (.truncate 5) }
    r.beginning = 5 ∧ 1 ∈ r.missingIn 1 10 ∧ r.missing 1 = false := by
  decide

end Replica
end Clusterd.Log
