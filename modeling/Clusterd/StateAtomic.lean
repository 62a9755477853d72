import Clusterd.Run
import Clusterd.StateVersions
/-!
# Calls compare and set

A `set` or `expunge` that returned true has its record in the log, and the entries before it leave its name with the version it
asked for (`Recorded`).  What carries this is how far each process knows the log (`Fits`): the one that holds the promise and
has started knows all but its own record.  A truncation that is written between an election and the reading of the log breaks
it, since its position moves the index past unread entries.
-/
namespace Clusterd.State

open List World SharedLog.Extends

namespace Call

def name : Call → String
  | .set entry _ => entry.name
  | .expunge entry => entry.name

def Permits (c : Call) (v : Option UUID) : Prop :=
  match c with
  | .set _ uuid => v = none ∨ v = some uuid
  | .expunge entry => v = some entry.uuid

def result : Call → Option UUID
  | .set entry _ => some entry.uuid
  | .expunge _ => none

instance (c : Call) (v : Option UUID) : Decidable (c.Permits v) :=
  match c with
  | .set _ uuid => inferInstanceAs (Decidable (v = none ∨ v = some uuid))
  | .expunge entry => inferInstanceAs (Decidable (v = some entry.uuid))

end Call

def Recorded (log : SharedLog) (c : Call) (position : Nat) : Prop :=
  ∃ old operation new, log.entries = old ++ { position := position, operation := operation } :: new ∧
    operation.name = c.name ∧ operation.version = c.result ∧ c.Permits (version none old c.name)

variable {log log' : SharedLog}

theorem Recorded.mono {c : Call} {position : Nat} (h : Recorded log c position)
    (he : log.Extends log') : Recorded log' c position := by
  obtain ⟨old, operation, new, hes, hr⟩ := h
  obtain ⟨tail, ht, -⟩ := he.entries
  exact ⟨old, operation, new ++ tail, by rw [ht, hes, append_assoc, cons_append], hr⟩

namespace LogStorage

variable {s : LogStorage} {operation : Operation} {entry : Entry} {diffs limit : Nat} {svn : Svn}

theorem set_append {uuid : UUID} (h : s.set svn limit entry uuid = .append operation diffs) :
    operation.name = entry.name ∧ operation.version = some entry.uuid ∧
      (s.snapshots.version entry.name = none ∨ s.snapshots.version entry.name = some uuid) := by
  unfold Snapshots.version
  unfold set at h
  cases hs : s.snapshots.lookup entry.name with
  | none =>
    rw [hs] at h
    cases h
    exact ⟨rfl, rfl, .inl rfl⟩
  | some snapshot =>
    simp only [hs] at h
    split at h
    · cases h
    rename_i hu
    have hv : some snapshot.entry.uuid = some uuid := congrArg some (not_not.1 hu)
    split at h
    · split at h
      · cases h
      split at h
      · cases h
        exact ⟨rfl, rfl, .inr hv⟩
      · cases h
        exact ⟨rfl, rfl, .inr hv⟩
    · cases h
      exact ⟨rfl, rfl, .inr hv⟩

theorem expunge_append (h : s.expunge entry = some operation) :
    operation = .expunge entry.name ∧ s.snapshots.version entry.name = some entry.uuid := by
  unfold Snapshots.version
  unfold expunge at h
  cases hs : s.snapshots.lookup entry.name with
  | none =>
    rw [hs] at h
    cases h
  | some =>
    simp only [hs] at h
    split at h
    · cases h
    next hu =>
      cases h
      exact ⟨rfl, congrArg some (not_not.1 hu)⟩

/-- **What is appended is allowed by the cached version**, and the answer caches what a reader of the record gets. -/
theorem prepare_spec (hk : s.snapshots.Keyed) {c : Call} (h : s.prepare svn limit c = .append operation diffs) :
    operation.name = c.name ∧ operation.version = c.result ∧ c.Permits (s.snapshots.version c.name) ∧
      ∀ position, ∃ d, Applies svn s.snapshots { position := position, operation := operation } d ∧
        (s.appended diffs position c = .ok { s with index := raise s.index position, snapshots := d } ∨
          s.appended diffs position c = .ok { s with snapshots := d } ∧ ∃ name, d = s.snapshots.erase name) := by
  cases c with
  | set =>
    obtain ⟨hn, hv, hp⟩ := set_append h
    refine ⟨hn, hv, hp, fun position => ?_⟩
    obtain ⟨d, hd, ha⟩ := set_apply hk h position
    exact ⟨d, Snapshots.apply_ok.1 ha, .inl hd⟩
  | expunge entry =>
    unfold prepare at h
    cases he : s.expunge entry with
    | none =>
      simp only [he] at h
      cases h
    | some =>
      simp only [he] at h
      cases h
      obtain ⟨rfl, hv⟩ := expunge_append he
      refine ⟨rfl, rfl, hv, fun position => ?_⟩
      obtain ⟨d, hd, ha⟩ := expunge_apply svn he position
      refine ⟨d, Snapshots.apply_ok.1 ha, .inr ⟨hd, entry.name, ?_⟩⟩
      cases ha
      rfl

end LogStorage

/-! ## How far a process knows the log -/

def Working.pending : Working → Nat
  | .appending _ _ _ (some _) => 1
  | _ => 0

def Working.Quiet : Working → Prop
  | .idle | .locked _ | .waiting _ => True
  | .appending .. | .truncating .. => False

section

variable (log : SharedLog) (holds : Bool) (s : LogStorage)

structure Catching (last : Nat) : Prop where
  held : holds = true → ∀ e ∈ log.entries, e.position ≤ last
  index : ∀ k, s.index = some k → k ≤ last
  ending : last ≤ log.ending

def StartFits (n pending : Nat) : Option Starting → Prop
  | none | some .electing => holds = false
  | some (.elected last) => Catching log holds s last
  | some (.finding last) => Catching log holds s last ∧ s.index = none
  | some (.reading first last) =>
    Catching log holds s last ∧ (s.index = none → first ≤ log.beginning) ∧ ∀ k, s.index = some k → first = k
  | some .started => holds = true → n + pending = log.entries.length
  | some .failed => True

end

section

variable (svn : Svn) (diffsBetweenSnapshots : Nat) (log : SharedLog)

/-- What is asked of the writer: a record comes right after the entries that were seen, and the cached version is the one
before it.  The position to truncate to lies before everything cached or still to be seen, since it was the least when the
truncation was sent; once that is written, nothing was left to see before it. -/
def WorkFits (s : LogStorage) (starting : Option Starting)
    (n : Nat) : Working → Prop
  | .appending c operation diffs landed =>
    starting = some .started ∧ s.prepare svn diffsBetweenSnapshots c = .append operation diffs ∧
      ∀ position, landed = some position →
        log.entries[n]? = some { position := position, operation := operation } ∧
          s.snapshots.version operation.name = version none (log.entries.take n) operation.name
  | .truncating minimum landed =>
    (starting ≠ some .failed → minimum ≤ log.ending ∧ s.Above minimum) ∧
      ∀ position, landed = some position →
        starting = some .started ∧ position ≤ log.ending ∧ ∀ e ∈ log.entries.drop n, position < e.position
  | .idle | .locked _ | .waiting _ => True

structure Fits (holds : Bool) (p : Process) (n : Nat) :
    Prop where
  knows : p.starting ≠ some .failed → Knows log p.storage n
  starting : StartFits log holds p.storage n p.working.pending p.starting
  working : WorkFits svn diffsBetweenSnapshots log p.storage p.starting n p.working

end

variable {holds : Bool} {s : LogStorage} {holds' : Bool}

theorem Catching.mono {last : Nat} (h : Catching log holds s last) (he : log.Extends log')
    (hh : holds' = true → holds = true ∧ log'.entries = log.entries) : Catching log' holds' s last :=
  ⟨fun ht => (hh ht).2 ▸ h.held (hh ht).1, h.index, h.ending.trans he.ending⟩

variable {n : Nat}

theorem StartFits.mono {pending : Nat}
    {starting : Option Starting} (h : StartFits log holds s n pending starting) (he : log.Extends log')
    (hh : holds' = true → holds = true ∧ log'.entries = log.entries) : StartFits log' holds' s n pending starting := by
  have hfa : holds = false → holds' = false := by
    intro hf
    cases hh' : holds' with
    | false => rfl
    | true => exact hf ▸ (hh hh').1.symm
  match starting, h with
  | none, h | some .electing, h => exact hfa h
  | some (.elected _), h => exact Catching.mono h he hh
  | some (.finding _), h => exact ⟨h.1.mono he hh, h.2⟩
  | some (.reading _ _), h => exact ⟨h.1.mono he hh, fun hi => le_trans (h.2.1 hi) he.beginning, h.2.2⟩
  | some .started, h => exact fun ht => (hh ht).2 ▸ h (hh ht).1
  | some .failed, _ => trivial

theorem StartFits.pending {pending pending' : Nat}
    {starting : Option Starting} (h : StartFits log holds s n pending starting)
    (hp : starting = some .started → holds = true → pending' = pending) : StartFits log holds s n pending' starting := by
  match starting, h with
  | none, h | some .electing, h | some (.elected _), h | some (.finding _), h | some (.reading _ _), h => exact h
  | some .started, h => exact fun ht => (hp rfl ht) ▸ h ht
  | some .failed, _ => trivial

def Process.unread (p : Process) : Bool :=
  match p.starting with
  | some (.elected _) | some (.finding _) | some (.reading _ _) | some .failed => true
  | none | some .electing | some .started => false

def Process.truncates (p : Process) : Bool :=
  match p.working with
  | .truncating _ none => true
  | _ => false

namespace Fits

variable {svn : Svn} {limit : Nat} {log log' : SharedLog} {holds holds' : Bool} {p : Process} {n : Nat}
  (h : Fits svn limit log holds p n)
include h

/-- **What others write, and losing the promise, leave a process as it is.** -/
theorem mono (he : log.Extends log') (hh : holds' = true → holds = true ∧ log'.entries = log.entries) :
    Fits svn limit log' holds' p n := by
  obtain ⟨_, ht, hpa⟩ := he.entries
  refine ⟨fun hs => (h.knows hs).mono he, h.starting.mono he hh, ?_⟩
  have hwo := h.working
  match hw : p.working, hwo with
  | .appending .., hwo =>
    refine ⟨hwo.1, hwo.2.1, fun position hl => ?_⟩
    obtain ⟨hget, hv⟩ := hwo.2.2 position hl
    obtain ⟨hlt, -⟩ := List.getElem?_eq_some_iff.1 hget
    rw [ht, getElem?_append_left hlt, take_append_of_le_length hlt.le]
    exact ⟨hget, hv⟩
  | .truncating .., hwo =>
    refine ⟨fun hf => ⟨(hwo.1 hf).1.trans he.ending, (hwo.1 hf).2⟩, fun position hl => ?_⟩
    obtain ⟨hs, hend, hlt⟩ := hwo.2 position hl
    refine ⟨hs, hend.trans he.ending, fun e hm => ?_⟩
    have hse := (h.knows (by rw [hs]; decide)).seen
    rw [ht, drop_append_of_le_length hse] at hm
    rcases mem_append.1 hm with hm | hm
    · exact hlt e hm
    · exact hend.trans_lt (hpa e hm)
  | .idle, _ | .locked _, _ | .waiting _, _ => trivial

theorem lost : Fits svn limit log false p n :=
  h.mono (refl log) nofun

theorem queued (queue : List Job) : Fits svn limit log holds { p with queue := queue } n :=
  ⟨h.knows, h.starting, h.working⟩

theorem quiet {w : Working} (hw : w.Quiet)
    (hp : holds = true → p.working.pending = 0) : Fits svn limit log holds { p with working := w } n := by
  have hz : w.pending = 0 := by
    cases w with
    | idle | locked | waiting => rfl
    | appending | truncating => exact hw.elim
  refine ⟨h.knows, h.starting.pending fun _ ht => hz.trans (hp ht).symm, ?_⟩
  cases w with
  | idle | locked | waiting => trivial
  | appending | truncating => exact hw.elim

/-- **A process that is not yet started moves on.**  Nothing of it is being appended, and a truncation it may have sent
has not been written. -/
theorem move {s : LogStorage} {starting : Option Starting} {n' : Nat}
    (hp : p.starting ≠ some .started) (hf : p.starting ≠ some .failed) (hk : starting ≠ some .failed → Knows log s n')
    (ha : starting ≠ some .failed → ∀ m, p.storage.Above m → s.Above m) (hs : StartFits log holds' s n' 0 starting) :
    Fits svn limit log holds' { p with storage := s, starting := starting } n' := by
  have hw := h.working
  have hpe : p.working.pending = 0 := by
    match p.working, hw with
    | .appending .., hw => exact absurd hw.1 hp
    | .truncating .., _ | .idle, _ | .locked _, _ | .waiting _, _ => rfl
  refine ⟨hk, hs.pending fun _ _ => hpe, ?_⟩
  match p.working, hw with
  | .appending .., hw => exact absurd hw.1 hp
  | .truncating minimum _, hw =>
    obtain ⟨hend, habove⟩ := hw.1 hf
    exact ⟨fun hs => ⟨hend, ha hs minimum habove⟩, fun position hl => absurd (hw.2 position hl).1 hp⟩
  | .idle, _ | .locked _, _ | .waiting _, _ => trivial

/-! ## The steps of a process -/

theorem start : Fits svn limit log holds p.start n := by
  unfold Process.start
  split
  next hs =>
    have hst := h.starting
    rw [hs] at hst
    exact h.move (by rw [hs]; decide) (by rw [hs]; decide) (fun _ => h.knows (by rw [hs]; decide)) (fun _ _ hm => hm) hst
  · exact h

omit h

theorem start_working (p : Process) : p.start.working = p.working := by
  unfold Process.start
  split
  · rfl
  · rfl

variable (h : Fits svn limit log holds p n)
include h

theorem lock : Fits svn limit log holds p.lock n := by
  unfold Process.lock
  split
  next hw _ =>
    exact (h.quiet (w := .locked _) trivial fun _ => by rw [hw]; rfl).queued _
  · exact h

variable {p' : Process}

theorem enter (hl : log.Sound) (hp : p.enter = some p') : Fits svn limit log holds p' n := by
  unfold Process.enter at hp
  split at hp
  next hw =>
    cases hp
    exact h.start.quiet trivial fun _ => by rw [start_working, hw]; rfl
  next hw =>
    have hpe : p.working.pending = 0 := by rw [hw]; rfl
    split at hp
    · cases hp
    · cases hp
      exact h.quiet trivial fun _ => hpe
    rename_i minimum hm
    cases hp
    refine ⟨h.knows, h.starting.pending fun _ _ => hpe.symm, fun hf => ?_, nofun⟩
    have hk := h.knows hf
    have hmin : p.storage.minimum = some minimum := by
      unfold LogStorage.truncate at hm
      split at hm
      · cases hm
      · exact (Option.filter_eq_some_iff.1 (Except.ok.inj hm)).1
    obtain ⟨-, name, x, hx, hpos⟩ := LogStorage.minimum_spec hmin
    obtain ⟨e, he, -, hat⟩ := hk.located name x hx
    have := hl.ending e he
    exact ⟨by omega, hk.cached.above hmin⟩
  · cases hp
    exact h

theorem proceed : Fits svn limit log holds (p.proceed svn limit) n := by
  unfold Process.proceed
  split
  next hw hs =>
    have hpe : p.working.pending = 0 := by rw [hw]; rfl
    split
    next hpr =>
      exact ⟨h.knows, h.starting.pending fun _ _ => hpe.symm, hs, hpr, nofun⟩
    · exact h.quiet trivial fun _ => hpe
  next hw _ =>
    exact h.quiet trivial fun _ => by rw [hw]; rfl
  · exact h

theorem promise (hl : log.Sound) (hs : p.starting = some .electing) :
    Fits svn limit log true { p with starting := some (.elected log.ending) } n := by
  have hk := h.knows (by rw [hs]; decide)
  exact h.move (by rw [hs]; decide) (by rw [hs]; decide) (fun _ => hk) (fun _ _ hm => hm) ⟨fun _ => hl.ending, hk.index, le_rfl⟩

theorem elected (hp : p.elected = some p') : Fits svn limit log holds p' n := by
  unfold Process.elected at hp
  split at hp
  next hs =>
    have hst := h.starting
    rw [hs] at hst
    have hk := h.knows (by rw [hs]; simp)
    split at hp
    next hi =>
      split at hp
      · cases hp
        refine h.move (by rw [hs]; simp) (by rw [hs]; simp) (fun _ => hk) (fun _ _ hm => hm)
          ⟨hst, fun hno => ?_, fun _ hso => ?_⟩
        · rw [hi] at hno
          cases hno
        · exact Option.some.inj (hi.symm.trans hso)
      · cases hp
    next hi =>
      cases hp
      exact h.move (by rw [hs]; simp) (by rw [hs]; simp) (fun _ => hk) (fun _ _ hm => hm) ⟨hst, hi⟩
  · cases hp
    exact h

theorem refused : Fits svn limit log holds p.refused n := by
  unfold Process.refused
  split
  next hs =>
    have hst := h.starting
    rw [hs] at hst
    exact h.move (by rw [hs]; decide) (by rw [hs]; decide) (fun _ => h.knows (by rw [hs]; decide)) (fun _ _ hm => hm) hst
  · exact h

theorem found (beginning : Nat) : Fits svn limit log holds (p.found log beginning) n := by
  unfold Process.found
  split
  next hs =>
    split
    next hb =>
      have hst := h.starting
      rw [hs] at hst
      obtain ⟨hc, hi⟩ := hst
      refine h.move (by rw [hs]; simp) (by rw [hs]; simp) (fun _ => (h.knows (by rw [hs]; simp)).truncated _)
        (fun _ _ hm => hm) ⟨⟨hc.held, hc.index, hc.ending⟩, fun _ => hb, fun _ hso => ?_⟩
      exact nomatch hi.symm.trans hso
    · exact h
  · exact h

/-- **The entries read up to the position of the election are all there are, if the promise is still held.** -/
theorem applied (hl : log.Sound)
    (hp : p.applied svn log = some p') : ∃ n', Fits svn limit log holds p' n' := by
  unfold Process.applied at hp
  split at hp
  next hs =>
    have hst := h.starting
    rw [hs] at hst
    obtain ⟨hc, hfr, hfi⟩ := hst
    have hk := h.knows (by rw [hs]; simp)
    split at hp
    next ha =>
      cases hp
      obtain ⟨n', hk', hpa⟩ := hk.read hl (fun k hi => ⟨hfi k hi, hc.index k hi⟩) hfr hc.ending ha
      refine ⟨n', h.move (by rw [hs]; simp) (by rw [hs]; simp) (fun _ => hk')
        (fun _ _ => LogStorage.apply_invariant LogStorage.Above.applyEntry ha) fun ht => ?_⟩
      have hnil : log.entries.drop n' = [] := by
        refine eq_nil_iff_forall_not_mem.2 fun e he => ?_
        have := hpa e he
        have := hc.held ht e (mem_of_mem_drop he)
        omega
      have := drop_eq_nil_iff.1 hnil
      have := hk'.seen
      omega
    · cases hp
      exact ⟨n, h.move (by rw [hs]; simp) (by rw [hs]; simp) (fun hf => absurd rfl hf) (fun hf => absurd rfl hf) trivial⟩
    · cases hp
  · cases hp
    exact ⟨n, h⟩

theorem fail : Fits svn limit log holds p.fail n := by
  unfold Process.fail
  split
  case h_4 => exact h
  all_goals
    rename_i hs
    exact h.move (by rw [hs]; simp) (by rw [hs]; simp) (fun hf => absurd rfl hf) (fun hf => absurd rfl hf) trivial

/-! ## What the writer is asked for -/

variable {c : Call} {diffs : Nat} {operation : Operation}

omit h

/-- **A record is written after everything the process has seen.** -/
theorem append (h : Fits svn limit log true p n) (hw : p.working = .appending c operation diffs none) (gap : Nat) :
    Fits svn limit (log.append gap operation) true
      { p with working := .appending c operation diffs (some (log.next gap)) } n := by
  have hwo := h.working
  rw [hw] at hwo
  have hs := h.starting
  rw [hwo.1, hw] at hs
  have hn : n = log.entries.length := hs rfl
  have hk := h.knows (by rw [hwo.1]; decide)
  refine ⟨fun _ => hk.mono (log.extends_append gap operation), ?_, hwo.1, hwo.2.1, fun _ hl => ?_⟩
  · rw [hwo.1]
    intro _
    show n + 1 = (log.entries ++ [_]).length
    rw [hn, length_append]
    rfl
  · cases hl
    refine ⟨?_, ?_⟩
    · rw [hn]
      exact getElem?_concat_length
    · show _ = version none ((log.entries ++ [_]).take n) _
      rw [hn, take_left]
      exact hk.all hn _

variable {minimum : Nat}

/-- **A truncation that is written by a process that has started keeps an entry of every name.**  It may have been sent
before the entries that were then read. -/
theorem truncate (h : Fits svn limit log true p n) (hl : log.Sound) (hr : p.unread = false)
    (hw : p.working = .truncating minimum none) (gap : Nat) :
    (log.truncate gap minimum).Sound ∧ Fits svn limit (log.truncate gap minimum) true
      { p with working := .truncating minimum (some (log.next gap)) } n := by
  have hs : p.starting = some .started := by
    have hst := h.starting
    unfold Process.unread at hr
    match p.starting, hst, hr with
    | none, hst, _ | some .electing, hst, _ => exact nomatch hst
    | some .started, _, _ => rfl
  have hwo := h.working
  rw [hw] at hwo
  obtain ⟨hend, habove⟩ := hwo.1 (by rw [hs]; decide)
  have hst := h.starting
  rw [hs, hw] at hst
  have hn : n = log.entries.length := hst rfl
  have hk := h.knows (by rw [hs]; decide)
  have hm : Fits svn limit (log.truncate gap minimum) true p n :=
    h.mono (log.extends_truncate gap minimum) fun _ => ⟨rfl, rfl⟩
  refine ⟨hl.truncate gap hend fun name hv => ?_, ⟨hm.knows, hm.starting.pending fun _ _ => by rw [hw]; rfl,
    ⟨fun _ => ⟨hend.trans (log.extends_truncate gap minimum).ending, habove⟩, fun _ hp => ⟨hs, ?_, fun e he => ?_⟩⟩⟩⟩
  · rw [← hk.all hn] at hv
    cases hx : p.storage.snapshots.lookup name with
    | none => exact absurd (by unfold Snapshots.version; rw [hx]; rfl) hv
    | some x =>
      obtain ⟨e, he, hen, hpos⟩ := hk.located name x hx
      exact ⟨e, he, hen, hpos ▸ habove.2 name x hx⟩
  · cases hp
    exact le_rfl
  · rw [hn] at he
    exact absurd he (by show e ∉ log.entries.drop _; rw [drop_length]; exact not_mem_nil)

variable {position : Nat} (h : Fits svn limit log holds p n)
include h

/-- **A call that is answered with a position is recorded**, and the process has seen its record. -/
theorem acknowledge (hl : log.Sound) (hw : p.working = .appending c operation diffs (some position)) :
    Recorded log c position ∧ ∃ storage, p.storage.appended diffs position c = .ok storage ∧
      Fits svn limit log holds { p with storage := storage, working := .idle } (n + 1) := by
  have hwo := h.working
  rw [hw] at hwo
  obtain ⟨hs, hpr, hla⟩ := hwo
  obtain ⟨hget, hv⟩ := hla position rfl
  obtain ⟨hlt, hg⟩ := List.getElem?_eq_some_iff.1 hget
  have hk := h.knows (by rw [hs]; decide)
  obtain ⟨hna, hr, hpe, hap⟩ := LogStorage.prepare_spec hk.keyed hpr
  have hst := h.starting
  rw [hs, hw] at hst
  have hdr : log.entries.drop n = { position := position, operation := operation } :: log.entries.drop (n + 1) :=
    hg ▸ drop_eq_getElem_cons hlt
  refine ⟨⟨log.entries.take n, operation, log.entries.drop (n + 1), ?_, hna, hr, ?_⟩, ?_⟩
  · rw [← hdr, take_append_drop]
  · rw [← hna, ← hv, hna]
    exact hpe
  obtain ⟨_, ha, hd⟩ := hap position
  have hasc : ∀ e ∈ log.entries.drop (n + 1), position < e.position := by
    have := hl.ascending
    rw [← take_append_drop n log.entries, hdr] at this
    exact (pairwise_cons.1 (pairwise_append.1 this).2.1).1
  have hi : ∀ s, Knows log s (n + 1) →
      Fits svn limit log holds { p with storage := s, working := .idle } (n + 1) := by
    intro _ hks
    refine ⟨fun _ => hks, ?_, trivial⟩
    rw [hs]
    exact hst
  have hu : ∀ e ∈ log.entries.drop (n + 1), p.storage.index.all (· < e.position) = true :=
    fun e he => hk.unseen e (hdr ▸ mem_cons_of_mem _ he)
  rcases hd with hd | ⟨hd, name, rfl⟩
  · have hend := hl.ending _ (mem_of_getElem? hget)
    obtain ⟨_, hra, hle, hall⟩ := LogStorage.raise_spec p.storage.index position
    exact ⟨_, hd, hi _ (hk.next hget ha (fun e he => LogStorage.raise_lt (hu e he) (hasc e he))
      (LogStorage.raise_le hk.index hend) (by rw [hra]; exact hk.cached.apply ha hle hall))⟩
  · exact ⟨_, hd, hi _ (hk.next hget ha hu hk.index (hk.cached.erase name))⟩

theorem truncated (hw : p.working = .truncating minimum (some position)) : Fits svn limit log holds
      { p with storage := p.storage.truncateAppended minimum position, working := .idle } n := by
  have hwo := h.working
  rw [hw] at hwo
  obtain ⟨hs, hend, hlt⟩ := hwo.2 position rfl
  have hst := h.starting
  rw [hs, hw] at hst
  refine ⟨fun _ => ((h.knows (by rw [hs]; decide)).raise hend hlt).truncated _, ?_, trivial⟩
  rw [hs]
  exact hst

end Fits

/-! ## All processes -/

namespace World

variable {ι : Type} [DecidableEq ι]

structure Consistent (svn : Svn) (diffsBetweenSnapshots : Nat) (w : World ι) : Prop where
  sound : w.log.Sound
  fits : ∀ i p, w.processes i = some p → ∃ n, Fits svn diffsBetweenSnapshots w.log (w.holds i) p n
  recorded : ∀ c position, (c, position) ∈ w.acknowledged → Recorded w.log c position

variable {svn : Svn} {limit : Nat} {w w' : World ι} {i : ι}

theorem put_same (w : World ι) (i : ι) (p : Option Process) : (w.put i p).processes i = p := Function.update_self ..

theorem put_other (w : World ι) {i j : ι} (p : Option Process) (h : j ≠ i) :
    (w.put i p).processes j = w.processes j := Function.update_of_ne h ..

section
variable (h : w.Consistent svn limit)
include h

/-- **A step of one process**: the log grows, and no other process gets the promise, or keeps it while entries are
written. -/
theorem Consistent.change (i : ι)
    (ho : ∀ j, j ≠ i → w'.processes j = w.processes j) (he : w.log.Extends w'.log) (hs : w'.log.Sound)
    (hh : ∀ j, j ≠ i → w'.holds j = true → w.holds j = true ∧ w'.log.entries = w.log.entries)
    (hi : ∀ p, w'.processes i = some p → ∃ n, Fits svn limit w'.log (w'.holds i) p n)
    (ha : ∀ c position, (c, position) ∈ w'.acknowledged →
      (c, position) ∈ w.acknowledged ∨ Recorded w'.log c position) : w'.Consistent svn limit := by
  refine ⟨hs, fun j p hp => ?_, fun c position hc => ?_⟩
  · by_cases hj : j = i
    · subst hj
      exact hi p hp
    · rw [ho j hj] at hp
      obtain ⟨n, hn⟩ := h.fits j p hp
      exact ⟨n, hn.mono he (hh j hj)⟩
  · exact (ha c position hc).elim (fun hc => (h.recorded c position hc).mono he) id

theorem Consistent.put {p' : Option Process}
    (hp : ∀ p, p' = some p → ∃ n, Fits svn limit w.log (w.holds i) p n) :
    (w.put i p').Consistent svn limit := by
  refine h.change i (fun j hj => put_other w p' hj) (refl _) h.sound (fun _ _ ht => ⟨ht, rfl⟩)
    (fun p hq => ?_) fun _ _ hc => .inl hc
  rw [put_same] at hq
  exact hp p hq

theorem Consistent.update {f : Process → Option Process}
    (hf : ∀ p n, w.processes i = some p → Fits svn limit w.log (w.holds i) p n → ∀ p', f p = some p' →
      ∃ n', Fits svn limit w.log (w.holds i) p' n') :
    (w.update i f).Consistent svn limit := by
  unfold World.update
  split
  · exact h
  next p hp =>
    obtain ⟨n, hn⟩ := h.fits i p hp
    exact h.put (hf p n hp hn)

theorem Consistent.update_some {f : Process → Process}
    (hf : ∀ {p n}, Fits svn limit w.log (w.holds i) p n → Fits svn limit w.log (w.holds i) (f p) n) :
    (w.update i fun p => some (f p)).Consistent svn limit := by
  refine h.update fun p n _ hn p' hp' => ?_
  cases hp'
  exact ⟨n, hf hn⟩

end

theorem holds_lose (w : World ι) (i : ι) : (w.lose i).holds i = false := by
  unfold lose holds
  split
  · simp
  · simpa using ‹_›

theorem holds_of_lose {w : World ι} {i j : ι} (h : (w.lose i).holds j = true) : w.holds j = true := by
  unfold lose holds at h
  split at h
  · simp at h
  · exact h

variable (h : w.Consistent svn limit)
include h

theorem Consistent.lose (i : ι) : (w.lose i).Consistent svn limit := by
  refine ⟨h.sound, fun j p hp => ?_, h.recorded⟩
  obtain ⟨n, hn⟩ := h.fits j p hp
  exact ⟨n, hn.mono (refl _) fun ht => ⟨holds_of_lose ht, rfl⟩⟩

theorem Consistent.promise (i : ι) : (w.promise i).Consistent svn limit := by
  unfold World.promise
  split
  · exact h
  rename_i p hp
  split
  next hs =>
    refine h.change i (fun j hj => put_other w _ hj) (refl _) h.sound (fun _ hj ht => ?_)
      (fun _ hq => ?_) fun _ _ hc => .inl hc
    · exact absurd (Option.some.inj (of_decide_eq_true ht)).symm hj
    cases (put_same w i _).symm.trans hq
    obtain ⟨n, hn⟩ := h.fits i p hp
    have hse : holds { w.put i (some { p with starting := some (.elected w.log.ending) }) with
        holder := some i } i = true := decide_eq_true rfl
    rw [hse]
    exact ⟨n, hn.promise h.sound hs⟩
  · exact h

/-- **What lands comes from the one that holds the promise.** -/
theorem Consistent.land (i : ι) (gap : Nat)
    (hc : ∀ p, w.processes i = some p → p.truncates = true → p.unread = false) :
    (w.land i gap).Consistent svn limit := by
  unfold World.land
  split
  · exact h
  rename_i p hp
  split
  next hold =>
    have hh : w.holds i = true := decide_eq_true hold
    have ho : ∀ j, j ≠ i → w.holds j = true → False :=
      fun j hj ht => hj (Option.some.inj (hold.symm.trans (of_decide_eq_true ht))).symm
    obtain ⟨n, hn⟩ := h.fits i p hp
    rw [hh] at hn
    split
    next c operation diffs hw =>
      refine h.change i (fun j hj => put_other w _ hj) (w.log.extends_append gap operation) (h.sound.append gap operation)
        (fun j hj ht => (ho j hj ht).elim) (fun q hq => ?_) fun c position hc => .inl hc
      cases (put_same w i _).symm.trans hq
      exact ⟨n, hh.symm ▸ hn.append hw gap⟩
    next minimum hw =>
      obtain ⟨hs, hf⟩ := hn.truncate h.sound (hc p hp (by unfold Process.truncates; rw [hw])) hw gap
      refine h.change i (fun j hj => put_other w _ hj) (w.log.extends_truncate gap minimum) hs
        (fun j hj ht => (ho j hj ht).elim) (fun _ hq => ?_) fun _ _ hc => .inl hc
      cases (put_same w i _).symm.trans hq
      exact ⟨n, hh.symm ▸ hf⟩
    · exact h
  · exact h

/-- **Only what is recorded is acknowledged.** -/
theorem Consistent.reply (i : ι) (answer : Answer) : (w.reply i answer).Consistent svn limit := by
  unfold World.reply
  split
  · exact h
  rename_i p hp
  obtain ⟨n, hn⟩ := h.fits i p hp
  -- an append that is not answered with a position: the promise is lost
  have hl : ∀ p' : Process, Fits svn limit w.log false p' n →
      ((w.lose i).put i (some p')).Consistent svn limit := by
    intro _ hp'
    refine (h.lose i).put fun q hq => ?_
    cases hq
    rw [holds_lose]
    exact ⟨n, hp'⟩
  split
  next hw =>
    obtain ⟨hrec, _, hok, hfi⟩ := hn.acknowledge h.sound hw
    rw [hok]
    refine h.change i (fun j hj => put_other w _ hj) (refl _) h.sound (fun _ _ ht => ⟨ht, rfl⟩)
      (fun q hq => ?_) fun _ _ hc => ?_
    · cases (put_same w i _).symm.trans hq
      exact ⟨n + 1, hfi.queued _⟩
    rcases mem_append.1 hc with hc | hc
    · exact .inl hc
    · cases mem_singleton.1 hc
      exact .inr hrec
  next hw =>
    have hwo := hn.working
    rw [hw] at hwo
    exact hl _ ⟨fun _ => hn.knows (by rw [hwo.1]; decide), rfl, trivial⟩
  · exact hl _ (hn.lost.quiet trivial fun hf => by cases hf)
  next hw =>
    refine h.put fun _ hq => ?_
    cases hq
    exact ⟨n, hn.truncated hw⟩
  next hw =>
    refine h.put fun _ hq => ?_
    cases hq
    exact ⟨n, hn.quiet trivial fun _ => by rw [hw]; rfl⟩
  next hw =>
    refine h.put fun _ hq => ?_
    cases hq
    exact ⟨n, hn.quiet trivial fun _ => by rw [hw]; rfl⟩
  · exact h

/-- No truncation is written between the election of a writer and the end of the start it was elected in. -/
def TruncatesRead (w : World ι) : Event ι → Prop
  | .land i _ => ∀ p, w.processes i = some p → p.truncates = true → p.unread = false
  | _ => True

theorem Consistent.step (e : Event ι) (hc : w.TruncatesRead e) : (w.step svn limit e).Consistent svn limit := by
  cases e with
  | get => exact h.update_some fun hn => hn.start
  | call => exact h.update_some fun hn => hn.queued _
  | lock => exact h.update_some fun hn => hn.lock
  | enter => exact h.update fun p n _ hn p' hp' => ⟨n, hn.enter h.sound hp'⟩
  | proceed => exact h.update_some fun hn => hn.proceed
  | promise i => exact h.promise i
  | elected => exact h.update fun p n _ hn p' hp' => ⟨n, hn.elected hp'⟩
  | refused => exact h.update_some fun hn => hn.refused
  | found _ beginning => exact h.update_some fun hn => hn.found beginning
  | applied => exact h.update fun p n _ hn p' hp' => hn.applied h.sound hp'
  | fail => exact h.update_some fun hn => hn.fail
  | land i gap => exact h.land i gap hc
  | reply i answer => exact h.reply i answer
  | demote =>
    refine ⟨h.sound, fun j p hp => ?_, h.recorded⟩
    obtain ⟨n, hn⟩ := h.fits j p hp
    exact ⟨n, hn.lost⟩
  | restart i =>
    refine (h.lose i).put fun _ hq => ?_
    cases hq
    rw [holds_lose]
    exact ⟨0, fun _ => Knows.start _, rfl, trivial⟩

omit h

theorem consistent_fresh : (fresh : World ι).Consistent svn limit where
  sound :=
    { ascending := List.Pairwise.nil
      ending := nofun
      beginning := le_rfl
      kept := fun _ hv => absurd rfl hv }
  fits i p hp := by
    cases hp
    exact ⟨0, fun _ => Knows.start _, rfl, trivial⟩
  recorded _ _ hc := nomatch hc

instance (w : World ι) (e : Event ι) : Decidable (w.TruncatesRead e) :=
  match e with
  | .land i _ =>
    match h : w.processes i with
    | none => .isTrue fun p hp => by rw [h] at hp; cases hp
    | some p =>
      decidable_of_iff (p.truncates = true → p.unread = false)
        ⟨fun hp q hq => by rw [h] at hq; cases hq; exact hp, fun hp => hp p h⟩
  | .get _ | .call _ _ | .lock _ | .enter _ | .proceed _ | .promise _ | .elected _ | .refused _ | .found _ _ | .applied _
  | .fail _ | .reply _ _ | .demote | .restart _ => inferInstanceAs (Decidable True)

def starting (i : Fin 2) : List (Event (Fin 2)) :=
  [.get i, .promise i, .elected i, .found i 0, .applied i]

def calling (i : Fin 2) : List (Event (Fin 2)) := [.lock i, .enter i, .proceed i]

/-- The first process sets a name, the second takes over, replaces the entry and truncates the log up to it. -/
def takeover : List (Event (Fin 2)) :=
  starting 0 ++ [.call 0 (.set { name := "x", uuid := 1, value := [1] } 0)] ++ calling 0 ++
    [.land 0 0, .call 0 (.set { name := "y", uuid := 2, value := [2] } 0), .reply 0 .position] ++
  starting 1 ++ [.call 1 (.set { name := "x", uuid := 3, value := [3] } 1)] ++ calling 1 ++
    [.land 1 0, .reply 1 .position, .lock 1, .enter 1, .land 1 0, .reply 1 .position]

/-- The first process finds that it has lost the promise.  It is started again, and its writer elected; its truncation,
which was waiting for the mutex, comes before the entries are read.  It then sets the name as it knew it. -/
def overtaken : List (Event (Fin 2)) :=
  takeover ++ calling 0 ++ [.reply 0 .none, .get 0, .promise 0, .lock 0, .enter 0, .land 0 0, .elected 0,
    .reply 0 .position, .applied 0, .call 0 (.set { name := "x", uuid := 4, value := [4] } 1)] ++ calling 0 ++
    [.land 0 0, .reply 0 .position]

def overtakenLog : SharedLog where
  entries :=
    [{ position := 1, operation := .snapshot { name := "x", uuid := 1, value := [1] } },
     { position := 2, operation := .snapshot { name := "x", uuid := 3, value := [3] } },
     { position := 5, operation := .snapshot { name := "x", uuid := 4, value := [4] } }]
  beginning := 2
  ending := 5

end World

end Clusterd.State
