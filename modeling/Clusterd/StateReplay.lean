import Clusterd.Fallible
import Clusterd.StateStorage
/-!
# Replaying the log

A process that starts on the log rebuilds the writer's snapshots from the entries left (`Replays`).  A truncation keeps the
snapshot that every current entry needs, but not those which overwritten or expunged ones needed: a diff left behind without its
snapshot (`Grounded`) makes the replay abort, and nothing else does.
-/
namespace Clusterd.State

open List Snapshots Snapshot

namespace Snapshots

theorem lookup_insert (c : Snapshots) (s : Snapshot) (a name : String) :
    (c.insert a s).lookup name = if name = a then some s else c.lookup name := by
  by_cases h : name = a
  · subst h
    rw [if_pos rfl, AList.lookup_insert]
  · rw [if_neg h, AList.lookup_insert_ne h]

theorem lookup_erase (c : Snapshots) (a name : String) :
    (c.erase a).lookup name = if name = a then none else c.lookup name := by
  by_cases h : name = a
  · subst h
    rw [if_pos rfl, AList.lookup_erase]
  · rw [if_neg h, AList.lookup_erase_ne h]

end Snapshots

variable {svn : Svn}

theorem Snapshot.patch_spec {s patched : Snapshot} {diff : Entry} (h : s.patch svn diff = .ok patched) :
    patched.entry.name = diff.name ∧ patched.position = s.position ∧ patched.entry.uuid = diff.uuid := by
  unfold patch at h
  split at h
  · cases h
  split at h
  · cases h
  · cases h
    exact ⟨rfl, rfl, rfl⟩

inductive Applies (svn : Svn) (c : Snapshots) (e : LogEntry) : Snapshots → Prop
  | snapshot (entry : Entry) : e.operation = .snapshot entry →
      Applies svn c e (c.insert entry.name { position := e.position, entry := entry })
  | diff (entry : Entry) (s patched : Snapshot) : e.operation = .diff entry → c.lookup entry.name = some s →
      s.patch svn entry = .ok patched → Applies svn c e (c.insert entry.name patched)
  | expunge (name : String) : e.operation = .expunge name → Applies svn c e (c.erase name)

variable {e : LogEntry} {c c' : Snapshots}

theorem Snapshots.apply_ok : apply svn c e = .ok c' ↔ Applies svn c e c' := by
  constructor
  · intro h
    unfold apply at h
    split at h
    · cases h
      exact .snapshot _ ‹_›
    · split at h
      · cases h
      split at h
      · cases h
      rename_i hp
      cases h
      rw [(patch_spec hp).1]
      exact .diff _ _ _ ‹_› ‹_› hp
    · cases h
      exact .expunge _ ‹_›
  · intro h
    cases h with
    | snapshot entry he | expunge name he => simp only [apply, he]
    | diff _ _ _ he hs hp => simp only [apply, he, hs, hp, (patch_spec hp).1]

def Snapshots.replay (svn : Svn) (c : Snapshots) (es : List LogEntry) : Except Fault Snapshots :=
  es.foldlM (Snapshots.apply svn) c

variable {es : List LogEntry}

theorem replay_cons : replay svn c (e :: es) = .ok c' ↔
      ∃ d, apply svn c e = .ok d ∧ replay svn d es = .ok c' := by
  unfold replay
  rw [foldlM_cons]
  cases apply svn c e with
  | error | ok => simp [bind, Except.bind]

theorem replay_append {es' : List LogEntry} : replay svn c (es ++ es') = .ok c' ↔
      ∃ d, replay svn c es = .ok d ∧ replay svn d es' = .ok c' := by
  unfold replay
  rw [foldlM_append]
  cases es.foldlM (apply svn) c with
  | error | ok => simp [bind, Except.bind]

def Past : Option Nat → List LogEntry → Prop
  | _, [] => True
  | index, e :: es => index.all (· < e.position) = true ∧ Past (some e.position) es

/-- **A process applies every entry past its index.** -/
theorem apply_past {svn : Svn} : ∀ {es : List LogEntry} {s : LogStorage}, Past s.index es → ∀ {c : Snapshots},
    replay svn s.snapshots es = .ok c ↔ ∃ s', s.apply svn es = (s', none) ∧ s'.snapshots = c
  | [], s, _, c => by
    constructor
    · intro h
      cases h
      exact ⟨s, rfl, rfl⟩
    · rintro ⟨_, hs, rfl⟩
      cases hs
      rfl
  | e :: es, s, h, c => by
    rw [replay_cons]
    simp only [LogStorage.apply, LogStorage.applyEntry, h.1, if_true]
    cases ha : apply svn s.snapshots e with
    | error => simp
    | ok d =>
      have ih := @apply_past svn es { s with snapshots := d, index := some e.position } h.2 c
      simpa using ih

/-! ## Diffs with and without their snapshot -/
/-- Every diff comes after a snapshot of its name; `seen` are the names that have one already. -/
def Grounded (seen : List String) : List LogEntry → Prop
  | [] => True
  | e :: es =>
    match e.operation with
    | .snapshot entry => Grounded (entry.name :: seen) es
    | .diff entry => entry.name ∈ seen ∧ Grounded seen es
    | .expunge _ => Grounded seen es

def seenWith (seen : List String) (e : LogEntry) : List String :=
  match e.operation with
  | .snapshot entry => entry.name :: seen
  | _ => seen

variable {seen : List String}

theorem grounded_cons : Grounded seen (e :: es) ↔
      (∀ entry, e.operation = .diff entry → entry.name ∈ seen) ∧ Grounded (seenWith seen e) es := by
  cases h : e.operation with
  | snapshot | diff | expunge => simp [Grounded, seenWith, h]

/-- **A replay that succeeds is grounded**, when it starts with snapshots of names that had one. -/
theorem grounded_of_replay : ∀ {es : List LogEntry} {seen : List String} {c c' : Snapshots},
    (∀ name s, c.lookup name = some s → name ∈ seen) → replay svn c es = .ok c' → Grounded seen es
  | [], _, _, _, _, _ => trivial
  | e :: es, seen, c, c', hc, h => by
    obtain ⟨_, hd, hes⟩ := replay_cons.1 h
    have ha := apply_ok.1 hd
    rw [grounded_cons]
    refine ⟨fun entry he => ?_, grounded_of_replay (fun name s hs => ?_) hes⟩
    · cases ha with
      | snapshot entry' he' | expunge name he' => rw [he] at he'; cases he'
      | diff _ s _ he' hs =>
        rw [he] at he'
        cases he'
        exact hc _ s hs
    unfold seenWith
    cases ha with
    | snapshot _ he =>
      rw [lookup_insert] at hs
      rw [he]
      split at hs
      next hn =>
        exact hn ▸ mem_cons_self
      · exact mem_cons_of_mem _ (hc name s hs)
    | diff _ s' _ he hs' =>
      rw [lookup_insert] at hs
      rw [he]
      split at hs
      next hn =>
        exact hn ▸ hc _ s' hs'
      · exact hc name s hs
    | expunge _ he =>
      rw [lookup_erase] at hs
      rw [he]
      split at hs
      · cases hs
      · exact hc name s hs

/-- The snapshots `c'` rebuilt from `b` on, beside the snapshots `c` of the whole log: a name whose snapshot lies before
`b` may be missing, unless it has been seen since. -/
def Rebuilds (b : Nat) (seen : List String) (c c' : Snapshots) : Prop :=
  ∀ name, c'.lookup name = c.lookup name ∨
    (name ∉ seen ∧ c'.lookup name = none ∧ ∀ s, c.lookup name = some s → s.position < b)

variable {b : Nat}

theorem Rebuilds.step {d : Snapshots}
    (h : Rebuilds b seen c c') (hc : Applies svn c e d) (hg : ∀ entry, e.operation = .diff entry → entry.name ∈ seen) :
    ∃ d', Applies svn c' e d' ∧ Rebuilds b (seenWith seen e) d d' := by
  unfold seenWith
  cases hc with
  | snapshot entry he =>
    refine ⟨_, .snapshot entry he, fun name => ?_⟩
    rw [he, lookup_insert, lookup_insert]
    by_cases hn : name = entry.name
    · exact .inl (by rw [if_pos hn, if_pos hn])
    · rw [if_neg hn, if_neg hn]
      refine (h name).imp id (fun ⟨hs, hr⟩ => ⟨fun hm => ?_, hr⟩)
      exact (mem_cons.1 hm).elim hn hs
  | diff entry s patched he hs hp =>
    -- the diff's name has been seen, so both sides hold the same snapshot
    have hsa := (h entry.name).resolve_right (fun hno => hno.1 (hg entry he))
    refine ⟨_, .diff entry s patched he (hsa.trans hs) hp, fun name => ?_⟩
    rw [he, lookup_insert, lookup_insert]
    by_cases hn : name = entry.name
    · exact .inl (by rw [if_pos hn, if_pos hn])
    · rw [if_neg hn, if_neg hn]
      exact h name
  | expunge n he =>
    refine ⟨_, .expunge n he, fun name => ?_⟩
    rw [he, lookup_erase, lookup_erase]
    by_cases hn : name = n
    · exact .inl (by rw [if_pos hn, if_pos hn])
    · rw [if_neg hn, if_neg hn]
      exact h name

/-- **A grounded replay succeeds** and keeps rebuilding. -/
theorem Rebuilds.replay : ∀ {es : List LogEntry} {seen : List String} {c c' d : Snapshots},
    Rebuilds b seen c c' → replay svn c es = .ok d → Grounded seen es →
    ∃ d' seen', replay svn c' es = .ok d' ∧ Rebuilds b seen' d d'
  | [], seen, c, c', d, h, hc, _ => by
    cases hc
    exact ⟨c', seen, rfl, h⟩
  | e :: es, seen, c, c', d, h, hc, hg => by
    obtain ⟨hd, hr⟩ := grounded_cons.1 hg
    obtain ⟨_, hc₁, hes⟩ := replay_cons.1 hc
    obtain ⟨c₁', hc₁', h₁⟩ := h.step (apply_ok.1 hc₁) hd
    obtain ⟨d', seen', hd', h'⟩ := h₁.replay hes hr
    exact ⟨d', seen', replay_cons.2 ⟨c₁', apply_ok.2 hc₁', hd'⟩, h'⟩

theorem position_of_replay : ∀ {es : List LogEntry} {c c' : Snapshots}, replay svn c es = .ok c' →
    ∀ name s, c'.lookup name = some s →
      (∃ name' s', c.lookup name' = some s' ∧ s.position = s'.position) ∨ ∃ e ∈ es, s.position = e.position
  | [], c, c', h, name, s, hs => by
    cases h
    exact .inl ⟨name, s, hs, rfl⟩
  | e :: es, c, c', h, name, s, hs => by
    obtain ⟨_, hd, hes⟩ := replay_cons.1 h
    rcases position_of_replay hes name s hs with ⟨name', s', hs', hpos⟩ | ⟨e', he', hpos⟩
    · rw [hpos]
      cases apply_ok.1 hd with
      | snapshot =>
        rw [lookup_insert] at hs'
        split at hs'
        · cases hs'
          exact .inr ⟨e, mem_cons_self, rfl⟩
        · exact .inl ⟨name', s', hs', rfl⟩
      | diff entry old _ _ hold hp =>
        rw [lookup_insert] at hs'
        split at hs'
        · cases hs'
          exact .inl ⟨entry.name, old, hold, (patch_spec hp).2.1⟩
        · exact .inl ⟨name', s', hs', rfl⟩
      | expunge =>
        rw [lookup_erase] at hs'
        split at hs'
        · cases hs'
        · exact .inl ⟨name', s', hs', rfl⟩
    · exact .inr ⟨e', mem_cons_of_mem _ he', hpos⟩

/-! ## What is cached is what is appended -/
def Snapshots.Keyed (c : Snapshots) : Prop := ∀ name s, c.lookup name = some s → s.entry.name = name

theorem Snapshots.Keyed.apply (h : c.Keyed) (ha : apply svn c e = .ok c') : c'.Keyed := by
  intro name s hs
  cases apply_ok.1 ha with
  | snapshot =>
    rw [lookup_insert] at hs
    split at hs
    · cases hs
      exact Eq.symm ‹_›
    · exact h name s hs
  | diff _ _ _ _ _ hp =>
    rw [lookup_insert] at hs
    split at hs
    · cases hs
      exact (patch_spec hp).1.trans (Eq.symm ‹_›)
    · exact h name s hs
  | expunge =>
    rw [lookup_erase] at hs
    split at hs
    · cases hs
    · exact h name s hs

theorem Snapshots.keyed_empty : Keyed ∅ := nofun

theorem Snapshots.Keyed.replay : ∀ {es : List LogEntry} {c c' : Snapshots}, c.Keyed →
    replay svn c es = .ok c' → c'.Keyed
  | [], _, _, h, hc => by
    cases hc
    exact h
  | _ :: _, _, _, h, hc => by
    obtain ⟨_, hd, hes⟩ := replay_cons.1 hc
    exact (h.apply hd).replay hes

namespace LogStorage

variable {entry : Entry} {s : LogStorage} {operation : Operation}

/-- **A `set` caches what a reader of its record gets.** -/
theorem set_apply {svn : Svn} {diffsBetweenSnapshots : Nat} (hk : s.snapshots.Keyed) {uuid : UUID} {diffs : Nat}
    (h : s.set svn diffsBetweenSnapshots entry uuid = .append operation diffs) (position : Nat) :
    ∃ c, s.setAppended entry diffs position =
        .ok { index := raise s.index position, truncated := s.truncated, snapshots := c } ∧
      Snapshots.apply svn s.snapshots { position := position, operation := operation } = .ok c := by
  have hf : ∃ c, s.setAppended entry 0 position =
        .ok { index := raise s.index position, truncated := s.truncated, snapshots := c } ∧
      Snapshots.apply svn s.snapshots { position := position, operation := .snapshot entry } = .ok c := ⟨_, rfl, rfl⟩
  unfold set at h
  split at h
  · cases h
    exact hf
  rename_i snapshot hs
  split at h
  · cases h
  split at h
  · split at h
    · cases h
    rename_i diff hd
    split at h
    · cases h
      have hp : snapshot.patch svn { entry with value := diff } =
          .ok { position := snapshot.position, entry := entry, diffs := snapshot.diffs + 1 } := by
        unfold patch
        rw [if_neg (not_not.2 (hk entry.name snapshot hs).symm), svn.patch_diff _ _ _ hd]
      refine ⟨_, ?_, apply_ok.2 (.diff { entry with value := diff } snapshot _ rfl hs hp)⟩
      simp only [setAppended, Nat.succ_pos, if_true, hs]
      rfl
    · cases h
      exact hf
  · cases h
    exact hf

/-- **An `expunge` caches what a reader of its record gets.** -/
theorem expunge_apply (svn : Svn) (h : s.expunge entry = some operation) (position : Nat) :
    ∃ c, s.expungeAppended entry = .ok { s with snapshots := c } ∧
      Snapshots.apply svn s.snapshots { position := position, operation := operation } = .ok c := by
  unfold expunge at h
  split at h
  · cases h
  rename_i hs
  split at h
  · cases h
  · cases h
    refine ⟨_, ?_, rfl⟩
    simp only [expungeAppended, hs]

theorem foldl_minimum : ∀ (xs : List (Sigma fun _ : String => Snapshot)) (k : Nat), ∃ n,
    xs.foldl (fun m x => some (m.elim x.2.position (min x.2.position))) (some k) = some n ∧ n ≤ k ∧
      (∀ x ∈ xs, n ≤ x.2.position) ∧ (n = k ∨ ∃ x ∈ xs, x.2.position = n)
  | [], k => ⟨k, rfl, le_rfl, forall_mem_nil _, .inl rfl⟩
  | x :: xs, k => by
    obtain ⟨n, hn, _, hall, hex⟩ := foldl_minimum xs (min x.2.position k)
    refine ⟨n, hn, by omega, forall_mem_cons.2 ⟨by omega, hall⟩, ?_⟩
    rcases hex with rfl | ⟨y, hy, hyn⟩
    · rcases min_choice x.2.position k with hx | hk
      · exact .inr ⟨x, mem_cons_self, hx.symm⟩
      · exact .inl hk
    · exact .inr ⟨y, mem_cons_of_mem _ hy, hyn⟩

/-- **The minimum is the lowest position of a snapshot.** -/
theorem minimum_spec {n : Nat} (h : s.minimum = some n) : (∀ name x, s.snapshots.lookup name = some x → n ≤ x.position) ∧
      ∃ name x, s.snapshots.lookup name = some x ∧ x.position = n := by
  unfold minimum at h
  have hmem : ∀ {name x}, s.snapshots.lookup name = some x ↔ ⟨name, x⟩ ∈ s.snapshots.entries := AList.mem_lookup_iff
  simp only [hmem]
  cases hs : s.snapshots.entries with
  | nil =>
    rw [hs] at h
    cases h
  | cons x xs =>
    obtain ⟨_, hm, hle, hall, hex⟩ := foldl_minimum xs x.2.position
    rw [hs] at h
    cases hm.symm.trans h
    have hall : ∀ y ∈ x :: xs, n ≤ y.2.position := forall_mem_cons.2 ⟨hle, hall⟩
    refine ⟨fun _ y hy => hall _ hy, ?_⟩
    rcases hex with rfl | ⟨y, hy, hyn⟩
    · exact ⟨x.1, x.2, mem_cons_self, rfl⟩
    · exact ⟨y.1, y.2, mem_cons_of_mem _ hy, hyn⟩

end LogStorage

/-! ## One writer -/
structure Update where
  call : Call
  gap : Nat := 0
  truncation : Option Nat := none

structure Writer where
  storage : LogStorage
  log : SharedLog

namespace Writer

def truncate (w : Writer) (truncation : Option Nat) : Except Fault Writer :=
  match w.storage.truncate with
  | .error fault => .error fault
  | .ok none => .ok w
  | .ok (some minimum) =>
    match truncation with
    | some gap =>
      .ok
        { storage := w.storage.truncateAppended minimum (w.log.next gap)
          log := w.log.truncate gap minimum }
    | none => .ok w

def step (svn : Svn) (diffsBetweenSnapshots : Nat) (w : Writer) (x : Update) : Except Fault Writer :=
  match x.call with
  | .set entry uuid =>
    match w.storage.set svn diffsBetweenSnapshots entry uuid with
    | .append operation diffs =>
      match w.storage.setAppended entry diffs (w.log.next x.gap) with
      | .error fault => .error fault
      | .ok storage => truncate { storage := storage, log := w.log.append x.gap operation } x.truncation
    | _ => .ok w
  | .expunge entry =>
    match w.storage.expunge entry with
    | some operation =>
      match w.storage.expungeAppended entry with
      | .error fault => .error fault
      | .ok storage => truncate { storage := storage, log := w.log.append x.gap operation } x.truncation
    | none => .ok w

structure Replays (svn : Svn) (w : Writer) : Prop where
  ascending : w.log.entries.Pairwise (fun e e' => e.position < e'.position)
  ending : ∀ e ∈ w.log.entries, e.position ≤ w.log.ending
  replay : Snapshots.replay svn ∅ w.log.entries = .ok w.storage.snapshots
  beginning : w.log.beginning ≤ w.log.ending
  kept : ∀ name s, w.storage.snapshots.lookup name = some s → w.log.beginning ≤ s.position
  truncated : ∃ t, w.storage.truncated = some t

variable {svn : Svn} {w : Writer} (h : w.Replays svn) (diffsBetweenSnapshots : Nat)
include h

theorem Replays.keyed : w.storage.snapshots.Keyed :=
  keyed_empty.replay h.replay

theorem Replays.append {gap : Nat} {operation : Operation} (s : LogStorage)
    (ha : apply svn w.storage.snapshots { position := w.log.next gap, operation := operation } = .ok s.snapshots)
    (ht : s.truncated = w.storage.truncated) : Replays svn { storage := s, log := w.log.append gap operation } := by
  have hn : w.log.ending < w.log.next gap := by
    unfold SharedLog.next
    omega
  refine ⟨?_, fun e he => ?_, ?_, le_of_lt (h.beginning.trans_lt hn), fun name x hx => ?_, ht ▸ h.truncated⟩
  · refine pairwise_append.2 ⟨h.ascending, pairwise_singleton _ _, fun e he _ he' => ?_⟩
    obtain rfl := mem_singleton.1 he'
    exact lt_of_le_of_lt (h.ending e he) hn
  · rcases mem_append.1 he with he | he
    · exact le_of_lt (lt_of_le_of_lt (h.ending e he) hn)
    · obtain rfl := mem_singleton.1 he
      exact le_rfl
  · exact replay_append.2 ⟨_, h.replay, replay_cons.2 ⟨_, ha, rfl⟩⟩
  have hb : w.log.beginning ≤ w.log.next gap := le_of_lt (h.beginning.trans_lt hn)
  generalize s.snapshots = c at ha hx
  cases apply_ok.1 ha with
  | snapshot =>
    rw [lookup_insert] at hx
    split at hx
    · cases hx
      exact hb
    · exact h.kept name x hx
  | diff entry old _ _ hold hp =>
    rw [lookup_insert] at hx
    split at hx
    · cases hx
      rw [(patch_spec hp).2.1]
      exact h.kept entry.name old hold
    · exact h.kept name x hx
  | expunge =>
    rw [lookup_erase] at hx
    split at hx
    · cases hx
    · exact h.kept name x hx

theorem Replays.truncate (truncation : Option Nat) : ∃ w', w.truncate truncation = .ok w' ∧ w'.Replays svn := by
  obtain ⟨t, ht⟩ := h.truncated
  have hst : w.storage.truncate = .ok (w.storage.minimum.filter (t < ·)) := by simp only [LogStorage.truncate, ht]
  unfold Writer.truncate
  rw [hst]
  cases hm : w.storage.minimum.filter (t < ·) with
  | none => exact ⟨w, rfl, h⟩
  | some minimum =>
    cases truncation with
    | none => exact ⟨w, rfl, h⟩
    | some gap =>
      refine ⟨_, rfl, ?_⟩
      obtain ⟨hmin, -⟩ := Option.filter_eq_some_iff.1 hm
      obtain ⟨hall, name, x, hx, _⟩ := LogStorage.minimum_spec hmin
      have hend : minimum ≤ w.log.ending := by
        rcases position_of_replay h.replay name x hx with ⟨_, _, hno, _⟩ | ⟨e, he, _⟩
        · cases hno
        · have := h.ending e he
          omega
      have hn : w.log.ending < w.log.next gap := by
        unfold SharedLog.next
        omega
      have hb := h.beginning
      refine ⟨h.ascending, fun e he => le_of_lt (lt_of_le_of_lt (h.ending e he) hn), h.replay, ?_,
        fun name x hx => Nat.max_le.2 ⟨h.kept name x hx, hall name x hx⟩, ⟨max t minimum, ?_⟩⟩
      · show max w.log.beginning minimum ≤ w.log.next gap
        omega
      · simp [LogStorage.truncateAppended, ht, LogStorage.raise]

/-- **The writer never aborts, and its snapshots stay those of the log.** -/
theorem Replays.step (x : Update) : ∃ w', w.step svn diffsBetweenSnapshots x = .ok w' ∧ w'.Replays svn := by
  unfold Writer.step
  split
  next entry uuid _ =>
    split
    next hs =>
      obtain ⟨c, hok, ha⟩ := LogStorage.set_apply h.keyed hs (w.log.next x.gap)
      rw [hok]
      exact Replays.truncate (h.append { w.storage with index := _, snapshots := c } ha rfl) x.truncation
    · exact ⟨w, rfl, h⟩
  next entry _ =>
    split
    next hs =>
      obtain ⟨c, hok, ha⟩ := LogStorage.expunge_apply svn hs (w.log.next x.gap)
      rw [hok]
      exact Replays.truncate (h.append { w.storage with snapshots := c } ha rfl) x.truncation
    · exact ⟨w, rfl, h⟩

omit h

theorem Replays.run (xs : List Update) (h : w.Replays svn) :
    ∃ w', xs.foldlM (Writer.step svn diffsBetweenSnapshots) w = .ok w' ∧ w'.Replays svn :=
  Fallible.foldlM_runs (I := fun _ => Replays svn) (fun x _ _ h => h.step diffsBetweenSnapshots x) h

def initial : Writer := { storage := { truncated := some 0 }, log := {} }

example (svn : Svn) : LogStorage.start svn initial.log = (initial.storage, none) := rfl

theorem replays_initial (svn : Svn) : initial.Replays svn :=
  ⟨List.Pairwise.nil, fun _ he => absurd he not_mem_nil, rfl, le_rfl, nofun, 0, rfl⟩

end Writer

variable {w : Writer}

/-! ## A fresh process -/
theorem past_of_ascending : ∀ {es : List LogEntry} {index : Option Nat},
    es.Pairwise (fun e e' => e.position < e'.position) → (∀ e ∈ es, index.all (· < e.position) = true) → Past index es
  | [], _, _, _ => trivial
  | e :: _, _, ha, hi => by
    obtain ⟨hlt, ha⟩ := pairwise_cons.1 ha
    exact ⟨hi e mem_cons_self, past_of_ascending ha (fun e' he' => by simpa using hlt e' he')⟩

theorem split_at (b : Nat) : ∀ {es : List LogEntry}, es.Pairwise (fun e e' => e.position < e'.position) →
    ∃ old new, es = old ++ new ∧ (∀ e ∈ old, e.position < b) ∧ ∀ e ∈ new, b ≤ e.position
  | [], _ => ⟨[], [], rfl, fun _ h => absurd h not_mem_nil, fun _ h => absurd h not_mem_nil⟩
  | e :: es, ha => by
    obtain ⟨hlt, ha⟩ := pairwise_cons.1 ha
    by_cases he : e.position < b
    · obtain ⟨old, new, rfl, hold, hnew⟩ := split_at b ha
      refine ⟨e :: old, new, rfl, fun e' he' => ?_, hnew⟩
      rcases mem_cons.1 he' with rfl | he'
      · exact he
      · exact hold e' he'
    · refine ⟨[], e :: es, rfl, fun _ h => absurd h not_mem_nil, fun e' he' => ?_⟩
      rcases mem_cons.1 he' with rfl | he'
      · omega
      · have := hlt e' he'
        omega

theorem filter_middle {old mid new : List LogEntry} {P : LogEntry → Bool} (hold : ∀ e ∈ old, P e = false)
    (hmid : ∀ e ∈ mid, P e = true) (hnew : ∀ e ∈ new, P e = false) : (old ++ mid ++ new).filter P = mid := by
  have hno : old.filter P = [] := filter_eq_nil_iff.2 fun e he => by simp [hold e he]
  have hno' : new.filter P = [] := filter_eq_nil_iff.2 fun e he => by simp [hnew e he]
  rw [filter_append, filter_append, hno, hno', filter_eq_self.2 hmid, nil_append, append_nil]

theorem Writer.Replays.start_iff (h : w.Replays svn) : (∃ s, LogStorage.start svn w.log = (s, none) ∧
      ∀ name, s.snapshots.lookup name = w.storage.snapshots.lookup name) ↔
    Grounded [] (w.log.read w.log.beginning w.log.ending) := by
  obtain ⟨old, new, hes, hold, hnew⟩ := split_at w.log.beginning h.ascending
  have hre : w.log.read w.log.beginning w.log.ending = new := by
    unfold SharedLog.read
    rw [hes, ← append_nil (old ++ new)]
    refine filter_middle (fun e he => ?_) (fun e he => ?_) nofun
    · simp [hold e he]
    · have := h.ending e (hes ▸ mem_append_right old he)
      simp [hnew e he, this]
  have hasc : new.Pairwise (fun e e' => e.position < e'.position) := (pairwise_append.1 (hes ▸ h.ascending)).2.1
  have hpa : Past none new := past_of_ascending hasc (fun _ _ => rfl)
  obtain ⟨c, hc, hrs⟩ := replay_append.1 (hes ▸ h.replay)
  unfold LogStorage.start
  rw [hre]
  constructor
  · rintro ⟨s, hs, -⟩
    exact grounded_of_replay (fun _ _ hx => by cases hx) ((apply_past hpa).2 ⟨s, hs, rfl⟩)
  intro hg
  -- the snapshots of the part that was truncated all lie before the beginning
  have hst : Rebuilds w.log.beginning [] c ∅ := by
    refine fun name => .inr ⟨not_mem_nil, rfl, fun s hs => ?_⟩
    rcases position_of_replay hc name s hs with ⟨_, _, hno, _⟩ | ⟨e, he, hpos⟩
    · cases hno
    · rw [hpos]
      exact hold e he
  obtain ⟨c', _, hc', hr⟩ := hst.replay hrs hg
  obtain ⟨s, hs, rfl⟩ := (@apply_past svn new { truncated := some w.log.beginning } hpa c').1 hc'
  refine ⟨s, hs, fun name => (hr name).elim id (fun ⟨_, hno, hlt⟩ => ?_)⟩
  rw [hno]
  cases hx : w.storage.snapshots.lookup name with
  | none => rfl
  | some x =>
    have := hlt x hx
    have := h.kept name x hx
    omega

/-- **A fresh process rebuilds the writer's snapshots exactly when no diff is left without its snapshot.**  Whatever the
writer was called to do, and whichever of its truncations succeeded, it never aborts; a process that reads the log from
its beginning to its end then hits no `CHECK` and no failure and ends with the same names, entries and positions, if and
only if every diff left in the log comes after a snapshot of its name that is left there too. -/
theorem replay_iff_grounded (svn : Svn) (diffsBetweenSnapshots : Nat) (xs : List Update) :
    ∃ w, xs.foldlM (Writer.step svn diffsBetweenSnapshots) Writer.initial = .ok w ∧
      ((∃ s, LogStorage.start svn w.log = (s, none) ∧
          ∀ name, s.snapshots.lookup name = w.storage.snapshots.lookup name) ↔
        Grounded [] (w.log.read w.log.beginning w.log.ending)) := by
  obtain ⟨w, hw, h⟩ := Writer.Replays.run diffsBetweenSnapshots xs (Writer.replays_initial svn)
  exact ⟨w, hw, h.start_iff⟩

/-- A diff that only knows how to append: the bytes to append, or all of them. -/
def appendingSvn : Svn where
  diff a b := if a <+: b then .ok (1 :: b.drop a.length) else .ok (0 :: b)
  patch
    | a, 1 :: tail => .ok (a ++ tail)
    | _, 0 :: b => .ok b
    | _, _ => .error "Not a diff"
  patch_diff a b d h := by
    split at h
    · rename_i hp
      cases h
      exact congrArg Except.ok (List.prefix_iff_eq_append.1 hp)
    · cases h
      rfl

def expunged : List Update :=
  [{ call := .set { name := "x", uuid := 1, value := [1, 2, 3] } 0, truncation := some 0 },
   { call := .set { name := "y", uuid := 2, value := [4] } 0, truncation := some 0 },
   { call := .set { name := "x", uuid := 3, value := [1, 2, 3, 4] } 1, truncation := some 0 },
   { call := .expunge { name := "x", uuid := 3, value := [] }, truncation := some 0 }]

def leftover : SharedLog where
  entries :=
    [{ position := 1, operation := .snapshot { name := "x", uuid := 1, value := [1, 2, 3] } },
     { position := 3, operation := .snapshot { name := "y", uuid := 2, value := [4] } },
     { position := 4, operation := .diff { name := "x", uuid := 3, value := [1, 4] } },
     { position := 5, operation := .expunge "x" }]
  beginning := 3
  ending := 6

/-- **A diff outlives its snapshot.**  The truncation after the expunge goes to the snapshot of the other name, past the
snapshot of the expunged one and not past its diff: the next process aborts on it. -/
theorem replay_aborts_on_expunged :
    (expunged.foldlM (Writer.step appendingSvn 1) Writer.initial).map Writer.log = .ok leftover ∧
      (LogStorage.start appendingSvn leftover).2 = some .check := by
  decide +kernel

end Clusterd.State
