import Clusterd.StateReplay
/-!
# What a process knows of the log

The log leaves every name with a version (`version`).  A process has seen a number of its entries, and what it has cached of a
name is the version the whole log leaves it with, unless an entry it has not seen is about that name (`Knows`).  Appended
entries, its own acknowledged records and the entries it reads keep that.
-/
namespace Clusterd.State

open List LogStorage Snapshots
open Option (all_some map_some getD_some)

def Operation.version : Operation → Option UUID
  | .snapshot entry => some entry.uuid
  | .diff entry => some entry.uuid
  | .expunge _ => none

/-- The version the entries leave a name with, if it was `v` before. -/
def version (v : Option UUID) (es : List LogEntry) (name : String) : Option UUID :=
  es.foldl (fun v e => if e.operation.name = name then e.operation.version else v) v

theorem version_cons (v : Option UUID) (e : LogEntry) (es : List LogEntry) (name : String) :
    version v (e :: es) name = version (if e.operation.name = name then e.operation.version else v) es name := rfl

theorem version_append (v : Option UUID) (es es' : List LogEntry) (name : String) :
    version v (es ++ es') name = version (version v es name) es' name :=
  foldl_append

theorem version_untouched : ∀ {es : List LogEntry} {name : String} (v : Option UUID),
    (∀ e ∈ es, e.operation.name ≠ name) → version v es name = v
  | [], _, _, _ => rfl
  | e :: es, name, v, h => by
    rw [version_cons, if_neg (h e mem_cons_self)]
    exact version_untouched v fun e' he' => h e' (mem_cons_of_mem _ he')

theorem version_touched : ∀ {es : List LogEntry} {name : String} (v v' : Option UUID),
    (∃ e ∈ es, e.operation.name = name) → version v es name = version v' es name
  | [], _, _, _, h => by
    obtain ⟨e, he, -⟩ := h
    exact nomatch he
  | e :: es, name, v, v', h => by
    rw [version_cons, version_cons]
    by_cases hn : e.operation.name = name
    · rw [if_pos hn, if_pos hn]
    rw [if_neg hn, if_neg hn]
    obtain ⟨e', he', hn'⟩ := h
    rcases mem_cons.1 he' with rfl | he'
    · exact absurd hn' hn
    · exact version_touched v v' ⟨e', he', hn'⟩

variable {e : LogEntry}

namespace Snapshots

def version (c : Snapshots) (name : String) : Option UUID := (c.lookup name).map (·.entry.uuid)

variable {svn : Svn}

theorem version_apply {c d : Snapshots} (h : Applies svn c e d) (name : String) :
    d.version name = if e.operation.name = name then e.operation.version else c.version name := by
  have hi : ∀ (a : String) (x : Snapshot),
      version (c.insert a x) name = if a = name then some x.entry.uuid else c.version name := by
    intro a _
    unfold version
    rw [lookup_insert]
    by_cases hn : name = a
    · rw [if_pos hn, if_pos hn.symm]
      rfl
    · rw [if_neg hn, if_neg (Ne.symm hn)]
  cases h with
  | snapshot _ he =>
    rw [hi, he]
    rfl
  | diff _ _ _ he _ hp =>
    rw [hi, he, (Snapshot.patch_spec hp).2.2]
    rfl
  | expunge n he =>
    rw [he]
    show version (c.erase n) name = if n = name then none else c.version name
    unfold version
    rw [lookup_erase]
    by_cases hn : name = n
    · rw [if_pos hn, if_pos hn.symm]
      rfl
    · rw [if_neg hn, if_neg (Ne.symm hn)]

theorem version_replay (name : String) : ∀ {es : List LogEntry} {c d : Snapshots},
    replay svn c es = .ok d → d.version name = State.version (c.version name) es name
  | [], c, d, h => by
    cases h
    rfl
  | e :: es, c, d, h => by
    obtain ⟨_, hc', hes⟩ := replay_cons.1 h
    rw [version_cons, ← version_apply (apply_ok.1 hc') name]
    exact version_replay name hes

def Located (es : List LogEntry) (c : Snapshots) : Prop :=
  ∀ name s, c.lookup name = some s → ∃ e ∈ es, e.operation.name = name ∧ e.position = s.position

theorem Located.apply {es : List LogEntry} {c d : Snapshots} (h : Located es c) (he : e ∈ es)
    (ha : Applies svn c e d) : Located es d := by
  intro name s hs
  cases ha with
  | snapshot _ ho =>
    rw [lookup_insert] at hs
    split at hs
    next hn =>
      cases hs
      exact ⟨e, he, by rw [ho, hn]; rfl, rfl⟩
    · exact h name s hs
  | diff entry old _ _ hold hp =>
    rw [lookup_insert] at hs
    split at hs
    next hn =>
      cases hs
      rw [(Snapshot.patch_spec hp).2.1, hn]
      exact h entry.name old hold
    · exact h name s hs
  | expunge =>
    rw [lookup_erase] at hs
    split at hs
    · cases hs
    · exact h name s hs

/-- **A snapshot that is cached after an entry is at its position, or where one was before.** -/
theorem position_apply {c d : Snapshots} {name : String} {s : Snapshot} (ha : Applies svn c e d)
    (hs : d.lookup name = some s) :
    s.position = e.position ∨ ∃ name' s', c.lookup name' = some s' ∧ s.position = s'.position := by
  cases ha with
  | snapshot =>
    rw [lookup_insert] at hs
    split at hs
    · cases hs
      exact .inl rfl
    · exact .inr ⟨name, s, hs, rfl⟩
  | diff entry old _ _ hold hp =>
    rw [lookup_insert] at hs
    split at hs
    · cases hs
      exact .inr ⟨entry.name, old, hold, (Snapshot.patch_spec hp).2.1⟩
    · exact .inr ⟨name, s, hs, rfl⟩
  | expunge =>
    rw [lookup_erase] at hs
    split at hs
    · cases hs
    · exact .inr ⟨name, s, hs, rfl⟩

theorem Located.replay {all : List LogEntry} : ∀ {es : List LogEntry} {c d : Snapshots}, Located all c →
    (∀ e ∈ es, e ∈ all) → replay svn c es = .ok d → Located all d
  | [], c, d, h, _, hr => by
    cases hr
    exact h
  | e :: es, c, d, h, hes, hr => by
    obtain ⟨_, hc', hr⟩ := replay_cons.1 hr
    exact (h.apply (hes e mem_cons_self) (apply_ok.1 hc')).replay (fun e' he' => hes e' (mem_cons_of_mem _ he')) hr

end Snapshots

/-! ## Reading -/

variable {svn : Svn}

namespace LogStorage

theorem apply_skip : ∀ {es : List LogEntry} {s : LogStorage}, es.Pairwise (fun e e' => e.position < e'.position) →
    s.apply svn es = s.apply svn (es.filter fun e => s.index.all (· < e.position))
  | [], _, _ => rfl
  | e :: es, s, ha => by
    obtain ⟨hlt, ha⟩ := pairwise_cons.1 ha
    by_cases he : s.index.all (· < e.position) = true
    · -- all the entries after it are past the index as well
      have hall : (e :: es).filter (fun e => s.index.all (· < e.position)) = e :: es := by
        refine filter_eq_self.2 fun e' he' => ?_
        rcases mem_cons.1 he' with rfl | he'
        · exact he
        have := hlt e' he'
        cases hi : s.index with
        | none => rfl
        | some =>
          rw [hi] at he
          simp only [all_some, decide_eq_true_eq] at he ⊢
          omega
      rw [hall]
    · rw [filter_cons_of_neg (by simpa using he), ← apply_skip ha]
      simp only [apply, applyEntry, he]
      rfl

variable {n m : Nat} {index : Option Nat}

theorem raise_le (h : ∀ k, index = some k → k ≤ m) (hn : n ≤ m) : ∀ k, raise index n = some k → k ≤ m := by
  intro _ hk
  cases index with
  | none =>
    cases hk
    exact hn
  | some j =>
    cases hk
    exact Nat.max_le.2 ⟨h j rfl, hn⟩

theorem raise_lt (h : index.all (· < m) = true) (hn : n < m) : (raise index n).all (· < m) = true := by
  cases index with
  | none => simpa [raise] using hn
  | some =>
    simp only [all_some, decide_eq_true_eq] at h
    simp only [raise, all_some, decide_eq_true_eq]
    omega

theorem apply_index : ∀ {es : List LogEntry} {s s' : LogStorage}, s.apply svn es = (s', none) →
    s' = s ∨ ∃ e ∈ es, s'.index = some e.position
  | [], s, s', h => by
    cases h
    exact .inl rfl
  | e :: es, s, s', h => by
    unfold apply at h
    cases ha : s.applyEntry svn e with
    | error =>
      rw [ha] at h
      cases h
    | ok =>
      rw [ha] at h
      rcases apply_index h with rfl | ⟨e', he', hi⟩
      · unfold applyEntry at ha
        split at ha
        · split at ha
          · cases ha
          · cases ha
            exact .inr ⟨e, mem_cons_self, rfl⟩
        · cases ha
          exact .inl rfl
      · exact .inr ⟨e', mem_cons_of_mem _ he', hi⟩

theorem applyEntry_ok {s s' : LogStorage} {e : LogEntry} (h : s.applyEntry svn e = .ok s') :
    s' = s ∨ s.index.all (· < e.position) = true ∧ Applies svn s.snapshots e s'.snapshots ∧
      s'.index = some e.position := by
  unfold applyEntry at h
  split at h
  next hi =>
    split at h
    · cases h
    next hc =>
      cases h
      exact .inr ⟨hi, apply_ok.1 hc, rfl⟩
  · cases h
    exact .inl rfl

theorem apply_invariant {I : LogStorage → Prop}
    (hI : ∀ {s s' : LogStorage} {e : LogEntry}, s.applyEntry svn e = .ok s' → I s → I s') :
    ∀ {es : List LogEntry} {s s' : LogStorage}, s.apply svn es = (s', none) → I s → I s'
  | [], s, s', h, hs => by
    cases h
    exact hs
  | e :: es, s, s', h, hs => by
    unfold apply at h
    cases ha : s.applyEntry svn e with
    | error =>
      rw [ha] at h
      cases h
    | ok =>
      rw [ha] at h
      exact apply_invariant hI h (hI ha hs)

/-! ### Where the cached snapshots are -/

/-- No snapshot is cached from past the index. -/
def Cached (s : LogStorage) : Prop :=
  ∀ name x, s.snapshots.lookup name = some x → ∃ k, s.index = some k ∧ x.position ≤ k

/-- Nothing at the index or after it, and nothing cached, is from before the position. -/
def Above (s : LogStorage) (m : Nat) : Prop :=
  (∃ k, s.index = some k ∧ m ≤ k) ∧ ∀ name x, s.snapshots.lookup name = some x → m ≤ x.position

theorem raise_spec (index : Option Nat) (n : Nat) :
    ∃ k', raise index n = some k' ∧ n ≤ k' ∧ ∀ k, index = some k → k ≤ k' := by
  cases index with
  | none => exact ⟨n, rfl, le_rfl, nofun⟩
  | some j =>
    refine ⟨max j n, rfl, le_max_right j n, fun k hk => ?_⟩
    cases hk
    exact le_max_left j n

variable {s s' : LogStorage} {e : LogEntry}

namespace Cached

theorem fresh (h : s.Cached) (hi : s.index = none) : s.snapshots = ∅ := by
  refine AList.ext (eq_nil_iff_forall_not_mem.2 fun x hx => ?_)
  obtain ⟨k, hk, -⟩ := h x.1 x.2 (AList.mem_lookup_iff.2 hx)
  rw [hi] at hk
  cases hk

/-- **An entry that is applied is cached at the index.** -/
theorem apply {d : Snapshots} {k' : Nat} (h : s.Cached) (ha : Applies svn s.snapshots e d) (he : e.position ≤ k')
    (hk : ∀ k, s.index = some k → k ≤ k') : Cached { s with index := some k', snapshots := d } := by
  intro name x hx
  refine ⟨k', rfl, ?_⟩
  rcases position_apply ha hx with hp | ⟨name', x', hx', hp⟩
  · exact hp.le.trans he
  · obtain ⟨k, hi, hle⟩ := h name' x' hx'
    exact hp.le.trans (hle.trans (hk k hi))

theorem raise (h : s.Cached) (position : Nat) : Cached { s with index := raise s.index position } := by
  intro name x hx
  obtain ⟨k', hr, -, hk⟩ := raise_spec s.index position
  obtain ⟨k, hi, hle⟩ := h name x hx
  exact ⟨k', hr, hle.trans (hk k hi)⟩

theorem erase (h : s.Cached) (name : String) : Cached { s with snapshots := s.snapshots.erase name } := by
  intro name' x hx
  change (s.snapshots.erase name).lookup name' = some x at hx
  rw [lookup_erase] at hx
  split at hx
  · cases hx
  · exact h name' x hx

theorem applyEntry (ha : s.applyEntry svn e = .ok s') (h : s.Cached) : s'.Cached := by
  rcases applyEntry_ok ha with rfl | ⟨hi, hap, hi'⟩
  · exact h
  intro name x hx
  have hall : ∀ k, s.index = some k → k ≤ e.position := by
    intro k hk
    rw [hk] at hi
    simp only [all_some, decide_eq_true_eq] at hi
    exact hi.le
  obtain ⟨k, hk, hle⟩ := h.apply hap le_rfl hall name x hx
  exact ⟨k, hi'.trans hk, hle⟩

end Cached

theorem Above.applyEntry {m : Nat} (ha : s.applyEntry svn e = .ok s') (h : s.Above m) : s'.Above m := by
  rcases applyEntry_ok ha with rfl | ⟨hi, hap, hi'⟩
  · exact h
  obtain ⟨⟨k, hk, hmk⟩, hall⟩ := h
  rw [hk] at hi
  simp only [all_some, decide_eq_true_eq] at hi
  have hme : m ≤ e.position := by omega
  refine ⟨⟨_, hi', hme⟩, fun name x hx => ?_⟩
  rcases position_apply hap hx with hp | ⟨name', x', hx', hp⟩
  · exact hme.trans hp.ge
  · exact (hall name' x' hx').trans hp.ge

theorem Cached.above (h : s.Cached) {m : Nat} (hm : s.minimum = some m) : s.Above m := by
  obtain ⟨hall, name, x, hx, hp⟩ := minimum_spec hm
  obtain ⟨k, hk, hle⟩ := h name x hx
  exact ⟨⟨k, hk, hp ▸ hle⟩, hall⟩

end LogStorage

/-! ## The log and what is known of it -/

structure SharedLog.Sound (log : SharedLog) : Prop where
  ascending : log.entries.Pairwise (fun e e' => e.position < e'.position)
  ending : ∀ e ∈ log.entries, e.position ≤ log.ending
  beginning : log.beginning ≤ log.ending
  kept : ∀ name, version none log.entries name ≠ none →
    ∃ e ∈ log.entries, e.operation.name = name ∧ log.beginning ≤ e.position

structure SharedLog.Extends (log log' : SharedLog) : Prop where
  entries : ∃ tail, log'.entries = log.entries ++ tail ∧ ∀ e ∈ tail, log.ending < e.position
  ending : log.ending ≤ log'.ending
  beginning : log.beginning ≤ log'.beginning

namespace SharedLog

section
variable (log : SharedLog)

theorem lt_next (gap : Nat) : log.ending < log.next gap := by
  unfold next
  omega

theorem Extends.refl : log.Extends log :=
  ⟨⟨[], (append_nil _).symm, nofun⟩, le_rfl, le_rfl⟩

theorem extends_append (gap : Nat) (operation : Operation) : log.Extends (log.append gap operation) := by
  refine ⟨⟨_, rfl, fun _ he => ?_⟩, le_of_lt (log.lt_next gap), le_rfl⟩
  rw [mem_singleton.1 he]
  exact log.lt_next gap

theorem extends_truncate (gap target : Nat) : log.Extends (log.truncate gap target) :=
  ⟨⟨[], (append_nil _).symm, nofun⟩, le_of_lt (log.lt_next gap), le_max_left _ _⟩

end

theorem Sound.append {log : SharedLog} (h : log.Sound) (gap : Nat) (operation : Operation) :
    (log.append gap operation).Sound := by
  have hne := log.lt_next gap
  refine ⟨?_, fun e he => ?_, le_of_lt (h.beginning.trans_lt hne), fun name hv => ?_⟩
  · refine pairwise_append.2 ⟨h.ascending, pairwise_singleton _ _, fun e he _ he' => ?_⟩
    rw [mem_singleton.1 he']
    exact lt_of_le_of_lt (h.ending e he) hne
  · rcases mem_append.1 he with he | he
    · exact le_of_lt (lt_of_le_of_lt (h.ending e he) hne)
    · rw [mem_singleton.1 he]
      exact le_rfl
  by_cases hn : operation.name = name
  · exact ⟨_, mem_append_right _ (mem_singleton.2 rfl), hn, le_of_lt (h.beginning.trans_lt hne)⟩
  have hsa : version none (log.append gap operation).entries name = version none log.entries name := by
    refine (version_append _ _ _ _).trans (version_untouched _ fun e he => ?_)
    rw [mem_singleton.1 he]
    exact hn
  rw [hsa] at hv
  obtain ⟨e, he, hen, hb⟩ := h.kept name hv
  exact ⟨e, mem_append_left _ he, hen, hb⟩

theorem Sound.truncate {log : SharedLog} (h : log.Sound) (gap : Nat) {target : Nat} (ht : target ≤ log.ending)
    (hk : ∀ name, version none log.entries name ≠ none →
      ∃ e ∈ log.entries, e.operation.name = name ∧ target ≤ e.position) : (log.truncate gap target).Sound := by
  have hn := log.lt_next gap
  have hb := h.beginning
  refine ⟨h.ascending, fun e he => le_of_lt (lt_of_le_of_lt (h.ending e he) hn), ?_, fun name hv => ?_⟩
  · show max log.beginning target ≤ log.next gap
    omega
  obtain ⟨e, he, hen, heb⟩ := h.kept name hv
  obtain ⟨e', he', hen', het⟩ := hk name hv
  by_cases hle : target ≤ log.beginning
  · exact ⟨e, he, hen, Nat.max_le.2 ⟨heb, Nat.le_trans hle heb⟩⟩
  · exact ⟨e', he', hen', Nat.max_le.2 ⟨by omega, het⟩⟩

end SharedLog

/-- The process has seen `n` entries: the others lie past its index, and what it has cached of the names they are not
about is what the log says. -/
structure Knows (log : SharedLog) (s : LogStorage) (n : Nat) : Prop where
  seen : n ≤ log.entries.length
  unseen : ∀ e ∈ log.entries.drop n, s.index.all (· < e.position) = true
  current : ∀ name, (∀ e ∈ log.entries.drop n, e.operation.name ≠ name) →
    s.snapshots.version name = version none log.entries name
  located : s.snapshots.Located log.entries
  keyed : s.snapshots.Keyed
  index : ∀ k, s.index = some k → k ≤ log.ending
  cached : s.Cached

namespace Knows

theorem start (log : SharedLog) : Knows log {} 0 where
  seen := Nat.zero_le _
  unseen _ _ := rfl
  current name h := (version_untouched none h).symm
  located _ _ hs := by cases hs
  keyed := keyed_empty
  index _ hk := by cases hk
  cached _ _ hs := by cases hs

variable {s : LogStorage} {n : Nat} {log : SharedLog} (h : Knows log s n)
include h

theorem mono {log' : SharedLog} (he : log.Extends log') : Knows log' s n := by
  obtain ⟨tail, ht, hpa⟩ := he.entries
  have hd : log'.entries.drop n = log.entries.drop n ++ tail := by
    rw [ht, drop_append_of_le_length h.seen]
  refine ⟨?_, fun e hm => ?_, fun name hn => ?_, fun name x hx => ?_, h.keyed,
    fun k hk => le_trans (h.index k hk) he.ending, h.cached⟩
  · rw [ht, length_append]
    exact h.seen.trans (Nat.le_add_right _ _)
  · rw [hd] at hm
    rcases mem_append.1 hm with hm | hm
    · exact h.unseen e hm
    cases hi : s.index with
    | none => rfl
    | some k =>
      have := h.index k hi
      have := hpa e hm
      simp only [all_some, decide_eq_true_eq]
      omega
  · rw [hd] at hn
    rw [ht, version_append, version_untouched _ fun e hm => hn e (mem_append_right _ hm)]
    exact h.current name fun e hm => hn e (mem_append_left _ hm)
  · obtain ⟨e, hm, hr⟩ := h.located name x hx
    rw [ht]
    exact ⟨e, mem_append_left _ hm, hr⟩

theorem truncated (t : Option Nat) : Knows log { s with truncated := t } n :=
  ⟨h.seen, h.unseen, h.current, h.located, h.keyed, h.index, h.cached⟩

/-- **A process that has seen every entry has cached the version of every name.** -/
theorem all (hn : n = log.entries.length) (name : String) : s.snapshots.version name = version none log.entries name := by
  refine h.current name fun _ he => ?_
  rw [hn, drop_length] at he
  exact nomatch he

theorem raise {position : Nat} (hend : position ≤ log.ending) (hp : ∀ e ∈ log.entries.drop n, position < e.position) :
    Knows log { s with index := raise s.index position } n :=
  ⟨h.seen, fun e he => raise_lt (h.unseen e he) (hp e he), h.current, h.located, h.keyed,
    raise_le h.index hend, h.cached.raise position⟩

theorem next {c : Snapshots} {index : Option Nat} (he : log.entries[n]? = some e) (ha : Applies svn s.snapshots e c)
    (hu : ∀ e' ∈ log.entries.drop (n + 1), index.all (· < e'.position) = true)
    (hi : ∀ k, index = some k → k ≤ log.ending) (hc : Cached { s with index := index, snapshots := c }) :
    Knows log { s with index := index, snapshots := c } (n + 1) := by
  obtain ⟨hlt, hget⟩ := List.getElem?_eq_some_iff.1 he
  have hd : log.entries.drop n = e :: log.entries.drop (n + 1) := hget ▸ drop_eq_getElem_cons hlt
  have hmem : e ∈ log.entries := mem_of_getElem? he
  refine ⟨hlt, hu, fun name hn => ?_, h.located.apply hmem ha, h.keyed.apply (apply_ok.2 ha), hi, hc⟩
  rw [version_apply ha]
  by_cases hna : e.operation.name = name
  · rw [if_pos hna, ← take_append_drop n log.entries, hd, version_append, version_cons, if_pos hna,
      version_untouched _ hn]
  rw [if_neg hna]
  refine h.current name fun e' he' => ?_
  rw [hd] at he'
  rcases mem_cons.1 he' with rfl | he'
  · exact hna
  · exact hn e' he'

omit h

/-- **A process that has read up to a position knows the log up to it.**  It reads from its index, or if it has none from
where the log begins or before. -/
theorem read {s' : LogStorage} {first last : Nat} (hl : log.Sound) (h : Knows log s n)
    (hf : ∀ k, s.index = some k → first = k ∧ k ≤ last) (hfr : s.index = none → first ≤ log.beginning)
    (hla : last ≤ log.ending) (ha : s.apply svn (log.read first last) = (s', none)) :
    ∃ n', Knows log s' n' ∧ ∀ e ∈ log.entries.drop n', last < e.position := by
  -- the entries fall into those passed over, those applied and those past the last position
  obtain ⟨_, new, hes, hup, hnew⟩ := split_at (last + 1) hl.ascending
  obtain ⟨old, mid, rfl, hold, hmid⟩ :=
    split_at ((s.index.map (· + 1)).getD first) (pairwise_append.1 (hes ▸ hl.ascending)).1
  have hre : (log.read first last).filter (fun e => s.index.all (· < e.position)) = mid := by
    unfold SharedLog.read
    rw [hes, filter_filter]
    refine filter_middle (fun e he => ?_) (fun e he => ?_) (fun e he => ?_)
    · have := hold e he
      cases hi : s.index with
      | none => simpa [hi] using fun hle => absurd hle (by simpa [hi] using this)
      | some =>
        simp only [hi, map_some, getD_some] at this
        simp [Nat.lt_succ_iff.1 this]
    · have hlo := hmid e he
      have hhi := hup e (mem_append_right _ he)
      cases hi : s.index with
      | none =>
        simp only [hi, Option.map_none, Option.getD_none] at hlo
        simp [hlo, Nat.lt_succ_iff.1 hhi]
      | some k =>
        simp only [hi, map_some, getD_some] at hlo
        have := (hf k hi).1
        simp only [all_some, Bool.and_eq_true, decide_eq_true_eq]
        omega
    · have := hnew e he
      simp only [Bool.and_eq_false_iff, decide_eq_false_iff_not]
      omega
  have hasc : (log.read first last).Pairwise (fun e e' => e.position < e'.position) := hl.ascending.filter _
  have hpa : Past s.index mid := by
    rw [← hre]
    refine past_of_ascending (hasc.filter _) fun e he => ?_
    rw [mem_filter] at he
    exact he.2
  rw [apply_skip hasc, hre] at ha
  have hr : replay svn s.snapshots mid = .ok s'.snapshots := (apply_past hpa).2 ⟨s', ha, rfl⟩
  have hin : ∀ k, s'.index = some k → k ≤ last := by
    intro k hk
    rcases apply_index ha with rfl | ⟨e, he, hi⟩
    · exact (hf k hk).2
    · rw [hi] at hk
      cases hk
      exact Nat.lt_succ_iff.1 (hup e (mem_append_right _ he))
  have hd : log.entries.drop (old ++ mid).length = new := by rw [hes, drop_left]
  refine ⟨(old ++ mid).length, ⟨?_, fun e he => ?_, fun name hn => ?_, ?_, h.keyed.replay hr,
    fun k hk => le_trans (hin k hk) hla, apply_invariant Cached.applyEntry ha h.cached⟩, fun e he => hnew e (hd ▸ he)⟩
  · rw [hes]
    exact (sublist_append_left _ _).length_le
  · have := hnew e (hd ▸ he)
    cases hi : s'.index with
    | none => rfl
    | some k =>
      have := hin k hi
      simp only [all_some, decide_eq_true_eq]
      omega
  · rw [hd] at hn
    rw [version_replay name hr]
    by_cases ht : ∃ e ∈ mid, e.operation.name = name
    · rw [hes, version_append, version_append, version_untouched _ hn]
      exact version_touched _ _ ht
    have ht : ∀ e ∈ mid, e.operation.name ≠ name := fun e he hna => ht ⟨e, he, hna⟩
    have hold' : ∀ e ∈ log.entries, e.operation.name = name → e ∈ old := by
      intro e he hna
      rw [hes] at he
      rcases mem_append.1 he with he | he
      · exact (mem_append.1 he).resolve_right fun he => ht e he hna
      · exact absurd hna (hn e he)
    rw [version_untouched _ ht]
    cases hi : s.index with
    | some =>
      refine h.current name fun e he hna => ?_
      have hu := h.unseen e he
      have hlt := hold e (hold' e (mem_of_mem_drop he) hna)
      simp only [hi, all_some, decide_eq_true_eq] at hu
      simp only [hi, map_some, getD_some] at hlt
      omega
    | none =>
      -- a name that has a version was written where the log still is, and that was read
      rw [h.cached.fresh hi]
      by_contra hv
      obtain ⟨e, he, hna, _⟩ := hl.kept name fun hv' => hv hv'.symm
      have hlt := hold e (hold' e he hna)
      have := hfr hi
      simp only [hi, Option.map_none, Option.getD_none] at hlt
      omega
  · refine h.located.replay (fun e he => ?_) hr
    rw [hes]
    exact mem_append_left _ (mem_append_right _ he)

end Knows
end Clusterd.State
