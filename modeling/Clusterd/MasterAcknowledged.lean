import Clusterd.MasterLists
import Clusterd.MasterRegistrar
/-!
# Acknowledgements match the registry

The registry of the last store that succeeded is the fetched one with the operations acknowledged as successful performed on it,
in their batches and the order of the acknowledgements (`Registrar.Recorded`); acknowledgements come in the order of application
(`Registrar.Ordered`); and once a store has failed there is no other, and operations fail (`Registrar.Phases`,
`Handled.halted`).
-/
namespace Clusterd.Master

open List Registrar Batch

/-! ## The phases of a registrar -/

/-- **What goes together in the life of a registrar.** -/
structure Registrar.Phases (s : Registrar) : Prop where
  /-- before the registry is fetched nothing is under way -/
  early : s.recovered = .none ∨ s.fetching ≠ none → s.registry = none ∧ s.error = none ∧ s.mailbox = [] ∧
    s.store = none ∧ s.operations = [] ∧ acknowledged s.answers = []
  fetching : s.fetching ≠ none → s.recovered = .pending
  gated : s.gated ≠ [] → s.recovered = .pending
  clients : ∀ p ∈ s.gated, p.client ≠ none
  storing : s.updating = false → s.store = none
  /-- the promise `recovered` will be completed -/
  awaited : s.recovered = .pending →
    s.fetching ≠ none ∨ (∃ p ∈ s.storing ++ s.operations, p.client = none) ∨ ∃ result, .recover result ∈ s.mailbox
  error : s.error ≠ none → s.operations = [] ∧ s.store = none

theorem Registrar.Phases.start : Phases {} where
  early _ := ⟨rfl, rfl, rfl, rfl, rfl, rfl⟩
  fetching h := absurd rfl h
  gated h := absurd rfl h
  clients _ h := nomatch h
  storing _ := rfl
  awaited h := nomatch h
  error h := absurd rfl h

theorem recovers_fail {ps : List Pending} {p : Pending} (message : String) (hp : p ∈ ps) (hc : p.client = none) :
    .recover (.error message) ∈ (ps.map (Answer.fail · message)).flatMap Answer.recovers := by
  refine mem_flatMap.2 ⟨_, mem_map_of_mem hp, ?_⟩
  simp [Answer.recovers, hc]

theorem recovers_set {applied : List (Pending × Bool)} {p : Pending × Bool} (hp : p ∈ applied) (hc : p.1.client = none) :
    .recover (.ok p.2) ∈ (applied.map fun p => Answer.set p.1 p.2).flatMap Answer.recovers := by
  refine mem_flatMap.2 ⟨_, mem_map_of_mem hp, ?_⟩
  simp [Answer.recovers, hc]

variable {s s' : Registrar} {rules : Rules} {mailbox : List Message}

theorem Registrar.Phases.begun (h : s.Phases) (hb : Begun rules s s')
    (hl : ¬ (s.recovered = .none ∨ s.fetching ≠ none)) : s'.Phases := by
  cases hb with
  | idle => exact h
  | refused message _ hup =>
    have hs := h.storing hup
    refine ⟨fun he => absurd he hl, h.fetching, h.gated, h.clients, by rintro ⟨⟩, fun hp => ?_,
      fun _ => ⟨rfl, hs⟩⟩
    rcases h.awaited hp with hf | ⟨p, hp, hc⟩ | ⟨result, hm⟩
    · exact .inl hf
    · have hp : p ∈ s.operations := by simpa [Registrar.storing, hs] using hp
      exact .inr (.inr ⟨_, mem_append_right _ (recovers_fail message hp hc)⟩)
    · exact .inr (.inr ⟨result, mem_append_left _ hm⟩)
  | begun _ _ _ her hup _ hpe =>
    refine ⟨fun he => absurd he hl, h.fetching, h.gated, h.clients, by rintro ⟨⟩, fun hp => ?_,
      fun he => absurd her he⟩
    rcases h.awaited hp with hf | ⟨p, hp, hc⟩ | hm
    · exact .inl hf
    · refine .inr (.inl ⟨p, ?_, hc⟩)
      have hp : p ∈ s.operations := by simpa [Registrar.storing, h.storing hup] using hp
      rw [← performAll_applied hpe] at hp
      exact mem_append_left _ hp
    · exact .inr (.inr hm)

theorem Registrar.Phases.failRecovery (message : String) (hl : s.fetching = none)
    (hs : s.updating = false → s.store = none) (her : s.error ≠ none → s.operations = [] ∧ s.store = none) :
    (s.failRecovery message).Phases := by
  refine ⟨fun he => ?_, fun hf => absurd hl hf, fun hg => absurd rfl hg, nofun, hs, nofun, her⟩
  rcases he with he | he
  · cases he
  · exact absurd hl he

theorem Registrar.Phases.late_of_mail (h : s.Phases) {m : Message}
    (hm : s.mailbox = m :: mailbox) : ¬ (s.recovered = .none ∨ s.fetching ≠ none) := by
  intro he
  cases hm.symm.trans (h.early he).2.2.1

theorem Registrar.Phases.late_of_store (h : s.Phases) {store : Store} (hs : s.store = some store) :
    ¬ (s.recovered = .none ∨ s.fetching ≠ none) := by
  intro he
  cases hs.symm.trans (h.early he).2.2.2.1

theorem Registrar.Phases.queue (h : s.Phases) {p : Pending}
    (hm : s.mailbox = .apply p :: mailbox) (her : s.error = none) :
    Phases { s with mailbox := mailbox, operations := s.operations ++ [p] } := by
  have hl := h.late_of_mail hm
  refine ⟨fun he => absurd he hl, h.fetching, h.gated, h.clients, h.storing, fun hp => ?_, fun he => absurd her he⟩
  rcases h.awaited hp with hf | ⟨p', hp', hc⟩ | ⟨result, hm'⟩
  · exact .inl hf
  · refine .inr (.inl ⟨p', ?_, hc⟩)
    rw [← append_assoc]
    exact mem_append_left _ hp'
  · rw [hm] at hm'
    exact .inr (.inr ⟨result, by simpa using hm'⟩)

variable {e : RegistrarEvent}

/-- **Every event keeps to the phases.** -/
theorem Registrar.Phases.step (h : s.Phases) (hh : Handled rules s e s') : s'.Phases := by
  cases hh with
  | ignored => exact h
  | asked _ hr =>
    obtain ⟨h₁, h₂, h₃, h₄, h₅, h₆⟩ := h.early (.inl hr)
    exact ⟨fun _ => ⟨h₁, h₂, h₃, h₄, h₅, h₆⟩, fun _ => rfl, fun _ => rfl, h.clients, nofun,
      fun _ => .inl nofun, h.error⟩
  | unfetched _ _ message hin =>
    obtain ⟨-, -, -, hs, -, -⟩ := h.early (.inr (by rw [hin]; exact nofun))
    exact .failRecovery message rfl (fun _ => hs) h.error
  | fetched _ _ _ hin hb =>
    have hf : s.fetching ≠ none := by
      rw [hin]
      exact nofun
    obtain ⟨-, her, -, hs, -, -⟩ := h.early (.inr hf)
    have hpe := h.fetching hf
    have hl : ¬ (s.recovered = .none ∨ (none : Option MasterInfo) ≠ none) := by
      rw [hpe]
      rintro (he | he)
      · cases he
      · exact he rfl
    refine Phases.begun ?_ hb hl
    exact ⟨fun he => absurd he hl, fun _ => hpe, h.gated, h.clients, fun _ => hs,
      fun _ => .inr (.inl ⟨_, mem_append_right _ (mem_append_right _ mem_cons_self), rfl⟩),
      fun he => absurd her he⟩
  | turnedDown _ _ hr =>
    refine ⟨fun he => ?_, h.fetching, h.gated, h.clients, h.storing, fun hp => absurd hp hr, h.error⟩
    obtain ⟨h₁, h₂, h₃, h₄, h₅, h₆⟩ := h.early he
    refine ⟨h₁, h₂, by rw [← h₃]; exact append_nil _, h₄, h₅, ?_⟩
    show acknowledged (s.answers ++ [_]) = []
    rw [acknowledged_append, h₆]
    rfl
  | gated _ hr =>
    refine ⟨h.early, h.fetching, fun _ => hr, fun p hp => ?_, h.storing, h.awaited, h.error⟩
    rcases mem_append.1 hp with hp | hp
    · exact h.clients p hp
    · rw [mem_singleton.1 hp]
      exact nofun
  | mailed _ hr =>
    refine ⟨fun he => ?_, h.fetching, h.gated, h.clients, h.storing, fun hp => ?_, h.error⟩
    · rcases he with he | he
      · cases hr.symm.trans he
      · cases hr.symm.trans (h.fetching he)
    · cases hr.symm.trans hp
  | tooLate _ _ _ hm her =>
    have hl : ¬ (s.recovered = .none ∨ s.fetching ≠ none) := by
      intro he
      cases her.symm.trans (h.early he).2.1
    refine ⟨fun he => absurd he hl, h.fetching, h.gated, h.clients, h.storing, fun hp => ?_, h.error⟩
    rcases h.awaited hp with hf | hw | ⟨result, hm'⟩
    · exact .inl hf
    · exact .inr (.inl hw)
    · rw [hm] at hm'
      exact .inr (.inr ⟨result, mem_append_left _ (by simpa using hm')⟩)
  | queued _ _ hm her => exact h.queue hm her
  | performed _ _ _ hm her hb => exact (h.queue hm her).begun hb (h.late_of_mail hm)
  | unrecovered _ _ message hm =>
    have hl := h.late_of_mail hm
    rw [not_or, not_not] at hl
    exact .failRecovery message hl.2 h.storing h.error
  | ready _ _ hm =>
    have hl := h.late_of_mail hm
    rw [not_or, not_not] at hl
    refine ⟨fun he => ?_, fun hf => absurd hl.2 hf, fun hg => absurd rfl hg, nofun, h.storing, nofun, h.error⟩
    rcases he with he | he
    · cases he
    · exact absurd hl.2 he
  | committed store _ hs hb =>
    have hl := h.late_of_store hs
    have her : s.error = none := by
      by_contra he
      cases hs.symm.trans (h.error he).2
    refine Phases.begun ?_ hb hl
    refine ⟨fun he => absurd he hl, h.fetching, h.gated, h.clients, fun _ => rfl, fun hp => ?_,
      fun he => absurd her he⟩
    rcases h.awaited hp with hf | ⟨p, hp, hc⟩ | ⟨result, hm⟩
    · exact .inl hf
    · rcases mem_append.1 hp with hp | hp
      · have hp : p ∈ store.applied.map (·.1) := by simpa [Registrar.storing, hs] using hp
        obtain ⟨_, hq, rfl⟩ := mem_map.1 hp
        exact .inr (.inr ⟨_, mem_append_right _ (recovers_set hq hc)⟩)
      · exact .inr (.inl ⟨p, mem_append_right _ hp, hc⟩)
    · exact .inr (.inr ⟨result, mem_append_left _ hm⟩)
  | aborted store _ message hs =>
    have hl := h.late_of_store hs
    refine ⟨fun he => absurd he hl, h.fetching, h.gated, h.clients, fun _ => rfl, fun hp => ?_, fun _ => ⟨rfl, rfl⟩⟩
    rcases h.awaited hp with hf | ⟨p, hp, hc⟩ | ⟨result, hm⟩
    · exact .inl hf
    · have hp : p ∈ store.applied.map (·.1) ++ s.operations := by simpa [Registrar.storing, hs] using hp
      exact .inr (.inr ⟨_, mem_append_right _ (recovers_fail message hp hc)⟩)
    · exact .inr (.inr ⟨result, mem_append_left _ hm⟩)

/-! ## The order of acknowledgements -/

/-- **Operations are in line in the order in which they were applied**, behind `Recover`; each one that was applied is in
line or has failed. -/
structure Registrar.Ordered (s : Registrar) : Prop where
  ascending : (s.line.filterMap (·.client)).Pairwise (· < ·)
  submitted : ∀ p ∈ s.line, ∀ n, p.client = some n → s.applied[n]? = some p.operation
  first : ∀ p ∈ s.line.tail, p.client ≠ none
  recover : ∀ p ∈ s.line, p.client = none → ∃ info, p.operation = .recover info
  known : ∀ n < s.applied.length, ∃ p, (p ∈ s.line ∨ p ∈ failed s.answers) ∧ p.client = some n

theorem Registrar.Ordered.start : Ordered {} where
  ascending := List.Pairwise.nil
  submitted _ h := nomatch h
  first _ h := nomatch h
  recover _ h := nomatch h
  known _ h := nomatch h

theorem Registrar.Ordered.flows (h : s.Ordered) (hf : s.Flows [] s') (ha : s'.applied = s.applied) : s'.Ordered := by
  have hl := hf.line
  rw [append_nil] at hl
  refine ⟨h.ascending.sublist (hl.filterMap _), fun p hp => ?_, fun p hp => h.first p (hl.tail.subset hp),
    fun p hp => h.recover p (hl.subset hp), fun n hn => ?_⟩
  · rw [ha]
    exact h.submitted p (hl.subset hp)
  rw [ha] at hn
  obtain ⟨p, hp, hc⟩ := h.known n hn
  refine ⟨p, ?_, hc⟩
  rcases hp with hp | hp
  · exact hf.kept p (by rwa [append_nil])
  · exact .inr (hf.failed p hp)

theorem Registrar.Ordered.apply {o : Operation} (h : s.Ordered)
    (hf : s.Flows [⟨some s.applied.length, o⟩] s') (ha : s'.applied = s.applied ++ [o]) : s'.Ordered := by
  have hl := hf.line
  have hsub : ∀ p ∈ s.line ++ [⟨some s.applied.length, o⟩], ∀ n, p.client = some n →
      (s.applied ++ [o])[n]? = some p.operation := by
    intro p hp n hn
    rcases mem_append.1 hp with hp | hp
    · have hold := h.submitted p hp n hn
      rw [getElem?_append_left (List.getElem?_eq_some_iff.1 hold).1, hold]
    · rw [mem_singleton.1 hp] at hn ⊢
      cases hn
      simp
  refine ⟨?_, fun p hp => ?_, fun p hp => ?_, fun p hp hc => ?_, fun n hn => ?_⟩
  · refine List.Pairwise.sublist (hl.filterMap _) ?_
    rw [filterMap_append, pairwise_append]
    refine ⟨h.ascending, pairwise_singleton _ _, fun m hm n hn => ?_⟩
    obtain ⟨p, hp, hc⟩ := mem_filterMap.1 hm
    have hlt := (List.getElem?_eq_some_iff.1 (h.submitted p hp m hc)).1
    have hn : n = s.applied.length := by simpa using hn
    omega
  · rw [ha]
    exact hsub p (hl.subset hp)
  · have hp := hl.tail.subset hp
    cases hli : s.line with
    | nil =>
      rw [hli] at hp
      cases hp
    | cons =>
      rw [hli, cons_append, tail_cons, mem_append] at hp
      rcases hp with hp | hp
      · exact h.first p (by rw [hli]; exact hp)
      · rw [mem_singleton.1 hp]
        exact nofun
  · rcases mem_append.1 (hl.subset hp) with hp | hp
    · exact h.recover p hp hc
    · rw [mem_singleton.1 hp] at hc
      cases hc
  rw [ha, length_append] at hn
  by_cases hla : n < s.applied.length
  · obtain ⟨p, hp, hc⟩ := h.known n hla
    refine ⟨p, ?_, hc⟩
    rcases hp with hp | hp
    · exact hf.kept p (mem_append_left _ hp)
    · exact .inr (hf.failed p hp)
  · refine ⟨⟨some s.applied.length, o⟩, hf.kept _ (mem_append_right _ mem_cons_self), ?_⟩
    have : n = s.applied.length := by
      have : [o].length = 1 := rfl
      omega
    rw [this]

variable {t : Registrar} (ps : List Pending)

theorem Registrar.Ordered.recovers (info : MasterInfo) (h : s.Ordered)
    (hc : ∀ p ∈ s.line, p.client ≠ none) (hl : t.line = ⟨none, .recover info⟩ :: s.line) (ha : t.applied = s.applied)
    (hf : failed t.answers = failed s.answers) : t.Ordered := by
  refine ⟨?_, fun p hp n hn => ?_, fun p hp => ?_, fun p hp hn => ?_, fun n hn => ?_⟩
  · rw [hl]
    exact h.ascending
  · rw [hl] at hp
    rcases mem_cons.1 hp with rfl | hp
    · cases hn
    · rw [ha]
      exact h.submitted p hp n hn
  · rw [hl] at hp
    exact hc p hp
  · rw [hl] at hp
    rcases mem_cons.1 hp with rfl | hp
    · exact ⟨info, rfl⟩
    · exact h.recover p hp hn
  · rw [ha] at hn
    obtain ⟨p, hp, hpn⟩ := h.known n hn
    refine ⟨p, ?_, hpn⟩
    rw [hl, hf]
    exact hp.imp_left (mem_cons_of_mem _)

theorem Begun.applied_eq (h : Begun rules s s') : s'.applied = s.applied := by
  cases h with
  | idle | refused | begun => rfl

def RegistrarEvent.submits : RegistrarEvent → List Operation
  | .apply o => [o]
  | _ => []

theorem Handled.applied_eq (h : Handled rules s e s') : s'.applied = s.applied ++ e.submits := by
  cases h with
  | ignored e ha =>
    cases e with
    | apply o => exact absurd rfl (ha o)
    | _ => exact (append_nil _).symm
  | fetched info r s' hin hb | performed p mailbox s' hm he hb | committed store s' hs hb =>
    exact hb.applied_eq.trans (append_nil _).symm
  | turnedDown | gated | mailed => rfl
  | _ => exact (append_nil _).symm

/-- **Every event keeps the order.** -/
theorem Registrar.Ordered.step (h : s.Ordered) (hp : s.Phases) (hh : Handled rules s e s') : s'.Ordered := by
  by_cases he : ∃ r, e = .fetched (.ok r)
  · obtain ⟨r, rfl⟩ := he
    cases hh with
    | ignored => exact h
    | unfetched =>
      exact h.flows (.failRecovery rfl rfl) rfl
    | fetched info _ _ hin hb =>
      obtain ⟨-, -, hm, hs, hops, hack⟩ := hp.early (.inr (by rw [hin]; exact nofun))
      have hl : s.line = s.gated := by
        rw [line_eq, hm, hops, hack]
        simp [storing, hs, Master.mailed]
      refine Ordered.flows ?_ (hb.flows fun _ => hs) hb.applied_eq
      refine h.recovers info ?_ ?_ rfl rfl
      · rw [hl]
        exact hp.clients
      · rw [hl, line_eq]
        simp [storing, hs, hm, hops, hack, Master.mailed]
  · have hf := hh.flows hp.storing hp.gated fun r hr => he ⟨r, hr⟩
    have ha := hh.applied_eq
    cases e with
    | apply => exact h.apply hf ha
    | _ => exact h.flows hf (ha.trans (append_nil _))

/-! ## The registry of the last store -/

def Answer.step : Answer → Option Step
  | .batch => some .batch
  | .set p success => if success then some (.perform p.operation) else none
  | .fail _ _ => none

def Registrar.history (s : Registrar) : List Step := s.answers.filterMap Answer.step

theorem history_fail (message : String) : (ps.map (Answer.fail · message)).filterMap Answer.step = [] := by
  rw [filterMap_map, filterMap_eq_nil_iff]
  exact fun _ _ => rfl

/-- **A batch is what its successful operations do.** -/
theorem performAll_fold : ∀ {ps : List Pending} {r r' : Registry} {ids : Finset SlaveID}
    {applied : List (Pending × Bool)}, performAll rules ps r ids = some (r', applied) →
      ∃ ids', ((applied.map fun p => Answer.set p.1 p.2).filterMap Answer.step).foldl (step rules) (some ⟨r, ids⟩) =
        some ⟨r', ids'⟩
  | [], r, _, ids, _, h => by
    cases h
    exact ⟨ids, rfl⟩
  | p :: ps, r, r', ids, applied, h => by
    unfold performAll at h
    split at h
    · cases h
    rename_i done hd
    obtain ⟨⟨_, _⟩, hrs, heq⟩ := Option.map_eq_some_iff.1 h
    cases heq
    obtain ⟨ids', hf⟩ := performAll_fold hrs
    refine ⟨ids', ?_⟩
    rw [map_cons]
    cases hre : done.result with
    | ok mutated =>
      have hset : (Answer.set p (Except.ok (ε := String) mutated).isOk).step = some (.perform p.operation) := rfl
      rw [filterMap_cons_some hset, foldl_cons]
      have hs : step rules (some ⟨r, ids⟩) (.perform p.operation) = some ⟨done.registry, done.slaveIDs⟩ := by
        simp only [Batch.step, hd]
        rfl
      rw [hs]
      exact hf
    | error =>
      obtain ⟨hr, hids⟩ := Operation.perform_error hd hre
      rw [← hr, ← hids]
      exact hf

theorem performAll_successful : ∀ {ps : List Pending} {r r' : Registry} {ids : Finset SlaveID}
    {applied : List (Pending × Bool)}, performAll rules ps r ids = some (r', applied) →
      performAll rules ((applied.filter (·.2)).map (·.1)) r ids = some (r', applied.filter (·.2))
  | [], r, _, ids, _, h => by
    cases h
    rfl
  | p :: ps, r, r', ids, applied, h => by
    unfold performAll at h
    split at h
    · cases h
    rename_i done hd
    obtain ⟨⟨_, _⟩, hrs, heq⟩ := Option.map_eq_some_iff.1 h
    cases heq
    have ih := performAll_successful hrs
    cases hre : done.result with
    | ok =>
      rw [filter_cons_of_pos rfl, map_cons]
      unfold performAll
      rw [hd]
      dsimp only
      rw [ih, hre]
      rfl
    | error =>
      obtain ⟨hr, hids⟩ := Operation.perform_error hd hre
      rw [← hr, ← hids]
      exact ih

/-- **The registry is the one that was fetched with the history performed on it**, and the last one that was stored; a
batch that is being stored was performed on it. -/
structure Registrar.Recorded (rules : Rules) (s : Registrar) : Prop where
  unstored : s.stored = none → acknowledged s.answers = []
  unfetched : s.registry = none → s.stored = none ∧ s.store = none ∧ s.history = []
  replayed : ∀ r, s.registry = some r → ∃ r₀ b, s.fetched = some r₀ ∧
    s.history.foldl (Batch.step rules) (some (Batch.start r₀)) = some b ∧ b.registry = r ∧
      (s.stored = some r ∨ s.stored = none ∧ s.history = [])
  performed : ∀ r store, s.registry = some r → s.store = some store → ∃ ps,
    performAll rules ps r r.admitted.toFinset = some (store.updatedRegistry, store.applied)

theorem Registrar.Recorded.start : Recorded rules {} where
  unstored _ := rfl
  unfetched _ := ⟨rfl, rfl, rfl⟩
  replayed _ h := nomatch h
  performed _ _ h := nomatch h

theorem Registrar.history_answer_fail (message : String) (s : Registrar) : (fail ps message s).history = s.history := by
  show (s.answers ++ _).filterMap Answer.step = _
  rw [filterMap_append, history_fail, append_nil]
  rfl

theorem Registrar.acknowledged_answer_fail (message : String) (s : Registrar) :
    acknowledged (fail ps message s).answers = acknowledged s.answers := by
  show acknowledged (s.answers ++ _) = _
  rw [acknowledged_append, acknowledged_fail, append_nil]

section
variable (h : s.Recorded rules)
include h

theorem Registrar.Recorded.congr
    (hr : s'.registry = s.registry) (hf : s'.fetched = s.fetched) (hs : s'.stored = s.stored)
    (hh : s'.history = s.history) (ha : acknowledged s'.answers = acknowledged s.answers) (hst : s'.store = s.store) :
    s'.Recorded rules := by
  obtain ⟨h₀, h₁, h₂, h₃⟩ := h
  refine ⟨?_, ?_, ?_, ?_⟩
  · rw [hs, ha]
    exact h₀
  · rw [hr, hs, hst, hh]
    exact h₁
  · rw [hr, hf, hs, hh]
    exact h₂
  · rw [hr, hst]
    exact h₃

theorem Registrar.Recorded.fail (ps : List Pending)
    (message : String) : (fail ps message s).Recorded rules :=
  h.congr rfl rfl rfl (history_answer_fail ps message s) (acknowledged_answer_fail ps message s) rfl

theorem Registrar.Recorded.begun (hb : Begun rules s s') : s'.Recorded rules := by
  cases hb with
  | idle => exact h
  | refused message =>
    refine Recorded.fail ?_ _ message
    exact h.congr rfl rfl rfl rfl rfl rfl
  | begun _ _ _ _ _ hr hpe =>
    refine ⟨h.unstored, fun hno => ?_, h.replayed, fun _ _ hr₁ hs => ?_⟩
    · cases hr.symm.trans hno
    · cases hr.symm.trans hr₁
      cases hs
      exact ⟨_, hpe⟩

/-- **Every event keeps the record.** -/
theorem Registrar.Recorded.step (hp : s.Phases) (hh : Handled rules s e s') : s'.Recorded rules := by
  cases hh with
  | ignored => exact h
  | asked | gated | mailed | queued | ready =>
    exact h.congr rfl rfl rfl rfl rfl rfl
  | unfetched info result message | unrecovered result mailbox message =>
    refine Recorded.fail ?_ _ message
    exact h.congr rfl rfl rfl rfl rfl rfl
  | fetched _ r _ hin hb =>
    obtain ⟨hr, -, -, hs, -, -⟩ := hp.early (.inr (by rw [hin]; exact nofun))
    obtain ⟨hsto, -, hhi⟩ := h.unfetched hr
    refine Recorded.begun ?_ hb
    refine ⟨h.unstored, nofun, ?_, fun _ store _ hst => ?_⟩
    · rintro _ ⟨⟩
      exact ⟨r, Batch.start r, rfl, by exact hhi ▸ rfl, rfl, .inr ⟨hsto, hhi⟩⟩
    · cases hs.symm.trans hst
  | turnedDown _ message =>
    refine Recorded.fail ?_ [_] message
    exact h.congr rfl rfl rfl rfl rfl rfl
  | tooLate p _ message =>
    refine Recorded.fail ?_ [p] message
    exact h.congr rfl rfl rfl rfl rfl rfl
  | performed _ _ _ _ _ hb =>
    refine Recorded.begun ?_ hb
    exact h.congr rfl rfl rfl rfl rfl rfl
  | committed store _ hs hb =>
    refine Recorded.begun ?_ hb
    refine ⟨nofun, nofun, ?_, nofun⟩
    rintro _ ⟨⟩
    cases hr : s.registry with
    | none => cases hs.symm.trans (h.unfetched hr).2.1
    | some r =>
      obtain ⟨r₀, _, hf, hfo, rfl, -⟩ := h.replayed r hr
      obtain ⟨_, hpe⟩ := h.performed _ store hr hs
      obtain ⟨ids', hba⟩ := performAll_fold hpe
      refine ⟨r₀, ⟨store.updatedRegistry, ids'⟩, hf, ?_, rfl, .inl rfl⟩
      show ((s.answers ++ (Answer.batch :: _)).filterMap Answer.step).foldl _ _ = _
      rw [filterMap_append, foldl_append]
      unfold history at hfo
      rw [hfo]
      exact hba
  | aborted _ _ message =>
    refine Recorded.fail ?_ _ message
    refine ⟨h.unstored, fun hno => ?_, h.replayed, nofun⟩
    obtain ⟨h₁, -, h₃⟩ := h.unfetched hno
    exact ⟨h₁, rfl, h₃⟩

end

/-! ## After a failed store -/

theorem Registrar.Phases.error_early (h : s.Phases) (he : s.error ≠ none) : s.recovered ≠ .none ∧ s.fetching = none := by
  have hl : ¬ (s.recovered = .none ∨ s.fetching ≠ none) := fun hea => he (h.early hea).2.1
  rw [not_or, not_not] at hl
  exact hl

def Registrar.Halted (s s' : Registrar) : Prop :=
  s'.error ≠ none ∧ s'.stores = s.stores ∧ ∃ new, s'.answers = s.answers ++ new ∧ ∀ a ∈ new, ∃ p message, a = .fail p message

theorem Registrar.Halted.fail (message : String) (he : t.error ≠ none)
    (hs : t.stores = s.stores) (ha : t.answers = s.answers) : s.Halted (fail ps message t) := by
  refine ⟨he, hs, ps.map (.fail · message), ?_, fun _ h => ?_⟩
  · rw [← ha]
    rfl
  · obtain ⟨p, -, rfl⟩ := mem_map.1 h
    exact ⟨p, message, rfl⟩

theorem Registrar.Halted.congr (he : t.error ≠ none) (hs : t.stores = s.stores)
    (ha : t.answers = s.answers) : s.Halted t :=
  ⟨he, hs, [], by rw [ha, append_nil], nofun⟩

theorem Registrar.Halted.trans {s'' : Registrar} (h : s.Halted s') (h' : s'.Halted s'') : s.Halted s'' := by
  obtain ⟨-, hs, new, ha, hnew⟩ := h
  obtain ⟨he, hs', new', ha', hnew'⟩ := h'
  refine ⟨he, hs'.trans hs, new ++ new', by rw [ha', ha, append_assoc], fun a h => ?_⟩
  rcases mem_append.1 h with h | h
  · exact hnew a h
  · exact hnew' a h

/-- **After an error no store is begun and operations only fail.** -/
theorem Handled.halted (h : Handled rules s e s') (hp : s.Phases) (he : s.error ≠ none) : s.Halted s' := by
  obtain ⟨ha, hf⟩ := hp.error_early he
  obtain ⟨-, hn⟩ := hp.error he
  cases h with
  | ignored | gated | mailed | ready => exact .congr he rfl rfl
  | asked _ hr => exact absurd hr ha
  | unfetched info result message hin | fetched info r s' hin => cases hf.symm.trans hin
  | turnedDown _ message => exact .fail [_] message he rfl rfl
  | tooLate p _ message => exact .fail [p] message he rfl rfl
  | queued p mailbox hm her | performed p mailbox s' hm her => exact absurd her he
  | unrecovered _ _ message => exact .fail s.gated message he rfl rfl
  | committed store s' hs | aborted store outcome message hs => cases hn.symm.trans hs

theorem Registrar.Phases.none_waits (h : s.Phases) (he : s.error ≠ none) (hm : s.mailbox = []) : s.waiting = [] := by
  obtain ⟨_, hfe⟩ := h.error_early he
  obtain ⟨hops, hst⟩ := h.error he
  have hs : s.storing = [] := by
    unfold Registrar.storing
    rw [hst]
    rfl
  have hg : s.gated = [] := by
    by_contra hne
    rcases h.awaited (h.gated hne) with hf | ⟨p, hp, -⟩ | ⟨result, hr⟩
    · exact hf hfe
    · rw [hs, hops] at hp
      cases hp
    · rw [hm] at hr
      cases hr
  unfold waiting
  rw [hs, hops, hm, hg]
  rfl

/-! ## Acknowledged and durable -/

def Registrar.successes (s : Registrar) : List Operation :=
  (acknowledged s.answers).filterMap fun p => if p.2 then some p.1.operation else none

def applyAll (rules : Rules) : List Operation → Registry → Option Registry
  | [], r => some r
  | o :: os, r => (o.perform rules r r.admitted.toFinset).bind fun p => applyAll rules os p.registry

def Step.operation : Step → Option Operation
  | .batch => none
  | .perform o => some o

theorem successes_eq (s : Registrar) : s.successes = s.history.filterMap Step.operation := by
  unfold successes history acknowledged
  rw [filterMap_filterMap, filterMap_filterMap]
  congr 1
  funext a
  cases a with
  | batch | fail => rfl
  | set _ success =>
    cases success with
    | true | false => rfl

theorem applyAll_of_fold : ∀ (es : List Step) {b b' : Batch}, b.registry.Indexed b.slaveIDs →
    es.foldl (step rules) (some b) = some b' →
      applyAll rules (es.filterMap Step.operation) b.registry = some b'.registry
  | [], b, b', _, h => by
    cases h
    rfl
  | .batch :: es, b, b', hi, h => applyAll_of_fold es (b := start b.registry) hi.batch h
  | .perform o :: es, b, b', hi, h => by
    rw [foldl_cons] at h
    rw [filterMap_cons_some (show Step.operation (.perform o) = some o from rfl)]
    simp only [applyAll, Batch.step, ← hi.slaveIDs] at h ⊢
    cases hp : o.perform rules b.registry b.slaveIDs with
    | none =>
      rw [hp, foldl_fixed' fun _ => rfl] at h
      cases h
    | some p =>
      rw [hp] at h
      exact applyAll_of_fold es (b := ⟨p.registry, p.slaveIDs⟩) (hi.step hp) h

/-- **What every event keeps holds after a run.** -/
theorem Registrar.invariant {serialize : Registry → Option String} {I : Registrar → Prop}
    (hs : ∀ s e s', I s → Handled rules s e s' → I s') : ∀ (es : List RegistrarEvent) {s s' : Registrar}, I s →
      es.foldl (step rules serialize) (some s) = some s' → I s'
  | [], s, s', hI, h => by
    cases h
    exact hI
  | e :: es, s, s', hI, h => by
    rw [foldl_cons] at h
    simp only [step, Option.bind_some] at h
    cases hh : s.handle rules serialize e with
    | none =>
      rw [hh, foldl_fixed' fun _ => rfl] at h
      cases h
    | some t =>
      rw [hh] at h
      exact invariant hs es (hs s e t hI (handled hh)) h

/-- **Acknowledgements match the durable registry.**  After every run of a registrar:

* the registry of the last store that succeeded is the one that was fetched, with the operations acknowledged as successful
  performed on it in their batches, in the order of the acknowledgements; if no agent was admitted twice in the registry
  that was fetched, performing them one by one comes to the same; without a store that succeeded nothing was acknowledged;
* a batch without the operations that were refused leaves the same registry, and the others end as they did;
* the first operation acknowledged is `Recover`, the others are those that were applied, in that order;
* a store that fails leaves an error, and the operations of its batch and those queued fail; from then on no store is
  begun, operations only fail, and when the mailbox has been dealt with every operation that was applied has been
  answered. -/
theorem Registrar.acknowledged_durable (rules : Rules) (serialize : Registry → Option String) (es : List RegistrarEvent)
    (s : Registrar) (h : es.foldl (Registrar.step rules serialize) (some {}) = some s) :
    (∀ v, s.stored = some v → ∃ r₀ b, s.fetched = some r₀ ∧
      s.history.foldl (Batch.step rules) (some (Batch.start r₀)) = some b ∧ b.registry = v ∧
        (r₀.admitted.Nodup → applyAll rules s.successes r₀ = some v)) ∧
    (s.stored = none → acknowledged s.answers = []) ∧
    (∀ ps r ids r' applied, performAll rules ps r ids = some (r', applied) →
      performAll rules ((applied.filter (·.2)).map (·.1)) r ids = some (r', applied.filter (·.2))) ∧
    (((acknowledged s.answers).map (·.1)).filterMap (·.client)).Pairwise (· < ·) ∧
    (∀ p ∈ (acknowledged s.answers).map (·.1), ∀ n, p.client = some n → s.applied[n]? = some p.operation) ∧
    (∀ p ∈ (acknowledged s.answers).map (·.1), p.client = none → ∃ info, p.operation = .recover info) ∧
    (∀ p ∈ ((acknowledged s.answers).map (·.1)).tail, p.client ≠ none) ∧
    (∀ outcome s', s.store ≠ none → outcome ≠ .success → s.handle rules serialize (.stored outcome) = some s' →
      s'.error ≠ none ∧ acknowledged s'.answers = acknowledged s.answers ∧
        ∀ p ∈ s.storing ++ s.operations, p ∈ failed s'.answers) ∧
    (s.error ≠ none → ∀ (es' : List RegistrarEvent) s',
      es'.foldl (Registrar.step rules serialize) (some s) = some s' → s.Halted s' ∧
      (s'.mailbox = [] → ∀ n < s'.applied.length, ∃ p, p.client = some n ∧
        (p ∈ (acknowledged s'.answers).map (·.1) ∨ p ∈ failed s'.answers))) := by
  have hkept : ∀ s e s', s.Phases ∧ s.Ordered ∧ s.Recorded rules → Handled rules s e s' →
      s'.Phases ∧ s'.Ordered ∧ s'.Recorded rules := fun s e s' ⟨hp, ho, hr⟩ hh => ⟨hp.step hh, ho.step hp hh, hr.step hp hh⟩
  obtain ⟨hp, ho, hr⟩ := invariant hkept es ⟨.start, .start, .start⟩ h
  have hacked : ((acknowledged s.answers).map (·.1)).Sublist s.line := sublist_append_left _ _
  refine ⟨fun v hv => ?_, hr.unstored, fun _ _ _ _ _ hb => performAll_successful hb,
    ho.ascending.sublist (hacked.filterMap _), fun p hm => ho.submitted p (hacked.subset hm),
    fun p hm => ho.recover p (hacked.subset hm), fun p hm => ho.first p (hacked.tail.subset hm), ?_, ?_⟩
  · cases hreg : s.registry with
    | none => cases hv.symm.trans (hr.unfetched hreg).1
    | some r =>
      obtain ⟨r₀, b, hf, hfold, hb, hstored⟩ := hr.replayed r hreg
      have hrv : r = v := by
        rcases hstored with hs | ⟨hs, -⟩
        · exact Option.some.inj (hs.symm.trans hv)
        · cases hs.symm.trans hv
      refine ⟨r₀, b, hf, hfold, hb.trans hrv, fun hnodup => ?_⟩
      rw [successes_eq, ← hrv, ← hb]
      exact applyAll_of_fold _ (b := Batch.start r₀) ⟨hnodup, rfl⟩ hfold
  · intro outcome s' hstore hout hh
    cases handled hh with
    | ignored _ _ hnone => exact absurd (hnone outcome rfl) hstore
    | committed => exact absurd rfl hout
    | aborted _ _ _ hstore' =>
      refine ⟨nofun, acknowledged_answer_fail _ _ _, fun p hm => ?_⟩
      rw [failed_answers_fail]
      refine mem_append_right _ ?_
      simpa [storing, hstore'] using hm
  · intro herror es' _ hrun
    obtain ⟨⟨hp', ho', -⟩, hhalt⟩ := invariant
      (I := fun t : Registrar => (t.Phases ∧ t.Ordered ∧ t.Recorded rules) ∧ s.Halted t)
      (fun t e t' hI hh => ⟨hkept t e t' hI.1 hh, hI.2.trans (hh.halted hI.1.1 hI.2.1)⟩) es'
      ⟨⟨hp, ho, hr⟩, .congr herror rfl rfl⟩ hrun
    refine ⟨hhalt, fun hm n hn => ?_⟩
    obtain ⟨p, hline, hc⟩ := ho'.known n hn
    refine ⟨p, hc, ?_⟩
    unfold line at hline
    rwa [hp'.none_waits hhalt.1 hm, append_nil] at hline

def admissions : List RegistrarEvent :=
  [.apply (.admitSlave ⟨"a", []⟩), .recover ⟨"m"⟩, .apply (.admitSlave ⟨"a", []⟩), .fetched (.ok {}), .stored .success,
    .deliver, .deliver, .apply (.admitSlave ⟨"a", []⟩), .deliver, .apply (.deactivateAgent "a"), .stored .success,
    .stored .success, .deliver, .stored .versionMismatch]

theorem acknowledged_durable_admissions : ∃ s,
    admissions.foldl (Registrar.step Rules.plain fun _ => none) (some {}) = some s ∧
    (acknowledged s.answers).map (fun p => (p.1.client, p.2)) = [(none, true), (some 1, true), (some 2, false)] ∧
    s.error = some "Failed to update registry: version mismatch" ∧
    ∃ v, s.stored = some v ∧ v.admitted = ["a"] ∧ ∃ r₀ b, s.fetched = some r₀ ∧
      s.history.foldl (Batch.step Rules.plain) (some (Batch.start r₀)) = some b ∧ b.registry = v ∧
        (r₀.admitted.Nodup → applyAll Rules.plain s.successes r₀ = some v) := by
  refine ⟨_, rfl, by decide, by decide, _, rfl, by decide, ?_⟩
  exact (acknowledged_durable Rules.plain (fun _ => none) admissions _ rfl).1 _ rfl

end Clusterd.Master
