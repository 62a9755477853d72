import Clusterd.LogElection
/-!
# Where a value comes from

What a replica holds unlearned, and what it reports to a promise, it has accepted (`Life.Origin`); what it accepted, some
process asked it to write (`Sound.requested`).  So a truncation learned anywhere was called for by a client, and goes no further
than its own position when every call did (`Backward`).
-/
namespace Clusterd.Log

theorem Replica.Wf.of_record_persist {r : Replica} (h : r.Wf) {a b : Action} {p : Nat}
    (hb : (r.persist a).record p = some b) : (p = a.position ∧ b = a) ∨ (p ≠ a.position ∧ r.record p = some b) := by
  have hr := h.storage.record_persist a p
  rw [show (r.storage.persist a).record p = some b from hb] at hr
  split at hr
  · cases hr
  split at hr
  · cases hr
    exact .inl ⟨‹_›, rfl⟩
  · exact .inr ⟨‹_›, hr.symm⟩

variable {request : WriteRequest}

namespace Life

def Attests (l : Life) (p : Nat) (a : Action) : Prop :=
  a.learned = false → (a.performed = none ∧ a.value = none) ∨
    ∃ n v, a.performed = some n ∧ a.value = some v ∧ l.Accepted n p v

variable {l : Life}

theorem Attests.step {p : Nat} {a : Action} (h : l.Attests p a) (d : Deed) : (l.step d).Attests p a := by
  intro hl
  rcases h hl with hn | ⟨n, v, hp, hv, ha⟩
  · exact .inl hn
  · exact .inr ⟨n, v, hp, hv, ha.step d⟩

structure Origin (l : Life) : Prop where
  wf : l.replica.Wf
  record : ∀ p a, l.replica.record p = some a → l.Attests p a
  granted : ∀ i m p a, l.Granted i m p (some a) → l.Attests p a

def Deed.Plain : Deed → Prop
  | .write _ request => request.value ≠ .nop true
  | _ => True

theorem attests_written {id : Nat} (hv : request.value ≠ .nop true) {n : Nat}
    (ha : (l.step (.write id request)).Accepted request.proposal request.position request.value) :
    (l.step (.write id request)).Attests request.position (Replica.written request n) :=
  fun _ => .inr ⟨request.proposal, request.value, rfl, congrArg some (Cluster.writtenValue_plain hv), ha⟩

theorem Origin.step (h : l.Origin) {d : Deed} (hd : Deed.Plain d) : (l.step d).Origin := by
  have hpe : ∀ {a : Action}, (l.step d).Attests a.position a →
      ∀ p b, (l.replica.persist a).record p = some b → (l.step d).Attests p b := by
    intro a ha p b hb
    rcases h.wf.of_record_persist hb with ⟨rfl, rfl⟩ | ⟨-, hb⟩
    · exact ha
    · exact (h.record p b hb).step d
  refine ⟨wf_step h.wf d, ?_, ?_⟩
  · have ht := turn h.wf d
    generalize (l.step d).replica = r' at ht ⊢
    cases ht with
    | idle d => exact fun p a ha => (h.record p a ha).step d
    | promises | updates | restarts => exact fun p a ha => (h.record p a ha).step _
    | grantsFresh => exact hpe (fun _ => .inl ⟨rfl, rfl⟩)
    | grants _ _ _ b _ _ hb =>
      obtain rfl := (h.wf.mem_of_record.1 hb).2
      exact hpe ((h.record b.position b hb).step _)
    | writesFresh id request reply hr ht | writesOver id request reply a hr ht =>
      exact hpe (attests_written hd (accepted_write id hr ht))
    | learns _ ha => exact hpe (fun hl => by rw [ha] at hl; cases hl)
    | loses => exact nofun
  · rintro i m p a ⟨x, hx, rfl, hxa⟩
    rcases granted_step h.wf hx hxa with hx | ⟨request, rfl, -, -, hg⟩
    · exact (h.granted x.1 m p a ⟨x, hx, rfl, hxa⟩).step d
    rcases hg with ⟨-, ha, -⟩ | ⟨-, ha, -⟩ | ⟨_, -, ha, hb, -⟩
    · cases ha
      exact nofun
    · cases ha
    · cases ha
      exact (h.record p a hb).step _

end Life

namespace Cluster
variable {ρ : Type}

def Requested (w : Cluster ρ) (n p : Nat) (v : Value) : Prop :=
  ∃ source request, (source, .write request) ∈ w.requests ∧ request.proposal = n ∧ request.position = p ∧ request.value = v

variable {w : Cluster ρ} {cfg : Config ρ} {n p : Nat} {v : Value}

/-- **What a replica accepted was asked for.** -/
theorem Sound.requested (h : w.Sound cfg) {R : ρ} (ha : w.Accepted R n p v) : w.Requested n p v := by
  obtain ⟨y, hy, -, hacc⟩ := ha
  obtain ⟨source, hreq⟩ := (h.responses y hy).1.request
  unfold Answer.accepted at hacc
  split at hacc
  next request response hans =>
    split at hacc
    · cases hacc
      rw [hans] at hreq
      exact ⟨source, request, List.mem_of_getElem? hreq, rfl, rfl, rfl⟩
    · cases hacc
  · cases hacc

def Backward (w : Cluster ρ) : Prop := ∀ n p target, w.Requested n p (.truncate target) → target ≤ p

def TruncatesBack (w : Cluster ρ) (e : Event ρ) : Prop :=
  ∀ c target, e.writes? = some (c, .truncate target) → (w.coordinators c).machine.coordinator.state = .elected →
    target ≤ (w.coordinators c).machine.coordinator.index

instance (w : Cluster ρ) (e : Event ρ) : Decidable (w.TruncatesBack e) :=
  match h : e.writes? with
  | some (c, .truncate target) =>
    decidable_of_iff ((w.coordinators c).machine.coordinator.state = .elected →
        target ≤ (w.coordinators c).machine.coordinator.index)
      ⟨fun hf c' t hv => by rw [h] at hv; cases hv; exact hf, fun hf => hf c target h⟩
  | some (_, .append _) => isTrue (fun c t hv => by rw [h] at hv; cases hv)
  | some (_, .nop _) => isTrue (fun c t hv => by rw [h] at hv; cases hv)
  | none => isTrue (fun c t hv => by rw [h] at hv; cases hv)

theorem Backward.learned (h : w.Backward) (hs : w.Sound cfg) (hq : 0 < cfg.quorum)
    {a : Action} (ha : a ∈ w.learned) : a.TruncatesBack := by
  intro hl target hv
  rcases (hs.learned a ha).2.learned hl with ⟨hv', -⟩ | ⟨n, _, hv', -, hc⟩
  · rw [hv] at hv'
    cases hv'
  rw [hv] at hv'
  cases hv'
  obtain ⟨_, hS, hacc⟩ := hc
  obtain ⟨R, hR⟩ := Finset.card_pos.1 (hq.trans_le hS)
  exact h n a.position target (hs.requested (hacc R hR))

variable [DecidableEq ρ] {f : Nat}

/-- **What a fill writes was accepted under the highest number reported to it**, or is a no-op when none was. -/
theorem Surveyed.found (ho : ∀ R, (w.life R).Origin) (h : w.Surveyed cfg f n p v) :
    ∃ i highest, w.requests[i]? = some (.fill f, .promise { proposal := n, position := some p }) ∧
      Quorum cfg.quorum (w.Reports i n p highest) ∧ ((highest = none ∧ v = .nop false) ∨
        ∃ a k R, highest = some a ∧ a.performed = some k ∧ w.Accepted R k p v) := by
  obtain ⟨i, highest, hi, hq, hno, hs⟩ := h
  refine ⟨i, highest, hi, hq, ?_⟩
  cases highest with
  | none => exact .inl ⟨rfl, hno rfl⟩
  | some a =>
    obtain ⟨hv, R, hg, hl, hp⟩ := hs a rfl
    rcases (ho R).granted i n p a (granted_iff.1 hg) hl with ⟨hn, -⟩ | ⟨k, _, hk, hv', hacc⟩
    · exact absurd hn hp
    · rw [hv] at hv'
      cases hv'
      exact .inr ⟨a, k, R, rfl, hk, accepted_iff.2 hacc⟩

variable [Fintype ρ] {e : Event ρ}

theorem origin_step (hs : w.Sound cfg) (h : ∀ R, (w.life R).Origin) : ∀ R, ((w.step cfg e).life R).Origin :=
  life_invariant (I := fun _ l => l.Origin) (fun _ d hd hl => by
    refine hl.step ?_
    cases d with
    | write _ request =>
      obtain ⟨-, source, hreq⟩ := hd
      exact (hs.requests source request (List.mem_of_getElem? hreq)).2.1
    | _ => trivial) h

omit [Fintype ρ] in
theorem origin_start (voting : ρ → Bool) (R : ρ) : ((start voting).life R).Origin := by
  refine ⟨(once_start voting R).wf, fun p a ha => ?_, fun i m p a ⟨x, hx, _⟩ => by cases hx⟩
  simp only [life, start] at ha
  split at ha <;> cases ha

theorem Change.requests_or_responses {w' : Cluster ρ} (h : Change cfg w e w') :
    w'.requests = w.requests ∨ w'.responses = w.responses := by
  cases h with
  | none | promise | write | recover | learn | restart | lose => exact .inl rfl
  | spawn => exact .inr rfl
  | coordinator | promiseHeard | writeHeard =>
    exact .inr (by simp [stepCoordinator])
  | fillPromiseHeard | fillWriteHeard | fillRetries | fillStops => exact .inr (by simp [stepFill])
  | recovery | recoverHeard =>
    refine .inr ?_
    unfold stepRecovery
    simp only [send_responses]
    split <;> rfl

theorem accepted_of_fill (hs : w.Sound cfg) (ho : ∀ R, (w.life R).Origin) (hm : (.fill f, .write request) ∈ (w.step cfg e).requests) :
    (.fill f, .write request) ∈ w.requests ∨ request.value = .nop false ∨
      ∃ R k, w.Accepted R k request.position request.value := by
  rcases (step_change cfg w e).requests_or_responses with hreq | hr
  · rw [hreq] at hm
    exact .inl hm
  have hsur : (w.step cfg e).Surveyed cfg f request.proposal request.position request.value :=
    ((hs.step e).requests _ request hm).2.2
  obtain ⟨-, -, -, -, ⟨-, hv⟩ | ⟨-, k, R, -, -, y, hy, hacc⟩⟩ := hsur.found (origin_step hs ho)
  · exact .inr (.inl hv)
  · rw [hr] at hy
    exact .inr (.inr ⟨R, k, y, hy, hacc⟩)

/-- **No truncation goes further than its position, when no call asks for one.** -/
theorem Backward.step (h : w.Backward) (hs : w.Sound cfg)
    (ho : ∀ R, (w.life R).Origin) (he : w.TruncatesBack e) : (w.step cfg e).Backward := by
  rintro n p target ⟨source, request, hm, rfl, rfl, hv⟩
  have hold : ∀ source, (source, Request.write request) ∈ w.requests → target ≤ request.position :=
    fun source hm => h _ _ _ ⟨source, request, hm, rfl, rfl, hv⟩
  cases source with
  | coordinator c =>
    rcases (step_change cfg w e).client c with ⟨-, hreq⟩ | ⟨_, hc, -, hreq⟩
    · exact hold _ (hreq request hm)
    rcases hreq request hm with hm | hx
    · exact hold _ hm
    obtain ⟨v, hst, hxv, rfl⟩ := Coordinator.step_write hx
    have hvt : v = .truncate target := (value?_plain hxv).2.symm.trans hv
    exact he c target (hvt ▸ hc v hxv) hst
  | fill =>
    rcases accepted_of_fill hs ho hm with hm | hnop | ⟨R, k, hacc⟩
    · exact hold _ hm
    · rw [hv] at hnop
      cases hnop
    · rw [hv] at hacc
      exact h _ _ _ (hs.requested hacc)
  | recovery => exact absurd ((hs.step e).requests _ request hm).2.2 id

end Cluster

end Clusterd.Log

/-!
# Fencing off an old leader

A replica that promised `m` implicitly and reported the end `e` accepts nothing below `m` beyond `e`, before or after, as long
as it keeps its stored state (`Life.Fenced`).  One that lost its state has forgotten what it promised and accepted; it goes on
as if it had not when nothing it is asked to do goes against a forgotten answer (`Answer.compatible`).  Two quorums share a
replica, so every older leader is fenced off.
-/
namespace Clusterd.Log

/-- Handling the request, with the log ending where it does, does not go against the answer: the write is not below a
number promised for its position, the promise does not miss a position accepted below it. -/
def Answer.compatible (a : Answer) (ending : Nat) : Request → Bool
  | .write request =>
    match a.promised with
    | some (m, e) => !(decide (e < request.position) && decide (request.proposal < m))
    | none => true
  | .promise request =>
    match request.position, a.accepted with
    | none, some (n, p, _) => !(decide (n < request.proposal) && decide (ending < p))
    | _, _ => true
  | .recover => true

variable {request : WriteRequest}

theorem Answer.compatible_write {a : Answer} {ending : Nat}
    (h : a.compatible ending (.write request) = true) {m e : Nat} (ha : a.promised = some (m, e))
    (he : e < request.position) : m ≤ request.proposal := by
  simp only [compatible, ha, Bool.not_eq_true', Bool.and_eq_false_iff, decide_eq_false_iff_not] at h
  omega

theorem Answer.compatible_promise {a : Answer} {ending : Nat} {request : PromiseRequest}
    (h : a.compatible ending (.promise request) = true) (hp : request.position = none) {n p : Nat} {v : Value}
    (ha : a.accepted = some (n, p, v)) (hn : n < request.proposal) : p ≤ ending := by
  simp only [compatible, hp, ha, Bool.not_eq_true', Bool.and_eq_false_iff, decide_eq_false_iff_not] at h
  omega

def Deed.request? : Deed → Option Request
  | .promise _ request => some (.promise request)
  | .write _ request => some (.write request)
  | .recover _ => some .recover
  | _ => none

def Deed.TruncatesBack : Deed → Prop
  | .write _ request => request.learned = false
  | .learned a => a.TruncatesBack
  | _ => True

namespace Life

section

variable (forgotten : List (Nat × Answer)) (l : Life)

/-- **No write below a promise was accepted beyond the end it reported.**  `forgotten` are the answers of which the
replica may know nothing any more; the others it still holds. -/
structure Fenced : Prop where
  wf : l.replica.Wf
  targets : l.replica.TargetsBack
  ending : l.replica.HoldsEnding
  holds : ∀ x ∈ l.answers, x ∉ forgotten → ∀ m e, x.2.promised = some (m, e) → m ≤ l.replica.promised ∧
    ∀ p a, e < p → l.replica.record p = some a → a.learned = false → m ≤ a.promised
  reaches : ∀ x ∈ l.answers, x ∉ forgotten → ∀ n p v, x.2.accepted = some (n, p, v) → p ≤ l.replica.ending
  apart : ∀ i m e n p v, l.Promised i m e → l.Accepted n p v → e < p → m ≤ n

def Recalls (d : Deed) : Prop :=
  l.replica.status = .voting → ∀ q, d.request? = some q → ∀ x ∈ forgotten, x.2.compatible l.replica.ending q = true

end

theorem written_truncatesBack (h : request.learned = false) (n : Nat) :
    (Replica.written request n).TruncatesBack := Action.truncatesBack_of_unlearned h

variable {d : Deed} {l : Life} {forgotten : List (Nat × Answer)} (h : l.Fenced forgotten)
include h

theorem Fenced.ending_step (hd : d ≠ .lose) : l.replica.ending ≤ (l.step d).replica.ending := by
  have ht := turn h.wf d
  generalize (l.step d).replica = r' at ht ⊢
  cases ht with
  | restarts => exact le_of_eq (h.wf.restore_ending.2 h.ending).symm
  | loses => exact absurd rfl hd
  | idle | promises | updates => exact le_rfl
  | _ => exact le_max_left _ _

theorem Fenced.storage_step (hb : d.TruncatesBack) : (l.step d).replica.TargetsBack ∧ (l.step d).replica.HoldsEnding := by
  have hpe : ∀ {a : Action}, a.TruncatesBack → (l.replica.persist a).TargetsBack ∧ (l.replica.persist a).HoldsEnding :=
    fun ha => ⟨h.targets.persist h.wf ha, h.wf.holdsEnding_persist h.ending ha.truncateTo⟩
  have ht := turn h.wf d
  generalize (l.step d).replica = r' at ht ⊢
  cases ht with
  | idle | promises | updates => exact ⟨h.targets, h.ending⟩
  | grantsFresh => exact hpe (Action.truncatesBack_of_unlearned rfl)
  | grants _ _ _ b _ _ hr => exact hpe (h.targets b (h.wf.mem_of_record.1 hr).1)
  | writesFresh | writesOver =>
    exact hpe (written_truncatesBack hb _)
  | learns => exact hpe hb
  | restarts => exact ⟨h.targets, Replica.restore_ending_spec l.replica.storage⟩
  | loses => exact ⟨fun _ ha => absurd ha List.not_mem_nil, .inl rfl⟩

theorem Fenced.holds_step (hd : d ≠ .lose) {m e : Nat} (hm : m ≤ l.replica.promised)
    (hold : ∀ p a, e < p → l.replica.record p = some a → a.learned = false → m ≤ a.promised) :
    ∀ p a, e < p → (l.step d).replica.record p = some a → a.learned = false → m ≤ a.promised := by
  have hpe : ∀ {b : Action}, (e < b.position → b.learned = false → m ≤ b.promised) →
      ∀ p a, e < p → (l.replica.persist b).record p = some a → a.learned = false → m ≤ a.promised := by
    intro b hb p a he ha hl
    rcases h.wf.of_record_persist ha with ⟨rfl, rfl⟩ | ⟨-, ha⟩
    · exact hb he hl
    · exact hold p a he ha hl
  have ht := turn h.wf d
  generalize (l.step d).replica = r' at ht ⊢
  cases ht with
  | idle | promises => exact hold
  | grantsFresh _ _ _ _ _ _ hlt => exact hpe (fun _ _ => le_of_lt (hm.trans_lt hlt))
  | grants _ _ _ b _ _ hr hlt =>
    obtain rfl := (h.wf.mem_of_record.1 hr).2
    exact hpe (fun he hl => le_of_lt (lt_of_le_of_lt (hold _ b he hr hl) hlt))
  | writesFresh => exact hpe (fun _ _ => hm)
  | writesOver _ _ _ a _ _ _ hr _ hl => exact hpe (fun he _ => hold _ a he hr hl)
  | learns _ ha => exact hpe (fun _ hl => by rw [ha] at hl; cases hl)
  | updates | restarts => exact hold
  | loses => exact absurd rfl hd

/-- **A replica that keeps its state, and goes against no forgotten answer, stays fenced.** -/
theorem Fenced.step (hd : d ≠ .lose)
    (hb : d.TruncatesBack) (hr : l.Recalls forgotten d) : (l.step d).Fenced forgotten := by
  obtain ⟨ht, hen⟩ := h.storage_step hb
  have hpr := promised_le_step h.wf hd
  have hend := h.ending_step hd
  refine ⟨wf_step h.wf d, ht, hen, fun x hx hf m e ha => ?_, fun x hx hf n p v ha => ?_, ?_⟩
  · rcases promised_step h.wf hx ha with hx | ⟨request, rfl, -, -, rfl, -, rfl, hrep⟩
    · obtain ⟨hm, hold⟩ := h.holds x hx hf m e ha
      exact ⟨hm.trans hpr, h.holds_step hd hm hold⟩
    rw [hrep]
    refine ⟨le_rfl, fun p a he hrec _ => ?_⟩
    rw [show (l.replica.updatePromised request.proposal).record p = none from h.wf.record_of_ending_lt he] at hrec
    cases hrec
  · rcases accepted_step h.wf hx ha with hx | ⟨id, request, rfl, -, -, rfl, -, -, hrep⟩
    · exact (h.reaches x hx hf n p v ha).trans hend
    rcases hrep with ⟨-, -, hrep⟩ | ⟨a, -, -, -, hrep⟩
    · rw [hrep]
      exact le_max_right _ _
    · rw [hrep]
      exact le_max_right _ _
  rintro i m e n p v ⟨x, hx, rfl, hp⟩ ⟨y, hy, ha⟩ he
  rcases promised_step h.wf hx hp with hxl | ⟨request, rfl, hs, hno, rfl, -, rfl, -⟩
  · rcases accepted_step h.wf hy ha with hyl | ⟨id, request, rfl, hs, rfl, rfl, -, -, hrec⟩
    · exact h.apart x.1 m e n p v ⟨x, hxl, rfl, hp⟩ ⟨y, hyl, ha⟩ he
    -- a write is accepted now
    by_cases hf : x ∈ forgotten
    · exact Answer.compatible_write (hr hs _ rfl x hf) hp he
    obtain ⟨hm, hold⟩ := h.holds x hxl hf m e hp
    rcases hrec with ⟨-, hle, -⟩ | ⟨a, hrec, hle, hl, -⟩
    · exact hm.trans hle
    · exact (hold _ a he hrec hl).trans hle
  · -- a promise is given now
    rcases accepted_step h.wf hy ha with hyl | ⟨id, request', hd', -⟩
    · by_contra hn
      have hlt : n < request.proposal := by omega
      have hle : p ≤ l.replica.ending := by
        by_cases hf : y ∈ forgotten
        · exact Answer.compatible_promise (hr hs _ rfl y hf) hno ha hlt
        · exact h.reaches y hyl hf n p v ha
      omega
    · cases hd'

theorem Fenced.lose : (l.step .lose).Fenced (forgotten ++ l.answers) :=
  ⟨wf_step h.wf .lose, fun _ ha => absurd ha List.not_mem_nil, .inl rfl,
    fun _ hx hf => absurd (List.mem_append_right _ hx) hf, fun _ hx hf => absurd (List.mem_append_right _ hx) hf, h.apart⟩

end Life

namespace Cluster
variable {ρ : Type} [DecidableEq ρ] {cfg : Config ρ} {w : Cluster ρ} {F : ρ → List (Nat × Answer)}

theorem fenced_start (voting : ρ → Bool) (R : ρ) : ((start voting).life R).Fenced [] := by
  have hrep : ((start voting).replicas R).TargetsBack ∧ ((start voting).replicas R).HoldsEnding := by
    unfold start
    simp only
    split <;> exact ⟨fun _ ha => absurd ha List.not_mem_nil, .inl rfl⟩
  exact ⟨(once_start voting R).wf, hrep.1, hrep.2, fun _ hx => absurd hx List.not_mem_nil,
    fun _ hx => absurd hx List.not_mem_nil, fun i m e n p v ⟨_, hx, _⟩ => absurd hx List.not_mem_nil⟩

/-- **A quorum that promised `m` fences off every number below it**, beyond the ends it reported. -/
theorem not_chosen_of_fenced [Fintype ρ] (hq : Fintype.card ρ < 2 * cfg.quorum) (h : ∀ R, (w.life R).Fenced (F R)) {i m e n p : Nat} {v : Value}
    (hp : Quorum cfg.quorum (fun R => ∃ e', w.Promised i R m e' ∧ e' ≤ e)) (hn : n < m) (he : e < p) :
    ¬w.Chosen cfg n p v := by
  intro hc
  obtain ⟨R, ⟨e', hR, _⟩, ha⟩ := Quorum.inter hq hp hc
  have := (h R).apart i m e' n p v (promised_iff.1 hR) (accepted_iff.1 ha) (by omega)
  omega

structure Guarded (cfg : Config ρ) (F : ρ → List (Nat × Answer)) (w : Cluster ρ) : Prop where
  sound : w.Sound cfg
  origin : ∀ R, (w.life R).Origin
  backward : w.Backward
  fenced : ∀ R, (w.life R).Fenced (F R)

theorem guarded_start (cfg : Config ρ) (voting : ρ → Bool) : (start voting).Guarded cfg (fun _ => []) :=
  ⟨sound_start cfg voting, origin_start voting,
    fun _ _ _ ⟨_, _, hm, _⟩ => absurd hm List.not_mem_nil, fenced_start voting⟩

variable [Fintype ρ]

theorem Guarded.step (h : w.Guarded cfg F)
    (hq : 0 < cfg.quorum) {e : Event ρ} (hl : e.loses = false) (hb : w.TruncatesBack e)
    (hr : ∀ R d, w.Does e R d → (w.life R).Recalls (F R) d) : (w.step cfg e).Guarded cfg F := by
  refine ⟨h.sound.step e, origin_step h.sound h.origin, h.backward.step h.sound h.origin hb,
    life_invariant (I := fun R l => l.Fenced (F R)) (fun R d hd hf => hf.step ?_ ?_ (hr R d hd)) h.fenced⟩
  · rintro rfl
    rw [show e = .lose R from hd] at hl
    cases hl
  cases d with
  | write _ request =>
    obtain ⟨-, source, hreq⟩ := hd
    exact (h.sound.requests source request (List.mem_of_getElem? hreq)).1
  | learned => exact h.backward.learned h.sound hq hd.1
  | _ => trivial

/-- **Leader fencing.**  Where replicas keep their stored state and no call truncates beyond the position it is written
at, a quorum of implicit promises for `m` that reported ends up to `e` excludes that a write below `m` beyond `e` is
accepted by a quorum, before or after it. -/
theorem implicit_promise_fences (cfg : Config ρ) (hq : Fintype.card ρ < 2 * cfg.quorum) (voting : ρ → Bool)
    (es : List (Event ρ))
    (h : Run.Along (step cfg) (fun w e => e.loses = false ∧ w.TruncatesBack e) (start voting) es) (i m e n p : Nat)
    (v : Value) (hp : Quorum cfg.quorum (fun R => ∃ e', ((start voting).run cfg es).Promised i R m e' ∧ e' ≤ e))
    (hn : n < m) (he : e < p) : ¬((start voting).run cfg es).Chosen cfg n p v := by
  have hg : ((start voting).run cfg es).Guarded cfg (fun _ => []) :=
    Run.Along.invariant (I := fun w => w.Guarded cfg (fun _ => []))
      (fun w e hw ⟨hl, hb⟩ => hw.step (by omega) hl hb (fun _ _ _ _ _ _ _ hx => nomatch hx)) es
      (guarded_start cfg voting) h
  exact not_chosen_of_fenced hq hg.fenced hp hn he

/-- Coordinator `0` has won `1`, coordinator `1` wins `2`: nothing beyond position `0` is chosen under `1` any more. -/
theorem implicit_promise_fences_two :
    let w := initialized.run three (firstElection ++ secondElection)
    Quorum 2 (fun R => w.Promised 3 R 2 0) ∧ ¬w.Chosen three 1 1 (.append [7]) := by
  have hp : Quorum 2 (fun R => (initialized.run three (firstElection ++ secondElection)).Promised 3 R 2 0) := by
    decide +kernel
  exact ⟨hp, implicit_promise_fences three (by decide) (fun _ => true) (firstElection ++ secondElection)
    (by decide +kernel) 3 2 0 1 1 (.append [7]) (hp.mono fun _ hR => ⟨0, hR, Nat.le_refl 0⟩) (by decide) (by decide)⟩

/-- **A truncation beyond its own position erases itself.**  Coordinator `0` writes a truncation to `5` at position `1`:
once learned, the record that holds the end of the log is deleted, and replicas `0` and `1` restart with end `0`.  They
promise `2` with that end to coordinator `1`, though both accepted a write at `1` under `1`. -/
theorem fencing_lost_by_truncation :
    let w := initialized.run three (firstElection ++
      [.truncate 0 5, .deliver 3 0, .deliver 3 1, .receive 6, .receive 7, .learn 1 0, .learn 1 1, .restart 0, .restart 1,
       .elect 1, .promised 1, .deliver 4 0, .deliver 4 1, .receive 8, .receive 9])
    w.requests[4]? = some (.coordinator 1, .promise { proposal := 2 }) ∧ Quorum 2 (fun R => w.Promised 4 R 2 0) ∧
      w.Chosen three 1 1 (.truncate 5) := by
  decide +kernel

end Cluster

end Clusterd.Log

/-!
# Rejoining without a memory

A replica that lost its stored state recovers the positions of a quorum and votes again, but an implicit promise leaves no
position behind, and an accepted write may leave none that anyone else has.  `Memory` keeps what a replica answered before;
fencing holds as long as no rejoined replica handles a request that goes against such an answer, which the recover protocol
alone does not ensure.
-/
namespace Clusterd.Log

/-- The cluster, with the answers replicas gave before they lost their state. -/
structure Memory (ρ : Type) where
  cluster : Cluster ρ
  forgotten : List (Response ρ) := []

namespace Memory
variable {ρ : Type} [DecidableEq ρ]

def forgottenBy (k : Memory ρ) (R : ρ) : List (Nat × Answer) :=
  (k.forgotten.filter fun y => y.replica = R).map fun y => (y.id, y.answer)

/-- **No replica that votes is handed a request that goes against an answer it has forgotten**: a write below a number it
promised for the position, or a promise that would miss a position it accepted. -/
def recalls (k : Memory ρ) : Event ρ → Bool
  | .deliver id R =>
    match k.cluster.requests[id]? with
    | some (_, q) => decide ((k.cluster.replicas R).status ≠ .voting) ||
        (k.forgottenBy R).all fun x => x.2.compatible (k.cluster.replicas R).ending q
    | none => true
  | _ => true

variable {e : Event ρ} {k : Memory ρ}

theorem recalls_deed (h : k.recalls e = true) (R : ρ) (d : Deed)
    (hd : k.cluster.Does e R d) : (k.cluster.life R).Recalls (k.forgottenBy R) d := by
  have hde : ∀ id source q, e = .deliver id R → k.cluster.requests[id]? = some (source, q) →
      (k.cluster.replicas R).status = .voting →
      ∀ x ∈ k.forgottenBy R, x.2.compatible (k.cluster.replicas R).ending q = true := by
    rintro id source q rfl hreq hs x hx
    simp only [recalls, hreq, hs, ne_eq, not_true_eq_false, decide_false, Bool.false_or, List.all_eq_true] at h
    exact h x hx
  intro hs _ hq x hx
  cases d with
  | promise id | write id =>
    cases hq
    obtain ⟨he, source, hreq⟩ := hd
    exact hde id source _ he hreq hs x hx
  | recover =>
    cases hq
    rfl
  | _ => cases hq

variable [Fintype ρ]

def step (cfg : Config ρ) (k : Memory ρ) (e : Event ρ) : Memory ρ :=
  { cluster := k.cluster.step cfg e
    forgotten := match e with
      | .lose R => k.forgotten ++ k.cluster.responses.filter fun y => y.replica = R
      | _ => k.forgotten }

theorem run_cluster (cfg : Config ρ) : ∀ (es : List (Event ρ)) (k : Memory ρ),
    (es.foldl (step cfg) k).cluster = k.cluster.run cfg es
  | [], _ => rfl
  | e :: es, k => run_cluster cfg es (k.step cfg e)

variable {cfg : Config ρ}

theorem forgotten_step (he : e.loses = false) : (k.step cfg e).forgotten = k.forgotten := by
  cases e with
  | lose => cases he
  | _ => rfl

theorem forgottenBy_lose (cfg : Config ρ) (k : Memory ρ) (R S : ρ) : (k.step cfg (.lose R)).forgottenBy S =
    if S = R then k.forgottenBy S ++ (k.cluster.life S).answers else k.forgottenBy S := by
  unfold forgottenBy step Cluster.life
  simp only [List.filter_append, List.map_append, List.filter_filter]
  by_cases hS : S = R
  · subst hS
    simp
  rw [if_neg hS]
  have hnil : k.cluster.responses.filter (fun y => decide (y.replica = S) && decide (y.replica = R)) = [] := by
    refine List.filter_eq_nil_iff.2 (fun _ _ => ?_)
    simp only [Bool.and_eq_true, decide_eq_true_iff, not_and]
    rintro rfl
    exact hS
  rw [hnil, List.map_nil, List.append_nil]

theorem life_lose (cfg : Config ρ) (w : Cluster ρ) (R S : ρ) : (w.step cfg (.lose R)).life S =
    if S = R then (w.life R).step .lose else w.life S := by
  simp only [Cluster.step]
  rw [Cluster.life_setReplica]
  rfl

def Guarded (cfg : Config ρ) (k : Memory ρ) : Prop := k.cluster.Guarded cfg k.forgottenBy

theorem Guarded.step (h : k.Guarded cfg) (hq : 0 < cfg.quorum)
    (hb : k.cluster.TruncatesBack e) (hr : k.recalls e = true) : (k.step cfg e).Guarded cfg := by
  by_cases he : e.loses = false
  · have hf : (k.step cfg e).forgottenBy = k.forgottenBy := by
      funext R
      unfold forgottenBy
      rw [forgotten_step he]
    unfold Guarded
    rw [hf]
    exact Cluster.Guarded.step h hq he hb (recalls_deed hr)
  · cases e with
    | lose R =>
      have hs : (k.cluster.step cfg (.lose R)).Sound cfg := h.sound.step _
      have ho := Cluster.origin_step (e := .lose R) h.sound h.origin
      refine ⟨hs, ho, h.backward.step h.sound h.origin hb, fun S => ?_⟩
      show ((k.cluster.step cfg (.lose R)).life S).Fenced ((k.step cfg (.lose R)).forgottenBy S)
      rw [forgottenBy_lose, life_lose]
      by_cases hS : S = R
      · subst hS
        rw [if_pos rfl, if_pos rfl]
        exact (h.fenced S).lose
      · rw [if_neg hS, if_neg hS]
        exact h.fenced S
    | _ => exact absurd rfl he

end Memory

namespace Cluster
variable {ρ : Type} [DecidableEq ρ] [Fintype ρ]

/-- **Recovery keeps the fencing as long as nobody is made to go back on a forgotten answer.**  Replicas may lose their
stored state and rejoin, any number of times; where no call truncates beyond the position it is written at, and no
rejoined replica is handed a request that goes against an answer it gave before the loss, a quorum of implicit promises
for `m` with ends up to `e` excludes that a write below `m` beyond `e` is accepted by a quorum. -/
theorem rejoined_replicas_fence (cfg : Config ρ) (hq : Fintype.card ρ < 2 * cfg.quorum) (voting : ρ → Bool)
    (es : List (Event ρ))
    (h : Run.Along (Memory.step cfg) (fun k e => k.cluster.TruncatesBack e ∧ k.recalls e = true)
      { cluster := start voting } es) (i m e n p : Nat) (v : Value)
    (hp : Quorum cfg.quorum (fun R => ∃ e', ((start voting).run cfg es).Promised i R m e' ∧ e' ≤ e))
    (hn : n < m) (he : e < p) : ¬((start voting).run cfg es).Chosen cfg n p v := by
  have hstart : Memory.Guarded cfg { cluster := start voting } := guarded_start cfg voting
  have hg := Run.Along.invariant (I := fun k : Memory ρ => k.Guarded cfg)
    (fun k e hk ⟨hb, hr⟩ => hk.step (by omega) hb hr) es hstart h
  have hw := Memory.run_cluster cfg es { cluster := start voting }
  have hf := hg.fenced
  rw [hw] at hf
  exact not_chosen_of_fenced hq hf hp hn he

/-- Replica `1` loses its state, finds replicas `0` and `2` voting, catches up the position `0` and votes again. -/
def rejoin : List (Event (Fin 3)) :=
  [.lose 1, .recover 1, .deliver 4 0, .deliver 4 2, .receive 8, .receive 9, .check (.recovery 1), .deliver 5 0,
   .deliver 5 2, .receive 10, .receive 11, .retry 1, .deliver 6 0, .receive 12, .learn 1 1, .filled (.recovery 1),
   .check (.recovery 1), .check (.recovery 1)]

/-- The rejoined replica takes part in a write of the new leader, the old leader's write reaches replica `0` alone. -/
theorem rejoined_replicas_fence_one :
    let es := firstElection ++ secondElection ++ rejoin ++ [.append 1 [8], .deliver 7 1, .append 0 [9], .deliver 8 0]
    let w := initialized.run three es
    w.Accepted 1 2 1 (.append [8]) ∧ w.Accepted 0 1 1 (.append [9]) ∧ Quorum 2 (fun R => w.Promised 3 R 2 0) ∧
      ¬w.Chosen three 1 1 (.append [9]) := by
  intro es w
  have hp : Quorum 2 (fun R => w.Promised 3 R 2 0) := by decide +kernel
  exact ⟨by decide +kernel, by decide +kernel, hp, rejoined_replicas_fence three (by decide) (fun _ => true) es
    (by decide +kernel) 3 2 0 1 1 (.append [9]) (hp.mono fun _ hR => ⟨0, hR, Nat.le_refl 0⟩) (by decide) (by decide)⟩

/-- **A rejoined replica votes for the leader it had fenced off.**  Replicas `1` and `2` promise `2` with end `0`; replica
`1` alone loses its state and rejoins through the recover protocol, with nothing promised any more, and then accepts the
write under `1` at position `1` that replica `0` accepts too. -/
theorem fencing_lost_by_rejoining :
    let w := initialized.run three (firstElection ++ secondElection ++ rejoin ++ [.append 0 [9], .deliver 7 0, .deliver 7 1])
    w.requests[3]? = some (.coordinator 1, .promise { proposal := 2 }) ∧ Quorum 2 (fun R => w.Promised 3 R 2 0) ∧
      w.Chosen three 1 1 (.append [9]) := by
  decide +kernel

end Cluster

end Clusterd.Log
