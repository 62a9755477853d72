import Clusterd.LogSteadfast
import Clusterd.Voting
/-!
# Agreement on every position

Seen from one position, the log is a vote in numbered ballots (`Voting`): a coordinator asks for its value under a number it won
with every end reported before the position, a fill for the value accepted under the highest number reported to it.  Each number
asks for one value (`Governed.unique`), a safe one (`Governed.safe`), as long as the replicas stand by their answers.
-/
namespace Clusterd.Log
namespace Cluster
variable {ρ : Type}

/-! ## One value for each number -/

def Wrote (w : Cluster ρ) (source : Source ρ) (n p : Nat) : Prop :=
  ∃ request, (source, .write request) ∈ w.requests ∧ request.proposal = n ∧ request.position = p

structure Single (w : Cluster ρ) : Prop where
  coordinators : ∀ c, (w.coordinators c).machine.Ahead (w.Wrote (.coordinator c))
  fills : ∀ f request, (.fill f, .write request) ∈ w.requests →
    ∃ p, w.fills[f]? = some p ∧ p.machine.Ahead request.proposal
  once : ∀ source request request', (source, .write request) ∈ w.requests →
    (source, .write request') ∈ w.requests → request.proposal = request'.proposal →
    request.position = request'.position → request = request'

/-- The replica accepts nothing at `p` under `n`, now or later: it promised a higher number, with an end before `p`, or
for the position and without reporting a write under `n` or a higher one. -/
def Barred (w : Cluster ρ) (R : ρ) (n p : Nat) : Prop :=
  (∃ i m e, w.Promised i R m e ∧ n < m ∧ e < p) ∨
    ∃ i m a, w.Granted i R m p a ∧ Life.Open a ∧ n < m ∧ ∀ b, a = some b → ¬Life.PerformedFrom n b

variable {n p : Nat} {w w' : Cluster ρ} {R : ρ}

theorem Barred.mono (hg : Grows w w') (h : w.Barred R n p) : w'.Barred R n p :=
  h.imp (fun ⟨i, m, e, hp, hr⟩ => ⟨i, m, e, hp.mono hg, hr⟩) (fun ⟨i, m, a, ha, hr⟩ => ⟨i, m, a, ha.mono hg, hr⟩)

variable {v : Value}

theorem Requested.mono (hg : Grows w w') (h : w.Requested n p v) : w'.Requested n p v := by
  obtain ⟨source, request, hm, hr⟩ := h
  obtain ⟨l, hl⟩ := hg.requests
  exact ⟨source, request, hl ▸ List.mem_append_left l hm, hr⟩

def Safe (cfg : Config ρ) (w : Cluster ρ) (n p : Nat) (v : Value) : Prop :=
  Voting.Safe cfg.quorum (fun n v => w.Requested n p v) (fun R n => w.Barred R n p) n v

variable {cfg : Config ρ}

theorem Safe.mono (hg : Grows w w') (h : w.Safe cfg n p v) : w'.Safe cfg n p v :=
  Voting.Safe.mono h (fun _ _ hr => hr.mono hg) (fun _ _ hb => hb.mono hg)

/-- **Under a number that was won any value is safe**, beyond every end reported. -/
theorem Won.safe {c e : Nat} (h : w.Won cfg c n e) (he : e < p) (v : Value) : w.Safe cfg n p v := by
  obtain ⟨i, -, hq⟩ := h
  refine Voting.safe_of_barred hq (fun R ⟨e', hp, hle⟩ k hk => .inl ⟨i, n, e', hp, hk, ?_⟩)
  exact hle.trans_lt he

theorem Reports.barred {i : Nat} {highest : Option Action} (h : w.Reports i n p highest R) {k : Nat} (hk : k < n)
    (hh : ∀ a m, highest = some a → a.performed = some m → m < k) : w.Barred R k p := by
  obtain ⟨a, hg, ho, hpe⟩ := h
  refine .inr ⟨i, n, a, hg, ho, hk, fun b hb ⟨j, hj, hkj⟩ => ?_⟩
  obtain ⟨c, m, hc, hm, _⟩ := hpe b j hb hj
  have := hh c m hc hm
  omega

def Keeps (w : Cluster ρ) : Event ρ → Prop
  | .deliver id R =>
    match w.requests[id]? with
    | some (_, .write request) => (w.replicas R).KeepsPerformed request
    | _ => True
  | .learn k R =>
    match w.learned[k]? with
    | some a => (w.replicas R).KeepsBeginning a
    | none => True
  | .lose _ => False
  | _ => True

instance (w : Cluster ρ) : ∀ e, Decidable (w.Keeps e)
  | .deliver id R =>
    match h : w.requests[id]? with
    | some (_, .write request) =>
      decidable_of_iff ((w.replicas R).KeepsPerformed request) (by simp only [Keeps, h])
    | some (_, .promise _) => isTrue (by simp only [Keeps, h])
    | some (_, .recover) => isTrue (by simp only [Keeps, h])
    | none => isTrue (by simp only [Keeps, h])
  | .learn k R =>
    match h : w.learned[k]? with
    | some a => decidable_of_iff ((w.replicas R).KeepsBeginning a) (by simp only [Keeps, h])
    | none => isTrue (by simp only [Keeps, h])
  | .lose _ => isFalse (fun h => h)
  | .receive _ | .restart _ | .elect _ | .demote _ | .append _ _ | .truncate _ _ | .abandon _ | .promised _
  | .missing _ | .learned _ | .fill _ _ | .retry _ | .discard _ | .recover _ | .check _ | .filled _
  | .timedout _ => isTrue trivial

variable {e : Event ρ}

theorem Keeps.loses (h : w.Keeps e) : e.loses = false := by
  cases e with
  | lose => exact h.elim
  | _ => rfl

variable [DecidableEq ρ]

theorem orderly_of_does (h : w.Guarded cfg (fun _ => [])) (hq : 0 < cfg.quorum)
    (hk : w.Keeps e) {d : Deed} (hd : w.Does e R d) : (w.life R).Orderly d := by
  cases d with
  | write _ request =>
    obtain ⟨rfl, source, hreq⟩ := hd
    simp only [Keeps, hreq] at hk
    exact ⟨(h.sound.requests source request (List.mem_of_getElem? hreq)).1, hk⟩
  | learned =>
    obtain ⟨ha, _, rfl, hget⟩ := hd
    simp only [Keeps, hget] at hk
    exact ⟨h.backward.learned h.sound hq ha, fun _ => hk⟩
  | lose =>
    rw [show e = .lose R from hd] at hk
    exact hk
  | promise | recover | update | restart => trivial

/-- **A barred replica has accepted nothing.** -/
theorem Barred.not_accepted (h : (w.life R).Steadfast) (hb : w.Barred R n p) (v : Value) : ¬w.Accepted R n p v := by
  intro ha
  have ha := accepted_iff.1 ha
  rcases hb with ⟨i, m, e, hp, hn, he⟩ | ⟨i, m, a, hg, ho, hn, hno⟩
  · have := h.fenced.apart i m e n p v (promised_iff.1 hp) ha he
    omega
  · obtain ⟨b, hb, hpe⟩ := h.covers i m p a n v (granted_iff.1 hg) ho hn ha
    exact hno b hb hpe

/-- **What a fill found is safe**, when what was accepted before was. -/
theorem Surveyed.safe (ho : ∀ R, (w.life R).Origin) {f : Nat}
    (h : w.Surveyed cfg f n p v) (hold : ∀ R k, w.Accepted R k p v → w.Requested k p v ∧ w.Safe cfg k p v) :
    w.Safe cfg n p v := by
  obtain ⟨_, _, -, hq, ⟨rfl, -⟩ | ⟨_, k, R, rfl, hk, hacc⟩⟩ := h.found ho
  · exact Voting.safe_of_barred hq (fun R hR j hj => hR.barred hj (fun _ _ ha => by cases ha))
  obtain ⟨hreq, hs⟩ := hold R k hacc
  refine Voting.Safe.raise hs hreq hq (fun _ hR _ hkj hj => hR.barred hj (fun _ _ hb hm => ?_))
  cases hb
  rw [hk] at hm
  cases hm
  exact hkj

variable [Fintype ρ]

theorem Single.step (h : w.Single) (hs : w.Sound cfg) (he : w.Heeds e) : (w.step cfg e).Single := by
  have hch := step_change cfg w e
  refine ⟨fun c => ?_, fun f request hm => ?_, fun source request _ hm hm' hn hp => ?_⟩
  · rcases hch.client c with ⟨hc, hreq⟩ | ⟨x, -, hc, hreq⟩
    · rw [hc]
      exact Coordinator.Ahead.mono (h.coordinators c) (fun n p ⟨request, hm, hr⟩ => ⟨request, hreq request hm, hr⟩) id
    · rw [hc]
      refine (h.coordinators c).step (fun n p ⟨request, hm, hr⟩ => ?_)
      exact (hreq request hm).imp (fun hm => ⟨request, hm, hr⟩) (fun hx => ⟨request, hx, hr⟩)
  · rcases hch.filling f with ⟨hk, hreq⟩ | ⟨p, p', out, hp, hp', hst, hreq⟩
    · obtain ⟨p, hp, ha⟩ := h.fills f request (hreq request hm)
      obtain ⟨p', hp', hm'⟩ := hk p hp
      exact ⟨p', hp', hm' ▸ ha⟩
    refine ⟨p', hp', ?_⟩
    rcases hreq request hm with hm | rfl
    · obtain ⟨q, hq, ha⟩ := h.fills f request hm
      rw [hp] at hq
      cases hq
      exact hst.ahead ha
    · exact hst.writes.2
  · cases source with
    | coordinator c =>
      rcases hch.client c with ⟨-, hreq⟩ | ⟨x, hv, -, hreq⟩
      · exact h.once _ _ _ (hreq _ hm) (hreq _ hm') hn hp
      have hfr : ∀ {r r'}, (.coordinator c, .write r) ∈ w.requests →
          ((w.coordinators c).machine.step cfg.quorum x).2 = some (.write r') → r.proposal = r'.proposal →
          r.position = r'.position → False :=
        fun hm hx hn hp => (h.coordinators c).writes (he.obeys hv) hx ⟨_, hm, hn, hp⟩
      rcases hreq _ hm with hm | hx
      · rcases hreq _ hm' with hm' | hx'
        · exact h.once _ _ _ hm hm' hn hp
        · exact (hfr hm hx' hn hp).elim
      · rcases hreq _ hm' with hm' | hx'
        · exact (hfr hm' hx hn.symm hp.symm).elim
        · rw [hx] at hx'
          cases hx'
          rfl
    | fill f =>
      rcases hch.filling f with ⟨-, hreq⟩ | ⟨_, _, out, hq, -, hst, hreq⟩
      · exact h.once _ _ _ (hreq _ hm) (hreq _ hm') hn hp
      have hfr : ∀ {r r'}, (.fill f, .write r) ∈ w.requests → out = some (.write r') →
          r.proposal = r'.proposal → False := by
        rintro r r' hm rfl hn
        obtain ⟨_, hq'', ha⟩ := h.fills f r hm
        rw [hq] at hq''
        cases hq''
        have := hst.writes.1 r.proposal ha
        omega
      rcases hreq _ hm with hm | hx
      · rcases hreq _ hm' with hm' | hx'
        · exact h.once _ _ _ hm hm' hn hp
        · exact (hfr hm hx' hn).elim
      · rcases hreq _ hm' with hm' | hx'
        · exact (hfr hm' hx hn.symm).elim
        · rw [hx] at hx'
          cases hx'
          rfl
    | recovery => exact absurd ((hs.step e).requests _ request hm).2.2 id

structure Governed (cfg : Config ρ) (w : Cluster ρ) : Prop where
  guarded : w.Guarded cfg (fun _ => [])
  steadfast : ∀ R, (w.life R).Steadfast
  promised : ∀ R, (w.life R).Once
  won : w.WritesWon cfg
  single : w.Single
  safe : ∀ n p v, w.Requested n p v → w.Safe cfg n p v

variable {v' : Value}

section
variable (h : w.Governed cfg)
include h

/-- **Each number asks for one value at a position.** -/
theorem Governed.unique
    (hq : Fintype.card ρ < 2 * cfg.quorum) (hr : w.Requested n p v) (hr' : w.Requested n p v') : v = v' := by
  have hs := h.guarded.sound
  -- a number that a quorum promised for the position is above every number won with an end before it
  have ha : ∀ {c f} {r r'}, (.coordinator c, .write r) ∈ w.requests →
      (.fill f, .write r') ∈ w.requests → r.proposal = r'.proposal → r.position = r'.position → False := by
    intro c _ r r' hm hm' hn hp
    obtain ⟨e, _, i, -, hwon⟩ := h.won c r hm
    obtain ⟨j, highest, -, hrep, -⟩ := (hs.requests _ r' hm').2.2
    obtain ⟨R, ⟨e', hpr, _⟩, a, hg, ho, -⟩ := Quorum.inter hq hwon hrep
    have := (h.steadfast R).above i r.proposal e' j r'.proposal r'.position a (promised_iff.1 hpr) (granted_iff.1 hg) ho
      (by omega)
    omega
  obtain ⟨source, r, hm, rfl, rfl, rfl⟩ := hr
  obtain ⟨source', r', hm', hn, hp, rfl⟩ := hr'
  cases source with
  | recovery => exact absurd (hs.requests _ r hm).2.2 id
  | coordinator c =>
    cases source' with
    | recovery => exact absurd (hs.requests _ r' hm').2.2 id
    | coordinator c' =>
      obtain ⟨_, -, hwon⟩ := h.won c r hm
      obtain ⟨_, -, hwon'⟩ := h.won c' r' hm'
      rw [hn] at hwon'
      obtain rfl := hwon.unique hq h.promised hwon'
      rw [h.single.once _ r r' hm hm' hn.symm hp.symm]
    | fill => exact (ha hm hm' hn.symm hp.symm).elim
  | fill =>
    cases source' with
    | recovery => exact absurd (hs.requests _ r' hm').2.2 id
    | coordinator => exact (ha hm' hm hn hp).elim
    | fill =>
      obtain ⟨i, _, hi, hrep, -⟩ := (hs.requests _ r hm).2.2
      obtain ⟨i', _, hi', hrep', -⟩ := (hs.requests _ r' hm').2.2
      rw [hn, hp] at hrep'
      obtain ⟨R, ⟨a, hg, ho, -⟩, a', hg', ho', -⟩ := Quorum.inter hq hrep hrep'
      have hii := (h.steadfast R).once i i' _ _ a a' (granted_iff.1 hg) (granted_iff.1 hg') ho ho'
      rw [← hii, hi] at hi'
      obtain rfl := Source.fill.inj (Prod.mk.inj (Option.some.inj hi')).1
      rw [h.single.once _ r r' hm hm' hn.symm hp.symm]

/-- **Two quorums that accept a write at one position accept the same value.** -/
theorem Governed.agreement (hq : Fintype.card ρ < 2 * cfg.quorum)
    {n' : Nat} (hc : w.Chosen cfg n p v) (hc' : w.Chosen cfg n' p v') : v = v' :=
  Voting.agreement hq (fun R n v => w.Accepted R n p v) (fun _ _ _ ha => h.guarded.sound.requested ha)
    (fun R _ v hb => hb.not_accepted (h.steadfast R) v) (fun _ _ _ hr hr' => h.unique hq hr hr')
    (fun m v hr => h.safe m p v hr) hc hc'

/-- **What is asked for stays safe.** -/
theorem Governed.safe_step (he : w.Heeds e) (hr : (w.step cfg e).Requested n p v) : (w.step cfg e).Safe cfg n p v := by
  have hs := h.guarded.sound
  have hch := step_change cfg w e
  obtain ⟨source, request, hm, rfl, rfl, rfl⟩ := hr
  rcases hch.requests_or_responses with hreq | hre
  · rw [hreq] at hm
    exact (h.safe _ _ _ ⟨source, request, hm, rfl, rfl, rfl⟩).mono hch.grows
  cases source with
  | coordinator c =>
    obtain ⟨_, he', hwon⟩ := h.won.step hs he c request hm
    exact hwon.safe he' _
  | fill f =>
    have hsur : (w.step cfg e).Surveyed cfg f request.proposal request.position request.value :=
      ((hs.step e).requests _ request hm).2.2
    refine hsur.safe (origin_step hs h.guarded.origin) (fun R k ⟨y, hy, hacc⟩ => ?_)
    -- what the fill found had been accepted, hence asked for, before this step
    rw [hre] at hy
    have hreq := hs.requested ⟨y, hy, hacc⟩
    exact ⟨hreq.mono hch.grows, (h.safe _ _ _ hreq).mono hch.grows⟩
  | recovery => exact absurd ((hs.step e).requests _ request hm).2.2 id

theorem Governed.step (hq : 0 < cfg.quorum)
    (hk : w.Keeps e) (he : w.Heeds e) (hb : w.TruncatesBack e) : (w.step cfg e).Governed cfg where
  guarded := h.guarded.step hq hk.loses hb (fun _ _ _ _ _ _ _ hx => nomatch hx)
  steadfast := life_invariant (I := fun _ l => l.Steadfast)
    (fun _ _ hd hl => hl.step (orderly_of_does h.guarded hq hk hd)) h.steadfast
  promised := once_step h.promised hk.loses
  won := h.won.step h.guarded.sound he
  single := h.single.step h.guarded.sound he
  safe := fun _ _ _ hr => h.safe_step he hr

end

omit [Fintype ρ] in
theorem steadfast_start (voting : ρ → Bool) (R : ρ) : ((start voting).life R).Steadfast := by
  have hno : ∀ x, x ∉ ((start voting).life R).answers := fun _ => List.not_mem_nil
  have hb : ((start voting).replicas R).HoldsBeginning := by
    unfold start
    simp only
    split <;> exact .inl rfl
  have hf := fenced_start voting R
  exact ⟨⟨hf.wf, hf.targets, hb, hf.ending⟩, hf, fun _ _ _ ⟨x, hx, _⟩ => absurd hx (hno x),
    fun _ _ _ _ ⟨x, hx, _⟩ => absurd hx (hno x), fun _ _ _ _ _ _ ⟨x, hx, _⟩ => absurd hx (hno x),
    fun _ _ _ _ _ _ ⟨x, hx, _⟩ => absurd hx (hno x), fun _ _ _ _ _ _ _ ⟨x, hx, _⟩ => absurd hx (hno x)⟩

omit [Fintype ρ] in
theorem governed_start (cfg : Config ρ) (voting : ρ → Bool) : (start voting).Governed cfg where
  guarded := guarded_start cfg voting
  steadfast := steadfast_start voting
  promised := once_start voting
  won := nofun
  single := ⟨fun _ _ _ ⟨_, hm, _⟩ => absurd hm List.not_mem_nil, fun _ _ hm => absurd hm List.not_mem_nil,
    fun _ _ _ hm => absurd hm List.not_mem_nil⟩
  safe := fun _ _ _ ⟨_, _, hm, _⟩ => nomatch hm

/-- **Agreement.**  In every run whose replicas keep their stored state, what they tell of their truncations and the
writes they performed under higher numbers, whose clients heed their refusals and truncate no further than they write:
two quorums that accepted a write at one position accepted the same value, and two replicas that hold the position
learned, neither as a tombstone, hold the same value. -/
theorem chosen_values_agree (cfg : Config ρ) (hq : Fintype.card ρ < 2 * cfg.quorum) (voting : ρ → Bool)
    (es : List (Event ρ))
    (h : Run.Along (step cfg) (fun w e => w.Keeps e ∧ w.Heeds e ∧ w.TruncatesBack e) (start voting) es) :
    (∀ p n n' v v', ((start voting).run cfg es).Chosen cfg n p v → ((start voting).run cfg es).Chosen cfg n' p v' →
      v = v') ∧
    ∀ R S p a b, (((start voting).run cfg es).replicas R).record p = some a →
      (((start voting).run cfg es).replicas S).record p = some b → a.learned = true → b.learned = true →
      a.value ≠ some (.nop true) → b.value ≠ some (.nop true) → a.value = b.value := by
  have hg : ((start voting).run cfg es).Governed cfg :=
    Run.Along.invariant (I := fun w => w.Governed cfg)
      (fun w e hw ⟨hk, he, hb⟩ => hw.step (by omega) hk he hb) es (governed_start cfg voting) h
  refine ⟨fun p n _ v _ hc hc' => hg.agreement hq hc hc', fun R S p a b ha hb hla hlb hta htb => ?_⟩
  have hchosen : ∀ R a, (((start voting).run cfg es).replicas R).record p = some a → a.learned = true →
      a.value ≠ some (.nop true) → ∃ n v, a.value = some v ∧ ((start voting).run cfg es).Chosen cfg n p v := by
    intro R a ha hl ht
    have hr := hg.guarded.sound.replicas R
    obtain ⟨hm, rfl⟩ := hr.wf.mem_of_record.1 ha
    rcases (hr.records a hm).learned hl with ⟨hv, -⟩ | ⟨n, v, hv, -, hc⟩
    · exact absurd hv ht
    · exact ⟨n, v, hv, hc⟩
  obtain ⟨_, _, hv, hc⟩ := hchosen R a ha hla hta
  obtain ⟨_, _, hv', hc'⟩ := hchosen S b hb hlb htb
  rw [hv, hv', hg.agreement hq hc hc']

/-- Coordinator `0` writes at position `1`, replicas `0` and `1` accept it, and coordinator `1` wins `2`, fills the
position under `3` and has replicas `1` and `2` accept the same value. -/
def succession : List (Event (Fin 3)) :=
  firstElection ++
    [.append 0 [7], .deliver 3 0, .deliver 3 1, .elect 1, .promised 1, .deliver 4 1, .deliver 4 2, .receive 8, .receive 9,
     .missing 1, .check (.coordinator 1), .deliver 5 1, .deliver 5 2, .receive 10, .receive 11, .deliver 6 1, .deliver 6 2]

theorem chosen_values_agree_succession :
    let w := initialized.run three succession
    w.Chosen three 1 1 (.append [7]) ∧ ∀ v, w.Chosen three 3 1 v → v = .append [7] := by
  have hc : (initialized.run three succession).Chosen three 1 1 (.append [7]) := by decide +kernel
  refine ⟨hc, fun v hv => ?_⟩
  exact (chosen_values_agree three (by decide) (fun _ => true) succession (by decide +kernel)).1 1 3 1 v _ hv hc

/-- Replica `0` accepts the write of coordinator `1` under `2` at a position where it holds no action, and records
with it that it promised `1`.  So it lets the write of coordinator `0` under `1` replace it, and reports that one to the
fill of coordinator `2`. -/
def overwriting : List (Event (Fin 3)) :=
  firstElection ++ secondElection ++
    [.append 1 [7], .deliver 4 0, .deliver 4 1, .append 0 [9], .deliver 5 0, .elect 2, .promised 2, .deliver 6 0,
     .deliver 6 2, .receive 11, .receive 12, .missing 2, .check (.coordinator 2), .deliver 7 0, .deliver 7 2, .receive 13,
     .receive 14, .deliver 8 0, .deliver 8 2]

/-- **A write under a lower number replaces one that a quorum has accepted.**  Replicas `0` and `1` accept `[7]` under `2`,
replicas `0` and `2` then accept `[9]` under `4`, though every client heeds its refusals and nothing is truncated. -/
theorem agreement_lost_by_overwriting :
    let w := initialized.run three overwriting
    w.Chosen three 2 1 (.append [7]) ∧ w.Chosen three 4 1 (.append [9]) ∧ (∀ e ∈ overwriting, e.loses = false) ∧
      Run.Along (step three) (fun w e => w.Heeds e ∧ w.TruncatesBack e) initialized overwriting := by
  decide +kernel

end Cluster
end Clusterd.Log
