import Clusterd.LogHistory
/-!
# What stands behind a message

A process that waits for responses has counted only replicas that sent them (`WriteUnderway`, `Campaign`, `Survey`), so what it
concludes is backed by a quorum: an election won (`Won`), a position surveyed before it is written (`Surveyed`), a value chosen
before it is learned (`Warranted`).  Nothing is assumed about the run: replicas may restart, lose their state and recover, and
clients call as they like.
-/
namespace Clusterd.Log

open ExplicitPromise

def Answer.Typed : Answer → Prop
  | .promise _ r => r.type ≠ none
  | .write _ r => r.type ≠ none
  | .recover _ => True

theorem PromiseResponse.Grants.accept {r : PromiseResponse} (h : r.Grants) (ht : r.type ≠ none) :
    r.type = some .accept := by
  obtain ⟨_, hr⟩ := h
  unfold isRejectedPromise at hr
  rcases hrt : r.type with _ | _ | _ | _ <;> simp_all

theorem WriteResponse.Grants.accept {r : WriteResponse} (h : r.Grants) (ht : r.type ≠ none) : r.type = some .accept := by
  obtain ⟨_, hr⟩ := h
  unfold isRejectedWrite at hr
  rcases hrt : r.type with _ | _ | _ | _ <;> simp_all

namespace Cluster
variable {ρ : Type}

def Bounded (cfg : Config ρ) (w : Cluster ρ) (b : Nat) : Prop :=
  ∃ n p t, w.Chosen cfg n p (.truncate t) ∧ b ≤ t

variable {w w' : Cluster ρ} {cfg : Config ρ}

theorem Bounded.mono (hg : Grows w w') {b : Nat} (h : w.Bounded cfg b) : w'.Bounded cfg b := by
  obtain ⟨n, p, t, hc, hb⟩ := h
  exact ⟨n, p, t, hc.mono hg, hb⟩

structure Warranted (cfg : Config ρ) (w : Cluster ρ) (a : Action) : Prop where
  learned : a.learned = true →
    (a.value = some (.nop true) ∧ w.Bounded cfg (a.position + 1)) ∨
      ∃ n v, a.value = some v ∧ v ≠ .nop true ∧ w.Chosen cfg n a.position v
  unlearned : a.learned = false → a.value ≠ some (.nop true)

variable {a : Action}

theorem Warranted.mono (hg : Grows w w') (h : w.Warranted cfg a) : w'.Warranted cfg a := by
  refine ⟨fun hl => ?_, h.unlearned⟩
  rcases h.learned hl with ⟨hv, hb⟩ | ⟨n, v, hv, hne, hc⟩
  · exact .inl ⟨hv, hb.mono hg⟩
  · exact .inr ⟨n, v, hv, hne, hc.mono hg⟩

/-- **What a warranted action truncates is covered by a chosen truncation.** -/
theorem Warranted.truncatesTo (h : w.Warranted cfg a) : a.truncatesTo = 0 ∨ w.Bounded cfg a.truncatesTo := by
  unfold Action.truncatesTo
  split
  next target hl hv =>
    rcases h.learned hl with ⟨hv', -⟩ | ⟨n, v, hv', -, hc⟩
    · rw [hv] at hv'
      cases hv'
    · rw [hv] at hv'
      cases hv'
      exact .inr ⟨n, a.position, target, hc, le_rfl⟩
  next hl hv =>
    rcases h.learned hl with ⟨-, hb⟩ | ⟨_, _, hv', hne, -⟩
    · exact .inr hb
    · rw [hv] at hv'
      cases hv'
      exact absurd rfl hne
  · exact .inl rfl

/-! ## The write phase -/

structure WriteUnderway (w : Cluster ρ) (source : Source ρ) (call : Nat) (answered : Finset ρ) (a : Action) (s : Write) :
    Prop where
  asked : w.requests[call]? = some (source, .write s.request)
  value : a.value = some s.request.value
  position : s.request.position = a.position
  unlearned : a.learned = false
  plain : s.request.value ≠ .nop true
  tally : s.highestNackProposal = none →
    Tally answered s.responsesReceived
      (fun R => w.Accepted R s.request.proposal s.request.position s.request.value)

variable {A A' : Finset ρ} {call quorum : Nat}

theorem WriteUnderway.mono (hg : Grows w w') {source : Source ρ}
    (hA : A ⊆ A') {s : Write} (h : WriteUnderway w source call A a s) : WriteUnderway w' source call A' a s :=
  ⟨hg.request h.asked, h.value, h.position, h.unlearned, h.plain,
    fun hn => (h.tally hn).mono hA (fun _ hR => hR.mono hg)⟩

structure Heard (w : Cluster ρ) (y : Response ρ) : Prop where
  mem : y ∈ w.responses
  request : ∃ source, w.requests[y.id]? = some (source, y.answer.request)
  typed : y.answer.Typed

section WritePhase
variable {w : Cluster ρ} {source : Source ρ} {call : Nat} {A : Finset ρ} {a : Action} {s : Write} {y : Response ρ}
  {request : WriteRequest} {r : WriteResponse} {cfg : Config ρ}

theorem WriteUnderway.warranted (h : WriteUnderway w source call A a s)
    (hc : w.Chosen cfg s.request.proposal s.request.position s.request.value) :
    w.Warranted cfg { a with learned := true } :=
  ⟨fun _ => .inr ⟨_, _, h.value, h.plain, h.position ▸ hc⟩, nofun⟩

variable (h : WriteUnderway w source call A a s) (hy : w.Heard y) (hcl : call = y.id) (ha : y.answer = .write request r)
include h hy hcl ha

theorem WriteUnderway.accepted (hg : r.Grants) :
    w.Accepted y.replica s.request.proposal s.request.position s.request.value := by
  obtain ⟨_, hreq⟩ := hy.request
  have ht := hy.typed
  have hcl' := h.asked
  rw [hcl, hreq] at hcl'
  rw [ha] at hcl' ht
  cases hcl'
  refine ⟨y, hy.mem, rfl, ?_⟩
  rw [ha]
  simp [Answer.accepted, hg.accept ht]

variable [DecidableEq ρ]

theorem WriteUnderway.pending (hR : y.replica ∉ A) {s' : Write}
    (hs : s.received quorum r = .pending s') : WriteUnderway w source call (insert y.replica A) a s' := by
  have ho := s.received_outcome quorum r
  rw [hs] at ho
  have hsub : A ⊆ insert y.replica A := Finset.subset_insert _ _
  cases ho with
  | ignored =>
    exact ⟨h.asked, h.value, h.position, h.unlearned, h.plain, fun hn => (h.tally hn).mono hsub (fun _ => id)⟩
  | counted hn hg =>
    exact ⟨h.asked, h.value, h.position, h.unlearned, h.plain,
      fun _ => (h.tally hn).insert hR (h.accepted hy hcl ha hg)⟩
  | rejected _ hreq hna =>
    refine ⟨?_, ?_, ?_, h.unlearned, ?_, fun hn => absurd hn hna⟩
    · rw [hreq]; exact h.asked
    · rw [hreq]; exact h.value
    · rw [hreq]; exact h.position
    · rw [hreq]; exact h.plain

/-- **A write phase that succeeds has its value chosen.** -/
theorem WriteUnderway.chosen (hR : y.replica ∉ A) {result : WriteResponse}
    (hs : s.received cfg.quorum r = .set result) (hok : result.okay = true) :
    w.Chosen cfg s.request.proposal s.request.position s.request.value := by
  have ho := s.received_outcome cfg.quorum r
  rw [hs] at ho
  cases ho with
  | accepted hn hg hq => exact ((h.tally hn).insert hR (h.accepted hy hcl ha hg)).quorum hq
  | lost _ hf =>
    rw [hok] at hf
    cases hf

end WritePhase

/-! ## The implicit promise phase -/

def Won (cfg : Config ρ) (w : Cluster ρ) (c n e : Nat) : Prop :=
  ∃ i, w.requests[i]? = some (.coordinator c, .promise { proposal := n }) ∧
    Quorum cfg.quorum (fun R => ∃ e', w.Promised i R n e' ∧ e' ≤ e)

variable {c n : Nat} {result : PromiseResponse}

theorem Won.mono (hg : Grows w w') {e : Nat} (h : w.Won cfg c n e) : w'.Won cfg c n e := by
  obtain ⟨i, hi, hq⟩ := h
  refine ⟨i, hg.request hi, hq.mono (fun _ hR => ?_)⟩
  obtain ⟨e', hp, he⟩ := hR
  exact ⟨e', hp.mono hg, he⟩

structure Campaign (w : Cluster ρ) (c call : Nat) (answered : Finset ρ) (s : ImplicitPromise) : Prop where
  asked : w.requests[call]? = some (.coordinator c, .promise s.request)
  tally : s.highestNackProposal = none →
    Tally answered s.responsesReceived
      (fun R => ∃ e E, w.Promised call R s.proposal e ∧ s.highestEndPosition = some E ∧ e ≤ E)

theorem Campaign.mono (hg : Grows w w') (hA : A ⊆ A')
    {s : ImplicitPromise} (h : Campaign w c call A s) : Campaign w' c call A' s := by
  refine ⟨hg.request h.asked, fun hn => (h.tally hn).mono hA (fun _ hR => ?_)⟩
  obtain ⟨e, E, hp, he⟩ := hR
  exact ⟨e, E, hp.mono hg, he⟩

section ImplicitPhase
variable {w : Cluster ρ} {c call : Nat} {A : Finset ρ} {s : ImplicitPromise} {y : Response ρ}
  {request : PromiseRequest} {r : PromiseResponse} {e : Nat} (h : Campaign w c call A s) (hy : w.Heard y)
  (hcl : call = y.id) (ha : y.answer = .promise request r)
include h hy hcl ha

theorem Campaign.promised (hg : r.Grants) (he : r.position = some e) : w.Promised call y.replica s.proposal e := by
  obtain ⟨_, hreq⟩ := hy.request
  have ht := hy.typed
  have hcl' := h.asked
  rw [hcl, hreq] at hcl'
  rw [ha] at hcl' ht
  cases hcl'
  refine ⟨y, hy.mem, hcl.symm, rfl, ?_⟩
  rw [ha]
  simp [Answer.promised, ImplicitPromise.request, hg.accept ht, he]

variable [DecidableEq ρ] (hR : y.replica ∉ A)
include hR

theorem Campaign.count (hn : s.highestNackProposal = none) (hg : r.Grants) (he : r.position = some e) :
    Tally (insert y.replica A) (s.responsesReceived + 1)
      (fun R => ∃ e' E, w.Promised call R s.proposal e' ∧ (s.count e).highestEndPosition = some E ∧ e' ≤ E) := by
  obtain ⟨E, hE, heE, hmax⟩ := raise_spec s.highestEndPosition e
  refine Tally.insert ?_ hR ⟨e, E, h.promised hy hcl ha hg he, hE, heE⟩
  refine (h.tally hn).mono (Finset.Subset.refl A) (fun _ hR => ?_)
  obtain ⟨e', E', hp, hE', _⟩ := hR
  have := hmax E' hE'
  exact ⟨e', E, hp, hE, by omega⟩

theorem Campaign.pending {s' : ImplicitPromise}
    (hs : s.received quorum r = .pending s') : Campaign w c call (insert y.replica A) s' ∧ s'.proposal = s.proposal := by
  have ho := s.received_outcome quorum r
  rw [hs] at ho
  cases ho with
  | ignored =>
    exact ⟨⟨h.asked, fun hn => (h.tally hn).mono (Finset.subset_insert _ _) (fun _ => id)⟩, rfl⟩
  | counted _ hn hg he => exact ⟨⟨h.asked, fun _ => h.count hy hcl ha hR hn hg he⟩, rfl⟩
  | rejected _ hp hna =>
    refine ⟨⟨?_, fun hn => absurd hn hna⟩, hp⟩
    have hcl' := h.asked
    unfold ImplicitPromise.request at hcl' ⊢
    rw [hp, hcl']

/-- **A promise phase that succeeds won its number.** -/
theorem Campaign.won {cfg : Config ρ}
    (hs : s.received cfg.quorum r = .set result) (ht : result.type = some .accept) (he : result.position = some e) :
    w.Won cfg c s.proposal e := by
  have ho := s.received_outcome cfg.quorum r
  rw [hs] at ho
  cases ho with
  | accepted _ hn hg he' hq =>
    refine ⟨call, h.asked, ((h.count hy hcl ha hR hn hg he').mono (Finset.Subset.refl _) (fun _ hR => ?_)).quorum hq⟩
    obtain ⟨e'', E, hp, hE, hle⟩ := hR
    have hEe : E = e := Option.some.inj (hE.symm.trans he)
    exact ⟨e'', hp, hEe ▸ hle⟩
  | lost _ hf => exact absurd ht hf

end ImplicitPhase

/-! ## The explicit promise phase -/

def Reports (w : Cluster ρ) (i n p : Nat) (highest : Option Action) (R : ρ) : Prop :=
  ∃ a, w.Granted i R n p a ∧ (∀ b, a = some b → b.learned = false) ∧
    ∀ b k, a = some b → b.performed = some k → ∃ h m, highest = some h ∧ h.performed = some m ∧ k ≤ m

def Found (w : Cluster ρ) (i n p : Nat) (h : Action) : Prop :=
  ∃ R, w.Granted i R n p (some h) ∧ h.learned = false ∧ h.performed ≠ none

/-- A fill may write `v` at `p` under `n`: a quorum promised the position, and `v` is the value of the action performed
under the highest number any of them reported, or a no-op when none reported one. -/
def Surveyed (cfg : Config ρ) (w : Cluster ρ) (f n p : Nat) (v : Value) : Prop :=
  ∃ i highest, w.requests[i]? = some (.fill f, .promise { proposal := n, position := some p }) ∧
    Quorum cfg.quorum (w.Reports i n p highest) ∧ (highest = none → v = .nop false) ∧
    ∀ h, highest = some h → h.value = some v ∧ w.Found i n p h

variable {i p : Nat} {highest : Option Action}

theorem Reports.mono (hg : Grows w w') {R : ρ} (h : w.Reports i n p highest R) : w'.Reports i n p highest R := by
  obtain ⟨a, ha, hr⟩ := h
  exact ⟨a, ha.mono hg, hr⟩

theorem Found.mono (hg : Grows w w') {h : Action} (hf : w.Found i n p h) : w'.Found i n p h := by
  obtain ⟨R, ha, hr⟩ := hf
  exact ⟨R, ha.mono hg, hr⟩

variable {f k : Nat}

theorem Surveyed.mono (hg : Grows w w') {v : Value} (h : w.Surveyed cfg f n p v) : w'.Surveyed cfg f n p v := by
  obtain ⟨i, highest, hi, hq, hno, hs⟩ := h
  refine ⟨i, highest, hg.request hi, hq.mono (fun _ hR => hR.mono hg), hno, fun h hh => ?_⟩
  exact ⟨(hs h hh).1, (hs h hh).2.mono hg⟩

theorem raiseAction_spec (hk : a.performed = some k) (hp : ∀ h, highest = some h → h.performed ≠ none) :
    ∃ h m, raiseAction highest a = some h ∧ h.performed = some m ∧ k ≤ m ∧
      (h = a ∨ highest = some h) ∧ ∀ h' m', highest = some h' → h'.performed = some m' → m' ≤ m := by
  unfold raiseAction
  cases highest with
  | none => exact ⟨a, k, rfl, hk, le_rfl, .inl rfl, nofun⟩
  | some b =>
    obtain ⟨j, hj⟩ := Option.ne_none_iff_exists'.1 (hp b rfl)
    simp only [hk, hj, Option.getD_some]
    split
    · refine ⟨a, k, rfl, hk, le_rfl, .inl rfl, fun h' m' h hm => ?_⟩
      cases h
      rw [hj] at hm
      cases hm
      omega
    · refine ⟨b, j, rfl, hj, by omega, .inr rfl, fun _ _ h hm => ?_⟩
      cases h
      rw [hj] at hm
      cases hm
      exact le_rfl

structure Survey (w : Cluster ρ) (f call : Nat) (answered : Finset ρ) (s : ExplicitPromise) : Prop where
  asked : w.requests[call]? = some (.fill f, .promise s.request)
  tally : s.highestNackProposal = none →
    Tally answered s.responsesReceived (w.Reports call s.proposal s.position s.highestAckAction)
  highest : ∀ h, s.highestAckAction = some h → w.Found call s.proposal s.position h

theorem Survey.mono (hg : Grows w w') (hA : A ⊆ A')
    {s : ExplicitPromise} (h : Survey w f call A s) : Survey w' f call A' s :=
  ⟨hg.request h.asked, fun hn => (h.tally hn).mono hA (fun _ hR => hR.mono hg), fun a ha => (h.highest a ha).mono hg⟩

section ExplicitPhase
variable {w : Cluster ρ} {f call : Nat} {A : Finset ρ} {s : ExplicitPromise} {y : Response ρ}
  {request : PromiseRequest} {r : PromiseResponse}

theorem Survey.count_covers (h : Survey w f call A s) {a : Action}
    (ha : s.highestAckAction = some a ∨ r.action = some a) (hk : a.performed = some k) :
    ∃ b m, (s.count r).highestAckAction = some b ∧ b.performed = some m ∧ k ≤ m := by
  rcases s.count_cases r with ⟨he, hno⟩ | ⟨_, _, hb, hj, he⟩
  · rcases ha with ha | ha
    · exact ⟨a, k, he ▸ ha, hk, le_rfl⟩
    · rw [hno a ha] at hk
      cases hk
  obtain ⟨c, m, hc, hm, hjm, -, hmax⟩ := raiseAction_spec hj (fun a ha => (h.highest a ha).choose_spec.2.2)
  refine ⟨c, m, he ▸ hc, hm, ?_⟩
  rcases ha with ha | ha
  · exact hmax a k ha hk
  rw [hb] at ha
  cases ha
  rw [hj] at hk
  cases hk
  exact hjm

variable (h : Survey w f call A s) (hy : w.Heard y) (hcl : call = y.id) (ha : y.answer = .promise request r)
include h hy hcl ha

theorem Survey.granted (hg : r.Grants) : w.Granted call y.replica s.proposal s.position r.action := by
  obtain ⟨_, hreq⟩ := hy.request
  have ht := hy.typed
  have hcl' := h.asked
  rw [hcl, hreq] at hcl'
  rw [ha] at hcl' ht
  cases hcl'
  refine ⟨y, hy.mem, hcl.symm, rfl, ?_⟩
  rw [ha]
  simp [Answer.granted, request, hg.accept ht]

theorem Survey.count_found (hg : r.Grants) (hu : r.ReportsUnlearned s.position) :
    ∀ a, (s.count r).highestAckAction = some a → w.Found call s.proposal s.position a := by
  intro a hca
  rcases s.count_cases r with ⟨he, -⟩ | ⟨_, _, hb, hk, he⟩
  · exact h.highest a (he ▸ hca)
  obtain ⟨_, _, hc, -, -, hor, -⟩ := raiseAction_spec hk (fun a ha => (h.highest a ha).choose_spec.2.2)
  rw [he, hc] at hca
  cases hca
  rcases hor with rfl | hor
  · refine ⟨y.replica, hb ▸ h.granted hy hcl ha hg, ?_, by rw [hk]; exact nofun⟩
    rcases hu with ⟨hn, -⟩ | ⟨_, hd, -, hl⟩
    · rw [hb] at hn
      cases hn
    · rw [hb] at hd
      cases hd
      exact hl
  · exact h.highest _ hor

variable [DecidableEq ρ] (hR : y.replica ∉ A)
include hR

theorem Survey.count_tally (hn : s.highestNackProposal = none) (hg : r.Grants)
    (hu : r.ReportsUnlearned s.position) : Tally (insert y.replica A) (s.responsesReceived + 1)
      (w.Reports call s.proposal s.position (s.count r).highestAckAction) := by
  refine Tally.insert ?_ hR
    ⟨r.action, h.granted hy hcl ha hg, fun b hb => ?_, fun b k hb hk => h.count_covers (.inr hb) hk⟩
  · refine (h.tally hn).mono (Finset.Subset.refl A) (fun _ hR => ?_)
    obtain ⟨a, hgr, hul, hpe⟩ := hR
    refine ⟨a, hgr, hul, fun b k hb hk => ?_⟩
    obtain ⟨_, _, hc, hm, _⟩ := hpe b k hb hk
    obtain ⟨d, m', hd, hm', _⟩ := h.count_covers (.inl hc) hm
    exact ⟨d, m', hd, hm', by omega⟩
  · rcases hu with ⟨hno, -⟩ | ⟨_, ha, -, hl⟩
    · rw [hno] at hb
      cases hb
    · rw [ha] at hb
      cases hb
      exact hl

theorem Survey.pending {s' : ExplicitPromise} (hs : s.received quorum r = .pending s') :
    Survey w f call (insert y.replica A) s' ∧ s'.proposal = s.proposal ∧ s'.position = s.position := by
  have ho := s.received_outcome quorum r
  rw [hs] at ho
  cases ho with
  | ignored =>
    exact ⟨⟨h.asked, fun hn => (h.tally hn).mono (Finset.subset_insert _ _) (fun _ => id), h.highest⟩, rfl, rfl⟩
  | counted hn hg hu =>
    exact ⟨⟨h.asked, fun _ => h.count_tally hy hcl ha hR hn hg hu, h.count_found hy hcl ha hg hu⟩, rfl, rfl⟩
  | rejected _ hp hpos hh hna =>
    refine ⟨⟨?_, fun hn => absurd hn hna, fun a ha => ?_⟩, hp, hpos⟩
    · have hask := h.asked
      unfold ExplicitPromise.request at hask ⊢
      rw [hp, hpos, hask]
    · rw [hp, hpos]
      exact h.highest a (hh ▸ ha)

/-- **A promise phase that succeeds has surveyed its position, or has met a learned action.** -/
theorem Survey.surveyed {cfg : Config ρ}
    (hs : s.received cfg.quorum r = .set result) (hok : result.okay = true) :
    (∃ a, result.action = some a ∧ a.learned = true ∧ w.Granted call y.replica s.proposal s.position (some a)) ∨
    (Quorum cfg.quorum (w.Reports call s.proposal s.position result.action) ∧
      ∀ a, result.action = some a → w.Found call s.proposal s.position a) := by
  have ho := s.received_outcome cfg.quorum r
  rw [hs] at ho
  cases ho with
  | accepted hn hg hu hq =>
    exact .inr ⟨(h.count_tally hy hcl ha hR hn hg hu).quorum hq, h.count_found hy hcl ha hg hu⟩
  | learned a hg hra hl => exact .inl ⟨a, hra, hl, hra ▸ h.granted hy hcl ha hg⟩
  | lost _ hf =>
    rw [hok] at hf
    cases hf

end ExplicitPhase

end Cluster
end Clusterd.Log
