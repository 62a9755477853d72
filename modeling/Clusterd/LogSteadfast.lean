import Clusterd.LogFencing
/-!
# What a replica stands by

A replica that keeps its stored state and its truncations, and overwrites no write with an older one, forgets nothing that
matters to a position: what it accepted is performed under no lower number, learned or truncated; a promised position is still
promised, learned or truncated; and what it reports to a promise covers every write it accepted below it.
-/
namespace Clusterd.Log

open Replica

def Replica.KeepsPerformed (r : Replica) (request : WriteRequest) : Prop :=
  match r.record request.position with
  | some a => a.learned = false → a.promised ≤ request.proposal → a.performed.getD 0 ≤ request.proposal
  | none => True

instance (r : Replica) (request : WriteRequest) : Decidable (r.KeepsPerformed request) :=
  match h : r.record request.position with
  | some a =>
    decidable_of_iff (a.learned = false → a.promised ≤ request.proposal → a.performed.getD 0 ≤ request.proposal)
      (by simp only [Replica.KeepsPerformed, h])
  | none => isTrue (by simp only [Replica.KeepsPerformed, h])

theorem Replica.KeepsPerformed.le {r : Replica} {request : WriteRequest} (h : r.KeepsPerformed request) {a : Action}
    (ha : r.record request.position = some a) (hl : a.learned = false) (hp : a.promised ≤ request.proposal) {k : Nat}
    (hk : a.performed = some k) : k ≤ request.proposal := by
  unfold Replica.KeepsPerformed at h
  rw [ha] at h
  have hle := h hl hp
  rw [hk] at hle
  exact hle

instance (r : Replica) (a : Action) : Decidable (r.KeepsBeginning a) :=
  inferInstanceAs (Decidable (r.beginning ≤ a.truncatesTo ∨ r.beginning = 0 ∨
    ∃ b ∈ r.storage.actions, b.position ≠ a.position ∧ b.truncatesTo = r.beginning))

namespace Life

def Orderly (l : Life) : Deed → Prop
  | .write _ request => request.learned = false ∧ l.replica.KeepsPerformed request
  | .learned a => a.TruncatesBack ∧ (a.learned = true → l.replica.KeepsBeginning a)
  | .lose => False
  | _ => True

variable {d : Deed} {l : Life}

theorem Orderly.truncatesBack (h : l.Orderly d) : d.TruncatesBack := by
  cases d with
  | write | learned => exact h.1
  | _ => trivial

theorem Orderly.ne_lose (h : l.Orderly d) : d ≠ .lose := by
  rintro rfl
  exact h

theorem restartable_step (h : l.replica.Restartable) (hd : l.Orderly d) : (l.step d).replica.Restartable := by
  cases d with
  | promise _ request => exact h.promise request
  | write _ request => exact h.write request (fun hl => nomatch hd.1.symm.trans hl)
  | recover => exact h
  | learned a => exact h.handle (.learned a) hd.1 hd.2
  | update status => exact h.handle (.update status) trivial trivial
  | restart =>
    exact ⟨wf_restore h.wf.storage.ascending, h.targets, restore_beginning_spec l.replica.storage,
      restore_ending_spec l.replica.storage⟩
  | lose => exact absurd rfl hd.ne_lose

/-- The replica keeps its storage, and a restart that finds another beginning does not bring the position back. -/
def Lasting (p : Nat) (l : Life) : Deed → Prop
  | .restart => p < l.replica.beginning → p < (Replica.restore l.replica.storage).beginning
  | .lose => False
  | _ => True

theorem Orderly.lasting (h : l.Orderly d) (hr : l.replica.Restartable) (p : Nat) : Lasting p l d := by
  cases d with
  | restart =>
    intro hp
    rwa [hr.wf.restore_beginning.2 hr.beginning]
  | lose => exact h
  | _ => trivial

def Settled (r : Replica) (p : Nat) (P : Action → Prop) : Prop :=
  p < r.beginning ∨ ∃ a, r.record p = some a ∧ (a.learned = true ∨ P a)

variable {p : Nat} {r : Replica} {P : Action → Prop}

theorem settled_persist (h : r.Wf) {a : Action}
    (hs : p ≠ a.position → Settled r p P) (ha : p = a.position → a.learned = true ∨ P a) : Settled (r.persist a) p P := by
  by_cases hb : p < (r.persist a).beginning
  · exact .inl hb
  have hrec := h.record_persist a p (by omega)
  by_cases hp : p = a.position
  · rw [if_pos hp] at hrec
    exact .inr ⟨a, hrec, ha hp⟩
  rw [if_neg hp] at hrec
  rcases hs hp with hlt | ⟨b, hb', hP⟩
  · rw [persist_beginning] at hb
    omega
  · exact .inr ⟨b, hrec.trans hb', hP⟩

/-- **A settled position stays settled**, if a new promise and a newer write keep `P`. -/
theorem Settled.step (h : Settled l.replica p P) (hr : l.replica.Wf) (hd : Lasting p l d)
    (hpr : ∀ b n, P b → b.promised < n → P { b with promised := n })
    (hw : ∀ id request a, d = .write id request → l.replica.record request.position = some a → a.learned = false →
      a.promised ≤ request.proposal → P a → P (written request a.promised)) :
    Settled (l.step d).replica p P := by
  have hrec : ∀ {b : Action}, l.replica.beginning ≤ p → l.replica.record p = some b → b.learned = true ∨ P b := by
    intro b hb hpb
    rcases h with hlt | ⟨a, ha, hP⟩
    · omega
    · rw [hpb] at ha
      cases ha
      exact hP
  have hno : l.replica.beginning ≤ p → l.replica.record p ≠ none := by
    intro hb hn
    rcases h with hlt | ⟨a, ha, -⟩
    · omega
    · rw [hn] at ha
      cases ha
  have ht := turn hr d
  generalize (l.step d).replica = r' at ht ⊢
  cases ht with
  | idle | promises | updates => exact h
  | grantsFresh _ _ q _ hb hn =>
    refine settled_persist hr (fun _ => h) (fun hp => ?_)
    rw [show p = q from hp] at hno
    exact absurd hn (hno hb)
  | grants _ _ _ b _ hb hq hlt =>
    obtain rfl := (hr.mem_of_record.1 hq).2
    refine settled_persist hr (fun _ => h) (fun hp => ?_)
    rw [show p = b.position from hp] at hrec
    exact (hrec hb hq).imp (fun hl => hl) (fun hP => hpr b _ hP hlt)
  | writesFresh _ request _ _ _ hb hn =>
    refine settled_persist hr (fun _ => h) (fun hp => ?_)
    rw [show p = request.position from hp] at hno
    exact absurd hn (hno hb)
  | writesOver id request _ a _ _ hb hq hle hl =>
    refine settled_persist hr (fun _ => h) (fun hp => ?_)
    rw [show p = request.position from hp] at hrec
    rcases hrec hb hq with hl' | hP
    · rw [hl] at hl'
      cases hl'
    · exact .inr (hw id request a rfl hq hl hle hP)
  | learns _ ha => exact settled_persist hr (fun _ => h) (fun _ => .inl ha)
  | restarts => exact h.imp hd id
  | loses => exact hd.elim

def Open (a : Option Action) : Prop := ∀ b, a = some b → b.learned = false

def PerformedFrom (n : Nat) (a : Action) : Prop := ∃ k, a.performed = some k ∧ n ≤ k

/-- **What a replica stands by.** -/
structure Steadfast (l : Life) : Prop where
  restartable : l.replica.Restartable
  fenced : l.Fenced []
  accepted : ∀ n p v, l.Accepted n p v → p ≤ l.replica.ending ∧ Settled l.replica p (PerformedFrom n)
  granted : ∀ i m p a, l.Granted i m p a → Open a →
    p ≤ l.replica.ending ∧ Settled l.replica p (fun b => m ≤ b.promised)
  once : ∀ i i' m p a a', l.Granted i m p a → l.Granted i' m p a' → Open a → Open a' → i = i'
  covers : ∀ i m p a n v, l.Granted i m p a → Open a → n < m → l.Accepted n p v →
    ∃ b, a = some b ∧ PerformedFrom n b
  above : ∀ i m e j n p a, l.Promised i m e → l.Granted j n p a → Open a → e < p → m < n

theorem Settled.performed_step {n : Nat} (h : Settled l.replica p (PerformedFrom n))
    (hr : l.replica.Restartable) (hd : l.Orderly d) : Settled (l.step d).replica p (PerformedFrom n) := by
  refine h.step hr.wf (hd.lasting hr p) (fun _ _ hb _ => hb) (fun _ request _ hdw ha hl hle hp => ?_)
  obtain ⟨_, hak, hnk⟩ := hp
  subst hdw
  exact ⟨request.proposal, rfl, hnk.trans (hd.2.le ha hl hle hak)⟩

variable {m : Nat} {a : Option Action}

theorem Settled.promised_step (h : Settled l.replica p (fun b => m ≤ b.promised))
    (hr : l.replica.Wf) (hd : Lasting p l d) : Settled (l.step d).replica p (fun b => m ≤ b.promised) :=
  h.step hr hd (fun _ _ hb hlt => le_of_lt (hb.trans_lt hlt)) (fun _ _ _ _ _ _ _ hp => hp)

theorem granted_open (h : l.replica.Wf) {x : Nat × Answer} (hx : x ∈ (l.step d).answers) (ha : x.2.granted = some (m, p, a)) (ho : Open a) :
    x ∈ l.answers ∨ ∃ request, d = .promise x.1 request ∧ request.position = some p ∧ l.replica.beginning ≤ p ∧
      a = l.replica.record p ∧ (∀ b, a = some b → b.promised < m) ∧ (a = none → l.replica.promised < m) ∧
      p ≤ (l.step d).replica.ending ∧ Settled (l.step d).replica p (fun b => m ≤ b.promised) := by
  rcases granted_step h hx ha with hx | ⟨request, rfl, hp, rfl, hg⟩
  · exact .inl hx
  refine .inr ⟨request, rfl, hp, ?_⟩
  rcases hg with ⟨-, rfl, -⟩ | ⟨hb, rfl, hn, hlt, hr⟩ | ⟨_, hb, rfl, hrec, hlt, hr⟩
  · cases ho _ rfl
  · rw [hr]
    refine ⟨hb, hn.symm, nofun, fun _ => hlt, le_max_right _ _, ?_⟩
    exact settled_persist h (fun hp => absurd rfl hp) (fun _ => .inr le_rfl)
  rw [hr]
  obtain rfl := (h.mem_of_record.1 hrec).2
  refine ⟨hb, hrec.symm, fun _ hc => ?_, nofun, le_max_right _ _, ?_⟩
  · cases hc
    exact hlt
  · exact settled_persist h (fun hp => absurd rfl hp) (fun _ => .inr le_rfl)

theorem Settled.record (h : Settled r p P) (hb : r.beginning ≤ p) :
    ∃ a, r.record p = some a ∧ (a.learned = true ∨ P a) := by
  rcases h with hlt | ha
  · omega
  · exact ha

theorem not_settled_of_open (hb : r.beginning ≤ p) (hrec : a = r.record p)
    (ho : Open a) (hlt : ∀ b, a = some b → b.promised < m) : ¬Settled r p (fun b => m ≤ b.promised) := by
  intro hs
  obtain ⟨b, hpb, hset⟩ := hs.record hb
  rw [hpb] at hrec
  have hlt := hlt b hrec
  rcases hset with hl | hm
  · rw [ho b hrec] at hl
    cases hl
  · omega

/-- **A settled position accepts no write below its promise.** -/
theorem Settled.le_proposal (hs : Settled r p (fun b => m ≤ b.promised)) (hb : r.beginning ≤ p) {n : Nat} {Q : Prop}
    (hrec : (r.record p = none ∧ Q) ∨ ∃ a, r.record p = some a ∧ a.promised ≤ n ∧ a.learned = false ∧ P a) : m ≤ n := by
  obtain ⟨_, hpb, hset⟩ := hs.record hb
  rcases hrec with ⟨hno, -⟩ | ⟨_, hpc, hle, hl, -⟩
  · rw [hno] at hpb
    cases hpb
  rw [hpc] at hpb
  cases hpb
  rcases hset with hl' | hm
  · rw [hl] at hl'
    cases hl'
  · exact hm.trans hle

/-- **A replica keeps standing by it.** -/
theorem Steadfast.step (h : l.Steadfast) (hd : l.Orderly d) : (l.step d).Steadfast := by
  have hwf := h.restartable.wf
  have hend := h.fenced.ending_step hd.ne_lose
  refine ⟨restartable_step h.restartable hd,
    h.fenced.step hd.ne_lose hd.truncatesBack (fun _ _ _ x hx => nomatch hx), ?_, ?_, ?_, ?_, ?_⟩
  · rintro n p v ⟨x, hx, ha⟩
    rcases accepted_step hwf hx ha with hxl | ⟨id, request, rfl, -, rfl, rfl, -, -, hrec⟩
    · obtain ⟨hle, hset⟩ := h.accepted n p v ⟨x, hxl, ha⟩
      exact ⟨hle.trans hend, hset.performed_step h.restartable hd⟩
    rcases hrec with ⟨-, -, hrep⟩ | ⟨a, -, -, -, hrep⟩
    all_goals
      rw [hrep]
      exact ⟨le_max_right _ _, settled_persist hwf (fun hp => absurd rfl hp) (fun _ => .inr ⟨_, rfl, le_rfl⟩)⟩
  · rintro i m p a ⟨x, hx, rfl, ha⟩ ho
    rcases granted_open hwf hx ha ho with hxl | ⟨request, rfl, -, -, -, -, -, hle, hset⟩
    · obtain ⟨hle, hset⟩ := h.granted x.1 m p a ⟨x, hxl, rfl, ha⟩ ho
      exact ⟨hle.trans hend, hset.promised_step hwf (hd.lasting h.restartable p)⟩
    · exact ⟨hle, hset⟩
  · rintro i i' m p a a' ⟨x, hx, rfl, ha⟩ ⟨x', hx', rfl, ha'⟩ ho ho'
    rcases granted_open hwf hx ha ho with hxl | ⟨request, rfl, -, hb, hrec, hlt, -⟩
    · rcases granted_open hwf hx' ha' ho' with hxl' | ⟨request', -, -, hb, hrec, hlt, -⟩
      · exact h.once x.1 x'.1 m p a a' ⟨x, hxl, rfl, ha⟩ ⟨x', hxl', rfl, ha'⟩ ho ho'
      · exact absurd (h.granted x.1 m p a ⟨x, hxl, rfl, ha⟩ ho).2 (not_settled_of_open hb hrec ho' hlt)
    · rcases granted_open hwf hx' ha' ho' with hxl' | ⟨request', hd', -⟩
      · exact absurd (h.granted x'.1 m p a' ⟨x', hxl', rfl, ha'⟩ ho').2 (not_settled_of_open hb hrec ho hlt)
      · exact (Deed.promise.inj hd').1
  · rintro i m p a n v ⟨x, hx, rfl, ha⟩ ho hn ⟨y, hy, hya⟩
    rcases granted_open hwf hx ha ho with hxl | ⟨request, rfl, -, hb, hrec, -⟩
    · rcases accepted_step hwf hy hya with hyl | ⟨id, request, rfl, -, rfl, rfl, -, hb, hrec⟩
      · exact h.covers x.1 m p a n v ⟨x, hxl, rfl, ha⟩ ho hn ⟨y, hyl, hya⟩
      · exact absurd ((h.granted x.1 m _ a ⟨x, hxl, rfl, ha⟩ ho).2.le_proposal hb hrec) (Nat.not_le.2 hn)
    · rcases accepted_step hwf hy hya with hyl | ⟨id, request', hd', -⟩
      · -- what was accepted is what the promise reports
        obtain ⟨b, hpb, hset⟩ := (h.accepted n p v ⟨y, hyl, hya⟩).2.record hb
        rw [hpb] at hrec
        refine ⟨b, hrec, hset.resolve_left (fun hl => ?_)⟩
        rw [ho b hrec] at hl
        cases hl
      · cases hd'
  · rintro i m e j n p a ⟨x, hx, rfl, ha⟩ ⟨y, hy, rfl, hya⟩ ho he
    rcases promised_step hwf hx ha with hxl | ⟨request, rfl, -, hno, -, -, rfl, -⟩
    · rcases granted_open hwf hy hya ho with hyl | ⟨request, rfl, -, -, hrec, hlt, hf, -⟩
      · exact h.above x.1 m e y.1 n p a ⟨x, hxl, rfl, ha⟩ ⟨y, hyl, rfl, hya⟩ ho he
      obtain ⟨hm, hold⟩ := h.fenced.holds x hxl List.not_mem_nil m e ha
      cases hab : a with
      | none => exact hm.trans_lt (hf hab)
      | some b => exact lt_of_le_of_lt (hold p b he (hrec.symm.trans hab) (ho b hab)) (hlt b hab)
    · rcases granted_open hwf hy hya ho with hyl | ⟨request', hd', hp, -⟩
      · have := (h.granted y.1 n p a ⟨y, hyl, rfl, hya⟩ ho).1
        omega
      · obtain rfl := (Deed.promise.inj hd').2
        rw [hno] at hp
        cases hp

/-! ### A promised position -/
/-- **An explicit promise binds the replica**, as long as no restart brings the position back that a truncation has taken. -/
theorem explicit_promise_binds (id : Nat) (request : PromiseRequest) (w : WriteRequest) (ds ds' : List Deed)
    (hl : ds.foldl step { replica := fresh } = l) {reply : PromiseResponse} {answer : WriteResponse}
    (hp : request.position = some w.position) (hb : l.replica.beginning ≤ w.position)
    (hr : (l.replica.promise request).2 = some reply) (ht : reply.type = some .accept)
    (hk : Run.Along step (Lasting w.position) (l.step (.promise id request)) ds')
    (hw : ((ds'.foldl step (l.step (.promise id request))).replica.write w).2 = some answer)
    (ht' : answer.type = some .accept) : request.proposal ≤ w.proposal := by
  have hwf : l.replica.Wf := by
    rw [← hl]
    exact ds.foldlRecOn (motive := fun l => l.replica.Wf) step (b := ⟨_, []⟩) wf_fresh (fun _ h d _ => wf_step h d)
  have hg : (Answer.promise request reply).granted = some (request.proposal, w.position, reply.action) := by
    simp [Answer.granted, ht, hp]
  have hset : Settled (l.step (.promise id request)).replica w.position (fun b => request.proposal ≤ b.promised) := by
    show Settled (l.replica.promise request).1 _ _
    obtain ⟨-, -, ⟨_, -⟩ | ⟨-, -, -, -, hr'⟩ | ⟨_, -, -, hrec, -, hr'⟩⟩ := promise_granted hwf hr hg
    · omega
    · rw [hr']
      exact settled_persist hwf (fun hp => absurd rfl hp) (fun _ => .inr le_rfl)
    · rw [hr']
      have hpos := (hwf.mem_of_record.1 hrec).2
      exact settled_persist hwf (fun hp => absurd hpos.symm hp) (fun _ => .inr le_rfl)
  obtain ⟨hwf', hset'⟩ := Run.Along.invariant (I := fun l => l.replica.Wf ∧ Settled l.replica w.position _)
    (fun _ d h hd => ⟨wf_step h.1 d, h.2.promised_step h.1 hd⟩) ds' ⟨wf_step hwf _, hset⟩ hk
  have ha : (Answer.write w answer).accepted = some (w.proposal, w.position, w.value) := by
    simp [Answer.accepted, ht']
  obtain ⟨-, -, -, -, hb', hrec⟩ := write_accepted hwf' hw ha
  exact hset'.le_proposal hb' hrec

theorem explicit_promise_binds_restarted :
    let l := [.update .voting, .promise 0 ⟨3, some 1⟩, .restart].foldl step { replica := fresh }
    (l.replica.write ⟨4, 1, false, .nop false⟩).2.bind (·.type) = some .accept ∧ 3 ≤ 4 :=
  ⟨by decide, explicit_promise_binds 0 ⟨3, some 1⟩ ⟨4, 1, false, .nop false⟩ [.update .voting] [.restart] rfl rfl
    (by decide) rfl rfl ⟨(by decide : 1 < 0 → 1 < _), trivial⟩ rfl rfl⟩

theorem explicit_promise_forgotten :
    let l : Life := step { replica := fresh } (.update .voting)
    let a : Action := { position := 5, promised := 1, performed := some 1, learned := true, value := some (.nop true) }
    let request : PromiseRequest := { proposal := 10, position := some 3 }
    let l' := [.promise 0 request, .learned a, .learned { a with value := some (.append [7]) }, .restart].foldl step l
    (l.replica.promise request).2.bind (·.type) = some .accept ∧ l.replica.beginning = 0 ∧
      (l'.replica.write ⟨2, 3, false, .nop false⟩).2.bind (·.type) = some .accept := by
  decide

end Life
end Clusterd.Log
