import Clusterd.LogSound
import Mathlib.Algebra.GroupWithZero.Nat
/-!
# The life of one replica

Seen from one replica, a run of the cluster is a sequence of deeds: it handles a request and may answer, it learns, its status
is updated, it restarts, it loses its state.  `Change.life` projects every change of the cluster on each replica, so what a
replica keeps is proved on `Life.step` alone.
-/
namespace Clusterd.Log

open Replica Answer Coordinator List

inductive Deed where
  | promise (id : Nat) (request : PromiseRequest)
  | write (id : Nat) (request : WriteRequest)
  | recover (id : Nat)
  | learned (action : Action)
  | update (status : Status)
  | restart
  | lose

structure Life where
  replica : Replica
  answers : List (Nat × Answer) := []

variable {a : Option Action}

namespace Life

def answer (l : Life) (r : Replica) (id : Nat) (a : Option Answer) : Life :=
  { replica := r, answers := l.answers ++ (a.map fun a => (id, a)).toList }

def step (l : Life) : Deed → Life
  | .promise id request =>
    l.answer (l.replica.promise request).1 id ((l.replica.promise request).2.map (.promise request))
  | .write id request => l.answer (l.replica.write request).1 id ((l.replica.write request).2.map (.write request))
  | .recover id => l.answer l.replica id (some (.recover l.replica.recover))
  | .learned a => { l with replica := l.replica.learned a }
  | .update status => { l with replica := l.replica.update status }
  | .restart => { l with replica := Replica.restore l.replica.storage }
  | .lose => { l with replica := Replica.fresh }

def Accepted (l : Life) (n p : Nat) (v : Value) : Prop := ∃ x ∈ l.answers, x.2.accepted = some (n, p, v)

def Promised (l : Life) (i n e : Nat) : Prop := ∃ x ∈ l.answers, x.1 = i ∧ x.2.promised = some (n, e)

def Granted (l : Life) (i n p : Nat) (a : Option Action) : Prop :=
  ∃ x ∈ l.answers, x.1 = i ∧ x.2.granted = some (n, p, a)

/-! ### What one answer tells -/

/-- The replica makes an implicit promise, a promise for a position, or a write, and is `r'` then. -/
abbrev Promises (r : Replica) (request : PromiseRequest) (n e : Nat) (r' : Replica) : Prop :=
  r.status = .voting ∧ request.position = none ∧ n = request.proposal ∧ r.promised < n ∧ e = r.ending ∧
    r' = r.updatePromised n

abbrev Grants (r : Replica) (request : PromiseRequest) (n p : Nat) (a : Option Action) (r' : Replica) : Prop :=
  request.position = some p ∧ n = request.proposal ∧
    ((p < r.beginning ∧ a = some (r.tombstone p) ∧ r' = r) ∨
     (r.beginning ≤ p ∧ a = none ∧ r.record p = none ∧ r.promised < n ∧
        r' = r.persist { position := p, promised := n }) ∨
     ∃ b, r.beginning ≤ p ∧ a = some b ∧ r.record p = some b ∧ b.promised < n ∧ r' = r.persist { b with promised := n })

abbrev Accepts (r : Replica) (request : WriteRequest) (n p : Nat) (v : Value) (r' : Replica) : Prop :=
  r.status = .voting ∧ n = request.proposal ∧ p = request.position ∧ v = request.value ∧ r.beginning ≤ p ∧
    ((r.record p = none ∧ r.promised ≤ n ∧ r' = r.persist (written request r.promised)) ∨
     ∃ a, r.record p = some a ∧ a.promised ≤ n ∧ a.learned = false ∧ r' = r.persist (written request a.promised))

variable {n e : Nat} {r : Replica} {request : PromiseRequest} {reply : PromiseResponse}

/-- **A replica promises a number implicitly only once**, above every one before, and reports its end. -/
theorem promise_promised (h : r.Wf) (hr : (r.promise request).2 = some reply)
    (hp : (Answer.promise request reply).promised = some (n, e)) : Promises r request n e (r.promise request).1 := by
  have ho := h.promise request
  rw [hr] at ho
  generalize (r.promise request).1 = r' at ho ⊢
  generalize hout : some reply = out at ho
  cases ho with
  | grantedImplicit hs hn hlt =>
    cases hout
    simp [Answer.promised, hn] at hp
    obtain ⟨rfl, rfl⟩ := hp
    exact ⟨hs, hn, rfl, hlt, rfl, rfl⟩
  | _ =>
    cases hout
    simp_all [Answer.promised]

variable {p : Nat}

theorem promise_granted (h : r.Wf) (hr : (r.promise request).2 = some reply)
    (hp : (promise request reply).granted = some (n, p, a)) : Grants r request n p a (r.promise request).1 := by
  have ho := h.promise request
  rw [hr] at ho
  generalize (r.promise request).1 = r' at ho ⊢
  generalize hout : some reply = out at ho
  cases ho with
  | truncated _ _ hq hlt =>
    cases hout
    simp [granted, hq] at hp
    obtain ⟨rfl, rfl, rfl⟩ := hp
    exact ⟨hq, rfl, .inl ⟨hlt, rfl, rfl⟩⟩
  | grantedFresh _ _ hq hb hrec hlt =>
    cases hout
    simp [granted, hq] at hp
    obtain ⟨rfl, rfl, rfl⟩ := hp
    exact ⟨hq, rfl, .inr (.inl ⟨hb, rfl, hrec, hlt, rfl⟩)⟩
  | granted _ b _ hq hb hrec hlt =>
    cases hout
    simp [granted, hq] at hp
    obtain ⟨rfl, rfl, rfl⟩ := hp
    exact ⟨hq, rfl, .inr (.inr ⟨b, hb, rfl, hrec, hlt, rfl⟩)⟩
  | _ =>
    cases hout
    simp_all [granted]

variable {v : Value}

theorem write_accepted (h : r.Wf) {request : WriteRequest} {reply : WriteResponse}
    (hr : (r.write request).2 = some reply) (hp : (write request reply).accepted = some (n, p, v)) :
    Accepts r request n p v (r.write request).1 := by
  have ho := h.write request
  rw [hr] at ho
  generalize (r.write request).1 = r' at ho ⊢
  generalize hout : some reply = out at ho
  cases ho with
  | acceptedFresh hs hb hrec hle =>
    cases hout
    simp [accepted] at hp
    obtain ⟨rfl, rfl, rfl⟩ := hp
    exact ⟨hs, rfl, rfl, rfl, hb, .inl ⟨hrec, hle, rfl⟩⟩
  | accepted a hs hb hrec hle hl =>
    cases hout
    simp [accepted] at hp
    obtain ⟨rfl, rfl, rfl⟩ := hp
    exact ⟨hs, rfl, rfl, rfl, hb, .inr ⟨a, hrec, hle, hl, rfl⟩⟩
  | _ => cases hout <;> simp_all [accepted]

variable {l : Life} {x : Nat × Answer}

theorem mem_answer {id : Nat} {a : Option Answer} :
    x ∈ (l.answer r id a).answers ↔ x ∈ l.answers ∨ ∃ b, a = some b ∧ x = (id, b) := by
  cases a with
  | none | some => simp [answer]

/-! ### What a deed adds -/

variable {d : Deed}

theorem mem_step (hx : x ∈ (l.step d).answers) : x ∈ l.answers ∨
      (∃ id request reply, d = .promise id request ∧ (l.replica.promise request).2 = some reply ∧
        x = (id, .promise request reply)) ∨
      (∃ id request reply, d = .write id request ∧ (l.replica.write request).2 = some reply ∧
        x = (id, .write request reply)) ∨ ∃ id, d = .recover id ∧ x = (id, .recover l.replica.recover) := by
  cases d with
  | promise id request =>
    rcases mem_answer.1 hx with hx | ⟨b, hb, rfl⟩
    · exact .inl hx
    · obtain ⟨reply, hr, rfl⟩ := Option.map_eq_some_iff.1 hb
      exact .inr (.inl ⟨id, request, reply, rfl, hr, rfl⟩)
  | write id request =>
    rcases mem_answer.1 hx with hx | ⟨b, hb, rfl⟩
    · exact .inl hx
    · obtain ⟨reply, hr, rfl⟩ := Option.map_eq_some_iff.1 hb
      exact .inr (.inr (.inl ⟨id, request, reply, rfl, hr, rfl⟩))
  | recover id =>
    rcases mem_answer.1 hx with hx | ⟨b, hb, rfl⟩
    · exact .inl hx
    · cases hb
      exact .inr (.inr (.inr ⟨id, rfl, rfl⟩))
  | _ => exact .inl hx

theorem subset_step (d : Deed) (hx : x ∈ l.answers) : x ∈ (l.step d).answers := by
  cases d with
  | promise | write | recover => exact mem_answer.2 (.inl hx)
  | _ => exact hx

theorem Accepted.step (h : l.Accepted n p v) (d : Deed) : (l.step d).Accepted n p v := by
  obtain ⟨x, hx, ha⟩ := h
  exact ⟨x, subset_step d hx, ha⟩

section
variable (h : l.replica.Wf) (hx : x ∈ (l.step d).answers)
include h hx

theorem promised_step (ha : x.2.promised = some (n, e)) :
    x ∈ l.answers ∨ ∃ request, d = .promise x.1 request ∧ Promises l.replica request n e (l.step d).replica := by
  rcases mem_step hx with hx | ⟨id, request, reply, rfl, hr, rfl⟩ | ⟨id, request, reply, -, -, rfl⟩ | ⟨id, -, rfl⟩
  · exact .inl hx
  · exact .inr ⟨request, rfl, promise_promised h hr ha⟩
  · cases ha
  · cases ha

theorem granted_step (ha : x.2.granted = some (n, p, a)) :
    x ∈ l.answers ∨ ∃ request, d = .promise x.1 request ∧ Grants l.replica request n p a (l.step d).replica := by
  rcases mem_step hx with hx | ⟨id, request, reply, rfl, hr, rfl⟩ | ⟨id, request, reply, -, -, rfl⟩ | ⟨id, -, rfl⟩
  · exact .inl hx
  · exact .inr ⟨request, rfl, promise_granted h hr ha⟩
  · cases ha
  · cases ha

theorem accepted_step (ha : x.2.accepted = some (n, p, v)) :
    x ∈ l.answers ∨ ∃ id request, d = .write id request ∧ Accepts l.replica request n p v (l.step d).replica := by
  rcases mem_step hx with hx | ⟨id, request, reply, -, -, rfl⟩ | ⟨id, request, reply, rfl, hr, rfl⟩ | ⟨id, -, rfl⟩
  · exact .inl hx
  · cases ha
  · exact .inr ⟨id, request, rfl, write_accepted h hr ha⟩
  · cases ha

end

/-! ### What a deed does to the replica -/

inductive Turn (r : Replica) : Deed → Replica → Prop
  | idle (d : Deed) : Turn r d r
  | promises (id : Nat) (request : PromiseRequest) : request.position = none → r.promised < request.proposal →
      Turn r (.promise id request) (r.updatePromised request.proposal)
  | grantsFresh (id : Nat) (request : PromiseRequest) (p : Nat) : request.position = some p → r.beginning ≤ p →
      r.record p = none → r.promised < request.proposal →
      Turn r (.promise id request) (r.persist { position := p, promised := request.proposal })
  | grants (id : Nat) (request : PromiseRequest) (p : Nat) (b : Action) : request.position = some p → r.beginning ≤ p →
      r.record p = some b → b.promised < request.proposal →
      Turn r (.promise id request) (r.persist { b with promised := request.proposal })
  | writesFresh (id : Nat) (request : WriteRequest) (reply : WriteResponse) : (r.write request).2 = some reply →
      reply.type = some .accept → r.beginning ≤ request.position → r.record request.position = none →
      r.promised ≤ request.proposal → Turn r (.write id request) (r.persist (Replica.written request r.promised))
  | writesOver (id : Nat) (request : WriteRequest) (reply : WriteResponse) (a : Action) :
      (r.write request).2 = some reply → reply.type = some .accept → r.beginning ≤ request.position →
      r.record request.position = some a → a.promised ≤ request.proposal → a.learned = false →
      Turn r (.write id request) (r.persist (Replica.written request a.promised))
  | learns (a : Action) : a.learned = true → Turn r (.learned a) (r.persist a)
  | updates (status : Status) : Turn r (.update status) (r.update status)
  | restarts : Turn r .restart (Replica.restore r.storage)
  | loses : Turn r .lose Replica.fresh

/-- **Every deed takes one of the turns.** -/
theorem turn (h : l.replica.Wf) (d : Deed) : Turn l.replica d (l.step d).replica := by
  cases d with
  | promise id request =>
    have ho := h.promise request
    show Turn l.replica _ (l.replica.promise request).1
    generalize (l.replica.promise request).1 = r' at ho ⊢
    generalize (l.replica.promise request).2 = reply at ho
    cases ho with
    | grantedFresh p _ hp hb hr hlt => exact .grantsFresh id request p hp hb hr hlt
    | granted p b _ hp hb hr hlt => exact .grants id request p b hp hb hr hlt
    | grantedImplicit _ hp hlt => exact .promises id request hp hlt
    | _ => exact .idle _
  | write id request =>
    have ho := h.write request
    show Turn l.replica _ (l.replica.write request).1
    generalize (l.replica.write request).1 = r' at ho ⊢
    generalize hw : (l.replica.write request).2 = reply at ho
    cases ho with
    | acceptedFresh _ hb hr hle => exact .writesFresh id request _ hw rfl hb hr hle
    | accepted a _ hb hr hle hl => exact .writesOver id request _ a hw rfl hb hr hle hl
    | _ => exact .idle _
  | recover => exact .idle _
  | learned a =>
    show Turn l.replica _ (l.replica.learned a)
    unfold learned
    split
    · exact .learns a ‹_›
    · exact .idle _
  | update status => exact .updates status
  | restart => exact .restarts
  | lose => exact .loses

theorem accepted_write (id : Nat) {request : WriteRequest} {reply : WriteResponse}
    (hr : (l.replica.write request).2 = some reply) (ht : reply.type = some .accept) :
    (l.step (.write id request)).Accepted request.proposal request.position request.value :=
  ⟨(id, .write request reply), mem_answer.2 (.inr ⟨_, by rw [hr]; rfl, rfl⟩), by simp [accepted, ht]⟩

theorem wf_step (h : l.replica.Wf) (d : Deed) : (l.step d).replica.Wf := by
  have ht := turn h d
  generalize (l.step d).replica = r' at ht ⊢
  cases ht with
  | idle => exact h
  | promises => exact h.updatePromised _
  | updates status => exact h.update status
  | restarts => exact wf_restore h.storage.ascending
  | loses => exact wf_fresh
  | _ => exact h.persist _

theorem promised_le_step (h : l.replica.Wf) (hd : d ≠ .lose) : l.replica.promised ≤ (l.step d).replica.promised := by
  have ht := turn h d
  generalize (l.step d).replica = r' at ht ⊢
  cases ht with
  | promises _ _ _ hlt => exact hlt.le
  | restarts =>
    have hm : (restore l.replica.storage).metadata = l.replica.metadata :=
      (restore_metadata l.replica.storage).trans h.header
    exact le_of_eq (congrArg Metadata.promised hm).symm
  | loses => exact absurd rfl hd
  | _ => exact le_rfl

end Life

namespace Cluster
variable {ρ : Type} [DecidableEq ρ]

def life (w : Cluster ρ) (R : ρ) : Life :=
  { replica := w.replicas R
    answers := (w.responses.filter fun y => y.replica = R).map fun y => (y.id, y.answer) }

variable {i : Nat} {w : Cluster ρ} {R : ρ}

theorem mem_life {a : Answer} : (i, a) ∈ (w.life R).answers ↔ { id := i, replica := R, answer := a } ∈ w.responses := by
  simp only [life, mem_map, mem_filter, decide_eq_true_iff, Prod.mk.injEq]
  constructor
  · rintro ⟨_, ⟨hy, rfl⟩, rfl, rfl⟩
    exact hy
  · intro h
    exact ⟨_, ⟨h, rfl⟩, rfl, rfl⟩

variable {n p : Nat}

theorem accepted_iff {v : Value} : w.Accepted R n p v ↔ (w.life R).Accepted n p v := by
  constructor
  · rintro ⟨y, hy, rfl, ha⟩
    exact ⟨(y.id, y.answer), mem_life.2 hy, ha⟩
  · rintro ⟨⟨_, _⟩, hx, ha⟩
    exact ⟨_, mem_life.1 hx, rfl, ha⟩

theorem promised_iff {e : Nat} : w.Promised i R n e ↔ (w.life R).Promised i n e := by
  constructor
  · rintro ⟨y, hy, rfl, rfl, ha⟩
    exact ⟨(y.id, y.answer), mem_life.2 hy, rfl, ha⟩
  · rintro ⟨⟨_, _⟩, hx, rfl, ha⟩
    exact ⟨_, mem_life.1 hx, rfl, rfl, ha⟩

theorem granted_iff : w.Granted i R n p a ↔ (w.life R).Granted i n p a := by
  constructor
  · rintro ⟨y, hy, rfl, rfl, ha⟩
    exact ⟨(y.id, y.answer), mem_life.2 hy, rfl, ha⟩
  · rintro ⟨⟨_, _⟩, hx, rfl, ha⟩
    exact ⟨_, mem_life.1 hx, rfl, rfl, ha⟩

def Does (w : Cluster ρ) (e : Event ρ) (R : ρ) : Deed → Prop
  | .promise id request => e = .deliver id R ∧ ∃ source, w.requests[id]? = some (source, .promise request)
  | .write id request => e = .deliver id R ∧ ∃ source, w.requests[id]? = some (source, .write request)
  | .recover id => e = .deliver id R
  | .learned a => a ∈ w.learned ∧ ∃ k, e = .learn k R ∧ w.learned[k]? = some a
  | .update _ => True
  | .restart => e = .restart R
  | .lose => e = .lose R

variable {w' : Cluster ρ}

theorem life_of_eq (h1 : w'.replicas R = w.replicas R) (h2 : w'.responses = w.responses) : w'.life R = w.life R := by
  unfold life
  rw [h1, h2]

theorem life_setReplica (w : Cluster ρ) (S : ρ) (r : Replica) (rs : ρ → Proc ρ RecoverState) (R : ρ) :
    ({ w.setReplica S r with recoveries := rs } : Cluster ρ).life R =
      if R = S then { w.life S with replica := r } else w.life R := by
  by_cases hR : R = S
  · subst hR
    simp [life, setReplica]
  · rw [if_neg hR]
    exact life_of_eq (Function.update_of_ne hR _ _) rfl

theorem life_respond (w : Cluster ρ) (S : ρ) (r : Replica) (id : Nat) (a : Option Answer) (R : ρ) :
    ((w.setReplica S r).respond id S a).life R = if R = S then (w.life S).answer r id a else w.life R := by
  by_cases hR : R = S
  · subst hR
    cases a with
    | none | some => simp [life, setReplica, respond, Life.answer]
  · rw [if_neg hR]
    have hS : S ≠ R := fun h => hR h.symm
    cases a with
    | none => simp [life, setReplica, respond, Function.update_of_ne hR]
    | some => simp [life, setReplica, respond, Function.update_of_ne hR, hS]

variable [Fintype ρ]

theorem life_stepRecovery (cfg : Config ρ) (w : Cluster ρ) (S : ρ) (p : Proc ρ RecoverState) (x : RecoverState.Input)
    (R : ρ) : (w.stepRecovery cfg S p x).life R = w.life R ∨
      ∃ status, (w.stepRecovery cfg S p x).life R = (w.life R).step (.update status) := by
  unfold stepRecovery
  simp only
  split
  next status _ =>
    by_cases hR : R = S
    · subst hR
      refine .inr ⟨status, ?_⟩
      simp [life, setReplica, Life.step]
    · exact .inl (life_of_eq (by simp [setReplica, Function.update_of_ne hR]) (by simp [setReplica]))
  · exact .inl (life_of_eq (by simp) (by simp))

variable {cfg : Config ρ} {e : Event ρ}

omit [Fintype ρ] in
theorem life_of_does {S : ρ} (d : Deed) (hd : w.Does e S d)
    (hl : w'.life R = if R = S then (w.life S).step d else w.life R) :
    w'.life R = w.life R ∨ ∃ d, w.Does e R d ∧ w'.life R = (w.life R).step d := by
  by_cases hR : R = S
  · subst hR
    rw [if_pos rfl] at hl
    exact .inr ⟨d, hd, hl⟩
  · rw [if_neg hR] at hl
    exact .inl hl

/-- **A change of the cluster is at most one deed of each replica.** -/
theorem Change.life (h : Change cfg w e w') (R : ρ) :
    w'.life R = w.life R ∨ ∃ d, w.Does e R d ∧ w'.life R = (w.life R).step d := by
  cases h with
  | none => exact .inl rfl
  | promise id _ source request hreq => exact life_of_does (.promise id request) ⟨rfl, source, hreq⟩ (life_respond ..)
  | write id _ source request hreq => exact life_of_does (.write id request) ⟨rfl, source, hreq⟩ (life_respond ..)
  | recover id S =>
    have hw : w.respond id S (some (.recover (w.replicas S).recover)) =
        (w.setReplica S (w.replicas S)).respond id S (some (.recover (w.replicas S).recover)) := by
      simp [setReplica, respond]
    rw [hw]
    exact life_of_does (.recover id) rfl (life_respond ..)
  | learn k _ a ha =>
    exact life_of_does (.learned a) ⟨mem_of_getElem? ha, k, rfl, ha⟩ (life_setReplica ..)
  | restart => exact life_of_does .restart rfl (life_setReplica ..)
  | lose => exact life_of_does .lose rfl (life_setReplica ..)
  | spawn => exact .inl rfl
  | coordinator | promiseHeard | writeHeard =>
    exact .inl (life_of_eq (by simp [stepCoordinator]) (by simp [stepCoordinator]))
  | fillPromiseHeard | fillWriteHeard | fillRetries
  | fillStops => exact .inl (life_of_eq (by simp [stepFill]) (by simp [stepFill]))
  | recovery _ S | recoverHeard _ S =>
    exact (life_stepRecovery cfg w S _ _ R).imp id fun hl => ⟨.update hl.choose, trivial, hl.choose_spec⟩

/-- **What every deed keeps, every event keeps of every replica.** -/
theorem life_invariant {I : ρ → Life → Prop}
    (hI : ∀ R d, w.Does e R d → I R (w.life R) → I R ((w.life R).step d)) (h : ∀ R, I R (w.life R)) :
    ∀ R, I R ((w.step cfg e).life R) := by
  intro R
  rcases (step_change cfg w e).life R with hl | ⟨d, hd, hl⟩
  · rw [hl]
    exact h R
  · rw [hl]
    exact hI R d hd (h R)

end Cluster

/-!
# Winning a proposal number

A coordinator that heeds its refusals writes only under a number it has won: taken alone, one for which it received a quorum of
`ACCEPT`s since a write was last refused (`Candidate`); in the cluster, one which a quorum of replicas promised to it.  A
replica promises a number once (`Once`), so no two coordinators win the same one.
-/

instance (r : PromiseResponse) : Decidable r.Grants :=
  inferInstanceAs (Decidable (r.type ≠ some .ignored ∧ isRejectedPromise r = false))

/-- A coordinator with its promise rounds since a write was last refused, newest first: the number a round asked for, and
how many `ACCEPT`s it received. -/
structure Candidate where
  client : Client := {}
  rounds : List (Nat × Nat) := []
  deriving DecidableEq

namespace Candidate

/-- The input is an `ACCEPT` of the promise the coordinator waits for. -/
def accepts (c : Coordinator) : Coordinator.Input → Bool
  | .promiseResponse r =>
    match c.state with
    | .electing (.promising _) => decide r.Grants
    | _ => false
  | _ => false

/-- The newest round receives one more `ACCEPT`. -/
def heard : List (Nat × Nat) → List (Nat × Nat)
  | [] => []
  | (n, a) :: rounds => (n, a + 1) :: rounds

def step (quorum : Nat) (k : Candidate) (x : Coordinator.Input) : Candidate :=
  { client := (k.client.step quorum x).1
    rounds :=
      if k.client.coordinator.refuses quorum x then []
      else
        match (k.client.step quorum x).2 with
        | some (.promise request) => (request.proposal, 0) :: k.rounds
        | _ => if accepts k.client.coordinator x then heard k.rounds else k.rounds }

/-- A round for the number received a quorum of `ACCEPT`s. -/
def Won (quorum : Nat) (rounds : List (Nat × Nat)) (n : Nat) : Prop := ∃ a, (n, a) ∈ rounds ∧ quorum ≤ a

def backing (quorum : Nat) (rounds : List (Nat × Nat)) : Backing where
  campaign := fun s => ∃ a rest, rounds = (s.proposal, a) :: rest ∧ (s.highestNackProposal = none → s.responsesReceived ≤ a)
  won := fun n _ => Won quorum rounds n
  writing := fun _ _ => True

variable {quorum : Nat}

theorem won_heard {rounds : List (Nat × Nat)} {n : Nat} (h : Won quorum rounds n) : Won quorum (heard rounds) n := by
  obtain ⟨a, ha, hq⟩ := h
  cases rounds with
  | nil => cases ha
  | cons =>
    rcases mem_cons.1 ha with rfl | ha
    · exact ⟨a + 1, mem_cons_self, by omega⟩
    · exact ⟨a, mem_cons_of_mem _ ha, hq⟩

variable {k : Candidate} {x : Input}

theorem rounds_step (hr : k.client.coordinator.refuses quorum x = false) :
    (∃ request, (k.client.step quorum x).2 = some (.promise request) ∧
        (k.step quorum x).rounds = (request.proposal, 0) :: k.rounds) ∨
      (∀ request, (k.client.step quorum x).2 ≠ some (.promise request)) ∧
        (k.step quorum x).rounds = if accepts k.client.coordinator x then heard k.rounds else k.rounds := by
  unfold step
  simp only [hr, Bool.false_eq_true, if_false]
  split
  next request ho =>
    exact .inl ⟨request, ho, rfl⟩
  next ho =>
    exact .inr ⟨ho, rfl⟩

theorem backing_step (hr : k.client.coordinator.refuses quorum x = false) :
    (backing quorum k.rounds).Next quorum k.client.coordinator x (k.client.step quorum x).2
      (backing quorum (k.step quorum x).rounds) := by
  have hc := rounds_step hr
  have hco : ∀ s r, k.client.coordinator.state = .electing (.promising s) → x = .promiseResponse r →
      (k.step quorum x).rounds = if r.Grants then heard k.rounds else k.rounds := by
    rintro s r hs rfl
    rcases hc with ⟨request, ho, -⟩ | ⟨-, hro⟩
    · cases ho
    · simpa [accepts, hs] using hro
  refine ⟨fun n e hw => ?_, fun ho s hs => ?_, fun _ _ _ _ => trivial, fun _ ho => ?_, fun r s s' hst hx hp hs => ?_,
    fun r s _ _ hst hx hp ht _ hs => ?_, fun _ _ _ => trivial, fun _ _ _ _ _ _ _ => trivial⟩
  · rcases hc with ⟨request, -, hro⟩ | ⟨-, hro⟩
    · obtain ⟨a, ha, hq⟩ := hw
      rw [hro]
      exact ⟨a, mem_cons_of_mem _ ha, hq⟩
    · rw [hro]
      split
      · exact won_heard hw
      · exact hw
  · obtain ⟨a, rest, hrou, hle⟩ := hs
    rcases hc with ⟨request, ho', -⟩ | ⟨-, hro⟩
    · rw [ho] at ho'
      cases ho'
    rw [hro, hrou]
    split
    · exact ⟨a + 1, rest, rfl, fun hn => Nat.le_succ_of_le (hle hn)⟩
    · exact ⟨a, rest, rfl, hle⟩
  · rcases hc with ⟨_, ho', hro⟩ | ⟨hno, -⟩
    · rw [ho] at ho'
      cases ho'
      exact ⟨0, k.rounds, hro, fun _ => Nat.le_refl 0⟩
    · exact absurd ho (hno _)
  · obtain ⟨a, rest, hrou, hle⟩ := hs
    have hro := hco s r hst hx
    have ho := s.received_outcome quorum r
    rw [hp] at ho
    show (∃ a rest, (k.step quorum x).rounds = (s'.proposal, a) :: rest ∧ _) ∧ _
    rw [hro, hrou]
    cases ho with
    | ignored _ hi =>
      rw [if_neg (fun hg : r.Grants => hg.1 hi)]
      exact ⟨⟨a, rest, rfl, hle⟩, rfl⟩
    | counted _ hn hg =>
      rw [if_pos hg]
      exact ⟨⟨a + 1, rest, rfl, fun _ => Nat.succ_le_succ (hle hn)⟩, rfl⟩
    | rejected _ hpr hna =>
      rw [hpr]
      split
      · exact ⟨⟨a + 1, rest, rfl, fun hn => absurd hn hna⟩, rfl⟩
      · exact ⟨⟨a, rest, rfl, fun hn => absurd hn hna⟩, rfl⟩
  · obtain ⟨a, _, hrou, hle⟩ := hs
    have hro := hco s r hst hx
    have ho := s.received_outcome quorum r
    rw [hp] at ho
    rw [hro, hrou]
    cases ho with
    | accepted _ hn hg _ hq =>
      rw [if_pos hg]
      exact ⟨a + 1, mem_cons_self, hq.trans (Nat.succ_le_succ (hle hn))⟩
    | lost _ hf => exact absurd ht hf

def Obeys (k : Candidate) (x : Coordinator.Input) : Prop := k.client.Obeys x

instance (k : Candidate) (x : Coordinator.Input) : Decidable (k.Obeys x) := inferInstanceAs (Decidable (k.client.Obeys x))

theorem holds_run (xs : List Input) (h : k.client.Holds (backing quorum k.rounds))
    (ho : Run.Along (step quorum) Obeys k xs) :
    (xs.foldl (step quorum) k).client.Holds (backing quorum (xs.foldl (step quorum) k).rounds) :=
  Run.Along.invariant (I := fun k => k.client.Holds (backing quorum k.rounds))
    (fun _ _ hk _ => Client.Holds.step hk backing_step) xs h ho

theorem won_of_writes (pre : List Input) {post : List Input}
    (h : Run.Along (step quorum) Obeys {} (pre ++ x :: post)) {request : WriteRequest}
    (hw : ((pre.foldl (step quorum) {}).client.step quorum x).2 = some (.write request)) :
    Won quorum (pre.foldl (step quorum) {}).rounds request.proposal := by
  have hk : (pre.foldl (step quorum) {}).client.Holds (backing quorum (pre.foldl (step quorum) {}).rounds) :=
    holds_run pre trivial h.left
  obtain ⟨_, -, hwon⟩ := hk.writes (Run.Along.at pre h) hw
  exact hwon

end Candidate

/-! ## One promise for each number -/

structure Life.Once (l : Life) : Prop where
  wf : l.replica.Wf
  le : ∀ i n e, l.Promised i n e → n ≤ l.replica.promised
  unique : ∀ i i' n e e', l.Promised i n e → l.Promised i' n e' → i = i'

theorem Life.Once.step {l : Life} (h : l.Once) {d : Deed} (hd : d ≠ .lose) : (l.step d).Once := by
  have hle := promised_le_step h.wf hd
  refine ⟨wf_step h.wf d, ?_, ?_⟩
  · rintro i n e ⟨x, hx, rfl, ha⟩
    rcases promised_step h.wf hx ha with hx | ⟨request, -, -, -, -, -, -, hr⟩
    · exact (h.le x.1 n e ⟨x, hx, rfl, ha⟩).trans hle
    · rw [hr]
      exact Nat.le_refl n
  rintro i i' n e e' ⟨x, hx, rfl, ha⟩ ⟨x', hx', rfl, ha'⟩
  -- a number that is promised now is above every one promised before
  rcases promised_step h.wf hx ha with hx | ⟨request, rfl, -, -, -, hlt, -, -⟩
  · rcases promised_step h.wf hx' ha' with hx' | ⟨request', -, -, -, -, hlt, -, -⟩
    · exact h.unique x.1 x'.1 n e e' ⟨x, hx, rfl, ha⟩ ⟨x', hx', rfl, ha'⟩
    · have := h.le x.1 n e ⟨x, hx, rfl, ha⟩
      omega
  · rcases promised_step h.wf hx' ha' with hx' | ⟨request', hd', -⟩
    · have := h.le x'.1 n e' ⟨x', hx', rfl, ha'⟩
      omega
    · exact (Deed.promise.inj hd').1

def Event.loses {ρ : Type} : Event ρ → Bool
  | .lose _ => true
  | _ => false

namespace Cluster
variable {ρ : Type}

def Heeds (w : Cluster ρ) (e : Event ρ) : Prop := ∀ c v, e.writes? = some (c, v) → (w.coordinators c).machine.refused = false

instance (w : Cluster ρ) (e : Event ρ) : Decidable (w.Heeds e) :=
  match h : e.writes? with
  | none => isTrue (fun c v hv => by rw [h] at hv; cases hv)
  | some (c, v) =>
    decidable_of_iff ((w.coordinators c).machine.refused = false)
      ⟨fun hf c' v' hv => by rw [h] at hv; cases hv; exact hf, fun hf => hf c v h⟩

variable {w : Cluster ρ} {c : Nat} {e : Event ρ}

theorem Heeds.obeys (h : w.Heeds e) {x : Input}
    (hv : ∀ v, x.value? = some v → e.writes? = some (c, v)) : (w.coordinators c).machine.Obeys x := by
  cases x with
  | append | truncate => exact h c _ (hv _ rfl)
  | _ => trivial

/-! ## What coordinators write -/

variable [DecidableEq ρ] [Fintype ρ]

def WritesWon (cfg : Config ρ) (w : Cluster ρ) : Prop :=
  ∀ c request, (.coordinator c, .write request) ∈ w.requests → ∃ e < request.position, w.Won cfg c request.proposal e

variable {cfg : Config ρ}

theorem WritesWon.step (h : w.WritesWon cfg) (hs : w.Sound cfg) (he : w.Heeds e) : (w.step cfg e).WritesWon cfg := by
  intro c request hm
  have hch := step_change cfg w e
  have hold : (.coordinator c, .write request) ∈ w.requests →
      ∃ n < request.position, (w.step cfg e).Won cfg c request.proposal n := by
    intro hm
    obtain ⟨n, hn, hwon⟩ := h c request hm
    exact ⟨n, hn, hwon.mono hch.grows⟩
  rcases hch.client c with ⟨-, hreq⟩ | ⟨_, hv, -, hreq⟩
  · exact hold (hreq request hm)
  rcases hreq request hm with hm | hx
  · exact hold hm
  obtain ⟨n, hn, hwon⟩ := (hs.coordinators c).writes (he.obeys hv) hx
  exact ⟨n, hn, Won.mono hch.grows hwon⟩

/-- **No two coordinators win one number** where each replica promises it once. -/
theorem Won.unique (hq : Fintype.card ρ < 2 * cfg.quorum) (ho : ∀ R, (w.life R).Once)
    {c' n e e' : Nat} (h : w.Won cfg c n e) (h' : w.Won cfg c' n e') : c = c' := by
  obtain ⟨i, hi, hp⟩ := h
  obtain ⟨i', hi', hp'⟩ := h'
  obtain ⟨R, ⟨x, hx, -⟩, x', hx', -⟩ := Quorum.inter hq hp hp'
  have hii : i = i' := (ho R).unique i i' n x x' (promised_iff.1 hx) (promised_iff.1 hx')
  rw [← hii, hi] at hi'
  cases hi'
  rfl

theorem once_step (h : ∀ R, (w.life R).Once) (he : e.loses = false) : ∀ R, ((w.step cfg e).life R).Once :=
  life_invariant (I := fun _ l => l.Once)
    (fun R _ hd hl => hl.step (fun hlo => by subst hlo; rw [show e = .lose R from hd] at he; cases he)) h

omit [Fintype ρ] in
theorem once_start (voting : ρ → Bool) (R : ρ) : ((start voting).life R).Once := by
  have hno : ∀ i n e, ¬((start voting).life R).Promised i n e := by
    rintro i n e ⟨x, hx, -⟩
    cases hx
  refine ⟨?_, fun i n e hp => absurd hp (hno i n e), fun i _ n e _ hp _ => absurd hp (hno i n e)⟩
  show ((start voting).replicas R).Wf
  unfold start
  simp only
  split
  · exact wf_fresh.update .voting
  · exact wf_fresh

theorem writesWon_run {voting : ρ → Bool} {es : List (Event ρ)}
    (h : Run.Along (step cfg) (fun w e => e.loses = false ∧ w.Heeds e) (start voting) es) :
    ((start voting).run cfg es).WritesWon cfg ∧ ∀ R, (((start voting).run cfg es).life R).Once := by
  have hinv := Run.Along.invariant (I := fun w => w.Sound cfg ∧ w.WritesWon cfg ∧ ∀ R, (w.life R).Once)
    (fun w e ⟨hs, hw, ho⟩ ⟨hl, he⟩ => ⟨hs.step e, hw.step hs he, once_step ho hl⟩) es
    ⟨sound_start cfg voting, fun _ _ hm => absurd hm not_mem_nil, once_start voting⟩ h
  exact hinv.2

/-- **A coordinator whose client heeds its refusals writes only under a number it won.**  Each write it sends carries a
number for which it received a quorum of `ACCEPT`s since a write of it was last refused, whatever it is called with and
whatever responses arrive; and in a cluster whose replicas keep their stored state no two coordinators write under one
number. -/
theorem writes_only_under_won :
    (∀ (quorum : Nat) (pre post : List Coordinator.Input) (x : Coordinator.Input) (request : WriteRequest),
      Run.Along (Candidate.step quorum) Candidate.Obeys {} (pre ++ x :: post) →
      ((pre.foldl (Candidate.step quorum) {}).client.step quorum x).2 = some (.write request) →
      Candidate.Won quorum (pre.foldl (Candidate.step quorum) {}).rounds request.proposal) ∧
    ∀ (cfg : Config ρ) (voting : ρ → Bool) (es : List (Event ρ)), Fintype.card ρ < 2 * cfg.quorum →
      Run.Along (step cfg) (fun w e => e.loses = false ∧ w.Heeds e) (start voting) es →
      ∀ c c' request request', (.coordinator c, .write request) ∈ ((start voting).run cfg es).requests →
        (.coordinator c', .write request') ∈ ((start voting).run cfg es).requests →
        request.proposal = request'.proposal → c = c' := by
  refine ⟨fun _ pre _ _ request h hw => Candidate.won_of_writes pre h hw,
    fun _ _ _ hq h c c' request request' hm hm' hn => ?_⟩
  obtain ⟨hwon, honce⟩ := writesWon_run h
  obtain ⟨_, -, he⟩ := hwon c request hm
  obtain ⟨_, -, he'⟩ := hwon c' request' hm'
  rw [← hn] at he'
  exact he.unique hq honce he'

instance : NeZero 3 := ⟨by decide⟩

def three : Config (Fin 3) := { quorum := 2, home := fun c => Fin.ofNat 3 c }

/-- Coordinator `0` wins `1` with replicas `0` and `1`, and fills the position `0` under `2`. -/
def firstElection : List (Event (Fin 3)) :=
  [.elect 0, .promised 0, .deliver 0 0, .deliver 0 1, .receive 0, .receive 1, .missing 0, .check (.coordinator 0),
   .deliver 1 0, .deliver 1 1, .receive 2, .receive 3, .deliver 2 0, .deliver 2 1, .receive 4, .receive 5,
   .learn 0 0, .learn 0 1, .learn 0 2, .filled (.coordinator 0), .check (.coordinator 0), .check (.coordinator 0)]

/-- Coordinator `1` wins `2` with replicas `1` and `2` while the other one is still elected. -/
def secondElection : List (Event (Fin 3)) :=
  [.elect 1, .promised 1, .deliver 3 1, .deliver 3 2, .receive 6, .receive 7, .missing 1, .check (.coordinator 1)]

theorem writes_only_under_won_two :
    (Run.Along (Candidate.step 1) Candidate.Obeys {} [.elect, .promised 4, .promiseResponse
        { okay := true, type := some .accept, proposal := 5, position := some 0 }, .missing [], .checked false 0,
        .append []] ∧ Candidate.Won 1 [(5, 1)] 5) ∧
    ∀ c c' request request', (.coordinator c, .write request) ∈
        (initialized.run three (firstElection ++ secondElection ++ [.append 0 [1], .append 1 [2]])).requests →
      (.coordinator c', .write request') ∈
        (initialized.run three (firstElection ++ secondElection ++ [.append 0 [1], .append 1 [2]])).requests →
      request.proposal = request'.proposal → c = c' :=
  ⟨⟨by decide +kernel, (writes_only_under_won (ρ := Fin 3)).1 1 [.elect, .promised 4, .promiseResponse
        { okay := true, type := some .accept, proposal := 5, position := some 0 }, .missing [], .checked false 0] []
        (.append []) { proposal := 5, position := 1, value := .append [] } (by decide +kernel) (by decide +kernel)⟩,
    (writes_only_under_won (ρ := Fin 3)).2 three (fun _ => true) _ (by decide) (by decide +kernel)⟩

/-- **A refused coordinator goes on under the number of its rejection.**  Coordinator `0` has its truncation refused under
`1` and truncates again, without being demoted: it writes under `2`, for which it never asked a promise and under which
coordinator `1` writes too. -/
theorem writes_under_rejection :
    let w := initialized.run three (firstElection ++ secondElection ++
      [.append 1 [7], .truncate 0 0, .deliver 5 1, .deliver 5 2, .receive 8, .receive 9, .truncate 0 0])
    (.coordinator 0, .write { proposal := 2, position := 1, value := .truncate 0 }) ∈ w.requests ∧
      (∀ x ∈ w.requests, x ≠ (.coordinator 0, .promise { proposal := 2 })) ∧
      (.coordinator 1, .write { proposal := 2, position := 1, value := .append [7] }) ∈ w.requests := by
  decide +kernel

end Cluster

end Clusterd.Log
