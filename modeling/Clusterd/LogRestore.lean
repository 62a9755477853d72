import Clusterd.LogReplica
import Mathlib.Data.Nat.Log
/-!
# What a replica's caches say about its storage

`holes`, `unlearned`, `beginning` and `ending` are caches of the records, kept message by message and rebuilt by `restore`.
`Replica.Wf` says what they tell (`Wf.read`, `Wf.missing`): between `beginning` and `ending` a hole is a position without a
record, an unlearned position one whose record is not learned.  Every handler keeps it, and so does a restart (`wf_restore`).
-/
namespace Clusterd.Log

open Log.Action Table LevelDb List Nat Finset

def LevelDb.record (db : LevelDb) (position : Nat) : Option Action := Table.get? Action.position position db.actions

def Replica.record (r : Replica) (position : Nat) : Option Action := r.storage.record position

structure LevelDb.Wf (db : LevelDb) : Prop where
  ascending : Table.Ascending Action.position db.actions
  first_le : ∀ a ∈ db.actions, ∃ f, db.first = some f ∧ f ≤ a.position

namespace LevelDb

theorem minFirst_le (first : Option Nat) (position : Nat) :
    ∃ f, minFirst first position = some f ∧ f ≤ position ∧ ∀ g, first = some g → f ≤ g := by
  cases first with
  | none => exact ⟨position, rfl, le_rfl, nofun⟩
  | some g => exact ⟨min g position, rfl, min_le_right _ _, fun _ h => by cases h; exact min_le_left _ _⟩

theorem mem_batch {f target p : Nat} : p ∈ batch f target ↔ f ≤ p ∧ p < target := by
  unfold batch
  rw [mem_range'_1]
  omega

variable {db : LevelDb}

theorem Wf.deleteTo (h : db.Wf) (target : Nat) : (db.deleteTo target).Wf := by
  unfold LevelDb.deleteTo
  cases hf : db.first with
  | none => exact h
  | some f =>
    simp only
    split
    · refine ⟨h.ascending.eraseAll, fun a ha => ⟨target, rfl, ?_⟩⟩
      have hr := (get?_eq_some h.ascending.eraseAll).2 ⟨ha, rfl⟩
      rw [get?_eraseAll] at hr
      split at hr
      · cases hr
      rename_i hb
      obtain ⟨ha', -⟩ := mem_of_get? hr
      obtain ⟨_, hf', hle⟩ := h.first_le a ha'
      rw [hf] at hf'
      cases hf'
      exact Nat.le_of_not_lt (fun hlt => hb (mem_batch.2 ⟨hle, hlt⟩))
    · exact h

theorem Wf.record_deleteTo (h : db.Wf) (target p : Nat) :
    (db.deleteTo target).record p = if p < target then none else db.record p := by
  have hno : ∀ f, db.first = some f → p < f → db.record p = none := fun f hf _ =>
    get?_eq_none.2 (fun a ha _ => by
      obtain ⟨_, hf', _⟩ := h.first_le a ha
      rw [hf] at hf'
      cases hf'
      omega)
  unfold LevelDb.deleteTo
  cases hf : db.first with
  | none =>
    have : db.record p = none := get?_eq_none.2 (fun a ha => by
      obtain ⟨f, hf', -⟩ := h.first_le a ha
      rw [hf] at hf'
      cases hf')
    simp [this]
  | some f =>
    simp only
    split
    next hlt =>
      show get? position p (eraseAll position (batch f target) db.actions) = _
      rw [get?_eraseAll]
      by_cases hpt : p < target
      · rw [if_pos hpt]
        by_cases hpf : p < f
        · rw [show get? position p db.actions = none from hno f hf hpf, ite_self]
        · rw [if_pos (mem_batch.2 ⟨by omega, hpt⟩)]
      · rw [if_neg hpt, if_neg (fun hm => hpt (mem_batch.1 hm).2)]
        rfl
    next hge =>
      by_cases hpt : p < target
      · rw [if_pos hpt, hno f hf (by omega)]
      · rw [if_neg hpt]

theorem Wf.put (h : db.Wf) (a : Action) : (db.put a).Wf := by
  obtain ⟨f, hf, hle, hmin⟩ := minFirst_le db.first a.position
  refine ⟨h.ascending.put, fun b hb => ⟨f, hf, ?_⟩⟩
  rcases mem_put hb with rfl | hb
  · exact hle
  · obtain ⟨g, hg, hgb⟩ := h.first_le b hb
    exact le_trans (hmin g hg) hgb

theorem Wf.persist (h : db.Wf) (a : Action) : (db.persist a).Wf := by
  unfold LevelDb.persist
  cases truncateTo a with
  | none => exact h.put a
  | some target => exact (h.put a).deleteTo target

/-- **Persisting stores the action at its position and drops what it truncates.** -/
theorem Wf.record_persist (h : db.Wf) (a : Action) (p : Nat) : (db.persist a).record p =
      if p < (truncateTo a).getD 0 then none else if p = a.position then some a else db.record p := by
  have hput : (db.put a).record p = if p = a.position then some a else db.record p :=
    get?_put a p db.actions h.ascending
  unfold LevelDb.persist
  cases truncateTo a with
  | none => simpa using hput
  | some target =>
    simp only [Option.getD_some]
    rw [(h.put a).record_deleteTo target p, hput]

theorem Wf.persistMetadata (h : db.Wf) (m : Metadata) : (db.persistMetadata m).Wf :=
  ⟨h.ascending, h.first_le⟩

@[simp] theorem put_header (db : LevelDb) (a : Action) : (db.put a).header = db.header := rfl

@[simp] theorem deleteTo_header (db : LevelDb) (target : Nat) : (db.deleteTo target).header = db.header := by
  unfold deleteTo
  split
  · rfl
  · split <;> rfl

@[simp] theorem persist_header (db : LevelDb) (a : Action) : (db.persist a).header = db.header := by
  unfold persist
  cases truncateTo a with
  | none => rfl
  | some => simp

end LevelDb

theorem Action.truncateTo_le (a : Action) : (truncateTo a).getD 0 ≤ a.truncatesTo := by
  unfold truncateTo truncatesTo
  split <;> simp_all

/-- **What the caches tell**: see the module's head. -/
structure Replica.Wf (r : Replica) : Prop where
  storage : r.storage.Wf
  header : LevelDb.restoreHeader r.storage.header = r.metadata
  le_ending : ∀ a ∈ r.storage.actions, a.position ≤ r.ending
  truncates_le : ∀ a ∈ r.storage.actions, a.truncatesTo ≤ r.beginning
  holes : ∀ p, r.beginning ≤ p → p ≤ r.ending → (p ∈ r.holes ↔ r.record p = none)
  unlearned : ∀ p, r.beginning ≤ p → p ≤ r.ending →
    (p ∈ r.unlearned ↔ ∃ a, r.record p = some a ∧ a.learned = false)
  unlearned_le : ∀ p ∈ r.unlearned, p ≤ r.ending

namespace Replica

variable {r : Replica}

theorem Wf.mem_of_record (h : r.Wf) {p : Nat} {a : Action} :
    r.record p = some a ↔ a ∈ r.storage.actions ∧ a.position = p :=
  get?_eq_some h.storage.ascending

theorem Wf.record_of_ending_lt (h : r.Wf) {p : Nat} (hp : r.ending < p) : r.record p = none :=
  get?_eq_none.2 (fun a ha => by have := h.le_ending a ha; omega)

/-- **A read is the record, from `beginning` on.** -/
theorem Wf.read (h : r.Wf) (p : Nat) :
    r.read p = if p < r.beginning then .error "Attempted to read truncated position" else .ok (r.record p) := by
  unfold Replica.read
  by_cases hb : p < r.beginning
  · rw [if_pos hb, if_pos hb]
  by_cases he : r.ending < p
  · rw [if_pos he, h.record_of_ending_lt he]
  rw [if_neg he]
  have hh := h.holes p (by omega) (by omega)
  by_cases hm : p ∈ r.holes
  · rw [if_pos hm, hh.1 hm]
  rw [if_neg hm]
  have hs : r.record p ≠ none := fun hn => hm (hh.2 hn)
  obtain ⟨a, ha⟩ := Option.ne_none_iff_exists'.1 hs
  have hr : r.storage.read p = .ok a := by
    unfold LevelDb.read
    rw [show get? position p r.storage.actions = some a from ha]
  rw [hr, ha]

/-- **A position is missing when it is not truncated and has no learned record.** -/
theorem Wf.missing (h : r.Wf) (p : Nat) :
    r.missing p = true ↔ r.beginning ≤ p ∧ ∀ a, r.record p = some a → a.learned = false := by
  unfold Replica.missing
  by_cases hb : p < r.beginning
  · simp; omega
  rw [if_neg hb]
  by_cases he : r.ending < p
  · rw [h.record_of_ending_lt he]
    simp; omega
  rw [if_neg he, Bool.or_eq_true, decide_eq_true_iff, decide_eq_true_iff, h.holes p (by omega) (by omega),
    h.unlearned p (by omega) (by omega)]
  cases hr : r.record p with
  | none | some => simp; omega

section
variable (r : Replica) (a : Action)

@[simp] theorem persist_storage : (r.persist a).storage = r.storage.persist a := rfl

@[simp] theorem persist_metadata : (r.persist a).metadata = r.metadata := rfl

@[simp] theorem persist_ending : (r.persist a).ending = max r.ending a.position := rfl

@[simp] theorem persist_beginning : (r.persist a).beginning = max r.beginning a.truncatesTo := by
  unfold persist truncatesTo
  rcases a with ⟨pos, pr, pf, _ | _, _ | ⟨_ | _⟩ | _ | _⟩ <;> simp

theorem persist_holes (p : Nat) (hp : a.truncatesTo ≤ p) : p ∈ (r.persist a).holes ↔
      (p ≠ a.position ∧ p ∈ r.holes) ∨ (r.ending < p ∧ p < a.position) := by
  unfold persist
  unfold truncatesTo at hp
  rcases a with ⟨pos, pr, pf, _ | _, _ | ⟨_ | _⟩ | _ | _⟩ <;> simp only [Bool.false_eq_true, if_false, if_true] at hp ⊢ <;>
    by_cases he : r.ending < pos <;> simp [he] <;> grind

theorem persist_unlearned (p : Nat) (hp : a.truncatesTo ≤ p) : p ∈ (r.persist a).unlearned ↔
      if p = a.position then a.learned = false else p ∈ r.unlearned := by
  unfold persist
  unfold truncatesTo at hp
  rcases a with ⟨pos, pr, pf, _ | _, _ | ⟨_ | _⟩ | _ | _⟩ <;> simp only [Bool.false_eq_true, if_false, if_true] at hp ⊢ <;>
    by_cases he : p = pos <;> simp [he] <;> grind

theorem persist_unlearned_sub (p : Nat) (hp : p ∈ (r.persist a).unlearned) : p = a.position ∨ p ∈ r.unlearned := by
  unfold persist at hp
  rcases a with ⟨pos, pr, pf, _ | _, _ | ⟨_ | _⟩ | _ | _⟩ <;>
    simp only [Bool.false_eq_true, if_false, if_true, mem_insert, mem_erase, mem_sdiff] at hp <;>
    tauto

end

theorem Wf.record_persist (h : r.Wf) (a : Action) (p : Nat) (hp : (r.persist a).beginning ≤ p) :
    (r.persist a).record p = if p = a.position then some a else r.record p := by
  have hle := a.truncateTo_le
  rw [persist_beginning] at hp
  show (r.storage.persist a).record p = _
  rw [h.storage.record_persist a p, if_neg (by omega)]
  rfl

theorem LevelDb.mem_persist {db : LevelDb} (h : db.Wf) {a b : Action} (hb : b ∈ (db.persist a).actions) :
    b = a ∨ b ∈ db.actions ∧ b.position ≠ a.position ∧ a.truncatesTo ≤ b.position := by
  have hr := (get?_eq_some (h.persist a).ascending).2 ⟨hb, rfl⟩
  have := h.record_persist a b.position
  rw [show (db.persist a).record b.position = some b from hr] at this
  split at this
  · cases this
  next hlt =>
    split at this
    · left; cases this; rfl
    next hne =>
      refine .inr ⟨(mem_of_get? this.symm).1, hne, ?_⟩
      unfold truncateTo at hlt
      unfold truncatesTo
      grind

theorem Wf.persist (h : r.Wf) (a : Action) : (r.persist a).Wf := by
  refine ⟨h.storage.persist a, ?_, ?_, ?_, ?_, ?_, ?_⟩
  · simpa using h.header
  · intro b hb
    rw [persist_ending]
    rcases LevelDb.mem_persist h.storage hb with rfl | ⟨hb, -⟩
    · omega
    · have := h.le_ending b hb; omega
  · intro b hb
    rw [persist_beginning]
    rcases LevelDb.mem_persist h.storage hb with rfl | ⟨hb, -⟩
    · omega
    · have := h.truncates_le b hb; omega
  · intro p hb he
    rw [h.record_persist a p hb]
    rw [persist_beginning] at hb
    rw [persist_ending] at he
    rw [persist_holes r a p (by omega)]
    by_cases hp : p = a.position
    · simp [hp]
    rw [if_neg hp]
    by_cases hpe : p ≤ r.ending
    · rw [← h.holes p (by omega) hpe]
      constructor
      · rintro (⟨-, hm⟩ | ⟨_, -⟩)
        · exact hm
        · omega
      · exact fun hm => .inl ⟨hp, hm⟩
    · rw [h.record_of_ending_lt (by omega)]
      simp; omega
  · intro p hb _
    rw [h.record_persist a p hb]
    rw [persist_beginning] at hb
    rw [persist_unlearned r a p (by omega)]
    by_cases hp : p = a.position
    · simp [hp]
    rw [if_neg hp, if_neg hp]
    by_cases hpe : p ≤ r.ending
    · exact h.unlearned p (by omega) hpe
    · rw [h.record_of_ending_lt (by omega)]
      have : p ∉ r.unlearned := fun hm => hpe (h.unlearned_le p hm)
      simp [this]
  · intro p hp
    rw [persist_ending]
    rcases persist_unlearned_sub r a p hp with rfl | hp
    · omega
    · have := h.unlearned_le p hp; omega

theorem Wf.updatePromised (h : r.Wf) (n : Nat) : (r.updatePromised n).Wf :=
  ⟨h.storage.persistMetadata _, rfl, h.le_ending, h.truncates_le, h.holes, h.unlearned, h.unlearned_le⟩

theorem Wf.update (h : r.Wf) (status : Status) : (r.update status).Wf :=
  ⟨h.storage.persistMetadata _, rfl, h.le_ending, h.truncates_le, h.holes, h.unlearned, h.unlearned_le⟩

end Replica

/-! ## Reading the records back -/

theorem foldl_max_spec {α : Type} (f : α → Nat) : ∀ (l : List α) (m : Nat),
    m ≤ l.foldl (fun m a => max m (f a)) m ∧ (∀ a ∈ l, f a ≤ l.foldl (fun m a => max m (f a)) m) ∧
      (l.foldl (fun m a => max m (f a)) m = m ∨ ∃ a ∈ l, f a = l.foldl (fun m a => max m (f a)) m)
  | [], m => ⟨le_rfl, by simp, .inl rfl⟩
  | a :: l, m => by
    obtain ⟨_, h2, h3⟩ := foldl_max_spec f l (max m (f a))
    rw [foldl_cons]
    refine ⟨by omega, fun b hb => ?_, ?_⟩
    · rcases mem_cons.1 hb with rfl | hb
      · omega
      · exact h2 b hb
    · rcases h3 with h3 | ⟨b, hb, h3⟩
      · rcases le_total (f a) m with hle | hle
        · left; omega
        · right; exact ⟨a, mem_cons_self, by omega⟩
      · right; exact ⟨b, mem_cons_of_mem _ hb, h3⟩

namespace LevelDb

variable (st : State) (a : Action)
include st a

theorem restoreAction_beginning : (restoreAction st a).beginning = max st.beginning a.truncatesTo := by
  unfold restoreAction truncatesTo
  rcases a with ⟨pos, pr, pf, _ | _, _ | ⟨_ | _⟩ | _ | _⟩ <;> simp

theorem restoreAction_ending : (restoreAction st a).ending = max st.ending a.position := by
  unfold restoreAction
  split <;> rfl

theorem restoreAction_metadata : (restoreAction st a).metadata = st.metadata := by
  unfold restoreAction
  split <;> rfl

theorem restoreAction_learned (p : Nat) :
    p ∈ (restoreAction st a).learned ↔ if p = a.position then a.learned = true else p ∈ st.learned := by
  unfold restoreAction
  cases ha : a.learned <;> by_cases hp : p = a.position <;> simp [hp]

theorem restoreAction_unlearned (p : Nat) :
    p ∈ (restoreAction st a).unlearned ↔ if p = a.position then a.learned = false else p ∈ st.unlearned := by
  unfold restoreAction
  cases ha : a.learned <;> by_cases hp : p = a.position <;> simp [hp]

omit st a

theorem foldl_beginning (l : List Action) (st : State) :
    (l.foldl restoreAction st).beginning = l.foldl (fun m a => max m a.truncatesTo) st.beginning :=
  (foldl_hom _ fun st a => (restoreAction_beginning st a).symm).symm

theorem foldl_ending (l : List Action) (st : State) :
    (l.foldl restoreAction st).ending = l.foldl (fun m a => max m a.position) st.ending :=
  (foldl_hom _ fun st a => (restoreAction_ending st a).symm).symm

theorem foldl_metadata : ∀ (l : List Action) (st : State), (l.foldl restoreAction st).metadata = st.metadata
  | [], _ => rfl
  | a :: l, st => by rw [foldl_cons, foldl_metadata l, restoreAction_metadata]

theorem get?_cons (a : Action) (l : List Action) (p : Nat) :
    get? position p (a :: l) = if p = a.position then some a else get? position p l := by
  unfold get?
  by_cases hp : p = a.position
  · simp [hp]
  · have : (a.position == p) = false := by simpa using Ne.symm hp
    simp [hp, this]

theorem foldl_learned (p : Nat) : ∀ (l : List Action) (st : State), Table.Ascending position l →
    (p ∈ (l.foldl restoreAction st).learned ↔
      match get? position p l with | some a => a.learned = true | none => p ∈ st.learned) ∧
    (p ∈ (l.foldl restoreAction st).unlearned ↔
      match get? position p l with | some a => a.learned = false | none => p ∈ st.unlearned)
  | [], _, _ => ⟨.rfl, .rfl⟩
  | a :: l, st, h => by
    have ha := pairwise_cons.1 h
    obtain ⟨h1, h2⟩ := foldl_learned p l (restoreAction st a) ha.2
    rw [foldl_cons, h1, h2, get?_cons]
    by_cases hp : p = a.position
    · have hn : get? position p l = none :=
        get?_eq_none.2 (fun b hb => by have := ha.1 b hb; omega)
      rw [hn, if_pos hp]
      rw [restoreAction_learned, restoreAction_unlearned, if_pos hp, if_pos hp]
      exact ⟨.rfl, .rfl⟩
    · rw [if_neg hp]
      cases hg : get? position p l with
      | none =>
        rw [restoreAction_learned, restoreAction_unlearned, if_neg hp, if_neg hp]
        exact ⟨.rfl, .rfl⟩
      | some => exact ⟨.rfl, .rfl⟩

theorem foldl_minFirst : ∀ (l : List Action) (first : Option Nat), ∃ f : Option Nat,
    l.foldl (fun f a => minFirst f a.position) first = f ∧ (∀ g, first = some g → ∃ k, f = some k ∧ k ≤ g) ∧
      ∀ a ∈ l, ∃ k, f = some k ∧ k ≤ a.position
  | [], first => ⟨first, rfl, fun g h => ⟨g, h, le_rfl⟩, by simp⟩
  | a :: l, first => by
    obtain ⟨m, hm, hle, hmin⟩ := minFirst_le first a.position
    obtain ⟨f, hf, hfi, hl⟩ := foldl_minFirst l (minFirst first a.position)
    obtain ⟨k, hk, hkm⟩ := hfi m hm
    refine ⟨f, hf, fun g hg => ⟨k, hk, hkm.trans (hmin g hg)⟩, fun b hb => ?_⟩
    rcases mem_cons.1 hb with rfl | hb
    · exact ⟨k, hk, hkm.trans hle⟩
    · exact hl b hb

end LevelDb

namespace Replica

theorem restore_unlearned {db : LevelDb} (h : Table.Ascending position db.actions) (p : Nat) :
    p ∈ (restore db).unlearned ↔ ∃ a, db.record p = some a ∧ a.learned = false := by
  refine (foldl_learned p db.actions { metadata := restoreHeader db.header } h).2.trans ?_
  show _ ↔ ∃ a, get? position p db.actions = some a ∧ _
  cases get? position p db.actions with
  | none | some => simp

/-- **A restart rebuilds caches that tell what the records hold.** -/
theorem wf_restore {db : LevelDb} (h : Table.Ascending position db.actions) : (restore db).Wf := by
  obtain ⟨_, hf, -, hl⟩ := foldl_minFirst db.actions none
  have hb : (restore db).beginning = db.actions.foldl (fun m a => max m a.truncatesTo) 0 :=
    foldl_beginning _ _
  have he : (restore db).ending = db.actions.foldl (fun m a => max m a.position) 0 := foldl_ending _ _
  have hlea := fun p => foldl_learned p db.actions { metadata := restoreHeader db.header } h
  have hun := restore_unlearned h
  refine ⟨⟨h, fun a ha => ?_⟩, ?_, ?_, ?_, ?_, fun p _ _ => hun p, ?_⟩
  · obtain ⟨k, hk, hle⟩ := hl a ha
    exact ⟨k, hf.trans hk, hle⟩
  · exact (foldl_metadata db.actions { metadata := restoreHeader db.header }).symm
  · intro a ha
    rw [he]
    exact (foldl_max_spec position db.actions 0).2.1 a ha
  · intro a ha
    rw [hb]
    exact (foldl_max_spec truncatesTo db.actions 0).2.1 a ha
  · intro p hbp hpe
    show p ∈ (Icc _ _ \ _) \ (restore db).unlearned ↔ _
    rw [mem_sdiff, mem_sdiff, hun, (hlea p).1]
    show _ ↔ get? position p db.actions = none
    have hm : p ∈ Icc (restore db).beginning (restore db).ending := mem_Icc.2 ⟨hbp, hpe⟩
    show (p ∈ Icc (restore db).beginning (restore db).ending ∧ _) ∧
      ¬ (∃ a, get? position p db.actions = some a ∧ _) ↔ _
    cases hg : get? position p db.actions with
    | none => simp [hm]
    | some a => cases hla : a.learned <;> simp [hla]
  · intro p hp
    obtain ⟨a, ha, -⟩ := (hun p).1 hp
    obtain ⟨hmem, rfl⟩ := mem_of_get? ha
    rw [he]
    exact (foldl_max_spec position db.actions 0).2.1 a hmem

theorem restore_ending_spec (db : LevelDb) :
    (restore db).ending = 0 ∨ ∃ a ∈ db.actions, a.position = (restore db).ending := by
  have he : (restore db).ending = db.actions.foldl (fun m a => max m a.position) 0 := foldl_ending _ _
  rw [he]
  exact (foldl_max_spec position db.actions 0).2.2

theorem restore_beginning_spec (db : LevelDb) :
    (restore db).beginning = 0 ∨ ∃ a ∈ db.actions, a.truncatesTo = (restore db).beginning := by
  have hb : (restore db).beginning = db.actions.foldl (fun m a => max m a.truncatesTo) 0 :=
    foldl_beginning _ _
  rw [hb]
  exact (foldl_max_spec truncatesTo db.actions 0).2.2

@[simp] theorem restore_metadata (db : LevelDb) : (restore db).metadata = restoreHeader db.header :=
  foldl_metadata _ _

end Replica

/-!
# What the handlers can do

Every outcome of a promise and of a write request, with the guard that leads to it, once and for all: the invariants of
the protocol are case analyses over `PromiseOutcome` and `WriteOutcome`.
-/
namespace Replica

section

variable (r : Replica) (request : PromiseRequest)

inductive PromiseOutcome : Replica → Option PromiseResponse → Prop
  | ignored : r.status ≠ .voting →
      PromiseOutcome r (some { type := some .ignored, okay := false, proposal := request.proposal })
  | truncated (p : Nat) : r.status = .voting → request.position = some p → p < r.beginning →
      PromiseOutcome r (some
        { type := some .accept, okay := true, proposal := request.proposal, action := some (r.tombstone p) })
  | refusedFresh (p : Nat) : r.status = .voting → request.position = some p → r.beginning ≤ p → r.record p = none →
      request.proposal ≤ r.promised →
      PromiseOutcome r (some { type := some .reject, okay := false, proposal := r.promised })
  | grantedFresh (p : Nat) : r.status = .voting → request.position = some p → r.beginning ≤ p → r.record p = none →
      r.promised < request.proposal →
      PromiseOutcome (r.persist { position := p, promised := request.proposal }) (some
        { type := some .accept, okay := true, proposal := request.proposal, position := some p })
  | refused (p : Nat) (a : Action) : r.status = .voting → request.position = some p → r.beginning ≤ p →
      r.record p = some a → request.proposal ≤ a.promised →
      PromiseOutcome r (some { type := some .reject, okay := false, proposal := a.promised })
  | granted (p : Nat) (a : Action) : r.status = .voting → request.position = some p → r.beginning ≤ p →
      r.record p = some a → a.promised < request.proposal →
      PromiseOutcome (r.persist { a with promised := request.proposal }) (some
        { type := some .accept, okay := true, proposal := request.proposal, action := some a })
  | refusedImplicit : r.status = .voting → request.position = none → request.proposal ≤ r.promised →
      PromiseOutcome r (some { type := some .reject, okay := false, proposal := r.promised })
  | grantedImplicit : r.status = .voting → request.position = none → r.promised < request.proposal →
      PromiseOutcome (r.updatePromised request.proposal) (some
        { type := some .accept, okay := true, proposal := request.proposal, position := some r.ending })

end

theorem Wf.promise {r : Replica} (h : r.Wf) (request : PromiseRequest) :
    PromiseOutcome r request (r.promise request).1 (r.promise request).2 := by
  unfold Replica.promise
  by_cases hs : r.status = .voting
  · rw [if_neg (not_not.2 hs)]
    cases hp : request.position with
    | none =>
      simp only
      split
      · exact .refusedImplicit hs hp ‹_›
      · exact .grantedImplicit hs hp (by omega)
    | some p =>
      simp only
      split
      · exact .truncated p hs hp ‹_›
      rename_i hb
      rw [h.read p, if_neg hb]
      cases hr : r.record p with
      | none =>
        simp only
        split
        · exact .refusedFresh p hs hp (by omega) hr ‹_›
        · exact .grantedFresh p hs hp (by omega) hr (by omega)
      | some a =>
        simp only
        split
        · exact .refused p a hs hp (by omega) hr ‹_›
        · exact .granted p a hs hp (by omega) hr (by omega)
  · rw [if_pos hs]
    exact .ignored hs

def written (request : WriteRequest) (promised : Nat) : Action :=
  { position := request.position
    promised := promised
    performed := some request.proposal
    learned := request.learned
    value := some (writtenValue request.value) }

@[simp] theorem written_position (request : WriteRequest) (promised : Nat) :
    (written request promised).position = request.position := rfl

section

variable (r : Replica) (request : WriteRequest)

inductive WriteOutcome : Replica → Option WriteResponse → Prop
  | ignored : r.status ≠ .voting → WriteOutcome r (some
      { type := some .ignored, okay := false, proposal := request.proposal, position := request.position })
  | truncated : r.status = .voting → request.position < r.beginning → WriteOutcome r none
  | refusedFresh : r.status = .voting → r.beginning ≤ request.position → r.record request.position = none →
      request.proposal < r.promised → WriteOutcome r (some
        { type := some .reject, okay := false, proposal := r.promised, position := request.position })
  | acceptedFresh : r.status = .voting → r.beginning ≤ request.position → r.record request.position = none →
      r.promised ≤ request.proposal → WriteOutcome (r.persist (written request r.promised)) (some
        { type := some .accept, okay := true, proposal := request.proposal, position := request.position })
  | refused (a : Action) : r.status = .voting → r.beginning ≤ request.position →
      r.record request.position = some a → request.proposal < a.promised → WriteOutcome r (some
        { type := some .reject, okay := false, proposal := a.promised, position := request.position })
  | alreadyLearned (a : Action) : r.status = .voting → r.beginning ≤ request.position →
      r.record request.position = some a → a.learned = true → WriteOutcome r none
  | accepted (a : Action) : r.status = .voting → r.beginning ≤ request.position →
      r.record request.position = some a → a.promised ≤ request.proposal → a.learned = false →
      WriteOutcome (r.persist (written request a.promised)) (some
        { type := some .accept, okay := true, proposal := request.proposal, position := request.position })

end

theorem Wf.write {r : Replica} (h : r.Wf) (request : WriteRequest) :
    WriteOutcome r request (r.write request).1 (r.write request).2 := by
  unfold Replica.write
  by_cases hs : r.status = .voting
  · rw [if_neg (not_not.2 hs), h.read request.position]
    by_cases hb : request.position < r.beginning
    · rw [if_pos hb]
      exact .truncated hs hb
    rw [if_neg hb]
    cases hr : r.record request.position with
    | none =>
      simp only
      split
      · exact .refusedFresh hs (by omega) hr ‹_›
      · exact .acceptedFresh hs (by omega) hr (by omega)
    | some a =>
      simp only
      split
      · exact .refused a hs (by omega) hr ‹_›
      rename_i hlt
      split
      · exact .alreadyLearned a hs (by omega) hr ‹_›
      rename_i hl
      have hpos : a.position = request.position := (h.mem_of_record.1 hr).2
      have ho := WriteOutcome.accepted a hs (by omega) hr (by omega) (by simpa using hl)
      simpa only [written, ← hpos] using ho
  · rw [if_pos hs]
    exact .ignored hs

end Replica

/-! ## The keys of the positions -/

namespace LevelDb

/-- The last `width` decimal digits. -/
def digits : Nat → Nat → List Char
  | 0, _ => []
  | width + 1, n => Nat.digitChar (n / 10 ^ width % 10) :: digits width n

/-- `%.*llu`: every digit, and zeros before them up to the precision. -/
def format (precision n : Nat) : List Char := digits (max precision (Nat.log 10 n + 1)) n

def key (position : Nat) : List Char :=
  if position ≤ 9999999999 then format 10 position else 'A' :: format 20 position

/-- `encode`; `none` if the `CHECK` fails. -/
def encode (position : Nat) (adjust : Bool) : Option (List Char) :=
  if !adjust then some (key position)
  else if position < 2 ^ 64 - 1 then some (key (position + 1))
  else none

theorem digits_lt : ∀ {width m n : Nat}, m % 10 ^ width < n % 10 ^ width → digits width m < digits width n
  | 0, m, n, h => by simp [mod_one] at h
  | width + 1, m, n, h => by
    have hd : ∀ a < 10, ∀ b < 10, a < b → digitChar a < digitChar b := by decide
    have hw : 0 < 10 ^ width := Nat.pow_pos (by decide)
    have hm := mod_lt m hw
    rw [mod_pow_succ, mod_pow_succ] at h
    rcases lt_trichotomy (m / 10 ^ width % 10) (n / 10 ^ width % 10) with hlt | heq | hgt
    · exact .rel (hd _ (mod_lt _ (by decide)) _ (mod_lt _ (by decide)) hlt)
    · rw [heq] at h
      rw [digits, digits, heq]
      exact .cons (digits_lt (by omega))
    · have hle := mul_le_mul_left (10 ^ width) hgt
      have hn := mod_lt n hw
      rw [mul_succ] at hle
      omega

theorem format_lt {precision m n : Nat} (hmn : m < n) (hn : n < 10 ^ precision) :
    format precision m < format precision n := by
  have hp : precision ≠ 0 := by
    rintro rfl
    omega
  have hmax : ∀ k < 10 ^ precision, max precision (log 10 k + 1) = precision := fun k hk =>
    max_eq_left (log_lt_of_lt_pow' hp hk)
  rw [format, format, hmax m (hmn.trans hn), hmax n hn]
  apply digits_lt
  rwa [mod_eq_of_lt hn, mod_eq_of_lt (hmn.trans hn)]

theorem key_lt {m n : Nat} (hmn : m < n) (hn : n < 2 ^ 64) : key m < key n := by
  unfold key
  split_ifs with hm hn'
  · exact format_lt hmn (by omega)
  · -- The first key starts with a digit.
    have hd : ∀ a < 10, digitChar a < 'A' := by decide
    obtain ⟨width, hw⟩ := Nat.exists_eq_add_of_le' (show 1 ≤ max 10 (Nat.log 10 m + 1) by omega)
    rw [format, hw]
    exact .rel (hd _ (mod_lt _ (by decide)))
  · omega
  · exact .cons (format_lt hmn (by omega))

/-- **The keys order like the positions**, no two are equal, and none is the key of the metadata. -/
theorem keys_ordered :
    (∀ i j, i < j → j < 2 ^ 64 - 1 → ∃ k l, encode i true = some k ∧ encode j true = some l ∧ k < l) ∧
    (∀ i j, i < 2 ^ 64 - 1 → j < 2 ^ 64 - 1 → encode i true = encode j true → i = j) ∧
    ∀ i, encode i true ≠ encode 0 false := by
  have hen : ∀ i < 2 ^ 64 - 1, encode i true = some (key (i + 1)) := fun i hi => if_pos hi
  have hne : ∀ {m n}, m < n → n < 2 ^ 64 → key m ≠ key n := fun hmn hn h =>
    List.lt_irrefl _ (h ▸ key_lt hmn hn)
  refine ⟨fun i j hij hj => ⟨_, _, hen i (hij.trans hj), hen j hj, key_lt (by omega) (by omega)⟩,
    fun i j hi hj h => ?_, fun i h => ?_⟩
  · rw [hen i hi, hen j hj] at h
    rcases lt_trichotomy i j with hij | hij | hij
    · exact absurd (Option.some.inj h) (hne (by omega) (by omega))
    · exact hij
    · exact absurd (Option.some.inj h).symm (hne (by omega) (by omega))
  · by_cases hi : i < 2 ^ 64 - 1
    · rw [hen i hi] at h
      exact hne (Nat.succ_pos i) (by omega) (Option.some.inj h).symm
    · rw [encode, if_neg (by decide), if_neg hi] at h
      exact nomatch h

/-! ## The calls on the storage -/

inductive Call where
  | persist (action : Action)
  | persistMetadata (metadata : Metadata)
  | restore

def call (db : LevelDb) : Call → LevelDb
  | .persist action => db.persist action
  | .persistMetadata metadata => db.persistMetadata metadata
  | .restore => db.restore.2

def after (calls : List Call) : LevelDb := calls.foldl call {}

theorem wf_after (calls : List Call) : (after calls).Wf := by
  refine foldlRecOn (motive := LevelDb.Wf) calls call ⟨.nil, nofun⟩ fun db h c _ => ?_
  cases c with
  | persist action => exact h.persist action
  | persistMetadata metadata => exact h.persistMetadata metadata
  | restore => exact (Replica.wf_restore h.ascending).storage

/-- **A truncation leaves nothing behind.**  After any calls `first` is at most every stored position, and so an action
is stored without a record before the position it truncates to, and with every other record left as it was. -/
theorem truncation_exact (calls : List Call) :
    (∀ stored ∈ (after calls).actions, ∃ first, (after calls).first = some first ∧ first ≤ stored.position) ∧
    ∀ action position, ((after calls).persist action).record position =
      if position < (truncateTo action).getD 0 then none
      else if position = action.position then some action
      else (after calls).record position :=
  ⟨(wf_after calls).first_le, (wf_after calls).record_persist⟩

end LevelDb

end Clusterd.Log
