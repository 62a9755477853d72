import Clusterd.MasterOperations
import Clusterd.Run
/-!
# The three lists of agents

If an agent is admitted only when it is in no other list, and brought back only when it is not gone, every id is in one
list at most, and once; and the accumulator holds the admitted ids.
-/
namespace Clusterd.Master

open List Batch Registry

/-! ## Ids of changed lists -/

variable {α : Type} {l : List α}

theorem map_eraseP (id : α → SlaveID) (x : SlaveID) : ∀ l : List α,
    (l.eraseP fun a => decide (id a = x)).map id = (l.map id).erase x
  | [] => rfl
  | a :: l => by
    by_cases h : id a = x
    · simp [h]
    · rw [eraseP_cons_of_neg (by simpa using h), map_cons, map_cons,
        erase_cons_tail (by simpa using h), map_eraseP id x l]

/-- An element is as it was, or is changed by `f` where `p` holds. -/
def Changed (p : α → Bool) (f : α → α) (a b : α) : Prop := b = a ∨ p a = true ∧ b = f a

theorem modifyFirst_changed (p : α → Bool) (f : α → α) : ∀ l : List α, Forall₂ (Changed p f) l (modifyFirst p f l)
  | [] => .nil
  | a :: l => by
    unfold modifyFirst
    split
    next hp => exact .cons (.inr ⟨hp, rfl⟩) (forall₂_same.2 fun _ _ => .inl rfl)
    · exact .cons (.inl rfl) (modifyFirst_changed p f l)

theorem reactivateScan_changed (target deactivated : α → Bool) (clear : α → α) : ∀ (l : List α) (found more : Bool),
    Forall₂ (Changed target clear) l (reactivateScan target deactivated clear l found more).1
  | [], _, _ => .nil
  | a :: l, found, more => by
    have hs : Forall₂ (Changed target clear) l l := forall₂_same.2 fun _ _ => .inl rfl
    have ih := reactivateScan_changed target deactivated clear l
    unfold reactivateScan
    split
    next ha =>
      split
      · exact .cons (.inr ⟨ha, rfl⟩) hs
      · exact .cons (.inr ⟨ha, rfl⟩) (ih _ _)
    · split
      · split
        · exact .cons (.inl rfl) hs
        · exact .cons (.inl rfl) (ih _ _)
      · exact .cons (.inl rfl) (ih _ _)

theorem map_changed {β : Type} {p : α → Bool} {f : α → α} {g : α → β} {l' : List α} (hc : Forall₂ (Changed p f) l l')
    (h : ∀ a, p a = true → g (f a) = g a) : l'.map g = l.map g := by
  induction hc with
  | nil => rfl
  | cons ha _ ih =>
    rw [map_cons, map_cons, ih]
    rcases ha with rfl | ⟨hp, rfl⟩
    · rfl
    · rw [h _ hp]

theorem deleteSubrange_sublist {xs ys : List α} {start num : Nat} (h : deleteSubrange xs start num = some ys) :
    ys.Sublist xs := by
  unfold deleteSubrange at h
  split at h
  · cases h
    conv => rhs; rw [← take_append_drop start xs]
    refine List.Sublist.append_left ?_ _
    rw [← drop_drop]
    exact drop_sublist _ _
  · cases h

theorem pruneLoop_sublist {toRemove : List SlaveID} {id : α → SlaveID} : ∀ (fuel i : Nat) {xs ys : List α}
    {mutate mutate' : Bool}, pruneLoop toRemove id fuel i xs mutate = some (ys, mutate') → ys.Sublist xs
  | 0, _, xs, ys, _, _, h => by
    cases h
    exact List.Sublist.refl _
  | fuel + 1, i, xs, ys, mutate, mutate', h => by
    unfold pruneLoop at h
    split at h
    · cases h
      exact List.Sublist.refl _
    split at h
    · split at h
      · cases h
      next hd =>
        exact (pruneLoop_sublist fuel i h).trans (deleteSubrange_sublist hd)
    · exact pruneLoop_sublist fuel (i + 1) h

/-! ## What an operation does to the ids -/

def Registry.unreachableIds (r : Registry) : List SlaveID := r.unreachable.map (·.id)

def Registry.goneIds (r : Registry) : List SlaveID := r.gone.map (·.id)

def Registry.occurrences (r : Registry) (id : SlaveID) : Nat :=
  r.admitted.count id + r.unreachableIds.count id + r.goneIds.count id

theorem admitted_modifyFirst {f : Slave → Slave} {p : Slave → Bool} (r : Registry)
    (h : ∀ s, p s = true → (f s).info.id = s.info.id) :
    admitted { r with slaves := modifyFirst p f r.slaves } = r.admitted :=
  map_changed (modifyFirst_changed p f r.slaves) h

theorem admitted_eraseP (r : Registry) (id : SlaveID) :
    admitted { r with slaves := r.slaves.eraseP (·.info.id = id) } = r.admitted.erase id :=
  map_eraseP (fun s : Slave => s.info.id) id r.slaves

theorem unreachableIds_eraseP (r : Registry) (id : SlaveID) :
    unreachableIds { r with unreachable := r.unreachable.eraseP (·.id = id) } = r.unreachableIds.erase id :=
  map_eraseP UnreachableSlave.id id r.unreachable

/-- The state of one agent is changed by `f`, wherever it is listed. -/
structure Restated (id : SlaveID) (f : Draining → Draining) (r r' : Registry) : Prop where
  slaves : Forall₂ (Changed (·.info.id = id) (Slave.change f)) r.slaves r'.slaves
  unreachable : Forall₂ (Changed (·.id = id) (UnreachableSlave.change f)) r.unreachable r'.unreachable
  gone : r'.gone = r.gone

section

variable {id : SlaveID} {f : Draining → Draining} {r r' : Registry} {capabilities : List String}

theorem restated_changeAgent {ids : Finset SlaveID} :
    Restated id f r { (changeAgent id f r ids).1 with minimumCapabilities := capabilities } := by
  unfold changeAgent
  split
  · exact ⟨modifyFirst_changed .., forall₂_same.2 fun _ _ => .inl rfl, rfl⟩
  · exact ⟨forall₂_same.2 fun _ _ => .inl rfl, modifyFirst_changed .., rfl⟩

theorem restated_reactivated : Restated id (fun _ => {}) r { r with
    slaves := (reactivated id r).1.1, unreachable := (reactivated id r).1.2, minimumCapabilities := capabilities } := by
  refine ⟨reactivateScan_changed .., ?_, rfl⟩
  unfold reactivated
  dsimp only
  split
  · exact reactivateScan_changed ..
  · exact forall₂_same.2 fun _ _ => .inl rfl

theorem Restated.admitted (h : Restated id f r r') : r'.admitted = r.admitted := map_changed h.slaves fun _ _ => rfl

end

/-! ## Pruning -/

section

variable {toRemove : List SlaveID} {id : α → SlaveID}

/-- A named entry goes together with as many entries after it as are kept before it: these are there, and are named. -/
def Paced (toRemove : List SlaveID) (kept : Nat) : List SlaveID → Bool
  | [] => true
  | x :: xs =>
    if x ∈ toRemove then
      decide (kept ≤ xs.length) && (xs.take kept).all (· ∈ toRemove) && Paced toRemove kept (xs.drop kept)
    else Paced toRemove (kept + 1) xs
termination_by xs => xs.length
decreasing_by all_goals grind

theorem paced_unnamed : ∀ {xs : List SlaveID} {kept : Nat}, (∀ x ∈ xs, x ∉ toRemove) → Paced toRemove kept xs = true
  | [], _, _ => by rw [Paced]
  | x :: _, _, h => by
    rw [Paced, if_neg (h x mem_cons_self)]
    exact paced_unnamed fun y hy => h y (mem_cons_of_mem x hy)

theorem paced_front {rest : List SlaveID} (hr : ∀ x ∈ rest, x ∉ toRemove) :
    ∀ {front : List SlaveID}, (∀ x ∈ front, x ∈ toRemove) → Paced toRemove 0 (front ++ rest) = true
  | [], _ => paced_unnamed hr
  | x :: _, h => by
    rw [cons_append, Paced, if_pos (h x mem_cons_self)]
    exact paced_front hr fun y hy => h y (mem_cons_of_mem x hy)

theorem pruneLoop_exact {result : Bool} : ∀ (fuel : Nat) {kept rest : List α} {mutate : Bool},
    (∀ a ∈ kept, id a ∉ toRemove) → rest.length ≤ fuel →
    (pruneLoop toRemove id fuel kept.length (kept ++ rest) mutate =
        some (kept ++ rest.filter (id · ∉ toRemove), result) ↔
      Paced toRemove kept.length (rest.map id) = true ∧ (mutate || rest.any (id · ∈ toRemove)) = result)
  | 0, kept, [], mutate, _, _ => by simp [pruneLoop, Paced]
  | fuel + 1, kept, [], mutate, _, _ => by simp [pruneLoop, Paced]
  | fuel + 1, kept, x :: rest, mutate, hk, hf => by
    have hf := Nat.le_of_succ_le_succ hf
    rw [pruneLoop, getElem?_append_right le_rfl, Nat.sub_self, getElem?_cons_zero, map_cons, Paced]
    dsimp only
    by_cases hn : id x ∈ toRemove
    · have hlen : kept.length + (kept.length + 1) ≤ (kept ++ x :: rest).length ↔ kept.length ≤ rest.length := by
        rw [length_append, length_cons]
        omega
      rw [if_pos hn, if_pos hn, length_map, deleteSubrange, filter_cons_of_neg (by simpa using hn), Bool.and_eq_true,
        Bool.and_eq_true, decide_eq_true_iff]
      by_cases hle : kept.length ≤ rest.length
      · rw [if_pos (hlen.2 hle), take_left, ← drop_drop, drop_left, drop_succ_cons]
        have hsp := take_append_drop kept.length rest
        by_cases hall : ∀ a ∈ rest.take kept.length, id a ∈ toRemove
        · have hfi : rest.filter (id · ∉ toRemove) = (rest.drop kept.length).filter (id · ∉ toRemove) := by
            conv => lhs; rw [← hsp, filter_append, filter_eq_nil_iff.2 (by simpa using hall), nil_append]
          have hd : (rest.drop kept.length).length ≤ fuel := (length_drop ▸ Nat.sub_le _ _).trans hf
          rw [hfi, pruneLoop_exact fuel hk hd]
          simpa [hn, hle, ← map_take, ← map_drop] using fun _ _ => hall
        · -- An entry that is not named goes with the others, and never comes back.
          refine iff_of_false (fun h => hall fun a ha => ?_) fun h => hall (by simpa [← map_take] using h.1.1.2)
          by_contra hno
          have hsu := ((pruneLoop_sublist fuel _ h).filter fun a => decide (id a ∉ toRemove)).length_le
          have hpo : 0 < ((rest.take kept.length).filter (id · ∉ toRemove)).length :=
            length_pos_of_mem (mem_filter.2 ⟨ha, decide_eq_true hno⟩)
          have hfi := congrArg (fun l : List α => (l.filter (id · ∉ toRemove)).length) hsp
          simp only [filter_append, filter_filter, length_append, Bool.and_self] at hsu hfi
          omega
      · rw [if_neg (mt hlen.1 hle)]
        exact iff_of_false nofun fun h => hle h.1.1.1
    · have ih := @pruneLoop_exact result fuel (kept ++ [x]) rest mutate
        (forall_mem_append.2 ⟨hk, forall_mem_singleton.2 hn⟩) hf
      rw [append_assoc, append_assoc, length_append] at ih
      rw [if_neg hn, if_neg hn, filter_cons_of_pos (by simpa using hn), any_cons, decide_eq_false hn]
      exact ih

theorem pruneLoop_whole {xs : List α} {mutate result : Bool} :
    pruneLoop toRemove id xs.length 0 xs mutate = some (xs.filter (id · ∉ toRemove), result) ↔
      Paced toRemove 0 (xs.map id) = true ∧ (mutate || xs.any (id · ∈ toRemove)) = result :=
  @pruneLoop_exact α toRemove id result xs.length [] xs mutate nofun le_rfl

end

/-- **`Prune` leaves exactly the agents that are not named**, in their order, and tells whether any was, if and only if in
both lists the named ones come in groups as large as what it deletes at once. -/
theorem prune_exact_iff (toRemoveUnreachable toRemoveGone : List SlaveID) (r : Registry) (ids : Finset SlaveID) :
    prune toRemoveUnreachable toRemoveGone r ids = some
      ⟨.ok (r.unreachable.any (·.id ∈ toRemoveUnreachable) || r.gone.any (·.id ∈ toRemoveGone)),
        { r with
          unreachable := r.unreachable.filter (·.id ∉ toRemoveUnreachable)
          gone := r.gone.filter (·.id ∉ toRemoveGone) }, ids⟩ ↔
    Paced toRemoveUnreachable 0 r.unreachableIds = true ∧ Paced toRemoveGone 0 r.goneIds = true := by
  constructor
  · intro h
    unfold prune at h
    split at h
    · cases h
    next unreachable mutate hu =>
      split at h
      · cases h
      next gone result hg =>
        have hr := (Performed.mk.inj (Option.some.inj h)).2.1
        obtain rfl : unreachable = _ := congrArg Registry.unreachable hr
        obtain rfl : gone = _ := congrArg Registry.gone hr
        exact ⟨(pruneLoop_whole.1 hu).1, (pruneLoop_whole.1 hg).1⟩
  · rintro ⟨hu, hg⟩
    rw [prune, pruneLoop_whole.2 ⟨hu, rfl⟩]
    dsimp only
    rw [pruneLoop_whole.2 ⟨hg, rfl⟩, Bool.false_or]

theorem prune_takes_neighbour : ∃ r p, r.unreachableIds = ["a", "b", "c"] ∧ prune ["b"] [] r ∅ = some p ∧
    p.registry.unreachableIds = ["a"] ∧ prune ["c"] [] r ∅ = none :=
  ⟨{ unreachable := [⟨{}, "a", 0⟩, ⟨{}, "b", 0⟩, ⟨{}, "c", 0⟩] }, _, rfl, rfl, rfl, rfl⟩

/-! ## The accumulator -/

/-- **The accumulator holds the admitted ids**, and each is admitted once. -/
structure Registry.Indexed (r : Registry) (ids : Finset SlaveID) : Prop where
  nodup : r.admitted.Nodup
  slaveIDs : ids = r.admitted.toFinset

variable {ids : Finset SlaveID} {r : Registry} (h : r.Indexed ids)
include h

theorem Registry.Indexed.mem_ids {id : SlaveID} : id ∈ ids ↔ id ∈ r.admitted := by
  rw [h.slaveIDs, mem_toFinset]

variable {r' : Registry}

theorem Registry.Indexed.congr (ha : r'.admitted = r.admitted) : r'.Indexed ids where
  nodup := ha ▸ h.nodup
  slaveIDs := ha ▸ h.slaveIDs

theorem Registry.Indexed.insert {id : SlaveID}
    (hid : id ∉ ids) (ha : r'.admitted = r.admitted ++ [id]) : r'.Indexed (insert id ids) where
  nodup := by
    rw [ha]
    exact nodup_append_comm.1 (nodup_cons.2 ⟨fun hm => hid (h.mem_ids.2 hm), h.nodup⟩)
  slaveIDs := by
    rw [ha, h.slaveIDs]
    ext x
    rw [Finset.mem_insert, mem_toFinset, mem_toFinset, mem_append, mem_singleton, or_comm]

theorem Registry.Indexed.erase {id : SlaveID} (ha : r'.admitted = r.admitted.erase id) : r'.Indexed (ids.erase id) where
  nodup := ha ▸ h.nodup.erase id
  slaveIDs := by
    rw [ha, h.slaveIDs]
    ext x
    simp [h.nodup.mem_erase_iff]

variable {x : SlaveID}

omit h

theorem any_of_mem_map {id : α → SlaveID} (h : x ∈ l.map id) : l.any (fun a => decide (id a = x)) = true := by
  obtain ⟨a, ha, hid⟩ := mem_map.1 h
  exact any_eq_true.2 ⟨a, ha, decide_eq_true hid⟩

theorem mem_map_of_any {id : α → SlaveID} (h : l.any (fun a => decide (id a = x)) = true) : x ∈ l.map id := by
  obtain ⟨_, ha, hid⟩ := any_eq_true.1 h
  exact (of_decide_eq_true hid) ▸ mem_map_of_mem ha

theorem admitted_of_slaves (h : r'.slaves = r.slaves) : r'.admitted = r.admitted := by
  unfold admitted
  rw [h]

variable {o : Operation} {rules : Rules} {p : Performed}

/-- **Every operation keeps the accumulator.** -/
theorem Registry.Indexed.step
    (h : r.Indexed ids) (hp : o.perform rules r ids = some p) : p.registry.Indexed p.slaveIDs := by
  cases Operation.outcome hp with
  | refused | kept => exact h
  | admitted _ _ hid hsa =>
    refine h.insert hid ?_
    simp [admitted, hsa]
  | updated =>
    exact h.congr (admitted_modifyFirst r fun _ hs => (of_decide_eq_true hs).symm)
  | vanished | removed => exact h.erase (admitted_eraseP r _)
  | returned _ hid => exact h.insert hid map_append
  | gone _ _ _ hid =>
    rw [if_pos (any_of_mem_map (h.mem_ids.1 hid))]
    exact h.erase (admitted_eraseP r _)
  | pruned | goneUnreachable => exact h.congr rfl
  | deactivated | drained => exact h.congr restated_changeAgent.admitted
  | reactivated => exact h.congr restated_reactivated.admitted
  | unrelated _ _ _ _ hs => exact h.congr (admitted_of_slaves hs)

/-! ## Every agent is in one list -/

def Registry.Eligible (r : Registry) : Operation → Prop
  | .admitSlave info => info.id ∉ r.unreachableIds ∧ info.id ∉ r.goneIds
  | .markSlaveReachable info => info.id ∉ r.goneIds
  | _ => True

theorem count_concat (l : List SlaveID) (a x : SlaveID) : (l ++ [a]).count x = l.count x + if a = x then 1 else 0 := by
  rw [count_append, count_singleton]
  simp

theorem count_erase_of_mem {l : List SlaveID} {a : SlaveID} (x : SlaveID) (h : a ∈ l) :
    (l.erase a).count x + (if a = x then 1 else 0) = l.count x := by
  rw [(perm_cons_erase h).count_eq x, count_cons]
  simp

/-- **Every id is listed at most once.** -/
def Registry.Listed (r : Registry) : Prop := ∀ id, r.occurrences id ≤ 1

theorem Registry.Listed.of_le {a u g : List SlaveID} (h : r.Listed) (ha : r'.admitted = a)
    (hu : r'.unreachableIds = u) (hg : r'.goneIds = g)
    (hle : ∀ id, a.count id + u.count id + g.count id ≤ r.occurrences id) : r'.Listed := by
  intro id
  unfold occurrences
  rw [ha, hu, hg]
  exact (hle id).trans (h id)

theorem Registry.Listed.congr (h : r.Listed) (ha : r'.admitted = r.admitted)
    (hu : r'.unreachableIds = r.unreachableIds) (hg : r'.goneIds = r.goneIds) : r'.Listed :=
  h.of_le ha hu hg fun _ => le_rfl

theorem Registry.Listed.restated {id : SlaveID} {f : Draining → Draining} (h : r.Listed) (hr : Restated id f r r') :
    r'.Listed :=
  h.congr hr.admitted (map_changed hr.unreachable fun _ _ => rfl) (congrArg (map GoneSlave.id) hr.gone)

theorem Registry.Listed.admit {id : SlaveID} (h : r.Listed) (hid : id ∉ r.admitted)
    (hgo : id ∉ r.goneIds) (ha : r'.admitted = r.admitted ++ [id]) (hg : r'.goneIds = r.goneIds)
    (hu : ∀ x, r'.unreachableIds.count x ≤ r.unreachableIds.count x) (hnot : id ∉ r'.unreachableIds) : r'.Listed := by
  intro x
  have hx := h x
  have hux := hu x
  unfold occurrences at hx ⊢
  rw [ha, hg, count_concat]
  split
  next hx =>
    rw [← hx, count_eq_zero.2 hid, count_eq_zero.2 hgo, count_eq_zero.2 hnot]
  · omega

/-- **An operation keeps every id listed once.** -/
theorem Registry.Listed.step
    (h : r.Listed) (hi : r.Indexed ids) (he : r.Eligible o) (hp : o.perform rules r ids = some p) :
    p.registry.Listed := by
  cases Operation.outcome hp with
  | refused | kept => exact h
  | admitted _ _ hid hsa =>
    refine h.admit (mt hi.mem_ids.2 hid) he.2 ?_ rfl (fun x => le_rfl) he.1
    simp [admitted, hsa]
  | updated =>
    exact h.congr (admitted_modifyFirst r fun _ hs => (of_decide_eq_true hs).symm) rfl rfl
  | vanished info _ _ hid =>
    refine h.of_le (u := r.unreachableIds ++ [info.id]) (admitted_eraseP r _) map_append rfl fun x => ?_
    have hx := count_erase_of_mem x (hi.mem_ids.1 hid)
    have hu := count_concat r.unreachableIds info.id x
    exact Nat.add_le_add_right (by omega) _
  | returned info hid =>
    refine h.admit (mt hi.mem_ids.2 hid) he map_append rfl (fun x => ?_) ?_
    · exact (congrArg (count x) (unreachableIds_eraseP r info.id)).trans_le (erase_sublist.count_le x)
    have hx := h info.id
    have hc := (congrArg (count info.id) (unreachableIds_eraseP r info.id)).trans count_erase_self
    unfold occurrences at hx
    exact count_eq_zero.1 (hc.trans (by omega))
  | pruned _ _ _ _ _ _ hu hg =>
    refine h.of_le rfl rfl rfl fun x => ?_
    have hu := ((pruneLoop_sublist _ _ hu).map (·.id)).count_le x
    have hg := ((pruneLoop_sublist _ _ hg).map (·.id)).count_le x
    exact Nat.add_le_add (Nat.add_le_add_left hu _) hg
  | removed =>
    refine h.of_le (admitted_eraseP r _) rfl rfl fun x => ?_
    exact Nat.add_le_add_right (Nat.add_le_add_right (erase_sublist.count_le x) _) _
  | gone id _ _ hid =>
    refine h.of_le (g := r.goneIds ++ [id]) (admitted_eraseP r _) rfl map_append fun x => ?_
    have hx := count_erase_of_mem x (hi.mem_ids.1 hid)
    have hg := count_concat r.goneIds id x
    show (r.admitted.erase id).count x + r.unreachableIds.count x + _ ≤ r.occurrences x
    unfold occurrences
    omega
  | goneUnreachable id _ _ _ hany =>
    have hmem : id ∈ r.unreachableIds := mem_map_of_any hany
    refine h.of_le (g := r.goneIds ++ [id]) rfl (unreachableIds_eraseP r _) map_append fun x => ?_
    have hx := count_erase_of_mem x hmem
    have hg := count_concat r.goneIds id x
    show r.admitted.count x + (r.unreachableIds.erase id).count x + _ ≤ r.occurrences x
    unfold occurrences
    omega
  | deactivated | drained => exact h.restated restated_changeAgent
  | reactivated => exact h.restated restated_reactivated
  | unrelated _ _ _ _ hs hu hg =>
    refine h.congr (admitted_of_slaves hs) ?_ ?_
    · unfold unreachableIds
      rw [hu]
    · unfold goneIds
      rw [hg]

/-! ## Runs -/

def Batch.Meets (C : Registry → Operation → Prop) (b : Option Batch) (e : Step) : Prop :=
  ∀ b' ∈ b, ∀ o, e = .perform o → C b'.registry o

/-- **What every operation keeps is kept along a run of batches.** -/
theorem Batch.invariant {I : Registry → Finset SlaveID → Prop} {C : Registry → Operation → Prop}
    (hba : ∀ r ids, I r ids → I r r.admitted.toFinset)
    (hs : ∀ r ids o p, I r ids → C r o → o.perform rules r ids = some p → I p.registry p.slaveIDs) (es : List Step)
    {b b' : Batch} (hb : I b.registry b.slaveIDs) (h : Run.Along (step rules) (Meets C) (some b) es)
    (hrun : es.foldl (step rules) (some b) = some b') : I b'.registry b'.slaveIDs := by
  have hinv : ∀ b' ∈ es.foldl (step rules) (some b), I b'.registry b'.slaveIDs := by
    refine Run.Along.invariant (I := fun b : Option Batch => ∀ b' ∈ b, I b'.registry b'.slaveIDs) ?_ es ?_ h
    · intro b e hI he
      cases b with
      | none => exact nofun
      | some b =>
        cases e with
        | batch =>
          rintro _ ⟨⟩
          exact hba _ _ (hI b rfl)
        | perform o =>
          intro b' hb'
          obtain ⟨p, hp, rfl⟩ := Option.map_eq_some_iff.1 hb'
          exact hs _ _ o p (hI b rfl) (he b rfl o rfl) hp
    · rintro _ ⟨⟩
      exact hb
  exact hinv b' hrun

theorem Registry.Indexed.batch (h : r.Indexed ids) : r.Indexed r.admitted.toFinset :=
  ⟨h.nodup, rfl⟩

theorem Registry.Indexed.empty : Indexed {} ∅ := ⟨nodup_nil, rfl⟩

/-- **Each agent is in exactly one list.**  From an empty registry, if every agent that is admitted is in neither of the
other lists (as one that was never used is) and none that is brought back is gone, then after every operation of every
batch each id occurs at most once in the three lists, and the accumulator holds the admitted ids. -/
theorem Batch.agents_listed_once (rules : Rules) (es : List Step) (b : Batch)
    (h : Run.Along (Batch.step rules) (Batch.Meets Registry.Eligible) (some (Batch.start {})) es)
    (hb : es.foldl (Batch.step rules) (some (Batch.start {})) = some b) :
    (∀ id, b.registry.occurrences id ≤ 1) ∧ b.slaveIDs = b.registry.admitted.toFinset := by
  have hinv : b.registry.Listed ∧ b.registry.Indexed b.slaveIDs := by
    refine Batch.invariant (I := fun r ids => r.Listed ∧ r.Indexed ids) (fun r ids hI => ⟨hI.1, hI.2.batch⟩) ?_ es ?_ h hb
    · intro _ _ _ _ hI he hp
      exact ⟨hI.1.step hI.2 he hp, hI.2.step hp⟩
    · exact ⟨fun _ => Nat.zero_le _, .empty⟩
  exact ⟨hinv.1, hinv.2.slaveIDs⟩

def comings : List Step :=
  [.perform (.admitSlave ⟨"a", []⟩), .perform (.admitSlave ⟨"b", []⟩), .batch,
    .perform (.markSlaveUnreachable ⟨"a", []⟩ 1), .perform (.markSlaveReachable ⟨"a", []⟩), .batch,
    .perform (.markSlaveGone "a" 2)]

theorem agents_listed_once_comings : ∃ b,
    comings.foldl (Batch.step Rules.plain) (some (Batch.start {})) = some b ∧ b.registry.occurrences "a" = 1 ∧
      (∀ id, b.registry.occurrences id ≤ 1) ∧ b.slaveIDs = b.registry.admitted.toFinset := by
  refine ⟨_, rfl, by decide, Batch.agents_listed_once Rules.plain comings _ ?_ rfl⟩
  refine ⟨?_, ?_, ?_, ?_, ?_, ?_, ?_, trivial⟩
  · rintro _ ⟨⟩ _ ⟨⟩
    exact ⟨by decide, by decide⟩
  · rintro _ ⟨⟩ _ ⟨⟩
    exact ⟨by decide, by decide⟩
  · rintro _ _ _ ⟨⟩
  · rintro _ ⟨⟩ _ ⟨⟩
    trivial
  · rintro _ ⟨⟩ _ ⟨⟩
    show "a" ∉ _
    decide
  · rintro _ _ _ ⟨⟩
  · rintro _ ⟨⟩ _ ⟨⟩
    trivial

end Clusterd.Master
