import Clusterd.Keyed
import Clusterd.MasterLists
/-!
# Draining states and the minimum capability

Whatever the operations, `AGENT_DRAINING` is a minimum capability as long as an agent is deactivated, and an agent with a drain
info is deactivated (`Registry.Guarded`).  The state of an agent follows it from list to list (`Registry.Has`), as long as
`Prune` is told to delete as many agents at once as it does: elsewhere than at the beginning of the list it deletes several.
-/
namespace Clusterd.Master

open List Batch

def Registry.drainings (r : Registry) : List Draining := r.slaves.map (·.toDraining) ++ r.unreachable.map (·.toDraining)

/-- **The states are guarded**: drain info is had by deactivated agents only, and while there is one of those the capability
is listed, once. -/
structure Registry.Guarded (r : Registry) : Prop where
  deactivated : ∀ d ∈ r.drainings, d.drainInfo ≠ none → d.deactivated = true
  listed : ∀ d ∈ r.drainings, d.deactivated = true → agentDraining ∈ r.minimumCapabilities
  once : r.minimumCapabilities.count agentDraining ≤ 1

variable {d : Draining} {r : Registry}

theorem mem_drainings : d ∈ r.drainings ↔ (∃ s ∈ r.slaves, s.toDraining = d) ∨ ∃ s ∈ r.unreachable, s.toDraining = d := by
  unfold Registry.drainings
  rw [mem_append, mem_map, mem_map]

theorem Registry.Guarded.empty : Registry.Guarded {} where
  deactivated _ h := nomatch h
  listed _ h := nomatch h
  once := Nat.zero_le _

variable {r' : Registry}

theorem Registry.Guarded.of_subset (h : r.Guarded) (hd : ∀ d ∈ r'.drainings, d ∈ r.drainings ∨ d = {})
    (hc : r'.minimumCapabilities.count agentDraining = r.minimumCapabilities.count agentDraining) : r'.Guarded where
  deactivated d hm hin := by
    rcases hd d hm with hm | rfl
    · exact h.deactivated d hm hin
    · exact absurd rfl hin
  listed d hm hde := by
    rcases hd d hm with hm | rfl
    · rw [← count_pos_iff, hc, count_pos_iff]
      exact h.listed d hm hde
    · cases hde
  once := hc ▸ h.once

theorem Registry.Guarded.of_agents (h : r.Guarded)
    (hs : ∀ s ∈ r'.slaves, s.toDraining ∈ r.drainings ∨ s.toDraining = {})
    (hu : ∀ s ∈ r'.unreachable, s.toDraining ∈ r.drainings)
    (hc : r'.minimumCapabilities.count agentDraining = r.minimumCapabilities.count agentDraining) : r'.Guarded := by
  refine h.of_subset (fun _ hd => ?_) hc
  rcases mem_drainings.1 hd with ⟨s, hm, rfl⟩ | ⟨s, hm, rfl⟩
  · exact hs s hm
  · exact .inl (hu s hm)

theorem mem_changed {α : Type} {p : α → Bool} {f : α → α} {b : α} {l l' : List α} (hc : Forall₂ (Changed p f) l l') :
    b ∈ l' → b ∈ l ∨ ∃ a ∈ l, b = f a := by
  induction hc with
  | nil => exact .inl
  | cons ha _ ih =>
    intro hb
    rcases mem_cons.1 hb with rfl | hb
    · rcases ha with rfl | ⟨-, rfl⟩
      · exact .inl mem_cons_self
      · exact .inr ⟨_, mem_cons_self, rfl⟩
    · rcases ih hb with hb | ⟨a, ha, rfl⟩
      · exact .inl (mem_cons_of_mem _ hb)
      · exact .inr ⟨a, mem_cons_of_mem _ ha, rfl⟩

variable {ids : Finset SlaveID} {id : SlaveID} {f : Draining → Draining}

theorem Restated.drainings (h : Restated id f r r') (hd : d ∈ r'.drainings) :
    d ∈ r.drainings ∨ ∃ d' ∈ r.drainings, d = f d' := by
  simp only [mem_drainings] at hd ⊢
  rcases hd with ⟨s, hs, rfl⟩ | ⟨s, hu, rfl⟩
  · rcases mem_changed h.slaves hs with hs | ⟨t, ht, rfl⟩
    · exact .inl (.inl ⟨s, hs, rfl⟩)
    · exact .inr ⟨_, .inl ⟨t, ht, rfl⟩, rfl⟩
  · rcases mem_changed h.unreachable hu with hu | ⟨t, ht, rfl⟩
    · exact .inl (.inr ⟨s, hu, rfl⟩)
    · exact .inr ⟨_, .inr ⟨t, ht, rfl⟩, rfl⟩

theorem Restated.deactivated (h : Restated id f r r') (hg : r.Guarded)
    (hf : ∀ d : Draining, (d.drainInfo ≠ none → d.deactivated = true) → (f d).drainInfo ≠ none → (f d).deactivated = true)
    (d : Draining) (hd : d ∈ r'.drainings) (hin : d.drainInfo ≠ none) : d.deactivated = true := by
  rcases h.drainings hd with hd | ⟨d, hm, rfl⟩
  · exact hg.deactivated d hd hin
  · exact hf d (hg.deactivated d hm) hin

/-! ## The scans of `ReactivateAgent` -/

variable {α : Type} {target deactivated : α → Bool} {clear : α → α} {rules : Rules} {o : Operation} {p : Performed}

/-- **A scan that saw no other deactivated agent leaves none**: it went through the whole list. -/
theorem reactivateScan_none_left (hcl : ∀ a, deactivated (clear a) = false) : ∀ {l : List α} {found more : Bool},
    (reactivateScan target deactivated clear l found more).2.2 = false →
      more = false ∧ ∀ b ∈ (reactivateScan target deactivated clear l found more).1, deactivated b = false
  | [], _, _, h => ⟨h, nofun⟩
  | a :: l, found, more, h => by
    have hco : ∀ {c : α} {found more : Bool}, deactivated c = false →
        (reactivateScan target deactivated clear l found more).2.2 = false →
          more = false ∧
            ∀ b ∈ c :: (reactivateScan target deactivated clear l found more).1, deactivated b = false := by
      intro _ _ _ hc h
      obtain ⟨hmo, hr⟩ := reactivateScan_none_left hcl h
      refine ⟨hmo, fun b hb => ?_⟩
      rcases mem_cons.1 hb with rfl | hb
      · exact hc
      · exact hr b hb
    unfold reactivateScan at h ⊢
    split at h
    next ht =>
      split at h
      next hm =>
        cases hm.symm.trans h
      next hm =>
        rw [if_pos ht, if_neg hm]
        exact hco (hcl a) h
    next ht =>
      split at h
      next hd =>
        split at h
        · cases h
        · cases (hco (hcl a) h).1
      next hd =>
        rw [if_neg ht, if_neg hd]
        exact hco (by simpa using hd) h

/-- **The capability is given up when no agent is deactivated any more.** -/
theorem reactivated_none_left (hs : r'.slaves = (reactivated id r).1.1)
    (hu : r'.unreachable = (reactivated id r).1.2) (hm : (reactivated id r).2.2 = false) (h : d ∈ r'.drainings) :
    d.deactivated = false := by
  rw [mem_drainings, hs, hu] at h
  unfold reactivated at h hm
  dsimp only at h hm
  split at hm
  next hsc =>
    rw [if_pos hsc] at h
    obtain ⟨hm, hun⟩ := reactivateScan_none_left (fun _ => rfl) hm
    obtain ⟨-, hsl⟩ := reactivateScan_none_left (fun _ => rfl) hm
    rcases h with ⟨s, hs, rfl⟩ | ⟨s, hu, rfl⟩
    · exact hsl s hs
    · exact hun s hu
  next hsc =>
    rw [hm, Bool.not_false, Bool.or_true] at hsc
    exact absurd rfl hsc

theorem count_addMinimumCapability {capabilities : List String} {a : String} (h : capabilities.count a ≤ 1) :
    (addMinimumCapability capabilities a).count a = 1 := by
  unfold addMinimumCapability
  split
  next hm =>
    have := count_pos_iff.2 hm
    omega
  next hm =>
    rw [count_append, count_eq_zero.2 hm, count_singleton_self]

/-- **Every operation keeps the states guarded.** -/
theorem Registry.Guarded.step (h : r.Guarded) (hp : o.perform rules r ids = some p) : p.registry.Guarded := by
  have hs : ∀ s ∈ r.slaves, s.toDraining ∈ r.drainings := fun s hm => mem_append_left _ (mem_map_of_mem hm)
  have hu : ∀ s ∈ r.unreachable, s.toDraining ∈ r.drainings := fun s hm => mem_append_right _ (mem_map_of_mem hm)
  cases Operation.outcome hp with
  | refused | kept => exact h
  | admitted =>
    refine h.of_agents (fun s hm => ?_) hu rfl
    rcases mem_append.1 hm with hm | hm
    · exact .inl (hs s hm)
    · rw [mem_singleton.1 hm]
      exact .inr rfl
  | updated =>
    refine h.of_agents (fun s hm => .inl ?_) hu rfl
    rcases mem_changed (modifyFirst_changed ..) hm with hm | ⟨t, ht, rfl⟩
    · exact hs s hm
    · exact hs t ht
  | vanished _ _ slave _ hfi =>
    refine h.of_agents (fun s hm => .inl (hs s (mem_of_mem_eraseP hm))) (fun s hm => ?_) rfl
    rcases mem_append.1 hm with hm | hm
    · exact hu s hm
    · rw [mem_singleton.1 hm]
      exact hs slave (mem_of_find?_eq_some hfi)
  | returned info =>
    refine h.of_agents (fun s hm => ?_) (fun s hm => hu s (mem_of_mem_eraseP hm)) rfl
    rcases mem_append.1 hm with hm | hm
    · exact .inl (hs s hm)
    rw [mem_singleton.1 hm]
    cases hfi : r.unreachable.find? (·.id = info.id) with
    | none => exact .inr rfl
    | some s => exact .inl (hu s (mem_of_find?_eq_some hfi))
  | pruned _ _ _ _ _ _ hpr =>
    exact h.of_agents (fun s hm => .inl (hs s hm)) (fun s hm => hu s ((pruneLoop_sublist _ _ hpr).subset hm)) rfl
  | removed | gone => exact h.of_agents (fun s hm => .inl (hs s (mem_of_mem_eraseP hm))) hu rfl
  | goneUnreachable =>
    exact h.of_agents (fun s hm => .inl (hs s hm)) (fun s hm => hu s (mem_of_mem_eraseP hm)) rfl
  | deactivated _ _ f hd =>
    have hf : ∀ d, (f d).deactivated = true := by
      cases hd with
      | drain | deactivate => exact fun _ => rfl
    have hco := count_addMinimumCapability h.once
    refine ⟨restated_changeAgent.deactivated h fun d _ _ => hf d, fun d _ _ => ?_, hco.le⟩
    exact count_pos_iff.1 (by rw [hco]; exact Nat.one_pos)
  | drained id =>
    have hsa : (changeAgent id Draining.drained r ids).1.minimumCapabilities = r.minimumCapabilities := by
      unfold changeAgent
      split
      · rfl
      · rfl
    refine ⟨restated_changeAgent.deactivated h fun d hd hin => hd fun hno => hin ?_, fun d hd hde => ?_, hsa ▸ h.once⟩
    · unfold Draining.drained
      rw [hno]
      rfl
    · rw [hsa]
      rcases restated_changeAgent.drainings hd with hd | ⟨d', hd', rfl⟩
      · exact h.listed d hd hde
      · exact h.listed d' hd' hde
  | reactivated id =>
    by_cases hdr : ((reactivated id r).2.1 && !(reactivated id r).2.2) = true
    · have hm : (reactivated id r).2.2 = false := by
        rw [Bool.and_eq_true] at hdr
        simpa using hdr.2
      refine ⟨restated_reactivated.deactivated h fun _ _ hin => absurd rfl hin, fun d hd hde => ?_, ?_⟩
      · cases (reactivated_none_left rfl rfl hm hd).symm.trans hde
      · rw [if_pos hdr]
        exact ((erase_sublist).count_le _).trans h.once
    · refine h.of_subset (fun _ hd => ?_) (by rw [if_neg hdr])
      rcases restated_reactivated.drainings hd with hd | ⟨-, -, rfl⟩
      · exact .inl hd
      · exact .inr rfl
  | unrelated _ _ _ _ hsl hun' _ hc => exact h.of_agents (hsl ▸ fun s hm => .inl (hs s hm)) (hun' ▸ hu) hc

/-! ## The state of one agent -/

def statesIn (id : α → SlaveID) (state : α → Draining) (x : SlaveID) (l : List α) : List Draining :=
  (l.filter fun a => decide (id a = x)).map state

def Registry.states (r : Registry) (x : SlaveID) : List Draining :=
  statesIn (·.info.id) (·.toDraining) x r.slaves ++ statesIn (·.id) (·.toDraining) x r.unreachable

/-- **The agent is listed and has this state** wherever it is. -/
def Registry.Has (r : Registry) (x : SlaveID) (d : Draining) : Prop := r.states x ≠ [] ∧ ∀ d' ∈ r.states x, d' = d

section statesIn

variable {id : α → SlaveID} {state : α → Draining} {x y : SlaveID}

theorem statesIn_cons (a : α) (l : List α) :
    statesIn id state x (a :: l) = if id a = x then state a :: statesIn id state x l else statesIn id state x l := by
  unfold statesIn
  rw [filter_cons]
  split
  next h =>
    rw [if_pos (of_decide_eq_true h), map_cons]
  next h =>
    rw [if_neg (by simpa using h)]

theorem statesIn_append (l l' : List α) : statesIn id state x (l ++ l') = statesIn id state x l ++ statesIn id state x l' := by
  unfold statesIn
  rw [filter_append, map_append]

theorem statesIn_eraseP_of_ne (h : y ≠ x) : ∀ l : List α,
    statesIn id state x (l.eraseP fun a => decide (id a = y)) = statesIn id state x l
  | [] => rfl
  | a :: l => by
    by_cases ha : id a = y
    · rw [eraseP_cons_of_pos (by simpa using ha), statesIn_cons, if_neg (ha ▸ h)]
    · rw [eraseP_cons_of_neg (by simpa using ha), statesIn_cons, statesIn_cons, statesIn_eraseP_of_ne h l]

theorem statesIn_eraseP_self : ∀ l : List α,
    statesIn id state x (l.eraseP fun a => decide (id a = x)) = (statesIn id state x l).tail
  | [] => rfl
  | a :: l => by
    by_cases ha : id a = x
    · rw [eraseP_cons_of_pos (by simpa using ha), statesIn_cons, if_pos ha, tail_cons]
    · rw [eraseP_cons_of_neg (by simpa using ha), statesIn_cons, statesIn_cons, if_neg ha, if_neg ha,
        statesIn_eraseP_self l]

theorem find_state : ∀ l : List α, (l.find? fun a => decide (id a = x)).map state = (statesIn id state x l).head?
  | [] => rfl
  | a :: l => by
    by_cases ha : id a = x
    · rw [find?_cons_of_pos (by simpa using ha), statesIn_cons, if_pos ha]
      rfl
    · rw [find?_cons_of_neg (by simpa using ha), statesIn_cons, if_neg ha, find_state l]

theorem statesIn_eq_nil {l : List α} : statesIn id state x l = [] ↔ x ∉ l.map id := by
  unfold statesIn
  simp

theorem statesIn_filter {p : α → Bool} {l : List α} (h : ∀ a, id a = x → p a = true) :
    statesIn id state x (l.filter p) = statesIn id state x l := by
  unfold statesIn
  rw [filter_filter]
  refine congrArg (map state) (filter_congr fun a _ => ?_)
  by_cases ha : id a = x
  · simp [ha, h a ha]
  · simp [ha]

theorem statesIn_changed {p : α → Bool} {f : α → α} {l l' : List α} (hc : Forall₂ (Changed p f) l l')
    (h : ∀ a, p a = true → id (f a) = id a) (hx : ∀ a, p a = true → id a = x → state (f a) = state a) :
    statesIn id state x l' = statesIn id state x l := by
  induction hc with
  | nil => rfl
  | cons ha _ ih =>
    rw [statesIn_cons, statesIn_cons, ih]
    rcases ha with rfl | ⟨hp, rfl⟩
    · rfl
    rw [h _ hp]
    split
    next hid => rw [hx _ hp hid]
    · rfl

end statesIn

def Operation.Spares (x : SlaveID) : Operation → Prop
  | .admitSlave info | .removeSlave info => info.id ≠ x
  | .markSlaveGone id _ | .drainAgent id _ _ | .markAgentDrained id | .deactivateAgent id | .reactivateAgent id => id ≠ x
  | .prune unreachable _ => x ∉ unreachable
  | _ => True

/-- `Prune` deletes the unreachable agents it is told and no others. -/
def Registry.PrunesNamed (r : Registry) : Operation → Prop
  | .prune toRemove _ => Paced toRemove 0 r.unreachableIds = true
  | _ => True

variable {x : SlaveID}

theorem Registry.Has.congr (h : r.Has x d)
    (hs : statesIn (·.info.id) (·.toDraining) x r'.slaves = statesIn (·.info.id) (·.toDraining) x r.slaves)
    (hu : statesIn (·.id) (·.toDraining) x r'.unreachable = statesIn (·.id) (·.toDraining) x r.unreachable) :
    r'.Has x d := by
  unfold Has states at h ⊢
  rw [hs, hu]
  exact h

theorem Registry.Has.restated (h : r.Has x d) (hr : Restated id f r r') (hne : id ≠ x) : r'.Has x d := by
  refine h.congr (statesIn_changed hr.slaves ?_ ?_) (statesIn_changed hr.unreachable ?_ ?_)
  · exact fun _ _ => rfl
  · exact fun s hs hx => absurd ((of_decide_eq_true hs).symm.trans hx) hne
  · exact fun _ _ => rfl
  · exact fun _ hs hx => absurd ((of_decide_eq_true hs).symm.trans hx) hne

theorem Registry.Has.move (h : r.Has x d) (hd : d ∈ r'.states x)
    (hsub : ∀ d' ∈ r'.states x, d' ∈ r.states x ∨ d' = d) : r'.Has x d :=
  ⟨ne_nil_of_mem hd, fun d' hd' => (hsub d' hd').elim (h.2 d') id⟩

/-- **The state of an agent is kept by the operations that spare it.** -/
theorem Registry.Has.step (h : r.Has x d) (hi : r.Indexed ids) (hs : o.Spares x) (hfi : r.PrunesNamed o)
    (hp : o.perform rules r ids = some p) : p.registry.Has x d := by
  cases Operation.outcome hp with
  | refused | kept => exact h
  | admitted _ _ _ hsa =>
    refine h.congr ?_ rfl
    rw [statesIn_append, statesIn_cons, if_neg (hsa ▸ hs)]
    exact append_nil _
  | updated =>
    refine h.congr (statesIn_changed (modifyFirst_changed ..) ?_ ?_) rfl
    · exact fun s hs => (of_decide_eq_true hs).symm
    · exact fun _ _ _ => rfl
  | vanished info time slave _ hfn =>
    by_cases hx : info.id = x
    · have hsl : slave.toDraining = d := by
        refine h.2 _ (mem_append_left _ (mem_of_mem_head? ?_))
        rw [← find_state, ← hx, hfn]
        rfl
      have hu : statesIn (·.id) (·.toDraining) x (r.unreachable ++
          [{ toDraining := slave.toDraining, id := info.id, timestamp := time }]) =
          statesIn (·.id) (·.toDraining) x r.unreachable ++ [d] := by
        rw [statesIn_append, statesIn_cons, if_pos hx, ← hsl]
        rfl
      refine h.move ?_ fun d' hd' => ?_
      · refine mem_append_right _ ?_
        rw [hu]
        exact mem_append_right _ mem_cons_self
      unfold states at hd' ⊢
      rw [hu, hx, statesIn_eraseP_self] at hd'
      simp only [mem_append, mem_singleton] at hd' ⊢
      rcases hd' with hd' | hd' | hd'
      · exact .inl (.inl (mem_of_mem_tail hd'))
      · exact .inl (.inr hd')
      · exact .inr hd'
    · refine h.congr (statesIn_eraseP_of_ne hx _) ?_
      rw [statesIn_append, statesIn_cons, if_neg hx]
      exact append_nil _
  | returned info hid =>
    by_cases hx : info.id = x
    · -- the agent is not admitted, so it is found in the other list
      have hno : statesIn (·.info.id) (·.toDraining) x r.slaves = [] :=
        statesIn_eq_nil.2 (hx ▸ mt hi.mem_ids.2 hid)
      have hf : (r.unreachable.find? (·.id = info.id)).map (·.toDraining) = some d := by
        rw [find_state, hx]
        have hne := h.1
        unfold states at hne
        rw [hno, nil_append] at hne
        obtain ⟨d', hd'⟩ := Option.ne_none_iff_exists'.1 (mt head?_eq_none_iff.1 hne)
        rw [hd', h.2 d' (mem_append_right _ (mem_of_mem_head? hd'))]
      have hs : statesIn (·.info.id) (·.toDraining) x (r.slaves ++
          [{ toDraining := ((r.unreachable.find? (·.id = info.id)).map (·.toDraining)).getD {}, info := info }]) =
          [d] := by
        rw [statesIn_append, hno, statesIn_cons, if_pos hx, hf]
        rfl
      refine h.move ?_ fun _ hd' => ?_
      · unfold states
        rw [hs]
        exact mem_append_left _ mem_cons_self
      unfold states at hd' ⊢
      rw [hs, hx, statesIn_eraseP_self] at hd'
      simp only [mem_append, mem_singleton] at hd' ⊢
      rcases hd' with hd' | hd'
      · exact .inr hd'
      · exact .inl (.inr (mem_of_mem_tail hd'))
    · refine h.congr ?_ (statesIn_eraseP_of_ne hx _)
      rw [statesIn_append, statesIn_cons, if_neg hx]
      exact append_nil _
  | pruned u _ unreachable _ _ _ hu =>
    obtain ⟨rfl, -⟩ := Prod.mk.inj (Option.some.inj (hu.symm.trans (pruneLoop_whole.2 ⟨hfi, rfl⟩)))
    exact h.congr rfl (statesIn_filter fun _ hx => decide_eq_true (hx ▸ hs))
  | removed | gone => exact h.congr (statesIn_eraseP_of_ne hs _) rfl
  | goneUnreachable => exact h.congr rfl (statesIn_eraseP_of_ne hs _)
  | deactivated _ id _ hd =>
    have hne : id ≠ x := by
      cases hd with
      | drain | deactivate => exact hs
    exact h.restated restated_changeAgent hne
  | drained => exact h.restated restated_changeAgent hs
  | reactivated => exact h.restated restated_reactivated hs
  | unrelated _ _ _ _ hs hu => exact h.congr (by rw [hs]) (by rw [hu])

/-! ## Runs -/

def Registry.Leaves (x : SlaveID) (r : Registry) (o : Operation) : Prop := o.Spares x ∧ r.PrunesNamed o

/-- **Draining states are protected, and follow their agents.**  After every run from the empty registry: while an agent is
deactivated or has drain info the capability is listed, once; agents with drain info are deactivated; and the state of an
agent is what it was after any further operations that spare the agent, if those that prune name agents in groups as large
as what they delete at once. -/
theorem Batch.draining_follows (rules : Rules) (es : List Step) (b : Batch)
    (hb : es.foldl (Batch.step rules) (some (Batch.start {})) = some b) :
    (∀ d ∈ b.registry.drainings, d.deactivated = true ∨ d.drainInfo ≠ none →
      b.registry.minimumCapabilities.count agentDraining = 1) ∧
    (∀ d ∈ b.registry.drainings, d.drainInfo ≠ none → d.deactivated = true) ∧
    ∀ (x : SlaveID) (d : Draining) (es' : List Step) (b' : Batch), b.registry.Has x d →
      Run.Along (Batch.step rules) (Batch.Meets (Registry.Leaves x)) (some b) es' →
      es'.foldl (Batch.step rules) (some b) = some b' → b'.registry.Has x d := by
  have hinv : b.registry.Guarded ∧ b.registry.Indexed b.slaveIDs := by
    refine Batch.invariant (I := fun r ids => r.Guarded ∧ r.Indexed ids) (C := fun _ _ => True)
      (fun r ids hI => ⟨hI.1, hI.2.batch⟩) ?_ es ⟨.empty, .empty⟩ ?_ hb
    · intro r ids o p hI _ hp
      exact ⟨hI.1.step hp, hI.2.step hp⟩
    · exact (Run.along_of_forall (Q := fun _ => True) fun _ _ => trivial).mono fun _ _ _ _ _ _ _ => trivial
  obtain ⟨hg, hi⟩ := hinv
  refine ⟨fun d hd hstate => ?_, hg.deactivated, fun x d es' _ hx hrun hb' => ?_⟩
  · have hdeact : d.deactivated = true := hstate.elim id (hg.deactivated d hd)
    have hpos := count_pos_iff.2 (hg.listed d hd hdeact)
    have honce := hg.once
    omega
  · refine (Batch.invariant (I := fun r ids => r.Has x d ∧ r.Indexed ids) (fun r ids hI => ⟨hI.1, hI.2.batch⟩) ?_ es'
      ⟨hx, hi⟩ hrun hb').1
    intro _ _ _ _ hI hC hp
    exact ⟨hI.1.step hI.2 hC.1 hC.2 hp, hI.2.step hp⟩

def draining : List Step :=
  [.perform (.admitSlave ⟨"a", []⟩), .perform (.admitSlave ⟨"b", []⟩), .perform (.admitSlave ⟨"c", []⟩), .batch,
    .perform (.drainAgent "c" none false), .perform (.markSlaveUnreachable ⟨"a", []⟩ 1),
    .perform (.markSlaveUnreachable ⟨"b", []⟩ 2), .perform (.markSlaveUnreachable ⟨"c", []⟩ 3)]

def drainedState : Draining := { drainInfo := some { state := .draining }, deactivated := true }

/-- The first of them is pruned, and the drained one comes back as it was. -/
theorem draining_follows_draining : ∃ b b',
    draining.foldl (Batch.step Rules.plain) (some (Batch.start {})) = some b ∧
    [Step.perform (.prune ["a"] []), .perform (.markSlaveReachable ⟨"c", []⟩)].foldl (Batch.step Rules.plain) (some b) =
      some b' ∧ b'.registry.Has "c" drainedState := by
  refine ⟨_, _, rfl, rfl, ?_⟩
  refine (Batch.draining_follows Rules.plain draining _ rfl).2.2 "c" drainedState
    [.perform (.prune ["a"] []), .perform (.markSlaveReachable ⟨"c", []⟩)] _ ⟨by decide, by decide⟩ ⟨?_, ?_, trivial⟩ rfl
  · rintro _ ⟨⟩ _ ⟨⟩
    refine ⟨?_, ?_⟩
    · show "c" ∉ ["a"]
      decide
    · show Paced ["a"] 0 ["a", "b", "c"] = true
      have hrest : ∀ x ∈ ["b", "c"], x ∉ ["a"] := by decide
      have hfront : ∀ x ∈ ["a"], x ∈ ["a"] := by decide
      exact paced_front hrest hfront
  · rintro _ ⟨⟩ _ ⟨⟩
    exact ⟨trivial, trivial⟩

/-- **Pruning an agent that is not the first of the list loses the state of another one**: `DeleteSubrange(i, i+1)` deletes
`i + 1` agents. -/
theorem prune_loses_draining : ∃ b b',
    draining.foldl (Batch.step Rules.plain) (some (Batch.start {})) = some b ∧ b.registry.Has "c" drainedState ∧
    (Operation.prune ["b"] []).Spares "c" ∧ (Operation.markSlaveReachable ⟨"c", []⟩).Spares "c" ∧
    [Step.perform (.prune ["b"] []), .perform (.markSlaveReachable ⟨"c", []⟩)].foldl (Batch.step Rules.plain) (some b) =
      some b' ∧ ¬ b'.registry.Has "c" drainedState ∧ b'.registry.Has "c" {} := by
  refine ⟨_, _, rfl, ⟨by decide, by decide⟩, ?_, trivial, rfl, ?_, by decide, by decide⟩
  · show "c" ∉ ["b"]
    decide
  · intro h
    exact nomatch h.2 {} (by decide)

end Clusterd.Master

/-!
# Quotas in the registry

Whatever quotas are updated, the registry has at most one config for a role, the last one written, and the role is not in
the legacy list any more.
-/
namespace Clusterd.Master

open List

variable {r r' : Registry} {rules : Rules} {config : QuotaConfig} {configs : List QuotaConfig} {b : Batch}

def Registry.quotaOf (r : Registry) (role : String) : Option QuotaConfig := r.quotaConfigs.find? (·.role == role)

structure Registry.Quoted (r : Registry) : Prop where
  configs : (r.quotaConfigs.map (·.role)).Nodup
  quotas : (r.quotas.map (·.role)).Nodup
  migrated : ∀ quota ∈ r.quotas, r.quotaOf quota.role = none

/-- `QUOTA_V2` is asked for, once, as long as there is a config. -/
def Registry.AsksQuota (r : Registry) : Prop :=
  r.minimumCapabilities.count "QUOTA_V2" = if r.quotaConfigs = [] then 0 else 1

/-- What is there for a role after some writes: what the last of them to the role left, or what was there before. -/
structure Written (r : Registry) (writes : List QuotaConfig) (r' : Registry) : Prop where
  quoted : r'.Quoted
  last : ∀ role, r'.quotaOf role = ((writes.filter (·.role == role)).getLast?.map fun config =>
    if config.isDefault then none else some config).getD (r.quotaOf role)

theorem Written.trans {r'' : Registry} {writes writes' : List QuotaConfig} (h : Written r writes r')
    (h' : Written r' writes' r'') : Written r (writes ++ writes') r'' where
  quoted := h'.quoted
  last role := by
    rw [h'.last, filter_append, getLast?_append]
    cases (writes'.filter (·.role == role)).getLast? with
    | none => exact h.last role
    | some => rfl

theorem modifyFirst_perm {α : Type} {p : α → Bool} {b : α} : ∀ {l : List α}, l.any p = true →
    (modifyFirst p (fun _ => b) l).Perm (b :: l.eraseP p)
  | x :: l, h => by
    rw [modifyFirst, eraseP_cons]
    cases hx : p x with
    | true => exact .refl _
    | false =>
      rw [any_cons, hx] at h
      exact ((modifyFirst_perm h).cons x).trans (.swap ..)

theorem quotaOf_applyQuota (h : (r.quotaConfigs.map (·.role)).Nodup) :
    ((applyQuota r config).quotaConfigs.map (·.role)).Nodup ∧ ∀ role, (applyQuota r config).quotaOf role =
      if role = config.role then if config.isDefault then none else some config else r.quotaOf role := by
  unfold Registry.quotaOf applyQuota
  cases hd : config.isDefault with
  | true => exact ⟨h.sublist (eraseP_sublist.map _), Keyed.find?_eraseP h config.role⟩
  | false =>
    cases ha : r.quotaConfigs.any (·.role = config.role) with
    | true => exact Keyed.find?_cons_eraseP h (modifyFirst_perm ha)
    | false =>
      refine Keyed.find?_cons_new h (Keyed.find?_eq_none.2 ?_) (perm_append_singleton ..)
      simpa using ha

/-- **One config is written.** -/
theorem written_apply (h : r.Quoted) : Written r [config] (applyQuota r config) := by
  obtain ⟨hn, hq⟩ := @quotaOf_applyQuota r config h.configs
  refine ⟨⟨hn, h.quotas.sublist (eraseP_sublist.map _), fun quota hm => ?_⟩, fun role => (hq role).trans ?_⟩
  · have hno := Keyed.find?_eraseP h.quotas config.role config.role
    rw [hq, if_neg (Keyed.find?_eq_none.1 (hno.trans (if_pos rfl)) quota hm)]
    exact h.migrated quota (eraseP_subset hm)
  · by_cases hr : role = config.role
    · simp [hr]
    · simp [hr, Ne.symm hr]

theorem written_foldl : ∀ {configs : List QuotaConfig} {r : Registry}, r.Quoted →
    Written r configs (configs.foldl applyQuota r)
  | [], _, h => ⟨h, fun _ => rfl⟩
  | _ :: _, _, h => (written_apply h).trans (written_foldl (written_apply h).quoted)

/-- No config is invalid. -/
def Rules.admits (rules : Rules) (configs : List QuotaConfig) : Bool :=
  configs.all fun config => (validateQuota rules config).isNone

theorem findSome?_quotaError : configs.findSome? (quotaError rules) = none ↔ rules.admits configs = true := by
  simp [Rules.admits, quotaError]

theorem Batch.step_refused (b : Batch) (h : rules.admits configs = false) :
    step rules (some b) (.perform (.updateQuota configs)) = some b := by
  obtain ⟨_, hf⟩ := Option.ne_none_iff_exists'.1 (mt findSome?_quotaError.1 (Bool.eq_false_iff.1 h))
  show Option.map _ (updateQuota rules configs b.registry b.slaveIDs) = _
  rw [updateQuota, hf]
  rfl

theorem Batch.step_admitted (h : rules.admits configs = true) (hq : b.registry.Quoted) (ha : b.registry.AsksQuota) :
    ∃ b', step rules (some b) (.perform (.updateQuota configs)) = some b' ∧
      Written b.registry configs b'.registry ∧ b'.registry.AsksQuota := by
  obtain ⟨quotas, quotaConfigs, hfo⟩ := foldl_applyQuota configs b.registry
  obtain ⟨hs, hw⟩ := @written_foldl configs _ hq
  show ∃ b', Option.map _ (updateQuota rules configs b.registry b.slaveIDs) = some b' ∧ _
  rw [updateQuota, findSome?_quotaError.2 h]
  refine ⟨_, rfl, ⟨⟨hs.configs, hs.quotas, hs.migrated⟩, hw⟩, ?_⟩
  have hle : b.registry.minimumCapabilities.count "QUOTA_V2" ≤ 1 := by
    rw [ha]
    split_ifs <;> decide
  rw [hfo, Registry.AsksQuota]
  by_cases hn : quotaConfigs = []
  · simp only [hn, ne_eq, not_true, if_false, if_true]
    exact count_erase_self.trans (by omega)
  · simp only [hn, ne_eq, not_false_eq_true, if_true, if_false]
    exact count_addMinimumCapability hle

/-- A quota of one of two roles that have legacy quotas. -/
def cpusQuota : QuotaConfig := { role := "a", guarantees := [("cpus", .finite 2)], limits := [("cpus", .finite 4)] }

end Clusterd.Master
