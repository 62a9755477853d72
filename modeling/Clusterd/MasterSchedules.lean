import Clusterd.MasterLists
/-!
# Schedules and machines

The list of machines and the stored schedules stay in step (`Registry.InStep`): `UpdateSchedule` tells from the old
schedules which machines are new, and edits the list of machines.  The schedules it is given have been validated against
the registry it finds.
-/
namespace Clusterd.Master

open List Schedule Batch MachineID

/-! ## The loops -/

variable {α : Type} {machines : List MachineInfo}

theorem reverseLoop_eq (f : α → Option α) : ∀ (i : Nat) (xs : List α), i ≤ xs.length →
    reverseLoop f i xs = (xs.take i).filterMap f ++ xs.drop i
  | 0, xs, _ => rfl
  | i + 1, xs, h => by
    obtain ⟨pre, x, post, rfl, rfl⟩ : ∃ pre x post, xs = pre ++ x :: post ∧ pre.length = i :=
      ⟨xs.take i, xs[i], xs.drop (i + 1), by rw [getElem_cons_drop, take_append_drop], by simp; omega⟩
    have hget : (pre ++ x :: post)[pre.length]? = some x := by simp
    have he : (pre ++ x :: post).eraseIdx pre.length = pre ++ post := by
      rw [eraseIdx_append_of_length_le (Nat.le_refl _), Nat.sub_self]
      rfl
    have hset : ∀ y, (pre ++ x :: post).set pre.length y = pre ++ y :: post := fun _ => by
      rw [set_append_right _ _ (Nat.le_refl _), Nat.sub_self]
      rfl
    have ht : (pre ++ x :: post).take (pre.length + 1) = pre ++ [x] := by
      rw [append_cons, take_left' (by simp)]
    have hd : (pre ++ x :: post).drop (pre.length + 1) = post := by
      rw [append_cons, drop_left' (by simp)]
    unfold reverseLoop
    rw [hget, ht, hd, filterMap_append, Option.map_some]
    cases hf : f x with
    | none =>
      rw [he, reverseLoop_eq f _ _ (by simp), filterMap_cons_none hf]
      simp
    | some =>
      dsimp only
      rw [hset, reverseLoop_eq f _ _ (by simp), filterMap_cons_some hf]
      simp

/-- **Going through the list backwards changes or deletes every element as it is.** -/
theorem reverseLoop_all (f : α → Option α) (xs : List α) : reverseLoop f xs.length xs = xs.filterMap f := by
  rw [reverseLoop_eq f _ _ le_rfl, take_length, drop_length, append_nil]

theorem filterMap_unless (p : α → Prop) [DecidablePred p] (xs : List α) :
    xs.filterMap (fun x => if p x then none else some x) = xs.filter fun x => ¬ p x := by
  rw [← filterMap_eq_filter]
  congr 1
  funext x
  by_cases h : p x
  · simp [h, Option.guard]
  · simp [h, Option.guard]

/-! ## Validation -/

namespace Validation

variable {rules : Rules}

theorem windowMachines_ok : ∀ {ids : List MachineID} {updated updated' : List (Option String × Option String)},
    windowMachines rules ids updated = .ok updated' →
      updated' = updated ++ ids.map key ∧ (updated.Nodup → updated'.Nodup)
  | [], updated, updated', h => by
    cases h
    simp
  | id :: ids, updated, updated', h => by
    unfold windowMachines at h
    split at h
    · cases h
    split at h
    · cases h
    rename_i hnew
    obtain ⟨heq, hno⟩ := windowMachines_ok h
    refine ⟨by rw [heq, append_assoc]; rfl, fun hn => hno ?_⟩
    exact nodup_append_comm.1 (nodup_cons.2 ⟨hnew, hn⟩)

theorem windows_ok : ∀ {ws : List Window} {updated updated' : List (Option String × Option String)},
    windows rules ws updated = .ok updated' →
      updated' = updated ++ ws.flatMap (fun w => w.machineIds.map key) ∧
        (updated.Nodup → updated'.Nodup) ∧ ∀ w ∈ ws, w.machineIds ≠ []
  | [], updated, updated', h => by
    cases h
    simp
  | w :: ws, updated, updated', h => by
    unfold windows at h
    split at h
    · cases h
    rename_i hne
    split at h
    · cases h
    split at h
    · cases h
    rename_i hw
    obtain ⟨heq, hno⟩ := windowMachines_ok hw
    obtain ⟨heq', hno', hr⟩ := windows_ok h
    refine ⟨by rw [heq', heq, flatMap_cons, append_assoc], fun hn => hno' (hno hn), ?_⟩
    intro w' hw'
    rcases mem_cons.1 hw' with rfl | hw'
    · exact hne
    · exact hr w' hw'

/-- **A valid schedule** names every machine once, has no empty window, and leaves no machine out that is down. -/
theorem schedule_ok {s : Schedule} (h : schedule rules s machines = .ok ()) :
    s.keys.Nodup ∧ (∀ w ∈ s.windows, w.machineIds ≠ []) ∧
      ∀ m ∈ machines, m.mode = some .down → m.id.key ∈ s.keys := by
  have hk : s.keys = s.windows.flatMap fun w => w.machineIds.map key := by
    unfold Schedule.keys entries
    rw [map_flatMap]
    congr 1
    funext w
    rw [map_map]
    rfl
  unfold schedule at h
  split at h
  · cases h
  rename_i hw
  obtain ⟨heq, hn, hne⟩ := windows_ok hw
  subst heq
  rw [← hk] at hn h
  split at h
  · cases h
  rename_i hno
  refine ⟨hn nodup_nil, hne, fun m hm hd => ?_⟩
  have := find?_eq_none.1 hno m hm
  simpa [hd] using this

end Validation

/-! ## In step -/

def Registry.scheduled (r : Registry) : List (MachineID × Unavailability) := r.schedules.flatMap Schedule.entries

def Registry.machineKeys (r : Registry) : List (Option String × Option String) := r.machines.map (·.id.key)

/-- **The machines and the schedules are in step.** -/
structure Registry.InStep (r : Registry) : Prop where
  /-- no machine is scheduled twice, so it is in one window only -/
  scheduled_once : (r.scheduled.map (·.1.key)).Nodup
  /-- no machine is listed twice -/
  listed_once : r.machineKeys.Nodup
  /-- a machine is listed if and only if it is scheduled -/
  listed_iff : ∀ k, k ∈ r.machineKeys ↔ k ∈ r.scheduled.map (·.1.key)
  /-- with the unavailability of its window -/
  unavailability : ∀ m ∈ r.machines, ∀ e ∈ r.scheduled, e.1.key = m.id.key → m.unavailability = some e.2
  mode : ∀ m ∈ r.machines, m.mode = some .draining ∨ m.mode = some .down
  windows : ∀ s ∈ r.schedules, ∀ w ∈ s.windows, w.machineIds ≠ []

theorem Registry.InStep.empty : Registry.InStep {} where
  scheduled_once := nodup_nil
  listed_once := nodup_nil
  listed_iff _ := .rfl
  unavailability _ h := nomatch h
  mode _ h := nomatch h
  windows _ h := nomatch h

variable {r : Registry}

theorem Registry.InStep.congr {r' : Registry} (h : r.InStep) (hm : r'.machines = r.machines)
    (hs : r'.schedules = r.schedules) : r'.InStep := by
  obtain ⟨_, _, _, _, _, _⟩ := h
  refine ⟨?_, ?_, ?_, ?_, ?_, ?_⟩ <;> simpa only [scheduled, machineKeys, hm, hs]

/-! ## `UpdateSchedule` -/

variable {k : Option String × Option String} {s : Schedule}

theorem mem_keys : k ∈ s.keys ↔ ∃ e ∈ s.entries, e.1.key = k := by
  exact mem_map

theorem updated_of_mem (h : s.keys.Nodup) {e : MachineID × Unavailability} (he : e ∈ s.entries) :
    s.updated e.1.key = some e.2 := by
  unfold updated
  obtain ⟨e', he'⟩ : ∃ e', s.entries.reverse.find? (·.1.key = e.1.key) = some e' :=
    Option.isSome_iff_exists.1 (find?_isSome.2 ⟨e, mem_reverse.2 he, decide_eq_true rfl⟩)
  have hkey : e'.1.key = e.1.key := by simpa using find?_some he'
  have hmem : e' ∈ s.entries := mem_reverse.1 (mem_of_find?_eq_some he')
  rw [he', inj_on_of_nodup_map h hmem he hkey]
  rfl

theorem updated_eq_none (h : k ∉ s.keys) : s.updated k = none := by
  unfold updated
  rw [find?_eq_none.2, Option.map_none]
  intro e he hk
  exact h (mem_keys.2 ⟨e, mem_reverse.1 he, of_decide_eq_true hk⟩)

theorem updated_isSome (h : s.keys.Nodup) : (s.updated k).isSome = true ↔ k ∈ s.keys := by
  by_cases hk : k ∈ s.keys
  · obtain ⟨_, he, rfl⟩ := mem_keys.1 hk
    simp [updated_of_mem h he, hk]
  · simp [updated_eq_none hk, hk]

def kept (s : Schedule) (machines : List MachineInfo) : List MachineInfo :=
  machines.filterMap fun m => (s.updated m.id.key).map fun unavailability =>
    { m with unavailability := some unavailability }

def added (s : Schedule) (existing : List (Option String × Option String)) : List MachineInfo :=
  (s.entries.filter fun e => e.1.key ∉ existing).map fun e =>
    { id := e.1, mode := some .draining, unavailability := some e.2 }

variable {m : MachineInfo}

theorem mem_kept : m ∈ kept s machines ↔
    ∃ m' ∈ machines, ∃ u, s.updated m'.id.key = some u ∧ { m' with unavailability := some u } = m := by
  unfold kept
  simp [mem_filterMap]

theorem kept_keys_sublist (s : Schedule) : ∀ machines : List MachineInfo,
    ((kept s machines).map (·.id.key)).Sublist (machines.map (·.id.key))
  | [] => List.Sublist.refl _
  | m :: machines => by
    have ih := kept_keys_sublist s machines
    unfold kept at ih ⊢
    cases hm : s.updated m.id.key with
    | none =>
      rw [filterMap_cons_none (by rw [hm]; rfl)]
      exact ih.cons _
    | some =>
      rw [filterMap_cons_some (by rw [hm]; rfl)]
      exact ih.cons_cons _

theorem mem_kept_keys (h : s.keys.Nodup) :
    k ∈ (kept s machines).map (·.id.key) ↔ k ∈ machines.map (·.id.key) ∧ k ∈ s.keys := by
  simp only [mem_map, mem_kept]
  constructor
  · rintro ⟨_, ⟨m, hm, u, hu, rfl⟩, rfl⟩
    exact ⟨⟨m, hm, rfl⟩, (updated_isSome h).1 (by rw [hu]; rfl)⟩
  · rintro ⟨⟨m, hm, rfl⟩, hk⟩
    obtain ⟨u, hu⟩ := Option.isSome_iff_exists.1 ((updated_isSome h).2 hk)
    exact ⟨_, ⟨m, hm, u, hu, rfl⟩, rfl⟩

theorem mem_added {existing : List (Option String × Option String)} :
    m ∈ added s existing ↔ ∃ e ∈ s.entries, e.1.key ∉ existing ∧
      { id := e.1, mode := some .draining, unavailability := some e.2 } = m := by
  unfold added
  simp [and_assoc]

theorem added_keys (s : Schedule) (existing : List (Option String × Option String)) :
    (added s existing).map (·.id.key) = s.keys.filter fun k => k ∉ existing := by
  unfold added Schedule.keys
  rw [map_map, filter_map]
  rfl

theorem updateSchedule_eq (s : Schedule) (r : Registry) (ids : Finset SlaveID) : updateSchedule s r ids =
      some ⟨.ok true,
        { r with machines := kept s r.machines ++ added s (r.scheduled.map (·.1.key)), schedules := [s] }, ids⟩ := by
  unfold updateSchedule kept Registry.scheduled
  rw [reverseLoop_all, map_flatMap]
  rfl

variable {ids : Finset SlaveID} {p : Performed}

theorem Registry.InStep.updateSchedule (h : r.InStep)
    (hs : s.keys.Nodup) (hne : ∀ w ∈ s.windows, w.machineIds ≠ []) (hp : updateSchedule s r ids = some p) :
    p.registry.InStep := by
  rw [updateSchedule_eq] at hp
  cases hp
  have hsc : [s].flatMap entries = s.entries := flatMap_singleton _ _
  have hke : (kept s r.machines ++ added s (r.scheduled.map (·.1.key))).map (·.id.key) =
      (kept s r.machines).map (·.id.key) ++ s.keys.filter fun k => k ∉ r.scheduled.map (·.1.key) := by
    rw [map_append, added_keys]
  refine ⟨?_, ?_, fun k => ?_, fun m hm e he hk => ?_, fun _ hm => ?_, ?_⟩
  · show (([s].flatMap entries).map _).Nodup
    rw [hsc]
    exact hs
  · unfold machineKeys
    rw [hke]
    refine List.Nodup.append (h.listed_once.sublist (kept_keys_sublist s _)) (hs.filter _) fun k hk hk' => ?_
    have hold := (h.listed_iff k).1 ((kept_keys_sublist s _).subset hk)
    exact absurd hold (of_decide_eq_true (mem_filter.1 hk').2)
  · show k ∈ map _ (_ ++ _) ↔ k ∈ ([s].flatMap entries).map _
    rw [hke, mem_append, mem_kept_keys hs, mem_filter, hsc]
    have hold := h.listed_iff k
    rw [decide_eq_true_eq]
    tauto
  · have he : e ∈ s.entries := hsc ▸ he
    rcases mem_append.1 hm with hm | hm
    · obtain ⟨_, -, u, hu, rfl⟩ := mem_kept.1 hm
      rw [← hu, ← hk, updated_of_mem hs he]
    · obtain ⟨_, he', -, rfl⟩ := mem_added.1 hm
      rw [inj_on_of_nodup_map hs he he' hk]
  · rcases mem_append.1 hm with hm | hm
    · obtain ⟨m', hm', _, -, rfl⟩ := mem_kept.1 hm
      exact h.mode m' hm'
    · obtain ⟨_, -, -, rfl⟩ := mem_added.1 hm
      exact .inl rfl
  · intro _ hs'
    rw [mem_singleton.1 hs']
    exact hne

/-! ## `StartMaintenance` and `StopMaintenance` -/

theorem Registry.InStep.startMaintenance {machines : List MachineID}
    (h : r.InStep) (hp : startMaintenance machines r ids = some p) : p.registry.InStep := by
  cases hp
  have hmem : ∀ {m}, m ∈ r.machines.map (fun m =>
      if Named machines m.id then { m with mode := some .down } else m) →
      ∃ m' ∈ r.machines, m.id = m'.id ∧ m.unavailability = m'.unavailability ∧
        (m.mode = m'.mode ∨ m.mode = some .down) := by
    intro m hm
    obtain ⟨m', hm', rfl⟩ := mem_map.1 hm
    refine ⟨m', hm', ?_⟩
    split
    · exact ⟨rfl, rfl, .inr rfl⟩
    · exact ⟨rfl, rfl, .inl rfl⟩
  have hke : (r.machines.map fun m => if Named machines m.id then { m with mode := some .down } else m).map
      (·.id.key) = r.machineKeys := by
    rw [map_map]
    refine map_congr_left fun m _ => ?_
    dsimp only [Function.comp]
    split
    · rfl
    · rfl
  refine ⟨h.scheduled_once, ?_, fun k => ?_, fun m hm e he hk => ?_, fun _ hm => ?_, h.windows⟩
  · show (map _ _).Nodup
    rw [hke]
    exact h.listed_once
  · show k ∈ map _ _ ↔ _
    rw [hke]
    exact h.listed_iff k
  · obtain ⟨m', hm', hid, hu, -⟩ := hmem hm
    rw [hu]
    exact h.unavailability m' hm' e he (hid ▸ hk)
  · obtain ⟨m', hm', -, -, hmo | hmo⟩ := hmem hm
    · rw [hmo]
      exact h.mode m' hm'
    · exact .inr hmo

variable (machines : List MachineID)

theorem Window.without_eq (w : Window) : Window.without machines w =
      if (w.machineIds.filter fun id => ¬ Named machines id) = [] then none
      else some { w with machineIds := w.machineIds.filter fun id => ¬ Named machines id } := by
  unfold Window.without
  rw [reverseLoop_all, filterMap_unless]

theorem without_entries : ∀ ws : List Window,
    entries ⟨ws.filterMap (Window.without machines)⟩ = (entries ⟨ws⟩).filter fun e => ¬ Named machines e.1
  | [] => rfl
  | w :: ws => by
    have ih := without_entries ws
    have hw : ∀ ws, entries ⟨w :: ws⟩ = w.machineIds.map (fun id => (id, w.unavailability)) ++
        entries ⟨ws⟩ := fun _ => rfl
    have hf : (w.machineIds.map fun id => (id, w.unavailability)).filter (fun e => ¬ Named machines e.1) =
        (w.machineIds.filter fun id => ¬ Named machines id).map fun id => (id, w.unavailability) := by
      rw [filter_map]
      rfl
    rw [hw, filter_append, hf, ← ih]
    by_cases hnil : (w.machineIds.filter fun id => ¬ Named machines id) = []
    · rw [filterMap_cons_none (by rw [Window.without_eq, if_pos hnil]), hnil]
      rfl
    · rw [filterMap_cons_some (by rw [Window.without_eq, if_neg hnil])]
      rfl

theorem Schedule.without_eq (s : Schedule) : without machines s =
      if s.windows.filterMap (Window.without machines) = [] then none
      else some { windows := s.windows.filterMap (Window.without machines) } := by
  unfold without
  rw [reverseLoop_all]

theorem scheduled_without : ∀ ss : List Schedule,
    (ss.filterMap (without machines)).flatMap entries = (ss.flatMap entries).filter fun e => ¬ Named machines e.1
  | [] => rfl
  | s :: ss => by
    have ih := scheduled_without ss
    rw [flatMap_cons, filter_append, ← ih, ← without_entries machines s.windows]
    by_cases hnil : s.windows.filterMap (Window.without machines) = []
    · rw [filterMap_cons_none (by rw [without_eq, if_pos hnil]), hnil]
      rfl
    · rw [filterMap_cons_some (by rw [without_eq, if_neg hnil]), flatMap_cons]

theorem stopMaintenance_eq (r : Registry) (ids : Finset SlaveID) :
    stopMaintenance machines r ids = some ⟨.ok (r.machines.any (Named machines ·.id)),
        { r with
          machines := r.machines.filter fun m => ¬ Named machines m.id
          schedules := r.schedules.filterMap (without machines) }, ids⟩ := by
  unfold stopMaintenance
  rw [reverseLoop_all, reverseLoop_all, filterMap_unless]

theorem Registry.InStep.stopMaintenance {machines : List MachineID}
    (h : r.InStep) (hp : stopMaintenance machines r ids = some p) : p.registry.InStep := by
  rw [stopMaintenance_eq] at hp
  cases hp
  have hke : (r.machines.filter fun m => ¬ Named machines m.id).map (·.id.key) =
      r.machineKeys.filter fun k => k ∉ machines.map key := by
    unfold machineKeys
    rw [filter_map]
    rfl
  have hsc : ((r.scheduled.filter fun e => ¬ Named machines e.1).map (·.1.key)) =
      (r.scheduled.map (·.1.key)).filter fun k => k ∉ machines.map key := by
    rw [filter_map]
    rfl
  have hen := scheduled_without machines r.schedules
  refine ⟨?_, ?_, fun k => ?_, fun m hm e he hk => ?_, fun m hm => h.mode m (mem_of_mem_filter hm), ?_⟩
  · show (map _ (flatMap _ _)).Nodup
    rw [hen]
    exact hsc ▸ h.scheduled_once.filter _
  · show (map _ _).Nodup
    rw [hke]
    exact h.listed_once.filter _
  · show k ∈ map _ _ ↔ k ∈ map _ (flatMap _ _)
    rw [hke, hen]
    show _ ↔ k ∈ (r.scheduled.filter fun e => ¬ Named machines e.1).map (·.1.key)
    rw [hsc, mem_filter, mem_filter, h.listed_iff k]
  · have he : e ∈ (r.scheduled.filter fun e => ¬ Named machines e.1) := hen ▸ he
    exact h.unavailability m (mem_of_mem_filter hm) e (mem_of_mem_filter he) hk
  intro _ hs' _ hw
  obtain ⟨_, -, hs⟩ := mem_filterMap.1 hs'
  rw [without_eq] at hs
  split at hs
  · cases hs
  cases hs
  obtain ⟨_, -, hw'⟩ := mem_filterMap.1 hw
  rw [Window.without_eq] at hw'
  split at hw'
  · cases hw'
  next hne =>
    cases hw'
    exact hne

/-! ## Runs -/

/-- The schedules of `UpdateSchedule` pass the validation, against the registry that the operation finds. -/
def Registry.Validated (rules : Rules) (r : Registry) (o : Operation) : Prop :=
  ∀ s, o = .updateSchedule s → Validation.schedule rules s r.machines = .ok ()

def Operation.maintenance : Operation → Bool
  | .updateSchedule _ | .startMaintenance _ | .stopMaintenance _ => true
  | _ => false

variable {o : Operation} {rules : Rules}

theorem maintenance_kept (ho : o.maintenance = false) (hp : o.perform rules r ids = some p) :
    p.registry.machines = r.machines ∧ p.registry.schedules = r.schedules := by
  have hch : ∀ id f, (changeAgent id f r ids).1.machines = r.machines ∧
      (changeAgent id f r ids).1.schedules = r.schedules := by
    intro id f
    unfold changeAgent
    split
    · exact ⟨rfl, rfl⟩
    · exact ⟨rfl, rfl⟩
  cases Operation.outcome hp with
  | deactivated _ id f => exact hch id f
  | drained id => exact hch id _
  | unrelated o _ _ hun =>
    cases o with
    | recover | updateWeights =>
      cases hp
      exact ⟨rfl, rfl⟩
    | updateQuota configs =>
      have hp : updateQuota rules configs r ids = some _ := hp
      unfold updateQuota at hp
      obtain ⟨_, _, hf⟩ := foldl_applyQuota configs r
      rw [hf] at hp
      split at hp
      · cases hp
      · cases hp
        exact ⟨rfl, rfl⟩
    | updateSchedule | startMaintenance | stopMaintenance => cases ho
    | _ => cases hun
  | _ => exact ⟨rfl, rfl⟩

theorem Registry.InStep.step
    (h : r.InStep) (hv : r.Validated rules o) (hp : o.perform rules r ids = some p) : p.registry.InStep := by
  cases hm : o.maintenance with
  | false =>
    obtain ⟨hma, hsc⟩ := maintenance_kept hm hp
    exact h.congr hma hsc
  | true =>
    cases o with
    | updateSchedule s =>
      obtain ⟨hs, hne, -⟩ := Validation.schedule_ok (hv s rfl)
      exact h.updateSchedule hs hne hp
    | startMaintenance => exact h.startMaintenance hp
    | stopMaintenance => exact h.stopMaintenance hp
    | _ => cases hm

def Registry.Down (r : Registry) (id : MachineID) : Prop := ∃ m ∈ r.machines, m.id.key = id.key ∧ m.mode = some .down

def Operation.Holds (id : MachineID) (o : Operation) : Prop :=
  ∀ machines, o = .stopMaintenance machines → ¬ Named machines id

theorem Registry.Down.step
    {id : MachineID} (h : r.Down id) (hv : r.Validated rules o) (hh : o.Holds id) (hp : o.perform rules r ids = some p) :
    p.registry.Down id := by
  obtain ⟨m, hm, hid, hd⟩ := h
  cases hma : o.maintenance with
  | false =>
    obtain ⟨hmac, -⟩ := maintenance_kept hma hp
    exact ⟨m, hmac ▸ hm, hid, hd⟩
  | true =>
    cases o with
    | updateSchedule s =>
      have hp : updateSchedule s r ids = some p := hp
      obtain ⟨hs, -, hin⟩ := Validation.schedule_ok (hv s rfl)
      obtain ⟨u, hu⟩ := Option.isSome_iff_exists.1 ((updated_isSome hs).2 (hin m hm hd))
      rw [updateSchedule_eq] at hp
      cases hp
      exact ⟨_, mem_append_left _ (mem_kept.2 ⟨m, hm, u, hu, rfl⟩), hid, hd⟩
    | startMaintenance =>
      cases hp
      refine ⟨_, mem_map_of_mem hm, ?_, ?_⟩
      · split
        · exact hid
        · exact hid
      · split
        · rfl
        · exact hd
    | stopMaintenance machines =>
      have hp : stopMaintenance machines r ids = some p := hp
      rw [stopMaintenance_eq] at hp
      cases hp
      refine ⟨m, mem_filter.2 ⟨hm, decide_eq_true ?_⟩, hid, hd⟩
      have hnot := hh machines rfl
      unfold Named at hnot ⊢
      rw [hid]
      exact hnot
    | _ => cases hma

/-- **The schedules and the machines stay in step.**  From an empty registry, if the schedules of `UpdateSchedule` pass the
validation, then after every operation exactly the scheduled machines are listed, each once, with the unavailability of
the one window it is in, draining or down, and no window is empty; and a machine that is down stays so along any further
operations until its maintenance is stopped. -/
theorem Batch.schedules_in_step (rules : Rules) (es : List Step) (b : Batch)
    (h : Run.Along (Batch.step rules) (Batch.Meets (Registry.Validated rules)) (some (Batch.start {})) es)
    (hb : es.foldl (Batch.step rules) (some (Batch.start {})) = some b) :
    b.registry.InStep ∧
    ∀ (id : MachineID) (es' : List Step) (b' : Batch), b.registry.Down id →
      Run.Along (Batch.step rules) (Batch.Meets fun r o => r.Validated rules o ∧ o.Holds id) (some b) es' →
      es'.foldl (Batch.step rules) (some b) = some b' → b'.registry.Down id := by
  refine ⟨?_, fun id es' _ hdown hrun hb' => ?_⟩
  · refine Batch.invariant (I := fun r _ => r.InStep) (fun _ _ hI => hI) ?_ es .empty h hb
    intro r ids o p hI hv hp
    exact hI.step hv hp
  · refine Batch.invariant (I := fun r _ => r.Down id) (fun _ _ hI => hI) ?_ es' hdown hrun hb'
    intro _ _ _ _ hI hC hp
    exact hI.step hC.1 hC.2 hp

def outage : List Step :=
  [.perform (.updateSchedule ⟨[⟨[{ ip := some "10.0.0.1" }, { ip := some "10.0.0.2" }], { start := 1 }⟩]⟩),
    .perform (.startMaintenance [{ ip := some "10.0.0.1" }]),
    .perform (.updateSchedule
      ⟨[⟨[{ ip := some "10.0.0.1" }], { start := 1 }⟩, ⟨[{ ip := some "10.0.0.2" }], { start := 2 }⟩]⟩)]

theorem schedules_in_step_outage : ∃ b, outage.foldl (Batch.step Rules.plain) (some (Batch.start {})) = some b ∧
    b.registry.machines.length = 2 ∧ b.registry.Down { ip := some "10.0.0.1" } ∧ b.registry.InStep := by
  refine ⟨_, rfl, by decide, ?_, (Batch.schedules_in_step Rules.plain outage _ ⟨?_, ?_, ?_, trivial⟩ rfl).1⟩
  · unfold Registry.Down
    decide
  · rintro _ ⟨⟩ _ ⟨⟩ _ ⟨⟩
    decide
  · rintro _ ⟨⟩ _ ⟨⟩ _ ⟨⟩
  · rintro _ ⟨⟩ _ ⟨⟩ _ ⟨⟩
    decide

end Clusterd.Master
