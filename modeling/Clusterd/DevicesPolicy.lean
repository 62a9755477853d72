import Clusterd.DevicesManager
import Clusterd.Ledger
/-!
# The lists of the device manager carry out the policy

One addition and one removal at a time, then `apply_diff`, then the calls.
-/
namespace Clusterd.Devices

open List Selector

def WildcardFree (entries : List Entry) : Prop := ∀ entry ∈ entries, entry.selector.hasWildcard = false

namespace CgroupDeviceAccess

/-- What `is_access_granted` and `apply_diff` count on. -/
structure Wf (this : CgroupDeviceAccess) : Prop where
  allow : normalized this.allowList = true
  deny : normalized this.denyList = true
  wildcards : WildcardFree this.denyList

def permits (this : CgroupDeviceAccess) : Grants := fun device bit =>
  Covers this.allowList device bit ∧ ¬Covers this.denyList device bit

@[simp]
theorem selector_query (device : Device) (bit : Bit) : (query device bit).selector = device.selector := rfl

theorem has_query {device : Device} {bit other : Bit} : (query device bit).access.has other = true ↔ bit = other := by
  cases bit <;> cases other <;> simp [query, Access.has]

variable {this : CgroupDeviceAccess}

theorem isAccessGranted_query (h : Wf this) : this.grants = this.permits := by
  funext device bit
  have ha : (this.allowList.any fun allow => allow.encompasses (query device bit)) = true ↔
      Covers this.allowList device bit := by
    simp [Entry.encompasses_iff, has_query, Covers, selector_query]
  have hd : (this.denyList.any fun deny => deny.selector.encompasses (query device bit).selector &&
      deny.access.overlaps (query device bit).access) = true ↔ Covers this.denyList device bit := by
    simp [Access.overlaps_iff, has_query, Covers, exists_eq_right', selector_query]
  refine propext ?_
  rw [grants, isAccessGranted, h.allow, h.deny, permits, ← ha, ← hd]
  simp

theorem isAccessGranted_isSome (h : Wf this) (query : Entry) : (this.isAccessGranted query).isSome = true := by
  rw [isAccessGranted, h.allow, h.deny]
  rfl

end CgroupDeviceAccess

/-! ## Revoking -/

variable {entries : List Entry} {device target : Device} {bit : Bit} {access : Access}

def revoke (diff entry : Entry) : Entry :=
  if entry.selector = diff.selector then { entry with access := entry.access.minus diff.access } else entry

theorem selector_revoke (diff entry : Entry) : (revoke diff entry).selector = entry.selector := by
  rw [revoke]
  split_ifs <;> rfl

theorem revokeAccesses_eq (target : Device) (access : Access) {entry : Entry}
    (hen : entry.selector.hasWildcard = false) :
    revokeAccesses ⟨target.selector, access⟩ entry = some (revoke ⟨target.selector, access⟩ entry) := by
  have hs : (entry.selector.major = target.selector.major ∧ entry.selector.minor = target.selector.minor ∧
      entry.selector.type = target.selector.type) ↔ entry.selector = target.selector := by
    rw [mk.injEq]
    tauto
  simp only [revokeAccesses, revoke, hen, hasWildcard_device, Bool.or_self, Bool.false_eq_true, if_false, hs]
  split_ifs <;> rfl

theorem covers_revoke {entry : Entry} (hen : entry.selector.hasWildcard = false) :
    ((revoke ⟨target.selector, access⟩ entry).selector.encompasses device.selector = true ∧
      (revoke ⟨target.selector, access⟩ entry).access.has bit = true) ↔
    (entry.selector.encompasses device.selector = true ∧ entry.access.has bit = true) ∧
      ¬(target = device ∧ access.has bit = true) := by
  rw [selector_revoke, encompasses_device hen, revoke]
  by_cases hd : entry.selector = device.selector
  · by_cases hta : target = device
    · subst hta
      simp [hd]
    · have hne : device.selector ≠ target.selector := fun h => hta (Device.selector_inj h).symm
      simp [hd, hta, hne]
  · simp [hd]

theorem mapM_some {f : Entry → Option Entry} {g : Entry → Entry} :
    ∀ {entries : List Entry}, (∀ entry ∈ entries, f entry = some (g entry)) → entries.mapM f = some (entries.map g)
  | [], _ => rfl
  | entry :: rest, h => by
    rw [mapM_cons, h entry mem_cons_self, mapM_some fun e he => h e (mem_cons_of_mem entry he)]
    rfl

variable {entry : NonWildcardEntry}

theorem lists_singleton : Lists [entry] device bit ↔ entry.selector = device ∧ entry.access.has bit = true := by
  simp [Lists]

theorem lists_cons {rest : List NonWildcardEntry} :
    Lists (entry :: rest) device bit ↔ Lists [entry] device bit ∨ Lists rest device bit := by
  simp [Lists, or_and_right, exists_or]

theorem covers_convertToEntry : Covers [convertToEntry entry] device bit ↔ Lists [entry] device bit := by
  rw [covers_singleton, lists_singleton, convertToEntry, encompasses_device (hasWildcard_device _)]
  exact and_congr_left fun _ => ⟨Device.selector_inj, congrArg Device.selector⟩

variable {state : CgroupDeviceAccess}

theorem covers_map_revoke (h : WildcardFree entries) (entry : NonWildcardEntry) :
    Covers (entries.map (revoke (convertToEntry entry))) device bit ↔
      Covers entries device bit ∧ ¬Lists [entry] device bit := by
  rw [lists_singleton]
  constructor
  · rintro ⟨_, hr, hc⟩
    obtain ⟨old, hold, rfl⟩ := mem_map.mp hr
    obtain ⟨hc, hnot⟩ := (covers_revoke (h old hold)).mp hc
    exact ⟨⟨old, hold, hc⟩, hnot⟩
  · rintro ⟨⟨old, hold, hc⟩, hnot⟩
    exact ⟨_, mem_map_of_mem hold, (covers_revoke (h old hold)).mpr ⟨hc, hnot⟩⟩

/-- A change by a list of entries: no `CHECK` fails, and `effect` says what is permitted after it. -/
def Changes (effect : Prop → Prop → Prop) (state : CgroupDeviceAccess) (entries : List NonWildcardEntry)
    (result : Option CgroupDeviceAccess) : Prop :=
  ∃ after, result = some after ∧ WildcardFree after.denyList ∧
    ∀ device bit, after.permits device bit ↔ effect (Lists entries device bit) (state.permits device bit)

theorem foldlM_changes {effect : Prop → Prop → Prop} {change : CgroupDeviceAccess → Entry → Option CgroupDeviceAccess}
    (hno : ∀ {P}, effect False P ↔ P) (hbo : ∀ {P Q R}, effect Q (effect P R) ↔ effect (P ∨ Q) R)
    (hone : ∀ {state}, WildcardFree state.denyList → ∀ entry, Changes effect state [entry] (change state (convertToEntry entry))) :
    ∀ (entries : List NonWildcardEntry) {state : CgroupDeviceAccess}, WildcardFree state.denyList →
      Changes effect state entries ((entries.map convertToEntry).foldlM change state)
  | [], state, h => ⟨state, rfl, h, fun _ _ => by simp [Lists, hno]⟩
  | entry :: rest, state, h => by
    obtain ⟨_, hm, hf, hpe⟩ := hone h entry
    obtain ⟨after, haf, hf', hpe'⟩ := foldlM_changes hno hbo hone rest hf
    refine ⟨after, by rw [map_cons, foldlM_cons, hm]; exact haf, hf', fun device bit => ?_⟩
    rw [hpe', hpe, @lists_cons _ _ entry rest, hbo]

/-! ## Additions -/

theorem addAccesses_some (h : WildcardFree state.denyList) (addition : NonWildcardEntry) :
    Changes Or state [addition] (addAccesses state (convertToEntry addition)) := by
  have hmm := mapM_some fun entry hen => revokeAccesses_eq addition.selector addition.access (h entry hen)
  refine ⟨⟨state.allowList ++ [convertToEntry addition], state.denyList.map (revoke (convertToEntry addition))⟩,
    by rw [addAccesses, convertToEntry, hmm]; rfl, ?_, fun _ _ => ?_⟩
  · intro _ hen
    obtain ⟨old, hold, rfl⟩ := mem_map.mp hen
    rw [selector_revoke]
    exact h old hold
  · simp only [CgroupDeviceAccess.permits, covers_append, covers_convertToEntry, covers_map_revoke h]
    tauto

/-! ## Removals -/

def revokeAllow (removal allow : Entry) : Entry := if allow.selector.hasWildcard then allow else revoke removal allow

theorem revokeAllowed_some (removal : NonWildcardEntry) : ∀ (entries : List Entry) (accesses : Access),
    ∃ matching, revokeAllowed (convertToEntry removal) accesses entries =
        some (matching, entries.map (revokeAllow (convertToEntry removal))) ∧
      ∀ bit, matching.has bit = true ↔ accesses.has bit = true ∨
        ∃ entry ∈ entries, entry.selector.hasWildcard = true ∧
          entry.selector.encompasses removal.selector.selector = true ∧ entry.access.has bit = true
  | [], accesses => ⟨accesses, rfl, fun bit => by simp⟩
  | allow :: rest, accesses => by
    have hc : ∀ {P : Entry → Prop}, (∃ entry ∈ allow :: rest, P entry) ↔ P allow ∨ ∃ entry ∈ rest, P entry := by
      simp [or_and_right, exists_or]
    by_cases hw : allow.selector.hasWildcard = true
    · obtain ⟨matching, hs, hhas⟩ := revokeAllowed_some removal rest
        (if allow.selector.encompasses removal.selector.selector then accesses.or allow.access else accesses)
      refine ⟨matching, ?_, fun bit => ?_⟩
      · rw [revokeAllowed, if_pos hw]
        show (revokeAllowed (convertToEntry removal)
          (if allow.selector.encompasses removal.selector.selector then accesses.or allow.access else accesses)
          rest).bind _ = _
        rw [hs, map_cons, revokeAllow, if_pos hw]
        rfl
      · rw [hhas, hc, ← or_assoc]
        refine or_congr_left ?_
        split_ifs with hm
        · simp [hw, hm]
        · simp [hm]
    · obtain ⟨matching, hs, hhas⟩ := revokeAllowed_some removal rest accesses
      have hr : revokeAccesses (convertToEntry removal) allow = some (revoke (convertToEntry removal) allow) :=
        revokeAccesses_eq removal.selector removal.access (Bool.eq_false_iff.mpr hw)
      refine ⟨matching, ?_, fun _ => ?_⟩
      · rw [revokeAllowed, if_neg hw, hr, hs, map_cons, revokeAllow, if_neg hw]
        rfl
      · rw [hhas]
        simp [hw]

def CoversWild (entries : List Entry) (device : Device) (bit : Bit) : Prop :=
  ∃ entry ∈ entries, entry.selector.hasWildcard = true ∧ entry.selector.encompasses device.selector = true ∧
    entry.access.has bit = true

theorem CoversWild.covers (h : CoversWild entries device bit) : Covers entries device bit :=
  let ⟨entry, hen, _, hc⟩ := h
  ⟨entry, hen, hc⟩

theorem covers_map_revokeAllow (removal : NonWildcardEntry) :
    Covers (entries.map (revokeAllow (convertToEntry removal))) device bit ↔
      CoversWild entries device bit ∨ (Covers entries device bit ∧ ¬Lists [removal] device bit) := by
  rw [lists_singleton]
  constructor
  · rintro ⟨_, hr, hc⟩
    obtain ⟨old, hold, rfl⟩ := mem_map.mp hr
    rw [revokeAllow] at hc
    split_ifs at hc with hw
    · exact .inl ⟨old, hold, hw, hc⟩
    · obtain ⟨hc, hnot⟩ := (covers_revoke (Bool.eq_false_iff.mpr hw)).mp hc
      exact .inr ⟨⟨old, hold, hc⟩, hnot⟩
  · rintro (⟨_, hold, hw, hc⟩ | ⟨⟨_, hold, hc⟩, hnot⟩)
    · refine ⟨_, mem_map_of_mem hold, ?_⟩
      rwa [revokeAllow, if_pos hw]
    refine ⟨_, mem_map_of_mem hold, ?_⟩
    rw [revokeAllow]
    split_ifs with hw
    · exact hc
    · exact (covers_revoke (Bool.eq_false_iff.mpr hw)).mpr ⟨hc, hnot⟩

theorem removeAccesses_some (h : WildcardFree state.denyList) (removal : NonWildcardEntry) :
    Changes (¬· ∧ ·) state [removal] (removeAccesses state (convertToEntry removal)) := by
  obtain ⟨matching, hs, hhas⟩ := revokeAllowed_some removal state.allowList ⟨false, false, false⟩
  -- What is denied in addition is what is removed and a wildcard allows.
  have hd : ∀ device bit, Covers [⟨removal.selector.selector, removal.access.and matching⟩] device bit ↔
      Lists [removal] device bit ∧ CoversWild state.allowList device bit := by
    intro device bit
    have hno : Access.has ⟨false, false, false⟩ bit = false := by cases bit <;> rfl
    have hc := @covers_convertToEntry device bit ⟨removal.selector, removal.access.and matching⟩
    rw [convertToEntry] at hc
    rw [hc, lists_singleton, lists_singleton, Access.has_and, Bool.and_eq_true, hhas, hno, CoversWild, ← and_assoc]
    refine and_congr_right fun hr => ?_
    rw [hr.1]
    simp
  have hpe : ∀ device bit, (Covers (state.allowList.map (revokeAllow (convertToEntry removal))) device bit ∧
        ¬(Covers state.denyList device bit ∨
          Covers [⟨removal.selector.selector, removal.access.and matching⟩] device bit)) ↔
      ¬Lists [removal] device bit ∧ state.permits device bit := by
    intro device bit
    have hw := @CoversWild.covers state.allowList device bit
    rw [covers_map_revokeAllow, hd, CgroupDeviceAccess.permits]
    tauto
  by_cases hno : (removal.access.and matching).isNone = true
  · refine ⟨⟨state.allowList.map (revokeAllow (convertToEntry removal)), state.denyList⟩, ?_, h, fun device bit => ?_⟩
    · rw [removeAccesses, hs]
      exact if_pos hno
    refine .trans ?_ (hpe device bit)
    rw [CgroupDeviceAccess.permits]
    have he : ¬Covers [⟨removal.selector.selector, removal.access.and matching⟩] device bit := by
      rw [covers_singleton]
      rintro ⟨-, hbit⟩
      rw [Access.isNone_eq_false_iff.mpr ⟨bit, hbit⟩] at hno
      cases hno
    simp [he]
  · refine ⟨⟨state.allowList.map (revokeAllow (convertToEntry removal)),
      state.denyList ++ [⟨removal.selector.selector, removal.access.and matching⟩]⟩, ?_, ?_, fun device bit => ?_⟩
    · rw [removeAccesses, hs]
      exact if_neg hno
    · intro entry hen
      rcases mem_append.mp hen with hen | hen
      · exact h entry hen
      · rw [mem_singleton.mp hen]
        exact hasWildcard_device _
    · refine .trans ?_ (hpe device bit)
      rw [CgroupDeviceAccess.permits, covers_append]

/-! ## Calls -/

open CgroupDeviceAccess in
/-- **What `apply_diff` does**: no `CHECK` fails, the lists stay as they are to be, and what is granted is what the policy
is to grant. -/
theorem applyDiff_some (h : Wf state) (additions removals : List NonWildcardEntry) :
    ∃ after, applyDiff state additions removals = some after ∧ Wf after ∧
      after.grants = state.grants.change additions removals := by
  obtain ⟨added, ha, hf, hpe⟩ := foldlM_changes (by simp) (by tauto) addAccesses_some additions h.wildcards
  obtain ⟨removed, hr, hf', hpe'⟩ := foldlM_changes (by simp) (by tauto) removeAccesses_some removals hf
  obtain ⟨allowList, hall, hal⟩ := exists_normalize removed.allowList
  obtain ⟨denyList, hd, hdl⟩ := exists_normalize removed.denyList
  have hwf : Wf ⟨allowList, denyList⟩ := by
    refine ⟨normalized_iff.mpr hal.normal, normalized_iff.mpr hdl.normal, fun entry hen => ?_⟩
    obtain ⟨original, ho, hsa⟩ := hdl.selectors entry hen
    rw [← hsa]
    exact hf' original ho
  refine ⟨⟨allowList, denyList⟩, ?_, hwf, ?_⟩
  · rw [applyDiff, ha]
    show ((removals.map convertToEntry).foldlM removeAccesses added).bind _ = _
    rw [hr]
    show (normalize removed.allowList).bind _ = _
    rw [hall]
    rw [hd]
    rfl
  · funext device bit
    have hn : permits ⟨allowList, denyList⟩ device bit ↔ removed.permits device bit :=
      and_congr (hal.covers device bit) (not_congr (hdl.covers device bit))
    rw [isAccessGranted_query hwf, isAccessGranted_query h, Grants.change, propext hn, propext (hpe' device bit),
      propext (hpe device bit)]

namespace Manager

open CgroupDeviceAccess

def Wf (this : Manager) : Prop :=
  ∀ cgroup access, this.deviceAccessPerCgroup.lookup cgroup = some access → access.Wf

variable {this : Manager}

theorem wf_empty : CgroupDeviceAccess.Wf ⟨[], []⟩ := ⟨rfl, rfl, nofun⟩

theorem create_some {allow deny : List Entry} (ha : normalized allow = true) (hd : normalized deny = true) :
    create allow deny = some ⟨allow, deny⟩ := by
  rw [create, ha, hd]
  rfl

theorem Wf.insert (h : this.Wf) (cgroup : String) {access : CgroupDeviceAccess} (ha : access.Wf) :
    Wf { deviceAccessPerCgroup := this.deviceAccessPerCgroup.insert cgroup access } := by
  intro other otherAccess hl
  by_cases ho : other = cgroup
  · subst ho
    rw [AList.lookup_insert] at hl
    exact Option.some.inj hl ▸ ha
  · rw [AList.lookup_insert_ne ho] at hl
    exact h other otherAccess hl

theorem policy_insert (this : Manager) (cgroup : String) (access : CgroupDeviceAccess) :
    policy { deviceAccessPerCgroup := this.deviceAccessPerCgroup.insert cgroup access } =
      Function.update this.policy cgroup (some access.grants) := by
  funext other
  by_cases ho : other = cgroup
  · subst ho
    rw [Function.update_self, policy, AList.lookup_insert, Option.map_some]
  · rw [Function.update_of_ne ho, policy, AList.lookup_insert_ne ho, policy]

/-- **One call does to the lists what it does to the policy**, and no `CHECK` fails. -/
theorem Wf.call (h : this.Wf) (call : Call) :
    ∃ after, this.call call = some after ∧ after.Wf ∧ after.policy = this.policy.call call := by
  cases call with
  | configure cgroup allow deny =>
    by_cases hr : rejectsConfigure allow deny = true
    · exact ⟨this, by rw [Manager.call, if_pos hr], h, by rw [Policy.call, hr]; rfl⟩
    have ha : CgroupDeviceAccess.Wf ⟨allow, deny.map convertToEntry⟩ := by
      simp only [rejectsConfigure, Bool.or_eq_true, Bool.not_eq_true', not_or, Bool.not_eq_false] at hr
      refine ⟨hr.1.1, hr.1.2, fun _ hen => ?_⟩
      obtain ⟨_, -, rfl⟩ := mem_map.mp hen
      exact hasWildcard_device _
    have hkn : (this.policy cgroup).isSome = (this.deviceAccessPerCgroup.lookup cgroup).isSome := by
      rw [policy, Option.isSome_map]
    rw [Manager.call, if_neg hr, create_some ha.allow ha.deny, Policy.call,
      Bool.eq_false_iff.mpr hr, Bool.false_or, hkn]
    by_cases hl : (this.deviceAccessPerCgroup.lookup cgroup).isSome = true
    · exact ⟨this, if_pos hl, h, (if_pos hl).symm⟩
    · refine ⟨_, if_neg hl, h.insert cgroup ha, ?_⟩
      rw [policy_insert, if_neg hl, isAccessGranted_query ha]
      rfl
  | reconfigure cgroup additions removals =>
    by_cases hr : rejectsReconfigure additions removals = true
    · exact ⟨this, by rw [Manager.call, if_pos hr], h, by rw [Policy.call, if_pos hr]⟩
    rw [Manager.call, if_neg hr, Policy.call, if_neg hr, policy]
    cases hl : this.deviceAccessPerCgroup.lookup cgroup with
    | none =>
      obtain ⟨after, haf, hwf, hg⟩ := applyDiff_some wf_empty additions removals
      have hn : (⟨[], []⟩ : CgroupDeviceAccess).grants = fun _ _ => False := by
        funext device bit
        rw [isAccessGranted_query wf_empty]
        exact propext ⟨fun ⟨⟨_, hmem, _⟩, _⟩ => (nomatch hmem), False.elim⟩
      refine ⟨_, ?_, h.insert cgroup hwf, ?_⟩
      · show (applyDiff ⟨[], []⟩ additions removals).bind _ = _
        rw [haf]
        rfl
      · rw [policy_insert, hg, hn]
        rfl
    | some access =>
      obtain ⟨_, haf, hwf, hg⟩ := applyDiff_some (h cgroup access hl) additions removals
      refine ⟨_, ?_, h.insert cgroup hwf, ?_⟩
      · show (applyDiff access additions removals).bind _ = _
        rw [haf]
        rfl
      · rw [policy_insert, hg]
        rfl
  | remove cgroup =>
    refine ⟨_, rfl, fun other access hl => ?_, ?_⟩
    · obtain ⟨-, hl⟩ := Ledger.lookup_erase_some.1 hl
      exact h other access hl
    funext other
    by_cases ho : other = cgroup
    · subst ho
      rw [Policy.call, Function.update_self, policy, AList.lookup_erase, Option.map_none]
    · rw [Policy.call, Function.update_of_ne ho, policy, AList.lookup_erase_ne ho, policy]

theorem Wf.calls : ∀ (calls : List Call) {this : Manager}, this.Wf →
    ∃ after, calls.foldlM Manager.call this = some after ∧ after.Wf ∧ after.policy = calls.foldl Policy.call this.policy
  | [], this, h => ⟨this, rfl, h, rfl⟩
  | call :: calls, this, h => by
    obtain ⟨_, hm, hwf, hpo⟩ := h.call call
    obtain ⟨after, haf, hwf', hpo'⟩ := Wf.calls calls hwf
    refine ⟨after, by rw [foldlM_cons, hm]; exact haf, hwf', ?_⟩
    rw [hpo', hpo, foldl_cons]

/-- **Reconfiguring device access does what it says.** `apply_diff` on normalized lists grants an access exactly if it is
not removed, and added or granted before; and along every sequence of calls no `CHECK` fails, the lists stay normalized and
the deny lists without wildcards, and what is granted is what the policy makes of the calls. -/
theorem reconfigure_grants :
    (∀ (state : CgroupDeviceAccess), state.Wf → ∀ additions removals, rejectsReconfigure additions removals = false →
      ∃ after, applyDiff state additions removals = some after ∧ after.Wf ∧
        ∀ device bit, after.isAccessGranted (query device bit) = some true ↔ ¬Lists removals device bit ∧
          (Lists additions device bit ∨ state.isAccessGranted (query device bit) = some true)) ∧
    (∀ (this : Manager), this.Wf → ∀ calls : List Call, ∃ after, calls.foldlM Manager.call this = some after ∧ after.Wf ∧
      after.policy = calls.foldl Policy.call this.policy ∧
      ∀ cgroup access, after.deviceAccessPerCgroup.lookup cgroup = some access →
        ∀ query, (access.isAccessGranted query).isSome = true) := by
  constructor
  · intro _ h additions removals _
    obtain ⟨after, hafter, hwf, hgrants⟩ := applyDiff_some h additions removals
    exact ⟨after, hafter, hwf, fun device bit => iff_of_eq (congrFun (congrFun hgrants device) bit)⟩
  · intro _ h calls
    obtain ⟨after, hafter, hwf, hpolicy⟩ := Wf.calls calls h
    exact ⟨after, hafter, hwf, hpolicy, fun cgroup access hlookup query =>
      isAccessGranted_isSome (hwf cgroup access hlookup) query⟩

/-- Read access to all character devices with major number 5 is granted, and removed for one of them. -/
theorem reconfigure_grants_wildcard :
    let allow : List Entry := [⟨⟨.character, some 5, none⟩, ⟨true, false, false⟩⟩]
    let removal : NonWildcardEntry := ⟨⟨.character, 5, 1⟩, ⟨true, true, false⟩⟩
    CgroupDeviceAccess.Wf ⟨allow, []⟩ ∧
      ∃ after, applyDiff ⟨allow, []⟩ [] [removal] = some after ∧
        after.isAccessGranted (query ⟨.character, 5, 1⟩ .read) ≠ some true ∧
        after.isAccessGranted (query ⟨.character, 5, 2⟩ .read) = some true := by
  intro allow removal
  have hwf : CgroupDeviceAccess.Wf ⟨allow, []⟩ :=
    ⟨by decide, by decide, nofun⟩
  obtain ⟨after, hafter, -, hgrants⟩ := reconfigure_grants.1 ⟨allow, []⟩ hwf [] [removal] (by decide)
  refine ⟨hwf, after, hafter, fun h => ((hgrants _ _).mp h).1 ⟨removal, mem_singleton_self _, rfl, rfl⟩, ?_⟩
  refine (hgrants _ _).mpr ⟨?_, .inr (by decide)⟩
  rintro ⟨_, hentry, hselector, -⟩
  rw [mem_singleton.mp hentry] at hselector
  exact nomatch hselector

end Manager

end Clusterd.Devices

/-!
# Queries with wildcards

`is_access_granted` takes a query with wildcards to be denied if a deny entry selects all of it.  So it grants a query of which a
deny entry selects some devices only.
-/
namespace Clusterd.Devices

open List

/-- Some device is selected by both. -/
def Selector.meets (this other : Selector) : Bool :=
  (this.type = .all || other.type = .all || this.type = other.type) &&
    (this.major.isNone || other.major.isNone || this.major = other.major) &&
      (this.minor.isNone || other.minor.isNone || this.minor = other.minor)

variable {s t : Selector}

theorem exists_device (h : s.meets t = true) :
    ∃ device : Device, s.encompasses device.selector = true ∧ t.encompasses device.selector = true := by
  obtain ⟨stype, smajor, sminor⟩ := s
  obtain ⟨ttype, tmajor, tminor⟩ := t
  simp only [Selector.meets, Bool.and_eq_true, Bool.or_eq_true, decide_eq_true_eq, Option.isNone_iff_eq_none] at h
  refine ⟨⟨if stype = .character ∨ ttype = .character then .character else .block, (smajor.or tmajor).getD 0,
    (sminor.or tminor).getD 0⟩, ?_⟩
  rw [Selector.encompasses_iff, Selector.encompasses_iff]
  cases stype <;> cases ttype <;> cases smajor <;> cases tmajor <;> cases sminor <;> cases tminor <;>
    simp_all [Device.selector]

theorem meets_of_device {device : Device} (hs : s.encompasses device.selector = true)
    (ht : t.encompasses device.selector = true) : s.meets t = true := by
  rw [Selector.encompasses_iff] at hs ht
  simp only [Selector.meets, Bool.and_eq_true, Bool.or_eq_true, decide_eq_true_eq, Option.isNone_iff_eq_none]
  refine ⟨⟨?_, ?_⟩, ?_⟩
  all_goals grind

namespace CgroupDeviceAccess

variable {this : CgroupDeviceAccess}

/-- A granted query stands for all that it covers: each device that it selects, with some of its accesses. -/
def GrantsCovered (this : CgroupDeviceAccess) (query : Entry) : Prop :=
  this.isAccessGranted query = some true → ∀ (device : Device) (access : Access),
    query.selector.encompasses device.selector = true → access.isNone = false → query.access.includes access = true →
      this.isAccessGranted ⟨device.selector, access⟩ = some true

/-- What the query is to be granted on. -/
theorem isAccessGranted_iff (hal : normalized this.allowList = true) (hde : normalized this.denyList = true)
    (query : Entry) : this.isAccessGranted query = some true ↔ (∃ allow ∈ this.allowList, allow.encompasses query = true) ∧
      ∀ deny ∈ this.denyList, deny.selector.encompasses query.selector = true →
        deny.access.overlaps query.access = false := by
  simp [isAccessGranted, hal, hde]

/-- **A granted query stands for all that it covers** exactly if it has no device and no access in common with a deny entry; and
without wildcards it is granted if an allow entry encompasses it and no deny entry for the device has one of the accesses. -/
theorem grantsCovered_iff (hallow : normalized this.allowList = true) (hdeny : normalized this.denyList = true)
    (query : Entry) :
    (this.GrantsCovered query ↔ (this.isAccessGranted query = some true → ∀ deny ∈ this.denyList,
      deny.selector.meets query.selector = true → deny.access.overlaps query.access = false)) ∧
    ∀ (device : Device) (access : Access), this.isAccessGranted ⟨device.selector, access⟩ = some true ↔
      (∃ allow ∈ this.allowList, allow.encompasses ⟨device.selector, access⟩ = true) ∧
        ¬ ∃ deny ∈ this.denyList, ∃ bit, deny.selector.encompasses device.selector = true ∧ deny.access.has bit = true ∧
          access.has bit = true := by
  constructor
  · refine forall_congr' fun hgranted => ⟨fun h deny hmem hmeets => ?_, fun h device access hdevice _ haccess => ?_⟩
    · by_contra hoverlaps
      obtain ⟨bit, hbit, hquery⟩ := Access.overlaps_iff.1 (Bool.not_eq_false _ ▸ hoverlaps)
      obtain ⟨device, hselects, hdevice⟩ := exists_device hmeets
      have hone := h device (Devices.query device bit).access hdevice (Access.isNone_eq_false_iff.2 ⟨bit, has_query.2 rfl⟩)
        (Access.includes_iff.2 fun _ hother => has_query.1 hother ▸ hquery)
      have hnot := ((isAccessGranted_iff hallow hdeny _).1 hone).2 deny hmem hselects
      exact Bool.eq_false_iff.1 hnot (Access.overlaps_iff.2 ⟨bit, hbit, has_query.2 rfl⟩)
    · obtain ⟨⟨allow, hmem, hencompasses⟩, -⟩ := (isAccessGranted_iff hallow hdeny query).1 hgranted
      have hcovered : query.encompasses ⟨device.selector, access⟩ = true := by
        rw [Entry.encompasses_eq, hdevice, haccess]
        rfl
      refine (isAccessGranted_iff hallow hdeny _).2 ⟨⟨allow, hmem, Entry.encompasses_trans hencompasses hcovered⟩, ?_⟩
      intro deny hmem hselects
      have hnot := h deny hmem (meets_of_device hselects hdevice)
      rw [Bool.eq_false_iff, ne_eq, Access.overlaps_iff] at hnot ⊢
      rintro ⟨bit, hbit, hother⟩
      exact hnot ⟨bit, hbit, Access.includes_iff.1 haccess bit hother⟩
  · intro _ _
    rw [isAccessGranted_iff hallow hdeny]
    refine and_congr_right fun _ => ?_
    simp only [Bool.eq_false_iff, ne_eq, Access.overlaps_iff, not_exists, not_and]
    exact forall₂_congr fun _ _ => ⟨fun h bit hselects => h hselects bit, fun h hselects bit => h bit hselects⟩

/-- One device may not be read: all of them may be written. -/
theorem grantsCovered_iff_write : let this : CgroupDeviceAccess :=
      ⟨[⟨⟨.character, none, none⟩, true, true, false⟩], [⟨⟨.character, some 1, some 3⟩, true, false, false⟩]⟩
    let query : Entry := ⟨⟨.character, some 1, none⟩, false, true, false⟩
    this.isAccessGranted query = some true ∧ this.GrantsCovered query := by
  refine ⟨by decide, (grantsCovered_iff (by decide) (by decide) _).1.2 fun _ => by decide⟩

/-- **Reading all character devices with major number 1 is granted** although reading one of them is denied. -/
theorem granted_with_denied : let this : CgroupDeviceAccess :=
      ⟨[⟨⟨.character, none, none⟩, true, true, true⟩], [⟨⟨.character, some 1, some 3⟩, true, false, false⟩]⟩
    let query : Entry := ⟨⟨.character, some 1, none⟩, true, false, false⟩
    normalized this.allowList = true ∧ normalized this.denyList = true ∧ ¬ this.GrantsCovered query := by
  refine ⟨by decide, by decide, fun h => ?_⟩
  have hone := h (by decide) ⟨.character, 1, 3⟩ ⟨true, false, false⟩ (by decide) (by decide) (by decide)
  exact nomatch hone

end CgroupDeviceAccess

end Clusterd.Devices
