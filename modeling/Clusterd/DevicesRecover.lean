import Clusterd.DevicesPolicy
import Clusterd.StoutPath
/-!
# Device access over a restart of the agent

`checkpoint` writes the entries of each cgroup as texts, and `recover` parses them.  `Entry::parse` takes every text that begins
with `a` for all accesses to all devices, so of the entries of that type only this one comes back as it was.
-/
namespace Clusterd.Devices

open List Stout Stout.Strings Entry

namespace Access

/-- `stringify` of the accesses. -/
def stringify (this : Access) : Text :=
  (if this.read then ['r'] else []) ++ (if this.write then ['w'] else []) ++ if this.mknod then ['m'] else []

/-- One turn of the loop over the permissions. -/
def permit (this : Access) (permission : Char) : Option Access :=
  if permission = 'r' then some { this with read := true }
  else if permission = 'w' then some { this with write := true }
  else if permission = 'm' then some { this with mknod := true }
  else none

end Access

/-- `numify<unsigned int>` of a decimal number.  The signs and the hexadecimal numbers that it takes too are never printed. -/
def numify (text : Text) : Option (BitVec 32) :=
  if !text.isEmpty && text.all Char.isDigit && Nat.ofDigitChars 10 text 0 < 2 ^ 32 then
    some (BitVec.ofNat 32 (Nat.ofDigitChars 10 text 0))
  else none

def parseNumber (text : Text) : Option (Option (BitVec 32)) :=
  if text = ['*'] then some none else (numify text).map some

namespace Entry

/-- `a *:* rwm`. -/
def catchAll : Entry := ⟨⟨.all, none, none⟩, ⟨true, true, true⟩⟩

def stringify (this : Entry) : Text := this.selector.stringify.toList ++ ' ' :: this.access.stringify

def parse (s : Text) : Option Entry :=
  match tokenize s ' ' with
  | [] => none
  | first :: rest =>
    if first = ['a'] then some catchAll
    else
      match rest with
      | [numbers, permissions] => do
        let type ← if first = ['b'] then some SelectorType.block else if first = ['c'] then some .character else none
        match tokenize numbers ':' with
        | [major, minor] =>
          let major ← parseNumber major
          let minor ← parseNumber minor
          if permissions.length > 3 then none
          else
            let access ← permissions.foldlM Access.permit ⟨false, false, false⟩
            return ⟨⟨type, major, minor⟩, access⟩
        | _ => none
      | _ => none

end Entry

/-- `CgroupDeviceAccessState`, with the cgroup it is of. -/
structure State where
  cgroup : String
  (allowList denyList : List Text)

namespace Manager

/-- What is written, for the cgroups in the order in which the loop comes to them. -/
def checkpoint (entries : List (Sigma fun _ : String => CgroupDeviceAccess)) : List State :=
  entries.map fun ⟨cgroup, access⟩ =>
    { cgroup, allowList := access.allowList.map Entry.stringify, denyList := access.denyList.map Entry.stringify }

/-- The call comes to `commit_device_access_changes`, which writes the checkpoint. -/
def commits (this : Manager) : Call → Bool
  | .configure cgroup allow deny => !rejectsConfigure allow deny && (this.deviceAccessPerCgroup.lookup cgroup).isNone
  | .reconfigure _ additions removals => !rejectsReconfigure additions removals
  | .remove _ => false

/-- One turn of the loop of `recover`; `none` if an entry cannot be parsed or a `CHECK` fails. -/
def recoverState (cgroups : List String) (this : Manager) (state : State) : Option Manager :=
  if state.cgroup ∉ cgroups then some this
  else do
    let allowEntries ← state.allowList.mapM Entry.parse
    let denyEntries ← state.denyList.mapM Entry.parse
    let access ← CgroupDeviceAccess.create allowEntries denyEntries
    if (this.deviceAccessPerCgroup.lookup state.cgroup).isSome then none
    else return { deviceAccessPerCgroup := this.deviceAccessPerCgroup.insert state.cgroup access }

/-- `recover`, by a manager that has just been created. -/
def recover (cgroups : List String) (states : List State) : Option Manager := states.foldlM (recoverState cgroups) {}

end Manager

/-- A manager and the lists that its checkpoint file was last written from. -/
structure Checkpointed where
  manager : Manager := {}
  file : AList (fun _ : String => CgroupDeviceAccess) := ∅

/-- `remove` leaves in the file what it removes from the lists. -/
def Checkpointed.call (this : Checkpointed) (call : Call) : Option Checkpointed := do
  let manager ← this.manager.call call
  return { manager, file := if this.manager.commits call then manager.deviceAccessPerCgroup else this.file }

/-! ## Entries -/

open Selector (numberText typeText)

variable {entries : List Entry} (number : Option (BitVec 32))

theorem tokenize_intercalate (delim : Char) {tokens : List Text} (h : ∀ token ∈ tokens, token ≠ [] ∧ delim ∉ token)
    (hne : tokens ≠ []) : tokenize ([delim].intercalate tokens) delim = tokens := by
  rw [tokenize, splitOn_intercalate delim (fun token ht => (h token ht).2) hne]
  exact filter_eq_self.2 fun token ht => by simpa using (h token ht).1

theorem numberText_ne_nil : (numberText number).toList ≠ [] := by
  cases number with
  | none => decide
  | some =>
    rw [toList_numberText]
    exact Nat.toDigits_ne_nil

theorem space_notMem_numberText : ' ' ∉ (numberText number).toList := by
  cases number with
  | none => decide
  | some number => exact notMem_numberText number (by decide)

/-- **A number is read as it was written.** -/
theorem parseNumber_numberText : parseNumber (numberText number).toList = some number := by
  cases number with
  | none => rfl
  | some number =>
    have hn : (numberText (some number)).toList ≠ ['*'] := fun h =>
      notMem_numberText number (c := '*') (by decide) (h ▸ mem_singleton_self _)
    have hd : (Nat.toDigits 10 number.toNat).all Char.isDigit = true :=
      all_eq_true.2 fun _ hc => Nat.isDigit_of_mem_toDigits (by decide) (by decide) hc
    rw [parseNumber, if_neg hn, numify, toList_numberText, hd]
    simpa [Nat.toDigits_ne_nil] using number.isLt

/-- **The permissions are read as they were written.** -/
theorem Access.stringify_read : ∀ {access : Access}, access.isNone = false → access.stringify ≠ [] ∧ ' ' ∉ access.stringify ∧
    access.stringify.length ≤ 3 ∧ access.stringify.foldlM permit ⟨false, false, false⟩ = some access := by
  rintro ⟨_ | _, _ | _, _ | _⟩ h
  · cases h
  all_goals decide

namespace Entry

variable {this : Entry}

theorem tokenize_numbers (major minor : Option (BitVec 32)) :
    tokenize ((numberText major).toList ++ ':' :: (numberText minor).toList) ':' =
      [(numberText major).toList, (numberText minor).toList] := by
  rw [← tokenize_intercalate ':' (fun _ ht => ?_) (cons_ne_nil _ _)]
  · simp [intercalate]
  simp only [mem_cons, not_mem_nil, or_false] at ht
  rcases ht with rfl | rfl
  · exact ⟨numberText_ne_nil _, colon_notMem_numberText _⟩
  · exact ⟨numberText_ne_nil _, colon_notMem_numberText _⟩

theorem tokenize_stringify (ha : this.access.isNone = false) : tokenize this.stringify ' ' =
    [(typeText this.selector.type).toList, (numberText this.selector.major).toList ++
      ':' :: (numberText this.selector.minor).toList, this.access.stringify] := by
  obtain ⟨hne, hs, -⟩ := Access.stringify_read ha
  rw [← tokenize_intercalate ' ' (fun _ ht => ?_) (cons_ne_nil _ _)]
  · simp [stringify, Selector.stringify, intercalate]
  simp only [mem_cons, not_mem_nil, or_false] at ht
  rcases ht with rfl | rfl | rfl
  · cases this.selector.type <;> decide
  · simp [space_notMem_numberText]
  · exact ⟨hne, hs⟩

/-- **Parsing what was printed**: every entry of type `a` is read as the one that has all accesses to all devices. -/
theorem parse_stringify (ha : this.access.isNone = false) :
    parse this.stringify = some (if this.selector.type = .all then catchAll else this) := by
  obtain ⟨-, -, hl, hp⟩ := Access.stringify_read ha
  obtain ⟨⟨type, _, _⟩, _⟩ := this
  rw [parse, tokenize_stringify ha]
  cases type with
  | all => simp [typeText]
  | block | character => simpa [typeText, tokenize_numbers, parseNumber_numberText, hp] using hl

end Entry

/-- Of the entries of type `a`, only `a *:* rwm`. -/
def Exact (entries : List Entry) : Prop := ∀ entry ∈ entries, entry.selector.type = .all → entry = Entry.catchAll

instance : Decidable (Exact entries) := inferInstanceAs (Decidable (∀ entry ∈ entries, _))

theorem mapM_parse (h : Exact entries) (hn : normalized entries = true) :
    (entries.map stringify).mapM parse = some entries := by
  rw [mapM_map, mapM_some (g := id) fun entry he => ?_, map_id]
  rw [Function.comp_apply, parse_stringify ((normalized_iff.1 hn).nonempty entry he)]
  split_ifs with ht
  · rw [h entry he ht, id]
  · rfl

theorem exact_of_wildcardFree (h : WildcardFree entries) : Exact entries := by
  intro entry he ht
  have hw := h entry he
  simp [Selector.hasWildcard, ht] at hw

/-! ## Cgroups -/

namespace Manager

variable {this : Manager} {cgroups : List String}

def Exact (this : Manager) : Prop :=
  ∀ cgroup access, this.deviceAccessPerCgroup.lookup cgroup = some access → Devices.Exact access.allowList

instance : Decidable this.Exact :=
  decidable_of_iff (∀ entry ∈ this.deviceAccessPerCgroup.entries, Devices.Exact entry.2.allowList)
    ⟨fun h _ _ hlookup => h _ (AList.mem_lookup_iff.1 hlookup),
      fun h _ hentry => h _ _ (AList.mem_lookup_iff.2 hentry)⟩

/-- **What one turn of the loop recovers**: what was written. -/
theorem recoverState_some {cgroup : String} {access : CgroupDeviceAccess} (hc : cgroup ∈ cgroups)
    (hn : this.deviceAccessPerCgroup.lookup cgroup = none) (hw : access.Wf) (he : Devices.Exact access.allowList) :
    this.recoverState cgroups ⟨cgroup, access.allowList.map stringify, access.denyList.map stringify⟩ =
      some { deviceAccessPerCgroup := this.deviceAccessPerCgroup.insert cgroup access } := by
  rw [recoverState, if_neg (not_not.2 hc), mapM_parse he hw.allow, mapM_parse (exact_of_wildcardFree hw.wildcards) hw.deny]
  simp [create_some hw.allow hw.deny, hn]

theorem recoverState_skips {state : State} (hc : state.cgroup ∉ cgroups) : this.recoverState cgroups state = some this :=
  if_pos hc

/-- **What `recover` reads from a file**: the lists of the cgroups it is asked for. -/
theorem recover_checkpoint (cgroups : List String) : ∀ (entries : List (Sigma fun _ : String => CgroupDeviceAccess))
    (this : Manager), entries.NodupKeys → (∀ entry ∈ entries, this.deviceAccessPerCgroup.lookup entry.1 = none) →
    (∀ entry ∈ entries, entry.1 ∈ cgroups → entry.2.Wf ∧ Devices.Exact entry.2.allowList) →
    ∃ after, (checkpoint entries).foldlM (recoverState cgroups) this = some after ∧
      ∀ cgroup, after.deviceAccessPerCgroup.lookup cgroup =
        if cgroup ∈ cgroups then (entries.dlookup cgroup).or (this.deviceAccessPerCgroup.lookup cgroup)
        else this.deviceAccessPerCgroup.lookup cgroup
  | [], this, _, _, _ => ⟨this, rfl, fun _ => by simp⟩
  | ⟨cgroup, access⟩ :: rest, this, hk, hn, h => by
    obtain ⟨hk, hr⟩ := nodupKeys_cons.1 hk
    have hrest : ∀ entry ∈ rest, entry.1 ∈ cgroups → entry.2.Wf ∧ Devices.Exact entry.2.allowList := fun entry hm =>
      h entry (mem_cons_of_mem _ hm)
    by_cases hc : cgroup ∈ cgroups
    · obtain ⟨hw, he⟩ := h _ mem_cons_self hc
      obtain ⟨after, ha, hl⟩ := recover_checkpoint cgroups rest
          { deviceAccessPerCgroup := this.deviceAccessPerCgroup.insert cgroup access } hr (fun entry hm => by
        have hne : entry.1 ≠ cgroup := fun heq => hk (heq ▸ (mem_keys_of_mem hm : entry.1 ∈ rest.keys))
        rw [AList.lookup_insert_ne hne]
        exact hn entry (mem_cons_of_mem _ hm)) hrest
      refine ⟨after, ?_, fun other => ?_⟩
      · rw [checkpoint, map_cons, foldlM_cons, recoverState_some hc (hn _ mem_cons_self) hw he]
        exact ha
      rw [hl other]
      by_cases ho : other = cgroup
      · subst ho
        rw [AList.lookup_insert, dlookup_eq_none.2 hk, dlookup_cons_eq, if_pos hc, if_pos hc]
        rfl
      · rw [AList.lookup_insert_ne ho, dlookup_cons_ne _ _ ho]
    · obtain ⟨after, ha, hl⟩ := recover_checkpoint cgroups rest this hr
        (fun entry hm => hn entry (mem_cons_of_mem _ hm)) hrest
      refine ⟨after, ?_, fun other => ?_⟩
      · rw [checkpoint, map_cons, foldlM_cons, recoverState_skips hc]
        exact ha
      rw [hl other]
      by_cases ho : other = cgroup
      · subst ho
        rw [if_neg hc, if_neg hc]
      · rw [dlookup_cons_ne _ _ ho]

/-- A call that writes no checkpoint only takes cgroups away. -/
theorem lookup_of_not_commits {call : Call} {after : Manager} (h : this.commits call = false)
    (hcall : this.call call = some after) {cgroup : String} {access : CgroupDeviceAccess}
    (hafter : after.deviceAccessPerCgroup.lookup cgroup = some access) :
    this.deviceAccessPerCgroup.lookup cgroup = some access := by
  cases call with
  | configure name allow deny =>
    rw [commits, Bool.and_eq_false_iff, Bool.not_eq_false', Option.isNone_eq_false_iff] at h
    by_cases hr : rejectsConfigure allow deny = true
    · rw [Manager.call, if_pos hr] at hcall
      exact Option.some.inj hcall ▸ hafter
    rw [Manager.call, if_neg hr] at hcall
    obtain ⟨_, -, hcall⟩ := Option.bind_eq_some_iff.1 hcall
    rw [if_pos (h.resolve_left hr)] at hcall
    exact Option.some.inj hcall ▸ hafter
  | reconfigure name additions removals =>
    rw [commits, Bool.not_eq_false'] at h
    rw [Manager.call, if_pos h] at hcall
    exact Option.some.inj hcall ▸ hafter
  | remove name =>
    rw [← Option.some.inj hcall] at hafter
    by_cases hn : cgroup = name
    · subst hn
      rw [AList.lookup_erase] at hafter
      cases hafter
    · rwa [AList.lookup_erase_ne hn] at hafter

end Manager

namespace Checkpointed

/-- The file has the lists of each cgroup that the manager has. -/
def Keeps (this : Checkpointed) : Prop :=
  ∀ cgroup access, this.manager.deviceAccessPerCgroup.lookup cgroup = some access → this.file.lookup cgroup = some access

theorem Keeps.call {this : Checkpointed} (h : this.Keeps) {call : Call} {manager : Manager}
    (hcall : this.manager.call call = some manager) :
    ∃ after, this.call call = some after ∧ after.manager = manager ∧ after.Keeps := by
  refine ⟨_, by rw [Checkpointed.call, hcall]; rfl, rfl, fun cgroup access hlookup => ?_⟩
  dsimp only at hlookup ⊢
  split_ifs with hcommits
  · exact hlookup
  · exact h cgroup access (Manager.lookup_of_not_commits (Bool.eq_false_iff.2 hcommits) hcall hlookup)

theorem Keeps.calls : ∀ (calls : List Call) {this : Checkpointed}, this.manager.Wf → this.Keeps →
    ∃ after, calls.foldlM Checkpointed.call this = some after ∧ after.manager.Wf ∧ after.Keeps
  | [], this, hw, h => ⟨this, rfl, hw, h⟩
  | call :: calls, _, hw, h => by
    obtain ⟨_, hcall, hw, -⟩ := hw.call call
    obtain ⟨next, hnext, rfl, h⟩ := h.call hcall
    obtain ⟨after, hafter, hw, h⟩ := Keeps.calls calls hw h
    exact ⟨after, by rw [foldlM_cons, hnext]; exact hafter, hw, h⟩

end Checkpointed

namespace Manager

/-- **Device access is the same after a restart**, whatever the calls before it, if every entry of type `a` in the allow lists
then has all accesses to all devices, and the containers that are recovered are, of those in the file, the ones not removed;
and an entry is parsed as it was printed exactly if it is of another type or this one. -/
theorem restart_grants (calls : List Call) :
    (∃ before, calls.foldlM Checkpointed.call {} = some before ∧ (before.manager.Exact →
      ∀ cgroups entries,
        (∀ cgroup, cgroup ∈ before.manager.deviceAccessPerCgroup ↔ cgroup ∈ cgroups ∧ cgroup ∈ before.file) →
        entries.Perm before.file.entries →
        ∃ after, recover cgroups (checkpoint entries) = some after ∧ ∀ cgroup query,
          (after.deviceAccessPerCgroup.lookup cgroup).map (·.isAccessGranted query) =
            (before.manager.deviceAccessPerCgroup.lookup cgroup).map (·.isAccessGranted query))) ∧
    ∀ entry : Entry, entry.access.isNone = false →
      (Entry.parse entry.stringify = some entry ↔ (entry.selector.type = .all → entry = Entry.catchAll)) := by
  refine ⟨?_, fun _ ha => ?_⟩
  · obtain ⟨before, hb, hw, hkeeps⟩ := @Checkpointed.Keeps.calls calls {} (by simp [Wf]) fun _ _ h => by cases h
    refine ⟨before, hb, fun he cgroups entries hl hp => ?_⟩
    have hk := (perm_nodupKeys hp).2 before.file.nodupKeys
    -- A cgroup that is recovered has the same lists in the file as in the manager.
    have hsame : ∀ cgroup ∈ cgroups, before.file.lookup cgroup = before.manager.deviceAccessPerCgroup.lookup cgroup := by
      intro cgroup hc
      cases hm : before.manager.deviceAccessPerCgroup.lookup cgroup with
      | some access => exact hkeeps cgroup access hm
      | none =>
        refine AList.lookup_eq_none.2 fun hf => AList.lookup_eq_none.1 hm ((hl cgroup).2 ⟨hc, hf⟩)
    obtain ⟨after, ha, hafter⟩ := recover_checkpoint cgroups entries {} hk (fun _ _ => rfl) fun ⟨cgroup, access⟩ hm hc => by
      have hf : before.file.lookup cgroup = some access := AList.mem_lookup_iff.2 (hp.mem_iff.1 hm)
      rw [hsame cgroup hc] at hf
      exact ⟨hw cgroup access hf, he cgroup access hf⟩
    refine ⟨after, ha, fun cgroup _ => ?_⟩
    rw [hafter cgroup, perm_dlookup cgroup hk hp]
    split_ifs with hc
    · rw [← hsame cgroup hc]
      simp [AList.lookup]
    · rw [AList.lookup_eq_none.2 fun hm => hc ((hl cgroup).1 hm).1]
      rfl
  · rw [Entry.parse_stringify ha]
    split_ifs with ht
    · simp [ht, eq_comm]
    · simp [ht]

/-- A restart after one of two containers was removed: the file still has it. -/
theorem restart_grants_removed :
    let terminals : Entry := ⟨⟨.character, some 5, none⟩, ⟨true, true, false⟩⟩
    let calls : List Call := [.configure "1" [terminals] [], .configure "2" [Entry.catchAll] [],
      .reconfigure "1" [] [⟨⟨.character, 5, 1⟩, ⟨false, true, false⟩⟩], .remove "2"]
    ∃ before after, calls.foldlM Checkpointed.call {} = some before ∧ "2" ∈ before.file ∧
      recover ["1"] (checkpoint before.file.entries) = some after ∧
      (after.deviceAccessPerCgroup.lookup "1").map (·.isAccessGranted (query ⟨.character, 5, 1⟩ .read)) = some (some true) ∧
      (after.deviceAccessPerCgroup.lookup "1").map (·.isAccessGranted (query ⟨.character, 5, 1⟩ .write)) = some (some false) ∧
      (after.deviceAccessPerCgroup.lookup "2").isNone = true := by
  intro terminals calls
  obtain ⟨before, hb, h⟩ := (restart_grants calls).1
  obtain rfl : (calls.foldlM Checkpointed.call {}).getD {} = before := by rw [hb]; rfl
  have hmanager : ((calls.foldlM Checkpointed.call {}).getD {}).manager.deviceAccessPerCgroup.keys = ["1"] := by decide +kernel
  have hfile : ((calls.foldlM Checkpointed.call {}).getD {}).file.keys = ["1", "2"] := by decide +kernel
  obtain ⟨after, hafter, hgrants⟩ := h (by decide +kernel) ["1"] _ (fun cgroup => by
    rw [AList.mem_keys, AList.mem_keys, hmanager, hfile]
    simp +contextual) (.refl _)
  refine ⟨_, after, hb, by rw [AList.mem_keys, hfile]; decide, hafter, ?_, ?_, ?_⟩
  · rw [hgrants]
    decide +kernel
  · rw [hgrants]
    decide +kernel
  · rw [← Option.isNone_map, hgrants "2" (query ⟨.character, 5, 1⟩ .read)]
    decide +kernel

/-- **Reading from one device is writing to all of them after a restart**, and a second entry of type `a` fails a `CHECK`. -/
theorem restart_widens :
    let one : Entry := ⟨⟨.all, some 1, some 3⟩, ⟨true, false, false⟩⟩
    let two : Entry := ⟨⟨.all, some 1, some 5⟩, ⟨true, false, false⟩⟩
    (∃ before after, [Call.configure "1" [one] []].foldlM Checkpointed.call {} = some before ∧
      recover ["1"] (checkpoint before.file.entries) = some after ∧
      (before.manager.deviceAccessPerCgroup.lookup "1").map (·.isAccessGranted (query ⟨.block, 8, 0⟩ .write)) = some (some false) ∧
      (after.deviceAccessPerCgroup.lookup "1").map (·.isAccessGranted (query ⟨.block, 8, 0⟩ .write)) = some (some true)) ∧
    ∃ before, [Call.configure "1" [one, two] []].foldlM Checkpointed.call {} = some before ∧
      recover ["1"] (checkpoint before.file.entries) = none := by
  refine ⟨⟨_, _, rfl, rfl, by decide +kernel, by decide +kernel⟩, _, rfl, by decide +kernel⟩

end Manager
end Clusterd.Devices
