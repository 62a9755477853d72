import Clusterd.Fallible
import Mathlib.Data.Fintype.Card
import Mathlib.Logic.Relation
/-!
# The resources within a message (`common/resources_utils.cpp`)

`upgradeResources` first marks the types of messages that contain a resource, and then converts the resources of a message,
except in fields of types that are not marked.  A type is marked false until a field that contains a resource was visited, and
a type below it that has it as a field takes this mark for the last one.
-/
namespace Clusterd.Nested

open Function (update)

/-! ## The search and the conversion -/

section

variable (τ α : Type)

/-- The children are the messages in its fields, in order, and `data` is the rest. -/
inductive Message where
  | mk (descriptor : τ) (data : α) (children : List Message)

/-- `hashmap<const Descriptor*, bool>`. -/
abbrev Marks := τ → Option Bool

end

variable {τ α : Type}

def Message.descriptor : Message τ α → τ
  | .mk descriptor _ _ => descriptor

/-- A key that is not in the map, calls that are nested too deep, and the error of a conversion. -/
inductive Failure
  | missing
  | depth
  | error (message : String)

/-- `hashmap::at`. -/
def Marks.get (this : Marks τ) (descriptor : τ) : Except Failure Bool :=
  match this descriptor with
  | some mark => .ok mark
  | none => .error .missing

section

variable [DecidableEq τ]

/-- A turn of the loop over the fields of message types. -/
def visitField (visit : τ → Marks τ → Except Failure (Marks τ)) (descriptor : τ) (result : Marks τ) (message : τ) :
    Except Failure (Marks τ) := do
  let result ← visit message result
  return update result descriptor (some ((← result.get descriptor) || (← result.get message)))

variable (fields : τ → List τ) (resource : τ)

/-- `fields` has the types of the fields of message types.  The second `insert` does not replace the mark of the first. -/
def precomputeResourcesContainment : Nat → τ → Marks τ → Except Failure (Marks τ)
  | 0, _, _ => .error .depth
  | depth + 1, descriptor, result =>
    if (result descriptor).isSome then .ok result
    else
      (fields descriptor).foldlM (visitField (precomputeResourcesContainment depth) descriptor)
        (update result descriptor (some (decide (descriptor = resource))))

section

variable (convertResource : Message τ α → Except Failure (Message τ α)) (resourcesContainment : Marks τ)

mutual

/-- A message in a field has the type of the field. -/
def convertResourcesImpl : Message τ α → Except Failure (Message τ α)
  | .mk descriptor data children =>
    if descriptor = resource then convertResource (.mk descriptor data children)
    else do return .mk descriptor data (← convertFields children)

def convertFields : List (Message τ α) → Except Failure (List (Message τ α))
  | [] => .ok []
  | message :: children => do
    let message ← if ← resourcesContainment.get message.descriptor then convertResourcesImpl message else .ok message
    return message :: (← convertFields children)

end

end

variable (upgradeResource : Message τ α → Message τ α)

def upgradeResources (depth : Nat) (message : Message τ α) : Except Failure (Message τ α) := do
  let resourcesContainment ← precomputeResourcesContainment fields resource depth message.descriptor fun _ => none
  if ← resourcesContainment.get message.descriptor then
    convertResourcesImpl resource (fun m => .ok (upgradeResource m)) resourcesContainment message
  else return message

/-! ## What they are for -/

mutual

/-- Every resource is upgraded, and nothing else changes. -/
def upgraded : Message τ α → Message τ α
  | .mk descriptor data children =>
    if descriptor = resource then upgradeResource (.mk descriptor data children)
    else .mk descriptor data (upgradedAll children)

def upgradedAll : List (Message τ α) → List (Message τ α)
  | [] => []
  | message :: children => upgraded message :: upgradedAll children

end

/-- The type has fields of the other type, at any depth. -/
abbrev Reaches : τ → τ → Prop := Relation.ReflTransGen fun t u => u ∈ fields t

omit [DecidableEq τ] in
/-- A message of the schema. -/
inductive Typed : Message τ α → Prop
  | mk {t : τ} {data : α} {children : List (Message τ α)} (fits : ∀ m ∈ children, m.descriptor ∈ fields t)
      (typed : ∀ m ∈ children, Typed m) : Typed (.mk t data children)

/-- A type is marked true exactly if it contains a resource. -/
def Right (marks : Marks τ) : Prop := ∀ u b, marks u = some b → (b = true ↔ Reaches fields u resource)

/-- Every first visit of a type finds marks that meet `P`. -/
def AtVisits (P : τ → Marks τ → Prop) : Nat → τ → Marks τ → Prop
  | 0, _, _ => True
  | depth + 1, t, result => result t = none → P t result ∧
      Fallible.Meets (visitField (precomputeResourcesContainment fields resource depth) t)
        (fun result c => AtVisits P depth c result) (update result t (some (decide (t = resource)))) (fields t)

/-- A type that contains a resource has a field of another type that contains one and is not marked false. -/
def Leads (t : τ) (result : Marks τ) : Prop :=
  Reaches fields t resource →
    t = resource ∨ ∃ c ∈ fields t, c ≠ t ∧ Reaches fields c resource ∧ result c ≠ some false

end

/-! ## The marks of a search -/

section

variable (fields : τ → List τ) (resource : τ)

/-- No type without a resource is marked true. -/
def Sound (result : Marks τ) : Prop := ∀ u, result u = some true → Reaches fields u resource

/-- No type with a resource gets the mark false. -/
def Complete (result after : Marks τ) : Prop := ∀ u, result u = none → Reaches fields u resource → after u ≠ some false

/-- The marks of the types in `P` stay, and a type that gets a mark has marked fields. -/
structure Extends (P : τ → Prop) (result after : Marks τ) : Prop where
  keeps : ∀ u b, P u → result u = some b → after u = some b
  closed : ∀ u, result u = none → (after u).isSome → ∀ c ∈ fields u, (after c).isSome
  sound : Sound fields resource after

end

section

variable [Fintype τ]

/-- How many types have no mark. -/
def unmarked (result : Marks τ) : Nat := (Finset.univ.filter fun u => result u = none).card

variable {result after : Marks τ} (h : ∀ u, after u = none → result u = none)
include h

theorem filter_unmarked_subset :
    (Finset.univ.filter fun u => after u = none) ⊆ Finset.univ.filter fun u => result u = none := fun u hu => by
  rw [Finset.mem_filter] at hu ⊢
  exact ⟨hu.1, h u hu.2⟩

theorem unmarked_le : unmarked after ≤ unmarked result := Finset.card_le_card (filter_unmarked_subset h)

theorem unmarked_lt {t : τ} (ht : result t = none) (hafter : after t ≠ none) : unmarked after < unmarked result := by
  refine Finset.card_lt_card ((Finset.ssubset_iff_of_subset (filter_unmarked_subset h)).2 ⟨t, ?_, fun hm => ?_⟩)
  · exact Finset.mem_filter.2 ⟨Finset.mem_univ t, ht⟩
  · exact hafter (Finset.mem_filter.1 hm).2

end

section

variable {fields : τ → List τ} {resource : τ} {t : τ} {result marks after : Marks τ} {b : Bool}

theorem none_of_keeps (h : ∀ u b, result u = some b → after u = some b) {u : τ} (hu : after u = none) :
    result u = none := by
  cases hr : result u with
  | none => rfl
  | some b => rw [h u b hr] at hu; cases hu

theorem complete_self : Complete fields resource result result := fun u hu _ h => by
  rw [hu] at h
  cases h

theorem Extends.refl {P : τ → Prop} (hs : Sound fields resource result) : Extends fields resource P result result := by
  refine ⟨fun u b _ h => h, fun u hu h => ?_, hs⟩
  rw [hu] at h
  cases h

variable [DecidableEq τ]

theorem update_eq_none {x : Bool} {u : τ} : update marks t (some x) u = none ↔ u ≠ t ∧ marks u = none := by
  by_cases hu : u = t
  · subst hu
    simp
  · rw [Function.update_of_ne hu]
    exact (and_iff_right hu).symm

theorem update_eq_some {x : Bool} {u : τ} (hu : u ≠ t) : update marks t (some x) u = some b ↔ marks u = some b := by
  rw [Function.update_of_ne hu]

/-- A loop is complete if the visit of its first field and the rest are. -/
theorem complete_cons {x : Bool} (ht : result t ≠ none) (h : ∀ u b, result u = some b → marks u = some b)
    (hrest : ∀ u b, u ≠ t → update marks t (some x) u = some b → after u = some b) :
    Complete fields resource result after ↔
      Complete fields resource result marks ∧ Complete fields resource (update marks t (some x)) after := by
  have hne : ∀ u, result u = none → u ≠ t := fun u hu heq => ht (heq ▸ hu)
  refine ⟨fun hc => ⟨fun u hu hre hfalse => ?_, fun u hu hre => ?_⟩, fun ⟨hfirst, hc⟩ u hu hre hfalse => ?_⟩
  · exact hc u hu hre (hrest u false (hne u hu) ((update_eq_some (hne u hu)).2 hfalse))
  · exact hc u (none_of_keeps h (update_eq_none.1 hu).2) hre
  · cases hm : marks u with
    | none => exact hc u (update_eq_none.2 ⟨hne u hu, hm⟩) hre hfalse
    | some x =>
      have hx := hrest u x (hne u hu) ((update_eq_some (hne u hu)).2 hm)
      rw [hfalse] at hx
      cases hx
      exact hfirst u hu hre hm

theorem Sound.update (h : Sound fields resource marks) (hb : b = true → Reaches fields t resource) :
    Sound fields resource (update marks t (some b)) := fun u hu => by
  by_cases hut : u = t
  · subst hut
    rw [Function.update_self, Option.some.injEq] at hu
    exact hb hu
  · exact h u ((update_eq_some hut).1 hu)

/-- A visit is complete if the loop over the fields is and a way to a resource is left. -/
theorem complete_visit (ht : result t = none) (hb : after t = some b)
    (hmark : b = true ↔ t = resource ∨ ∃ c ∈ fields t, c ≠ t ∧ after c = some true)
    (hkeep : ∀ u b, u ≠ t → result u = some b → after u = some b) (hsound : Sound fields resource after)
    (hmarked : ∀ c ∈ fields t, (after c).isSome) {x : Bool} : Complete fields resource result after ↔
      Leads fields resource t result ∧ Complete fields resource (update result t (some x)) after := by
  refine ⟨fun hc => ⟨fun hre => ?_, fun u hu => hc u (update_eq_none.1 hu).2⟩, fun ⟨hleads, hc⟩ u hu hre => ?_⟩
  · have htrue : b = true := by
      have hnot := hc t ht hre
      rw [hb] at hnot
      simpa using hnot
    refine (hmark.1 htrue).imp_right fun ⟨c, hct, hne, hac⟩ => ⟨c, hct, hne, hsound c hac, fun hfalse => ?_⟩
    rw [hkeep c false hne hfalse] at hac
    cases hac
  · by_cases hut : u = t
    · subst hut
      have htrue : b = true := by
        refine hmark.2 ((hleads hre).imp_right fun ⟨c, hct, hne, hcr, hnf⟩ => ⟨c, hct, hne, ?_⟩)
        obtain ⟨y, hy⟩ := Option.isSome_iff_exists.1 (hmarked c hct)
        cases y with
        | true => exact hy
        | false =>
          -- A mark false is one that the visit found, or one of the loop.
          cases hr : result c with
          | none => exact absurd hy (hc c (update_eq_none.2 ⟨hne, hr⟩) hcr)
          | some z =>
            cases (hkeep c z hne hr).symm.trans hy
            exact absurd hr hnf
      rw [hb, htrue]
      simp
    · exact hc u (update_eq_none.2 ⟨hut, hu⟩) hre

variable [Fintype τ] {depth : Nat}

/-- What a call comes to: it succeeds, the type gets a mark, and the call is complete exactly if all its visits find a way. -/
def Searches (fields : τ → List τ) (resource : τ) (depth : Nat) (t : τ) (result : Marks τ) : Prop :=
  ∃ after, precomputeResourcesContainment fields resource depth t result = .ok after ∧ (after t).isSome ∧
    Extends fields resource (fun _ => True) result after ∧
    (Complete fields resource result after ↔ AtVisits fields resource (Leads fields resource) depth t result)

/-- **The loop over the fields**, by induction over those that are left.  The mark of the type is in the end true if one of
the other types is marked true. -/
theorem foldlM_visitField
    (hvisit : ∀ c result, Sound fields resource result → unmarked result < depth → Searches fields resource depth c result)
    (cs : List τ) : cs ⊆ fields t → ∀ {result : Marks τ} {b : Bool}, Sound fields resource result →
    unmarked result < depth → result t = some b →
    ∃ after b', cs.foldlM (visitField (precomputeResourcesContainment fields resource depth) t) result = .ok after ∧
      after t = some b' ∧ Extends fields resource (· ≠ t) result after ∧ (∀ c ∈ cs, (after c).isSome) ∧
      (b' = true ↔ b = true ∨ ∃ c ∈ cs, c ≠ t ∧ after c = some true) ∧
      (Complete fields resource result after ↔
        Fallible.Meets (visitField (precomputeResourcesContainment fields resource depth) t)
          (fun result c => AtVisits fields resource (Leads fields resource) depth c result) result cs) := by
  induction cs with
  | nil =>
    intro _ result b hs _ hb
    refine ⟨result, b, rfl, hb, .refl hs, List.forall_mem_nil _, ?_, iff_of_true complete_self trivial⟩
    simp
  | cons c cs ih =>
    intro hsub result b hs hd hb
    have hct : c ∈ fields t := hsub List.mem_cons_self
    obtain ⟨marks, hrun, hsome, hext, hcomplete⟩ := hvisit c result hs hd
    obtain ⟨bc, hbc⟩ := Option.isSome_iff_exists.1 hsome
    have hk : ∀ u b, result u = some b → marks u = some b := fun u b => hext.keeps u b trivial
    have hbt := hk t b hb
    have hstep : visitField (precomputeResourcesContainment fields resource depth) t result c =
        .ok (update marks t (some (b || bc))) := by
      rw [visitField, hrun]
      simp only [bind, Except.bind, Marks.get, hbt, hbc]
      rfl
    have hsound : Sound fields resource (update marks t (some (b || bc))) := hext.sound.update fun h => by
      rcases Bool.or_eq_true_iff.1 h with rfl | rfl
      · exact hext.sound t hbt
      · exact .head hct (hext.sound c hbc)
    have hnone : ∀ u, update marks t (some (b || bc)) u = none → result u = none := fun u hu =>
      none_of_keeps hk (update_eq_none.1 hu).2
    obtain ⟨after, b', hloop, hb', hrest, hmarked, hmark, hmeets⟩ := ih (fun u hu => hsub (List.mem_cons_of_mem c hu)) hsound
      ((unmarked_le hnone).trans_lt hd) (Function.update_self ..)
    have hkeep : ∀ u b, u ≠ t → marks u = some b → after u = some b := fun u b hu h =>
      hrest.keeps u b hu ((update_eq_some hu).2 h)
    have hisSome : ∀ u, (marks u).isSome → (after u).isSome := fun u hu => by
      obtain ⟨x, hx⟩ := Option.isSome_iff_exists.1 hu
      by_cases hut : u = t
      · subst hut
        rw [hb']
        rfl
      · rw [hkeep u x hut hx]
        rfl
    refine ⟨after, b', ?_, hb', ⟨fun u b hu h => hkeep u b hu (hk u b h), fun u hu h => ?_, hrest.sound⟩, ?_, ?_, ?_⟩
    · rw [List.foldlM_cons, hstep]
      exact hloop
    · cases hm : marks u with
      | some x =>
        have hclosed := hext.closed u hu (by rw [hm]; rfl)
        exact fun v hv => hisSome v (hclosed v hv)
      | none =>
        have hne : u ≠ t := by
          rintro rfl
          rw [hb] at hu
          cases hu
        exact hrest.closed u (update_eq_none.2 ⟨hne, hm⟩) h
    · exact List.forall_mem_cons.2 ⟨hisSome c hsome, hmarked⟩
    · rw [hmark, Bool.or_eq_true, List.exists_mem_cons_iff, or_assoc]
      by_cases hc : c = t
      · subst hc
        rw [hbt] at hbc
        cases hbc
        simp
      · have hbc' : bc = true ↔ after c = some true := by
          rw [hkeep c bc hc hbc, Option.some.injEq]
        rw [hbc']
        simp [hc]
    · rw [complete_cons (by rw [hb]; simp) hk hrest.keeps, hcomplete, hmeets, Fallible.Meets]
      refine and_congr_right fun _ => ⟨fun h s' hs' => ?_, fun h => h _ hstep⟩
      rw [hstep] at hs'
      cases hs'
      exact h

/-- **The search**, by induction over the calls that may still be nested: a visited type leaves fewer without a mark. -/
theorem searches : ∀ (depth : Nat) (t : τ) (result : Marks τ), Sound fields resource result → unmarked result < depth →
    Searches fields resource depth t result
  | 0, _, _, _, hd => absurd hd (Nat.not_lt_zero _)
  | depth + 1, t, result, hs, hd => by
    cases ht : result t with
    | some b =>
      refine ⟨result, ?_, by rw [ht]; rfl, .refl hs, iff_of_true complete_self fun h => ?_⟩
      · rw [precomputeResourcesContainment, ht]
        rfl
      · rw [ht] at h
        cases h
    | none =>
      have hsound : Sound fields resource (update result t (some (decide (t = resource)))) :=
        hs.update fun h => of_decide_eq_true h ▸ .refl
      have hlt : unmarked (update result t (some (decide (t = resource)))) < unmarked result :=
        unmarked_lt (fun u hu => (update_eq_none.1 hu).2) ht (by rw [Function.update_self]; simp)
      obtain ⟨after, b', hloop, hb', hext, hmarked, hmark, hmeets⟩ := foldlM_visitField (searches depth) (fields t)
        (List.Subset.refl _) hsound (by omega) (Function.update_self ..)
      have hkeep : ∀ u b, u ≠ t → result u = some b → after u = some b := fun u b hu h =>
        hext.keeps u b hu ((update_eq_some hu).2 h)
      refine ⟨after, ?_, by rw [hb']; rfl, ⟨fun u b _ h => hkeep u b ?_ h, fun u hu h => ?_, hext.sound⟩, ?_⟩
      · rw [precomputeResourcesContainment, ht]
        exact hloop
      · rintro rfl
        rw [ht] at h
        cases h
      · by_cases hut : u = t
        · exact hut ▸ hmarked
        · exact hext.closed u (update_eq_none.2 ⟨hut, hu⟩) h
      · rw [decide_eq_true_iff] at hmark
        rw [AtVisits, ← hmeets, forall_prop_of_true ht]
        exact complete_visit ht hb' hmark hkeep hext.sound hmarked

end

/-! ## The conversion -/

section

variable [DecidableEq τ] {fields : τ → List τ} {resource : τ} {upgradeResource : Message τ α → Message τ α}
  {m : Message τ α}

/-- A message of a type without resources stays as it is. -/
theorem upgraded_eq_self (hm : Typed fields m) (hno : ¬ Reaches fields m.descriptor resource) :
    upgraded resource upgradeResource m = m := by
  induction hm with
  | @mk t data children fits _ ih =>
    have hall : ∀ ms ⊆ children, upgradedAll resource upgradeResource ms = ms := by
      intro ms hms
      induction ms with
      | nil => rfl
      | cons m ms ihms =>
        have hm : m ∈ children := hms List.mem_cons_self
        rw [upgradedAll, ih m hm fun h => hno (.head (fits m hm) h), ihms fun _ h => hms (List.mem_cons_of_mem m h)]
    have hne : t ≠ resource := fun heq => hno (heq ▸ .refl)
    rw [upgraded, if_neg hne, hall children (List.Subset.refl _)]

/-- **With the right marks, all the resources of a message are upgraded.** -/
theorem convertResourcesImpl_eq {marks : Marks τ} (hr : Right fields resource marks) (hm : Typed fields m)
    (hall : ∀ u, Reaches fields m.descriptor u → (marks u).isSome) :
    convertResourcesImpl resource (fun m => .ok (upgradeResource m)) marks m =
      .ok (upgraded resource upgradeResource m) := by
  induction hm with
  | @mk t data children fits typed ih =>
    have hfields : ∀ ms ⊆ children,
        convertFields resource (fun m => .ok (upgradeResource m)) marks ms = .ok (upgradedAll resource upgradeResource ms) := by
      intro ms hms
      induction ms with
      | nil => rfl
      | cons m ms ihms =>
        have hm : m ∈ children := hms List.mem_cons_self
        have hreach : ∀ u, Reaches fields m.descriptor u → (marks u).isSome := fun u hu => hall u (.head (fits m hm) hu)
        obtain ⟨b, hb⟩ := Option.isSome_iff_exists.1 (hreach _ .refl)
        rw [convertFields, ihms fun _ h => hms (List.mem_cons_of_mem m h), ih m hm hreach, Marks.get, hb, upgradedAll]
        cases b with
        | true => rfl
        | false =>
          rw [upgraded_eq_self (typed m hm) fun h => Bool.false_ne_true ((hr _ _ hb).2 h)]
          rfl
    rw [convertResourcesImpl, upgraded, hfields children (List.Subset.refl _)]
    split <;> rfl

/-- **All types are marked, and rightly exactly if every visit finds a way to a resource that is not marked false**; then all
resources of a message are upgraded. -/
theorem containment_iff [Fintype τ] {depth : Nat} (hd : Fintype.card τ < depth) (t : τ) : ∃ marks,
    precomputeResourcesContainment fields resource depth t (fun _ => none) = .ok marks ∧
    (∀ u, Reaches fields t u → (marks u).isSome) ∧
    (Right fields resource marks ↔ AtVisits fields resource (Leads fields resource) depth t fun _ => none) ∧
    (Right fields resource marks → ∀ (α : Type) (upgradeResource : Message τ α → Message τ α) (m : Message τ α),
      Typed fields m → m.descriptor = t →
      upgradeResources fields resource upgradeResource depth m = .ok (upgraded resource upgradeResource m)) := by
  have hsearch : Searches fields resource depth t fun _ => none :=
    searches depth t _ (fun _ h => by cases h) ((Finset.card_le_univ _).trans_lt hd)
  obtain ⟨marks, hrun, hsome, hext, hcomplete⟩ := hsearch
  have hall : ∀ u, Reaches fields t u → (marks u).isSome := fun u hu => by
    induction hu with
    | refl => exact hsome
    | tail _ hc ih => exact hext.closed _ rfl ih _ hc
  refine ⟨marks, hrun, hall, ?_, fun hr α upgradeResource m hm ht => ?_⟩
  · rw [← hcomplete]
    refine ⟨fun hr u _ hre hfalse => Bool.false_ne_true ((hr u _ hfalse).2 hre), fun hc u b hb => ?_⟩
    cases b with
    | true => exact iff_of_true rfl (hext.sound u hb)
    | false => exact iff_of_false Bool.false_ne_true fun hre => hc u rfl hre hb
  · subst ht
    obtain ⟨b, hb⟩ := Option.isSome_iff_exists.1 hsome
    rw [upgradeResources, hrun]
    simp only [bind, Except.bind, Marks.get, hb]
    cases b with
    | true => exact convertResourcesImpl_eq hr hm hall
    | false =>
      rw [upgraded_eq_self hm fun h => Bool.false_ne_true ((hr _ _ hb).2 h)]
      rfl

end

/-- The type 0 has fields of the types `first` and `second`, the type 1 has one of the type 0, and 2 is a resource. -/
def mutualFields (first second : Fin 3) : Fin 3 → List (Fin 3)
  | 0 => [first, second]
  | 1 => [0]
  | 2 => []

/-- An upgrade that shows in the data. -/
def upgradeData : Message (Fin 3) Bool → Message (Fin 3) Bool
  | .mk descriptor _ children => .mk descriptor true children

theorem mutual_reaches {first second : Fin 3} (h : first = 2 ∨ second = 2) (t : Fin 3) :
    Reaches (mutualFields first second) t 2 := by
  have hzero : Reaches (mutualFields first second) 0 2 := .single (by rcases h with rfl | rfl <;> simp [mutualFields])
  match t with
  | 0 => exact hzero
  | 1 => exact .head (List.mem_singleton_self _) hzero
  | 2 => exact .refl

/-- If the field with the resource comes first, the marks of the two types that contain one another are right. -/
theorem containment_iff_mutual :
    ∃ marks, precomputeResourcesContainment (mutualFields 2 1) 2 4 0 (fun _ => none) = .ok marks ∧
      AtVisits (mutualFields 2 1) 2 (Leads (mutualFields 2 1) 2) 4 0 (fun _ => none) ∧
      ∀ m : Message (Fin 3) Bool, Typed (mutualFields 2 1) m → m.descriptor = 0 →
        upgradeResources (mutualFields 2 1) 2 upgradeData 4 m = .ok (upgraded 2 upgradeData m) := by
  obtain ⟨marks, hrun, -, hiff, hup⟩ := @containment_iff _ _ (mutualFields 2 1) 2 _ 4 (by decide) 0
  have hmarks : ∀ u, (precomputeResourcesContainment (mutualFields 2 1) 2 4 0 fun _ => none).toOption.map (· u) =
    some (some true) := by decide
  have hr : Right (mutualFields 2 1) 2 marks := fun u b hb => by
    have hu := hmarks u
    rw [hrun] at hu
    cases hb.symm.trans (Option.some.inj hu)
    exact iff_of_true rfl (mutual_reaches (.inl rfl) u)
  exact ⟨marks, hrun, hiff.1 hr, hup hr Bool upgradeData⟩

/-- If it comes last, the type between is marked false, and the resource in a message of it is not upgraded. -/
theorem nested_missed :
    let message (data : Bool) : Message (Fin 3) Bool := .mk 0 false [.mk 1 false [.mk 0 false [.mk 2 data []]]]
    Typed (mutualFields 1 2) (message false) ∧ Reaches (mutualFields 1 2) 1 2 ∧
      (precomputeResourcesContainment (mutualFields 1 2) 2 4 0 fun _ => none).toOption.map (· 1) = some (some false) ∧
      upgradeResources (mutualFields 1 2) 2 upgradeData 4 (message false) = .ok (message false) ∧
      upgraded 2 upgradeData (message false) = message true := by
  have hnest : ∀ (t : Fin 3) (m : Message (Fin 3) Bool), m.descriptor ∈ mutualFields 1 2 t → Typed (mutualFields 1 2) m →
      Typed (mutualFields 1 2) (.mk t false [m]) := fun t m ht hm =>
    .mk (List.forall_mem_singleton.2 ht) (List.forall_mem_singleton.2 hm)
  refine ⟨hnest 0 _ (by decide) (hnest 1 _ (by decide) (hnest 0 _ (by decide) ?_)), mutual_reaches (.inr rfl) 1, by decide,
    rfl, rfl⟩
  exact .mk (List.forall_mem_nil _) (List.forall_mem_nil _)

end Clusterd.Nested
