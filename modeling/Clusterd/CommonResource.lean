import Clusterd.CommonRoles
import Clusterd.Values
import Mathlib.Data.Finset.Dedup
/-! # Resource objects: what they carry, which are valid, which may be added and subtracted -/
namespace Clusterd.Common

open List
open Values (Value ValueType Range)

/-- `Label`; a value that is not set reads as the empty text. -/
structure Label where
  (key value : String)
deriving DecidableEq

inductive ReservationType
  | unknown
  | static
  | dynamic
deriving DecidableEq

structure ReservationInfo where
  type : ReservationType
  role : String
  principal : Option String := none
  labels : Option (List Label) := none
deriving DecidableEq

structure AllocationInfo where
  role : Option String
deriving DecidableEq

inductive SourceType
  | unknown
  | path
  | mount
  | block
  | raw
deriving DecidableEq

/-- `Resource::DiskInfo::Source`; a path or a mount, if set, may have a root. -/
structure Source where
  type : SourceType
  path : Option (Option String) := none
  mount : Option (Option String) := none
  vendor : Option String := none
  id : Option String := none
  metadata : Option (List Label) := none
  profile : Option String := none
deriving DecidableEq

structure Persistence where
  id : String
  principal : Option String := none
deriving DecidableEq

/-- `Resource::DiskInfo`; of the volume only the container path is kept. -/
structure DiskInfo where
  source : Option Source := none
  persistence : Option Persistence := none
  volume : Option String := none
deriving DecidableEq

structure Resource where
  name : String
  value : Value
  allocationInfo : Option AllocationInfo := none
  reservations : List ReservationInfo := []
  disk : Option DiskInfo := none
  revocable : Bool := false
  providerId : Option String := none
  shared : Bool := false
deriving DecidableEq

/-! ## Comparing -/

/-- Two optional fields: both are not set, or both are and agree. -/
def agree {α : Type} (same : α → α → Bool) : Option α → Option α → Bool
  | none, none => true
  | some left, some right => same left right
  | _, _ => false

/-- `operator==` on labels: there are as many, and each of the left is among those of the right. -/
def sameLabels (left right : List Label) : Bool := left.length == right.length && left.all (right.contains ·)

/-- `operator==` on reservations. -/
def ReservationInfo.same (left right : ReservationInfo) : Bool :=
  left.type == right.type && left.role == right.role && left.principal == right.principal &&
    agree sameLabels left.labels right.labels

/-- `operator==` on the sources of disks. -/
def Source.same (left right : Source) : Bool :=
  left.type == right.type && left.path == right.path && left.mount == right.mount && left.vendor == right.vendor &&
    left.id == right.id && agree sameLabels left.metadata right.metadata && left.profile == right.profile

/-- `operator==` on disks, which looks neither at the volume nor at the principal of the persistence. -/
def DiskInfo.same (left right : DiskInfo) : Bool :=
  agree Source.same left.source right.source && left.persistence.map (·.id) == right.persistence.map (·.id)

namespace Resource

section

variable (left right : Resource)

/-- The reservations, one by one. -/
def sameReservations : Bool :=
  left.reservations.length == right.reservations.length &&
    (left.reservations.zip right.reservations).all fun reservations => reservations.1.same reservations.2

def sameDisk : Bool := agree DiskInfo.same left.disk right.disk

def compareResourceMetadata : Bool :=
  left.name == right.name && left.value.type == right.value.type && left.allocationInfo == right.allocationInfo &&
    left.sameReservations right && left.sameDisk right && left.revocable == right.revocable &&
    left.providerId == right.providerId && left.shared == right.shared

/-- `operator==` on resources. -/
def same : Bool := left.compareResourceMetadata right && left.value.same right.value

end

variable (r : Resource)

/-- Whether the source of the disk makes it one that is used as a whole. -/
def indivisible : Bool :=
  match r.disk.bind (·.source) with
  | none => false
  | some source =>
    match source.type with
    | .path => false
    | .block | .mount => true
    | .raw => source.id.isSome
    | .unknown => true -- not reached

def isPersistentVolume : Bool := (r.disk.bind (·.persistence)).isSome

section

variable (left right : Resource)

def addable : Bool :=
  if left.shared != right.shared then false
  else if left.shared then left.same right
  else left.name == right.name && left.value.type == right.value.type && left.allocationInfo == right.allocationInfo &&
    left.sameReservations right && left.sameDisk right && !left.indivisible && !left.isPersistentVolume &&
    left.revocable == right.revocable && left.providerId == right.providerId

def subtractable : Bool :=
  if left.shared != right.shared then false
  else if left.shared then left.same right
  else left.name == right.name && left.value.type == right.value.type && left.allocationInfo == right.allocationInfo &&
    left.sameReservations right && left.sameDisk right && (!left.indivisible || left.same right) &&
    (!left.isPersistentVolume || left.same right) && left.revocable == right.revocable &&
    left.providerId == right.providerId

/-- `contains` of one resource in another. -/
def contains : Bool := left.subtractable right && right.value.le left.value

end

/-! ## Predicates -/

def isEmpty : Bool := r.value.isEmpty

def isUnreserved : Bool := r.reservations.isEmpty

/-- `reservationRole`, of a resource with a reservation. -/
def reservationRole : String := (r.reservations.getLast?.map (·.role)).getD ""

/-- `isReserved`, to anyone. -/
def isReserved : Bool := !r.isUnreserved

def isDynamicallyReserved : Bool :=
  r.isReserved && r.reservations.getLast?.map (·.type) == some .dynamic

def hasResourceProvider : Bool := r.providerId.isSome

/-! ## Validation -/

/-- The loops over the ranges, each against those listed after it. -/
def validateRanges : List Range → Option String
  | [] => none
  | range :: rest =>
    if range.stop < range.start then some "Invalid ranges resource: begin > end"
    else if rest.any fun other => decide (range.start ≤ other.start) && decide (other.start ≤ range.stop) then
      some "Invalid ranges resource: overlapping ranges"
    else validateRanges rest

/-- The loops over the items of a set, each against those listed after it. -/
def validateItems : List String → Option String
  | [] => none
  | item :: rest =>
    if rest.contains item then some "Invalid set resource: duplicated elements" else validateItems rest

def validateValue : Value → Option String
  | .scalar x => if x ≠ 0 ∧ x ≤ 0 then some "Invalid scalar resource: value <= 0" else none
  | .ranges rs => validateRanges rs
  | .set items => validateItems items

/-- The checks on the source of a disk that has no file system of its own. -/
def validateBlank (type : String) (source : Source) : Option String :=
  if source.mount.isSome then some ("Mount should not be set for " ++ type ++ " disk source")
  else if source.path.isSome then some ("Path should not be set for " ++ type ++ " disk source")
  else none

def validateSource (source : Source) : Option String :=
  match source.type with
  | .path | .mount => none
  | .block => validateBlank "BLOCK" source
  | .raw => validateBlank "RAW" source
  | .unknown => some "Unsupported 'DiskInfo.Source.Type' in 'UNKNOWN'"

def validateDisk : Option String :=
  match r.disk with
  | none => none
  | some disk =>
    if r.name ≠ "disk" then some ("DiskInfo should not be set for " ++ r.name ++ " resource")
    else disk.source.bind validateSource

def validateReservation (reservation : ReservationInfo) : Option String :=
  (Roles.validate reservation.role) <|>
    (if reservation.role = "*" then some "Invalid reservation: role \"*\" cannot be reserved" else none)

/-- The loop that checks that the reservations are correctly refined, `ancestor` being the role of the one before. -/
def validateRefinements (ancestor : String) : List ReservationInfo → Option String
  | [] => none
  | reservation :: rest =>
    if reservation.type = .static then some "Invalid refined reservation: A refined reservation cannot be STATIC"
    else if !Roles.isStrictSubroleOf reservation.role ancestor then
      some ("Invalid refined reservation: role '" ++ reservation.role ++ "' is not a refinement of '" ++ ancestor ++ "'")
    else validateRefinements reservation.role rest

def validateReservations : Option String :=
  match r.reservations with
  | [] => none
  | first :: rest =>
    (r.reservations.findSome? validateReservation) <|> (validateRefinements first.role rest) <|>
      (if rest = [] ∧ first.type = .unknown then some "Unsupported 'Resource.ReservationInfo.Type'" else none)

def validateShared : Option String :=
  if !r.shared then none
  else if r.name ≠ "disk" then some ("Resource " ++ r.name ++ " cannot be shared")
  else if !r.isPersistentVolume then some "Only persistent volumes can be shared"
  else none

/-- `Resources::validate`: `none`, or the first error. -/
def validate : Option String :=
  (if r.name = "" then some "Empty resource name" else none) <|> (validateValue r.value) <|> r.validateDisk <|>
    r.validateReservations <|> r.validateShared

end Resource

/-! ## Kinds -/

/-- What the comparison looks at, the labels as a set beside the rest of a reservation or of a source. -/
structure Kind where
  name : String
  type : ValueType
  allocationInfo : Option AllocationInfo
  reservations : List (ReservationInfo × Option (Finset Label))
  disk : Option (Option (Source × Option (Finset Label)) × Option String)
  revocable : Bool
  providerId : Option String
  shared : Bool
deriving DecidableEq

def ReservationInfo.kind (this : ReservationInfo) : ReservationInfo × Option (Finset Label) :=
  ({ this with labels := none }, this.labels.map (·.toFinset))

def Source.kind (this : Source) : Source × Option (Finset Label) :=
  ({ this with metadata := none }, this.metadata.map (·.toFinset))

namespace Resource

def kind (r : Resource) : Kind where
  name := r.name
  type := r.value.type
  allocationInfo := r.allocationInfo
  reservations := r.reservations.map (·.kind)
  disk := r.disk.map fun disk => (disk.source.map (·.kind), disk.persistence.map (·.id))
  revocable := r.revocable
  providerId := r.providerId
  shared := r.shared

/-- No list of labels names a label twice. -/
def Distinct (r : Resource) : Prop :=
  (∀ reservation ∈ r.reservations, ∀ labels ∈ reservation.labels, labels.Nodup) ∧
    ∀ disk ∈ r.disk, ∀ source ∈ disk.source, ∀ labels ∈ source.metadata, labels.Nodup

instance (r : Resource) : Decidable r.Distinct :=
  inferInstanceAs (Decidable ((∀ reservation ∈ r.reservations, ∀ labels ∈ reservation.labels, labels.Nodup) ∧
    ∀ disk ∈ r.disk, ∀ source ∈ disk.source, ∀ labels ∈ source.metadata, labels.Nodup))

def isWhole (r : Resource) : Bool := !r.shared && (r.indivisible || r.isPersistentVolume)

end Resource

theorem agree_iff {α β : Type} {same : α → α → Bool} {f : α → β} : ∀ {left right : Option α},
    (∀ l ∈ left, ∀ r ∈ right, (same l r = true ↔ f l = f r)) → (agree same left right = true ↔ left.map f = right.map f)
  | none, none, _ => by simp [agree]
  | none, some _, _ => by simp [agree]
  | some _, none, _ => by simp [agree]
  | some l, some r, h => by simp [agree, h l rfl r rfl]

/-- **Labels without duplicates are compared as sets.** -/
theorem sameLabels_iff {left right : List Label} (hl : left.Nodup) (hr : right.Nodup) :
    sameLabels left right = true ↔ left.toFinset = right.toFinset := by
  simp only [sameLabels, Bool.and_eq_true, beq_iff_eq, all_eq_true, contains_iff_mem]
  constructor
  · rintro ⟨hlen, hsub⟩
    exact toFinset_eq_of_perm _ _ ((subperm_of_subset hl hsub).perm_of_length_le hlen.ge)
  · intro h
    have hp := perm_of_nodup_nodup_toFinset_eq hl hr h
    exact ⟨hp.length_eq, fun _ hm => hp.mem_iff.1 hm⟩

theorem ReservationInfo.same_iff {l r : ReservationInfo} (hl : ∀ labels ∈ l.labels, labels.Nodup)
    (hr : ∀ labels ∈ r.labels, labels.Nodup) : l.same r = true ↔ l.kind = r.kind := by
  have hlabels : agree sameLabels l.labels r.labels = true ↔ l.labels.map (·.toFinset) = r.labels.map (·.toFinset) :=
    agree_iff fun a ha b hb => sameLabels_iff (hl a ha) (hr b hb)
  simp only [ReservationInfo.same, Bool.and_eq_true, beq_iff_eq, hlabels, ReservationInfo.kind, Prod.mk.injEq,
    ReservationInfo.mk.injEq, and_true]
  tauto

theorem Source.same_iff {l r : Source} (hl : ∀ labels ∈ l.metadata, labels.Nodup)
    (hr : ∀ labels ∈ r.metadata, labels.Nodup) : l.same r = true ↔ l.kind = r.kind := by
  have hlabels : agree sameLabels l.metadata r.metadata = true ↔
      l.metadata.map (·.toFinset) = r.metadata.map (·.toFinset) :=
    agree_iff fun a ha b hb => sameLabels_iff (hl a ha) (hr b hb)
  simp only [Source.same, Bool.and_eq_true, beq_iff_eq, hlabels, Source.kind, Prod.mk.injEq, Source.mk.injEq]
  tauto

namespace Resource

section
variable {l r : Resource} (hl : l.Distinct) (hr : r.Distinct)
include hl hr

theorem sameDisk_iff : l.sameDisk r = true ↔ l.kind.disk = r.kind.disk := by
  refine agree_iff fun a ha b hb => ?_
  have hsource : agree Source.same a.source b.source = true ↔ a.source.map (·.kind) = b.source.map (·.kind) :=
    agree_iff fun s hs t ht => Source.same_iff (hl.2 a ha s hs) (hr.2 b hb t ht)
  rw [DiskInfo.same, Bool.and_eq_true, beq_iff_eq, hsource, Prod.mk.injEq]

theorem sameReservations_iff : l.sameReservations r = true ↔ l.kind.reservations = r.kind.reservations := by
  have hzip : ∀ ls rs : List ReservationInfo, (∀ a ∈ ls, ∀ labels ∈ a.labels, labels.Nodup) →
      (∀ b ∈ rs, ∀ labels ∈ b.labels, labels.Nodup) →
      ((ls.length == rs.length && (ls.zip rs).all fun p => p.1.same p.2) = true ↔
        ls.map (·.kind) = rs.map (·.kind)) := by
    intro ls
    induction ls with
    | nil =>
      rintro (_ | _) - -
      · simp
      · simp
    | cons a ls ih =>
      rintro (_ | ⟨b, rs⟩) ha hb
      · simp
      · obtain ⟨ha, hls⟩ := forall_mem_cons.1 ha
        obtain ⟨hb, hrs⟩ := forall_mem_cons.1 hb
        rw [map_cons, map_cons, cons.injEq, ← ih rs hls hrs, ← ReservationInfo.same_iff ha hb]
        simp only [length_cons, zip_cons_cons, all_cons, Bool.and_eq_true, beq_iff_eq, Nat.add_right_cancel_iff]
        tauto
  exact hzip _ _ hl.1 hr.1

theorem compareResourceMetadata_iff : l.compareResourceMetadata r = true ↔ l.kind = r.kind := by
  simp only [compareResourceMetadata, Bool.and_eq_true, beq_iff_eq, sameDisk_iff hl hr, sameReservations_iff hl hr, kind,
    Kind.mk.injEq]
  tauto

theorem same_iff : l.same r = true ↔ l.kind = r.kind ∧ l.value.same r.value = true := by
  rw [same, Bool.and_eq_true, compareResourceMetadata_iff hl hr]

end

section Kinds
variable {l r : Resource} (h : l.kind = r.kind)
include h

theorem shared_congr : l.shared = r.shared := congrArg Kind.shared h

theorem type_congr : l.value.type = r.value.type := congrArg Kind.type h

theorem name_congr : l.name = r.name := congrArg Kind.name h

theorem indivisible_congr : l.indivisible = r.indivisible := by
  have hs : ∀ r : Resource, r.indivisible = match r.kind.disk.bind (·.1) with
      | none => false
      | some source =>
        match source.1.type with
        | .path => false
        | .block | .mount => true
        | .raw => source.1.id.isSome
        | .unknown => true := fun r => by
    unfold indivisible kind
    cases r.disk with
    | none => rfl
    | some disk => cases hd : disk.source <;> simp [hd, Source.kind]
  rw [hs l, hs r, h]

theorem isPersistentVolume_congr : l.isPersistentVolume = r.isPersistentVolume := by
  have hid : ∀ r : Resource, r.isPersistentVolume = (r.kind.disk.bind (·.2)).isSome := fun r => by
    unfold isPersistentVolume kind
    cases r.disk <;> simp
  rw [hid l, hid r, h]

theorem isWhole_congr : l.isWhole = r.isWhole := by
  rw [isWhole, isWhole, shared_congr h, indivisible_congr h, isPersistentVolume_congr h]

end Kinds

theorem kind_eq_iff {l r : Resource} (hs : l.shared = r.shared) : l.kind = r.kind ↔ l.name = r.name ∧
    l.value.type = r.value.type ∧ l.allocationInfo = r.allocationInfo ∧ l.kind.reservations = r.kind.reservations ∧
    l.kind.disk = r.kind.disk ∧ l.revocable = r.revocable ∧ l.providerId = r.providerId := by
  simp [kind, Kind.mk.injEq, hs]

section
variable {l r : Resource} (hl : l.Distinct) (hr : r.Distinct)
include hl hr

/-- **Resources are addable exactly when they are of one kind** and are not used as a whole; shared ones must count as
the same. -/
theorem addable_iff : l.addable r = true ↔
    l.kind = r.kind ∧ l.isWhole = false ∧ (l.shared = true → l.value.same r.value = true) := by
  unfold addable
  split_ifs with h1 h2
  · refine iff_of_false (by simp) fun h => ?_
    simp [shared_congr h.1] at h1
  · simp [same_iff hl hr, isWhole, h2]
  simp only [bne_iff_ne, ne_eq, not_not] at h1
  simp only [Bool.and_eq_true, beq_iff_eq, sameDisk_iff hl hr, sameReservations_iff hl hr, isWhole, Bool.not_eq_true', h2,
    Bool.not_false, Bool.true_and, Bool.or_eq_false_iff, kind_eq_iff h1, Bool.false_eq_true, false_imp_iff, and_true]
  tauto

/-- **One resource is subtractable from another exactly when they are of one kind**, and count as the same if they are
shared or used as a whole. -/
theorem subtractable_iff : l.subtractable r = true ↔
    l.kind = r.kind ∧ (l.isWhole = true ∨ l.shared = true → l.value.same r.value = true) := by
  unfold subtractable
  split_ifs with h1 h2
  · refine iff_of_false (by simp) fun h => ?_
    simp [shared_congr h.1] at h1
  · simp [same_iff hl hr, isWhole, h2]
  simp only [bne_iff_ne, ne_eq, not_not] at h1
  simp only [Bool.and_eq_true, beq_iff_eq, sameDisk_iff hl hr, sameReservations_iff hl hr, isWhole, h2, Bool.not_false,
    Bool.true_and, Bool.or_eq_true, Bool.not_eq_true', same_iff hl hr, kind_eq_iff h1]
  cases l.indivisible <;> cases l.isPersistentVolume <;> simp <;> tauto

theorem contains_iff : l.contains r = true ↔ l.kind = r.kind ∧
    (l.isWhole = true ∨ l.shared = true → l.value.same r.value = true) ∧ r.value.le l.value = true := by
  rw [contains, Bool.and_eq_true, subtractable_iff hl hr, and_assoc]

end

/-! ## What a valid resource is -/

/-- The ends of ranges are 64-bit numbers. -/
def Bounded (r : Resource) : Prop :=
  match r.value with
  | .ranges rs => ∀ x ∈ rs, x.start < 2 ^ 64 ∧ x.stop < 2 ^ 64
  | _ => True

/-- What is asked of the objects beside being valid: the numbers fit, and no label is listed twice. -/
def Fits (r : Resource) : Prop := r.Bounded ∧ r.Distinct

theorem validateRanges_iff : ∀ rs : List Range, validateRanges rs = none ↔ (∀ x ∈ rs, x.start ≤ x.stop) ∧
    rs.Pairwise fun l r => l.start ≤ r.start → l.stop < r.start
  | [] => by simp [validateRanges]
  | range :: rest => by
    rw [forall_mem_cons, pairwise_cons, and_and_and_comm, ← validateRanges_iff rest, validateRanges]
    split_ifs with h1 h2
    · simp [h1]
    · simp only [any_eq_true, Bool.and_eq_true, decide_eq_true_eq] at h2
      obtain ⟨x, hx, hlt⟩ := h2
      simp only [false_iff]
      exact fun h => absurd (h.1.2 x hx hlt.1) (not_lt.2 hlt.2)
    · simp only [any_eq_true, Bool.and_eq_true, decide_eq_true_eq, not_exists, not_and, not_le] at h2
      exact ⟨fun h => ⟨⟨not_lt.1 h1, h2⟩, h⟩, fun h => h.2⟩

theorem validateItems_ok : ∀ items : List String, validateItems items = none → items.Nodup
  | [], _ => nodup_nil
  | item :: rest, h => by
    unfold validateItems at h
    split_ifs at h with h1
    exact nodup_cons.2 ⟨fun hmem => h1 (contains_iff_mem.2 hmem), validateItems_ok rest h⟩

theorem validate_value {r : Resource} (h : r.validate = none) (hf : r.Fits) : r.value.Ok := by
  have hv : validateValue r.value = none := by
    simp only [validate, Option.orElse_eq_none] at h
    exact h.2.1
  have hb : r.Bounded := hf.1
  unfold Bounded at hb
  cases hr : r.value with
  | scalar x =>
    rw [hr, validateValue] at hv
    split_ifs at hv with h0
    show 0 ≤ x
    omega
  | ranges rs =>
    rw [hr] at hv hb
    exact fun x hx => ⟨((validateRanges_iff rs).1 hv).1 x hx, (hb x hx).2⟩
  | set items =>
    rw [hr] at hv
    exact validateItems_ok items hv

open Values.Ranges (Covers subtract subtract_spec sweep startsEarlier)

/-- Of proper ranges of which none starts within one that is listed before it, being disjoint asks the other direction. -/
theorem disjoint_iff {rs : List Range} (hok : ∀ x ∈ rs, x.start ≤ x.stop)
    (h : rs.Pairwise fun l r => l.start ≤ r.start → l.stop < r.start) :
    Values.Ranges.Disjoint rs ↔ rs.Pairwise fun l r => r.start < l.start → r.stop < l.start := by
  constructor
  · refine fun hd => hd.imp_of_mem fun {l r} hl hr h hlt => h.resolve_left fun _ => ?_
    have := hok l hl
    omega
  · refine fun hback => (h.and hback).imp fun {l r} h => ?_
    rcases le_or_gt l.start r.start with hle | hlt
    · exact .inl (h.1 hle)
    · exact .inr (h.2 hlt)

/-- Proper disjoint ranges are accepted. -/
theorem validateRanges_of_disjoint {rs : List Range} (hok : ∀ x ∈ rs, x.start ≤ x.stop) (hd : Values.Ranges.Disjoint rs) :
    validateRanges rs = none := by
  refine (validateRanges_iff rs).2 ⟨hok, hd.imp_of_mem fun {l r} hl hr h hle => h.resolve_right fun _ => ?_⟩
  have := hok r hr
  omega

/-- **Ranges are accepted exactly when they are proper and disjoint, and a number that is subtracted from accepted ranges is
gone, exactly if** none starts within one that is listed after it, or the ranges are rejected for another reason: one is not
proper, or one starts within one that is listed before it. -/
theorem ranges_accepted_iff {rs : List Range} (hfits : ∀ x ∈ rs, x.stop < 2 ^ 64) :
    ((validateRanges rs = none ↔ (∀ x ∈ rs, x.start ≤ x.stop) ∧ Values.Ranges.Disjoint rs) ∧
      (validateRanges rs = none → ∀ p < 2 ^ 64, ¬ Covers (subtract rs [⟨p, p⟩]) p)) ↔
    ((∀ x ∈ rs, x.start ≤ x.stop) → (rs.Pairwise fun l r => l.start ≤ r.start → l.stop < r.start) →
      rs.Pairwise fun l r => r.start < l.start → r.stop < l.start) := by
  constructor
  · rintro ⟨hiff, -⟩ hok h
    exact (disjoint_iff hok h).1 (hiff.1 ((validateRanges_iff rs).2 ⟨hok, h⟩)).2
  · intro hback
    have haccepted : validateRanges rs = none → (∀ x ∈ rs, x.start ≤ x.stop) ∧ Values.Ranges.Disjoint rs := fun h => by
      obtain ⟨hok, h⟩ := (validateRanges_iff rs).1 h
      exact ⟨hok, (disjoint_iff hok h).2 (hback hok h)⟩
    refine ⟨⟨haccepted, fun h => validateRanges_of_disjoint h.1 h.2⟩, fun h p hp hc => ?_⟩
    obtain ⟨hok, hd⟩ := haccepted h
    have hsp := @subtract_spec rs [⟨p, p⟩] (fun x hx => ⟨hok x hx, hfits x hx⟩)
      (List.forall_mem_singleton.2 ⟨le_refl p, hp⟩) hd
    exact ((hsp.2.1 p).1 hc).2 ⟨_, List.mem_singleton_self _, le_refl p, le_refl p⟩

/-- Ranges in descending order are accepted, and those of which one is not proper are rejected whatever the others are. -/
theorem ranges_accepted_iff_ports : validateRanges [⟨31000, 32000⟩, ⟨8080, 8081⟩] = none ∧
    validateRanges [⟨9, 8⟩, ⟨5, 6⟩, ⟨1, 10⟩] ≠ none := by
  have hports := (@ranges_accepted_iff [⟨31000, 32000⟩, ⟨8080, 8081⟩] (by decide)).2 fun _ _ => by decide
  have himproper := (@ranges_accepted_iff [⟨9, 8⟩, ⟨5, 6⟩, ⟨1, 10⟩] (by decide)).2 fun h => absurd (h ⟨9, 8⟩ (by decide)) (by decide)
  exact ⟨hports.1.2 ⟨by decide, by simp [Values.Ranges.Disjoint]⟩, fun h => absurd (himproper.1.1 h).1 (by decide)⟩

/-- A range within one that is listed after it is accepted, and a number of both is still there after it was subtracted. -/
theorem overlapping_accepted : validateRanges [⟨5, 6⟩, ⟨1, 10⟩] = none ∧
    subtract [⟨5, 6⟩, ⟨1, 10⟩] [⟨5, 5⟩] = [⟨1, 4⟩, ⟨6, 10⟩, ⟨5, 6⟩] := by
  refine ⟨by decide, ?_⟩
  simp [subtract, sweep, List.insertionSort, startsEarlier]

end Resource

/-! # `Resources`: the list of combined resources, with adding, subtracting and containment -/

structure Resource_ where
  resource : Resource
  sharedCount : Option Int
deriving DecidableEq

namespace Resource_

/-- The constructor, which counts one copy of a shared resource. -/
def of (resource : Resource) : Resource_ := ⟨resource, if resource.shared then some 1 else none⟩

variable (this : Resource_)

def isShared : Bool := this.sharedCount.isSome

/-- `sharedCount.get()`. -/
def count : Int := this.sharedCount.getD 0

def validate : Option String :=
  if this.isShared && decide (this.count < 0) then some "Invalid shared resource: count < 0"
  else this.resource.validate

def isEmpty : Bool := this.isShared && this.count == 0 || this.resource.isEmpty

section

variable (this that : Resource_)

def contains : Bool :=
  if this.isShared != that.isShared then false
  else if this.isShared then decide (that.count ≤ this.count) && this.resource.same that.resource
  else this.resource.contains that.resource

/-- `operator+=`, of resources that are addable. -/
def add : Resource_ :=
  if !this.isShared then
    { this with resource := { this.resource with value := this.resource.value.add that.resource.value } }
  else { this with sharedCount := some (this.count + that.count) }

/-- `operator-=`, of resources that are subtractable. -/
def subtract : Resource_ :=
  if !this.isShared then
    { this with resource := { this.resource with value := this.resource.value.subtract that.resource.value } }
  else { this with sharedCount := some (this.count - that.count) }

end

/-- A negative count of copies, or a negative scalar. -/
def negative : Bool :=
  this.isShared && decide (this.count < 0) ||
    match this.resource.value with
    | .scalar x => decide (x < 0)
    | _ => false

end Resource_

/-- `Resources`: the entries in the order of the vector. -/
abbrev Resources := List Resource_

namespace Resources

/-- The search for the first entry that `that` can be added to. -/
def combine (that : Resource_) : Resources → Resources
  | [] => [that]
  | entry :: rest =>
    if entry.resource.addable that.resource then entry.add that :: rest else entry :: combine that rest

section

variable (this : Resources)

/-- `add`: an empty resource is ignored. -/
def add (that : Resource_) : Resources := if that.isEmpty then this else combine that this

/-- An entry removed by putting the last one in its place. -/
def removeAt (i : Nat) : Resources :=
  match this.getLast? with
  | none => this
  | some last => (this.set i last).dropLast

/-- `subtract`: taken from the first entry it can be taken from, which goes if it is negative or empty. -/
def subtract (this : Resources) (that : Resource_) : Resources :=
  if that.isEmpty then this
  else
    match this.findIdx? (·.resource.subtractable that.resource) with
    | none => this
    | some i =>
      match this[i]? with
      | none => this -- not reached
      | some entry =>
        if (entry.subtract that).negative || (entry.subtract that).isEmpty then this.removeAt i
        else this.set i (entry.subtract that)

/-- `operator+=` of an object: one that is not valid is ignored. -/
def addObject (that : Resource) : Resources :=
  if (Resource_.of that).validate.isNone then this.add (.of that) else this

/-- `operator-=` of an object: one that is not valid is ignored. -/
def subtractObject (that : Resource) : Resources :=
  if (Resource_.of that).validate.isNone then this.subtract (.of that) else this

/-- `operator+=`, entry by entry. -/
def plus (this that : Resources) : Resources := that.foldl add this

/-- `operator-=`, entry by entry. -/
def minus (this that : Resources) : Resources := that.foldl subtract this

def ofObjects (objects : List Resource) : Resources := objects.foldl addObject []

/-- `_contains`: some entry contains `that`. -/
def holds (that : Resource_) : Bool := this.any (·.contains that)

/-- `contains`: each entry in what remains, from which only persistent volumes are taken. -/
def contains : Resources → Resources → Bool
  | _, [] => true
  | remaining, entry :: rest =>
    remaining.holds entry &&
      contains (if entry.resource.isPersistentVolume then remaining.subtract entry else remaining) rest

/-- `contains` of an object. -/
def containsObject (that : Resource) : Bool := that.validate.isNone && this.holds (.of that)

end

/-- `operator==`. -/
def same (this that : Resources) : Bool := this.contains that && that.contains this

def filter (this : Resources) (predicate : Resource → Bool) : Resources := List.filter (predicate ·.resource) this

end Resources

end Clusterd.Common
