import Mathlib.Data.List.AList
import Mathlib.Data.List.Dedup
/-!
# Device entries (`linux/cgroups.cpp`, `linux/cgroups2.cpp`)

The entries of the allow and deny lists of a cgroup, and how a list of them is normalized.  What a list covers, bit by
bit, is what is left of it when it is normalized.
-/
namespace Clusterd.Devices

inductive SelectorType
  | all
  | block
  | character
deriving DecidableEq

/-- `Entry::Selector`: a number that is not given stands for all of them. -/
structure Selector where
  type : SelectorType
  (major minor : Option (BitVec 32))
deriving DecidableEq

structure Access where
  (read write mknod : Bool)
deriving DecidableEq

structure Entry where
  selector : Selector
  access : Access
deriving DecidableEq

namespace Access

def isNone (this : Access) : Bool := !this.mknod && !this.read && !this.write

section

variable (this other : Access)

def overlaps : Bool :=
  (this.read && other.read) || (this.write && other.write) || (this.mknod && other.mknod)

/-- `|=`, on each of the three. -/
def or : Access where
  read := this.read || other.read
  write := this.write || other.write
  mknod := this.mknod || other.mknod

/-- `&=`, on each of the three. -/
def and : Access where
  read := this.read && other.read
  write := this.write && other.write
  mknod := this.mknod && other.mknod

/-- What is left when the accesses of `other` are revoked. -/
def minus : Access where
  read := this.read && !other.read
  write := this.write && !other.write
  mknod := this.mknod && !other.mknod

end

end Access

namespace Selector

def hasWildcard (this : Selector) : Bool := this.major.isNone || this.minor.isNone || this.type = .all

def encompasses (this other : Selector) : Bool :=
  if this.type ≠ .all && this.type ≠ other.type then false
  else if this.major.isSome && this.major ≠ other.major then false
  else if this.minor.isSome && this.minor ≠ other.minor then false
  else true

/-- `stringify` of a number. -/
def numberText : Option (BitVec 32) → String
  | some number => toString number.toNat
  | none => "*"

def typeText : SelectorType → String
  | .all => "a"
  | .block => "b"
  | .character => "c"

/-- `stringify` of a selector, which is what a selector is known by where duplicates are looked for. -/
def stringify (this : Selector) : String :=
  typeText this.type ++ " " ++ numberText this.major ++ ":" ++ numberText this.minor

end Selector

namespace Entry

def isCatchAll (this : Entry) : Bool :=
  !this.selector.major.isSome && !this.selector.minor.isSome && this.selector.type = .all &&
    this.access.mknod && this.access.read && this.access.write

def encompasses (this other : Entry) : Bool :=
  if this = other then true
  else if !this.selector.encompasses other.selector then false
  else if (!this.access.mknod && other.access.mknod) || (!this.access.read && other.access.read)
      || (!this.access.write && other.access.write) then false
  else true

end Entry

/-! ## Normalizing -/
section

variable (entries : List Entry)

def hasEmpties : Bool := entries.any (·.access.isNone)

def hasDuplicateSelectors : Bool :=
  (entries.map (·.selector.stringify)).dedup.length ≠ entries.length

def hasEncompassedEntries : Bool :=
  entries.any fun entry => entries.any fun other => entry ≠ other && entry.encompasses other

def normalized (query : List Entry) : Bool :=
  if hasEmpties query then false
  else if hasDuplicateSelectors query then false
  else if hasEncompassedEntries query then false
  else true

def stripEmpties : List Entry := entries.filter fun entry => !entry.access.isNone

/-- One turn of the loop of `deduplicate`. -/
def merge (deduplicated : List Entry) (entry : Entry) : List Entry :=
  let deduplicated :=
    if deduplicated.any (·.selector.stringify = entry.selector.stringify) then deduplicated else deduplicated ++ [entry]
  deduplicated.map fun e =>
    if e.selector.stringify = entry.selector.stringify then { e with access := e.access.or entry.access } else e

def deduplicate : List Entry := entries.foldl merge []

def stripEncompassed : List Entry :=
  entries.filter fun entry => !entries.any fun other => entry.selector ≠ other.selector && other.encompasses entry

end

/-- `normalize`; `none` if its `CHECK` fails. -/
def normalize (toNormalize : List Entry) : Option (List Entry) :=
  let result := stripEncompassed (deduplicate (stripEmpties toNormalize))
  if normalized result then some result else none

/-! ## The text of a selector -/
theorem toList_numberText (number : BitVec 32) :
    (Selector.numberText (some number)).toList = Nat.toDigits 10 number.toNat := by
  rw [Selector.numberText, Nat.toString_eq_repr, Nat.toList_repr]

theorem notMem_numberText (number : BitVec 32) {c : Char} (hc : c.isDigit = false) :
    c ∉ (Selector.numberText (some number)).toList := by
  intro hmem
  rw [toList_numberText] at hmem
  have hd := Nat.isDigit_of_mem_toDigits (by decide) (by decide) hmem
  rw [hc] at hd
  cases hd

theorem numberText_inj {m n : Option (BitVec 32)} (h : Selector.numberText m = Selector.numberText n) : m = n := by
  cases m with
  | none =>
    cases n with
    | none => rfl
    | some n => exact absurd (h ▸ by decide) (notMem_numberText n (c := '*') (by decide))
  | some m =>
    cases n with
    | none => exact absurd (h ▸ by decide) (notMem_numberText m (c := '*') (by decide))
    | some =>
      have hd := congrArg String.toList h
      rw [toList_numberText, toList_numberText] at hd
      have hv := congrArg (Nat.ofDigitChars 10 · 0) hd
      simp only [Nat.ofDigitChars_ten_toDigits] at hv
      rw [BitVec.eq_of_toNat_eq hv]

theorem colon_notMem_numberText (n : Option (BitVec 32)) : ':' ∉ (Selector.numberText n).toList := by
  cases n with
  | none => decide
  | some n => exact notMem_numberText n (by decide)

/-- **Selectors with the same text are the same.** -/
theorem stringify_inj {s t : Selector} : s.stringify = t.stringify ↔ s = t := by
  refine ⟨fun h => ?_, fun h => congrArg Selector.stringify h⟩
  have hl := congrArg String.toList h
  simp only [Selector.stringify, String.toList_append, List.append_assoc] at hl
  obtain ⟨stype, smajor, sminor⟩ := s
  obtain ⟨ttype, tmajor, tminor⟩ := t
  have ht : stype = ttype ∧ (Selector.numberText smajor).toList ++ ':' :: (Selector.numberText sminor).toList =
      (Selector.numberText tmajor).toList ++ ':' :: (Selector.numberText tminor).toList := by
    cases stype <;> cases ttype <;> simp [Selector.typeText] at hl ⊢ <;> exact hl
  obtain ⟨rfl, hn⟩ := ht
  obtain ⟨hm, -, hmi⟩ := (List.append_cons_inj_of_notMem (colon_notMem_numberText smajor)
    (colon_notMem_numberText sminor)).mp hn
  cases numberText_inj (String.toList_injective hm)
  cases numberText_inj (String.toList_injective hmi)
  rfl

/-! ## What entries cover -/
inductive Bit
  | read
  | write
  | mknod
deriving DecidableEq

inductive DeviceType
  | block
  | character
deriving DecidableEq

structure Device where
  type : DeviceType
  (major minor : BitVec 32)
deriving DecidableEq

def Device.selector (this : Device) : Selector where
  type := match this.type with
    | .block => .block
    | .character => .character
  major := some this.major
  minor := some this.minor

namespace Access

def has (this : Access) : Bit → Bool
  | .read => this.read
  | .write => this.write
  | .mknod => this.mknod

variable {this other : Access} {bit : Bit} {P : Bit → Prop}

@[simp]
theorem has_or : (this.or other).has bit = (this.has bit || other.has bit) := by
  cases bit <;> rfl

@[simp]
theorem has_and : (this.and other).has bit = (this.has bit && other.has bit) := by
  cases bit <;> rfl

@[simp]
theorem has_minus : (this.minus other).has bit = (this.has bit && !other.has bit) := by
  cases bit <;> rfl

theorem forall_bit : (∀ bit, P bit) ↔ P .read ∧ P .write ∧ P .mknod := by
  refine ⟨fun h => ⟨h _, h _, h _⟩, fun h bit => ?_⟩
  cases bit
  · exact h.1
  · exact h.2.1
  · exact h.2.2

theorem exists_bit : (∃ bit, P bit) ↔ P .read ∨ P .write ∨ P .mknod := by
  constructor
  · rintro ⟨bit, h⟩
    cases bit
    · exact .inl h
    · exact .inr (.inl h)
    · exact .inr (.inr h)
  · rintro (h | h | h) <;> exact ⟨_, h⟩

theorem isNone_eq_false_iff : this.isNone = false ↔ ∃ bit, this.has bit = true := by
  obtain ⟨read, write, mknod⟩ := this
  rw [exists_bit]
  revert read write mknod
  decide

theorem overlaps_iff : this.overlaps other = true ↔ ∃ bit, this.has bit = true ∧ other.has bit = true := by
  simp [exists_bit, overlaps, has, or_assoc]

def includes (this other : Access) : Bool :=
  !((!this.mknod && other.mknod) || (!this.read && other.read) || (!this.write && other.write))

theorem includes_iff : this.includes other = true ↔ ∀ bit, other.has bit = true → this.has bit = true := by
  obtain ⟨read, write, mknod⟩ := this
  obtain ⟨read', write', mknod'⟩ := other
  rw [forall_bit]
  revert read write mknod read' write' mknod'
  decide

end Access

namespace Selector

variable {s t u : Selector}

theorem encompasses_iff : s.encompasses t = true ↔
    (s.type = .all ∨ s.type = t.type) ∧ (s.major = none ∨ s.major = t.major) ∧ (s.minor = none ∨ s.minor = t.minor) := by
  simp only [encompasses, Bool.and_eq_true, decide_eq_true_eq, Option.isSome_iff_ne_none]
  split_ifs <;> simp_all
  tauto

theorem encompasses_refl (s : Selector) : s.encompasses s = true :=
  encompasses_iff.mpr ⟨.inr rfl, .inr rfl, .inr rfl⟩

theorem encompasses_trans (hst : s.encompasses t = true) (htu : t.encompasses u = true) : s.encompasses u = true := by
  rw [encompasses_iff] at *
  obtain ⟨h1, h2, h3⟩ := hst
  obtain ⟨_, _, _⟩ := htu
  refine ⟨?_, ?_, ?_⟩
  · rcases h1 with h1 | h1
    · exact .inl h1
    · rwa [h1]
  · rcases h2 with h2 | h2
    · exact .inl h2
    · rwa [h2]
  · rcases h3 with h3 | h3
    · exact .inl h3
    · rwa [h3]

def wildcards (s : Selector) : Nat :=
  (if s.type = .all then 1 else 0) + (if s.major = none then 1 else 0) + (if s.minor = none then 1 else 0)

theorem wildcards_le (s : Selector) : s.wildcards ≤ 3 := by
  simp only [wildcards]
  split_ifs <;> decide

theorem wildcards_lt (hst : s.encompasses t = true) (hne : t ≠ s) : t.wildcards < s.wildcards := by
  obtain ⟨_, _, _⟩ := s
  obtain ⟨_, _, _⟩ := t
  obtain ⟨h1, h2, h3⟩ := encompasses_iff.mp hst
  simp only [wildcards]
  rcases h1 with rfl | rfl <;> rcases h2 with rfl | rfl <;> rcases h3 with rfl | rfl <;> split_ifs <;> simp_all

theorem hasWildcard_device (device : Device) : device.selector.hasWildcard = false := by
  obtain ⟨type, _, _⟩ := device
  cases type <;> rfl

theorem encompasses_device (hs : s.hasWildcard = false) {device : Device} :
    s.encompasses device.selector = true ↔ s = device.selector := by
  refine ⟨fun h => ?_, fun h => h ▸ encompasses_refl _⟩
  obtain ⟨_, _, _⟩ := s
  obtain ⟨h1, h2, h3⟩ := encompasses_iff.mp h
  simp only [hasWildcard, Bool.or_eq_false_iff, decide_eq_false_iff_not, Option.isNone_eq_false_iff] at hs
  dsimp only at h1 h2 h3
  rw [h1.resolve_left hs.2, h2.resolve_left (Option.isSome_iff_ne_none.mp hs.1.1),
    h3.resolve_left (Option.isSome_iff_ne_none.mp hs.1.2)]

end Selector

theorem Device.selector_inj {d e : Device} (h : d.selector = e.selector) : d = e := by
  obtain ⟨dtype, _, _⟩ := d
  obtain ⟨etype, _, _⟩ := e
  cases dtype <;> cases etype <;> simp_all [Device.selector]

namespace Entry

variable {this other : Entry}

theorem encompasses_eq (this other : Entry) :
    this.encompasses other = (this.selector.encompasses other.selector && this.access.includes other.access) := by
  rw [encompasses]
  split_ifs with heq hs hbad
  · have hi : other.access.includes other.access = true := Access.includes_iff.mpr fun _ => id
    rw [heq, Selector.encompasses_refl, hi]
    rfl
  · rw [Bool.not_eq_true'] at hs
    rw [hs, Bool.false_and]
  · rw [Access.includes, hbad, Bool.not_true, Bool.and_false]
  · rw [Bool.not_eq_true', Bool.not_eq_false] at hs
    rw [Access.includes, hs, Bool.eq_false_iff.mpr hbad]
    rfl

theorem encompasses_iff : this.encompasses other = true ↔
    this.selector.encompasses other.selector = true ∧ ∀ bit, other.access.has bit = true → this.access.has bit = true := by
  rw [encompasses_eq, Bool.and_eq_true, Access.includes_iff]

end Entry

def Covers (entries : List Entry) (device : Device) (bit : Bit) : Prop :=
  ∃ entry ∈ entries, entry.selector.encompasses device.selector = true ∧ entry.access.has bit = true

/-!
# Normalized lists of device entries

Normalizing a list keeps what it covers, and what it gives is normalized: the `CHECK` in `normalize` never fails.
-/
open List Entry Selector

structure Normal (entries : List Entry) : Prop where
  nonempty : ∀ entry ∈ entries, entry.access.isNone = false
  distinct : (entries.map Entry.selector).Nodup
  maximal : ∀ entry ∈ entries, ∀ other ∈ entries, entry.encompasses other = true → entry = other

theorem hasDuplicateSelectors_eq_false_iff {entries : List Entry} :
    hasDuplicateSelectors entries = false ↔ (entries.map selector).Nodup := by
  have hi : Function.Injective stringify := fun _ _ h => stringify_inj.mp h
  rw [hasDuplicateSelectors, decide_eq_false_iff_not, not_not,
    show entries.map (·.selector.stringify) = (entries.map selector).map stringify by simp,
    ← nodup_map_iff hi (l := entries.map selector)]
  set texts := (entries.map selector).map stringify with ht
  have hl : entries.length = texts.length := by simp [ht]
  rw [hl]
  constructor
  · intro h
    rw [← (dedup_sublist texts).eq_of_length h]
    exact nodup_dedup texts
  · intro h
    rw [dedup_eq_self.mpr h]

theorem normalized_iff {entries : List Entry} : normalized entries = true ↔ Normal entries := by
  have hem : hasEmpties entries = false ↔ ∀ entry ∈ entries, entry.access.isNone = false := by
    simp [hasEmpties]
  have he : hasEncompassedEntries entries = false ↔
      ∀ entry ∈ entries, ∀ other ∈ entries, entry.encompasses other = true → entry = other := by
    simp only [hasEncompassedEntries, any_eq_false, Bool.and_eq_true, decide_eq_true_eq, not_and,
      Bool.not_eq_true, any_eq_false, ne_eq]
    refine forall₂_congr fun entry _ => forall₂_congr fun other _ => ?_
    constructor
    · intro h hen
      by_contra hne
      rw [h hne] at hen
      cases hen
    · intro h hne
      cases hen : entry.encompasses other with
      | false => rfl
      | true => exact absurd (h hen) hne
  rw [normalized]
  split_ifs with h1 h2 h3
  · exact ⟨nofun, fun h => by rw [hem.mpr h.nonempty] at h1; cases h1⟩
  · exact ⟨nofun, fun h => by rw [hasDuplicateSelectors_eq_false_iff.mpr h.distinct] at h2; cases h2⟩
  · exact ⟨nofun, fun h => by rw [he.mpr h.maximal] at h3; cases h3⟩
  · simp only [Bool.not_eq_true] at h1 h2 h3
    exact ⟨fun _ => ⟨hem.mp h1, hasDuplicateSelectors_eq_false_iff.mp h2, he.mp h3⟩, fun _ => rfl⟩

/-! ## The three passes -/
variable {entries : List Entry} {device : Device} {bit : Bit}

theorem covers_append {more : List Entry} :
    Covers (entries ++ more) device bit ↔ Covers entries device bit ∨ Covers more device bit := by
  simp [Covers, or_and_right, exists_or]

theorem covers_singleton {entry : Entry} : Covers [entry] device bit ↔
    entry.selector.encompasses device.selector = true ∧ entry.access.has bit = true := by
  simp [Covers]

theorem Entry.encompasses_refl (entry : Entry) : entry.encompasses entry = true := by
  rw [encompasses, if_pos rfl]

theorem Entry.encompasses_trans {a b c : Entry} (hab : a.encompasses b = true) (hbc : b.encompasses c = true) :
    a.encompasses c = true := by
  rw [encompasses_iff] at *
  exact ⟨Selector.encompasses_trans hab.1 hbc.1, fun bit hbit => hab.2 bit (hbc.2 bit hbit)⟩

theorem Covers.within {more : List Entry} (h : Covers entries device bit)
    (hm : ∀ x ∈ entries, ∃ e ∈ more, e.encompasses x = true) : Covers more device bit := by
  obtain ⟨x, hx, hs, hbit⟩ := h
  obtain ⟨e, he, ho⟩ := hm x hx
  obtain ⟨ha, hb⟩ := Entry.encompasses_iff.mp ho
  exact ⟨e, he, Selector.encompasses_trans ha hs, hb bit hbit⟩

theorem covers_stripEmpties : Covers (stripEmpties entries) device bit ↔ Covers entries device bit := by
  constructor
  · rintro ⟨entry, hen, h⟩
    exact ⟨entry, (mem_filter.mp hen).1, h⟩
  · rintro ⟨entry, hen, hs, hbit⟩
    have hso : entry.access.isNone = false := Access.isNone_eq_false_iff.mpr ⟨bit, hbit⟩
    exact ⟨entry, mem_filter.mpr ⟨hen, by rw [hso]; rfl⟩, hs, hbit⟩

structure Merged (entries deduplicated : List Entry) : Prop where
  nonempty : (∀ entry ∈ entries, entry.access.isNone = false) → ∀ entry ∈ deduplicated, entry.access.isNone = false
  distinct : (deduplicated.map Entry.selector).Nodup
  selectors : ∀ entry ∈ deduplicated, ∃ original ∈ entries, original.selector = entry.selector
  covers : ∀ device bit, Covers deduplicated device bit ↔ Covers entries device bit

def join (deduplicated : List Entry) (entry : Entry) : List Entry :=
  deduplicated.map fun e => if e.selector = entry.selector then { e with access := e.access.or entry.access } else e

theorem merge_eq (deduplicated : List Entry) (entry : Entry) : merge deduplicated entry =
    join (if entry.selector ∈ deduplicated.map selector then deduplicated else deduplicated ++ [entry]) entry := by
  have hmem : deduplicated.any (·.selector.stringify = entry.selector.stringify) = true ↔
      entry.selector ∈ deduplicated.map selector := by
    simp [stringify_inj]
  simp only [merge, hmem]
  simp only [join, stringify_inj]

theorem mem_appended (deduplicated : List Entry) (entry : Entry) : entry.selector ∈
    (if entry.selector ∈ deduplicated.map selector then deduplicated else deduplicated ++ [entry]).map selector := by
  split_ifs with hin
  · exact hin
  · simp

theorem map_selector_join (deduplicated : List Entry) (entry : Entry) :
    (join deduplicated entry).map selector = deduplicated.map selector := by
  rw [join, map_map]
  refine map_congr_left fun _ _ => ?_
  rw [Function.comp_apply]
  split_ifs <;> rfl

theorem exists_join {deduplicated : List Entry} {entry x : Entry} (hen : entry.selector ∈ deduplicated.map selector)
    (hx : x = entry ∨ ∃ e ∈ deduplicated, e.encompasses x = true) :
    ∃ e ∈ join deduplicated entry, e.encompasses x = true := by
  rcases hx with rfl | ⟨e, he, hx⟩
  · obtain ⟨_, he, heq⟩ := mem_map.mp hen
    refine ⟨_, mem_map_of_mem he, ?_⟩
    rw [if_pos heq]
    refine Entry.encompasses_iff.mpr ⟨heq ▸ Selector.encompasses_refl _, fun bit hbit => ?_⟩
    rw [Access.has_or, hbit, Bool.or_true]
  · refine ⟨_, mem_map_of_mem he, ?_⟩
    split_ifs
    · obtain ⟨hs, hb⟩ := Entry.encompasses_iff.mp hx
      refine Entry.encompasses_iff.mpr ⟨hs, fun bit hbit => ?_⟩
      rw [Access.has_or, hb bit hbit, Bool.true_or]
    · exact hx

theorem covers_join {deduplicated : List Entry} {entry : Entry} (hen : entry.selector ∈ deduplicated.map selector) :
    Covers (join deduplicated entry) device bit ↔ Covers deduplicated device bit ∨ Covers [entry] device bit := by
  constructor
  · rintro ⟨e, he, hs, hbit⟩
    obtain ⟨before, hb, rfl⟩ := mem_map.mp he
    split_ifs at hs hbit with heq
    · rw [Access.has_or, Bool.or_eq_true] at hbit
      rcases hbit with hbit | hbit
      · exact .inl ⟨before, hb, hs, hbit⟩
      · exact .inr (covers_singleton.mpr ⟨heq ▸ hs, hbit⟩)
    · exact .inl ⟨before, hb, hs, hbit⟩
  · rintro (h | h)
    · exact h.within fun x hx => exists_join hen (.inr ⟨x, hx, x.encompasses_refl⟩)
    · exact h.within fun x hx => exists_join hen (.inl (mem_singleton.mp hx))

theorem Merged.merge {deduplicated : List Entry} (h : Merged entries deduplicated) (entry : Entry) :
    Merged (entries ++ [entry]) (merge deduplicated entry) := by
  rw [merge_eq]
  set before := if entry.selector ∈ deduplicated.map selector then deduplicated else deduplicated ++ [entry] with hbe
  have hmem : entry.selector ∈ before.map selector := mem_appended deduplicated entry
  have hsub : ∀ e ∈ before, e ∈ deduplicated ∨ e = entry := by
    intro e he
    rw [hbe] at he
    split_ifs at he
    · exact .inl he
    · exact (mem_append.mp he).imp_right mem_singleton.mp
  refine ⟨?_, ?_, ?_, ?_⟩
  · intro hen e he
    obtain ⟨old, hold, rfl⟩ := mem_map.mp he
    have hso : old.access.isNone = false := by
      rcases hsub old hold with hold | rfl
      · exact h.nonempty (fun e he => hen e (mem_append_left _ he)) old hold
      · exact hen old (mem_append_right _ (mem_singleton_self old))
    split_ifs
    · obtain ⟨bit, hbit⟩ := Access.isNone_eq_false_iff.mp hso
      exact Access.isNone_eq_false_iff.mpr ⟨bit, by rw [Access.has_or, hbit, Bool.true_or]⟩
    · exact hso
  · rw [map_selector_join, hbe]
    split_ifs with hin
    · exact h.distinct
    · rw [map_append]
      exact nodup_append.mpr ⟨h.distinct, nodup_singleton _, fun _ _ _ hb hab =>
        hin (by rwa [← mem_singleton.mp hb, ← hab])⟩
  · intro e he
    have hs : e.selector ∈ before.map selector := by
      rw [← map_selector_join before entry]
      exact mem_map_of_mem he
    obtain ⟨old, hold, heq⟩ := mem_map.mp hs
    rcases hsub old hold with hold | rfl
    · obtain ⟨original, ho, hsa⟩ := h.selectors old hold
      exact ⟨original, mem_append_left _ ho, hsa.trans heq⟩
    · exact ⟨old, mem_append_right _ (mem_singleton_self old), heq⟩
  · intro device bit
    rw [covers_join hmem, covers_append, ← h.covers device bit, hbe]
    split_ifs
    · rfl
    · rw [covers_append, or_assoc, or_self]

theorem Merged.foldl : ∀ {entries deduplicated : List Entry}, Merged entries deduplicated → ∀ rest : List Entry,
    Merged (entries ++ rest) (rest.foldl Devices.merge deduplicated)
  | _, _, h, [] => by rwa [append_nil]
  | _, _, h, entry :: rest => by
    rw [append_cons]
    exact (h.merge entry).foldl rest

theorem merged_nil : Merged [] [] :=
  ⟨nofun, nodup_nil, nofun, fun _ _ => .rfl⟩

theorem merged_deduplicate (entries : List Entry) : Merged entries (deduplicate entries) :=
  merged_nil.foldl entries

/-- **Merging leaves every entry within another.** -/
theorem exists_deduplicate : ∀ (rest : List Entry) {deduplicated : List Entry} {x : Entry},
    (x ∈ rest ∨ ∃ e ∈ deduplicated, e.encompasses x = true) →
    ∃ e ∈ rest.foldl merge deduplicated, e.encompasses x = true
  | [], _, _, h => h.resolve_left not_mem_nil
  | entry :: rest, deduplicated, x, h => by
    refine exists_deduplicate rest ?_
    rw [merge_eq]
    rcases h with h | ⟨e, he, hx⟩
    · rw [mem_cons, or_comm] at h
      exact h.imp_right fun h => exists_join (mem_appended deduplicated entry) (.inl h)
    · refine .inr (exists_join (mem_appended deduplicated entry) (.inr ⟨e, ?_, hx⟩))
      split_ifs <;> simp [he]

theorem deduplicate_of_distinct : ∀ (rest done : List Entry), ((done ++ rest).map selector).Nodup →
    rest.foldl merge done = done ++ rest
  | [], done, _ => (append_nil done).symm
  | entry :: rest, done, h => by
    rw [append_cons] at h ⊢
    have hne : ∀ e ∈ done, e.selector ≠ entry.selector := by
      rw [map_append, map_append] at h
      exact fun e he => (nodup_append.mp (nodup_append.mp h).1).2.2 _ (mem_map_of_mem he) _ (by simp)
    have hm : merge done entry = done ++ [entry] := by
      rw [merge_eq, if_neg (by simpa using hne), join]
      refine (map_congr_left fun e he => ?_).trans (map_id _)
      split_ifs with hs
      · obtain rfl := mem_singleton.mp ((mem_append.mp he).resolve_left fun he => hne e he hs)
        simp [Access.or]
      · rfl
    rw [foldl_cons, hm]
    exact deduplicate_of_distinct rest _ h

theorem mem_stripEncompassed {entry : Entry} : entry ∈ stripEncompassed entries ↔
    entry ∈ entries ∧ ∀ other ∈ entries, other.encompasses entry = true → entry.selector = other.selector := by
  simp only [stripEncompassed, mem_filter, Bool.not_eq_true', any_eq_false, Bool.and_eq_true,
    decide_eq_true_eq, not_and, ne_eq]
  refine and_congr_right fun _ => forall₂_congr fun _ _ => ?_
  exact ⟨fun h ho => by_contra fun hne => h hne ho, fun h hne ho => hne (h ho)⟩

theorem exists_stripEncompassed {entry : Entry} (hen : entry ∈ entries) :
    ∃ kept ∈ stripEncompassed entries, kept.encompasses entry = true := by
  by_cases hk : entry ∈ stripEncompassed entries
  · exact ⟨entry, hk, entry.encompasses_refl⟩
  simp only [mem_stripEncompassed, hen, true_and, not_forall] at hk
  obtain ⟨other, ho, ha, hne⟩ := hk
  have hm := wildcards_lt (encompasses_iff.mp ha).1 hne
  have ht := other.selector.wildcards_le
  obtain ⟨kept, hmem, hov⟩ := exists_stripEncompassed ho
  exact ⟨kept, hmem, encompasses_trans hov ha⟩
termination_by 3 - entry.selector.wildcards

theorem covers_stripEncompassed : Covers (stripEncompassed entries) device bit ↔ Covers entries device bit := by
  constructor
  · rintro ⟨entry, hen, h⟩
    exact ⟨entry, (mem_stripEncompassed.mp hen).1, h⟩
  · exact fun h => h.within fun _ => exists_stripEncompassed

/-! ## The whole -/
structure Normalized (entries result : List Entry) : Prop where
  normal : Normal result
  selectors : ∀ entry ∈ result, ∃ original ∈ entries, original.selector = entry.selector
  covers : ∀ device bit, Covers result device bit ↔ Covers entries device bit

/-- **The `CHECK` in `normalize` does not fail**, and the list that it gives covers what the one it is given covers. -/
theorem exists_normalize (entries : List Entry) :
    ∃ result, normalize entries = some result ∧ Normalized entries result := by
  have hm := merged_deduplicate (stripEmpties entries)
  have hn : Normal (stripEncompassed (deduplicate (stripEmpties entries))) := by
    refine ⟨?_, ?_, ?_⟩
    · intro entry hen
      refine hm.nonempty (fun _ he => ?_) entry (mem_stripEncompassed.mp hen).1
      simpa using (mem_filter.mp he).2
    · exact hm.distinct.sublist (filter_sublist.map _)
    intro entry hen _ ho hov
    have hs := (mem_stripEncompassed.mp ho).2 entry (mem_stripEncompassed.mp hen).1 hov
    exact inj_on_of_nodup_map hm.distinct (mem_stripEncompassed.mp hen).1 (mem_stripEncompassed.mp ho).1 hs.symm
  refine ⟨_, if_pos (normalized_iff.mpr hn), hn, ?_, ?_⟩
  · intro entry hen
    obtain ⟨original, hor, hsa⟩ := hm.selectors entry (mem_stripEncompassed.mp hen).1
    exact ⟨original, (mem_filter.mp hor).1, hsa⟩
  · intro _ _
    rw [covers_stripEncompassed, hm.covers, covers_stripEmpties]

theorem normalize_of_normal (h : Normal entries) : normalize entries = some entries := by
  have hs : stripEmpties entries = entries := filter_eq_self.mpr fun entry he => by rw [h.nonempty entry he]; rfl
  have hd : deduplicate entries = entries := deduplicate_of_distinct entries [] h.distinct
  have he : stripEncompassed entries = entries := filter_eq_self.mpr fun entry hen =>
    (mem_filter.mp (mem_stripEncompassed.mpr ⟨hen, fun other ho ha => by rw [h.maximal other ho entry hen ha]⟩)).2
  simp only [normalize, hs, hd, he, normalized_iff.mpr h, if_true]

/-- **Normalizing keeps what a list covers.**  It gives a normalized list, which is left as it is when it is normalized
again, and every entry that is not empty is encompassed by one entry of it. -/
theorem normalize_exact (entries : List Entry) : ∃ result, normalize entries = some result ∧
    normalized result = true ∧ normalize result = some result ∧
    (∀ device bit, Covers entries device bit ↔ Covers result device bit) ∧
    ∀ entry ∈ entries, entry.access.isNone = false → ∃ kept ∈ result, kept.encompasses entry = true := by
  obtain ⟨result, hr, h⟩ := exists_normalize entries
  refine ⟨result, hr, normalized_iff.mpr h.normal, normalize_of_normal h.normal,
    fun device bit => (h.covers device bit).symm, fun entry hen hso => ?_⟩
  obtain ⟨e, he, hx⟩ := @exists_deduplicate (stripEmpties entries) [] entry
    (.inl (mem_filter.mpr ⟨hen, by rw [hso]; rfl⟩))
  obtain ⟨kept, hk, ho⟩ := exists_stripEncompassed he
  obtain ⟨-, hr⟩ := Option.ite_none_right_eq_some.mp hr
  cases hr
  exact ⟨kept, hk, encompasses_trans ho hx⟩

end Clusterd.Devices

/-!
# The device manager (`device_manager.cpp`)

`DeviceManagerProcess` keeps an allow list and a deny list for each cgroup.  What a sequence of calls makes of them is what
it makes of the plain policy, which says of each device and access whether it is granted: no `CHECK` fails on the way.
-/
namespace Clusterd.Devices

structure NonWildcardEntry where
  selector : Device
  access : Access

def convertToEntry (entry : NonWildcardEntry) : Entry := ⟨entry.selector.selector, entry.access⟩

structure CgroupDeviceAccess where
  (allowList denyList : List Entry)

namespace CgroupDeviceAccess

/-- `create`; `none` is an error. -/
def create (allowList denyList : List Entry) : Option CgroupDeviceAccess :=
  if normalized allowList && normalized denyList then some { allowList, denyList } else none

/-- `is_access_granted`; `none` if a `CHECK` fails. -/
def isAccessGranted (this : CgroupDeviceAccess) (query : Entry) : Option Bool :=
  let allowed := this.allowList.any fun allow => allow.encompasses query
  let denied := this.denyList.any fun deny => deny.selector.encompasses query.selector && deny.access.overlaps query.access
  if normalized this.allowList && normalized this.denyList then some (allowed && !denied) else none

end CgroupDeviceAccess

/-! ## `apply_diff` -/
/-- `revoke_accesses`; `none` if a `CHECK` fails. -/
def revokeAccesses (diff entry : Entry) : Option Entry :=
  if entry.selector.hasWildcard || diff.selector.hasWildcard then none
  else if entry.selector.major = diff.selector.major ∧ entry.selector.minor = diff.selector.minor ∧
      entry.selector.type = diff.selector.type then
    some { entry with access := entry.access.minus diff.access }
  else some entry

def addAccesses (state : CgroupDeviceAccess) (addition : Entry) : Option CgroupDeviceAccess := do
  let denyList ← state.denyList.mapM (revokeAccesses addition)
  return { allowList := state.allowList ++ [addition], denyList }

/-- The loop over the allow list for a removal: what the matching wildcards allow, and the list with the accesses revoked.
An entry with wildcards matches under the conditions of `Selector::encompasses`. -/
def revokeAllowed (removal : Entry) : Access → List Entry → Option (Access × List Entry)
  | accesses, [] => some (accesses, [])
  | accesses, allow :: rest =>
    if allow.selector.hasWildcard then do
      let (accesses, rest) ← revokeAllowed removal
        (if allow.selector.encompasses removal.selector then accesses.or allow.access else accesses) rest
      return (accesses, allow :: rest)
    else do
      let revoked ← revokeAccesses removal allow
      let (accesses, rest) ← revokeAllowed removal accesses rest
      return (accesses, revoked :: rest)

def removeAccesses (state : CgroupDeviceAccess) (removal : Entry) : Option CgroupDeviceAccess := do
  let (accesses, allowList) ← revokeAllowed removal { read := false, write := false, mknod := false } state.allowList
  let removalAccess := removal.access.and accesses
  if removalAccess.isNone then return { state with allowList }
  else return { allowList, denyList := state.denyList ++ [{ removal with access := removalAccess }] }

/-- `apply_diff`; `none` if a `CHECK` fails. -/
def applyDiff (oldState : CgroupDeviceAccess) (additions removals : List NonWildcardEntry) : Option CgroupDeviceAccess := do
  let newState ← (additions.map convertToEntry).foldlM addAccesses oldState
  let newState ← (removals.map convertToEntry).foldlM removeAccesses newState
  let allowList ← normalize newState.allowList
  let denyList ← normalize newState.denyList
  return { allowList, denyList }

/-! ## The process -/
inductive Call
  | configure (cgroup : String) (allow : List Entry) (deny : List NonWildcardEntry)
  | reconfigure (cgroup : String) (additions removals : List NonWildcardEntry)
  | remove (cgroup : String)

/-- `configure` fails on these lists. -/
def rejectsConfigure (allow : List Entry) (deny : List NonWildcardEntry) : Bool :=
  let denyList := deny.map convertToEntry
  !normalized allow || !normalized denyList ||
    allow.any fun allowEntry => denyList.any fun denyEntry => denyEntry.encompasses allowEntry

/-- `reconfigure` fails on these lists. -/
def rejectsReconfigure (additions removals : List NonWildcardEntry) : Bool :=
  additions.any fun addition => removals.any fun removal => (convertToEntry removal).encompasses (convertToEntry addition)

structure Manager where
  deviceAccessPerCgroup : AList (fun _ : String => CgroupDeviceAccess) := ∅

namespace Manager

/-- A call that fails leaves the lists as they are; `none` if a `CHECK` fails.  A commit that fails changes no list. -/
def call (this : Manager) : Call → Option Manager
  | .configure cgroup allow deny =>
    if rejectsConfigure allow deny then some this
    else do
      let access ← CgroupDeviceAccess.create allow (deny.map convertToEntry)
      if (this.deviceAccessPerCgroup.lookup cgroup).isSome then return this
      else return { deviceAccessPerCgroup := this.deviceAccessPerCgroup.insert cgroup access }
  | .reconfigure cgroup additions removals =>
    if rejectsReconfigure additions removals then some this
    else do
      let access ← match this.deviceAccessPerCgroup.lookup cgroup with
        | some access => applyDiff access additions removals
        | none => (CgroupDeviceAccess.create [] []).bind (applyDiff · additions removals)
      return { deviceAccessPerCgroup := this.deviceAccessPerCgroup.insert cgroup access }
  | .remove cgroup => some { deviceAccessPerCgroup := this.deviceAccessPerCgroup.erase cgroup }

end Manager

/-! ## The policy -/
abbrev Grants := Device → Bit → Prop

def Lists (entries : List NonWildcardEntry) (device : Device) (bit : Bit) : Prop :=
  ∃ entry ∈ entries, entry.selector = device ∧ entry.access.has bit = true

/-- **What a reconfiguration is to do**: an access is granted if it is not removed, and was added or granted before. -/
def Grants.change (grants : Grants) (additions removals : List NonWildcardEntry) : Grants := fun device bit =>
  ¬Lists removals device bit ∧ (Lists additions device bit ∨ grants device bit)

abbrev Policy := String → Option Grants

def Policy.call (policy : Policy) : Call → Policy
  | .configure cgroup allow deny =>
    if rejectsConfigure allow deny || (policy cgroup).isSome then policy
    else Function.update policy cgroup
      (some fun device bit => Covers allow device bit ∧ ¬Covers (deny.map convertToEntry) device bit)
  | .reconfigure cgroup additions removals =>
    if rejectsReconfigure additions removals then policy
    else Function.update policy cgroup
      (some (((policy cgroup).getD fun _ _ => False).change additions removals))
  | .remove cgroup => Function.update policy cgroup none

def query (device : Device) (bit : Bit) : Entry where
  selector := device.selector
  access := { read := bit = .read, write := bit = .write, mknod := bit = .mknod }

def CgroupDeviceAccess.grants (this : CgroupDeviceAccess) : Grants := fun device bit =>
  this.isAccessGranted (query device bit) = some true

def Manager.policy (this : Manager) : Policy := fun cgroup =>
  (this.deviceAccessPerCgroup.lookup cgroup).map CgroupDeviceAccess.grants

end Clusterd.Devices
