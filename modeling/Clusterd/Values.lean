import Clusterd.ValuesRanges
/-! # Values: scalars, ranges and sets, and how much of each point a value holds -/
namespace Clusterd.Values

open List Ranges

/-! ## Sets of items -/
namespace Sets

section

variable (left right : List String)

/-- `operator==` on sets, which compares the items at each position. -/
def same : Bool :=
  left.length == right.length && (left.zip right).all fun items => items.1 == items.2

/-- `operator<=` on sets. -/
def le : Bool := decide (left.length ≤ right.length) && left.all (right.contains ·)

/-- `operator+=` on sets: the items of `right` that are not there yet, appended. -/
def add : List String :=
  right.foldl (fun items item => if items.contains item then items else items ++ [item]) left

/-- `operator-=` on sets: each item of `right` removed where it is first found. -/
def subtract : List String := right.foldl List.erase left

/-- `operator+` on sets, which does to a copy of `left` what `operator+=` does to `left`. -/
def plus : List String := add left right

/-- `operator-` on sets. -/
def minus : List String := left.filter (!right.contains ·)

end

theorem same_iff : ∀ left right : List String, same left right = true ↔ left = right
  | [], [] => by simp [same]
  | [], _ :: _ => by simp [same]
  | _ :: _, [] => by simp [same]
  | l :: left, r :: right => by
    have ih := same_iff left right
    simp only [same, length_cons, zip_cons_cons, all_cons, Bool.and_eq_true, beq_iff_eq,
      Nat.add_right_cancel_iff, cons.injEq, ← ih]
    tauto

theorem le_iff {left right : List String} (hl : left.Nodup) : le left right = true ↔ left ⊆ right := by
  simp only [le, Bool.and_eq_true, decide_eq_true_eq, all_eq_true, contains_iff_mem]
  exact ⟨fun h => h.2, fun h => ⟨(subperm_of_subset hl h).length_le, h⟩⟩

theorem add_spec (item : String) : ∀ right left : List String, left.Nodup →
    (add left right).Nodup ∧ (item ∈ add left right ↔ item ∈ left ∨ item ∈ right)
  | [], left, h => ⟨h, by simp [add]⟩
  | r :: right, left, h => by
    have hs : add left (r :: right) = add (if left.contains r then left else left ++ [r]) right := rfl
    rw [hs]
    split_ifs with hr
    · have hmem : r ∈ left := contains_iff_mem.1 hr
      obtain ⟨h1, h2⟩ := add_spec item right left h
      refine ⟨h1, h2.trans ?_⟩
      rw [mem_cons]
      constructor
      · tauto
      rintro (h | rfl | h)
      · exact .inl h
      · exact .inl hmem
      · exact .inr h
    · have hmem : r ∉ left := fun h => hr (contains_iff_mem.2 h)
      have hn : (left ++ [r]).Nodup :=
        nodup_append.2 ⟨h, nodup_singleton r, fun _ ha _ hb => by
          rw [mem_singleton.1 hb]
          exact fun heq => hmem (heq ▸ ha)⟩
      obtain ⟨h1, h2⟩ := add_spec item right (left ++ [r]) hn
      refine ⟨h1, h2.trans ?_⟩
      rw [mem_append, mem_singleton, mem_cons, or_assoc]

theorem subtract_spec (item : String) : ∀ right left : List String, left.Nodup →
    (subtract left right).Nodup ∧ (item ∈ subtract left right ↔ item ∈ left ∧ item ∉ right)
  | [], left, h => ⟨h, by simp [subtract]⟩
  | r :: right, left, h => by
    obtain ⟨h1, h2⟩ := subtract_spec item right (left.erase r) (h.erase r)
    refine ⟨h1, h2.trans ?_⟩
    rw [h.mem_erase_iff, mem_cons]
    tauto

/-- On sets without duplicates `operator==` is right exactly if they are not two orders of the same items. -/
theorem same_iff_mem {left right : List String} (hl : left.Nodup) (hr : right.Nodup) :
    (same left right = true ↔ ∀ item, item ∈ left ↔ item ∈ right) ↔ (left.Perm right → left = right) := by
  rw [same_iff, ← perm_ext_iff_of_nodup hl hr]
  exact ⟨fun h => h.2, fun h => ⟨fun heq => heq ▸ .refl _, h⟩⟩

/-- **The operators on duplicate-free sets do what their names say**; `operator==` does exactly if the two sets are not two
orders of the same items, and a permutation of them is compared alike if this holds of both pairs or of neither. -/
theorem operators_on_sets {left right : List String} (hl : left.Nodup) (hr : right.Nodup) :
    ((plus left right).Nodup ∧ ∀ item, item ∈ plus left right ↔ item ∈ left ∨ item ∈ right) ∧
    (∀ item, item ∈ minus left right ↔ item ∈ left ∧ item ∉ right) ∧
    (∀ item, item ∈ subtract left right ↔ item ∈ left ∧ item ∉ right) ∧
    (le left right = true ↔ left ⊆ right) ∧
    ((same left right = true ↔ ∀ item, item ∈ left ↔ item ∈ right) ↔ (left.Perm right → left = right)) ∧
    ((same left right = true ↔ le left right = true ∧ le right left = true) ↔ (left.Perm right → left = right)) ∧
    ∀ left' right' : List String, left'.Perm left → right'.Perm right →
      (same left' right' = same left right ↔
        ((left'.Perm right' → left' = right') ↔ (left.Perm right → left = right))) := by
  refine ⟨⟨(add_spec "" right left hl).1, fun item => (add_spec item right left hl).2⟩, fun item => by simp [minus],
    fun item => (subtract_spec item right left hl).2, le_iff hl, same_iff_mem hl hr, ?_, fun left' right' hpl hpr => ?_⟩
  · rw [← same_iff_mem hl hr, le_iff hl, le_iff hr]
    have hsub : left ⊆ right ∧ right ⊆ left ↔ ∀ item, item ∈ left ↔ item ∈ right :=
      ⟨fun h item => ⟨@h.1 item, @h.2 item⟩, fun h => ⟨fun item => (h item).1, fun item => (h item).2⟩⟩
    rw [hsub]
  · rw [Bool.eq_iff_iff, same_iff, same_iff]
    by_cases hp : left.Perm right
    · -- the two pairs are orders of the same items, so what is asked of each is its equality
      have hp' : left'.Perm right' := hpl.trans (hp.trans hpr.symm)
      simp only [hp, hp', true_imp_iff]
    · have hp' : ¬ left'.Perm right' := fun h => hp (hpl.symm.trans (h.trans hpr))
      have hne : left ≠ right := fun h => hp (h ▸ .refl _)
      have hne' : left' ≠ right' := fun h => hp' (h ▸ .refl _)
      simp only [hp, hp', hne, hne', false_imp_iff]

theorem operators_on_sets_disks : same ["a", "b", "c"] ["b", "a"] = false ∧ same ["a", "b"] ["a", "b"] = true := by
  have hsizes := (@operators_on_sets ["a", "b", "c"] ["b", "a"] (by decide) (by decide)).2.2.2.2.1.2 (by decide)
  have hequal := (@operators_on_sets ["a", "b"] ["a", "b"] (by decide) (by decide)).2.2.2.2.1.2 fun _ => rfl
  refine ⟨Bool.eq_false_iff.2 fun h => ?_, hequal.2 fun _ => .rfl⟩
  exact absurd ((hsizes.1 h "c").1 (by decide)) (by decide)

/-- Two sets with the same items in another order are not equal. -/
theorem same_in_order : same ["a", "b"] ["b", "a"] = false ∧ le ["a", "b"] ["b", "a"] = true ∧
    le ["b", "a"] ["a", "b"] = true := by
  decide

end Sets

/-! ## Values -/
/-- `Value` as resources use it.  A scalar counts thousandths exactly: the source keeps a `double` and rounds each sum to
thousandths, which is the same while the amounts are less than about 2⁵³ thousandths. -/
inductive Value
  | scalar (thousandths : Int)
  | ranges (ranges : List Range)
  | set (items : List String)
deriving DecidableEq, Repr

/-- `Value::Type`. -/
inductive ValueType
  | scalar
  | ranges
  | set
deriving DecidableEq, Repr

/-- The units a value is made of: the one unit of a scalar, the numbers of ranges, the items of sets. -/
inductive Point
  | scalar
  | number (n : Nat)
  | item (s : String)
deriving DecidableEq, Repr

structure Takes (exact : Prop) (before taken after : Int) : Prop where
  atLeast : before - taken ≤ after
  atMost : after ≤ before
  exactly : exact → after = before - taken

theorem takes_of_eq {exact : Prop} {before taken after : Int} (ht : 0 ≤ taken) (h : after = before - taken) :
    Takes exact before taken after := ⟨h.ge, by omega, fun _ => h⟩

theorem Takes.imp {exact exact' : Prop} {before taken after : Int} (h : Takes exact before taken after)
    (himp : exact' → exact) : Takes exact' before taken after := ⟨h.atLeast, h.atMost, fun h' => h.exactly (himp h')⟩

namespace Value

def type : Value → ValueType
  | scalar _ => .scalar
  | ranges _ => .ranges
  | set _ => .set

def isEmpty : Value → Bool
  | scalar x => x == 0
  | ranges rs => rs.length == 0
  | set items => items.length == 0

/-- `operator==` on the values of two resources. -/
def same : Value → Value → Bool
  | scalar x, scalar y => x == y
  | ranges l, ranges r => Ranges.same l r
  | set l, set r => Sets.same l r
  | _, _ => false

/-- `operator<=` on the values of two resources. -/
def le : Value → Value → Bool
  | scalar x, scalar y => decide (x ≤ y)
  | ranges l, ranges r => Ranges.le l r
  | set l, set r => Sets.le l r
  | _, _ => false

/-- `operator+=` on the values of two resources. -/
def add : Value → Value → Value
  | scalar x, scalar y => scalar (x + y)
  | ranges l, ranges r => ranges (Ranges.add l r)
  | set l, set r => set (Sets.add l r)
  | left, _ => left

/-- `operator-=` on the values of two resources. -/
def subtract : Value → Value → Value
  | scalar x, scalar y => scalar (x - y)
  | ranges l, ranges r => ranges (Ranges.subtract l r)
  | set l, set r => set (Sets.subtract l r)
  | left, _ => left

@[simp] theorem type_add (l r : Value) : (l.add r).type = l.type := by cases l <;> cases r <;> rfl

@[simp] theorem type_subtract (l r : Value) : (l.subtract r).type = l.type := by cases l <;> cases r <;> rfl

/-! ## How much of each point a value holds -/
def Ok : Value → Prop
  | scalar x => 0 ≤ x
  | ranges rs => ∀ r ∈ rs, r.Ok
  | set items => items.Nodup

def Regular : Value → Prop
  | ranges rs => Ranges.Disjoint rs
  | _ => True

/-- How much of the point `p` the value holds. -/
def amount : Value → Point → Int
  | scalar x, .scalar => x
  | ranges rs, .number n => if Ranges.Covers rs n then 1 else 0
  | set items, .item s => if s ∈ items then 1 else 0
  | _, _ => 0

def join : Point → Int → Int → Int
  | .scalar, x, y => x + y
  | _, x, y => max x y

variable {v : Value}

theorem amount_nonneg (hv : v.Ok) (p : Point) : 0 ≤ v.amount p := by
  cases v <;> cases p <;> simp only [amount] <;> first | exact hv | exact le_rfl | (split_ifs <;> decide)

theorem amount_le_one (v : Value) {p : Point} (hp : p ≠ .scalar) : v.amount p ≤ 1 := by
  cases v <;> cases p <;> simp only [amount] <;> first | exact absurd rfl hp | decide | (split_ifs <;> decide)

theorem isEmpty_iff (hv : v.Ok) : v.isEmpty = true ↔ ∀ p, v.amount p = 0 := by
  cases v with
  | scalar =>
    refine ⟨fun h p => ?_, fun h => beq_iff_eq.2 (h .scalar)⟩
    cases p with
    | scalar => exact beq_iff_eq.1 h
    | _ => rfl
  | ranges =>
    simp only [isEmpty, beq_iff_eq, length_eq_zero_iff]
    constructor
    · rintro rfl p
      cases p <;> simp [amount, covers_nil]
    intro h
    refine eq_nil_of_covers_none hv fun n hn => ?_
    have := h (.number n)
    rw [amount, if_pos hn] at this
    exact nomatch this
  | set =>
    simp only [isEmpty, beq_iff_eq, length_eq_zero_iff]
    constructor
    · rintro rfl p
      cases p <;> simp [amount]
    intro h
    refine eq_nil_iff_forall_not_mem.2 fun s hs => ?_
    have := h (.item s)
    rw [amount, if_pos hs] at this
    exact nomatch this

theorem exists_amount_pos (hv : v.Ok) (h : v.isEmpty = false) : ∃ p, 0 < v.amount p := by
  by_contra hno
  refine Bool.eq_false_iff.1 h ((isEmpty_iff hv).2 fun p => ?_)
  exact le_antisymm (not_lt.1 fun hlt => hno ⟨p, hlt⟩) (amount_nonneg hv p)

variable {l r : Value}

theorem ite_le {c d : Prop} [Decidable c] [Decidable d] :
    (if c then 1 else 0 : Int) ≤ (if d then 1 else 0) ↔ (c → d) := by
  split_ifs <;> simp [*]

/-- **One value is at most another of its type exactly when it holds no more of any point.** -/
theorem le_iff (hl : l.Ok) (hr : r.Ok) (ht : l.type = r.type) : l.le r = true ↔ ∀ p, l.amount p ≤ r.amount p := by
  cases l with
  | scalar =>
    cases r with
    | scalar =>
      refine decide_eq_true_iff.trans ⟨fun h p => ?_, fun h => h .scalar⟩
      cases p with
      | scalar => exact h
      | _ => exact le_rfl
    | _ => cases ht
  | ranges =>
    cases r with
    | ranges =>
      refine (le_iff hl hr).trans ⟨fun h p => ?_, fun h n => ite_le.1 (h (.number n))⟩
      cases p with
      | number n => exact ite_le.2 (h n)
      | _ => exact le_rfl
    | _ => cases ht
  | set =>
    cases r with
    | set =>
      refine (Sets.le_iff hl).trans ⟨fun h p => ?_, fun h s => ite_le.1 (h (.item s))⟩
      cases p with
      | item => exact ite_le.2 (@h _)
      | _ => exact le_rfl
    | _ => cases ht

theorem le_type (h : l.le r = true) : l.type = r.type := by
  cases l <;> cases r <;> first | rfl | exact absurd h (by simp [le])

variable (hl : l.Ok) (hr : r.Ok)
include hl hr

theorem add_ok : (l.add r).Ok := by
  cases l with
  | scalar =>
    cases r with
    | scalar => exact Int.add_nonneg hl hr
    | _ => exact hl
  | ranges =>
    cases r with
    | ranges =>
      exact coalesce_ok fun x hx => (mem_append.1 hx).elim (hl x) (hr x)
    | _ => exact hl
  | set items =>
    cases r with
    | set items' => exact (Sets.add_spec "" items' items hl).1
    | _ => exact hl

/-- **The amounts of a sum.** -/
theorem amount_add (ht : l.type = r.type) (p : Point) : (l.add r).amount p = join p (l.amount p) (r.amount p) := by
  cases l with
  | scalar =>
    cases r with
    | scalar => cases p <;> rfl
    | _ => cases ht
  | ranges rs =>
    cases r with
    | ranges rs' =>
      cases p with
      | number n =>
        have hcov : Ranges.Covers (Ranges.add rs rs') n ↔ Ranges.Covers rs n ∨ Ranges.Covers rs' n := by
          rw [Ranges.add, Ranges.covers_coalesce fun x hx => (mem_append.1 hx).elim (hl x) (hr x),
            covers_append]
        simp only [add, amount, join, hcov]
        by_cases h1 : Covers rs n <;> by_cases h2 : Covers rs' n <;> simp [h1, h2]
      | _ => rfl
    | _ => cases ht
  | set items =>
    cases r with
    | set items' =>
      cases p with
      | item s =>
        simp only [add, amount, join, (Sets.add_spec s items' items hl).2]
        by_cases h1 : s ∈ items <;> by_cases h2 : s ∈ items' <;> simp [h1, h2]
      | _ => rfl
    | _ => cases ht

theorem subtract_ok (hneg : ∀ x, l.subtract r = scalar x → 0 ≤ x) : (l.subtract r).Ok := by
  cases l with
  | scalar =>
    cases r with
    | scalar => exact hneg _ rfl
    | _ => exact hl
  | ranges =>
    cases r with
    | ranges => exact (subtract_trims hl hr).ok
    | _ => exact hl
  | set items =>
    cases r with
    | set items' => exact (Sets.subtract_spec "" items' items hl).1
    | _ => exact hl

theorem subtract_regular (hreg : l.Regular) : (l.subtract r).Regular := by
  cases l with
  | ranges =>
    cases r with
    | ranges => exact (subtract_spec hl hr hreg).2.2
    | _ => exact hreg
  | _ => cases r <;> trivial

/-- **The amounts of a difference**, where the value taken is at most the one it is taken from. -/
theorem subtract_spec (hle : r.le l = true) :
    (l.subtract r).Ok ∧ ∀ p, Takes (p = .scalar ∨ l.Regular) (l.amount p) (r.amount p) ((l.subtract r).amount p) := by
  have ht := le_type hle
  have ha := (le_iff hr hl ht).1 hle
  cases l with
  | scalar =>
    cases r with
    | scalar =>
      refine ⟨Int.sub_nonneg_of_le (ha .scalar), fun p => takes_of_eq (amount_nonneg hr p) ?_⟩
      cases p <;> rfl
    | _ => cases ht
  | ranges rs =>
    cases r with
    | ranges rs' =>
      obtain ⟨hok, _, _⟩ := subtract_trims hl hr
      refine ⟨hok, fun p => ?_⟩
      cases p with
      | number n =>
        have hn := ha (.number n)
        simp only [subtract, amount] at hn ⊢
        refine ⟨?_, ?_, ?_⟩
        · split_ifs at hn ⊢ <;> first | decide | tauto
        · split_ifs at hn ⊢ <;> first | decide | tauto
        rintro (h | hreg)
        · cases h
        · have hcov := (subtract_spec hl hr hreg).2.1 n
          by_cases h1 : Covers rs n <;> by_cases h2 : Covers rs' n <;> simp [h1, h2, hcov] at hn ⊢
      | _ => exact takes_of_eq (le_refl 0) rfl
    | _ => cases ht
  | set items =>
    cases r with
    | set items' =>
      refine ⟨(Sets.subtract_spec "" items' items hl).1, fun p => takes_of_eq (amount_nonneg hr p) ?_⟩
      cases p with
      | item s =>
        have hs := ha (.item s)
        simp only [subtract, amount, (Sets.subtract_spec s items' items hl).2] at hs ⊢
        by_cases h1 : s ∈ items <;> by_cases h2 : s ∈ items' <;> simp [h1, h2] at hs ⊢
      | _ => rfl
    | _ => cases ht

/-! ## Values that count as the same -/
def normal : Value → Value
  | ranges rs => ranges (Ranges.coalesce rs)
  | v => v

omit hl hr

theorem same_iff (hl : l.Ok) (hr : r.Ok) : l.same r = true ↔ l.normal = r.normal := by
  cases l with
  | scalar => cases r <;> simp [same, normal]
  | ranges =>
    cases r with
    | ranges => simp only [same, normal, same_iff hl hr, ranges.injEq]
    | _ => simp [same, normal]
  | set =>
    cases r with
    | set => simp only [same, normal, Sets.same_iff, set.injEq]
    | _ => simp [same, normal]

theorem amount_normal (hv : v.Ok) (p : Point) : v.normal.amount p = v.amount p := by
  cases v with
  | ranges => cases p <;> simp [normal, amount, covers_coalesce hv]
  | _ => rfl

end Value
end Clusterd.Values
