import Clusterd.CommonBuilt
import Clusterd.CommonOperation
/-! # Totals by name through `+`, `-` and the getters of `Resources` -/
namespace Clusterd.Common

open List Resource_ Resource Values.Ranges Values
open Values (Value Range Point Takes takes_of_eq)

namespace Resource_

variable {x e : Resource_}

theorem held_subtract (hx : x.Ok) (he : e.Ok) (hs : e.resource.shared = false) (h : x.contains e = true)
    (name : String) (p : Point) : Takes (p = .scalar) (x.held name p) (e.held name p) ((x.subtract e).held name p) := by
  obtain ⟨ha, -⟩ := (contains_iff hx he).1 h
  have hxs : x.isShared = false := hx.shared.trans ((shared_congr ha.1).trans hs)
  have hv : e.resource.value.le x.resource.value = true := by
    rw [contains, hxs, he.shared, hs] at h
    exact ((Resource.contains_iff hx.distinct he.distinct).1 h).2.2
  rw [subtract_of_unshared hxs, held, held, held, ← name_congr ha.1]
  by_cases hna : x.resource.name = name
  · rw [if_pos hna, if_pos hna, if_pos hna]
    exact ((Value.subtract_spec hx.value he.value hv).2 p).imp .inl
  · rw [if_neg hna, if_neg hna, if_neg hna]
    exact takes_of_eq (le_refl 0) rfl

theorem held_add (hx : x.Ok) (he : e.Ok) (hk : x.resource.kind = e.resource.kind) (hs : e.resource.shared = false)
    (name : String) (p : Point) : (x.add e).held name p = Value.join p (x.held name p) (e.held name p) := by
  have hxs : x.isShared = false := hx.shared.trans ((shared_congr hk).trans hs)
  rw [add_of_unshared hxs, held, held, held, ← name_congr hk]
  by_cases hna : x.resource.name = name
  · rw [if_pos hna, if_pos hna, if_pos hna]
    exact Value.amount_add hx.value he.value (type_congr hk) p
  · rw [if_neg hna, if_neg hna, if_neg hna]
    cases p <;> rfl

end Resource_

namespace Resources

variable {a b c : Resources} {x e : Resource_}

/-! ## What is conserved -/
def SameQuantities (a b : Resources) : Prop := ∀ name, total a name .scalar = total b name .scalar ∧
  ∀ n, 0 < total a name (.number n) ↔ 0 < total b name (.number n)

structure Joins (p : Point) (x y z : Int) : Prop where
  scalar : p = .scalar → z = x + y
  present : 0 < z ↔ 0 < x ∨ 0 < y

theorem joins_of_add (p : Point) {x y : Int} (hx : 0 ≤ x) (hy : 0 ≤ y) : Joins p x y (x + y) := ⟨fun _ => rfl, by omega⟩

theorem Joins.assoc {p : Point} {x y z u v : Int} (h : Joins p x y u) (h' : Joins p u z v) (hy : 0 ≤ y) (hz : 0 ≤ z) :
    Joins p x (y + z) v := by
  obtain ⟨h1, _⟩ := h
  obtain ⟨h3, _⟩ := h'
  refine ⟨fun hp => ?_, by omega⟩
  rw [h3 hp, h1 hp, add_assoc]

/-- **Adding an entry**, which if it is shared must not be there yet. -/
theorem Kept.total_add (hk : Kept a) (he : e.Ok) (hnew : e.resource.shared = true → ∀ x ∈ a, ¬ x.Alike e)
    (name : String) (p : Point) : Joins p (total a name p) (e.held name p) (total (a.add e) name p) := by
  have hn := total_nonneg hk.ok name p
  have hh := held_nonneg he name p
  rcases add_cases he.isEmpty a with ⟨-, h⟩ | ⟨pre, x, post, rfl, hx, h⟩
  · rw [h, total_append, total_cons, total_nil, add_zero]
    exact joins_of_add p hn hh
  have hxm : x ∈ pre ++ x :: post := mem_append_right _ mem_cons_self
  have hxok := hk.ok x hxm
  obtain ⟨ha, -⟩ := (addable_iff hxok he).1 hx
  have hs : e.resource.shared = false := Bool.eq_false_iff.2 fun hs => hnew hs x hxm ha
  have hpre := total_nonneg (fun y hy => hk.ok y (mem_append_left _ hy)) name p (a := pre)
  have hpo := total_nonneg (fun y hy => hk.ok y (mem_append_right _ (mem_cons_of_mem _ hy))) name p (a := post)
  have hxh := held_nonneg hxok name p
  rw [h, total_append, total_cons, total_append, total_cons, held_add hxok he ha.1 hs]
  refine ⟨?_, ?_⟩
  · rintro rfl
    simp only [Value.join]
    omega
  · cases p <;> simp only [Value.join] <;> omega

def Unshared (this : Resources) : Prop := ∀ e ∈ this, e.resource.shared = false

theorem Unshared.copies (h : Unshared a) (token : Token) : content a (.copies token) = 0 := of_not_not fun hne => by
  obtain ⟨e, he, hw⟩ := exists_weight_ne_zero hne
  exact hw (if_neg fun ht => by simp [h e he] at ht)

/-- **Adding entries that are not shared.** -/
theorem Kept.total_plus (name : String) (p : Point) : ∀ (b : Resources) {a : Resources}, Kept a → Ok b → Unshared b →
    Joins p (total a name p) (total b name p) (total (a.plus b) name p)
  | [], a, hk, _, _ => by
    have := joins_of_add p (total_nonneg hk.ok name p) (le_refl 0)
    rwa [add_zero] at this
  | e :: b, a, hk, hb, hs => by
    obtain ⟨he, hb⟩ := forall_mem_cons.1 hb
    obtain ⟨hse, hs⟩ := forall_mem_cons.1 hs
    refine (hk.total_add he (fun h => ?_) name p).assoc (Kept.total_plus name p b (hk.add he).1 hb hs)
      (held_nonneg he name p) (total_nonneg hb name p)
    exact nomatch hse.symm.trans h

/-- **Subtracting an entry that is held**, all its copies if it is shared. -/
theorem Kept.total_subtract (hk : Kept a) (hw : WholeRegular a) (he : e.Ok) (hh : a.holds e = true)
    (hla : e.resource.shared = true → ∀ x ∈ a, x.Alike e → x.count = e.count) (name : String) (p : Point) :
    Takes (p = .scalar) (total a name p) (e.held name p) (total (a.subtract e) name p) := by
  obtain ⟨x, _, -, hpe, hc, hl, h⟩ := hk.subtract_held hw he hh
  have hxm : x ∈ a := hpe.symm.subset mem_cons_self
  have hxok := hk.ok x hxm
  obtain ⟨ha, -⟩ := (contains_iff hxok he).1 hc
  rw [total_perm hpe, total_perm h, total_cons]
  cases hem : (x.subtract e).isEmpty with
  | true =>
    have hb : e.contains x = true :=
      (contains_iff he hxok).2 ⟨ha.symm, fun s => (hl.none hem s).le⟩
    have h1 := held_le_of_contains hxok he hc name p
    have h2 := held_le_of_contains he hxok hb name p
    rw [if_pos rfl]
    exact takes_of_eq (held_nonneg he name p) (by omega)
  | false =>
    have hs : e.resource.shared = false := Bool.eq_false_iff.2 fun hs => by
      have hxs : x.isShared = true := hxok.shared.trans ((shared_congr ha.1).trans hs)
      rw [Resource_.subtract_of_shared hxs, Resource_.isEmpty, hla hs x hxm ha] at hem
      exact absurd hem (by simp [Resource_.isShared, Resource_.count])
    obtain ⟨_, _, hexa⟩ := held_subtract hxok he hs hc name p
    rw [if_neg (by decide), total_cons]
    exact ⟨by omega, by omega, fun hp => by have := hexa hp; omega⟩

/-- **Subtracting entries that are covered and not shared.** -/
theorem Kept.total_minus (name : String) (p : Point) : ∀ (b : Resources) {a : Resources}, Kept a → WholeRegular a →
    Ok b → Unshared b → (∀ s, content b s ≤ content a s) →
    Takes (p = .scalar) (total a name p) (total b name p) (total (a.minus b) name p)
  | [], a, _, _, _, _, _ => takes_of_eq (le_refl 0) (sub_zero (total a name p)).symm
  | e :: b, a, hk, hw, hb, hs, hle => by
    obtain ⟨he, hb⟩ := forall_mem_cons.1 hb
    obtain ⟨hse, hs⟩ := forall_mem_cons.1 hs
    obtain ⟨hh, -, hr⟩ := hk.covered_cons hw he hb hle
    have hst : a.minus (e :: b) = (a.subtract e).minus b := rfl
    obtain ⟨_, _, h3⟩ := hk.total_subtract hw he hh
      (fun h => nomatch (hse.symm.trans h)) name p
    obtain ⟨_, _, h6⟩ := Kept.total_minus name p b (hk.subtract he) (hk.drawn hw he hh).whole hb hs hr
    rw [hst, total_cons]
    refine ⟨by omega, by omega, fun hp => ?_⟩
    have := h3 hp
    have := h6 hp
    omega

theorem Kept.subtract_absent (hk : Kept a) (he : e.Ok) (hw : e.resource.isWhole = true) (h : a.holds e = false) :
    a.subtract e = a := by
  rcases subtract_cases a he.isEmpty with ⟨-, h'⟩ | ⟨pre, x, post, rfl, hx, -⟩
  · exact h'
  have hxm : x ∈ pre ++ x :: post := mem_append_right _ mem_cons_self
  have hxok := hk.ok x hxm
  have ha := (subtractable_iff hxok he).1 hx
  have hc : x.contains e = true := (contains_iff hxok he).2
    ⟨ha, fun s => (ha.weight_eq ((isWhole_congr ha.1).trans hw) s).ge⟩
  have : holds (pre ++ x :: post) e = true := any_eq_true.2 ⟨x, hxm, hc⟩
  exact nomatch h.symm.trans this

/-- **Subtracting entries of which some disk is not there**: either each was taken, or something is left over. -/
theorem Kept.total_minus_extra : ∀ (b : Resources) {a : Resources}, Kept a → WholeRegular a → Kept b → Unshared b →
    (∀ e ∈ b, e.resource.isWhole = false → ∀ s, e.weight s ≤ content a s) →
    (∀ e ∈ b, e.resource.isWhole = true → 0 < e.held e.resource.name .scalar) →
    (∀ name, total a name .scalar - total b name .scalar ≤ total (a.minus b) name .scalar) ∧
      (TakesAll a b ∨ ∃ name, total a name .scalar - total b name .scalar < total (a.minus b) name .scalar)
  | [], a, _, _, _, _, _, _ => ⟨fun name => (sub_zero (total a name .scalar)).le, .inl trivial⟩
  | e :: b, a, hk, hw, hb, hs, hcov, hpos => by
    have he := hb.ok e mem_cons_self
    have hb' : Kept b := hb.sublist (sublist_cons_self e b)
    obtain ⟨hse, hs⟩ := forall_mem_cons.1 hs
    obtain ⟨hc, hcov⟩ := forall_mem_cons.1 hcov
    obtain ⟨hpo, hpos⟩ := forall_mem_cons.1 hpos
    have hst : a.minus (e :: b) = (a.subtract e).minus b := rfl
    cases hh : a.holds e with
    | true =>
      have hd := hk.drawn hw he hh
      have ht := fun name => (hk.total_subtract hw he hh
        (fun h => nomatch (hse.symm.trans h)) name .scalar).exactly rfl
      -- what `e` takes is not of the other entries that are combined
      have hcov' : ∀ f ∈ b, f.resource.isWhole = false → ∀ s, f.weight s ≤ content (a.subtract e) s := by
        intro f hf hfw s
        by_cases hfs : f.weight s = 0
        · rw [hfs]
          exact content_nonneg (hk.subtract he).ok s
        have hes : e.weight s = 0 := of_not_not fun hes => by
          have ha := alike_of_weight hes hfs
          have hew := (pairwise_cons.1 hb.combined).1 f hf ha
          rw [isWhole_congr ha.1, hfw] at hew
          exact nomatch hew
        have := (hd.content s).atLeast
        have := hcov f hf hfw s
        omega
      obtain ⟨hle, hor⟩ := Kept.total_minus_extra b (hk.subtract he) hd.whole hb' hs hcov' hpos
      refine ⟨fun name => ?_, hor.imp (fun h => ⟨hd.clean, h⟩) fun ⟨name, h⟩ => ⟨name, ?_⟩⟩
      · have := hle name
        rw [hst, total_cons]
        rw [ht] at this
        omega
      · rw [hst, total_cons]
        rw [ht] at h
        omega
    | false =>
      have hwh : e.resource.isWhole = true := by
        by_contra hwh
        have := (hk.holds_iff he).2 (hc (by simpa using hwh))
        exact nomatch hh.symm.trans this
      obtain ⟨hle, -⟩ := Kept.total_minus_extra b hk hw hb' hs hcov hpos
      rw [hst, hk.subtract_absent he hwh hh]
      refine ⟨fun name => ?_, .inr ⟨e.resource.name, ?_⟩⟩
      · have := hle name
        have := held_nonneg he name .scalar
        rw [total_cons]
        omega
      · have := hle e.resource.name
        have := hpo hwh
        rw [total_cons]
        omega

/-! ## The getters -/
def present (total : Int) : Option Int := if 0 < total then some total else none

/-- **`get` of a scalar is the total**, if there is any. -/
theorem getScalar_eq (ha : Ok a) (name : String) : a.getScalar name = present (total a name .scalar) := by
  -- what the loop adds for one entry
  obtain ⟨f, hf, hs⟩ : ∃ f, (∀ a, getScalar a name = a.foldl f none) ∧
      ∀ t e, e.Ok → 0 ≤ t → f (present t) e = present (t + e.held name .scalar) := by
    refine ⟨_, fun _ => rfl, fun t e he _ => ?_⟩
    have hva := he.value
    have hem : e.resource.value.isEmpty = false := he.nonempty
    simp only [held]
    cases hv : e.resource.value with
    | scalar x =>
      rw [hv] at hva hem
      have hx : 0 ≤ x := hva
      have hx' : x ≠ 0 := beq_eq_false_iff_ne.1 hem
      have hget : (present t).getD 0 = t := by
        unfold present
        split_ifs
        · rfl
        · show 0 = t
          omega
      simp only [hget, Value.amount]
      split_ifs
      · rw [present, if_pos (by omega)]
      · rw [add_zero]
    | _ => simp [Value.amount]
  have hfo : ∀ a t, Ok a → 0 ≤ t → a.foldl f (present t) = present (t + total a name .scalar) := by
    intro a
    induction a with
    | nil =>
      intro t _ _
      rw [total_nil, add_zero]
      rfl
    | cons e _ ih =>
      intro t ha ht
      obtain ⟨he, ha⟩ := forall_mem_cons.1 ha
      have hh := held_nonneg he name .scalar
      rw [foldl_cons, hs t e he ht, ih _ ha (by omega), total_cons, add_assoc]
  rw [hf, ← zero_add (total a name .scalar)]
  exact hfo a 0 ha (le_refl 0)

structure Tells (ranges : Option (List Range)) (P : Nat → Prop) : Prop where
  ok : ∀ r ∈ ranges.getD [], r.Ok
  covers : ∀ n, Values.Ranges.Covers (ranges.getD []) n ↔ P n
  some : ranges.isSome = true → ∃ n, P n

/-- **`get` of ranges tells the numbers of the name.** -/
theorem getRanges_tells (ha : Ok a) (name : String) : Tells (a.getRanges name) fun n => 0 < total a name (.number n) := by
  -- what the loop adds for one entry
  obtain ⟨f, hf, hs⟩ : ∃ f, (∀ a, getRanges a name = a.foldl f none) ∧
      ∀ t P e, e.Ok → Tells t P → Tells (f t e) fun n => P n ∨ 0 < e.held name (.number n) := by
    refine ⟨_, fun _ => rfl, fun t P e he ht => ?_⟩
    have hva := he.value
    have hem : e.resource.value.isEmpty = false := he.nonempty
    simp only [held]
    cases hv : e.resource.value with
    | ranges rs =>
      rw [hv] at hva hem
      by_cases hna : e.resource.name = name
      · have hok : ∀ r ∈ t.getD [] ++ rs, r.Ok := forall_mem_append.2 ⟨ht.ok, hva⟩
        have ham : ∀ n, 0 < Value.amount (.ranges rs) (.number n) ↔ Covers rs n := fun n => by
          rw [Value.amount]
          split_ifs with h <;> simp [h]
        simp only [if_pos hna]
        refine ⟨coalesce_ok hok, fun n => ?_, fun _ => ?_⟩
        · show Ranges.Covers (Ranges.add (t.getD []) rs) n ↔ _
          rw [Ranges.add, Ranges.covers_coalesce hok, Ranges.covers_append, ht.covers, ham]
        by_contra hnn
        refine Bool.eq_false_iff.1 hem ((Value.isEmpty_iff hva).2 fun p => ?_)
        cases p with
        | number n =>
          have : ¬ 0 < Value.amount (.ranges rs) (.number n) := fun h => hnn ⟨n, .inr h⟩
          have := Value.amount_nonneg hva (.number n)
          omega
        | _ => rfl
      · simpa [if_neg hna] using ht
    | _ => simpa [Value.amount] using ht
  have hfo : ∀ a t P, Ok a → Tells t P → Tells (a.foldl f t) fun n => P n ∨ 0 < total a name (.number n) := by
    intro a
    induction a with
    | nil =>
      intro t P _ ht
      simp only [total_nil, lt_irrefl, or_false]
      exact ht
    | cons e a ih =>
      intro t P ha ht
      obtain ⟨he, ha⟩ := forall_mem_cons.1 ha
      have hno := fun n => total_nonneg ha name (.number n)
      have hh := fun n => held_nonneg he name (.number n)
      have hn := ih _ _ ha (hs t P e he ht)
      have hiff : (fun n => (P n ∨ 0 < e.held name (.number n)) ∨ 0 < total a name (.number n)) =
          fun n => P n ∨ 0 < total (e :: a) name (.number n) := by
        funext n
        have := hno n
        have := hh n
        rw [total_cons, or_assoc, eq_iff_iff]
        refine or_congr_right ?_
        omega
      rw [hiff] at hn
      exact hn
  have := hfo a none (fun _ => False) ha ⟨forall_mem_nil _, fun _ => by simp [covers_nil], by simp⟩
  simp only [false_or] at this
  rw [hf]
  exact this

/-- **Ports of the same numbers are the same**, below the greatest of 64 bits. -/
theorem samePorts_of_tells {l r : Option (List Range)} {P : Nat → Prop} (hl : Tells l P) (hr : Tells r P)
    (hb : ∀ n, P n → n + 1 < 2 ^ 64) : samePorts l r = true := by
  have hno : ∀ {t : Option (List Range)}, Tells t P → (∃ n, P n) → t ≠ none := by
    rintro t ht ⟨n, hn⟩ rfl
    exact covers_nil n ((ht.covers n).2 hn)
  cases l with
  | none =>
    cases r with
    | none => rfl
    | some => exact absurd rfl (hno hl (hr.some rfl))
  | some =>
    cases r with
    | none => exact absurd rfl (hno hr (hl.some rfl))
    | some =>
      exact same_of_covers hl.ok hr.ok (fun n => (hl.covers n).trans (hr.covers n).symm)
        fun n hn => hb n ((hl.covers n).1 hn)

end Resources

/-! # Applying an offer operation conserves resources -/

structure Resource.Sound (r : Resource) : Prop where
  valid : r.validate = none
  fits : r.Fits

namespace Resource_

variable {x e : Resource_} {r : Resource}

theorem of_validate (h : r.validate = none) : (of r).validate = none := by
  rw [validate, if_neg]
  · exact h
  · unfold of isShared count
    cases r.shared <;> simp

theorem of_isEmpty (r : Resource) : (of r).isEmpty = r.isEmpty := by
  unfold of isEmpty isShared count
  cases r.shared <;> simp

theorem held_of_empty (hr : r.value.Ok) (h : r.isEmpty = true) (name : String) (p : Point) : (of r).held name p = 0 := by
  show (if r.name = name then r.value.amount p else 0) = 0
  rw [(Value.isEmpty_iff hr).1 h p, ite_self]

theorem ok_of_sound (h : r.Sound) (he : r.isEmpty = false) : (of r).Ok :=
  of_ok (of_validate h.valid) h.fits ((of_isEmpty r).trans he)

end Resource_

namespace Resources

variable {a b c d r m : Resources} {x e : Resource_} {o : Resource} {objects : List Resource}

/-! ## What every entry has in common -/

section Every
variable {P : Resource → Prop} (hP : ∀ r v, v.type = r.value.type → P r → P { r with value := v })
include hP

section
variable (ha : ∀ x ∈ a, P x.resource)
include ha

theorem forall_add (he : P e.resource) : ∀ x ∈ a.add e, P x.resource := by
  cases hem : e.isEmpty with
  | true =>
    rw [add, hem]
    exact ha
  | false =>
    rcases add_cases hem a with ⟨-, h⟩ | ⟨_, y, _, rfl, -, h⟩
    · rw [h]
      exact forall_mem_append.2 ⟨ha, forall_mem_singleton.2 he⟩
    obtain ⟨hpre, hyp⟩ := forall_mem_append.1 ha
    obtain ⟨hy, hpo⟩ := forall_mem_cons.1 hyp
    rw [h]
    refine forall_mem_append.2 ⟨hpre, forall_mem_cons.2 ⟨?_, hpo⟩⟩
    cases hs : y.isShared with
    | true =>
      rw [add_of_shared hs]
      exact hy
    | false =>
      rw [add_of_unshared hs]
      exact hP _ _ (Value.type_add _ _) hy

theorem forall_subtract : ∀ x ∈ a.subtract e, P x.resource := by
  cases he : e.isEmpty with
  | true =>
    rw [subtract, he]
    exact ha
  | false =>
    rcases subtract_cases a he with ⟨-, h⟩ | ⟨_, y, _, rfl, -, -, h⟩
    · rw [h]
      exact ha
    obtain ⟨hpre, hyp⟩ := forall_mem_append.1 ha
    obtain ⟨hy, hpo⟩ := forall_mem_cons.1 hyp
    intro x hx
    have hx := h.subset hx
    split_ifs at hx
    · exact forall_mem_append.2 ⟨hpre, hpo⟩ x hx
    refine forall_mem_append.2 ⟨hpre, forall_mem_cons.2 ⟨?_, hpo⟩⟩ x hx
    cases hs : y.isShared with
    | true =>
      rw [subtract_of_shared hs]
      exact hy
    | false =>
      rw [subtract_of_unshared hs]
      exact hP _ _ (Value.type_subtract _ _) hy

theorem forall_addObject (ho : P o) : ∀ x ∈ a.addObject o, P x.resource := by
  unfold addObject
  split_ifs
  · exact forall_add hP ha ho
  · exact ha

end

theorem forall_plus (b : Resources) (ha : ∀ x ∈ a, P x.resource) (hb : ∀ x ∈ b, P x.resource) :
    ∀ x ∈ a.plus b, P x.resource :=
  foldlRecOn (motive := fun a : Resources => ∀ x ∈ a, P x.resource) b add ha fun _ ha e he => forall_add hP ha (hb e he)

theorem forall_minus : ∀ (b : Resources) {a : Resources}, (∀ x ∈ a, P x.resource) → ∀ x ∈ a.minus b, P x.resource
  | [], _, ha => ha
  | _ :: b, _, ha => forall_minus b (forall_subtract hP ha)

theorem forall_ofObjects (h : ∀ o ∈ objects, P o) : ∀ x ∈ ofObjects objects, P x.resource :=
  foldlRecOn (motive := fun a : Resources => ∀ x ∈ a, P x.resource) objects addObject (forall_mem_nil _)
    fun _ ha o ho => forall_addObject hP ha (h o ho)

end Every

theorem unshared_ofObjects (h : ∀ o ∈ objects, o.shared = false) :
    Unshared (ofObjects objects) := forall_ofObjects (P := (·.shared = false)) (fun _ _ _ h => h) h

/-! ## Objects -/

theorem ofObjects_built (h : ∀ o ∈ objects, o.Fits) : Built (ofObjects objects) :=
  foldlRecOn (motive := Built) objects addObject .empty fun _ ha o ho => .addObject ha (h o ho)

theorem addObject_eq (h : o.Sound) : a.addObject o = if o.isEmpty then a else a.add (.of o) := by
  rw [addObject, of_validate h.valid, add, of_isEmpty]
  cases o.isEmpty <;> rfl

theorem ofObjects_single (h : o.Sound) : ofObjects [o] = if o.isEmpty then [] else [of o] := by
  have : ofObjects [o] = addObject [] o := rfl
  rw [this, addObject_eq h]
  split_ifs with he
  · rfl
  · rw [add, of_isEmpty, if_neg he]
    rfl

/-- **Adding an object**, which if it is shared must not be there yet. -/
theorem Kept.total_addObject (hk : Kept a) (h : o.Sound)
    (hnew : o.shared = true → ∀ x ∈ a, ¬ x.Alike (of o)) (name : String) (p : Point) :
    Joins p (total a name p) ((of o).held name p) (total (a.addObject o) name p) := by
  rw [addObject_eq h]
  cases he : o.isEmpty with
  | true =>
    rw [held_of_empty (validate_value h.valid h.fits) he]
    have := joins_of_add p (total_nonneg hk.ok name p) (le_refl 0)
    rwa [add_zero] at this
  | false => exact hk.total_add (ok_of_sound h he) hnew name p

theorem total_ofObjects_single (h : o.Sound) (name : String) (p : Point) :
    Joins p 0 ((of o).held name p) (total (ofObjects [o]) name p) :=
  kept_nil.total_addObject h (fun _ _ hx => nomatch hx) name p

theorem total_ofObjects_pair {o' : Resource} (h : o.Sound) (h' : o'.Sound) (hs : o'.shared = false) (name : String)
    (p : Point) : Joins p 0 ((of o).held name p + (of o').held name p) (total (ofObjects [o, o']) name p) := by
  have hk : Kept (ofObjects [o]) := (ofObjects_built (forall_mem_singleton.2 h.fits)).kept
  have hh : ∀ {o}, o.Sound → 0 ≤ (of o).held name p := fun {o} ho => by
    show 0 ≤ if o.name = name then o.value.amount p else 0
    split_ifs
    · exact Value.amount_nonneg (validate_value ho.valid ho.fits) p
    · exact le_refl 0
  exact (total_ofObjects_single h name p).assoc
    (hk.total_addObject h' (fun hs' => nomatch (hs.symm.trans hs')) name p) (hh h) (hh h')

/-! ## Exchanging resources for others of the same quantities -/

theorem SameQuantities.symm (h : SameQuantities a b) : SameQuantities b a := fun name =>
  ⟨(h name).1.symm, fun n => ((h name).2 n).symm⟩

theorem SameQuantities.trans (h : SameQuantities a b) (h' : SameQuantities b c) : SameQuantities a c := fun name =>
  ⟨(h name).1.trans (h' name).1, fun n => ((h name).2 n).trans ((h' name).2 n)⟩

theorem sameQuantities_of_joins {f g : String → Point → Int} (ha : ∀ name p, Joins p 0 (f name p) (total a name p))
    (hb : ∀ name p, Joins p 0 (g name p) (total b name p)) (hs : ∀ name, f name .scalar = g name .scalar)
    (hn : ∀ name n, 0 < f name (.number n) ↔ 0 < g name (.number n)) : SameQuantities a b := fun name => by
  refine ⟨?_, fun n => ?_⟩
  · rw [(ha name .scalar).scalar rfl, (hb name .scalar).scalar rfl, hs]
  have := (ha name (.number n)).present
  have := (hb name (.number n)).present
  have := hn name n
  omega

theorem sameQuantities_exchange (hm : ∀ name p, Takes (p = .scalar) (total r name p) (total c name p) (total m name p))
    (hpl : ∀ name p, Joins p (total m name p) (total d name p) (total a name p))
    (hle : ∀ name p, total c name p ≤ total r name p) (hq : SameQuantities c d) : SameQuantities a r := fun name => by
  refine ⟨?_, fun n => ?_⟩
  · have h1 := (hm name .scalar).exactly rfl
    have h2 := (hpl name .scalar).scalar rfl
    have h3 := (hq name).1
    omega
  · obtain ⟨_, _, -⟩ := hm name (.number n)
    have h2 := (hpl name (.number n)).present
    have h3 := (hq name).2 n
    have h4 := hle name (.number n)
    omega

structure Steady (r : Resources) : Prop where
  kept : Kept r
  disks : ∀ e ∈ r, e.resource.disk.isSome = true → e.resource.value.type = .scalar

theorem disk_of_whole (h : o.isWhole = true) : o.disk.isSome = true := by
  rw [isWhole, Bool.and_eq_true] at h
  cases hd : o.disk with
  | some => rfl
  | none => simp [indivisible, isPersistentVolume, hd] at h

theorem Steady.whole (h : Steady r) : WholeRegular r := fun e he hw => by
  have ht := h.disks e he (disk_of_whole hw)
  unfold Resource_.Regular
  cases hv : e.resource.value with
  | scalar => trivial
  | _ =>
    rw [hv] at ht
    cases ht

theorem Steady.disk_of_alike (h : Steady r) (hx : x ∈ r) (ha : x.Alike e) (hd : e.resource.disk.isSome = true) :
    e.resource.value.type = .scalar := by
  have hs : ∀ o : Resource, o.kind.disk.isSome = o.disk.isSome := fun _ => by simp [kind]
  rw [← type_congr ha.1]
  refine h.disks x hx ?_
  rw [← hs, ha.1, hs]
  exact hd

/-- **What is covered, exchanged for the same quantities.** -/
theorem Steady.exchange (h : Steady r) (hc : Kept c) (hcu : Unshared c) (hd : Ok d) (hdu : Unshared d)
    (hle : ∀ s, content c s ≤ content r s) (hq : SameQuantities c d) : SameQuantities ((r.minus c).plus d) r :=
  sameQuantities_exchange (fun name p => Kept.total_minus name p c h.kept h.whole hc.ok hcu hle)
    (fun name p => Kept.total_plus name p d (Kept.minus c h.kept hc.ok) hd hdu)
    (fun name p => Kept.total_le name p c h.kept hc hle) hq

theorem scalarDisk_setValue (o : Resource) (v : Value) (hv : v.type = o.value.type)
    (h : o.disk.isSome = true → o.value.type = .scalar) (hd : o.disk.isSome = true) : v.type = .scalar :=
  hv.trans (h hd)

theorem Steady.replaced (h : Steady r) (hc : Ok c) (hd : Ok d)
    (hdi : ∀ e ∈ d, e.resource.disk.isSome = true → e.resource.value.type = .scalar) : Steady ((r.minus c).plus d) where
  kept := (Kept.plus d (Kept.minus c h.kept hc) hd).1
  disks := forall_plus scalarDisk_setValue d (forall_minus scalarDisk_setValue c h.disks) hdi

/-! ## Reservations taken off -/

theorem pop_ok (h : e.Ok) : e.pop.Ok :=
  ⟨h.value, h.shared, h.nonempty, h.counted, fun reservation hr => h.distinct.1 reservation (dropLast_subset _ hr), h.distinct.2⟩

theorem map_pop_ok (h : Ok a) : Ok (a.map pop) := fun x hx => by
  obtain ⟨e, he, rfl⟩ := mem_map.1 hx
  exact pop_ok (h e he)

theorem map_pop_unshared (h : Unshared a) : Unshared (a.map pop) := fun x hx => by
  obtain ⟨e, he, rfl⟩ := mem_map.1 hx
  exact h e he

/-- **Taking off the last reservations keeps the quantities.** -/
theorem sameQuantities_pop (h : Ok a) (hs : Unshared a) : SameQuantities (plus [] (a.map pop)) a := by
  have ht : ∀ name p, total (a.map pop) name p = total a name p := fun name p => by
    rw [total, map_map]
    rfl
  refine sameQuantities_of_joins (f := total a) (g := total a) (fun name p => ?_) (fun name p => ?_) (fun _ => rfl)
    fun _ _ => .rfl
  · have := Kept.total_plus name p _ kept_nil (map_pop_ok h) (map_pop_unshared hs)
    rwa [ht] at this
  · have := joins_of_add p (le_refl 0) (total_nonneg h name p)
    rwa [zero_add] at this

theorem popReservation_of_reserved (h : ∀ e ∈ a, e.resource.isReserved = true) :
    a.popReservation = some (plus [] (a.map pop)) := by
  rw [popReservation, if_neg]
  rw [any_eq_true]
  rintro ⟨e, he, hno⟩
  have := h e he
  rw [isReserved, isUnreserved, hno] at this
  exact nomatch this

end Resources

end Clusterd.Common
