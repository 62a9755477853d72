import Clusterd.CommonContains
/-! # `Resources` as they are built: totals by name, and when containment is real -/
namespace Clusterd.Common

open Values (Value Point)
open Resource_ List Resource

theorem Resource_.of_ok {r : Resource} (hv : (of r).validate = none) (hf : r.Fits)
    (he : (of r).isEmpty = false) : (of r).Ok := by
  have hsh : (of r).isShared = r.shared := by
    unfold of isShared
    cases r.shared <;> rfl
  have hva : r.validate = none := by
    rw [validate] at hv
    split_ifs at hv
    exact hv
  rw [isEmpty, Bool.or_eq_false_iff] at he
  refine ⟨validate_value hva hf, hsh, he.2, fun hs => ?_, hf.2⟩
  have hone : (of r).count = 1 := by
    rw [hsh] at hs
    simp [of, count, hs]
  rw [hone]
  decide

namespace Resource_

def held (e : Resource_) (name : String) (p : Point) : Int :=
  if e.resource.name = name then e.resource.value.amount p else 0

variable {x e : Resource_}

theorem held_nonneg (he : e.Ok) (name : String) (p : Point) : 0 ≤ e.held name p := by
  rw [held]
  split_ifs
  · exact Value.amount_nonneg he.value p
  · exact le_refl 0

theorem held_le_of_contains (hx : x.Ok) (he : e.Ok) (h : x.contains e = true) (name : String) (p : Point) :
    e.held name p ≤ x.held name p := by
  obtain ⟨hal, hle⟩ := (contains_iff hx he).1 h
  rw [held, held, name_congr hal.1]
  split_ifs
  · cases hp : x.resource.isPlain with
    | true => exact (hal.weight_le_iff_amount hp).1 hle p
    | false => rw [← Value.amount_normal hx.value, hal.2 hp, Value.amount_normal he.value]
  · exact le_refl 0

end Resource_

namespace Resources

variable {a b : Resources} {x e : Resource_}

/-! ## Values that are built -/

inductive Built : Resources → Prop
  | empty : Built []
  | addObject {a : Resources} {r : Resource} : Built a → r.Fits → Built (a.addObject r)
  | subtractObject {a : Resources} {r : Resource} : Built a → r.Fits → Built (a.subtractObject r)
  | plus {a b : Resources} : Built a → Built b → Built (a.plus b)
  | minus {a b : Resources} : Built a → Built b → Built (a.minus b)

theorem Kept.minus (b : Resources) {a : Resources} (hk : Kept a) (hb : Ok b) : Kept (a.minus b) :=
  foldlRecOn (motive := Kept) b _ hk fun _ hk e he => hk.subtract (hb e he)

theorem Built.kept (h : Built a) : Kept a := by
  induction h with
  | empty => exact kept_nil
  | @addObject a r _ hf ih =>
    unfold Resources.addObject
    split_ifs with hv
    · cases he : (of r).isEmpty with
      | true =>
        rw [add, he]
        exact ih
      | false => exact (ih.add (of_ok (Option.isNone_iff_eq_none.1 hv) hf he)).1
    · exact ih
  | @subtractObject a r _ hf ih =>
    unfold Resources.subtractObject
    split_ifs with hv
    · cases he : (of r).isEmpty with
      | true =>
        rw [subtract, he]
        exact ih
      | false => exact ih.subtract (of_ok (Option.isNone_iff_eq_none.1 hv) hf he)
    · exact ih
  | plus _ _ iha ihb => exact (Kept.plus _ iha ihb.ok).1
  | minus _ _ iha ihb => exact Kept.minus _ iha ihb.ok

/-! ## Totals by name -/

def total (this : Resources) (name : String) (p : Point) : Int := (this.map (·.held name p)).sum

theorem total_nil (name : String) (p : Point) : total [] name p = 0 := rfl

theorem total_cons (e : Resource_) (a : Resources) (name : String) (p : Point) :
    total (e :: a) name p = e.held name p + total a name p := by
  simp [total]

theorem total_append (a b : Resources) (name : String) (p : Point) :
    total (a ++ b) name p = total a name p + total b name p := by
  simp [total]

theorem total_perm (h : a.Perm b) (name : String) (p : Point) : total a name p = total b name p :=
  (h.map _).sum_eq

theorem total_nonneg (ha : Ok a) (name : String) (p : Point) : 0 ≤ total a name p := by
  refine sum_nonneg fun _ hn => ?_
  obtain ⟨e, he, rfl⟩ := mem_map.1 hn
  exact held_nonneg (ha e he) name p

/-- **Content that is covered has totals that fit.** -/
theorem Kept.total_le (name : String) (p : Point) : ∀ (b : Resources) {a : Resources}, Kept a → Kept b →
    (∀ s, content b s ≤ content a s) → total b name p ≤ total a name p
  | [], _, hk, _, _ => total_nonneg hk.ok name p
  | e :: b, a, hk, hb, hle => by
    have he := hb.ok e mem_cons_self
    have hb' : Kept b := hb.sublist (sublist_cons_self e b)
    have hh : a.holds e = true := (hk.holds_iff he).2 fun s => by
      have := hle s
      have := content_nonneg hb'.ok s
      rw [content_cons] at *
      omega
    rw [holds, any_eq_true] at hh
    obtain ⟨x, hx, hc⟩ := hh
    obtain ⟨pre, post, rfl⟩ := append_of_mem hx
    have hxok := hk.ok x hx
    obtain ⟨hal, -⟩ := (contains_iff hxok he).1 hc
    have hk' : Kept (pre ++ post) := hk.sublist (sublist_remove pre x post)
    -- the other entries of `a` cover the other entries of `b`
    have hr : ∀ s, content b s ≤ content (pre ++ post) s := fun s => by
      have hs := hle s
      rw [content_cons, content_append, content_cons] at hs
      rw [content_append]
      cases hw : x.resource.isWhole with
      | true =>
        have := hal.weight_eq hw s
        omega
      | false =>
        by_cases hxs : x.weight s = 0
        · have := e.weight_nonneg he s
          omega
        have hew : e.resource.isWhole = false := (isWhole_congr hal.1).symm.trans hw
        have hco : Combined ([] ++ e :: b) := hb.combined
        have hz := (hco.content_others hew hal.symm hxs).2
        have hn := content_nonneg hk'.ok s
        rw [content_append] at hn
        omega
    have ih := Kept.total_le name p b hk' hb' hr
    have hh := held_le_of_contains hxok he hc name p
    rw [total_append] at ih
    rw [total_cons, total_append, total_cons]
    omega

/-! ## Disks used as a whole -/

/-- How many entries are the same as `r`. -/
def times (this : Resources) (r : Resource) : Nat := this.countP (·.resource.same r)

/-- No disk that is used as a whole, other than a persistent volume, occurs in `b` more often than in `a`. -/
def NoExtra (a b : Resources) : Prop :=
  ∀ e ∈ b, e.resource.isWhole = true → e.resource.isPersistentVolume = false → times b e.resource ≤ times a e.resource

instance (a b : Resources) : Decidable (NoExtra a b) := inferInstanceAs (Decidable (∀ e ∈ b, _))

theorem content_whole {r : Resource} (hr : r.value.Ok) (hd : r.Distinct) (hw : r.isWhole = true) : ∀ a : Resources, Ok a →
    content a (.whole r.token) = times a r
  | [], _ => rfl
  | e :: a, ha => by
    obtain ⟨he, ha⟩ := forall_mem_cons.1 ha
    have hsa : e.resource.same r = true ↔ e.resource.isWhole ∧ e.resource.token = r.token := by
      rw [same_iff he.distinct hd, Value.same_iff he.value hr, Token.mk.injEq]
      exact ⟨fun h => ⟨(isWhole_congr h.1).trans hw, h⟩, fun h => h.2⟩
    have hwe : e.weight (.whole r.token) = if e.resource.same r then 1 else 0 := by
      rw [weight, if_congr hsa.symm rfl rfl]
    rw [content_cons, content_whole hr hd hw a ha, hwe]
    simp only [times, countP_cons]
    split_ifs <;> omega

theorem noExtra_of_covered (ha : Ok a) (hb : Ok b)
    (hle : ∀ token, content b (.whole token) ≤ content a (.whole token)) : NoExtra a b := fun e he hw _ => by
  have := hle e.resource.token
  rw [content_whole (hb e he).value (hb e he).distinct hw b hb, content_whole (hb e he).value (hb e he).distinct hw a ha] at this
  omega

/-! ## Containment -/

theorem Kept.covers_each : ∀ (b : Resources) {a : Resources}, Kept a → WholeRegular a → Ok b → a.contains b = true →
    (∀ e ∈ b, ∀ s, e.weight s ≤ content a s) ∧
      ∀ r : Resource, r.isPersistentVolume = true → content b (.whole r.token) ≤ content a (.whole r.token)
  | [], a, hk, _, _, _ => ⟨forall_mem_nil _, fun r _ => content_nonneg hk.ok _⟩
  | e :: b, a, hk, hw, hb, h => by
    obtain ⟨he, hb⟩ := forall_mem_cons.1 hb
    rw [contains, Bool.and_eq_true] at h
    obtain ⟨hh, hre⟩ := h
    have hfi := (hk.holds_iff he).1 hh
    have hd := hk.drawn hw he hh
    cases hv : e.resource.isPersistentVolume with
    | true =>
      rw [hv] at hre
      obtain ⟨hea, hall⟩ := Kept.covers_each b (hk.subtract he) hd.whole hb hre
      refine ⟨forall_mem_cons.2 ⟨hfi, fun f hf s => ?_⟩, fun r hr => ?_⟩
      · exact le_trans (hea f hf s) (hd.content s).atMost
      have := hall r hr
      have := (hd.content (.whole r.token)).exactly (.inl id)
      rw [content_cons]
      omega
    | false =>
      rw [hv] at hre
      obtain ⟨hea, hall⟩ := Kept.covers_each b hk hw hb hre
      refine ⟨forall_mem_cons.2 ⟨hfi, hea⟩, fun r hr => ?_⟩
      have hz : e.weight (.whole r.token) = 0 := if_neg fun h => by
        rw [isPersistentVolume_congr (congrArg Token.kind h.2), hr] at hv
        cases hv
      rw [content_cons, hz, zero_add]
      exact hall r hr

/-- **Containment covers the content**, if no disk occurs more often. -/
theorem Kept.covered_of_contains (ha : Kept a) (hw : WholeRegular a) (hb : Kept b) (h : a.contains b = true)
    (hext : NoExtra a b) (s : Slot) : content b s ≤ content a s := by
  obtain ⟨hea, hvo⟩ := Kept.covers_each b ha hw hb.ok h
  by_cases hs : content b s = 0
  · rw [hs]
    exact content_nonneg ha.ok s
  obtain ⟨e, he, hne⟩ := exists_weight_ne_zero hs
  cases hwh : e.resource.isWhole with
  | false =>
    obtain ⟨_, _, rfl⟩ := append_of_mem he
    obtain ⟨hpre, hpo⟩ := hb.combined.content_others hwh (Resource_.Alike.refl e) hne
    rw [content_append, content_cons, hpre, hpo, zero_add, add_zero]
    exact hea e he s
  | true =>
    rw [weight_of_whole hwh] at hne
    obtain rfl : s = .whole e.resource.token := of_not_not fun h => hne (if_neg h)
    cases hv : e.resource.isPersistentVolume with
    | true => exact hvo e.resource hv
    | false =>
      have := hext e he hwh hv
      have hd := (hb.ok e he).distinct
      rw [content_whole (hb.ok e he).value hd hwh b hb.ok, content_whole (hb.ok e he).value hd hwh a ha.ok]
      omega

theorem Kept.content_restored (ha : Kept a) (hw : WholeRegular a) (hb : Kept b)
    (hle : ∀ s, content b s ≤ content a s) (s : Slot) : content ((a.minus b).plus b) s = content a s := by
  have hd := Kept.drawnAll b ha hw hb.ok hle
  obtain ⟨_, _, he⟩ := hd.content s
  rw [(Kept.plus b hd.kept hb.ok).2 s fun hs => hb.content_le_one hs]
  have hn := content_nonneg hb.ok s
  have hc := hle s
  by_cases hs : s.Unit
  · -- of a number or an item there was one, and one is put back
    have hone := ha.content_le_one hs
    cases s with
    | amount _ p =>
      cases p with
      | scalar => exact hs.elim
      | _ =>
        simp only [joined, Value.join]
        omega
    | _ => exact hs.elim
  · have := he (.inl hs)
    rw [joined_eq_add (by omega) hn fun h => absurd h hs]
    omega

/-! ## Sums -/

theorem same_of_content (ha : Kept a ∧ WholeRegular a) (hb : Kept b ∧ WholeRegular b)
    (h : ∀ s, content a s = content b s) : a.same b = true := by
  rw [same, Bool.and_eq_true]
  exact ⟨Kept.contains_of_covered b ha.1 ha.2 hb.1.ok fun s => (h s).ge,
    Kept.contains_of_covered a hb.1 hb.2 ha.1.ok fun s => (h s).le⟩

theorem plus_whole (ha : Kept a ∧ WholeRegular a) (hb : Kept b ∧ WholeRegular b) :
    (Kept (a.plus b) ∧ WholeRegular (a.plus b)) ∧ ∀ s, content (a.plus b) s = joined s (content a s) (content b s) := by
  obtain ⟨hk, hc⟩ := Kept.plus b ha.1 hb.1.ok
  exact ⟨⟨hk, ha.2.plus b ha.1 hb.1.ok hb.2⟩, fun s => hc s hb.1.content_le_one⟩

section Contained
variable (ha : Built a) (hb : Built b) (hwa : WholeRegular a) (hwb : WholeRegular b)
include ha hb hwa hwb

/-- **Resources are added in any order**, also by the overload of `+` that adds to its right operand. -/
theorem plus_in_any_order {c : Resources} (hc : Built c) (hwc : WholeRegular c) :
    (a.plus b).same (b.plus a) = true ∧ ((a.plus b).plus c).same (a.plus (b.plus c)) = true := by
  obtain ⟨hab, hcab⟩ := plus_whole ⟨ha.kept, hwa⟩ ⟨hb.kept, hwb⟩
  obtain ⟨hba, hcba⟩ := plus_whole ⟨hb.kept, hwb⟩ ⟨ha.kept, hwa⟩
  obtain ⟨hbc, hcbc⟩ := plus_whole ⟨hb.kept, hwb⟩ ⟨hc.kept, hwc⟩
  obtain ⟨hleft, hcleft⟩ := plus_whole hab ⟨hc.kept, hwc⟩
  obtain ⟨hright, hcright⟩ := plus_whole ⟨ha.kept, hwa⟩ hbc
  refine ⟨same_of_content hab hba fun s => ?_, same_of_content hleft hright fun s => ?_⟩
  · rw [hcab, hcba]
    rcases s with ⟨_, _ | _⟩ | _ | _ <;> simp [joined, Value.join, Int.add_comm, Int.max_comm]
  · rw [hcleft, hcab, hcright, hcbc]
    rcases s with ⟨_, _ | _⟩ | _ | _ <;> simp [joined, Value.join, Int.add_assoc, Int.max_assoc]

end Contained

def mountDisk : Resource where
  name := "disk"
  value := .scalar 1000
  disk := some { source := some { type := .mount, mount := some (some "/mnt/disk") } }

theorem mountDisk_fits : mountDisk.Fits := ⟨trivial, by decide⟩

theorem plus_in_any_order_mount :
    let disk := addObject [] mountDisk
    ((disk.plus disk).plus disk).same (disk.plus (disk.plus disk)) = true := by
  have hbuilt : Built (addObject [] mountDisk) := .addObject .empty mountDisk_fits
  have hwhole : WholeRegular (addObject [] mountDisk) := forall_mem_singleton.2 fun _ => trivial
  exact (plus_in_any_order hbuilt hbuilt hwhole hwhole hbuilt hwhole).2

def sharedVolume : Resource where
  name := "disk"
  value := .scalar 1000
  reservations := [{ type := .dynamic, role := "a" }]
  disk := some { persistence := some { id := "id" }, volume := some "path" }
  shared := true

theorem sharedVolume_fits : sharedVolume.Fits := ⟨trivial, by decide⟩

/-- A cpu that is reserved with labels. -/
def labelledCpu (labels : List Label) : Resource where
  name := "cpus"
  value := .scalar 1000
  reservations := [{ type := .dynamic, role := "role", labels := some labels }]

end Resources
end Clusterd.Common
