import Clusterd.CommonContent
/-! # Containment, difference and sum of `Resources`, told by their content -/
namespace Clusterd.Common

open List Resource
open Values (Takes takes_of_eq)
open Resource_

theorem Resource_.Ok.isEmpty {e : Resource_} (he : e.Ok) : e.isEmpty = false := by
  rw [Resource_.isEmpty, he.nonempty, Bool.or_false]
  cases hs : e.isShared with
  | false => rfl
  | true =>
    rw [Bool.true_and, beq_eq_false_iff_ne]
    exact (he.counted hs).ne'

namespace Resources

variable {a b : Resources} {x e : Resource_}

/-! ## The steps of the operations -/

theorem removeAt_perm (pre : Resources) (x : Resource_) (post : Resources) :
    (removeAt (pre ++ x :: post) pre.length).Perm (pre ++ post) := by
  rcases eq_nil_or_concat post with rfl | ⟨post, last, rfl⟩
  · simp [removeAt]
  have hs : pre ++ x :: (post ++ [last]) = (pre ++ x :: post) ++ [last] := by simp
  have hset : ((pre ++ x :: post) ++ [last]).set pre.length last = (pre ++ last :: post) ++ [last] := by
    simp
  rw [concat_eq_append, hs, removeAt, getLast?_concat]
  show (dropLast (((pre ++ x :: post) ++ [last]).set pre.length last)).Perm _
  rw [hset, dropLast_concat]
  exact List.Perm.append_left pre (perm_append_singleton last post).symm

theorem findIdx?_split {p : Resource_ → Bool} : ∀ a : Resources, (a.findIdx? p = none ∧ ∀ x ∈ a, p x = false) ∨
    ∃ pre x post, a = pre ++ x :: post ∧ a.findIdx? p = some pre.length ∧ p x = true ∧ ∀ y ∈ pre, p y = false
  | [] => .inl ⟨rfl, forall_mem_nil _⟩
  | x :: a => by
    rw [findIdx?_cons]
    cases hx : p x with
    | true => exact .inr ⟨[], x, a, rfl, rfl, hx, forall_mem_nil _⟩
    | false =>
      rcases findIdx?_split a with ⟨h, hall⟩ | ⟨pre, y, post, rfl, h, hy, hpre⟩
      · refine .inl ⟨by rw [h]; rfl, forall_mem_cons.2 ⟨hx, hall⟩⟩
      · exact .inr ⟨x :: pre, y, post, rfl, by rw [h]; rfl, hy, forall_mem_cons.2 ⟨hx, hpre⟩⟩

/-- **What `subtract` does**: nothing, or it replaces the first entry that `e` can be taken from by what is left. -/
theorem subtract_cases (a : Resources) (he : e.isEmpty = false) :
    ((∀ x ∈ a, x.resource.subtractable e.resource = false) ∧ a.subtract e = a) ∨
    ∃ pre x post, a = pre ++ x :: post ∧ x.resource.subtractable e.resource = true ∧
      (∀ y ∈ pre, y.resource.subtractable e.resource = false) ∧
      (a.subtract e).Perm (if (x.subtract e).negative || (x.subtract e).isEmpty then pre ++ post
        else pre ++ x.subtract e :: post) := by
  rcases findIdx?_split (p := (·.resource.subtractable e.resource)) a with ⟨h, hall⟩ | ⟨pre, x, post, rfl, h, hx, hpre⟩
  · exact .inl ⟨hall, by rw [subtract, he, h]; rfl⟩
  refine .inr ⟨pre, x, post, rfl, hx, hpre, ?_⟩
  have heq : subtract (pre ++ x :: post) e = if (x.subtract e).negative || (x.subtract e).isEmpty then
      removeAt (pre ++ x :: post) pre.length else (pre ++ x :: post).set pre.length (x.subtract e) := by
    rw [subtract, he, h]
    simp
  rw [heq]
  split_ifs
  · exact removeAt_perm pre x post
  · simp

/-- **What `add` does**: it replaces the first entry that `e` can be added to, or appends `e`. -/
theorem add_cases (he : e.isEmpty = false) : ∀ a : Resources,
    ((∀ x ∈ a, x.resource.addable e.resource = false) ∧ a.add e = a ++ [e]) ∨
    ∃ pre x post, a = pre ++ x :: post ∧ x.resource.addable e.resource = true ∧ a.add e = pre ++ x.add e :: post := by
  have hadd : ∀ a, a.add e = combine e a := fun a => by rw [add, he]; rfl
  intro a
  rw [hadd]
  induction a with
  | nil => exact .inl ⟨forall_mem_nil _, rfl⟩
  | cons x a ih =>
    rw [combine]
    cases hx : x.resource.addable e.resource with
    | true => exact .inr ⟨[], x, a, rfl, hx, by simp⟩
    | false =>
      rcases ih with ⟨hall, h⟩ | ⟨pre, y, post, rfl, hy, h⟩
      · exact .inl ⟨forall_mem_cons.2 ⟨hx, hall⟩, by simp [h]⟩
      · exact .inr ⟨x :: pre, y, post, rfl, hy, by simp [h]⟩

/-! ## Slots of combined entries -/

theorem Combined.perm (h : a.Perm b) (hc : Combined a) : Combined b :=
  List.Perm.pairwise h hc fun hxy ha =>
    isWhole_congr ha.symm.1 ▸ hxy ha.symm

theorem Ok.perm (h : a.Perm b) (ha : Ok a) : Ok b := fun e he => ha e (h.symm.subset he)

variable {post pre : Resources} {y : Resource_}

theorem Combined.others (hc : Combined (pre ++ x :: post)) (hw : x.resource.isWhole = false) (hy : y ∈ pre ∨ y ∈ post) (ha : x.Alike y) : False := by
  have hf : ∀ {z}, x.Alike z → z.resource.isWhole = true → False := fun h hz => by
    rw [← isWhole_congr h.1, hw] at hz
    exact nomatch hz
  rw [Combined, pairwise_append, pairwise_cons] at hc
  rcases hy with hy | hy
  · exact hf ha (hc.2.2 y hy x mem_cons_self ha.symm)
  · exact nomatch hw.symm.trans (hc.2.1.1 y hy ha)

variable {s : Slot}

theorem Combined.content_others (hc : Combined (pre ++ x :: post))
    (hw : x.resource.isWhole = false) (ha : x.Alike e) (hs : e.weight s ≠ 0) :
    content pre s = 0 ∧ content post s = 0 := by
  have hz : ∀ l, (∀ y ∈ l, y ∈ pre ∨ y ∈ post) → content l s = 0 := fun l hl => by
    by_contra h
    obtain ⟨y, hy, hne⟩ := exists_weight_ne_zero h
    exact hc.others hw (hl y hy) (ha.trans (alike_of_weight hs hne))
  exact ⟨hz pre fun _ => .inl, hz post fun _ => .inr⟩

/-! ## Kept entries -/

structure Kept (a : Resources) : Prop where
  ok : Ok a
  combined : Combined a

theorem Kept.perm (h : a.Perm b) (hk : Kept a) : Kept b := ⟨hk.ok.perm h, hk.combined.perm h⟩

theorem kept_nil : Kept [] := ⟨forall_mem_nil _, List.Pairwise.nil⟩

theorem sublist_remove (pre : Resources) (x : Resource_) (post : Resources) : (pre ++ post).Sublist (pre ++ x :: post) :=
  (List.Sublist.refl pre).append (sublist_cons_self x post)

theorem Kept.sublist (h : b.Sublist a) (hk : Kept a) : Kept b :=
  ⟨fun e he => hk.ok e (h.subset he), hk.combined.sublist h⟩

theorem Kept.replace (hk : Kept (pre ++ x :: post)) (hy : y.Ok)
    (hkn : x.resource.kind = y.resource.kind) (ha : x.resource.isWhole = false → x.Alike y) :
    Kept (pre ++ y :: post) where
  ok e he := by
    rcases mem_append.1 he with he | he
    · exact hk.ok e (mem_append_left _ he)
    · rcases mem_cons.1 he with rfl | he
      · exact hy
      · exact hk.ok e (mem_append_right _ (mem_cons_of_mem _ he))
  combined := by
    have hc := hk.combined
    rw [Combined, pairwise_append, pairwise_cons] at hc ⊢
    -- two entries that are alike are of one kind, so they are used as a whole if either is
    have hki : ∀ {u v : Resource_}, u.Alike v → (v.resource.isWhole = true → u.resource.isWhole = true) :=
      fun h hv => (isWhole_congr h.1).trans hv
    have hwh : x.resource.isWhole = true → y.resource.isWhole = true := fun h =>
      (isWhole_congr hkn).symm.trans h
    refine ⟨hc.1, ⟨fun z hz h => ?_, hc.2.1.2⟩, fun z hz w hw h => ?_⟩
    · cases hx : x.resource.isWhole with
      | true => exact hwh hx
      | false => exact absurd (hx.symm.trans (hc.2.1.1 z hz ((ha hx).trans h))) (by decide)
    · rcases mem_cons.1 hw with rfl | hw
      · cases hx : x.resource.isWhole with
        | true => exact hki h (hwh hx)
        | false => exact hc.2.2 z hz x mem_cons_self (h.trans (ha hx).symm)
      · exact hc.2.2 z hz w (mem_cons_of_mem _ hw) h

theorem Kept.contains_of_alike (hk : Kept (pre ++ x :: post)) (he : e.Ok) (ha : x.Alike e)
    (hle : ∀ s, e.weight s ≤ content (pre ++ x :: post) s) : x.contains e = true := by
  have hx := hk.ok x (mem_append_right _ mem_cons_self)
  refine (contains_iff hx he).2 ⟨ha, fun s => ?_⟩
  cases hw : x.resource.isWhole with
  | true => exact (ha.weight_eq hw s).ge
  | false =>
    by_cases hs : e.weight s = 0
    · rw [hs]
      exact x.weight_nonneg hx s
    obtain ⟨_, _⟩ := hk.combined.content_others hw ha hs
    have := hle s
    rw [content_append, content_cons] at this
    omega

section
variable (hk : Kept a) (he : e.Ok)
include hk he

theorem Kept.append (h : ∀ x ∈ a, x.Alike e → x.resource.isWhole = true) : Kept (a ++ [e]) where
  ok x hx := by
    rcases mem_append.1 hx with hx | hx
    · exact hk.ok x hx
    · exact mem_singleton.1 hx ▸ he
  combined := pairwise_append.2 ⟨hk.combined, pairwise_singleton _ _, fun x hx _ hy =>
    mem_singleton.1 hy ▸ h x hx⟩

/-- **Adding keeps entries proper and combined**, and joins the weights. -/
theorem Kept.add : Kept (a.add e) ∧ ∀ s, content (a.add e) s = joined s (content a s) (e.weight s) := by
  rcases add_cases he.isEmpty a with ⟨hall, h⟩ | ⟨_, x, _, rfl, hx, h⟩
  · have hwh : ∀ x ∈ a, x.Alike e → x.resource.isWhole = true := fun x hx ha => by
      by_contra hw
      have := (addable_iff (hk.ok x hx) he).2 ⟨ha, by simpa using hw⟩
      exact nomatch (hall x hx).symm.trans this
    rw [h]
    refine ⟨hk.append he hwh, fun s => ?_⟩
    rw [content_append, content_cons, content_nil, add_zero]
    cases s with
    | amount kind p =>
      by_cases hne : content a (.amount kind p) = 0
      · rw [hne, zero_add, zero_joined (e.weight_nonneg he _)]
      -- an entry with some of this kind would have been added to
      obtain ⟨x, hx, hxne⟩ := exists_weight_ne_zero hne
      have hz : e.weight (.amount kind p) = 0 := by
        by_contra hene
        have ha := alike_of_weight hxne hene
        have hw := hwh x hx ha
        rw [weight_of_whole hw] at hxne
        exact hxne rfl
      rw [hz, add_zero, joined_zero (content_nonneg hk.ok _)]
    | _ => rfl
  · have hxok := hk.ok x (mem_append_right _ mem_cons_self)
    obtain ⟨ha, hw⟩ := (addable_iff hxok he).1 hx
    obtain ⟨hok, ha', hwe⟩ := grows_of_alike hxok he ha hw
    rw [h]
    refine ⟨hk.replace hok ha'.1 fun _ => ha', fun s => ?_⟩
    rw [content_append, content_cons, content_append, content_cons, hwe]
    by_cases hs : e.weight s = 0
    · rw [hs, joined_zero (x.weight_nonneg hxok s)]
      exact (joined_zero (by
        have := content_nonneg hk.ok s
        rwa [content_append, content_cons] at this)).symm
    · obtain ⟨hpre, hpo⟩ := hk.combined.content_others hw ha hs
      rw [hpre, hpo, zero_add, add_zero, zero_add, add_zero]

/-- **Subtracting keeps entries proper and combined**, whatever is taken. -/
theorem Kept.subtract : Kept (a.subtract e) := by
  rcases subtract_cases a he.isEmpty with ⟨-, h⟩ | ⟨pre, x, post, rfl, -, -, h⟩
  · rw [h]
    exact hk
  refine Kept.perm h.symm ?_
  split_ifs with hg
  · exact hk.sublist (sublist_remove pre x post)
  · have hxok := hk.ok x (mem_append_right _ mem_cons_self)
    obtain ⟨hok, hki, ha'⟩ := subtract_ok hxok he (by simpa using hg)
    exact hk.replace hok hki ha'

/-- **Some entry contains `e` exactly when the content covers its weight in every slot.** -/
theorem Kept.holds_iff : a.holds e = true ↔ ∀ s, e.weight s ≤ content a s := by
  rw [holds, any_eq_true]
  constructor
  · rintro ⟨x, hx, hc⟩ s
    exact le_trans (((contains_iff (hk.ok x hx) he).1 hc).2 s) (weight_le_content hk.ok hx s)
  intro hle
  obtain ⟨s, hpos⟩ := e.exists_weight_pos he
  obtain ⟨x, hx, hne⟩ := exists_weight_ne_zero (hpos.trans_le (hle s)).ne'
  obtain ⟨_, _, rfl⟩ := append_of_mem hx
  exact ⟨x, hx, hk.contains_of_alike he (alike_of_weight hne hpos.ne') hle⟩

end

/-- `e` is taken from an entry that contains it, which does not become negative. -/
def Clean (a : Resources) (e : Resource_) : Prop :=
  ∃ x, a.find? (·.resource.subtractable e.resource) = some x ∧ x.contains e = true ∧ (x.subtract e).negative = false

/-- **Subtracting what some entry contains changes one entry**, the first that it can be taken from. -/
theorem Kept.subtract_held (hk : Kept a) (hw : WholeRegular a) (he : e.Ok) (hh : a.holds e = true) :
    ∃ x rest, a.find? (·.resource.subtractable e.resource) = some x ∧ a.Perm (x :: rest) ∧ x.contains e = true ∧
      Resource_.Leaves x e ∧ (a.subtract e).Perm (if (x.subtract e).isEmpty then rest else x.subtract e :: rest) := by
  have hle := (hk.holds_iff he).1 hh
  rcases subtract_cases a he.isEmpty with ⟨hall, -⟩ | ⟨pre, x, post, rfl, hx, hpre, h⟩
  · rw [holds, any_eq_true] at hh
    obtain ⟨x, hx, hc⟩ := hh
    have ha := ((contains_iff (hk.ok x hx) he).1 hc).1
    exact absurd ((hall x hx).symm.trans ((subtractable_iff (hk.ok x hx) he).2 ha)) (by decide)
  have hxm : x ∈ pre ++ x :: post := mem_append_right _ mem_cons_self
  have hxok := hk.ok x hxm
  have hc := hk.contains_of_alike he ((subtractable_iff hxok he).1 hx) hle
  have hl := leaves_of_contains hxok he (hw x hxm) hc
  refine ⟨x, pre ++ post, ?_, perm_middle, hc, hl, h.trans ?_⟩
  · rw [find?_append, find?_eq_none.2 fun y hy => by simp [hpre y hy], find?_cons, hx]
    rfl
  rw [hl.nonnegative, Bool.false_or]
  split_ifs
  · exact List.Perm.refl _
  · exact perm_middle

structure Drawn (a : Resources) (e : Resource_) : Prop where
  clean : Clean a e
  whole : WholeRegular (a.subtract e)
  regular : Regular a → Regular (a.subtract e)
  content : ∀ s, Takes (¬ s.Unit ∨ Regular a) (content a s) (e.weight s) (content (a.subtract e) s)

/-- **Subtracting what some entry contains takes its weight**, exactly so unless ranges overlap. -/
theorem Kept.drawn (hk : Kept a) (hw : WholeRegular a) (he : e.Ok) (hh : a.holds e = true) : Drawn a e := by
  obtain ⟨x, _, hf, hpe, hc, hl, h⟩ := hk.subtract_held hw he hh
  have hxm : x ∈ a := hpe.symm.subset mem_cons_self
  -- an entry afterwards is one from before, or what is left of `x`
  have hmem : ∀ y ∈ a.subtract e, y ∈ a ∨ (x.subtract e).isEmpty = false ∧ y = x.subtract e := fun y hy => by
    have hy := h.subset hy
    split_ifs at hy with hem
    · exact .inl (hpe.symm.subset (mem_cons_of_mem _ hy))
    · rcases mem_cons.1 hy with rfl | hy
      · exact .inr ⟨by simpa using hem, rfl⟩
      · exact .inl (hpe.symm.subset (mem_cons_of_mem _ hy))
  refine ⟨⟨x, hf, hc, hl.nonnegative⟩, fun y hy hwh => ?_, fun hreg y hy => ?_, fun s => ?_⟩
  · rcases hmem y hy with hy | ⟨hem, rfl⟩
    · exact hw y hy hwh
    · obtain ⟨-, ha, hpl, -⟩ := hl.some hem
      rw [← isWhole_congr ha.1, hpl] at hwh
      exact nomatch hwh
  · rcases hmem y hy with hy | ⟨-, rfl⟩
    · exact hreg y hy
    · exact hl.regular (hreg x hxm)
  rw [content_perm h, content_perm hpe, content_cons]
  cases hem : (x.subtract e).isEmpty with
  | true =>
    rw [if_pos rfl, hl.none hem s]
    exact takes_of_eq (e.weight_nonneg he s) (by omega)
  | false =>
    obtain ⟨_, _, hexa⟩ := (hl.some hem).2.2.2 s
    rw [if_neg (by decide), content_cons]
    refine ⟨by omega, by omega, fun hor => ?_⟩
    have := hexa (hor.imp_right fun hreg => hreg x hxm)
    omega

/-! ## Whole lists -/

theorem Kept.content_le_one (hk : Kept a) (hs : s.Unit) : content a s ≤ 1 := by
  by_cases h : content a s = 0
  · omega
  obtain ⟨x, hx, hne⟩ := exists_weight_ne_zero h
  have hw : x.resource.isWhole = false := by
    by_contra hw
    rw [weight_of_whole (by simpa using hw)] at hne
    cases s with
    | whole => exact hs
    | _ => exact hne (if_neg (by simp))
  obtain ⟨_, _, rfl⟩ := append_of_mem hx
  obtain ⟨_, _⟩ := hk.combined.content_others hw (Resource_.Alike.refl x) hne
  rw [content_append, content_cons]
  have := x.weight_le_one hs
  omega

/-- **What the content covers is held**, and the rest stays covered when it is taken. -/
theorem Kept.covered_cons (hk : Kept a) (hw : WholeRegular a) (he : e.Ok) (hb : Ok b)
    (hle : ∀ s, content (e :: b) s ≤ content a s) :
    a.holds e = true ∧ (∀ s, content b s ≤ content a s) ∧ ∀ s, content b s ≤ content (a.subtract e) s := by
  have hsum : ∀ s, e.weight s + content b s ≤ content a s := fun s => content_cons e b s ▸ hle s
  have hh : a.holds e = true := (hk.holds_iff he).2 fun s => by
    have := hsum s
    have := content_nonneg hb s
    omega
  have hd := hk.drawn hw he hh
  refine ⟨hh, fun s => ?_, fun s => ?_⟩
  · have := hsum s
    have := e.weight_nonneg he s
    omega
  · have := (hd.content s).atLeast
    have := hsum s
    omega

def TakesAll : Resources → Resources → Prop
  | _, [] => True
  | a, e :: b => Clean a e ∧ TakesAll (a.subtract e) b

structure DrawnAll (a b : Resources) : Prop where
  takes : TakesAll a b
  kept : Kept (a.minus b)
  whole : WholeRegular (a.minus b)
  regular : Regular a → Regular (a.minus b)
  content : ∀ s, Takes (¬ s.Unit ∨ Regular a) (content a s) (content b s) (content (a.minus b) s)

/-- **What the content covers can be subtracted cleanly**, and leaves the difference. -/
theorem Kept.drawnAll : ∀ (b : Resources) {a : Resources}, Kept a → WholeRegular a → Ok b →
    (∀ s, content b s ≤ content a s) → DrawnAll a b
  | [], a, hk, hw, _, _ => ⟨trivial, hk, hw, id, fun s => takes_of_eq (le_refl 0) (by simp [minus])⟩
  | e :: b, a, hk, hw, hb, hle => by
    obtain ⟨he, hb⟩ := forall_mem_cons.1 hb
    obtain ⟨hh, -, hr⟩ := hk.covered_cons hw he hb hle
    have hd := hk.drawn hw he hh
    have ih := Kept.drawnAll b (hk.subtract he) hd.whole hb hr
    refine ⟨⟨hd.clean, ih.takes⟩, ih.kept, ih.whole, fun hreg => ih.regular (hd.regular hreg), fun s => ?_⟩
    have hm : a.minus (e :: b) = (a.subtract e).minus b := rfl
    obtain ⟨_, _, h3⟩ := hd.content s
    obtain ⟨_, _, h6⟩ := ih.content s
    rw [hm, content_cons]
    refine ⟨by omega, by omega, fun hor => ?_⟩
    have := h3 hor
    have := h6 (hor.imp_right hd.regular)
    omega

theorem Kept.covered_of_takesAll (hs : ¬ s.Unit) : ∀ (b : Resources) {a : Resources}, Kept a →
    WholeRegular a → Ok b → TakesAll a b → content b s ≤ content a s
  | [], a, hk, _, _, _ => content_nonneg hk.ok s
  | e :: b, a, hk, hw, hb, ht => by
    obtain ⟨he, hb⟩ := forall_mem_cons.1 hb
    obtain ⟨⟨x, hf, hc, -⟩, hr⟩ := ht
    have hh : a.holds e = true := any_eq_true.2 ⟨x, mem_of_find?_eq_some hf, hc⟩
    have hd := hk.drawn hw he hh
    have := Kept.covered_of_takesAll hs b (hk.subtract he) hd.whole hb hr
    have := (hd.content s).exactly (.inl hs)
    rw [content_cons]
    omega

/-- **What the content covers is contained.** -/
theorem Kept.contains_of_covered : ∀ (b : Resources) {a : Resources}, Kept a → WholeRegular a → Ok b →
    (∀ s, content b s ≤ content a s) → a.contains b = true
  | [], _, _, _, _, _ => rfl
  | e :: b, a, hk, hw, hb, hle => by
    obtain ⟨he, hb⟩ := forall_mem_cons.1 hb
    obtain ⟨hh, hr, hr'⟩ := hk.covered_cons hw he hb hle
    rw [contains, hh]
    split_ifs
    · exact Kept.contains_of_covered b (hk.subtract he) (hk.drawn hw he hh).whole hb hr'
    · exact Kept.contains_of_covered b hk hw hb hr

/-- **Adding a list joins the contents**, in every slot that the list itself does not count twice. -/
theorem Kept.plus : ∀ (b : Resources) {a : Resources}, Kept a → Ok b → Kept (a.plus b) ∧
    ∀ s, (s.Unit → content b s ≤ 1) → content (a.plus b) s = joined s (content a s) (content b s)
  | [], a, hk, _ => ⟨hk, fun s _ => (joined_zero (content_nonneg hk.ok s)).symm⟩
  | e :: b, a, hk, hb => by
    obtain ⟨he, hb⟩ := forall_mem_cons.1 hb
    obtain ⟨hk', hc⟩ := hk.add he
    obtain ⟨hk'', hpl⟩ := Kept.plus b hk' hb
    have hew := e.weight_nonneg he
    have hbw := content_nonneg hb
    refine ⟨hk'', fun s hs => ?_⟩
    have hst : Resources.plus a (e :: b) = (a.add e).plus b := rfl
    have hs' : s.Unit → content b s ≤ 1 := fun hu => by
      have := hs hu
      have := hew s
      rw [content_cons] at *
      omega
    rw [hst, hpl s hs', hc]
    exact joined_assoc (hew s) (hbw s) fun hu => content_cons e b s ▸ hs hu

theorem WholeRegular.add (hw : WholeRegular a) (he : e.Ok) (hok : Ok a) (hew : e.WholeRegular) :
    WholeRegular (a.add e) := by
  rcases add_cases he.isEmpty a with ⟨-, h⟩ | ⟨_, x, _, rfl, hx, h⟩
  · rw [h]
    exact forall_mem_append.2 ⟨hw, forall_mem_singleton.2 hew⟩
  have hxok := hok x (mem_append_right _ mem_cons_self)
  obtain ⟨ha, hpl⟩ := (addable_iff hxok he).1 hx
  have hg := grows_of_alike hxok he ha hpl
  obtain ⟨hpre, hxp⟩ := forall_mem_append.1 hw
  obtain ⟨-, hpo⟩ := forall_mem_cons.1 hxp
  rw [h]
  refine forall_mem_append.2 ⟨hpre, forall_mem_cons.2 ⟨fun hwh => ?_, hpo⟩⟩
  rw [← isWhole_congr hg.alike.1, hpl] at hwh
  exact nomatch hwh

theorem WholeRegular.plus : ∀ (b : Resources) {a : Resources}, WholeRegular a → Kept a → Ok b → WholeRegular b →
    WholeRegular (a.plus b)
  | [], _, hw, _, _, _ => hw
  | e :: b, a, hw, hk, hb, hwb => by
    obtain ⟨he, hb⟩ := forall_mem_cons.1 hb
    obtain ⟨hew, hwb⟩ := forall_mem_cons.1 hwb
    exact WholeRegular.plus b (hw.add he hk.ok hew) (hk.add he).1 hb hwb

end Resources
end Clusterd.Common
