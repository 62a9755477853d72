import Clusterd.CommonTotals
/-! # Totals of scalars in which a shared volume counts once, however many copies there are -/
namespace Clusterd.Common

open List Resource_ Values.Ranges
open Values (Value Point)
open Resource

def Token.held (this : Token) (name : String) (p : Point) : Int :=
  if this.kind.name = name then this.value.amount p else 0

namespace Resource_

variable {x e : Resource_}

theorem weight_copies_pos (he : e.Ok) (hs : e.resource.shared = true) : 0 < e.weight (.copies e.resource.token) := by
  rw [weight_of_shared hs, if_pos rfl]
  exact he.counted (he.shared.trans hs)

theorem of_shared_ok (he : e.Ok) (hs : e.resource.shared = true) : (of e.resource).Ok where
  value := he.value
  shared := by simp [of, isShared, hs]
  nonempty := he.nonempty
  counted _ := by simp [of, count, hs]
  distinct := he.distinct

theorem validate_resource (h : e.validate = none) : e.resource.validate = none := by
  unfold validate at h
  split_ifs at h
  exact h

theorem held_eq_token (he : e.Ok) (name : String) (p : Point) : e.held name p = e.resource.token.held name p := by
  rw [Token.held, token, Value.amount_normal he.value]
  rfl

end Resource_

namespace Resources

variable {a b a' : Resources} {x e : Resource_} {name : String}

def counted (a b : Resources) : Resources :=
  List.filter (fun e => !(e.resource.shared && decide (0 < content a (.copies e.resource.token)))) b

theorem counted_nil (a : Resources) : counted a [] = [] := rfl

theorem total_counted_cons (a : Resources) (e : Resource_) (b : Resources) (name : String) (p : Point) :
    total (counted a (e :: b)) name p =
      (if e.resource.shared = true ∧ 0 < content a (.copies e.resource.token) then 0 else e.held name p) +
        total (counted a b) name p := by
  rw [counted, filter_cons]
  by_cases h : e.resource.shared = true ∧ 0 < content a (.copies e.resource.token)
  · rw [if_pos h, if_neg (by simp [h.1, h.2]), zero_add]
    rfl
  · rw [if_neg h, if_pos (by simpa [or_iff_not_imp_left] using h)]
    rfl

theorem counted_congr (h : ∀ e ∈ b, e.resource.shared = true →
    content a (.copies e.resource.token) = content a' (.copies e.resource.token)) : counted a b = counted a' b := by
  refine filter_congr fun e he => ?_
  cases hs : e.resource.shared with
  | false => rfl
  | true => rw [h e he hs]

theorem Combined.token_ne (hc : Combined (e :: b)) (hs : e.resource.shared = true) (hx : x ∈ b) :
    x.resource.token ≠ e.resource.token := by
  intro heq
  have hw := (pairwise_cons.1 hc).1 x hx (alike_of_token heq.symm)
  rw [whole_of_shared hs] at hw
  exact nomatch hw

theorem weight_copies_of_ne (h : x.resource.token ≠ e.resource.token) : x.weight (.copies e.resource.token) = 0 :=
  if_neg fun hx => h hx.2

/-! ## Adding -/

/-- **The total after adding an entry.** -/
theorem Kept.total_add_counted (hk : Kept a) (he : e.Ok) (name : String) :
    total (a.add e) name .scalar = total a name .scalar +
      if e.resource.shared = true ∧ 0 < content a (.copies e.resource.token) then 0 else e.held name .scalar := by
  by_cases hpr : e.resource.shared = true ∧ 0 < content a (.copies e.resource.token)
  · -- One more copy in the entry that is there.
    obtain ⟨hs, hpos⟩ := hpr
    obtain ⟨y, hy, hne⟩ := exists_weight_ne_zero hpos.ne'
    have ha : y.Alike e := alike_of_weight hne (weight_copies_pos he hs).ne'
    have had := (addable_iff (hk.ok y hy) he).2 ⟨ha, whole_of_shared ((shared_congr ha.1).trans hs)⟩
    rcases add_cases he.isEmpty a with ⟨hall, -⟩ | ⟨_, x, _, rfl, hx, h⟩
    · exact nomatch (hall y hy).symm.trans had
    have hxok := hk.ok x (mem_append_right _ mem_cons_self)
    have hxs : x.isShared = true := by
      rw [hxok.shared, shared_congr ((addable_iff hxok he).1 hx).1.1]
      exact hs
    rw [h, if_pos ⟨hs, hpos⟩, add_zero, total_append, total_append, add_of_shared hxs]
    rfl
  · rw [if_neg hpr]
    refine (hk.total_add he (fun hs x hx ha => hpr ⟨hs, ?_⟩) name .scalar).scalar rfl
    have hxs := (shared_congr ha.1).trans hs
    have hw := weight_copies_pos (hk.ok x hx) hxs
    rw [ha.token (isPlain_eq_false.2 (.inr hxs))] at hw
    exact hw.trans_le (weight_le_content hk.ok hx _)

/-- **The total after adding a list.** -/
theorem Kept.total_plus_counted (name : String) : ∀ (b : Resources) {a : Resources}, Kept a → Kept b →
    total (a.plus b) name .scalar = total a name .scalar + total (counted a b) name .scalar
  | [], a, _, _ => by rw [counted_nil, total_nil, add_zero]; rfl
  | e :: b, a, hk, hb => by
    have he := hb.ok e mem_cons_self
    have hb' : Kept b := hb.sublist (sublist_cons_self e b)
    have hsa : counted (a.add e) b = counted a b := counted_congr fun x hx hs => by
      have hne : e.resource.token ≠ x.resource.token := fun heq => by
        have hes : e.resource.shared = true := (shared_congr (congrArg Token.kind heq)).trans hs
        exact hb.combined.token_ne hes hx heq.symm
      rw [(hk.add he).2, weight_copies_of_ne hne, joined_zero (content_nonneg hk.ok _)]
    have hst : Resources.plus a (e :: b) = (a.add e).plus b := rfl
    rw [hst, Kept.total_plus_counted name b (hk.add he).1 hb', hsa, hk.total_add_counted he, total_counted_cons,
      add_assoc]

/-! ## Subtracting -/

/-- **The total after subtracting an entry that is held.** -/
theorem Kept.total_subtract_counted (hk : Kept a) (hw : WholeRegular a) (he : e.Ok) (hh : a.holds e = true)
    (name : String) : total (a.subtract e) name .scalar = total a name .scalar -
      if e.resource.shared = true ∧ 0 < content (a.subtract e) (.copies e.resource.token) then 0
      else e.held name .scalar := by
  by_cases hpr : e.resource.shared = true ∧ 0 < content (a.subtract e) (.copies e.resource.token)
  · -- Some copies are left of the entry.
    obtain ⟨hs, hpos⟩ := hpr
    obtain ⟨x, rest, -, hpe, hco, _, h⟩ := hk.subtract_held hw he hh
    have hxok := hk.ok x (hpe.symm.subset mem_cons_self)
    obtain ⟨ha, -⟩ := (contains_iff hxok he).1 hco
    have hxs : x.isShared = true := hxok.shared.trans ((shared_congr ha.1).trans hs)
    have hno : content rest (.copies e.resource.token) = 0 := by
      have hc : Combined ([] ++ x :: rest) := hk.combined.perm hpe
      exact (hc.content_others (whole_of_shared ((shared_congr ha.1).trans hs)) ha (weight_copies_pos he hs).ne').2
    rw [if_pos ⟨hs, hpos⟩, sub_zero, total_perm h, total_perm hpe]
    cases hem : (x.subtract e).isEmpty with
    | true =>
      rw [content_perm h, hem, if_pos rfl, hno] at hpos
      exact absurd hpos (lt_irrefl 0)
    | false =>
      rw [if_neg (by decide), subtract_of_shared hxs]
      rfl
  · rw [if_neg hpr]
    refine (hk.total_subtract hw he hh (fun hs x hx ha => ?_) name .scalar).exactly rfl
    -- No copy is left, so all of them were taken.
    have hz : content (a.subtract e) (.copies e.resource.token) = 0 := by
      refine le_antisymm (not_lt.1 fun hpos => hpr ⟨hs, hpos⟩) ?_
      exact content_nonneg (hk.subtract he).ok (.copies e.resource.token)
    have ht := ((hk.drawn hw he hh).content (.copies e.resource.token)).exactly (.inl id)
    have hxs := (shared_congr ha.1).trans hs
    have hxle := weight_le_content hk.ok hx (.copies e.resource.token)
    have hwe : e.weight (.copies e.resource.token) = e.count := by rw [weight_of_shared hs, if_pos rfl]
    have hwx : x.weight (.copies e.resource.token) = x.count := by
      rw [weight_of_shared hxs, ha.token (isPlain_eq_false.2 (.inr hxs)), if_pos rfl]
    -- The entry like `e` has at least its copies.
    obtain ⟨_, _, rfl⟩ := append_of_mem hx
    have hxe : x.contains e = true := hk.contains_of_alike he ha ((hk.holds_iff he).1 hh)
    have hle := ((contains_iff (hk.ok x hx) he).1 hxe).2 (.copies e.resource.token)
    omega

/-- **The total after subtracting a list that is covered.** -/
theorem Kept.total_minus_counted (name : String) : ∀ (b : Resources) {a : Resources}, Kept a → WholeRegular a → Kept b →
    (∀ s, content b s ≤ content a s) →
    total (a.minus b) name .scalar = total a name .scalar - total (counted (a.minus b) b) name .scalar
  | [], a, _, _, _, _ => by rw [counted_nil, total_nil, sub_zero]; rfl
  | e :: b, a, hk, hw, hb, hle => by
    have he := hb.ok e mem_cons_self
    have hb' : Kept b := hb.sublist (sublist_cons_self e b)
    obtain ⟨hh, -, hr⟩ := hk.covered_cons hw he hb'.ok hle
    have hd := hk.drawn hw he hh
    have hst : a.minus (e :: b) = (a.subtract e).minus b := rfl
    have hsa : e.resource.shared = true → content ((a.subtract e).minus b) (.copies e.resource.token) =
        content (a.subtract e) (.copies e.resource.token) := by
      intro hs
      have hno : content b (.copies e.resource.token) = 0 := of_not_not fun hne => by
        obtain ⟨_, hx, hxne⟩ := exists_weight_ne_zero hne
        exact hxne (weight_copies_of_ne (hb.combined.token_ne hs hx))
      have ht := ((Kept.drawnAll b (hk.subtract he) hd.whole hb'.ok hr).content
        (.copies e.resource.token)).exactly (.inl id)
      rw [ht, hno, sub_zero]
    rw [hst, Kept.total_minus_counted name b (hk.subtract he) hd.whole hb' hr,
      hk.total_subtract_counted hw he hh, total_counted_cons]
    by_cases hs : e.resource.shared = true
    · rw [hsa hs, sub_sub]
    · rw [if_neg (fun h => hs h.1), if_neg (fun h => hs h.1), sub_sub]

/-! ## Replacing -/

def uncounted (a b : Resources) : Resources :=
  List.filter (fun e => e.resource.shared && decide (0 < content a (.copies e.resource.token))) b

theorem total_counted_add (a : Resources) (name : String) (p : Point) : ∀ b : Resources,
    total (counted a b) name p + total (uncounted a b) name p = total b name p
  | [] => rfl
  | e :: b => by
    have ih := total_counted_add a name p b
    rw [total_counted_cons, total_cons, ← ih, uncounted, filter_cons]
    by_cases h : e.resource.shared = true ∧ 0 < content a (.copies e.resource.token)
    · rw [if_pos h, if_pos (by simp [h.1, h.2]), total_cons, uncounted]
      omega
    · rw [if_neg h, if_neg (by simpa using h), uncounted]
      omega

theorem token_mem_uncounted (hb : Kept b) (token : Token) : token ∈ (uncounted a b).map (·.resource.token) ↔
      0 < content b (.copies token) ∧ 0 < content a (.copies token) := by
  rw [mem_map]
  constructor
  · rintro ⟨e, he, rfl⟩
    obtain ⟨hmem, hpr⟩ := mem_filter.1 he
    rw [Bool.and_eq_true, decide_eq_true_eq] at hpr
    have hpos := weight_copies_pos (hb.ok e hmem) hpr.1
    exact ⟨hpos.trans_le (weight_le_content hb.ok hmem _), hpr.2⟩
  · rintro ⟨hpos, hpr⟩
    obtain ⟨e, he, hne⟩ := exists_weight_ne_zero hpos.ne'
    obtain ⟨hs, rfl⟩ := of_not_not fun h => hne (if_neg h)
    exact ⟨e, mem_filter.2 ⟨he, by rw [hs, decide_eq_true hpr]; rfl⟩, rfl⟩

theorem nodup_uncounted (hb : Kept b) : ((uncounted a b).map (·.resource.token)).Nodup := by
  refine pairwise_map.2 ?_
  have hs : ∀ e ∈ uncounted a b, e.resource.shared = true := fun _ he => by
    have := (mem_filter.1 he).2
    rw [Bool.and_eq_true] at this
    exact this.1
  refine (hb.combined.sublist filter_sublist).imp_of_mem fun hx _ ha heq => ?_
  have hw := ha (alike_of_token heq)
  rw [whole_of_shared (hs _ hx)] at hw
  exact nomatch hw

theorem total_uncounted (hb : Kept b) (name : String) (p : Point) :
    total (uncounted a b) name p = (((uncounted a b).map (·.resource.token)).map (·.held name p)).sum := by
  rw [map_map]
  refine congrArg sum (map_congr_left fun e he => ?_)
  exact held_eq_token (hb.ok e (mem_filter.1 he).1) name p

/-- Which shared volumes there are changes only so that they count: one of which copies only go has no others, and one of
which copies only come has none. -/
def Exchanges (a old new : Resources) : Prop := ∀ token,
  (0 < content old (.copies token) → content new (.copies token) = 0 →
    content a (.copies token) ≤ content old (.copies token)) ∧
  (content old (.copies token) = 0 → 0 < content new (.copies token) → content a (.copies token) ≤ 0)

/-- **The total after some resources were replaced by others.** -/
theorem Kept.total_exchange {old new : Resources} (ha : Kept a) (hw : WholeRegular a) (hold : Kept old) (hnew : Kept new)
    (hle : ∀ s, content old s ≤ content a s) (he : Exchanges a old new) (name : String) :
    total ((a.minus old).plus new) name .scalar =
      total a name .scalar - total old name .scalar + total new name .scalar := by
  have hd := Kept.drawnAll old ha hw hold.ok hle
  have hsa : total (uncounted (a.minus old) old) name .scalar = total (uncounted (a.minus old) new) name .scalar := by
    rw [total_uncounted hold, total_uncounted hnew]
    refine List.Perm.sum_eq (List.Perm.map _ ((perm_ext_iff_of_nodup (nodup_uncounted hold) (nodup_uncounted hnew)).2 ?_))
    intro token
    rw [token_mem_uncounted hold, token_mem_uncounted hnew, (hd.content (.copies token)).exactly (.inl id)]
    obtain ⟨_, _⟩ := he token
    have h1 := content_nonneg hold.ok (.copies token)
    have h2 := content_nonneg hnew.ok (.copies token)
    constructor
    · rintro ⟨hpos, hl⟩
      refine ⟨lt_of_le_of_ne h2 fun hz => ?_, hl⟩
      omega
    · rintro ⟨_, hl⟩
      refine ⟨lt_of_le_of_ne h1 fun _ => ?_, hl⟩
      omega
  have hos := total_counted_add (a.minus old) name .scalar old
  have hns := total_counted_add (a.minus old) name .scalar new
  rw [Kept.total_plus_counted name new hd.kept hnew, Kept.total_minus_counted name old ha hw hold hle]
  omega

/-! ## Quantities -/

theorem amount_eq_held (he : e.Ok) (name : String) :
    ((if e.resource.value.type == .scalar then if e.resource.name = name then e.amount else 0 else 0 : Nat) : Int) =
      e.held name .scalar := by
  have hva := he.value
  rw [held, amount, scalar]
  cases hv : e.resource.value with
  | scalar x =>
    rw [hv] at hva
    have hx : 0 ≤ x := hva
    by_cases hna : e.resource.name = name
    · simp [Value.type, Value.amount, hna, hx]
    · simp [hna]
  | _ => simp [Value.type, Value.amount]

/-- **The quantities of scalars are the totals by name.** -/
theorem get_fromScalarResources (name : String) : ∀ {a : Resources}, Ok a →
    ((ResourceQuantities.fromScalarResources a.scalars).get name : Int) = total a name .scalar
  | [], _ => rfl
  | e :: a, ha => by
    obtain ⟨he, ha⟩ := forall_mem_cons.1 ha
    have ih := get_fromScalarResources name ha
    have hh := amount_eq_held he name
    rw [total_cons, ← ih, ← hh]
    unfold scalars Resources.filter
    cases ht : e.resource.value.type == .scalar with
    | true | false => simp [ResourceQuantities.fromScalarResources, ht]

theorem ResourceQuantities_contains_of_le {this right : ResourceQuantities} (h : ∀ name, right.get name ≤ this.get name) :
    this.contains right = true := all_eq_true.2 fun name _ => decide_eq_true (h name)

/-! ## Resources that are not overcommitted -/

def SharedValid (a : Resources) : Prop := ∀ e ∈ a, e.resource.shared = true → e.resource.validate = none

def Below (a : Resources) : Prop := ∀ kind n, content a (.amount kind (.number n)) ≠ 0 → n + 1 < 2 ^ 64

structure Tame (a : Resources) : Prop where
  kept : Kept a
  regular : Regular a
  below : Below a
  valid : SharedValid a

theorem Tame.whole (h : Tame a) : WholeRegular a := fun e he _ => h.regular e he

theorem tame_nil : Tame [] := ⟨kept_nil, forall_mem_nil _, fun _ _ h => absurd rfl h, forall_mem_nil _⟩

theorem regular_add (hx : x.Ok) (he : e.Ok) (ha : x.Alike e) (hr : x.Regular)
    (hb : ∀ n, x.weight (.amount x.resource.kind (.number n)) ≠ 0 ∨ e.weight (.amount x.resource.kind (.number n)) ≠ 0 →
      n + 1 < 2 ^ 64) (hpl : x.resource.isPlain = true) : (x.add e).Regular := by
  have hs : x.isShared = false := hx.shared.trans (isPlain_eq_true.1 hpl).1
  have hpl' : e.resource.isPlain = true := isPlain_congr ha.1 ▸ hpl
  have hxv := hx.value
  have hev := he.value
  rw [add_of_unshared hs]
  simp only [weight_of_plain hpl, weight_of_plain hpl', spread, ← ha.1, if_true] at hb
  unfold Resource_.Regular at hr
  cases hvx : x.resource.value with
  | ranges left =>
    cases hve : e.resource.value with
    | ranges right =>
      rw [hvx] at hxv hb
      rw [hve] at hev hb
      have hok : ∀ r ∈ left ++ right, r.Ok := forall_mem_append.2 ⟨hxv, hev⟩
      refine ((coalesce_apart hok).imp_of_mem fun {l r} hl _ hap => .inl ?_)
      rcases hap.2 with hlt | hmax
      · omega
      -- The greatest number would be one of those added.
      have hc := (covers_coalesce hok l.stop).1 ⟨l, hl, (coalesce_ok hok l hl).1, le_rfl⟩
      have hst := hb l.stop (by
        rw [Value.amount, Value.amount]
        rcases (covers_append left right l.stop).1 hc with h | h
        · exact .inl (by rw [if_pos h]; decide)
        · exact .inr (by rw [if_pos h]; decide))
      omega
    | _ => rw [hvx] at hr; exact hr
  | _ => cases e.resource.value <;> trivial

theorem SharedValid.add (h : SharedValid a) (ha : Ok a) (he : e.Ok)
    (hv : e.resource.shared = true → e.resource.validate = none) : SharedValid (a.add e) := by
  rcases add_cases he.isEmpty a with ⟨-, heq⟩ | ⟨_, x, _, rfl, _, heq⟩
  · rw [heq]
    exact forall_mem_append.2 ⟨h, forall_mem_singleton.2 hv⟩
  obtain ⟨hpre, hxp⟩ := forall_mem_append.1 h
  obtain ⟨hxv, hpo⟩ := forall_mem_cons.1 hxp
  have hxok := ha x (mem_append_right _ mem_cons_self)
  rw [heq]
  refine forall_mem_append.2 ⟨hpre, forall_mem_cons.2 ⟨fun hs => ?_, hpo⟩⟩
  cases hsx : x.isShared with
  | true =>
    rw [add_of_shared hsx] at hs ⊢
    exact hxv hs
  | false =>
    rw [add_of_unshared hsx] at hs
    exact nomatch hsx.symm.trans (hxok.shared.trans hs)

theorem SharedValid.plus : ∀ {b a : Resources}, SharedValid a → Kept a → Ok b → SharedValid b → SharedValid (a.plus b)
  | [], _, h, _, _, _ => h
  | e :: b, a, h, ha, hb, hv => by
    obtain ⟨he, hb⟩ := forall_mem_cons.1 hb
    obtain ⟨hev, hv⟩ := forall_mem_cons.1 hv
    exact (h.add ha.ok he hev).plus (ha.add he).1 hb hv

theorem SharedValid.subtract (h : SharedValid a) (ha : Ok a) (he : e.Ok) : SharedValid (a.subtract e) := by
  rcases subtract_cases a he.isEmpty with ⟨-, heq⟩ | ⟨_, x, _, rfl, -, -, hpe⟩
  · rw [heq]
    exact h
  obtain ⟨hpre, hxp⟩ := forall_mem_append.1 h
  obtain ⟨hxv, hpo⟩ := forall_mem_cons.1 hxp
  have hxok := ha x (mem_append_right _ mem_cons_self)
  intro y hy
  have hy := hpe.subset hy
  split_ifs at hy
  · exact (mem_append.1 hy).elim (hpre y) (hpo y)
  rcases mem_append.1 hy with hy | hy
  · exact hpre y hy
  rcases mem_cons.1 hy with rfl | hy
  · intro hs
    cases hsx : x.isShared with
    | true =>
      rw [subtract_of_shared hsx] at hs ⊢
      exact hxv hs
    | false =>
      rw [subtract_of_unshared hsx] at hs
      exact nomatch hsx.symm.trans (hxok.shared.trans hs)
  · exact hpo y hy

theorem SharedValid.minus : ∀ {b a : Resources}, SharedValid a → Kept a → Ok b → SharedValid (a.minus b)
  | [], _, h, _, _ => h
  | e :: b, a, h, ha, hb => by
    obtain ⟨he, hb⟩ := forall_mem_cons.1 hb
    exact (h.subtract ha.ok he).minus (ha.subtract he) hb

/-- **What is built has valid shared volumes only.** -/
theorem Built.sharedValid (h : Built a) : SharedValid a := by
  induction h with
  | empty => exact forall_mem_nil _
  | @addObject a r ha hf ih =>
    unfold Resources.addObject
    split_ifs with hv
    · have hno := Option.isNone_iff_eq_none.1 hv
      cases he : (of r).isEmpty with
      | true =>
        rw [Resources.add, he]
        exact ih
      | false => exact ih.add ha.kept.ok (of_ok hno hf he) fun _ => validate_resource hno
    · exact ih
  | @subtractObject a r ha hf ih =>
    unfold Resources.subtractObject
    split_ifs with hv
    · cases he : (of r).isEmpty with
      | true =>
        rw [Resources.subtract, he]
        exact ih
      | false => exact ih.subtract ha.kept.ok (of_ok (Option.isNone_iff_eq_none.1 hv) hf he)
    · exact ih
  | plus ha hb iha ihb => exact iha.plus ha.kept hb.kept.ok ihb
  | minus ha hb iha => exact iha.minus ha.kept hb.kept.ok

theorem Built.tame (h : Built a) (hr : Regular a) (hb : Below a) : Tame a :=
  ⟨h.kept, hr, hb, h.sharedValid⟩

theorem Tame.add (h : Tame a) (he : e.Ok) (hr : e.Regular)
    (hb : ∀ kind n, e.weight (.amount kind (.number n)) ≠ 0 → n + 1 < 2 ^ 64)
    (hv : e.resource.shared = true → e.resource.validate = none) : Tame (a.add e) := by
  obtain ⟨hk, hc⟩ := h.kept.add he
  refine ⟨hk, ?_, ?_, ?_⟩
  · rcases add_cases he.isEmpty a with ⟨-, heq⟩ | ⟨pre, x, post, rfl, hx, heq⟩
    · rw [heq]
      exact forall_mem_append.2 ⟨h.regular, forall_mem_singleton.2 hr⟩
    obtain ⟨hpre, hxp⟩ := forall_mem_append.1 h.regular
    obtain ⟨hxr, hpo⟩ := forall_mem_cons.1 hxp
    have hxm : x ∈ pre ++ x :: post := mem_append_right _ mem_cons_self
    have hxok := h.kept.ok x hxm
    obtain ⟨ha, hnw⟩ := (addable_iff hxok he).1 hx
    rw [heq]
    refine forall_mem_append.2 ⟨hpre, forall_mem_cons.2 ⟨?_, hpo⟩⟩
    cases hs : x.resource.shared with
    | true =>
      rw [add_of_shared (hxok.shared.trans hs)]
      exact hxr
    | false =>
      refine regular_add hxok he ha hxr (fun n hn => ?_) (isPlain_eq_true.2 ⟨hs, hnw⟩)
      rcases hn with hn | hn
      · refine h.below x.resource.kind n fun hz => hn (le_antisymm ?_ (x.weight_nonneg hxok _))
        rw [← hz]
        exact weight_le_content h.kept.ok hxm _
      · exact hb _ n hn
  · intro kind n hne
    by_cases hz : e.weight (.amount kind (.number n)) = 0
    · rw [hc, hz, joined_zero (content_nonneg h.kept.ok _)] at hne
      exact h.below kind n hne
    · exact hb kind n hz
  · exact h.valid.add h.kept.ok he hv

theorem Tame.plus : ∀ {b a : Resources}, Tame a → Tame b → Tame (a.plus b)
  | [], _, ha, _ => ha
  | e :: b, a, ha, hb => by
    have he := hb.kept.ok e mem_cons_self
    have hw : ∀ s, e.weight s ≤ content (e :: b) s := weight_le_content hb.kept.ok mem_cons_self
    have hb' : Tame b := by
      refine ⟨hb.kept.sublist (sublist_cons_self e b), (forall_mem_cons.1 hb.regular).2, ?_,
        (forall_mem_cons.1 hb.valid).2⟩
      intro kind n hne
      refine hb.below kind n fun hz => hne ?_
      have h1 := content_nonneg (hb.kept.sublist (sublist_cons_self e b)).ok (.amount kind (.number n))
      have h2 := e.weight_nonneg he (.amount kind (.number n))
      rw [content_cons] at hz
      omega
    have hadd : Tame (a.add e) := by
      refine ha.add he (hb.regular e mem_cons_self) ?_ (hb.valid e mem_cons_self)
      intro kind n hne
      refine hb.below kind n fun hz => hne (le_antisymm ?_ (e.weight_nonneg he _))
      rw [← hz]
      exact hw _
    show Tame ((a.add e).plus b)
    exact Tame.plus hadd hb'

/-- **Taking what is there.** -/
theorem Tame.minus (ha : Tame a) (hb : Ok b) (hle : ∀ s, content b s ≤ content a s) :
    Tame (a.minus b) ∧ ∀ s, content (a.minus b) s = content a s - content b s := by
  have hd := Kept.drawnAll b ha.kept ha.whole hb hle
  have hc : ∀ s, content (a.minus b) s = content a s - content b s :=
    fun s => (hd.content s).exactly (.inr ha.regular)
  refine ⟨⟨hd.kept, hd.regular ha.regular, ?_, ha.valid.minus ha.kept hb⟩, hc⟩
  intro kind n hne
  refine ha.below kind n fun _ => hne ?_
  have h1 := hle (.amount kind (.number n))
  have h2 := content_nonneg hb (.amount kind (.number n))
  rw [hc]
  omega

theorem Kept.containsObject_iff (ha : Kept a) (he : e.Ok) (hs : e.resource.shared = true)
    (hv : e.resource.validate = none) :
    a.containsObject e.resource = true ↔ 0 < content a (.copies e.resource.token) := by
  have hof : (of e.resource).resource.shared = true := hs
  have hone : (Resource_.of e.resource).count = 1 := by simp [Resource_.of, Resource_.count, hs]
  rw [containsObject, hv, Option.isNone_none, Bool.true_and, ha.holds_iff (of_shared_ok he hs)]
  simp only [weight_of_shared hof, hone]
  constructor
  · intro h
    have hone := h (.copies e.resource.token)
    rw [if_pos (show Slot.copies e.resource.token = .copies (of e.resource).resource.token from rfl)] at hone
    omega
  · intro hpos s
    split_ifs with hsl
    · rw [hsl]
      exact hpos
    · exact content_nonneg ha.ok s

end Resources
end Clusterd.Common
