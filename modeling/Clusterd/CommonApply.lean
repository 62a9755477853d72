import Clusterd.CommonAmounts
/-! # Which operations conserve the quantities of the `Resources` they are applied to -/
namespace Clusterd.Common

open List Resource_
open Values (Value Point takes_of_eq)
open ResourceConversion Resource

theorem ResourceConversion.apply_ok {c : ResourceConversion} {r result : Resources} (h : c.apply r = .ok result) :
    r.contains c.consumed = true ∧ result = (r.minus c.consumed).plus c.converted ∧
      c.postValidation.bind (· result) = none := by
  unfold apply at h
  split_ifs at h with hc
  cases hpo : c.postValidation.bind (· ((r.minus c.consumed).plus c.converted)) with
  | some =>
    simp only [hpo] at h
    cases h
  | none =>
    simp only [hpo] at h
    cases h
    exact ⟨by simpa using hc, rfl, hpo⟩

namespace Resource

variable {o : Resource}

theorem Sound.stripped (h : o.Sound) : o.stripped.Sound := by
  have hv := h.valid
  simp only [validate, Option.orElse_eq_none] at hv
  obtain ⟨hna, hva, hdi, hr, -⟩ := hv
  refine ⟨?_, h.fits.1, h.fits.2.1, ?_⟩
  · simp only [validate, Option.orElse_eq_none]
    refine ⟨hna, hva, ?_, hr, rfl⟩
    unfold validateDisk Resource.stripped at *
    cases hd : o.disk with
    | none => rfl
    | some disk =>
      rw [hd] at hdi
      cases hs : disk.source with
      | none => simp [hs]
      | some => simpa [hs] using hdi
  · intro disk hd source hs
    obtain ⟨before, hb, hd⟩ := Option.bind_eq_some_iff.1 hd
    obtain ⟨source, hbs, rfl⟩ := Option.map_eq_some_iff.1 hd
    cases hs
    exact h.fits.2.2 before hb source hbs

theorem Sound.setScalar (h : o.Sound) {x : Int} (hx : 0 ≤ x) : (o.setScalar x).Sound := by
  unfold Resource.setScalar
  cases hv : o.value with
  | scalar =>
    have hva := h.valid
    simp only [validate, Option.orElse_eq_none] at hva
    obtain ⟨hna, -, hd, hr, hs⟩ := hva
    refine ⟨?_, trivial, h.fits.2⟩
    simp only [validate, Option.orElse_eq_none]
    refine ⟨hna, ?_, hd, hr, hs⟩
    rw [validateValue, if_neg (by omega)]
  | _ => exact h

end Resource

namespace Resources

variable {a b c d r result : Resources} {x e : Resource_} {o : Resource}

/-! ## What is to be shown of an operation -/

def SameAmounts (result r : Resources) : Prop :=
  (∀ name, result.getScalar name = r.getScalar name) ∧ samePorts result.ports r.ports = true

def Conserves (r : Resources) (operation : Operation) : Prop :=
  match r.apply operation with
  | none => False
  | some (.error _) => True
  | some (.ok result) => SameAmounts result r

def Settles (r : Resources) (conversions : List ResourceConversion) : Prop :=
  ∀ result, r.applyAll conversions = .ok result → SameAmounts result r

variable {conversions : List ResourceConversion} {operation : Operation}

theorem conserves_iff_settles (h : getResourceConversions operation = some (.ok conversions)) :
    Conserves r operation ↔ Settles r conversions := by
  unfold Conserves Settles apply
  rw [h]
  cases hall : r.applyAll conversions with
  | error => simp [hall]
  | ok =>
    simp only [hall, Except.ok.injEq, forall_eq']
    split_ifs with hc
    · exact .rfl
    · refine iff_of_false id fun hsa => hc ⟨hsa.1 _, hsa.1 _, ?_, ?_, hsa.2⟩
      · rw [mem, mem, hsa.1]
      · rw [disk, disk, hsa.1]

def PortsBelow (r : Resources) : Prop := ∀ n, 0 < total r "ports" (.number n) → n + 1 < 2 ^ 64

theorem SameQuantities.sameAmounts (hq : SameQuantities result r) (hre : Ok result) (hr : Ok r)
    (hpo : PortsBelow r) : SameAmounts result r := by
  refine ⟨fun name => ?_, samePorts_of_tells (getRanges_tells hre "ports") ?_ fun n hn => ?_⟩
  · rw [getScalar_eq hre, getScalar_eq hr, (hq name).1]
  · have hiff : (fun n => 0 < total result "ports" (.number n)) = fun n => 0 < total r "ports" (.number n) :=
      funext fun n => propext ((hq "ports").2 n)
    rw [hiff]
    exact getRanges_tells hr "ports"
  · exact hpo n (((hq "ports").2 n).1 hn)

theorem SameAmounts.total_eq (h : SameAmounts result r) (hre : Ok result) (hr : Ok r) (name : String) :
    total result name .scalar = total r name .scalar := by
  have heq := h.1 name
  have h1 := total_nonneg hre name .scalar
  have h2 := total_nonneg hr name .scalar
  rw [getScalar_eq hre, getScalar_eq hr, present, present] at heq
  split_ifs at heq
  · exact Option.some.inj heq
  · omega

theorem held_pos_of_scalar (hok : x.resource.value.Ok) (he : x.resource.isEmpty = false)
    (ht : x.resource.value.type = .scalar) : 0 < x.held x.resource.name .scalar := by
  obtain ⟨p, hp⟩ := Value.exists_amount_pos hok he
  rw [held, if_pos rfl]
  cases hv : x.resource.value with
  | scalar =>
    rw [hv] at hp
    cases p with
    | scalar => exact hp
    | _ => exact absurd hp (lt_irrefl 0)
  | _ =>
    rw [hv] at ht
    cases ht

/-! ## One conversion -/

/-- **A conversion into the same quantities settles exactly when it does not consume a disk more often than it is
there.** -/
theorem Steady.settles_iff (h : Steady r) (hpo : PortsBelow r) (hc : Kept c) (hcu : Unshared c) (hd : Ok d)
    (hdu : Unshared d) (hq : SameQuantities c d) :
    Settles r [{ consumed := c, converted := d }] ↔ (r.contains c = true → NoExtra r c) := by
  have hk : Kept ((r.minus c).plus d) := (Kept.plus d (Kept.minus c h.kept hc.ok) hd).1
  have ha : ∀ result, r.applyAll [{ consumed := c, converted := d }] = .ok result ↔
      r.contains c = true ∧ result = (r.minus c).plus d := fun result => by
    cases hco : r.contains c with
    | true => simp [applyAll, ResourceConversion.apply, hco, eq_comm]
    | false => simp [applyAll, ResourceConversion.apply, hco]
  constructor
  · intro hse hco
    have hsa := hse _ ((ha _).2 ⟨hco, rfl⟩)
    obtain ⟨hea, -⟩ := Kept.covers_each c h.kept h.whole hc.ok hco
    -- a disk of `c` is like one of `r`, so it is a scalar
    have hpos : ∀ e ∈ c, e.resource.isWhole = true → 0 < e.held e.resource.name .scalar := fun e he hw => by
      have heok := hc.ok e he
      obtain ⟨s, hs⟩ := e.exists_weight_pos heok
      obtain ⟨_, hx, hxs⟩ := exists_weight_ne_zero (hs.trans_le (hea e he s)).ne'
      have ht := h.disk_of_alike hx (alike_of_weight hxs hs.ne') (disk_of_whole hw)
      exact held_pos_of_scalar heok.value heok.nonempty ht
    obtain ⟨-, hta | ⟨name, _⟩⟩ := Kept.total_minus_extra c h.kept h.whole hc hcu (fun e he _ => hea e he) hpos
    · exact noExtra_of_covered h.kept.ok hc.ok fun token =>
        Kept.covered_of_takesAll (s := .whole token) id c h.kept h.whole hc.ok hta
    have h1 := hsa.total_eq hk.ok h.kept.ok name
    have h2 := (Kept.total_plus name .scalar d (Kept.minus c h.kept hc.ok) hd hdu).scalar rfl
    have h3 := (hq name).1
    omega
  · intro hext result hr
    obtain ⟨hco, rfl⟩ := (ha result).1 hr
    have hle := h.kept.covered_of_contains h.whole hc hco (hext hco)
    exact (h.exchange hc hcu hd hdu hle hq).sameAmounts hk.ok h.kept.ok hpo

/-! ## Conversions of one object each -/

section
variable (hk : Kept r) (ho : o.Sound) (h : r.contains (ofObjects [o]) = true)
include hk ho h

theorem Kept.covered_single (s : Slot) : content (ofObjects [o]) s ≤ content r s := by
  rw [ofObjects_single ho] at h ⊢
  cases he : o.isEmpty with
  | true => exact content_nonneg hk.ok s
  | false =>
    rw [he] at h
    have hh : r.holds (.of o) = true := by
      rw [if_neg (by decide), contains, Bool.and_eq_true] at h
      exact h.1
    rw [if_neg (by decide), content_cons, content_nil, add_zero]
    exact (hk.holds_iff (ok_of_sound ho he)).1 hh s

theorem noExtra_single : NoExtra r (ofObjects [o]) :=
  noExtra_of_covered hk.ok (ofObjects_built (forall_mem_singleton.2 ho.fits)).kept.ok fun _ =>
    hk.covered_single ho h _

theorem Kept.alike_of_single : ∀ e ∈ ofObjects [o], ∃ x ∈ r, x.Alike e := fun e he => by
  have hok := (ofObjects_built (forall_mem_singleton.2 ho.fits)).kept.ok
  obtain ⟨s, hs⟩ := e.exists_weight_pos (hok e he)
  have hle := le_trans (weight_le_content hok he s) (hk.covered_single ho h s)
  obtain ⟨x, hx, hxs⟩ := exists_weight_ne_zero (hs.trans_le hle).ne'
  exact ⟨x, hx, alike_of_weight hxs hs.ne'⟩

end

/-- **Conversions of which each keeps an invariant and the quantities**, one after the other. -/
theorem applyAll_sameQuantities {α : Type} {f : α → ResourceConversion} {I : Resources → List α → Prop}
    (hs : ∀ r v rest result, I r (v :: rest) → (f v).apply r = .ok result → I result rest ∧ SameQuantities result r) :
    ∀ (vs : List α) (r result : Resources), I r vs → r.applyAll (vs.map f) = .ok result →
      I result [] ∧ SameQuantities result r
  | [], r, result, hI, h => by
    cases h
    exact ⟨hI, fun _ => ⟨rfl, fun _ => .rfl⟩⟩
  | v :: vs, r, result, hI, h => by
    rw [map_cons, applyAll] at h
    cases hv : (f v).apply r with
    | error =>
      rw [hv] at h
      cases h
    | ok next =>
      rw [hv] at h
      obtain ⟨hI', hq⟩ := hs r v vs next hI hv
      obtain ⟨hI'', hq'⟩ := applyAll_sameQuantities hs vs next result hI' h
      exact ⟨hI'', hq'.trans hq⟩

/-! ## UNRESERVE -/

theorem Steady.unreserve (h : Steady r) (ho : o.Sound) (hs : o.shared = false) (hco : r.contains (ofObjects [o]) = true) :
    Steady ((r.minus (ofObjects [o])).plus (plus [] ((ofObjects [o]).map pop))) ∧
      SameQuantities ((r.minus (ofObjects [o])).plus (plus [] ((ofObjects [o]).map pop))) r := by
  have hc : Kept (ofObjects [o]) := (ofObjects_built (forall_mem_singleton.2 ho.fits)).kept
  have hcu : Unshared (ofObjects [o]) := unshared_ofObjects (forall_mem_singleton.2 hs)
  have hd : Kept (plus [] ((ofObjects [o]).map pop)) := (Kept.plus _ kept_nil (map_pop_ok hc.ok)).1
  have hdu : Unshared (plus [] ((ofObjects [o]).map pop)) :=
    forall_plus (P := (·.shared = false)) (fun _ _ _ h => h) _ (forall_mem_nil _) (map_pop_unshared hcu)
  refine ⟨h.replaced hc.ok hd.ok ?_,
    h.exchange hc hcu hd.ok hdu (h.kept.covered_single ho hco) (sameQuantities_pop hc.ok hcu).symm⟩
  refine forall_plus scalarDisk_setValue _ (forall_mem_nil _) fun _ hx => ?_
  obtain ⟨e, he, rfl⟩ := mem_map.1 hx
  obtain ⟨_, hy, ha⟩ := h.kept.alike_of_single ho hco e he
  have hsc : e.resource.disk.isSome = true → e.resource.value.type = .scalar := h.disk_of_alike hy ha
  exact hsc

theorem ofUnreserve_eq (ho : o.isReserved = true) : ofUnreserve o = some
    { consumed := ofObjects [o], converted := plus [] ((ofObjects [o]).map pop) } := by
  have hr : ∀ e ∈ ofObjects [o], e.resource.isReserved = true :=
    forall_ofObjects (P := (·.isReserved = true)) (fun _ _ _ h => h) (forall_mem_singleton.2 ho)
  rw [ofUnreserve, popReservation_of_reserved hr]
  rfl

theorem mapM_ofUnreserve : ∀ objects : List Resource, (∀ o ∈ objects, o.isReserved = true) →
    objects.mapM ofUnreserve = some (objects.map fun o =>
      { consumed := ofObjects [o], converted := plus [] ((ofObjects [o]).map pop) })
  | [], _ => rfl
  | o :: objects, h => by
    obtain ⟨ho, h⟩ := forall_mem_cons.1 h
    rw [mapM_cons, ofUnreserve_eq ho, mapM_ofUnreserve objects h]
    rfl

/-! ## CREATE -/

theorem not_alike_of_copies (hr : Ok r) (hs : e.resource.shared = true)
    (h : content r (.copies e.resource.token) = 0) : ∀ x ∈ r, ¬ x.Alike e := fun x hx ha => by
  have hxs : x.resource.shared = true := (shared_congr ha.1).trans hs
  have hc := (hr x hx).counted ((hr x hx).shared.trans hxs)
  have hle := weight_le_content hr hx (.copies e.resource.token)
  rw [weight_of_shared hxs, ha.token (isPlain_eq_false.2 (.inr hxs)), if_pos rfl] at hle
  omega

/-- What a CREATE of one volume leaves: a copy more of a shared volume counts for nothing if there is one already. -/
structure Created (r : Resources) (v : Resource) (result : Resources) : Prop where
  steady : Steady result
  copies : ∀ token, content result (.copies token) = content r (.copies token) + content (ofObjects [v]) (.copies token)
  total : ∀ name, total result name .scalar = total r name .scalar -
    if v.shared = true ∧ 0 < content r (.copies v.token) then (of v).held name .scalar else 0

section
variable {v : Resource} (h : Steady r) (hv : v.Sound)
include h hv

theorem Steady.create (hds : v.disk.isSome = true → v.value.type = .scalar) (hap : (ofCreate v).apply r = .ok result) :
    Created r v result := by
  obtain ⟨hcon, hr, -⟩ := apply_ok hap
  change result = (r.minus (ofObjects [v.stripped])).plus (ofObjects [v]) at hr
  have hst := hv.stripped
  have hc : Kept (ofObjects [v.stripped]) := (ofObjects_built (forall_mem_singleton.2 hst.fits)).kept
  have hcu : Unshared (ofObjects [v.stripped]) := unshared_ofObjects (forall_mem_singleton.2 rfl)
  have hd : Kept (ofObjects [v]) := (ofObjects_built (forall_mem_singleton.2 hv.fits)).kept
  have hle := h.kept.covered_single hst hcon
  have hdr := Kept.drawnAll _ h.kept h.whole hc.ok hle
  -- the disk a volume is made of is not shared
  have hcopies : ∀ token, content (r.minus (ofObjects [v.stripped])) (.copies token) = content r (.copies token) := by
    intro token
    rw [(hdr.content (.copies token)).exactly (.inl id), hcu.copies, sub_zero]
  rw [hr]
  refine ⟨h.replaced hc.ok hd.ok (forall_ofObjects scalarDisk_setValue (forall_mem_singleton.2 hds)), fun token => ?_,
    fun name => ?_⟩
  · rw [(Kept.plus _ hdr.kept hd.ok).2 (.copies token) False.elim, hcopies]
    rfl
  · have hminus := (Kept.total_minus name .scalar _ h.kept h.whole hc.ok hcu hle).exactly rfl
    have hstripped := (total_ofObjects_single hst name .scalar).scalar rfl
    have hheld : (of v.stripped).held name .scalar = (of v).held name .scalar := rfl
    rw [Kept.total_plus_counted name _ hdr.kept hd, hminus, hstripped, hheld, ofObjects_single hv]
    cases he : v.isEmpty with
    | true =>
      rw [if_pos rfl, counted_nil, total_nil, held_of_empty (validate_value hv.valid hv.fits) he, ite_self]
      omega
    | false =>
      have hof : (of v).resource = v := rfl
      rw [if_neg (by decide), total_counted_cons, counted_nil, total_nil, hof, hcopies]
      split_ifs <;> omega

end

/-- No shared volume of the list has a copy in `r` or comes before in the list; one that is empty is passed over. -/
structure Fresh (r : Resources) (volumes : List Resource) : Prop where
  absent : ∀ v ∈ volumes, v.shared = true → v.isEmpty = false → content r (.copies v.token) = 0
  apart : volumes.Pairwise fun v w => v.shared = true → v.isEmpty = false → v.token ≠ w.token

structure Creatable (r : Resources) (volumes : List Resource) : Prop where
  steady : Steady r
  sound : ∀ v ∈ volumes, v.Sound
  disks : ∀ v ∈ volumes, v.disk.isSome = true → v.value.type = .scalar

theorem content_copies_single {v w : Resource} (hv : v.Sound) :
    content (ofObjects [v]) (.copies w.token) =
      if v.isEmpty = false ∧ v.shared = true ∧ v.token = w.token then 1 else 0 := by
  rw [ofObjects_single hv]
  cases he : v.isEmpty with
  | true => simp
  | false =>
    rw [if_neg (by decide), content_cons, content_nil, add_zero]
    show (if v.shared = true ∧ v.token = w.token then (of v).count else 0) = _
    by_cases hvw : v.shared = true ∧ v.token = w.token
    · rw [if_pos hvw, if_pos ⟨rfl, hvw⟩]
      simp [Resource_.count, of, hvw.1]
    · rw [if_neg hvw, if_neg fun h => hvw h.2]

theorem Creatable.step {v : Resource} {rest : List Resource} {result : Resources} (h : Creatable r (v :: rest))
    (hap : (ofCreate v).apply r = .ok result) : Creatable result rest ∧ Created r v result := by
  obtain ⟨hv, hso⟩ := forall_mem_cons.1 h.sound
  obtain ⟨hds, hdi⟩ := forall_mem_cons.1 h.disks
  have hcr := h.steady.create hv hds hap
  exact ⟨⟨hcr.steady, hso, hdi⟩, hcr⟩

theorem isEmpty_congr_token {v w : Resource} (hv : v.Sound) (hw : w.Sound) (h : v.token = w.token) :
    v.isEmpty = w.isEmpty := by
  have hvo := validate_value hv.valid hv.fits
  have hwo := validate_value hw.valid hw.fits
  rw [Bool.eq_iff_iff]
  show v.value.isEmpty = true ↔ w.value.isEmpty = true
  rw [Value.isEmpty_iff hvo, Value.isEmpty_iff hwo]
  have hamount : ∀ p, v.value.amount p = w.value.amount p := fun p => by
    rw [← Value.amount_normal hvo, ← Value.amount_normal hwo]
    exact congrArg (Value.amount · p) (congrArg Token.value h)
  simp only [hamount]

/-- The rest of the volumes is fresh after one of them exactly if they are before, and it is not among them. -/
theorem Created.fresh_iff {v : Resource} {rest : List Resource} (h : Created r v result) (hk : Kept r)
    (hso : ∀ w ∈ v :: rest, w.Sound) (hfirst : v.shared = true → v.isEmpty = false → content r (.copies v.token) = 0) :
    Fresh result rest ↔ Fresh r (v :: rest) := by
  obtain ⟨hv, hso⟩ := forall_mem_cons.1 hso
  have hcopies : ∀ w : Resource, content result (.copies w.token) = 0 ↔ content r (.copies w.token) = 0 ∧
      ¬ (v.isEmpty = false ∧ v.shared = true ∧ v.token = w.token) := fun w => by
    have hnn := content_nonneg hk.ok (.copies w.token)
    rw [h.copies, content_copies_single hv]
    split_ifs with hvw
    · exact iff_of_false (by omega) fun h => h.2 hvw
    · rw [add_zero, and_iff_left hvw]
  constructor
  · intro hf
    refine ⟨forall_mem_cons.2 ⟨hfirst, fun w hw hs he => ((hcopies w).1 (hf.absent w hw hs he)).1⟩,
      pairwise_cons.2 ⟨fun w hw hs he ht => ?_, hf.apart⟩⟩
    -- a volume that is the same as `v` is shared and not empty as well
    have hws : w.shared = true := (shared_congr (congrArg Token.kind ht)).symm.trans hs
    have hwe : w.isEmpty = false := (isEmpty_congr_token hv (hso w hw) ht).symm.trans he
    exact ((hcopies w).1 (hf.absent w hw hws hwe)).2 ⟨he, hs, ht⟩
  · intro hf
    obtain ⟨-, habsent⟩ := forall_mem_cons.1 hf.absent
    obtain ⟨hapart, hpairs⟩ := pairwise_cons.1 hf.apart
    exact ⟨fun w hw hs he => (hcopies w).2 ⟨habsent w hw hs he, fun hvw => hapart w hw hvw.2.1 hvw.1 hvw.2.2⟩, hpairs⟩

theorem Steady.create_sameQuantities {v : Resource} (h : Steady r) (hv : v.Sound) (hap : (ofCreate v).apply r = .ok result)
    (hf : v.shared = true → v.isEmpty = false → content r (.copies v.token) = 0) : SameQuantities result r := by
  obtain ⟨hcon, hr, -⟩ := apply_ok hap
  change result = (r.minus (ofObjects [v.stripped])).plus (ofObjects [v]) at hr
  have hst := hv.stripped
  have hc : Kept (ofObjects [v.stripped]) := (ofObjects_built (forall_mem_singleton.2 hst.fits)).kept
  have hcu : Unshared (ofObjects [v.stripped]) := unshared_ofObjects (forall_mem_singleton.2 rfl)
  have hle := h.kept.covered_single hst hcon
  have hdr := Kept.drawnAll _ h.kept h.whole hc.ok hle
  rw [hr]
  refine sameQuantities_exchange (fun name p => Kept.total_minus name p _ h.kept h.whole hc.ok hcu hle)
    (fun name p => ?_) (fun name p => Kept.total_le name p _ h.kept hc hle) (d := ofObjects [v]) ?_
  · rw [ofObjects_single hv]
    cases he : v.isEmpty with
    | true =>
      have := joins_of_add p (total_nonneg hdr.kept.ok name p) (le_refl 0)
      rwa [add_zero] at this
    | false =>
      rw [if_neg (by decide), total_cons, total_nil, add_zero]
      refine hdr.kept.total_add (ok_of_sound hv he) (fun hs => ?_) name p
      refine not_alike_of_copies hdr.kept.ok hs (le_antisymm ?_ (content_nonneg hdr.kept.ok _))
      exact le_trans (hdr.content _).atMost (hf hs he).le
  · exact sameQuantities_of_joins (total_ofObjects_single hst) (total_ofObjects_single hv) (fun _ => rfl)
      fun _ _ => .rfl

/-- A shared volume is a persistent one, and so a scalar, of which there is some. -/
theorem held_pos_of_shared {v : Resource} (hv : v.Sound) (hds : v.disk.isSome = true → v.value.type = .scalar)
    (hs : v.shared = true) (he : v.isEmpty = false) : 0 < (of v).held v.name .scalar := by
  refine held_pos_of_scalar (x := of v) (validate_value hv.valid hv.fits) he (hds ?_)
  have hvalid := hv.valid
  simp only [Resource.validate, Option.orElse_eq_none] at hvalid
  have hshared := hvalid.2.2.2.2
  unfold validateShared at hshared
  cases hd : v.disk with
  | some => rfl
  | none =>
    simp only [hs, isPersistentVolume, hd] at hshared
    split_ifs at hshared <;> contradiction

/-- **A CREATE that goes through never adds to a total, and keeps them all exactly if its shared volumes are fresh.** -/
theorem Creatable.run : ∀ (volumes : List Resource) {r result : Resources}, Creatable r volumes →
    r.applyAll (volumes.map ofCreate) = .ok result → Steady result ∧
      (∀ name, total result name .scalar ≤ total r name .scalar) ∧
      ((∀ name, total result name .scalar = total r name .scalar) → Fresh r volumes) ∧
      (Fresh r volumes → SameQuantities result r)
  | [], r, result, h, happly => by
    cases happly
    exact ⟨h.steady, fun _ => le_refl _, fun _ => ⟨forall_mem_nil _, .nil⟩, fun _ _ => ⟨rfl, fun _ => .rfl⟩⟩
  | v :: volumes, r, result, h, happly => by
    rw [map_cons, applyAll] at happly
    cases hv : (ofCreate v).apply r with
    | error =>
      rw [hv] at happly
      cases happly
    | ok next =>
      rw [hv] at happly
      obtain ⟨hnext, hcr⟩ := h.step hv
      obtain ⟨hsteady, hle, hfresh, hsame⟩ := Creatable.run volumes hnext happly
      have hvs := h.sound v mem_cons_self
      have hfall : ∀ name, total next name .scalar ≤ total r name .scalar := fun name => by
        have hnn : 0 ≤ (of v).held name .scalar := by
          show 0 ≤ if v.name = name then v.value.amount .scalar else 0
          split_ifs
          · exact Value.amount_nonneg (validate_value hvs.valid hvs.fits) .scalar
          · exact le_refl 0
        have := hcr.total name
        split_ifs at this <;> omega
      refine ⟨hsteady, fun name => (hle name).trans (hfall name), fun heq => ?_, fun hf => ?_⟩
      · -- no step can make up for what another has lost
        have hstep : ∀ name, total next name .scalar = total r name .scalar := fun name =>
          le_antisymm (hfall name) ((heq name).symm.le.trans (hle name))
        have hfirst : v.shared = true → v.isEmpty = false → content r (.copies v.token) = 0 := fun hs he => by
          have hpos := held_pos_of_shared hvs (h.disks v mem_cons_self) hs he
          have hnn := content_nonneg h.steady.kept.ok (.copies v.token)
          have htotal := hcr.total v.name
          by_contra hne
          rw [if_pos ⟨hs, by omega⟩, hstep] at htotal
          omega
        exact (hcr.fresh_iff h.steady.kept h.sound hfirst).1 (hfresh fun name => (heq name).trans (hstep name).symm)
      · have hfirst := hf.absent v mem_cons_self
        have hrest := (hcr.fresh_iff h.steady.kept h.sound hfirst).2 hf
        exact (hsame hrest).trans (h.steady.create_sameQuantities hvs hv hfirst)

/-! ## DESTROY -/

theorem Steady.destroy (h : Steady r) (v : Resource) (hv : v.Sound)
    (hap : (ofDestroy v).apply r = .ok result) : Steady result ∧ SameQuantities result r := by
  obtain ⟨hco, hr, hpo⟩ := apply_ok hap
  have hst := hv.stripped
  have hc : Kept (ofObjects [v]) := (ofObjects_built (forall_mem_singleton.2 hv.fits)).kept
  have hd : Kept (ofObjects [v.stripped]) := (ofObjects_built (forall_mem_singleton.2 hst.fits)).kept
  have hdu : Unshared (ofObjects [v.stripped]) := unshared_ofObjects (forall_mem_singleton.2 rfl)
  have hle := h.kept.covered_single hv hco
  have hdr := Kept.drawnAll _ h.kept h.whole hc.ok hle
  have hab : result.containsObject v = false := by
    cases hpr : result.containsObject v with
    | false => rfl
    | true => simp [ofDestroy, hpr] at hpo
  change result = (r.minus (ofObjects [v])).plus (ofObjects [v.stripped]) at hr
  have hen : v.isEmpty = false → of v ∈ ofObjects [v] := fun hem => by
    rw [ofObjects_single hv, hem]
    exact mem_singleton_self _
  refine ⟨?_, sameQuantities_exchange (m := r.minus (ofObjects [v])) (d := ofObjects [v.stripped])
    (fun name p => ?_) (fun name p => ?_) (fun name p => Kept.total_le name p _ h.kept hc hle) ?_⟩
  · rw [hr]
    refine h.replaced hc.ok hd.ok fun _ he hdi => ?_
    rw [ofObjects_single hst] at he
    split_ifs at he with hem
    · cases he
    have hn : v.isEmpty = false := Bool.eq_false_iff.2 hem
    obtain ⟨_, hy, ha⟩ := h.kept.alike_of_single hv hco _ (hen hn)
    have hsc : v.disk.isSome = true → v.value.type = .scalar := h.disk_of_alike hy ha
    rw [mem_singleton.1 he] at hdi ⊢
    refine hsc ?_
    cases hd : v.disk with
    | some => rfl
    | none => simp [of, stripped, hd] at hdi
  · cases hem : v.isEmpty with
    | true =>
      rw [ofObjects_single hv, hem]
      exact takes_of_eq (le_refl 0) (sub_zero (total r name p)).symm
    | false =>
      have hok := ok_of_sound hv hem
      have hhe : r.holds (.of v) = true := (h.kept.holds_iff hok).2 fun s =>
        le_trans (weight_le_content hc.ok (hen hem) s) (hle s)
      have hl : v.shared = true → ∀ x ∈ r, x.Alike (of v) → x.count = (of v).count := by
        intro hs x hx ha
        have hone : (Resource_.of v).count = 1 := by simp [Resource_.of, Resource_.count, hs]
        have hxs : x.resource.shared = true := (shared_congr ha.1).trans hs
        have hcou := (h.kept.ok x hx).counted ((h.kept.ok x hx).shared.trans hxs)
        -- another copy would have been found afterwards
        by_contra hm
        have hh : result.holds (.of v) = true := by
          rw [hr]
          refine ((Kept.plus _ hdr.kept hd.ok).1.holds_iff hok).2 fun s => ?_
          rw [weight_of_shared hs]
          split_ifs with hsl
          · subst hsl
            rw [(Kept.plus _ hdr.kept hd.ok).2 (.copies (of v).resource.token) False.elim]
            have h1 := (hdr.content (.copies (of v).resource.token)).atLeast
            have h2 := weight_le_content h.kept.ok hx (.copies (of v).resource.token)
            have h3 := content_nonneg hd.ok (.copies (of v).resource.token)
            have h4 : content (ofObjects [v]) (.copies (of v).resource.token) = 1 := by
              rw [ofObjects_single hv, hem, if_neg (by decide), content_cons, content_nil, add_zero,
                weight_of_shared hs, if_pos rfl, hone]
            rw [weight_of_shared hxs, ha.token (isPlain_eq_false.2 (.inr hxs)), if_pos rfl] at h2
            simp only [joined]
            omega
          · exact content_nonneg (Kept.plus _ hdr.kept hd.ok).1.ok s
        rw [containsObject, hv.valid, hh] at hab
        cases hab
      have hsi : r.minus (ofObjects [v]) = r.subtract (.of v) := by
        rw [ofObjects_single hv, hem]
        rfl
      have ht : total (ofObjects [v]) name p = (of v).held name p := by
        rw [ofObjects_single hv, hem, if_neg (by decide), total_cons, total_nil, add_zero]
      rw [hsi, ht]
      exact h.kept.total_subtract h.whole hok hhe hl name p
  · rw [hr]
    exact Kept.total_plus name p _ hdr.kept hd.ok hdu
  · exact sameQuantities_of_joins (total_ofObjects_single hv) (total_ofObjects_single hst) (fun _ => rfl)
      fun _ _ => .rfl

/-! ## RESERVE, GROW_VOLUME and SHRINK_VOLUME -/

theorem Steady.reserve_iff (h : Steady r) (hpo : PortsBelow r) {objects : List Resource}
    (hso : ∀ o ∈ objects, o.Sound) (hs : ∀ o ∈ objects, o.shared = false) :
    Settles r [{ consumed := plus [] ((ofObjects objects).map pop), converted := ofObjects objects }] ↔
      (r.contains (plus [] ((ofObjects objects).map pop)) = true →
        NoExtra r (plus [] ((ofObjects objects).map pop))) := by
  have hd : Kept (ofObjects objects) := (ofObjects_built fun o ho => (hso o ho).fits).kept
  have hdu : Unshared (ofObjects objects) := unshared_ofObjects hs
  have hcu : Unshared (plus [] ((ofObjects objects).map pop)) :=
    forall_plus (P := (·.shared = false)) (fun _ _ _ h => h) _ (forall_mem_nil _) (map_pop_unshared hdu)
  exact h.settles_iff hpo (Kept.plus _ kept_nil (map_pop_ok hd.ok)).1 hcu hd.ok hdu (sameQuantities_pop hd.ok hdu)

theorem held_setScalar (h : o.value.type = .scalar) (x : Int) (name : String) (p : Point) :
    (of (o.setScalar x)).held name p = if o.name = name ∧ p = .scalar then x else 0 := by
  have hset : o.setScalar x = { o with value := .scalar x } := by
    unfold setScalar
    cases hv : o.value with
    | scalar => rfl
    | _ =>
      rw [hv] at h
      cases h
  rw [hset]
  show (if o.name = name then Value.amount (.scalar x) p else 0) = _
  cases p <;> simp [Value.amount]

theorem setScalar_scalar (o : Resource) : o.setScalar o.scalar = o := by
  unfold setScalar scalar
  cases hv : o.value with
  | scalar => simp only [← hv]
  | _ => rfl

theorem setScalar_shared (o : Resource) (x : Int) : (o.setScalar x).shared = o.shared := by
  unfold setScalar
  split <;> rfl

theorem scalar_nonneg (h : o.Sound) : 0 ≤ o.scalar := by
  have hv := validate_value h.valid h.fits
  unfold scalar
  split
  next hx =>
    rw [hx] at hv
    exact hv
  · exact le_refl 0

variable {volume : Resource}

theorem Steady.grow_iff (h : Steady r) (hpo : PortsBelow r) {addition : Resource} (hv : volume.Sound)
    (ha : addition.Sound) (hvs : volume.shared = false) (has : addition.shared = false)
    (hvt : volume.value.type = .scalar) (hat : addition.value.type = .scalar) (hna : addition.name = volume.name) :
    Settles r [{ consumed := ofObjects [volume, addition]
                 converted := ofObjects [volume.setScalar (volume.scalar + addition.scalar)] }] ↔
      (r.contains (ofObjects [volume, addition]) = true → NoExtra r (ofObjects [volume, addition])) := by
  have hg := hv.setScalar (Int.add_nonneg (scalar_nonneg hv) (scalar_nonneg ha))
  have hgs := (setScalar_shared volume (volume.scalar + addition.scalar)).trans hvs
  have hh : ∀ name p, (of (volume.setScalar (volume.scalar + addition.scalar))).held name p =
      (of volume).held name p + (of addition).held name p := fun name p => by
    have h1 := held_setScalar hvt volume.scalar name p
    have h2 := held_setScalar hat addition.scalar name p
    rw [setScalar_scalar volume] at h1
    rw [setScalar_scalar addition, hna] at h2
    rw [held_setScalar hvt, h1, h2]
    split_ifs <;> rfl
  refine h.settles_iff hpo (ofObjects_built ?_).kept (unshared_ofObjects ?_) (ofObjects_built ?_).kept.ok
    (unshared_ofObjects (forall_mem_singleton.2 hgs)) (sameQuantities_of_joins (total_ofObjects_pair hv ha has)
      (total_ofObjects_single hg) (fun name => (hh name _).symm) fun _ _ => by rw [hh])
  · exact forall_mem_cons.2 ⟨hv.fits, forall_mem_singleton.2 ha.fits⟩
  · exact forall_mem_cons.2 ⟨hvs, forall_mem_singleton.2 has⟩
  · exact forall_mem_singleton.2 hg.fits

theorem Steady.shrink_iff (h : Steady r) (hpo : PortsBelow r) {subtract : Int}
    (hv : volume.Sound) (hvs : volume.shared = false) (hvt : volume.value.type = .scalar) (hn : 0 ≤ subtract)
    (hle : subtract ≤ volume.scalar) :
    Settles r [{ consumed := ofObjects [volume]
                 converted := ofObjects [volume.setScalar (volume.scalar - subtract),
                   (volume.setScalar subtract).stripped] }] ↔
      (r.contains (ofObjects [volume]) = true → NoExtra r (ofObjects [volume])) := by
  have hs := hv.setScalar (Int.sub_nonneg_of_le hle)
  have hf := (hv.setScalar hn).stripped
  have hh : ∀ name p, (of volume).held name p = (of (volume.setScalar (volume.scalar - subtract))).held name p +
        (of (volume.setScalar subtract).stripped).held name p := fun name p => by
    have h1 := held_setScalar hvt volume.scalar name p
    have h2 : (of (volume.setScalar subtract).stripped).held name p = _ := held_setScalar hvt subtract name p
    rw [setScalar_scalar volume] at h1
    rw [held_setScalar hvt, h1, h2]
    split_ifs <;> omega
  refine h.settles_iff hpo (ofObjects_built ?_).kept (unshared_ofObjects (forall_mem_singleton.2 hvs))
    (ofObjects_built ?_).kept.ok (unshared_ofObjects ?_) (sameQuantities_of_joins (total_ofObjects_single hv)
      (total_ofObjects_pair hs hf rfl) (fun name => hh name _) fun _ _ => by rw [hh])
  · exact forall_mem_singleton.2 hv.fits
  · exact forall_mem_cons.2 ⟨hs.fits, forall_mem_singleton.2 hf.fits⟩
  · exact forall_mem_cons.2 ⟨(setScalar_shared _ _).trans hvs, forall_mem_singleton.2 rfl⟩

/-! ## All operations -/

def objects : Operation → List Resource
  | .reserve resources source => resources ++ source
  | .unreserve resources => resources
  | .create volumes => volumes
  | .destroy volumes => volumes
  | .growVolume volume addition => [volume, addition]
  | .shrinkVolume volume _ => [volume]
  | _ => []

/-- What an operation has been checked for before it is applied: what is reserved or unreserved has a reservation, no
shared volume is reserved, unreserved or resized, what is created on a disk is a scalar, a volume grows by its own kind of
scalar and shrinks by no more than it is. A RESERVE has a source of the same quantities, if any. -/
def Checked : Operation → Prop
  | .reserve resources source => (∀ o ∈ resources ++ source, o.shared = false) ∧
      (source = [] → ∀ o ∈ resources, o.isReserved = true) ∧
      (source ≠ [] → SameQuantities (ofObjects source) (ofObjects resources))
  | .unreserve resources => ∀ o ∈ resources, o.shared = false ∧ o.isReserved = true
  | .create volumes => ∀ v ∈ volumes, v.disk.isSome = true → v.value.type = .scalar
  | .growVolume volume addition => volume.shared = false ∧ addition.shared = false ∧
      volume.value.type = .scalar ∧ addition.value.type = .scalar ∧ addition.name = volume.name
  | .shrinkVolume volume subtract => volume.shared = false ∧ volume.value.type = .scalar ∧ 0 ≤ subtract ∧
      subtract ≤ volume.scalar
  | _ => True

/-- A CREATE that goes through puts no shared volume where a copy of it is, or where it has just put one. -/
def CreatesFresh (r : Resources) : Operation → Prop
  | .create volumes => (∃ result, r.applyAll (volumes.map ofCreate) = .ok result) →
      (∀ v ∈ volumes, v.shared = true → v.isEmpty = false → ∀ x ∈ r, x.resource.same v = false) ∧
        volumes.Pairwise fun v w => v.shared = true → v.isEmpty = false → v.same w = false
  | _ => True

theorem fresh_iff_same (hr : Ok r) {volumes : List Resource} (hso : ∀ v ∈ volumes, v.Sound) : Fresh r volumes ↔
    (∀ v ∈ volumes, v.shared = true → v.isEmpty = false → ∀ x ∈ r, x.resource.same v = false) ∧
      volumes.Pairwise fun v w => v.shared = true → v.isEmpty = false → v.same w = false := by
  have hsame : ∀ {o v : Resource}, o.value.Ok → o.Distinct → v ∈ volumes → (o.same v = true ↔ o.token = v.token) :=
    fun {o v} ho hd hv => by
      rw [same_iff hd (hso v hv).fits.2, Value.same_iff ho (validate_value (hso v hv).valid (hso v hv).fits), token, token,
        Token.mk.injEq]
  constructor
  · intro hf
    refine ⟨fun v hv hs he x hx => Bool.eq_false_iff.2 fun hsa => ?_, hf.apart.imp_of_mem fun {v w} hv hw h hs he => ?_⟩
    · have ht := (hsame (hr x hx).value (hr x hx).distinct hv).1 hsa
      have hxs : x.resource.shared = true := (shared_congr (congrArg Token.kind ht)).trans hs
      exact not_alike_of_copies (e := of v) hr hs (hf.absent v hv hs he) x hx (alike_of_token ht)
    · refine Bool.eq_false_iff.2 fun hsa => h hs he ?_
      exact (hsame (validate_value (hso v hv).valid (hso v hv).fits) (hso v hv).fits.2 hw).1 hsa
  · rintro ⟨habsent, hapart⟩
    refine ⟨fun v hv hs he => of_not_not fun hne => ?_, hapart.imp_of_mem fun {v w} hv hw h hs he ht => ?_⟩
    · obtain ⟨x, hx, hxs⟩ := exists_weight_ne_zero hne
      have hsl := of_not_not fun h => hxs (if_neg h)
      have := (hsame (hr x hx).value (hr x hx).distinct hv).2 hsl.2
      cases (habsent v hv hs he x hx).symm.trans this
    · have := (hsame (validate_value (hso v hv).valid (hso v hv).fits) (hso v hv).fits.2 hw).2 ht
      cases (h hs he).symm.trans this

def Spared (r : Resources) (operation : Operation) : Prop :=
  ∀ conversions, getResourceConversions operation = some (.ok conversions) →
    ∀ c ∈ conversions, r.contains c.consumed = true → NoExtra r c.consumed

theorem conserves_of_error {message : String} (h : getResourceConversions operation = some (.error message))
    (hfresh : CreatesFresh r operation) : Conserves r operation ↔ Spared r operation ∧ CreatesFresh r operation := by
  rw [and_iff_left hfresh]
  refine iff_of_true ?_ fun _ h' => ?_
  · rw [Conserves, apply, h]
    trivial
  · rw [h] at h'
    cases h'

theorem conserves_of_singles (h : getResourceConversions operation = some (.ok conversions)) (hk : Kept r)
    (hfresh : CreatesFresh r operation) (hs : Settles r conversions)
    (hsi : ∀ c ∈ conversions, ∃ o : Resource, o.Sound ∧ c.consumed = ofObjects [o]) :
    Conserves r operation ↔ Spared r operation ∧ CreatesFresh r operation := by
  rw [and_iff_left hfresh]
  refine iff_of_true ((conserves_iff_settles h).2 hs) fun _ h' c hc hco => ?_
  rw [h] at h'
  obtain ⟨_, ho, heq⟩ := hsi c (by cases h'; exact hc)
  rw [heq] at hco ⊢
  exact noExtra_single hk ho hco

theorem conserves_of_one {conversion : ResourceConversion}
    (h : getResourceConversions operation = some (.ok [conversion])) (hfresh : CreatesFresh r operation)
    (hiff : Settles r [conversion] ↔ (r.contains conversion.consumed = true → NoExtra r conversion.consumed)) :
    Conserves r operation ↔ Spared r operation ∧ CreatesFresh r operation := by
  rw [and_iff_left hfresh, conserves_iff_settles h, hiff]
  constructor
  · intro he _ h' _ hc
    rw [h] at h'
    cases h'
    rw [mem_singleton.1 hc]
    exact he
  · intro hall
    exact hall [conversion] h conversion (mem_singleton_self _)

def reservedDisk : Resource := { mountDisk with reservations := [{ type := .dynamic, role := "role" }] }

theorem reservedDisk_sound : reservedDisk.Sound := ⟨by decide, trivial, by decide⟩

/-- The disk that two copies of the shared volume are made of. -/
def volumeDisk : Resource := { sharedVolume.stripped with value := .scalar 2000 }

end Resources
end Clusterd.Common
