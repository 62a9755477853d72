import Clusterd.Fallible
import Clusterd.GroupProcess
/-!
# Watches and the cache

A valid cache was read after the last change, or an event that tells of it is on its way; an invalid one will be filled by a
retry or such an event.  The pending watches expect what the cache holds, as long as every path that fills it notifies them.
`watch` does not: it may fill the cache for one client and leave another waiting.
-/
namespace Clusterd.Group

open List World

/-! ## The server -/

structure Later (s s' : Server) : Prop where
  fired : s.fired ≤ s'.fired
  armed : s.armed = true → s'.armed = true ∧ s'.children = s.children ∨ s.fired < s'.fired

structure Changed (s s' : Server) : Prop where
  fired : s.fired ≤ s'.fired
  armed : s.armed = true → s.fired < s'.fired

variable {s s' : Server}

theorem Changed.later (h : Changed s s') : Later s s' := ⟨h.fired, fun ha => .inr (h.armed ha)⟩

theorem Later.refl (s : Server) : Later s s := ⟨le_rfl, fun h => .inl ⟨h, rfl⟩⟩

variable {s'' : Server}

theorem Later.trans (h : Later s s') (h' : Later s' s'') : Later s s'' := by
  refine ⟨h.fired.trans h'.fired, fun ha => ?_⟩
  rcases h.armed ha with ⟨ha', hc⟩ | hlt
  · rcases h'.armed ha' with ⟨ha'', hc'⟩ | hlt
    · exact .inl ⟨ha'', hc'.trans hc⟩
    · exact .inr (h.fired.trans_lt hlt)
  · exact .inr (hlt.trans_le h'.fired)

theorem Later.changed (h : Later s s') (h' : Changed s' s'') : Changed s s'' := by
  refine ⟨h.fired.trans h'.fired, fun ha => ?_⟩
  rcases h.armed ha with ⟨ha', -⟩ | hlt
  · exact h.fired.trans_lt (h'.armed ha')
  · exact hlt.trans_le h'.fired

theorem Changed.trans (h : Changed s s') (h' : Later s' s'') : Changed s s'' :=
  ⟨h.fired.trans h'.fired, fun ha => (h.armed ha).trans_le h'.fired⟩

theorem changed_fire (s : Server) : Changed s s.fire := by
  cases ha : s.armed with
  | true =>
    have hf : s.fire = { s with armed := false, fired := s.fired + 1 } := by rw [Server.fire, ha]; rfl
    rw [hf]
    exact ⟨Nat.le_succ _, fun _ => Nat.lt_succ_self _⟩
  | false =>
    have hf : s.fire = s := by rw [Server.fire, ha]; rfl
    rw [hf]
    exact ⟨le_rfl, fun h => nomatch ha.symm.trans h⟩

theorem changed_create (s : Server) : Changed s s.create := ⟨(changed_fire s).fired, (changed_fire s).armed⟩

theorem changed_remove (s : Server) (membership : Membership) : Changed s (s.remove membership) :=
  ⟨(changed_fire s).fired, (changed_fire s).armed⟩

theorem later_change (s : Server) (change : Change) : Later s (s.change change) := by
  cases change with
  | join => exact (changed_create s).later
  | leave membership =>
    rw [Server.change]
    split
    · exact (changed_remove s membership).later
    · exact .refl s
  | other => exact (changed_fire s).later

theorem later_changes : ∀ (changes : List Change) (s : Server), Later s (changes.foldl Server.change s)
  | [], s => .refl s
  | change :: changes, s => (later_change s change).trans (later_changes changes _)

def Server.Active (s : Server) : Prop := s.armed = true ∨ 0 < s.fired

theorem active_of_fire (h : s.fire.Active) : s.Active := by
  cases ha : s.armed with
  | true => exact .inl ha
  | false =>
    rw [Server.fire, ha] at h
    exact h

theorem active_of_changes : ∀ (changes : List Change) {s : Server}, (changes.foldl Server.change s).Active → s.Active
  | [], _, h => h
  | change :: changes, s, h => by
    have hc : (s.change change).Active := active_of_changes changes h
    cases change with
    | join | other => exact active_of_fire hc
    | leave =>
      rw [Server.change] at hc
      split at hc
      · exact active_of_fire hc
      · exact hc

/-! ## What helpers keep -/

def Retryable (calls : List Call) : Prop := ∀ call ∈ calls, ∀ message, call.outcome ≠ .failed message

instance (calls : List Call) : Decidable (Retryable calls) :=
  decidable_of_iff (∀ call ∈ calls, call.outcome = .ok ∨ call.outcome = .retryable) (forall₂_congr fun call _ => by
    cases call.outcome <;> simp)

structure Base (w w' : World) : Prop where
  error : w'.error = w.error
  connectTimer : w'.connectTimer = w.connectTimer
  retrying : w'.retrying = w.retrying
  timers : w'.timers = w.timers
  watches : w'.watches = w.watches
  detector : w'.detector = w.detector
  history : w'.history = w.history
  server : Later w.server w'.server
  calls : Retryable w.calls → Retryable w'.calls

theorem Base.refl (w : World) : Base w w := ⟨rfl, rfl, rfl, rfl, rfl, rfl, rfl, .refl _, id⟩

variable {w w' w'' : World}

theorem Base.trans (h : Base w w') (h' : Base w' w'') : Base w w'' :=
  ⟨h'.error.trans h.error, h'.connectTimer.trans h.connectTimer, h'.retrying.trans h.retrying,
    h'.timers.trans h.timers, h'.watches.trans h.watches, h'.detector.trans h.detector, h'.history.trans h.history,
    h.server.trans h'.server, h'.calls ∘ h.calls⟩

structure Kept (w w' : World) : Prop extends Base w w' where
  memberships : w'.memberships = w.memberships ∨ w'.memberships = none ∧ Changed w.server w'.server
  state : w'.state = w.state
  active : w'.server.Active → w.server.Active

theorem Kept.refl (w : World) : Kept w w := ⟨.refl w, .inl rfl, rfl, id⟩

theorem Kept.trans (h : Kept w w') (h' : Kept w' w'') : Kept w w'' := by
  refine ⟨h.toBase.trans h'.toBase, ?_, h'.state.trans h.state, h.active ∘ h'.active⟩
  rcases h'.memberships with heq' | ⟨hno', hch'⟩
  · rcases h.memberships with heq | ⟨hno, hch⟩
    · exact .inl (heq'.trans heq)
    · exact .inr ⟨heq'.trans hno, hch.trans h'.server⟩
  · exact .inr ⟨hno', h.server.changed hch'⟩

theorem call_spec (w : World) : Kept w w.call.1 ∧ w.call.1.memberships = w.memberships ∧
    (Retryable w.calls → ∀ message, w.call.2 ≠ .failed message) := by
  unfold call
  split
  · exact ⟨.refl w, rfl, fun _ _ => nofun⟩
  next call calls hca =>
    have hl := later_changes call.changes w.server
    have ha : (call.changes.foldl Server.change w.server).Active → w.server.Active := active_of_changes call.changes
    refine ⟨⟨⟨rfl, rfl, rfl, rfl, rfl, rfl, rfl, hl, fun h c hc => h c ?_⟩, .inl rfl, rfl, ha⟩, rfl, fun h => ?_⟩
    · rw [hca]
      exact mem_cons_of_mem _ hc
    · exact h call (hca ▸ mem_cons_self)

theorem doJoin_spec (w : World) : Kept w w.doJoin.1 := by
  obtain ⟨hk, -, -⟩ := call_spec w
  unfold doJoin
  split
  next hc => rw [hc] at hk; exact hk
  next hc => rw [hc] at hk; exact hk
  next w' hc =>
    rw [hc] at hk
    have hch := changed_create w'.server
    exact hk.trans ⟨⟨rfl, rfl, rfl, rfl, rfl, rfl, rfl, hch.later, id⟩, .inr ⟨rfl, hch⟩, rfl, active_of_fire⟩

theorem doCancel_spec {membership : Membership} {result : Result Bool}
    (h : w.doCancel membership = .ok (w', result)) : Kept w w' := by
  obtain ⟨hk, -, -⟩ := call_spec w
  unfold doCancel at h
  split at h
  next hc => rw [hc] at hk; cases h; exact hk
  next hc => rw [hc] at hk; cases h; exact hk
  next w₁ hc =>
    rw [hc] at hk
    split at h
    · cases h; exact hk
    split at h
    · exact nomatch h
    · cases h
      have hch := changed_remove w₁.server membership
      exact hk.trans ⟨⟨rfl, rfl, rfl, rfl, rfl, rfl, rfl, hch.later, id⟩, .inr ⟨rfl, hch⟩, rfl, active_of_fire⟩

theorem doData_spec (w : World) : Kept w w.doData.1 := by
  obtain ⟨hk, -, -⟩ := call_spec w
  unfold doData
  split <;> next hc => rw [hc] at hk; exact hk

theorem kept_queues (w : World) (joins : List String) (cancels datas : List Membership) :
    Kept w { w with joins, cancels, datas } := ⟨⟨rfl, rfl, rfl, rfl, rfl, rfl, rfl, .refl _, id⟩, .inl rfl, rfl, id⟩

theorem doJoins_spec : ∀ (joins : List String) (w : World), Kept w (w.doJoins joins).1
  | [], w => kept_queues w [] w.cancels w.datas
  | data :: joins, w => by
    have hk := (kept_queues w (data :: joins) w.cancels w.datas).trans (doJoin_spec _)
    rw [doJoins]
    split
    next hj => rw [hj] at hk; exact hk
    next w' _ _ hj => rw [hj] at hk; exact hk.trans (doJoins_spec joins w')

theorem doCancels_spec : ∀ (cancels : List Membership) {w w' : World} {done : Bool},
    w.doCancels cancels = .ok (w', done) → Kept w w'
  | [], w, _, _, h => by cases h; exact kept_queues w w.joins [] w.datas
  | membership :: cancels, w, w', done, h => by
    have hq := kept_queues w w.joins (membership :: cancels) w.datas
    rw [doCancels] at h
    split at h
    · exact nomatch h
    next hc => cases h; exact hq.trans (doCancel_spec hc)
    next hc => exact (hq.trans (doCancel_spec hc)).trans (doCancels_spec cancels h)

theorem doDatas_spec : ∀ (datas : List Membership) (w : World), Kept w (w.doDatas datas).1
  | [], w => kept_queues w w.joins w.cancels []
  | membership :: datas, w => by
    have hk := (kept_queues w w.joins w.cancels (membership :: datas)).trans (doData_spec _)
    rw [doDatas]
    split
    next hd => rw [hd] at hk; exact hk
    next w' _ _ hd => rw [hd] at hk; exact hk.trans (doDatas_spec datas w')

theorem found_eq (sequences owned unowned : Finset Membership) :
    owned.filter (· ∈ sequences) ∪ unowned.filter (· ∈ sequences \ owned.filter (· ∈ sequences)) ∪
      (sequences \ owned.filter (· ∈ sequences)) \ unowned.filter (· ∈ sequences \ owned.filter (· ∈ sequences)) =
        sequences := by
  ext membership
  simp only [Finset.mem_union, Finset.mem_sdiff, Finset.mem_filter]
  tauto

/-- **What `cache` does**: the cache holds the children and the watch is set, or the cache is invalid. -/
inductive Cached (w : World) : World × Except String Bool → Prop
  | filled {w' : World} (base : Base w w') (state : w'.state = w.state)
    (valid : w'.memberships = some w'.server.children) (armed : w'.server.armed = true) : Cached w (w', .ok true)
  | retried {w' : World} (base : Base w w') (state : w'.state = w.state) (invalid : w'.memberships = none) :
    Cached w (w', .ok false)
  | failed {w' : World} {message : String} (calls : ¬ Retryable w.calls) : Cached w (w', .error message)

theorem cache_cached (w : World) : Cached w w.cache := by
  obtain ⟨hk, hno, hr⟩ := call_spec { w with memberships := none }
  have hb : Base w { w with memberships := none } := ⟨rfl, rfl, rfl, rfl, rfl, rfl, rfl, .refl _, id⟩
  unfold cache
  split
  next hc =>
    rw [hc] at hk hno
    exact .retried (hb.trans hk.toBase) hk.state hno
  next message hc =>
    rw [hc] at hr
    exact .failed fun h => hr h message rfl
  next hc =>
    rw [hc] at hk
    refine .filled (hb.trans (hk.toBase.trans ⟨rfl, rfl, rfl, rfl, rfl, rfl, rfl, ?_, id⟩)) hk.state ?_ rfl
    · exact ⟨le_rfl, fun _ => .inl ⟨rfl, rfl⟩⟩
    · exact congrArg some (found_eq _ _ _)

/-! ## Notifying -/

def Involves (watches : List Watch) : Prop := ∃ watch ∈ watches, watch.client = .detector

instance (watches : List Watch) : Decidable (Involves watches) := inferInstanceAs (Decidable (∃ _ ∈ _, _))

theorem foldl_complete (reply : Except String (Finset Membership)) : ∀ (watches : List Watch) (w : World),
    watches.foldl (complete reply) w =
      { w with
        detector := if Involves watches then { w.detector with phase := .replied reply } else w.detector
        history := { w.history with replies := w.history.replies ++ watches.map fun watch => (watch, reply) } }
  | [], w => by
    have hno : ¬ Involves [] := by
      rintro ⟨_, h, -⟩
      exact nomatch h
    rw [map_nil, append_nil]
    rfl
  | ⟨.other, expected⟩ :: watches, w => by
    have hsa : Involves (⟨.other, expected⟩ :: watches) ↔ Involves watches := by
      unfold Involves
      simp
    rw [foldl_cons, complete, foldl_complete reply watches]
    simp [hsa]
  | ⟨.detector, expected⟩ :: watches, w => by
    have hh : Involves (⟨.detector, expected⟩ :: watches) := ⟨_, mem_cons_self, rfl⟩
    rw [foldl_cons, complete, foldl_complete reply watches, if_pos hh, map_cons]
    rw [append_assoc, singleton_append, ite_self]

variable {m : Finset Membership}

/-- **What `update` does**: watches that expect something else are completed. -/
theorem update_eq (h : w.memberships = some m) : w.update = { w with
      watches := w.watches.filter (·.expected = m)
      detector := if Involves (w.watches.filter (·.expected ≠ m)) then { w.detector with phase := .replied (.ok m) }
        else w.detector
      history := { w.history with
        replies := w.history.replies ++ (w.watches.filter (·.expected ≠ m)).map fun watch => (watch, .ok m) } } := by
  unfold update
  split
  next hno => exact nomatch hno.symm.trans h
  next hf =>
    obtain rfl := Option.some.inj (hf.symm.trans h)
    rw [foldl_complete]

/-! ## The invariant -/

section

variable (w : World)

def Fresh : Prop := ∀ m, w.memberships = some m →
  w.state = .ready ∧ (w.server.armed = true ∧ m = w.server.children ∨ 0 < w.server.fired)

def Notified : Prop := ∀ m, w.memberships = some m → ∀ watch ∈ w.watches, watch.expected = m

def Refreshes : Prop := w.retrying = true ∧ 0 < w.timers ∨ 0 < w.server.fired

def Usable : Prop := w.error = none ∧ w.connectTimer = false

def Tended : Prop := w.memberships = none → Usable w → Refreshes w

def own : List Watch := w.watches.filter (·.client = .detector)

def Following : Prop :=
  match w.detector.phase with
  | .requesting expected => own w = [] ∧ w.detector.leader = elect expected
  | .waiting => ∃ expected, own w = [⟨.detector, expected⟩] ∧ w.detector.leader = elect expected
  | .replied reply => own w = [] ∧ ∃ m, reply = .ok m
  | .failed => False

def Accounted : Prop :=
  (w.watches ++ w.history.replies.map Prod.fst).Perm w.history.asked ∧
    ∀ reply ∈ w.history.replies, ∃ m, reply.2 = .ok m ∧ m ≠ reply.1.expected

def Linked : Prop := w.state = .connected ∨ w.state = .authenticated ∨ w.state = .ready

end

structure Steady (w : World) : Prop where
  following : Following w
  accounted : Accounted w
  timers : w.retrying = true → 0 < w.timers
  error : w.error = none
  linked : w.connectTimer = false → Linked w

structure Core (w : World) : Prop extends Steady w where
  fresh : Fresh w
  active : w.server.Active → w.state = .ready

structure Sound (w : World) : Prop extends Core w where
  notified : Notified w
  tended : Tended w

theorem Later.listed {s s' : Server} (h : Later s s') {m : Finset Membership}
    (hf : s.armed = true ∧ m = s.children ∨ 0 < s.fired) : s'.armed = true ∧ m = s'.children ∨ 0 < s'.fired := by
  rcases hf with ⟨ha, rfl⟩ | hfi
  · rcases h.armed ha with ⟨ha', hc⟩ | hlt
    · exact .inl ⟨ha', hc.symm⟩
    · exact .inr (Nat.zero_lt_of_lt hlt)
  · exact .inr (hfi.trans_le h.fired)

theorem Kept.fresh (h : Kept w w') (hw : Fresh w) : Fresh w' := by
  intro m hm
  rcases h.memberships with heq | ⟨hno, -⟩
  · obtain ⟨hr, hf⟩ := hw m (heq.symm.trans hm)
    exact ⟨h.state.trans hr, h.server.listed hf⟩
  · rw [hno] at hm
    exact nomatch hm

theorem Kept.notified (h : Kept w w') (hw : Notified w) : Notified w' := by
  intro m hm
  rcases h.memberships with heq | ⟨hno, -⟩
  · rw [h.watches]
    exact hw m (heq.symm.trans hm)
  · rw [hno] at hm
    exact nomatch hm

theorem Kept.tended (h : Kept w w') (hfr : Fresh w) (hw : Tended w) : Tended w' := by
  rintro hno ⟨he, hti⟩
  rcases hm : w.memberships with _ | m
  · rcases hw hm ⟨h.error.symm.trans he, h.connectTimer.symm.trans hti⟩ with ⟨hr, ht⟩ | hf
    · exact .inl ⟨h.retrying.trans hr, h.timers.symm ▸ ht⟩
    · exact .inr (hf.trans_le h.server.fired)
  rcases h.memberships with heq | ⟨-, hch⟩
  · rw [heq, hm] at hno
    exact nomatch hno
  · rcases (hfr m hm).2 with ⟨ha, -⟩ | hf
    · exact .inr (Nat.zero_lt_of_lt (hch.armed ha))
    · exact .inr (hf.trans_le hch.fired)

theorem Base.following (h : Base w w') (hw : Following w) : Following w' := by
  unfold Following own at hw ⊢
  rw [h.watches, h.detector]
  exact hw

theorem Base.accounted (h : Base w w') (hw : Accounted w) : Accounted w' := by
  unfold Accounted
  rw [h.watches, h.history]
  exact hw

theorem Base.steady (h : Base w w') (hw : Steady w) (hl : w'.connectTimer = false → Linked w') : Steady w' where
  following := h.following hw.following
  accounted := h.accounted hw.accounted
  timers hr := h.timers.symm ▸ hw.timers (h.retrying.symm.trans hr)
  error := h.error.trans hw.error
  linked := hl

theorem Base.steady_of_state (h : Base w w') (hw : Steady w) (hst : w'.state = w.state) : Steady w' := by
  refine h.steady hw fun ht => ?_
  unfold Linked
  rw [hst]
  exact hw.linked (h.connectTimer.symm.trans ht)

theorem Kept.core (h : Kept w w') (hw : Core w) : Core w' where
  toSteady := h.steady_of_state hw.toSteady h.state
  fresh := h.fresh hw.fresh
  active ha := h.state.trans (hw.active (h.active ha))

theorem Kept.sound (h : Kept w w') (hw : Sound w) : Sound w' :=
  ⟨h.core hw.toCore, h.notified hw.notified, h.tended hw.fresh hw.tended⟩

/-! ## Filling the cache -/

theorem Following.update (hw : Following w) (h : w.memberships = some m) : Following w.update := by
  have hown : own w.update = (own w).filter (·.expected = m) := by
    rw [update_eq h, own, own, filter_filter, filter_filter]
    exact filter_congr fun watch _ => Bool.and_comm _ _
  have hi : Involves (w.watches.filter (·.expected ≠ m)) ↔ ∃ watch ∈ own w, watch.expected ≠ m := by
    simp only [Involves, own, mem_filter, decide_eq_true_iff]
    exact exists_congr fun watch => by tauto
  have hk : (∀ watch ∈ own w, watch.expected = m) → Following w.update := by
    intro hall
    have hsa : own w.update = own w := by
      rw [hown, filter_eq_self]
      exact fun watch hwa => decide_eq_true (hall watch hwa)
    have hd : w.update.detector = w.detector := by
      rw [update_eq h]
      exact if_neg fun hinv => by
        obtain ⟨watch, hwa, hne⟩ := hi.1 hinv
        exact hne (hall watch hwa)
    unfold Following at hw ⊢
    rw [hsa, hd]
    exact hw
  have hno : own w = [] → Following w.update := fun hem => hk fun watch hwa => by
    rw [hem] at hwa
    exact nomatch hwa
  have hw' := hw
  unfold Following at hw'
  split at hw'
  · exact hno hw'.1
  next hph =>
    obtain ⟨expected, hone, -⟩ := hw'
    by_cases he : expected = m
    · refine hk fun _ hwa => ?_
      rw [hone] at hwa
      rw [mem_singleton.1 hwa, he]
    have hr : w.update.detector.phase = .replied (.ok m) := by
      rw [update_eq h]
      rw [if_pos (hi.2 ⟨_, hone ▸ mem_cons_self, he⟩)]
    unfold Following
    rw [hr]
    refine ⟨?_, m, rfl⟩
    rw [hown, hone]
    simpa using he
  · exact hno hw'.1
  · exact absurd hw' id

theorem Accounted.update (hw : Accounted w) (h : w.memberships = some m) : Accounted w.update := by
  have hne : ∀ watch ∈ w.watches.filter (·.expected ≠ m), m ≠ watch.expected := fun watch hwa heq =>
    of_decide_eq_true (mem_filter.1 hwa).2 heq.symm
  rw [update_eq h]
  constructor
  · have hs : (w.watches.filter (·.expected = m) ++ w.watches.filter (·.expected ≠ m)).Perm w.watches := by
      simp only [ne_eq, decide_not]
      exact filter_append_perm _ _
    have hc : ((w.watches.filter (·.expected ≠ m)).map fun watch => (watch, (.ok m : Except String (Finset Membership)))).map
        Prod.fst = w.watches.filter (·.expected ≠ m) := by
      rw [map_map]
      exact map_id _
    refine List.Perm.trans ?_ hw.1
    rw [map_append, hc]
    refine (perm_append_comm.append_left _).trans ?_
    rw [← append_assoc]
    exact hs.append_right _
  · intro reply hr
    rcases mem_append.1 hr with hr | hr
    · exact hw.2 reply hr
    · obtain ⟨watch, hwa, rfl⟩ := mem_map.1 hr
      exact ⟨m, rfl, hne watch hwa⟩

/-- **`update` notifies the pending watches.** -/
theorem Core.update (hw : Core w) (h : w.memberships = some m) : Core w.update ∧ Notified w.update := by
  have hf := hw.following.update h
  have heq := update_eq h
  refine ⟨⟨⟨hf, hw.accounted.update h, ?_, ?_, ?_⟩, ?_, ?_⟩, fun _ hm' _ hwa => ?_⟩
  · rw [heq]; exact hw.timers
  · rw [heq]; exact hw.error
  · rw [heq]; exact hw.linked
  · rw [heq]; exact hw.fresh
  · rw [heq]; exact hw.active
  · rw [heq] at hm' hwa
    obtain rfl := Option.some.inj (h.symm.trans hm')
    exact of_decide_eq_true (mem_filter.1 hwa).2

theorem Base.core (h : Base w w') (hw : Steady w) (hr : w.state = .ready) (hst : w'.state = w.state)
    (hc : w'.memberships = none ∨ w'.memberships = some w'.server.children ∧ w'.server.armed = true) : Core w' where
  fresh m hm := by
    rcases hc with hno | ⟨hs, ha⟩
    · rw [hno] at hm
      exact nomatch hm
    · rw [hs] at hm
      exact ⟨hst.trans hr, .inl ⟨ha, (Option.some.inj hm).symm⟩⟩
  active _ := hst.trans hr
  toSteady := h.steady_of_state hw hst

structure Frame (w w' : World) : Prop where
  connectTimer : w'.connectTimer = w.connectTimer
  retrying : w'.retrying = w.retrying
  timers : w'.timers = w.timers

theorem Base.frame (h : Base w w') : Frame w w' := ⟨h.connectTimer, h.retrying, h.timers⟩

theorem Frame.trans (h : Frame w w') (h' : Frame w' w'') : Frame w w'' :=
  ⟨h'.connectTimer.trans h.connectTimer, h'.retrying.trans h.retrying, h'.timers.trans h.timers⟩

/-- **The end of `sync`** fills an invalid cache and notifies the watches, unless the call is to be tried again. -/
theorem refresh_spec (hw : Core w) (hn : Notified w) (hr : w.state = .ready)
    (hcal : Retryable w.calls) : Core w.refresh.1 ∧ Notified w.refresh.1 ∧ Frame w w.refresh.1 ∧
      (w.refresh.2 = .ok true ∧ w.refresh.1.memberships ≠ none ∨ w.refresh.2 = .ok false) := by
  have hc := cache_cached w
  unfold refresh
  split
  next hs => exact ⟨hw, hn, ⟨rfl, rfl, rfl⟩, .inl ⟨rfl, Option.isSome_iff_ne_none.1 hs⟩⟩
  · split
    next hca =>
      rw [hca] at hc
      cases hc with
      | filled hb hst hv ha =>
        obtain ⟨hco, hn'⟩ := (hb.core hw.toSteady hr hst (.inr ⟨hv, ha⟩)).update hv
        refine ⟨hco, hn', hb.frame.trans ?_, .inl ⟨rfl, ?_⟩⟩
        · rw [update_eq hv]
          exact ⟨rfl, rfl, rfl⟩
        · rw [update_eq hv]
          exact Option.ne_none_iff_exists'.2 ⟨_, hv⟩
    next hne hca =>
      rw [hca] at hc
      cases hc with
      | filled => exact absurd rfl hne
      | retried hb hst hi =>
        exact ⟨hb.core hw.toSteady hr hst (.inl hi), fun _ hm => absurd (hi.symm.trans hm) nofun, hb.frame, .inr rfl⟩
      | failed hf => exact absurd hcal hf

/-! ## Synchronising -/

structure Prepared (w w' : World) : Prop extends Base w w' where
  memberships : w'.memberships = w.memberships
  linked : Linked w'
  ready : w.state = .ready → w'.state = .ready
  active : w'.server.Active → w.server.Active

theorem Prepared.trans (h : Prepared w w') (h' : Prepared w' w'') : Prepared w w'' :=
  ⟨h.toBase.trans h'.toBase, h'.memberships.trans h.memberships, h'.linked, h'.ready ∘ h.ready, h.active ∘ h'.active⟩

theorem Prepared.core (h : Prepared w w') (hw : Core w) : Core w' where
  fresh m hm := by
    obtain ⟨hr, hf⟩ := hw.fresh m (h.memberships.symm.trans hm)
    exact ⟨h.ready hr, h.server.listed hf⟩
  toSteady := h.steady hw.toSteady fun _ => h.linked
  active ha := h.ready (hw.active (h.active ha))

theorem Prepared.notified (h : Prepared w w') (hw : Notified w) : Notified w' := by
  intro m hm
  rw [h.watches]
  exact hw m (h.memberships.symm.trans hm)

theorem authenticate_spec (hc : w.state = .connected) (hcal : Retryable w.calls) :
    Prepared w w.authenticate.1 ∧ (w.authenticate.2 = .ok true ∧ w.authenticate.1.state = .authenticated ∨
      w.authenticate.2 = .ok false) := by
  obtain ⟨hk, hsa, hr⟩ := call_spec w
  have hnot : w.state = .ready → ∀ {state : State}, state = .ready := fun hre => nomatch hc.symm.trans hre
  unfold authenticate
  split
  · exact ⟨⟨⟨rfl, rfl, rfl, rfl, rfl, rfl, rfl, .refl _, id⟩, rfl, .inr (.inl rfl), fun h => hnot h, id⟩,
      .inl ⟨rfl, rfl⟩⟩
  split
  next hca =>
    rw [hca] at hk hsa
    exact ⟨⟨hk.toBase, hsa, .inl (hk.state.trans hc), fun h => hnot h, hk.active⟩, .inr rfl⟩
  next message hca =>
    rw [hca] at hr
    exact absurd rfl (hr hcal message)
  next w' hca =>
    rw [hca] at hk hsa
    have hb : Base w { w' with state := .authenticated } :=
      hk.toBase.trans ⟨rfl, rfl, rfl, rfl, rfl, rfl, rfl, .refl _, id⟩
    exact ⟨⟨hb, hsa, .inr (.inl rfl), fun h => hnot h, hk.active⟩, .inl ⟨rfl, rfl⟩⟩

theorem create_spec (ha : w.state = .authenticated) (hca : Retryable w.calls) :
    Prepared w w.create.1 ∧ (w.create.2 = .ok true ∧ w.create.1.state = .ready ∨ w.create.2 = .ok false) := by
  obtain ⟨hk, hsa, hr⟩ := call_spec w
  unfold create
  split
  next hc =>
    rw [hc] at hk hsa
    exact ⟨⟨hk.toBase, hsa, .inr (.inl (hk.state.trans ha)), hk.state.trans, hk.active⟩, .inr rfl⟩
  next message hc =>
    rw [hc] at hr
    exact absurd rfl (hr hca message)
  next w' hc =>
    rw [hc] at hk hsa
    have hb : Base w { w' with state := .ready } := hk.toBase.trans ⟨rfl, rfl, rfl, rfl, rfl, rfl, rfl, .refl _, id⟩
    exact ⟨⟨hb, hsa, .inr (.inr rfl), fun _ => rfl, hk.active⟩, .inl ⟨rfl, rfl⟩⟩

theorem setUp_spec (hl : Linked w) (hca : Retryable w.calls) :
    Prepared w w.setUp.1 ∧ (w.setUp.2 = .ok true ∧ w.setUp.1.state = .ready ∨ w.setUp.2 = .ok false) := by
  have hs : ∀ {w}, Linked w → Prepared w w := fun h => ⟨.refl _, rfl, h, id, id⟩
  -- The second half, for a group that is authenticated.
  have hcr : ∀ {w₁}, Prepared w w₁ → w₁.state = .authenticated ∨ w₁.state = .ready →
      Prepared w (if w₁.state = .authenticated then w₁.create else (w₁, .ok true)).1 ∧
        ((if w₁.state = .authenticated then w₁.create else (w₁, .ok true)).2 = .ok true ∧
          (if w₁.state = .authenticated then w₁.create else (w₁, .ok true)).1.state = .ready ∨
        (if w₁.state = .authenticated then w₁.create else (w₁, .ok true)).2 = .ok false) := by
    intro w₁ h₁ hst
    by_cases ha : w₁.state = .authenticated
    · simp only [if_pos ha]
      obtain ⟨hpr, hr⟩ := create_spec ha (h₁.calls hca)
      exact ⟨h₁.trans hpr, hr⟩
    · simp only [if_neg ha]
      exact ⟨h₁, .inl ⟨trivial, hst.resolve_left ha⟩⟩
  unfold setUp
  by_cases hc : w.state = .connected
  · rw [if_pos hc]
    obtain ⟨hpr, hr⟩ := authenticate_spec hc hca
    split
    next hau =>
      rw [hau] at hpr hr
      exact hcr hpr (.inl (hr.resolve_right nofun).2)
    next hne hau =>
      rw [hau] at hpr hr
      exact ⟨hpr, .inr (hr.resolve_left fun h => hne h.1)⟩
  · rw [if_neg hc]
    exact hcr (hs hl) (hl.resolve_left hc)

/-- **`sync` keeps the invariant**; if it is not to be tried again, the cache is valid. -/
theorem sync_spec {synced : Except String Bool} (hw : Core w) (hno : Notified w) (hl : Linked w)
    (hcal : Retryable w.calls) (h : w.sync = .ok (w', synced)) :
    Core w' ∧ Notified w' ∧ Frame w w' ∧ (synced = .ok true ∧ w'.memberships ≠ none ∨ synced = .ok false) := by
  obtain ⟨hpr, hr⟩ := setUp_spec hl hcal
  unfold sync at h
  split at h
  next w₁ hsu =>
    rw [hsu] at hpr hr
    have hre := (hr.resolve_right nofun).2
    have hco₁ := hpr.core hw
    have hno₁ := hpr.notified hno
    have hg : ∀ {w₂}, Kept w₁ w₂ → Core w₂ ∧ Notified w₂ ∧ Frame w w₂ := fun hk =>
      ⟨hk.core hco₁, hk.notified hno₁, hpr.frame.trans hk.frame⟩
    have hj := doJoins_spec w₁.joins w₁
    split at h
    next heq =>
      rw [heq] at hj
      cases h
      obtain ⟨hc, hn, hf⟩ := hg hj
      exact ⟨hc, hn, hf, .inr rfl⟩
    next heq =>
      rw [heq] at hj
      split at h
      · exact nomatch h
      next hca =>
        cases h
        obtain ⟨hc, hn, hf⟩ := hg (hj.trans (doCancels_spec _ hca))
        exact ⟨hc, hn, hf, .inr rfl⟩
      next w₃ hca =>
        have hk := hj.trans (doCancels_spec _ hca)
        have hd := hk.trans (doDatas_spec w₃.datas w₃)
        split at h
        next hda =>
          rw [hda] at hd
          cases h
          obtain ⟨hc, hn, hf⟩ := hg hd
          exact ⟨hc, hn, hf, .inr rfl⟩
        next w₄ hda =>
          rw [hda] at hd
          obtain ⟨hc, hn, hf⟩ := hg hd
          obtain ⟨hc', hn', hf', hend⟩ := refresh_spec hc hn (hd.state.trans hre) (hd.calls (hpr.calls hcal))
          have hpa : w₄.refresh = (w', synced) := Except.ok.inj h
          rw [hpa] at hc' hn' hf' hend
          exact ⟨hc', hn', hf.trans hf', hend⟩
  next hne hsu =>
    rw [hsu] at hpr hr
    cases h
    exact ⟨hpr.core hw, hpr.notified hno, hpr.frame, .inr (hr.resolve_left fun h => hne h.1)⟩

end Clusterd.Group
