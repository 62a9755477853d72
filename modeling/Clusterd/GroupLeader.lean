import Clusterd.GroupHandlers
/-!
# Following the leader

When ZooKeeper does not change any more and calls succeed, a rank bounds the events, retries and messages left to handle;
requests of other clients do not raise it.  After them the cache shows the children, the detector waits for a change of just
these, and its leader is the member with the smallest sequence number.
-/
namespace Clusterd.Group

open World

variable {w w' : World}

/-! ## Calls that succeed -/

def World.still (w : World) :=
  (w.calls, w.server.children, w.server.fired, w.timers, w.connectTimer, w.joins, w.cancels)

def Tranquil (w w' : World) : Prop := w'.still = w.still

theorem Tranquil.trans {w'' : World} (h : Tranquil w w') (h' : Tranquil w' w'') : Tranquil w w'' := Eq.trans h' h

theorem Tranquil.same (h : Tranquil w w') : w'.server.children = w.server.children ∧
    w'.server.fired = w.server.fired ∧ w'.timers = w.timers ∧ w'.connectTimer = w.connectTimer ∧ w'.joins = w.joins ∧
    w'.cancels = w.cancels := by
  simp only [Tranquil, still, Prod.mk.injEq] at h
  exact h.2

theorem tranquil_update (w : World) : Tranquil w w.update := by
  cases hm : w.memberships with
  | none =>
    have heq : w.update = w := by unfold update; rw [hm]
    rw [heq]
    exact rfl
  | some =>
    rw [update_eq hm]
    exact rfl

theorem tranquil_update_of (h : Tranquil w w') : Tranquil w w'.update := h.trans (tranquil_update w')

section
variable (h : w.calls = [])
include h

theorem call_ok : w.call = (w, .ok) := by
  unfold call
  rw [h]

/-- **A call of `getChildren` that succeeds** fills the cache. -/
theorem cache_ok : ∃ owned unowned, w.cache = ({ w with
        server := { w.server with armed := true }, owned, unowned, memberships := some w.server.children },
      .ok true) := by
  have hc : ({ w with memberships := none } : World).call = ({ w with memberships := none }, .ok) := call_ok h
  unfold cache
  rw [hc]
  dsimp only
  rw [found_eq]
  exact ⟨_, _, rfl⟩

theorem authenticate_ok : w.authenticate = ({ w with state := .authenticated }, .ok true) := by
  unfold authenticate
  rw [call_ok h]
  split <;> rfl

theorem create_ok : w.create = ({ w with state := .ready }, .ok true) := by
  unfold create
  rw [call_ok h]

theorem setUp_ok : ∃ state, w.setUp = ({ w with state }, .ok true) := by
  unfold setUp
  by_cases hc : w.state = .connected
  · rw [if_pos hc, authenticate_ok h]
    dsimp only
    rw [@create_ok { w with state := .authenticated } h]
    exact ⟨_, rfl⟩
  · rw [if_neg hc]
    dsimp only
    split
    · rw [create_ok h]
      exact ⟨_, rfl⟩
    · exact ⟨_, rfl⟩

theorem doData_ok : w.doData = (w, .some ()) := by
  unfold doData
  rw [call_ok h]

theorem refresh_ok : ∃ w', w.refresh = (w', .ok true) ∧ Tranquil w w' := by
  unfold refresh
  split
  · exact ⟨w, rfl, rfl⟩
  · obtain ⟨_, _, hc⟩ := cache_ok h
    rw [hc]
    exact ⟨_, rfl, tranquil_update_of rfl⟩

end

theorem doDatas_ok : ∀ (datas : List Membership) {w : World}, w.calls = [] →
    w.doDatas datas = ({ w with datas := [] }, true)
  | [], _, _ => rfl
  | membership :: datas, w, h => by
    unfold doDatas
    rw [@doData_ok { w with datas := membership :: datas } h]
    exact doDatas_ok datas h

/-- **A `sync` whose calls succeed**, with no join and no cancel pending. -/
theorem sync_ok (h : w.calls = []) (hj : w.joins = []) (hc : w.cancels = []) :
    ∃ w', w.sync = .ok (w', .ok true) ∧ Tranquil w w' := by
  obtain ⟨state, hsu⟩ := setUp_ok h
  obtain ⟨w', hr, ht⟩ := @refresh_ok { w with state, joins := [], cancels := [], datas := [] } h
  have hs : Tranquil w { w with state, joins := [], cancels := [], datas := [] } :=
    by rw [Tranquil, still, still, hj, hc]
  refine ⟨w', ?_, hs.trans ht⟩
  unfold sync
  rw [hsu]
  dsimp only
  rw [hj, doJoins]
  dsimp only
  rw [hc, doCancels]
  dsimp only
  rw [@doDatas_ok _ { w with state, joins := [], cancels := [] } h]
  dsimp only
  rw [hr]

/-! ## What is left to handle -/

structure Calm (w : World) : Prop where
  connectTimer : w.connectTimer = false
  joins : w.joins = []
  cancels : w.cancels = []

theorem Tranquil.calm (h : Tranquil w w') (hw : Calm w) : Calm w' := by
  obtain ⟨-, -, -, ht, hj, hc⟩ := h.same
  exact ⟨ht.trans hw.connectTimer, hj.trans hw.joins, hc.trans hw.cancels⟩

def Quiet : Event → Prop
  | .updated [] | .retry [] | .request [] | .watched | .watch _ [] | .data _ [] => True
  | _ => False

def due (w : World) : Event → Bool
  | .updated _ => 0 < w.server.fired
  | .retry _ => 0 < w.timers
  | .request _ =>
    match w.detector.phase with
    | .requesting _ => true
    | _ => false
  | .watched =>
    match w.detector.phase with
    | .replied _ => true
    | _ => false
  | _ => false

def told (w : World) : Finset Membership := w.memberships.getD w.server.children

def phaseRank (w : World) : Nat :=
  match w.detector.phase with
  | .requesting expected => if expected = told w then 1 else 4
  | .waiting => if ∀ watch ∈ own w, watch.expected = told w then 0 else 3
  | .replied (.ok memberships) => if memberships = told w then 2 else 5
  | .replied (.error _) | .failed => 0

def rank (w : World) : Nat := 8 * (w.server.fired + w.timers) + phaseRank w

theorem phaseRank_le (w : World) : phaseRank w ≤ 5 := by
  unfold phaseRank
  split
  · split <;> decide
  · split <;> decide
  · split <;> decide
  · decide
  · decide

structure Advances (w : World) (due : Prop) (w' : World) : Prop where
  calm : Calm w'
  children : w'.server.children = w.server.children
  rank_le : rank w' ≤ rank w
  rank_lt : due → rank w' < rank w

theorem Tranquil.advances {w₁ : World} {due : Prop} (h : Tranquil w₁ w') (hca : Calm w₁)
    (hc : w₁.server.children = w.server.children)
    (hf : w₁.server.fired + w₁.timers < w.server.fired + w.timers) : Advances w due w' := by
  have hlt : rank w' < rank w := by
    have hle := phaseRank_le w'
    unfold rank
    rw [h.same.2.1, h.same.2.2.1]
    omega
  exact ⟨h.calm hca, h.same.1.trans hc, hlt.le, fun _ => hlt⟩

theorem tranquil_updated (h : w.calls = []) (he : w.error = none) : Tranquil w w.updated := by
  unfold updated
  split
  next hs => exact nomatch he ▸ hs
  · obtain ⟨_, _, hc⟩ := cache_ok h
    rw [hc]
    exact tranquil_update_of rfl

theorem retry_ok (h : w.calls = []) (hw : Calm w) (he : w.error = none) (hl : Linked w) :
    ∃ w', w.retry = .ok w' ∧ Tranquil w w' := by
  unfold retry
  split
  · exact ⟨w, rfl, rfl⟩
  split
  next hso => exact nomatch he ▸ hso
  · split
    next hst =>
      rcases hl with h | h | h <;> rw [h] at hst <;> exact nomatch hst
    · obtain ⟨w', hsy, ht⟩ := @sync_ok { w with retrying := false } h hw.joins hw.cancels
      rw [hsy]
      have hs : Tranquil w { w with retrying := false } := rfl
      exact ⟨w', rfl, hs.trans ht⟩

theorem Calm.updated (hw : Calm w) (hs : Sound w) :
    ∃ w', w.step (.updated []) = .ok w' ∧ Advances w (due w (.updated [])) w' := by
  unfold step
  dsimp only
  split
  next hf => exact ⟨w, rfl, hw, rfl, le_rfl, fun h => absurd hf (of_decide_eq_true h).ne'⟩
  next hf =>
    have ht := @tranquil_updated
      { w with calls := [], server := { w.server with fired := w.server.fired - 1 } } rfl hs.error
    refine ⟨_, rfl, ht.advances ⟨hw.connectTimer, hw.joins, hw.cancels⟩ rfl ?_⟩
    dsimp only
    omega

theorem Calm.retry (hw : Calm w) (hs : Sound w) :
    ∃ w', w.step (.retry []) = .ok w' ∧ Advances w (due w (.retry [])) w' := by
  unfold step
  dsimp only
  split
  next ht => exact ⟨w, rfl, hw, rfl, le_rfl, fun h => absurd ht (of_decide_eq_true h).ne'⟩
  next ht =>
    obtain ⟨w', hr, htr⟩ := @retry_ok { w with calls := [], timers := w.timers - 1 } rfl
      ⟨hw.connectTimer, hw.joins, hw.cancels⟩ hs.error (hs.linked hw.connectTimer)
    refine ⟨w', hr, htr.advances ⟨hw.connectTimer, hw.joins, hw.cancels⟩ rfl ?_⟩
    dsimp only
    omega

/-! ## Messages -/

theorem Calm.watched (hw : Calm w) (hs : Sound w) : ∃ w', w.step .watched = .ok w' ∧ Advances w (due w .watched) w' := by
  refine ⟨_, rfl, ?_⟩
  have hf := hs.following
  unfold Following at hf
  unfold World.watched
  split
  next hph =>
    rw [hph] at hf
    exact nomatch hf.2.choose_spec
  next memberships hph =>
    have hlt : rank { w with detector := ⟨elect memberships, .requesting memberships⟩ } < rank w := by
      unfold rank phaseRank
      rw [hph]
      dsimp only
      have ht : told { w with detector := ⟨elect memberships, .requesting memberships⟩ } = told w := rfl
      rw [ht]
      split <;> omega
    exact ⟨⟨hw.connectTimer, hw.joins, hw.cancels⟩, rfl, hlt.le, fun _ => hlt⟩
  next he hok =>
    refine ⟨hw, rfl, le_rfl, ?_⟩
    unfold due
    dsimp only
    split
    next reply hph =>
      cases reply with
      | error message => exact absurd hph (he message)
      | ok memberships => exact absurd hph (hok memberships)
    · exact nofun

theorem phaseRank_push {watch : Watch} (hw : Following w) (ha : Asks w watch) :
    phaseRank (w.push watch) ≤ phaseRank w ∧ (watch.client = .detector → phaseRank (w.push watch) < phaseRank w) := by
  rcases watch with ⟨client, expected⟩
  have ht : told (w.push ⟨client, expected⟩) = told w := rfl
  have hown : own (w.push ⟨client, expected⟩) = own w ++ own { w with watches := [⟨client, expected⟩] } := by
    rw [own, own, own, push, List.filter_append]
  cases client with
  | other =>
    have heq : phaseRank (w.push ⟨.other, expected⟩) = phaseRank w := by
      unfold phaseRank
      rw [hown, show own { w with watches := [⟨.other, expected⟩] } = [] from rfl, List.append_nil]
      rfl
    exact ⟨heq.le, by simp⟩
  | detector =>
    have hph := ha rfl
    unfold Following at hw
    rw [hph] at hw
    rw [hw.1] at hown
    have hlt : phaseRank (w.push ⟨.detector, expected⟩) < phaseRank w := by
      have hwa : (w.push ⟨.detector, expected⟩).detector.phase = .waiting := rfl
      unfold phaseRank
      rw [hwa, hph, ht, hown]
      dsimp only
      by_cases heq : expected = told w
      · rw [if_pos heq, if_pos fun _ hwat => List.mem_singleton.1 hwat ▸ heq]
        decide
      · split <;> decide
    exact ⟨hlt.le, fun _ => hlt⟩

theorem phaseRank_answer {watch : Watch} {m : Finset Membership} (hw : Following w) (ha : Asks w watch)
    (hm : w.memberships = some m) : phaseRank (w.answer watch) ≤ phaseRank w ∧
      (watch.client = .detector → phaseRank (w.answer watch) < phaseRank w) := by
  unfold answer
  rw [hm]
  dsimp only
  split
  · exact phaseRank_push hw ha
  next hne =>
    rcases watch with ⟨client, expected⟩
    cases client with
    | other => exact ⟨le_refl (phaseRank w), nofun⟩
    | detector =>
      have hph := ha rfl
      have ht : told w = m := by rw [told, hm, Option.getD_some]
      have hlt : phaseRank ((w.ask ⟨.detector, expected⟩).complete (.ok m) ⟨.detector, expected⟩) < phaseRank w := by
        have hr : ((w.ask ⟨.detector, expected⟩).complete (.ok m) ⟨.detector, expected⟩).detector.phase = .replied (.ok m) := rfl
        have ht' : told ((w.ask ⟨.detector, expected⟩).complete (.ok m) ⟨.detector, expected⟩) = told w := rfl
        unfold phaseRank
        rw [hr, hph, ht', ht]
        dsimp only
        rw [if_pos rfl, if_neg fun heq => hne heq.symm]
        decide
      exact ⟨hlt.le, fun _ => hlt⟩

theorem tranquil_push (w : World) (watch : Watch) : Tranquil w (w.push watch) := rfl

theorem tranquil_answer (w : World) (watch : Watch) : Tranquil w (w.answer watch) := by
  unfold answer
  split
  · exact rfl
  · split
    · exact tranquil_push w watch
    · exact rfl

theorem Tranquil.rank {due : Prop} (h : Tranquil w w') (hw : Calm w)
    (hph : phaseRank w' ≤ phaseRank w ∧ (due → phaseRank w' < phaseRank w)) : Advances w due w' := by
  have heq : 8 * (w'.server.fired + w'.timers) = 8 * (w.server.fired + w.timers) := by
    rw [h.same.2.1, h.same.2.2.1]
  refine ⟨h.calm hw, h.same.1, ?_, fun hdue => ?_⟩
  · unfold Group.rank
    rw [heq]
    exact Nat.add_le_add_left hph.1 _
  · unfold Group.rank
    rw [heq]
    exact Nat.add_lt_add_left (hph.2 hdue) _

/-- **A watch reaches the group**, which keeps it or answers it. -/
theorem Calm.watch {watch : Watch} (hw : Calm w) (hs : Sound w) (ha : Asks w watch) (hca : w.calls = []) :
    Advances w (watch.client = .detector) (w.watch watch) := by
  unfold World.watch
  rw [hs.error]
  dsimp only
  split
  · exact (tranquil_push w watch).rank hw (phaseRank_push hs.following ha)
  split
  next hso =>
    obtain ⟨_, hm⟩ := Option.isSome_iff_exists.1 hso
    exact (tranquil_answer w watch).rank hw (phaseRank_answer hs.following ha hm)
  next hno =>
    obtain ⟨owned, unowned, hc⟩ := cache_ok hca
    obtain ⟨w₁, hw₁⟩ : ∃ w₁ : World, w₁ = { w with
        server := { w.server with armed := true }, owned, unowned, memberships := some w.server.children } := ⟨_, rfl⟩
    rw [← hw₁] at hc
    rw [hc]
    -- The cache now shows what the group would have told anyway.
    have hph : phaseRank w₁ = phaseRank w := by
      have hto : told w₁ = told w := by
        rw [hw₁, told, told, Option.not_isSome_iff_eq_none.1 hno]
        rfl
      unfold phaseRank
      rw [hto, hw₁]
      rfl
    have ht : Tranquil w w₁ := by rw [hw₁]; exact rfl
    have hf : Following w₁ := by rw [hw₁]; exact hs.following
    have ha₁ : Asks w₁ watch := by rw [hw₁]; exact ha
    have hm : w₁.memberships = some w.server.children := by rw [hw₁]
    have han := phaseRank_answer hf ha₁ hm
    rw [hph] at han
    exact (ht.trans (tranquil_answer w₁ watch)).rank hw han

theorem Calm.data (hw : Calm w) (hc : w.calls = []) (membership : Membership) : Advances w False (w.data membership) := by
  unfold World.data
  split
  · exact ⟨hw, rfl, le_rfl, False.elim⟩
  split
  · exact ⟨⟨hw.connectTimer, hw.joins, hw.cancels⟩, rfl, le_refl (rank w), False.elim⟩
  · rw [doData_ok hc]
    exact ⟨hw, rfl, le_rfl, False.elim⟩

/-- **What a quiet event does to a calm group.** -/
theorem Calm.step {event : Event} (hw : Calm w) (hs : Sound w) (hq : Quiet event) :
    ∃ w', w.step event = .ok w' ∧ Advances w (due w event) w' := by
  have hc : Calm { w with calls := [] } := ⟨hw.connectTimer, hw.joins, hw.cancels⟩
  have hs' := hs.with_calls []
  unfold Quiet at hq
  split at hq
  · exact hw.updated hs
  · exact hw.retry hs
  · unfold World.step due
    dsimp only
    split
    next expected hph =>
      have h := @Calm.watch _ ⟨.detector, expected⟩ hc hs' (fun _ => hph) rfl
      exact ⟨_, rfl, h.calm, h.children, h.rank_le, fun _ => h.rank_lt rfl⟩
    next hnot =>
      refine ⟨w, rfl, hw, rfl, le_rfl, fun h => ?_⟩
      simp at h
  · exact hw.watched hs
  next expected =>
    have h := @Calm.watch _ ⟨.other, expected⟩ hc hs' (fun hno => by cases hno) rfl
    exact ⟨_, rfl, h.calm, h.children, h.rank_le, fun hno => by cases hno⟩
  next membership =>
    have h := hc.data rfl membership
    exact ⟨_, rfl, h.calm, h.children, h.rank_le, fun hno => by cases hno⟩
  · exact hq.elim

/-! ## Runs -/

def handled (w : World) : List Event → Nat
  | [] => 0
  | event :: events =>
    (due w event).toNat +
      match w.step event with
      | .ok w' => handled w' events
      | .error _ => 0

def Idle (w : World) : Prop := ∀ event, Meets w event → due w event = false

/-- **The rank bounds what a calm group handles.** -/
theorem Calm.run : ∀ {events : List Event} {w : World}, Calm w → Sound w → (∀ event ∈ events, Quiet event) →
    Fallible.Meets World.step Meets w events → ∃ w', events.foldlM World.step w = .ok w' ∧ Sound w' ∧ Calm w' ∧
      w'.server.children = w.server.children ∧ handled w events + rank w' ≤ rank w
  | [], w, hw, hs, _, _ => ⟨w, rfl, hs, hw, rfl, (zero_add _).le⟩
  | event :: events, w, hw, hs, hq, hm => by
    obtain ⟨w₁, hst, ha⟩ := hw.step hs (hq event List.mem_cons_self)
    obtain ⟨w', hrun, hs', hca', hc, _⟩ := Calm.run ha.calm (hs.step hm.1 hst)
      (fun event h => hq event (List.mem_cons_of_mem _ h)) (hm.2 w₁ hst)
    refine ⟨w', ?_, hs', hca', hc.trans ha.children, ?_⟩
    · rw [List.foldlM_cons, hst]
      exact hrun
    have hh : (due w event).toNat + rank w₁ ≤ rank w := by
      cases hdue : due w event with
      | false => exact (zero_add _).le.trans ha.rank_le
      | true =>
        have hlt := ha.rank_lt hdue
        rw [Bool.toNat_true]
        omega
    rw [handled, hst]
    dsimp only
    omega

/-- **When nothing is left to handle, the detector has the right leader.** -/
theorem Calm.leader (hw : Calm w) (hs : Sound w) (hi : Idle w) : w.detector.leader = elect w.server.children := by
  have hfi : w.server.fired = 0 := by
    have h := hi (.updated []) ⟨nofun, trivial⟩
    exact Nat.eq_zero_of_not_pos (of_decide_eq_false h)
  have ht : w.timers = 0 := by
    have h := hi (.retry []) ⟨nofun, trivial⟩
    exact Nat.eq_zero_of_not_pos (of_decide_eq_false h)
  obtain ⟨m, hm⟩ : ∃ m, w.memberships = some m := by
    refine Option.ne_none_iff_exists'.1 fun hno => ?_
    rcases hs.tended hno ⟨hs.error, hw.connectTimer⟩ with ⟨-, h⟩ | h <;> omega
  obtain rfl : m = w.server.children := by
    rcases (hs.fresh m hm).2 with ⟨-, h⟩ | h
    · exact h
    · omega
  have hf := hs.following
  unfold Following at hf
  split at hf
  next hph =>
    have hme : Meets w (.request []) := by
      unfold Meets
      rw [hph]
      exact ⟨nofun, fun _ hno => nomatch hm.symm.trans hno⟩
    have h := hi _ hme
    unfold due at h
    rw [hph] at h
    exact nomatch h
  next hph =>
    obtain ⟨expected, hown, hl⟩ := hf
    have hmem : ⟨.detector, expected⟩ ∈ own w := hown ▸ List.mem_cons_self
    rw [hl, ← hs.notified _ hm _ (List.mem_filter.1 hmem).1]
  next hph =>
    have h := hi .watched ⟨nofun, trivial⟩
    unfold due at h
    rw [hph] at h
    exact nomatch h
  · exact hf.elim

instance (w : World) (calls : List Call) : Decidable (Undisturbing w calls) :=
  inferInstanceAs (Decidable (_ → _ → ∀ _ ∈ _, _))

instance (w : World) (event : Event) : Decidable (Meets w event) := by
  unfold Meets
  refine @instDecidableAnd _ _ _ ?_
  split <;> infer_instance

/-- The contract of group watches: a valid cache has reached all pending watches, an invalid one will be filled, and the
detector's leader is the member with the smallest sequence number once ZooKeeper stops changing and the events, retries
and messages under way are handled, of which there is a bounded number. -/
structure Contract (w : World) : Prop where
  notified : ∀ m, w.memberships = some m → ∀ watch ∈ w.watches, watch.expected = m
  accounted : Accounted w
  tended : w.memberships = none → Usable w → Refreshes w
  followed : Calm w → ∀ events, (∀ event ∈ events, Quiet event) → Fallible.Meets World.step Meets w events →
    ∃ w', events.foldlM World.step w = .ok w' ∧ w'.server.children = w.server.children ∧ handled w events ≤ rank w ∧
      (Idle w' → w'.detector.leader = elect w.server.children)

theorem Sound.contract (hw : Sound w) : Contract w where
  notified := hw.notified
  accounted := hw.accounted
  tended := hw.tended
  followed hca events hq hm := by
    obtain ⟨w', hrun, hs', hca', hc, hr⟩ := hca.run hw hq hm
    refine ⟨w', hrun, hc, Nat.le_of_add_right_le hr, fun hi => ?_⟩
    rw [hca'.leader hs' hi, hc]

/-- **Group watches miss no change of the memberships** in a run in which no watch fills the cache over the head of
another one. -/
theorem watches_miss_nothing (auth : Bool) (events : List Event) (w : World)
    (hmeets : Fallible.Meets World.step Meets { auth } events) (hrun : events.foldlM World.step { auth } = .ok w) :
    Contract w :=
  (hmeets.invariant (fun _ _ _ hs hm h => Sound.step hs hm h) (sound_start auth) hrun).contract

def followed : List Event :=
  [.connected false [], .request [], .watch ∅ [], .change .join, .updated [⟨[], .retryable⟩], .change .join, .retry [],
    .watched, .request []]

theorem followed_missed_nothing : Fallible.Meets World.step Meets {} followed ∧
    ∃ w, followed.foldlM World.step {} = .ok w ∧ w.detector.leader = some 0 ∧ Contract w := by
  have hmeets : Fallible.Meets step Meets {} followed := by decide +kernel
  refine ⟨hmeets, _, rfl, ?_, watches_miss_nothing false followed _ hmeets rfl⟩
  decide +kernel

/-- **A wake-up is lost**: a change makes the group fill its cache, which fails for the time being; before the retry
another client's watch fills the cache, and the detector, which waits for a change of the empty group, is never told. -/
def lost : List Event :=
  [.connected false [], .request [], .change .join, .updated [⟨[], .retryable⟩], .watch ∅ [], .retry []]

theorem lost_missed : (∀ event ∈ lost, Retryable event.calls) ∧ ∃ w, lost.foldlM World.step {} = .ok w ∧
    ¬ (∀ m, w.memberships = some m → ∀ watch ∈ w.watches, watch.expected = m) ∧
    (Calm w ∧ Idle w ∧ w.detector.leader ≠ elect w.server.children) := by
  refine ⟨by decide, _, rfl, fun h => ?_, ⟨rfl, rfl, rfl⟩, ?_, ?_⟩
  · have hexpected := h {0} (by decide +kernel) ⟨.detector, ∅⟩ (by decide +kernel)
    exact nomatch hexpected
  · intro event _
    cases event <;> rfl
  · decide +kernel

end Clusterd.Group
