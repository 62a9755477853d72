import Clusterd.GroupWatches
/-!
# The handlers of a group

Every handler keeps the invariant of the cache and the watches, except a `watch` that fills an invalid cache while other
watches, which expect something else, are pending: `watch` does not call `update` as `updated` and `sync` do.
-/
namespace Clusterd.Group

open List

variable {w : World}

/-! ## Requests -/

theorem Sound.with_calls (hw : Sound w) (calls : List Call) : Sound { w with calls } :=
  ⟨⟨⟨hw.following, hw.accounted, hw.timers, hw.error, hw.linked⟩, hw.fresh, hw.active⟩, hw.notified, hw.tended⟩

/-- **A scheduled retry makes up for an invalid cache.** -/
theorem Core.scheduleRetry (hw : Core w) (hn : Notified w) : Sound w.scheduleRetry := by
  unfold World.scheduleRetry
  split
  next hr => exact ⟨hw, hn, fun _ _ => .inl ⟨hr, hw.timers hr⟩⟩
  · exact ⟨⟨⟨hw.following, hw.accounted, fun _ => Nat.succ_pos _, hw.error, hw.linked⟩, hw.fresh, hw.active⟩, hn,
      fun _ _ => .inl ⟨rfl, Nat.succ_pos _⟩⟩

theorem scheduleRetry_same (w : World) :
    w.scheduleRetry.memberships = w.memberships ∧ w.scheduleRetry.detector = w.detector := by
  unfold World.scheduleRetry
  split <;> exact ⟨rfl, rfl⟩

theorem Sound.queues (hw : Sound w) (joins : List String) (cancels datas : List Membership) :
    Sound { w with joins, cancels, datas } := (kept_queues w joins cancels datas).sound hw

theorem Sound.join (hw : Sound w) (data : String) : Sound (w.join data) := by
  have hk := doJoin_spec w
  unfold World.join
  split
  · exact hw
  split
  · exact hw.queues _ _ _
  split
  next hj =>
    rw [hj] at hk
    exact ((hk.core hw.toCore).scheduleRetry (hk.notified hw.notified)).queues _ _ _
  next hj =>
    rw [hj] at hk
    exact hk.sound hw

variable {w' : World}

theorem Sound.cancel (hw : Sound w) {membership : Membership} (h : w.cancel membership = .ok w') : Sound w' := by
  unfold World.cancel at h
  split at h
  · cases h; exact hw
  split at h
  · cases h; exact hw.queues _ _ _
  split at h
  · exact nomatch h
  next hc =>
    have hk := doCancel_spec hc
    cases h
    exact ((hk.core hw.toCore).scheduleRetry (hk.notified hw.notified)).queues _ _ _
  next hc =>
    cases h
    exact (doCancel_spec hc).sound hw

theorem Sound.data (hw : Sound w) (membership : Membership) : Sound (w.data membership) := by
  have hk := doData_spec w
  unfold World.data
  split
  · exact hw
  split
  · exact hw.queues _ _ _
  split
  next hd =>
    rw [hd] at hk
    exact (hk.sound hw).queues _ _ _
  next hd =>
    rw [hd] at hk
    exact hk.sound hw

/-! ## Watching -/

def Asks (w : World) (watch : Watch) : Prop :=
  watch.client = .detector → w.detector.phase = .requesting watch.expected

theorem Following.push {watch : Watch} (hw : Following w) (ha : Asks w watch) : Following (w.push watch) := by
  rcases watch with ⟨client, expected⟩
  cases client with
  | other =>
    have hown : own (w.push ⟨.other, expected⟩) = own w := by
      rw [own, World.push, filter_append]
      exact append_nil _
    unfold Following at hw ⊢
    rw [hown]
    exact hw
  | detector =>
    have hph := ha rfl
    unfold Following at hw
    rw [hph] at hw
    refine ⟨expected, ?_, hw.2⟩
    have hown : own (w.push ⟨.detector, expected⟩) = own w ++ [⟨.detector, expected⟩] := by
      rw [own, World.push, filter_append]
      rfl
    rw [hown, hw.1]
    rfl

theorem Following.complete {watch : Watch} (hw : Following w) (ha : Asks w watch) (m : Finset Membership) :
    Following ((w.ask watch).complete (.ok m) watch) := by
  rcases watch with ⟨client, _⟩
  cases client with
  | other => exact hw
  | detector =>
    have hph := ha rfl
    unfold Following at hw
    rw [hph] at hw
    exact ⟨hw.1, m, rfl⟩

theorem Accounted.push (hw : Accounted w) (watch : Watch) : Accounted (w.push watch) := by
  refine ⟨?_, hw.2⟩
  dsimp only [World.push, World.ask]
  rw [append_assoc]
  refine (perm_append_comm.append_left _).trans ?_
  rw [← append_assoc]
  exact hw.1.append_right _

variable {m : Finset Membership}

theorem Accounted.complete {watch : Watch} (hw : Accounted w) (hne : m ≠ watch.expected) :
    Accounted ((w.ask watch).complete (.ok m) watch) := by
  constructor
  · dsimp only [World.complete, World.ask]
    rw [map_append, ← append_assoc]
    exact hw.1.append_right _
  · intro reply hr
    rcases mem_append.1 hr with hr | hr
    · exact hw.2 reply hr
    · rw [mem_singleton.1 hr]
      exact ⟨m, rfl, hne⟩

theorem Sound.push {watch : Watch} (hw : Sound w) (ha : Asks w watch)
    (he : ∀ m, w.memberships = some m → watch.expected = m) : Sound (w.push watch) := by
  refine ⟨⟨⟨hw.following.push ha, hw.accounted.push watch, hw.timers, hw.error, hw.linked⟩, hw.fresh, hw.active⟩, fun m hm other ho => ?_,
    hw.tended⟩
  rcases mem_append.1 ho with ho | ho
  · exact hw.notified m hm other ho
  · rw [mem_singleton.1 ho]
    exact he m hm

theorem Sound.complete {watch : Watch} (hw : Sound w) (ha : Asks w watch)
    (hne : m ≠ watch.expected) : Sound ((w.ask watch).complete (.ok m) watch) :=
  ⟨⟨⟨hw.following.complete ha m, hw.accounted.complete hne, hw.timers, hw.error, hw.linked⟩, hw.fresh, hw.active⟩,
    hw.notified, hw.tended⟩

theorem Sound.answer {watch : Watch} (hw : Sound w) (ha : Asks w watch) : Sound (w.answer watch) := by
  unfold World.answer
  split
  · exact hw
  next hm =>
    split
    next heq =>
      refine hw.push ha fun _ hm' => ?_
      rw [← Option.some.inj (hm.symm.trans hm')]
      exact heq.symm
    next hne => exact hw.complete ha hne

def reached (server : Server) : List Call → Server
  | [] => server
  | call :: _ => call.changes.foldl Server.change server

theorem cache_children (w : World) : w.cache.1.server.children = (reached w.server w.calls).children := by
  have hs : ({ w with memberships := none } : World).call.1.server = reached w.server w.calls := by
    cases w.calls <;> rfl
  unfold World.cache
  split
  next hc => rw [hc] at hs; exact congrArg Server.children hs
  next hc => rw [hc] at hs; exact congrArg Server.children hs
  next hc => rw [hc] at hs; exact (congrArg Server.children hs :)

def Undisturbing (w : World) (calls : List Call) : Prop :=
  w.state = .ready → w.memberships = none → ∀ watch ∈ w.watches, watch.expected = (reached w.server calls).children

/-- **A watch keeps the invariant** if it does not fill the cache over the head of another one. -/
theorem Sound.watch {watch : Watch} (hw : Sound w) (ha : Asks w watch) (hcal : Retryable w.calls)
    (hu : Undisturbing w w.calls) : Sound (w.watch watch) := by
  unfold World.watch
  rw [hw.error]
  dsimp only
  split
  next hst =>
    refine hw.push ha fun m hm => ?_
    exact absurd (hw.fresh m hm).1 hst
  next hst =>
    have hr : w.state = .ready := not_not.1 hst
    split
    · exact hw.answer ha
    next hme =>
      have hno : w.memberships = none := Option.not_isSome_iff_eq_none.1 hme
      have hc := cache_cached w
      have ha' : ∀ {w' : World}, w'.detector = w.detector → Asks w' watch := by
        intro w' hd hcl
        rw [hd]
        exact ha hcl
      split
      next hca =>
        rw [hca] at hc
        cases hc with
        | failed hf => exact absurd hcal hf
      next w' hca =>
        rw [hca] at hc
        cases hc with
        | retried hb hsa hi =>
          have hco := hb.core hw.toSteady hr hsa (.inl hi)
          have hs := hco.scheduleRetry fun m hm => nomatch hi.symm.trans hm
          obtain ⟨hme', hd⟩ := scheduleRetry_same w'
          refine hs.push (ha' (hd.trans hb.detector)) fun m hm => ?_
          rw [hme', hi] at hm
          exact nomatch hm
      next hca =>
        have hch := cache_children w
        rw [hca] at hc hch
        cases hc with
        | filled hb hsa hv har =>
          have hco := hb.core hw.toSteady hr hsa (.inr ⟨hv, har⟩)
          refine Sound.answer ⟨hco, fun _ hm other ho => ?_, fun hm => nomatch hv.symm.trans hm⟩ (ha' hb.detector)
          rw [← Option.some.inj (hv.symm.trans hm), hch]
          exact hu hr hno other (hb.watches ▸ ho)

/-! ## ZooKeeper events and timers -/

theorem linked_of_not (h : ¬ (w.state = .disconnected ∨ w.state = .connecting)) : Linked w := by
  unfold Linked
  cases hst : w.state with
  | disconnected => exact absurd (.inl hst) h
  | connecting => exact absurd (.inr hst) h
  | connected => exact .inl rfl
  | authenticated => exact .inr (.inl rfl)
  | ready => exact .inr (.inr rfl)

variable {reconnect : Bool}

theorem Steady.updated (hw : Steady w) (hr : w.state = .ready) (hcal : Retryable w.calls) : Sound w.updated := by
  have hc := cache_cached w
  unfold World.updated
  split
  next h => exact nomatch hw.error ▸ h
  · split
    next hca =>
      rw [hca] at hc
      cases hc with
      | failed hf => exact absurd hcal hf
    next hca =>
      rw [hca] at hc
      cases hc with
      | retried hb hsa hi =>
        exact (hb.core hw hr hsa (.inl hi)).scheduleRetry fun _ hm =>
          nomatch hi.symm.trans hm
    next hca =>
      rw [hca] at hc
      cases hc with
      | filled hb hsa hv ha =>
        obtain ⟨hco, hn⟩ := (hb.core hw hr hsa (.inr ⟨hv, ha⟩)).update hv
        refine ⟨hco, hn, fun hno => ?_⟩
        rw [update_eq hv] at hno
        exact nomatch hv.symm.trans hno

section
variable (hw : Sound w)
include hw

theorem Sound.link (hst : ¬ (reconnect = false ∧ w.state ≠ .connecting ∨
      reconnect = true ∧ (w.state = .disconnected ∨ w.state = .connecting))) :
    Core { w with state := if reconnect then w.state else .connected, connectTimer := false } ∧
      Linked { w with state := if reconnect then w.state else .connected, connectTimer := false } := by
  cases reconnect with
  | true =>
    have hl : Linked w := linked_of_not fun h => hst (.inr ⟨rfl, h⟩)
    exact ⟨⟨⟨hw.following, hw.accounted, hw.timers, hw.error, fun _ => hl⟩, hw.fresh, hw.active⟩, hl⟩
  | false =>
    have hc : w.state = .connecting := by
      by_contra h
      exact hst (.inl ⟨rfl, h⟩)
    have hnot : w.state ≠ .ready := fun h => nomatch hc.symm.trans h
    refine ⟨⟨⟨hw.following, hw.accounted, hw.timers, hw.error, fun _ => .inl rfl⟩, ?_, ?_⟩, .inl rfl⟩
    · exact fun m hm => absurd (hw.fresh m hm).1 hnot
    · exact fun h => absurd (hw.active h) hnot

theorem Sound.connected (hca : Retryable w.calls) (h : w.connected reconnect = .ok w') : Sound w' := by
  unfold World.connected at h
  split at h
  · cases h; exact hw
  split at h
  · exact nomatch h
  next hst =>
    obtain ⟨hc, hl⟩ := hw.link hst
    have hs := fun w₁ synced => @sync_spec _ w₁ synced hc hw.notified hl hca
    split at h
    · exact nomatch h
    split at h
    · exact nomatch h
    next hsy =>
      rcases (hs _ _ hsy).2.2.2 with ⟨hok, -⟩ | hok
      · exact nomatch hok
      · exact nomatch hok
    next hsy =>
      obtain ⟨hc₁, hn₁, -, -⟩ := hs _ _ hsy
      cases h
      exact hc₁.scheduleRetry hn₁
    next hsy =>
      obtain ⟨hc₁, hn₁, -, ⟨-, hv⟩ | hok⟩ := hs _ _ hsy
      · cases h
        exact ⟨hc₁, hn₁, fun hno => absurd hno hv⟩
      · exact nomatch hok

theorem Sound.reconnecting (h : w.reconnecting = .ok w') : Sound w' := by
  unfold World.reconnecting at h
  split at h
  · cases h; exact hw
  split at h
  · exact nomatch h
  · cases h
    exact ⟨⟨⟨hw.following, hw.accounted, nofun, hw.error, nofun⟩, hw.fresh, hw.active⟩, hw.notified, fun _ h => nomatch h.2⟩

theorem Sound.expired : Sound w.expired := by
  have hf : Following { w with retrying := false, memberships := some ∅ } := hw.following
  have hu := hf.update rfl
  have ha : Accounted { w with retrying := false, memberships := some ∅ } := hw.accounted
  have hu' := ha.update rfl
  have heq := @update_eq { w with retrying := false, memberships := some ∅ } ∅ rfl
  unfold World.expired
  split
  · exact hw
  refine ⟨⟨⟨hu, hu', ?_, ?_, nofun⟩, nofun, ?_⟩, nofun, fun _ h => nomatch h.2⟩
  · rw [heq]
    exact nofun
  · rw [heq]
    exact hw.error
  · rintro (h | h)
    · exact nomatch h
    · exact absurd h (lt_irrefl 0)

theorem Sound.timedout : Sound w.timedout := by
  unfold World.timedout
  split
  · exact hw
  · exact hw.expired

theorem Sound.retry {calls : List Call} (hca : Retryable calls)
    (h : { w with calls, timers := w.timers - 1 }.retry = .ok w') : Sound w' := by
  unfold World.retry at h
  split at h
  next hr =>
    have hst : w.retrying = false := by simpa using hr
    have hnot : w.retrying ≠ true := fun h => nomatch hst.symm.trans h
    cases h
    refine ⟨⟨⟨hw.following, hw.accounted, fun h => absurd h hnot, hw.error, hw.linked⟩, hw.fresh, hw.active⟩, hw.notified, ?_⟩
    exact fun hno hu => .inr ((hw.tended hno hu).resolve_left fun h => hnot h.1)
  · split at h
    · exact nomatch h
    split at h
    · exact nomatch h
    next hsa =>
      have hl := linked_of_not hsa
      have hc : Core { w with calls, timers := w.timers - 1, retrying := false } :=
        ⟨⟨hw.following, hw.accounted, nofun, hw.error, fun _ => hl⟩, hw.fresh, hw.active⟩
      have hs := fun w₁ synced => @sync_spec _ w₁ synced hc hw.notified hl hca
      split at h
      · exact nomatch h
      next hsy =>
        rcases (hs _ _ hsy).2.2.2 with ⟨hok, -⟩ | hok
        · exact nomatch hok
        · exact nomatch hok
      next hsy =>
        obtain ⟨hc₁, hn₁, -, -⟩ := hs _ _ hsy
        cases h
        exact ⟨⟨⟨hc₁.following, hc₁.accounted, fun _ => Nat.succ_pos _, hc₁.error, hc₁.linked⟩, hc₁.fresh, hc₁.active⟩,
          hn₁, fun _ _ => .inl ⟨rfl, Nat.succ_pos _⟩⟩
      next hsy =>
        obtain ⟨hc₁, hn₁, -, ⟨-, hv⟩ | hok⟩ := hs _ _ hsy
        · cases h
          exact ⟨hc₁, hn₁, fun hno => absurd hno hv⟩
        · exact nomatch hok

theorem Sound.watched : Sound w.watched := by
  have hf := hw.following
  unfold Following at hf
  unfold World.watched
  split
  next hph =>
    rw [hph] at hf
    exact nomatch hf.2.choose_spec
  next hph =>
    rw [hph] at hf
    exact ⟨⟨⟨⟨hf.1, rfl⟩, hw.accounted, hw.timers, hw.error, hw.linked⟩, hw.fresh, hw.active⟩, hw.notified, hw.tended⟩
  · exact hw

theorem Sound.change (change : Change) : Sound { w with server := w.server.change change } := by
  have ha : (w.server.change change).Active → w.server.Active := active_of_changes [change]
  have hk : Kept w { w with server := w.server.change change } :=
    ⟨⟨rfl, rfl, rfl, rfl, rfl, rfl, rfl, later_change _ _, id⟩, .inl rfl, rfl, ha⟩
  exact hk.sound hw

end

/-! ## Runs -/

/-- **The condition on an event**: the calls to ZooKeeper succeed or can be tried again, and a watch that makes the group
fill its cache finds no other pending watch that expects something else. -/
def Meets (w : World) (event : Event) : Prop :=
  Retryable event.calls ∧
    match event, w.detector.phase with
    | .watch _ calls, _ | .request calls, .requesting _ => Undisturbing w calls
    | _, _ => True

/-- **What a handler keeps.** -/
theorem Sound.step {event : Event} (hw : Sound w) (hm : Meets w event) (h : w.step event = .ok w') : Sound w' := by
  unfold World.step at h
  cases event with
  | change change => cases h; exact hw.change change
  | join data calls => cases h; exact (hw.with_calls calls).join data
  | cancel _ calls => exact (hw.with_calls calls).cancel h
  | data membership calls => cases h; exact (hw.with_calls calls).data membership
  | watch _ calls => cases h; exact (hw.with_calls calls).watch nofun hm.1 hm.2
  | connected _ calls => exact (hw.with_calls calls).connected hm.1 h
  | reconnecting => exact hw.reconnecting h
  | timedout => cases h; exact hw.timedout
  | expired => cases h; exact hw.expired
  | updated =>
    dsimp only at h
    split at h
    · cases h; exact hw
    next hf =>
      cases h
      exact Steady.updated ⟨hw.following, hw.accounted, hw.timers, hw.error, hw.linked⟩ (hw.active (.inr (Nat.pos_of_ne_zero hf)))
        hm.1
  | retry =>
    dsimp only at h
    split at h
    · cases h; exact hw
    · exact hw.retry hm.1 h
  | request calls =>
    unfold Meets at hm
    dsimp only at h
    split at h
    next hph =>
      rw [hph] at hm
      cases h
      exact (hw.with_calls calls).watch (fun _ => hph) hm.1 hm.2
    · cases h; exact hw
  | watched => cases h; exact hw.watched

theorem sound_start (auth : Bool) : Sound { auth } := by
  have hi : ¬ ({} : Server).Active := by
    rintro (h | h)
    · exact nomatch h
    · exact absurd h (lt_irrefl 0)
  exact ⟨⟨⟨⟨rfl, rfl⟩, ⟨.nil, nofun⟩, nofun, rfl, nofun⟩, nofun, fun h => absurd h hi⟩, nofun, fun _ h => nomatch h.2⟩

end Clusterd.Group
