import Clusterd.Run
/-!
# The listener for out-of-memory events (`OomListenerProcess`)

`listen` watches `memory.events` of a cgroup and reads it; the future that it returns is kept by the path.  The handler of a
discard looks for the future by the path too, and `listen` does not know whether the loop over the events still runs.
-/
namespace Clusterd.Oom

inductive Status
  | pending
  | ready
  | failed
  | discarded
deriving DecidableEq

structure Future where
  path : String
  status : Status := .pending
  hasDiscard : Bool := false

/-- The futures are numbered in the order of the calls.  The watcher is `alive` until it fails, and the
loop `running` until `fail` is called for that. -/
structure World where
  count : Nat := 0
  futures : Nat → Option Future := fun _ => none
  ooms : String → Option Nat := fun _ => none
  alive : Bool := true
  running : Bool := true
  watched : String → Bool := fun _ => false
  oom : String → Nat := fun _ => 0
  writes : List String := []
  discards : List String := []

/-- The handler is that of the oldest discard, and the event that is read the oldest `Write`.  Of `add` and of a read of the file
it is said whether they succeed. -/
inductive Event
  | listen (path : String) (add read : Bool)
  | discard (id : Nat)
  | onDiscard
  | write (path : String) (ooms : Nat)
  | readEvents (read : Bool)
  | failure
  | fail

namespace World

section

variable (this : World)

/-- The promise is completed and erased. -/
def complete (path : String) (id : Nat) (status : Status) : World :=
  { this with
    futures := fun other => if other = id then (this.futures id).map ({ · with status }) else this.futures other
    ooms := fun other => if other = path then none else this.ooms other }

def readEvents (path : String) (read : Bool) : World :=
  match this.ooms path with
  | none => this
  | some id =>
    if !read then this.complete path id .failed
    else if this.oom path > 0 then this.complete path id .ready
    else this

def push (future : Future) : World :=
  { this with
    count := this.count + 1
    futures := fun other => if other = this.count then some future else this.futures other }

def listen (path : String) (add read : Bool) : World :=
  if (this.ooms path).isSome || !add then this.push { path, status := .failed }
  else
    { this.push { path } with
      ooms := fun other => if other = path then some this.count else this.ooms other
      watched := fun other => other = path || this.watched other }.readEvents path read

def step : Event → World
  | .listen path add read => this.listen path add read
  | .discard id =>
    match this.futures id with
    | none => this
    | some future =>
      if future.status = .pending && !future.hasDiscard then
        { this with
          futures := fun other => if other = id then some { future with hasDiscard := true } else this.futures other
          discards := this.discards ++ [future.path] }
      else this
  | .onDiscard =>
    match this.discards with
    | [] => this
    | path :: rest =>
      let this := { this with discards := rest }
      match this.ooms path with
      | none => this
      | some id => { this.complete path id .discarded with watched := fun other => other ≠ path && this.watched other }
  | .write path ooms =>
    { this with
      oom := fun other => if other = path then this.oom path + ooms else this.oom other
      writes := if this.watched path && this.alive then this.writes ++ [path] else this.writes }
  | .readEvents read =>
    match this.writes with
    | [] => this
    | path :: rest => { this with writes := rest }.readEvents path read
  | .failure => { this with alive := false }
  | .fail =>
    -- The loop reads the `Failure` event after the others, and ends once.
    if this.alive || !this.running || this.writes ≠ [] then this
    else
      { this with
        futures := fun id => (this.futures id).map fun future =>
          if this.ooms future.path = some id then { future with status := .failed } else future
        ooms := fun _ => none
        running := false }

/-- **No event is lost.**  A future that is not complete is known by its path, the event or the handler that it waits for is yet
to come, or the call of `fail` if the watcher has failed; the others are complete for their own sake. -/
structure Heard (this : World) : Prop where
  pending : ∀ id future, this.futures id = some future → future.status = .pending → this.running = true ∧
    this.ooms future.path = some id ∧ (this.alive = true → 0 < this.oom future.path → future.path ∈ this.writes) ∧
    (future.hasDiscard = true → future.path ∈ this.discards)
  ready : ∀ id future, this.futures id = some future → future.status = .ready → 0 < this.oom future.path
  discarded : ∀ id future, this.futures id = some future → future.status = .discarded → future.hasDiscard = true

/-- A call by which a path is watched comes while the loop runs, and after the handlers of the discards for the path. -/
def Meets : Event → Prop
  | .listen path add _ => add = true → this.running = true ∧ path ∉ this.discards
  | _ => True

end

/-! ## The invariant -/

/-- What a future that is not complete can rely on. -/
structure Awaited (this : World) (id : Nat) (future : Future) : Prop where
  running : this.running = true
  known : this.ooms future.path = some id
  watched : this.watched future.path = true
  event : this.alive = true → 0 < this.oom future.path → future.path ∈ this.writes
  handler : future.hasDiscard = true → future.path ∈ this.discards

structure Fits (this : World) (id : Nat) (future : Future) : Prop where
  pending : future.status = .pending → this.Awaited id future
  ready : future.status = .ready → 0 < this.oom future.path
  discarded : future.status = .discarded → future.hasDiscard = true

/-- A future that is kept by its path is not complete, and the one that a handler of a discard will find was discarded. -/
structure Kept (this : World) (path : String) (future : Future) : Prop where
  named : future.path = path
  pending : future.status = .pending
  discard : path ∈ this.discards → future.hasDiscard = true

structure Sound (this : World) : Prop where
  fits : ∀ id future, this.futures id = some future → this.Fits id future
  ooms : ∀ path id, this.ooms path = some id → ∃ future, this.futures id = some future ∧ this.Kept path future
  fresh : ∀ id, this.count ≤ id → this.futures id = none

variable {this : World} {path : String} {id : Nat} {event : Event} {future : Future} {rest : List String}

theorem Sound.heard (h : this.Sound) : this.Heard where
  pending id future hfuture hpending := by
    have hawaited := (h.fits id future hfuture).pending hpending
    exact ⟨hawaited.running, hawaited.known, hawaited.event, hawaited.handler⟩
  ready id future hfuture := (h.fits id future hfuture).ready
  discarded id future hfuture := (h.fits id future hfuture).discarded

/-- The promises of other paths are other promises. -/
theorem Sound.ne_of_path_ne (h : this.Sound) {other : String} {i : Nat} (ho : this.ooms path = some id)
    (hother : this.ooms other = some i) (hne : other ≠ path) : i ≠ id := by
  rintro rfl
  obtain ⟨future, hfuture, hkept⟩ := h.ooms path i ho
  obtain ⟨_, hsame, hkept'⟩ := h.ooms other i hother
  cases hfuture.symm.trans hsame
  exact hne (hkept'.named.symm.trans hkept.named)

theorem Sound.count_ne (h : this.Sound) (hfuture : this.futures id = some future) : id ≠ this.count := by
  rintro rfl
  rw [h.fresh _ (Nat.le_refl _)] at hfuture
  cases hfuture

/-- A promise is completed for a reason. -/
theorem Sound.complete (h : this.Sound) (ho : this.ooms path = some id) {status : Status} (hpending : status ≠ .pending)
    (hready : status = .ready → 0 < this.oom path)
    (hdiscarded : status = .discarded → path ∈ this.discards) : (this.complete path id status).Sound := by
  obtain ⟨kept, hkept, hpath, -, hdiscard⟩ := h.ooms path id ho
  refine ⟨fun other future hfuture => ?_, fun other i hother => ?_, fun i hi => ?_⟩
  · by_cases hid : other = id
    · obtain rfl : { kept with status } = future := by
        rw [World.complete] at hfuture
        dsimp only at hfuture
        rw [if_pos hid, hkept] at hfuture
        exact Option.some.inj hfuture
      refine ⟨fun hs => absurd hs hpending, fun hs => ?_, fun hs => hdiscard (hdiscarded hs)⟩
      rw [hpath]
      exact hready hs
    · obtain ⟨hp, hr, hd⟩ := h.fits other future ((if_neg hid).symm.trans hfuture)
      refine ⟨fun hs => ?_, hr, hd⟩
      have hne : future.path ≠ path := fun heq => by
        have hknown := (hp hs).known
        rw [heq, ho] at hknown
        exact hid (Option.some.inj hknown).symm
      exact { hp hs with known := (if_neg hne).trans (hp hs).known }
  · by_cases heq : other = path
    · cases (if_pos heq).symm.trans hother
    · replace hother := (if_neg heq).symm.trans hother
      obtain ⟨future, hfuture, hk⟩ := h.ooms other i hother
      exact ⟨future, (if_neg (h.ne_of_path_ne ho hother heq)).trans hfuture, hk.named, hk.pending, hk.discard⟩
  · have hne : i ≠ id := fun heq => by
      rw [← heq, h.fresh i hi] at hkept
      cases hkept
    exact (if_neg hne).trans (h.fresh i hi)

section
variable (h : { this with writes := path :: this.writes }.Sound)
include h

/-- An event for a path is not needed if there is no future, or nothing to hear. -/
theorem Sound.drop (hn : this.ooms path = none ∨ this.oom path = 0) : this.Sound := by
  refine ⟨fun id future hfuture => ?_, fun other id ho => ?_, h.fresh⟩
  · obtain ⟨hp, hr, hd⟩ := h.fits id future hfuture
    refine ⟨fun hs => ?_, hr, hd⟩
    obtain ⟨hrunning, hknown, hwatched, hevent, hhandler⟩ := hp hs
    refine ⟨hrunning, hknown, hwatched, fun halive hoom => ?_, hhandler⟩
    refine (List.mem_cons.1 (hevent halive hoom)).resolve_left fun heq => ?_
    rcases hn with hn | hn
    · rw [← heq] at hn
      cases hn.symm.trans hknown
    · rw [← heq] at hn
      exact Nat.ne_of_gt hoom hn
  · obtain ⟨future, hfuture, hk⟩ := h.ooms other id ho
    exact ⟨future, hfuture, hk.named, hk.pending, hk.discard⟩

/-- **Reading the file makes up for the event.** -/
theorem Sound.readEvents (read : Bool) : (this.readEvents path read).Sound := by
  unfold World.readEvents
  split
  next ho => exact h.drop (.inl ho)
  next ho =>
    split_ifs with hr hz
    · exact Sound.drop (h.complete ho nofun nofun nofun) (.inl (if_pos rfl))
    · exact Sound.drop (h.complete ho nofun (fun _ => hz) nofun) (.inl (if_pos rfl))
    · exact h.drop (.inr (Nat.eq_zero_of_not_pos hz))

end

theorem Sound.listen_fails (h : this.Sound) (path : String) : (this.push { path, status := .failed }).Sound := by
  refine ⟨fun id future hfuture => ?_, fun other id ho => ?_, fun id hid => ?_⟩
  · by_cases hid : id = this.count
    · cases (if_pos hid).symm.trans hfuture
      exact ⟨nofun, nofun, nofun⟩
    · obtain ⟨hp, hr, hd⟩ := h.fits id future ((if_neg hid).symm.trans hfuture)
      exact ⟨fun hs => { hp hs with }, hr, hd⟩
  · obtain ⟨future, hfuture, hk⟩ := h.ooms other id ho
    exact ⟨future, (if_neg (h.count_ne hfuture)).trans hfuture, hk.named, hk.pending, hk.discard⟩
  · exact (if_neg (Nat.ne_of_gt hid)).trans (h.fresh id (Nat.le_of_succ_le hid))

/-- The new future has the file read, as if there was an event. -/
theorem Sound.listens (h : this.Sound) (hnone : this.ooms path = none) (hrunning : this.running = true)
    (hdiscards : path ∉ this.discards) : { this.push { path } with
      ooms := fun other => if other = path then some this.count else this.ooms other
      watched := fun other => other = path || this.watched other
      writes := path :: this.writes }.Sound := by
  refine ⟨fun id future hfuture => ?_, fun other id ho => ?_, fun id hid => ?_⟩
  · by_cases hid : id = this.count
    · cases (if_pos hid).symm.trans hfuture
      refine ⟨fun _ => ⟨hrunning, ?_, ?_, fun _ _ => List.mem_cons_self, nofun⟩, nofun, nofun⟩
      · exact (if_pos rfl).trans (congrArg some hid.symm)
      · simp
    · obtain ⟨hp, hr, hd⟩ := h.fits id future ((if_neg hid).symm.trans hfuture)
      refine ⟨fun hs => ?_, hr, hd⟩
      obtain ⟨hrunning, hknown, hwatched, hevent, hhandler⟩ := hp hs
      have hne : future.path ≠ path := fun heq => by
        rw [heq, hnone] at hknown
        cases hknown
      refine ⟨hrunning, (if_neg hne).trans hknown, ?_, fun ha hz => List.mem_cons_of_mem _ (hevent ha hz), hhandler⟩
      dsimp only
      rw [hwatched, Bool.or_true]
  · by_cases heq : other = path
    · subst heq
      cases (if_pos rfl).symm.trans ho
      exact ⟨{ path := other }, if_pos rfl, rfl, rfl, fun hd => absurd hd hdiscards⟩
    · obtain ⟨future, hfuture, hk⟩ := h.ooms other id ((if_neg heq).symm.trans ho)
      exact ⟨future, (if_neg (h.count_ne hfuture)).trans hfuture, hk.named, hk.pending, hk.discard⟩
  · exact (if_neg (Nat.ne_of_gt hid)).trans (h.fresh id (Nat.le_of_succ_le hid))

theorem Sound.listen (h : this.Sound) {add read : Bool} (hm : this.Meets (.listen path add read)) :
    (this.listen path add read).Sound := by
  rw [World.listen]
  split_ifs with ha
  · exact h.listen_fails path
  · obtain ⟨hnone, hadd⟩ : this.ooms path = none ∧ add = true := by simpa using ha
    obtain ⟨hrunning, hdiscards⟩ := hm hadd
    exact Sound.readEvents (h.listens hnone hrunning hdiscards) read

theorem Sound.discard (h : this.Sound) (hfuture : this.futures id = some future) (hpending : future.status = .pending) :
    { this with
      futures := fun other => if other = id then some { future with hasDiscard := true } else this.futures other
      discards := this.discards ++ [future.path] }.Sound := by
  have hknown := ((h.fits id future hfuture).pending hpending).known
  refine ⟨fun other new hnew => ?_, fun path i ho => ?_, fun other hother => ?_⟩
  · by_cases hid : other = id
    · cases (if_pos hid).symm.trans hnew
      subst hid
      obtain ⟨hp, hr, -⟩ := h.fits other future hfuture
      exact ⟨fun hs => { hp hs with handler := fun _ => List.mem_append_right _ (List.mem_singleton_self _) }, hr,
        fun _ => rfl⟩
    · obtain ⟨hp, hr, hd⟩ := h.fits other new ((if_neg hid).symm.trans hnew)
      exact ⟨fun hs => { hp hs with handler := fun hd => List.mem_append_left _ ((hp hs).handler hd) }, hr, hd⟩
  · obtain ⟨kept, hkept, hpath, hpending, hdiscard⟩ := h.ooms path i ho
    by_cases hid : i = id
    · subst hid
      cases hkept.symm.trans hfuture
      exact ⟨_, if_pos rfl, hpath, hpending, fun _ => rfl⟩
    · refine ⟨kept, (if_neg hid).trans hkept, hpath, hpending, fun hd => hdiscard ?_⟩
      refine (List.mem_append.1 hd).resolve_right fun hlast => hid ?_
      rw [← List.mem_singleton.1 hlast, ho] at hknown
      exact Option.some.inj hknown
  · have hid : other ≠ id := fun heq => by
      rw [← heq, h.fresh other hother] at hfuture
      cases hfuture
    exact (if_neg hid).trans (h.fresh other hother)

/-- A handler that finds no promise changes nothing for the futures of other paths, whether or not it removes the watch. -/
theorem Sound.handled (h : this.Sound) (hq : this.discards = path :: rest) (hnone : this.ooms path = none)
    {watched : String → Bool} (hwatched : ∀ other ≠ path, this.watched other = true → watched other = true) :
    { this with discards := rest, watched }.Sound := by
  refine ⟨fun id future hfuture => ?_, fun other id ho => ?_, h.fresh⟩
  · obtain ⟨hp, hr, hd⟩ := h.fits id future hfuture
    refine ⟨fun hs => ?_, hr, hd⟩
    obtain ⟨hrunning, hknown, hwatch, hevent, hhandler⟩ := hp hs
    have hne : future.path ≠ path := fun heq => by
      rw [heq, hnone] at hknown
      cases hknown
    refine ⟨hrunning, hknown, hwatched _ hne hwatch, hevent, fun hd => ?_⟩
    exact (List.mem_cons.1 (hq ▸ hhandler hd)).resolve_left hne
  · obtain ⟨future, hfuture, hk⟩ := h.ooms other id ho
    exact ⟨future, hfuture, hk.named, hk.pending, fun hd => hk.discard (hq ▸ List.mem_cons_of_mem _ hd)⟩

theorem Sound.onDiscard (h : this.Sound) : (this.step .onDiscard).Sound := by
  rw [World.step]
  split
  · exact h
  next path rest hq =>
    dsimp only
    split
    next hnone => exact h.handled hq hnone fun _ _ hw => hw
    next id ho =>
      have hcomplete : (this.complete path id .discarded).Sound :=
        h.complete ho nofun nofun fun _ => hq ▸ List.mem_cons_self
      exact hcomplete.handled hq (if_pos rfl) fun _ hne hw =>
        Bool.and_eq_true_iff.2 ⟨decide_eq_true hne, hw⟩

theorem Sound.write (h : this.Sound) (path : String) (ooms : Nat) : (this.step (.write path ooms)).Sound := by
  rw [World.step]
  refine ⟨fun id future hfuture => ?_, fun other id ho => ?_, h.fresh⟩
  · obtain ⟨hp, hr, hd⟩ := h.fits id future hfuture
    refine ⟨fun hs => ?_, fun hs => ?_, hd⟩
    · obtain ⟨hrunning, hknown, hwatched, hevent, hhandler⟩ := hp hs
      refine ⟨hrunning, hknown, hwatched, fun halive hoom => ?_, hhandler⟩
      dsimp only at halive hoom ⊢
      by_cases heq : future.path = path
      · subst heq
        rw [hwatched, halive, Bool.and_self, if_pos rfl]
        exact List.mem_append_right _ (List.mem_singleton_self _)
      · rw [if_neg heq] at hoom
        split_ifs
        · exact List.mem_append_left _ (hevent halive hoom)
        · exact hevent halive hoom
    · dsimp only
      split_ifs with heq
      · exact Nat.lt_of_lt_of_le (heq ▸ hr hs) (Nat.le_add_right _ _)
      · exact hr hs
  · obtain ⟨future, hfuture, hk⟩ := h.ooms other id ho
    exact ⟨future, hfuture, hk.named, hk.pending, hk.discard⟩

theorem Sound.failure (h : this.Sound) : (this.step .failure).Sound := by
  refine ⟨fun id future hfuture => ?_, fun other id ho => ?_, h.fresh⟩
  · obtain ⟨hp, hr, hd⟩ := h.fits id future hfuture
    exact ⟨fun hs => { hp hs with event := nofun }, hr, hd⟩
  · obtain ⟨future, hfuture, hk⟩ := h.ooms other id ho
    exact ⟨future, hfuture, hk.named, hk.pending, hk.discard⟩

/-- The end of the loop leaves no future that is not complete. -/
theorem Sound.fail (h : this.Sound) : (this.step .fail).Sound := by
  rw [World.step]
  split_ifs
  · exact h
  refine ⟨fun id future hfuture => ?_, nofun, fun id hid => ?_⟩
  · obtain ⟨old, hold, hnew⟩ := Option.map_eq_some_iff.1 hfuture
    obtain ⟨hp, hr, hd⟩ := h.fits id old hold
    split_ifs at hnew with hknown
    · subst hnew
      exact ⟨nofun, nofun, nofun⟩
    · subst hnew
      exact ⟨fun hs => absurd (hp hs).known hknown, hr, hd⟩
  · dsimp only
    rw [h.fresh id hid, Option.map_none]

theorem Sound.step (h : this.Sound) (hm : this.Meets event) : (this.step event).Sound := by
  cases event with
  | listen => exact h.listen hm
  | discard id =>
    rw [World.step]
    split
    · exact h
    next future hfuture =>
      split_ifs with hs
      · exact h.discard hfuture (by simpa using (Bool.and_eq_true_iff.1 hs).1)
      · exact h
  | onDiscard => exact h.onDiscard
  | write path ooms => exact h.write path ooms
  | readEvents read =>
    rw [World.step]
    split
    · exact h
    next hq =>
      refine Sound.readEvents ?_ read
      rw [← hq]
      exact h
  | failure => exact h.failure
  | fail => exact h.fail

/-! ## One future a step -/

theorem futures_complete {path : String} {i : Nat} {status : Status} (hi : id ≠ i) :
    (this.complete path i status).futures id = this.futures id := if_neg hi

theorem futures_readEvents (read : Bool) (hi : this.ooms path ≠ some id) :
    (this.readEvents path read).futures id = this.futures id := by
  unfold World.readEvents
  split
  · rfl
  next i ho =>
    have hne : id ≠ i := fun heq => hi (heq ▸ ho)
    split_ifs
    · exact futures_complete hne
    · exact futures_complete hne
    · rfl

/-- **A step is about one future**, but for the end of the loop. -/
theorem step_one (he : event ≠ .fail) :
    ∃ id, ∀ other, other ≠ id → (this.step event).futures other = this.futures other := by
  cases event with
  | listen path _ read =>
    refine ⟨this.count, fun other ho => ?_⟩
    rw [World.step, World.listen]
    split_ifs
    · exact if_neg ho
    · refine (futures_readEvents read ?_).trans (if_neg ho)
      dsimp only
      rw [if_pos rfl]
      exact fun heq => ho (Option.some.inj heq).symm
  | discard id =>
    refine ⟨id, fun other ho => ?_⟩
    rw [World.step]
    split
    · rfl
    · split_ifs
      · exact if_neg ho
      · rfl
  | onDiscard =>
    rw [World.step]
    split
    · exact ⟨0, fun _ _ => rfl⟩
    next path rest _ =>
      dsimp only
      split
      · exact ⟨0, fun _ _ => rfl⟩
      next id _ => exact ⟨id, fun _ ho => if_neg ho⟩
  | write | failure => exact ⟨0, fun _ _ => rfl⟩
  | readEvents read =>
    rw [World.step]
    cases this.writes with
    | nil => exact ⟨0, fun _ _ => rfl⟩
    | cons path =>
      refine ⟨(this.ooms path).getD 0, fun other ho => futures_readEvents read fun hid => ho ?_⟩
      rw [show this.ooms path = some other from hid, Option.getD_some]
  | fail => exact absurd rfl he

end World

/-- **Out-of-memory events are not lost**, in every run in which a path is only watched while the loop over the events runs and
after the handlers of its discards; when no event and no handler is left, the futures that are not complete have nothing to hear. -/
theorem ooms_heard (events : List Event) (hm : Run.Along World.step World.Meets {} events) :
    let this := events.foldl World.step {}
    this.Heard ∧ (this.writes = [] → this.discards = [] → (this.running = true → this.alive = true) →
      ∀ id future, this.futures id = some future → future.status = .pending →
        this.alive = true ∧ this.oom future.path = 0 ∧ future.hasDiscard = false) ∧
    ∀ event ≠ .fail, ∃ id, ∀ other, other ≠ id → (this.step event).futures other = this.futures other := by
  have hs : World.Sound {} := ⟨nofun, nofun, fun _ _ => rfl⟩
  have h := Run.Along.invariant (I := World.Sound) (fun _ _ h hm => h.step hm) events hs hm
  refine ⟨h.heard, fun hw hd ha id future hu hp => ?_, fun _ he => World.step_one he⟩
  obtain ⟨hrunning, -, hevent, hhandler⟩ := h.heard.pending id future hu hp
  rw [hw] at hevent
  rw [hd] at hhandler
  refine ⟨ha hrunning, Nat.eq_zero_of_not_pos fun hz => ?_, Bool.eq_false_iff.2 fun hd => ?_⟩
  · exact List.not_mem_nil (hevent (ha hrunning) hz)
  · exact List.not_mem_nil (hhandler hd)

/-- A future is discarded, and the cgroup is listened to again. -/
theorem ooms_heard_again :
    let events : List Event := [.listen "a" true true, .discard 0, .onDiscard, .listen "a" true true, .write "a" 1]
    (events.foldl World.step {}).writes = ["a"] ∧ (events.foldl World.step {}).Heard := by
  intro events
  exact ⟨rfl, (ooms_heard events ⟨fun _ => ⟨rfl, nofun⟩, trivial, trivial, fun _ => ⟨rfl, nofun⟩, trivial, trivial⟩).1⟩

/-- **A future that is asked for when the loop has ended is never complete**, and an old discard discards a new future. -/
theorem ooms_missed :
    let ended : List Event := [.failure, .fail, .listen "a" true true]
    let again : List Event :=
      [.listen "a" true true, .discard 0, .write "a" 0, .readEvents false, .listen "a" true true, .onDiscard]
    ¬ (ended.foldl World.step {}).Heard ∧ ¬ (again.foldl World.step {}).Heard := by
  refine ⟨fun h => ?_, fun h => ?_⟩
  · exact absurd (h.pending 0 { path := "a" } rfl rfl).1 (by decide)
  · exact nomatch h.discarded 1 { path := "a", status := .discarded } rfl rfl

end Clusterd.Oom
