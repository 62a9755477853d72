import Clusterd.Fallible
/-!
# Concurrent pulls of an image

The Docker store pulls an image once for all the calls of `get` that ask for it meanwhile, and discards the pull when they
all are.  The callbacks of a pull find it by the name of the image.  So the late callback of a discarded pull removes
the entry of the next one.
-/
namespace Clusterd.DockerPulls

open List
open Function (update)

/-- A pull that was started, with the number of calls of `get` that have joined it and are not discarded. -/
structure Pull where
  key : String
  users : Nat := 1
  hasDiscard : Bool := false
  done : Bool := false

/-- An entry of `pulling`, with the pull by its number. -/
structure Pulling where
  (pull useCount : Nat)
deriving DecidableEq

inductive Callback
  | discarded
  | completed
deriving DecidableEq

/-- A callback that is dispatched to the store.  It knows the key only; the pull is for specification. -/
structure Message where
  callback : Callback
  key : String
  pull : Nat

/-- `CHECK(!pulling.at(pullKey).future.hasDiscard())`. -/
inductive Check
  | hasDiscard

structure World where
  pulling : String → Option Pulling := fun _ => none
  pulls : List Pull := []
  mailbox : List Message := []

namespace World

variable (this : World)

/-- `_get` of an image that is not cached; `staging` says whether a staging directory can be made. -/
def get (key : String) (staging : Bool) : Except Check World :=
  match this.pulling key with
  | some entry =>
    if this.pulls[entry.pull]?.any (·.hasDiscard) then .error .hasDiscard
    else .ok { this with
      pulling := update this.pulling key (some { entry with useCount := entry.useCount + 1 })
      pulls := this.pulls.modify entry.pull fun pull => { pull with users := pull.users + 1 } }
  | none => .ok <|
    if staging then
      { this with
        pulling := update this.pulling key (some ⟨this.pulls.length, 1⟩)
        pulls := this.pulls ++ [{ key }] }
    else this

/-- One of the futures that wait for the pull is discarded. -/
def discard (i : Nat) : World :=
  match this.pulls[i]? with
  | none => this
  | some pull =>
    if pull.users = 0 ∨ pull.done then this
    else { this with
      pulls := this.pulls.modify i fun pull => { pull with users := pull.users - 1 }
      mailbox := this.mailbox ++ [⟨.discarded, pull.key, i⟩] }

/-- The pull is ready, has failed or is discarded. -/
def complete (i : Nat) : World :=
  match this.pulls[i]? with
  | none => this
  | some pull =>
    if pull.done then this
    else { this with
      pulls := this.pulls.modify i fun pull => { pull with done := true }
      mailbox := this.mailbox ++ [⟨.completed, pull.key, i⟩] }

def receive (message : Message) : World :=
  match message.callback, this.pulling message.key with
  | _, none => this
  | .completed, some _ => { this with pulling := update this.pulling message.key none }
  | .discarded, some entry =>
    if entry.useCount = 1 then
      { this with
        pulling := update this.pulling message.key none
        pulls := this.pulls.modify entry.pull fun pull => { pull with hasDiscard := pull.hasDiscard || !pull.done } }
    else
      { this with pulling := update this.pulling message.key (some { entry with useCount := entry.useCount - 1 }) }

end World

inductive Event
  | get (key : String) (staging : Bool)
  | discard (pull : Nat)
  | complete (pull : Nat)
  /-- The store runs the next callback. -/
  | handle

section

variable (this : World)

def World.step : Event → Except Check World
  | .get key staging => this.get key staging
  | .discard pull => .ok (this.discard pull)
  | .complete pull => .ok (this.complete pull)
  | .handle => .ok <|
    match this.mailbox with
    | [] => this
    | message :: rest => receive { this with mailbox := rest } message

/-! ## Users of a pull -/

/-- The users of a pull whose discards are yet to be handled. -/
def World.discarding (i : Nat) : Nat :=
  this.mailbox.countP fun message => message.callback = .discarded ∧ message.pull = i

/-- **Pulls are shared, and discarded only when nobody wants them.** -/
structure Shared : Prop where
  /-- A pull in flight that was not asked to discard is the one in `pulling`. -/
  single : ∀ i pull, this.pulls[i]? = some pull → pull.done = false → pull.hasDiscard = false →
    ∃ useCount, this.pulling pull.key = some ⟨i, useCount⟩
  counted : ∀ key entry, this.pulling key = some entry → ∃ pull, this.pulls[entry.pull]? = some pull ∧ pull.key = key ∧
    pull.hasDiscard = false ∧ entry.useCount = pull.users + this.discarding entry.pull
  discarded : ∀ (i : Nat) (pull : Pull), this.pulls[i]? = some pull → pull.hasDiscard = true → pull.users = 0

/-- A pull is started when those of the same image are over, with all their callbacks. -/
def Meets : Event → Prop
  | .get key _ => this.pulling key = none →
    (∀ pull ∈ this.pulls, pull.key = key → pull.done = true) ∧ ∀ message ∈ this.mailbox, message.key ≠ key
  | .discard _ | .complete _ | .handle => True

end

instance (this : World) : (event : Event) → Decidable (Meets this event)
  | .get _ _ => by unfold Meets; infer_instance
  | .discard _ | .complete _ | .handle => isTrue trivial

/-- The callbacks and the pulls in flight that have the key of an entry are those of its pull. -/
structure Sound (this : World) : Prop extends Shared this where
  flight : ∀ i pull, this.pulls[i]? = some pull → pull.done = false → ∀ entry, this.pulling pull.key = some entry →
    entry.pull = i
  current : ∀ message ∈ this.mailbox, ∀ entry, this.pulling message.key = some entry → entry.pull = message.pull
  completed : ∀ message ∈ this.mailbox, ∃ pull, this.pulls[message.pull]? = some pull ∧ pull.key = message.key ∧
    (message.callback = .completed → pull.done = true)

/-! ### Changes of a pull -/

/-- What every change of a pull keeps. -/
structure Keeps (f : Pull → Pull) : Prop where
  key : ∀ pull, (f pull).key = pull.key
  done : ∀ pull, pull.done = true → (f pull).done = true
  hasDiscard : ∀ pull, pull.hasDiscard = true → (f pull).hasDiscard = true

variable {this next : World} {f : Pull → Pull} {i j : Nat} {pull : Pull} {key : String} {entry : Pulling}
  {message : Message} {rest : List Message}

theorem Keeps.get {pulls : List Pull} {old : Pull} (hf : Keeps f) (h : pulls[j]? = some old) :
    ∃ pull, (pulls.modify i f)[j]? = some pull ∧ pull = (if i = j then f old else old) ∧ pull.key = old.key ∧
      (old.done = true → pull.done = true) := by
  refine ⟨if i = j then f old else old, by rw [getElem?_modify, h]; rfl, rfl, ?_⟩
  split_ifs
  · exact ⟨hf.key old, hf.done old⟩
  · exact ⟨rfl, id⟩

theorem Keeps.inv {pulls : List Pull} (hf : Keeps f) (h : (pulls.modify i f)[j]? = some pull) :
    ∃ old, pulls[j]? = some old ∧ pull = (if i = j then f old else old) ∧ pull.key = old.key ∧
      (pull.done = false → old.done = false) ∧ (pull.hasDiscard = false → old.hasDiscard = false) := by
  obtain ⟨old, hold, rfl⟩ : ∃ old, pulls[j]? = some old ∧ (if i = j then f old else old) = pull := by
    rw [getElem?_modify] at h
    exact Option.map_eq_some_iff.1 h
  refine ⟨old, hold, rfl, ?_⟩
  split_ifs
  · exact ⟨hf.key old, fun h => Bool.eq_false_iff.2 fun ho => Bool.eq_false_iff.1 h (hf.done old ho),
      fun h => Bool.eq_false_iff.2 fun ho => Bool.eq_false_iff.1 h (hf.hasDiscard old ho)⟩
  · exact ⟨rfl, id, id⟩

/-- A pull of another image is not that of the entry. -/
theorem Shared.pull_ne (h : Shared this) (hentry : this.pulling key = some entry) (hpull : this.pulls[i]? = some pull)
    (hkey : pull.key ≠ key) : entry.pull ≠ i := by
  rintro rfl
  obtain ⟨_, hcounted, hk, -⟩ := h.counted key entry hentry
  cases hcounted.symm.trans hpull
  exact hkey hk

/-- **What a step that starts no pull keeps**: it changes one pull, posts callbacks of this pull only, and leaves no entry of
another pull. -/
theorem Sound.later (h : Sound this) (hshared : Shared next) (hpulls : next.pulls = this.pulls.modify i f) (hf : Keeps f)
    (hentries : ∀ key entry, next.pulling key = some entry → ∃ old, this.pulling key = some old ∧ old.pull = entry.pull)
    (hmailbox : ∀ message ∈ next.mailbox, message ∈ this.mailbox ∨ message.pull = i ∧ ∃ pull, this.pulls[i]? = some pull ∧
      pull.key = message.key ∧ pull.done = false ∧ (message.callback = .completed → (f pull).done = true)) :
    Sound next where
  toShared := hshared
  flight j pull hpull hflight entry hentry := by
    obtain ⟨old, hold, -, hkey, hdone, -⟩ := hf.inv (hpulls ▸ hpull)
    obtain ⟨was, hwas, hsame⟩ := hentries _ entry hentry
    rw [← hsame]
    exact h.flight j old hold (hdone hflight) was (hkey ▸ hwas)
  current message hm entry hentry := by
    obtain ⟨was, hwas, hsame⟩ := hentries _ entry hentry
    rw [← hsame]
    rcases hmailbox message hm with hm | ⟨hi, pull, hpull, hkey, hflight, -⟩
    · exact h.current message hm was hwas
    · rw [hi]
      exact h.flight i pull hpull hflight was (hkey ▸ hwas)
  completed message hm := by
    rw [hpulls]
    rcases hmailbox message hm with hm | ⟨hi, old, hold, hkey, -, hdone⟩
    · obtain ⟨old, hold, hkey, hdone⟩ := h.completed message hm
      obtain ⟨pull, hpull, -, hkey', hdone'⟩ := hf.get (i := i) hold
      exact ⟨pull, hpull, hkey'.trans hkey, fun hc => hdone' (hdone hc)⟩
    · obtain ⟨pull, hpull, hnew, hkey', -⟩ := hf.get (i := i) hold
      rw [hi]
      refine ⟨pull, hpull, hkey'.trans hkey, fun hc => ?_⟩
      rw [hnew, if_pos rfl]
      exact hdone hc

/-! ### Entries -/

theorem of_update {pulling : String → Option Pulling} {value : Option Pulling} {other : String} {new : Pulling}
    (h : update pulling key value other = some new) :
    other = key ∧ value = some new ∨ other ≠ key ∧ pulling other = some new := by
  by_cases hk : other = key
  · subst hk
    rw [Function.update_self] at h
    exact .inl ⟨rfl, h⟩
  · rw [Function.update_of_ne hk] at h
    exact .inr ⟨hk, h⟩

theorem of_update_none {pulling : String → Option Pulling} {other : String} {new : Pulling}
    (h : update pulling key none other = some new) : other ≠ key ∧ pulling other = some new :=
  (of_update h).resolve_left fun h => nomatch h.2

/-- A user joins the pull, or leaves it and is not the last one: the entry keeps its pull. -/
theorem pulling_update {other : String} {new : Pulling} (hentry : this.pulling key = some entry) {useCount : Nat}
    (h : update this.pulling key (some { entry with useCount }) other = some new) :
    ∃ old, this.pulling other = some old ∧ old.pull = new.pull := by
  rcases of_update h with ⟨rfl, hnew⟩ | ⟨-, h⟩
  · cases hnew
    exact ⟨entry, hentry, rfl⟩
  · exact ⟨new, h, rfl⟩

theorem Shared.single_update (h : Shared this) (hentry : this.pulling key = some entry) (useCount : Nat)
    (hpull : this.pulls[i]? = some pull) (hflight : pull.done = false) (hwanted : pull.hasDiscard = false) :
    ∃ count, update this.pulling key (some { entry with useCount }) pull.key = some ⟨i, count⟩ := by
  obtain ⟨count, hcount⟩ := h.single i pull hpull hflight hwanted
  by_cases hk : pull.key = key
  · rw [hk] at hcount ⊢
    cases hentry.symm.trans hcount
    exact ⟨useCount, Function.update_self ..⟩
  · exact ⟨count, by rw [Function.update_of_ne hk, hcount]⟩

theorem Sound.join (h : Sound this) (hentry : this.pulling key = some entry) : Sound { this with
    pulling := update this.pulling key (some { entry with useCount := entry.useCount + 1 })
    pulls := this.pulls.modify entry.pull fun pull => { pull with users := pull.users + 1 } } := by
  have hf : Keeps fun pull => { pull with users := pull.users + 1 } := ⟨fun _ => rfl, fun _ => id, fun _ => id⟩
  obtain ⟨pull, hpull, hkey, hwanted, hcount⟩ := h.counted key entry hentry
  refine h.later ⟨fun i new hnew hflight hwanted => ?_, fun other new hother => ?_, fun i new hnew hdiscard => ?_⟩ rfl hf
    (fun _ _ => pulling_update hentry) (fun _ => .inl)
  · obtain ⟨old, hold, -, hkey, hdone, hdiscard⟩ := hf.inv hnew
    rw [hkey]
    exact h.single_update hentry _ hold (hdone hflight) (hdiscard hwanted)
  · rcases of_update hother with ⟨rfl, hnew⟩ | ⟨hk, hother⟩
    · cases hnew
      obtain ⟨new, hnew, rfl, -⟩ := hf.get (i := entry.pull) hpull
      rw [if_pos rfl] at hnew
      refine ⟨_, hnew, hkey, hwanted, ?_⟩
      rw [hcount]
      exact Nat.add_right_comm ..
    · obtain ⟨old, hold, hkey', hwanted', hcount'⟩ := h.counted other new hother
      obtain ⟨pull, hpull, rfl, -⟩ := hf.get (i := entry.pull) hold
      rw [if_neg (h.pull_ne hentry hold (hkey' ▸ hk))] at hpull
      exact ⟨old, hpull, hkey', hwanted', hcount'⟩
  · obtain ⟨old, hold, rfl, -⟩ := hf.inv hnew
    split_ifs at hdiscard ⊢ with hi
    · subst hi
      cases hpull.symm.trans hold
      cases hwanted.symm.trans hdiscard
    · exact h.discarded i old hold hdiscard

theorem Sound.start (h : Sound this) (hentry : this.pulling key = none)
    (hover : ∀ pull ∈ this.pulls, pull.key = key → pull.done = true)
    (hhandled : ∀ message ∈ this.mailbox, message.key ≠ key) : Sound { this with
    pulling := update this.pulling key (some ⟨this.pulls.length, 1⟩)
    pulls := this.pulls ++ [{ key }] } := by
  have hold : ∀ {i pull}, (this.pulls ++ [{ key := key }])[i]? = some pull →
      this.pulls[i]? = some pull ∨ i = this.pulls.length ∧ pull = { key := key } := by
    intro i pull hpull
    rcases Nat.lt_trichotomy i this.pulls.length with hi | rfl | hi
    · rw [getElem?_append_left hi] at hpull
      exact .inl hpull
    · rw [getElem?_concat_length] at hpull
      exact .inr ⟨rfl, (Option.some.inj hpull).symm⟩
    · rw [getElem?_eq_none (by rw [length_append]; exact hi)] at hpull
      cases hpull
  have hkept : ∀ {i pull}, this.pulls[i]? = some pull → (this.pulls ++ [{ key := key }])[i]? = some pull := fun hpull =>
    (getElem?_append_left (List.getElem?_eq_some_iff.1 hpull).1).trans hpull
  -- No callback is left of a pull with the number of the new one.
  have hnew : this.discarding this.pulls.length = 0 := by
    refine countP_eq_zero.2 fun message hm => ?_
    obtain ⟨pull, hpull, -⟩ := h.completed message hm
    have hlt := (List.getElem?_eq_some_iff.1 hpull).1
    simp only [decide_eq_true_eq, not_and]
    exact fun _ => Nat.ne_of_lt hlt
  constructor
  · refine ⟨fun i pull hpull hflight hwanted => ?_, fun other new hother => ?_, fun i pull hpull hdiscard => ?_⟩
    · rcases hold hpull with hpull | ⟨rfl, rfl⟩
      · obtain ⟨count, hcount⟩ := h.single i pull hpull hflight hwanted
        have hk : pull.key ≠ key := fun hk => by
          rw [hk, hentry] at hcount
          cases hcount
        exact ⟨count, (Function.update_of_ne hk ..).trans hcount⟩
      · exact ⟨1, Function.update_self ..⟩
    · rcases of_update hother with ⟨rfl, heq⟩ | ⟨-, hother⟩
      · cases heq
        exact ⟨{ key := other }, getElem?_concat_length, rfl, rfl, (congrArg (1 + ·) hnew).symm⟩
      · obtain ⟨pull, hpull, hrest⟩ := h.counted other new hother
        exact ⟨pull, hkept hpull, hrest⟩
    · rcases hold hpull with hpull | ⟨rfl, rfl⟩
      · exact h.discarded i pull hpull hdiscard
      · cases hdiscard
  · intro i pull hpull hflight entry hupdate
    rcases hold hpull with hpull | ⟨rfl, rfl⟩
    · rcases of_update hupdate with ⟨hk, -⟩ | ⟨-, hother⟩
      · rw [hover pull (mem_of_getElem? hpull) hk] at hflight
        cases hflight
      · exact h.flight i pull hpull hflight entry hother
    · rcases of_update hupdate with ⟨-, heq⟩ | ⟨hk, -⟩
      · cases heq
        rfl
      · exact absurd rfl hk
  · intro message hm entry hupdate
    rcases of_update hupdate with ⟨hk, -⟩ | ⟨-, hother⟩
    · exact absurd hk (hhandled message hm)
    · exact h.current message hm entry hother
  · intro message hm
    obtain ⟨pull, hpull, hrest⟩ := h.completed message hm
    exact ⟨pull, hkept hpull, hrest⟩

theorem Sound.get (h : Sound this) {staging : Bool} (hmeets : Meets this (.get key staging)) :
    ∃ next, this.get key staging = .ok next ∧ Sound next := by
  unfold World.get
  cases hentry : this.pulling key with
  | some entry =>
    obtain ⟨pull, hpull, -, hwanted, -⟩ := h.counted key entry hentry
    exact ⟨_, if_neg (by simp [hpull, hwanted]), h.join hentry⟩
  | none =>
    obtain ⟨hover, hhandled⟩ := hmeets hentry
    cases staging with
    | true => exact ⟨_, rfl, h.start hentry hover hhandled⟩
    | false => exact ⟨_, rfl, h⟩

/-! ### Callbacks -/

theorem discarding_discarded (pulling : String → Option Pulling) (pulls : List Pull) (key : String) (i j : Nat) :
    World.discarding ⟨pulling, pulls, this.mailbox ++ [⟨.discarded, key, i⟩]⟩ j =
      this.discarding j + if i = j then 1 else 0 := by
  rw [World.discarding, countP_append, countP_singleton, World.discarding]
  simp only [true_and, decide_eq_true_eq]

theorem discarding_completed (pulling : String → Option Pulling) (pulls : List Pull) (key : String) (i j : Nat) :
    World.discarding ⟨pulling, pulls, this.mailbox ++ [⟨.completed, key, i⟩]⟩ j = this.discarding j := by
  rw [World.discarding, countP_append, countP_singleton, if_neg (by simp), Nat.add_zero, World.discarding]

theorem Sound.discard (h : Sound this) (i : Nat) : Sound (this.discard i) := by
  unfold World.discard
  cases hpull : this.pulls[i]? with
  | none => exact h
  | some pull =>
    dsimp only
    split_ifs with hused
    · exact h
    obtain ⟨husers, hflight⟩ := not_or.1 hused
    have hf : Keeps fun pull => { pull with users := pull.users - 1 } := ⟨fun _ => rfl, fun _ => id, fun _ => id⟩
    refine h.later ⟨fun j new hnew hflight hwanted => ?_, fun key entry hentry => ?_, fun j new hnew hdiscard => ?_⟩ rfl hf
      (fun _ entry hentry => ⟨entry, hentry, rfl⟩) fun message hm => ?_
    · obtain ⟨old, hold, -, hkey, hdone, hdiscard⟩ := hf.inv hnew
      rw [hkey]
      exact h.single j old hold (hdone hflight) (hdiscard hwanted)
    · obtain ⟨old, hold, hkey, hwanted, hcount⟩ := h.counted key entry hentry
      obtain ⟨new, hnew, rfl, -⟩ := hf.get (i := i) hold
      refine ⟨_, hnew, ?_⟩
      rw [discarding_discarded, hcount]
      split_ifs with hi
      · subst hi
        cases hpull.symm.trans hold
        refine ⟨hkey, hwanted, ?_⟩
        dsimp only
        omega
      · exact ⟨hkey, hwanted, rfl⟩
    · obtain ⟨old, hold, rfl, -⟩ := hf.inv hnew
      split_ifs at hdiscard ⊢ with hi
      · dsimp only
        rw [h.discarded j old hold hdiscard]
      · exact h.discarded j old hold hdiscard
    · rcases mem_append.1 hm with hm | hm
      · exact .inl hm
      · rw [mem_singleton.1 hm]
        exact .inr ⟨rfl, pull, hpull, rfl, Bool.eq_false_iff.2 hflight, nofun⟩

theorem Sound.complete (h : Sound this) (i : Nat) : Sound (this.complete i) := by
  unfold World.complete
  cases hpull : this.pulls[i]? with
  | none => exact h
  | some pull =>
    dsimp only
    split_ifs with hover
    · exact h
    have hf : Keeps fun pull => { pull with done := true } := ⟨fun _ => rfl, fun _ _ => rfl, fun _ => id⟩
    refine h.later ⟨fun j new hnew hflight hwanted => ?_, fun key entry hentry => ?_, fun j new hnew hdiscard => ?_⟩ rfl hf
      (fun _ entry hentry => ⟨entry, hentry, rfl⟩) fun message hm => ?_
    · obtain ⟨old, hold, -, hkey, hdone, hdiscard⟩ := hf.inv hnew
      rw [hkey]
      exact h.single j old hold (hdone hflight) (hdiscard hwanted)
    · obtain ⟨old, hold, hkey, hwanted, hcount⟩ := h.counted key entry hentry
      obtain ⟨new, hnew, rfl, -⟩ := hf.get (i := i) hold
      refine ⟨_, hnew, ?_⟩
      rw [discarding_completed, hcount]
      split_ifs
      · exact ⟨hkey, hwanted, rfl⟩
      · exact ⟨hkey, hwanted, rfl⟩
    · obtain ⟨old, hold, rfl, -⟩ := hf.inv hnew
      split_ifs at hdiscard ⊢
      · exact h.discarded j old hold hdiscard
      · exact h.discarded j old hold hdiscard
    · rcases mem_append.1 hm with hm | hm
      · exact .inl hm
      · rw [mem_singleton.1 hm]
        exact .inr ⟨rfl, pull, hpull, rfl, Bool.eq_false_iff.2 hover, fun _ => rfl⟩

section

variable (h : Sound this) (hmailbox : this.mailbox = message :: rest)

include hmailbox in
theorem discarding_cons (i : Nat) :
    this.discarding i =
      rest.countP (fun message => message.callback = .discarded ∧ message.pull = i) +
        if message.callback = .discarded ∧ message.pull = i then 1 else 0 := by
  rw [World.discarding, hmailbox, countP_cons]
  simp only [decide_eq_true_eq]

include h hmailbox

/-- The handled callback is of no pull of another image. -/
theorem Sound.discarding_other {pulling : String → Option Pulling} {pulls : List Pull} (hpull : this.pulls[i]? = some pull)
    (hkey : pull.key ≠ message.key) : World.discarding ⟨pulling, pulls, rest⟩ i = this.discarding i := by
  rw [discarding_cons hmailbox, if_neg, Nat.add_zero, World.discarding]
  rintro ⟨-, rfl⟩
  obtain ⟨old, hold, hk, -⟩ := h.completed message (hmailbox ▸ mem_cons_self)
  cases hold.symm.trans hpull
  exact hkey hk

/-- The entry goes, or there was none: the others are as before, for `f` changes no pull of theirs. -/
theorem Sound.forget (hf : Keeps f) (hpulls : ∀ pull, this.pulls[i]? = some pull → pull.key = message.key)
    (hgone : ∀ j pull, this.pulls[j]? = some pull → pull.key = message.key →
      (if i = j then f pull else pull).done = false → (if i = j then f pull else pull).hasDiscard = true)
    (hunused : ∀ pull, this.pulls[i]? = some pull → (f pull).hasDiscard = true → (f pull).users = 0) :
    Sound ⟨update this.pulling message.key none, this.pulls.modify i f, rest⟩ := by
  refine h.later ⟨fun j new hnew hflight hwanted => ?_, fun key entry hentry => ?_, fun j new hnew hdiscard => ?_⟩ rfl hf
    (fun _ entry hentry => ⟨entry, (of_update_none hentry).2, rfl⟩) fun other hm => .inl (hmailbox ▸ mem_cons_of_mem _ hm)
  · obtain ⟨old, hold, hpull, hkey, hdone, hdiscard⟩ := hf.inv hnew
    obtain ⟨count, hcount⟩ := h.single j old hold (hdone hflight) (hdiscard hwanted)
    have hk : new.key ≠ message.key := fun hk => by
      have := hgone j old hold (hkey ▸ hk) (hpull ▸ hflight)
      rw [← hpull, hwanted] at this
      cases this
    exact ⟨count, (Function.update_of_ne hk ..).trans (hkey ▸ hcount)⟩
  · obtain ⟨hk, hentry⟩ := of_update_none hentry
    obtain ⟨old, hold, hkey, hwanted, hcount⟩ := h.counted key entry hentry
    obtain ⟨new, hnew, rfl, -⟩ := hf.get (i := i) hold
    have hi : i ≠ entry.pull := by
      rintro rfl
      exact hk (hkey ▸ hpulls old hold)
    rw [if_neg hi] at hnew
    refine ⟨old, hnew, hkey, hwanted, ?_⟩
    rw [h.discarding_other hmailbox hold (hkey ▸ hk), hcount]
  · obtain ⟨old, hold, rfl, -⟩ := hf.inv hnew
    split_ifs at hdiscard ⊢ with hi
    · subst hi
      exact hunused old hold hdiscard
    · exact h.discarded j old hold hdiscard

/-- A callback of an image that has no pull in flight but those to be discarded. -/
theorem Sound.forget_over (hgone : ∀ (j : Nat) (pull : Pull), this.pulls[j]? = some pull → pull.key = message.key → pull.done = false →
    pull.hasDiscard = true) : Sound ⟨update this.pulling message.key none, this.pulls, rest⟩ := by
  have hid : Keeps id := ⟨fun _ => rfl, fun _ => id, fun _ => id⟩
  obtain ⟨pull, hpull, hkey, -⟩ := h.completed message (hmailbox ▸ mem_cons_self)
  have hforget := h.forget (i := message.pull) hmailbox hid (fun other hother => ?_) (fun j other hother hk => ?_)
    (fun other hother => h.discarded _ other hother)
  · rwa [modify_id] at hforget
  · cases hpull.symm.trans hother
    exact hkey
  · rw [id, ite_self]
    exact hgone j other hother hk

/-- A user leaves the pull and is not the last one. -/
theorem Sound.leave (hcallback : message.callback = .discarded) (hentry : this.pulling message.key = some entry) :
    Sound ⟨update this.pulling message.key (some { entry with useCount := entry.useCount - 1 }), this.pulls, rest⟩ := by
  have hid : Keeps id := ⟨fun _ => rfl, fun _ => id, fun _ => id⟩
  have hm : message ∈ this.mailbox := hmailbox ▸ mem_cons_self
  refine h.later (i := 0) ⟨fun j pull hpull => h.single_update hentry _ hpull, fun key new hnew => ?_, h.discarded⟩
    (modify_id ..).symm hid (fun _ _ => pulling_update hentry) fun other hm => .inl (hmailbox ▸ mem_cons_of_mem _ hm)
  rcases of_update hnew with ⟨rfl, heq⟩ | ⟨hk, hother⟩
  · cases heq
    obtain ⟨pull, hpull, hkey, hwanted, hcount⟩ := h.counted _ entry hentry
    refine ⟨pull, hpull, hkey, hwanted, ?_⟩
    rw [discarding_cons hmailbox, if_pos ⟨hcallback, (h.current message hm entry hentry).symm⟩] at hcount
    dsimp only
    rw [hcount, ← Nat.add_assoc, Nat.add_sub_cancel, World.discarding]
  · obtain ⟨pull, hpull, hkey, hwanted, hcount⟩ := h.counted key new hother
    refine ⟨pull, hpull, hkey, hwanted, ?_⟩
    rw [h.discarding_other hmailbox hpull (hkey ▸ hk), hcount]

theorem Sound.receive : Sound (World.receive { this with mailbox := rest } message) := by
  have hm : message ∈ this.mailbox := hmailbox ▸ mem_cons_self
  unfold World.receive
  cases hentry : this.pulling message.key with
  | none =>
    have hsound := h.forget_over hmailbox fun j pull hpull hkey hflight => ?_
    · rw [← hentry, Function.update_eq_self] at hsound
      exact hsound
    · by_contra hwanted
      obtain ⟨count, hcount⟩ := h.single j pull hpull hflight (Bool.eq_false_iff.2 hwanted)
      rw [hkey, hentry] at hcount
      cases hcount
  | some entry =>
    have hcurrent := h.current message hm entry hentry
    have hflights : ∀ (j : Nat) (pull : Pull), this.pulls[j]? = some pull → pull.key = message.key → pull.done = false → entry.pull = j :=
      fun j pull hpull hkey hflight => h.flight j pull hpull hflight entry (hkey ▸ hentry)
    cases hcallback : message.callback with
    | completed =>
      refine h.forget_over hmailbox fun j pull hpull hkey hflight => ?_
      obtain ⟨old, hold, -, hdone⟩ := h.completed message hm
      rw [← hcurrent, hflights j pull hpull hkey hflight] at hold
      cases hold.symm.trans hpull
      cases hflight.symm.trans (hdone hcallback)
    | discarded =>
      dsimp only
      split_ifs with hlast
      · obtain ⟨pull, hpull, hkey, -, hcount⟩ := h.counted _ entry hentry
        rw [discarding_cons hmailbox, if_pos ⟨hcallback, hcurrent.symm⟩] at hcount
        refine h.forget hmailbox ⟨fun _ => rfl, fun _ => id, fun _ hd => ?_⟩ (fun other hother => ?_)
          (fun j other hother hkey hflight => ?_) fun other hother _ => ?_
        · dsimp only
          rw [hd, Bool.true_or]
        · cases hpull.symm.trans hother
          exact hkey
        · split_ifs at hflight ⊢ with hi
          · dsimp only at hflight ⊢
            rw [hflight, Bool.not_false, Bool.or_true]
          · exact absurd (hflights j other hother hkey hflight) hi
        · cases hpull.symm.trans hother
          dsimp only
          omega
      · exact h.leave hmailbox hcallback hentry

end

theorem Sound.step (h : Sound this) {event : Event} (hm : Meets this event) :
    ∃ next, this.step event = .ok next ∧ Sound next := by
  cases event with
  | get => exact h.get hm
  | discard i => exact ⟨_, rfl, h.discard i⟩
  | complete i => exact ⟨_, rfl, h.complete i⟩
  | handle =>
    refine ⟨_, rfl, ?_⟩
    split
    next => exact h
    next hma => exact h.receive hma

/-- **Pulls are shared and discarded only when nobody wants them**, in every run in which a pull is started when those of the
same image are over, with all their callbacks. -/
theorem pulls_shared (events : List Event) (hmeets : Fallible.Meets World.step Meets {} events) :
    ∃ this, events.foldlM World.step {} = .ok this ∧ Shared this := by
  have hstart : Sound {} := ⟨⟨by simp, nofun, by simp⟩, by simp, nofun, nofun⟩
  obtain ⟨this, hrun, h⟩ := hmeets.runs (fun _ _ h hmeets => Sound.step h hmeets) hstart
  exact ⟨this, hrun, h.toShared⟩

theorem pulls_shared_again :
    ∃ this, [Event.get "a" true, .get "a" true, .discard 0, .handle, .complete 0, .handle, .get "a" true].foldlM
      World.step {} = .ok this ∧ Shared this :=
  pulls_shared _ (by decide +kernel)

/-- **The end of a discarded pull removes the entry of the next one.** -/
theorem late_completion_forgets :
    ∃ this, [Event.get "a" true, .discard 0, .handle, .get "a" true, .complete 0, .handle].foldlM World.step {} = .ok this ∧
      ¬ Shared this := by
  refine ⟨_, rfl, fun h => ?_⟩
  obtain ⟨_, hentry⟩ := h.single 1 _ rfl rfl rfl
  cases hentry

end Clusterd.DockerPulls
