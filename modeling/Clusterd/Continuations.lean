import Mathlib.Data.List.Basic
/-!
# Stacks of continuations

A computation that has stopped is what it still has to do: a list of frames, each run on what the frame before has left of the
state.  `pre` is what a frame needs, `post` what it leaves if it succeeds, or that it leaves nothing and the rest is dropped,
and `cost` bounds its steps.  A frame that puts others in its place must do so within its bound.
-/
namespace Continuations

variable {φ ν : Type} (pre : φ → ν → Prop) (post : φ → ν → Option ν) (cost : φ → ν → Nat)

def Leads (view : ν) : List φ → Option ν → Prop
  | [], result => result = some view
  | frame :: rest, result => pre frame view ∧
    match post frame view with
    | some view' => Leads view' rest result
    | none => rest = [] → result = none

def total (view : ν) : List φ → Nat
  | [] => 0
  | frame :: rest => cost frame view +
    match post frame view with
    | some view' => total view' rest
    | none => 0

def totalFrom (rest : List φ) : Option ν → Nat
  | some view => total post cost view rest
  | none => 0

variable {pre post cost}

theorem total_cons (view : ν) (frame : φ) (rest : List φ) :
    total post cost view (frame :: rest) = cost frame view + totalFrom post cost rest (post frame view) := by
  rw [total, totalFrom.eq_def]

variable {rest : List φ} {result : Option ν} {frame : φ}

theorem Leads.append {result' : Option ν} : ∀ {frames : List φ} {view : ν}, Leads pre post view frames result →
      (∀ view', result = some view' → Leads pre post view' rest result') →
      (result = none → rest = [] → result' = none) → Leads pre post view (frames ++ rest) result'
  | [], view, h, hs, _ => hs view h
  | frame :: frames, view, h, hs, hno => by
    refine ⟨h.1, ?_⟩
    have hr := h.2
    cases hpo : post frame view with
    | some =>
      rw [hpo] at hr
      exact Leads.append hr hs hno
    | none =>
      rw [hpo] at hr
      intro hnil
      obtain ⟨hf, hr'⟩ := List.append_eq_nil_iff.mp hnil
      exact hno (hr hf) hr'

theorem Leads.total_append : ∀ {frames : List φ} {view : ν}, Leads pre post view frames result →
      total post cost view (frames ++ rest) ≤ total post cost view frames + totalFrom post cost rest result
  | [], view, h => by
    exact Nat.le_of_eq (by rw [show result = some view from h, List.nil_append, totalFrom, total, Nat.zero_add])
  | frame :: frames, view, h => by
    have hr := h.2
    rw [List.cons_append, total_cons, total_cons]
    cases hpo : post frame view with
    | some view' =>
      rw [hpo] at hr
      have hle : total post cost view' (frames ++ rest) ≤ _ := Leads.total_append hr
      simp only [totalFrom] at hle ⊢
      omega
    | none =>
      simp only [totalFrom]
      omega

theorem Leads.tail {view view' : ν}
    (h : Leads pre post view (frame :: rest) result) (hpo : post frame view = some view') :
    Leads pre post view' rest result := by
  have hr := h.2
  rw [hpo] at hr
  exact hr

/-- **Frames in the place of one that they do the work of**: what comes after is not affected, and the bound falls. -/
theorem Leads.replace {frames : List φ} {view view' : ν}
    (h : Leads pre post view (frame :: rest) result) (hf : Leads pre post view' frames (post frame view))
    (hc : total post cost view' frames < cost frame view) : Leads pre post view' (frames ++ rest) result ∧
      total post cost view' (frames ++ rest) < total post cost view (frame :: rest) := by
  constructor
  · refine hf.append (fun _ hs => h.tail hs) fun hno => ?_
    have hr := h.2
    rw [hno] at hr
    exact hr
  · exact Nat.lt_of_le_of_lt hf.total_append (Nat.add_lt_add_right hc _)

end Continuations
