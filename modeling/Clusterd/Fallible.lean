import Mathlib.Data.List.Basic
/-!
# Computations that may stop with an error

What a computation without error did, step by step, and what the runs keep of a machine whose steps may fail.
`Meets step P s es` says that every event of the run meets the condition `P` at the state it finds, up to a failure.
-/
namespace Fallible

variable {χ α β σ ε : Type}

theorem bind_ok {x : Except χ α} {f : α → Except χ β} {b : β} : x >>= f = .ok b ↔ ∃ a, x = .ok a ∧ f a = .ok b := by
  cases x with
  | ok a => exact ⟨fun h => ⟨a, rfl, h⟩, fun ⟨_, ha, h⟩ => Except.ok.inj ha ▸ h⟩
  | error => exact ⟨nofun, fun ⟨_, h, _⟩ => (nomatch h)⟩

theorem pure_ok {a b : α} : (pure a : Except χ α) = .ok b ↔ a = b := by
  constructor
  · exact Except.ok.inj
  · rintro rfl
    rfl

variable {step : σ → ε → Except χ σ} {P : σ → ε → Prop} {I : σ → Prop}

/-- **A loop whose every step succeeds**, by induction over what is left of the list. -/
theorem foldlM_runs {I : List ε → σ → Prop} (hI : ∀ e es s, I (e :: es) s → ∃ s', step s e = .ok s' ∧ I es s') :
    ∀ {es : List ε} {s : σ}, I es s → ∃ s', es.foldlM step s = .ok s' ∧ I [] s'
  | [], s, hs => ⟨s, rfl, hs⟩
  | e :: es, s, hs => by
    obtain ⟨_, ht, hI'⟩ := hI e es s hs
    obtain ⟨s', hs', hend⟩ := foldlM_runs hI hI'
    exact ⟨s', by rw [List.foldlM_cons, ht]; exact hs', hend⟩

/-- Every event meets `P` at the state it finds. -/
def Meets (step : σ → ε → Except χ σ) (P : σ → ε → Prop) : σ → List ε → Prop
  | _, [] => True
  | s, e :: es => P s e ∧ ∀ s', step s e = .ok s' → Meets step P s' es

instance decidableMeets (step : σ → ε → Except χ σ) (P : σ → ε → Prop) [∀ s e, Decidable (P s e)] :
    ∀ (s : σ) (es : List ε), Decidable (Meets step P s es)
  | _, [] => isTrue trivial
  | s, e :: es =>
    match h : step s e with
    | .error _ => decidable_of_iff (P s e) ⟨fun hP => ⟨hP, fun _ hs => (nomatch h.symm.trans hs)⟩, And.left⟩
    | .ok s' =>
      have := decidableMeets step P s' es
      decidable_of_iff (P s e ∧ Meets step P s' es)
        ⟨fun hP => ⟨hP.1, fun _ hs => Except.ok.inj (h.symm.trans hs) ▸ hP.2⟩, fun hP => ⟨hP.1, hP.2 s' h⟩⟩

theorem Meets.and_forall {Q : ε → Prop} :
    ∀ {es : List ε} {s : σ}, Meets step P s es → (∀ e ∈ es, Q e) → Meets step (fun s e => P s e ∧ Q e) s es
  | [], _, _, _ => trivial
  | _ :: _, _, hP, hQ => by
    refine ⟨⟨hP.1, hQ _ List.mem_cons_self⟩, fun s' hs' => ?_⟩
    exact Meets.and_forall (hP.2 s' hs') fun e he => hQ e (List.mem_cons_of_mem _ he)

/-- **What every step that meets the condition keeps holds at the end of a run without error.** -/
theorem Meets.invariant (hI : ∀ s e s', I s → P s e → step s e = .ok s' → I s') :
    ∀ {es : List ε} {s s' : σ}, I s → Meets step P s es → es.foldlM step s = .ok s' → I s'
  | [], _, _, hs, _, h => pure_ok.mp h ▸ hs
  | e :: es, s, s', hs, hP, h => by
    obtain ⟨t, ht, h⟩ := bind_ok.mp h
    exact Meets.invariant hI (hI s e t hs hP.1 ht) (hP.2 t ht) h

/-- **A run whose events meet the condition does not fail**, if no step from the invariant does. -/
theorem Meets.runs (hI : ∀ s e, I s → P s e → ∃ s', step s e = .ok s' ∧ I s') {es : List ε} {s : σ} (hs : I s)
    (hP : Meets step P s es) : ∃ s', es.foldlM step s = .ok s' ∧ I s' := by
  obtain ⟨s', hrun, hend, -⟩ := foldlM_runs (I := fun rest s => I s ∧ Meets step P s rest) (fun e _ s h => by
    obtain ⟨t, ht, hI'⟩ := hI s e h.1 h.2.1
    exact ⟨t, ht, hI', h.2.2 t ht⟩) ⟨hs, hP⟩
  exact ⟨s', hrun, hend⟩

end Fallible
