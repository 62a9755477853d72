import Mathlib.Data.List.Basic
/-!
# Runs under a condition

A machine takes one step for each event.  `Along step P s es` says that every event of the run meets the condition `P` at
the state it finds.  What every such step keeps holds at the end of the run (`Along.invariant`).
-/
namespace Run

variable {σ ε : Type} {step : σ → ε → σ} {P Q : σ → ε → Prop}

/-- Every event meets `P` at the state it finds. -/
def Along (step : σ → ε → σ) (P : σ → ε → Prop) : σ → List ε → Prop
  | _, [] => True
  | s, e :: es => P s e ∧ Along step P (step s e) es

instance [h : ∀ s e, Decidable (P s e)] : ∀ (s : σ) (es : List ε), Decidable (Along step P s es)
  | _, [] => inferInstanceAs (Decidable True)
  | s, e :: es => @instDecidableAnd _ _ (h s e) (instDecidableAlong (step s e) es)

theorem Along.mono (hPQ : ∀ s e, P s e → Q s e) : ∀ {es : List ε} {s : σ}, Along step P s es → Along step Q s es
  | [], _, _ => trivial
  | _ :: _, _, h => ⟨hPQ _ _ h.1, Along.mono hPQ h.2⟩

theorem along_of_forall {Q : ε → Prop} : ∀ {es : List ε} {s : σ}, (∀ e ∈ es, Q e) → Along step (fun _ e => Q e) s es
  | [], _, _ => trivial
  | e :: _, _, h => ⟨h e List.mem_cons_self, along_of_forall fun e he => h e (List.mem_cons_of_mem _ he)⟩

/-- **What every step that meets the condition keeps holds at the end of the run.** -/
theorem Along.invariant {I : σ → Prop} (hI : ∀ s e, I s → P s e → I (step s e)) :
    ∀ (es : List ε) {s : σ}, I s → Along step P s es → I (es.foldl step s)
  | [], _, hs, _ => hs
  | e :: es, _, hs, h => Along.invariant hI es (hI _ e hs h.1) h.2

theorem Along.at : ∀ (pre : List ε) {e : ε} {post : List ε} {s : σ}, Along step P s (pre ++ e :: post) →
    P (pre.foldl step s) e
  | [], _, _, _, h => h.1
  | _ :: pre, _, _, _, h => Along.at pre h.2

theorem Along.left : ∀ (pre : List ε) {post : List ε} {s : σ}, Along step P s (pre ++ post) → Along step P s pre
  | [], _, _, _ => trivial
  | _ :: pre, _, _, h => ⟨h.1, Along.left pre h.2⟩

end Run
