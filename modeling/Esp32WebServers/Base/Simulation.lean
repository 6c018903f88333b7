import Esp32WebServers.Base.Run

/-!
# Simulations with silent steps

Library `Base`. A detailed machine simulates an abstract one along a function of its states: each
of its steps is silent, and the abstract state stays, or it is one step of the abstract machine.
What is said of the runs of the abstract machine, its safety and its schedules, then holds of
the runs of the detailed one.
-/

namespace Esp32WebServers.Base.Step

universe u v w x

variable {σ : Type u} {ε : Type v} {τ : Type w} {δ : Type x}

/-- The abstract events of a run. -/
def labels (step : Step σ ε) (label : σ → ε → Option δ) : σ → List ε → List δ
  | _, [] => []
  | s, e :: es => (label s e).toList ++ match step s e with
    | some t => labels step label t es
    | none => []

/-- Steps of `step` are silent or steps of `abstract`, in states with the invariant and under
the condition, both of which they keep to. -/
structure Simulates (step : Step σ ε) (abstract : Step τ δ) (I : σ → Prop) (G : σ → ε → Prop)
    (abs : σ → τ) (label : σ → ε → Option δ) : Prop where
  keep : ∀ s e t, I s → step s e = some t → G s e → I t
  silent : ∀ s e t, I s → step s e = some t → G s e → label s e = none → abs t = abs s
  visible : ∀ s e t d, I s → step s e = some t → G s e → label s e = some d →
    abstract (abs s) d = some (abs t)

section Simulates

variable {step : Step σ ε} {abstract : Step τ δ} {I : σ → Prop} {G : σ → ε → Prop} {abs : σ → τ}
  {label : σ → ε → Option δ} {s u : σ} {es : List ε}

/-- The abstract events of a run that begins with a silent step. -/
theorem labels_cons_none {t : σ} {e : ε} (ht : step s e = some t) (hnone : label s e = none) :
    labels step label s (e :: es) = labels step label t es := by
  simp only [labels, ht, hnone, Option.toList_none, List.nil_append]

/-- The abstract events of a run that begins with a visible step. -/
theorem labels_cons_some {t : σ} {e : ε} {d : δ} (ht : step s e = some t)
    (hsome : label s e = some d) :
    labels step label s (e :: es) = d :: labels step label t es := by
  simp only [labels, ht, hsome, Option.toList_some, List.singleton_append]

/-- A run under the condition is a run of the abstract machine. -/
theorem Simulates.run (h : Simulates step abstract I G abs label) (hs : I s)
    (hrun : Step.run step s es = some u) (hG : Guarded step G s es) :
    Step.run abstract (abs s) (labels step label s es) = some (abs u) := by
  induction es generalizing s with
  | nil =>
    cases hrun
    rfl
  | cons e es ih =>
    obtain ⟨t, ht, hrest⟩ := run_cons_eq_some.mp hrun
    rw [guarded_cons] at hG
    have hrunRest := ih (h.keep s e t hs ht hG.1) hrest (hG.2 t ht)
    cases hlabel : label s e with
    | none => rw [labels_cons_none ht hlabel, ← h.silent s e t hs ht hG.1 hlabel, hrunRest]
    | some d =>
      rw [labels_cons_some ht hlabel]
      exact run_cons_eq_some.mpr ⟨abs t, h.visible s e t d hs ht hG.1 hlabel, hrunRest⟩

end Simulates

end Esp32WebServers.Base.Step
