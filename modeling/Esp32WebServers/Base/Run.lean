/-!
# Runs of labelled partial steps

Library `Base`. A step function says which event can happen in which state and what
state it leads to; a run is a finite list of events, and an interleaving of several
parties is a run whose events name their party.
The exactness rule at the end serves components that are right only while their
environment keeps to a schedule: it makes the schedule an equivalent of safety.
-/

namespace Esp32WebServers.Base

universe u v

/-- A labelled partial step: `none` where the event cannot happen in the state. -/
abbrev Step (σ : Type u) (ε : Type v) := σ → ε → Option σ

namespace Step

variable {σ : Type u} {ε : Type v}

/-- The state after a list of events, where every one of them can happen in turn. -/
def run (step : Step σ ε) : σ → List ε → Option σ
  | s, [] => some s
  | s, e :: es => (step s e).bind fun t ↦ run step t es

/-- Every state visited while the events happen, the first and the last included,
satisfies the property. -/
def Always (step : Step σ ε) (P : σ → Prop) (s : σ) (es : List ε) : Prop :=
  ∀ before t, before <+: es → run step s before = some t → P t

/-- Every event of the list happens in a state that admits it under the condition. -/
def Guarded (step : Step σ ε) (G : σ → ε → Prop) (s : σ) (es : List ε) : Prop :=
  ∀ before e after t, es = before ++ e :: after → run step s before = some t → G t e

variable {step : Step σ ε}

/-- The empty run stays where it is. -/
@[simp] theorem run_nil (s : σ) : run step s [] = some s := rfl

/-- A run takes its first step and then the others. -/
theorem run_cons (s : σ) (e : ε) (es : List ε) :
    run step s (e :: es) = (step s e).bind fun t ↦ run step t es := rfl

/-- A nonempty run consists of a step and a run from where that leads. -/
theorem run_cons_eq_some {s u : σ} {e : ε} {es : List ε} :
    run step s (e :: es) = some u ↔ ∃ t, step s e = some t ∧ run step t es = some u := by
  rw [run_cons, Option.bind_eq_some_iff]

/-- What every step preserves holds at the end of every run. -/
theorem run_invariant {I : σ → Prop}
    (hstep : ∀ s e t, I s → step s e = some t → I t)
    {s t : σ} {es : List ε} (hs : I s) (hrun : run step s es = some t) : I t := by
  induction es generalizing s with
  | nil =>
    cases hrun
    exact hs
  | cons e es ih =>
    obtain ⟨u, hu, hrest⟩ := run_cons_eq_some.mp hrun
    exact ih (hstep s e u hs hu) hrest

/-- A property of the empty run is one of its only state. -/
theorem always_nil {P : σ → Prop} {s : σ} : Always step P s [] ↔ P s := by
  constructor
  · intro h
    exact h [] s (List.prefix_refl _) rfl
  · intro h before t hb hrun
    rw [List.prefix_nil.mp hb] at hrun
    cases hrun
    exact h

/-- A run keeps to a property if its first state and the rest of it do. -/
theorem always_cons {P : σ → Prop} {s t : σ} {e : ε} {es : List ε}
    (ht : step s e = some t) : Always step P s (e :: es) ↔ P s ∧ Always step P t es := by
  constructor
  · intro h
    refine ⟨h [] s List.nil_prefix rfl, ?_⟩
    intro before u hb hrun
    exact h (e :: before) u (List.cons_prefix_cons.mpr ⟨rfl, hb⟩)
      (run_cons_eq_some.mpr ⟨t, ht, hrun⟩)
  · rintro ⟨hs, hrest⟩ before u hb hrun
    cases before with
    | nil =>
      cases hrun
      exact hs
    | cons e' before =>
      obtain ⟨rfl, hbefore⟩ := List.cons_prefix_cons.mp hb
      obtain ⟨t', ht', hrun⟩ := run_cons_eq_some.mp hrun
      rw [ht] at ht'
      cases ht'
      exact hrest before u hbefore hrun

/-- What every step preserves, and implies a property, keeps every run to the property. -/
theorem always_of_invariant {I P : σ → Prop} (hprop : ∀ s, I s → P s)
    (hstep : ∀ s e t, I s → step s e = some t → I t) {s : σ} (hs : I s) (es : List ε) :
    Always step P s es := by
  intro before t _ hrun
  exact hprop t (run_invariant hstep hs hrun)

/-- The empty run meets every condition on steps. -/
@[simp] theorem guarded_nil {G : σ → ε → Prop} {s : σ} : Guarded step G s [] := by
  intro before e after t h
  simp at h

/-- A run meets a condition on steps if its first step and, where that can happen, the
rest of it do. -/
@[simp] theorem guarded_cons {G : σ → ε → Prop} {s : σ} {e : ε} {es : List ε} :
    Guarded step G s (e :: es) ↔ G s e ∧ ∀ t ∈ step s e, Guarded step G t es := by
  constructor
  · intro h
    refine ⟨h [] e es s rfl rfl, ?_⟩
    intro t ht before e' after u hes hrun
    exact h (e :: before) e' after u (by rw [hes, List.cons_append])
      (run_cons_eq_some.mpr ⟨t, ht, hrun⟩)
  · rintro ⟨hs, hrest⟩ before e' after u hes hrun
    cases before with
    | nil =>
      obtain ⟨rfl, rfl⟩ := List.cons.inj hes
      cases hrun
      exact hs
    | cons e'' before =>
      obtain ⟨rfl, hrestEq⟩ := List.cons.inj hes
      obtain ⟨t, ht, hrun⟩ := run_cons_eq_some.mp hrun
      exact hrest t ht before e' after u hrestEq hrun

/-- On a run, a condition that does not look at the state is one of the events alone. -/
theorem guarded_const {G : ε → Prop} {s u : σ} {es : List ε}
    (hrun : run step s es = some u) :
    Guarded step (fun _ ↦ G) s es ↔ ∀ e ∈ es, G e := by
  induction es generalizing s with
  | nil => exact ⟨fun _ _ h ↦ absurd h List.not_mem_nil, fun _ ↦ guarded_nil⟩
  | cons e es ih =>
    obtain ⟨t, ht, hrest⟩ := run_cons_eq_some.mp hrun
    rw [guarded_cons, List.forall_mem_cons, ← ih hrest]
    constructor
    · intro h
      exact ⟨h.1, h.2 t ht⟩
    · intro h
      refine ⟨h.1, fun t' ht' ↦ ?_⟩
      cases Option.some.inj (ht.symm.trans ht')
      exact h.2

/-- A condition that can be decided in every state can be decided along a run. -/
instance decidableGuarded {G : σ → ε → Prop} [∀ s e, Decidable (G s e)] :
    (s : σ) → (es : List ε) → Decidable (Guarded step G s es)
  | _, [] => isTrue guarded_nil
  | _, _ :: es =>
    have : ∀ t, Decidable (Guarded step G t es) := fun t ↦ decidableGuarded t es
    decidable_of_iff _ guarded_cons.symm

/-- Exactness of a step condition. Where the invariant implies the property, survives
every step under the condition, and every step out of it into the property is under the
condition, the runs that keep to the property are those that meet the condition. -/
theorem always_iff_guarded {I P : σ → Prop} {G : σ → ε → Prop}
    (hprop : ∀ s, I s → P s)
    (hkeep : ∀ s e t, I s → step s e = some t → G s e → I t)
    (hexact : ∀ s e t, I s → step s e = some t → P t → G s e)
    {s u : σ} {es : List ε} (hs : I s) (hrun : run step s es = some u) :
    Always step P s es ↔ Guarded step G s es := by
  induction es generalizing s with
  | nil => exact ⟨fun _ ↦ guarded_nil, fun _ ↦ always_nil.mpr (hprop s hs)⟩
  | cons e es ih =>
    obtain ⟨t, ht, hrest⟩ := run_cons_eq_some.mp hrun
    rw [always_cons ht, guarded_cons]
    constructor
    · rintro ⟨_, halways⟩
      have hg : G s e := hexact s e t hs ht (halways [] t List.nil_prefix rfl)
      refine ⟨hg, fun t' ht' ↦ ?_⟩
      cases Option.some.inj (ht.symm.trans ht')
      exact (ih (hkeep s e t hs ht hg) hrest).mp halways
    · rintro ⟨hg, hguard⟩
      exact ⟨hprop s hs, (ih (hkeep s e t hs ht hg) hrest).mpr (hguard t ht)⟩

/-- What every step under a condition preserves holds at the end of every run that meets it. -/
theorem Guarded.invariant {I : σ → Prop} {G : σ → ε → Prop}
    (hkeep : ∀ s e t, I s → step s e = some t → G s e → I t)
    {s t : σ} {es : List ε} (hs : I s) (hrun : run step s es = some t)
    (h : Guarded step G s es) : I t := by
  induction es generalizing s with
  | nil =>
    cases hrun
    exact hs
  | cons e es ih =>
    obtain ⟨u, hu, hrest⟩ := run_cons_eq_some.mp hrun
    rw [guarded_cons] at h
    exact ih (hkeep s e u hs hu h.1) hrest (h.2 u hu)

/-- A step under a condition, in front of a run that meets it. -/
theorem Guarded.cons {G : σ → ε → Prop} {s t : σ} {e : ε} {es : List ε}
    (hstep : step s e = some t) (hG : G s e) (h : Guarded step G t es) :
    Guarded step G s (e :: es) := by
  rw [guarded_cons]
  refine ⟨hG, fun t' ht' ↦ ?_⟩
  cases Option.some.inj (hstep.symm.trans ht')
  exact h

/-- A condition that keeps an invariant, and with it implies another condition, implies it
along every run. -/
theorem Guarded.of_invariant {I : σ → Prop} {G H : σ → ε → Prop}
    (hkeep : ∀ s e t, I s → step s e = some t → G s e → I t)
    (himp : ∀ s e t, I s → step s e = some t → G s e → H s e)
    {s u : σ} {es : List ε} (hs : I s) (hrun : run step s es = some u)
    (h : Guarded step G s es) : Guarded step H s es := by
  induction es generalizing s with
  | nil => exact guarded_nil
  | cons e es ih =>
    obtain ⟨t, ht, hrest⟩ := run_cons_eq_some.mp hrun
    rw [guarded_cons] at h ⊢
    refine ⟨himp s e t hs ht h.1, fun t' ht' ↦ ?_⟩
    cases Option.some.inj (ht.symm.trans ht')
    exact ih (hkeep s e t hs ht h.1) hrest (h.2 t ht)

end Step
end Esp32WebServers.Base
