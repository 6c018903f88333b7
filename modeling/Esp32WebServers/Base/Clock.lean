import Mathlib.Algebra.Order.Floor.Ring
import Mathlib.Order.Bounds.Basic
import Mathlib.Tactic.Linarith
import Mathlib.Tactic.Ring

/-!
# Calls that pause their task

Library `Base`. A call that pauses its task may return from some time on. Some calls count whole
units of time from when they were made. Others count the ticks of a clock, and the first tick may
come right behind the call, so that such a pause is up to a tick shorter than its ticks are long.
The span of a pause is measured in whole units, as a program measures it that cuts the fraction
off.
-/

namespace Esp32WebServers.Base

universe u v w

/-- A call that pauses its task: for each argument, whether a call made at one time may return at
another. Time does not go back, and a call that may return may return later. -/
structure Pause (α : Type u) (K : Type v) [LE K] where
  returns : α → K → K → Bool
  ordered : ∀ a called now, returns a called now = true → called ≤ now
  later : ∀ a called now now', returns a called now = true → now ≤ now' →
    returns a called now' = true

namespace Pause

variable {α : Type u} {β : Type w} {K : Type v}

section Order

variable [Preorder K] [DecidableLE K]

/-- A call that is made for some arguments only. -/
def only (p : Pause β K) (f : α → Option β) : Pause α K where
  returns a called now :=
    match f a with
    | none => decide (called ≤ now)
    | some b => p.returns b called now
  ordered := by
    intro a called now h
    split at h
    · exact of_decide_eq_true h
    · exact p.ordered _ called now h
  later := by
    intro a called now now' h hle
    split at h
    · exact decide_eq_true ((of_decide_eq_true h).trans hle)
    · exact p.later _ called now now' h hle

/-- Without a call the task goes on. -/
theorem only_none {p : Pause β K} {f : α → Option β} {a : α} (h : f a = none) (called now : K) :
    (p.only f).returns a called now = decide (called ≤ now) := by
  simp only [only, h]

/-- With a call it pauses. -/
theorem only_some {p : Pause β K} {f : α → Option β} {a : α} {b : β} (h : f a = some b)
    (called now : K) : (p.only f).returns a called now = p.returns b called now := by
  simp only [only, h]

end Order

variable [Field K] [LinearOrder K] [IsStrictOrderedRing K]

/-- A pause for a number of units. -/
def units : Pause ℕ K where
  returns n called now := decide (called + n ≤ now)
  ordered := by
    intro n called now h
    exact (le_add_of_nonneg_right n.cast_nonneg).trans (of_decide_eq_true h)
  later := by
    intro n called now now' h hle
    exact decide_eq_true ((of_decide_eq_true h).trans hle)

variable [FloorRing K]

/-- A pause for a number of ticks, one at every multiple of the period. -/
def ticks (period : ℕ) : Pause ℕ K where
  returns n called now := decide (called ≤ now ∧ ⌊called / period⌋ + n ≤ ⌊now / period⌋)
  ordered := by
    intro n called now h
    exact (of_decide_eq_true h).1
  later := by
    intro n called now now' h hle
    obtain ⟨hordered, hticks⟩ := of_decide_eq_true h
    refine decide_eq_true ⟨hordered.trans hle, hticks.trans (Int.floor_mono ?_)⟩
    exact div_le_div_of_nonneg_right hle period.cast_nonneg

/-- The spans that a pause may take, in whole units, with a clock that begins at zero. -/
def spans (p : Pause α K) (a : α) : Set ℤ :=
  {span | ∃ called now, 0 ≤ called ∧ p.returns a called now = true ∧ span = ⌊now - called⌋}

/-- A pause that may return at once. -/
theorem isLeast_spans_of_refl {p : Pause α K} {a : α} (h : p.returns a 0 0 = true) :
    IsLeast (p.spans a) 0 := by
  constructor
  · refine ⟨0, 0, le_refl _, h, ?_⟩
    rw [sub_zero, Int.floor_zero]
  · rintro span ⟨called, now, -, hreturns, rfl⟩
    exact Int.floor_nonneg.mpr (sub_nonneg.mpr (p.ordered _ _ _ hreturns))

omit [IsStrictOrderedRing K] in
/-- A call that is made takes as long as its pause. -/
theorem spans_only_some {p : Pause β K} {f : α → Option β} {a : α} {b : β} (h : f a = some b) :
    (p.only f).spans a = p.spans b := by
  simp only [spans, only_some h]

/-- Without a call there need be no pause. -/
theorem isLeast_spans_only_none {p : Pause β K} {f : α → Option β} {a : α} (h : f a = none) :
    IsLeast ((p.only f).spans a) 0 := by
  apply isLeast_spans_of_refl
  rw [only_none h]
  exact decide_eq_true (le_refl _)

/-- A pause for some units takes at least these. -/
theorem isLeast_spans_units (n : ℕ) : IsLeast ((units : Pause ℕ K).spans n) n := by
  constructor
  · refine ⟨0, n, le_refl _, decide_eq_true (le_of_eq (zero_add _)), ?_⟩
    rw [sub_zero, Int.floor_natCast]
  · rintro span ⟨called, now, -, hreturns, rfl⟩
    have h : called + n ≤ now := of_decide_eq_true hreturns
    apply Int.le_floor.mpr
    rw [Int.cast_natCast]
    linarith

/-- A pause may be called half a unit before a tick and return at the last of its ticks. -/
theorem ticks_halfUnit {period : ℕ} (hperiod : 0 < period) (n : ℕ) :
    (ticks period : Pause ℕ K).returns (n + 1) (period - 1 / 2) (period * (n + 1) : ℕ) = true := by
  have hpos : (0 : K) < period := Nat.cast_pos.mpr hperiod
  have hone : (1 : K) ≤ period := Nat.one_le_cast.mpr hperiod
  have hmul : (period : K) ≤ (period * (n + 1) : ℕ) :=
    Nat.cast_le.mpr (Nat.le_mul_of_pos_right period n.succ_pos)
  refine decide_eq_true ⟨by linarith, ?_⟩
  have hfirst : ⌊((period : K) - 1 / 2) / period⌋ = 0 := by
    rw [Int.floor_eq_zero_iff, Set.mem_Ico, le_div_iff₀ hpos, div_lt_iff₀ hpos]
    constructor
    · linarith
    · linarith
  have hlast : ⌊((period * (n + 1) : ℕ) : K) / period⌋ = ((n + 1 : ℕ) : ℤ) := by
    rw [Nat.cast_mul, mul_div_cancel_left₀ _ hpos.ne', Int.floor_natCast]
  rw [hfirst, hlast, zero_add]

/-- Between a call and its last tick lie all its ticks but one. -/
theorem lt_of_ticks {period n : ℕ} (hperiod : 0 < period) {called now : K}
    (h : ⌊called / period⌋ + (n + 1 : ℕ) ≤ ⌊now / period⌋) : (period * n : ℕ) < now - called := by
  have hpos : (0 : K) < period := Nat.cast_pos.mpr hperiod
  have hcalled : called / period < ⌊called / period⌋ + 1 := Int.lt_floor_add_one _
  have hnow : (⌊now / period⌋ : K) ≤ now / period := Int.floor_le _
  have hcast : (⌊called / period⌋ : K) + (n + 1 : ℕ) ≤ ⌊now / period⌋ := by exact_mod_cast h
  have hdiv : (n : K) < (now - called) / period := by
    rw [sub_div]
    push_cast at hcast
    linarith
  rw [Nat.cast_mul, mul_comm]
  exact (lt_div_iff₀ hpos).mp hdiv

/-- A pause for some ticks takes at least one tick less: it may be called right before one. -/
theorem isLeast_spans_ticks {period : ℕ} (hperiod : 0 < period) (n : ℕ) :
    IsLeast ((ticks period : Pause ℕ K).spans n) (period * (n - 1) : ℕ) := by
  cases n with
  | zero =>
    apply isLeast_spans_of_refl
    exact decide_eq_true ⟨le_refl _, le_of_eq (by rw [Nat.cast_zero, add_zero])⟩
  | succ n =>
    rw [Nat.add_sub_cancel]
    constructor
    · have hone : (1 : K) ≤ period := Nat.one_le_cast.mpr hperiod
      refine ⟨_, _, by linarith, ticks_halfUnit hperiod n, ?_⟩
      have hspan : ((period * (n + 1) : ℕ) : K) - (period - 1 / 2) = 1 / 2 + (period * n : ℕ) := by
        push_cast
        ring
      have hhalf : ⌊(1 / 2 : K)⌋ = 0 := by
        rw [Int.floor_eq_zero_iff, Set.mem_Ico]
        constructor
        · linarith
        · linarith
      rw [hspan, Int.floor_add_natCast, hhalf, zero_add]
    · rintro span ⟨called, now, -, hreturns, rfl⟩
      apply Int.le_floor.mpr
      rw [Int.cast_natCast]
      exact (lt_of_ticks hperiod (of_decide_eq_true hreturns).2).le

end Pause

end Esp32WebServers.Base
