import Mathlib.Data.List.Infix

/-!
# First occurrences

Library `Base`. The position of the first occurrence of a word in a list, as `strstr`,
`str::find` and the leftmost match of a pattern determine it, and the facts that locate
it in a concatenation: an occurrence cannot reach across an element the word lacks.
-/

namespace Esp32WebServers.Base

universe u

variable {α : Type u}

/-- The word occurs at one position and nowhere else. -/
def OccursOnlyAt (w s : List α) (i : Nat) : Prop := ∀ j, w <+: s.drop j ↔ j = i

/-- An occurrence somewhere inside is an occurrence at some position. -/
theorem infix_iff_exists_drop {w s : List α} : w <:+: s ↔ ∃ i, w <+: s.drop i := by
  constructor
  · rintro ⟨p, q, rfl⟩
    exact ⟨p.length, q, by simp⟩
  · rintro ⟨i, hi⟩
    exact hi.isInfix.trans (List.drop_suffix i s).isInfix

private theorem prefix_append_cons {w p q : List α} {x : α} (hx : x ∉ w)
    (h : w <+: p ++ x :: q) : w <+: p := by
  have hxp : p ++ [x] <+: p ++ x :: q := by simp
  rcases Nat.lt_or_ge p.length w.length with hl | hl
  · have hw : p ++ [x] <+: w := List.prefix_of_prefix_length_le hxp h (by simp; omega)
    exact absurd (hw.subset (by simp)) hx
  · exact List.prefix_of_prefix_length_le h (List.prefix_append _ _) hl

/-- An element that the word lacks separates the places where it can occur. -/
theorem infix_append_cons_iff {w p q : List α} {x : α} (hx : x ∉ w) :
    w <:+: p ++ x :: q ↔ w <:+: p ∨ w <:+: q := by
  constructor
  · intro h
    induction p with
    | nil =>
      rcases List.infix_cons_iff.mp h with hp | hq
      · exact .inl (prefix_append_cons (p := []) hx hp).isInfix
      · exact .inr hq
    | cons a p ih =>
      rcases List.infix_cons_iff.mp h with hp | hr
      · exact .inl (prefix_append_cons (p := a :: p) hx hp).isInfix
      · rcases ih hr with hp | hq
        · exact .inl (List.infix_cons_iff.mpr (.inr hp))
        · exact .inr hq
  · rintro (hp | hq)
    · exact hp.trans (List.prefix_append _ _).isInfix
    · exact hq.trans ((List.suffix_cons x q).trans (List.suffix_append p _)).isInfix

/-- The first separators of two texts are at the same place, with the same text in front. -/
theorem append_cons_inj {p q s t : List α} {x : α} (hp : x ∉ p) (hq : x ∉ q) :
    p ++ x :: s = q ++ x :: t ↔ p = q ∧ s = t := by
  constructor
  · intro h
    induction p generalizing q with
    | nil =>
      cases q with
      | nil => exact ⟨rfl, (List.cons.inj h).2⟩
      | cons b q => exact absurd (List.cons.inj h).1 (List.ne_of_not_mem_cons hq)
    | cons a p ih =>
      cases q with
      | nil => exact absurd (List.cons.inj h).1.symm (List.ne_of_not_mem_cons hp)
      | cons b q =>
        obtain ⟨rfl, htail⟩ := List.cons.inj h
        obtain ⟨rfl, rfl⟩ := ih (List.not_mem_of_not_mem_cons hp) (List.not_mem_of_not_mem_cons hq)
          htail
        exact ⟨rfl, rfl⟩
  · rintro ⟨rfl, rfl⟩
    rfl

variable [DecidableEq α]

/-- Position of the first occurrence of a word, where there is one. -/
def indexOf? (w : List α) : List α → Option Nat
  | [] => if w = [] then some 0 else none
  | a :: s => if w <+: a :: s then some 0 else (indexOf? w s).map (· + 1)

/-- A word at the front is found there. -/
theorem indexOf?_of_isPrefix {w s : List α} (h : w <+: s) : indexOf? w s = some 0 := by
  cases s with
  | nil => simp [indexOf?, List.prefix_nil.mp h]
  | cons a s => simp only [indexOf?, h, ite_true]

/-- Where the word is not at the front, the search goes on behind the first element. -/
theorem indexOf?_cons_of_not_isPrefix {w s : List α} {a : α} (h : ¬ w <+: a :: s) :
    indexOf? w (a :: s) = (indexOf? w s).map (· + 1) := by
  simp only [indexOf?, h, ite_false]

/-- The search returns the first of all positions where the word occurs. -/
theorem indexOf?_eq_some_iff {w s : List α} {i : Nat} :
    indexOf? w s = some i ↔ w <+: s.drop i ∧ ∀ j < i, ¬ w <+: s.drop j := by
  induction s generalizing i with
  | nil =>
    simp only [indexOf?, List.drop_nil, List.prefix_nil]
    split
    · next hw =>
      simp only [hw, Option.some.injEq, true_and, not_true_eq_false]
      constructor
      · rintro rfl j hj
        omega
      · intro h
        by_contra hi
        exact h 0 (by omega)
    · next hw => simp [hw]
  | cons a s ih =>
    by_cases hp : w <+: a :: s
    · rw [indexOf?_of_isPrefix hp, Option.some.injEq]
      constructor
      · rintro rfl
        exact ⟨hp, fun j hj ↦ by omega⟩
      · rintro ⟨_, hmin⟩
        by_contra hi
        exact hmin 0 (by omega) hp
    · rw [indexOf?_cons_of_not_isPrefix hp]
      cases i with
      | zero => simp [hp]
      | succ i =>
        simp only [Option.map_eq_some_iff, Nat.add_right_cancel_iff, exists_eq_right, ih,
          List.drop_succ_cons]
        constructor
        · rintro ⟨hi, hmin⟩
          refine ⟨hi, fun j hj ↦ ?_⟩
          cases j with
          | zero => exact hp
          | succ j => exact hmin j (by omega)
        · rintro ⟨hi, hmin⟩
          exact ⟨hi, fun j hj ↦ hmin (j + 1) (by omega)⟩

/-- The search fails exactly where the word does not occur. -/
theorem indexOf?_eq_none_iff {w s : List α} : indexOf? w s = none ↔ ¬ w <:+: s := by
  induction s with
  | nil => simp [indexOf?, List.infix_nil]
  | cons a s ih =>
    rw [List.infix_cons_iff, not_or]
    by_cases hp : w <+: a :: s
    · simp [indexOf?_of_isPrefix hp, hp]
    · rw [indexOf?_cons_of_not_isPrefix hp, Option.map_eq_none_iff, ih]
      simp [hp]

/-- An occurrence ends inside the list that is searched. -/
theorem indexOf?_add_length_le {w s : List α} {i : Nat} (h : indexOf? w s = some i) :
    i + w.length ≤ s.length := by
  obtain ⟨hi, hmin⟩ := indexOf?_eq_some_iff.mp h
  have hl := hi.length_le
  rw [List.length_drop] at hl
  by_cases hw : w = []
  · subst hw
    have hz : i = 0 := by
      by_contra hz
      exact hmin 0 (by omega) List.nil_prefix
    simp [hz]
  · have := List.length_pos_iff.mpr hw
    omega

/-- The only occurrence of a word is the one the search finds. -/
theorem OccursOnlyAt.indexOf? {w s : List α} {i : Nat} (h : OccursOnlyAt w s i) :
    indexOf? w s = some i := by
  refine indexOf?_eq_some_iff.mpr ⟨(h i).mpr rfl, ?_⟩
  intro j hj hp
  have := (h j).mp hp
  omega

/-- A word occurs at one position only if the search finds it there and it does not
occur behind. -/
theorem occursOnlyAt_of_not_infix {w s : List α} {i : Nat} (h : Base.indexOf? w s = some i)
    (hbehind : ¬ w <:+: s.drop (i + 1)) : OccursOnlyAt w s i := by
  obtain ⟨hi, hmin⟩ := indexOf?_eq_some_iff.mp h
  intro j
  constructor
  · intro hj
    rcases Nat.lt_trichotomy j i with hlt | heq | hgt
    · exact absurd hj (hmin j hlt)
    · exact heq
    · refine absurd (infix_iff_exists_drop.mpr ⟨j - (i + 1), ?_⟩) hbehind
      rw [List.drop_drop]
      have hsum : i + 1 + (j - (i + 1)) = j := by omega
      rwa [hsum]
  · rintro rfl
    exact hi

/-- What follows the first occurrence does not move it. -/
theorem indexOf?_append_left {w s : List α} {i : Nat} (t : List α)
    (h : indexOf? w s = some i) : indexOf? w (s ++ t) = some i := by
  have hle := indexOf?_add_length_le h
  obtain ⟨hi, hmin⟩ := indexOf?_eq_some_iff.mp h
  refine indexOf?_eq_some_iff.mpr ⟨?_, ?_⟩
  · rw [List.drop_append_of_le_length (by omega)]
    exact hi.trans (List.prefix_append _ _)
  · intro j hj hp
    refine hmin j hj ?_
    rw [List.drop_append_of_le_length (by omega)] at hp
    refine List.prefix_of_prefix_length_le hp (List.prefix_append _ _) ?_
    rw [List.length_drop]
    omega

/-- A first occurrence that ends within the first part is the first one there. -/
theorem indexOf?_of_append_left {w s t : List α} {i : Nat} (h : indexOf? w (s ++ t) = some i)
    (hle : i + w.length ≤ s.length) : indexOf? w s = some i := by
  obtain ⟨hi, hmin⟩ := indexOf?_eq_some_iff.mp h
  apply indexOf?_eq_some_iff.mpr
  constructor
  · rw [List.drop_append_of_le_length (by omega)] at hi
    apply List.prefix_of_prefix_length_le hi (List.prefix_append _ _)
    rw [List.length_drop]
    omega
  · intro j hj hp
    apply hmin j hj
    rw [List.drop_append_of_le_length (by omega)]
    exact hp.trans (List.prefix_append _ _)

/-- Up to a separator without an occurrence, the search can be skipped. -/
theorem indexOf?_append_cons {w p q : List α} {x : α} (hx : x ∉ w) (hp : ¬ w <:+: p) :
    indexOf? w (p ++ x :: q) = (indexOf? w q).map (· + (p.length + 1)) := by
  induction p with
  | nil =>
    have hn : ¬ w <+: x :: q := fun h ↦ hp (prefix_append_cons (p := []) hx h).isInfix
    rw [List.nil_append, indexOf?_cons_of_not_isPrefix hn]
    rfl
  | cons a p ih =>
    have hn : ¬ w <+: a :: (p ++ x :: q) := fun h ↦
      hp (prefix_append_cons (p := a :: p) hx h).isInfix
    have hrest : ¬ w <:+: p := fun h ↦ hp (List.infix_cons_iff.mpr (.inr h))
    rw [List.cons_append, indexOf?_cons_of_not_isPrefix hn, ih hrest, Option.map_map]
    rfl

/-- Copies of an element that the word lacks add no occurrence at the end. -/
theorem indexOf?_append_replicate {w s : List α} {a : α} (n : Nat) (ha : a ∉ w) (hw : w ≠ []) :
    indexOf? w (s ++ List.replicate n a) = indexOf? w s := by
  cases hi : indexOf? w s with
  | some i => exact indexOf?_append_left _ hi
  | none =>
    rw [indexOf?_eq_none_iff] at hi ⊢
    cases n with
    | zero => simpa using hi
    | succ n =>
      rw [List.replicate_succ, infix_append_cons_iff ha, not_or]
      refine ⟨hi, fun h ↦ ha ?_⟩
      obtain ⟨b, hb⟩ := List.exists_mem_of_ne_nil w hw
      rwa [← List.eq_of_mem_replicate (h.subset hb)]

/-- A part without the word's first element can be skipped. -/
theorem indexOf?_append_of_head_notMem {c : α} {w p q : List α} (hc : c ∉ p) :
    indexOf? (c :: w) (p ++ q) = (indexOf? (c :: w) q).map (· + p.length) := by
  induction p with
  | nil => simp
  | cons a p ih =>
    rw [List.mem_cons, not_or] at hc
    have hn : ¬ c :: w <+: a :: (p ++ q) := fun h ↦ hc.1 (List.cons_prefix_cons.mp h).1
    rw [List.cons_append, indexOf?_cons_of_not_isPrefix hn, ih hc.2, Option.map_map]
    rfl

/-- A word that begins the second part, with no occurrence of its first element before,
is found where that part begins. -/
theorem indexOf?_of_append {c : α} {w p q : List α} (hc : c ∉ p) :
    indexOf? (c :: w) (p ++ (c :: w ++ q)) = some p.length := by
  rw [indexOf?_append_of_head_notMem hc, indexOf?_of_isPrefix (List.prefix_append _ _)]
  simp

/-- A word that does not repeat its first element cannot begin before a place where it
stands, if it does not stand in front of that place. -/
theorem indexOf?_append_of_not_infix {c : α} {w p : List α} (q : List α) (hc : c ∉ w)
    (hp : ¬ c :: w <:+: p) : indexOf? (c :: w) (p ++ (c :: w ++ q)) = some p.length := by
  induction p with
  | nil => exact indexOf?_of_isPrefix (List.prefix_append _ _)
  | cons a p ih =>
    have hn : ¬ c :: w <+: a :: (p ++ (c :: w ++ q)) := by
      intro h
      obtain ⟨rfl, hw⟩ := List.cons_prefix_cons.mp h
      rcases Nat.lt_or_ge p.length w.length with hlt | hge
      · -- The word would reach the place where it stands again.
        have hpc : p ++ [c] <+: p ++ (c :: w ++ q) := by simp
        have hpw := List.prefix_of_prefix_length_le hpc hw (by simp; omega)
        exact hc (hpw.subset (by simp))
      · have hwp := List.prefix_of_prefix_length_le hw (List.prefix_append _ _) hge
        exact hp (List.cons_prefix_cons.mpr ⟨rfl, hwp⟩).isInfix
    have hrest : ¬ c :: w <:+: p := fun h ↦ hp (List.infix_cons_iff.mpr (.inr h))
    rw [List.cons_append, indexOf?_cons_of_not_isPrefix hn, ih hrest]
    rfl

end Esp32WebServers.Base
