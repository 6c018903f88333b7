import Esp32WebServers.Base.Search

/-!
# Backtracking patterns

Library `Base`. The common part of the pattern languages of Python's `re` and of Lua's
`string.match`: literals and greedy repetitions of a character class, some of them
captured. A repetition first takes as much as it can and gives elements back one by
one; a search takes the leftmost position where the whole pattern matches.
-/

namespace Esp32WebServers.Base

universe u

variable {α : Type u}

/-- One item of a pattern. `repeat p least captured` is a greedy repetition of the class
`p`, at least `least` times, and a group of the pattern where `captured` is set. -/
inductive Piece (α : Type u) where
  | lit (a : α)
  | repeat (p : α → Bool) (least : Nat) (captured : Bool)

/-- The pattern that matches a word literally. -/
def lits (w : List α) : List (Piece α) := w.map .lit

private theorem dropWhile_eq_drop (p : α → Bool) (s : List α) :
    s.dropWhile p = s.drop (s.takeWhile p).length := by
  have h : (s.takeWhile p ++ s.dropWhile p).drop (s.takeWhile p).length = s.dropWhile p :=
    List.drop_left
  rw [List.takeWhile_append_dropWhile] at h
  exact h.symm

private theorem drop_of_lt_takeWhile {p : α → Bool} {s : List α} {n : Nat}
    (h : n < (s.takeWhile p).length) : ∃ a rest, s.drop n = a :: rest ∧ p a = true := by
  induction s generalizing n with
  | nil => simp at h
  | cons a s ih =>
    by_cases ha : p a = true
    · cases n with
      | zero => exact ⟨a, s, rfl, ha⟩
      | succ n =>
        rw [List.takeWhile_cons_of_pos ha, List.length_cons] at h
        exact ih (by omega)
    · simp [ha] at h

variable [DecidableEq α]

/-- Match a pattern at the front, longest repetition first; the captured groups. -/
def matchHere : List (Piece α) → List α → Option (List (List α))
  | [], _ => some []
  | .lit _ :: _, [] => none
  | .lit a :: ps, b :: s => if a = b then matchHere ps s else none
  | .repeat p least captured :: ps, s =>
    (List.range' least ((s.takeWhile p).length + 1 - least)).reverse.findSome? fun n ↦
      (matchHere ps (s.drop n)).map fun groups ↦
        if captured then s.take n :: groups else groups

/-- Match a pattern at the leftmost possible position. -/
def search (ps : List (Piece α)) : List α → Option (List (List α))
  | [] => matchHere ps []
  | a :: s => (matchHere ps (a :: s)).or (search ps s)

/-- A literal word consumes itself and matches nothing else. -/
theorem matchHere_lits_append (w : List α) (ps : List (Piece α)) (s : List α) :
    matchHere (lits w ++ ps) s =
      if w <+: s then matchHere ps (s.drop w.length) else none := by
  induction w generalizing s with
  | nil => simp [lits]
  | cons a w ih =>
    cases s with
    | nil => simp [lits, matchHere]
    | cons b s =>
      simp only [lits, List.map_cons, List.cons_append, matchHere, List.cons_prefix_cons,
        List.length_cons, List.drop_succ_cons]
      by_cases hab : a = b
      · simp only [hab, ite_true, true_and]
        exact ih s
      · simp only [hab, ite_false, false_and]

/-- Where the rest of the pattern cannot start with an element of the class, a repetition
takes all it can and never gives an element back. -/
theorem matchHere_repeat {p : α → Bool} {least : Nat} {captured : Bool}
    {ps : List (Piece α)} (hfail : ∀ a s, p a = true → matchHere ps (a :: s) = none)
    (s : List α) :
    matchHere (.repeat p least captured :: ps) s =
      if least ≤ (s.takeWhile p).length then
        (matchHere ps (s.dropWhile p)).map fun groups ↦
          if captured then s.takeWhile p :: groups else groups
      else none := by
  rw [matchHere]
  by_cases hle : least ≤ (s.takeWhile p).length
  · rw [if_pos hle]
    have hsplit : (s.takeWhile p).length + 1 - least = ((s.takeWhile p).length - least) + 1 := by
      omega
    have hlast : least + ((s.takeWhile p).length - least) = (s.takeWhile p).length := by omega
    rw [hsplit, List.range'_1_concat, hlast, List.reverse_concat, List.findSome?_cons,
      ← dropWhile_eq_drop]
    have hnone : (List.range' least ((s.takeWhile p).length - least)).reverse.findSome?
        (fun n ↦ (matchHere ps (s.drop n)).map fun groups ↦
          if captured then s.take n :: groups else groups) = none := by
      rw [List.findSome?_eq_none_iff]
      intro n hn
      rw [List.mem_reverse, List.mem_range'_1] at hn
      obtain ⟨a, rest, hdrop, ha⟩ := drop_of_lt_takeWhile (p := p) (s := s) (n := n) (by omega)
      rw [hdrop, hfail a rest ha]
      rfl
    rw [hnone]
    have htake : s.take (s.takeWhile p).length = s.takeWhile p :=
      List.prefix_iff_eq_take.mp (List.takeWhile_prefix p) |>.symm
    rw [htake]
    cases matchHere ps (s.dropWhile p) <;> rfl
  · have hz : (s.takeWhile p).length + 1 - least = 0 := by omega
    rw [if_neg hle, hz]
    rfl

/-- A search fails where the pattern matches at no position. -/
theorem search_eq_none_iff {ps : List (Piece α)} {s : List α} :
    search ps s = none ↔ ∀ i ≤ s.length, matchHere ps (s.drop i) = none := by
  induction s with
  | nil => simp [search]
  | cons a s ih =>
    rw [search, Option.or_eq_none_iff, ih]
    constructor
    · rintro ⟨hhere, hrest⟩ i hi
      cases i with
      | zero => exact hhere
      | succ i => exact hrest i (by simpa using hi)
    · intro h
      exact ⟨h 0 (by omega), fun i hi ↦ h (i + 1) (by simpa using hi)⟩

/-- A search yields the groups of the leftmost match. -/
theorem search_of_first {ps : List (Piece α)} {s : List α} {i : Nat} (hi : i ≤ s.length)
    (hbefore : ∀ j < i, matchHere ps (s.drop j) = none)
    (hsome : (matchHere ps (s.drop i)).isSome) : search ps s = matchHere ps (s.drop i) := by
  induction s generalizing i with
  | nil =>
    obtain rfl : i = 0 := by simpa using hi
    rfl
  | cons a s ih =>
    rw [search]
    cases i with
    | zero =>
      rw [List.drop_zero] at hsome ⊢
      obtain ⟨groups, hg⟩ := Option.isSome_iff_exists.mp hsome
      rw [hg]
      rfl
    | succ i =>
      have hhere : matchHere ps (a :: s) = none := hbefore 0 (by omega)
      rw [hhere, Option.none_or]
      exact ih (by simpa using hi) (fun j hj ↦ hbefore (j + 1) (by omega)) hsome

/-- A search yields groups exactly where these are the groups of the leftmost match. -/
theorem search_eq_some_iff {ps : List (Piece α)} {s : List α} {groups : List (List α)} :
    search ps s = some groups ↔ ∃ i ≤ s.length, matchHere ps (s.drop i) = some groups ∧
      ∀ j < i, matchHere ps (s.drop j) = none := by
  constructor
  · intro h
    induction s with
    | nil => exact ⟨0, Nat.le_refl 0, h, fun j hj ↦ absurd hj (Nat.not_lt_zero j)⟩
    | cons a s ih =>
      rw [search] at h
      cases hhere : matchHere ps (a :: s) with
      | some here =>
        rw [hhere, Option.some_or] at h
        refine ⟨0, Nat.zero_le _, ?_, fun j hj ↦ absurd hj (Nat.not_lt_zero j)⟩
        rw [List.drop_zero, hhere, h]
      | none =>
        rw [hhere, Option.none_or] at h
        obtain ⟨i, hi, hmatch, hbefore⟩ := ih h
        refine ⟨i + 1, Nat.succ_le_succ hi, hmatch, ?_⟩
        intro j hj
        cases j with
        | zero => exact hhere
        | succ j => exact hbefore j (by omega)
  · rintro ⟨i, hi, hmatch, hbefore⟩
    rw [search_of_first hi hbefore (by rw [hmatch]; rfl), hmatch]

/-- A pattern that starts with a word is decided behind the word's only occurrence. -/
theorem search_lits_of_occursOnlyAt {w : List α} {ps : List (Piece α)} {s : List α} {i : Nat}
    (h : OccursOnlyAt w s i) :
    search (lits w ++ ps) s = matchHere ps (s.drop (i + w.length)) := by
  have hat : matchHere (lits w ++ ps) (s.drop i) = matchHere ps (s.drop (i + w.length)) := by
    rw [matchHere_lits_append, if_pos ((h i).mpr rfl), List.drop_drop]
  have hother (j : Nat) (hj : j ≠ i) : matchHere (lits w ++ ps) (s.drop j) = none := by
    rw [matchHere_lits_append, if_neg]
    exact fun hp ↦ hj ((h j).mp hp)
  cases hm : matchHere ps (s.drop (i + w.length)) with
  | none =>
    rw [search_eq_none_iff]
    intro j _
    by_cases hj : j = i
    · rw [hj, hat, hm]
    · exact hother j hj
  | some groups =>
    have hle := indexOf?_add_length_le h.indexOf?
    rw [search_of_first (i := i) (by omega) (fun j hj ↦ hother j (by omega)), hat, hm]
    rw [hat, hm]
    rfl

end Esp32WebServers.Base
