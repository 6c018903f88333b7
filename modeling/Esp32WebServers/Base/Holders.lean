/-!
# Counting the holders of a resource

Library `Base`. A table of parties, each in a state of its own, is a list; how many of
them hold a resource is a count over it. When one party moves, its own share of the
count moves and no other's, which is stated without subtraction.
-/

namespace Esp32WebServers.Base

universe u

variable {α : Type u} {xs : List α} {i : Nat} {x : α}

/-- Replacing an entry exchanges its share of a count for the new entry's. -/
theorem countP_set_add (p : α → Bool) (h : xs[i]? = some x) (y : α) :
    (xs.set i y).countP p + (if p x then 1 else 0) =
      xs.countP p + (if p y then 1 else 0) := by
  obtain ⟨hi, hx⟩ := List.getElem?_eq_some_iff.mp h
  rw [List.countP_set hi, hx]
  by_cases hpx : p x
  · have hpos : 0 < xs.countP p :=
      List.countP_pos_iff.mpr ⟨x, hx ▸ List.getElem_mem hi, hpx⟩
    rw [if_pos hpx]
    omega
  · rw [if_neg hpx]
    omega

/-- Replacing an entry exchanges one occurrence of it for one of the new entry. -/
theorem count_set_add [DecidableEq α] (h : xs[i]? = some x) (y a : α) :
    (xs.set i y).count a + (if x = a then 1 else 0) =
      xs.count a + (if y = a then 1 else 0) := by
  have hset := countP_set_add (fun b ↦ b == a) h y
  simp only [beq_iff_eq] at hset
  exact hset

/-- A resource is accounted for: it has one holder, who owes its deletion, or it has none
and was deleted once. -/
def Accounted (holders deletions : Nat) : Prop :=
  holders = 1 ∧ deletions = 0 ∨ holders = 0 ∧ deletions = 1

/-- Accounting for a resource is a balance. -/
theorem accounted_iff {holders deletions : Nat} :
    Accounted holders deletions ↔ holders + deletions = 1 := by
  unfold Accounted
  omega

/-- In a balance over the resources that were issued, a held one was issued, and it has one
holder and no deletion. -/
theorem held_of_balance {holders deletions : Nat} {issued : Prop} [Decidable issued]
    (h : holders + deletions = if issued then 1 else 0) (hpos : 0 < holders) :
    issued ∧ holders = 1 ∧ deletions = 0 := by
  split at h
  · next hissued => exact ⟨hissued, by omega, by omega⟩
  · omega

end Esp32WebServers.Base
