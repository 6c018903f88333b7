import Esp32WebServers.Base.Run

/-!
# Parties that share nothing

Library `Base`. Parties join a table one after the other, and an event belongs to one of them
and changes its state alone. A gate may stop them all. What a party does in a run of the table
is a run of its own events, and what can be said step by step of each party can be said of
the table.
-/

namespace Esp32WebServers.Base.Step

universe u v w

/-- An event of a table: a party joins, or the party of an index takes a step. -/
inductive Joint (ι : Type w) (ε : Type v) where
  | join (party : ι)
  | party (index : Nat) (event : ε)

variable {α : Type u} {ε : Type v} {ι : Type w}

/-- The table, one event at a time, as long as its gate is open. -/
def table (gate : List α → Bool) (start : ι → α) (step : Step α ε) :
    Step (List α) (Joint ι ε)
  | xs, .join i => if gate xs then some (xs ++ [start i]) else none
  | xs, .party index e =>
    if gate xs then (xs[index]?).bind fun x ↦ (step x e).map fun y ↦ xs.set index y else none

/-- The parties that join during a list of events. -/
def joined : List (Joint ι ε) → List ι
  | [] => []
  | .join i :: es => i :: joined es
  | .party _ _ :: es => joined es

/-- The events of one party. -/
def own (index : Nat) : List (Joint ι ε) → List ε
  | [] => []
  | .join _ :: es => own index es
  | .party j e :: es => if j = index then e :: own index es else own index es

variable {gate : List α → Bool} {start : ι → α} {step : Step α ε}

/-- What an event of a table can be, with what it needs and what it does. -/
theorem table_cases {xs ys : List α} {e : Joint ι ε} (h : table gate start step xs e = some ys) :
    gate xs = true ∧
      ((∃ i, e = .join i ∧ ys = xs ++ [start i]) ∨
        ∃ index event x y, e = .party index event ∧ xs[index]? = some x ∧
          step x event = some y ∧ ys = xs.set index y) := by
  cases e with
  | join i =>
    simp only [table, Option.ite_none_right_eq_some, Option.some.injEq] at h
    exact ⟨h.1, .inl ⟨i, rfl, h.2.symm⟩⟩
  | party index event =>
    simp only [table, Option.ite_none_right_eq_some, Option.bind_eq_some_iff,
      Option.map_eq_some_iff] at h
    obtain ⟨hgate, x, hx, y, hy, hys⟩ := h
    exact ⟨hgate, .inr ⟨index, event, x, y, rfl, hx, hy, hys.symm⟩⟩

/-- A run of a table adds the parties that join. -/
theorem length_of_run {xs ys : List α} {es : List (Joint ι ε)}
    (hrun : run (table gate start step) xs es = some ys) :
    ys.length = xs.length + (joined es).length := by
  induction es generalizing xs with
  | nil =>
    cases hrun
    rfl
  | cons e es ih =>
    obtain ⟨zs, hzs, hrest⟩ := run_cons_eq_some.mp hrun
    rw [ih hrest]
    obtain ⟨-, ⟨i, rfl, rfl⟩ | ⟨index, event, x, y, rfl, -, -, rfl⟩⟩ := table_cases hzs
    · rw [List.length_append, List.length_singleton, joined, List.length_cons]
      omega
    · rw [List.length_set, joined]

/-- In a run of a table every party, also one that joins on the way, runs on its own events
alone. -/
theorem run_own {xs ys : List α} {es : List (Joint ι ε)}
    (hrun : run (table gate start step) xs es = some ys) {index : Nat} {x : α}
    (hx : (xs ++ (joined es).map start)[index]? = some x) :
    ∃ y, ys[index]? = some y ∧ run step x (own index es) = some y := by
  induction es generalizing xs x with
  | nil =>
    cases hrun
    rw [joined, List.map_nil, List.append_nil] at hx
    exact ⟨x, hx, rfl⟩
  | cons e es ih =>
    obtain ⟨zs, hzs, hrest⟩ := run_cons_eq_some.mp hrun
    obtain ⟨-, ⟨i, rfl, rfl⟩ | ⟨j, event, a, b, rfl, ha, hb, rfl⟩⟩ := table_cases hzs
    · apply ih hrest
      rw [joined, List.map_cons] at hx
      rw [List.append_assoc, List.singleton_append]
      exact hx
    · have hj : j < xs.length := (List.getElem?_eq_some_iff.mp ha).1
      rw [joined] at hx
      by_cases hindex : j = index
      · subst hindex
        rw [List.getElem?_append_left hj, ha, Option.some.injEq] at hx
        subst hx
        have hset : (xs.set j b ++ (joined es).map start)[j]? = some b := by
          rw [List.getElem?_append_left (by rwa [List.length_set]), List.getElem?_set_self hj]
        obtain ⟨y, hy, hown⟩ := ih hrest hset
        refine ⟨y, hy, ?_⟩
        rw [own, if_pos rfl]
        exact run_cons_eq_some.mpr ⟨b, hb, hown⟩
      · have hset : (xs.set j b ++ (joined es).map start)[index]? = some x := by
          rw [← hx]
          by_cases hlt : index < xs.length
          · rw [List.getElem?_append_left (by rwa [List.length_set]),
              List.getElem?_append_left hlt, List.getElem?_set_ne hindex]
          · rw [List.getElem?_append_right (by rw [List.length_set]; omega),
              List.getElem?_append_right (by omega), List.length_set]
        obtain ⟨y, hy, hown⟩ := ih hrest hset
        refine ⟨y, hy, ?_⟩
        rw [own, if_neg hindex]
        exact hown

/-- A condition on a party's steps, for its steps in a table. -/
def OfParty (G : α → ε → Prop) (xs : List α) : Joint ι ε → Prop
  | .join _ => True
  | .party index event => ∀ x ∈ xs[index]?, G x event

end Esp32WebServers.Base.Step
