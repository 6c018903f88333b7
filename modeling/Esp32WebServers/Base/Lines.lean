import Esp32WebServers.Base.Bytes
import Esp32WebServers.Base.Search

/-!
# Texts made of lines

Library `Base`. Lines that are each followed by a line end, and where a word without line ends
can occur in them.
-/

namespace Esp32WebServers.Base

/-- Lines, each followed by its line end. -/
def unlines (lines : List Bytes) : Bytes := lines.flatMap (· ++ crlf)

/-- No line, no text. -/
@[simp] theorem unlines_nil : unlines [] = [] := rfl

/-- The first line, its line end, and the others. -/
theorem unlines_cons (line : Bytes) (lines : List Bytes) :
    unlines (line :: lines) = line ++ (crlf ++ unlines lines) := by
  rw [unlines, List.flatMap_cons, List.append_assoc]
  rfl

/-- Some lines and then others. -/
theorem unlines_append (xs ys : List Bytes) : unlines (xs ++ ys) = unlines xs ++ unlines ys := by
  simp only [unlines, List.flatMap_append]

/-- The text of at least one line ends with a line end. -/
theorem crlf_suffix_unlines {lines : List Bytes} (h : lines ≠ []) : crlf <:+ unlines lines := by
  rw [← List.dropLast_append_getLast h, unlines_append, unlines_cons, unlines_nil,
    List.append_nil, ← List.append_assoc]
  exact List.suffix_append _ _

/-- What every line consists of, and the line end too, the text consists of. -/
theorem forall_mem_unlines {P : UInt8 → Prop} {lines : List Bytes}
    (hlines : ∀ line ∈ lines, ∀ b ∈ line, P b) (hcrlf : ∀ b ∈ crlf, P b) :
    ∀ b ∈ unlines lines, P b := by
  intro b hb
  obtain ⟨line, hline, hmem⟩ := List.mem_flatMap.mp hb
  rcases List.mem_append.mp hmem with hmem | hmem
  · exact hlines line hline b hmem
  · exact hcrlf b hmem

/-- A word without line ends ends before the line end of a text. -/
theorem indexOf?_add_length_le_of_crlf_suffix {w s : Bytes} {i : Nat} (hcr : 13 ∉ w)
    (hlf : 10 ∉ w) (hne : w ≠ []) (hs : crlf <:+ s) (hi : indexOf? w s = some i) :
    i + w.length + 2 ≤ s.length := by
  obtain ⟨t, rfl⟩ := hs
  cases ht : indexOf? w t with
  | some j =>
    have hle := indexOf?_add_length_le ht
    cases Option.some.inj (hi.symm.trans (indexOf?_append_left crlf ht))
    rw [List.length_append]
    exact Nat.add_le_add_right hle 2
  | none =>
    have hsplit : t ++ crlf = t ++ 13 :: ([] ++ 10 :: []) := rfl
    have hempty : ¬ w <:+: [] := by rwa [List.infix_nil]
    rw [hsplit, indexOf?_append_cons hcr (indexOf?_eq_none_iff.mp ht),
      indexOf?_append_cons hlf hempty, indexOf?_eq_none_iff.mpr hempty] at hi
    cases hi

/-- Lines that do not hold a word can be skipped in a search for it. -/
theorem indexOf?_unlines_append {w : Bytes} {lines : List Bytes} (t : Bytes) (hcr : 13 ∉ w)
    (hlf : 10 ∉ w) (hne : w ≠ []) (h : ∀ line ∈ lines, ¬ w <:+: line) :
    indexOf? w (unlines lines ++ t) = (indexOf? w t).map (· + (unlines lines).length) := by
  induction lines with
  | nil => simp
  | cons line lines ih =>
    rw [List.forall_mem_cons] at h
    have hsplit : unlines (line :: lines) ++ t =
        line ++ 13 :: ([] ++ 10 :: (unlines lines ++ t)) := by
      simp [unlines_cons, crlf]
    have hlen : (unlines (line :: lines)).length =
        (unlines lines).length + 1 + (line.length + 1) := by
      simp [unlines_cons, crlf]
      omega
    rw [hsplit, indexOf?_append_cons hcr h.1,
      indexOf?_append_cons hlf (by rwa [List.infix_nil]), ih h.2, Option.map_map,
      Option.map_map, hlen]
    apply congrArg (fun shift ↦ (indexOf? w t).map shift)
    funext i
    simp only [Function.comp, List.length_nil]
    omega

end Esp32WebServers.Base
