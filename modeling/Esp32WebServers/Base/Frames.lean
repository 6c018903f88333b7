import Mathlib.Data.List.Basic

/-!
# Messages in a stream

Library `Base`. A frame takes one message from the front of a text, where the whole of it is
there, and does not take another when more text follows. Fed with a stream in pieces, a reader
of such messages has after each piece exactly the messages that are complete by then, however
the stream is cut.
-/

namespace Esp32WebServers.Base

universe u v w

/-- A reader of one message, with what the text has behind it. -/
structure Frame (α : Type u) (β : Type v) where
  read : List α → Option (β × List α)
  shorter : ∀ s b rest, read s = some (b, rest) → rest.length < s.length
  stable : ∀ s b rest t, read s = some (b, rest) → read (s ++ t) = some (b, rest ++ t)

namespace Frame

variable {α : Type u} {β : Type v} {γ : Type w}

/-- The complete messages of a text, and what is left behind them. -/
def readAll (f : Frame α β) (s : List α) : List β × List α :=
  match _h : f.read s with
  | none => ([], s)
  | some (b, rest) => (b :: (f.readAll rest).1, (f.readAll rest).2)
termination_by s.length
decreasing_by
  all_goals exact f.shorter _ _ _ _h

/-- A reader with some messages and a rest takes one more piece. -/
def feed (f : Frame α β) (state : List β × List α) (piece : List α) : List β × List α :=
  (state.1 ++ (f.readAll (state.2 ++ piece)).1, (f.readAll (state.2 ++ piece)).2)

variable {f : Frame α β}

/-- Without a complete message all is left. -/
theorem readAll_of_none {s : List α} (h : f.read s = none) : f.readAll s = ([], s) := by
  rw [readAll]
  split
  · rfl
  · next hsome =>
    rw [h] at hsome
    cases hsome

/-- A complete message and those of the rest. -/
theorem readAll_of_some {s rest : List α} {b : β} (h : f.read s = some (b, rest)) :
    f.readAll s = (b :: (f.readAll rest).1, (f.readAll rest).2) := by
  rw [readAll]
  split
  · next hnone =>
    rw [h] at hnone
    cases hnone
  · next hsome =>
    cases Option.some.inj (h.symm.trans hsome)
    rfl

/-- The empty text has no message. -/
theorem readAll_nil : f.readAll [] = ([], []) := by
  apply readAll_of_none
  cases h : f.read [] with
  | none => rfl
  | some result => exact absurd (f.shorter _ result.1 result.2 h) (Nat.not_lt_zero _)

/-- A text in two pieces is read like the first and, with what that leaves, the second. -/
theorem readAll_append (s t : List α) : f.readAll (s ++ t) = f.feed (f.readAll s) t := by
  induction hn : s.length using Nat.strongRecOn generalizing s with
  | ind n ih =>
    cases h : f.read s with
    | none => rw [readAll_of_none h, feed, List.nil_append]
    | some result =>
      obtain ⟨b, rest⟩ := result
      have hrest := ih rest.length (hn ▸ f.shorter _ _ _ h) rest rfl
      rw [readAll_of_some h, readAll_of_some (f.stable _ _ _ t h), hrest]
      rfl

/-- A text in any pieces is read like the whole. -/
theorem foldl_feed (pieces : List (List α)) (s : List α) :
    pieces.foldl f.feed (f.readAll s) = f.readAll (s ++ pieces.flatten) := by
  induction pieces generalizing s with
  | nil => rw [List.foldl_nil, List.flatten_nil, List.append_nil]
  | cons piece pieces ih =>
    rw [List.foldl_cons, ← readAll_append, ih, List.flatten_cons, List.append_assoc]

/-- A frame reads an encoding of messages: each of them, and nothing of what follows. -/
def Reads (f : Frame α β) (encode : γ → List α) (value : γ → β) : Prop :=
  ∀ c, f.read (encode c) = some (value c, [])

section Reads

variable {encode : γ → List α} {value : γ → β}

/-- A message that is cut is not read. -/
theorem Reads.cut (h : f.Reads encode value) {c : γ} {cut rest : List α}
    (hcut : cut ++ rest = encode c) (hne : rest ≠ []) : f.read cut = none := by
  cases hread : f.read cut with
  | none => rfl
  | some result =>
    have hwhole := f.stable cut result.1 result.2 rest hread
    rw [hcut, h c, Option.some.injEq, Prod.mk.injEq] at hwhole
    exact absurd (List.append_eq_nil_iff.mp hwhole.2.symm).2 hne

/-- Messages in a row are read one by one, and then what follows. -/
theorem Reads.flatMap (h : f.Reads encode value) (cs : List γ) (s : List α) :
    f.readAll (cs.flatMap encode ++ s) =
      (cs.map value ++ (f.readAll s).1, (f.readAll s).2) := by
  induction cs with
  | nil => rfl
  | cons c cs ih =>
    have hread := f.stable _ _ _ (cs.flatMap encode ++ s) (h c)
    rw [List.nil_append] at hread
    rw [List.flatMap_cons, List.append_assoc, readAll_of_some hread, ih]
    rfl

/-- What has arrived of messages in a row: the first of them, and a part of the next. -/
theorem exists_take {cs : List γ} {s rest : List α} (h : s ++ rest = cs.flatMap encode) :
    ∃ n part, s = (cs.take n).flatMap encode ++ part ∧ part ++ rest = (cs.drop n).flatMap encode ∧
      (part ≠ [] → ∃ c tail, cs[n]? = some c ∧ part ++ tail = encode c ∧ tail ≠ []) := by
  induction cs generalizing s with
  | nil =>
    obtain ⟨rfl, rfl⟩ := List.append_eq_nil_iff.mp h
    exact ⟨0, [], rfl, rfl, fun hne ↦ absurd rfl hne⟩
  | cons c cs ih =>
    rw [List.flatMap_cons] at h
    rcases List.append_eq_append_iff.mp h with ⟨tail, hc, hrest⟩ | ⟨more, hs, hmore⟩
    · by_cases htail : tail = []
      · -- The first message is just complete.
        subst htail
        rw [List.append_nil] at hc
        refine ⟨1, [], ?_, ?_, fun hne ↦ absurd rfl hne⟩
        · rw [List.take_succ_cons, List.take_zero, List.flatMap_singleton, List.append_nil, hc]
        · rw [List.nil_append, List.drop_succ_cons, List.drop_zero, hrest, List.nil_append]
      · exact ⟨0, s, rfl, by rw [h, List.drop_zero, List.flatMap_cons],
          fun _ ↦ ⟨c, tail, rfl, hc.symm, htail⟩⟩
    · obtain ⟨n, part, hmoreEq, hdrop, hpart⟩ := ih hmore.symm
      refine ⟨n + 1, part, ?_, hdrop, hpart⟩
      rw [hs, hmoreEq, List.take_succ_cons, List.flatMap_cons, List.append_assoc]

/-- Fed with messages in a row, in any pieces, a reader has exactly the complete ones, and of
the next one what has arrived. -/
theorem Reads.foldl_feed (h : f.Reads encode value) {cs : List γ} {pieces : List (List α)}
    {rest : List α} (hpieces : pieces.flatten ++ rest = cs.flatMap encode) :
    ∃ n part, pieces.foldl f.feed ([], []) = ((cs.take n).map value, part) ∧
      part ++ rest = (cs.drop n).flatMap encode ∧
      (part ≠ [] → ∃ c tail, cs[n]? = some c ∧ part ++ tail = encode c ∧ tail ≠ []) := by
  obtain ⟨n, part, hsplit, hdrop, hpart⟩ := exists_take hpieces
  refine ⟨n, part, ?_, hdrop, hpart⟩
  have hnone : f.readAll part = ([], part) := by
    by_cases hnil : part = []
    · rw [hnil, readAll_nil]
    · obtain ⟨c, tail, -, hc, htail⟩ := hpart hnil
      exact readAll_of_none (h.cut hc htail)
  rw [← readAll_nil (f := f), Frame.foldl_feed, List.nil_append, hsplit, h.flatMap, hnone,
    List.append_nil]

end Reads

end Frame

end Esp32WebServers.Base
