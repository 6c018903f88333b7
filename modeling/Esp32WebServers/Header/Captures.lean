import Esp32WebServers.Header.Patterns

/-!
# What the Python and Lua servers capture

The pattern of `parseHaeder` (`web_server/python_micropython/main/server.py:65`) and
`parseHeader` (`web_server/lua_nodemcu/server.lua:58`) allows no digit at all. Where the first
match captures none, `int` raises (`server.py:68`), and `tonumber` gives `nil`, which
cannot be compared with a number (`server.lua:46`). This module describes the texts that match
and says when a request yields a delay in both servers.
-/

namespace Esp32WebServers

open Base

/-- The pattern for a header matches at a position, over some spaces and digits. -/
def MatchesAt (header data : Bytes) (i k : Nat) (digits : Bytes) : Prop :=
  (∀ b ∈ digits, isDigit b = true) ∧
    header ++ (58 :: (List.replicate k 32 ++ (digits ++ crlf))) <+: data.drop i

/-- The first match for a header has no digit. -/
def EmptyValue (header data : Bytes) : Prop :=
  ∃ i k, MatchesAt header data i k [] ∧
    ∀ j < i, ∀ k digits, ¬ MatchesAt header data j k digits

/-- The spaces at the front of a text. -/
theorem takeWhile_spaces (s : Bytes) :
    s.takeWhile (· == 32) = List.replicate (s.takeWhile (· == 32)).length 32 := by
  rw [List.eq_replicate_iff]
  refine ⟨rfl, ?_⟩
  intro b hb
  have hspace := List.mem_takeWhile_imp hb
  exact beq_iff_eq.mp hspace

/-- Behind the colon the pattern matches spaces, digits and a line end, and captures the
digits. -/
theorem matchHere_valuePattern_eq_some_iff {s : Bytes} {groups : List Bytes} :
    matchHere valuePattern s = some groups ↔
      ∃ k digits, (∀ b ∈ digits, isDigit b = true) ∧
        List.replicate k 32 ++ (digits ++ crlf) <+: s ∧ groups = [digits] := by
  constructor
  · intro h
    rw [matchHere_valuePattern, Option.ite_none_right_eq_some] at h
    obtain ⟨⟨rest, hrest⟩, hgroups⟩ := h
    refine ⟨(s.takeWhile (· == 32)).length, (s.dropWhile (· == 32)).takeWhile isDigit, ?_, ?_,
      (Option.some.inj hgroups).symm⟩
    · intro b hb
      exact List.mem_takeWhile_imp hb
    · refine ⟨rest, ?_⟩
      rw [← takeWhile_spaces, List.append_assoc, List.append_assoc, hrest,
        List.takeWhile_append_dropWhile, List.takeWhile_append_dropWhile]
  · rintro ⟨k, digits, hdigits, ⟨rest, hrest⟩, rfl⟩
    have hmatch := matchHere_spaces_digits k rest hdigits
    rw [← hrest]
    simpa only [List.append_assoc] using hmatch

/-- The pattern for a header matches where the name, a colon, spaces, digits and a line end
follow each other. -/
theorem matchHere_headerPattern_eq_some_iff {header data : Bytes} {i : Nat}
    {groups : List Bytes} :
    matchHere (headerPattern header) (data.drop i) = some groups ↔
      ∃ k digits, MatchesAt header data i k digits ∧ groups = [digits] := by
  rw [headerPattern, matchHere_lits_append]
  constructor
  · intro h
    rw [Option.ite_none_right_eq_some] at h
    obtain ⟨⟨rest, hrest⟩, h⟩ := h
    rw [← hrest, List.drop_left] at h
    cases rest with
    | nil => cases h
    | cons b rest =>
      rw [matchHere, Option.ite_none_right_eq_some] at h
      obtain ⟨rfl, h⟩ := h
      obtain ⟨k, digits, hdigits, ⟨t, ht⟩, hgroups⟩ :=
        matchHere_valuePattern_eq_some_iff.mp h
      refine ⟨k, digits, ⟨hdigits, t, ?_⟩, hgroups⟩
      rw [← hrest, ← ht, List.append_assoc, List.cons_append]
  · rintro ⟨k, digits, ⟨hdigits, t, ht⟩, hgroups⟩
    rw [← ht, List.append_assoc, if_pos (List.prefix_append _ _), List.drop_left,
      List.cons_append, matchHere, if_pos rfl]
    apply matchHere_valuePattern_eq_some_iff.mpr
    exact ⟨k, digits, hdigits, List.prefix_append _ _, hgroups⟩

/-- The pattern does not match at a position where there is no such text. -/
theorem matchHere_headerPattern_eq_none_iff {header data : Bytes} {i : Nat} :
    matchHere (headerPattern header) (data.drop i) = none ↔
      ∀ k digits, ¬ MatchesAt header data i k digits := by
  rw [Option.eq_none_iff_forall_ne_some]
  constructor
  · intro h k digits hmatch
    exact h _ (matchHere_headerPattern_eq_some_iff.mpr ⟨k, digits, hmatch, rfl⟩)
  · intro h groups hgroups
    obtain ⟨k, digits, hmatch, -⟩ := matchHere_headerPattern_eq_some_iff.mp hgroups
    exact h k digits hmatch

/-- A match lies inside the text. -/
theorem MatchesAt.le_length {header data : Bytes} {i k : Nat} {digits : Bytes}
    (h : MatchesAt header data i k digits) : i ≤ data.length := by
  have hlen := h.2.length_le
  rw [List.length_append, List.length_cons, List.length_drop] at hlen
  omega

/-- The search captures the digits of the first match. -/
theorem search_headerPattern_eq_some_iff {header data : Bytes} {groups : List Bytes} :
    search (headerPattern header) data = some groups ↔
      ∃ i k digits, MatchesAt header data i k digits ∧ groups = [digits] ∧
        ∀ j < i, ∀ k digits, ¬ MatchesAt header data j k digits := by
  rw [search_eq_some_iff]
  constructor
  · rintro ⟨i, -, hmatch, hbefore⟩
    obtain ⟨k, digits, hdigits, hgroups⟩ := matchHere_headerPattern_eq_some_iff.mp hmatch
    refine ⟨i, k, digits, hdigits, hgroups, ?_⟩
    intro j hj
    exact matchHere_headerPattern_eq_none_iff.mp (hbefore j hj)
  · rintro ⟨i, k, digits, hmatch, hgroups, hbefore⟩
    refine ⟨i, hmatch.le_length,
      matchHere_headerPattern_eq_some_iff.mpr ⟨k, digits, hmatch, hgroups⟩, ?_⟩
    intro j hj
    exact matchHere_headerPattern_eq_none_iff.mpr (hbefore j hj)

/-- What a search has captured are digits. -/
theorem isDigit_of_search {header data : Bytes} {groups : List Bytes}
    (h : search (headerPattern header) data = some groups) :
    ∃ digits, groups = [digits] ∧ ∀ b ∈ digits, isDigit b = true := by
  obtain ⟨i, k, digits, hmatch, hgroups, -⟩ := search_headerPattern_eq_some_iff.mp h
  exact ⟨digits, hgroups, hmatch.1⟩

/-- The first match has no digit exactly where the search captures the empty string. -/
theorem emptyValue_iff {header data : Bytes} :
    EmptyValue header data ↔ search (headerPattern header) data = some [[]] := by
  rw [search_headerPattern_eq_some_iff]
  constructor
  · rintro ⟨i, k, hmatch, hbefore⟩
    exact ⟨i, k, [], hmatch, rfl, hbefore⟩
  · rintro ⟨i, k, digits, hmatch, hgroups, hbefore⟩
    cases hgroups
    exact ⟨i, k, hmatch, hbefore⟩

/-- The Python server parses a text unless the first match has no digit. -/
theorem Python.parseHaeder_isOk_iff (data header : Bytes) :
    (∃ n, parseHaeder data header = .ok n) ↔ ¬ EmptyValue header data := by
  rw [emptyValue_iff]
  cases hsearch : search (headerPattern header) data with
  | none =>
    constructor
    · intro _ h
      cases h
    · intro _
      exact ⟨0, parseHaeder_of_none hsearch⟩
  | some groups =>
    obtain ⟨digits, rfl, hdigits⟩ := isDigit_of_search hsearch
    constructor
    · rintro ⟨n, hn⟩ hempty
      cases hempty
      rw [parseHaeder, hsearch] at hn
      cases hn
    · intro hne
      have hdigitsNe : digits ≠ [] := by
        rintro rfl
        exact hne rfl
      exact ⟨_, parseHaeder_of_digits hsearch hdigitsNe hdigits⟩

/-- The Lua server has a number to compare unless the first match has no digit. -/
theorem Lua.parsedDelay?_isSome_iff (data : Bytes) :
    (∃ n, parsedDelay? data = some n) ↔ ¬ EmptyValue delayName data := by
  rw [emptyValue_iff]
  cases hsearch : search (headerPattern delayName) data with
  | none =>
    constructor
    · intro _ h
      cases h
    · intro _
      exact ⟨0, parsedDelay?_of_none hsearch⟩
  | some groups =>
    obtain ⟨digits, rfl, hdigits⟩ := isDigit_of_search hsearch
    constructor
    · rintro ⟨n, hn⟩ hempty
      cases hempty
      simp only [parsedDelay?, parseHeader, hsearch] at hn
      cases hn
    · intro hne
      have hdigitsNe : digits ≠ [] := by
        rintro rfl
        exact hne rfl
      exact ⟨_, parsedDelay?_of_digits hsearch hdigitsNe hdigits⟩

/-- For every ASCII request, both servers come to a delay if and only if the first place where
the name is followed by a colon, spaces, digits and a line end has at least one digit, or there
is no such place. -/
theorem yieldsDelay_iff {request : Bytes} (h : IsAscii request) :
    ((∃ n, Python.readRequest request = .ok n) ∧ ∃ n, Lua.parsedDelay? request = some n) ↔
      ¬ EmptyValue delayName request := by
  rw [Python.readRequest_of_isAscii h, Python.parseHaeder_isOk_iff,
    Lua.parsedDelay?_isSome_iff, and_self_iff]

/-- A request whose delay has a digit. -/
theorem yieldsDelay_oneDigit :
    (∃ n, Python.readRequest (ascii "GET / HTTP/1.1\r\nDelay:  7\r\n") = .ok n) ∧
      ∃ n, Lua.parsedDelay? (ascii "GET / HTTP/1.1\r\nDelay:  7\r\n") = some n := by
  apply (yieldsDelay_iff (by decide)).mpr
  rw [emptyValue_iff]
  decide

/-- A request whose delay is empty raises in Python and gives no number in Lua. -/
theorem not_yieldsDelay_emptyValue :
    IsAscii (ascii "GET / HTTP/1.1\r\nDelay: \r\n") ∧
      Python.readRequest (ascii "GET / HTTP/1.1\r\nDelay: \r\n") = .error .value ∧
      Lua.parsedDelay? (ascii "GET / HTTP/1.1\r\nDelay: \r\n") = none := by
  decide +kernel

end Esp32WebServers
