import Esp32WebServers.Base.Pattern
import Esp32WebServers.Base.Utf8
import Esp32WebServers.Header.C

/-!
# Header lookup of the Python and Lua servers

`parseHaeder` of `web_server/python_micropython/main/server.py:64–68` and `parseHeader`
of `web_server/lua_nodemcu/server.lua:57–64` search the same pattern, a name, a colon,
spaces and captured digits up to the line end. They differ in what becomes of the
captured text, which may be empty.
-/

namespace Esp32WebServers

open Base

/-- The pattern behind the colon: ` *(\d*)\r\n` in Python, ` *(%d*)\r\n` in Lua. -/
def valuePattern : List (Piece UInt8) :=
  [.repeat (· == 32) 0 false, .repeat isDigit 0 true, .lit 13, .lit 10]

/-- The pattern for a header whose name consists of letters. -/
def headerPattern (header : Bytes) : List (Piece UInt8) :=
  lits header ++ .lit 58 :: valuePattern

namespace Python

/-- The exceptions that reading a request can raise. -/
inductive Error where
  | unicode
  | value
  deriving DecidableEq, Repr

/-- `int` on captured digits; without any of them it raises. -/
def int (digits : Bytes) : Except Error Nat :=
  if digits ≠ [] ∧ digits.all isDigit = true then .ok (digitsValue digits)
  else .error .value

/-- `parseHaeder`, `server.py:64–68`. -/
def parseHaeder (data header : Bytes) : Except Error Nat :=
  match search (headerPattern header) data with
  | none => .ok 0
  | some groups => int (groups.headD [])

/-- `read_request`, `server.py:55–61`, on the bytes that `reader.read(1024)` returns. -/
def readRequest (request : Bytes) : Except Error Nat :=
  if validUtf8 request = true then parseHaeder request delayName else .error .unicode

end Python

namespace Lua

/-- The values that the delay takes on its way from the pattern to the comparison. -/
inductive Value where
  | nil
  | number (n : Nat)
  | string (s : Bytes)
  deriving DecidableEq, Repr

/-- `parseHeader`, `server.lua:57–64`: the number 0 without a match, else a string. -/
def parseHeader (data header : Bytes) : Value :=
  match search (headerPattern header) data with
  | none => .number 0
  | some groups => .string (groups.headD [])

/-- `tonumber` on a number or on captured digits; the empty string is no numeral. -/
def tonumber : Value → Value
  | .nil => .nil
  | .number n => .number n
  | .string s =>
    if s ≠ [] ∧ s.all isDigit = true then .number (digitsValue s) else .nil

/-- The delay that `receiver` hands on and `respond_delayed` compares, where the
comparison of `server.lua:46` has a number to compare. -/
def parsedDelay? (data : Bytes) : Option Nat :=
  match tonumber (parseHeader data delayName) with
  | .number n => some n
  | _ => none

end Lua

/-- Behind the colon the pattern takes all spaces, then all digits, and needs the line
end right there. -/
theorem matchHere_valuePattern (s : Bytes) :
    matchHere valuePattern s =
      if crlf <+: (s.dropWhile (· == 32)).dropWhile isDigit then
        some [(s.dropWhile (· == 32)).takeWhile isDigit]
      else none := by
  have hend (s : Bytes) : matchHere [Piece.lit 13, .lit 10] s =
      if crlf <+: s then some [] else none := by
    have h := matchHere_lits_append crlf [] s
    simpa only [lits, crlf, List.map_cons, List.map_nil, List.append_nil, matchHere] using h
  have hdigits (s : Bytes) : matchHere [Piece.repeat isDigit 0 true, .lit 13, .lit 10] s =
      if crlf <+: s.dropWhile isDigit then some [s.takeWhile isDigit] else none := by
    rw [matchHere_repeat, if_pos (Nat.zero_le _), hend]
    · simp only [ite_true]
      split <;> rfl
    · intro b s hb
      rw [hend, if_neg]
      intro h
      obtain ⟨rfl, _⟩ := List.cons_prefix_cons.mp h
      cases hb
  rw [valuePattern, matchHere_repeat, if_pos (Nat.zero_le _), hdigits]
  · simp only [Bool.false_eq_true, ite_false]
    split <;> rfl
  · intro b s hb
    rw [beq_iff_eq] at hb
    subst hb
    rw [hdigits, if_neg]
    intro h
    obtain ⟨hcr, _⟩ := List.cons_prefix_cons.mp h
    cases hcr

/-- A line `Name:v` that is the name's only occurrence decides the search. -/
theorem search_headerPattern_line {data header p v s : Bytes}
    (hdata : data = p ++ (header ++ (58 :: v ++ (crlf ++ s))))
    (honly : OccursOnlyAt header data p.length) :
    search (headerPattern header) data = matchHere valuePattern (v ++ (crlf ++ s)) := by
  have hdrop : data.drop (p.length + header.length) = 58 :: (v ++ (crlf ++ s)) := by
    rw [hdata, ← List.drop_drop, List.drop_left, List.drop_left, List.cons_append]
  rw [headerPattern, search_lits_of_occursOnlyAt honly, hdrop]
  simp only [matchHere, ite_true]

/-- Spaces and then digits up to the line end: the digits are captured. -/
theorem matchHere_spaces_digits (k : Nat) {ds : Bytes} (s : Bytes)
    (hd : ∀ b ∈ ds, isDigit b = true) :
    matchHere valuePattern (List.replicate k 32 ++ ds ++ (crlf ++ s)) = some [ds] := by
  have hcr : isDigit 13 = false := rfl
  have hskip : (List.replicate k 32 ++ ds ++ (crlf ++ s)).dropWhile (· == 32) =
      ds ++ (crlf ++ s) := by
    rw [List.append_assoc, List.dropWhile_append_of_pos (by simp)]
    cases ds with
    | nil => rfl
    | cons b ds =>
      have hb := isSpace_of_isDigit (hd b (by simp))
      have hne : ¬ (b == 32) = true := by
        intro h
        rw [isSpace, h, Bool.true_or] at hb
        cases hb
      rw [List.cons_append]
      exact List.dropWhile_cons_of_neg hne
  have htake : (ds ++ (crlf ++ s)).takeWhile isDigit = ds := by
    rw [List.takeWhile_append_of_pos hd]
    simp [crlf, hcr]
  have hdropWhile : (ds ++ (crlf ++ s)).dropWhile isDigit = crlf ++ s := by
    rw [List.dropWhile_append_of_pos hd]
    simp [crlf, hcr]
  rw [matchHere_valuePattern, hskip, htake, hdropWhile, if_pos (List.prefix_append _ _)]

/-- A space and a minus sign: the digits cannot be reached, and giving the space back
does not help. -/
theorem matchHere_minus (s : Bytes) : matchHere valuePattern (32 :: 45 :: s) = none := by
  rw [matchHere_valuePattern, if_neg]
  have hdrop : (List.dropWhile (· == 32) (32 :: 45 :: s)).dropWhile isDigit = 45 :: s := rfl
  rw [hdrop]
  intro h
  obtain ⟨hcr, _⟩ := List.cons_prefix_cons.mp h
  cases hcr

namespace Python

/-- Digits convert to the number they denote. -/
theorem int_digits {ds : Bytes} (hne : ds ≠ []) (hd : ∀ b ∈ ds, isDigit b = true) :
    int ds = .ok (digitsValue ds) := by
  rw [int, if_pos ⟨hne, List.all_eq_true.mpr hd⟩]

/-- Without a match the value is 0. -/
theorem parseHaeder_of_none {data header : Bytes}
    (h : search (headerPattern header) data = none) : parseHaeder data header = .ok 0 := by
  rw [parseHaeder, h]

/-- Captured digits are the value. -/
theorem parseHaeder_of_digits {data header ds : Bytes}
    (h : search (headerPattern header) data = some [ds]) (hne : ds ≠ [])
    (hd : ∀ b ∈ ds, isDigit b = true) : parseHaeder data header = .ok (digitsValue ds) := by
  rw [parseHaeder, h]
  exact int_digits hne hd

/-- ASCII requests are decoded and parsed. -/
theorem readRequest_of_isAscii {request : Bytes} (h : IsAscii request) :
    readRequest request = parseHaeder request delayName := by
  rw [readRequest, if_pos (validUtf8_of_isAscii h)]

end Python

namespace Lua

/-- Without a match the delay is the number 0. -/
theorem parsedDelay?_of_none {data : Bytes} (h : search (headerPattern delayName) data = none) :
    parsedDelay? data = some 0 := by
  simp only [parsedDelay?, parseHeader, h, tonumber]

/-- Captured digits are the delay. -/
theorem parsedDelay?_of_digits {data ds : Bytes}
    (h : search (headerPattern delayName) data = some [ds]) (hne : ds ≠ [])
    (hd : ∀ b ∈ ds, isDigit b = true) : parsedDelay? data = some (digitsValue ds) := by
  simp only [parsedDelay?, parseHeader, h, List.headD_cons, tonumber]
  rw [if_pos ⟨hne, List.all_eq_true.mpr hd⟩]

end Lua
end Esp32WebServers
