import Mathlib.Data.List.TakeWhile
import Esp32WebServers.Base.Bytes

/-!
# String slices over UTF-8

Library `Base`. A string slice is a list of bytes that passes the UTF-8 check. Its
length in characters and its length in bytes differ outside ASCII, and slicing at a
byte index inside a character panics.
-/

namespace Esp32WebServers.Base

/-- A byte that continues a character. -/
def isContinuation (b : UInt8) : Bool := 0x80 ≤ b && b ≤ 0xBF

/-- The ranges that the second byte of a character may lie in, by its first byte, and
how many further continuation bytes follow it. -/
def secondByte? (b : UInt8) : Option (UInt8 × UInt8 × Nat) :=
  if 0xC2 ≤ b && b ≤ 0xDF then some (0x80, 0xBF, 0)
  else if b == 0xE0 then some (0xA0, 0xBF, 1)
  else if b == 0xED then some (0x80, 0x9F, 1)
  else if 0xE1 ≤ b && b ≤ 0xEF then some (0x80, 0xBF, 1)
  else if b == 0xF0 then some (0x90, 0xBF, 2)
  else if 0xF1 ≤ b && b ≤ 0xF3 then some (0x80, 0xBF, 2)
  else if b == 0xF4 then some (0x80, 0x8F, 2)
  else none

/-- The scan of the UTF-8 check: `pending` continuation bytes are owed to the character
that is being read, the first of them between the two bounds. -/
def utf8Scan : Nat → UInt8 → UInt8 → Bytes → Bool
  | pending, _, _, [] => pending == 0
  | 0, _, _, b :: s =>
    if b < 0x80 then utf8Scan 0 0x80 0xBF s
    else match secondByte? b with
      | some (low, high, more) => utf8Scan (more + 1) low high s
      | none => false
  | pending + 1, low, high, b :: s =>
    low ≤ b && b ≤ high && utf8Scan pending 0x80 0xBF s

/-- `str::from_utf8` accepts the bytes. -/
def validUtf8 (s : Bytes) : Bool := utf8Scan 0 0x80 0xBF s

/-- `chars().count()`: the bytes that begin a character. -/
def charCount (s : Bytes) : Nat := s.countP fun b ↦ !isContinuation b

/-- `str::is_char_boundary`. -/
def isCharBoundary (s : Bytes) (i : Nat) : Bool :=
  i == 0 || i == s.length || (s[i]?.map fun b ↦ !isContinuation b).getD false

/-- `&s[start..stop]`; no value where the slice panics. -/
def strSlice? (s : Bytes) (start stop : Nat) : Option Bytes :=
  if start ≤ stop ∧ stop ≤ s.length ∧ isCharBoundary s start = true ∧
      isCharBoundary s stop = true then
    some ((s.drop start).take (stop - start))
  else none

/-- `parse::<u64>`: an optional plus sign and digits, with a value that fits. -/
def parseU64? (s : Bytes) : Option Nat :=
  let digits := if s.head? = some 43 then s.drop 1 else s
  if digits ≠ [] ∧ digits.all isDigit = true ∧ digitsValue digits < 2 ^ 64 then
    some (digitsValue digits)
  else none

example : validUtf8 [0xE2, 0x82, 0xAC] = true ∧ validUtf8 [0xC0, 0x80] = false := by decide

/-- An ASCII byte does not continue a character. -/
theorem isContinuation_of_ascii {b : UInt8} (h : b < 128) : isContinuation b = false := by
  have hn : ¬ (0x80 : UInt8) ≤ b := by
    rw [UInt8.le_iff_toNat_le]
    have := UInt8.lt_iff_toNat_lt.mp h
    exact Nat.not_le.mpr this
  simp only [isContinuation, hn, decide_false, Bool.false_and]

/-- ASCII passes the UTF-8 check. -/
theorem validUtf8_of_isAscii {s : Bytes} (h : IsAscii s) : validUtf8 s = true := by
  unfold validUtf8
  induction s with
  | nil => rfl
  | cons b s ih =>
    have hb : b < 0x80 := h b (by simp)
    rw [utf8Scan, if_pos hb]
    exact ih fun c hc ↦ h c (by simp [hc])

/-- In ASCII, characters are bytes. -/
theorem charCount_of_isAscii {s : Bytes} (h : IsAscii s) : charCount s = s.length := by
  unfold charCount
  rw [List.countP_eq_length]
  intro b hb
  rw [isContinuation_of_ascii (h b hb)]
  rfl

/-- In ASCII, every index up to the length is a boundary. -/
theorem isCharBoundary_of_isAscii {s : Bytes} {i : Nat} (h : IsAscii s) (hi : i ≤ s.length) :
    isCharBoundary s i = true := by
  unfold isCharBoundary
  rcases Nat.lt_or_eq_of_le hi with hlt | heq
  · have hb := isContinuation_of_ascii (h s[i] (List.getElem_mem hlt))
    simp only [List.getElem?_eq_getElem hlt, Option.map_some, hb, Bool.not_false,
      Option.getD_some, Bool.or_true]
  · simp only [heq, beq_self_eq_true, Bool.or_true, Bool.true_or]

/-- In ASCII, an ordered slice inside the string does not panic. -/
theorem strSlice?_of_isAscii {s : Bytes} {start stop : Nat} (h : IsAscii s)
    (hle : start ≤ stop) (hstop : stop ≤ s.length) :
    strSlice? s start stop = some ((s.drop start).take (stop - start)) := by
  rw [strSlice?, if_pos]
  exact ⟨hle, hstop, isCharBoundary_of_isAscii h (hle.trans hstop),
    isCharBoundary_of_isAscii h hstop⟩

/-- Digits parse to the number they denote, if that fits. -/
theorem parseU64?_digits {ds : Bytes} (hne : ds ≠ []) (hd : ∀ b ∈ ds, isDigit b = true)
    (hv : digitsValue ds < 2 ^ 64) : parseU64? ds = some (digitsValue ds) := by
  have hsign : ds.head? ≠ some 43 := by
    intro hs
    have hplus := hd 43 (List.mem_of_mem_head? hs)
    cases hplus
  simp only [parseU64?, hsign, ite_false]
  rw [if_pos ⟨hne, List.all_eq_true.mpr hd, hv⟩]

/-- A text whose first byte is neither a digit nor a plus sign does not parse. -/
theorem parseU64?_of_head {b : UInt8} (s : Bytes) (hd : isDigit b = false) (hplus : b ≠ 43) :
    parseU64? (b :: s) = none := by
  have hsign : (b :: s).head? ≠ some 43 := by simp [hplus]
  simp only [parseU64?, hsign, ite_false]
  rw [if_neg]
  rintro ⟨_, hall, _⟩
  rw [List.all_cons, hd, Bool.false_and] at hall
  cases hall

end Esp32WebServers.Base
