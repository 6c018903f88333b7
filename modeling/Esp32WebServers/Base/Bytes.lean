import Mathlib.Algebra.Order.Ring.Int
import Mathlib.Data.List.Basic

/-!
# ASCII text and decimal numerals

Library `Base`. Text on the wire is a list of bytes. Numerals are written most
significant digit first, without leading zeros, and read back by a left fold that
also accepts leading zeros.
-/

namespace Esp32WebServers.Base

/-- Text on the wire and in receive buffers. -/
abbrev Bytes := List UInt8

/-- The bytes of a literal all of whose characters are ASCII. -/
def ascii (s : String) : Bytes := s.toList.map Char.toUInt8

/-- The bytes of a literal, character by character: a literal is the list of its characters, which
evaluates faster than its encoding. -/
theorem ascii_ofList (chars : List Char) :
    ascii (String.ofList chars) = chars.map Char.toUInt8 := by
  rw [ascii, String.toList_ofList]

/-- The line end of HTTP. -/
def crlf : Bytes := [13, 10]

/-- Every byte is below 128, so that bytes and characters coincide. -/
def IsAscii (bs : Bytes) : Prop := ∀ b ∈ bs, b < 128

/-- No byte is the terminator of C strings. -/
def NulFree (bs : Bytes) : Prop := ∀ b ∈ bs, b ≠ 0

instance (bs : Bytes) : Decidable (IsAscii bs) :=
  decidable_of_iff (bs.all (fun b ↦ b.toNat < 128) = true) (by
    simp only [List.all_eq_true, decide_eq_true_eq]
    rfl)

instance (bs : Bytes) : Decidable (NulFree bs) :=
  decidable_of_iff (bs.all (fun b ↦ b != 0) = true) (by
    simp only [List.all_eq_true, bne_iff_ne]
    rfl)

/-- The digit class: the bytes `0` to `9`. -/
def isDigit (b : UInt8) : Bool := 48 ≤ b && b ≤ 57

/-- The digits of a number, most significant first, `0` for zero. -/
def decimal (n : Nat) : Bytes := (Nat.toDigits 10 n).map Char.toUInt8

/-- The digits of an integer, with a minus sign where it is negative. -/
def decimalInt : Int → Bytes
  | .ofNat n => decimal n
  | .negSucc n => 45 :: decimal (n + 1)

/-- The number that a string of digits denotes in base ten. -/
def digitsValue (bs : Bytes) : Nat := bs.foldl (fun n b ↦ 10 * n + (b.toNat - 48)) 0

/-- Concatenations are ASCII part by part. -/
theorem isAscii_append {xs ys : Bytes} : IsAscii (xs ++ ys) ↔ IsAscii xs ∧ IsAscii ys := by
  simp only [IsAscii, List.mem_append, or_imp, forall_and]

/-- Concatenations are free of terminators part by part. -/
theorem nulFree_append {xs ys : Bytes} : NulFree (xs ++ ys) ↔ NulFree xs ∧ NulFree ys := by
  simp only [NulFree, List.mem_append, or_imp, forall_and]

/-- Digits are exactly the bytes from 48 to 57. -/
theorem isDigit_iff {b : UInt8} : isDigit b = true ↔ 48 ≤ b.toNat ∧ b.toNat ≤ 57 := by
  simp only [isDigit, Bool.and_eq_true, decide_eq_true_eq, UInt8.le_iff_toNat_le]
  exact Iff.rfl

private theorem toUInt8_of_isDigit {c : Char} (h : c.isDigit = true) :
    c.toUInt8.toNat = c.toNat ∧ 48 ≤ c.toNat ∧ c.toNat ≤ 57 := by
  obtain ⟨hl, hu⟩ : 48 ≤ c.toNat ∧ c.toNat ≤ 57 := by
    simpa [Char.isDigit, UInt32.le_iff_toNat_le] using h
  refine ⟨?_, hl, hu⟩
  change c.toNat % 256 = c.toNat
  omega

/-- A numeral consists of digits. -/
theorem isDigit_of_mem_decimal {n : Nat} {b : UInt8} (h : b ∈ decimal n) : isDigit b = true := by
  obtain ⟨c, hc, rfl⟩ := List.mem_map.mp h
  obtain ⟨he, hl, hu⟩ := toUInt8_of_isDigit
    (Nat.isDigit_of_mem_toDigits (by decide) (by decide) hc)
  exact isDigit_iff.mpr ⟨by omega, by omega⟩

/-- Numbers are written without NUL. -/
theorem nulFree_decimal (n : Nat) : NulFree (decimal n) := by
  intro b hb hzero
  have hdigit := isDigit_iff.mp (isDigit_of_mem_decimal hb)
  rw [hzero] at hdigit
  exact absurd hdigit.1 (by decide)

/-- Integers are written without NUL. -/
theorem nulFree_decimalInt (n : Int) : NulFree (decimalInt n) := by
  cases n with
  | ofNat n => exact nulFree_decimal n
  | negSucc n => exact List.forall_mem_cons.mpr ⟨by decide, nulFree_decimal (n + 1)⟩

/-- Integers are written in ASCII. -/
theorem isAscii_decimalInt (n : Int) : IsAscii (decimalInt n) := by
  have hdigits (n : Nat) : IsAscii (decimal n) := by
    intro b hb
    have hdigit := isDigit_iff.mp (isDigit_of_mem_decimal hb)
    rw [UInt8.lt_iff_toNat_lt]
    change b.toNat < 128
    omega
  cases n with
  | ofNat n => exact hdigits n
  | negSucc n => exact List.forall_mem_cons.mpr ⟨by decide, hdigits (n + 1)⟩

/-- A numeral has at least one digit. -/
theorem decimal_ne_nil (n : Nat) : decimal n ≠ [] := by
  simp [decimal, Nat.toDigits_ne_nil]

/-- A number has at most `k` digits if it is below the `k`th power of ten. -/
theorem length_decimal_le_iff {n k : Nat} (hk : 0 < k) : (decimal n).length ≤ k ↔ n < 10 ^ k := by
  rw [decimal, List.length_map, Nat.length_toDigits_le_iff (by decide) hk]

/-- A 32-bit integer has at most eleven characters. -/
theorem length_decimalInt_le {n : Int} (hl : -2 ^ 31 ≤ n) (hu : n < 2 ^ 31) :
    (decimalInt n).length ≤ 11 := by
  cases n with
  | ofNat n =>
    rw [Int.ofNat_eq_natCast] at hu
    have hdigits := (length_decimal_le_iff (n := n) (k := 10) (by decide)).mpr (by omega)
    rw [decimalInt]
    omega
  | negSucc n =>
    have hdigits := (length_decimal_le_iff (n := n + 1) (k := 10) (by decide)).mpr (by omega)
    rw [decimalInt, List.length_cons]
    omega

private theorem foldl_digits (cs : List Char) (n : Nat) (h : ∀ c ∈ cs, c.isDigit = true) :
    (cs.map Char.toUInt8).foldl (fun n b ↦ 10 * n + (b.toNat - 48)) n =
      Nat.ofDigitChars 10 cs n := by
  induction cs generalizing n with
  | nil => rfl
  | cons c cs ih =>
    have hc : c.toUInt8.toNat = c.toNat := (toUInt8_of_isDigit (h c (by simp))).1
    rw [List.map_cons, List.foldl_cons, hc, Nat.ofDigitChars_cons]
    exact ih _ fun d hd ↦ h d (by simp [hd])

/-- Reading a numeral recovers its number. -/
theorem digitsValue_decimal (n : Nat) : digitsValue (decimal n) = n := by
  rw [digitsValue, decimal, foldl_digits, Nat.ofDigitChars_ten_toDigits]
  intro c hc
  exact Nat.isDigit_of_mem_toDigits (by decide) (by decide) hc

private theorem foldl_digits_eq (ds : Bytes) (n : Nat) :
    ds.foldl (fun n b ↦ 10 * n + (b.toNat - 48)) n = n * 10 ^ ds.length + digitsValue ds := by
  unfold digitsValue
  induction ds generalizing n with
  | nil => simp
  | cons b ds ih =>
    rw [List.foldl_cons, List.foldl_cons, ih, ih (10 * 0 + (b.toNat - 48)), List.length_cons,
      Nat.pow_succ, Nat.mul_zero, Nat.zero_add, Nat.add_mul]
    have hcomm : 10 * n * 10 ^ ds.length = n * (10 ^ ds.length * 10) := by
      rw [Nat.mul_comm 10 n, Nat.mul_assoc, Nat.mul_comm 10]
    omega

/-- The first digit counts as many tens as digits follow it. -/
theorem digitsValue_cons (b : UInt8) (ds : Bytes) :
    digitsValue (b :: ds) = (b.toNat - 48) * 10 ^ ds.length + digitsValue ds := by
  rw [digitsValue, List.foldl_cons, Nat.mul_zero, Nat.zero_add]
  exact foldl_digits_eq ds _

/-- The first digit does not count exactly where it is a zero. -/
theorem digitsValue_tail_eq_iff {b : UInt8} (ds : Bytes) (h : isDigit b = true) :
    digitsValue ds = digitsValue (b :: ds) ↔ b = 48 := by
  have hb := isDigit_iff.mp h
  have hpos : 0 < 10 ^ ds.length := Nat.pow_pos (by decide)
  rw [digitsValue_cons, ← UInt8.toNat_inj]
  change _ ↔ b.toNat = 48
  constructor
  · intro heq
    have hz : (b.toNat - 48) * 10 ^ ds.length = 0 := by omega
    rcases Nat.mul_eq_zero.mp hz with hz | hz
    · omega
    · omega
  · intro heq
    rw [heq, Nat.sub_self, Nat.zero_mul, Nat.zero_add]

/-- Digits denote zero exactly where all of them are zeros. -/
theorem digitsValue_eq_zero_iff {ds : Bytes} (h : ∀ d ∈ ds, isDigit d = true) :
    digitsValue ds = 0 ↔ ∀ d ∈ ds, d = 48 := by
  induction ds with
  | nil => simp [digitsValue]
  | cons d ds ih =>
    rw [List.forall_mem_cons] at h
    have hpos : 0 < 10 ^ ds.length := Nat.pow_pos (by decide)
    have hd : d = 48 ↔ d.toNat = 48 := UInt8.toNat_inj.symm
    have hdigit := isDigit_iff.mp h.1
    rw [digitsValue_cons, Nat.add_eq_zero_iff, ih h.2, List.forall_mem_cons, Nat.mul_eq_zero, hd]
    apply and_congr_left
    intro _
    omega

/-- Numerals of different numbers differ. -/
theorem decimal_inj {m n : Nat} : decimal m = decimal n ↔ m = n := by
  constructor
  · intro h
    rw [← digitsValue_decimal m, h, digitsValue_decimal]
  · exact congrArg decimal

end Esp32WebServers.Base
