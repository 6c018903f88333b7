import Mathlib.Data.List.TakeWhile
import Mathlib.Order.MinMax
import Esp32WebServers.Base.Bytes
import Esp32WebServers.Base.Search

/-!
# C strings and their library

Library `Base`. A NUL-terminated string at an address, with the functions of the C
library that search it, copy from it and scan it. Pointers are numbers and the null
pointer is 0, so arithmetic on a failed search has the value it has on the machine.
An access outside the string is a fault.
-/

namespace Esp32WebServers.Base

/-- A NUL-terminated string in the memory of a 32-bit machine: the bytes in front of
the terminator and the address of the first one. All its addresses are positive as
signed 32-bit integers, so pointer differences are plain integers. -/
structure CString where
  base : Nat
  chars : Bytes
  base_pos : 0 < base
  fits : base + chars.length < 2 ^ 31
  nulFree : NulFree chars

/-- A buffer of a fixed size somewhere in memory. -/
structure Buffer (size : Nat) where
  base : Nat
  base_pos : 0 < base
  fits : base + size < 2 ^ 31

/-- The bytes in front of the first NUL. -/
def upToNul (bytes : Bytes) : Bytes := bytes.takeWhile (· != 0)

/-- What stands in front of the first NUL has none. -/
theorem nulFree_upToNul (bytes : Bytes) : NulFree (upToNul bytes) := by
  intro b hb
  have := List.mem_takeWhile_imp hb
  simpa using this

/-- The string that starts at a buffer whose content begins with `content`, all of it
inside the buffer, and goes on with a NUL. -/
def Buffer.string {size : Nat} (buffer : Buffer size) (content : Bytes)
    (h : content.length ≤ size) : CString where
  base := buffer.base
  chars := upToNul content
  base_pos := buffer.base_pos
  fits := by
    have hl : (upToNul content).length ≤ content.length := (List.takeWhile_prefix _).length_le
    have := buffer.fits
    omega
  nulFree := by
    intro b hb
    have := List.mem_takeWhile_imp hb
    simpa using this

/-- What stops a C program. -/
inductive Fault where
  | invalidRead (address : Nat)
  deriving DecidableEq, Repr

/-- A heap block that holds a copied string: its size, the text up to the terminator
and the index the terminator is written to, which lies in the block. -/
structure Block where
  requested : Nat
  text : Bytes
  terminator : Nat
  inBounds : terminator < requested
  deriving DecidableEq

/-- A text without NUL is not cut. -/
theorem upToNul_of_nulFree {bytes : Bytes} (h : NulFree bytes) : upToNul bytes = bytes := by
  rw [upToNul, List.takeWhile_eq_self_iff]
  intro b hb
  simpa using h b hb

/-- A text without NUL stays in front of whatever follows it. -/
theorem upToNul_append {bytes : Bytes} (rest : Bytes) (h : NulFree bytes) :
    upToNul (bytes ++ rest) = bytes ++ upToNul rest := by
  rw [upToNul, List.takeWhile_append_of_pos]
  · rfl
  · intro b hb
    simpa using h b hb

/-- A string ends at the first NUL, whatever follows. -/
theorem upToNul_append_zero (bytes rest : Bytes) :
    upToNul (bytes ++ 0 :: rest) = upToNul bytes := by
  unfold upToNul
  induction bytes with
  | nil => rfl
  | cons b bytes ih =>
    rw [List.cons_append, List.takeWhile_cons, List.takeWhile_cons, ih]

/-- A text without NUL that is not cut is what a buffer holds after it was stored. -/
theorem Buffer.chars_string_take {size n : Nat} (buffer : Buffer size) {text : Bytes}
    (hnul : NulFree text) (hlen : text.length ≤ n) (h : (text.take n).length ≤ size) :
    (buffer.string (text.take n) h).chars = text := by
  change upToNul (text.take n) = text
  rw [List.take_of_length_le hlen, upToNul_of_nulFree hnul]

/-- A buffer after a string was stored in it with its terminator; what lies behind stays. -/
def storeString (text old : Bytes) : Bytes := text ++ 0 :: old.drop (text.length + 1)

/-- A stored string is read back. -/
theorem upToNul_storeString {text : Bytes} (old : Bytes) (h : NulFree text) :
    upToNul (storeString text old) = text := by
  rw [storeString, upToNul_append _ h, upToNul, List.takeWhile_cons_of_neg (by simp),
    List.append_nil]

/-- As many bytes as it has, from the front, are the stored string. -/
theorem take_storeString (text old : Bytes) :
    (storeString text old).take text.length = text := List.take_left' rfl

/-- In a stored string the bytes of the text come first. -/
theorem getElem?_storeString_of_lt {text : Bytes} (old : Bytes) {i : Nat}
    (h : i < text.length) : (storeString text old)[i]? = text[i]? :=
  List.getElem?_append_left h

/-- The byte after a stored text is its terminator. -/
theorem getElem?_storeString_length (text old : Bytes) :
    (storeString text old)[text.length]? = some 0 := by
  rw [storeString, List.getElem?_append_right (Nat.le_refl _), Nat.sub_self]
  rfl

/-- Behind the terminator of a stored string the buffer is what it was. -/
theorem getElem?_storeString_of_gt {text : Bytes} (old : Bytes) {i : Nat}
    (h : text.length < i) : (storeString text old)[i]? = old[i]? := by
  rw [storeString, List.getElem?_append_right (by omega)]
  obtain ⟨d, rfl⟩ := Nat.exists_eq_add_of_lt h
  rw [show text.length + d + 1 - text.length = d + 1 by omega, List.getElem?_cons_succ,
    List.getElem?_drop]
  congr 1
  omega

/-- A buffer with a shorter string in it does not start with a longer one: the terminator is in
the way. -/
theorem take_storeString_ne {text longer : Bytes} (old : Bytes) (hlonger : NulFree longer)
    (h : text.length < longer.length) :
    (storeString text old).take longer.length ≠ longer := by
  intro heq
  have hnul : longer[text.length]? = some 0 := by
    rw [← heq, List.getElem?_take_of_lt h, getElem?_storeString_length]
  exact hlonger 0 (List.mem_of_getElem? hnul) rfl

namespace CString

/-- The terminated text at an address of the string. -/
def textAt (s : CString) (p : Nat) : Bytes := s.chars.drop (p - s.base)

/-- `strstr`: the address of the first occurrence at or after `p`, or null. -/
def strstr (s : CString) (p : Nat) (needle : Bytes) : Nat :=
  match indexOf? needle (s.textAt p) with
  | some i => p + i
  | none => 0

/-- `strncpy` of at most `n` bytes from an address, as the text that the copy holds. -/
def strncpy (s : CString) (src n : Nat) : Except Fault Bytes :=
  if s.base ≤ src ∧ src ≤ s.base + s.chars.length then .ok ((s.textAt src).take n)
  else .error (.invalidRead src)

/-- Strings at one address with the same characters are the same. -/
theorem ext_chars {s t : CString} (hbase : s.base = t.base) (hchars : s.chars = t.chars) :
    s = t := by
  cases s
  cases t
  cases hbase
  cases hchars
  rfl

/-- The text at the front of the string is the whole string. -/
@[simp] theorem textAt_base (s : CString) : s.textAt s.base = s.chars := by
  rw [textAt, Nat.sub_self, List.drop_zero]

/-- The text at an offset is the string without what stands before it. -/
theorem textAt_add (s : CString) (i : Nat) : s.textAt (s.base + i) = s.chars.drop i := by
  rw [textAt, Nat.add_sub_cancel_left]

/-- A search from an offset finds the first occurrence behind it. -/
theorem strstr_of_some (s : CString) {i j : Nat} {w : Bytes}
    (h : indexOf? w (s.chars.drop i) = some j) : s.strstr (s.base + i) w = s.base + i + j := by
  rw [strstr, textAt_add, h]

/-- A search without an occurrence behind the offset returns null. -/
theorem strstr_of_none (s : CString) {i : Nat} {w : Bytes}
    (h : indexOf? w (s.chars.drop i) = none) : s.strstr (s.base + i) w = 0 := by
  rw [strstr, textAt_add, h]

/-- A copy from inside the string is a slice of it. -/
theorem strncpy_add (s : CString) {i n : Nat} (h : i ≤ s.chars.length) :
    s.strncpy (s.base + i) n = .ok ((s.chars.drop i).take n) := by
  rw [strncpy, if_pos ⟨by omega, by omega⟩, textAt_add]

end CString

/-- `isspace` of the C locale. -/
def isSpace (b : UInt8) : Bool := b == 32 || (9 ≤ b && b ≤ 13)

/-- An optional sign: whether the number is negated, and what follows the sign. -/
def splitSign : Bytes → Bool × Bytes
  | 45 :: s => (true, s)
  | 43 :: s => (false, s)
  | s => (false, s)

/-- The value that `strtol` saturates to on a machine with 32-bit integers. -/
def saturate (x : Int) : Int := max (-2 ^ 31) (min x (2 ^ 31 - 1))

/-- The conversion `%d` of `sscanf`: skip white space, take an optional sign and the
digits behind it; `none` on a matching failure or at the end of the input. -/
def scanNumber? (text : Bytes) : Option Int :=
  let (negative, s) := splitSign (text.dropWhile isSpace)
  let digits := s.takeWhile isDigit
  if digits = [] then none
  else some (saturate (if negative then -digitsValue digits else digitsValue digits))

/-- `sscanf(text, "%d", &target)`, as the value of the target afterwards. Without a
match the target keeps what it held. -/
def sscanf (text : Bytes) (target : Int) : Int := (scanNumber? text).getD target

/-- The text starts, after optional white space and an optional sign, with a digit. -/
def startsWithNumber (text : Bytes) : Bool :=
  ((splitSign (text.dropWhile isSpace)).2.head?.map isDigit).getD false

/-- The text starts with a zero, and a byte behind it ends the number: white space, an optional
sign, zeros and a byte that is no digit. -/
def SettledZero (text : Bytes) : Prop :=
  ∃ spaces sign zeros b more, text = spaces ++ (sign ++ (zeros ++ b :: more)) ∧
    (∀ s ∈ spaces, isSpace s = true) ∧ (sign = [] ∨ sign = [43] ∨ sign = [45]) ∧
    zeros ≠ [] ∧ (∀ d ∈ zeros, d = 48) ∧ isDigit b = false

/-- Values of 32-bit integers are not changed by saturation. -/
theorem saturate_of_mem {x : Int} (hl : -2 ^ 31 ≤ x) (hu : x < 2 ^ 31) : saturate x = x := by
  simp only [saturate]
  omega

/-- The conversion succeeds exactly where the text starts with a number. -/
theorem scanNumber?_isSome_iff (text : Bytes) :
    (scanNumber? text).isSome ↔ startsWithNumber text = true := by
  simp only [scanNumber?, startsWithNumber]
  generalize splitSign (text.dropWhile isSpace) = split
  obtain ⟨negative, s⟩ := split
  cases s with
  | nil => simp
  | cons b s => cases hb : isDigit b <;> simp [hb]

/-- A digit is neither a space nor a sign. -/
theorem isSpace_of_isDigit {b : UInt8} (h : isDigit b = true) : isSpace b = false := by
  have hb := isDigit_iff.mp h
  simp only [isSpace, Bool.or_eq_false_iff, beq_eq_false_iff_ne, Bool.and_eq_false_iff,
    decide_eq_false_iff_not, UInt8.le_iff_toNat_le, ne_eq, ← UInt8.toNat_inj]
  refine ⟨?_, .inr ?_⟩
  · change b.toNat ≠ 32
    omega
  · change ¬ b.toNat ≤ 13
    omega

/-- A text that starts with a digit has no sign. -/
theorem splitSign_of_isDigit {b : UInt8} (s : Bytes) (h : isDigit b = true) :
    splitSign (b :: s) = (false, b :: s) := by
  unfold splitSign
  split
  · next heq =>
    cases heq
    cases h
  · next heq =>
    cases heq
    cases h
  · rfl

/-- White space and then digits scan as the number the digits denote. -/
theorem scanNumber?_spaces_digits {spaces ds : Bytes} (hs : ∀ b ∈ spaces, isSpace b = true)
    (hne : ds ≠ []) (hd : ∀ b ∈ ds, isDigit b = true) (hv : digitsValue ds < 2 ^ 31) :
    scanNumber? (spaces ++ ds) = some (digitsValue ds : Int) := by
  have hskip : (spaces ++ ds).dropWhile isSpace = ds := by
    rw [List.dropWhile_append_of_pos hs]
    cases ds with
    | nil => rfl
    | cons b ds => simp [isSpace_of_isDigit (hd b (by simp))]
  have hsign : splitSign ds = (false, ds) := by
    cases ds with
    | nil => exact absurd rfl hne
    | cons b ds => exact splitSign_of_isDigit ds (hd b (by simp))
  simp only [scanNumber?, hskip, hsign, List.takeWhile_eq_self_iff.mpr hd, hne, ite_false,
    Bool.false_eq_true]
  rw [saturate_of_mem (by omega) (by omega)]

/-- Only zero saturates to zero. -/
theorem saturate_eq_zero_iff {x : Int} : saturate x = 0 ↔ x = 0 := by
  simp only [saturate]
  omega

/-- Zeros scan as zero, whatever stands behind them that is no digit. -/
theorem scanNumber?_zeros {spaces sign zeros u : Bytes} (hs : ∀ s ∈ spaces, isSpace s = true)
    (hsign : sign = [] ∨ sign = [43] ∨ sign = [45]) (hne : zeros ≠ [])
    (hz : ∀ d ∈ zeros, d = 48) (hu : ∀ b ∈ u.head?, isDigit b = false) :
    scanNumber? (spaces ++ (sign ++ (zeros ++ u))) = some 0 := by
  have hall : ∀ d ∈ zeros, isDigit d = true := by
    intro d hd
    rw [hz d hd]
    rfl
  have hdigits : (zeros ++ u).takeWhile isDigit = zeros := by
    rw [List.takeWhile_append_of_pos hall]
    cases u with
    | nil => simp
    | cons b u => simp [hu b rfl]
  have hvalue : digitsValue zeros = 0 := (digitsValue_eq_zero_iff hall).mpr hz
  obtain ⟨z, zs, rfl⟩ := List.exists_cons_of_ne_nil hne
  obtain rfl : z = 48 := hz z (by simp)
  have hskip : (spaces ++ (sign ++ (48 :: zs ++ u))).dropWhile isSpace =
      sign ++ (48 :: zs ++ u) := by
    rw [List.dropWhile_append_of_pos hs]
    rcases hsign with rfl | rfl | rfl
    · rfl
    · rfl
    · rfl
  obtain ⟨negative, hsplit⟩ :
      ∃ negative, splitSign (sign ++ (48 :: zs ++ u)) = (negative, 48 :: zs ++ u) := by
    rcases hsign with rfl | rfl | rfl
    · exact ⟨false, rfl⟩
    · exact ⟨false, rfl⟩
    · exact ⟨true, rfl⟩
  simp only [scanNumber?, hskip, hsplit, hdigits, hvalue, List.cons_ne_nil, ite_false]
  cases negative with
  | false => rfl
  | true => rfl

private theorem exists_sign {d : UInt8} (t : Bytes) (hd : isDigit d = true) :
    ∃ sign t' negative, (sign = [] ∨ sign = [43] ∨ sign = [45]) ∧ t = sign ++ t' ∧
      splitSign (t ++ [d]) = (negative, t' ++ [d]) := by
  cases t with
  | nil => exact ⟨[], [], false, .inl rfl, rfl, splitSign_of_isDigit [] hd⟩
  | cons b t =>
    by_cases hminus : b = 45
    · subst hminus
      exact ⟨[45], t, true, .inr (.inr rfl), rfl, rfl⟩
    · by_cases hplus : b = 43
      · subst hplus
        exact ⟨[43], t, false, .inr (.inl rfl), rfl, rfl⟩
      · refine ⟨[], b :: t, false, .inl rfl, rfl, ?_⟩
        rw [List.cons_append]
        unfold splitSign
        split
        · next heq => exact absurd (List.cons.inj heq).1 hminus
        · next heq => exact absurd (List.cons.inj heq).1 hplus
        · rfl

/-- If one more digit, other than zero, leaves the scan at zero, the zero was settled. -/
theorem settledZero_of_scanNumber? {text : Bytes} {d : UInt8} (hd : isDigit d = true)
    (hne : d ≠ 48) (h : scanNumber? (text ++ [d]) = some 0) : SettledZero text := by
  have hskip : (text ++ [d]).dropWhile isSpace = text.dropWhile isSpace ++ [d] := by
    rw [List.dropWhile_append]
    split
    · next hnil => simp [List.isEmpty_iff.mp hnil, isSpace_of_isDigit hd]
    · rfl
  obtain ⟨sign, t, negative, hsign, ht, hsplit⟩ := exists_sign (text.dropWhile isSpace) hd
  simp only [scanNumber?, hskip, hsplit] at h
  split at h
  · cases h
  · next hdigits =>
    have hzero : digitsValue ((t ++ [d]).takeWhile isDigit) = 0 := by
      rw [Option.some.injEq, saturate_eq_zero_iff] at h
      split at h
      · omega
      · omega
    have hzeros : ∀ b ∈ (t ++ [d]).takeWhile isDigit, b = 48 :=
      (digitsValue_eq_zero_iff fun b hb ↦ List.mem_takeWhile_imp hb).mp hzero
    by_cases hall : ∀ b ∈ t, isDigit b = true
    · rw [List.takeWhile_append_of_pos hall, List.takeWhile_cons_of_pos hd] at hzeros
      exact absurd (hzeros d (by simp)) hne
    · have hstop : (t ++ [d]).takeWhile isDigit = t.takeWhile isDigit := by
        rw [List.takeWhile_append]
        split
        · next hlen =>
          exact absurd (List.takeWhile_eq_self_iff.mp (List.Sublist.eq_of_length
            (List.takeWhile_sublist _) hlen)) hall
        · rfl
      rw [hstop] at hdigits hzeros
      obtain ⟨b, more, hmore⟩ : ∃ b more, t.dropWhile isDigit = b :: more := by
        apply List.exists_cons_of_ne_nil
        intro hnil
        exact hall (List.dropWhile_eq_nil_iff.mp hnil)
      refine ⟨text.takeWhile isSpace, sign, t.takeWhile isDigit, b, more, ?_, ?_, hsign, hdigits,
        hzeros, ?_⟩
      · rw [← hmore, List.takeWhile_append_dropWhile, ← ht, List.takeWhile_append_dropWhile]
      · intro s hs
        exact List.mem_takeWhile_imp hs
      · have hhead := List.head?_dropWhile_not isDigit t
        rw [hmore] at hhead
        simpa using hhead

/-- A minus sign and digits scan as the negated number. -/
theorem scanNumber?_minus_digits {ds : Bytes} (hne : ds ≠ [])
    (hd : ∀ b ∈ ds, isDigit b = true) (hv : digitsValue ds ≤ 2 ^ 31) :
    scanNumber? (45 :: ds) = some (-(digitsValue ds : Int)) := by
  have hskip : (45 :: ds).dropWhile isSpace = 45 :: ds := rfl
  have hsign : splitSign (45 :: ds) = (true, ds) := rfl
  simp only [scanNumber?, hskip, hsign, List.takeWhile_eq_self_iff.mpr hd, hne, ite_false, ite_true]
  rw [saturate_of_mem (by omega) (by omega)]

/-- The conversion reads back every canonical numeral of a 32-bit integer. -/
theorem scanNumber?_decimalInt {d : Int} (hl : -2 ^ 31 ≤ d) (hu : d < 2 ^ 31) :
    scanNumber? (decimalInt d) = some d := by
  cases d with
  | ofNat n =>
    rw [Int.ofNat_eq_natCast] at hu
    have h := scanNumber?_spaces_digits (List.forall_mem_nil _) (decimal_ne_nil n)
      (fun b hb ↦ isDigit_of_mem_decimal hb) (by rw [digitsValue_decimal]; omega)
    rw [digitsValue_decimal] at h
    exact h
  | negSucc n =>
    have h := scanNumber?_minus_digits (decimal_ne_nil (n + 1))
      (fun b hb ↦ isDigit_of_mem_decimal hb) (by rw [digitsValue_decimal]; omega)
    rw [digitsValue_decimal] at h
    exact h

end Esp32WebServers.Base
