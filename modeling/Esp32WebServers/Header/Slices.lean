import Esp32WebServers.Header.C

/-!
# The slice that `get_header` copies

`get_header` of the C servers (`web_server/c_bsd/main/tcp_server.c:193–215` and
`web_server/c_netconn/main/tcp_server.c:198–220`) adds 2 to the result of its search for
the colon and takes the difference of two pointers before it looks at either. The one
check is the sign of that difference. This module goes through every outcome of the three
searches.
`Session::get_header` (`web_server/cpp_asio/main/tcp_server.cpp:165–188`) makes the same
check, but counts from the name on; its outcomes come last.
-/

namespace Esp32WebServers.CBsd

open Base

/-- The name, a colon and a line end were found, at distances `i`, `c` and `e`, and the block
holds the bytes from two behind the colon up to the line end, with its terminator inside the
`value_length + 2` bytes that were requested. -/
structure SlicedAt (data : CString) (header : Bytes) (i c e : Nat) (block : Block) : Prop where
  name : indexOf? header data.chars = some i
  colon : indexOf? (ascii ":") (data.chars.drop i) = some c
  lineEnd : indexOf? crlf (data.chars.drop i) = some e
  nonempty : c + 2 < e
  inside : i + e ≤ data.chars.length
  text : block.text = (data.chars.drop (i + (c + 2))).take (e - (c + 2))
  requested : block.requested = e - (c + 2) + 2
  terminator : block.terminator = e - (c + 2)
  small : block.requested ≤ data.chars.length + 2

/-- A lookup returns NULL without copying, or the slice that the three searches found. -/
def ExactOrNull (data : CString) (header : Bytes) (result : Except Fault (Option Block)) :
    Prop :=
  result = .ok none ∨ ∃ i c e block, result = .ok (some block) ∧ SlicedAt data header i c e block

/-- The name is found and a line end behind it, at an address above 2, but no colon. -/
def NoColon (data : CString) (header : Bytes) : Prop :=
  ∃ i e, indexOf? header data.chars = some i ∧
    indexOf? (ascii ":") (data.chars.drop i) = none ∧
    indexOf? crlf (data.chars.drop i) = some e ∧ 2 < data.base + (i + e)

/-- A copy of at least one byte does not return NULL. -/
theorem copyValue_ne_none (data : CString) {start stop : Nat} (spare : Nat) (h : start < stop) :
    copyValue data start stop spare ≠ .ok none := by
  have hlen : ¬ (stop : Int) - start ≤ 0 := by omega
  simp only [copyValue, if_neg hlen]
  cases data.strncpy start ((stop : Int) - start).toNat with
  | error fault =>
    intro h
    cases h
  | ok value =>
    intro h
    cases h

/-- Without a colon the value starts at address 2, whatever the address of the text. -/
theorem getHeader_of_no_colon {data : CString} {header : Bytes} {i e : Nat}
    (hi : indexOf? header data.chars = some i)
    (hc : indexOf? (ascii ":") (data.chars.drop i) = none)
    (he : indexOf? crlf (data.chars.drop i) = some e) :
    getHeader data header = copyValue data 2 (data.base + (i + e)) 1 := by
  rw [getHeader_of_some hi, data.strstr_of_none hc, data.strstr_of_some he, Nat.zero_add,
    Nat.add_assoc]

/-- Where all three searches succeed, the result is NULL or the slice. -/
theorem exactOrNull_of_found {data : CString} {header : Bytes} {i c e : Nat}
    (hi : indexOf? header data.chars = some i)
    (hc : indexOf? (ascii ":") (data.chars.drop i) = some c)
    (he : indexOf? crlf (data.chars.drop i) = some e) :
    ExactOrNull data header (getHeader data header) := by
  have hend := indexOf?_add_length_le he
  have hstart := indexOf?_add_length_le hi
  rw [List.length_drop] at hend
  rw [getHeader_of_found hi hc he]
  by_cases hlt : c + 2 < e
  · rw [dif_pos hlt]
    right
    refine ⟨i, c, e, _, rfl, hi, hc, he, hlt, ?_, rfl, rfl, rfl, ?_⟩
    · omega
    · change e - (c + 2) + 2 ≤ data.chars.length + 2
      omega
  · rw [dif_neg hlt]
    exact .inl rfl

/-- In both C servers, for every text and every name, the lookup returns NULL or the exact
slice between two searches that succeeded, except where the name and a line end are found
but no colon. -/
theorem getHeader_exactOrNull_iff (data : CString) (header : Bytes) :
    ExactOrNull data header (getHeader data header) ∧
      ExactOrNull data header (CNetconn.getHeader data header) ↔ ¬ NoColon data header := by
  have hsame : CNetconn.getHeader data header = getHeader data header := rfl
  rw [hsame, and_self_iff]
  constructor
  · rintro hexact ⟨i, e, hi, hc, he, hbase⟩
    have hcopy := getHeader_of_no_colon hi hc he
    rcases hexact with hnull | ⟨i', c, e', block, -, hslice⟩
    · rw [hcopy] at hnull
      exact copyValue_ne_none data 1 hbase hnull
    · have hcolon := hslice.colon
      cases Option.some.inj (hi.symm.trans hslice.name)
      rw [hc] at hcolon
      cases hcolon
  · intro hcolon
    cases hi : indexOf? header data.chars with
    | none => exact .inl (getHeader_of_none hi)
    | some i =>
      cases he : indexOf? crlf (data.chars.drop i) with
      | none => exact .inl (getHeader_of_no_crlf hi he)
      | some e =>
        cases hc : indexOf? (ascii ":") (data.chars.drop i) with
        | some c => exact exactOrNull_of_found hi hc he
        | none =>
          -- The line end itself stands below address 3, so the difference is not positive.
          have hbase : data.base + (i + e) ≤ 2 := by
            by_contra hlt
            exact hcolon ⟨i, e, hi, hc, he, by omega⟩
          left
          rw [getHeader_of_no_colon hi hc he]
          exact copyValue_of_le data 1 hbase

/-- A request whose last line is a header name without a colon. -/
def noColonText : CString where
  base := 8192
  chars := ascii "GET / HTTP/1.1\r\nDelay\r\n"
  base_pos := by decide
  fits := by decide
  nulFree := by decide

/-- Without a colon both servers copy from address 2. -/
theorem not_exactOrNull_noColonText :
    getHeader noColonText delayName = .error (.invalidRead 2) ∧
      CNetconn.getHeader noColonText delayName = .error (.invalidRead 2) ∧
      ¬ ExactOrNull noColonText delayName (getHeader noColonText delayName) := by
  have hfault : getHeader noColonText delayName = .error (.invalidRead 2) := by decide
  refine ⟨hfault, hfault, ?_⟩
  rw [hfault]
  rintro (h | ⟨i, c, e, block, h, -⟩)
  · cases h
  · cases h

end Esp32WebServers.CBsd

namespace Esp32WebServers.CppAsio

open Base

/-- The position of the first line end at or after a position. -/
def lineEnd? (data : CString) (i : Nat) : Option Nat :=
  (indexOf? crlf (data.chars.drop i)).map (i + ·)

/-- There is no value to copy: the name is missing, its line does not end, or the line ends at
most two characters behind the name. -/
inductive NoSlice (data : CString) (header : Bytes) : Prop where
  | noName (hi : indexOf? header data.chars = none)
  | noLineEnd {i : Nat} (hi : indexOf? header data.chars = some i)
      (he : lineEnd? data i = none)
  | empty {i e : Nat} (hi : indexOf? header data.chars = some i)
      (he : lineEnd? data i = some e) (hle : e ≤ i + header.length + 2)

/-- The name was found at `i` and a line end behind it at `e`, and the block holds the
characters from two behind the name up to `e`. All of them lie in front of the terminator of
`data_`; they fill the `value_length + 1` bytes of the block with the terminator behind them. -/
structure SlicedAt (data : CString) (header : Bytes) (i e : Nat) (block : Block) : Prop where
  name : indexOf? header data.chars = some i
  lineEnd : lineEnd? data i = some e
  nonempty : i + header.length + 2 < e
  inside : e ≤ data.chars.length
  text : block.text =
    (data.chars.drop (i + header.length + 2)).take (e - (i + header.length + 2))
  copied : block.text.length = e - (i + header.length + 2)
  terminator : block.terminator = block.text.length
  requested : block.requested = block.text.length + 1

/-- Without a value the lookup returns NULL. -/
theorem getHeader_of_noSlice {data : CString} {header : Bytes} (h : NoSlice data header) :
    getHeader data header = .ok none := by
  cases h with
  | noName hi => exact getHeader_of_none hi
  | noLineEnd hi he => exact getHeader_of_no_crlf hi (Option.map_eq_none_iff.mp he)
  | empty hi he hle =>
    obtain ⟨d, hd, rfl⟩ := Option.map_eq_some_iff.mp he
    rw [getHeader_of_found hi hd, dif_neg (by omega)]

/-- Between the name and a line end far enough behind it, the lookup copies the slice. -/
theorem exists_slicedAt {data : CString} {header : Bytes} {i e : Nat}
    (hi : indexOf? header data.chars = some i) (he : lineEnd? data i = some e)
    (hlt : i + header.length + 2 < e) :
    ∃ block, getHeader data header = .ok (some block) ∧ SlicedAt data header i e block := by
  obtain ⟨d, hd, rfl⟩ := Option.map_eq_some_iff.mp he
  have hname := indexOf?_add_length_le hi
  have hend := indexOf?_add_length_le hd
  rw [List.length_drop] at hend
  have hstart : i + (header.length + 2) = i + header.length + 2 := by omega
  have hcount : d - (header.length + 2) = i + d - (i + header.length + 2) := by omega
  have hlen : ((data.chars.drop (i + header.length + 2)).take
      (i + d - (i + header.length + 2))).length = i + d - (i + header.length + 2) := by
    rw [List.length_take, List.length_drop]
    omega
  rw [getHeader_of_found hi hd, dif_pos (by omega)]
  simp only [hstart, hcount]
  exact ⟨_, rfl, hi, he, hlt, by omega, rfl, hlen, hlen.symm, congrArg (· + 1) hlen.symm⟩

/-- For every text and every name, `Session::get_header` returns NULL exactly where there is no
value, and otherwise the exact slice, copied from inside the text into the block. -/
theorem getHeader_slice_or_null (data : CString) (header : Bytes) :
    (getHeader data header = .ok none ↔ NoSlice data header) ∧
      (getHeader data header = .ok none ∨ ∃ i e block,
        getHeader data header = .ok (some block) ∧ SlicedAt data header i e block) := by
  have hcases : NoSlice data header ∨ ∃ i e block,
      getHeader data header = .ok (some block) ∧ SlicedAt data header i e block := by
    cases hi : indexOf? header data.chars with
    | none => exact .inl (.noName hi)
    | some i =>
      cases he : lineEnd? data i with
      | none => exact .inl (.noLineEnd hi he)
      | some e =>
        rcases Nat.lt_or_ge (i + header.length + 2) e with hlt | hle
        · exact .inr ⟨i, e, exists_slicedAt hi he hlt⟩
        · exact .inl (.empty hi he hle)
  constructor
  · constructor
    · intro hnull
      rcases hcases with hno | ⟨i, e, block, hsome, -⟩
      · exact hno
      · rw [hnull] at hsome
        cases hsome
    · exact getHeader_of_noSlice
  · exact hcases.imp_left getHeader_of_noSlice

end Esp32WebServers.CppAsio
