import Esp32WebServers.Base.CString

/-!
# Header lookup of the C and C++ servers

`get_header` and `get_header_value` of `web_server/c_bsd/main/tcp_server.c:177–215`,
the same two functions of `web_server/c_netconn/main/tcp_server.c:182–220` and the
members of `Session` in `web_server/cpp_asio/main/tcp_server.cpp:149–188`. The three
differ in where the value starts and in the size of the block it is copied to.
-/

namespace Esp32WebServers

open Base

/-- The name of the header that carries the delay. -/
def delayName : Bytes := ascii "Delay"

/-- The name of the header that the Rust and Lua servers look up beside it. -/
def momoryUsageName : Bytes := ascii "MomoryUsage"

/-- From `value_length` on the functions agree but for the size of the block, which
leaves `spare` bytes behind the terminator. -/
def copyValue (data : CString) (headerValueStart headerValueEnd spare : Nat) :
    Except Fault (Option Block) :=
  let valueLength : Int := (headerValueEnd : Int) - headerValueStart
  if valueLength ≤ 0 then .ok none
  else do
    let value ← data.strncpy headerValueStart valueLength.toNat
    return some
      { requested := valueLength.toNat + 1 + spare
        text := value
        terminator := valueLength.toNat
        inBounds := by omega }

/-- The integer read from a header value, where there is one, and 0 otherwise; the local
`value_as_int` holds `slot` when the function is entered. -/
def valueAsInt (slot : Int) (headerValue : Except Fault (Option Block)) : Except Fault Int := do
  match ← headerValue with
  | some value => return sscanf value.text slot
  | none => return 0

namespace CBsd

/-- `get_header`, `web_server/c_bsd/main/tcp_server.c:193–215`. -/
def getHeader (data : CString) (header : Bytes) : Except Fault (Option Block) :=
  let headerStart := data.strstr data.base header
  if headerStart = 0 then .ok none
  else
    let headerValueStart := data.strstr headerStart (ascii ":") + 2
    let headerValueEnd := data.strstr headerStart crlf
    copyValue data headerValueStart headerValueEnd 1

/-- `get_header_value`, `web_server/c_bsd/main/tcp_server.c:177–191`. -/
def getHeaderValue (slot : Int) (data : CString) (header : Bytes) : Except Fault Int :=
  valueAsInt slot (getHeader data header)

end CBsd

namespace CNetconn

/-- `get_header`, `web_server/c_netconn/main/tcp_server.c:198–220`: the text of the
function above. -/
def getHeader (data : CString) (header : Bytes) : Except Fault (Option Block) :=
  CBsd.getHeader data header

/-- `get_header_value`, `web_server/c_netconn/main/tcp_server.c:182–196`. -/
def getHeaderValue (slot : Int) (data : CString) (header : Bytes) : Except Fault Int :=
  valueAsInt slot (getHeader data header)

end CNetconn

namespace CppAsio

/-- `Session::get_header`, `web_server/cpp_asio/main/tcp_server.cpp:165–188`. -/
def getHeader (data : CString) (header : Bytes) : Except Fault (Option Block) :=
  let headerStart := data.strstr data.base header
  if headerStart = 0 then .ok none
  else
    let headerValueStart := headerStart + header.length + 2
    let headerValueEnd := data.strstr headerStart crlf
    copyValue data headerValueStart headerValueEnd 0

/-- `Session::get_header_value`, `web_server/cpp_asio/main/tcp_server.cpp:149–163`. -/
def getHeaderValue (slot : Int) (data : CString) (header : Bytes) : Except Fault Int :=
  valueAsInt slot (getHeader data header)

end CppAsio

/-- Nothing is copied where the value would not start before the end. -/
theorem copyValue_of_le (data : CString) {start stop : Nat} (spare : Nat) (h : stop ≤ start) :
    copyValue data start stop spare = .ok none := by
  simp only [copyValue]
  rw [if_pos (by omega)]

/-- A value between two positions of the string is the slice between them. -/
theorem copyValue_of_lt (data : CString) {i n : Nat} (spare : Nat) (hn : 0 < n)
    (hi : i ≤ data.chars.length) :
    copyValue data (data.base + i) (data.base + (i + n)) spare =
      .ok (some ⟨n + 1 + spare, (data.chars.drop i).take n, n, by omega⟩) := by
  have hlen : ((data.base + (i + n) : Nat) : Int) - (data.base + i : Nat) = n := by omega
  simp only [copyValue, hlen, Int.toNat_natCast, data.strncpy_add hi]
  rw [if_neg (by omega)]
  rfl

/-- A copy from in front of the string is a fault. -/
theorem copyValue_of_low (data : CString) {start stop : Nat} (spare : Nat) (h : start < stop)
    (hlow : start < data.base) : copyValue data start stop spare = .error (.invalidRead start) := by
  have hout : ¬ (data.base ≤ start ∧ start ≤ data.base + data.chars.length) := by omega
  simp only [copyValue, CString.strncpy, if_neg hout]
  rw [if_neg (by omega)]
  rfl

namespace CBsd

/-- A text without the name has no such header. -/
theorem getHeader_of_none {data : CString} {header : Bytes}
    (h : indexOf? header data.chars = none) : getHeader data header = .ok none := by
  have hs : data.strstr data.base header = 0 := by simp [CString.strstr, h]
  simp only [getHeader, hs, ite_true]

/-- Behind the name's first occurrence, the value is decided by two more searches. -/
theorem getHeader_of_some {data : CString} {header : Bytes} {i : Nat}
    (h : indexOf? header data.chars = some i) :
    getHeader data header =
      copyValue data (data.strstr (data.base + i) (ascii ":") + 2)
        (data.strstr (data.base + i) crlf) 1 := by
  have hs : data.strstr data.base header = data.base + i := by simp [CString.strstr, h]
  have hpos := data.base_pos
  simp only [getHeader, hs]
  rw [if_neg (by omega)]

/-- Where the line does not end, there is no value. -/
theorem getHeader_of_no_crlf {data : CString} {header : Bytes} {i : Nat}
    (h : indexOf? header data.chars = some i)
    (he : indexOf? crlf (data.chars.drop i) = none) : getHeader data header = .ok none := by
  rw [getHeader_of_some h, data.strstr_of_none he]
  exact copyValue_of_le data 1 (Nat.zero_le _)

/-- Where name, colon and line end are found, the value is the slice from two behind the
colon to the line end, if that is not empty. -/
theorem getHeader_of_found {data : CString} {header : Bytes} {i c e : Nat}
    (h : indexOf? header data.chars = some i)
    (hc : indexOf? (ascii ":") (data.chars.drop i) = some c)
    (he : indexOf? crlf (data.chars.drop i) = some e) :
    getHeader data header =
      if _hlt : c + 2 < e then
        .ok (some ⟨e - (c + 2) + 2, (data.chars.drop (i + (c + 2))).take (e - (c + 2)),
          e - (c + 2), by omega⟩)
      else .ok none := by
  rw [getHeader_of_some h, data.strstr_of_some hc, data.strstr_of_some he]
  split
  · have hle := indexOf?_add_length_le he
    rw [List.length_drop] at hle
    have hstart : data.base + i + c + 2 = data.base + (i + (c + 2)) := by omega
    have hstop : data.base + i + e = data.base + (i + (c + 2) + (e - (c + 2))) := by omega
    rw [hstart, hstop, copyValue_of_lt data 1 (by omega) (by omega)]
  · exact copyValue_of_le data 1 (by omega)

/-- Without the name the number is 0. -/
theorem getHeaderValue_of_none (slot : Int) {data : CString} {header : Bytes}
    (h : indexOf? header data.chars = none) : getHeaderValue slot data header = .ok 0 := by
  rw [getHeaderValue, getHeader_of_none h]
  rfl

/-- Where the line does not end, the number is 0. -/
theorem getHeaderValue_of_no_crlf (slot : Int) {data : CString} {header : Bytes} {i : Nat}
    (h : indexOf? header data.chars = some i)
    (he : indexOf? crlf (data.chars.drop i) = none) : getHeaderValue slot data header = .ok 0 := by
  rw [getHeaderValue, getHeader_of_no_crlf h he]
  rfl

/-- Where name, colon and line end are found, the number is scanned from the slice between the
last two. -/
theorem getHeaderValue_of_found (slot : Int) {data : CString} {header : Bytes} {i c e : Nat}
    (h : indexOf? header data.chars = some i)
    (hc : indexOf? (ascii ":") (data.chars.drop i) = some c)
    (he : indexOf? crlf (data.chars.drop i) = some e) :
    getHeaderValue slot data header = .ok (if c + 2 < e then
      sscanf ((data.chars.drop (i + (c + 2))).take (e - (c + 2))) slot else 0) := by
  rw [getHeaderValue, getHeader_of_found h hc he]
  split
  · rfl
  · rfl

end CBsd

namespace CppAsio

/-- A text without the name has no such header. -/
theorem getHeader_of_none {data : CString} {header : Bytes}
    (h : indexOf? header data.chars = none) : getHeader data header = .ok none := by
  have hs : data.strstr data.base header = 0 := by simp [CString.strstr, h]
  simp only [getHeader, hs, ite_true]

/-- Behind the name's first occurrence, the value is decided by the search for the line
end. -/
theorem getHeader_of_some {data : CString} {header : Bytes} {i : Nat}
    (h : indexOf? header data.chars = some i) :
    getHeader data header =
      copyValue data (data.base + (i + (header.length + 2)))
        (data.strstr (data.base + i) crlf) 0 := by
  have hs : data.strstr data.base header = data.base + i := by simp [CString.strstr, h]
  have hpos := data.base_pos
  have hstart : data.base + i + header.length + 2 = data.base + (i + (header.length + 2)) := by
    omega
  simp only [getHeader, hs, hstart]
  rw [if_neg (by omega)]

/-- Where the line does not end, there is no value. -/
theorem getHeader_of_no_crlf {data : CString} {header : Bytes} {i : Nat}
    (h : indexOf? header data.chars = some i)
    (he : indexOf? crlf (data.chars.drop i) = none) : getHeader data header = .ok none := by
  rw [getHeader_of_some h, data.strstr_of_none he]
  exact copyValue_of_le data 0 (Nat.zero_le _)

/-- Where name and line end are found, the value is the slice from two behind the name
to the line end, if that is not empty. -/
theorem getHeader_of_found {data : CString} {header : Bytes} {i e : Nat}
    (h : indexOf? header data.chars = some i)
    (he : indexOf? crlf (data.chars.drop i) = some e) :
    getHeader data header =
      if _hlt : header.length + 2 < e then
        .ok (some ⟨e - (header.length + 2) + 1,
          (data.chars.drop (i + (header.length + 2))).take (e - (header.length + 2)),
          e - (header.length + 2), by omega⟩)
      else .ok none := by
  rw [getHeader_of_some h, data.strstr_of_some he]
  split
  · have hle := indexOf?_add_length_le he
    rw [List.length_drop] at hle
    have hstop : data.base + i + e =
        data.base + (i + (header.length + 2) + (e - (header.length + 2))) := by omega
    rw [hstop, copyValue_of_lt data 0 (by omega) (by omega)]
  · exact copyValue_of_le data 0 (by omega)

/-- Without the name the number is 0. -/
theorem getHeaderValue_of_none (slot : Int) {data : CString} {header : Bytes}
    (h : indexOf? header data.chars = none) : getHeaderValue slot data header = .ok 0 := by
  rw [getHeaderValue, getHeader_of_none h]
  rfl

/-- Where name and line end are found, the number is scanned from the slice between two behind
the name and the line end. -/
theorem getHeaderValue_of_found (slot : Int) {data : CString} {header : Bytes} {i e : Nat}
    (h : indexOf? header data.chars = some i)
    (he : indexOf? crlf (data.chars.drop i) = some e) :
    getHeaderValue slot data header = .ok (if header.length + 2 < e then
      sscanf ((data.chars.drop (i + (header.length + 2))).take (e - (header.length + 2))) slot
      else 0) := by
  rw [getHeaderValue, getHeader_of_found h he]
  split
  · rfl
  · rfl

end CppAsio

/-! ### A header line -/

section Line

variable {data : CString} {header p v s : Bytes}
  (hchars : data.chars = p ++ (header ++ (58 :: v ++ (crlf ++ s))))
  (hfirst : indexOf? header data.chars = some p.length)
  (hcr : 13 ∉ header) (hv : 13 ∉ v)

include hchars

private theorem drop_line :
    data.chars.drop p.length = header ++ (58 :: v ++ (crlf ++ s)) := by
  rw [hchars, List.drop_left]

private theorem line_value :
    (data.chars.drop (p.length + (header.length + 2))).take
      (header.length + (v.length + 1) - (header.length + 2)) = v.drop 1 := by
  have hcount : header.length + (v.length + 1) - (header.length + 2) = v.length - 1 := by omega
  rw [hcount, ← List.drop_drop, drop_line hchars, ← List.drop_drop, List.drop_left]
  cases v with
  | nil => rfl
  | cons b v => simp

include hcr hv

private theorem indexOf?_crlf_line :
    indexOf? crlf (data.chars.drop p.length) = some (header.length + (v.length + 1)) := by
  have hcolon : (13 : UInt8) ∉ 58 :: v := by simp [hv]
  have happend := indexOf?_of_append (w := [10]) (q := s) (p := header ++ 58 :: v) (c := 13)
    (by simp only [List.mem_append, hcr, hcolon, or_self, not_false_eq_true])
  rw [List.length_append, List.length_cons] at happend
  rw [drop_line hchars, ← happend, List.append_assoc]
  rfl

include hfirst

/-- A line `Name:v`, found at the name's first occurrence: the value starts two behind
the colon, so the first byte of `v` is skipped whether it is a space or not. -/
theorem CBsd.getHeader_line (hcolon : 58 ∉ header) :
    CBsd.getHeader data header =
      if _hlen : 1 < v.length then .ok (some ⟨v.length - 1 + 2, v.drop 1, v.length - 1, by omega⟩)
      else .ok none := by
  have hc : indexOf? (ascii ":") (data.chars.drop p.length) = some header.length := by
    rw [drop_line hchars]
    exact indexOf?_of_append hcolon
  have he := indexOf?_crlf_line hchars hcr hv
  rw [CBsd.getHeader_of_found hfirst hc he]
  by_cases hlen : 1 < v.length
  · have hcount : header.length + (v.length + 1) - (header.length + 2) = v.length - 1 := by omega
    rw [dif_pos (by omega), dif_pos hlen]
    simp only [line_value hchars]
    simp only [hcount]
  · rw [dif_neg (by omega), dif_neg hlen]

/-- The C++ lookup finds the same value in a line `Name:v`, in a block one byte smaller. -/
theorem CppAsio.getHeader_line :
    CppAsio.getHeader data header =
      if _hlen : 1 < v.length then .ok (some ⟨v.length - 1 + 1, v.drop 1, v.length - 1, by omega⟩)
      else .ok none := by
  have he := indexOf?_crlf_line hchars hcr hv
  rw [CppAsio.getHeader_of_found hfirst he]
  by_cases hlen : 1 < v.length
  · have hcount : header.length + (v.length + 1) - (header.length + 2) = v.length - 1 := by omega
    rw [dif_pos (by omega), dif_pos hlen]
    simp only [line_value hchars]
    simp only [hcount]
  · rw [dif_neg (by omega), dif_neg hlen]

end Line

/-- What the C and C++ servers read from the text behind the colon of the line that is
found: the number behind its first byte, and 0 where nothing stands there. -/
def lineValue (slot : Int) (v : Bytes) : Int := if 1 < v.length then sscanf (v.drop 1) slot else 0

/-- All three lookups of a number agree on a line `Name:v`. -/
theorem getHeaderValue_line (slot : Int) {data : CString} {header p v s : Bytes}
    (hchars : data.chars = p ++ (header ++ (58 :: v ++ (crlf ++ s))))
    (hfirst : indexOf? header data.chars = some p.length)
    (hcr : 13 ∉ header) (hv : 13 ∉ v) (hcolon : 58 ∉ header) :
    CBsd.getHeaderValue slot data header = .ok (lineValue slot v) ∧
      CNetconn.getHeaderValue slot data header = .ok (lineValue slot v) ∧
      CppAsio.getHeaderValue slot data header = .ok (lineValue slot v) := by
  have hc := CBsd.getHeader_line hchars hfirst hcr hv hcolon
  have ha := CppAsio.getHeader_line hchars hfirst hcr hv
  simp only [CBsd.getHeaderValue, CNetconn.getHeaderValue, CNetconn.getHeader,
    CppAsio.getHeaderValue, hc, ha, lineValue]
  split
  · exact ⟨rfl, rfl, rfl⟩
  · exact ⟨rfl, rfl, rfl⟩

end Esp32WebServers
