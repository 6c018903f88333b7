import Esp32WebServers.Base.Search
import Esp32WebServers.Base.Utf8
import Esp32WebServers.Header.C

/-!
# Header lookup of the Rust server

`get_header`, `str_len` and `read_request` of `web_server/rust/src/main.rs:160–214`. The
lookup works on the whole 1024-byte buffer, the zero bytes behind the request included.
The build aborts on a panic, so a panic is an outcome of its own.
-/

namespace Esp32WebServers.Rust

open Base

/-- The places where the request path panics: the explicit one on text that is not
UTF-8, `main.rs:176`, and the slices of `get_header`. -/
inductive Panic where
  | invalidUtf8
  | slice (start stop : Nat)
  deriving DecidableEq, Repr

/-- `str_len`, `main.rs:212–214`. -/
def strLen (string : Bytes) : Nat := charCount string

/-- `&data[start..stop]`. -/
def slice (data : Bytes) (start stop : Nat) : Except Panic Bytes :=
  match strSlice? data start stop with
  | some s => .ok s
  | none => .error (.slice start stop)

/-- `get_header`, `main.rs:191–210`. -/
def getHeader (data header : Bytes) : Except Panic Nat :=
  match indexOf? header data with
  | none => .ok 0
  | some headerStartIndex => do
    let headerValueStart := headerStartIndex + strLen header + 2
    let headerValueString ← slice data headerValueStart (strLen data)
    match indexOf? crlf headerValueString with
    | none => return 0
    | some headerValueEnd =>
      let headerValue ← slice headerValueString 0 headerValueEnd
      return (parseU64? headerValue).getD 0

/-- The result of one `stream.read`: the bytes stored at the front of the buffer, none
of them at the end of the stream, or an error. -/
inductive Read where
  | ok (chunk : Bytes)
  | err
  deriving DecidableEq, Repr

/-- What `read_request` returns: the error of the read, or success after a sleep of
`delay` milliseconds. -/
inductive Request where
  | err
  | ok (delay : Nat)
  deriving DecidableEq, Repr

/-- A read overwrites the front of the buffer and leaves the rest as it was. -/
def overlay (buffer chunk : Bytes) : Bytes := chunk ++ buffer.drop chunk.length

/-- The buffer at the start of `read_request`, `main.rs:162`. -/
def emptyBuffer : Bytes := List.replicate 1024 0

/-- The body of `if buffer.starts_with(get)`, `main.rs:172–187`. -/
def parseRequest (buffer : Bytes) : Except Panic Request :=
  if validUtf8 buffer = true then do
    let _memoryUsage ← getHeader buffer momoryUsageName
    let delay ← getHeader buffer delayName
    return .ok delay
  else .error .invalidUtf8

/-- The loop of `read_request`, `main.rs:165–188`, on the results of the reads to come:
what it returns, with the results that are left, or nothing while it waits for more. -/
def readLoop (buffer : Bytes) : List Read → Except Panic (Option (Request × List Read))
  | [] => .ok none
  | .err :: reads => .ok (some (.err, reads))
  | .ok chunk :: reads =>
    let buffer := overlay buffer chunk
    if ascii "GET" <+: buffer then do
      let request ← parseRequest buffer
      return some (request, reads)
    else readLoop buffer reads

/-- `read_request`, `main.rs:160–189`. -/
def readRequest (reads : List Read) : Except Panic (Option (Request × List Read)) :=
  readLoop emptyBuffer reads

/-- An ordered slice of ASCII text inside its bounds. -/
theorem slice_of_isAscii {data : Bytes} {start stop : Nat} (h : IsAscii data)
    (hle : start ≤ stop) (hstop : stop ≤ data.length) :
    slice data start stop = .ok ((data.drop start).take (stop - start)) := by
  rw [slice, strSlice?_of_isAscii h hle hstop]

/-- A text without the name has the value 0. -/
theorem getHeader_of_none {data header : Bytes} (h : indexOf? header data = none) :
    getHeader data header = .ok 0 := by
  rw [getHeader, h]

private theorem isAscii_drop {s : Bytes} (n : Nat) (h : IsAscii s) : IsAscii (s.drop n) :=
  fun b hb ↦ h b (List.mem_of_mem_drop hb)

/-- The number that a text holds up to its first line end, 0 where there is none or no line
end. -/
def lineNumber (text : Bytes) : Nat :=
  ((indexOf? crlf text).bind fun e ↦ parseU64? (text.take e)).getD 0

/-- Where the line does not end, the number is 0. -/
theorem lineNumber_of_none {text : Bytes} (h : indexOf? crlf text = none) :
    lineNumber text = 0 := by
  rw [lineNumber, h]
  rfl

/-- The number is parsed up to the line end. -/
theorem lineNumber_of_some {text : Bytes} {e : Nat} (h : indexOf? crlf text = some e) :
    lineNumber text = (parseU64? (text.take e)).getD 0 := by
  rw [lineNumber, h]
  rfl

/-- The number is positive where there is a line end, and a positive number in front of it. -/
theorem lineNumber_pos_iff {text : Bytes} :
    0 < lineNumber text ↔ ∃ e n, indexOf? crlf text = some e ∧
      parseU64? (text.take e) = some n ∧ 0 < n := by
  cases he : indexOf? crlf text with
  | none => simp [lineNumber_of_none he]
  | some e =>
    rw [lineNumber_of_some he]
    cases hn : parseU64? (text.take e) with
    | none => simp [hn]
    | some n => simp [hn]

/-- The number of a line. -/
theorem lineNumber_line {v : Bytes} (s : Bytes) (hv : 13 ∉ v) :
    lineNumber (v ++ (crlf ++ s)) = (parseU64? v).getD 0 := by
  have he : indexOf? crlf (v ++ (crlf ++ s)) = some v.length := indexOf?_of_append hv
  rw [lineNumber_of_some he, List.take_left]

/-- In ASCII text, the value runs from two behind the name to the next line end. -/
theorem getHeader_of_some {data header : Bytes} {i : Nat} (hd : IsAscii data)
    (hh : IsAscii header) (hi : indexOf? header data = some i)
    (hin : i + header.length + 2 ≤ data.length) :
    getHeader data header = .ok (lineNumber (data.drop (i + header.length + 2))) := by
  have hslice := slice_of_isAscii hd hin (Nat.le_refl _)
  have htail : (data.drop (i + header.length + 2)).take
      (data.length - (i + header.length + 2)) = data.drop (i + header.length + 2) := by
    rw [← List.length_drop, List.take_length]
  rw [htail] at hslice
  simp only [getHeader, hi, strLen, charCount_of_isAscii hh, charCount_of_isAscii hd, hslice]
  cases he : indexOf? crlf (data.drop (i + header.length + 2)) with
  | none => simp only [he, bind, Except.bind, pure, Except.pure, lineNumber_of_none he]
  | some e =>
    have hle := indexOf?_add_length_le he
    have hvalue : slice (data.drop (i + header.length + 2)) 0 e =
        .ok ((data.drop (i + header.length + 2)).take e) := by
      rw [slice_of_isAscii (isAscii_drop _ hd) (Nat.zero_le _) (by omega), List.drop_zero,
        Nat.sub_zero]
    simp only [he, hvalue, bind, Except.bind, pure, Except.pure, lineNumber_of_some he]

/-- In ASCII text, a lookup that starts its slice inside the text does not panic. -/
theorem getHeader_isOk {data header : Bytes} (hd : IsAscii data) (hh : IsAscii header)
    (hin : ∀ i, indexOf? header data = some i → i + header.length + 2 ≤ data.length) :
    ∃ n, getHeader data header = .ok n := by
  cases hi : indexOf? header data with
  | none => exact ⟨0, getHeader_of_none hi⟩
  | some i =>
    rw [getHeader_of_some hd hh hi (hin i hi)]
    exact ⟨_, rfl⟩

/-- A line `Name:v` at the name's first occurrence: the value starts behind the first
byte of `v`, and what does not parse counts as 0. -/
theorem getHeader_line {data header p v s : Bytes}
    (hdata : data = p ++ (header ++ (58 :: v ++ (crlf ++ s))))
    (hd : IsAscii data) (hh : IsAscii header)
    (hfirst : indexOf? header data = some p.length) (hne : v ≠ []) (hv : 13 ∉ v) :
    getHeader data header = .ok ((parseU64? (v.drop 1)).getD 0) := by
  have hlen : 1 ≤ v.length := List.length_pos_iff.mpr hne
  have hin : p.length + header.length + 2 ≤ data.length := by
    rw [hdata]
    simp only [List.length_append, List.length_cons]
    omega
  have hdrop : data.drop (p.length + header.length + 2) = v.drop 1 ++ (crlf ++ s) := by
    rw [hdata, ← List.drop_drop, ← List.drop_drop, List.drop_left, List.drop_left]
    cases v with
    | nil => exact absurd rfl hne
    | cons b v => rfl
  rw [getHeader_of_some hd hh hfirst hin, hdrop,
    lineNumber_line s fun hm ↦ hv (List.mem_of_mem_drop hm)]

end Esp32WebServers.Rust
