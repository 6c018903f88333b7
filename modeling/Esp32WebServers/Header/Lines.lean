import Esp32WebServers.Base.Lines
import Esp32WebServers.Header.Agreement
import Esp32WebServers.Header.Captures

/-!
# Lookup by name in a request of header lines

None of the six lookups asks whether the name that it finds is the name of a header line: the
C, C++ and Rust servers take its first occurrence in the text (`strstr`, `find`), the Python and
Lua servers the first place where a colon, spaces, digits and a line end follow it. This module
follows the first occurrence through the request line, names and values.
-/

namespace Esp32WebServers

open Base

/-! ### Requests -/

/-- Printable ASCII, the space included. -/
def isPrintable (b : UInt8) : Bool := 32 ≤ b && b ≤ 126

/-- The characters of tokens: letters, digits and fifteen marks, no colon among them. -/
def isTokenChar (b : UInt8) : Bool :=
  isDigit b || (65 ≤ b && b ≤ 90) || (97 ≤ b && b ≤ 122) ||
    [33, 35, 36, 37, 38, 39, 42, 43, 45, 46, 94, 95, 96, 124, 126].contains b

/-- A header line `Name: value`. -/
structure HeaderLine where
  name : Bytes
  value : Bytes
  name_ne : name ≠ []
  token : name.all isTokenChar = true
  printable : value.all isPrintable = true

/-- The bytes of a header line, without its line end. -/
def HeaderLine.bytes (line : HeaderLine) : Bytes := line.name ++ (ascii ": " ++ line.value)

/-- A request line that starts with `GET` and header lines, each with its line end, and perhaps
an empty line. One read delivers it to every server, to Netconn as its first fragment. -/
structure HeaderRequest where
  requestLine : Bytes
  headers : List HeaderLine
  ending : Bytes
  get : ascii "GET" <+: requestLine
  printable : requestLine.all isPrintable = true
  ending_eq : ending = [] ∨ ending = crlf
  oneRead :
    (unlines (requestLine :: headers.map HeaderLine.bytes) ++ ending).length ≤ 1023

namespace HeaderRequest

/-- All lines. -/
def lines (r : HeaderRequest) : List Bytes := r.requestLine :: r.headers.map HeaderLine.bytes

/-- The bytes of the request. -/
def text (r : HeaderRequest) : Bytes := unlines r.lines ++ r.ending

end HeaderRequest

private theorem isPrintable_iff {b : UInt8} :
    isPrintable b = true ↔ 32 ≤ b.toNat ∧ b.toNat ≤ 126 := by
  simp only [isPrintable, Bool.and_eq_true, decide_eq_true_eq, UInt8.le_iff_toNat_le]
  exact Iff.rfl

/-- A token is printable. -/
theorem isPrintable_of_isTokenChar {b : UInt8} (h : isTokenChar b = true) :
    isPrintable b = true := by
  have hb : 48 ≤ b.toNat ∧ b.toNat ≤ 57 ∨ 65 ≤ b.toNat ∧ b.toNat ≤ 90 ∨
      97 ≤ b.toNat ∧ b.toNat ≤ 122 ∨
      b ∈ [33, 35, 36, 37, 38, 39, 42, 43, 45, 46, 94, 95, 96, 124, 126] := by
    simp only [isTokenChar, Bool.or_eq_true, isDigit_iff, Bool.and_eq_true, decide_eq_true_eq,
      UInt8.le_iff_toNat_le, List.contains_iff_mem, or_assoc] at h
    exact h
  rcases hb with hb | hb | hb | hb
  · exact isPrintable_iff.mpr (by omega)
  · exact isPrintable_iff.mpr (by omega)
  · exact isPrintable_iff.mpr (by omega)
  · have hmarks : ([33, 35, 36, 37, 38, 39, 42, 43, 45, 46, 94, 95, 96, 124, 126] : Bytes).all
        isPrintable = true := by decide
    exact List.all_eq_true.mp hmarks b hb

/-- Printable bytes are ASCII, and neither NUL nor part of a line end. -/
theorem isPrintable_spec {b : UInt8} (h : isPrintable b = true) :
    b < 128 ∧ b ≠ 0 ∧ b ≠ 13 ∧ b ≠ 10 := by
  have hb := isPrintable_iff.mp h
  refine ⟨UInt8.lt_iff_toNat_lt.mpr ?_, ?_, ?_, ?_⟩
  · change b.toNat < 128
    omega
  · rintro rfl
    exact absurd hb.1 (by decide)
  · rintro rfl
    exact absurd hb.1 (by decide)
  · rintro rfl
    exact absurd hb.1 (by decide)

/-- A header line is printable. -/
theorem HeaderLine.isPrintable_of_mem (line : HeaderLine) {b : UInt8} (h : b ∈ line.bytes) :
    isPrintable b = true := by
  rcases List.mem_append.mp h with h | h
  · exact isPrintable_of_isTokenChar (List.all_eq_true.mp line.token b h)
  · rcases List.mem_append.mp h with h | h
    · have hcolon : (ascii ": ").all isPrintable = true := by decide
      exact List.all_eq_true.mp hcolon b h
    · exact List.all_eq_true.mp line.printable b h

/-- A header line has a colon. -/
theorem HeaderLine.colon_mem (line : HeaderLine) : 58 ∈ line.bytes :=
  List.mem_append_right _ (List.mem_append_left _ (by decide))

namespace HeaderRequest

variable (r : HeaderRequest)

/-- Every line is printable. -/
theorem isPrintable_of_mem {line : Bytes} (hline : line ∈ r.lines) :
    ∀ b ∈ line, isPrintable b = true := by
  intro b hb
  rcases List.mem_cons.mp hline with rfl | hline
  · exact List.all_eq_true.mp r.printable b hb
  · obtain ⟨header, -, rfl⟩ := List.mem_map.mp hline
    exact header.isPrintable_of_mem hb

private theorem forall_mem_text {P : UInt8 → Prop} (hprintable : ∀ b, isPrintable b = true → P b)
    (hcrlf : ∀ b ∈ crlf, P b) : ∀ b ∈ r.text, P b := by
  intro b hb
  rcases List.mem_append.mp hb with hb | hb
  · exact forall_mem_unlines (fun line hline b hb ↦ hprintable b (r.isPrintable_of_mem hline b hb))
      hcrlf b hb
  · rcases r.ending_eq with hending | hending
    · rw [hending] at hb
      exact absurd hb List.not_mem_nil
    · rw [hending] at hb
      exact hcrlf b hb

/-- A request is ASCII. -/
theorem isAscii : IsAscii r.text :=
  r.forall_mem_text (fun _ h ↦ (isPrintable_spec h).1) (show IsAscii crlf by decide)

/-- A request has no NUL. -/
theorem nulFree : NulFree r.text :=
  r.forall_mem_text (fun _ h ↦ (isPrintable_spec h).2.1) (show NulFree crlf by decide)

/-- A request starts with `GET`. -/
theorem get_text : ascii "GET" <+: r.text := by
  rw [text, lines, unlines_cons, List.append_assoc]
  exact r.get.trans (List.prefix_append _ _)

/-- One read delivers the request. -/
theorem length_text_le : r.text.length ≤ 1023 := r.oneRead

/-- A line has no line end. -/
theorem not_mem_line {line : Bytes} (hline : line ∈ r.lines) : 13 ∉ line ∧ 10 ∉ line := by
  constructor
  · intro h
    exact (isPrintable_spec (r.isPrintable_of_mem hline _ h)).2.2.1 rfl
  · intro h
    exact (isPrintable_spec (r.isPrintable_of_mem hline _ h)).2.2.2 rfl

/-- Behind an occurrence of a word without line ends, the line end still follows. -/
theorem add_le_of_indexOf? {w : Bytes} {i : Nat} (hcr : 13 ∉ w) (hlf : 10 ∉ w) (hne : w ≠ [])
    (h : indexOf? w r.text = some i) : i + w.length + 2 ≤ r.text.length := by
  apply indexOf?_add_length_le_of_crlf_suffix hcr hlf hne _ h
  rcases r.ending_eq with hending | hending
  · rw [text, hending, List.append_nil]
    exact crlf_suffix_unlines (List.cons_ne_nil _ _)
  · rw [text, hending]
    exact List.suffix_append _ _

end HeaderRequest

/-! ### The first occurrence -/

/-- What a scan for a number makes of a text, where it does not depend on what stood in the
number before: 0 if nothing is copied, and else the number, if there is one. -/
def Scans (v : Bytes) (d : Int) : Prop := (v = [] ∧ d = 0) ∨ scanNumber? v = some d

/-- The scan of nothing is no number. -/
theorem Scans.ne_nil {v : Bytes} {d : Int} (h : scanNumber? v = some d) : v ≠ [] := by
  rintro rfl
  cases h

/-- A determined scan of the bytes behind the first one. -/
theorem Scans.lineValue {v : Bytes} {d : Int} (h : Scans (v.drop 1) d) (slot : Int) :
    lineValue slot v = d := by
  rw [Esp32WebServers.lineValue]
  rcases h with ⟨hnil, rfl⟩ | h
  · rw [if_neg (Nat.not_lt.mpr (List.drop_eq_nil_iff.mp hnil))]
  · have hlen : 1 < v.length := by
      by_contra hlt
      exact Scans.ne_nil h (List.drop_eq_nil_of_le (Nat.not_lt.mp hlt))
    rw [if_pos hlen, sscanf, h, Option.getD_some]

/-- A determined scan of the bytes behind the first two. -/
theorem Scans.skipped {q : Bytes} {d : Int} (h : Scans (q.drop 2) d) (slot : Int) :
    (if 2 < q.length then sscanf (q.drop 2) slot else 0) = d := by
  rcases h with ⟨hnil, rfl⟩ | h
  · rw [if_neg (Nat.not_lt.mpr (List.drop_eq_nil_iff.mp hnil))]
  · have hlen : 2 < q.length := by
      by_contra hlt
      exact Scans.ne_nil h (List.drop_eq_nil_of_le (Nat.not_lt.mp hlt))
    rw [if_pos hlen, sscanf, h, Option.getD_some]

section FirstLine

variable {data : CString} {header p q s : Bytes}
  (hchars : data.chars = p ++ (header ++ (q ++ (crlf ++ s))))
  (hfirst : indexOf? header data.chars = some p.length) (hcr : 13 ∉ header) (hq : 13 ∉ q)

include hchars

private theorem drop_first :
    data.chars.drop p.length = header ++ (q ++ (crlf ++ s)) := by
  rw [hchars, List.drop_left]

include hcr hq in
private theorem indexOf?_crlf_first :
    indexOf? crlf (data.chars.drop p.length) = some (header.length + q.length) := by
  have hfound := indexOf?_of_append (w := [10]) (q := s) (p := header ++ q) (c := 13)
    (by simp only [List.mem_append, hcr, hq, or_self, not_false_eq_true])
  rw [List.length_append] at hfound
  rw [drop_first hchars, ← hfound, List.append_assoc]
  rfl

include hfirst hcr hq

/-- The Asio lookup starts two behind the name, wherever the name stands. -/
theorem CppAsio.getHeaderValue_first (slot : Int) :
    CppAsio.getHeaderValue slot data header =
      .ok (if 2 < q.length then sscanf (q.drop 2) slot else 0) := by
  rw [CppAsio.getHeaderValue_of_found slot hfirst (indexOf?_crlf_first hchars hcr hq)]
  congr 1
  apply if_congr (by omega) _ rfl
  have hcount : header.length + q.length - (header.length + 2) = q.length - 2 := by omega
  rw [hcount, ← List.drop_drop, drop_first hchars, ← List.drop_drop, List.drop_left]
  congr 1
  by_cases hlen : 2 ≤ q.length
  · rw [List.drop_append_of_le_length hlen]
    apply List.take_left'
    rw [List.length_drop]
  · have hzero : q.length - 2 = 0 := by omega
    rw [hzero, List.take_zero, List.drop_eq_nil_of_le (by omega)]

/-- The C lookup starts two behind the first colon on the rest of the line. -/
theorem CBsd.getHeaderValue_first (slot : Int) {a v : Bytes} (hsplit : q = a ++ 58 :: v)
    (hcolon : 58 ∉ header) (ha : 58 ∉ a) :
    CBsd.getHeaderValue slot data header = .ok (lineValue slot v) := by
  have hc : indexOf? (ascii ":") (data.chars.drop p.length) = some (header.length + a.length) := by
    have hfound := indexOf?_of_append (w := []) (q := v ++ (crlf ++ s)) (p := header ++ a)
      (c := 58) (by simp only [List.mem_append, hcolon, ha, or_self, not_false_eq_true])
    rw [List.length_append] at hfound
    rw [drop_first hchars, ← hfound, hsplit]
    simp [ascii]
    rfl
  rw [CBsd.getHeaderValue_of_found slot hfirst hc (indexOf?_crlf_first hchars hcr hq), lineValue]
  have hlen : q.length = a.length + (v.length + 1) := by
    rw [hsplit, List.length_append, List.length_cons]
  congr 1
  apply if_congr (by omega) _ rfl
  have hcount : header.length + q.length - (header.length + a.length + 2) = v.length - 1 := by
    omega
  have hstart : p.length + (header.length + a.length + 2) =
      p.length + (header.length + (a.length + 2)) := by omega
  rw [hcount, hstart, ← List.drop_drop, drop_first hchars, ← List.drop_drop, List.drop_left,
    hsplit, List.append_assoc, ← List.drop_drop, List.drop_left]
  congr 1
  cases v with
  | nil => rfl
  | cons b v => simp

end FirstLine

/-- A text with a colon is no number. -/
theorem parseU64?_of_colon {s : Bytes} (h : 58 ∈ s) : parseU64? s = none := by
  simp only [parseU64?]
  rw [if_neg]
  rintro ⟨-, hall, -⟩
  have hcolon : 58 ∈ if s.head? = some 43 then s.drop 1 else s := by
    split
    · next hplus =>
      obtain ⟨t, rfl⟩ := List.head?_eq_some_iff.mp hplus
      exact (List.mem_cons.mp h).resolve_left (by decide)
    · exact h
  have hdigit := List.all_eq_true.mp hall 58 hcolon
  cases hdigit

/-- The Rust lookup starts two behind the name, wherever the name stands. Where less than two
bytes of the line are left, it reads on in the next line, which must be no number then. -/
theorem Rust.getHeader_first {data header p q s : Bytes}
    (hdata : data = p ++ (header ++ (q ++ (crlf ++ s)))) (hd : IsAscii data) (hh : IsAscii header)
    (hfirst : indexOf? header data = some p.length) (hq : 13 ∉ q)
    (hnext : q = [] → ∀ e, indexOf? crlf s = some e → parseU64? (s.take e) = none) :
    Rust.getHeader data header = .ok ((parseU64? (q.drop 2)).getD 0) := by
  have hin : p.length + header.length + 2 ≤ data.length := by
    have hcrlf : crlf.length = 2 := rfl
    rw [hdata]
    simp only [List.length_append, hcrlf]
    omega
  have hdrop : data.drop (p.length + header.length + 2) = (q ++ (crlf ++ s)).drop 2 := by
    rw [hdata, ← List.drop_drop, ← List.drop_drop, List.drop_left, List.drop_left]
  rw [Rust.getHeader_of_some hd hh hfirst hin, hdrop]
  apply congrArg Except.ok
  by_cases hlen : 2 ≤ q.length
  · rw [List.drop_append_of_le_length hlen,
      lineNumber_line s fun hm ↦ hq (List.mem_of_mem_drop hm)]
  · -- The slice starts in the line end or behind it.
    rw [List.drop_eq_nil_of_le (by omega : q.length ≤ 2)]
    cases q with
    | nil =>
      change lineNumber s = 0
      cases he : indexOf? crlf s with
      | none => exact lineNumber_of_none he
      | some e => rw [lineNumber_of_some he, hnext rfl e he, Option.getD_none]
    | cons b q =>
      obtain rfl : q = [] := by
        rw [List.length_cons] at hlen
        exact List.length_eq_zero_iff.mp (by omega)
      change lineNumber (10 :: s) = 0
      cases he : indexOf? crlf (10 :: s) with
      | none => exact lineNumber_of_none he
      | some e =>
        rw [lineNumber_of_some he]
        cases e with
        | zero => rfl
        | succ e =>
          rw [List.take_succ_cons, parseU64?_of_head _ (by decide) (by decide), Option.getD_none]

namespace HeaderRequest

/-- The name stands for the first time in this line, with `p` in front of it and `q` behind it
on the line. -/
structure FirstOccurrence (r : HeaderRequest) (before : List Bytes) (p q : Bytes)
    (after : List Bytes) : Prop where
  lines : r.lines = before ++ (p ++ (delayName ++ q)) :: after
  before : ∀ line ∈ before, ¬ delayName <:+: line
  first : indexOf? delayName (p ++ (delayName ++ q)) = some p.length

variable {r : HeaderRequest} {before after : List Bytes} {p q : Bytes}

/-- The text around the first occurrence. -/
theorem FirstOccurrence.text (h : r.FirstOccurrence before p q after) :
    r.text = unlines before ++ p ++
      (delayName ++ (q ++ (crlf ++ (unlines after ++ r.ending)))) := by
  rw [HeaderRequest.text, h.lines, unlines_append, unlines_cons]
  simp only [List.append_assoc]

/-- The search finds the first occurrence, whatever follows the text. -/
theorem FirstOccurrence.indexOf? (h : r.FirstOccurrence before p q after) (more : Bytes) :
    indexOf? delayName (r.text ++ more) = some (unlines before ++ p).length := by
  have hline : Base.indexOf? delayName
      (p ++ (delayName ++ q) ++ (crlf ++ (unlines after ++ r.ending))) = some p.length :=
    indexOf?_append_left _ h.first
  have hfound := indexOf?_unlines_append
    (p ++ (delayName ++ q) ++ (crlf ++ (unlines after ++ r.ending)))
    (by decide) (by decide) (by decide) h.before
  have htext : r.text =
      unlines before ++ (p ++ (delayName ++ q) ++ (crlf ++ (unlines after ++ r.ending))) := by
    rw [h.text]
    simp only [List.append_assoc]
  apply indexOf?_append_left
  rw [htext, hfound, hline, List.length_append, Nat.add_comm]
  rfl

/-- The line of the first occurrence ends behind it. -/
theorem FirstOccurrence.not_mem (h : r.FirstOccurrence before p q after) : 13 ∉ q := by
  have hline : p ++ (delayName ++ q) ∈ r.lines := by
    rw [h.lines]
    exact List.mem_append_right _ List.mem_cons_self
  intro hq
  exact (r.not_mem_line hline).1 (List.mem_append_right _ (List.mem_append_right _ hq))

/-- Every line behind another one is a header line, with a colon. -/
theorem FirstOccurrence.colon_mem (h : r.FirstOccurrence before p q after) {line : Bytes}
    (hline : line ∈ after) : 58 ∈ line ∧ 13 ∉ line := by
  have hheader : line ∈ r.headers.map HeaderLine.bytes := by
    have hlines := h.lines
    rw [HeaderRequest.lines] at hlines
    cases before with
    | nil =>
      obtain ⟨-, hafter⟩ := List.cons.inj hlines
      rw [hafter]
      exact hline
    | cons first before =>
      obtain ⟨-, hafter⟩ := List.cons.inj hlines
      rw [hafter]
      exact List.mem_append_right _ (List.mem_cons_of_mem _ hline)
  obtain ⟨header, -, rfl⟩ := List.mem_map.mp hheader
  exact ⟨header.colon_mem, (r.not_mem_line (List.mem_cons_of_mem _ hheader)).1⟩

section Strings

variable (h : r.FirstOccurrence before p q after) {data : CString} {more : Bytes}
  (hchars : data.chars = r.text ++ more)

include h hchars

private theorem chars_eq : data.chars = unlines before ++ p ++
    (delayName ++ (q ++ (crlf ++ (unlines after ++ r.ending ++ more)))) := by
  rw [hchars, h.text]
  simp only [List.append_assoc]

private theorem indexOf?_chars :
    Base.indexOf? delayName data.chars = some (unlines before ++ p).length := by
  rw [hchars]
  exact h.indexOf? more

end Strings

/-- Behind an occurrence that ends its line there is no number at the start of a line. -/
theorem FirstOccurrence.next_parse (h : r.FirstOccurrence before p q after) (n : Nat) {e : Nat}
    (he : Base.indexOf? crlf (unlines after ++ r.ending ++ List.replicate n 0) = some e) :
    parseU64? ((unlines after ++ r.ending ++ List.replicate n 0).take e) = none := by
  cases after with
  | nil =>
    rw [unlines_nil, List.nil_append] at he ⊢
    rcases r.ending_eq with hending | hending
    · rw [hending, List.nil_append, indexOf?_eq_none_iff.mpr] at he
      · cases he
      · intro hin
        have hcr := List.eq_of_mem_replicate (hin.subset (show (13 : UInt8) ∈ crlf by decide))
        cases hcr
    · rw [hending, indexOf?_of_isPrefix (List.prefix_append _ _)] at he
      cases he
      rfl
  | cons next rest =>
    obtain ⟨hcolon, hcr⟩ := h.colon_mem List.mem_cons_self
    have hfound := indexOf?_of_append (w := [10]) (p := next) (c := 13)
      (q := unlines rest ++ r.ending ++ List.replicate n 0) hcr
    have hsplit : unlines (next :: rest) ++ r.ending ++ List.replicate n 0 =
        next ++ (crlf ++ (unlines rest ++ r.ending ++ List.replicate n 0)) := by
      rw [unlines_cons]
      simp only [List.append_assoc]
    rw [hsplit] at he ⊢
    cases Option.some.inj (he.symm.trans hfound)
    rw [List.take_left]
    exact parseU64?_of_colon hcolon

/-- The text in the buffer of the Asio server. -/
theorem chars_cppAsio (data : Buffer (1024 + 200)) (h : (r.text.take 1024).length ≤ 1024 + 200) :
    (data.string (r.text.take 1024) h).chars = r.text ++ [] := by
  have hlen := r.length_text_le
  rw [data.chars_string_take r.nulFree (by omega), List.append_nil]

/-- The Asio server starts two behind the first occurrence. -/
theorem FirstOccurrence.cppAsio (h : r.FirstOccurrence before p q after) {d : Int}
    (hd : Scans (q.drop 2) d) (data : Buffer (1024 + 200)) (slot : Int) :
    CppAsio.receivedDelay data slot r.text = .ok d := by
  have hchars := chars_cppAsio (r := r) data (by
    rw [List.length_take]
    omega)
  have hvalue := CppAsio.getHeaderValue_first (chars_eq h hchars) (indexOf?_chars h hchars)
    (by decide) h.not_mem slot
  rw [hd.skipped] at hvalue
  exact hvalue

/-- The Rust server starts two behind the first occurrence. -/
theorem FirstOccurrence.rust (h : r.FirstOccurrence before p q after) (reads : List Rust.Read) :
    Rust.readRequest (.ok r.text :: reads) =
      .ok (some (.ok ((parseU64? (q.drop 2)).getD 0), reads)) := by
  have hlen := r.length_text_le
  apply Rust.readRequest_of_getHeader r.get_text r.isAscii (by omega)
  · intro i hi
    have hend := r.add_le_of_indexOf? (by decide) (by decide) (by decide) hi
    omega
  · apply Rust.getHeader_first (p := unlines before ++ p)
      (s := unlines after ++ r.ending ++ List.replicate (1024 - r.text.length) 0)
    · rw [h.text]
      simp only [List.append_assoc]
    · exact isAscii_append_zeros _ r.isAscii
    · decide
    · exact h.indexOf? _
    · exact h.not_mem
    · intro _ e he
      exact h.next_parse _ he

end HeaderRequest

/-! ### The first match -/

namespace HeaderRequest

variable (r : HeaderRequest)

end HeaderRequest

namespace HeaderRequest

variable (r : HeaderRequest)

/-- The line `Delay: 7`. -/
def delayLine : HeaderLine := ⟨delayName, ascii "7", by decide, by decide, by decide⟩

end HeaderRequest

end Esp32WebServers
