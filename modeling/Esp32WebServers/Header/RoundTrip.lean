import Esp32WebServers.Base.Template
import Esp32WebServers.Header.Fragments

/-!
# The delay of the benchmark client in every server

`MESSAGE_DELAY` of `benchmark/iot_benchmark.py:54` writes an integer as a canonical
numeral behind `Delay: `. Five of the servers read it back from one read, inside any
surrounding headers, as far as a delay is concerned: a positive number exactly, any other as
no delay. The Netconn server parses only the first fragment of what one `netconn_recv` returns
(`web_server/c_netconn/main/tcp_server.c:133–135`); this module says how much of the line that
fragment has to hold.
-/

namespace Esp32WebServers

open Base

namespace Benchmark

/-- `MESSAGE_DELAY`, `benchmark/iot_benchmark.py:54`. -/
def messageDelay : Bytes :=
  ascii "GET / HTTP/1.1\r\nHost: performance.benchmark\r\nDelay: \x7b\x7d\r\n"

/-- `MESSAGE_DELAY.format(delay)`, `benchmark/iot_benchmark.py:99`. -/
def message (delay : Int) : Bytes := fill 123 125 messageDelay [decimalInt delay]

end Benchmark

/-- The parsed value makes the server wait as the requested delay says: as long where that
is positive, and not at all where it is not. -/
def SameDelay (requested parsed : Int) : Prop :=
  (0 < requested → parsed = requested) ∧ (requested ≤ 0 → parsed ≤ 0)

/-- A canonical `Delay` header between other headers. -/
def delayText (front : Bytes) (d : Int) (rest : Bytes) : Bytes :=
  front ++ (ascii "Delay: " ++ (decimalInt d ++ (crlf ++ rest)))

/-- The lines of the client's message in front of the delay. -/
def Benchmark.requestLines : Bytes := ascii "GET / HTTP/1.1\r\nHost: performance.benchmark\r\n"

/-- The client's message is a canonical header behind the request line and `Host`. -/
theorem Benchmark.message_eq (delay : Int) : message delay = delayText requestLines delay [] := by
  have hsplit : messageDelay =
      ascii "GET / HTTP/1.1\r\nHost: performance.benchmark\r\nDelay: " ++ 123 :: 125 :: crlf := by
    decide
  have hfront : ascii "GET / HTTP/1.1\r\nHost: performance.benchmark\r\nDelay: " =
      requestLines ++ ascii "Delay: " := by
    decide
  rw [message, hsplit, fill_append _ _ _ (by decide), fill_of_notMem _ (by decide), hfront,
    List.append_assoc]
  rfl

private theorem mem_decimalInt {d : Int} {b : UInt8} (h : b ∈ decimalInt d) :
    isDigit b = true ∨ b = 45 := by
  cases d with
  | ofNat n => exact .inl (isDigit_of_mem_decimal h)
  | negSucc n =>
    rcases List.mem_cons.mp h with rfl | hb
    · exact .inr rfl
    · exact .inl (isDigit_of_mem_decimal hb)

/-- A delay is written without the bytes that stand for no digit and no sign. -/
theorem notMem_decimalInt (d : Int) {b : UInt8} (hd : isDigit b = false) (hb : b ≠ 45) :
    b ∉ decimalInt d := by
  intro hm
  rcases mem_decimalInt hm with h | h
  · rw [hd] at h
    cases h
  · exact hb h

/-- A delay is written with at least one character. -/
theorem decimalInt_ne_nil (d : Int) : decimalInt d ≠ [] := by
  cases d with
  | ofNat n => exact decimal_ne_nil n
  | negSucc n => simp [decimalInt]

/-- A name that neither part holds occurs once around a canonical header: in its line. -/
theorem delayText_only {front rest : Bytes} (d : Int) (hend : crlf <:+ front)
    (hfront : ¬ delayName <:+: front) (hrest : ¬ delayName <:+: rest) :
    OccursOnlyAt delayName (delayText front d rest) front.length := by
  obtain ⟨p, rfl⟩ := hend
  apply occursOnlyAt_of_not_infix
  · -- The line end of the front part separates it from the line.
    have hsplit : delayText (p ++ crlf) d rest = (p ++ [13]) ++
        10 :: (delayName ++ (ascii ": " ++ (decimalInt d ++ (crlf ++ rest)))) := by
      simp [delayText, crlf, delayName, ascii]
    have hp : ¬ delayName <:+: p ++ [13] := by
      intro h
      exact hfront (h.trans ⟨[], [10], by simp [crlf]⟩)
    rw [hsplit, indexOf?_append_cons (by decide) hp,
      indexOf?_of_isPrefix (List.prefix_append _ _)]
    simp [crlf]
  · -- Behind its first byte, the colon and the line end separate what is left.
    have hdrop : (delayText (p ++ crlf) d rest).drop ((p ++ crlf).length + 1) =
        ascii "elay" ++ 58 :: (32 :: decimalInt d ++ 13 :: ([] ++ 10 :: rest)) := by
      rw [delayText, ← List.drop_drop, List.drop_left]
      rfl
    rw [hdrop, infix_append_cons_iff (by decide), infix_append_cons_iff (by decide),
      infix_append_cons_iff (by decide)]
    rintro (h | h | h | h)
    · exact absurd h (by decide)
    · have hmem := h.subset (show (68 : UInt8) ∈ delayName by decide)
      rcases List.mem_cons.mp hmem with heq | hin
      · cases heq
      · exact notMem_decimalInt d rfl (by decide) hin
    · exact absurd h (by decide)
    · exact hrest h

/-- A request of at most 1000 ASCII bytes without NUL with a canonical `Delay` header behind a
line end, and the name nowhere else. -/
structure IsCanonical (front : Bytes) (d : Int) (rest : Bytes) : Prop where
  length_le : (delayText front d rest).length ≤ 1000
  isAscii : IsAscii (delayText front d rest)
  nulFree : NulFree (delayText front d rest)
  get : ascii "GET" <+: front
  lineEnd : crlf <:+ front
  not_front : ¬ delayName <:+: front
  not_rest : ¬ delayName <:+: rest

/-- The client's message is such a request, with at most 65 bytes. -/
theorem Benchmark.isCanonical_message {d : Int} (hl : -2 ^ 31 ≤ d) (hu : d < 2 ^ 31) :
    IsCanonical requestLines d [] ∧ (delayText requestLines d []).length ≤ 65 := by
  have hdelay := length_decimalInt_le hl hu
  have hlines : requestLines.length = 45 := by decide
  have hname : (ascii "Delay: ").length = 7 := by decide
  have hlen : (delayText requestLines d []).length ≤ 65 := by
    simp only [delayText, List.length_append, hlines, hname, crlf, List.length_cons,
      List.length_nil]
    omega
  refine ⟨⟨hlen.trans (by decide), ?_, ?_, by decide, by decide, by decide, by decide⟩, hlen⟩
  · simp only [delayText, isAscii_append]
    exact ⟨by decide, by decide, isAscii_decimalInt d, by decide, by decide⟩
  · simp only [delayText, nulFree_append]
    exact ⟨by decide, by decide, nulFree_decimalInt d, by decide, by decide⟩

/-- A request with a canonical header, as a request with one `Delay` line. -/
def DelayRequest.ofCanonical {front rest : Bytes} {d : Int} (h : IsCanonical front d rest) :
    DelayRequest where
  front := front
  value := 32 :: decimalInt d
  rest := rest
  text := delayText front d rest
  text_eq := rfl
  get := h.get.trans (List.prefix_append _ _)
  only := delayText_only d h.lineEnd h.not_front h.not_rest
  isAscii := h.isAscii
  nulFree := h.nulFree
  length_le := h.length_le
  value_ne := List.cons_ne_nil _ _
  value_line := by
    rw [List.mem_cons, not_or]
    exact ⟨by decide, notMem_decimalInt d rfl (by decide)⟩

/-- The C scan reads a canonical value back. -/
theorem lineValue_decimalInt (slot : Int) {d : Int} (hl : -2 ^ 31 ≤ d) (hu : d < 2 ^ 31) :
    lineValue slot (32 :: decimalInt d) = d := by
  have hlen := List.length_pos_iff.mpr (decimalInt_ne_nil d)
  rw [lineValue, if_pos (by rw [List.length_cons]; omega), List.drop_one, List.tail_cons, sscanf,
    scanNumber?_decimalInt hl hu, Option.getD_some]

/-- The unsigned parse reads a natural number back and takes a negative one for none. -/
theorem parseU64?_decimalInt {d : Int} (hu : d < 2 ^ 31) :
    parseU64? (decimalInt d) = if 0 ≤ d then some d.toNat else none := by
  cases d with
  | ofNat n =>
    rw [Int.ofNat_eq_natCast] at hu
    have h := parseU64?_digits (decimal_ne_nil n) (fun b hb ↦ isDigit_of_mem_decimal hb)
      (by rw [digitsValue_decimal]; omega)
    rw [digitsValue_decimal] at h
    exact h
  | negSucc n => exact parseU64?_of_head _ rfl (by decide)

/-- The patterns capture a natural number and do not match a negative one. -/
theorem matchHere_decimalInt (d : Int) (s : Bytes) :
    matchHere valuePattern (32 :: decimalInt d ++ (crlf ++ s)) =
      if 0 ≤ d then some [decimal d.toNat] else none := by
  cases d with
  | ofNat n => exact matchHere_spaces_digits 1 s fun b hb ↦ isDigit_of_mem_decimal hb
  | negSucc n => exact matchHere_minus _

private theorem sameDelay_self (d : Int) : SameDelay d d := ⟨fun _ ↦ rfl, id⟩

private theorem sameDelay_toNat {d : Int} (h : 0 ≤ d) : SameDelay d d.toNat := by
  rw [Int.toNat_of_nonneg h]
  exact sameDelay_self d

private theorem sameDelay_zero {d : Int} (h : ¬ 0 ≤ d) : SameDelay d (0 : Nat) := by
  constructor
  · intro hpos
    exact absurd hpos.le h
  · intro _
    exact le_refl _

/-- One read delivers the bytes of a netbuf, to the Netconn server in its fragments. Every server
parses them without a fault or a panic and waits as the delay says, whatever its buffers and
stack slots held, and whatever lies behind the first fragment. -/
structure RoundTrips (d : Int) (inbuf : CNetconn.Netbuf) : Prop where
  cBsd : ∀ recvBuf slot, ∃ v, CBsd.receivedDelay recvBuf slot inbuf.bytes = .ok v ∧ SameDelay d v
  cNetconn : ∀ slot recvBuf, CNetconn.Payload.fragment recvBuf = inbuf.first →
    ∃ v, CNetconn.receivedDelay slot recvBuf = .ok v ∧ SameDelay d v
  cppAsio : ∀ data slot, ∃ v, CppAsio.receivedDelay data slot inbuf.bytes = .ok v ∧ SameDelay d v
  rust : ∀ reads, ∃ v : Nat, Rust.readRequest (.ok inbuf.bytes :: reads) =
    .ok (some (.ok v, reads)) ∧ SameDelay d v
  python : ∃ v : Nat, Python.readRequest inbuf.bytes = .ok v ∧ SameDelay d v
  lua : ∃ v : Nat, Lua.parsedDelay? inbuf.bytes = some v ∧ SameDelay d v

/-! ### The first fragment of the Netconn server -/

namespace CNetconn

/-- How many bytes of the line `Delay: d` the first fragment has to hold: all of them with the
line end for a positive delay, and otherwise two behind the space, a sign and a digit or a zero
and the carriage return. -/
def needed (d : Int) : Nat := if 0 < d then 7 + (decimalInt d).length + 2 else 9

/-- Behind a name with a colon and a space, the number is scanned up to the next line end. -/
theorem getHeaderValue_behind {data : CString} {front w : Bytes} (slot : Int)
    (hchars : data.chars = front ++ (ascii "Delay: " ++ w))
    (hfirst : indexOf? delayName data.chars = some front.length) :
    getHeaderValue slot data delayName = .ok (((indexOf? crlf w).map fun k ↦
      if 0 < k then sscanf (w.take k) slot else 0).getD 0) := by
  have hdrop : data.chars.drop front.length = ascii "Delay: " ++ w := by
    rw [hchars, List.drop_left]
  have hcolon : indexOf? (ascii ":") (data.chars.drop front.length) = some 5 := by
    rw [hdrop]
    exact indexOf?_append_left w (by decide)
  have hend : indexOf? crlf (data.chars.drop front.length) = (indexOf? crlf w).map (· + 7) := by
    rw [hdrop]
    exact indexOf?_append_of_head_notMem (by decide)
  change CBsd.getHeaderValue slot data delayName = _
  cases hk : indexOf? crlf w with
  | none =>
    rw [hk] at hend
    exact CBsd.getHeaderValue_of_no_crlf slot hfirst hend
  | some k =>
    rw [hk] at hend
    have hvalue : data.chars.drop (front.length + (5 + 2)) = w := by
      rw [← List.drop_drop, hdrop]
      rfl
    rw [CBsd.getHeaderValue_of_found slot hfirst hcolon hend, hvalue]
    simp only [Option.map_some, Option.getD_some, Nat.add_sub_cancel, Nat.reduceAdd,
      Nat.lt_add_left_iff_pos]

/-- A number in front of a line end is scanned whole. -/
theorem getHeaderValue_number {data : CString} {front v rest : Bytes} (slot : Int)
    (hchars : data.chars = front ++ (ascii "Delay: " ++ (v ++ (crlf ++ rest))))
    (hfirst : indexOf? delayName data.chars = some front.length) (hv : 13 ∉ v) (hne : v ≠ []) :
    getHeaderValue slot data delayName = .ok (sscanf v slot) := by
  have hend : indexOf? crlf (v ++ (crlf ++ rest)) = some v.length := indexOf?_of_append hv
  rw [getHeaderValue_behind slot hchars hfirst, hend, Option.map_some, Option.getD_some,
    if_pos (List.length_pos_iff.mpr hne), List.take_left]

/-- The two bytes with which the number of a delay that is not positive begins, the line end
included: a minus sign and a digit, or a zero and the carriage return. -/
inductive NotPositive : UInt8 → UInt8 → Prop where
  | negative {b : UInt8} (hb : isDigit b = true) : NotPositive 45 b
  | zero : NotPositive 48 13

/-- The line of a delay that is not positive begins so. -/
theorem exists_notPositive {d : Int} (hd : d ≤ 0) (rest : Bytes) :
    ∃ a b t, decimalInt d ++ (crlf ++ rest) = a :: b :: t ∧ NotPositive a b := by
  cases d with
  | ofNat n =>
    rw [Int.ofNat_eq_natCast] at hd
    obtain rfl : n = 0 := by omega
    exact ⟨48, 13, 10 :: rest, rfl, .zero⟩
  | negSucc n =>
    obtain ⟨b, ds, hds⟩ := List.exists_cons_of_ne_nil (decimal_ne_nil (n + 1))
    refine ⟨45, b, ds ++ (crlf ++ rest), ?_, .negative ?_⟩
    · rw [decimalInt, hds]
      rfl
    · exact isDigit_of_mem_decimal (hds ▸ List.mem_cons_self)

/-- Whatever follows the two bytes, the number up to the next line end is not positive. -/
theorem NotPositive.sscanf_le {a b : UInt8} (h : NotPositive a b) (u : Bytes) (slot : Int) {k : Nat}
    (hk : indexOf? crlf (a :: b :: u) = some k) : sscanf ((a :: b :: u).take k) slot ≤ 0 := by
  have hcrlf := (indexOf?_eq_some_iff.mp hk).1
  cases h with
  | zero =>
    cases k with
    | zero => exact absurd (List.cons_prefix_cons.mp hcrlf).1 (by decide)
    | succ k =>
      have hstop : ∀ b ∈ ((13 :: u).take k).head?, isDigit b = false := by
        cases k with
        | zero =>
          intro b hb
          cases hb
        | succ k =>
          rintro b ⟨⟩
          rfl
      have hscan : scanNumber? (48 :: (13 :: u).take k) = some 0 :=
        @scanNumber?_zeros [] [] [48] _ (List.forall_mem_nil _) (.inl rfl) (List.cons_ne_nil _ _)
          (by simp) hstop
      rw [List.take_succ_cons, sscanf, hscan]
      exact le_refl 0
  | negative hb =>
    -- Neither of the two bytes begins a line end.
    obtain ⟨k, rfl⟩ : ∃ j, k = j + 2 := by
      refine Nat.exists_eq_add_of_le' ?_
      by_contra hlt
      rcases show k = 0 ∨ k = 1 by omega with rfl | rfl
      · exact absurd (List.cons_prefix_cons.mp hcrlf).1 (by decide)
      · rw [← (List.cons_prefix_cons.mp hcrlf).1] at hb
        cases hb
    have hne : (b :: u.take k).takeWhile isDigit ≠ [] := by
      rw [List.takeWhile_cons_of_pos hb]
      exact List.cons_ne_nil _ _
    have hscan : scanNumber? (45 :: b :: u.take k) =
        some (saturate (-(digitsValue ((b :: u.take k).takeWhile isDigit) : Int))) := by
      have hskip : (45 :: b :: u.take k).dropWhile isSpace = 45 :: b :: u.take k := rfl
      have hsign : splitSign (45 :: b :: u.take k) = (true, b :: u.take k) := rfl
      simp only [scanNumber?, hskip, hsign, hne, ite_false, ite_true]
    rw [List.take_succ_cons, List.take_succ_cons, sscanf, hscan, Option.getD_some, saturate]
    omega

/-- Behind the first byte of such a number, one that makes the scan positive, or makes it fail and
leave what the target held. -/
theorem exists_misleading {d : Int} (hd : d ≤ 0) :
    ∃ a t x, decimalInt d = a :: t ∧ a ≠ 0 ∧ x ≠ 0 ∧ 13 ∉ [a, x] ∧ 0 < sscanf [a, x] 1 := by
  cases d with
  | ofNat n =>
    rw [Int.ofNat_eq_natCast] at hd
    obtain rfl : n = 0 := by omega
    exact ⟨48, [], 55, rfl, by decide, by decide, by decide, by decide⟩
  | negSucc n =>
    exact ⟨45, decimal (n + 1), 120, rfl, by decide, by decide, by decide, by decide⟩

section Canonical

variable {front rest : Bytes} {d : Int} {inbuf : Netbuf} (h : IsCanonical front d rest)
  (hbytes : inbuf.bytes = delayText front d rest)

include h hbytes

private theorem nulFree_first : NulFree inbuf.first := by
  have hnul := h.nulFree
  rw [← hbytes, Netbuf.bytes, nulFree_append] at hnul
  exact hnul.1

private theorem eq_of_name {i : Nat} (hi : indexOf? delayName inbuf.first = some i) :
    i = front.length := by
  have honly := (delayText_only d h.lineEnd h.not_front h.not_rest).indexOf?
  rw [← hbytes, Netbuf.bytes, indexOf?_append_left _ hi] at honly
  exact Option.some.inj honly

private theorem name_of_le (more : Bytes) (hle : front.length + 5 ≤ inbuf.first.length) :
    indexOf? delayName (inbuf.first ++ more) = some front.length := by
  have honly := (delayText_only d h.lineEnd h.not_front h.not_rest).indexOf?
  rw [← hbytes, Netbuf.bytes] at honly
  exact indexOf?_append_left _ (indexOf?_of_append_left honly hle)

omit h in
private theorem exists_first_eq {p q : Bytes} (htext : delayText front d rest = p ++ q)
    (hle : p.length ≤ inbuf.first.length) : ∃ t, inbuf.first = p ++ t := by
  have hfirst : inbuf.first <+: delayText front d rest := ⟨inbuf.rest.flatten, hbytes⟩
  obtain ⟨t, ht⟩ := List.prefix_of_prefix_length_le ⟨q, htext.symm⟩ hfirst hle
  exact ⟨t, ht.symm⟩

/-- A first fragment that reaches far enough into the line gives the delay, whatever follows. -/
theorem sameDelay_of_reaches (hl : -2 ^ 31 ≤ d) (hu : d < 2 ^ 31)
    (hle : front.length + needed d ≤ inbuf.first.length) (slot : Int) {recvBuf : Payload}
    (hfragment : recvBuf.fragment = inbuf.first) :
    ∃ v, receivedDelay slot recvBuf = .ok v ∧ SameDelay d v := by
  have hname : (ascii "Delay: ").length = 7 := by decide
  have hchars : recvBuf.string.chars = inbuf.first ++ upToNul recvBuf.behind := by
    rw [Payload.chars_string (by rw [hfragment]; exact nulFree_first h hbytes), hfragment]
  by_cases hd : 0 < d
  · rw [needed, if_pos hd] at hle
    obtain ⟨t, ht⟩ := exists_first_eq (p := front ++ (ascii "Delay: " ++ (decimalInt d ++ crlf)))
      (q := rest) hbytes (by simp only [delayText, List.append_assoc]) (by
        simp only [List.length_append, hname, crlf, List.length_cons, List.length_nil]
        omega)
    have hshape : recvBuf.string.chars = front ++ (ascii "Delay: " ++
        (decimalInt d ++ (crlf ++ (t ++ upToNul recvBuf.behind)))) := by
      rw [hchars, ht]
      simp only [List.append_assoc]
    have hvalue := getHeaderValue_number slot hshape
      (by rw [hchars]; exact name_of_le h hbytes _ (by omega))
      (notMem_decimalInt d rfl (by decide)) (decimalInt_ne_nil d)
    rw [sscanf, scanNumber?_decimalInt hl hu, Option.getD_some] at hvalue
    exact ⟨d, hvalue, sameDelay_self d⟩
  · rw [needed, if_neg hd] at hle
    obtain ⟨a, b, u, hline, hab⟩ := exists_notPositive (not_lt.mp hd) rest
    obtain ⟨t, ht⟩ := exists_first_eq (p := front ++ (ascii "Delay: " ++ [a, b])) (q := u) hbytes
      (by rw [delayText, hline]; simp only [List.append_assoc, List.cons_append, List.nil_append])
      (by
        simp only [List.length_append, hname, List.length_cons, List.length_nil]
        omega)
    have hshape : recvBuf.string.chars = front ++ (ascii "Delay: " ++
        (a :: b :: (t ++ upToNul recvBuf.behind))) := by
      rw [hchars, ht]
      simp only [List.append_assoc, List.cons_append, List.nil_append]
    have hvalue := getHeaderValue_behind slot hshape
      (by rw [hchars]; exact name_of_le h hbytes _ (by omega))
    refine ⟨_, hvalue, fun hpos ↦ absurd hpos hd, fun _ ↦ ?_⟩
    cases hk : indexOf? crlf (a :: b :: (t ++ upToNul recvBuf.behind)) with
    | none => exact le_refl 0
    | some k =>
      simp only [Option.map_some, Option.getD_some]
      split
      · exact hab.sscanf_le _ slot hk
      · exact le_refl 0

/-- A positive delay whose line does not end in the first fragment is lost where zeros follow. -/
theorem receivedDelay_of_positive (hd : 0 < d)
    (hlt : inbuf.first.length < front.length + needed d) :
    receivedDelay 1 (inbuf.payload [] (by decide)) = .ok 0 := by
  have hchars : (inbuf.payload [] (by decide)).string.chars = inbuf.first := by
    rw [inbuf.chars_payload _ (nulFree_first h hbytes) (List.forall_mem_nil _), List.append_nil]
  cases hi : indexOf? delayName inbuf.first with
  | none => exact CBsd.getHeaderValue_of_none 1 (by rw [hchars]; exact hi)
  | some i =>
    obtain rfl := eq_of_name h hbytes hi
    apply CBsd.getHeaderValue_of_no_crlf 1 (by rw [hchars]; exact hi)
    rw [hchars, indexOf?_eq_none_iff]
    -- What is left of the line has no line feed.
    have hline : inbuf.first <+: front ++ (ascii "Delay: " ++ (decimalInt d ++ [13])) := by
      refine List.prefix_of_prefix_length_le ⟨inbuf.rest.flatten, hbytes⟩ ⟨10 :: rest, ?_⟩ ?_
      · simp only [delayText, crlf, List.append_assoc, List.cons_append, List.nil_append]
      · have hname : (ascii "Delay: ").length = 7 := by decide
        rw [needed, if_pos hd] at hlt
        simp only [List.length_append, hname, List.length_cons, List.length_nil]
        omega
    obtain ⟨t, ht⟩ := hline
    have hdrop := congrArg (List.drop front.length) ht
    have hbound := indexOf?_add_length_le hi
    rw [List.drop_left, List.drop_append_of_le_length (by omega)] at hdrop
    intro hin
    have hmem : (10 : UInt8) ∈ ascii "Delay: " ++ (decimalInt d ++ [13]) := by
      rw [← hdrop]
      exact List.mem_append_left _ (hin.subset (by decide))
    simp only [List.mem_append] at hmem
    rcases hmem with hmem | hmem | hmem
    · exact absurd hmem (by decide)
    · exact notMem_decimalInt d rfl (by decide) hmem
    · exact absurd hmem (by decide)

/-- Behind a first fragment that ends before the second byte of a number that is not positive,
some bytes make a positive one, or no number, which leaves the stack slot. -/
theorem exists_positive_of_short (hd : d ≤ 0)
    (hlt : inbuf.first.length < front.length + needed d) :
    ∃ behind, ∃ hlen : behind.length ≤ 10, ∃ v : Int,
      receivedDelay 1 (inbuf.payload behind hlen) = .ok v ∧ 0 < v := by
  have hnul := nulFree_first h hbytes
  rw [needed, if_neg (not_lt.mpr hd)] at hlt
  cases hi : indexOf? delayName inbuf.first with
  | none =>
    refine ⟨ascii "Delay: 7\r\n", by decide, 7, ?_, by decide⟩
    have hchars : (inbuf.payload (ascii "Delay: 7\r\n") (by decide)).string.chars =
        inbuf.first ++ (ascii "Delay: " ++ (ascii "7" ++ (crlf ++ []))) :=
      inbuf.chars_payload _ hnul (by decide)
    refine getHeaderValue_number 1 hchars ?_ (by decide) (by decide)
    rw [hchars]
    exact indexOf?_append_of_not_infix (ascii ": 7\r\n") (by decide) (indexOf?_eq_none_iff.mp hi)
  | some i =>
    obtain rfl := eq_of_name h hbytes hi
    have hbound : front.length + 5 ≤ inbuf.first.length := indexOf?_add_length_le hi
    obtain ⟨a, t, x, hline, ha, hx, hcr, hscan⟩ := exists_misleading hd
    let line := ascii "Delay: " ++ [a]
    let count := inbuf.first.length - front.length
    have hcount : count ≤ line.length := by
      change inbuf.first.length - front.length ≤ 8
      omega
    have hfirst : inbuf.first = front ++ line.take count := by
      have hprefix : inbuf.first <+: front ++ line := by
        refine List.prefix_of_prefix_length_le ⟨inbuf.rest.flatten, hbytes⟩
          ⟨t ++ (crlf ++ rest), ?_⟩ ?_
        · simp only [line, delayText, hline, List.append_assoc, List.cons_append, List.nil_append]
        · rw [List.length_append]
          omega
      rw [List.prefix_iff_eq_take.mp hprefix, List.take_append, List.take_of_length_le (by omega)]
    have hlen : (line.drop count ++ (x :: crlf)).length ≤ 10 := by
      have hline : line.length = 8 := rfl
      simp only [List.length_append, List.length_drop, hline, crlf, List.length_cons,
        List.length_nil, count]
      omega
    have hbehind : NulFree (line.drop count ++ (x :: crlf)) := by
      rw [nulFree_append]
      constructor
      · intro b hb
        rcases List.mem_append.mp (List.drop_subset _ _ hb) with hname | ha'
        · exact (by decide : NulFree (ascii "Delay: ")) b hname
        · rw [List.mem_singleton.mp ha']
          exact ha
      · exact List.forall_mem_cons.mpr ⟨hx, (by decide : NulFree crlf)⟩
    have hchars := inbuf.chars_payload hlen hnul hbehind
    have hshape : (inbuf.payload _ hlen).string.chars =
        front ++ (ascii "Delay: " ++ ([a, x] ++ (crlf ++ []))) := by
      rw [hchars, hfirst, List.append_assoc, ← List.append_assoc (line.take count),
        List.take_append_drop]
      simp only [line, List.append_assoc, List.cons_append, List.nil_append, List.append_nil]
    have hname : indexOf? delayName (inbuf.payload _ hlen).string.chars = some front.length := by
      rw [hchars]
      exact indexOf?_append_left _ hi
    exact ⟨_, hlen, _, getHeaderValue_number 1 hshape hname hcr (List.cons_ne_nil _ _), hscan⟩

end Canonical

end CNetconn

/-! ### The delay in every server -/

section RoundTrip

variable {front rest : Bytes} {d : Int} {inbuf : CNetconn.Netbuf} (hl : -2 ^ 31 ≤ d)
  (hu : d < 2 ^ 31) (h : IsCanonical front d rest) (hbytes : inbuf.bytes = delayText front d rest)

include hl hu h hbytes

/-- Every server but Netconn reads the delay of a canonical header back; Netconn does exactly
where the first fragment reaches far enough into the line. -/
theorem roundTrips_iff :
    RoundTrips d inbuf ↔ front.length + CNetconn.needed d ≤ inbuf.first.length := by
  constructor
  · intro hround
    by_contra hshort
    have hlt := Nat.lt_of_not_le hshort
    by_cases hd : 0 < d
    · obtain ⟨v, hv, hsame, -⟩ := hround.cNetconn 1 (inbuf.payload [] (by decide)) rfl
      rw [CNetconn.receivedDelay_of_positive h hbytes hd hlt] at hv
      cases hv
      exact absurd (hsame hd) (ne_of_lt hd)
    · obtain ⟨behind, hlen, w, hw, hpos⟩ :=
        CNetconn.exists_positive_of_short h hbytes (not_lt.mp hd) hlt
      obtain ⟨v, hv, -, hnone⟩ := hround.cNetconn 1 (inbuf.payload behind hlen) rfl
      rw [hw] at hv
      cases hv
      exact absurd (hnone (not_lt.mp hd)) (not_le.mpr hpos)
  · intro hle
    let r := DelayRequest.ofCanonical h
    have hline (slot : Int) : SameDelay d (lineValue slot r.value) := by
      change SameDelay d (lineValue slot (32 :: decimalInt d))
      rw [lineValue_decimalInt slot hl hu]
      exact sameDelay_self d
    have hsearch : search (headerPattern delayName) (delayText front d rest) =
        if 0 ≤ d then some [decimal d.toNat] else none :=
      r.search_headerPattern.trans (matchHere_decimalInt d rest)
    have hdigits := fun b hb ↦ isDigit_of_mem_decimal (n := d.toNat) (b := b) hb
    constructor
    · intro recvBuf slot
      rw [hbytes]
      exact ⟨_, r.cBsd recvBuf slot, hline slot⟩
    · intro slot recvBuf hfragment
      exact CNetconn.sameDelay_of_reaches h hbytes hl hu hle slot hfragment
    · intro data slot
      rw [hbytes]
      exact ⟨_, r.cppAsio data slot, hline slot⟩
    · intro reads
      rw [hbytes]
      refine ⟨_, r.rust reads, ?_⟩
      change SameDelay d ((parseU64? (decimalInt d)).getD 0 : Nat)
      rw [parseU64?_decimalInt hu]
      split
      · next hd => exact sameDelay_toNat hd
      · next hd => exact sameDelay_zero hd
    · rw [hbytes, Python.readRequest_of_isAscii h.isAscii]
      split at hsearch
      · next hd =>
        refine ⟨_, Python.parseHaeder_of_digits hsearch (decimal_ne_nil _) hdigits, ?_⟩
        rw [digitsValue_decimal]
        exact sameDelay_toNat hd
      · next hd => exact ⟨_, Python.parseHaeder_of_none hsearch, sameDelay_zero hd⟩
    · rw [hbytes]
      split at hsearch
      · next hd =>
        refine ⟨_, Lua.parsedDelay?_of_digits hsearch (decimal_ne_nil _) hdigits, ?_⟩
        rw [digitsValue_decimal]
        exact sameDelay_toNat hd
      · next hd => exact ⟨_, Lua.parsedDelay?_of_none hsearch, sameDelay_zero hd⟩

end RoundTrip

/-- For every 32-bit delay in a canonical header among any others, and in the client's message in
particular: all servers read it back from one read exactly where Netconn's first fragment reaches
far enough into the line. -/
theorem delay_roundTrip {d : Int} (hl : -2 ^ 31 ≤ d) (hu : d < 2 ^ 31) :
    (∀ front rest inbuf, IsCanonical front d rest →
      CNetconn.Netbuf.bytes inbuf = delayText front d rest →
      (RoundTrips d inbuf ↔ front.length + CNetconn.needed d ≤ inbuf.first.length)) ∧
    (∀ inbuf, CNetconn.Netbuf.bytes inbuf = Benchmark.message d →
      (RoundTrips d inbuf ↔
        Benchmark.requestLines.length + CNetconn.needed d ≤ inbuf.first.length)) := by
  constructor
  · intro front rest inbuf h hbytes
    exact roundTrips_iff hl hu h hbytes
  · intro inbuf hbytes
    rw [Benchmark.message_eq] at hbytes
    exact roundTrips_iff hl hu (Benchmark.isCanonical_message hl hu).1 hbytes

/-- The client's message with its default delay of 450 ms, in one fragment. -/
theorem delay_roundTrip_message : RoundTrips 450 ⟨Benchmark.message 450, [], by decide⟩ := by
  have hround := (@delay_roundTrip 450 (by decide) (by decide)).2
    ⟨Benchmark.message 450, [], by decide⟩ (List.append_nil _)
  exact hround.mpr (by decide)

/-- A canonical request with a delay of 500 ms in two fragments, the first of which ends behind
the 5: with zeros behind it the Netconn server finds no delay. -/
theorem not_roundTrips_cutRequest :
    (IsCanonical (ascii "GET / HTTP/1.1\r\n") 500 crlf ∧
      CNetconn.cutRequest.bytes = delayText (ascii "GET / HTTP/1.1\r\n") 500 crlf) ∧
    CNetconn.receivedDelay 0 (CNetconn.cutRequest.payload [] (by decide)) = .ok 0 ∧
      ¬ RoundTrips 500 CNetconn.cutRequest := by
  have hzero : CNetconn.receivedDelay 0 (CNetconn.cutRequest.payload [] (by decide)) = .ok 0 := by
    decide
  refine ⟨⟨⟨by decide, by decide, by decide, by decide, by decide, by decide, by decide⟩,
    by decide⟩, hzero, ?_⟩
  intro hround
  obtain ⟨v, hv, hsame, -⟩ := hround.cNetconn 0 (CNetconn.cutRequest.payload [] (by decide)) rfl
  rw [hzero] at hv
  cases hv
  exact absurd (hsame (by decide)) (by decide)

end Esp32WebServers
