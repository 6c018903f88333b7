import Mathlib.Data.List.TakeWhile
import Esp32WebServers.Response.Encoders

/-!
# One response format

The response as its parts, the header lines, the content length and the body, and the
proof that every encoder produces it and every decoder reads it, for all heap values
that are non-negative as a 32-bit integer.
-/

namespace Esp32WebServers

open Base

/-- The status line and the three headers that do not vary. -/
def statusLines : Bytes := Rust.responseHeader

/-- The body of the response: the heap value between its key and a semicolon. -/
def heapBody (heap : Nat) : Bytes := ascii "free_heap=" ++ (decimal heap ++ ascii ";")

/-- The response: header lines, content length, blank line and body. -/
def responseText (heap : Nat) : Bytes :=
  statusLines ++ (ascii "Content-Length: " ++
    (decimal (heapBody heap).length ++ (crlf ++ crlf ++ heapBody heap)))

/-- The body is eleven bytes longer than the heap value's numeral. -/
theorem length_heapBody (heap : Nat) : (heapBody heap).length = (decimal heap).length + 11 := by
  have hkey : (ascii "free_heap=").length = 10 := by decide
  have hend : (ascii ";").length = 1 := by decide
  rw [heapBody, List.length_append, List.length_append, hkey, hend]
  omega

/-- Numerals between two powers of ten have as many digits as the upper one has zeros. -/
theorem length_decimal_of_mem {n k : Nat} (hlow : k = 0 ∨ 10 ^ k ≤ n) (hhigh : n < 10 ^ (k + 1)) :
    (decimal n).length = k + 1 := by
  have hle := (length_decimal_le_iff (Nat.succ_pos k)).mpr hhigh
  have hpos := List.length_pos_iff.mpr (decimal_ne_nil n)
  rcases hlow with rfl | hlow
  · omega
  · cases k with
    | zero => omega
    | succ k =>
      have hnot : ¬ (decimal n).length ≤ k + 1 := fun h ↦
        absurd ((length_decimal_le_iff (Nat.succ_pos k)).mp h) (Nat.not_lt.mpr hlow)
      omega

-- One evaluation of the long literals serves every proof below.
private theorem literals :
    ((statusLines ++ ascii "Content-Length: ").length = 126 ∧
      statusLines ++ (ascii "Content-Length:" ++ [32]) = statusLines ++ ascii "Content-Length: " ∧
      statusLines = statusLines.dropLast ++ [10] ∧
      ¬ ascii "Content-Length: " <:+: statusLines.dropLast ∧
      ¬ crlf ++ crlf <:+: statusLines ++ ascii "Content-Length:") ∧
    (37 ∉ statusLines ++ ascii "Content-Length: " ∧
      123 ∉ statusLines ++ ascii "Content-Length: " ∧ 95 ∉ statusLines) ∧
    CBsd.message = (statusLines ++ ascii "Content-Length: ") ++
      37 :: 105 :: (crlf ++ crlf ++ ascii "free_heap=" ++ 37 :: 105 :: ascii ";") ∧
    Python.responsse = (statusLines ++ ascii "Content-Length: ") ++
      123 :: 125 :: (crlf ++ crlf ++ 123 :: 125 :: []) ∧
    Lua.responseString = (statusLines ++ ascii "Content-Length: ") ++
      37 :: 100 :: (crlf ++ crlf) := by
  unfold statusLines Rust.responseHeader CBsd.message Python.responsse Lua.responseString
  repeat rw [ascii_ofList]
  decide +kernel

/-- Non-negative heap values keep their value as an `int`. -/
theorem toInt_toInt32 {heap : UInt32} (h : heap.toNat < 2 ^ 31) :
    heap.toInt32.toInt = heap.toNat := by
  change heap.toBitVec.toInt = _
  rw [BitVec.toInt_eq_toNat_of_lt]
  · rfl
  · change 2 * heap.toNat < 2 ^ 32
    omega

/-- The comparison ladder counts the digits of every 32-bit value. -/
theorem CBsd.lenHelper_eq (x : UInt32) : CBsd.lenHelper x = (decimal x.toNat).length := by
  have hx : x.toNat < 10 ^ 10 := x.toNat_lt.trans (by decide)
  unfold CBsd.lenHelper
  simp only [ge_iff_le, UInt32.le_iff_toNat_le, UInt32.reduceToNat]
  split
  · rw [length_decimal_of_mem (k := 9) (.inr (by omega)) hx]
    rfl
  split
  · rw [length_decimal_of_mem (k := 8) (.inr (by omega)) (by omega)]
    rfl
  split
  · rw [length_decimal_of_mem (k := 7) (.inr (by omega)) (by omega)]
    rfl
  split
  · rw [length_decimal_of_mem (k := 6) (.inr (by omega)) (by omega)]
    rfl
  split
  · rw [length_decimal_of_mem (k := 5) (.inr (by omega)) (by omega)]
    rfl
  split
  · rw [length_decimal_of_mem (k := 4) (.inr (by omega)) (by omega)]
    rfl
  split
  · rw [length_decimal_of_mem (k := 3) (.inr (by omega)) (by omega)]
    rfl
  split
  · rw [length_decimal_of_mem (k := 2) (.inr (by omega)) (by omega)]
    rfl
  split
  · rw [length_decimal_of_mem (k := 1) (.inr (by omega)) (by omega)]
    rfl
  · rw [length_decimal_of_mem (k := 0) (.inl rfl) (by omega)]
    rfl

/-! ### The encoders -/

/-- The C format string, filled in with a content length and a heap value. -/
theorem fill_message (contentLen heap : Bytes) :
    fill 37 105 CBsd.message [contentLen, heap] =
      statusLines ++ (ascii "Content-Length: " ++
        (contentLen ++ (crlf ++ crlf ++ (ascii "free_heap=" ++ (heap ++ ascii ";"))))) := by
  obtain ⟨-, ⟨hpercent, -, -⟩, hsplit, -, -⟩ := literals
  rw [hsplit, fill_append _ _ _ hpercent, fill_append _ _ _ (by decide),
    fill_of_notMem _ (by decide)]
  simp only [List.append_assoc]

/-- The C encoder's string contains no terminator, whatever the heap value. -/
theorem CBsd.nulFree_response (heap : UInt32) : NulFree (CBsd.response heap) := by
  have hlines : NulFree statusLines := by
    rw [statusLines, Rust.responseHeader, ascii_ofList]
    decide +kernel
  have hformatted : NulFree (CBsd.formatted heap) := by
    unfold CBsd.formatted
    rw [fill_message]
    simp only [nulFree_append]
    exact ⟨hlines, by decide, nulFree_decimalInt _, ⟨by decide, by decide⟩, by decide,
      nulFree_decimalInt _, by decide⟩
  intro b hb
  exact hformatted b (List.mem_of_mem_take hb)

/-- The C and C++ encoders format the response. -/
theorem formatted_eq {heap : UInt32} (h : heap.toNat < 2 ^ 31) :
    CBsd.formatted heap = responseText heap.toNat ∧
      CppAsio.formatted heap = responseText heap.toNat := by
  have hlen : (11 : Int) + ((decimal heap.toNat).length : Nat) =
      ((heapBody heap.toNat).length : Nat) := by
    rw [length_heapBody]
    omega
  have hint : decimalInt heap.toInt32.toInt = decimal heap.toNat := by
    rw [toInt_toInt32 h]
    rfl
  constructor
  · simp only [CBsd.formatted, UInt32.toUInt32_toInt32, CBsd.lenHelper_eq, hlen, hint]
    exact fill_message _ _
  · simp only [CppAsio.formatted, hlen, hint]
    exact fill_message _ _

/-- The length of a response: the header lines, the content length, a blank line, the body. -/
theorem length_responseText (heap : Nat) :
    (responseText heap).length =
      126 + (decimal (heapBody heap).length).length + 4 + (heapBody heap).length := by
  have hlines := literals.1.1
  rw [responseText, ← List.append_assoc, List.length_append, hlines]
  simp only [List.length_append, crlf, List.length_cons, List.length_nil]
  omega

/-- The response to a heap value of at most ten digits fits into 200 bytes with its
terminator. -/
theorem length_responseText_lt {heap : Nat} (h : heap < 10 ^ 10) :
    (responseText heap).length < 200 := by
  have hheap : (decimal heap).length ≤ 10 :=
    (length_decimal_le_iff (by decide)).mpr h
  have hbody := length_heapBody heap
  have hcount : (decimal (heapBody heap).length).length ≤ 2 :=
    (length_decimal_le_iff (by decide)).mpr (by omega)
  rw [length_responseText]
  omega

/-- The header lines are only a part of the response. -/
theorem lt_length_responseText (heap : Nat) : 126 < (responseText heap).length := by
  rw [length_responseText]
  omega

/-- The C-BSD encoder stores the whole response in its buffer. -/
theorem CBsd.response_eq {heap : UInt32} (h : heap.toNat < 2 ^ 31) :
    CBsd.response heap = responseText heap.toNat := by
  rw [CBsd.response, (formatted_eq h).1, snprintf_of_lt (length_responseText_lt (by omega))]

/-- The Asio encoder stores the whole response in its buffer. -/
theorem CppAsio.response_eq {heap : UInt32} (h : heap.toNat < 2 ^ 31) :
    CppAsio.response heap = responseText heap.toNat := by
  rw [CppAsio.response, (formatted_eq h).2, snprintf_of_lt (length_responseText_lt (by omega))]

/-- The Rust encoder produces the response. -/
theorem Rust.getResponseMessage_eq (heap : UInt32) :
    Rust.getResponseMessage heap = responseText heap.toNat := by
  have hbodySplit :
      ascii "free_heap=\x7b\x7d;" = ascii "free_heap=" ++ 123 :: 125 :: ascii ";" := by
    decide
  have hbody : fill 123 125 (ascii "free_heap=\x7b\x7d;") [decimal heap.toNat] =
      heapBody heap.toNat := by
    rw [hbodySplit, fill_append _ _ _ (by decide), fill_of_notMem _ (by decide), heapBody]
  have hsplit : ascii "\x7b\x7dContent-Length: \x7b\x7d\r\n\r\n\x7b\x7d" =
      [] ++ 123 :: 125 :: (ascii "Content-Length: " ++
        123 :: 125 :: (crlf ++ crlf ++ 123 :: 125 :: [])) := by
    decide
  simp only [Rust.getResponseMessage, hbody]
  rw [hsplit, fill_append _ _ _ (by decide), fill_append _ _ _ (by decide),
    fill_append _ _ _ (by decide), fill_of_notMem _ (by decide), responseText, statusLines]
  simp only [List.nil_append, List.append_assoc, List.append_nil]

/-- The Python encoder produces the response. -/
theorem Python.sendResponse_eq (memFree : Nat) :
    Python.sendResponse memFree = responseText memFree := by
  obtain ⟨-, ⟨-, hbrace, -⟩, -, hsplit, -⟩ := literals
  simp only [Python.sendResponse]
  rw [hsplit, fill_append _ _ _ hbrace, fill_append _ _ _ (by decide),
    fill_of_notMem _ (by decide), ← heapBody, responseText]
  simp only [List.append_assoc, List.append_nil]

/-- The Lua encoder produces the response. -/
theorem Lua.response_eq (freeHeap : Nat) : Lua.response freeHeap = responseText freeHeap := by
  have hbodySplit : ascii "free_heap=%d;" = ascii "free_heap=" ++ 37 :: 100 :: ascii ";" := by
    decide
  have hbody : Lua.ramString freeHeap = heapBody freeHeap := by
    rw [Lua.ramString, hbodySplit, fill_append _ _ _ (by decide), fill_of_notMem _ (by decide),
      heapBody]
  obtain ⟨-, ⟨hpercent, -, -⟩, -, -, hsplit⟩ := literals
  rw [Lua.response, Lua.responseOf, hbody, hsplit, fill_append _ _ _ hpercent,
    fill_of_notMem _ (by decide), responseText]
  simp only [List.append_assoc]

/-! ### The decoders -/

private theorem notMem_decimal (n : Nat) {b : UInt8} (h : isDigit b = false) : b ∉ decimal n := by
  intro hm
  rw [isDigit_of_mem_decimal hm] at h
  cases h

/-- The content length in the header is the length of the body. -/
theorem contentLength?_responseText (heap : Nat) :
    contentLength? (responseText heap) = some (heapBody heap).length := by
  obtain ⟨⟨-, -, hlast, hnot, -⟩, -⟩ := literals
  have hi : indexOf? (ascii "Content-Length: ") (responseText heap) = some statusLines.length := by
    rw [responseText, hlast, List.append_assoc, List.singleton_append,
      indexOf?_append_cons (by decide) hnot, indexOf?_of_isPrefix (List.prefix_append _ _),
      Option.map_some, Nat.zero_add, List.length_append, List.length_singleton]
  have hkey : (ascii "Content-Length: ").length = 16 := by decide
  have hdrop : (responseText heap).drop (statusLines.length + 16) =
      decimal (heapBody heap).length ++ (crlf ++ crlf ++ heapBody heap) := by
    rw [responseText, ← List.drop_drop, List.drop_left, List.drop_left' hkey]
  rw [contentLength?, hi, Option.map_some, hdrop,
    List.takeWhile_append_of_pos fun b hb ↦ isDigit_of_mem_decimal hb]
  have hstop : (crlf ++ crlf ++ heapBody heap).takeWhile isDigit = [] := rfl
  rw [hstop, List.append_nil, digitsValue_decimal]

/-- The header lines up to the content length have it, too. -/
theorem contentLength?_head (n : Nat) :
    contentLength? (statusLines ++ (ascii "Content-Length: " ++ (decimal n ++ crlf))) = some n := by
  obtain ⟨⟨-, -, hlast, hnot, -⟩, -⟩ := literals
  have hi : indexOf? (ascii "Content-Length: ")
      (statusLines ++ (ascii "Content-Length: " ++ (decimal n ++ crlf))) =
        some statusLines.length := by
    rw [hlast, List.append_assoc, List.singleton_append, indexOf?_append_cons (by decide) hnot,
      indexOf?_of_isPrefix (List.prefix_append _ _), Option.map_some, Nat.zero_add,
      List.length_append, List.length_singleton]
  have hkey : (ascii "Content-Length: ").length = 16 := by decide
  have hstop : crlf.takeWhile isDigit = [] := rfl
  rw [contentLength?, hi, Option.map_some, ← List.drop_drop, List.drop_left, List.drop_left' hkey,
    List.takeWhile_append_of_pos fun b hb ↦ isDigit_of_mem_decimal hb, hstop, List.append_nil,
    digitsValue_decimal]

/-- The body follows the first blank line. -/
theorem body?_responseText (heap : Nat) : body? (responseText heap) = some (heapBody heap) := by
  obtain ⟨⟨-, hhead, -, -, hnot⟩, -⟩ := literals
  let front := statusLines ++ ascii "Content-Length: "
  let count := decimal (heapBody heap).length
  have hi : indexOf? (crlf ++ crlf) (responseText heap) = some (front.length + count.length) := by
    have hblank : indexOf? (crlf ++ crlf) (count ++ (crlf ++ crlf ++ heapBody heap)) =
        some count.length := indexOf?_of_append (notMem_decimal _ rfl)
    have hsplit : responseText heap = (statusLines ++ ascii "Content-Length:") ++
        32 :: (count ++ (crlf ++ crlf ++ heapBody heap)) := by
      rw [responseText, ← List.append_assoc, ← hhead]
      simp only [count, List.append_assoc, List.singleton_append]
    have hlength : (statusLines ++ ascii "Content-Length:").length + 1 = front.length := by
      simp only [front, ← hhead, List.length_append, List.length_singleton, Nat.add_assoc]
    rw [hsplit, indexOf?_append_cons (by decide) hnot, hblank, Option.map_some, hlength,
      Nat.add_comm]
  have hdrop : (responseText heap).drop (front.length + count.length + 4) = heapBody heap := by
    have hblank : (crlf ++ crlf).length = 4 := rfl
    rw [responseText, ← List.append_assoc, ← List.drop_drop, ← List.drop_drop, List.drop_left,
      List.drop_left, List.drop_left' hblank]
  rw [body?, hi, Option.map_some, hdrop]

/-- The key of the client's pattern occurs once in a response, and the numeral and the semicolon
follow it to the end. -/
theorem occursOnlyAt_key (heap : Nat) :
    ∃ i, OccursOnlyAt (ascii "free_heap=") (responseText heap) i ∧
      (responseText heap).drop (i + (ascii "free_heap=").length) = decimal heap ++ ascii ";" := by
  let front := statusLines ++ (ascii "Content-Length: " ++
    (decimal (heapBody heap).length ++ [13, 10, 13]))
  have hsplit : responseText heap = front ++ 10 :: heapBody heap := by
    simp only [front, responseText, crlf, List.append_assoc, List.cons_append, List.nil_append]
  have hkey : ascii "free_heap=" = 102 :: ascii "ree_heap=" := by decide
  have hnot : ¬ ascii "free_heap=" <:+: front := by
    intro h
    -- No byte in front of the body is an underscore.
    have hmem := h.subset (show (95 : UInt8) ∈ ascii "free_heap=" by decide)
    simp only [front, List.mem_append] at hmem
    rcases hmem with hm | hm | hm | hm
    · exact literals.2.1.2.2 hm
    · exact absurd hm (by decide)
    · exact notMem_decimal _ rfl hm
    · exact absurd hm (by decide)
  have hfirst : indexOf? (ascii "free_heap=") (responseText heap) = some (front.length + 1) := by
    rw [hsplit, indexOf?_append_cons (by decide) hnot, heapBody,
      indexOf?_of_isPrefix (List.prefix_append _ _)]
    simp
  have hafter : (responseText heap).drop (front.length + 1 + 1) =
      ascii "ree_heap=" ++ (decimal heap ++ ascii ";") := by
    rw [hsplit, ← List.drop_drop, ← List.drop_drop, List.drop_left]
    rfl
  refine ⟨front.length + 1, occursOnlyAt_of_not_infix hfirst ?_, ?_⟩
  · intro h
    rw [hafter, hkey] at h
    have hmem := h.subset (List.mem_cons_self)
    simp only [List.mem_append] at hmem
    rcases hmem with hm | hm | hm
    · exact absurd hm (by decide)
    · exact notMem_decimal _ rfl hm
    · exact absurd hm (by decide)
  · rw [hsplit, ← List.drop_drop, ← List.drop_drop, List.drop_left]
    exact List.drop_left

/-- Behind the key the client takes all digits, if a semicolon follows them. -/
theorem Benchmark.matchHere_number (s : Bytes) :
    matchHere [Piece.repeat isDigit 1 true, .lit 59] s =
      if 1 ≤ (s.takeWhile isDigit).length then
        (matchHere [Piece.lit 59] (s.dropWhile isDigit)).map fun groups ↦
          s.takeWhile isDigit :: groups
      else none := by
  apply matchHere_repeat
  intro b rest hb
  rw [matchHere, if_neg]
  rintro rfl
  cases hb

/-- The client reads back the heap value's numeral. -/
theorem Benchmark.parsResult_responseText (heap : Nat) :
    Benchmark.parsResult (responseText heap) = some (decimal heap) := by
  obtain ⟨i, honly, hdrop⟩ := occursOnlyAt_key heap
  have hdigits : ∀ b ∈ decimal heap, isDigit b = true := fun b hb ↦ isDigit_of_mem_decimal hb
  have htake : (decimal heap ++ ascii ";").takeWhile isDigit = decimal heap := by
    rw [List.takeWhile_append_of_pos hdigits]
    exact List.append_nil _
  have hrest : (decimal heap ++ ascii ";").dropWhile isDigit = ascii ";" := by
    rw [List.dropWhile_append_of_pos hdigits]
    rfl
  have hpos : 1 ≤ (decimal heap).length := List.length_pos_iff.mpr (decimal_ne_nil heap)
  rw [Benchmark.parsResult, Benchmark.resultPattern, search_lits_of_occursOnlyAt honly, hdrop,
    Benchmark.matchHere_number, htake, hrest, if_pos hpos]
  rfl

/-- Without the end of a response the client finds no match. -/
theorem Benchmark.parsResult_of_cut {heap : Nat} {cut rest : Bytes}
    (h : cut ++ rest = responseText heap) (hne : rest ≠ []) : Benchmark.parsResult cut = none := by
  obtain ⟨i, honly, hdrop⟩ := occursOnlyAt_key heap
  rw [Benchmark.parsResult, Option.map_eq_none_iff, Benchmark.resultPattern, search_eq_none_iff]
  intro j hj
  rw [matchHere_lits_append]
  split
  · next hkey =>
    have hle := hkey.length_le
    rw [List.length_drop] at hle
    have hwhole (k : Nat) (hk : k ≤ cut.length) :
        (responseText heap).drop k = cut.drop k ++ rest := by
      rw [← h, List.drop_append_of_le_length hk]
    obtain rfl : j = i := by
      apply (honly j).mp
      rw [hwhole j hj]
      exact hkey.trans (List.prefix_append _ _)
    rw [hwhole _ (by omega)] at hdrop
    -- What is left of the cut behind the key are digits.
    have hdigits : ∀ b ∈ cut.drop (j + (ascii "free_heap=").length), isDigit b = true := by
      intro b hb
      apply isDigit_of_mem_decimal (n := heap)
      rcases List.append_eq_append_iff.mp hdrop with ⟨t, ht, -⟩ | ⟨t, ht, hend⟩
      · rw [ht]
        exact List.mem_append_left _ hb
      · cases t with
        | nil => rwa [ht, List.append_nil] at hb
        | cons c t =>
          have hnil : t ++ rest = [] := (List.cons.inj hend).2.symm
          exact absurd (List.append_eq_nil_iff.mp hnil).2 hne
    rw [List.drop_drop, Benchmark.matchHere_number, List.dropWhile_eq_nil_iff.mpr hdigits]
    split
    · rfl
    · rfl
  · rfl

/-- For every heap value that is non-negative as an `int`, all encoders produce the same
bytes, nothing is cut off by the 200-byte buffers, the content length is the number of
bytes behind the first blank line, and the client reads the heap value. -/
theorem responses_agree {heap : UInt32} (h : heap.toNat < 2 ^ 31) :
    (CNetconn.response heap = CBsd.response heap ∧
      CppAsio.response heap = CBsd.response heap ∧
      Rust.getResponseMessage heap = CBsd.response heap ∧
      Python.sendResponse heap.toNat = CBsd.response heap ∧
      Lua.response heap.toNat = CBsd.response heap) ∧
    (CBsd.response heap = CBsd.formatted heap ∧ CppAsio.response heap = CppAsio.formatted heap ∧
      (CBsd.response heap).length < 200) ∧
    (∃ body, body? (CBsd.response heap) = some body ∧
      contentLength? (CBsd.response heap) = some body.length) ∧
    Benchmark.parsResult (CBsd.response heap) = some (decimal heap.toNat) := by
  have hbsd := CBsd.response_eq h
  obtain ⟨hformatted, hasio⟩ := formatted_eq h
  refine ⟨⟨rfl, ?_, ?_, ?_, ?_⟩, ⟨?_, ?_, ?_⟩, ?_, ?_⟩
  · rw [hbsd, CppAsio.response_eq h]
  · rw [hbsd, Rust.getResponseMessage_eq]
  · rw [hbsd, Python.sendResponse_eq]
  · rw [hbsd, Lua.response_eq]
  · rw [hbsd, hformatted]
  · rw [CppAsio.response_eq h, hasio]
  · rw [hbsd]
    exact length_responseText_lt (by omega)
  · rw [hbsd]
    exact ⟨_, body?_responseText _, contentLength?_responseText _⟩
  · rw [hbsd]
    exact Benchmark.parsResult_responseText _

/-- A device with 123456 free bytes. -/
theorem responses_agree_123456 :
    Rust.getResponseMessage 123456 = CBsd.response 123456 ∧
      Benchmark.parsResult (CBsd.response 123456) = some (decimal 123456) := by
  have hsmall : (123456 : UInt32).toNat < 2 ^ 31 := by decide
  obtain ⟨⟨-, -, hrust, -, -⟩, -, -, hclient⟩ := responses_agree hsmall
  exact ⟨hrust, hclient⟩

end Esp32WebServers
