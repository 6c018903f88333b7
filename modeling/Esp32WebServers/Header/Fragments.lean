import Esp32WebServers.Header.Receive
import Esp32WebServers.Header.Slices

/-!
# The fragments of a netbuf

`handle_client` (`web_server/c_netconn/main/tcp_server.c:122–135`) takes the address of the
first fragment from `netbuf_data` and hands it to `get_header_value` without the length that
it takes as well. What is parsed is the first fragment and the memory behind it up to a NUL.
This module says when that is what the whole chain, as a terminated text, gives.
-/

namespace Esp32WebServers.CNetconn

open Base

/-- The data of one `netconn_recv`: a chain of fragments, with a total length that is kept in
16 bits. -/
structure Netbuf where
  first : Bytes
  rest : List Bytes
  short : (first ++ rest.flatten).length < 2 ^ 16

/-- All bytes that were received. -/
def Netbuf.bytes (inbuf : Netbuf) : Bytes := inbuf.first ++ inbuf.rest.flatten

/-- Wherever the first fragment lies, whatever follows it in memory and whatever the stack slot
of the number holds: the delay is the one that the chain gives as a terminated text. -/
def ParsesExactly (inbuf : Netbuf) : Prop :=
  ∀ (recvBuf : Payload) (text : CString) (slot : Int), recvBuf.fragment = inbuf.first →
    text.base = recvBuf.base → text.chars = upToNul inbuf.bytes →
    receivedDelay slot recvBuf = getHeaderValue slot text delayName

/-- The first fragment settles the delay by itself: it holds a NUL, or the name, a colon behind
it and either a line end or a number that is zero and complete. -/
def Decides (first : Bytes) : Prop :=
  0 ∈ first ∨ ∃ i c, indexOf? delayName first = some i ∧
    indexOf? (ascii ":") (first.drop i) = some c ∧
    (crlf <:+: first.drop i ∨ SettledZero (first.drop (i + (c + 2))))

/-- A fragment with a NUL is cut there, whatever follows. -/
theorem upToNul_append_of_mem {first : Bytes} (more : Bytes) (h : 0 ∈ first) :
    upToNul (first ++ more) = upToNul first := by
  obtain ⟨p, q, rfl⟩ := List.append_of_mem h
  rw [List.append_assoc, List.cons_append, upToNul_append_zero, upToNul_append_zero]

section Decided

variable {data : CString} {first more : Bytes} {i c : Nat} (slot : Int)
  (hdata : data.chars = first ++ more) (hi : indexOf? delayName first = some i)
  (hc : indexOf? (ascii ":") (first.drop i) = some c)

include hdata hi

private theorem drop_chars : data.chars.drop i = first.drop i ++ more := by
  have := indexOf?_add_length_le hi
  rw [hdata, List.drop_append_of_le_length (by omega)]

include hc

/-- A line that ends within the fragment is read from the fragment. -/
theorem getHeaderValue_of_lineEnd {e : Nat} (he : indexOf? crlf (first.drop i) = some e) :
    getHeaderValue slot data delayName = .ok (if c + 2 < e then
      sscanf ((first.drop (i + (c + 2))).take (e - (c + 2))) slot else 0) := by
  have hdrop := drop_chars hdata hi
  have hend := indexOf?_add_length_le he
  rw [List.length_drop] at hend
  have hvalue := CBsd.getHeaderValue_of_found slot (by rw [hdata]; exact indexOf?_append_left _ hi)
    (by rw [hdrop]; exact indexOf?_append_left _ hc)
    (by rw [hdrop]; exact indexOf?_append_left _ he)
  rw [show getHeaderValue slot data delayName = CBsd.getHeaderValue slot data delayName from rfl,
    hvalue]
  congr 1
  apply if_congr Iff.rfl _ rfl
  by_cases hlt : c + 2 < e
  · rw [hdata, List.drop_append_of_le_length (by omega), List.take_append_of_le_length]
    rw [List.length_drop]
    omega
  · have hzero : e - (c + 2) = 0 := by omega
    rw [hzero, List.take_zero, List.take_zero]

/-- A zero that is complete in the fragment is read as zero, wherever the line ends. -/
theorem getHeaderValue_of_settledZero (hcr : ¬ crlf <:+: first.drop i)
    (hz : SettledZero (first.drop (i + (c + 2)))) :
    getHeaderValue slot data delayName = .ok 0 := by
  have hdrop := drop_chars hdata hi
  have hname := indexOf?_append_left more hi
  rw [← hdata] at hname
  cases he : indexOf? crlf (data.chars.drop i) with
  | none => exact CBsd.getHeaderValue_of_no_crlf slot hname he
  | some e =>
    have hlate : (first.drop i).length < e + 2 := by
      by_contra hle
      rw [hdrop] at he
      exact hcr (infix_iff_exists_drop.mpr
        ⟨e, (indexOf?_eq_some_iff.mp (indexOf?_of_append_left he (by
          change e + 2 ≤ _
          omega))).1⟩)
    have hvalue := CBsd.getHeaderValue_of_found slot hname
      (by rw [hdrop]; exact indexOf?_append_left _ hc) he
    refine hvalue.trans (congrArg _ ?_)
    obtain ⟨spaces, sign, zeros, b, rest, hw, hs, hsign, hne, hzeros, hb⟩ := hz
    have hlen := congrArg List.length hw
    simp only [List.length_append, List.length_cons, List.length_drop] at hlen hlate
    have hpos := List.length_pos_iff.mpr hne
    rw [if_pos (by omega), hdata, List.drop_append_of_le_length (by omega), hw]
    -- The slice keeps at least everything in front of the byte that ends the number.
    obtain ⟨k, hk⟩ : ∃ k, e - (c + 2) = (spaces ++ (sign ++ zeros)).length + k :=
      Nat.exists_eq_add_of_le (by simp only [List.length_append]; omega)
    have hslice : (spaces ++ (sign ++ (zeros ++ b :: rest)) ++ more).take (e - (c + 2)) =
        spaces ++ (sign ++ (zeros ++ (b :: (rest ++ more)).take k)) := by
      have hassoc : spaces ++ (sign ++ (zeros ++ b :: rest)) ++ more =
          (spaces ++ (sign ++ zeros)) ++ b :: (rest ++ more) := by simp
      rw [hassoc, hk, List.take_length_add_append]
      simp
    rw [hslice, sscanf, scanNumber?_zeros hs hsign hne hzeros]
    · rfl
    · intro b' hb'
      cases k with
      | zero => cases hb'
      | succ k =>
        cases hb'
        exact hb

end Decided

/-- Two texts that go on differently behind a fragment that settles the delay have one delay. -/
theorem getHeaderValue_eq_of_decides {s t : CString} {first u v : Bytes} (slot : Int)
    (h : Decides first) (hnul : 0 ∉ first) (hs : s.chars = first ++ u)
    (ht : t.chars = first ++ v) :
    getHeaderValue slot s delayName = getHeaderValue slot t delayName := by
  obtain hmem | ⟨i, c, hi, hc, hline⟩ := h
  · exact absurd hmem hnul
  · by_cases hcr : crlf <:+: first.drop i
    · obtain ⟨e, he⟩ := Option.ne_none_iff_exists'.mp (mt indexOf?_eq_none_iff.mp (not_not.mpr hcr))
      rw [getHeaderValue_of_lineEnd slot hs hi hc he, getHeaderValue_of_lineEnd slot ht hi hc he]
    · have hz := hline.resolve_left hcr
      rw [getHeaderValue_of_settledZero slot hs hi hc hcr hz,
        getHeaderValue_of_settledZero slot ht hi hc hcr hz]

/-! ### What the memory behind the fragment can do -/

/-- Behind a text whose last line is open, a line end completes the number. -/
theorem getHeaderValue_append_crlf {data : CString} {text : Bytes} {i c : Nat} (slot : Int)
    (hdata : data.chars = text ++ crlf) (hi : indexOf? delayName text = some i)
    (hc : indexOf? (ascii ":") (text.drop i) = some c) (hcr : ¬ crlf <:+: text.drop i)
    (hlen : i + (c + 2) < text.length) :
    getHeaderValue slot data delayName = .ok (sscanf (text.drop (i + (c + 2))) slot) := by
  have hdrop := drop_chars hdata hi
  have he : indexOf? crlf (data.chars.drop i) = some (text.drop i).length := by
    have hfound := indexOf?_append_of_not_infix (c := 13) (w := [10]) [] (by decide) hcr
    rw [hdrop]
    exact hfound
  have hvalue := CBsd.getHeaderValue_of_found slot
    (by rw [hdata]; exact indexOf?_append_left _ hi)
    (by rw [hdrop]; exact indexOf?_append_left _ hc) he
  refine hvalue.trans (congrArg _ ?_)
  rw [List.length_drop, if_pos (by omega), hdata, List.drop_append_of_le_length (by omega)]
  congr 1
  apply List.take_left'
  rw [List.length_drop]
  omega

/-- Without a colon behind the name, a line end alone makes the copy start at address 2. -/
theorem getHeaderValue_of_no_colon {data : CString} {i : Nat} (slot : Int)
    (hi : indexOf? delayName data.chars = some i)
    (hc : indexOf? (ascii ":") (data.chars.drop i) = none) (hcr : crlf <:+: data.chars.drop i)
    (hbase : 2 < data.base) :
    getHeaderValue slot data delayName = .error (.invalidRead 2) := by
  obtain ⟨e, he⟩ := Option.ne_none_iff_exists'.mp (mt indexOf?_eq_none_iff.mp (not_not.mpr hcr))
  have hcopy := CBsd.getHeader_of_no_colon hi hc he
  rw [copyValue_of_low data 1 (by omega) hbase] at hcopy
  rw [getHeaderValue, getHeader, hcopy]
  rfl

private theorem not_crlf_infix_append {text tail : Bytes} {b : UInt8} (h : ¬ crlf <:+: text)
    (hb : b ∉ crlf) (htail : ¬ crlf <:+: tail) : ¬ crlf <:+: text ++ b :: tail := by
  rw [infix_append_cons_iff hb, not_or]
  exact ⟨h, htail⟩

/-- With these bytes behind the fragment another delay comes out than with a NUL there. -/
def Shows (first behind : Bytes) : Prop :=
  ∀ s t : CString, s.chars = first → t.chars = first ++ behind → 2 < s.base →
    getHeaderValue 1 s delayName ≠ getHeaderValue 1 t delayName

section Shows

variable {first : Bytes}

/-- A line end behind a text that it completes to a nonzero number. -/
theorem shows_of_number {digits : Bytes} {i c : Nat}
    (hzero : ∀ s : CString, s.chars = first → getHeaderValue 1 s delayName = .ok 0)
    (hi : indexOf? delayName (first ++ digits) = some i)
    (hc : indexOf? (ascii ":") ((first ++ digits).drop i) = some c)
    (hcr : ¬ crlf <:+: (first ++ digits).drop i) (hlen : i + (c + 2) < (first ++ digits).length)
    (hne : sscanf ((first ++ digits).drop (i + (c + 2))) 1 ≠ 0) :
    Shows first (digits ++ crlf) := by
  intro s t hs ht hbase heq
  rw [← List.append_assoc] at ht
  rw [hzero s hs, getHeaderValue_append_crlf 1 ht hi hc hcr hlen, Except.ok.injEq] at heq
  exact hne heq.symm

/-- Behind a fragment without the name, a whole line. -/
theorem shows_of_no_name (h : indexOf? delayName first = none) :
    Shows first (ascii "Delay: 7" ++ crlf) := by
  have hi : indexOf? delayName (first ++ ascii "Delay: 7") = some first.length :=
    indexOf?_append_of_not_infix (ascii ": 7") (by decide) (indexOf?_eq_none_iff.mp h)
  have hdrop : (first ++ ascii "Delay: 7").drop first.length = ascii "Delay: 7" := List.drop_left
  apply shows_of_number (c := 5) _ hi
  · rw [hdrop]
    decide
  · rw [hdrop]
    decide
  · rw [List.length_append]
    exact Nat.add_lt_add_left (by decide) _
  · rw [← List.drop_drop, hdrop]
    decide
  · intro s hs
    exact CBsd.getHeaderValue_of_none 1 (by rw [hs]; exact h)

variable {i : Nat} (hi : indexOf? delayName first = some i)

include hi

/-- Without a line end behind the name, the fragment alone has no delay. -/
theorem getHeaderValue_of_open (hcr : ¬ crlf <:+: first.drop i) (s : CString)
    (hs : s.chars = first) : getHeaderValue 1 s delayName = .ok 0 := by
  subst hs
  exact CBsd.getHeaderValue_of_no_crlf 1 hi (indexOf?_eq_none_iff.mpr hcr)

private theorem drop_append (more : Bytes) : (first ++ more).drop i = first.drop i ++ more := by
  have := indexOf?_add_length_le hi
  exact List.drop_append_of_le_length (by omega)

/-- Behind an open line without a colon, the colon and a number. -/
theorem shows_of_no_colon (hc : indexOf? (ascii ":") (first.drop i) = none)
    (hcr : ¬ crlf <:+: first.drop i) : Shows first (ascii ": 7" ++ crlf) := by
  have hle := indexOf?_add_length_le hi
  have hsplit : i + ((first.drop i).length + 2) = first.length + 2 := by
    rw [List.length_drop]
    omega
  apply shows_of_number (c := (first.drop i).length) (getHeaderValue_of_open hi hcr)
    (indexOf?_append_left _ hi)
  · rw [drop_append hi]
    exact indexOf?_append_of_not_infix (ascii " 7") (by decide) (indexOf?_eq_none_iff.mp hc)
  · rw [drop_append hi]
    exact not_crlf_infix_append hcr (by decide) (by decide)
  · rw [hsplit, List.length_append]
    exact Nat.add_lt_add_left (by decide) _
  · rw [hsplit, ← List.drop_drop, List.drop_left]
    decide

/-- Behind a line that ends without a colon, a colon. -/
theorem shows_of_no_colon_of_lineEnd (hc : indexOf? (ascii ":") (first.drop i) = none)
    (hcr : crlf <:+: first.drop i) : Shows first (ascii ":") := by
  intro s t hs ht hbase heq
  obtain ⟨e, he⟩ := Option.ne_none_iff_exists'.mp (mt indexOf?_eq_none_iff.mp (not_not.mpr hcr))
  have hle := indexOf?_add_length_le he
  have hcolon := indexOf?_append_of_not_infix (c := 58) (w := []) (p := first.drop i) []
    (by decide) (indexOf?_eq_none_iff.mp hc)
  have hname : indexOf? delayName t.chars = some i := by
    rw [ht]
    exact indexOf?_append_left _ hi
  have hvalue := CBsd.getHeaderValue_of_found 1 hname
    (by rw [ht, drop_append hi]; exact hcolon)
    (by rw [ht, drop_append hi]; exact indexOf?_append_left _ he)
  subst hs
  rw [getHeaderValue_of_no_colon 1 hi hc hcr hbase] at heq
  cases heq.trans hvalue

/-- Behind an open line with a colon whose number is not a settled zero, one more digit. -/
theorem shows_of_unsettled {c : Nat} (hc : indexOf? (ascii ":") (first.drop i) = some c)
    (hcr : ¬ crlf <:+: first.drop i) (hz : ¬ SettledZero (first.drop (i + (c + 2)))) :
    Shows first (ascii "7" ++ crlf) ∨ Shows first (ascii " 7" ++ crlf) := by
  have hle := indexOf?_add_length_le hi
  have hlt := indexOf?_add_length_le hc
  have hcolon : (ascii ":").length = 1 := rfl
  rw [List.length_drop] at hlt
  by_cases hlast : i + (c + 2) ≤ first.length
  · left
    apply shows_of_number (getHeaderValue_of_open hi hcr) (indexOf?_append_left _ hi)
    · rw [drop_append hi]
      exact indexOf?_append_left _ hc
    · rw [drop_append hi]
      exact not_crlf_infix_append hcr (by decide) (by decide)
    · rw [List.length_append]
      exact Nat.lt_add_one_of_le hlast
    · rw [List.drop_append_of_le_length hlast]
      intro hscan
      have hsome : scanNumber? (first.drop (i + (c + 2)) ++ [55]) = some 0 := by
        rw [sscanf] at hscan
        cases hnumber : scanNumber? (first.drop (i + (c + 2)) ++ ascii "7") with
        | none =>
          rw [hnumber] at hscan
          cases hscan
        | some n =>
          rw [hnumber] at hscan
          exact hnumber.trans (congrArg some hscan)
      exact hz (settledZero_of_scanNumber? (by decide) (by decide) hsome)
  · right
    have hend : i + (c + 2) = first.length + 1 := by omega
    apply shows_of_number (c := c) (getHeaderValue_of_open hi hcr) (indexOf?_append_left _ hi)
    · rw [drop_append hi]
      exact indexOf?_append_left _ hc
    · rw [drop_append hi]
      exact not_crlf_infix_append hcr (by decide) (by decide)
    · rw [hend, List.length_append]
      exact Nat.add_lt_add_left (by decide) _
    · rw [hend, ← List.drop_drop, List.drop_left]
      decide

end Shows

/-- A fragment that does not settle the delay shows what stands behind it. -/
theorem exists_shows {first : Bytes} (h : ¬ Decides first) :
    ∃ behind, NulFree behind ∧ behind.length ≤ 10 ∧ Shows first behind := by
  cases hi : indexOf? delayName first with
  | none => exact ⟨_, by decide, by decide, shows_of_no_name hi⟩
  | some i =>
    cases hc : indexOf? (ascii ":") (first.drop i) with
    | none =>
      by_cases hcr : crlf <:+: first.drop i
      · exact ⟨_, by decide, by decide, shows_of_no_colon_of_lineEnd hi hc hcr⟩
      · exact ⟨_, by decide, by decide, shows_of_no_colon hi hc hcr⟩
    | some c =>
      have hcr : ¬ crlf <:+: first.drop i := fun hcr ↦ h (.inr ⟨i, c, hi, hc, .inl hcr⟩)
      have hz : ¬ SettledZero (first.drop (i + (c + 2))) := fun hz ↦
        h (.inr ⟨i, c, hi, hc, .inr hz⟩)
      rcases shows_of_unsettled hi hc hcr hz with hshows | hshows
      · exact ⟨_, by decide, by decide, hshows⟩
      · exact ⟨_, by decide, by decide, hshows⟩

/-- The first fragment at address 4096, with some bytes behind it. -/
def Netbuf.payload (inbuf : Netbuf) (behind : Bytes) (h : behind.length ≤ 10) : Payload where
  base := 4096
  fragment := inbuf.first
  behind := behind
  base_pos := by omega
  fits := by
    have hshort := inbuf.short
    rw [List.length_append] at hshort
    omega

/-- The string at the payload is the first fragment and those bytes. -/
theorem Netbuf.chars_payload (inbuf : Netbuf) {behind : Bytes} (h : behind.length ≤ 10)
    (hnul : NulFree inbuf.first) (hbehind : NulFree behind) :
    (inbuf.payload behind h).string.chars = inbuf.first ++ behind := by
  have hchars : (inbuf.payload behind h).string.chars = inbuf.first ++ upToNul behind :=
    Payload.chars_string hnul
  rw [hchars, upToNul_of_nulFree hbehind]

/-- For every chain of fragments: the delay is the one of all bytes received, wherever the
chain lies and whatever follows it in memory, if and only if the first fragment settles it. -/
theorem parsesExactly_iff (inbuf : Netbuf) : ParsesExactly inbuf ↔ Decides inbuf.first := by
  constructor
  · intro h
    by_contra hdecides
    have hnul : NulFree inbuf.first := fun b hb hzero ↦ hdecides (.inl (hzero ▸ hb))
    obtain ⟨behind, hbehind, hlen, hshows⟩ := exists_shows hdecides
    have hbytes : (upToNul inbuf.bytes).length < 2 ^ 16 :=
      (List.takeWhile_prefix _).length_le.trans_lt inbuf.short
    let text : CString := ⟨4096, upToNul inbuf.bytes, by decide, by omega, nulFree_upToNul _⟩
    have hplain := h (inbuf.payload [] (by decide)) text 1 rfl rfl rfl
    have hfull := h (inbuf.payload behind hlen) text 1 rfl rfl rfl
    have hbase : 2 < (inbuf.payload [] (by decide)).string.base := show 2 < 4096 by decide
    apply hshows _ _ _ (inbuf.chars_payload hlen hnul hbehind) hbase (hplain.trans hfull.symm)
    rw [inbuf.chars_payload _ hnul (List.forall_mem_nil _), List.append_nil]
  · intro h recvBuf text slot hfragment hbase htext
    rw [Netbuf.bytes] at htext
    by_cases hnul : 0 ∈ inbuf.first
    · have hsame : recvBuf.string = text := by
        apply CString.ext_chars hbase.symm
        rw [htext, upToNul_append_of_mem _ hnul, ← upToNul_append_of_mem recvBuf.behind hnul,
          ← hfragment]
        rfl
      rw [receivedDelay, hsame]
    · have hfree : NulFree inbuf.first := fun b hb hzero ↦ hnul (hzero ▸ hb)
      rw [upToNul_append _ hfree] at htext
      have hchars : recvBuf.string.chars = inbuf.first ++ upToNul recvBuf.behind := by
        rw [Payload.chars_string (by rw [hfragment]; exact hfree), hfragment]
      exact getHeaderValue_eq_of_decides slot h hnul hchars htext

/-- A request without a delay, in one fragment. -/
def plainRequest : Netbuf := ⟨ascii "GET / HTTP/1.1\r\n\r\n", [], by decide⟩

/-- A request whose delay is cut in two. -/
def cutRequest : Netbuf := ⟨ascii "GET / HTTP/1.1\r\nDelay: 5", [ascii "00\r\n\r\n"], by decide⟩

/-- Memory behind a plain request gives it a delay, and a request in two fragments loses its
own, although zeros follow the first one. -/
theorem not_parsesExactly_plainRequest_cutRequest :
    (receivedDelay 0 (plainRequest.payload (ascii "Delay: 7\r\n") (by decide)) = .ok 7 ∧
      ¬ ParsesExactly plainRequest) ∧
    (receivedDelay 0 (cutRequest.payload [] (by decide)) = .ok 0 ∧ ¬ ParsesExactly cutRequest) := by
  refine ⟨⟨by decide, ?_⟩, by decide, ?_⟩
  · intro h
    have hplain := h (plainRequest.payload (ascii "Delay: 7\r\n") (by decide))
      ⟨4096, plainRequest.bytes, by decide, by decide, by decide⟩ 0 rfl rfl (by decide)
    exact absurd hplain (by decide)
  · intro h
    have hcut := h (cutRequest.payload [] (by decide))
      ⟨4096, cutRequest.bytes, by decide, by decide, by decide⟩ 0 rfl rfl (by decide)
    exact absurd hcut (by decide)

end Esp32WebServers.CNetconn
