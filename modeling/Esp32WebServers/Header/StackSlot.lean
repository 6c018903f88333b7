import Esp32WebServers.Header.Slices

/-!
# The uninitialised integer of `get_header_value`

The local `value_as_int` (`web_server/c_bsd/main/tcp_server.c:179`, and the same line in
the Netconn and Asio servers) is not initialised, and `sscanf` leaves it alone on a
matching failure. This module says for which texts a stack slot's former content, which
may stem from an earlier request, shows in the delay.
-/

namespace Esp32WebServers

open Base

/-- The milliseconds that a handler is to wait before it answers; it waits only for a positive
delay (`web_server/c_bsd/main/tcp_server.c:131`). The C servers round them to ticks. -/
def waited (delay : Int) : Int := if 0 < delay then delay else 0

/-- The delay parsed with a stack slot's content as the argument does not depend on that
content, and neither does the wait after any two histories of received texts, whatever
each of them leaves in the slot. -/
structure SlotIndependent (parse : Int → Except Fault Int) : Prop where
  value : ∀ slot₁ slot₂, parse slot₁ = parse slot₂
  wait : ∀ (stack : List Bytes → Int) (history₁ history₂ : List Bytes),
    (parse (stack history₁)).map waited = (parse (stack history₂)).map waited

/-- The header value that was found, if any, starts with a number. -/
def ReadsNumber (value : Option Block) : Prop :=
  ∀ block, value = some block → startsWithNumber block.text = true

/-- Whether a copied value hides the slot depends on its text only. -/
theorem valueAsInt_slotIndependent_iff (value : Option Block) :
    SlotIndependent (fun slot ↦ valueAsInt slot (.ok value)) ↔ ReadsNumber value := by
  constructor
  · intro h block hblock
    subst hblock
    rw [← scanNumber?_isSome_iff]
    by_contra hnone
    rw [Option.not_isSome_iff_eq_none] at hnone
    -- Without a match the slot itself comes back.
    have hslot (slot : Int) : valueAsInt slot (.ok (some block)) = .ok slot := by
      change Except.ok (sscanf block.text slot) = .ok slot
      rw [sscanf, hnone, Option.getD_none]
    have heq := h.value 1 2
    simp only [hslot] at heq
    cases heq
  · intro h
    have hconst (slot₁ slot₂ : Int) :
        valueAsInt slot₁ (.ok value) = valueAsInt slot₂ (.ok value) := by
      cases value with
      | none => rfl
      | some block =>
        have hsome := (scanNumber?_isSome_iff block.text).mpr (h block rfl)
        obtain ⟨n, hn⟩ := Option.isSome_iff_exists.mp hsome
        change Except.ok (sscanf block.text slot₁) = Except.ok (sscanf block.text slot₂)
        rw [sscanf, sscanf, hn, Option.getD_some, Option.getD_some]
    constructor
    · exact hconst
    · intro stack history₁ history₂
      exact congrArg (Except.map waited) (hconst _ _)

/-- Where the text has the name `Delay` and, at `e` behind its first occurrence `i`, the end of
that line, and where `start i` lies in front of that end: what stands between the two begins with
a number. -/
def NumberFrom (text : Bytes) (start : Nat → Nat) : Prop :=
  ∀ i e, indexOf? delayName text = some i → indexOf? crlf (text.drop i) = some e →
    start i < i + e → startsWithNumber ((text.drop (start i)).take (i + e - start i)) = true

private theorem numberFrom_of_no_name {text : Bytes} (start : Nat → Nat)
    (h : indexOf? delayName text = none) : NumberFrom text start := by
  intro i e hi
  rw [h] at hi
  cases hi

private theorem numberFrom_of_no_crlf {text : Bytes} (start : Nat → Nat) {i : Nat}
    (hi : indexOf? delayName text = some i) (he : indexOf? crlf (text.drop i) = none) :
    NumberFrom text start := by
  intro j e hj hend
  cases Option.some.inj (hi.symm.trans hj)
  rw [he] at hend
  cases hend

private theorem numberFrom_iff_of_found {text : Bytes} (start : Nat → Nat) {i e : Nat}
    (hi : indexOf? delayName text = some i) (he : indexOf? crlf (text.drop i) = some e) :
    NumberFrom text start ↔ (start i < i + e →
      startsWithNumber ((text.drop (start i)).take (i + e - start i)) = true) := by
  constructor
  · intro h
    exact h i e hi he
  · intro h j d hj hd
    cases Option.some.inj (hi.symm.trans hj)
    cases Option.some.inj (he.symm.trans hd)
    exact h

/-- The value copied between two positions of a text starts with a number exactly where the text
does between them. -/
theorem readsNumber_copyValue_iff {data : CString} {start stop spare : Nat} {value : Option Block}
    (hcopy : copyValue data (data.base + start) (data.base + stop) spare = .ok value)
    (hstop : stop ≤ data.chars.length) :
    ReadsNumber value ↔ (start < stop →
      startsWithNumber ((data.chars.drop start).take (stop - start)) = true) := by
  rcases Nat.lt_or_ge start stop with hlt | hle
  · have hsum : start + (stop - start) = stop := by omega
    have hslice := copyValue_of_lt data spare (Nat.sub_pos_of_lt hlt) (hlt.le.trans hstop)
    rw [hsum, hcopy] at hslice
    cases hslice
    constructor
    · intro h _
      exact h _ rfl
    · rintro h block ⟨⟩
      exact h hlt
  · rw [copyValue_of_le data spare (by omega)] at hcopy
    cases hcopy
    constructor
    · intro _ hlt
      omega
    · rintro _ block ⟨⟩

/-- Where the value of a name at `i` starts in the C servers: two behind the first colon from
there on, or at address 2 where no colon follows. -/
def CBsd.valueStart (data : CString) (i : Nat) : Nat :=
  match indexOf? (ascii ":") (data.chars.drop i) with
  | some c => i + (c + 2)
  | none => 2 - data.base

/-- Where the value of a name at `i` starts in the Asio server: two behind the name. -/
def CppAsio.valueStart (i : Nat) : Nat := i + (delayName.length + 2)

private theorem lineEnd_le {data : CString} {i e : Nat}
    (he : indexOf? crlf (data.chars.drop i) = some e)
    (hi : indexOf? delayName data.chars = some i) : i + e ≤ data.chars.length := by
  have hname := indexOf?_add_length_le hi
  have hend := indexOf?_add_length_le he
  rw [List.length_drop] at hend
  omega

/-- What the C lookup finds starts with a number exactly where the text does from the value's
start on. -/
theorem CBsd.readsNumber_iff {data : CString} {value : Option Block}
    (h : CBsd.getHeader data delayName = .ok value) :
    ReadsNumber value ↔ NumberFrom data.chars (CBsd.valueStart data) := by
  cases hi : indexOf? delayName data.chars with
  | none =>
    rw [CBsd.getHeader_of_none hi] at h
    cases h
    exact iff_of_true (by rintro block ⟨⟩) (numberFrom_of_no_name _ hi)
  | some i =>
    cases he : indexOf? crlf (data.chars.drop i) with
    | none =>
      rw [CBsd.getHeader_of_no_crlf hi he] at h
      cases h
      exact iff_of_true (by rintro block ⟨⟩) (numberFrom_of_no_crlf _ hi he)
    | some e =>
      rw [numberFrom_iff_of_found _ hi he]
      -- Both searches give the value's start as a position of the text.
      have hcopy : copyValue data (data.base + CBsd.valueStart data i) (data.base + (i + e)) 1 =
          .ok value := by
        cases hc : indexOf? (ascii ":") (data.chars.drop i) with
        | some c =>
          have hstart : data.base + CBsd.valueStart data i = data.base + i + c + 2 := by
            simp only [CBsd.valueStart, hc]
            omega
          rw [hstart, ← Nat.add_assoc, ← h, CBsd.getHeader_of_some hi, data.strstr_of_some hc,
            data.strstr_of_some he]
        | none =>
          -- A copy from address 2 in front of the text would have been a fault.
          have hlow : data.base ≤ 2 := by
            by_contra hbase
            rw [CBsd.getHeader_of_no_colon hi hc he,
              copyValue_of_low data 1 (by omega) (by omega)] at h
            cases h
          have hstart : data.base + CBsd.valueStart data i = 2 := by
            simp only [CBsd.valueStart, hc]
            omega
          rw [hstart, ← h, CBsd.getHeader_of_no_colon hi hc he]
      exact readsNumber_copyValue_iff hcopy (lineEnd_le he hi)

/-- The Asio lookup never faults, and what it finds starts with a number exactly where the text
does from the value's start on. -/
theorem CppAsio.exists_readsNumber_iff (data : CString) :
    ∃ value, CppAsio.getHeader data delayName = .ok value ∧
      (ReadsNumber value ↔ NumberFrom data.chars CppAsio.valueStart) := by
  cases hi : indexOf? delayName data.chars with
  | none =>
    exact ⟨none, CppAsio.getHeader_of_none hi,
      iff_of_true (by rintro block ⟨⟩) (numberFrom_of_no_name _ hi)⟩
  | some i =>
    cases he : indexOf? crlf (data.chars.drop i) with
    | none =>
      exact ⟨none, CppAsio.getHeader_of_no_crlf hi he,
        iff_of_true (by rintro block ⟨⟩) (numberFrom_of_no_crlf _ hi he)⟩
    | some e =>
      obtain ⟨value, hvalue⟩ : ∃ value, CppAsio.getHeader data delayName = .ok value := by
        rw [CppAsio.getHeader_of_found hi he]
        split
        · exact ⟨_, rfl⟩
        · exact ⟨_, rfl⟩
      refine ⟨value, hvalue, ?_⟩
      rw [CppAsio.getHeader_of_some hi, data.strstr_of_some he, Nat.add_assoc] at hvalue
      rw [numberFrom_iff_of_found _ hi he]
      exact readsNumber_copyValue_iff hvalue (lineEnd_le he hi)

/-- In each of the three servers, for every text whose lookup does not fault, the delay is
independent of the stack slot exactly where what stands in the text between the value's start
and the line end begins with a number, or nothing stands there. -/
theorem getHeaderValue_slotIndependent_iff (data : CString) :
    ((∃ value, CBsd.getHeader data delayName = .ok value) →
      (SlotIndependent (fun slot ↦ CBsd.getHeaderValue slot data delayName) ↔
        NumberFrom data.chars (CBsd.valueStart data))) ∧
    ((∃ value, CNetconn.getHeader data delayName = .ok value) →
      (SlotIndependent (fun slot ↦ CNetconn.getHeaderValue slot data delayName) ↔
        NumberFrom data.chars (CBsd.valueStart data))) ∧
    (SlotIndependent (fun slot ↦ CppAsio.getHeaderValue slot data delayName) ↔
      NumberFrom data.chars CppAsio.valueStart) := by
  refine ⟨?_, ?_, ?_⟩
  · rintro ⟨value, h⟩
    simp only [CBsd.getHeaderValue, h]
    rw [valueAsInt_slotIndependent_iff, CBsd.readsNumber_iff h]
  · rintro ⟨value, h⟩
    simp only [CNetconn.getHeaderValue, h]
    rw [valueAsInt_slotIndependent_iff, CBsd.readsNumber_iff h]
  · obtain ⟨value, h, hnumber⟩ := CppAsio.exists_readsNumber_iff data
    simp only [CppAsio.getHeaderValue, h]
    rw [valueAsInt_slotIndependent_iff, hnumber]

/-- A request whose delay is a number. -/
def numberText : CString where
  base := 4096
  chars := ascii "GET / HTTP/1.1\r\nDelay: 450\r\n\r\n"
  base_pos := by decide
  fits := by decide
  nulFree := by decide

/-- The lookup of a numeric delay hides the slot. -/
theorem numberText_slotIndependent :
    SlotIndependent (fun slot ↦ CBsd.getHeaderValue slot numberText delayName) := by
  have hfound : CBsd.getHeader numberText delayName =
      .ok (some ⟨5, ascii "450", 3, by decide⟩) := by
    decide
  refine ((getHeaderValue_slotIndependent_iff numberText).1 ⟨_, hfound⟩).mpr ?_
  intro i e hi he _
  have hname : indexOf? delayName numberText.chars = some 16 := by decide
  cases Option.some.inj (hname.symm.trans hi)
  have hend : indexOf? crlf (numberText.chars.drop 16) = some 10 := by decide
  cases Option.some.inj (hend.symm.trans he)
  decide

/-- A request whose delay is a word. -/
def wordText : CString where
  base := 4096
  chars := ascii "GET / HTTP/1.1\r\nDelay: abc\r\n\r\n"
  base_pos := by decide
  fits := by decide
  nulFree := by decide

/-- The lookup of the word succeeds in each server, and the delay is the stack slot. -/
theorem wordText_not_slotIndependent :
    (∃ block, CBsd.getHeader wordText delayName = .ok (some block)) ∧
      ¬ SlotIndependent (fun slot ↦ CBsd.getHeaderValue slot wordText delayName) ∧
      ¬ SlotIndependent (fun slot ↦ CNetconn.getHeaderValue slot wordText delayName) ∧
      ¬ SlotIndependent (fun slot ↦ CppAsio.getHeaderValue slot wordText delayName) := by
  have hslots (parse : Int → Except Fault Int) (h₁ : parse 500 = .ok 500)
      (h₂ : parse 7000 = .ok 7000) : ¬ SlotIndependent parse := by
    intro h
    have heq := h.value 500 7000
    rw [h₁, h₂] at heq
    cases heq
  refine ⟨⟨⟨5, ascii "abc", 3, by decide⟩, by decide⟩, ?_, ?_, ?_⟩
  · exact hslots _ (by decide) (by decide)
  · exact hslots _ (by decide) (by decide)
  · exact hslots _ (by decide) (by decide)

end Esp32WebServers
