import Esp32WebServers.Header.ReadRequest
import Esp32WebServers.Header.Receive

/-!
# What earlier reads leave in the buffer of the Rust server

`read_request` (`web_server/rust/src/main.rs:160–189`) neither clears its buffer between two
reads of a call nor looks at the number of bytes read, so behind a short chunk stand the
bytes of longer ones before it. This module says when they show in the delay.
-/

namespace Esp32WebServers.Rust

open Base

/-- The buffer of a call whose only chunk is this one: zeros behind it. -/
def padded (chunk : Bytes) : Bytes := overlay emptyBuffer chunk

/-- The bytes that stand behind a chunk after earlier chunks of the same call. -/
def leftover (earlier : List Bytes) (chunk : Bytes) : Bytes :=
  (earlier.foldl overlay emptyBuffer).drop chunk.length

/-- A request is decided by the chunk that it was answered after: this begins with `GET`, and
the delay is the one that the lookup finds in it. -/
structure FromChunk (chunk : Bytes) (delay : Nat) : Prop where
  begins : ascii "GET" <+: chunk
  delay : getHeader (padded chunk) delayName = .ok delay

/-- The first `Delay` line of the buffer has a positive number, and it ends behind the chunk. -/
def BorrowsDelay (chunk behind : Bytes) : Prop :=
  ∃ i e n, indexOf? delayName (chunk ++ behind) = some i ∧
    indexOf? crlf ((chunk ++ behind).drop (i + 7)) = some e ∧
    parseU64? (((chunk ++ behind).drop (i + 7)).take e) = some n ∧ 0 < n ∧
    chunk.length < i + 7 + e + 2

/-- The line that a chunk holds of itself: the name, and a line end behind its value. -/
def OwnLine (chunk : Bytes) (i e : Nat) : Prop :=
  indexOf? delayName chunk = some i ∧ indexOf? crlf (chunk.drop (i + 7)) = some e

/-- Reads into a buffer of 1024 bytes fill it with their bytes and leave its size. -/
theorem foldl_overlay {chunks : List Bytes} {buffer : Bytes}
    (hchunks : ∀ chunk ∈ chunks, IsAscii chunk ∧ chunk.length ≤ 1024) (ha : IsAscii buffer)
    (hlen : buffer.length = 1024) :
    IsAscii (chunks.foldl overlay buffer) ∧ (chunks.foldl overlay buffer).length = 1024 := by
  induction chunks generalizing buffer with
  | nil => exact ⟨ha, hlen⟩
  | cons chunk chunks ih =>
    rw [List.forall_mem_cons] at hchunks
    rw [List.foldl_cons]
    apply ih hchunks.2
    · apply isAscii_append.mpr
      exact ⟨hchunks.1.1, fun b hb ↦ ha b (List.mem_of_mem_drop hb)⟩
    · rw [overlay, List.length_append, List.length_drop]
      omega

/-- The first request is made of all chunks up to the one that completes it. -/
theorem foldl_of_firstRequest? {buffer b : Bytes} {chunks rest : List Bytes}
    (h : firstRequest? buffer chunks = some (b, rest)) :
    ∃ taken, chunks = taken ++ rest ∧ taken.foldl overlay buffer = b := by
  induction chunks generalizing buffer with
  | nil => cases h
  | cons chunk chunks ih =>
    rw [firstRequest?] at h
    split at h
    · cases h
      exact ⟨[chunk], rfl, rfl⟩
    · obtain ⟨taken, hchunks, hb⟩ := ih h
      refine ⟨chunk :: taken, ?_, hb⟩
      rw [hchunks, List.cons_append]

/-- A call that returns a delay after the last of its chunks has found it in the buffer that
this chunk has completed. -/
theorem of_readRequest_eq_ok {earlier : List Bytes} {chunk : Bytes} {delay : Nat}
    (h : readRequest ((earlier ++ [chunk]).map Read.ok) = .ok (some (.ok delay, []))) :
    Parsable (chunk ++ leftover earlier chunk) ∧
      getHeader (chunk ++ leftover earlier chunk) delayName = .ok delay := by
  cases hfirst : firstRequest? emptyBuffer (earlier ++ [chunk]) with
  | none =>
    rw [readRequest_of_none hfirst] at h
    cases h
  | some p =>
    obtain ⟨b, rest⟩ := p
    have hread := readRequest_of_some [] hfirst
    rw [List.append_nil, List.append_nil] at hread
    rw [hread] at h
    cases hparse : parseRequest b with
    | error panic =>
      rw [hparse] at h
      cases h
    | ok request =>
      rw [hparse] at h
      have hpair := Prod.mk.inj (Option.some.inj (Except.ok.inj h))
      have hrest : rest = [] := List.map_eq_nil_iff.mp hpair.2
      obtain ⟨taken, htaken, hb⟩ := foldl_of_firstRequest? hfirst
      rw [hrest, List.append_nil] at htaken
      have hbuffer : b = chunk ++ leftover earlier chunk := by
        rw [← hb, ← htaken, List.foldl_append]
        rfl
      rw [hpair.1] at hparse
      obtain ⟨hparsable, n, hn, heq⟩ := (parseRequest_eq_ok_iff b (.ok delay)).mp hparse
      cases heq
      rw [hbuffer] at hparsable hn
      exact ⟨hparsable, hn⟩

/-- A line of the chunk itself decides the lookup, whatever stands behind the chunk. -/
theorem getHeader_of_ownLine {chunk : Bytes} {i e : Nat} (h : OwnLine chunk i e)
    (behind : Bytes) (ha : IsAscii (chunk ++ behind)) :
    getHeader (chunk ++ behind) delayName =
      .ok ((parseU64? ((chunk.drop (i + 7)).take e)).getD 0) := by
  obtain ⟨hi, he⟩ := h
  have hend := indexOf?_add_length_le he
  have hcrlf : crlf.length = 2 := rfl
  have hname : delayName.length = 5 := rfl
  rw [List.length_drop] at hend
  have hdrop : (chunk ++ behind).drop (i + 7) = chunk.drop (i + 7) ++ behind :=
    List.drop_append_of_le_length (by omega)
  rw [getHeader_of_some ha (by decide) (indexOf?_append_left behind hi)
    (by rw [List.length_append]; omega)]
  change Except.ok (lineNumber ((chunk ++ behind).drop (i + 7))) = _
  rw [hdrop, lineNumber_of_some (indexOf?_append_left behind he),
    List.take_append_of_le_length (by rw [List.length_drop]; omega)]

/-- The buffer of a single chunk holds the chunk and zeros. -/
theorem padded_eq (chunk : Bytes) :
    padded chunk = chunk ++ List.replicate (1024 - chunk.length) 0 := overlay_emptyBuffer

/-- A delay of the chunk's own line is not borrowed. -/
theorem not_borrowsDelay_of_ownLine {chunk : Bytes} {i e : Nat} (h : OwnLine chunk i e)
    (behind : Bytes) : ¬ BorrowsDelay chunk behind := by
  obtain ⟨hi, he⟩ := h
  rintro ⟨i', e', n, hi', he', -, -, hend⟩
  cases Option.some.inj ((indexOf?_append_left behind hi).symm.trans hi')
  have hle := indexOf?_add_length_le he
  have hcrlf : crlf.length = 2 := rfl
  rw [List.length_drop] at hle
  rw [List.drop_append_of_le_length (by omega)] at he'
  cases Option.some.inj ((indexOf?_append_left behind he).symm.trans he')
  omega

/-- A chunk without a line of its own asks for no delay. -/
theorem getHeader_padded_of_noLine {chunk : Bytes} (h : ∀ i e, ¬ OwnLine chunk i e)
    (ha : IsAscii chunk) (hin : ∀ i, indexOf? delayName chunk = some i → i + 7 ≤ 1024)
    (hlen : chunk.length ≤ 1024) : getHeader (padded chunk) delayName = .ok 0 := by
  rw [padded_eq]
  cases hi : indexOf? delayName chunk with
  | none =>
    apply getHeader_of_none
    rw [indexOf?_append_replicate _ (by decide) (by decide), hi]
  | some i =>
    have hbound := hin i hi
    rw [getHeader_of_some (isAscii_append_zeros _ ha) (by decide)
      (indexOf?_append_left _ hi) (by
        rw [List.length_append, List.length_replicate]
        change i + 5 + 2 ≤ _
        omega)]
    have hnone : indexOf? crlf ((chunk ++ List.replicate (1024 - chunk.length) 0).drop
        (i + delayName.length + 2)) = none := by
      rw [List.drop_append, List.drop_replicate,
        indexOf?_append_replicate _ (by decide) (by decide)]
      cases he : indexOf? crlf (chunk.drop (i + delayName.length + 2)) with
      | none => rfl
      | some e => exact absurd ⟨hi, he⟩ (h i e)
    rw [lineNumber_of_none hnone]

/-- A line that the buffer holds within the chunk is the chunk's own. -/
theorem ownLine_of_append {chunk behind : Bytes} {i e : Nat}
    (hi : indexOf? delayName (chunk ++ behind) = some i)
    (he : indexOf? crlf ((chunk ++ behind).drop (i + 7)) = some e)
    (hend : i + 7 + e + 2 ≤ chunk.length) : OwnLine chunk i e := by
  constructor
  · apply indexOf?_of_append_left hi
    change i + 5 ≤ chunk.length
    omega
  · rw [List.drop_append_of_le_length (by omega)] at he
    apply indexOf?_of_append_left he
    rw [List.length_drop]
    change e + 2 ≤ _
    omega

/-- Without a line of its own, a chunk borrows a delay where the lookup finds one. -/
theorem borrowsDelay_iff_of_noLine {chunk behind : Bytes} {delay : Nat}
    (h : ∀ i e, ¬ OwnLine chunk i e) (ha : IsAscii (chunk ++ behind))
    (hin : ∀ i ∈ indexOf? delayName (chunk ++ behind), i + 7 ≤ (chunk ++ behind).length)
    (hdelay : getHeader (chunk ++ behind) delayName = .ok delay) :
    BorrowsDelay chunk behind ↔ 0 < delay := by
  cases hi : indexOf? delayName (chunk ++ behind) with
  | none =>
    rw [getHeader_of_none hi] at hdelay
    cases hdelay
    constructor
    · rintro ⟨i, e, n, hi', -⟩
      rw [hi] at hi'
      cases hi'
    · intro hpos
      exact absurd hpos (Nat.lt_irrefl 0)
  | some i =>
    rw [getHeader_of_some ha (by decide) hi (hin i hi), Except.ok.injEq] at hdelay
    rw [← hdelay, lineNumber_pos_iff]
    constructor
    · rintro ⟨i', e, n, hi', he, hn, hpos, -⟩
      cases Option.some.inj (hi.symm.trans hi')
      exact ⟨e, n, he, hn, hpos⟩
    · rintro ⟨e, n, he, hn, hpos⟩
      refine ⟨i, e, n, hi, he, hn, hpos, ?_⟩
      by_contra hend
      exact h i e (ownLine_of_append hi he (by omega))

/-- After ASCII chunks, the buffer behind which a call returns is ASCII, of 1024 bytes, and
holds the name only where the slice of its value begins inside. -/
theorem buffer_of_readRequest {earlier : List Bytes} {chunk : Bytes}
    (hchunks : ∀ c ∈ earlier ++ [chunk], IsAscii c ∧ c.length ≤ 1024)
    (hparsable : Parsable (chunk ++ leftover earlier chunk)) :
    IsAscii (chunk ++ leftover earlier chunk) ∧
      (chunk ++ leftover earlier chunk).length = 1024 ∧
      ∀ i ∈ indexOf? delayName (chunk ++ leftover earlier chunk), i + 7 ≤ 1024 := by
  have hempty : IsAscii emptyBuffer := by
    intro b hb
    rw [List.eq_of_mem_replicate hb]
    decide
  have hfold := foldl_overlay hchunks hempty List.length_replicate
  rw [List.foldl_append] at hfold
  obtain ⟨ha, hlen⟩ : IsAscii (chunk ++ leftover earlier chunk) ∧
      (chunk ++ leftover earlier chunk).length = 1024 := hfold
  refine ⟨ha, hlen, ?_⟩
  intro i hi
  have hbound := (hparsable.delay i hi).1
  have hchars := strLen_le (chunk ++ leftover earlier chunk)
  change i + 5 + 2 ≤ _ at hbound
  omega

/-- For every sequence of ASCII chunks that one call reads and answers after the last of them:
the request is decided by that chunk alone if and only if it begins with `GET` itself and the
first `Delay` line of the buffer, if it has a positive number, ends within the chunk. -/
theorem fromChunk_iff {earlier : List Bytes} {chunk : Bytes} {delay : Nat}
    (hchunks : ∀ c ∈ earlier ++ [chunk], IsAscii c ∧ c.length ≤ 1024)
    (hread : readRequest ((earlier ++ [chunk]).map Read.ok) = .ok (some (.ok delay, []))) :
    FromChunk chunk delay ↔
      ascii "GET" <+: chunk ∧ ¬ BorrowsDelay chunk (leftover earlier chunk) := by
  obtain ⟨hparsable, hdelay⟩ := of_readRequest_eq_ok hread
  obtain ⟨ha, htotal, hin⟩ := buffer_of_readRequest hchunks hparsable
  obtain ⟨hascii, hlen⟩ := hchunks chunk (List.mem_append_right _ List.mem_cons_self)
  by_cases hown : ∃ i e, OwnLine chunk i e
  · obtain ⟨i, e, hline⟩ := hown
    have hvalue := (getHeader_of_ownLine hline _ ha).symm.trans hdelay
    have hpadded : getHeader (padded chunk) delayName = .ok delay := by
      rw [← hvalue, padded_eq]
      exact getHeader_of_ownLine hline _ (isAscii_append_zeros _ hascii)
    constructor
    · intro h
      exact ⟨h.begins, not_borrowsDelay_of_ownLine hline _⟩
    · intro h
      exact ⟨h.1, hpadded⟩
  · have hnoLine : ∀ i e, ¬ OwnLine chunk i e := fun i e h ↦ hown ⟨i, e, h⟩
    have hpadded : getHeader (padded chunk) delayName = .ok 0 := by
      apply getHeader_padded_of_noLine hnoLine hascii _ hlen
      intro i hi
      exact hin i (indexOf?_append_left _ hi)
    have hborrows : BorrowsDelay chunk (leftover earlier chunk) ↔ 0 < delay := by
      apply borrowsDelay_iff_of_noLine hnoLine ha _ hdelay
      rw [htotal]
      exact hin
    rw [hborrows]
    constructor
    · intro h
      have hzero := Except.ok.inj (hpadded.symm.trans h.delay)
      exact ⟨h.begins, by omega⟩
    · rintro ⟨hbegins, hzero⟩
      have hd : delay = 0 := by omega
      rw [hd]
      exact ⟨hbegins, hpadded⟩

/-- Behind a chunk that does not begin with `GET`, a longer request is decided by itself. -/
theorem fromChunk_longerSecond : FromChunk (ascii "GET / HTTP/1.1\r\nDelay: 450\r\n") 450 := by
  apply (@fromChunk_iff [ascii "PING\r\n"] (ascii "GET / HTTP/1.1\r\nDelay: 450\r\n") 450
    (by decide) (by decide +kernel)).mpr
  constructor
  · decide
  · exact not_borrowsDelay_of_ownLine (i := 16) (e := 3) ⟨by decide, by decide⟩ _

/-- A shorter request behind a longer chunk takes over its delay, and one byte can complete
the word `GET`. -/
theorem not_fromChunk_putThenGet :
    readRequest [.ok (ascii "PUT / HTTP/1.1\r\nDelay: 500\r\n"), .ok (ascii "GET / HTTP/1.1\r\n")] =
      .ok (some (.ok 500, [])) ∧
      ¬ FromChunk (ascii "GET / HTTP/1.1\r\n") 500 ∧
      readRequest [.ok (ascii "PET"), .ok (ascii "G")] = .ok (some (.ok 0, [])) ∧
      ¬ FromChunk (ascii "G") 0 := by
  refine ⟨by decide +kernel, ?_, by decide +kernel, ?_⟩
  · intro h
    have hnone : getHeader (padded (ascii "GET / HTTP/1.1\r\n")) delayName = .ok 0 := by
      decide +kernel
    cases hnone.symm.trans h.delay
  · intro h
    exact absurd h.begins (by decide)

end Esp32WebServers.Rust
