import Esp32WebServers.Header.Rust

/-!
# The read loop of the Rust server

`read_request` (`web_server/rust/src/main.rs:160–189`) reads into one buffer until that
begins with `GET`, whatever part of it a read has filled. What it returns, and whether it
panics, is decided by the buffer at that moment. The server is built with `panic_abort`
(`web_server/rust/.cargo/config.toml:12`), so a panic ends the device's program.
-/

namespace Esp32WebServers.Rust

open Base

/-- The first request in a list of chunks: the buffer when it begins with `GET` for the first
time, and the chunks that are left. -/
def firstRequest? (buffer : Bytes) : List Bytes → Option (Bytes × List Bytes)
  | [] => none
  | chunk :: chunks =>
    if ascii "GET" <+: overlay buffer chunk then some (overlay buffer chunk, chunks)
    else firstRequest? (overlay buffer chunk) chunks

/-- The lookup of a header takes no slice, or one whose bounds are ordered, in range and on
boundaries of characters. -/
def Sliceable (data header : Bytes) : Prop :=
  ∀ i ∈ indexOf? header data,
    i + strLen header + 2 ≤ strLen data ∧ isCharBoundary data (i + strLen header + 2) = true ∧
      isCharBoundary data (strLen data) = true

instance (data header : Bytes) : Decidable (Sliceable data header) :=
  inferInstanceAs (Decidable (∀ i ∈ indexOf? header data, _))

/-- A buffer that is UTF-8 and in which both lookups can take their slices. -/
structure Parsable (buffer : Bytes) : Prop where
  utf8 : validUtf8 buffer = true
  momoryUsage : Sliceable buffer momoryUsageName
  delay : Sliceable buffer delayName

instance (buffer : Bytes) : Decidable (Parsable buffer) :=
  decidable_of_iff (validUtf8 buffer = true ∧ Sliceable buffer momoryUsageName ∧
    Sliceable buffer delayName) ⟨fun h ↦ ⟨h.1, h.2.1, h.2.2⟩, fun h ↦ ⟨h.1, h.2, h.3⟩⟩

/-- A string has at most as many characters as bytes. -/
theorem strLen_le (string : Bytes) : strLen string ≤ string.length := List.countP_le_length

/-- A slice panics unless its bounds are ordered, in range and on boundaries. -/
theorem slice_isOk_iff (data : Bytes) (start stop : Nat) :
    (∃ s, slice data start stop = .ok s) ↔
      start ≤ stop ∧ stop ≤ data.length ∧ isCharBoundary data start = true ∧
        isCharBoundary data stop = true := by
  unfold slice strSlice?
  split
  · next s hs =>
    rw [Option.ite_none_right_eq_some] at hs
    exact ⟨fun _ ↦ hs.1, fun _ ↦ ⟨s, rfl⟩⟩
  · next hs =>
    rw [ite_eq_right_iff] at hs
    constructor
    · rintro ⟨s, h⟩
      cases h
    · intro h
      cases hs h

/-- A slice up to a line end that was found does not panic. -/
theorem slice_isOk_of_crlf {s : Bytes} {e : Nat} (h : indexOf? crlf s = some e) :
    ∃ value, slice s 0 e = .ok value := by
  have hle := indexOf?_add_length_le h
  have hcr : s[e]? = some 13 := by
    obtain ⟨rest, hrest⟩ := (indexOf?_eq_some_iff.mp h).1
    rw [← List.head?_drop, ← hrest]
    rfl
  apply (slice_isOk_iff s 0 e).mpr
  refine ⟨Nat.zero_le _, by omega, rfl, ?_⟩
  unfold isCharBoundary
  rw [hcr, Option.map_some, isContinuation_of_ascii (by decide), Option.getD_some, Bool.not_false,
    Bool.or_true]

/-- The lookup of a header panics exactly where its slice does. -/
theorem getHeader_isOk_iff (data header : Bytes) :
    (∃ n, getHeader data header = .ok n) ↔ Sliceable data header := by
  unfold getHeader Sliceable
  cases hi : indexOf? header data with
  | none => simp
  | some i =>
    simp only [Option.mem_def, Option.some.injEq, forall_eq']
    have hslice := slice_isOk_iff data (i + strLen header + 2) (strLen data)
    constructor
    · rintro ⟨n, hn⟩
      cases hs : slice data (i + strLen header + 2) (strLen data) with
      | error panic =>
        rw [hs] at hn
        cases hn
      | ok s =>
        obtain ⟨hle, -, hstart, hstop⟩ := hslice.mp ⟨s, hs⟩
        exact ⟨hle, hstart, hstop⟩
    · rintro ⟨hle, hstart, hstop⟩
      obtain ⟨s, hs⟩ := hslice.mpr ⟨hle, strLen_le data, hstart, hstop⟩
      rw [hs]
      cases he : indexOf? crlf s with
      | none =>
        refine ⟨0, ?_⟩
        simp only [bind, Except.bind, he]
        rfl
      | some e =>
        obtain ⟨value, hvalue⟩ := slice_isOk_of_crlf he
        refine ⟨(parseU64? value).getD 0, ?_⟩
        simp only [bind, Except.bind, he, hvalue]
        rfl

/-- A buffer is parsed to the delay that the lookup finds in it, if it can be parsed. -/
theorem parseRequest_eq_ok_iff (buffer : Bytes) (request : Request) :
    parseRequest buffer = .ok request ↔
      Parsable buffer ∧ ∃ n, getHeader buffer delayName = .ok n ∧ request = .ok n := by
  unfold parseRequest
  by_cases hutf8 : validUtf8 buffer = true
  · rw [if_pos hutf8]
    cases hm : getHeader buffer momoryUsageName with
    | error panic =>
      have hnone : ¬ Sliceable buffer momoryUsageName := by
        rw [← getHeader_isOk_iff, hm]
        rintro ⟨n, h⟩
        cases h
      constructor
      · intro h
        cases h
      · intro h
        exact absurd h.1.momoryUsage hnone
    | ok m =>
      have hsome : Sliceable buffer momoryUsageName := (getHeader_isOk_iff _ _).mp ⟨m, hm⟩
      cases hd : getHeader buffer delayName with
      | error panic =>
        constructor
        · intro h
          cases h
        · rintro ⟨-, n, h, -⟩
          cases h
      | ok n =>
        have hdelay : Sliceable buffer delayName := (getHeader_isOk_iff _ _).mp ⟨n, hd⟩
        constructor
        · intro h
          cases h
          exact ⟨⟨hutf8, hsome, hdelay⟩, n, rfl, rfl⟩
        · rintro ⟨-, n', h, rfl⟩
          cases h
          rfl
  · rw [if_neg hutf8]
    constructor
    · intro h
      cases h
    · intro h
      exact absurd h.1.utf8 hutf8

/-- The body of the loop panics exactly where the buffer cannot be parsed. -/
theorem parseRequest_isOk_iff (buffer : Bytes) :
    (∃ request, parseRequest buffer = .ok request) ↔ Parsable buffer := by
  constructor
  · rintro ⟨request, h⟩
    exact ((parseRequest_eq_ok_iff buffer request).mp h).1
  · intro h
    obtain ⟨n, hn⟩ := (getHeader_isOk_iff buffer delayName).mpr h.delay
    exact ⟨.ok n, (parseRequest_eq_ok_iff buffer _).mpr ⟨h, n, hn, rfl⟩⟩

/-- The loop reads on through chunks without a request and parses the first request. -/
theorem readLoop_chunks (buffer : Bytes) (chunks : List Bytes) (more : List Read) :
    readLoop buffer (chunks.map Read.ok ++ more) =
      match firstRequest? buffer chunks with
      | none => readLoop (chunks.foldl overlay buffer) more
      | some (b, rest) =>
        (parseRequest b).map fun request ↦ some (request, rest.map Read.ok ++ more) := by
  induction chunks generalizing buffer with
  | nil => rfl
  | cons chunk chunks ih =>
    rw [List.map_cons, List.cons_append, readLoop, firstRequest?, List.foldl_cons]
    by_cases hget : ascii "GET" <+: overlay buffer chunk
    · simp only [if_pos hget]
      cases parseRequest (overlay buffer chunk) with
      | error panic => rfl
      | ok request => rfl
    · simp only [if_neg hget]
      exact ih (overlay buffer chunk)

/-- Without a request in the chunks, the loop waits for more. -/
theorem readRequest_of_none {chunks : List Bytes} (h : firstRequest? emptyBuffer chunks = none) :
    readRequest (chunks.map Read.ok) = .ok none := by
  have hloop := readLoop_chunks emptyBuffer chunks []
  rw [h, List.append_nil] at hloop
  exact hloop

/-- The first request is parsed, and the reads behind it are left. -/
theorem readRequest_of_some {chunks : List Bytes} {b : Bytes} {rest : List Bytes}
    (more : List Read) (h : firstRequest? emptyBuffer chunks = some (b, rest)) :
    readRequest (chunks.map Read.ok ++ more) =
      (parseRequest b).map fun request ↦ some (request, rest.map Read.ok ++ more) := by
  have hloop := readLoop_chunks emptyBuffer chunks more
  rw [h] at hloop
  exact hloop

/-- For all chunks of bytes that a call reads, the call gets through without a panic if and
only if the first request in them, if there is one, is UTF-8 and holds neither name where its
value's slice is out of order, out of range or inside a character. -/
theorem readRequest_isOk_iff (chunks : List Bytes) :
    (∃ result, readRequest (chunks.map Read.ok) = .ok result) ↔
      ∀ b rest, firstRequest? emptyBuffer chunks = some (b, rest) → Parsable b := by
  cases hfirst : firstRequest? emptyBuffer chunks with
  | none =>
    constructor
    · intro _ b rest h
      cases h
    · intro _
      exact ⟨none, readRequest_of_none hfirst⟩
  | some p =>
    obtain ⟨b, rest⟩ := p
    have hread := readRequest_of_some [] hfirst
    rw [List.append_nil, List.append_nil] at hread
    rw [hread]
    constructor
    · rintro ⟨result, h⟩ b' rest' heq
      cases heq
      cases hparse : parseRequest b with
      | error panic =>
        rw [hparse] at h
        cases h
      | ok request => exact (parseRequest_isOk_iff b).mp ⟨request, hparse⟩
    · intro h
      obtain ⟨request, hrequest⟩ := (parseRequest_isOk_iff b).mpr (h b rest rfl)
      rw [hrequest]
      exact ⟨_, rfl⟩

/-- A request of 1024 ASCII bytes that ends with the name. -/
def nameAtEnd : Bytes := ascii "GET" ++ (List.replicate 1016 65 ++ delayName)

private theorem length_nameAtEnd : nameAtEnd.length = 1024 := by
  rw [nameAtEnd, List.length_append, List.length_append, List.length_replicate]
  rfl

private theorem indexOf?_nameAtEnd : indexOf? delayName nameAtEnd = some 1019 := by
  have hfront : (68 : UInt8) ∉ ascii "GET" ++ List.replicate 1016 65 := by
    rw [List.mem_append, List.mem_replicate]
    decide
  have hsearch := indexOf?_of_append (w := ascii "elay") (q := []) hfront
  rw [List.append_nil, List.append_assoc, List.length_append, List.length_replicate] at hsearch
  exact hsearch

private theorem not_parsable_nameAtEnd : ¬ Parsable nameAtEnd := by
  intro h
  have hbound := (h.delay 1019 indexOf?_nameAtEnd).1
  have hchars := strLen_le nameAtEnd
  have hlen := length_nameAtEnd
  have hname : strLen delayName = 5 := by decide
  omega

private theorem readRequest_of_full {chunk : Bytes} (hlen : chunk.length = 1024)
    (hget : ascii "GET" <+: chunk) (hparsable : ¬ Parsable chunk) :
    ¬ ∃ result, readRequest [.ok chunk] = .ok result := by
  rintro ⟨result, h⟩
  have hbuffer : overlay emptyBuffer chunk = chunk := by
    rw [overlay, emptyBuffer, List.drop_replicate, hlen]
    exact List.append_nil _
  have hfirst : firstRequest? emptyBuffer [chunk] = some (chunk, []) := by
    rw [firstRequest?, hbuffer, if_pos hget]
  have hread : readRequest [.ok chunk] =
      (parseRequest chunk).map fun request ↦ some (request, []) := readRequest_of_some [] hfirst
  cases hparse : parseRequest chunk with
  | ok request => exact hparsable ((parseRequest_isOk_iff chunk).mp ⟨request, hparse⟩)
  | error panic =>
    rw [hread, hparse] at h
    cases h

/-- A byte that is not UTF-8 panics, and so does an ASCII request with the name at the end of
the buffer. -/
theorem not_readRequest_isOk_invalidUtf8_nameAtEnd :
    readRequest [.ok (ascii "GET /" ++ [255])] = .error .invalidUtf8 ∧
      ¬ ∃ result, readRequest [.ok nameAtEnd] = .ok result := by
  constructor
  · decide +kernel
  · exact readRequest_of_full length_nameAtEnd (List.prefix_append _ _) not_parsable_nameAtEnd

end Esp32WebServers.Rust
