import Esp32WebServers.Connection.Handlers
import Esp32WebServers.Header.ReadRequest

/-!
# When the peer closes the connection

A read of no bytes is the end of the stream. `client_handler`
(`web_server/c_bsd/main/tcp_server.c:123–152`) does not look at the result of its read at all,
`handle_client` (`web_server/python_micropython/main/server.py:41–52`) only at an error, and
`read_request` (`web_server/rust/src/main.rs:165–188`) leaves its loop for an error or a
request but not for the end of the stream. This module says on which runs they close the
connection all the same.
-/

namespace Esp32WebServers

open Base

/-! ### Handlers that answer every read -/

/-- The result of a read: at least one byte, the end of the stream, or an error. -/
inductive ReadResult where
  | chunk (bytes : Bytes) (nonempty : bytes ≠ [])
  | endOfStream
  | error

/-- The bytes that a read has stored. -/
def ReadResult.bytes : ReadResult → Bytes
  | .chunk bytes _ => bytes
  | .endOfStream => []
  | .error => []

/-- A read returned at least one byte. -/
def ReadResult.delivers : ReadResult → Bool
  | .chunk _ _ => true
  | .endOfStream => false
  | .error => false

/-- What a handler does on its connection, one call after the other. -/
inductive Act where
  | read (result : ReadResult)
  | send (written : Bool)
  | close

/-- A response was sent. -/
def Act.sends : Act → Bool
  | .send written => written
  | _ => false

/-- A read returned at least one byte. -/
def Act.delivers : Act → Bool
  | .read result => result.delivers
  | _ => false

/-- The calls of the loop that `serve` models: a lookup without a result ends it, and so does a
write that fails; a fault stops it where it is. -/
def acts {ε : Type} (parse : Int → ReadResult → Except ε (Option Int)) :
    List (Round ReadResult) → List Act
  | [] => []
  | r :: rounds =>
    .read r.input ::
      match parse r.slot r.input with
      | .error _ => []
      | .ok none => [.close]
      | .ok (some _) => .send r.written :: if r.written then acts parse rounds else [.close]

namespace CBsd

/-- The lookup of `client_handler` after a read with some result. -/
def parseResult (recvBuf : Buffer 1024) (slot : Int) (result : ReadResult) :
    Except Fault (Option Int) := parse recvBuf slot result.bytes

end CBsd

namespace Python

/-- The lookup of `handle_client`, `server.py:45–47`. An error of the read raises, and so does
what cannot be decoded or converted: the exception leaves the loop, and `handle_client_save`
closes the connection, `server.py:25–35`. -/
def parseResult (_slot : Int) : ReadResult → Except Fault (Option Int)
  | .error => .ok none
  | result =>
    match readRequest result.bytes with
    | .ok delay => .ok (some delay)
    | .error _ => .ok none

/-- `handle_client`, `server.py:41–52`. -/
def handleClient : List (Round ReadResult) → List Answer × Stop Fault :=
  serve parseResult fun heap ↦ sendResponse heap.toNat

end Python

/-- A response is sent only after a read that returned at least one byte, so there are never
more responses than such reads, and after the first read without a byte nothing is read or
sent any more and the connection is closed. -/
structure ClosesInTime (trace : List Act) : Prop where
  answers : ∀ before after, trace = before ++ .send true :: after →
    ∃ a ∈ before.getLast?, Act.delivers a = true
  count : trace.countP Act.sends ≤ trace.countP Act.delivers
  ends : ∀ before result after, trace = before ++ .read result :: after →
    result.delivers = false → .close ∈ after ∧ ∀ a ∈ after, a = .close ∨ a = .send false

/-- A round after which the loop goes on. -/
def Continues {ε : Type} (parse : Int → ReadResult → Except ε (Option Int))
    (r : Round ReadResult) : Prop :=
  (∃ delay, parse r.slot r.input = .ok (some delay)) ∧ r.written = true

/-- While the handler is in its loop, the write fails after every read without a byte that the
handler takes for a request. -/
def StrayWritesFail {ε : Type} (parse : Int → ReadResult → Except ε (Option Int))
    (unnoticed : ReadResult → Prop) : List (Round ReadResult) → Prop
  | [] => True
  | r :: rounds =>
    (unnoticed r.input → r.written = false) ∧
      (Continues parse r → StrayWritesFail parse unnoticed rounds)

section Acts

variable {ε : Type} {parse : Int → ReadResult → Except ε (Option Int)}

/-- The calls are those of the loop that answers the rounds: it writes once for each answer,
and closes the connection where that loop ends closed. -/
theorem acts_serve (respond : UInt32 → Bytes) (rounds : List (Round ReadResult)) :
    (acts parse rounds).countP (fun a ↦ a matches .send _) =
        (serve parse respond rounds).1.length ∧
      (.close ∈ acts parse rounds ↔ (serve parse respond rounds).2 = .closed) := by
  induction rounds with
  | nil => simp [acts, serve]
  | cons r rounds ih =>
    rw [acts, serve]
    cases parse r.slot r.input with
    | error e => simp
    | ok delay? =>
      cases delay? with
      | none => simp
      | some delay =>
        cases hwritten : r.written with
        | false => simp [Answer.andThen]
        | true => simpa [Answer.andThen] using ih

/-- A read after which nothing is read or sent is in time, if it returned something or the
connection is closed. -/
theorem closesInTime_of_last {result : ReadResult} {rest : List Act}
    (hrest : ∀ a ∈ rest, a = .close ∨ a = .send false)
    (h : result.delivers = true ∨ .close ∈ rest) : ClosesInTime (.read result :: rest) := by
  have hsends : ∀ a ∈ .read result :: rest, a.sends = false := by
    rw [List.forall_mem_cons]
    refine ⟨rfl, ?_⟩
    intro a ha
    rcases hrest a ha with rfl | rfl
    · rfl
    · rfl
  constructor
  · intro before after heq
    have hmem := hsends (.send true) (by rw [heq]; simp)
    cases hmem
  · rw [List.countP_eq_zero.mpr (by simpa using hsends)]
    exact Nat.zero_le _
  · intro before result' after heq hsilent
    cases before with
    | nil =>
      cases heq
      rcases h with hdelivers | hclose
      · rw [hsilent] at hdelivers
        cases hdelivers
      · exact ⟨hclose, hrest⟩
    | cons a before =>
      cases heq
      rcases hrest (.read result') (by simp) with hread | hread
      · cases hread
      · cases hread

private theorem countP_round {result : ReadResult} (h : result.delivers = true)
    (trace : List Act) :
    (Act.read result :: .send true :: trace).countP Act.sends = trace.countP Act.sends + 1 ∧
      (Act.read result :: .send true :: trace).countP Act.delivers =
        trace.countP Act.delivers + 1 := by
  simp [List.countP_cons, Act.sends, Act.delivers, h]

/-- After a round that was answered, the handler is in time if that round's read returned
something and it is in time from there on. -/
theorem closesInTime_cons {result : ReadResult} {trace : List Act} :
    ClosesInTime (.read result :: .send true :: trace) ↔
      result.delivers = true ∧ ClosesInTime trace := by
  constructor
  · intro h
    obtain ⟨a, ha, hdelivers⟩ := h.answers [.read result] trace rfl
    cases ha
    change result.delivers = true at hdelivers
    obtain ⟨hsent, hread⟩ := countP_round hdelivers trace
    have hcount := h.count
    rw [hsent, hread] at hcount
    refine ⟨hdelivers, ?_, by omega, ?_⟩
    · intro before after heq
      obtain ⟨a, ha, hdelivers⟩ :=
        h.answers (.read result :: .send true :: before) after (by rw [heq]; rfl)
      cases before with
      | nil =>
        cases ha
        cases hdelivers
      | cons b before => exact ⟨a, ha, hdelivers⟩
    · intro before result' after heq
      exact h.ends (.read result :: .send true :: before) result' after (by rw [heq]; rfl)
  · rintro ⟨hdelivers, h⟩
    constructor
    · intro before after heq
      match before, heq with
      | [], heq => cases heq
      | [b], heq =>
        cases heq
        exact ⟨_, rfl, hdelivers⟩
      | b :: b' :: before, heq =>
        cases heq
        obtain ⟨a, ha, hdelivers⟩ := h.answers before after rfl
        cases before with
        | nil => cases ha
        | cons c before => exact ⟨a, ha, hdelivers⟩
    · obtain ⟨hsent, hread⟩ := countP_round hdelivers trace
      rw [hsent, hread]
      exact Nat.succ_le_succ h.count
    · intro before result' after heq hsilent
      match before, heq with
      | [], heq =>
        cases heq
        rw [hsilent] at hdelivers
        cases hdelivers
      | [b], heq => cases heq
      | b :: b' :: before, heq =>
        cases heq
        exact h.ends before result' after rfl hsilent

/-- Without a read nothing is late. -/
theorem closesInTime_nil : ClosesInTime [] := by
  constructor
  · intro before after heq
    cases before with
    | nil => cases heq
    | cons a before => cases heq
  · exact Nat.le_refl 0
  · intro before result after heq
    cases before with
    | nil => cases heq
    | cons a before => cases heq

section Taken

variable {unnoticed : ReadResult → Prop}
  (htaken : ∀ slot result, unnoticed result →
    result.delivers = false ∧ ∃ delay, parse slot result = .ok (some delay))
  (hleft : ∀ slot result, result.delivers = false → ¬ unnoticed result →
    parse slot result = .ok none)

include htaken hleft

private theorem delivers_iff (slot : Int) (result : ReadResult)
    (hparse : parse slot result ≠ .ok none) : result.delivers = true ↔ ¬ unnoticed result := by
  constructor
  · intro hdelivers hunnoticed
    rw [(htaken slot result hunnoticed).1] at hdelivers
    cases hdelivers
  · intro hnoticed
    by_contra hsilent
    exact hparse (hleft slot result (Bool.not_eq_true _ ▸ hsilent) hnoticed)

/-- A round that ends the loop is in time. -/
theorem closesInTime_acts_of_not_continues {r : Round ReadResult}
    (rounds : List (Round ReadResult)) (hends : ¬ Continues parse r) :
    ClosesInTime (acts parse (r :: rounds)) := by
  rw [acts]
  cases hparse : parse r.slot r.input with
  | error e =>
    apply closesInTime_of_last
    · simp
    · left
      apply (delivers_iff htaken hleft r.slot r.input (by simp [hparse])).mpr
      intro hunnoticed
      obtain ⟨delay, hdelay⟩ := (htaken r.slot r.input hunnoticed).2
      cases hparse.symm.trans hdelay
  | ok delay? =>
    cases delay? with
    | none =>
      apply closesInTime_of_last
      · simp
      · simp
    | some delay =>
      have hwritten : r.written = false := by
        by_contra hwritten
        exact hends ⟨⟨delay, hparse⟩, Bool.not_eq_false _ ▸ hwritten⟩
      simp only [hwritten]
      apply closesInTime_of_last
      · simp
      · simp

/-- A handler that takes some reads without a byte for requests, and leaves its loop after the
others, is in time exactly where the write fails after those that it takes for requests. -/
theorem closesInTime_acts_iff (rounds : List (Round ReadResult)) :
    ClosesInTime (acts parse rounds) ↔ StrayWritesFail parse unnoticed rounds := by
  induction rounds with
  | nil => exact ⟨fun _ ↦ trivial, fun _ ↦ closesInTime_nil⟩
  | cons r rounds ih =>
    rw [StrayWritesFail]
    by_cases hcontinues : Continues parse r
    · -- The loop goes on: its read must have returned something.
      obtain ⟨⟨delay, hparse⟩, hwritten⟩ := hcontinues
      have hdelivers := delivers_iff htaken hleft r.slot r.input (by simp [hparse])
      have hcontinues : Continues parse r := ⟨⟨delay, hparse⟩, hwritten⟩
      simp only [acts, hparse, hwritten, if_true]
      rw [closesInTime_cons, ih, hdelivers]
      simp [hcontinues]
    · -- The loop ends with this round.
      have hlast := closesInTime_acts_of_not_continues htaken hleft rounds hcontinues
      have hfails : unnoticed r.input → r.written = false := by
        intro hunnoticed
        by_contra hwritten
        exact hcontinues
          ⟨(htaken r.slot r.input hunnoticed).2, Bool.not_eq_false _ ▸ hwritten⟩
      exact iff_of_true hlast ⟨hfails, fun h ↦ absurd h hcontinues⟩

end Taken

end Acts

/-- A zeroed buffer holds no header. -/
theorem CBsd.parse_nil (recvBuf : Buffer 1024) (slot : Int) :
    CBsd.parse recvBuf slot [] = .ok (some 0) := by
  rw [CBsd.parse, CBsd.receivedDelay, CBsd.getHeaderValue, CBsd.getHeader_of_none (by rfl)]
  rfl

/-- For every sequence of reads and writes: the C-BSD handler answers only reads that return
something and closes at the first one that does not, if and only if no write succeeds after a
read without a byte; and so does the Python handler, if and only if no write succeeds after the
end of the stream. -/
theorem closesInTime_iff_strayWritesFail (recvBuf : Buffer 1024)
    (rounds : List (Round ReadResult)) :
    (ClosesInTime (acts (CBsd.parseResult recvBuf) rounds) ↔
      StrayWritesFail (CBsd.parseResult recvBuf) (fun result ↦ result.delivers = false) rounds) ∧
    (ClosesInTime (acts Python.parseResult rounds) ↔
      StrayWritesFail Python.parseResult (fun result ↦ result = .endOfStream) rounds) := by
  constructor
  · apply closesInTime_acts_iff
    · intro slot result hsilent
      refine ⟨hsilent, 0, ?_⟩
      cases result with
      | chunk bytes hne => cases hsilent
      | endOfStream => exact CBsd.parse_nil recvBuf slot
      | error => exact CBsd.parse_nil recvBuf slot
    · intro slot result hsilent hnoticed
      exact absurd hsilent hnoticed
  · apply closesInTime_acts_iff
    · rintro slot result rfl
      exact ⟨rfl, 0, rfl⟩
    · intro slot result hsilent hnoticed
      cases result with
      | chunk bytes hne => cases hsilent
      | endOfStream => exact absurd rfl hnoticed
      | error => rfl

/-- A request, and then the end of the stream while writes still succeed. -/
def halfClosed : List (Round ReadResult) :=
  [⟨.chunk (ascii "GET / HTTP/1.1\r\n\r\n") (by decide), 0, 100000, true⟩,
    ⟨.endOfStream, 0, 100000, true⟩]

/-- Both handlers answer the end of the stream. -/
theorem not_closesInTime_halfClosed :
    ¬ ClosesInTime (acts (CBsd.parseResult ⟨4096, by decide, by decide⟩) halfClosed) ∧
      ¬ ClosesInTime (acts Python.parseResult halfClosed) := by
  constructor
  · intro h
    exact absurd h.count (by decide)
  · intro h
    exact absurd h.count (by decide)

/-! ### The read loop of the Rust server -/

namespace Rust

/-- The reads of a connection that delivers some chunks and is then closed by the peer, as far
as the first reads behind the end. -/
def closedAfter (chunks : List Bytes) (n : Nat) : List Read :=
  chunks.map .ok ++ List.replicate n (.ok [])

/-- A call of `read_request` returns, with `Ok` or `Err`. -/
def Returns (chunks : List Bytes) : Prop :=
  ∃ n request rest, readRequest (closedAfter chunks n) = .ok (some (request, rest))

/-- `handle_connection` leaves its loop, for some results of its writes. -/
def Ends (iterations : Nat → Iteration) (chunks : List Bytes) : Prop :=
  ∃ n m, (handleConnection ((List.range m).map iterations) (closedAfter chunks n)).2 = .closed

/-- The chunks hold a number of requests, one behind the other, that can be parsed. -/
def Requests : Nat → List Bytes → Prop
  | 0, _ => True
  | k + 1, chunks =>
    ∃ b rest, firstRequest? emptyBuffer chunks = some (b, rest) ∧ Parsable b ∧ Requests k rest

/-- Behind the end of the stream nothing completes a request. -/
theorem readLoop_endOfStream {buffer : Bytes} (h : ¬ ascii "GET" <+: buffer) (n : Nat) :
    readLoop buffer (List.replicate n (.ok [])) = .ok none := by
  induction n with
  | zero => rfl
  | succ n ih =>
    have hsame : overlay buffer [] = buffer := rfl
    rw [List.replicate_succ, readLoop]
    simp only [hsame, if_neg h]
    exact ih

/-- Without a request, the buffer does not begin with `GET`. -/
theorem not_isPrefix_of_firstRequest? {buffer : Bytes} {chunks : List Bytes}
    (hbuffer : ¬ ascii "GET" <+: buffer) (h : firstRequest? buffer chunks = none) :
    ¬ ascii "GET" <+: chunks.foldl overlay buffer := by
  induction chunks generalizing buffer with
  | nil => exact hbuffer
  | cons chunk chunks ih =>
    rw [firstRequest?] at h
    split at h
    · cases h
    · next hget => exact ih hget h

/-- A call parses the first request in front of the end of the stream; without one it reads on
for ever. -/
theorem readRequest_closedAfter (chunks : List Bytes) (n : Nat) :
    readRequest (closedAfter chunks n) =
      match firstRequest? emptyBuffer chunks with
      | none => .ok none
      | some (b, rest) =>
        (parseRequest b).map fun request ↦ some (request, closedAfter rest n) := by
  rw [readRequest, closedAfter, readLoop_chunks]
  cases hfirst : firstRequest? emptyBuffer chunks with
  | none =>
    apply readLoop_endOfStream
    apply not_isPrefix_of_firstRequest? _ hfirst
    decide
  | some p => rfl

/-- A call returns exactly where the chunks hold a request that can be parsed. -/
theorem returns_iff (chunks : List Bytes) : Returns chunks ↔ Requests 1 chunks := by
  constructor
  · rintro ⟨n, request, left, h⟩
    rw [readRequest_closedAfter] at h
    cases hfirst : firstRequest? emptyBuffer chunks with
    | none =>
      rw [hfirst] at h
      cases h
    | some p =>
      obtain ⟨b, rest⟩ := p
      rw [hfirst] at h
      cases hparse : parseRequest b with
      | error panic =>
        simp only [hparse] at h
        cases h
      | ok request' =>
        exact ⟨b, rest, hfirst, (parseRequest_isOk_iff b).mp ⟨request', hparse⟩, trivial⟩
  · rintro ⟨b, rest, hfirst, hparsable, -⟩
    obtain ⟨request, hrequest⟩ := (parseRequest_isOk_iff b).mpr hparsable
    refine ⟨0, request, closedAfter rest 0, ?_⟩
    rw [readRequest_closedAfter, hfirst]
    simp only [hrequest]
    rfl

/-- Whatever comes first, one iteration of `handle_connection` answers the first request. -/
theorem handleConnection_cons (i : Iteration) (iterations : List Iteration)
    {chunks rest : List Bytes} {b : Bytes} (n : Nat)
    (hfirst : firstRequest? emptyBuffer chunks = some (b, rest)) (hparsable : Parsable b) :
    ∃ answer, handleConnection (i :: iterations) (closedAfter chunks n) =
      Answer.andThen answer i.written (handleConnection iterations (closedAfter rest n)) := by
  obtain ⟨request, hrequest⟩ := (parseRequest_isOk_iff b).mpr hparsable
  obtain ⟨-, delay, -, rfl⟩ := (parseRequest_eq_ok_iff b request).mp hrequest
  refine ⟨⟨waited delay, getResponseMessage i.heap⟩, ?_⟩
  rw [handleConnection, readRequest_closedAfter, hfirst]
  simp only [hrequest, Except.map]

/-- The write of an iteration is the first one that fails. -/
def FailsFirst (iterations : List Iteration) (k : Nat) : Prop :=
  ∃ i, iterations[k]? = some i ∧ i.written = false ∧
    ∀ j < k, ∀ i ∈ iterations[j]?, i.written = true

private theorem failsFirst_zero (i : Iteration) (iterations : List Iteration) :
    FailsFirst (i :: iterations) 0 ↔ i.written = false := by
  simp [FailsFirst]

private theorem failsFirst_succ (i : Iteration) (iterations : List Iteration) (k : Nat) :
    FailsFirst (i :: iterations) (k + 1) ↔ i.written = true ∧ FailsFirst iterations k := by
  constructor
  · rintro ⟨i', hi', hfails, hbefore⟩
    refine ⟨hbefore 0 (Nat.zero_lt_succ k) i rfl, i', hi', hfails, ?_⟩
    intro j hj
    exact hbefore (j + 1) (Nat.succ_lt_succ hj)
  · rintro ⟨hwritten, i', hi', hfails, hbefore⟩
    refine ⟨i', hi', hfails, ?_⟩
    intro j hj
    cases j with
    | zero => simpa using hwritten
    | succ j => exact hbefore j (Nat.lt_of_succ_lt_succ hj)

/-- Without a request that can be parsed the loop waits for ever or panics. -/
theorem not_closed_of_no_request (iterations : List Iteration) {chunks : List Bytes} (n : Nat)
    (h : ¬ ∃ b rest, firstRequest? emptyBuffer chunks = some (b, rest) ∧ Parsable b) :
    (handleConnection iterations (closedAfter chunks n)).2 ≠ .closed := by
  intro hclosed
  cases iterations with
  | nil => cases hclosed
  | cons i iterations =>
    rw [handleConnection, readRequest_closedAfter] at hclosed
    cases hfirst : firstRequest? emptyBuffer chunks with
    | none =>
      rw [hfirst] at hclosed
      cases hclosed
    | some p =>
      obtain ⟨b, rest⟩ := p
      rw [hfirst] at hclosed
      cases hparse : parseRequest b with
      | error panic =>
        simp only [hparse, Except.map] at hclosed
        cases hclosed
      | ok request => exact h ⟨b, rest, hfirst, (parseRequest_isOk_iff b).mp ⟨request, hparse⟩⟩

/-- The loop over a number of iterations ends where one of its writes fails, the earlier ones
succeed, and there are requests for all of them. -/
theorem closed_iff (iterations : List Iteration) (chunks : List Bytes) (n : Nat) :
    (handleConnection iterations (closedAfter chunks n)).2 = .closed ↔
      ∃ k, FailsFirst iterations k ∧ Requests (k + 1) chunks := by
  induction iterations generalizing chunks with
  | nil =>
    constructor
    · intro h
      cases h
    · rintro ⟨k, ⟨i, hi, -⟩, -⟩
      cases hi
  | cons i iterations ih =>
    by_cases hrequest : ∃ b rest, firstRequest? emptyBuffer chunks = some (b, rest) ∧ Parsable b
    · obtain ⟨b, rest, hfirst, hparsable⟩ := hrequest
      obtain ⟨answer, hanswer⟩ := handleConnection_cons i iterations n hfirst hparsable
      rw [hanswer]
      cases hwritten : i.written with
      | false =>
        constructor
        · intro _
          exact ⟨0, (failsFirst_zero i iterations).mpr hwritten, b, rest, hfirst, hparsable,
            trivial⟩
        · intro _
          rfl
      | true =>
        change (handleConnection iterations (closedAfter rest n)).2 = .closed ↔ _
        rw [ih]
        constructor
        · rintro ⟨k, hfails, hrequests⟩
          exact ⟨k + 1, (failsFirst_succ i iterations k).mpr ⟨hwritten, hfails⟩, b, rest, hfirst,
            hparsable, hrequests⟩
        · rintro ⟨k, hfails, b', rest', hfirst', -, hrequests⟩
          cases hfirst.symm.trans hfirst'
          cases k with
          | zero =>
            rw [failsFirst_zero, hwritten] at hfails
            cases hfails
          | succ k => exact ⟨k, ((failsFirst_succ i iterations k).mp hfails).2, hrequests⟩
    · constructor
      · intro h
        exact absurd h (not_closed_of_no_request _ n hrequest)
      · rintro ⟨k, -, b, rest, hfirst, hparsable, -⟩
        exact absurd ⟨b, rest, hfirst, hparsable⟩ hrequest

private theorem getElem?_map_range {α : Type} (f : Nat → α) {m k : Nat} {a : α} :
    ((List.range m).map f)[k]? = some a ↔ k < m ∧ f k = a := by
  rw [List.getElem?_map, Option.map_eq_some_iff]
  constructor
  · rintro ⟨j, hj, rfl⟩
    obtain ⟨hlt, rfl⟩ := List.getElem?_eq_some_iff.mp hj
    rw [List.length_range] at hlt
    rw [List.getElem_range]
    exact ⟨hlt, rfl⟩
  · rintro ⟨hlt, rfl⟩
    exact ⟨k, List.getElem?_range hlt, rfl⟩

/-- For all chunks in front of the end of the stream and all results of the writes: a call of
`read_request` returns if and only if the chunks hold a request that can be parsed, and
`handle_connection` ends if and only if the write fails for one of the requests in them. -/
theorem returns_ends_iff (chunks : List Bytes) (iterations : Nat → Iteration) :
    (Returns chunks ↔ Requests 1 chunks) ∧
      (Ends iterations chunks ↔ ∃ k, Requests (k + 1) chunks ∧ (iterations k).written = false ∧
        ∀ j < k, (iterations j).written = true) := by
  refine ⟨returns_iff chunks, ?_⟩
  constructor
  · rintro ⟨n, m, h⟩
    obtain ⟨k, ⟨i, hi, hfails, hbefore⟩, hrequests⟩ := (closed_iff _ chunks n).mp h
    obtain ⟨hk, rfl⟩ := (getElem?_map_range iterations).mp hi
    refine ⟨k, hrequests, hfails, ?_⟩
    intro j hj
    exact hbefore j hj _ ((getElem?_map_range iterations).mpr ⟨hj.trans hk, rfl⟩)
  · rintro ⟨k, hrequests, hfails, hbefore⟩
    refine ⟨0, k + 1, (closed_iff _ chunks 0).mpr ⟨k, ⟨iterations k, ?_, hfails, ?_⟩, hrequests⟩⟩
    · exact (getElem?_map_range iterations).mpr ⟨k.lt_succ_self, rfl⟩
    · intro j hj i hi
      obtain ⟨-, rfl⟩ := (getElem?_map_range iterations).mp hi
      exact hbefore j hj

/-- After one answered request the peer closes: the next call does not return, and as all
writes succeed, the thread does not end. -/
theorem not_returns_ends_oneRequest :
    ¬ Returns [] ∧
      ¬ Ends (fun _ ↦ ⟨100000, true⟩) [ascii "GET / HTTP/1.1\r\n\r\n"] := by
  constructor
  · intro h
    obtain ⟨b, rest, hfirst, -⟩ := (returns_iff []).mp h
    cases hfirst
  · rintro ⟨n, m, h⟩
    obtain ⟨k, ⟨i, hi, hfails, -⟩, -⟩ := (closed_iff _ _ n).mp h
    obtain ⟨-, rfl⟩ := (getElem?_map_range _).mp hi
    cases hfails

end Rust
end Esp32WebServers
