import Esp32WebServers.System.Requests

/-!
# Every request is answered, however TCP cuts it

C-BSD, Asio and Python respond to every read, also to a part of a request. So a session never
waits in vain: on every schedule its read returns, and a server with nothing left to read has
sent at least one response for each request. The Rust server responds only to reads that begin
with `GET`, hence at most once to a request.
-/

namespace Esp32WebServers

open Base

namespace Link

variable {σ ι : Type}

/-! ### The session's read returns -/

/-- What can still happen before the session's read returns: a byte of a request is worth more
than the wait for its response, and this more than the bytes of the response. -/
def pending (l : Link σ) : Nat :=
  202 * l.upstream.length + 201 * l.waiting.toList.length + l.session.inFlight.length

section Returns

variable {client : Benchmark.Client} {server : Server σ ι} {l m : Link σ}

/-- A response of the repository is shorter than 200 bytes. -/
theorem length_respond_lt (hformats : Formats server) (heap : FreeHeap) :
    (server.respond heap.val).length < 200 := by
  have hheap := heap.lt
  rw [hformats heap]
  exact length_responseText_lt (by omega)

/-- A response is not empty. -/
theorem respond_ne_nil (hformats : Formats server) (heap : FreeHeap) :
    server.respond heap.val ≠ [] := by
  rw [hformats heap]
  exact List.ne_nil_of_length_pos (Nat.zero_lt_of_lt (lt_length_responseText _))

/-- A read of the session is its last one or leads to the next request. -/
theorem phase_read_ne (client : Benchmark.Client) (x : Benchmark.Session) :
    (x.read client).phase ≠ .read := by
  unfold Benchmark.Session.read
  split
  · cases client.stays with
    | true => exact nofun
    | false => exact nofun
  · exact nofun

/-- While the session is at its read, every event uses up some of what can still happen. -/
theorem pending_lt (hformats : Formats server) {e : Event ι} (h : step client server l e = some m)
    (hl : l.session.phase = .read) (hm : m.session.phase = .read) : m.pending < l.pending := by
  rcases step_cases h with ⟨delay, rfl, hphase, rfl⟩ |
    ⟨around, count, result, rfl, hnone, hpos, hle, -, -, rfl⟩ |
    ⟨heap, delay, rfl, hwaiting, rfl⟩ | ⟨count, rfl, hpos, hle, rfl⟩ | ⟨rfl, -, -, rfl⟩ |
    ⟨rfl, hphase, -, rfl⟩
  · rw [hl] at hphase
    cases hphase
  · have hresult : result.2.toList.length ≤ 1 := by cases result.2 <;> simp
    simp only [pending, receive, List.length_drop, hnone, Option.toList_none, List.length_nil]
    omega
  · have hlen := length_respond_lt hformats heap
    simp only [pending, respond, List.length_append, hwaiting, Option.toList_none,
      Option.toList_some, List.length_nil, List.length_singleton]
    omega
  · simp only [pending, withSession, Benchmark.Session.arrive, List.length_drop]
    omega
  · exact absurd hm (phase_read_ne client l.session)
  · rw [hl] at hphase
    cases hphase

/-- The session is at its read for a bounded number of events, whatever they are. -/
theorem length_le_pending (hformats : Formats server) {es : List (Event ι)}
    (hrun : Step.run (step client server) l es = some m)
    (hread : Step.Always (step client server) (fun l ↦ l.session.phase = .read) l es) :
    es.length ≤ l.pending := by
  induction es generalizing l with
  | nil => exact Nat.zero_le _
  | cons e es ih =>
    obtain ⟨k, hk, hrest⟩ := Step.run_cons_eq_some.mp hrun
    obtain ⟨hl, hes⟩ := (Step.always_cons hk).mp hread
    have hlt := pending_lt hformats hk hl (hes [] k List.nil_prefix rfl)
    have hle := ih hrest hes
    rw [List.length_cons]
    omega

/-- A response can be sent after the wait. -/
theorem step_respond {delay : Int} (hwaiting : l.waiting = some delay) (heap : FreeHeap) :
    step client server l (.respond heap) = some (l.respond server heap delay) := by
  rw [step, hwaiting, Option.map_some]

/-- A server that waits for nothing can read what has arrived. -/
theorem step_receive {around : ι} {count : Nat} {result : σ × Option Int}
    (hnone : l.waiting = none) (hpos : 0 < count) (hle : count ≤ l.upstream.length)
    (hadmits : server.admits around (l.upstream.take count) = true)
    (hreceive : server.receive l.server around (l.upstream.take count) = some result) :
    step client server l (.receive around count) = some (l.receive count result) := by
  rw [step, if_pos ⟨hnone, hpos, hle, hadmits⟩, hreceive, Option.map_some]

end Returns

/-! ### At least one response for a request -/

/-- There is no row without a response of its own, and once a server has read everything and
waits for nothing, there are as many responses as requests. -/
structure Served (l : Link σ) : Prop where
  rows : l.session.rows.length ≤ l.waits.length
  idle : l.upstream = [] → l.waiting = none → l.requests.length ≤ l.waits.length

/-- A server serves its client whatever happens: the session's rows and requests have their
responses, and where the session is at its read, something can happen, and the read returns
after a bounded number of events. -/
def Delivers (client : Benchmark.Client) (server : Server σ ι) : Prop :=
  ∀ events l, Step.run (step client server) (start server) events = some l →
    l.Served ∧ (l.session.phase = .read → ∃ e m, step client server l e = some m) ∧
      ∃ bound, ∀ es m, Step.run (step client server) l es = some m →
        Step.Always (step client server) (fun l ↦ l.session.phase = .read) l es →
        es.length ≤ bound

end Link

/-- The requests of a session that have no row. -/
def Benchmark.Phase.openRequests : Benchmark.Phase → Nat
  | .request => 0
  | .read => 1
  | .stay => 0
  | .ended => 1

namespace Link

variable {ι : Type}

private theorem notMem_statusLines : 95 ∉ statusLines := by
  rw [statusLines, Rust.responseHeader, ascii_ofList]
  decide +kernel

private theorem notMem_decimal_underscore (n : Nat) : 95 ∉ decimal n := by
  intro h
  exact absurd (isDigit_of_mem_decimal h) (by decide)

/-- A response has one underscore. -/
theorem count_responseText (heap : Nat) : (responseText heap).count 95 = 1 := by
  have hkey : (ascii "free_heap=").count 95 = 1 := by decide
  have hname : (ascii "Content-Length: ").count 95 = 0 := by decide
  have hblank : (crlf ++ crlf).count 95 = 0 := by decide
  have hend : (ascii ";").count 95 = 0 := by decide
  simp only [responseText, heapBody, List.count_append, hkey, hname, hend,
    List.count_eq_zero.mpr notMem_statusLines,
    List.count_eq_zero.mpr (notMem_decimal_underscore _)]
  rw [← List.count_append, hblank]

/-- A text with a match of the client's pattern has an underscore. -/
theorem mem_of_parsResult {text value : Bytes} (h : Benchmark.parsResult text = some value) :
    95 ∈ text := by
  rw [Benchmark.parsResult, Option.map_eq_some_iff] at h
  obtain ⟨groups, hsearch, -⟩ := h
  obtain ⟨i, -, hmatch, -⟩ := search_eq_some_iff.mp hsearch
  rw [Benchmark.resultPattern, matchHere_lits_append, Option.ite_none_right_eq_some] at hmatch
  exact List.mem_of_mem_drop (hmatch.1.subset (by decide))

/-- The invariant: what is not read is a piece of the requests; a session at its read has
something on its way to it; one request at most has no row; every row has used up an underscore
of the responses; and a server with nothing left to do has responded as often as asked. -/
structure Awaited (client : Benchmark.Client) (l : Link Unit) : Prop where
  pieces : l.upstream <:+ l.stream client
  awaits : l.session.phase = .read → l.upstream ≠ [] ∨ l.waiting ≠ none ∨
    l.session.inFlight ≠ [] ∨ l.session.buffer ≠ []
  lockStep : l.requests.length = l.session.rows.length + l.session.phase.openRequests
  keys : l.session.rows.length + (l.session.buffer ++ l.session.inFlight).count 95 ≤
    l.waits.length
  idle : l.upstream = [] → l.waiting = none → l.requests.length ≤ l.waits.length

section Awaited

variable {client : Benchmark.Client} {server : Server Unit ι} {l m : Link Unit}

/-- A session has something on its way before its first request. -/
theorem awaited_start : Awaited client (start server) where
  pieces := List.suffix_refl _
  awaits := nofun
  lockStep := rfl
  keys := Nat.le_refl _
  idle _ _ := Nat.le_refl _

/-- Requests are on their way. -/
theorem Awaited.request (h : Awaited client l) (hphase : l.session.phase = .request)
    (delay : IntDelay) : Awaited client (l.request client delay) := by
  have hmessage : client.message delay.val ≠ [] := by
    obtain ⟨rest, hrest, -⟩ := Benchmark.message_eq_cons client delay
    rw [hrest]
    exact List.cons_ne_nil _ _
  have hlock := h.lockStep
  rw [hphase] at hlock
  constructor
  · simp only [stream, Link.request, List.flatMap_append, List.flatMap_singleton]
    obtain ⟨front, hfront⟩ := h.pieces
    exact ⟨front, by rw [← List.append_assoc, hfront, stream]⟩
  · intro _
    exact .inl (List.append_ne_nil_of_right_ne_nil _ hmessage)
  · simp only [Link.request, List.length_append, List.length_singleton, hlock,
      Benchmark.Phase.openRequests]
  · exact h.keys
  · intro hnil
    exact absurd hnil (List.append_ne_nil_of_right_ne_nil _ hmessage)

/-- A read of the server is followed by a wait. -/
theorem Awaited.receive (hserver : server.AnswersPieces) (h : Awaited client l) {around : ι}
    {count : Nat} {result : Unit × Option Int}
    (hadmits : server.admits around (l.upstream.take count) = true)
    (hreceive : server.receive l.server around (l.upstream.take count) = some result) :
    Awaited client (l.receive count result) := by
  have hpiece : IsPiece (l.upstream.take count) :=
    isPiece_of_infix ((List.take_prefix _ _).isInfix.trans h.pieces.isInfix)
  obtain ⟨delay, hdelay⟩ := hserver.piece around _ hpiece hadmits
  cases hdelay.symm.trans hreceive
  refine ⟨(List.drop_suffix _ _).trans h.pieces, ?_, h.lockStep, h.keys, ?_⟩
  · intro _
    exact .inr (.inl nofun)
  · intro _ hnone
    cases hnone

/-- A response follows the last request. -/
theorem Awaited.respond (hserver : server.AnswersPieces) (h : Awaited client l) (heap : FreeHeap)
    (delay : Int) : Awaited client (l.respond server heap delay) := by
  have hkeys := h.keys
  have hlock := h.lockStep
  have hopen : l.session.phase.openRequests ≤ 1 := by cases l.session.phase <;> decide
  refine ⟨h.pieces, ?_, h.lockStep, ?_, ?_⟩
  · intro _
    exact .inr (.inr (.inl (List.append_ne_nil_of_right_ne_nil _
      (respond_ne_nil hserver.formats heap))))
  · rw [List.count_append] at hkeys
    simp only [Link.respond, List.count_append, hserver.formats heap, count_responseText,
      List.length_append, List.length_singleton]
    omega
  · intro _ _
    simp only [Link.respond, List.length_append, List.length_singleton]
    omega

/-- Bytes arrive from those under way. -/
theorem Awaited.arrive (h : Awaited client l) {count : Nat} (hpos : 0 < count)
    (hle : count ≤ l.session.inFlight.length) :
    Awaited client (l.withSession (l.session.arrive count)) := by
  refine ⟨h.pieces, ?_, h.lockStep, ?_, h.idle⟩
  · intro _
    refine .inr (.inr (.inr (List.append_ne_nil_of_right_ne_nil _ ?_)))
    apply List.ne_nil_of_length_pos
    rw [List.length_take]
    omega
  · have hkeys := h.keys
    simp only [withSession, Benchmark.Session.arrive, List.append_assoc, List.take_append_drop]
    exact hkeys

/-- A row uses up an underscore. -/
theorem Awaited.read (h : Awaited client l) (hphase : l.session.phase = .read) :
    Awaited client (l.withSession (l.session.read client)) := by
  have hlock := h.lockStep
  have hkeys := h.keys
  rw [hphase] at hlock
  rw [List.count_append] at hkeys
  have hcount : (l.session.buffer.take 1024).count 95 + (l.session.buffer.drop 1024).count 95 =
      l.session.buffer.count 95 := by
    rw [← List.count_append, List.take_append_drop]
  refine ⟨h.pieces, fun hread ↦ absurd hread (phase_read_ne client l.session), ?_, ?_, h.idle⟩
  · simp only [withSession, Benchmark.Session.read]
    split
    · simp only [List.length_append, List.length_singleton, hlock, Benchmark.Phase.openRequests]
      cases client.stays <;> rfl
    · exact hlock
  · simp only [withSession, Benchmark.Session.read]
    split
    · next value hvalue =>
      have hmem := List.count_pos_iff.mpr (mem_of_parsResult hvalue)
      simp only [List.length_append, List.length_singleton, List.count_append]
      omega
    · simp only [List.count_append]
      omega

/-- One more byte is read. -/
theorem Awaited.readOne (h : Awaited client l) (hphase : l.session.phase = .stay) :
    Awaited client (l.withSession l.session.readOne) := by
  have hlock := h.lockStep
  have hkeys := h.keys
  rw [hphase] at hlock
  rw [List.count_append] at hkeys
  have hcount : (l.session.buffer.drop 1).count 95 ≤ l.session.buffer.count 95 :=
    (List.drop_sublist _ _).count_le 95
  refine ⟨h.pieces, nofun, hlock, ?_, h.idle⟩
  simp only [withSession, Benchmark.Session.readOne, List.count_append]
  omega

/-- Every event leaves a session with something on its way. -/
theorem Awaited.step (hserver : server.AnswersPieces) {e : Event ι} (hl : Awaited client l)
    (h : Link.step client server l e = some m) : Awaited client m := by
  rcases step_cases h with ⟨delay, rfl, hphase, rfl⟩ |
    ⟨around, count, result, rfl, -, -, -, hadmits, hreceive, rfl⟩ |
    ⟨heap, delay, rfl, -, rfl⟩ | ⟨count, rfl, hpos, hle, rfl⟩ | ⟨rfl, hphase, -, rfl⟩ |
    ⟨rfl, hphase, -, rfl⟩
  · exact hl.request hphase delay
  · exact hl.receive hserver hadmits hreceive
  · exact hl.respond hserver heap delay
  · exact hl.arrive hpos hle
  · exact hl.read hphase
  · exact hl.readOne hphase

/-- Where the session is at its read, something can happen. -/
theorem Awaited.enabled (hserver : server.AnswersPieces) (h : Awaited client l)
    (hphase : l.session.phase = .read) : ∃ e m, Link.step client server l e = some m := by
  cases hwaiting : l.waiting with
  | some delay => exact ⟨.respond ⟨0, by decide⟩, _, step_respond hwaiting _⟩
  | none =>
    rcases h.awaits hphase with hupstream | hwait | hinFlight | hbuffer
    · obtain ⟨b, rest, hcons⟩ := List.exists_cons_of_ne_nil hupstream
      obtain ⟨around, haround⟩ := hserver.single b
      have htake : l.upstream.take 1 = [b] := by
        rw [hcons]
        rfl
      have hpiece : IsPiece [b] := by
        rw [← htake]
        exact isPiece_of_infix ((List.take_prefix _ _).isInfix.trans h.pieces.isInfix)
      obtain ⟨delay, hdelay⟩ := hserver.piece around _ hpiece haround
      rw [← htake] at haround hdelay
      have hlen : 1 ≤ l.upstream.length := List.length_pos_iff.mpr hupstream
      exact ⟨_, _, step_receive hwaiting Nat.one_pos hlen haround hdelay⟩
    · exact absurd hwaiting hwait
    · exact ⟨_, _, step_arrive hinFlight⟩
    · exact ⟨.read, _, step_read hphase hbuffer⟩

/-- A server that finds something in every piece of the requests serves its client. -/
theorem delivers_of_answersPieces (hserver : server.AnswersPieces) : Delivers client server := by
  intro events l hrun
  have h : Awaited client l :=
    Step.run_invariant (fun _ _ _ hl hstep ↦ hl.step hserver hstep) awaited_start hrun
  refine ⟨⟨?_, h.idle⟩, h.enabled hserver, l.pending, ?_⟩
  · have hkeys := h.keys
    omega
  · intro es m hes hread
    exact length_le_pending hserver.formats hes hread

end Awaited

/-- C-BSD, Asio and Python serve either client on every schedule and every cutting of the bytes:
each request is answered at least once, there is no row without a response, and no session waits
in vain. -/
theorem delivers_servers (client : Benchmark.Client) (recvBuf : Buffer 1024)
    (data : Buffer (1024 + 200)) :
    Delivers client (CBsd.server recvBuf) ∧ Delivers client (CppAsio.server data) ∧
      Delivers client Python.server :=
  ⟨delivers_of_answersPieces (CBsd.server_answersPieces recvBuf),
    delivers_of_answersPieces (CppAsio.server_answersPieces data),
    delivers_of_answersPieces Python.server_answersPieces⟩

end Link

end Esp32WebServers
