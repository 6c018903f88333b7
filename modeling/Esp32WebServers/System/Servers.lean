import Esp32WebServers.Connection.EndOfStream
import Esp32WebServers.Connection.Framing
import Esp32WebServers.System.Link

/-!
# The servers at the end of a connection

The handlers of C-BSD, Netconn, Asio and Python respond to every read, and the Rust handler
keeps its buffer from one read to the next until the buffer begins with `GET`. On a connection
with a benchmark client, the first four send what their loops send for the pieces that the
requests were cut to, and so does the fifth.
-/

namespace Esp32WebServers

open Base

/-- A handler that responds to every read, with the lookup of its loop: what a read stored is
the handler's input, and a lookup without a delay leaves the loop. -/
def Server.ofHandler {α ε ι : Type} (admits : ι → Bytes → Bool) (slot : ι → Int)
    (input : ι → Bytes → α) (parse : Int → α → Except ε (Option Int))
    (respond : UInt32 → Bytes) : Server Unit ι where
  start := ()
  admits := admits
  receive _ around chunk :=
    match parse (slot around) (input around chunk) with
    | .ok (some delay) => some ((), some delay)
    | _ => none
  respond := respond

/-- `client_handler` of `web_server/c_bsd/main/tcp_server.c`, whose read stores at most 1023
bytes; what it meets besides is the stack slot. -/
def CBsd.server (recvBuf : Buffer 1024) : Server Unit Int :=
  .ofHandler (fun _ chunk ↦ chunk.length ≤ 1023) id (fun _ chunk ↦ chunk) (parse recvBuf) response

/-- `handle_client` of `web_server/c_netconn/main/tcp_server.c` where every netbuf is one
fragment; what it meets besides is the stack slot and the memory around the fragment. -/
def CNetconn.server : Server Unit (Int × Payload) :=
  .ofHandler (fun around chunk ↦ around.2.fragment == chunk) Prod.fst
    (fun around _ ↦ some around.2) parse response

/-- The callbacks of a `Session` of `web_server/cpp_asio/main/tcp_server.cpp`, whose read stores
at most `max_length` bytes. -/
def CppAsio.server (data : Buffer (1024 + 200)) : Server Unit Int :=
  .ofHandler (fun _ chunk ↦ chunk.length ≤ 1024) id (fun _ chunk ↦ some chunk) (parse data)
    response

/-- The result of a read that returned some bytes. -/
def ReadResult.ofBytes (bytes : Bytes) : ReadResult :=
  if h : bytes ≠ [] then .chunk bytes h else .endOfStream

/-- `handle_client` of `web_server/python_micropython/main/server.py`, whose read returns at
most 1024 bytes. -/
def Python.server : Server Unit Unit :=
  .ofHandler (fun _ chunk ↦ chunk.length ≤ 1024) (fun _ ↦ 0) (fun _ chunk ↦ .ofBytes chunk)
    parseResult fun heap ↦ sendResponse heap.toNat

/-- `handle_connection` of `web_server/rust/src/main.rs`. Its state is the buffer of
`read_request`: a read that leaves it without `GET` at its front goes on with it, and a request
is followed by a new one. -/
def Rust.server : Server Bytes Unit where
  start := emptyBuffer
  admits _ chunk := chunk.length ≤ 1024
  receive buffer _ chunk :=
    if ascii "GET" <+: overlay buffer chunk then
      match parseRequest (overlay buffer chunk) with
      | .ok (.ok delay) => some (emptyBuffer, some (delay : Int))
      | _ => none
    else some (overlay buffer chunk, none)
  respond := getResponseMessage

/-! ### What a read makes of a server -/

namespace Server

variable {α ε ι : Type} {admits : ι → Bytes → Bool} {slot : ι → Int} {input : ι → Bytes → α}
  {parse : Int → α → Except ε (Option Int)} {respond : UInt32 → Bytes}

/-- A handler that responds to every read goes on with the delay that its lookup finds. -/
theorem ofHandler_receive_eq_some_iff {around : ι} {chunk : Bytes} {result : Unit × Option Int} :
    (ofHandler admits slot input parse respond).receive () around chunk = some result ↔
      ∃ delay, parse (slot around) (input around chunk) = .ok (some delay) ∧
        result = ((), some delay) := by
  simp only [ofHandler]
  split
  · next delay hparse =>
    rw [hparse, Option.some.injEq]
    constructor
    · rintro rfl
      exact ⟨delay, rfl, rfl⟩
    · rintro ⟨delay', hdelay, rfl⟩
      cases hdelay
      rfl
  · next hne =>
    constructor
    · intro h
      cases h
    · rintro ⟨delay, hparse, -⟩
      exact absurd hparse (hne delay)

end Server

namespace Rust

variable {buffer chunk : Bytes}

/-- A read that leaves the buffer without a request keeps the buffer. -/
theorem server_receive_of_not_get (h : ¬ ascii "GET" <+: overlay buffer chunk) :
    server.receive buffer () chunk = some (overlay buffer chunk, none) := if_neg h

/-- A read that leaves a request in the buffer goes on with its delay. -/
theorem server_receive_of_get (h : ascii "GET" <+: overlay buffer chunk) {delay : Nat}
    (hparse : parseRequest (overlay buffer chunk) = .ok (.ok delay)) :
    server.receive buffer () chunk = some (emptyBuffer, some (delay : Int)) := by
  rw [server]
  simp only [if_pos h, hparse]

/-- What a read can make of the buffer. -/
theorem server_receive_cases {result : Bytes × Option Int}
    (h : server.receive buffer () chunk = some result) :
    (¬ ascii "GET" <+: overlay buffer chunk ∧ result = (overlay buffer chunk, none)) ∨
      (ascii "GET" <+: overlay buffer chunk ∧ ∃ delay : Nat,
        parseRequest (overlay buffer chunk) = .ok (.ok delay) ∧
          result = (emptyBuffer, some (delay : Int))) := by
  by_cases hget : ascii "GET" <+: overlay buffer chunk
  · rw [server] at h
    simp only [if_pos hget] at h
    split at h
    · next delay hparse => exact .inr ⟨hget, delay, hparse, (Option.some.inj h).symm⟩
    · cases h
  · rw [server_receive_of_not_get hget] at h
    exact .inl ⟨hget, (Option.some.inj h).symm⟩

end Rust

/-! ### Reads and responses -/

/-- What a server makes of some reads, one after the other: its state behind them, and the
delays that it finds in them. -/
def Server.delays {σ ι : Type} (server : Server σ ι) :
    σ → List (ι × Bytes) → Option (σ × List Int)
  | s, [] => some (s, [])
  | s, r :: reads =>
    (server.receive s r.1 r.2).bind fun result ↦
      (delays server result.1 reads).map fun rest ↦ (rest.1, result.2.toList ++ rest.2)

section Delays

variable {σ ι : Type} {server : Server σ ι}

/-- Delays are found read by read. -/
theorem Server.delays_cons_eq_some {s t : σ} {r : ι × Bytes} {reads : List (ι × Bytes)}
    {ds : List Int} (h : server.delays s (r :: reads) = some (t, ds)) :
    ∃ result rest, server.receive s r.1 r.2 = some result ∧
      server.delays result.1 reads = some (t, rest) ∧ ds = result.2.toList ++ rest := by
  obtain ⟨result, hresult, hmap⟩ := Option.bind_eq_some_iff.mp h
  obtain ⟨⟨t', rest⟩, hrest, heq⟩ := Option.map_eq_some_iff.mp hmap
  cases heq
  exact ⟨result, rest, hresult, hrest, rfl⟩

/-- One more read adds the delay that it gives. -/
theorem Server.delays_append {s t : σ} {reads : List (ι × Bytes)} {ds : List Int}
    (h : server.delays s reads = some (t, ds)) {r : ι × Bytes} {result : σ × Option Int}
    (hresult : server.receive t r.1 r.2 = some result) :
    server.delays s (reads ++ [r]) = some (result.1, ds ++ result.2.toList) := by
  induction reads generalizing s ds with
  | nil =>
    cases h
    simp [delays, hresult]
  | cons r' reads ih =>
    obtain ⟨result', rest, hresult', hrest, rfl⟩ := delays_cons_eq_some h
    rw [List.cons_append, delays, hresult', Option.bind_some, ih hrest, Option.map_some,
      List.append_assoc]

end Delays

namespace Link

variable {σ ι : Type} {client : Benchmark.Client} {server : Server σ ι}

/-- The requests of a connection, one behind the other. -/
def stream (client : Benchmark.Client) (l : Link σ) : Bytes :=
  l.requests.flatMap fun delay ↦ client.message delay.val

/-- The reads of a server on a connection: they cut the stream of requests up to what is not
read yet, and the delays in them are those that it has waited or waits for. -/
structure Reads (client : Benchmark.Client) (server : Server σ ι) (l : Link σ)
    (reads : List (ι × Bytes)) (ds : List Int) : Prop where
  delays : server.delays server.start reads = some (l.server, ds)
  waits : ds.map waited = l.waits ++ l.waiting.toList.map waited
  stream : reads.flatMap Prod.snd ++ l.upstream = l.stream client
  pieces : ∀ r ∈ reads, r.2 ≠ [] ∧ server.admits r.1 r.2 = true
  heaps : l.session.heaps.length = l.waits.length

/-- An event of the session alone leaves the reads of the server as they are. -/
theorem Reads.withSession {l : Link σ} {reads : List (ι × Bytes)} {ds : List Int}
    (h : Reads client server l reads ds) {session : Benchmark.Session}
    (hheaps : session.heaps = l.session.heaps) :
    Reads client server (l.withSession session) reads ds where
  delays := h.delays
  waits := h.waits
  stream := h.stream
  pieces := h.pieces
  heaps := (congrArg List.length hheaps).trans h.heaps

/-- A read of the session leaves the responses of the server as they are. -/
theorem heaps_read (client : Benchmark.Client) (x : Benchmark.Session) :
    (x.read client).heaps = x.heaps := by
  unfold Benchmark.Session.read
  split
  · rfl
  · rfl

/-- Events add at most a read. -/
theorem Reads.step {l m : Link σ} {e : Event ι} {reads : List (ι × Bytes)} {ds : List Int}
    (h : Reads client server l reads ds) (hstep : Link.step client server l e = some m) :
    ∃ reads' ds', Reads client server m reads' ds' := by
  rcases step_cases hstep with ⟨delay, rfl, -, rfl⟩ |
    ⟨around, count, result, rfl, hwaiting, hpos, hle, hadmits, hreceive, rfl⟩ |
    ⟨heap, delay, rfl, hwaiting, rfl⟩ | ⟨count, rfl, -, -, rfl⟩ | ⟨rfl, -, -, rfl⟩ |
    ⟨rfl, -, -, rfl⟩
  · refine ⟨reads, ds, h.delays, h.waits, ?_, h.pieces, h.heaps⟩
    rw [Link.stream, Link.request, List.flatMap_append, ← List.append_assoc, h.stream]
    simp [Link.stream]
  · refine ⟨reads ++ [(around, l.upstream.take count)], ds ++ result.2.toList, ?_, ?_, ?_, ?_,
      h.heaps⟩
    · exact Server.delays_append h.delays hreceive
    · have hwaits := h.waits
      rw [hwaiting, Option.toList_none, List.map_nil, List.append_nil] at hwaits
      rw [List.map_append, hwaits]
      rfl
    · rw [List.flatMap_append, List.append_assoc]
      simp only [Link.receive, List.flatMap_cons, List.flatMap_nil, List.append_nil,
        List.take_append_drop]
      exact h.stream
    · intro r hr
      rcases List.mem_append.mp hr with hold | hnew
      · exact h.pieces r hold
      · rw [List.mem_singleton.mp hnew]
        refine ⟨?_, hadmits⟩
        apply List.ne_nil_of_length_pos
        rw [List.length_take]
        omega
  · refine ⟨reads, ds, h.delays, ?_, h.stream, h.pieces, ?_⟩
    · rw [h.waits, hwaiting, Link.respond]
      simp
    · simp only [Link.respond, List.length_append, h.heaps, List.length_singleton]
  · exact ⟨reads, ds, h.withSession rfl⟩
  · exact ⟨reads, ds, h.withSession (heaps_read client l.session)⟩
  · exact ⟨reads, ds, h.withSession rfl⟩

/-- In every run, a server has read a cutting of the requests up to what is not read yet. -/
theorem exists_reads {events : List (Event ι)} {l : Link σ}
    (hrun : Step.run (Link.step client server) (Link.start server) events = some l) :
    ∃ reads ds, Reads client server l reads ds := by
  apply Step.run_invariant (I := fun l ↦ ∃ reads ds, Reads client server l reads ds) _ _ hrun
  · rintro l e m ⟨reads, ds, h⟩ hstep
    exact h.step hstep
  · exact ⟨[], [], rfl, rfl, rfl, List.forall_mem_nil _, rfl⟩

/-- What a loop answers to the reads of a run and the free heap in its responses is what the
server has sent: the reads cut the requests up to what is not read yet, nothing is lost and
nothing is read twice. -/
def Sends {ε : Type} (client : Benchmark.Client) (server : Server σ ι)
    (loop : List (ι × Bytes) → List UInt32 → List Answer × Stop ε) : Prop :=
  ∀ events l, Step.run (Link.step client server) (Link.start server) events = some l →
    ∃ reads, reads.flatMap Prod.snd ++ l.upstream = l.stream client ∧
      (∀ r ∈ reads, r.2 ≠ [] ∧ server.admits r.1 r.2 = true) ∧
      l.waits.length = l.session.heaps.length ∧
      loop reads l.session.heaps =
        (List.zipWith (fun wait heap ↦ ⟨wait, server.respond heap⟩) l.waits l.session.heaps,
          .waiting)

/-- A loop sends what the server sends if it answers every list of reads with the delays that
the server finds in them. -/
theorem sends_of_delays {ε : Type} {loop : List (ι × Bytes) → List UInt32 → List Answer × Stop ε}
    (hloop : ∀ reads s ds, server.delays server.start reads = some (s, ds) → ∀ heaps,
      loop reads heaps =
        (List.zipWith (fun delay heap ↦ ⟨waited delay, server.respond heap⟩) ds heaps,
          .waiting)) : Sends client server loop := by
  intro events l hrun
  obtain ⟨reads, ds, h⟩ := exists_reads hrun
  refine ⟨reads, h.stream, h.pieces, h.heaps.symm, ?_⟩
  have hzip : List.zipWith (fun delay heap ↦ Answer.mk (waited delay) (server.respond heap)) ds
      l.session.heaps =
      List.zipWith (fun wait heap ↦ Answer.mk wait (server.respond heap)) (ds.map waited)
        l.session.heaps := by
    rw [List.zipWith_map_left]
  -- The delay that the server still waits for has no heap value beside it.
  rw [hloop reads l.server ds h.delays, hzip, h.waits,
    ← List.append_nil l.session.heaps, List.zipWith_append h.heaps.symm]
  simp

end Link

/-- The loop of a handler that responds to every read sends what it sends on a connection. -/
theorem Server.sends_ofHandler {α ε ι : Type} (client : Benchmark.Client)
    (admits : ι → Bytes → Bool) (slot : ι → Int) (input : ι → Bytes → α)
    (parse : Int → α → Except ε (Option Int)) (respond : UInt32 → Bytes) :
    Link.Sends client (ofHandler admits slot input parse respond) fun reads heaps ↦
      serve parse respond
        (List.zipWith (fun r heap ↦ ⟨input r.1 r.2, slot r.1, heap, true⟩) reads heaps) := by
  apply Link.sends_of_delays
  intro reads
  induction reads with
  | nil =>
    intro s ds h heaps
    cases h
    rfl
  | cons r reads ih =>
    intro s ds h heaps
    obtain ⟨result, rest, hresult, hrest, rfl⟩ := delays_cons_eq_some h
    obtain ⟨delay, hparse, rfl⟩ := ofHandler_receive_eq_some_iff.mp hresult
    cases heaps with
    | nil => rfl
    | cons heap heaps =>
      rw [List.zipWith_cons_cons, serve]
      simp only [hparse, Answer.andThen, if_true, ih _ _ hrest heaps]
      rfl

namespace Rust

/-- `handle_connection` inside its first call of `read_request`. -/
private def resume (buffer : Bytes) : List Iteration → List Read → List Answer × Stop Panic
  | [], _ => ([], .waiting)
  | i :: iterations, reads =>
    match readLoop buffer reads with
    | .error e => ([], .fault e)
    | .ok none => ([], .waiting)
    | .ok (some (.err, _)) => ([], .closed)
    | .ok (some (.ok delay, reads)) =>
      Answer.andThen ⟨waited delay, getResponseMessage i.heap⟩ i.written
        (handleConnection iterations reads)

private theorem handleConnection_eq_resume (iterations : List Iteration) (reads : List Read) :
    handleConnection iterations reads = resume emptyBuffer iterations reads := by
  cases iterations with
  | nil => rfl
  | cons i iterations => rfl

private theorem resume_delays (reads : List (Unit × Bytes)) :
    ∀ buffer s ds, server.delays buffer reads = some (s, ds) → ∀ heaps : List UInt32,
      resume buffer (heaps.map fun heap ↦ ⟨heap, true⟩) (reads.map fun r ↦ .ok r.2) =
        (List.zipWith (fun delay heap ↦ ⟨waited delay, server.respond heap⟩) ds heaps,
          .waiting) := by
  induction reads with
  | nil =>
    intro buffer s ds h heaps
    cases h
    cases heaps with
    | nil => rfl
    | cons heap heaps => rfl
  | cons r reads ih =>
    intro buffer s ds h heaps
    obtain ⟨result, rest, hresult, hrest, rfl⟩ := Server.delays_cons_eq_some h
    cases heaps with
    | nil =>
      rw [List.zipWith_nil_right]
      rfl
    | cons heap heaps =>
      rw [List.map_cons, List.map_cons, resume, readLoop]
      rcases server_receive_cases hresult with ⟨hget, rfl⟩ | ⟨hget, delay, hparse, rfl⟩
      · simp only [if_neg hget]
        exact ih _ _ _ hrest (heap :: heaps)
      · have hih := ih _ _ _ hrest heaps
        rw [← handleConnection_eq_resume] at hih
        simp only [if_pos hget, hparse, bind, Except.bind, pure, Except.pure, Answer.andThen,
          if_true, hih]
        rfl

/-- `handle_connection` sends what it sends on a connection. -/
theorem sends_handleConnection (client : Benchmark.Client) :
    Link.Sends client server fun reads heaps ↦
      handleConnection (heaps.map fun heap ↦ ⟨heap, true⟩) (reads.map fun r ↦ .ok r.2) := by
  apply Link.sends_of_delays
  intro reads s ds h heaps
  rw [handleConnection_eq_resume]
  exact resume_delays reads _ _ _ h heaps

end Rust

/-- On every run of a connection of either client, however TCP cuts the bytes: C-BSD, Netconn on
netbufs of one fragment, Asio, Python and Rust have read a cutting of the requests up to what is
still unread, and the waits and responses so far are those of `client_handler`, `handle_client`, a
`Session`, the `handle_client` of Python and `handle_connection` for these reads. -/
theorem sends_loops (client : Benchmark.Client) (recvBuf : Buffer 1024)
    (data : Buffer (1024 + 200)) :
    Link.Sends client (CBsd.server recvBuf) (fun reads heaps ↦ CBsd.clientHandler recvBuf
      (List.zipWith (fun r heap ↦ ⟨r.2, r.1, heap, true⟩) reads heaps)) ∧
    Link.Sends client CNetconn.server (fun reads heaps ↦ CNetconn.handleClient
      (List.zipWith (fun r heap ↦ ⟨some r.1.2, r.1.1, heap, true⟩) reads heaps)) ∧
    Link.Sends client (CppAsio.server data) (fun reads heaps ↦ CppAsio.session data
      (List.zipWith (fun r heap ↦ ⟨some r.2, r.1, heap, true⟩) reads heaps)) ∧
    Link.Sends client Python.server (fun reads heaps ↦ Python.handleClient
      (List.zipWith (fun r heap ↦ ⟨.ofBytes r.2, 0, heap, true⟩) reads heaps)) ∧
    Link.Sends client Rust.server (fun reads heaps ↦ Rust.handleConnection
      (heaps.map fun heap ↦ ⟨heap, true⟩) (reads.map fun r ↦ .ok r.2)) := by
  refine ⟨?_, ?_, ?_, ?_, Rust.sends_handleConnection client⟩
  · exact Server.sends_ofHandler client _ id _ _ _
  · exact Server.sends_ofHandler client _ _ _ _ _
  · exact Server.sends_ofHandler client _ id _ _ _
  · exact Server.sends_ofHandler client _ _ _ _ _

end Esp32WebServers
