import Esp32WebServers.Base.Parties
import Esp32WebServers.Benchmark.Pairing
import Esp32WebServers.Header.RoundTrip
import Esp32WebServers.Header.StackSlot

/-!
# A benchmark session and a server at the two ends of a connection

A session of a benchmark client (`benchmark/iot_benchmark.py:78–117`,
`benchmark/connection_benchmark.py:55–93`) writes a request and takes what its next read
returns for the response; a server takes what its read returns for a request, or reads on,
waits, and writes a response. Between them TCP delivers the bytes of either direction in
pieces of any size. A server is given by what one read makes of its state, so that the
handlers of the repository can stand at its end.
-/

namespace Esp32WebServers

open Base

/-- A delay that an `int` holds. -/
structure IntDelay where
  val : Int
  ge : -2 ^ 31 ≤ val
  lt : val < 2 ^ 31
  deriving DecidableEq

/-- A size of the free heap that is non-negative as an `int`. -/
structure FreeHeap where
  val : UInt32
  lt : val.toNat < 2 ^ 31
  deriving DecidableEq

/-- A server on one connection. `receive` is what it does with the bytes of a read: it stops
with a fault, `none`, or goes on in another state, with the delay of the response that it is
to write, `none` where it reads on. `ι` is what a read meets besides its bytes, such as the
memory around them; `admits` says which of it goes with which bytes. -/
structure Server (σ ι : Type) where
  start : σ
  admits : ι → Bytes → Bool
  receive : σ → ι → Bytes → Option (σ × Option Int)
  respond : UInt32 → Bytes

/-- The request of a client: `MESSAGE_DELAY.format(delay)`, `benchmark/iot_benchmark.py:99`, or
`MESSAGE`, `benchmark/connection_benchmark.py:35`, which names no delay. -/
def Benchmark.Client.message : Benchmark.Client → Int → Bytes
  | .iot, delay => Benchmark.message delay
  | .connection _, _ => ascii "GET / HTTP/1.1\r\nHost: performance.benchmark\r\n"

/-- A connection: the session at the client's end, the delays of its requests, the bytes of
them that the server has not read, the server's state, the delay that it waits for before its
next response, and the delays before the responses that it has written. The session's `heaps`
are those of the responses. -/
structure Link (σ : Type) where
  session : Benchmark.Session
  requests : List IntDelay
  upstream : Bytes
  server : σ
  waiting : Option Int
  waits : List Int

namespace Link

variable {σ ι : Type}

/-- A connection that has been opened. -/
def start (server : Server σ ι) : Link σ := ⟨.opened, [], [], server.start, none, []⟩

/-- What happens on a connection: the client writes a request, the server's read returns, the
server writes a response, bytes of a response arrive, one of the client's reads returns. -/
inductive Event (ι : Type) where
  | request (delay : IntDelay)
  | receive (around : ι) (count : Nat)
  | respond (heap : FreeHeap)
  | arrive (count : Nat)
  | read
  | readOne

/-- `writer.write(message)`, and the session is at its read. -/
def request (client : Benchmark.Client) (l : Link σ) (delay : IntDelay) : Link σ :=
  { l with
    session := { l.session with phase := .read }
    requests := l.requests ++ [delay]
    upstream := l.upstream ++ client.message delay.val }

/-- A read of the server takes bytes off the connection. -/
def receive (l : Link σ) (count : Nat) (result : σ × Option Int) : Link σ :=
  { l with
    upstream := l.upstream.drop count
    server := result.1
    waiting := result.2 }

/-- The server writes a response after the wait. -/
def respond (server : Server σ ι) (l : Link σ) (heap : FreeHeap) (delay : Int) : Link σ :=
  { l with
    session := { l.session with
      heaps := l.session.heaps ++ [heap.val]
      inFlight := l.session.inFlight ++ server.respond heap.val }
    waiting := none
    waits := l.waits ++ [waited delay] }

/-- An event of the session alone. -/
def withSession (l : Link σ) (session : Benchmark.Session) : Link σ := { l with session }

/-- The events of a connection, where they can happen. A server reads when it has nothing to
respond to. -/
def step (client : Benchmark.Client) (server : Server σ ι) : Step (Link σ) (Event ι)
  | l, .request delay =>
    if l.session.phase = .request then some (l.request client delay) else none
  | l, .receive around count =>
    if l.waiting = none ∧ 0 < count ∧ count ≤ l.upstream.length ∧
        server.admits around (l.upstream.take count) = true then
      (server.receive l.server around (l.upstream.take count)).map (l.receive count)
    else none
  | l, .respond heap => l.waiting.map (l.respond server heap)
  | l, .arrive count => (l.session.act client (.arrive count)).map l.withSession
  | l, .read => (l.session.act client .read).map l.withSession
  | l, .readOne => (l.session.act client .readOne).map l.withSession

/-- The responses of a server are those of the repository. -/
def Formats (server : Server σ ι) : Prop :=
  ∀ heap : FreeHeap, server.respond heap.val = responseText heap.val.toNat

section Step

variable {client : Benchmark.Client} {server : Server σ ι} {l m : Link σ}

/-- What an event can be, with what it needs and what it does. -/
theorem step_cases {e : Event ι} (h : step client server l e = some m) :
    (∃ delay, e = .request delay ∧ l.session.phase = .request ∧ m = l.request client delay) ∨
      (∃ around count result, e = .receive around count ∧ l.waiting = none ∧ 0 < count ∧
        count ≤ l.upstream.length ∧ server.admits around (l.upstream.take count) = true ∧
        server.receive l.server around (l.upstream.take count) = some result ∧
        m = l.receive count result) ∨
      (∃ heap delay, e = .respond heap ∧ l.waiting = some delay ∧
        m = l.respond server heap delay) ∨
      (∃ count, e = .arrive count ∧ 0 < count ∧ count ≤ l.session.inFlight.length ∧
        m = l.withSession (l.session.arrive count)) ∨
      (e = .read ∧ l.session.phase = .read ∧ l.session.buffer ≠ [] ∧
        m = l.withSession (l.session.read client)) ∨
      (e = .readOne ∧ l.session.phase = .stay ∧ l.session.buffer ≠ [] ∧
        m = l.withSession l.session.readOne) := by
  cases e with
  | request delay =>
    simp only [step, Option.ite_none_right_eq_some, Option.some.injEq] at h
    exact .inl ⟨delay, rfl, h.1, h.2.symm⟩
  | receive around count =>
    simp only [step, Option.ite_none_right_eq_some, Option.map_eq_some_iff] at h
    obtain ⟨⟨hwaiting, hpos, hle, hadmits⟩, result, hreceive, rfl⟩ := h
    exact .inr (.inl ⟨around, count, result, rfl, hwaiting, hpos, hle, hadmits, hreceive, rfl⟩)
  | respond heap =>
    obtain ⟨delay, hwaiting, rfl⟩ := Option.map_eq_some_iff.mp h
    exact .inr (.inr (.inl ⟨heap, delay, rfl, hwaiting, rfl⟩))
  | arrive count =>
    simp only [step, Benchmark.Session.act, Option.map_eq_some_iff, Option.ite_none_right_eq_some,
      Option.some.injEq] at h
    obtain ⟨session, ⟨⟨hpos, hle⟩, rfl⟩, rfl⟩ := h
    exact .inr (.inr (.inr (.inl ⟨count, rfl, hpos, hle, rfl⟩)))
  | read =>
    simp only [step, Benchmark.Session.act, Option.map_eq_some_iff, Option.ite_none_right_eq_some,
      Option.some.injEq] at h
    obtain ⟨session, ⟨⟨hphase, hbuffer⟩, rfl⟩, rfl⟩ := h
    exact .inr (.inr (.inr (.inr (.inl ⟨rfl, hphase, hbuffer, rfl⟩))))
  | readOne =>
    simp only [step, Benchmark.Session.act, Option.map_eq_some_iff, Option.ite_none_right_eq_some,
      Option.some.injEq] at h
    obtain ⟨session, ⟨⟨hphase, hbuffer⟩, rfl⟩, rfl⟩ := h
    exact .inr (.inr (.inr (.inr (.inr ⟨rfl, hphase, hbuffer, rfl⟩))))

/-- A read that returns with bytes can happen. -/
theorem step_read (hphase : l.session.phase = .read) (hbuffer : l.session.buffer ≠ []) :
    step client server l .read = some (l.withSession (l.session.read client)) := by
  rw [step, Benchmark.Session.act, if_pos ⟨hphase, hbuffer⟩, Option.map_some]

/-- The bytes of a response that are under way can arrive. -/
theorem step_arrive (hinFlight : l.session.inFlight ≠ []) :
    step client server l (.arrive l.session.inFlight.length) =
      some (l.withSession (l.session.arrive l.session.inFlight.length)) := by
  rw [step, Benchmark.Session.act,
    if_pos ⟨List.length_pos_iff.mpr hinFlight, Nat.le_refl _⟩, Option.map_some]

end Step

end Link

end Esp32WebServers
