import Mathlib.Data.List.Forall2
import Esp32WebServers.Header.Receive
import Esp32WebServers.Header.StackSlot
import Esp32WebServers.Response.Encoders

/-!
# The connection handlers

`client_handler` (`web_server/c_bsd/main/tcp_server.c:116–158`), `handle_client`
(`web_server/c_netconn/main/tcp_server.c:111–162`), the callbacks of a `Session`
(`web_server/cpp_asio/main/tcp_server.cpp:88–147`) and `handle_connection`
(`web_server/rust/src/main.rs:116–133`) on one connection. The first three read once,
look the delay up in what the read stored, wait, and respond; they differ in the lookup
and in whether a failed read ends the connection. The Rust server reads until its buffer
begins with `GET`.
-/

namespace Esp32WebServers

open Base

/-- One round of a handler's loop: what its read leaves to parse, the former content of the
stack slot of `value_as_int`, the free heap, and whether the write succeeds. -/
structure Round (α : Type) where
  input : α
  slot : Int
  heap : UInt32
  written : Bool

/-- What the client gets: the milliseconds to wait and the bytes of the response. -/
structure Answer where
  delay : Int
  response : Bytes
  deriving DecidableEq

/-- Where a handler is after the rounds of a list: waiting for more, out of its loop, or
stopped by a fault. -/
inductive Stop (ε : Type) where
  | waiting
  | closed
  | fault (e : ε)
  deriving DecidableEq

/-- An answer, and what follows where it could be written. -/
def Answer.andThen {ε : Type} (a : Answer) (written : Bool)
    (rest : List Answer × Stop ε) : List Answer × Stop ε :=
  if written then (a :: rest.1, rest.2) else ([a], .closed)

/-- The loop of a handler that responds to every read: `parse` is the lookup with a stack
slot, `none` where a failed read ends the loop. -/
def serve {α ε : Type} (parse : Int → α → Except ε (Option Int)) (respond : UInt32 → Bytes) :
    List (Round α) → List Answer × Stop ε
  | [] => ([], .waiting)
  | r :: rounds =>
    match parse r.slot r.input with
    | .error e => ([], .fault e)
    | .ok none => ([], .closed)
    | .ok (some delay) =>
      Answer.andThen ⟨waited delay, respond r.heap⟩ r.written (serve parse respond rounds)

namespace CBsd

/-- The lookup of a round. The result of `recv` is not looked at: at the end of the stream
and after an error the zeroed buffer is parsed, as after a read of no bytes. -/
def parse (recvBuf : Buffer 1024) (slot : Int) (received : Bytes) :
    Except Fault (Option Int) :=
  (receivedDelay recvBuf slot received).map some

/-- `client_handler`, `web_server/c_bsd/main/tcp_server.c:116–158`. -/
def clientHandler (recvBuf : Buffer 1024) : List (Round Bytes) → List Answer × Stop Fault :=
  serve (parse recvBuf) response

end CBsd

namespace CNetconn

/-- The lookup of a round; a failed `netconn_recv` ends the loop. -/
def parse (slot : Int) : Option Payload → Except Fault (Option Int)
  | none => .ok none
  | some recvBuf => (receivedDelay slot recvBuf).map some

/-- `handle_client`, `web_server/c_netconn/main/tcp_server.c:111–162`. -/
def handleClient : List (Round (Option Payload)) → List Answer × Stop Fault :=
  serve parse response

end CNetconn

namespace CppAsio

/-- The lookup of a round; a failed read ends the session. -/
def parse (data : Buffer (1024 + 200)) (slot : Int) :
    Option Bytes → Except Fault (Option Int)
  | none => .ok none
  | some received => (receivedDelay data slot received).map some

/-- The reads, waits and writes of a `Session`,
`web_server/cpp_asio/main/tcp_server.cpp:88–147`. -/
def session (data : Buffer (1024 + 200)) :
    List (Round (Option Bytes)) → List Answer × Stop Fault :=
  serve (parse data) response

end CppAsio

namespace Rust

/-- One iteration of the loop of `handle_connection`: the free heap and whether the write
succeeds. -/
structure Iteration where
  heap : UInt32
  written : Bool

/-- `handle_connection`, `web_server/rust/src/main.rs:116–133`, on the results of the reads
to come. -/
def handleConnection : List Iteration → List Read → List Answer × Stop Panic
  | [], _ => ([], .waiting)
  | i :: iterations, reads =>
    match readRequest reads with
    | .error e => ([], .fault e)
    | .ok none => ([], .waiting)
    | .ok (some (.err, _)) => ([], .closed)
    | .ok (some (.ok delay, reads)) =>
      Answer.andThen ⟨waited delay, getResponseMessage i.heap⟩ i.written
        (handleConnection iterations reads)

end Rust

/-- The answer of a round is made from that round: from what its read leaves to parse, from the
former content of the stack slot, and from the free heap. -/
def AnswersRound {α ε : Type} (parse : Int → α → Except ε (Option Int))
    (respond : UInt32 → Bytes) (r : Round α) (a : Answer) : Prop :=
  ∃ delay, parse r.slot r.input = .ok (some delay) ∧ a = ⟨waited delay, respond r.heap⟩

section Serve

variable {α ε : Type} {parse : Int → α → Except ε (Option Int)} {respond : UInt32 → Bytes}

/-- A handler that is still in its loop has answered every read once, in order. -/
theorem serve_waiting {rounds : List (Round α)}
    (h : (serve parse respond rounds).2 = .waiting) :
    List.Forall₂ (AnswersRound parse respond) rounds (serve parse respond rounds).1 := by
  induction rounds with
  | nil => exact .nil
  | cons r rounds ih =>
    unfold serve at h ⊢
    split at h
    · cases h
    · cases h
    · next delay hparse =>
      unfold Answer.andThen at h ⊢
      by_cases hwritten : r.written
      · rw [if_pos hwritten] at h ⊢
        exact .cons ⟨delay, hparse, rfl⟩ (ih h)
      · rw [if_neg hwritten] at h
        cases h

/-- Reads that all parse, with writes that all succeed, are all answered. -/
theorem serve_map {β : Type} (xs : List β) (round : β → Round α) (delay : β → Int)
    (hparse : ∀ x ∈ xs, parse (round x).slot (round x).input = .ok (some (delay x)))
    (hwritten : ∀ x ∈ xs, (round x).written = true) :
    serve parse respond (xs.map round) =
      (xs.map fun x ↦ ⟨waited (delay x), respond (round x).heap⟩, .waiting) := by
  induction xs with
  | nil => rfl
  | cons x xs ih =>
    rw [List.forall_mem_cons] at hparse hwritten
    rw [List.map_cons, serve, hparse.1]
    simp only [Answer.andThen, hwritten.1, if_true, ih hparse.2 hwritten.2, List.map_cons]

/-- One more round of a handler that is still in its loop. -/
theorem serve_append {rounds : List (Round α)} {answers : List Answer}
    (h : serve parse respond rounds = (answers, .waiting)) (r : Round α) :
    serve parse respond (rounds ++ [r]) =
      (answers ++ (serve parse respond [r]).1, (serve parse respond [r]).2) := by
  induction rounds generalizing answers with
  | nil =>
    cases h
    rfl
  | cons r' rounds ih =>
    rw [serve] at h
    split at h
    · cases h
    · cases h
    · next delay hparse =>
      unfold Answer.andThen at h
      split at h
      · next hwritten =>
        obtain ⟨rfl, hstop⟩ := Prod.mk.inj h
        have hrest := ih (Prod.ext rfl hstop)
        have hfirst : serve parse respond (r' :: (rounds ++ [r])) =
            Answer.andThen ⟨waited delay, respond r'.heap⟩ r'.written
              (serve parse respond (rounds ++ [r])) := by
          rw [serve, hparse]
        rw [List.cons_append, hfirst, Answer.andThen, if_pos hwritten, hrest, List.cons_append]
      · cases h

end Serve

end Esp32WebServers
