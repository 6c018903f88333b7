import Mathlib.Data.List.Range
import Esp32WebServers.Base.Run

/-!
# The callbacks of the Asio server

One `Server` and any number of `Session`s (`web_server/cpp_asio/main/tcp_server.cpp:41–147`)
over an `io_context` that runs one completion handler at a time. A handler is the list of
its effects on the session, in the order of the source; the completions arrive in any
order, with any error code, length and delay. The abstract session is a machine of four
phases, which every handler follows.
-/

namespace Esp32WebServers.CppAsio

open Base

/-- A session as the library sees it: how many reads and writes are pending and for which
requests waits are, how many `shared_ptr`s there are, how many requests have been read,
how many waits `expires_at` has cancelled, and for which requests writes were started. -/
structure Session where
  reads : Nat
  waits : List Nat
  writes : Nat
  refs : Nat
  requests : Nat
  cancelled : Nat
  writesFor : List Nat
  deriving DecidableEq

/-- What a handler does to its session. Waits and writes carry the number of the request
that they are for. -/
inductive Action where
  | completeRead (ok : Bool)
  | completeWait (request : Nat)
  | completeWrite
  | sharedFromThis
  | release
  | terminate (length : Nat)
  | parse
  | format
  | expiresAt
  | asyncRead
  | asyncWait (request : Nat)
  | asyncWrite (request : Nat)
  deriving DecidableEq

/-- The effect of an action. A started operation owns a copy of `self`; when it completes,
the copy stays with the running handler. `expires_at` cancels the waits that are still
pending. -/
def Session.exec (x : Session) : Action → Session
  | .completeRead ok =>
    { x with reads := x.reads - 1, requests := if ok then x.requests + 1 else x.requests }
  | .completeWait request => { x with waits := x.waits.erase request }
  | .completeWrite => { x with writes := x.writes - 1 }
  | .sharedFromThis => { x with refs := x.refs + 1 }
  | .release => { x with refs := x.refs - 1 }
  | .terminate _ => x
  | .parse => x
  | .format => x
  | .expiresAt => { x with cancelled := x.cancelled + x.waits.length }
  | .asyncRead => { x with reads := x.reads + 1, refs := x.refs + 1 }
  | .asyncWait request => { x with waits := x.waits ++ [request], refs := x.refs + 1 }
  | .asyncWrite request =>
    { x with
      writes := x.writes + 1
      refs := x.refs + 1
      writesFor := x.writesFor ++ [request] }

/-- The actions of a handler, one after the other. -/
def perform : Step Session Action := fun x a ↦ some (x.exec a)

/-- `Session::read` (`tcp_server.cpp:122–126`). -/
def read : List Action := [.sharedFromThis, .asyncRead, .release]

/-- `Session::write` (`tcp_server.cpp:99–119`). -/
def write (request : Nat) : List Action :=
  [.sharedFromThis, .format, .asyncWrite request, .release]

/-- `Session::write_delayed` (`tcp_server.cpp:88–97`). -/
def writeDelayed (request : Nat) : List Action :=
  [.sharedFromThis, .expiresAt, .asyncWait request, .release]

/-- The handler of a read (`tcp_server.cpp:126–146`): the number of earlier requests is the
number of the new one. -/
def readHandler (request : Nat) (ok : Bool) (length : Nat) (delay : Int) : List Action :=
  .completeRead ok ::
    (if ok then
      [.terminate length, .parse] ++
        (if 0 < delay then writeDelayed request else write request)
    else []) ++ [.release]

/-- The handler of a wait (`tcp_server.cpp:93–96`), which ignores the error code. -/
def waitHandler (request : Nat) : List Action :=
  .completeWait request :: write request ++ [.release]

/-- The handler of a write (`tcp_server.cpp:109–118`). -/
def writeHandler (ok : Bool) : List Action :=
  .completeWrite :: (if ok then read else []) ++ [.release]

/-- `Session::start` on a new session, and the end of the block that created it
(`tcp_server.cpp:56–57`). -/
def acceptActions : List Action := read ++ [.release]

/-- A session fresh from `std::make_shared`. -/
def Session.made : Session := ⟨0, [], 0, 1, 0, 0, []⟩

/-- A completion of an operation of a session, with what the handler gets and the delay that
`get_header_value` finds in the buffer. -/
inductive Completion where
  | read (ok : Bool) (length : Nat) (delay : Int)
  | wait (request : Nat) (ok : Bool)
  | write (ok : Bool)
  deriving DecidableEq

/-- The handler of a completion, where such an operation is pending. A read delivers at most
`max_length` bytes. -/
def Session.handler (x : Session) : Completion → Option (List Action)
  | .read ok length delay =>
    if 0 < x.reads ∧ length ≤ 1024 then some (readHandler x.requests ok length delay)
    else none
  | .wait request _ => if request ∈ x.waits then some (waitHandler request) else none
  | .write ok => if 0 < x.writes then some (writeHandler ok) else none

/-- The server with its pending accepts, and the sessions in the order of their creation. -/
structure State where
  accepts : Nat
  sessions : List Session
  deriving DecidableEq

/-- `Server::do_accept` (`tcp_server.cpp:48–51`). -/
def State.doAccept (s : State) : State := { s with accepts := s.accepts + 1 }

/-- The server after its constructor (`tcp_server.cpp:42–46`). -/
def State.start : State := State.doAccept ⟨0, []⟩

/-- A completion that the `io_context` runs the handler of. -/
inductive Event where
  | accept (ok : Bool)
  | session (index : Nat) (completion : Completion)
  deriving DecidableEq

/-- The `io_context`, one completion at a time. The handler of an accept
(`tcp_server.cpp:51–63`) creates a session unless there is an error, and calls `do_accept`
in both cases. -/
def step : Step State Event
  | s, .accept ok =>
    if 0 < s.accepts then
      let completed := { s with accepts := s.accepts - 1 }
      if ok then
        (Step.run perform .made acceptActions).map fun x ↦
          State.doAccept { completed with sessions := s.sessions ++ [x] }
      else some completed.doAccept
    else none
  | s, .session index completion =>
    (s.sessions[index]?).bind fun x ↦
      (x.handler completion).bind fun actions ↦
        (Step.run perform x actions).map fun y ↦
          { s with sessions := s.sessions.set index y }

/-- How many operations of a session are pending. -/
def Session.pending (x : Session) : Nat := x.reads + x.waits.length + x.writes

/-- An action touches a living session; `data_` only while no read is pending, `send_buf_`
only while no write is, and the timer only while no wait is. The terminator of a read of
1024 bytes lies behind `data_`, in `send_buf_`. -/
def Safe (x : Session) (a : Action) : Prop :=
  0 < x.refs ∧
    match a with
    | .terminate length => if length < 1024 then x.reads = 0 else x.writes = 0
    | .parse => x.reads = 0
    | .format => x.writes = 0
    | .expiresAt => x.waits = []
    | _ => True

/-- A session has at most one pending operation and is alive exactly while it has one; no
wait was cancelled; writes were started for different requests, and for all that were read
but the one that waits; and whichever handler runs next is safe from its first action to
its last. -/
structure Orderly (x : Session) : Prop where
  one : x.pending ≤ 1
  alive : 0 < x.refs ↔ x.pending = 1
  cancelled : x.cancelled = 0
  once : x.writesFor.Nodup
  balance : x.writesFor.length + x.waits.length = x.requests
  safe : ∀ completion actions, x.handler completion = some actions →
    Step.Guarded perform Safe x actions

/-- Exactly one accept is pending, its handler will be safe on the session that it creates,
and every session is orderly. -/
structure Sane (s : State) : Prop where
  accepts : s.accepts = 1
  accept : Step.Guarded perform Safe .made acceptActions
  sessions : ∀ x ∈ s.sessions, Orderly x

/-! ### The four phases -/

/-- What a session is doing, with the number of requests that are dealt with: a read is
pending, a wait for the next request, the write for the last one, or nothing. -/
inductive Phase where
  | reading (answered : Nat)
  | waiting (answered : Nat)
  | writing (answered : Nat)
  | closed (answered : Nat)
  deriving DecidableEq

/-- The abstract session: what a completion leads to. -/
def Phase.next : Phase → Completion → Option Phase
  | .reading n, .read ok length delay =>
    if length ≤ 1024 then
      some (if ok then (if 0 < delay then .waiting n else .writing (n + 1)) else .closed n)
    else none
  | .waiting n, .wait request _ => if request = n then some (.writing (n + 1)) else none
  | .writing n, .write ok => some (if ok then .reading n else .closed n)
  | _, _ => none

/-- The session of a phase. -/
def Session.ofPhase : Phase → Session
  | .reading n => ⟨1, [], 0, 1, n, 0, List.range n⟩
  | .waiting n => ⟨0, [n], 0, 1, n + 1, 0, List.range n⟩
  | .writing n => ⟨0, [], 1, 1, n, 0, List.range n⟩
  | .closed n => ⟨0, [], 0, 0, n, 0, List.range n⟩

/-- A handler is safe from its first action to its last and leads to another session. -/
structure LeadsTo (x y : Session) (actions : List Action) : Prop where
  safe : Step.Guarded perform Safe x actions
  result : Step.run perform x actions = some y

/-- The handler of an accept leaves the new session reading. -/
theorem leadsTo_acceptActions :
    LeadsTo .made (.ofPhase (.reading 0)) acceptActions := by
  constructor
  · simp [acceptActions, read, perform, Session.exec,
      Session.made, Safe]
  · rfl

/-- A handler of a read starts the write for the request or the wait before it. -/
theorem leadsTo_readHandler (n : Nat) (ok : Bool) (length : Nat) (delay : Int) :
    LeadsTo (.ofPhase (.reading n))
      (.ofPhase (if ok then (if 0 < delay then .waiting n else .writing (n + 1))
        else .closed n))
      (readHandler n ok length delay) := by
  cases ok with
  | false =>
    constructor
    · simp [readHandler, perform, Session.exec,
        Session.ofPhase, Safe]
    · rfl
  | true =>
    by_cases hdelay : 0 < delay
    · constructor
      · simp [readHandler, writeDelayed, hdelay, perform,
          Session.exec, Session.ofPhase, Safe]
      · simp [readHandler, writeDelayed, hdelay, Step.run_cons, perform, Session.exec,
          Session.ofPhase]
    · constructor
      · simp [readHandler, write, hdelay, perform,
          Session.exec, Session.ofPhase, Safe]
      · simp [readHandler, write, hdelay, Step.run_cons, perform, Session.exec,
          Session.ofPhase, List.range_succ]

/-- The handler of a wait starts the write that the wait was for. -/
theorem leadsTo_waitHandler (n : Nat) :
    LeadsTo (.ofPhase (.waiting n)) (.ofPhase (.writing (n + 1))) (waitHandler n) := by
  constructor
  · simp [waitHandler, write, perform, Session.exec,
      Session.ofPhase, Safe]
  · simp [waitHandler, write, Step.run_cons, perform, Session.exec, Session.ofPhase,
      List.range_succ]

/-- A handler of a write starts the next read. -/
theorem leadsTo_writeHandler (n : Nat) (ok : Bool) :
    LeadsTo (.ofPhase (.writing n)) (.ofPhase (if ok then .reading n else .closed n))
      (writeHandler ok) := by
  cases ok with
  | false =>
    constructor
    · simp [writeHandler, perform, Session.exec,
        Session.ofPhase, Safe]
    · rfl
  | true =>
    constructor
    · simp [writeHandler, read, perform, Session.exec,
        Session.ofPhase, Safe]
    · rfl

/-- Every handler follows the machine of the phases. -/
theorem handler_follows {p : Phase} {completion : Completion} {actions : List Action}
    (h : (Session.ofPhase p).handler completion = some actions) :
    ∃ q, p.next completion = some q ∧ LeadsTo (.ofPhase p) (.ofPhase q) actions := by
  cases completion with
  | read ok length delay =>
    rw [Session.handler, Option.ite_none_right_eq_some] at h
    obtain ⟨⟨hreads, hlength⟩, h⟩ := h
    cases h
    cases p with
    | reading n =>
      exact ⟨_, if_pos hlength, leadsTo_readHandler n ok length delay⟩
    | waiting n => cases hreads
    | writing n => cases hreads
    | closed n => cases hreads
  | wait request ok =>
    rw [Session.handler, Option.ite_none_right_eq_some] at h
    obtain ⟨hwaits, h⟩ := h
    cases h
    cases p with
    | reading n => cases hwaits
    | waiting n =>
      have hrequest : request = n := List.mem_singleton.mp hwaits
      rw [hrequest]
      exact ⟨_, if_pos rfl, leadsTo_waitHandler n⟩
    | writing n => cases hwaits
    | closed n => cases hwaits
  | write ok =>
    rw [Session.handler, Option.ite_none_right_eq_some] at h
    obtain ⟨hwrites, h⟩ := h
    cases h
    cases p with
    | reading n => cases hwrites
    | waiting n => cases hwrites
    | writing n => exact ⟨_, rfl, leadsTo_writeHandler n ok⟩
    | closed n => cases hwrites

/-- The session of every phase is orderly. -/
theorem orderly_ofPhase (p : Phase) : Orderly (.ofPhase p) := by
  refine ⟨?_, ?_, ?_, ?_, ?_, ?_⟩
  · cases p <;> simp [Session.ofPhase, Session.pending]
  · cases p <;> simp [Session.ofPhase, Session.pending]
  · cases p <;> rfl
  · cases p <;> exact List.nodup_range
  · cases p <;> simp [Session.ofPhase]
  · intro completion actions h
    obtain ⟨q, -, hleads⟩ := handler_follows h
    exact hleads.safe

/-- The invariant: one accept is pending, and every session is that of a phase. -/
structure Phased (s : State) : Prop where
  accepts : s.accepts = 1
  sessions : ∀ x ∈ s.sessions, ∃ p, x = .ofPhase p

/-- Sessions in phases are sane. -/
theorem Phased.sane {s : State} (h : Phased s) : Sane s := by
  refine ⟨h.accepts, leadsTo_acceptActions.safe, ?_⟩
  intro x hx
  obtain ⟨p, rfl⟩ := h.sessions x hx
  exact orderly_ofPhase p

/-- Every completion keeps the invariant. -/
theorem Phased.step {s u : State} {e : Event} (h : Phased s)
    (hu : CppAsio.step s e = some u) : Phased u := by
  cases e with
  | accept ok =>
    rw [CppAsio.step, if_pos (by rw [h.accepts]; decide)] at hu
    cases ok with
    | true =>
      rw [leadsTo_acceptActions.result] at hu
      cases hu
      refine ⟨congrArg (· - 1 + 1) h.accepts, ?_⟩
      intro x hx
      rcases List.mem_append.mp hx with hx | hx
      · exact h.sessions x hx
      · exact ⟨.reading 0, List.mem_singleton.mp hx⟩
    | false =>
      cases hu
      exact ⟨congrArg (· - 1 + 1) h.accepts, h.sessions⟩
  | session index completion =>
    obtain ⟨x, hx, hu⟩ := Option.bind_eq_some_iff.mp hu
    obtain ⟨actions, hactions, hu⟩ := Option.bind_eq_some_iff.mp hu
    obtain ⟨p, rfl⟩ := h.sessions x (List.mem_of_getElem? hx)
    obtain ⟨q, -, hleads⟩ := handler_follows hactions
    rw [hleads.result] at hu
    cases hu
    refine ⟨h.accepts, ?_⟩
    intro y hy
    rcases List.mem_or_eq_of_mem_set hy with hy | rfl
    · exact h.sessions y hy
    · exact ⟨q, rfl⟩

/-- In every run of the server, whatever completes when and with what result: exactly one
accept is pending, every session is orderly, and every handler that can run is safe. -/
theorem sane_always (es : List Event) : Step.Always step Sane .start es := by
  refine Step.always_of_invariant (I := Phased) ?_ ?_ ?_ es
  · intro s h
    exact h.sane
  · intro s e u h hu
    exact h.step hu
  · exact ⟨rfl, fun x hx ↦ absurd hx List.not_mem_nil⟩

end Esp32WebServers.CppAsio
