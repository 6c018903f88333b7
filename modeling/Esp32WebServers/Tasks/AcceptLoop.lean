import Esp32WebServers.Connection.Handlers
import Esp32WebServers.Events.Sessions
import Esp32WebServers.Tasks.Ledger

/-!
# The accept loop of the Rust server

`start_webserver` (`web_server/rust/src/main.rs:104–114`) unwraps every item of
`listener.incoming()` and spawns a thread for it. Both calls panic on a failure, and the
build aborts on a panic (`web_server/rust/.cargo/config.toml:12`), which ends the threads of
all other connections with the loop. The accept loops of the Netconn and Asio servers, in
their models, come last: they go on after the same failures.
-/

namespace Esp32WebServers

open Base

namespace Rust

/-- What a pass of the loop meets: an error from `incoming`, or a stream and whether a thread
can be created for it. -/
inductive Incoming (σ : Type) where
  | err
  | stream (stream : σ) (thread : Bool)
  deriving DecidableEq

/-- The places where the loop panics: `stream.unwrap()` and `thread::spawn`,
`main.rs:111–112`. -/
inductive AcceptPanic where
  | incoming
  | spawn
  deriving DecidableEq

/-- The loop of `start_webserver`, `main.rs:108–113`: the streams that were handed to
`handle_connection` in a thread, and where the loop is after the items of a list. -/
def startWebserver {σ : Type} : List (Incoming σ) → List σ × Stop AcceptPanic
  | [] => ([], .waiting)
  | .err :: _ => ([], .fault .incoming)
  | .stream _ false :: _ => ([], .fault .spawn)
  | .stream stream true :: incoming =>
    (stream :: (startWebserver incoming).1, (startWebserver incoming).2)

variable {σ : Type}

/-- The stream of an item that is no error and gets a thread. -/
def Incoming.given? : Incoming σ → Option σ
  | .stream connection true => some connection
  | _ => none

/-- A stream with a thread is given to it. -/
@[simp] theorem Incoming.given?_stream (connection : σ) :
    (Incoming.stream connection true).given? = some connection := rfl

/-- Neither of the two calls fails. -/
def Incoming.Succeeds : Incoming σ → Prop
  | .err => False
  | .stream _ thread => thread = true

/-- Whether a call fails can be computed. -/
instance : (x : Incoming σ) → Decidable x.Succeeds
  | .err => isFalse id
  | .stream _ thread => inferInstanceAs (Decidable (thread = true))

/-- The loop still listens, and every stream that got a thread is handled. -/
structure Survives (incoming : List (Incoming σ)) : Prop where
  listening : (startWebserver incoming).2 = .waiting
  handled : (startWebserver incoming).1 = incoming.filterMap Incoming.given?

/-- Items without a failure are all handled before the loop goes on. -/
theorem startWebserver_append {good : List (Incoming σ)} (rest : List (Incoming σ))
    (h : ∀ x ∈ good, x.Succeeds) :
    startWebserver (good ++ rest) =
      (good.filterMap Incoming.given? ++ (startWebserver rest).1, (startWebserver rest).2) := by
  induction good with
  | nil => rfl
  | cons x good ih =>
    rw [List.forall_mem_cons] at h
    cases x with
    | err => exact h.1.elim
    | stream stream thread =>
      obtain rfl : thread = true := h.1
      simp only [List.cons_append, startWebserver, ih h.2, List.filterMap_cons,
        Incoming.given?_stream]

/-- The first failure panics, and nothing behind it is handled. -/
theorem startWebserver_of_failure {good : List (Incoming σ)} {x : Incoming σ}
    (rest : List (Incoming σ)) (h : ∀ y ∈ good, y.Succeeds) (hx : ¬ x.Succeeds) :
    ∃ panic, startWebserver (good ++ x :: rest) =
      (good.filterMap Incoming.given?, .fault panic) := by
  rw [startWebserver_append (x :: rest) h]
  cases x with
  | err => exact ⟨.incoming, by rw [startWebserver, List.append_nil]⟩
  | stream stream thread =>
    cases thread with
    | true => exact absurd rfl hx
    | false => exact ⟨.spawn, by rw [startWebserver, List.append_nil]⟩

private theorem exists_first_failure {incoming : List (Incoming σ)}
    (h : ¬ ∀ x ∈ incoming, x.Succeeds) :
    ∃ good x rest, incoming = good ++ x :: rest ∧ (∀ y ∈ good, y.Succeeds) ∧ ¬ x.Succeeds := by
  induction incoming with
  | nil => exact absurd (List.forall_mem_nil _) h
  | cons x incoming ih =>
    by_cases hx : x.Succeeds
    · have hrest : ¬ ∀ y ∈ incoming, y.Succeeds :=
        fun hall ↦ h (List.forall_mem_cons.mpr ⟨hx, hall⟩)
      obtain ⟨good, y, rest, rfl, hgood, hy⟩ := ih hrest
      exact ⟨x :: good, y, rest, rfl, List.forall_mem_cons.mpr ⟨hx, hgood⟩, hy⟩
    · exact ⟨[], x, incoming, rfl, List.forall_mem_nil _, hx⟩

/-- For every sequence of outcomes, the accept loop goes on and handles every connection that
got a thread exactly where no outcome is a failure. -/
theorem survives_iff (incoming : List (Incoming σ)) :
    Survives incoming ↔ ∀ x ∈ incoming, x.Succeeds := by
  constructor
  · intro h
    by_contra hfails
    obtain ⟨good, x, rest, rfl, hgood, hx⟩ := exists_first_failure hfails
    obtain ⟨panic, hpanic⟩ := startWebserver_of_failure rest hgood hx
    have hlistening := h.listening
    rw [hpanic] at hlistening
    cases hlistening
  · intro h
    have hall := startWebserver_append [] h
    rw [List.append_nil] at hall
    constructor
    · rw [hall]
      rfl
    · rw [hall]
      exact List.append_nil _

/-- A connection that is reset before it is accepted, and one for which there is no memory for
a stack: the loop panics, and the connections behind are not handled. -/
theorem not_survives_failures :
    startWebserver [.err, .stream 1 true] = ([], .fault .incoming) ∧
      startWebserver [.stream 1 true, .stream 2 false, .stream 3 true] = ([1], .fault .spawn) ∧
      ¬ ∀ incoming : List (Incoming Nat), Survives incoming := by
  have herr : startWebserver [.err, .stream 1 true] = ([], .fault .incoming) := rfl
  refine ⟨herr, rfl, ?_⟩
  intro h
  have hlistening := (h [.err, .stream 1 true]).listening
  rw [herr] at hlistening
  cases hlistening

end Rust

/-! ### The other accept loops -/

namespace CNetconn.Ledger

/-- The calls of the Netconn loop for an item. -/
def loopEvents {σ : Type} : Rust.Incoming σ → List Event
  | .err => [.accept false]
  | .stream _ thread => [.accept true, .taskCreate thread]

/-- Whatever fails, the Netconn loop is at `netconn_accept` again, with a task for every
connection that got one. -/
theorem run_loopEvents {σ : Type} (incoming : List (Rust.Incoming σ)) {s : State}
    (hs : s.pc = .accept) :
    ∃ t, Step.run step s (incoming.flatMap loopEvents) = some t ∧ t.pc = .accept ∧
      t.tasks.length = s.tasks.length + (incoming.filterMap Rust.Incoming.given?).length := by
  induction incoming generalizing s with
  | nil => exact ⟨s, rfl, hs, rfl⟩
  | cons x incoming ih =>
    cases x with
    | err =>
      obtain ⟨t, hrun, hpc, htasks⟩ := ih hs
      refine ⟨t, ?_, hpc, by rw [List.filterMap_cons_none rfl, htasks]⟩
      simp only [List.flatMap_cons, loopEvents, List.singleton_append, Step.run_cons, step, hs]
      exact hrun
    | stream stream thread =>
      let created : State :=
        { s with
          pc := .accept
          tasks := if thread then s.tasks ++ [⟨s.accepted, .recv⟩] else s.tasks
          accepted := s.accepted + 1 }
      obtain ⟨t, hrun, hpc, htasks⟩ := ih (s := created) rfl
      refine ⟨t, ?_, hpc, ?_⟩
      · simp only [List.flatMap_cons, loopEvents, List.cons_append, List.nil_append, Step.run_cons,
          step, hs]
        exact hrun
      · rw [htasks]
        cases thread with
        | true =>
          simp [created]
          omega
        | false =>
          rw [List.filterMap_cons_none rfl]
          rfl

end CNetconn.Ledger

namespace CppAsio

private theorem step_accept (ok : Bool) {s : State} (hs : 0 < s.accepts) :
    ∃ t, step s (.accept ok) = some t ∧ 0 < t.accepts ∧
      t.sessions.length = s.sessions.length + if ok then 1 else 0 := by
  rw [step, if_pos hs]
  cases ok with
  | false => exact ⟨_, rfl, Nat.succ_pos _, rfl⟩
  | true => exact ⟨_, rfl, Nat.succ_pos _, List.length_append⟩

/-- Whatever errors its accepts end with, the Asio server has an accept pending again, and a
session for every one that succeeded. -/
theorem run_accepts (oks : List Bool) {s : State} (hs : 0 < s.accepts) :
    ∃ t, Step.run step s (oks.map Event.accept) = some t ∧ 0 < t.accepts ∧
      t.sessions.length = s.sessions.length + oks.count true := by
  induction oks generalizing s with
  | nil => exact ⟨s, rfl, hs, rfl⟩
  | cons ok oks ih =>
    obtain ⟨u, hu, haccepts, hsessions⟩ := step_accept ok hs
    obtain ⟨t, hrun, hpending, hcount⟩ := ih haccepts
    refine ⟨t, ?_, hpending, ?_⟩
    · rw [List.map_cons, Step.run_cons, hu]
      exact hrun
    · rw [hcount, hsessions, List.count_cons]
      cases ok with
      | false => simp
      | true =>
        simp
        omega

end CppAsio

end Esp32WebServers
