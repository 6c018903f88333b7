import Esp32WebServers.Base.Holders
import Esp32WebServers.Base.Run

/-!
# Connections and buffers of the Netconn server

`tcp_server` and its `handle_client` tasks (`web_server/c_netconn/main/tcp_server.c:86–162`)
as one step relation, with every result of `netconn_accept`, `xTaskCreate`,
`netconn_recv` and `netconn_write`. Connections and receive buffers are numbered in the
order in which lwIP allocates them, so that a reused address is a new number. The main
result says for which results every connection and every buffer is deleted exactly once.
-/

namespace Esp32WebServers.CNetconn.Ledger

open Base

/-- Where the accept loop stands: at `netconn_accept`, or with a new connection at
`xTaskCreate`. -/
inductive LoopPc where
  | accept
  | taskCreate (newconn : Nat)
  deriving DecidableEq

/-- Where a `handle_client` task stands, named after the call that comes next; in the
body of the loop with the buffer that `inbuf` points to. -/
inductive ClientPc where
  | recv
  | write (inbuf : Nat)
  | netbufDelete (inbuf : Nat)
  | close
  | delete
  | taskDelete
  | gone
  deriving DecidableEq

/-- A `handle_client` task with its connection. -/
structure HandleClient where
  newconn : Nat
  pc : ClientPc
  deriving DecidableEq

/-- The accept loop, the tasks in the order of their creation, how many connections and
buffers lwIP has handed out, and which ones were passed to a delete function, with
repetitions. -/
structure State where
  pc : LoopPc
  tasks : List HandleClient
  accepted : Nat
  received : Nat
  deletedConns : List Nat
  deletedBufs : List Nat
  deriving DecidableEq

/-- The server at the first `netconn_accept`. -/
def State.start : State := ⟨.accept, [], 0, 0, [], []⟩

/-- The calls of a task, with the results that the code looks at. -/
inductive Call where
  | recv (ok : Bool)
  | write (ok : Bool)
  | netbufDelete
  | close
  | delete
  | taskDelete
  deriving DecidableEq

/-- Atomic steps: a call of the accept loop or of a task. -/
inductive Event where
  | accept (ok : Bool)
  | taskCreate (ok : Bool)
  | client (task : Nat) (call : Call)
  deriving DecidableEq

/-- A task goes on to another place. -/
def State.goto (s : State) (task : Nat) (t : HandleClient) (pc : ClientPc) : State :=
  { s with tasks := s.tasks.set task { t with pc := pc } }

/-- One call of `handle_client` (`web_server/c_netconn/main/tcp_server.c:122–161`). A
failed `netconn_recv` or `netconn_write` leaves the loop; `netbuf_delete` is reached after
a successful `netconn_write` only. -/
def clientStep (s : State) (task : Nat) (t : HandleClient) : Call → Option State
  | .recv ok =>
    match t.pc with
    | .recv =>
      some (if ok then { s.goto task t (.write s.received) with received := s.received + 1 }
        else s.goto task t .close)
    | _ => none
  | .write ok =>
    match t.pc with
    | .write inbuf => some (s.goto task t (if ok then .netbufDelete inbuf else .close))
    | _ => none
  | .netbufDelete =>
    match t.pc with
    | .netbufDelete inbuf =>
      some { s.goto task t .recv with deletedBufs := inbuf :: s.deletedBufs }
    | _ => none
  | .close =>
    match t.pc with
    | .close => some (s.goto task t .delete)
    | _ => none
  | .delete =>
    match t.pc with
    | .delete =>
      some { s.goto task t .taskDelete with deletedConns := t.newconn :: s.deletedConns }
    | _ => none
  | .taskDelete =>
    match t.pc with
    | .taskDelete => some (s.goto task t .gone)
    | _ => none

/-- The accept loop and the tasks, one call at a time. The loop tries again after a failed
`netconn_accept` and ignores the result of `xTaskCreate`
(`web_server/c_netconn/main/tcp_server.c:96–103`). -/
def step : Step State Event
  | s, .accept ok =>
    match s.pc with
    | .accept =>
      some (if ok then { s with pc := .taskCreate s.accepted, accepted := s.accepted + 1 }
        else s)
    | .taskCreate _ => none
  | s, .taskCreate ok =>
    match s.pc with
    | .accept => none
    | .taskCreate newconn =>
      some { s with
        pc := .accept
        tasks := if ok then s.tasks ++ [⟨newconn, .recv⟩] else s.tasks }
  | s, .client task call => (s.tasks[task]?).bind fun t ↦ clientStep s task t call

/-- A task that has not called `netconn_delete` yet, and will. -/
def ClientPc.holdsConn : ClientPc → Bool
  | .taskDelete => false
  | .gone => false
  | _ => true

/-- The buffer of the loop's body, between `netconn_recv` and `netbuf_delete`. -/
def ClientPc.inbuf? : ClientPc → Option Nat
  | .write inbuf => some inbuf
  | .netbufDelete inbuf => some inbuf
  | _ => none

/-- A task owns its connection until it deletes it. -/
def HandleClient.owns (conn : Nat) (t : HandleClient) : Bool :=
  t.pc.holdsConn && t.newconn == conn

/-- A task works on the buffer of its loop's body. -/
def HandleClient.worksOn (buf : Nat) (t : HandleClient) : Bool :=
  t.pc.inbuf? == some buf

/-- How many tasks own a connection; the loop on its way to `xTaskCreate` stands for the
task that it creates. -/
def State.owners (s : State) (conn : Nat) : Nat :=
  s.tasks.countP (HandleClient.owns conn) + if s.pc = .taskCreate conn then 1 else 0

/-- How many tasks work on a buffer. -/
def State.workers (s : State) (buf : Nat) : Nat := s.tasks.countP (HandleClient.worksOn buf)

/-- Every connection and every buffer that lwIP handed out is accounted for. -/
structure Kept (s : State) : Prop where
  conns : ∀ conn < s.accepted, Accounted (s.owners conn) (s.deletedConns.count conn)
  bufs : ∀ buf < s.received, Accounted (s.workers buf) (s.deletedBufs.count buf)

/-- The results that the ledger relies on: a task for every connection, and every response
handed to lwIP. -/
def Succeeds : Event → Prop
  | .taskCreate ok => ok = true
  | .client _ (.write ok) => ok = true
  | _ => True

/-- Whether a result is one that the ledger relies on can be computed. -/
instance : (e : Event) → Decidable (Succeeds e)
  | .accept _ => isTrue trivial
  | .taskCreate ok => inferInstanceAs (Decidable (ok = true))
  | .client _ (.write ok) => inferInstanceAs (Decidable (ok = true))
  | .client _ (.recv _) => isTrue trivial
  | .client _ .netbufDelete => isTrue trivial
  | .client _ .close => isTrue trivial
  | .client _ .delete => isTrue trivial
  | .client _ .taskDelete => isTrue trivial

/-- The invariant: what was handed out is in balance, and what was not has neither holders
nor deletions. -/
structure Balanced (s : State) : Prop where
  conns : ∀ conn, s.owners conn + s.deletedConns.count conn =
    if conn < s.accepted then 1 else 0
  bufs : ∀ buf, s.workers buf + s.deletedBufs.count buf =
    if buf < s.received then 1 else 0

/-- In balance everything handed out is accounted for. -/
theorem Balanced.kept {s : State} (h : Balanced s) : Kept s := by
  refine ⟨?_, ?_⟩
  · intro conn hconn
    rw [accounted_iff, h.conns, if_pos hconn]
  · intro buf hbuf
    rw [accounted_iff, h.bufs, if_pos hbuf]

/-- At the start nothing has been handed out. -/
theorem balanced_start : Balanced .start := by
  refine ⟨fun conn ↦ ?_, fun buf ↦ ?_⟩
  · simp [State.owners, State.start]
  · simp [State.workers, State.start]

/-- A task on its way gives up its share of a connection for the share of its new place. -/
theorem owners_goto {s : State} {task : Nat} {t : HandleClient}
    (h : s.tasks[task]? = some t) (pc : ClientPc) (conn : Nat) :
    (s.goto task t pc).owners conn + (if t.owns conn then 1 else 0) =
      s.owners conn + (if HandleClient.owns conn ⟨t.newconn, pc⟩ then 1 else 0) := by
  have hcount := countP_set_add (HandleClient.owns conn) h ⟨t.newconn, pc⟩
  change (s.tasks.set task ⟨t.newconn, pc⟩).countP (HandleClient.owns conn) +
      (if s.pc = .taskCreate conn then 1 else 0) + (if t.owns conn then 1 else 0) = _
  rw [State.owners]
  omega

/-- A task on its way gives up its share of a buffer for the share of its new place. -/
theorem workers_goto {s : State} {task : Nat} {t : HandleClient}
    (h : s.tasks[task]? = some t) (pc : ClientPc) (buf : Nat) :
    (s.goto task t pc).workers buf + (if t.worksOn buf then 1 else 0) =
      s.workers buf + (if HandleClient.worksOn buf ⟨t.newconn, pc⟩ then 1 else 0) :=
  countP_set_add (HandleClient.worksOn buf) h ⟨t.newconn, pc⟩

/-- A place with the same claim on the connection changes no owner. -/
theorem owners_goto_of_eq {s : State} {task : Nat} {t : HandleClient}
    (h : s.tasks[task]? = some t) (pc : ClientPc) (hconn : pc.holdsConn = t.pc.holdsConn)
    (conn : Nat) : (s.goto task t pc).owners conn = s.owners conn := by
  have hgoto := owners_goto h pc conn
  unfold HandleClient.owns at hgoto
  rw [hconn] at hgoto
  exact Nat.add_right_cancel hgoto

/-- A place with the same claim on a buffer changes no worker. -/
theorem workers_goto_of_eq {s : State} {task : Nat} {t : HandleClient}
    (h : s.tasks[task]? = some t) (pc : ClientPc) (hbuf : pc.inbuf? = t.pc.inbuf?)
    (buf : Nat) : (s.goto task t pc).workers buf = s.workers buf := by
  have hgoto := workers_goto h pc buf
  unfold HandleClient.worksOn at hgoto
  rw [hbuf] at hgoto
  exact Nat.add_right_cancel hgoto

/-- A place with the same claims on connection and buffer keeps the balance. -/
theorem Balanced.goto {s : State} (h : Balanced s) {task : Nat} {t : HandleClient}
    (ht : s.tasks[task]? = some t) {pc : ClientPc} (hconn : pc.holdsConn = t.pc.holdsConn)
    (hbuf : pc.inbuf? = t.pc.inbuf?) : Balanced (s.goto task t pc) := by
  refine ⟨fun conn ↦ ?_, fun buf ↦ ?_⟩
  · rw [owners_goto_of_eq ht pc hconn]
    exact h.conns conn
  · rw [workers_goto_of_eq ht pc hbuf]
    exact h.bufs buf

/-- A new buffer is the business of the task that received it. -/
theorem Balanced.received {s : State} (h : Balanced s) {task : Nat} {t : HandleClient}
    (ht : s.tasks[task]? = some t) (hpc : t.pc = .recv) :
    Balanced { s.goto task t (.write s.received) with received := s.received + 1 } := by
  refine ⟨fun conn ↦ ?_, fun buf ↦ ?_⟩
  · have howners := owners_goto_of_eq ht (.write s.received) (by rw [hpc]; rfl) conn
    exact howners ▸ h.conns conn
  · have hgoto := workers_goto ht (.write s.received) buf
    simp only [HandleClient.worksOn, hpc, ClientPc.inbuf?, beq_iff_eq, Option.some.injEq,
      reduceCtorEq, if_false] at hgoto
    have hbuf := h.bufs buf
    change (s.goto task t (.write s.received)).workers buf + s.deletedBufs.count buf =
      if buf < s.received + 1 then 1 else 0
    split at hgoto <;> split at hbuf <;> split <;> omega

/-- `netbuf_delete` ends the work on a buffer. -/
theorem Balanced.netbufDeleted {s : State} (h : Balanced s) {task inbuf : Nat}
    {t : HandleClient} (ht : s.tasks[task]? = some t) (hpc : t.pc = .netbufDelete inbuf) :
    Balanced { s.goto task t .recv with deletedBufs := inbuf :: s.deletedBufs } := by
  refine ⟨fun conn ↦ ?_, fun buf ↦ ?_⟩
  · have howners := owners_goto_of_eq ht .recv (by rw [hpc]; rfl) conn
    exact howners ▸ h.conns conn
  · have hgoto := workers_goto ht .recv buf
    simp only [HandleClient.worksOn, hpc, ClientPc.inbuf?, beq_iff_eq, Option.some.injEq,
      reduceCtorEq, if_false] at hgoto
    have hbuf := h.bufs buf
    change (s.goto task t .recv).workers buf + (inbuf :: s.deletedBufs).count buf =
      if buf < s.received then 1 else 0
    rw [← hbuf, List.count_cons]
    simp only [beq_iff_eq]
    omega

/-- `netconn_delete` ends the ownership of a connection. -/
theorem Balanced.deleted {s : State} (h : Balanced s) {task : Nat} {t : HandleClient}
    (ht : s.tasks[task]? = some t) (hpc : t.pc = .delete) :
    Balanced
      { s.goto task t .taskDelete with deletedConns := t.newconn :: s.deletedConns } := by
  refine ⟨fun conn ↦ ?_, fun buf ↦ ?_⟩
  · have hgoto := owners_goto ht .taskDelete conn
    simp only [HandleClient.owns, hpc, ClientPc.holdsConn, Bool.true_and, Bool.false_and,
      beq_iff_eq, Bool.false_eq_true, if_false] at hgoto
    have hconn := h.conns conn
    change (s.goto task t .taskDelete).owners conn +
      (t.newconn :: s.deletedConns).count conn = if conn < s.accepted then 1 else 0
    rw [← hconn, List.count_cons]
    simp only [beq_iff_eq]
    omega
  · have hworkers := workers_goto_of_eq ht .taskDelete (by rw [hpc]; rfl) buf
    exact hworkers ▸ h.bufs buf

/-- Every call of a task keeps the balance, except for a failing `netconn_write`. -/
theorem Balanced.clientStep {s u : State} {task : Nat} {t : HandleClient} {call : Call}
    (h : Balanced s) (ht : s.tasks[task]? = some t)
    (hu : Ledger.clientStep s task t call = some u) (hcall : call ≠ .write false) :
    Balanced u := by
  cases call with
  | recv ok =>
    rw [Ledger.clientStep] at hu
    split at hu
    · next hpc =>
      cases hu
      cases ok with
      | true => exact h.received ht hpc
      | false => exact h.goto ht (by rw [hpc]; rfl) (by rw [hpc]; rfl)
    · cases hu
  | write ok =>
    rw [Ledger.clientStep] at hu
    split at hu
    · next inbuf hpc =>
      cases hu
      cases ok with
      | true => exact h.goto ht (by rw [hpc]; rfl) (by rw [hpc]; rfl)
      | false => exact absurd rfl hcall
    · cases hu
  | netbufDelete =>
    rw [Ledger.clientStep] at hu
    split at hu
    · next inbuf hpc =>
      cases hu
      exact h.netbufDeleted ht hpc
    · cases hu
  | close =>
    rw [Ledger.clientStep] at hu
    split at hu
    · next hpc =>
      cases hu
      exact h.goto ht (by rw [hpc]; rfl) (by rw [hpc]; rfl)
    · cases hu
  | delete =>
    rw [Ledger.clientStep] at hu
    split at hu
    · next hpc =>
      cases hu
      exact h.deleted ht hpc
    · cases hu
  | taskDelete =>
    rw [Ledger.clientStep] at hu
    split at hu
    · next hpc =>
      cases hu
      exact h.goto ht (by rw [hpc]; rfl) (by rw [hpc]; rfl)
    · cases hu

/-- A new connection is the business of the loop. -/
theorem Balanced.accepted {s : State} (h : Balanced s) (hpc : s.pc = .accept) :
    Balanced { s with pc := .taskCreate s.accepted, accepted := s.accepted + 1 } := by
  refine ⟨fun conn ↦ ?_, h.bufs⟩
  have hconn := h.conns conn
  rw [State.owners, hpc, if_neg (by simp)] at hconn
  change s.tasks.countP (HandleClient.owns conn) +
      (if LoopPc.taskCreate s.accepted = .taskCreate conn then 1 else 0) +
      s.deletedConns.count conn = if conn < s.accepted + 1 then 1 else 0
  simp only [LoopPc.taskCreate.injEq]
  split at hconn <;> split <;> split <;> omega

/-- A created task takes the connection over from the loop. -/
theorem Balanced.taskCreated {s : State} (h : Balanced s) {newconn : Nat}
    (hpc : s.pc = .taskCreate newconn) :
    Balanced { s with pc := .accept, tasks := s.tasks ++ [⟨newconn, .recv⟩] } := by
  refine ⟨fun conn ↦ ?_, fun buf ↦ ?_⟩
  · have hconn := h.conns conn
    rw [State.owners, hpc] at hconn
    simp only [LoopPc.taskCreate.injEq] at hconn
    change (s.tasks ++ [HandleClient.mk newconn .recv]).countP (HandleClient.owns conn) +
        (if LoopPc.accept = .taskCreate conn then 1 else 0) + s.deletedConns.count conn =
      if conn < s.accepted then 1 else 0
    have hloop : LoopPc.accept ≠ .taskCreate conn := by simp
    rw [← hconn, List.countP_append, List.countP_singleton, if_neg hloop]
    simp only [HandleClient.owns, ClientPc.holdsConn, Bool.true_and, beq_iff_eq]
    omega
  · have hbuf := h.bufs buf
    rw [State.workers] at hbuf
    have hidle : HandleClient.worksOn buf ⟨newconn, .recv⟩ = false := rfl
    change (s.tasks ++ [HandleClient.mk newconn .recv]).countP (HandleClient.worksOn buf) +
      s.deletedBufs.count buf = if buf < s.received then 1 else 0
    rw [← hbuf, List.countP_append, List.countP_singleton, hidle]
    rfl

/-- Every step keeps the balance, except for a failing `xTaskCreate` or
`netconn_write`. -/
theorem Balanced.step {s u : State} {e : Event} (h : Balanced s)
    (hu : Ledger.step s e = some u) (he : Succeeds e) : Balanced u := by
  cases e with
  | accept ok =>
    rw [Ledger.step] at hu
    split at hu
    · next hpc =>
      cases hu
      cases ok with
      | true => exact h.accepted hpc
      | false => exact h
    · cases hu
  | taskCreate ok =>
    rw [Ledger.step] at hu
    split at hu
    · cases hu
    · next newconn hpc =>
      cases hu
      rw [show ok = true from he]
      exact h.taskCreated hpc
  | client task call =>
    obtain ⟨t, ht, hu⟩ := Option.bind_eq_some_iff.mp hu
    apply h.clientStep ht hu
    intro hcall
    rw [hcall] at he
    exact Bool.noConfusion he

/-- A connection without a task is lost. -/
theorem Balanced.not_kept_taskCreate {s u : State} (h : Balanced s)
    (hu : Ledger.step s (.taskCreate false) = some u) : ¬ Kept u := by
  intro hkept
  rw [Ledger.step] at hu
  split at hu
  · cases hu
  · next newconn hpc =>
    cases hu
    have howners : s.owners newconn = s.tasks.countP (HandleClient.owns newconn) + 1 := by
      rw [State.owners, hpc, if_pos rfl]
    obtain ⟨hlt, hone, hnone⟩ := held_of_balance (h.conns newconn) (by omega)
    have hlost := accounted_iff.mp (hkept.conns newconn hlt)
    change s.tasks.countP (HandleClient.owns newconn) +
      (if LoopPc.accept = .taskCreate newconn then 1 else 0) +
      s.deletedConns.count newconn = 1 at hlost
    rw [if_neg (by simp)] at hlost
    omega

/-- A buffer whose response could not be written is lost. -/
theorem Balanced.not_kept_write {s u : State} {task : Nat} (h : Balanced s)
    (hu : Ledger.step s (.client task (.write false)) = some u) : ¬ Kept u := by
  intro hkept
  obtain ⟨t, ht, hu⟩ := Option.bind_eq_some_iff.mp hu
  rw [Ledger.clientStep] at hu
  split at hu
  · next inbuf hpc =>
    cases hu
    have hgoto := workers_goto ht .close inbuf
    simp only [HandleClient.worksOn, hpc, ClientPc.inbuf?, beq_self_eq_true, if_true,
      beq_iff_eq, reduceCtorEq, if_false] at hgoto
    obtain ⟨hlt, hone, hnone⟩ := held_of_balance (h.bufs inbuf) (by omega)
    have hlost := accounted_iff.mp (hkept.bufs inbuf hlt)
    change (s.goto task t .close).workers inbuf + s.deletedBufs.count inbuf = 1 at hlost
    omega
  · cases hu

/-- A step after which everything is accounted for did not fail. -/
theorem Balanced.succeeds {s u : State} {e : Event} (h : Balanced s)
    (hu : Ledger.step s e = some u) (hkept : Kept u) : Succeeds e := by
  unfold Succeeds
  split
  · next ok =>
    cases ok with
    | true => rfl
    | false => exact absurd hkept (h.not_kept_taskCreate hu)
  · next task ok =>
    cases ok with
    | true => rfl
    | false => exact absurd hkept (h.not_kept_write hu)
  · trivial

/-- For every run of the accept loop and its tasks, whatever the calls return and in
whatever order the tasks run: every connection and every buffer is accounted for in every
state of the run if and only if no `xTaskCreate` and no `netconn_write` of the run
fails. -/
theorem kept_iff_succeeds (es : List Event) (u : State)
    (hrun : Step.run step .start es = some u) :
    Step.Always step Kept .start es ↔ ∀ e ∈ es, Succeeds e := by
  rw [← Step.guarded_const hrun]
  exact Step.always_iff_guarded (fun _ h ↦ h.kept) (fun _ _ _ h hu he ↦ h.step hu he)
    (fun _ _ _ h hu hkept ↦ h.succeeds hu hkept) balanced_start hrun

/-- A connection with one request, which the client closes after the response. -/
def oneRequest : List Event :=
  [.accept true, .taskCreate true, .client 0 (.recv true), .client 0 (.write true),
    .client 0 .netbufDelete, .client 0 (.recv false), .client 0 .close, .client 0 .delete,
    .client 0 .taskDelete]

/-- The ledger of a connection with one request. -/
theorem kept_oneRequest : Step.Always step Kept .start oneRequest :=
  (kept_iff_succeeds oneRequest ⟨.accept, [⟨0, .gone⟩], 1, 1, [0], [0]⟩ (by decide)).mpr
    (by decide)

/-- A connection for which no task can be created. -/
def noTask : List Event := [.accept true, .taskCreate false]

/-- A connection that breaks before the response is written. -/
def failedWrite : List Event :=
  [.accept true, .taskCreate true, .client 0 (.recv true), .client 0 (.write false),
    .client 0 .close, .client 0 .delete, .client 0 .taskDelete]

/-- Without its task a connection has no owner and is never deleted; after a failed write
the task ends with its buffer undeleted. -/
theorem not_kept_noTask_failedWrite :
    (∃ u, Step.run step .start noTask = some u ∧ u.owners 0 = 0 ∧ u.deletedConns = [] ∧
      ¬ Kept u) ∧
    (∃ u, Step.run step .start failedWrite = some u ∧ u.tasks = [⟨0, .gone⟩] ∧
      u.received = 1 ∧ u.deletedBufs = [] ∧ ¬ Kept u) := by
  refine ⟨⟨⟨.accept, [], 1, 0, [], []⟩, by decide, by decide, rfl, ?_⟩,
    ⟨⟨.accept, [⟨0, .gone⟩], 1, 1, [0], []⟩, by decide, rfl, rfl, rfl, ?_⟩⟩
  · intro h
    exact absurd (accounted_iff.mp (h.conns 0 (by decide))) (by decide)
  · intro h
    exact absurd (accounted_iff.mp (h.bufs 0 (by decide))) (by decide)

end Esp32WebServers.CNetconn.Ledger
