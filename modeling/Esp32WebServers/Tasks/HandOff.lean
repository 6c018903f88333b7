import Mathlib.Data.Finset.Erase
import Mathlib.Data.Finset.Insert
import Esp32WebServers.Base.Holders
import Esp32WebServers.Base.Run

/-!
# How the C-BSD server hands a connection to its task

`tcp_server` (`web_server/c_bsd/main/tcp_server.c:59–80`) keeps every accepted
descriptor in one variable and passes a new task the variable's address, which the task
reads at its first step (`web_server/c_bsd/main/tcp_server.c:118`). The accept loop and
the tasks are one step relation here, scheduled in any order; the main result says for
which schedules every descriptor is served exactly once.
-/

namespace Esp32WebServers.CBsd

open Base

/-- Where the accept loop stands. -/
inductive LoopPc where
  | accept
  | taskCreate
  deriving DecidableEq

/-- A `client_handler` task. A created one has not run and carries nothing but the
address of the loop's variable; a started one has its own `client_socket`. -/
inductive ClientHandler where
  | created
  | started (clientSocket : Int)
  | deleted
  deriving DecidableEq

/-- The accept loop with its variable, the tasks in the order of their creation, and the
descriptors that `accept` returned and nobody closed. -/
structure TcpServer where
  pc : LoopPc
  clientSocket : Int
  tasks : List ClientHandler
  openSockets : Finset Int
  deriving DecidableEq

/-- The server at the first `accept`; the variable is not initialised. -/
def TcpServer.start (clientSocket : Int) : TcpServer := ⟨.accept, clientSocket, [], ∅⟩

/-- Atomic steps: `accept` and `xTaskCreate` return in the loop, a task runs its first
statement, a task leaves its loop with `close`. The rounds of `client_handler` between
the last two touch neither the variable nor the descriptors; neither does `fcntl`. -/
inductive Event where
  | accept (result : Int)
  | taskCreate (success : Bool)
  | firstStep (task : Nat)
  | close (task : Nat)
  deriving DecidableEq

/-- The loop after `accept` (`web_server/c_bsd/main/tcp_server.c:69`). -/
def TcpServer.accepted (s : TcpServer) (result : Int) : TcpServer :=
  { s with
    pc := .taskCreate
    clientSocket := result
    openSockets := if result = -1 then s.openSockets else insert result s.openSockets }

/-- The loop after `xTaskCreate`, whose result it ignores
(`web_server/c_bsd/main/tcp_server.c:74`). -/
def TcpServer.taskCreated (s : TcpServer) (success : Bool) : TcpServer :=
  { s with
    pc := .accept
    tasks := if success then s.tasks ++ [.created] else s.tasks }

/-- A task has read the variable (`web_server/c_bsd/main/tcp_server.c:118`). -/
def TcpServer.firstStep (s : TcpServer) (task : Nat) : TcpServer :=
  { s with tasks := s.tasks.set task (.started s.clientSocket) }

/-- A task has closed its descriptor and is gone
(`web_server/c_bsd/main/tcp_server.c:156–157`). -/
def TcpServer.closed (s : TcpServer) (task : Nat) (clientSocket : Int) : TcpServer :=
  { s with
    tasks := s.tasks.set task .deleted
    openSockets := s.openSockets.erase clientSocket }

/-- The accept loop and the tasks, one step at a time. `accept` fails with `-1` or returns
a descriptor that is not open. -/
def step : Step TcpServer Event
  | s, .accept result =>
    if s.pc = .accept ∧ (result = -1 ∨ 0 ≤ result ∧ result ∉ s.openSockets) then
      some (s.accepted result)
    else none
  | s, .taskCreate success =>
    if s.pc = .taskCreate then some (s.taskCreated success) else none
  | s, .firstStep task =>
    match s.tasks[task]? with
    | some .created => some (s.firstStep task)
    | _ => none
  | s, .close task =>
    match s.tasks[task]? with
    | some (.started clientSocket) => some (s.closed task clientSocket)
    | _ => none

/-- A step of `accept` starts at the loop's head, with a failure or a fresh descriptor. -/
theorem step_accept {s t : TcpServer} {result : Int} (h : step s (.accept result) = some t) :
    s.pc = .accept ∧ (result = -1 ∨ 0 ≤ result ∧ result ∉ s.openSockets) ∧
      t = s.accepted result := by
  rw [step] at h
  split at h
  · next hc => exact ⟨hc.1, hc.2, (Option.some.inj h).symm⟩
  · cases h

/-- A step of `xTaskCreate` follows one of `accept`. -/
theorem step_taskCreate {s t : TcpServer} {success : Bool}
    (h : step s (.taskCreate success) = some t) :
    s.pc = .taskCreate ∧ t = s.taskCreated success := by
  rw [step] at h
  split at h
  · next hc => exact ⟨hc, (Option.some.inj h).symm⟩
  · cases h

/-- A first step is a created task's. -/
theorem step_firstStep {s t : TcpServer} {task : Nat} (h : step s (.firstStep task) = some t) :
    s.tasks[task]? = some .created ∧ t = s.firstStep task := by
  rw [step] at h
  split at h
  · next hc => exact ⟨hc, (Option.some.inj h).symm⟩
  · cases h

/-- A closing step is a started task's, on its own descriptor. -/
theorem step_close {s t : TcpServer} {task : Nat} (h : step s (.close task) = some t) :
    ∃ clientSocket, s.tasks[task]? = some (.started clientSocket) ∧
      t = s.closed task clientSocket := by
  rw [step] at h
  split at h
  · next clientSocket hc => exact ⟨clientSocket, hc, (Option.some.inj h).symm⟩
  · cases h

/-- How many parties have a descriptor or are bound to get it as things stand: the tasks
that hold it and, where the variable contains it, the tasks that will read the variable
and the loop on its way to `xTaskCreate`. -/
def TcpServer.carriers (s : TcpServer) (socket : Int) : Nat :=
  s.tasks.count (.started socket) +
    if s.clientSocket = socket then
      s.tasks.count .created + if s.pc = .taskCreate then 1 else 0
    else 0

/-- Every open descriptor is going to be served by exactly one task, and no two started
tasks have the same one. -/
structure HandOff (s : TcpServer) : Prop where
  served : ∀ socket ∈ s.openSockets, s.carriers socket = 1
  distinct : ∀ socket, 0 ≤ socket → s.tasks.count (.started socket) ≤ 1

/-- The schedule that the hand-off relies on. `accept` returns only when every created
task has read the variable, unless nothing is lost since the variable contains `-1` and
gets `-1`; `xTaskCreate` fails only for a failed `accept`. -/
def InTurn (s : TcpServer) : Event → Prop
  | .accept result => .created ∉ s.tasks ∨ s.clientSocket = -1 ∧ result = -1
  | .taskCreate success => success = true ∨ s.clientSocket = -1
  | .firstStep _ => True
  | .close _ => True

/-- Whether a step is in turn can be computed. -/
instance (s : TcpServer) : (e : Event) → Decidable (InTurn s e)
  | .accept _ => inferInstanceAs (Decidable (_ ∨ _))
  | .taskCreate _ => inferInstanceAs (Decidable (_ ∨ _))
  | .firstStep _ => isTrue trivial
  | .close _ => isTrue trivial

/-- The invariant of the schedule: every open descriptor has one carrier, and only open
descriptors and `-1` are carried. -/
structure OneCarrier (s : TcpServer) : Prop where
  nonneg : ∀ socket ∈ s.openSockets, 0 ≤ socket
  served : ∀ socket ∈ s.openSockets, s.carriers socket = 1
  carried : ∀ socket, 0 < s.carriers socket → socket = -1 ∨ socket ∈ s.openSockets

/-- After `accept`, what was in the variable before is carried by started tasks only. -/
theorem carriers_accepted (s : TcpServer) (result socket : Int) :
    (s.accepted result).carriers socket =
      s.tasks.count (.started socket) +
        if result = socket then s.tasks.count .created + 1 else 0 := by
  simp only [TcpServer.carriers, TcpServer.accepted, if_true]

/-- A created task takes over the loop's share. -/
theorem carriers_taskCreated_true {s : TcpServer} (hpc : s.pc = .taskCreate) (socket : Int) :
    (s.taskCreated true).carriers socket = s.carriers socket := by
  simp [TcpServer.carriers, TcpServer.taskCreated, hpc, List.count_append]

/-- Without a task the loop's share is lost. -/
theorem carriers_taskCreated_false {s : TcpServer} (hpc : s.pc = .taskCreate) (socket : Int) :
    (s.taskCreated false).carriers socket + (if s.clientSocket = socket then 1 else 0) =
      s.carriers socket := by
  by_cases hs : s.clientSocket = socket
  · simp [TcpServer.carriers, TcpServer.taskCreated, hpc, hs, Nat.add_assoc]
  · simp [TcpServer.carriers, TcpServer.taskCreated, hs]

/-- Reading the variable changes nobody's share. -/
theorem carriers_firstStep {s : TcpServer} {task : Nat} (h : s.tasks[task]? = some .created)
    (socket : Int) : (s.firstStep task).carriers socket = s.carriers socket := by
  have hstarted := count_set_add h (.started s.clientSocket) (.started socket)
  have hcreated := count_set_add h (.started s.clientSocket) .created
  simp only [reduceCtorEq, if_false, ClientHandler.started.injEq, if_true] at hstarted hcreated
  change (s.tasks.set task (.started s.clientSocket)).count (.started socket) +
      (if s.clientSocket = socket then
        (s.tasks.set task (.started s.clientSocket)).count .created +
          if s.pc = .taskCreate then 1 else 0
      else 0) = s.carriers socket
  unfold TcpServer.carriers
  by_cases hs : s.clientSocket = socket
  · rw [if_pos hs] at hstarted
    rw [if_pos hs, if_pos hs]
    omega
  · rw [if_neg hs] at hstarted
    rw [if_neg hs, if_neg hs]
    omega

/-- A closing task gives up its share of its own descriptor. -/
theorem carriers_closed {s : TcpServer} {task : Nat} {own : Int}
    (h : s.tasks[task]? = some (.started own)) (socket : Int) :
    (s.closed task own).carriers socket + (if own = socket then 1 else 0) =
      s.carriers socket := by
  have hstarted := count_set_add h .deleted (.started socket)
  have hcreated := count_set_add h .deleted .created
  simp only [reduceCtorEq, if_false, ClientHandler.started.injEq] at hstarted hcreated
  change (s.tasks.set task .deleted).count (.started socket) +
      (if s.clientSocket = socket then
        (s.tasks.set task .deleted).count .created + if s.pc = .taskCreate then 1 else 0
      else 0) + (if own = socket then 1 else 0) = s.carriers socket
  rw [Nat.add_zero, Nat.add_zero] at hcreated
  rw [hcreated, TcpServer.carriers]
  omega

/-- One carrier each means no two started tasks with the same descriptor. -/
theorem OneCarrier.handOff {s : TcpServer} (h : OneCarrier s) : HandOff s := by
  refine ⟨h.served, ?_⟩
  intro socket hnonneg
  by_contra hlt
  have hle : s.tasks.count (.started socket) ≤ s.carriers socket := Nat.le_add_right _ _
  rcases h.carried socket (by omega) with hneg | hopen
  · omega
  · have hone := h.served socket hopen
    omega

/-- Before the first `accept` nothing is open and nothing carried. -/
theorem oneCarrier_start (garbage : Int) : OneCarrier (TcpServer.start garbage) := by
  refine ⟨?_, ?_, ?_⟩
  · intro socket hopen
    exact absurd hopen (Finset.notMem_empty socket)
  · intro socket hopen
    exact absurd hopen (Finset.notMem_empty socket)
  · intro socket hcarried
    simp [TcpServer.carriers, TcpServer.start] at hcarried

/-- A step that leaves the descriptors and everybody's share of them alone keeps the
invariant. -/
theorem OneCarrier.of_carriers_eq {s t : TcpServer} (h : OneCarrier s)
    (hopen : t.openSockets = s.openSockets)
    (hcarriers : ∀ socket, socket ≠ -1 → t.carriers socket = s.carriers socket) :
    OneCarrier t := by
  refine ⟨?_, ?_, ?_⟩
  · rw [hopen]
    exact h.nonneg
  · intro socket hs
    rw [hopen] at hs
    have hpos := h.nonneg socket hs
    rw [hcarriers socket (by omega)]
    exact h.served socket hs
  · intro socket hcarried
    by_cases hsocket : socket = -1
    · exact Or.inl hsocket
    · rw [hcarriers socket hsocket] at hcarried
      rw [hopen]
      exact h.carried socket hcarried

/-- In turn, `accept` changes the share of its own result only. -/
theorem carriers_accepted_of_inTurn {s : TcpServer} {result socket : Int}
    (hpc : s.pc = .accept) (hturn : InTurn s (.accept result)) (hsocket : socket ≠ -1)
    (hne : result ≠ socket) : (s.accepted result).carriers socket = s.carriers socket := by
  have hcreated : s.clientSocket = socket → s.tasks.count .created = 0 := by
    intro heq
    rcases hturn with hnone | ⟨hcell, _⟩
    · exact List.count_eq_zero.mpr hnone
    · exact absurd (heq.symm.trans hcell) hsocket
  rw [carriers_accepted, if_neg hne, TcpServer.carriers, hpc]
  split
  · next heq => simp [hcreated heq]
  · rfl

/-- In turn, a descriptor fresh from `accept` is carried by the loop alone. -/
theorem OneCarrier.carriers_fresh {s : TcpServer} (h : OneCarrier s) {result : Int}
    (hne : result ≠ -1) (hfresh : result ∉ s.openSockets)
    (hturn : InTurn s (.accept result)) : (s.accepted result).carriers result = 1 := by
  have hnone : ClientHandler.created ∉ s.tasks := by
    rcases hturn with hnone | ⟨_, hneg⟩
    · exact hnone
    · exact absurd hneg hne
  have hstarted : s.tasks.count (.started result) = 0 := by
    by_contra hcount
    have hle : s.tasks.count (.started result) ≤ s.carriers result := Nat.le_add_right _ _
    rcases h.carried result (by omega) with hneg | hopen
    · exact hne hneg
    · exact hfresh hopen
  rw [carriers_accepted, if_pos rfl, hstarted, List.count_eq_zero.mpr hnone]

/-- In turn, `accept` overwrites nothing that anybody still needs. -/
theorem OneCarrier.accepted {s : TcpServer} (h : OneCarrier s) {result : Int}
    (hpc : s.pc = .accept) (hresult : result = -1 ∨ 0 ≤ result ∧ result ∉ s.openSockets)
    (hturn : InTurn s (.accept result)) : OneCarrier (s.accepted result) := by
  rcases hresult with rfl | ⟨hnonneg, hfresh⟩
  · -- A failed accept: the open descriptors stay as they are.
    refine h.of_carriers_eq (t := s.accepted (-1)) rfl ?_
    intro socket hsocket
    exact carriers_accepted_of_inTurn hpc hturn hsocket (Ne.symm hsocket)
  · have hne : result ≠ -1 := by omega
    have hopenSockets : (s.accepted result).openSockets = insert result s.openSockets :=
      if_neg hne
    have hnew := h.carriers_fresh hne hfresh hturn
    refine ⟨?_, ?_, ?_⟩
    · intro socket hopen
      rw [hopenSockets] at hopen
      rcases Finset.mem_insert.mp hopen with rfl | hopen
      · exact hnonneg
      · exact h.nonneg socket hopen
    · intro socket hopen
      rw [hopenSockets] at hopen
      by_cases heq : result = socket
      · rw [← heq]
        exact hnew
      · have hopen := Finset.mem_of_mem_insert_of_ne hopen (Ne.symm heq)
        have hpos := h.nonneg socket hopen
        rw [carriers_accepted_of_inTurn hpc hturn (by omega) heq]
        exact h.served socket hopen
    · intro socket hcarried
      by_cases hsocket : socket = -1
      · exact Or.inl hsocket
      · rw [hopenSockets]
        by_cases heq : result = socket
        · exact Or.inr (Finset.mem_insert.mpr (Or.inl heq.symm))
        · rw [carriers_accepted_of_inTurn hpc hturn hsocket heq] at hcarried
          rcases h.carried socket hcarried with hneg | hopen
          · exact absurd hneg hsocket
          · exact Or.inr (Finset.mem_insert_of_mem hopen)

/-- In turn, `xTaskCreate` turns the loop's share into a task's. -/
theorem OneCarrier.taskCreated {s : TcpServer} (h : OneCarrier s) {success : Bool}
    (hpc : s.pc = .taskCreate) (hturn : InTurn s (.taskCreate success)) :
    OneCarrier (s.taskCreated success) := by
  refine h.of_carriers_eq (t := s.taskCreated success) rfl ?_
  intro socket hsocket
  cases success with
  | true => exact carriers_taskCreated_true hpc socket
  | false =>
    rcases hturn with hfalse | hcell
    · cases hfalse
    · have hcount := carriers_taskCreated_false hpc socket
      rw [hcell, if_neg (Ne.symm hsocket)] at hcount
      exact hcount

/-- Closing takes a descriptor out together with its only carrier. -/
theorem OneCarrier.closed {s : TcpServer} (h : OneCarrier s) {task : Nat} {own : Int}
    (htask : s.tasks[task]? = some (.started own)) : OneCarrier (s.closed task own) := by
  have hother (socket : Int) (hne : socket ≠ own) :
      (s.closed task own).carriers socket = s.carriers socket := by
    have hcount := carriers_closed htask socket
    rw [if_neg (Ne.symm hne)] at hcount
    exact hcount
  refine ⟨?_, ?_, ?_⟩
  · intro socket hs
    exact h.nonneg socket (Finset.mem_of_mem_erase hs)
  · intro socket hs
    rw [hother socket (Finset.ne_of_mem_erase hs)]
    exact h.served socket (Finset.mem_of_mem_erase hs)
  · intro socket hcarried
    by_cases heq : socket = own
    · -- The closing task was the only carrier of an open descriptor.
      have hcount := carriers_closed htask own
      rw [if_pos rfl] at hcount
      rw [heq] at hcarried ⊢
      rcases h.carried own (by omega) with hneg | hopen
      · exact Or.inl hneg
      · have hone := h.served own hopen
        omega
    · rw [hother socket heq] at hcarried
      rcases h.carried socket hcarried with hneg | hopen
      · exact Or.inl hneg
      · exact Or.inr (Finset.mem_erase.mpr ⟨heq, hopen⟩)

/-- Every step in turn keeps the invariant. -/
theorem OneCarrier.step {s t : TcpServer} {e : Event} (h : OneCarrier s)
    (ht : CBsd.step s e = some t) (hturn : InTurn s e) : OneCarrier t := by
  cases e with
  | accept result =>
    obtain ⟨hpc, hresult, rfl⟩ := step_accept ht
    exact h.accepted hpc hresult hturn
  | taskCreate success =>
    obtain ⟨hpc, rfl⟩ := step_taskCreate ht
    exact h.taskCreated hpc hturn
  | firstStep task =>
    obtain ⟨htask, rfl⟩ := step_firstStep ht
    exact h.of_carriers_eq rfl fun socket _ ↦ carriers_firstStep htask socket
  | close task =>
    obtain ⟨own, htask, rfl⟩ := step_close ht
    exact h.closed htask

/-- A step out of turn loses a descriptor or gives one to two tasks at once. -/
theorem OneCarrier.inTurn {s t : TcpServer} {e : Event} (h : OneCarrier s)
    (ht : CBsd.step s e = some t) (hand : HandOff t) : InTurn s e := by
  cases e with
  | accept result =>
    obtain ⟨hpc, hresult, rfl⟩ := step_accept ht
    by_cases hcreated : ClientHandler.created ∈ s.tasks
    · have hcount : 0 < s.tasks.count .created := List.count_pos_iff.mpr hcreated
      have hcell : s.carriers s.clientSocket =
          s.tasks.count (.started s.clientSocket) + s.tasks.count .created := by
        rw [TcpServer.carriers, if_pos rfl, hpc]
        rfl
      rcases h.carried s.clientSocket (by omega) with hneg | hopen
      · refine Or.inr ⟨hneg, ?_⟩
        rcases hresult with hfail | ⟨hnonneg, _⟩
        · exact hfail
        · -- The waiting task and the loop would both get the new descriptor.
          have hmem : result ∈ (s.accepted result).openSockets := by
            rw [TcpServer.accepted, if_neg (by omega)]
            exact Finset.mem_insert_self _ _
          have hone := hand.served result hmem
          rw [carriers_accepted, if_pos rfl] at hone
          omega
      · -- The waiting task was the only carrier of the descriptor that is overwritten.
        have hpos := h.nonneg _ hopen
        have hone := h.served _ hopen
        have hne : result ≠ s.clientSocket := by
          rcases hresult with hfail | ⟨_, hfresh⟩
          · omega
          · intro heq
            rw [heq] at hfresh
            exact hfresh hopen
        have hmem : s.clientSocket ∈ (s.accepted result).openSockets := by
          unfold TcpServer.accepted
          split
          · exact hopen
          · exact Finset.mem_insert_of_mem hopen
        have hlost := hand.served _ hmem
        rw [carriers_accepted, if_neg hne] at hlost
        omega
    · exact Or.inl hcreated
  | taskCreate success =>
    obtain ⟨hpc, rfl⟩ := step_taskCreate ht
    cases success with
    | true => exact Or.inl rfl
    | false =>
      right
      have hcount := carriers_taskCreated_false hpc s.clientSocket
      rw [if_pos rfl] at hcount
      rcases h.carried s.clientSocket (by omega) with hneg | hopen
      · exact hneg
      · have hone := h.served _ hopen
        have hlost : (s.taskCreated false).carriers s.clientSocket = 1 :=
          hand.served _ hopen
        omega
  | firstStep task => trivial
  | close task => trivial

/-- For every run of the accept loop and its tasks, whatever `accept` and `xTaskCreate`
return and in whatever order the steps happen: every descriptor is handed to exactly one
task in every state of the run if and only if every step of the run is in turn. -/
theorem handOff_iff_inTurn (garbage : Int) (es : List Event) (u : TcpServer)
    (hrun : Step.run step (TcpServer.start garbage) es = some u) :
    Step.Always step HandOff (TcpServer.start garbage) es ↔
      Step.Guarded step InTurn (TcpServer.start garbage) es :=
  Step.always_iff_guarded (fun _ h ↦ h.handOff) (fun _ _ _ h ht hturn ↦ h.step ht hturn)
    (fun _ _ _ h ht hand ↦ h.inTurn ht hand) (oneCarrier_start garbage) hrun

/-- Two connections far enough apart. -/
def spacedConnections : List Event :=
  [.accept 5, .taskCreate true, .firstStep 0, .accept 6, .taskCreate true, .firstStep 1,
    .close 0]

/-- The hand-off of two connections that are far enough apart. -/
theorem handOff_spacedConnections :
    Step.Always step HandOff (TcpServer.start 0) spacedConnections :=
  (handOff_iff_inTurn 0 spacedConnections
    ⟨.accept, 6, [.deleted, .started 6], {6}⟩ (by decide)).mpr (by decide)

/-- Two connections of which the second is accepted before the first one's task runs. -/
def earlyAccept : List Event :=
  [.accept 5, .taskCreate true, .accept 6, .taskCreate true, .firstStep 0, .firstStep 1]

/-- After an early second connection both tasks hold its descriptor, and the first one is
open with no task that will ever serve or close it. -/
theorem not_handOff_earlyAccept :
    ∃ u, Step.run step (TcpServer.start 0) earlyAccept = some u ∧
      u.tasks = [.started 6, .started 6] ∧ 5 ∈ u.openSockets ∧ u.carriers 5 = 0 ∧
      ¬ HandOff u := by
  refine ⟨⟨.accept, 6, [.started 6, .started 6], {6, 5}⟩, rfl, rfl, by decide,
    by decide, ?_⟩
  intro h
  have hone := h.distinct 6 (by decide)
  revert hone
  decide

end Esp32WebServers.CBsd
