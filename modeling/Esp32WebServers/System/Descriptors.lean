import Esp32WebServers.Base.Simulation
import Esp32WebServers.System.EndToEnd
import Esp32WebServers.Tasks.HandOff

/-!
# The whole C-BSD server

The accept loop, its tasks, the descriptors that they share the table of, and the connections of
a benchmark client (`web_server/c_bsd/main/tcp_server.c:59–158`). A task knows its connection by
a number that it found in the loop's variable, and a number is used again after `close`. As long
as no `accept` returns a connection while a task has not read the variable, what the server does
is what one handler for each connection does.
-/

namespace Esp32WebServers.CBsd

open Base

/-- The server with the local variables of its tasks, the delay that each has read and not
answered, and the connections in the order in which the sessions open them and `accept` returns
them. `descriptors` says which connections the open descriptors refer to. -/
structure Machine where
  server : TcpServer
  delays : List (Option Int)
  descriptors : Int → Option Nat
  accepted : Nat
  links : List (Link Unit)

namespace Machine

/-- The server at its first `accept`, whatever its variable contains. -/
def start (clientSocket : Int) : Machine := ⟨.start clientSocket, [], fun _ ↦ none, 0, []⟩

/-- A session opens a connection, something happens at the client's end of one, the loop or a
task takes a step of the hand-off, `recv` returns bytes or fails, `write` returns. -/
inductive Event where
  | opened
  | client (connection : Nat) (event : Link.Event Int)
  | server (event : CBsd.Event)
  | recv (task : Nat) (slot : Int) (count : Nat)
  | recvFails (task : Nat) (slot : Int)
  | write (task : Nat) (heap : FreeHeap)

/-- The events at the client's end of a connection. -/
def ofClient : Link.Event Int → Bool
  | .receive _ _ => false
  | .respond _ => false
  | _ => true

/-- The client's event loop runs until a session ends. -/
def runs (m : Machine) : Bool := m.links.all fun l ↦ l.session.phase ≠ .ended

/-- The descriptor and the delay of a task in its loop. -/
def running (m : Machine) (task : Nat) : Option (Int × Option Int) :=
  match m.server.tasks[task]? with
  | some (.started socket) => (m.delays[task]?).map fun delay ↦ (socket, delay)
  | _ => none

/-- The steps of the hand-off. `accept` returns the next connection of the backlog or fails, and
a task leaves its loop when `write` has failed. -/
def serverStep (m : Machine) : CBsd.Event → Option Machine
  | .accept result =>
    if 0 ≤ result → m.accepted < m.links.length then
      (CBsd.step m.server (.accept result)).map fun server ↦
        if 0 ≤ result then
          { m with
            server
            descriptors := Function.update m.descriptors result (some m.accepted)
            accepted := m.accepted + 1 }
        else { m with server }
    else none
  | .taskCreate success =>
    (CBsd.step m.server (.taskCreate success)).map fun server ↦
      { m with server, delays := if success then m.delays ++ [none] else m.delays }
  | .firstStep task =>
    (CBsd.step m.server (.firstStep task)).map fun server ↦ { m with server }
  | .close task =>
    match m.running task with
    | some (socket, some _) =>
      (CBsd.step m.server (.close task)).map fun server ↦
        { m with server, descriptors := Function.update m.descriptors socket none }
    | _ => none

/-- `recv` on a descriptor (`tcp_server.c:127`). -/
def recv (recvBuf : Buffer 1024) (m : Machine) (task : Nat) (slot : Int) (count : Nat) :
    Option Machine :=
  match m.running task with
  | some (socket, none) =>
    (m.descriptors socket).bind fun c ↦ (m.links[c]?).bind fun l ↦
      if 0 < count ∧ count ≤ l.upstream.length ∧
          (CBsd.server recvBuf).admits slot (l.upstream.take count) = true then
        ((CBsd.server recvBuf).receive () slot (l.upstream.take count)).map fun result ↦
          { m with
            delays := m.delays.set task result.2
            links := m.links.set c (l.receive count result) }
      else none
  | _ => none

/-- `recv` fails on a descriptor that is not open, and nothing is stored in the buffer. -/
def recvFails (recvBuf : Buffer 1024) (m : Machine) (task : Nat) (slot : Int) : Option Machine :=
  match m.running task with
  | some (socket, none) =>
    if m.descriptors socket = none then
      ((CBsd.server recvBuf).receive () slot []).map fun result ↦
        { m with delays := m.delays.set task result.2 }
    else none
  | _ => none

/-- `write` on an open descriptor (`tcp_server.c:147`). -/
def write (recvBuf : Buffer 1024) (m : Machine) (task : Nat) (heap : FreeHeap) : Option Machine :=
  match m.running task with
  | some (socket, some delay) =>
    (m.descriptors socket).bind fun c ↦ (m.links[c]?).map fun l ↦
      { m with
        delays := m.delays.set task none
        links := m.links.set c (l.respond (CBsd.server recvBuf) heap delay) }
  | _ => none

/-- The events, where they can happen. -/
def act (client : Benchmark.Client) (recvBuf : Buffer 1024) (m : Machine) :
    Event → Option Machine
  | .opened => some { m with links := m.links ++ [.start (CBsd.server recvBuf)] }
  | .client c event =>
    if ofClient event then (m.links[c]?).bind fun l ↦
      (Link.step client (CBsd.server recvBuf) l event).map fun l' ↦
        { m with links := m.links.set c l' }
    else none
  | .server event => m.serverStep event
  | .recv task slot count => m.recv recvBuf task slot count
  | .recvFails task slot => m.recvFails recvBuf task slot
  | .write task heap => m.write recvBuf task heap

/-- The events, one at a time, as long as the client's event loop runs. -/
def step (client : Benchmark.Client) (recvBuf : Buffer 1024) : Step Machine Event :=
  fun m e ↦ if m.runs then m.act client recvBuf e else none

/-- The connection that a task's descriptor refers to. -/
def connection (m : Machine) (task : Nat) : Option Nat :=
  (m.running task).bind fun x ↦ m.descriptors x.1

/-- What an event is for the connections: a new one, something at the client's end of one, a
read or a response of its handler, or nothing. -/
def label (m : Machine) : Event → Option (Step.Joint Unit (Link.Event Int))
  | .opened => some (.join ())
  | .client c event => some (.party c event)
  | .recv task slot count => (m.connection task).map fun c ↦ .party c (.receive slot count)
  | .write task heap => (m.connection task).map fun c ↦ .party c (.respond heap)
  | _ => none

/-- No `accept` returns a connection while a created task has not read the variable. -/
def Settled (m : Machine) : Event → Prop
  | .server (.accept result) => 0 ≤ result → .created ∉ m.server.tasks
  | _ => True

/-- Whether `accept` waits for the tasks can be computed. -/
instance decidableSettled (m : Machine) : (e : Event) → Decidable (Settled m e)
  | .server (.accept result) =>
    inferInstanceAs (Decidable (0 ≤ result → .created ∉ m.server.tasks))
  | .server (.taskCreate _) => isTrue trivial
  | .server (.firstStep _) => isTrue trivial
  | .server (.close _) => isTrue trivial
  | .opened => isTrue trivial
  | .client _ _ => isTrue trivial
  | .recv _ _ _ => isTrue trivial
  | .recvFails _ _ => isTrue trivial
  | .write _ _ => isTrue trivial

/-- No read cuts a request or a response. -/
def WholeReads (m : Machine) (e : Event) : Prop :=
  ∀ d ∈ m.label e, Step.OfParty Link.WholeReads m.links d

/-! ### Steps -/

section Step

variable {client : Benchmark.Client} {recvBuf : Buffer 1024} {m m' : Machine}

/-- A task in its loop has started, and has its delay. -/
theorem running_eq_some_iff {task : Nat} {socket : Int} {delay : Option Int} :
    m.running task = some (socket, delay) ↔
      m.server.tasks[task]? = some (.started socket) ∧ m.delays[task]? = some delay := by
  rw [running]
  split
  · next own hown =>
    simp only [hown, Option.map_eq_some_iff, Prod.mk.injEq, Option.some.injEq,
      ClientHandler.started.injEq]
    constructor
    · rintro ⟨d, hd, rfl, rfl⟩
      exact ⟨rfl, hd⟩
    · rintro ⟨rfl, hd⟩
      exact ⟨delay, hd, rfl, rfl⟩
  · next hnot =>
    constructor
    · intro h
      cases h
    · intro h
      exact absurd h.1 (hnot socket)

/-- `recv` takes bytes off the connection of its descriptor. -/
theorem recv_eq_some {task count : Nat} {slot : Int}
    (h : m.recv recvBuf task slot count = some m') :
    ∃ socket c l result, m.running task = some (socket, none) ∧ m.descriptors socket = some c ∧
      m.links[c]? = some l ∧ 0 < count ∧ count ≤ l.upstream.length ∧
      (CBsd.server recvBuf).admits slot (l.upstream.take count) = true ∧
      (CBsd.server recvBuf).receive () slot (l.upstream.take count) = some result ∧
      m' = { m with
        delays := m.delays.set task result.2
        links := m.links.set c (l.receive count result) } := by
  unfold recv at h
  split at h
  · next socket hrunning =>
    obtain ⟨c, hc, hlink⟩ := Option.bind_eq_some_iff.mp h
    obtain ⟨l, hl, hreceive⟩ := Option.bind_eq_some_iff.mp hlink
    rw [Option.ite_none_right_eq_some, Option.map_eq_some_iff] at hreceive
    obtain ⟨⟨hpos, hle, hadmits⟩, result, hresult, rfl⟩ := hreceive
    exact ⟨socket, c, l, result, hrunning, hc, hl, hpos, hle, hadmits, hresult, rfl⟩
  · cases h

/-- `recv` that fails changes the task alone. -/
theorem recvFails_eq_some {task : Nat} {slot : Int} (h : m.recvFails recvBuf task slot = some m') :
    ∃ socket delay, m.running task = some (socket, none) ∧ m.descriptors socket = none ∧
      m' = { m with delays := m.delays.set task delay } := by
  unfold recvFails at h
  split at h
  · next socket hrunning =>
    rw [Option.ite_none_right_eq_some, Option.map_eq_some_iff] at h
    obtain ⟨hnone, result, -, rfl⟩ := h
    exact ⟨socket, result.2, hrunning, hnone, rfl⟩
  · cases h

/-- `write` puts a response on the connection of its descriptor. -/
theorem write_eq_some {task : Nat} {heap : FreeHeap} (h : m.write recvBuf task heap = some m') :
    ∃ socket delay c l, m.running task = some (socket, some delay) ∧
      m.descriptors socket = some c ∧ m.links[c]? = some l ∧
      m' = { m with
        delays := m.delays.set task none
        links := m.links.set c (l.respond (CBsd.server recvBuf) heap delay) } := by
  unfold write at h
  split at h
  · next socket delay hrunning =>
    obtain ⟨c, hc, hlink⟩ := Option.bind_eq_some_iff.mp h
    obtain ⟨l, hl, rfl⟩ := Option.map_eq_some_iff.mp hlink
    exact ⟨socket, delay, c, l, hrunning, hc, hl, rfl⟩
  · cases h

/-- What happens at the client's end does not reach the handler. -/
theorem waiting_ofClient {l l' : Link Unit} {event : Link.Event Int} (hof : ofClient event = true)
    (h : Link.step client (CBsd.server recvBuf) l event = some l') : l'.waiting = l.waiting := by
  rcases Link.step_cases h with ⟨delay, rfl, -, rfl⟩ | ⟨around, count, result, rfl, -⟩ |
    ⟨heap, delay, rfl, -⟩ | ⟨count, rfl, -, -, rfl⟩ | ⟨rfl, -, -, rfl⟩ | ⟨rfl, -, -, rfl⟩
  · rfl
  · cases hof
  · cases hof
  · rfl
  · rfl
  · rfl

end Step

/-! ### The invariant -/

/-- Every open descriptor refers to a connection of its own, and no two parties have it; the
handler of a connection is the task that has its descriptor, and waits as that task does. -/
structure Own (m : Machine) : Prop where
  carried : ∀ socket, 0 ≤ socket → m.server.carriers socket ≤ 1 ∧
    (0 < m.server.carriers socket → socket ∈ m.server.openSockets)
  idle : ∀ task : Nat, m.server.tasks[task]? = some .created → m.delays[task]? = some none
  length : m.delays.length = m.server.tasks.length
  accepted : m.accepted ≤ m.links.length
  fresh : ∀ (c : Nat) (l : Link Unit), m.accepted ≤ c → m.links[c]? = some l → l.waiting = none
  referred : ∀ socket c, m.descriptors socket = some c → 0 ≤ socket ∧ c < m.accepted
  injective : ∀ socket socket' c, m.descriptors socket = some c →
    m.descriptors socket' = some c → socket = socket'
  waiting : ∀ socket c l, m.descriptors socket = some c → m.links[c]? = some l →
    (∀ task : Nat, m.server.tasks[task]? = some (.started socket) →
      m.delays[task]? = some l.waiting) ∧
    (.started socket ∉ m.server.tasks → l.waiting = none)

/-- A descriptor that is carried once is that of one task. -/
theorem eq_of_carriers_le_one {server : TcpServer} {socket : Int} {i j : Nat}
    (hcarried : server.carriers socket ≤ 1) (hi : server.tasks[i]? = some (.started socket))
    (hj : server.tasks[j]? = some (.started socket)) : i = j := by
  by_contra hne
  have hset := count_set_add hi .deleted (.started socket)
  have hother : 0 < (server.tasks.set i .deleted).count (.started socket) := by
    rw [List.count_pos_iff]
    apply List.mem_of_getElem? (i := j)
    rw [List.getElem?_set_ne hne, hj]
  have hle : server.tasks.count (.started socket) ≤ server.carriers socket := Nat.le_add_right _ _
  rw [if_pos rfl, if_neg (by simp)] at hset
  omega

section Own

variable {client : Benchmark.Client} {recvBuf : Buffer 1024} {m m' : Machine}

/-- A new connection has no handler. -/
theorem Own.opened (hm : Own m) :
    Own { m with links := m.links ++ [.start (CBsd.server recvBuf)] } where
  carried := hm.carried
  idle := hm.idle
  length := hm.length
  accepted := by
    rw [List.length_append]
    exact hm.accepted.trans (Nat.le_add_right _ _)
  fresh c l hle hl := by
    by_cases hlt : c < m.links.length
    · rw [List.getElem?_append_left hlt] at hl
      exact hm.fresh c l hle hl
    · rw [List.getElem?_append_right (Nat.not_lt.mp hlt)] at hl
      rw [List.mem_singleton.mp (List.mem_of_getElem? hl)]
      rfl
  referred := hm.referred
  injective := hm.injective
  waiting socket c l hc hl := by
    have hlt := (hm.referred socket c hc).2.trans_le hm.accepted
    rw [List.getElem?_append_left hlt] at hl
    exact hm.waiting socket c l hc hl

/-- The client's end of a connection does not concern the server. -/
theorem Own.clientEnd (hm : Own m) {c : Nat} {l l' : Link Unit} (hl : m.links[c]? = some l)
    (hwaiting : l'.waiting = l.waiting) : Own { m with links := m.links.set c l' } := by
  have hlt := (List.getElem?_eq_some_iff.mp hl).1
  have hget {i : Nat} {x : Link Unit} (hx : (m.links.set c l')[i]? = some x) :
      ∃ y, m.links[i]? = some y ∧ x.waiting = y.waiting := by
    by_cases hi : c = i
    · subst hi
      rw [List.getElem?_set_self hlt, Option.some.injEq] at hx
      exact ⟨l, hl, hx ▸ hwaiting⟩
    · rw [List.getElem?_set_ne hi] at hx
      exact ⟨x, hx, rfl⟩
  refine ⟨hm.carried, hm.idle, hm.length, ?_, ?_, hm.referred, hm.injective, ?_⟩
  · simp only [List.length_set]
    exact hm.accepted
  · intro i x hle hx
    obtain ⟨y, hy, heq⟩ := hget hx
    rw [heq]
    exact hm.fresh i y hle hy
  · intro socket i x hi hx
    obtain ⟨y, hy, heq⟩ := hget hx
    rw [heq]
    exact hm.waiting socket i y hi hy

/-- A task and the connection of its descriptor change together. -/
theorem Own.handler (hm : Own m) {task c : Nat} {socket : Int} {delay : Option Int}
    {l : Link Unit} (hrunning : m.running task = some (socket, delay))
    (hc : m.descriptors socket = some c) (hl : m.links[c]? = some l) (l' : Link Unit) :
    Own { m with delays := m.delays.set task l'.waiting, links := m.links.set c l' } := by
  obtain ⟨htask, hdelay⟩ := running_eq_some_iff.mp hrunning
  have hlt := (List.getElem?_eq_some_iff.mp hl).1
  have hltTask := (List.getElem?_eq_some_iff.mp hdelay).1
  obtain ⟨hnonneg, haccepted⟩ := hm.referred socket c hc
  refine ⟨hm.carried, ?_, ?_, ?_, ?_, hm.referred, hm.injective, ?_⟩
  · intro i hi
    have hne : task ≠ i := by
      rintro rfl
      cases htask.symm.trans hi
    simp only [List.getElem?_set_ne hne]
    exact hm.idle i hi
  · simp only [List.length_set]
    exact hm.length
  · simp only [List.length_set]
    exact hm.accepted
  · intro i x hle hx
    rw [List.getElem?_set_ne (Nat.ne_of_lt (haccepted.trans_le hle))] at hx
    exact hm.fresh i x hle hx
  · intro socket' i x hi hx
    by_cases hsocket : socket = socket'
    · subst hsocket
      obtain rfl : c = i := Option.some.inj (hc.symm.trans hi)
      obtain rfl : l' = x := Option.some.inj ((List.getElem?_set_self hlt).symm.trans hx)
      refine ⟨fun j hj ↦ ?_, fun hnot ↦ absurd (List.mem_of_getElem? htask) hnot⟩
      obtain rfl := eq_of_carriers_le_one (hm.carried socket hnonneg).1 htask hj
      exact List.getElem?_set_self hltTask
    · have hne : c ≠ i := by
        rintro rfl
        exact hsocket (hm.injective _ _ _ hc hi)
      rw [List.getElem?_set_ne hne] at hx
      obtain ⟨hstarted, hnone⟩ := hm.waiting socket' i x hi hx
      refine ⟨fun j hj ↦ ?_, hnone⟩
      have hneTask : task ≠ j := by
        rintro rfl
        cases htask.symm.trans hj
        exact hsocket rfl
      simp only [List.getElem?_set_ne hneTask]
      exact hstarted j hj

/-- A task without a connection changes alone. -/
theorem Own.stray (hm : Own m) {task : Nat} {socket : Int} {delay : Option Int}
    (hrunning : m.running task = some (socket, delay)) (hnone : m.descriptors socket = none)
    (delay' : Option Int) : Own { m with delays := m.delays.set task delay' } := by
  obtain ⟨htask, hdelay⟩ := running_eq_some_iff.mp hrunning
  refine ⟨hm.carried, ?_, ?_, hm.accepted, hm.fresh, hm.referred, hm.injective, ?_⟩
  · intro i hi
    have hne : task ≠ i := by
      rintro rfl
      cases htask.symm.trans hi
    simp only [List.getElem?_set_ne hne]
    exact hm.idle i hi
  · simp only [List.length_set]
    exact hm.length
  · intro socket' i x hi hx
    obtain ⟨hstarted, hidle⟩ := hm.waiting socket' i x hi hx
    refine ⟨fun j hj ↦ ?_, hidle⟩
    have hne : task ≠ j := by
      rintro rfl
      cases htask.symm.trans hj
      cases hnone.symm.trans hi
    simp only [List.getElem?_set_ne hne]
    exact hstarted j hj

/-- `accept` returns the next connection with a descriptor that nobody has. -/
theorem Own.acceptReturns (hm : Own m) {result : Int} (hnonneg : 0 ≤ result)
    (hlt : m.accepted < m.links.length) (hfresh : result ∉ m.server.openSockets)
    (hsettled : .created ∉ m.server.tasks) :
    Own { m with
      server := m.server.accepted result
      descriptors := Function.update m.descriptors result (some m.accepted)
      accepted := m.accepted + 1 } := by
  have hnone : .started result ∉ m.server.tasks := by
    intro hmem
    apply hfresh
    apply (hm.carried result hnonneg).2
    exact (List.count_pos_iff.mpr hmem).trans_le (Nat.le_add_right _ _)
  have hopen (socket : Int) : socket ∈ (m.server.accepted result).openSockets ↔
      socket = result ∨ socket ∈ m.server.openSockets := by
    rw [TcpServer.accepted, if_neg (by omega), Finset.mem_insert]
  have hupdate (socket : Int) (c : Nat) :
      Function.update m.descriptors result (some m.accepted) socket = some c ↔
        socket = result ∧ m.accepted = c ∨ socket ≠ result ∧ m.descriptors socket = some c := by
    by_cases hsocket : socket = result
    · rw [hsocket, Function.update_self, Option.some.injEq]
      simp
    · rw [Function.update_of_ne hsocket]
      simp [hsocket]
  refine ⟨?_, hm.idle, hm.length, hlt, ?_, ?_, ?_, ?_⟩
  · intro socket hsocket
    have hcreated := List.count_eq_zero.mpr hsettled
    have hstarted := List.count_eq_zero.mpr hnone
    have hle : m.server.tasks.count (.started socket) ≤ m.server.carriers socket :=
      Nat.le_add_right _ _
    obtain ⟨hone, hmem⟩ := hm.carried socket hsocket
    simp only [carriers_accepted, hopen]
    split
    · next heq =>
      subst heq
      exact ⟨by omega, fun _ ↦ .inl rfl⟩
    · exact ⟨by omega, fun hpos ↦ .inr (hmem (by omega))⟩
  · intro c l hle hl
    exact hm.fresh c l (Nat.le_of_succ_le hle) hl
  · intro socket c hc
    rcases (hupdate socket c).mp hc with ⟨rfl, rfl⟩ | ⟨-, hold⟩
    · exact ⟨hnonneg, Nat.lt_succ_self _⟩
    · obtain ⟨hpos, hltc⟩ := hm.referred socket c hold
      exact ⟨hpos, Nat.lt_succ_of_lt hltc⟩
  · intro socket socket' c hc hc'
    -- The connection just accepted has no other descriptor.
    rcases (hupdate socket c).mp hc with ⟨rfl, rfl⟩ | ⟨-, hold⟩
    · rcases (hupdate socket' _).mp hc' with ⟨rfl, -⟩ | ⟨-, hold'⟩
      · rfl
      · exact absurd (hm.referred socket' _ hold').2 (Nat.lt_irrefl _)
    · rcases (hupdate socket' c).mp hc' with ⟨rfl, rfl⟩ | ⟨-, hold'⟩
      · exact absurd (hm.referred socket _ hold).2 (Nat.lt_irrefl _)
      · exact hm.injective socket socket' c hold hold'
  · intro socket c l hc hl
    rcases (hupdate socket c).mp hc with ⟨rfl, rfl⟩ | ⟨-, hold⟩
    · exact ⟨fun task htask ↦ absurd (List.mem_of_getElem? htask) hnone,
        fun _ ↦ hm.fresh _ l (Nat.le_refl _) hl⟩
    · exact hm.waiting socket c l hold hl

/-- Steps of the loop and of tasks that have not started leave all handlers as they are, where
nobody gets a descriptor that another one has. -/
theorem Own.of_started (hm : Own m) {server : TcpServer} {delays : List (Option Int)}
    (hcarried : ∀ socket, 0 ≤ socket → server.carriers socket ≤ m.server.carriers socket)
    (hopen : server.openSockets = m.server.openSockets)
    (hidle : ∀ task : Nat, server.tasks[task]? = some .created → delays[task]? = some none)
    (hlength : delays.length = server.tasks.length)
    (hwaiting : ∀ socket c l, m.descriptors socket = some c → m.links[c]? = some l →
      (∀ task : Nat, server.tasks[task]? = some (.started socket) →
        delays[task]? = some l.waiting) ∧
      (.started socket ∉ server.tasks → l.waiting = none)) :
    Own { m with server, delays } := by
  refine ⟨?_, hidle, hlength, hm.accepted, hm.fresh, hm.referred, hm.injective, hwaiting⟩
  intro socket hsocket
  obtain ⟨hone, hmem⟩ := hm.carried socket hsocket
  have hle := hcarried socket hsocket
  simp only [hopen]
  exact ⟨hle.trans hone, fun hpos ↦ hmem (by omega)⟩

/-- `accept` fails. -/
theorem Own.acceptFails (hm : Own m) : Own { m with server := m.server.accepted (-1) } := by
  refine hm.of_started (fun socket hsocket ↦ ?_) rfl hm.idle hm.length hm.waiting
  rw [carriers_accepted, if_neg (by omega)]
  exact Nat.le_add_right _ _

/-- `xTaskCreate` returns. -/
theorem Own.taskCreate (hm : Own m) (hpc : m.server.pc = .taskCreate) (success : Bool) :
    Own { m with
      server := m.server.taskCreated success
      delays := if success then m.delays ++ [none] else m.delays } := by
  cases success with
  | false =>
    refine hm.of_started (fun socket _ ↦ ?_) rfl hm.idle hm.length hm.waiting
    have hcarriers := carriers_taskCreated_false hpc socket
    omega
  | true =>
    refine hm.of_started (fun socket _ ↦ ?_) rfl ?_ ?_ ?_
    · exact (carriers_taskCreated_true hpc socket).le
    · intro task htask
      simp only [TcpServer.taskCreated, if_true] at htask ⊢
      by_cases hlt : task < m.server.tasks.length
      · rw [List.getElem?_append_left hlt] at htask
        rw [List.getElem?_append_left (hm.length ▸ hlt)]
        exact hm.idle task htask
      · have heq := (List.getElem?_eq_some_iff.mp htask).1
        rw [List.length_append, List.length_singleton] at heq
        obtain rfl : task = m.delays.length := by
          rw [hm.length]
          omega
        exact List.getElem?_concat_length
    · simp only [TcpServer.taskCreated, if_true, List.length_append, hm.length,
        List.length_singleton]
    · intro socket c l hc hl
      obtain ⟨hstarted, hnone⟩ := hm.waiting socket c l hc hl
      simp only [TcpServer.taskCreated, if_true]
      refine ⟨fun task htask ↦ ?_, fun hnot ↦ hnone fun hmem ↦ hnot ?_⟩
      · by_cases hlt : task < m.server.tasks.length
        · rw [List.getElem?_append_left hlt] at htask
          rw [List.getElem?_append_left (hm.length ▸ hlt)]
          exact hstarted task htask
        · rw [List.getElem?_append_right (Nat.not_lt.mp hlt)] at htask
          cases List.mem_singleton.mp (List.mem_of_getElem? htask)
      · exact List.mem_append_left _ hmem

/-- A created task reads the variable. -/
theorem Own.firstStep (hm : Own m) {task : Nat}
    (htask : m.server.tasks[task]? = some .created) :
    Own { m with server := m.server.firstStep task } := by
  have hlt := (List.getElem?_eq_some_iff.mp htask).1
  refine hm.of_started (fun socket _ ↦ (carriers_firstStep htask socket).le) rfl ?_ ?_ ?_
  · intro i hi
    simp only [TcpServer.firstStep] at hi
    by_cases hne : task = i
    · subst hne
      exact hm.idle task htask
    · rw [List.getElem?_set_ne hne] at hi
      exact hm.idle i hi
  · simp only [TcpServer.firstStep, List.length_set, hm.length]
  · intro socket c l hc hl
    obtain ⟨hstarted, hnone⟩ := hm.waiting socket c l hc hl
    simp only [TcpServer.firstStep]
    refine ⟨fun i hi ↦ ?_, fun hnot ↦ hnone fun hmem ↦ ?_⟩
    · by_cases hne : task = i
      · subst hne
        cases Option.some.inj ((List.getElem?_set_self hlt).symm.trans hi)
        -- Nobody else has what the variable contains.
        have hfree : .started m.server.clientSocket ∉ m.server.tasks := by
          intro hmem
          have hone := (hm.carried _ (hm.referred _ c hc).1).1
          have hcreated := List.count_pos_iff.mpr (List.mem_of_getElem? htask)
          have hstart := List.count_pos_iff.mpr hmem
          rw [TcpServer.carriers, if_pos rfl] at hone
          omega
        rw [hnone hfree]
        exact hm.idle task htask
      · rw [List.getElem?_set_ne hne] at hi
        exact hstarted i hi
    · obtain ⟨i, hi⟩ := List.getElem?_of_mem hmem
      have hne : task ≠ i := by
        rintro rfl
        cases htask.symm.trans hi
      exact hnot (List.mem_of_getElem? ((List.getElem?_set_ne hne).trans hi))

/-- A task closes its descriptor, which nobody else has. -/
theorem Own.close (hm : Own m) {task : Nat} {socket : Int}
    (htask : m.server.tasks[task]? = some (.started socket)) :
    Own { m with
      server := m.server.closed task socket
      descriptors := Function.update m.descriptors socket none } := by
  have hlt := (List.getElem?_eq_some_iff.mp htask).1
  have hupdate (other : Int) (c : Nat)
      (hc : Function.update m.descriptors socket none other = some c) :
      other ≠ socket ∧ m.descriptors other = some c := by
    by_cases hother : other = socket
    · rw [hother, Function.update_self] at hc
      cases hc
    · rw [Function.update_of_ne hother] at hc
      exact ⟨hother, hc⟩
  have hset {i : Nat} {x : ClientHandler} (hx : x ≠ .deleted)
      (hi : (m.server.closed task socket).tasks[i]? = some x) : m.server.tasks[i]? = some x := by
    by_cases hne : task = i
    · subst hne
      cases Option.some.inj ((List.getElem?_set_self hlt).symm.trans hi)
      exact absurd rfl hx
    · rw [← hi]
      exact (List.getElem?_set_ne hne).symm
  refine ⟨?_, ?_, ?_, hm.accepted, hm.fresh, ?_, ?_, ?_⟩
  · intro other hother
    have hcarriers := carriers_closed htask other
    obtain ⟨hone, hmem⟩ := hm.carried other hother
    simp only
    refine ⟨by omega, fun hpos ↦ ?_⟩
    have hne : socket ≠ other := by
      rintro rfl
      rw [if_pos rfl] at hcarriers
      omega
    exact Finset.mem_erase.mpr ⟨hne.symm, hmem (by omega)⟩
  · intro i hi
    exact hm.idle i (hset (by simp) hi)
  · simp only [TcpServer.closed, List.length_set]
    exact hm.length
  · intro other c hc
    exact hm.referred other c (hupdate other c hc).2
  · intro other other' c hc hc'
    exact hm.injective other other' c (hupdate other c hc).2 (hupdate other' c hc').2
  · intro other c l hc hl
    obtain ⟨hne, hold⟩ := hupdate other c hc
    obtain ⟨hstarted, hnone⟩ := hm.waiting other c l hold hl
    refine ⟨fun i hi ↦ hstarted i (hset (by simp) hi), fun hnot ↦ hnone fun hmem ↦ ?_⟩
    obtain ⟨i, hi⟩ := List.getElem?_of_mem hmem
    have hneTask : task ≠ i := by
      rintro rfl
      cases htask.symm.trans hi
      exact hne rfl
    exact hnot (List.mem_of_getElem? ((List.getElem?_set_ne hneTask).trans hi))

/-- The steps of the hand-off, under the condition, and what they leave alone. -/
theorem Own.serverStep (hm : Own m) {event : CBsd.Event} (h : m.serverStep event = some m')
    (hsettled : Settled m (.server event)) : Own m' ∧ m'.links = m.links := by
  cases event with
  | accept result =>
    simp only [Machine.serverStep, Option.ite_none_right_eq_some, Option.map_eq_some_iff] at h
    obtain ⟨hbacklog, server, hserver, hm'⟩ := h
    obtain ⟨-, hresult, rfl⟩ := step_accept hserver
    split at hm'
    · next hnonneg =>
      rw [← hm']
      rcases hresult with rfl | ⟨-, hfresh⟩
      · exact absurd hnonneg (by decide)
      · exact ⟨hm.acceptReturns hnonneg (hbacklog hnonneg) hfresh (hsettled hnonneg), rfl⟩
    · next hneg =>
      rw [← hm']
      rcases hresult with rfl | ⟨hnonneg, -⟩
      · exact ⟨hm.acceptFails, rfl⟩
      · exact absurd hnonneg hneg
  | taskCreate success =>
    obtain ⟨server, hserver, rfl⟩ := Option.map_eq_some_iff.mp h
    obtain ⟨hpc, rfl⟩ := step_taskCreate hserver
    exact ⟨hm.taskCreate hpc success, rfl⟩
  | firstStep task =>
    obtain ⟨server, hserver, rfl⟩ := Option.map_eq_some_iff.mp h
    obtain ⟨htask, rfl⟩ := step_firstStep hserver
    exact ⟨hm.firstStep htask, rfl⟩
  | close task =>
    simp only [Machine.serverStep] at h
    split at h
    · next socket delay hrunning =>
      obtain ⟨server, hserver, rfl⟩ := Option.map_eq_some_iff.mp h
      obtain ⟨own, htask, rfl⟩ := step_close hserver
      cases htask.symm.trans (running_eq_some_iff.mp hrunning).1
      exact ⟨hm.close htask, rfl⟩
    · cases h

/-- Events under the condition keep every descriptor with one task and one connection. -/
theorem Own.step (hm : Own m) {e : Event} (h : Machine.step client recvBuf m e = some m')
    (hsettled : Settled m e) : Own m' := by
  rw [Machine.step, Option.ite_none_right_eq_some] at h
  obtain ⟨-, h⟩ := h
  cases e with
  | opened =>
    cases h
    exact hm.opened
  | client c event =>
    simp only [act, Option.ite_none_right_eq_some, Option.bind_eq_some_iff,
      Option.map_eq_some_iff] at h
    obtain ⟨hof, l, hl, l', hl', rfl⟩ := h
    exact hm.clientEnd hl (waiting_ofClient hof hl')
  | server event => exact (hm.serverStep h hsettled).1
  | recv task slot count =>
    obtain ⟨socket, c, l, result, hrunning, hc, hl, -, -, -, -, rfl⟩ := recv_eq_some h
    exact hm.handler hrunning hc hl (l.receive count result)
  | recvFails task slot =>
    obtain ⟨socket, delay, hrunning, hnone, rfl⟩ := recvFails_eq_some h
    exact hm.stray hrunning hnone delay
  | write task heap =>
    obtain ⟨socket, delay, c, l, hrunning, hc, hl, rfl⟩ := write_eq_some h
    exact hm.handler hrunning hc hl (l.respond (CBsd.server recvBuf) heap delay)

end Own

end Machine

end Esp32WebServers.CBsd
