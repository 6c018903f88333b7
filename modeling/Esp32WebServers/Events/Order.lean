import Esp32WebServers.Events.Timers

/-!
# Order and disconnects on the sockets of the Lua server

The events of `web_server/lua_nodemcu/server.lua:25–54` again, now with a clock, the times from
which the timers may fire, and disconnects. `sv:listen` registers a handler for `receive` and
none for a disconnection (`server.lua:19–21`), and nothing stops or queues a timer.
-/

namespace Esp32WebServers.Lua

open Base

/-- A socket that has disconnected, and how many sends on all sockets there were until then. -/
structure Disconnect where
  socket : Nat
  sends : Nat
  deriving DecidableEq

/-- The server with the milliseconds since its start, the time from which the timer of each
request may fire, and the disconnects. -/
structure Node where
  server : State
  clock : Nat
  due : List Nat
  disconnects : List Disconnect
  deriving DecidableEq

/-- The node before the first request. -/
def Node.start (globals : Globals) : Node := ⟨.start globals, 0, [], []⟩

/-- Time passes, bytes arrive on a socket, the timer of a request fires, or a socket is
disconnected by its client or by the idle timeout of the server. -/
inductive Occurrence where
  | elapse (ms : Nat)
  | receive (socket : Nat) (data : Bytes) (heap : Nat)
  | fire (request : Nat)
  | disconnect (socket : Nat)
  deriving DecidableEq

/-- The socket has not disconnected. -/
def Connected (disconnects : List Disconnect) (socket : Nat) : Prop :=
  ∀ d ∈ disconnects, d.socket ≠ socket

instance (disconnects : List Disconnect) (socket : Nat) :
    Decidable (Connected disconnects socket) :=
  inferInstanceAs (Decidable (∀ d ∈ disconnects, d.socket ≠ socket))

/-- The occurrences, one at a time. Bytes arrive only on a connected socket, a socket
disconnects once, and a timer fires no earlier than its delay after the request. -/
def nodeStep : Step Node Occurrence
  | n, .elapse ms => some { n with clock := n.clock + ms }
  | n, .receive socket data heap =>
    if Connected n.disconnects socket then
      some { n with
        server := receiver n.server socket data heap
        due := n.due ++ [n.clock + (parsedDelay? data).getD 0] }
    else none
  | n, .fire request =>
    if (n.due[request]?).any (· ≤ n.clock) then
      (step n.server (.fire request)).map fun server ↦ { n with server }
    else none
  | n, .disconnect socket =>
    if Connected n.disconnects socket then
      some { n with disconnects := n.disconnects ++ [⟨socket, n.server.sends.length⟩] }
    else none

/-- The sends of every socket are in the order of its requests, and none comes after its
disconnect. -/
structure InOrder (sends : List Send) (disconnects : List Disconnect) : Prop where
  order : sends.Pairwise fun x y ↦ x.socket = y.socket → x.request < y.request
  connected : ∀ d ∈ disconnects, ∀ x ∈ sends.drop d.sends, x.socket ≠ d.socket

/-- A timer fires while its socket is connected and no later request of the socket has been
answered: those that get an answer still have their timers armed. -/
def OnTime (n : Node) : Occurrence → Prop
  | .fire request => ∀ r ∈ n.server.requests[request]?,
    Connected n.disconnects r.socket ∧
      ∀ q ∈ n.server.requests.drop (request + 1), q.socket = r.socket → q.timer.answered = false
  | _ => True

/-- Whether a timer is on time can be computed. -/
instance (n : Node) : (o : Occurrence) → Decidable (OnTime n o)
  | .elapse _ => isTrue trivial
  | .receive _ _ _ => isTrue trivial
  | .fire request => inferInstanceAs (Decidable (∀ r ∈ n.server.requests[request]?,
      Connected n.disconnects r.socket ∧ ∀ q ∈ n.server.requests.drop (request + 1),
        q.socket = r.socket → q.timer.answered = false))
  | .disconnect _ => isTrue trivial

/-! ### One more send, one more disconnect -/

/-- One more send keeps the order exactly where its socket is connected and has sent nothing
for a later request. -/
theorem inOrder_send_iff {sends : List Send} {disconnects : List Disconnect} {x : Send}
    (hcounted : ∀ d ∈ disconnects, d.sends ≤ sends.length) :
    InOrder (sends ++ [x]) disconnects ↔ InOrder sends disconnects ∧
      Connected disconnects x.socket ∧
      ∀ y ∈ sends, y.socket = x.socket → y.request < x.request := by
  have hdrop : ∀ d ∈ disconnects, (sends ++ [x]).drop d.sends = sends.drop d.sends ++ [x] :=
    fun d hd ↦ List.drop_append_of_le_length (hcounted d hd)
  constructor
  · intro h
    obtain ⟨hold, -, hnew⟩ := List.pairwise_append.mp h.order
    refine ⟨⟨hold, ?_⟩, ?_, ?_⟩
    · intro d hd y hy
      apply h.connected d hd y
      rw [hdrop d hd]
      exact List.mem_append_left _ hy
    · intro d hd
      apply Ne.symm
      apply h.connected d hd x
      rw [hdrop d hd]
      exact List.mem_append_right _ (List.mem_singleton_self x)
    · intro y hy
      exact hnew y hy x (List.mem_singleton_self x)
  · rintro ⟨h, hconnected, hlast⟩
    constructor
    · apply List.pairwise_append.mpr
      refine ⟨h.order, List.pairwise_singleton _ _, ?_⟩
      intro y hy z hz
      rw [List.mem_singleton.mp hz]
      exact hlast y hy
    · intro d hd y hy
      rw [hdrop d hd] at hy
      rcases List.mem_append.mp hy with hy | hy
      · exact h.connected d hd y hy
      · rw [List.mem_singleton.mp hy]
        exact (hconnected d hd).symm

/-- A disconnect comes after all sends so far. -/
theorem InOrder.disconnect {sends : List Send} {disconnects : List Disconnect}
    (h : InOrder sends disconnects) (socket : Nat) :
    InOrder sends (disconnects ++ [⟨socket, sends.length⟩]) := by
  refine ⟨h.order, ?_⟩
  intro d hd x hx
  rcases List.mem_append.mp hd with hd | hd
  · exact h.connected d hd x hx
  · rw [List.mem_singleton.mp hd, List.drop_length] at hx
    exact absurd hx List.not_mem_nil

/-! ### Steps -/

/-- What a receive event does to the requests and the sends of a connected socket. -/
theorem nodeStep_receive {n m : Node} {socket heap : Nat} {data : Bytes}
    (hm : nodeStep n (.receive socket data heap) = some m) :
    Connected n.disconnects socket ∧ m.server = receiver n.server socket data heap ∧
      m.disconnects = n.disconnects := by
  simp only [nodeStep] at hm
  split at hm
  · next hconnected =>
    cases hm
    exact ⟨hconnected, rfl, rfl⟩
  · cases hm

/-- A timer that fires is one of the server. -/
theorem nodeStep_fire {n m : Node} {request : Nat} (hm : nodeStep n (.fire request) = some m) :
    ∃ server, step n.server (.fire request) = some server ∧ m = { n with server } := by
  simp only [nodeStep] at hm
  split at hm
  · obtain ⟨server, hserver, hm⟩ := Option.map_eq_some_iff.mp hm
    exact ⟨server, hserver, hm.symm⟩
  · cases hm

/-- A socket disconnects once. -/
theorem nodeStep_disconnect {n m : Node} {socket : Nat}
    (hm : nodeStep n (.disconnect socket) = some m) :
    Connected n.disconnects socket ∧
      m = { n with disconnects := n.disconnects ++ [⟨socket, n.server.sends.length⟩] } := by
  simp only [nodeStep] at hm
  split at hm
  · next hconnected =>
    cases hm
    exact ⟨hconnected, rfl⟩
  · cases hm

/-- Every occurrence leaves the server alone or is one of its events. -/
theorem server_nodeStep {n m : Node} {o : Occurrence} (hm : nodeStep n o = some m) :
    m.server = n.server ∨ ∃ e, step n.server e = some m.server := by
  cases o with
  | elapse ms =>
    cases hm
    exact .inl rfl
  | receive socket data heap =>
    right
    refine ⟨.receive socket data heap, ?_⟩
    rw [(nodeStep_receive hm).2.1]
    rfl
  | fire request =>
    obtain ⟨server, hserver, rfl⟩ := nodeStep_fire hm
    exact .inr ⟨.fire request, hserver⟩
  | disconnect socket =>
    obtain ⟨-, rfl⟩ := nodeStep_disconnect hm
    exact .inl rfl

/-- Whatever occurs, the routing of the server stays. -/
theorem Pending.nodeStep {n m : Node} {o : Occurrence} (h : Pending n.server)
    (hm : Lua.nodeStep n o = some m) : Pending m.server := by
  rcases server_nodeStep hm with hserver | ⟨e, he⟩
  · rw [hserver]
    exact h
  · exact h.step he

/-- Sends are for requests that have been received. -/
theorem Routed.request_lt {requests : List Request} {sends : List Send}
    (h : Routed requests sends) {x : Send} (hx : x ∈ sends) : x.request < requests.length := by
  obtain ⟨r, hr, -⟩ := h.socket x hx
  exact (List.getElem?_eq_some_iff.mp hr).1

/-- While a timer is armed, all sends of its socket are for earlier requests exactly where the
timers of the later ones say that they have not been answered. -/
theorem Pending.sends_lt_iff {s : State} (h : Pending s) {k : Nat} {r : Request}
    (hr : s.requests[k]? = some r) (harmed : r.timer = .armed) :
    (∀ x ∈ s.sends, x.socket = r.socket → x.request < k) ↔
      ∀ q ∈ s.requests.drop (k + 1), q.socket = r.socket → q.timer.answered = false := by
  constructor
  · intro hearlier q hq hsocket
    obtain ⟨j, hj⟩ := List.mem_iff_getElem?.mp hq
    rw [List.getElem?_drop] at hj
    by_contra hanswered
    rw [Bool.not_eq_false] at hanswered
    have hcount := h.sent _ q hj
    rw [hanswered, if_pos rfl] at hcount
    obtain ⟨x, hx, hrequest⟩ := List.mem_map.mp (List.count_pos_iff.mp (hcount ▸ Nat.one_pos))
    obtain ⟨p, hp, hsame⟩ := h.routed.socket x hx
    rw [hrequest] at hp
    cases Option.some.inj (hj.symm.trans hp)
    have hlt := hearlier x hx (hsame.trans hsocket)
    omega
  · intro hlater x hx hsocket
    obtain ⟨q, hq, hsame⟩ := h.routed.socket x hx
    have hmem : x.request ∈ s.sends.map Send.request := List.mem_map_of_mem hx
    by_contra hge
    have hne : x.request ≠ k := by
      intro heq
      have hcount := h.armed k r hr harmed
      rw [List.count_eq_zero, ← heq] at hcount
      exact hcount hmem
    have hdrop : q ∈ s.requests.drop (k + 1) := by
      apply List.mem_of_getElem? (i := x.request - (k + 1))
      rw [List.getElem?_drop, ← hq]
      congr 1
      omega
    have hcount := h.sent _ q hq
    rw [hlater q hdrop (hsame.symm.trans hsocket)] at hcount
    exact List.count_eq_zero.mp hcount hmem

/-! ### The condition -/

/-- The invariant of the condition: so far the order was kept, and disconnects count sends
that have been made. -/
structure Live (n : Node) : Prop where
  pending : Pending n.server
  inOrder : InOrder n.server.sends n.disconnects
  counted : ∀ d ∈ n.disconnects, d.sends ≤ n.server.sends.length

/-- Before the first request there is nothing to order. -/
theorem live_start (globals : Globals) : Live (.start globals) := by
  refine ⟨pending_start globals, ⟨List.Pairwise.nil, ?_⟩, ?_⟩
  · intro d hd
    exact absurd hd List.not_mem_nil
  · intro d hd
    exact absurd hd List.not_mem_nil

private theorem counted_append {sends : List Send} {disconnects : List Disconnect} (x : Send)
    (h : ∀ d ∈ disconnects, d.sends ≤ sends.length) :
    ∀ d ∈ disconnects, d.sends ≤ (sends ++ [x]).length := by
  intro d hd
  rw [List.length_append]
  exact (h d hd).trans (Nat.le_add_right _ _)

/-- A receive event answers the latest request of its socket, if any. -/
theorem Live.receive {n m : Node} {socket heap : Nat} {data : Bytes} (h : Live n)
    (hm : nodeStep n (.receive socket data heap) = some m) : Live m := by
  have hpending := h.pending.nodeStep hm
  obtain ⟨hconnected, hserver, hdisconnects⟩ := nodeStep_receive hm
  obtain ⟨globals, -, -, ⟨timer, -, hreceive⟩ | hreceive⟩ :=
    receiver_cases n.server socket data heap
  · rw [hreceive] at hserver
    refine ⟨hpending, ?_, ?_⟩
    · rw [hserver, hdisconnects]
      exact h.inOrder
    · rw [hserver, hdisconnects]
      exact h.counted
  · rw [hreceive] at hserver
    refine ⟨hpending, ?_, ?_⟩
    · rw [hserver, hdisconnects]
      apply (inOrder_send_iff h.counted).mpr
      refine ⟨h.inOrder, hconnected, ?_⟩
      intro y hy _
      exact h.pending.routed.request_lt hy
    · rw [hserver, hdisconnects]
      exact counted_append _ h.counted

/-- The send of a timer is in order exactly where the timer is on time. -/
theorem Live.fire_iff {n m : Node} {request : Nat} (h : Live n)
    (hm : nodeStep n (.fire request) = some m) :
    InOrder m.server.sends m.disconnects ↔ OnTime n (.fire request) := by
  obtain ⟨server, hserver, rfl⟩ := nodeStep_fire hm
  obtain ⟨r, hr, harmed, rfl⟩ := step_fire hserver
  change InOrder (n.server.sends ++ [_]) n.disconnects ↔ ∀ r ∈ n.server.requests[request]?, _
  rw [inOrder_send_iff h.counted, hr]
  have hlater := h.pending.sends_lt_iff hr harmed
  constructor
  · rintro ⟨-, hconnected, hearlier⟩ q hq
    cases hq
    exact ⟨hconnected, hlater.mp hearlier⟩
  · intro hontime
    exact ⟨h.inOrder, (hontime r rfl).1, hlater.mpr (hontime r rfl).2⟩

/-- Every occurrence under the condition keeps the invariant. -/
theorem Live.nodeStep {n m : Node} {o : Occurrence} (h : Live n)
    (hm : Lua.nodeStep n o = some m) (ho : OnTime n o) : Live m := by
  have hpending := h.pending.nodeStep hm
  cases o with
  | elapse ms =>
    cases hm
    exact ⟨hpending, h.inOrder, h.counted⟩
  | receive socket data heap => exact h.receive hm
  | fire request =>
    have hinOrder := (h.fire_iff hm).mpr ho
    obtain ⟨server, hserver, rfl⟩ := nodeStep_fire hm
    obtain ⟨r, hr, harmed, rfl⟩ := step_fire hserver
    exact ⟨hpending, hinOrder, counted_append _ h.counted⟩
  | disconnect socket =>
    obtain ⟨-, rfl⟩ := nodeStep_disconnect hm
    refine ⟨hpending, h.inOrder.disconnect socket, ?_⟩
    intro d hd
    rcases List.mem_append.mp hd with hd | hd
    · exact h.counted d hd
    · rw [List.mem_singleton.mp hd]

/-- An occurrence that leaves the order kept was on time. -/
theorem Live.onTime {n m : Node} {o : Occurrence} (h : Live n)
    (hm : Lua.nodeStep n o = some m) (hinOrder : InOrder m.server.sends m.disconnects) :
    OnTime n o := by
  cases o with
  | elapse ms => trivial
  | receive socket data heap => trivial
  | fire request => exact (h.fire_iff hm).mp hinOrder
  | disconnect socket => trivial

/-- For every interleaving of requests with any delays on any sockets, timers and disconnects:
on every socket the sends are in the order of the requests and none comes after the
disconnect, in every state of the run, if and only if every timer fires while its socket is
connected and no later request of the socket has been answered. -/
theorem inOrder_iff_onTime (globals : Globals) (os : List Occurrence) (m : Node)
    (hrun : Step.run nodeStep (.start globals) os = some m) :
    Step.Always nodeStep (fun n ↦ InOrder n.server.sends n.disconnects) (.start globals) os ↔
      Step.Guarded nodeStep OnTime (.start globals) os :=
  Step.always_iff_guarded (fun _ h ↦ h.inOrder) (fun _ _ _ h hm ho ↦ h.nodeStep hm ho)
    (fun _ _ _ h hm hinOrder ↦ h.onTime hm hinOrder) (live_start globals) hrun

/-- A request on each of two sockets, the first one delayed, and a second request on the first
socket after the answer; then both disconnect. -/
def lockStepRun : List Occurrence :=
  [.receive 1 delayedRequest 1000, .receive 2 promptRequest 2000, .disconnect 2, .elapse 500,
    .fire 0, .receive 1 promptRequest 1000, .disconnect 1]

/-- Clients that wait for their answers get them in order. -/
theorem inOrder_lockStepRun :
    Step.Always nodeStep (fun n ↦ InOrder n.server.sends n.disconnects) (.start unassigned)
      lockStepRun := by
  have hrun : ∃ m, Step.run nodeStep (.start unassigned) lockStepRun = some m :=
    Option.isSome_iff_exists.mp (by decide +kernel)
  obtain ⟨m, hm⟩ := hrun
  apply (inOrder_iff_onTime unassigned lockStepRun m hm).mpr
  decide +kernel

/-- A delayed request and a prompt one behind it on the same socket. -/
def overtaking : List Occurrence :=
  [.receive 1 delayedRequest 1000, .receive 1 promptRequest 1000, .elapse 500, .fire 0]

/-- A delayed request whose client does not wait. -/
def abandoned : List Occurrence :=
  [.receive 1 delayedRequest 1000, .disconnect 1, .elapse 500, .fire 0]

/-- The prompt request overtakes the delayed one, and the timer of an abandoned request sends
on a socket that has disconnected. -/
theorem not_inOrder_overtaking_abandoned :
    (∃ m, Step.run nodeStep (.start unassigned) overtaking = some m ∧
      m.server.sends.map (fun x ↦ (x.socket, x.request)) = [(1, 1), (1, 0)] ∧
      ¬ InOrder m.server.sends m.disconnects) ∧
    (∃ m, Step.run nodeStep (.start unassigned) abandoned = some m ∧
      m.disconnects = [⟨1, 0⟩] ∧ m.server.sends.map Send.socket = [1] ∧
      ¬ InOrder m.server.sends m.disconnects) := by
  constructor
  · have hrun : (Step.run nodeStep (.start unassigned) overtaking).map
        (fun m ↦ m.server.sends.map fun x ↦ (x.socket, x.request)) = some [(1, 1), (1, 0)] := by
      decide +kernel
    obtain ⟨m, hm, hsends⟩ := Option.map_eq_some_iff.mp hrun
    refine ⟨m, hm, hsends, ?_⟩
    intro h
    have horder : (m.server.sends.map fun x ↦ (x.socket, x.request)).Pairwise
        fun x y ↦ x.1 = y.1 → x.2 < y.2 := List.pairwise_map.mpr h.order
    rw [hsends] at horder
    exact absurd horder (by decide)
  · have hrun : (Step.run nodeStep (.start unassigned) abandoned).map
        (fun m ↦ (m.disconnects, m.server.sends.map Send.socket)) = some ([⟨1, 0⟩], [1]) := by
      decide +kernel
    obtain ⟨m, hm, hpair⟩ := Option.map_eq_some_iff.mp hrun
    obtain ⟨hdisconnects, hsends⟩ := Prod.mk.inj hpair
    refine ⟨m, hm, hdisconnects, hsends, ?_⟩
    intro h
    obtain ⟨x, hx, hsocket⟩ : ∃ x ∈ m.server.sends, x.socket = 1 := by
      apply List.mem_map.mp
      rw [hsends]
      exact List.mem_singleton_self 1
    have hd : ⟨1, 0⟩ ∈ m.disconnects := by
      rw [hdisconnects]
      exact List.mem_singleton_self _
    exact h.connected _ hd x hx hsocket

/-! ### Clients that wait -/

/-- A client sends nothing, and stays connected, while an answer is outstanding on its socket. -/
def Waits (n : Node) : Occurrence → Prop
  | .receive socket _ _ | .disconnect socket =>
    ∀ r ∈ n.server.requests, r.timer = .armed → r.socket ≠ socket
  | _ => True

/-- The invariant of such clients: an armed timer is that of the latest request of its socket,
which is connected. -/
structure Latest (n : Node) : Prop where
  pending : Pending n.server
  latest : ∀ (k : Nat) (r : Request), n.server.requests[k]? = some r → r.timer = .armed →
    Connected n.disconnects r.socket ∧
      ∀ (j : Nat) (q : Request), n.server.requests[j]? = some q → q.socket = r.socket → j ≤ k

/-- Before the first request no timer is armed. -/
theorem latest_start (globals : Globals) : Latest (.start globals) := by
  refine ⟨pending_start globals, ?_⟩
  intro k r hr
  cases hr

/-- What a receive event does to the requests. -/
theorem requests_receiver (s : State) (socket : Nat) (data : Bytes) (heap : Nat) :
    ∃ timer, (receiver s socket data heap).requests = s.requests ++ [⟨socket, heap, timer⟩] := by
  obtain ⟨globals, -, -, ⟨timer, -, hreceive⟩ | hreceive⟩ := receiver_cases s socket data heap
  · exact ⟨timer, by rw [hreceive]⟩
  · exact ⟨.none, by rw [hreceive]⟩

/-- A request on a socket without an armed timer keeps the invariant. -/
theorem Latest.receive {n m : Node} {socket heap : Nat} {data : Bytes} (h : Latest n)
    (hm : nodeStep n (.receive socket data heap) = some m)
    (hwaits : Waits n (.receive socket data heap)) : Latest m := by
  refine ⟨h.pending.nodeStep hm, ?_⟩
  obtain ⟨hconnected, hserver, hdisconnects⟩ := nodeStep_receive hm
  obtain ⟨timer, hrequests⟩ := requests_receiver n.server socket data heap
  rw [hserver, hrequests, hdisconnects]
  intro k r hr harmed
  by_cases hk : k < n.server.requests.length
  · rw [List.getElem?_append_left hk] at hr
    obtain ⟨hsocket, hlatest⟩ := h.latest k r hr harmed
    refine ⟨hsocket, ?_⟩
    intro j q hq hsame
    by_cases hj : j < n.server.requests.length
    · rw [List.getElem?_append_left hj] at hq
      exact hlatest j q hq hsame
    · -- The new request would be one of the socket whose timer is armed.
      rw [List.getElem?_append_right (Nat.not_lt.mp hj)] at hq
      obtain rfl := List.mem_singleton.mp (List.mem_of_getElem? hq)
      exact absurd hsame.symm (hwaits r (List.mem_of_getElem? hr) harmed)
  · have hr' := hr
    rw [List.getElem?_append_right (Nat.not_lt.mp hk)] at hr'
    obtain rfl := List.mem_singleton.mp (List.mem_of_getElem? hr')
    refine ⟨hconnected, ?_⟩
    intro j q hq _
    have hlt := (List.getElem?_eq_some_iff.mp hq).1
    rw [List.length_append, List.length_singleton] at hlt
    omega

/-- A timer that fires is armed no more. -/
theorem Latest.fire {n m : Node} {request : Nat} (h : Latest n)
    (hm : nodeStep n (.fire request) = some m) : Latest m := by
  refine ⟨h.pending.nodeStep hm, ?_⟩
  obtain ⟨server, hserver, rfl⟩ := nodeStep_fire hm
  obtain ⟨r, hr, -, rfl⟩ := step_fire hserver
  obtain ⟨hlt, -⟩ := List.getElem?_eq_some_iff.mp hr
  have hsockets : ∀ (j : Nat) (q : Request),
      (n.server.requests.set request { r with timer := .fired })[j]? = some q →
      ∃ q', n.server.requests[j]? = some q' ∧ q'.socket = q.socket := by
    intro j q hq
    by_cases hj : request = j
    · subst hj
      cases Option.some.inj (hq.symm.trans (List.getElem?_set_self hlt))
      exact ⟨r, hr, rfl⟩
    · exact ⟨q, by rw [← hq, List.getElem?_set_ne hj], rfl⟩
  intro k q hq harmed
  have hk : request ≠ k := by
    rintro rfl
    cases Option.some.inj (hq.symm.trans (List.getElem?_set_self hlt))
    cases harmed
  obtain ⟨hsocket, hlatest⟩ := h.latest k q (by rw [← hq, List.getElem?_set_ne hk]) harmed
  refine ⟨hsocket, ?_⟩
  intro j p hp hsame
  obtain ⟨p', hp', hsocket'⟩ := hsockets j p hp
  exact hlatest j p' hp' (hsocket'.trans hsame)

/-- What a waiting client does keeps the invariant. -/
theorem Latest.nodeStep {n m : Node} {o : Occurrence} (h : Latest n)
    (hm : Lua.nodeStep n o = some m) (hwaits : Waits n o) : Latest m := by
  cases o with
  | elapse ms =>
    cases hm
    exact ⟨h.pending, h.latest⟩
  | receive socket data heap => exact h.receive hm hwaits
  | fire request => exact h.fire hm
  | disconnect socket =>
    obtain ⟨-, rfl⟩ := nodeStep_disconnect hm
    refine ⟨h.pending, ?_⟩
    intro k r hr harmed
    obtain ⟨hconnected, hlatest⟩ := h.latest k r hr harmed
    refine ⟨?_, hlatest⟩
    intro d hd
    rcases List.mem_append.mp hd with hd | hd
    · exact hconnected d hd
    · rw [List.mem_singleton.mp hd]
      exact (hwaits r (List.mem_of_getElem? hr) harmed).symm

/-- The timer of a latest request is on time. -/
theorem Latest.onTime {n m : Node} {o : Occurrence} (h : Latest n)
    (hm : Lua.nodeStep n o = some m) : OnTime n o := by
  cases o with
  | elapse ms => trivial
  | receive socket data heap => trivial
  | disconnect socket => trivial
  | fire request =>
    obtain ⟨server, hserver, -⟩ := nodeStep_fire hm
    obtain ⟨r, hr, harmed, -⟩ := step_fire hserver
    obtain ⟨hconnected, hlatest⟩ := h.latest request r hr harmed
    intro q hq
    cases Option.some.inj (hr.symm.trans hq)
    refine ⟨hconnected, ?_⟩
    intro p hp hsocket
    obtain ⟨j, hj⟩ := List.mem_iff_getElem?.mp hp
    rw [List.getElem?_drop] at hj
    have hle := hlatest _ p hj hsocket
    omega

/-- While every client waits for its answers, every timer is on time, whatever the delays and
however the clients' requests overlap. -/
theorem guarded_onTime_of_waits (globals : Globals) (os : List Occurrence) (m : Node)
    (hrun : Step.run nodeStep (.start globals) os = some m)
    (hwaits : Step.Guarded nodeStep Waits (.start globals) os) :
    Step.Guarded nodeStep OnTime (.start globals) os :=
  hwaits.of_invariant (fun _ _ _ h hm hw ↦ h.nodeStep hm hw) (fun _ _ _ h hm _ ↦ h.onTime hm)
    (latest_start globals) hrun

end Esp32WebServers.Lua
