import Esp32WebServers.Events.Timers
import Esp32WebServers.System.EndToEnd

/-!
# The sessions of a benchmark client and the Lua server

The other servers keep the response of a connection with the connection. The Lua server has one
`response` for all of them (`web_server/lua_nodemcu/server.lua:44`), which every receive event
assigns and every timer reads. Here all sessions of a client are connected to it, and the rows
of one session depend on what the others send.
-/

namespace Esp32WebServers.Lua

open Base

/-- A connection: the session at the client's end, with the values of `node.heap` at the receive
events of its requests for the heap values of its answers, the requests, and the bytes of them
that the server has not received. -/
structure Peer where
  session : Benchmark.Session
  requests : List IntDelay
  upstream : Bytes
  deriving DecidableEq

/-- The server and its connections, whose places are the numbers of their sockets. -/
structure Network where
  server : State
  peers : List Peer
  deriving DecidableEq

namespace Peer

/-- A connection that has been opened. -/
def start : Peer := ⟨.opened, [], []⟩

/-- What the client does on a connection: it writes a request, bytes arrive for it, one of its
reads returns. -/
inductive Action where
  | request (delay : IntDelay)
  | arrive (count : Nat)
  | read
  | readOne
  deriving DecidableEq

/-- `writer.write(message)`, and the session is at its read. -/
def request (client : Benchmark.Client) (p : Peer) (delay : IntDelay) : Peer where
  session := { p.session with phase := .read }
  requests := p.requests ++ [delay]
  upstream := p.upstream ++ client.message delay.val

/-- The server receives bytes while `node.heap` has some value. -/
def receive (p : Peer) (count : Nat) (heap : FreeHeap) : Peer :=
  { p with
    session := { p.session with heaps := p.session.heaps ++ [heap.val] }
    upstream := p.upstream.drop count }

/-- The server sends bytes. -/
def send (p : Peer) (bytes : Bytes) : Peer :=
  { p with session := { p.session with inFlight := p.session.inFlight ++ bytes } }

/-- What happens to the session alone. -/
def withSession (p : Peer) (session : Benchmark.Session) : Peer := { p with session }

/-- The actions of the client on a connection, where they can happen. -/
def act (client : Benchmark.Client) : Step Peer Action
  | p, .request delay =>
    if p.session.phase = .request then some (p.request client delay) else none
  | p, .arrive count => (p.session.act client (.arrive count)).map p.withSession
  | p, .read => (p.session.act client .read).map p.withSession
  | p, .readOne => (p.session.act client .readOne).map p.withSession

/-- Every answer of the server is that of the request that it is for: the session's rows are the
values of `node.heap` at the receive events of its requests, nothing but the response to the
last one is under way, and no part of a request lies unread. -/
structure Recorded (client : Benchmark.Client) (p : Peer) : Prop where
  session : p.session.Paired
  underWay : p.session.buffer ++ p.session.inFlight = [] ∨
    ∃ heap ∈ p.session.heaps.getLast?,
      p.session.buffer ++ p.session.inFlight = responseText heap.toNat
  whole : p.upstream = [] ∨ ∃ delay ∈ p.requests.getLast?, p.upstream = client.message delay.val
  answered : p.session.phase ≠ .read → p.session.heaps.length = p.requests.length

end Peer

namespace Network

/-- The server before its first connection, whatever its globals contain. -/
def start (globals : Globals) : Network := ⟨.start globals, []⟩

/-- A session opens its connection, the client does something on a connection, the server
receives bytes on a socket while `node.heap` has some value, or the timer of a request fires. -/
inductive Event where
  | opened
  | client (socket : Nat) (action : Peer.Action)
  | receive (socket count : Nat) (heap : FreeHeap)
  | fire (request : Nat)
  deriving DecidableEq

/-- The client's event loop runs until a session ends (`benchmark/iot_benchmark.py:114–117`). -/
def runs (n : Network) : Bool := n.peers.all fun p ↦ p.session.phase ≠ .ended

/-- A call of `socket:send` puts the bytes on the connection of the socket. -/
def send (peers : List Peer) (x : Send) : List Peer :=
  match peers[x.socket]? with
  | some p => peers.set x.socket (p.send x.bytes)
  | none => peers

/-- The server after one of its events, with what it has sent in it. -/
def deliver (n : Network) (server : State) : Network where
  server := server
  peers := (server.sends.drop n.server.sends.length).foldl send n.peers

/-- The events, one at a time, where they can happen. -/
def step (client : Benchmark.Client) : Step Network Event
  | n, .opened => if n.runs then some { n with peers := n.peers ++ [.start] } else none
  | n, .client socket action =>
    if n.runs then (n.peers[socket]?).bind fun p ↦ (p.act client action).map fun q ↦
      { n with peers := n.peers.set socket q }
    else none
  | n, .receive socket count heap => (n.peers[socket]?).bind fun p ↦
    if 0 < count ∧ count ≤ p.upstream.length then
      let data := p.upstream.take count
      some (deliver { n with peers := n.peers.set socket (p.receive count heap) }
        (receiver n.server socket data heap.val.toNat))
    else none
  | n, .fire request => (Lua.step n.server (.fire request)).map n.deliver

/-- A receive event takes all that a session sent, and a session's read returns when the whole
response has arrived. -/
def WholeReads (n : Network) : Event → Prop
  | .receive socket count _ => ∀ p ∈ n.peers[socket]?, count = p.upstream.length
  | .client socket .read => ∀ p ∈ n.peers[socket]?, p.session.inFlight = []
  | _ => True

/-- A timer fires while `free_heap` has the value that it had for the timer's request. -/
def OwnTimer (n : Network) : Event → Prop
  | .fire request => SameHeap n.server (.fire request)
  | _ => True

section Step

variable {client : Benchmark.Client} {n m : Network}

/-- Where the server sends nothing, the connections stay. -/
theorem deliver_of_eq {server : State} (h : server.sends = n.server.sends) :
    n.deliver server = ⟨server, n.peers⟩ := by
  rw [deliver, h, List.drop_length, List.foldl_nil]

/-- One call of `socket:send`. -/
theorem deliver_of_append {server : State} {x : Send} {p : Peer}
    (h : server.sends = n.server.sends ++ [x]) (hp : n.peers[x.socket]? = some p) :
    n.deliver server = ⟨server, n.peers.set x.socket (p.send x.bytes)⟩ := by
  rw [deliver, h, List.drop_left, List.foldl_cons, List.foldl_nil, send, hp]

/-- A receive event takes bytes off a connection. It answers at once, arms a timer, or does
neither where the delay is no number. -/
theorem step_receive {socket count : Nat} {heap : FreeHeap}
    (h : step client n (.receive socket count heap) = some m) :
    ∃ p q timer, n.peers[socket]? = some p ∧ 0 < count ∧ count ≤ p.upstream.length ∧
      m = ⟨receiver n.server socket (p.upstream.take count) heap.val.toNat,
        n.peers.set socket q⟩ ∧
      m.server.requests = n.server.requests ++ [⟨socket, heap.val.toNat, timer⟩] ∧
      ((q = p.receive count heap ∧
          (timer = .armed ↔ parsedDelay? (p.upstream.take count) ≠ none)) ∨
        (q = (p.receive count heap).send (response heap.val.toNat) ∧ timer = .none)) := by
  obtain ⟨p, hp, hcount⟩ := Option.bind_eq_some_iff.mp h
  rw [Option.ite_none_right_eq_some] at hcount
  obtain ⟨⟨hpos, hle⟩, hm⟩ := hcount
  cases hm
  cases hdelay : parsedDelay? (p.upstream.take count) with
  | none =>
    have hreceive := receiver_of_none n.server socket heap.val.toNat hdelay
    refine ⟨p, p.receive count heap, .failed, hp, hpos, hle, ?_, ?_, .inl ⟨rfl, ?_⟩⟩
    · exact deliver_of_eq (by rw [hreceive])
    · rw [deliver, hreceive]
    · exact ⟨fun h ↦ absurd h (by decide), fun h ↦ absurd hdelay h⟩
  | some delay =>
    have hreceive := receiver_of_some n.server socket heap.val.toNat hdelay
    by_cases hlong : 10 ≤ delay
    · simp only [if_pos hlong] at hreceive
      refine ⟨p, p.receive count heap, .armed, hp, hpos, hle, ?_, ?_, .inl ⟨rfl, ?_⟩⟩
      · exact deliver_of_eq (by rw [hreceive])
      · rw [deliver, hreceive]
      · exact ⟨fun _ ↦ hdelay ▸ Option.some_ne_none delay, fun _ ↦ rfl⟩
    · simp only [if_neg hlong] at hreceive
      refine ⟨p, _, .none, hp, hpos, hle, ?_, ?_, .inr ⟨rfl, rfl⟩⟩
      · have hset : (n.peers.set socket (p.receive count heap))[socket]? =
            some (p.receive count heap) :=
          List.getElem?_set_self (List.getElem?_eq_some_iff.mp hp).1
        rw [deliver_of_append
          (x := ⟨n.server.requests.length, socket, response heap.val.toNat⟩)
          (by rw [hreceive]) hset, List.set_set]
      · rw [deliver, hreceive]

/-- What the client does on a connection. -/
theorem step_client {socket : Nat} {action : Peer.Action}
    (h : step client n (.client socket action) = some m) :
    ∃ p q, n.peers[socket]? = some p ∧ p.act client action = some q ∧
      m = ⟨n.server, n.peers.set socket q⟩ := by
  simp only [step, Option.ite_none_right_eq_some, Option.bind_eq_some_iff,
    Option.map_eq_some_iff] at h
  obtain ⟨-, p, hp, q, hq, rfl⟩ := h
  exact ⟨p, q, hp, hq, rfl⟩

/-- A timer that fires answers on the socket of its request. -/
theorem step_fire {request : Nat} (h : step client n (.fire request) = some m) :
    ∃ r, n.server.requests[request]? = some r ∧ r.timer = .armed ∧
      Lua.step n.server (.fire request) = some m.server ∧
      m.server.requests = n.server.requests.set request { r with timer := .fired } ∧
      ∀ p, n.peers[r.socket]? = some p →
        m.peers = n.peers.set r.socket (p.send n.server.globals.response) := by
  obtain ⟨server, hserver, rfl⟩ := Option.map_eq_some_iff.mp h
  obtain ⟨r, hr, harmed, heq⟩ := Lua.step_fire hserver
  refine ⟨r, hr, harmed, hserver, ?_, fun p hp ↦ ?_⟩
  · rw [deliver, heq]
  · rw [deliver_of_append (x := ⟨request, r.socket, n.server.globals.response⟩)
      (by rw [heq]) hp]

end Step

/-! ### Armed timers -/

/-- The values of `node.heap` for which timers of a socket are armed. -/
def armedOn (requests : List Request) (socket : Nat) : List Nat :=
  requests.filterMap fun r ↦ if r.timer = .armed ∧ r.socket = socket then some r.freeHeap else none

/-- A request that arms a timer adds its value on its socket. -/
theorem armedOn_concat (requests : List Request) (r : Request) (socket : Nat) :
    armedOn (requests ++ [r]) socket =
      armedOn requests socket ++
        if r.timer = .armed ∧ r.socket = socket then [r.freeHeap] else [] := by
  rw [armedOn, List.filterMap_append, ← armedOn, List.filterMap_cons, List.filterMap_nil]
  split
  · next hnone =>
    rw [if_neg]
    intro harmed
    rw [if_pos harmed] at hnone
    cases hnone
  · next value hsome =>
    rw [Option.ite_none_right_eq_some, Option.some.injEq] at hsome
    rw [if_pos hsome.1, hsome.2]

/-- A timer that fires takes its value away, on its own socket. -/
theorem armedOn_set {requests : List Request} {k : Nat} {r : Request}
    (hr : requests[k]? = some r) (harmed : r.timer = .armed) (socket : Nat) :
    ∃ front rest,
      armedOn requests socket =
        front ++ ((if r.socket = socket then [r.freeHeap] else []) ++ rest) ∧
      armedOn (requests.set k { r with timer := .fired }) socket = front ++ rest := by
  obtain ⟨hlt, hget⟩ := List.getElem?_eq_some_iff.mp hr
  refine ⟨armedOn (requests.take k) socket, armedOn (requests.drop (k + 1)) socket, ?_, ?_⟩
  · have hsplit : requests = (requests.take k ++ [r]) ++ requests.drop (k + 1) := by
      rw [← hget, List.take_append_getElem, List.take_append_drop]
    rw [← List.append_assoc]
    calc armedOn requests socket
        = armedOn ((requests.take k ++ [r]) ++ requests.drop (k + 1)) socket := by rw [← hsplit]
      _ = armedOn (requests.take k ++ [r]) socket ++ armedOn (requests.drop (k + 1)) socket :=
          List.filterMap_append
      _ = _ := by
          rw [armedOn_concat]
          simp only [harmed, true_and]
  · rw [List.set_eq_take_append_cons_drop, if_pos hlt, armedOn, List.filterMap_append,
      List.filterMap_cons]
    rfl

/-- An armed timer has its value on its socket. -/
theorem mem_armedOn {requests : List Request} {k : Nat} {r : Request}
    (hr : requests[k]? = some r) (harmed : r.timer = .armed) :
    r.freeHeap ∈ armedOn requests r.socket := by
  obtain ⟨front, rest, heq, -⟩ := armedOn_set hr harmed r.socket
  rw [heq, if_pos rfl]
  exact List.mem_append_right _ (List.mem_append_left _ (List.mem_singleton_self _))

end Network

/-! ### Connections -/

namespace Peer

/-- The invariant of a connection, with the values of `node.heap` for which its timers are armed:
every request has its response, or the last one is to be received, or its timer is armed. -/
inductive Clean (client : Benchmark.Client) : List Nat → Peer → Prop
  | answered {x : Benchmark.Session} {requests : List IntDelay} (hx : x.Clean)
      (hlen : x.heaps.length = requests.length) : Clean client [] ⟨x, requests, []⟩
  | asked {heaps : List UInt32} {requests : List IntDelay} (delay : IntDelay)
      (hlen : heaps.length = requests.length) :
      Clean client [] ⟨⟨heaps, [], [], Benchmark.numerals heaps, .read⟩, requests ++ [delay],
        client.message delay.val⟩
  | waiting {heaps : List UInt32} {requests : List IntDelay} (heap : FreeHeap)
      (hlen : heaps.length + 1 = requests.length) :
      Clean client [heap.val.toNat]
        ⟨⟨heaps ++ [heap.val], [], [], Benchmark.numerals heaps, .read⟩, requests, []⟩

variable {client : Benchmark.Client} {armed : List Nat} {p q : Peer}

/-- A connection is clean before its first request. -/
theorem clean_start : Clean client [] start := .answered (.request []) rfl

/-- What the client does keeps a connection clean if its reads return whole responses. -/
theorem Clean.act (hp : Clean client armed p) {action : Action}
    (h : p.act client action = some q)
    (hwhole : action = .read → p.session.inFlight = []) : Clean client armed q := by
  cases action with
  | request delay =>
    rw [Peer.act, Option.ite_none_right_eq_some, Option.some.injEq] at h
    obtain ⟨hphase, rfl⟩ := h
    cases hp with
    | answered hx hlen =>
      cases hx with
      | request heaps =>
        simp only [request, List.nil_append]
        exact .asked delay hlen
      | stay heaps => cases hphase
      | read heaps heap _ => cases hphase
    | asked delay hlen => cases hphase
    | waiting heap hlen => cases hphase
  | arrive count =>
    obtain ⟨x, hx', rfl⟩ := Option.map_eq_some_iff.mp h
    simp only [Benchmark.Session.act, Option.ite_none_right_eq_some, Option.some.injEq] at hx'
    obtain ⟨⟨hpos, hle⟩, rfl⟩ := hx'
    cases hp with
    | answered hx hlen => exact .answered (hx.arrives hpos hle) hlen
    | asked delay hlen => exact absurd hle (Nat.not_le_of_lt hpos)
    | waiting heap hlen => exact absurd hle (Nat.not_le_of_lt hpos)
  | read =>
    obtain ⟨x, hx', rfl⟩ := Option.map_eq_some_iff.mp h
    simp only [Benchmark.Session.act, Option.ite_none_right_eq_some, Option.some.injEq] at hx'
    obtain ⟨⟨hphase, hbuffer⟩, rfl⟩ := hx'
    cases hp with
    | answered hx hlen =>
      exact .answered (hx.reads hphase (hwhole rfl))
        ((congrArg List.length (Link.heaps_read _ _)).trans hlen)
    | asked delay hlen => exact absurd rfl hbuffer
    | waiting heap hlen => exact absurd rfl hbuffer
  | readOne =>
    obtain ⟨x, hx', rfl⟩ := Option.map_eq_some_iff.mp h
    simp only [Benchmark.Session.act, Option.ite_none_right_eq_some, Option.some.injEq] at hx'
    obtain ⟨⟨hphase, hbuffer⟩, rfl⟩ := hx'
    cases hp with
    | answered hx hlen => exact absurd (hx.not_readOne hphase) hbuffer
    | asked delay hlen => cases hphase
    | waiting heap hlen => cases hphase

/-- A read that leaves the answers right returned a whole response. -/
theorem Clean.inFlight_eq_nil (hp : Clean client armed p) (h : p.act client .read = some q)
    (hq : q.Recorded client) : p.session.inFlight = [] := by
  obtain ⟨x, hx', rfl⟩ := Option.map_eq_some_iff.mp h
  cases hp with
  | answered hx hlen => exact hx.inFlight_eq_nil hx' hq.session
  | asked delay hlen => rfl
  | waiting heap hlen => rfl

/-- Only a request that is to be received can be. -/
theorem Clean.of_upstream (hp : Clean client armed p) (h : 0 < p.upstream.length) :
    ∃ (heaps : List UInt32) (requests : List IntDelay) (delay : IntDelay),
      heaps.length = requests.length ∧ armed = [] ∧
      p = ⟨⟨heaps, [], [], Benchmark.numerals heaps, .read⟩, requests ++ [delay],
        client.message delay.val⟩ := by
  cases hp with
  | answered hx hlen => exact absurd h (Nat.lt_irrefl 0)
  | asked delay hlen => exact ⟨_, _, delay, hlen, rfl, rfl⟩
  | waiting heap hlen => exact absurd h (Nat.lt_irrefl 0)

/-- An armed timer is that of the last request. -/
theorem Clean.of_armed (hp : Clean client armed p) {value : Nat} (h : value ∈ armed) :
    ∃ (heaps : List UInt32) (requests : List IntDelay) (heap : FreeHeap),
      heaps.length + 1 = requests.length ∧ armed = [heap.val.toNat] ∧ value = heap.val.toNat ∧
      p = ⟨⟨heaps ++ [heap.val], [], [], Benchmark.numerals heaps, .read⟩, requests, []⟩ := by
  cases hp with
  | answered hx hlen => exact absurd h List.not_mem_nil
  | asked delay hlen => exact absurd h List.not_mem_nil
  | waiting heap hlen => exact ⟨_, _, heap, hlen, rfl, List.mem_singleton.mp h, rfl⟩

/-- The last request is answered. -/
theorem clean_of_response {heaps : List UInt32} {requests : List IntDelay} {bytes : Bytes}
    (heap : UInt32) (hlen : heaps.length + 1 = requests.length)
    (hbytes : bytes = responseText heap.toNat) :
    Clean client []
      ⟨⟨heaps ++ [heap], bytes, [], Benchmark.numerals heaps, .read⟩, requests, []⟩ := by
  refine .answered (.read heaps heap (by rw [List.nil_append, hbytes])) ?_
  rw [List.length_append, List.length_singleton, hlen]

end Peer

/-! ### The network -/

/-- The delay of a whole request is a number. -/
theorem parsedDelay?_message (client : Benchmark.Client) (delay : IntDelay) :
    parsedDelay? (client.message delay.val) ≠ none := by
  cases client with
  | iot =>
    have hsearch := Benchmark.search_iotMessage delay
    split at hsearch
    · rw [parsedDelay?_of_digits hsearch (decimal_ne_nil _) fun b hb ↦ isDigit_of_mem_decimal hb]
      exact Option.some_ne_none _
    · rw [parsedDelay?_of_none hsearch]
      exact Option.some_ne_none _
  | connection delayBetweenRequests =>
    rw [parsedDelay?_of_none (Benchmark.search_connectionMessage _ delay)]
    exact Option.some_ne_none _

namespace Network

/-- The invariant: `response` is that of `free_heap`, and every connection is clean with the
timers that are armed for it. -/
structure Clean (client : Benchmark.Client) (n : Network) : Prop where
  server : UpToDate n.server
  peers : ∀ (socket : Nat) (p : Peer), n.peers[socket]? = some p →
    p.Clean client (armedOn n.server.requests socket)
  sockets : ∀ socket, n.peers.length ≤ socket → armedOn n.server.requests socket = []

section Clean

variable {client : Benchmark.Client} {n m : Network}

/-- A network is clean before its first connection. -/
theorem clean_start (globals : Globals) : Clean client (start globals) :=
  ⟨upToDate_start globals, nofun, fun _ _ ↦ rfl⟩

/-- A change of one connection and of the timers on its socket. -/
theorem Clean.change (hn : Clean client n) {server : State} {socket : Nat} {p q : Peer}
    (hp : n.peers[socket]? = some p) (hserver : UpToDate server)
    (hother : ∀ i, socket ≠ i → armedOn server.requests i = armedOn n.server.requests i)
    (hq : q.Clean client (armedOn server.requests socket)) :
    Clean client ⟨server, n.peers.set socket q⟩ := by
  have hlt := (List.getElem?_eq_some_iff.mp hp).1
  refine ⟨hserver, ?_, ?_⟩
  · intro i p' hp'
    by_cases hi : socket = i
    · subst hi
      cases Option.some.inj ((List.getElem?_set_self hlt).symm.trans hp')
      exact hq
    · rw [List.getElem?_set_ne hi] at hp'
      simp only [hother i hi]
      exact hn.peers i p' hp'
  · intro i hi
    rw [List.length_set] at hi
    simp only [hother i (by omega)]
    exact hn.sockets i hi

/-- A new connection has no timer. -/
theorem Clean.opened (hn : Clean client n) :
    Clean client { n with peers := n.peers ++ [.start] } := by
  refine ⟨hn.server, ?_, ?_⟩
  · intro socket p hp
    by_cases hlt : socket < n.peers.length
    · rw [List.getElem?_append_left hlt] at hp
      exact hn.peers socket p hp
    · rw [List.getElem?_append_right (Nat.not_lt.mp hlt)] at hp
      obtain rfl := List.mem_singleton.mp (List.mem_of_getElem? hp)
      simp only [hn.sockets socket (Nat.not_lt.mp hlt)]
      exact Peer.clean_start
  · intro socket hle
    apply hn.sockets
    rw [List.length_append] at hle
    omega

/-- A whole request is answered at once or arms a timer. -/
theorem Clean.receive (hn : Clean client n) {socket count : Nat} {heap : FreeHeap}
    (h : step client n (.receive socket count heap) = some m)
    (hwhole : WholeReads n (.receive socket count heap)) : Clean client m := by
  obtain ⟨p, q, timer, hp, hpos, hle, rfl, hrequests, hq⟩ := step_receive h
  have hserver : UpToDate (receiver n.server socket (p.upstream.take count) heap.val.toNat) :=
    hn.server.step (e := .receive socket (p.upstream.take count) heap.val.toNat) rfl trivial
  have harmed (i : Nat) := armedOn_concat n.server.requests ⟨socket, heap.val.toNat, timer⟩ i
  simp only at hrequests
  simp only [← hrequests] at harmed
  have hother (i : Nat) (hi : socket ≠ i) : armedOn (receiver n.server socket
      (p.upstream.take count) heap.val.toNat).requests i = armedOn n.server.requests i := by
    rw [harmed, if_neg fun h ↦ hi h.2, List.append_nil]
  obtain ⟨heaps, requests, delay, hlen, hnone, rfl⟩ :=
    (hn.peers socket p hp).of_upstream (hpos.trans_le hle)
  have hcount : count = (client.message delay.val).length := hwhole _ hp
  have hlen' : heaps.length + 1 = (requests ++ [delay]).length := by
    rw [hlen, List.length_append, List.length_singleton]
  refine hn.change hp hserver hother ?_
  rw [harmed, hnone]
  simp only [hcount, List.take_length] at hq
  rcases hq with ⟨rfl, htimer⟩ | ⟨rfl, rfl⟩
  · rw [if_pos ⟨htimer.mpr (parsedDelay?_message client delay), rfl⟩]
    simp only [Peer.receive, List.drop_length]
    exact .waiting heap hlen'
  · have hresponse := response_eq heap.val.toNat
    rw [if_neg fun h ↦ by cases h.1]
    simp only [Peer.send, Peer.receive, List.drop_length, List.nil_append]
    exact Peer.clean_of_response heap.val hlen' hresponse

/-- The connection and the request of a timer that fires. -/
theorem Clean.of_fire (hn : Clean client n) {k : Nat} {r : Request}
    (hr : n.server.requests[k]? = some r) (harmed : r.timer = .armed) :
    ∃ (heaps : List UInt32) (requests : List IntDelay) (heap : FreeHeap),
      heaps.length + 1 = requests.length ∧ r.freeHeap = heap.val.toNat ∧
      armedOn n.server.requests r.socket = [heap.val.toNat] ∧
      n.peers[r.socket]? = some
        ⟨⟨heaps ++ [heap.val], [], [], Benchmark.numerals heaps, .read⟩, requests, []⟩ := by
  have hmem := mem_armedOn hr harmed
  have hlt : r.socket < n.peers.length := by
    by_contra hle
    rw [hn.sockets _ (Nat.not_lt.mp hle)] at hmem
    exact absurd hmem List.not_mem_nil
  obtain ⟨heaps, requests, heap, hlen, hone, hvalue, hp⟩ :=
    (hn.peers _ _ (List.getElem?_eq_getElem hlt)).of_armed hmem
  exact ⟨heaps, requests, heap, hlen, hvalue, hone, by rw [List.getElem?_eq_getElem hlt, hp]⟩

/-- A timer that fires under the condition answers its own request. -/
theorem Clean.fire (hn : Clean client n) {request : Nat}
    (h : step client n (.fire request) = some m) (hown : OwnTimer n (.fire request)) :
    Clean client m := by
  obtain ⟨r, hr, harmed, hstep, hrequests, hpeers⟩ := step_fire h
  obtain ⟨heaps, requests, heap, hlen, hvalue, hone, hp⟩ := hn.of_fire hr harmed
  have hserver : UpToDate m.server := hn.server.step hstep hown
  have hbuilt := hn.server.built (List.ne_nil_of_mem (List.mem_of_getElem? hr))
  have hresponse : n.server.globals.response = responseText heap.val.toNat := by
    rw [hbuilt, hown r hr, hvalue, response_eq]
  have hset (i : Nat) := armedOn_set hr harmed i
  simp only [← hrequests] at hset
  have hm : m = ⟨m.server, m.peers⟩ := rfl
  rw [hm, hpeers _ hp]
  refine hn.change hp hserver ?_ ?_
  · intro i hi
    obtain ⟨front, rest, hbefore, hafter⟩ := hset i
    rw [hbefore, hafter, if_neg hi, List.nil_append]
  · obtain ⟨front, rest, hbefore, hafter⟩ := hset r.socket
    rw [hone, if_pos rfl] at hbefore
    -- No other timer is armed on the socket.
    have hnone : front = [] ∧ rest = [] := by
      have hlength := congrArg List.length hbefore
      simp only [List.length_append, List.length_singleton] at hlength
      exact ⟨List.length_eq_zero_iff.mp (by omega), List.length_eq_zero_iff.mp (by omega)⟩
    rw [hafter, hnone.1, hnone.2]
    exact Peer.clean_of_response heap.val hlen hresponse

/-- Events under the condition keep a network clean. -/
theorem Clean.step (hn : Clean client n) {e : Event} (h : step client n e = some m)
    (hwhole : WholeReads n e) (hown : OwnTimer n e) : Clean client m := by
  cases e with
  | opened =>
    simp only [Network.step, Option.ite_none_right_eq_some, Option.some.injEq] at h
    rw [← h.2]
    exact hn.opened
  | client socket action =>
    obtain ⟨p, q, hp, hq, rfl⟩ := step_client h
    refine hn.change hp hn.server (fun _ _ ↦ rfl) ((hn.peers socket p hp).act hq ?_)
    rintro rfl
    exact hwhole p hp
  | receive socket count heap => exact hn.receive h hwhole
  | fire request => exact hn.fire h hown

end Clean

/-- The invariant of the connection benchmark: its requests ask for no delay, and no timer is
armed. -/
structure Prompt (delayBetweenRequests : Rat) (n : Network) : Prop where
  clean : Clean (.connection delayBetweenRequests) n
  unarmed : ∀ r ∈ n.server.requests, r.timer ≠ .armed

section Prompt

variable {delayBetweenRequests : Rat} {n m : Network} {e : Event}

/-- No timer fires, and so none fires late. -/
theorem Prompt.ownTimer (hn : Prompt delayBetweenRequests n)
    (h : step (.connection delayBetweenRequests) n e = some m) : OwnTimer n e := by
  cases e with
  | opened => trivial
  | client socket action => trivial
  | receive socket count heap => trivial
  | fire request =>
    obtain ⟨r, hr, harmed, -⟩ := step_fire h
    exact absurd harmed (hn.unarmed r (List.mem_of_getElem? hr))

/-- A whole request arms no timer. -/
theorem Prompt.step (hn : Prompt delayBetweenRequests n)
    (h : Network.step (.connection delayBetweenRequests) n e = some m)
    (hwhole : WholeReads n e) : Prompt delayBetweenRequests m := by
  refine ⟨hn.clean.step h hwhole (hn.ownTimer h), ?_⟩
  cases e with
  | opened =>
    simp only [Network.step, Option.ite_none_right_eq_some, Option.some.injEq] at h
    rw [← h.2]
    exact hn.unarmed
  | client socket action =>
    obtain ⟨p, q, -, -, rfl⟩ := step_client h
    exact hn.unarmed
  | receive socket count heap =>
    obtain ⟨p, q, timer, hp, hpos, hle, rfl, -, -⟩ := step_receive h
    obtain ⟨heaps, requests, delay, -, -, rfl⟩ :=
      (hn.clean.peers socket p hp).of_upstream (hpos.trans_le hle)
    have hcount := hwhole _ hp
    have hdelay : parsedDelay?
        ((Benchmark.Client.connection delayBetweenRequests).message delay.val) = some 0 :=
      parsedDelay?_of_none (Benchmark.search_connectionMessage _ delay)
    simp only [hcount, List.take_length]
    rw [receiver_of_some _ _ _ hdelay]
    intro r hr harmed
    rcases List.mem_append.mp hr with hr | hr
    · exact hn.unarmed r hr harmed
    · rw [List.mem_singleton.mp hr] at harmed
      cases harmed
  | fire request =>
    obtain ⟨r, hr, harmed, -⟩ := step_fire h
    exact absurd harmed (hn.unarmed r (List.mem_of_getElem? hr))

end Prompt

end Network

end Esp32WebServers.Lua
