import Esp32WebServers.Base.Run
import Esp32WebServers.Header.Patterns
import Esp32WebServers.Response.Format

/-!
# Delayed responses of the Lua server

The NodeMCU runs one event at a time. A receive event runs `receiver`
(`web_server/lua_nodemcu/server.lua:25–34`) to its end; a delay of at least 10 arms a timer,
whose event runs the closure of `server.lua:47–49`. Names without `local` are globals,
which all events share: `response` among them, whereas `socket` is the closure's own.
-/

namespace Esp32WebServers.Lua

open Base

/-- The global variables that `receiver`, `respond_delayed` and `parseHeader` assign. -/
structure Globals where
  delay : Value
  memoryUsage : Value
  value : Value
  freeHeap : Nat
  ramString : Bytes
  ramStringSize : Nat
  response : Bytes
  deriving DecidableEq

/-- The timer of a request. There is none for a short delay, and none for a delay that is no
number, which fails with an error. -/
inductive Timer where
  | none
  | failed
  | armed
  | fired
  deriving DecidableEq

/-- A request has been answered: at once, or when its timer fired. -/
def Timer.answered : Timer → Bool
  | .none | .fired => true
  | .failed | .armed => false

/-- A receive event, for the record: the socket, the value of `node.heap` and the timer. -/
structure Request where
  socket : Nat
  freeHeap : Nat
  timer : Timer
  deriving DecidableEq

/-- The response that `respond_delayed` built for a request. -/
def Request.response (r : Request) : Bytes := Lua.response r.freeHeap

/-- A call of `socket:send`, with the request that it is for. -/
structure Send where
  request : Nat
  socket : Nat
  bytes : Bytes
  deriving DecidableEq

/-- The globals, the requests in the order of their receive events, and all sends. -/
structure State where
  globals : Globals
  requests : List Request
  sends : List Send
  deriving DecidableEq

/-- The server before the first request, whatever the globals contain. -/
def State.start (globals : Globals) : State := ⟨globals, [], []⟩

/-- Atomic events: bytes arrive on a socket while `node.heap` has some value, and the timer
of a request fires. -/
inductive Event where
  | receive (socket : Nat) (data : Bytes) (heap : Nat)
  | fire (request : Nat)
  deriving DecidableEq

/-- The assignments of `respond_delayed` (`server.lua:40–44`). -/
def Globals.build (g : Globals) (heap : Nat) : Globals :=
  { g with
    freeHeap := heap
    ramString := Lua.ramString heap
    ramStringSize := (Lua.ramString heap).length
    response := responseOf (Lua.ramString heap) }

/-- The assignments of `receiver` (`server.lua:27–28`); `value` is left over from the second
`parseHeader`. -/
def Globals.parse (g : Globals) (data : Bytes) : Globals :=
  { g with
    delay := parseHeader data delayName
    memoryUsage := parseHeader data momoryUsageName
    value := match search (headerPattern momoryUsageName) data with
      | .none => .nil
      | some groups => .string (groups.headD []) }

/-- `respond_delayed` (`server.lua:36–54`) for the next request. The comparison with 10
raises an error for `nil`; nothing is sent then. -/
def respondDelayed (s : State) (socket : Nat) (delay : Value) (heap : Nat) : State :=
  let globals := s.globals.build heap
  match tonumber delay with
  | .number n =>
    if 10 ≤ n then
      { s with globals, requests := s.requests ++ [⟨socket, heap, .armed⟩] }
    else
      { globals
        requests := s.requests ++ [⟨socket, heap, .none⟩]
        sends := s.sends ++ [⟨s.requests.length, socket, globals.response⟩] }
  | _ => { s with globals, requests := s.requests ++ [⟨socket, heap, .failed⟩] }

/-- `receiver` (`server.lua:25–34`). -/
def receiver (s : State) (socket : Nat) (data : Bytes) (heap : Nat) : State :=
  let globals := s.globals.parse data
  respondDelayed { s with globals } socket globals.delay heap

/-- The events, one at a time. An armed timer fires at most once. -/
def step : Step State Event
  | s, .receive socket data heap => some (receiver s socket data heap)
  | s, .fire request =>
    match s.requests[request]? with
    | some ⟨socket, freeHeap, .armed⟩ =>
      some { s with
        requests := s.requests.set request ⟨socket, freeHeap, .fired⟩
        sends := s.sends ++ [⟨request, socket, s.globals.response⟩] }
    | _ => none

/-- Every request leads to at most one send, on its own socket. -/
structure Routed (requests : List Request) (sends : List Send) : Prop where
  socket : ∀ x ∈ sends, ∃ r, requests[x.request]? = some r ∧ x.socket = r.socket
  once : ∀ k, (sends.map Send.request).count k ≤ 1

/-- The bytes of every send are the response that was built for its request. -/
def OwnBytes (requests : List Request) (sends : List Send) : Prop :=
  ∀ x ∈ sends, ∃ r, requests[x.request]? = some r ∧ x.bytes = r.response

/-- Every request is answered at most once, on its own socket, with its own response. -/
structure Answered (s : State) : Prop where
  routed : Routed s.requests s.sends
  bytes : OwnBytes s.requests s.sends

/-- The timers that find their own response: at that moment `free_heap`, which every
receive event assigns, has the value that it had for the timer's request. -/
def SameHeap (s : State) : Event → Prop
  | .receive _ _ _ => True
  | .fire request => ∀ r ∈ s.requests[request]?, s.globals.freeHeap = r.freeHeap

/-- Whether a timer finds its own response can be computed. -/
instance (s : State) : (e : Event) → Decidable (SameHeap s e)
  | .receive _ _ _ => isTrue trivial
  | .fire request =>
    inferInstanceAs (Decidable (∀ r ∈ s.requests[request]?, s.globals.freeHeap = r.freeHeap))

/-! ### At most one send -/

/-- The list of requests later on: the same ones, some with their timers fired, and perhaps
more. -/
def Grows (requests requests' : List Request) : Prop :=
  ∀ (k : Nat) (r : Request), requests[k]? = some r →
    ∃ r' : Request, requests'[k]? = some r' ∧ r'.socket = r.socket ∧
      r'.freeHeap = r.freeHeap

private theorem grows_append (requests : List Request) (r : Request) :
    Grows requests (requests ++ [r]) := by
  intro k q hq
  obtain ⟨hlt, -⟩ := List.getElem?_eq_some_iff.mp hq
  exact ⟨q, by rw [List.getElem?_append_left hlt, hq], rfl, rfl⟩

private theorem grows_set {requests : List Request} {k : Nat} {r : Request}
    (hr : requests[k]? = some r) (timer : Timer) :
    Grows requests (requests.set k { r with timer }) := by
  intro j q hq
  by_cases hj : k = j
  · subst hj
    obtain ⟨hlt, -⟩ := List.getElem?_eq_some_iff.mp hr
    cases Option.some.inj (hr.symm.trans hq)
    exact ⟨_, List.getElem?_set_self hlt, rfl, rfl⟩
  · exact ⟨q, by rw [List.getElem?_set_ne hj, hq], rfl, rfl⟩

/-- Sends to requests stay sends to requests. -/
theorem Routed.grow {requests requests' : List Request} {sends : List Send}
    (h : Routed requests sends) (hgrows : Grows requests requests') :
    Routed requests' sends := by
  refine ⟨?_, h.once⟩
  intro x hx
  obtain ⟨r, hr, hsocket⟩ := h.socket x hx
  obtain ⟨r', hr', hsame, -⟩ := hgrows _ _ hr
  exact ⟨r', hr', hsocket.trans hsame.symm⟩

/-- A first send on the request's socket keeps the routing. -/
theorem Routed.send {requests : List Request} {sends : List Send}
    (h : Routed requests sends) {k : Nat} {r : Request} (hr : requests[k]? = some r)
    (hfirst : (sends.map Send.request).count k = 0) (bytes : Bytes) :
    Routed requests (sends ++ [⟨k, r.socket, bytes⟩]) := by
  refine ⟨?_, ?_⟩
  · intro x hx
    rcases List.mem_append.mp hx with hx | hx
    · exact h.socket x hx
    · cases List.mem_singleton.mp hx
      exact ⟨r, hr, rfl⟩
  · intro j
    rw [List.map_append, List.count_append]
    by_cases hj : k = j
    · rw [← hj, hfirst]
      simp
    · have hnone : List.count j (List.map Send.request [⟨k, r.socket, bytes⟩]) = 0 := by
        simp [hj]
      rw [hnone]
      exact h.once j

/-- No send is for a request yet to come. -/
theorem Routed.count_eq_zero {requests : List Request} {sends : List Send}
    (h : Routed requests sends) {k : Nat} (hk : requests.length ≤ k) :
    (sends.map Send.request).count k = 0 := by
  rw [List.count_eq_zero]
  intro hmem
  obtain ⟨x, hx, rfl⟩ := List.mem_map.mp hmem
  obtain ⟨r, hr, -⟩ := h.socket x hx
  rw [List.getElem?_eq_none hk] at hr
  cases hr

/-- The invariant of every run: a request has one send if its timer says that it has been
answered, and else none. -/
structure Pending (s : State) : Prop where
  routed : Routed s.requests s.sends
  sent : ∀ (k : Nat) (r : Request), s.requests[k]? = some r →
    (s.sends.map Send.request).count k = if r.timer.answered then 1 else 0

/-- Before the first request there is nothing to route. -/
theorem pending_start (globals : Globals) : Pending (.start globals) := by
  refine ⟨⟨?_, ?_⟩, ?_⟩
  · intro x hx
    exact absurd hx List.not_mem_nil
  · intro k
    exact Nat.zero_le 1
  · intro k r hr
    cases hr

/-- An armed timer's request has no send. -/
theorem Pending.armed {s : State} (h : Pending s) (k : Nat) (r : Request)
    (hr : s.requests[k]? = some r) (harmed : r.timer = .armed) :
    (s.sends.map Send.request).count k = 0 := by
  rw [h.sent k r hr, harmed]
  rfl

/-- A request without a response yet keeps the invariant. -/
theorem Pending.append {s : State} (h : Pending s) (globals : Globals) {r : Request}
    (hr : r.timer.answered = false) : Pending ⟨globals, s.requests ++ [r], s.sends⟩ := by
  refine ⟨h.routed.grow (grows_append _ _), ?_⟩
  intro k q hq
  by_cases hlt : k < s.requests.length
  · rw [List.getElem?_append_left hlt] at hq
    exact h.sent k q hq
  · rw [List.getElem?_append_right (Nat.not_lt.mp hlt)] at hq
    rw [List.mem_singleton.mp (List.mem_of_getElem? hq), hr]
    exact h.routed.count_eq_zero (Nat.not_lt.mp hlt)

/-- A request answered at once keeps the invariant. -/
theorem Pending.answer {s : State} (h : Pending s) (globals : Globals) {r : Request}
    (hr : r.timer = .none) (bytes : Bytes) :
    Pending ⟨globals, s.requests ++ [r], s.sends ++ [⟨s.requests.length, r.socket, bytes⟩]⟩ := by
  have hfirst := h.routed.count_eq_zero (Nat.le_refl s.requests.length)
  refine ⟨(h.routed.grow (grows_append _ _)).send List.getElem?_concat_length hfirst bytes, ?_⟩
  intro k q hq
  by_cases hk : s.requests.length = k
  · subst hk
    cases Option.some.inj (hq.symm.trans List.getElem?_concat_length)
    rw [List.map_append, List.count_append, hfirst, hr]
    simp [Timer.answered]
  · have hlt : k < s.requests.length := by
      have hle := (List.getElem?_eq_some_iff.mp hq).1
      rw [List.length_append, List.length_singleton] at hle
      omega
    rw [List.getElem?_append_left hlt] at hq
    rw [List.map_append, List.count_append, h.sent k q hq]
    simp [hk]

/-- A timer that fires keeps the invariant. -/
theorem Pending.fire {s : State} (h : Pending s) {k : Nat} {r : Request}
    (hr : s.requests[k]? = some r) (harmed : r.timer = .armed) (bytes : Bytes) :
    Pending ⟨s.globals, s.requests.set k { r with timer := .fired },
      s.sends ++ [⟨k, r.socket, bytes⟩]⟩ := by
  obtain ⟨hlt, -⟩ := List.getElem?_eq_some_iff.mp hr
  have hfired : (s.requests.set k { r with timer := .fired })[k]? =
      some { r with timer := .fired } := List.getElem?_set_self hlt
  have hfirst := h.armed k r hr harmed
  refine ⟨(h.routed.grow (grows_set hr .fired)).send hfired hfirst bytes, ?_⟩
  intro j q hq
  by_cases hj : k = j
  · subst hj
    cases Option.some.inj (hq.symm.trans hfired)
    rw [List.map_append, List.count_append, hfirst]
    simp [Timer.answered]
  · rw [List.getElem?_set_ne hj] at hq
    rw [List.map_append, List.count_append, h.sent j q hq]
    simp [hj]

/-- A request with a delay arms a timer or is answered at once. -/
theorem receiver_of_some (s : State) (socket : Nat) {data : Bytes} (heap : Nat) {n : Nat}
    (h : parsedDelay? data = some n) :
    receiver s socket data heap =
      ⟨(s.globals.parse data).build heap,
        s.requests ++ [⟨socket, heap, if 10 ≤ n then .armed else .none⟩],
        if 10 ≤ n then s.sends
        else s.sends ++ [⟨s.requests.length, socket, response heap⟩]⟩ := by
  have hdelay : tonumber (s.globals.parse data).delay = .number n := by
    unfold parsedDelay? at h
    split at h
    · next m hm =>
      cases h
      exact hm
    · cases h
  simp only [receiver, respondDelayed, hdelay]
  by_cases hn : 10 ≤ n
  · simp only [if_pos hn]
  · simp only [if_neg hn]
    rfl

/-- A request whose delay is no number is not answered. -/
theorem receiver_of_none (s : State) (socket : Nat) {data : Bytes} (heap : Nat)
    (h : parsedDelay? data = none) :
    receiver s socket data heap =
      ⟨(s.globals.parse data).build heap, s.requests ++ [⟨socket, heap, .failed⟩],
        s.sends⟩ := by
  simp only [receiver, respondDelayed]
  split
  · next n hn =>
    simp only [parsedDelay?] at h
    change tonumber (parseHeader data delayName) = .number n at hn
    rw [hn] at h
    cases h
  · rfl

/-- What a receive event does to the requests and the sends. -/
theorem receiver_cases (s : State) (socket : Nat) (data : Bytes) (heap : Nat) :
    ∃ globals : Globals, globals.freeHeap = heap ∧ globals.response = response heap ∧
      ((∃ timer : Timer, timer.answered = false ∧ receiver s socket data heap =
          ⟨globals, s.requests ++ [⟨socket, heap, timer⟩], s.sends⟩) ∨
        receiver s socket data heap =
          ⟨globals, s.requests ++ [⟨socket, heap, .none⟩],
            s.sends ++ [⟨s.requests.length, socket, response heap⟩]⟩) := by
  refine ⟨(s.globals.parse data).build heap, rfl, rfl, ?_⟩
  cases h : parsedDelay? data with
  | none => exact Or.inl ⟨.failed, rfl, receiver_of_none s socket heap h⟩
  | some n =>
    rw [receiver_of_some s socket heap h]
    by_cases hn : 10 ≤ n
    · exact Or.inl ⟨.armed, rfl, by simp only [if_pos hn]⟩
    · exact Or.inr (by simp only [if_neg hn])

/-- Only an armed timer fires, and it sends what `response` contains. -/
theorem step_fire {s u : State} {request : Nat} (hu : step s (.fire request) = some u) :
    ∃ r : Request, s.requests[request]? = some r ∧ r.timer = .armed ∧
      u = ⟨s.globals, s.requests.set request { r with timer := .fired },
        s.sends ++ [⟨request, r.socket, s.globals.response⟩]⟩ := by
  rw [step] at hu
  split at hu
  · next socket freeHeap hr => exact ⟨_, hr, rfl, (Option.some.inj hu).symm⟩
  · cases hu

/-- Every event keeps the routing. -/
theorem Pending.step {s u : State} {e : Event} (h : Pending s)
    (hu : Lua.step s e = some u) : Pending u := by
  cases e with
  | receive socket data heap =>
    cases hu
    obtain ⟨globals, -, -, ⟨timer, htimer, hreceive⟩ | hreceive⟩ :=
      receiver_cases s socket data heap
    · rw [hreceive]
      exact h.append globals htimer
    · rw [hreceive]
      exact h.answer globals (r := ⟨socket, heap, .none⟩) rfl (response heap)
  | fire request =>
    obtain ⟨r, hr, harmed, rfl⟩ := step_fire hu
    exact h.fire hr harmed s.globals.response

/-- In every run, whatever the requests, heap values and delays: every receive event leads
to at most one send, and to none on another socket. -/
theorem routed_always (globals : Globals) (es : List Event) :
    Step.Always step (fun s ↦ Routed s.requests s.sends) (.start globals) es :=
  Step.always_of_invariant (I := Pending) (fun _ h ↦ h.routed) (fun _ _ _ h hu ↦ h.step hu)
    (pending_start globals) es

/-! ### The bytes -/

/-- Different heap values make different responses. -/
theorem response_inj {heap₁ heap₂ : Nat} : response heap₁ = response heap₂ ↔ heap₁ = heap₂ := by
  constructor
  · intro h
    have hparsed := congrArg Benchmark.parsResult h
    rw [response_eq, response_eq, Benchmark.parsResult_responseText,
      Benchmark.parsResult_responseText, Option.some.injEq] at hparsed
    exact decimal_inj.mp hparsed
  · rintro rfl
    rfl

/-- Own bytes stay own bytes. -/
theorem OwnBytes.grow {requests requests' : List Request} {sends : List Send}
    (h : OwnBytes requests sends) (hgrows : Grows requests requests') :
    OwnBytes requests' sends := by
  intro x hx
  obtain ⟨r, hr, hbytes⟩ := h x hx
  obtain ⟨r', hr', -, hsame⟩ := hgrows _ _ hr
  exact ⟨r', hr', by rw [hbytes, Request.response, Request.response, hsame]⟩

/-- One more send of own bytes. -/
theorem OwnBytes.send {requests : List Request} {sends : List Send}
    (h : OwnBytes requests sends) {x : Send} {r : Request}
    (hr : requests[x.request]? = some r) (hbytes : x.bytes = r.response) :
    OwnBytes requests (sends ++ [x]) := by
  intro y hy
  rcases List.mem_append.mp hy with hy | hy
  · exact h y hy
  · cases List.mem_singleton.mp hy
    exact ⟨r, hr, hbytes⟩

/-- The invariant of the condition: after the first request, `response` was built for the
value of `free_heap`. -/
structure UpToDate (s : State) : Prop where
  pending : Pending s
  bytes : OwnBytes s.requests s.sends
  built : s.requests ≠ [] → s.globals.response = response s.globals.freeHeap

/-- Before the first request there are no bytes to compare. -/
theorem upToDate_start (globals : Globals) : UpToDate (.start globals) := by
  refine ⟨pending_start globals, ?_, ?_⟩
  · intro x hx
    exact absurd hx List.not_mem_nil
  · intro hne
    exact absurd rfl hne

/-- Every event under the condition keeps the invariant. -/
theorem UpToDate.step {s u : State} {e : Event} (h : UpToDate s)
    (hu : Lua.step s e = some u) (he : SameHeap s e) : UpToDate u := by
  have hpending := h.pending.step hu
  cases e with
  | receive socket data heap =>
    cases hu
    obtain ⟨globals, hheap, hresponse, ⟨timer, -, hreceive⟩ | hreceive⟩ :=
      receiver_cases s socket data heap
    · rw [hreceive] at hpending ⊢
      refine ⟨hpending, h.bytes.grow (grows_append _ _), fun _ ↦ ?_⟩
      exact hresponse.trans (congrArg response hheap.symm)
    · rw [hreceive] at hpending ⊢
      refine ⟨hpending, ?_, fun _ ↦ hresponse.trans (congrArg response hheap.symm)⟩
      exact (h.bytes.grow (grows_append _ _)).send List.getElem?_concat_length rfl
  | fire request =>
    obtain ⟨r, hr, harmed, rfl⟩ := step_fire hu
    obtain ⟨hlt, -⟩ := List.getElem?_eq_some_iff.mp hr
    have hbuilt := h.built (List.ne_nil_of_length_pos (Nat.zero_lt_of_lt hlt))
    refine ⟨hpending, ?_, fun _ ↦ hbuilt⟩
    apply (h.bytes.grow (grows_set hr .fired)).send (List.getElem?_set_self hlt)
    rw [hbuilt, he r hr]
    rfl

/-- A timer that fires while `response` is another request's sends the wrong bytes. -/
theorem UpToDate.sameHeap {s u : State} {e : Event} (h : UpToDate s)
    (hu : Lua.step s e = some u) (hbytes : OwnBytes u.requests u.sends) : SameHeap s e := by
  cases e with
  | receive socket data heap => trivial
  | fire request =>
    obtain ⟨r, hr, harmed, rfl⟩ := step_fire hu
    obtain ⟨hlt, -⟩ := List.getElem?_eq_some_iff.mp hr
    have hbuilt := h.built (List.ne_nil_of_length_pos (Nat.zero_lt_of_lt hlt))
    obtain ⟨q, hq, hsent⟩ := hbytes _ (List.mem_append_right _ List.mem_cons_self)
    cases Option.some.inj (hq.symm.trans (List.getElem?_set_self hlt))
    intro r' hr'
    cases Option.some.inj (hr.symm.trans hr')
    exact response_inj.mp (hbuilt.symm.trans hsent)

/-- For every run of receive events and timers, in any order, with any requests and heap
values: every request is answered at most once, on its own socket, with the response built
for it, in every state of the run if and only if every timer fires while `free_heap` has
the value of its own request. -/
theorem answered_iff_sameHeap (globals : Globals) (es : List Event) (u : State)
    (hrun : Step.run step (.start globals) es = some u) :
    Step.Always step Answered (.start globals) es ↔
      Step.Guarded step SameHeap (.start globals) es :=
  Step.always_iff_guarded (fun _ h ↦ ⟨h.pending.routed, h.bytes⟩)
    (fun _ _ _ h hu he ↦ h.step hu he) (fun _ _ _ h hu hanswered ↦ h.sameHeap hu hanswered.bytes)
    (upToDate_start globals) hrun

/-- The globals when no receive event has assigned them. -/
def unassigned : Globals := ⟨.nil, .nil, .nil, 0, [], 0, []⟩

/-- A request with a delay of 500 ms. -/
def delayedRequest : Bytes := ascii "GET / HTTP/1.1\r\nDelay: 500\r\n\r\n"

/-- A request without a delay. -/
def promptRequest : Bytes := ascii "GET / HTTP/1.1\r\n\r\n"

private theorem parsedDelay?_requests :
    parsedDelay? delayedRequest = some 500 ∧ parsedDelay? promptRequest = some 0 := by
  decide +kernel

/-- A delayed request whose timer fires before the next request. -/
def inOrder : List Event :=
  [.receive 1 delayedRequest 1000, .fire 0, .receive 2 promptRequest 2000]

/-- A request that arrives after another one's timer is answered like that one. -/
theorem answered_inOrder : Step.Always step Answered (.start unassigned) inOrder := by
  obtain ⟨hdelayed, hprompt⟩ := parsedDelay?_requests
  have hrun : ∃ u, Step.run step (.start unassigned) inOrder = some u := by
    simp [inOrder, Step.run_cons, step, receiver_of_some _ _ _ hdelayed, State.start]
  obtain ⟨u, hu⟩ := hrun
  refine (answered_iff_sameHeap unassigned inOrder u hu).mpr ?_
  simp [inOrder, step, SameHeap, State.start,
    receiver_of_some _ _ _ hdelayed, Globals.build]

/-- A delayed request and another one that arrives before its timer fires. -/
def overlapping : List Event :=
  [.receive 1 delayedRequest 1000, .receive 2 promptRequest 2000, .fire 0]

/-- The timer sends the other request's response. -/
theorem not_answered_overlapping :
    ∃ u, Step.run step (.start unassigned) overlapping = some u ∧
      u.sends = [⟨1, 2, response 2000⟩, ⟨0, 1, response 2000⟩] ∧
      u.requests[0]? = some ⟨1, 1000, .fired⟩ ∧ response 2000 ≠ response 1000 ∧
      ¬ Answered u := by
  obtain ⟨hdelayed, hprompt⟩ := parsedDelay?_requests
  have hne : response 2000 ≠ response 1000 := fun h ↦ absurd (response_inj.mp h) (by decide)
  refine ⟨⟨(((unassigned.parse delayedRequest).build 1000).parse promptRequest).build 2000,
    [⟨1, 1000, .fired⟩, ⟨2, 2000, .none⟩], [⟨1, 2, response 2000⟩, ⟨0, 1, response 2000⟩]⟩,
    ?_, rfl, rfl, hne, ?_⟩
  · simp [overlapping, Step.run_cons, step, receiver_of_some _ _ _ hdelayed,
      receiver_of_some _ _ _ hprompt, State.start]
    rfl
  · intro h
    obtain ⟨r, hr, hbytes⟩ := h.bytes _ (List.mem_cons_of_mem _ List.mem_cons_self)
    cases Option.some.inj hr
    exact hne hbytes

end Esp32WebServers.Lua
