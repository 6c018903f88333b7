import Esp32WebServers.System.EndToEnd
import Esp32WebServers.Tasks.NoCopy

/-!
# The Netconn server over a network that loses segments

A connection of the IoT benchmark with a `handle_client` task
(`web_server/c_netconn/main/tcp_server.c:111–162`), whose responses lwIP reads from the task's
array at every transmission. Segments are lost, sent again, delivered twice and out of order;
acknowledgements are cumulative, and a request carries one for all that the client has received
when it writes the request (TCP). A segment that comes too early is as one that comes later.
The calls of the task succeed, as they do while the connection lasts. The array is formatted
again for each response, and still the session gets every byte of every response, because it
asks for nothing before it has read the last one.
-/

namespace Esp32WebServers.CNetconn

open Base

/-- The session at the client's end with the number of bytes that it has received and had
received when it wrote its last request, the bytes of requests that the server has not read, and
the task with its local variables `delay` and `free_heap`. -/
structure Transfer where
  session : Benchmark.Session
  arrived : Nat
  acknowledged : Nat
  requests : List IntDelay
  upstream : Bytes
  task : NoCopy.State
  delay : Option Int
  freeHeap : Option FreeHeap
  waits : List Int
  deriving DecidableEq

namespace Transfer

/-- A connection that has been opened; the array is not initialised. -/
def start (sendBuf : Bytes) : Transfer :=
  ⟨.opened, 0, 0, [], [], .start sendBuf, none, none, []⟩

/-- The session writes a request; the task's calls return; lwIP transmits a part of a response or
gets an acknowledgement; a transmission reaches the client, perhaps once more; a read of the
session returns. -/
inductive Event where
  | request (delay : IntDelay)
  | recv (around : Int × Payload) (count : Nat)
  | snprintf (heap : FreeHeap)
  | write
  | transmit (response offset length : Nat)
  | ack (response upTo : Nat)
  | arrive (transmission : Nat)
  | read
  | readOne

/-- Where a response begins in the stream of the server. -/
def offset (responses : List NoCopy.Response) (k : Nat) : Nat :=
  ((responses.take k).map NoCopy.Response.queued).sum

/-- The stream that the responses should make. -/
def stream (responses : List NoCopy.Response) : Bytes :=
  responses.flatMap NoCopy.Response.text

/-- A cumulative acknowledgement. -/
def acknowledge : List NoCopy.Response → Nat → List NoCopy.Response
  | [], _ => []
  | r :: rs, upTo =>
    { r with acked := max r.acked (min r.queued upTo) } :: acknowledge rs (upTo - r.queued)

/-- `writer.write(message)`; the segment of the request acknowledges what has been received. -/
def request (t : Transfer) (delay : IntDelay) : Transfer :=
  { t with
    session := { t.session with phase := .read }
    acknowledged := t.arrived
    requests := t.requests ++ [delay]
    upstream := t.upstream ++ Benchmark.Client.iot.message delay.val }

/-- `netconn_recv` with a netbuf of some bytes, and `get_header_value`. With the last byte of the
last request its acknowledgement has come. -/
def recv (t : Transfer) (around : Int × Payload) (count : Nat) : Option Transfer :=
  if 0 < count ∧ count ≤ t.upstream.length ∧
      server.admits around (t.upstream.take count) = true then
    (NoCopy.step t.task (.recv true)).bind fun task ↦
      (server.receive () around (t.upstream.take count)).map fun result ↦
        { t with
          upstream := t.upstream.drop count
          task := if count = t.upstream.length then
            { task with responses := acknowledge task.responses t.acknowledged } else task
          delay := result.2 }
  else none

/-- `esp_get_free_heap_size` and `snprintf`. -/
def snprintf (t : Transfer) (heap : FreeHeap) : Option Transfer :=
  (NoCopy.step t.task (.snprintf heap.val)).map fun task ↦ { t with task, freeHeap := some heap }

/-- `netconn_write` of the whole text. -/
def write (t : Transfer) : Option Transfer :=
  t.freeHeap.bind fun heap ↦ t.delay.bind fun delay ↦
    (NoCopy.step t.task (.write (upToNul t.task.sendBuf).length true)).map fun task ↦
      { t with
        session := { t.session with heaps := t.session.heaps ++ [heap.val] }
        task
        delay := none
        freeHeap := none
        waits := t.waits ++ [waited delay] }

/-- A transmission that has the next byte of the stream goes on with it from there. -/
def arrive (t : Transfer) (x : NoCopy.Transmission) : Option Transfer :=
  let position := offset t.task.responses x.response + x.offset
  if position ≤ t.arrived ∧ t.arrived < position + x.length then
    x.read.map fun bytes ↦
      { t with
        session := { t.session with
          buffer := t.session.buffer ++ bytes.drop (t.arrived - position) }
        arrived := position + x.length }
  else none

/-- The events, one at a time, where they can happen. -/
def step : Step Transfer Event
  | t, .request delay => if t.session.phase = .request then some (t.request delay) else none
  | t, .recv around count => t.recv around count
  | t, .snprintf heap => t.snprintf heap
  | t, .write => t.write
  | t, .transmit response offset length =>
    (NoCopy.step t.task (.transmit response offset length)).map fun task ↦ { t with task }
  | t, .ack response upTo =>
    if offset t.task.responses response + upTo ≤ t.arrived then
      (NoCopy.step t.task (.ack response upTo)).map fun task ↦ { t with task }
    else none
  | t, .arrive transmission => (t.task.wire[transmission]?).bind t.arrive
  | t, .read => (t.session.act .iot .read).map fun session ↦ { t with session }
  | t, .readOne => (t.session.act .iot .readOne).map fun session ↦ { t with session }

/-- The connection as one that delivers the stream: what has not arrived is under way. -/
def link (t : Transfer) : Link Unit :=
  ⟨{ t.session with inFlight := (stream t.task.responses).drop t.arrived }, t.requests,
    t.upstream, (), t.delay, t.waits⟩

/-- What an event is for that connection; transmissions and acknowledgements are nothing. -/
def label (t : Transfer) : Event → Option (Link.Event (Int × Payload))
  | .request delay => some (.request delay)
  | .recv around count => some (.receive around count)
  | .snprintf _ => none
  | .write => t.freeHeap.map .respond
  | .transmit _ _ _ => none
  | .ack _ _ => none
  | .arrive transmission => (t.task.wire[transmission]?).map fun x ↦
    .arrive (offset t.task.responses x.response + x.offset + x.length - t.arrived)
  | .read => some .read
  | .readOne => some .readOne

/-- A read of the server takes the whole request. -/
def WholeRequests (t : Transfer) : Event → Prop
  | .recv _ count => count = t.upstream.length
  | _ => True

/-- So does a read of the session: it returns when the whole response has arrived. -/
def WholeReads (t : Transfer) : Event → Prop
  | .recv _ count => count = t.upstream.length
  | .read => (stream t.task.responses).length ≤ t.arrived
  | _ => True

/-! ### The stream -/

section Stream

variable {rs rs' : List NoCopy.Response} {r : NoCopy.Response}

/-- The same responses, whatever has been transmitted and acknowledged of them. -/
structure Same (rs rs' : List NoCopy.Response) : Prop where
  text : rs'.map NoCopy.Response.text = rs.map NoCopy.Response.text
  queued : rs'.map NoCopy.Response.queued = rs.map NoCopy.Response.queued

/-- Every response is queued as a whole. -/
def Full (rs : List NoCopy.Response) : Prop :=
  rs.map NoCopy.Response.queued = rs.map fun r ↦ r.text.length

/-- The same responses make the same stream. -/
theorem Same.stream (h : Same rs rs') : stream rs' = stream rs := by
  rw [Transfer.stream, Transfer.stream, List.flatMap_def, List.flatMap_def, h.text]

/-- The same responses begin at the same places. -/
theorem Same.offset (h : Same rs rs') (k : Nat) : offset rs' k = offset rs k := by
  rw [Transfer.offset, Transfer.offset, List.map_take, List.map_take, h.queued]

/-- The same responses are queued as a whole. -/
theorem Same.full (h : Same rs rs') (hfull : Full rs) : Full rs' := by
  have hlengths (qs : List NoCopy.Response) : qs.map (fun r ↦ r.text.length) =
      (qs.map NoCopy.Response.text).map List.length := by
    rw [List.map_map]
    rfl
  rw [Full, h.queued, hlengths, h.text, ← hlengths]
  exact hfull

private theorem map_set_eq {β : Type} {f : NoCopy.Response → β} {k : Nat} {r' : NoCopy.Response}
    (hr : rs[k]? = some r) (h : f r' = f r) : (rs.set k r').map f = rs.map f := by
  obtain ⟨hlt, rfl⟩ := List.getElem?_eq_some_iff.mp hr
  have hlength : k < (rs.map f).length := by rwa [List.length_map]
  have hget : (rs.map f)[k] = f rs[k] := List.getElem_map f
  rw [List.map_set, h, ← hget, List.set_getElem_self]

/-- A response in the place of one with its text and its bytes queued. -/
theorem same_set {k : Nat} {r' : NoCopy.Response} (hr : rs[k]? = some r) (htext : r'.text = r.text)
    (hqueued : r'.queued = r.queued) : Same rs (rs.set k r') :=
  ⟨map_set_eq hr htext, map_set_eq hr hqueued⟩

/-- An acknowledgement leaves the responses the same. -/
theorem same_acknowledge (rs : List NoCopy.Response) (upTo : Nat) :
    Same rs (acknowledge rs upTo) := by
  induction rs generalizing upTo with
  | nil => exact ⟨rfl, rfl⟩
  | cons r rs ih =>
    obtain ⟨htext, hqueued⟩ := ih (upTo - r.queued)
    constructor
    · rw [acknowledge, List.map_cons, List.map_cons, htext]
    · rw [acknowledge, List.map_cons, List.map_cons, hqueued]

/-- In place of every response there is the same one. -/
theorem Same.exists (h : Same rs rs') {k : Nat} (hr : rs[k]? = some r) :
    ∃ r', rs'[k]? = some r' ∧ r'.text = r.text ∧ r'.queued = r.queued := by
  have htext := congrArg (fun texts ↦ texts[k]?) h.text
  have hqueued := congrArg (fun queued ↦ queued[k]?) h.queued
  simp only [List.getElem?_map, hr, Option.map_some, Option.map_eq_some_iff] at htext hqueued
  obtain ⟨r', hr', htext⟩ := htext
  rw [hr'] at hqueued
  exact ⟨r', hr', htext, by simpa using hqueued⟩

/-- An acknowledgement moves every response on. -/
theorem exists_acknowledge (rs : List NoCopy.Response) (upTo : Nat) {k : Nat}
    {r : NoCopy.Response} (hr : rs[k]? = some r) :
    ∃ r', (acknowledge rs upTo)[k]? = some r' ∧ r.Later r' := by
  induction rs generalizing upTo k with
  | nil => cases hr
  | cons q rs ih =>
    cases k with
    | zero =>
      cases hr
      refine ⟨_, rfl, rfl, rfl, fun i hi hacked ↦ ?_⟩
      exact (Nat.le_max_left _ _).trans hacked
    | succ k => exact ih (upTo - q.queued) hr

/-- An acknowledgement of the whole stream acknowledges every response. -/
theorem acked_acknowledge (rs : List NoCopy.Response) {upTo : Nat}
    (h : (rs.map NoCopy.Response.queued).sum ≤ upTo) :
    ∀ r ∈ acknowledge rs upTo, r.queued ≤ r.acked := by
  induction rs generalizing upTo with
  | nil => exact List.forall_mem_nil _
  | cons q rs ih =>
    rw [List.map_cons, List.sum_cons] at h
    rw [acknowledge, List.forall_mem_cons]
    refine ⟨?_, ih (by omega)⟩
    simp only
    omega

/-- The stream is as long as what is queued. -/
theorem length_stream (h : Full rs) :
    (stream rs).length = (rs.map NoCopy.Response.queued).sum := by
  rw [h, stream, List.length_flatMap]

/-- The stream from a byte of a response on. -/
theorem drop_stream (h : Full rs) {k : Nat} (hr : rs[k]? = some r) {j : Nat}
    (hj : j ≤ r.text.length) :
    ∃ rest, (stream rs).drop (offset rs k + j) = r.text.drop j ++ rest ∧
      offset rs k + r.text.length ≤ (stream rs).length := by
  induction rs generalizing k with
  | nil => cases hr
  | cons q rs ih =>
    obtain ⟨hq, hrs⟩ := List.cons.inj h
    have hstream : stream (q :: rs) = q.text ++ stream rs := List.flatMap_cons
    cases k with
    | zero =>
      cases hr
      refine ⟨stream rs, ?_, ?_⟩
      · rw [hstream, offset, List.take_zero, List.map_nil, List.sum_nil, Nat.zero_add,
          List.drop_append_of_le_length hj]
      · rw [hstream, offset, List.take_zero, List.map_nil, List.sum_nil, Nat.zero_add,
          List.length_append]
        exact Nat.le_add_right _ _
    | succ k =>
      obtain ⟨rest, hdrop, hle⟩ := ih hrs hr
      have hoffset : offset (q :: rs) (k + 1) = q.text.length + offset rs k := by
        rw [offset, List.take_succ_cons, List.map_cons, List.sum_cons, hq]
        rfl
      refine ⟨rest, ?_, ?_⟩
      · rw [hstream, hoffset, Nat.add_assoc, ← List.drop_drop, List.drop_left, hdrop]
      · rw [hstream, hoffset, List.length_append]
        omega

end Stream

/-! ### The events -/

section Events

variable {t u : Transfer} {s s' : NoCopy.State}

/-- What a read of the server needs and does. -/
theorem recv_eq_some {around : Int × Payload} {count : Nat} (h : t.recv around count = some u) :
    0 < count ∧ count ≤ t.upstream.length ∧
      server.admits around (t.upstream.take count) = true ∧ t.task.pc = .recv ∧
      ∃ result, server.receive () around (t.upstream.take count) = some result ∧
        u = { t with
          upstream := t.upstream.drop count
          task := if count = t.upstream.length then
            { t.task with
              pc := .snprintf
              responses := acknowledge t.task.responses t.acknowledged }
            else { t.task with pc := .snprintf }
          delay := result.2 } := by
  simp only [recv, NoCopy.step, Option.ite_none_right_eq_some, Option.bind_eq_some_iff,
    Option.map_eq_some_iff, Option.some.injEq] at h
  obtain ⟨⟨hpos, hle, hadmits⟩, task, ⟨hpc, rfl⟩, result, hresult, rfl⟩ := h
  exact ⟨hpos, hle, hadmits, hpc, result, hresult, rfl⟩

/-- What formatting a response needs and does. -/
theorem snprintf_eq_some {heap : FreeHeap} (h : t.snprintf heap = some u) :
    t.task.pc = .snprintf ∧
      u = { t with
        task := { t.task with
          pc := .write
          sendBuf := storeString (response heap.val) t.task.sendBuf
          formatted := response heap.val }
        freeHeap := some heap } := by
  simp only [snprintf, NoCopy.step, Option.map_eq_some_iff, Option.ite_none_right_eq_some,
    Option.some.injEq] at h
  obtain ⟨task, ⟨hpc, rfl⟩, rfl⟩ := h
  exact ⟨hpc, rfl⟩

/-- What writing a response needs and does. -/
theorem write_eq_some (h : t.write = some u) :
    ∃ heap delay, t.freeHeap = some heap ∧ t.delay = some delay ∧ t.task.pc = .write ∧
      u = { t with
        session := { t.session with heaps := t.session.heaps ++ [heap.val] }
        task := { t.task with
          pc := .recv
          responses := t.task.responses ++
            [⟨t.task.formatted, (upToNul t.task.sendBuf).length, 0, 0⟩] }
        delay := none
        freeHeap := none
        waits := t.waits ++ [waited delay] } := by
  simp only [write, NoCopy.step, Option.bind_eq_some_iff, Option.map_eq_some_iff,
    Option.ite_none_right_eq_some, Option.some.injEq] at h
  obtain ⟨heap, hheap, delay, hdelay, task, ⟨⟨hpc, -⟩, rfl⟩, rfl⟩ := h
  exact ⟨heap, delay, hheap, hdelay, hpc, rfl⟩

/-- What the arrival of a transmission needs and does. -/
theorem arrive_eq_some {x : NoCopy.Transmission} (h : t.arrive x = some u) :
    offset t.task.responses x.response + x.offset ≤ t.arrived ∧
      t.arrived < offset t.task.responses x.response + x.offset + x.length ∧
      ∃ bytes, x.read = some bytes ∧
        u = { t with
          session := { t.session with
            buffer := t.session.buffer ++
              bytes.drop (t.arrived - (offset t.task.responses x.response + x.offset)) }
          arrived := offset t.task.responses x.response + x.offset + x.length } := by
  simp only [arrive, Option.ite_none_right_eq_some, Option.map_eq_some_iff] at h
  obtain ⟨⟨hle, hlt⟩, bytes, hread, rfl⟩ := h
  exact ⟨hle, hlt, bytes, hread, rfl⟩

/-- What lwIP does on its own: the task stays where it is, responses stay what they are and
acknowledged, and what is transmitted is a part of one. -/
structure Moved (s s' : NoCopy.State) : Prop where
  pc : s'.pc = s.pc
  formatted : s'.formatted = s.formatted
  same : Same s.responses s'.responses
  acked : (∀ r ∈ s.responses, r.queued ≤ r.acked) → ∀ r ∈ s'.responses, r.queued ≤ r.acked
  wire : ∀ x ∈ s'.wire, x ∈ s.wire ∨
    ∃ r, s.responses[x.response]? = some r ∧ x.offset + x.length ≤ r.queued

/-- A transmission moves lwIP. -/
theorem moved_transmit {k offset length : Nat}
    (h : NoCopy.step s (.transmit k offset length) = some s') : Moved s s' := by
  rw [NoCopy.step] at h
  split at h
  · cases h
  · next r hr =>
    rw [Option.ite_none_right_eq_some, Option.some.injEq] at h
    obtain ⟨⟨-, -, hle⟩, rfl⟩ := h
    refine ⟨rfl, rfl, same_set hr rfl rfl, ?_, ?_⟩
    · intro hacked q hq
      rcases List.mem_or_eq_of_mem_set hq with hold | rfl
      · exact hacked q hold
      · exact hacked r (List.mem_of_getElem? hr)
    · intro x hx
      rcases List.mem_append.mp hx with hold | hnew
      · exact .inl hold
      · cases List.mem_singleton.mp hnew
        exact .inr ⟨r, hr, hle⟩

/-- An acknowledgement moves lwIP. -/
theorem moved_ack {k upTo : Nat} (h : NoCopy.step s (.ack k upTo) = some s') : Moved s s' := by
  rw [NoCopy.step] at h
  split at h
  · cases h
  · next r hr =>
    rw [Option.ite_none_right_eq_some, Option.some.injEq] at h
    obtain ⟨⟨hle, -⟩, rfl⟩ := h
    refine ⟨rfl, rfl, same_set hr rfl rfl, ?_, fun x hx ↦ .inl hx⟩
    intro hacked q hq
    rcases List.mem_or_eq_of_mem_set hq with hold | rfl
    · exact hacked q hold
    · exact (hacked r (List.mem_of_getElem? hr)).trans hle

end Events

/-! ### The invariant -/

section Safe

variable {t u : Transfer} {s s' : NoCopy.State}

/-- The session was given a part of a response and has ended, with nothing to be done. -/
structure Over (t : Transfer) : Prop where
  ended : t.session.phase = .ended
  delay : t.delay = none
  upstream : t.upstream = []

/-- The invariant: lwIP reads the texts that were formatted; a task that formats a response has
those before acknowledged; the request that lies unread acknowledges all of them; and the
connection without its transmissions is clean, or over. -/
structure Safe (t : Transfer) : Prop where
  owned : NoCopy.Owned t.task
  full : Full t.task.responses
  sized : ∀ x ∈ t.task.wire, ∃ r, t.task.responses[x.response]? = some r ∧
    x.offset + x.length ≤ r.queued
  arrived : t.arrived ≤ (stream t.task.responses).length
  recv : t.task.pc = .recv → t.delay = none
  snprintf : t.task.pc = .snprintf → ∀ r ∈ t.task.responses, r.queued ≤ r.acked
  write : t.task.pc = .write → ∃ heap, t.freeHeap = some heap ∧
    t.task.formatted = response heap.val
  acknowledged : t.upstream ≠ [] → (stream t.task.responses).length ≤ t.acknowledged
  clean : Link.Clean .iot server t.link ∨ Over t

/-- Parts of responses are parts of the same responses later on. -/
theorem sized_same {rs rs' : List NoCopy.Response} (h : Same rs rs') {x : NoCopy.Transmission}
    (hx : ∃ r, rs[x.response]? = some r ∧ x.offset + x.length ≤ r.queued) :
    ∃ r, rs'[x.response]? = some r ∧ x.offset + x.length ≤ r.queued := by
  obtain ⟨r, hr, hle⟩ := hx
  obtain ⟨r', hr', -, hqueued⟩ := h.exists hr
  exact ⟨r', hr', hqueued ▸ hle⟩

/-- The same responses leave the connection as it is. -/
theorem link_same (h : Same t.task.responses s'.responses) :
    link { t with task := s' } = t.link := by
  simp only [link, h.stream]

/-- What lwIP does on its own keeps the invariant. -/
theorem Safe.moved (ht : Safe t) (h : Moved t.task s') (hs' : NoCopy.Owned s') :
    Safe { t with task := s' } where
  owned := hs'
  full := h.same.full ht.full
  sized x hx := by
    rcases h.wire x hx with hold | hnew
    · exact sized_same h.same (ht.sized x hold)
    · exact sized_same h.same hnew
  arrived := h.same.stream ▸ ht.arrived
  recv hpc := ht.recv (h.pc ▸ hpc)
  snprintf hpc := h.acked (ht.snprintf (h.pc ▸ hpc))
  write hpc := by
    obtain ⟨heap, hheap, hformatted⟩ := ht.write (h.pc ▸ hpc)
    exact ⟨heap, hheap, h.formatted.trans hformatted⟩
  acknowledged hne := h.same.stream ▸ ht.acknowledged hne
  clean := by
    rcases ht.clean with hclean | hover
    · exact .inl (link_same h.same ▸ hclean)
    · exact .inr ⟨hover.ended, hover.delay, hover.upstream⟩

/-- An acknowledgement keeps lwIP's references good. -/
theorem owned_acknowledge (h : NoCopy.Owned s) (upTo : Nat) :
    NoCopy.Owned { s with responses := acknowledge s.responses upTo } := by
  have hsame := same_acknowledge s.responses upTo
  apply h.later
  · intro r' hr'
    obtain ⟨k, hk⟩ := List.mem_iff_getElem?.mp hr'
    have hlength := congrArg List.length hsame.text
    rw [List.length_map, List.length_map] at hlength
    obtain ⟨hlt, -⟩ := List.getElem?_eq_some_iff.mp hk
    have hr : s.responses[k]? = some s.responses[k] := List.getElem?_eq_getElem _
    obtain ⟨r'', hr'', hlater⟩ := exists_acknowledge s.responses upTo hr
    cases Option.some.inj (hk.symm.trans hr'')
    exact ⟨_, List.mem_of_getElem? hr, hlater⟩
  · intro k r hr
    obtain ⟨r', hr', hlater⟩ := exists_acknowledge s.responses upTo hr
    exact ⟨r', hr', hlater.text⟩

/-- A request finds every response arrived, and acknowledges them. -/
theorem Safe.request (ht : Safe t) (hphase : t.session.phase = .request) (delay : IntDelay) :
    Safe (t.request delay) := by
  have hclean : Link.Clean .iot server t.link := by
    rcases ht.clean with hclean | hover
    · exact hclean
    · cases hphase.symm.trans hover.ended
  refine ⟨ht.owned, ht.full, ht.sized, ht.arrived, ht.recv, ht.snprintf, ht.write, ?_, ?_⟩
  · intro _
    have hidle := hclean.inFlight_eq_nil hphase
    exact List.drop_eq_nil_iff.mp hidle
  · exact .inl (hclean.request hphase delay)

/-- A read of a whole request is one of the connection. -/
theorem link_recv {around : Int × Payload} {count : Nat} (hdelay : t.delay = none)
    (h : t.recv around count = some u) :
    Link.step .iot server t.link (.receive around count) = some u.link := by
  obtain ⟨hpos, hle, hadmits, hpc, result, hresult, rfl⟩ := recv_eq_some h
  rw [Link.step, if_pos ⟨hdelay, hpos, hle, hadmits⟩]
  change Option.map (t.link.receive count) (server.receive () around (t.upstream.take count)) = _
  rw [hresult, Option.map_some, Option.some.injEq]
  have hstream := (same_acknowledge t.task.responses t.acknowledged).stream
  by_cases hwhole : count = t.upstream.length
  · simp only [link, Link.receive, if_pos hwhole, hstream]
  · simp only [link, Link.receive, if_neg hwhole]

/-- The request that is read acknowledges every response. -/
theorem Safe.recvs (ht : Safe t) {around : Int × Payload} {count : Nat}
    (h : t.recv around count = some u) (hwhole : count = t.upstream.length) : Safe u := by
  obtain ⟨hpos, hle, -, hpc, result, -, hu⟩ := recv_eq_some h
  rw [if_pos hwhole] at hu
  have hsame := same_acknowledge t.task.responses t.acknowledged
  have hne : t.upstream ≠ [] := List.length_pos_iff.mp (hwhole ▸ hpos)
  have hlink := link_recv (ht.recv hpc) h
  have howned : NoCopy.Owned { t.task with pc := .snprintf } :=
    ht.owned.step (e := .recv true) (by rw [NoCopy.step, if_pos hpc, if_pos rfl]) trivial
  have hclean : Link.Clean .iot server u.link := by
    rcases ht.clean with hclean | hover
    · exact hclean.step server_understands hlink hwhole
    · exact absurd hover.upstream hne
  subst hu
  refine ⟨owned_acknowledge howned t.acknowledged, hsame.full ht.full, ?_, ?_, ?_, ?_, ?_, ?_,
    .inl hclean⟩
  · intro x hx
    exact sized_same hsame (ht.sized x hx)
  · exact hsame.stream ▸ ht.arrived
  · intro hrecv
    cases hrecv
  · intro _
    apply acked_acknowledge
    rw [← length_stream ht.full]
    exact ht.acknowledged hne
  · intro hwrite
    cases hwrite
  · intro hrest
    rw [hwhole, List.drop_length] at hrest
    exact absurd rfl hrest

/-- A response is formatted when those before are acknowledged. -/
theorem Safe.snprintfs (ht : Safe t) {heap : FreeHeap} (h : t.snprintf heap = some u) :
    Safe u := by
  obtain ⟨hpc, rfl⟩ := snprintf_eq_some h
  have hdone := ht.snprintf hpc
  refine ⟨?_, ht.full, ht.sized, ht.arrived, ?_, ?_, ?_, ht.acknowledged, ?_⟩
  · exact ht.owned.snprintf (CBsd.nulFree_response heap.val)
      (NoCopy.undisturbed_of_acked hdone heap.val)
  · intro hrecv
    cases hrecv
  · intro hsnprintf
    cases hsnprintf
  · intro _
    refine ⟨heap, rfl, ?_⟩
    simp only
  · rcases ht.clean with hclean | hover
    · exact .inl hclean
    · exact .inr ⟨hover.ended, hover.delay, hover.upstream⟩

private theorem server_respond (heap : UInt32) : server.respond heap = response heap := by
  simp only [server, Server.ofHandler]

/-- The stream grows by the text of the response. -/
theorem stream_append (rs : List NoCopy.Response) (r : NoCopy.Response) :
    stream (rs ++ [r]) = stream rs ++ r.text := by
  rw [stream, List.flatMap_append, List.flatMap_singleton]
  rfl

/-- A response that is written is one of the connection. -/
theorem Safe.link_write (ht : Safe t) (h : t.write = some u) :
    ∃ heap, t.freeHeap = some heap ∧
      Link.step .iot server t.link (.respond heap) = some u.link := by
  obtain ⟨heap, delay, hheap, hdelay, hpc, rfl⟩ := write_eq_some h
  obtain ⟨heap', hheap', hformatted⟩ := ht.write hpc
  cases hheap.symm.trans hheap'
  refine ⟨heap, hheap, ?_⟩
  rw [Link.step]
  change Option.map (t.link.respond server heap) t.delay = _
  rw [hdelay, Option.map_some, Option.some.injEq]
  simp only [link, Link.respond, stream_append, List.drop_append_of_le_length ht.arrived,
    hformatted, server_respond]

/-- A response is written as a whole, and lwIP gets a reference to it. -/
theorem Safe.writes (ht : Safe t) (h : t.write = some u) : Safe u := by
  obtain ⟨heap, hheap, hlink⟩ := ht.link_write h
  obtain ⟨heap', delay, -, hdelay, hpc, hu⟩ := write_eq_some h
  obtain ⟨hnul, old, hbuf⟩ := ht.owned.writing hpc
  have hlength : (upToNul t.task.sendBuf).length = t.task.formatted.length := by
    rw [hbuf, upToNul_storeString old hnul]
  have howned : NoCopy.Owned { t.task with
      pc := .recv
      responses := t.task.responses ++
        [⟨t.task.formatted, (upToNul t.task.sendBuf).length, 0, 0⟩] } :=
    ht.owned.step (e := .write (upToNul t.task.sendBuf).length true)
      (by rw [NoCopy.step, if_pos ⟨hpc, Nat.le_refl _, fun _ ↦ rfl⟩, if_pos rfl]) trivial
  have hidle : Link.Clean .iot server t.link ∧ t.upstream = [] := by
    rcases ht.clean with hclean | hover
    · exact ⟨hclean, hclean.upstream_eq_nil hdelay⟩
    · cases hdelay.symm.trans hover.delay
  have hclean : Link.Clean .iot server u.link := hidle.1.step server_understands hlink trivial
  subst hu
  refine ⟨howned, ?_, ?_, ?_, fun _ ↦ rfl, ?_, ?_, ?_, .inl hclean⟩
  · rw [Full, List.map_append, List.map_append, ht.full, List.map_singleton, List.map_singleton,
      hlength]
  · intro x hx
    obtain ⟨r, hr, hle⟩ := ht.sized x hx
    obtain ⟨hlt, -⟩ := List.getElem?_eq_some_iff.mp hr
    exact ⟨r, by rw [List.getElem?_append_left hlt, hr], hle⟩
  · rw [stream_append, List.length_append]
    exact Nat.le_add_right_of_le ht.arrived
  · intro hsnprintf
    cases hsnprintf
  · intro hwrite
    cases hwrite
  · intro hne
    exact absurd hidle.2 hne

/-- What a transmission adds is the next part of the stream. -/
theorem Safe.arrivals (ht : Safe t) {x : NoCopy.Transmission} (hx : x ∈ t.task.wire)
    {bytes : Bytes} (hread : x.read = some bytes) {position : Nat}
    (hposition : position = offset t.task.responses x.response + x.offset)
    (hle : position ≤ t.arrived) (hlt : t.arrived < position + x.length) :
    bytes.drop (t.arrived - position) =
        ((stream t.task.responses).drop t.arrived).take (position + x.length - t.arrived) ∧
      position + x.length ≤ (stream t.task.responses).length := by
  obtain ⟨r, hr, hqueued⟩ := ht.sized x hx
  obtain ⟨r', hr', hslice⟩ := ht.owned.sent x hx
  cases Option.some.inj (hr.symm.trans hr')
  cases Option.some.inj (hread.symm.trans hslice)
  have hlength := (ht.owned.texts r (List.mem_of_getElem? hr)).2
  obtain ⟨rest, hdrop, hend⟩ := drop_stream ht.full hr
    (j := x.offset + (t.arrived - position)) (by omega)
  have harrived : t.arrived =
      offset t.task.responses x.response + (x.offset + (t.arrived - position)) := by omega
  constructor
  · rw [← harrived] at hdrop
    rw [hdrop, NoCopy.Response.slice, List.drop_take, List.drop_drop,
      List.take_append_of_le_length]
    · congr 1
      omega
    · rw [List.length_drop]
      omega
  · omega

/-- The arrival of a transmission is one of the connection. -/
theorem Safe.link_arrive (ht : Safe t) {x : NoCopy.Transmission} (hx : x ∈ t.task.wire)
    (h : t.arrive x = some u) :
    Link.step .iot server t.link
        (.arrive (offset t.task.responses x.response + x.offset + x.length - t.arrived)) =
      some u.link := by
  obtain ⟨hle, hlt, bytes, hread, rfl⟩ := arrive_eq_some h
  obtain ⟨hbytes, hend⟩ := ht.arrivals hx hread rfl hle hlt
  have hcount : 0 < offset t.task.responses x.response + x.offset + x.length - t.arrived ∧
      offset t.task.responses x.response + x.offset + x.length - t.arrived ≤
        t.link.session.inFlight.length := by
    simp only [link, List.length_drop]
    omega
  have hsum : t.arrived +
      (offset t.task.responses x.response + x.offset + x.length - t.arrived) =
        offset t.task.responses x.response + x.offset + x.length := by omega
  rw [Link.step, Benchmark.Session.act, if_pos hcount, Option.map_some, Option.some.injEq]
  simp only [link, Link.withSession, Benchmark.Session.arrive, List.drop_drop, hsum, hbytes]

/-- A transmission that arrives keeps the invariant. -/
theorem Safe.arrives (ht : Safe t) {x : NoCopy.Transmission} (hx : x ∈ t.task.wire)
    (h : t.arrive x = some u) : Safe u := by
  have hlink := ht.link_arrive hx h
  obtain ⟨hle, hlt, bytes, hread, hu⟩ := arrive_eq_some h
  obtain ⟨-, hend⟩ := ht.arrivals hx hread rfl hle hlt
  have hclean : Link.Clean .iot server u.link ∨ Over u := by
    rcases ht.clean with hclean | hover
    · exact .inl (hclean.step server_understands hlink trivial)
    · subst hu
      exact .inr ⟨hover.ended, hover.delay, hover.upstream⟩
  subst hu
  exact ⟨ht.owned, ht.full, ht.sized, hend, ht.recv, ht.snprintf, ht.write, ht.acknowledged,
    hclean⟩

private theorem read_inFlight (x : Benchmark.Session) (inFlight : Bytes) :
    Benchmark.Session.read .iot { x with inFlight } =
      { x.read .iot with inFlight } := by
  simp only [Benchmark.Session.read]
  split <;> rfl

/-- A read of the session is one of the connection. -/
theorem link_read {session : Benchmark.Session} (h : t.session.act .iot .read = some session) :
    Link.step .iot server t.link .read = some (link { t with session }) := by
  rw [Benchmark.Session.act, Option.ite_none_right_eq_some, Option.some.injEq] at h
  obtain ⟨⟨hphase, hbuffer⟩, rfl⟩ := h
  rw [Link.step_read hphase hbuffer, Option.some.injEq]
  simp only [link, Link.withSession, read_inFlight]

/-- A read of the session keeps the invariant: it returns a whole response, or ends the session. -/
theorem Safe.reads (ht : Safe t) {session : Benchmark.Session}
    (h : t.session.act .iot .read = some session) : Safe { t with session } := by
  have hlink := link_read h
  rw [Benchmark.Session.act, Option.ite_none_right_eq_some, Option.some.injEq] at h
  obtain ⟨⟨hphase, hbuffer⟩, rfl⟩ := h
  refine ⟨ht.owned, ht.full, ht.sized, ht.arrived, ht.recv, ht.snprintf, ht.write,
    ht.acknowledged, ?_⟩
  rcases ht.clean with hclean | hover
  · by_cases hwhole : t.link.session.inFlight = []
    · exact .inl (hclean.step server_understands hlink hwhole)
    · obtain ⟨hended, hdelay, hupstream⟩ := hclean.read_ended hphase hbuffer hwhole
      refine .inr ⟨?_, hdelay, hupstream⟩
      simp only [link, read_inFlight] at hended
      exact hended
  · cases hphase.symm.trans hover.ended

/-- A session of the IoT benchmark reads no single bytes. -/
theorem Safe.readsOne (ht : Safe t) {session : Benchmark.Session}
    (h : t.session.act .iot .readOne = some session) : Safe { t with session } := by
  rw [Benchmark.Session.act, Option.ite_none_right_eq_some] at h
  obtain ⟨⟨hphase, hbuffer⟩, -⟩ := h
  rcases ht.clean with hclean | hover
  · exact absurd (hclean.not_readOne hphase) hbuffer
  · cases hphase.symm.trans hover.ended

/-- Events with whole requests keep the invariant. -/
theorem Safe.step (ht : Safe t) {e : Event} (h : Transfer.step t e = some u)
    (hwhole : WholeRequests t e) : Safe u := by
  cases e with
  | request delay =>
    simp only [Transfer.step, Option.ite_none_right_eq_some, Option.some.injEq] at h
    obtain ⟨hphase, rfl⟩ := h
    exact ht.request hphase delay
  | recv around count => exact ht.recvs h hwhole
  | snprintf heap => exact ht.snprintfs h
  | write => exact ht.writes h
  | transmit k offset length =>
    obtain ⟨task, htask, rfl⟩ := Option.map_eq_some_iff.mp h
    exact ht.moved (moved_transmit htask) (ht.owned.step htask trivial)
  | ack k upTo =>
    simp only [Transfer.step, Option.ite_none_right_eq_some, Option.map_eq_some_iff] at h
    obtain ⟨-, task, htask, rfl⟩ := h
    exact ht.moved (moved_ack htask) (ht.owned.step htask trivial)
  | arrive transmission =>
    obtain ⟨x, hx, harrive⟩ := Option.bind_eq_some_iff.mp h
    exact ht.arrives (List.mem_of_getElem? hx) harrive
  | read =>
    obtain ⟨session, hact, rfl⟩ := Option.map_eq_some_iff.mp h
    exact ht.reads hact
  | readOne =>
    obtain ⟨session, hact, rfl⟩ := Option.map_eq_some_iff.mp h
    exact ht.readsOne hact

/-- Whole reads are whole requests. -/
theorem WholeReads.requests {e : Event} (h : WholeReads t e) : WholeRequests t e := by
  cases e with
  | recv around count => exact h
  | request delay => exact trivial
  | snprintf heap => exact trivial
  | write => exact trivial
  | transmit k offset length => exact trivial
  | ack k upTo => exact trivial
  | arrive transmission => exact trivial
  | read => exact trivial
  | readOne => exact trivial

end Safe

section Resent

variable (around : Int × Payload) (delay : IntDelay) (heap : FreeHeap) {text : Bytes}

end Resent

end Transfer

end Esp32WebServers.CNetconn
