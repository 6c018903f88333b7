import Esp32WebServers.System.Requests

/-!
# From the request to the row

All sessions of a benchmark client, each on its connection with a handler of the same server.
The servers take a read for a request (`web_server/c_bsd/main/tcp_server.c:125`), and the
clients take a read for a response (`benchmark/iot_benchmark.py:103`), so both ends rely on how
TCP cuts what it delivers. This module says for which deliveries a row stands for its request.
-/

namespace Esp32WebServers

open Base

namespace Link

variable {σ ι : Type}

/-- The requests of a connection are answered one by one: the session's rows are the heap values
of the responses in their order, each response came after the wait that its request asks for,
all requests have their response where the session is not at its read, and no part of a request
lies unread. -/
structure Paired (client : Benchmark.Client) (l : Link σ) : Prop where
  session : l.session.Paired
  waits : l.waits <+: l.requests.map fun delay ↦ client.wait delay.val
  responses : l.session.heaps.length = l.waits.length
  answered : l.session.phase ≠ .read → l.waits.length = l.requests.length
  whole : l.upstream = [] ∨ ∃ delay ∈ l.requests.getLast?, l.upstream = client.message delay.val

/-- A read of the server takes all that was sent, and the client's read returns when the whole
response has arrived. -/
def WholeReads (l : Link σ) : Event ι → Prop
  | .receive _ count => count = l.upstream.length
  | .read => l.session.inFlight = []
  | _ => True

/-- The invariant: every request has its response, in the buffer and under way as far as the
session has not read it, or the last one is to be read, or the server waits before its
response. -/
inductive Clean (client : Benchmark.Client) (server : Server σ ι) : Link σ → Prop
  | answered {x : Benchmark.Session} {requests : List IntDelay} (hx : x.Clean)
      (hlen : x.heaps.length = requests.length) :
      Clean client server
        ⟨x, requests, [], server.start, none, requests.map fun delay ↦ client.wait delay.val⟩
  | asked {heaps : List UInt32} {requests : List IntDelay} (delay : IntDelay)
      (hlen : heaps.length = requests.length) :
      Clean client server ⟨⟨heaps, [], [], Benchmark.numerals heaps, .read⟩, requests ++ [delay],
        client.message delay.val, server.start, none,
        requests.map fun delay ↦ client.wait delay.val⟩
  | waiting {heaps : List UInt32} {requests : List IntDelay} {delay : IntDelay} {parsed : Int}
      (hlen : heaps.length = requests.length) (hparsed : waited parsed = client.wait delay.val) :
      Clean client server ⟨⟨heaps, [], [], Benchmark.numerals heaps, .read⟩, requests ++ [delay],
        [], server.start, some parsed, requests.map fun delay ↦ client.wait delay.val⟩

section Clean

variable {client : Benchmark.Client} {server : Server σ ι} {l m : Link σ}

private theorem rows_prefix_numerals (heaps : List UInt32) :
    (⟨heaps, [], [], Benchmark.numerals heaps, .read⟩ : Benchmark.Session).Paired :=
  ⟨List.prefix_refl _, fun h ↦ absurd rfl h, nofun⟩

/-- A clean connection is paired. -/
theorem Clean.paired (h : Clean client server l) : l.Paired client := by
  cases h with
  | answered hx hlen =>
    refine ⟨hx.paired, List.prefix_refl _, ?_, fun _ ↦ List.length_map _, .inl rfl⟩
    rw [List.length_map, hlen]
  | asked delay hlen =>
    refine ⟨rows_prefix_numerals _, ?_, ?_, fun h ↦ absurd rfl h, .inr ⟨delay, ?_, rfl⟩⟩
    · rw [List.map_append]
      exact List.prefix_append _ _
    · rw [List.length_map, hlen]
    · rw [List.getLast?_concat, Option.mem_some_iff]
  | waiting hlen hparsed =>
    refine ⟨rows_prefix_numerals _, ?_, ?_, fun h ↦ absurd rfl h, .inl rfl⟩
    · rw [List.map_append]
      exact List.prefix_append _ _
    · rw [List.length_map, hlen]

/-- A connection is clean before its first request. -/
theorem clean_start : Clean client server (start server) := .answered (.request []) rfl

/-- Before a request nothing is under way. -/
theorem Clean.inFlight_eq_nil (h : Clean client server l) (hphase : l.session.phase = .request) :
    l.session.inFlight = [] := by
  cases h with
  | answered hx hlen =>
    cases hx with
    | request heaps => rfl
    | stay heaps => cases hphase
    | read heaps heap _ => cases hphase
  | asked delay hlen => cases hphase
  | waiting hlen hparsed => cases hphase

/-- A server that waits has read all that was sent. -/
theorem Clean.upstream_eq_nil (h : Clean client server l) {delay : Int}
    (hwaiting : l.waiting = some delay) : l.upstream = [] := by
  cases h with
  | answered hx hlen => cases hwaiting
  | asked delay hlen => cases hwaiting
  | waiting hlen hparsed => rfl

/-- A request of a clean connection is to be read. -/
theorem Clean.request (h : Clean client server l) (hphase : l.session.phase = .request)
    (delay : IntDelay) : Clean client server (l.request client delay) := by
  cases h with
  | answered hx hlen =>
    cases hx with
    | request heaps =>
      simp only [Link.request, List.nil_append]
      exact .asked delay hlen
    | stay heaps => cases hphase
    | read heaps heap _ => cases hphase
  | asked delay hlen => cases hphase
  | waiting hlen hparsed => cases hphase

/-- A whole request is understood. -/
theorem Clean.receive (hserver : server.Understands client) (h : Clean client server l)
    (hnone : l.waiting = none) {around : ι} {count : Nat} (hpos : 0 < count)
    (hwhole : count = l.upstream.length) {result : σ × Option Int}
    (hadmits : server.admits around (l.upstream.take count) = true)
    (hreceive : server.receive l.server around (l.upstream.take count) = some result) :
    Clean client server (l.receive count result) := by
  rw [hwhole, List.take_length] at hadmits hreceive
  cases h with
  | answered hx hlen => exact absurd hwhole (Nat.ne_of_gt hpos)
  | asked delay hlen =>
    obtain ⟨parsed, hparsed, hwait⟩ := hserver.whole around delay hadmits
    cases hparsed.symm.trans hreceive
    rw [Link.receive, hwhole, List.drop_length]
    exact .waiting hlen hwait
  | waiting hlen hparsed => cases hnone

/-- A response answers the last request. -/
theorem Clean.respond (hserver : server.Understands client) (h : Clean client server l)
    {delay : Int} (hwaiting : l.waiting = some delay) (heap : FreeHeap) :
    Clean client server (l.respond server heap delay) := by
  cases h with
  | answered hx hlen => cases hwaiting
  | asked delay hlen => cases hwaiting
  | waiting hlen hparsed =>
    cases hwaiting
    have hwaits : ∀ (requests : List IntDelay) (delay : IntDelay),
        (requests.map fun delay ↦ client.wait delay.val) ++ [client.wait delay.val] =
          (requests ++ [delay]).map fun delay ↦ client.wait delay.val := by
      intro requests delay
      rw [List.map_append]
      rfl
    simp only [Link.respond, hparsed, hwaits]
    refine .answered (.read _ heap.val ?_) ?_
    · rw [List.nil_append, List.nil_append]
      exact hserver.formats heap
    · rw [List.length_append, List.length_append, hlen]
      rfl

/-- Bytes that arrive are bytes of the last response. -/
theorem Clean.arrive (h : Clean client server l) {count : Nat} (hpos : 0 < count)
    (hle : count ≤ l.session.inFlight.length) :
    Clean client server (l.withSession (l.session.arrive count)) := by
  cases h with
  | answered hx hlen => exact .answered (hx.arrives hpos hle) hlen
  | asked delay hlen => exact absurd hle (Nat.not_le_of_lt hpos)
  | waiting hlen hparsed => exact absurd hle (Nat.not_le_of_lt hpos)

/-- A whole response gives its row. -/
theorem Clean.read (h : Clean client server l) (hphase : l.session.phase = .read)
    (hbuffer : l.session.buffer ≠ []) (hwhole : l.session.inFlight = []) :
    Clean client server (l.withSession (l.session.read client)) := by
  cases h with
  | answered hx hlen =>
    exact .answered (hx.reads hphase hwhole) ((congrArg List.length (heaps_read _ _)).trans hlen)
  | asked delay hlen => exact absurd rfl hbuffer
  | waiting hlen hparsed => exact absurd rfl hbuffer

/-- A part of a response ends the session, when nothing else is to be done. -/
theorem Clean.read_ended (h : Clean client server l) (hphase : l.session.phase = .read)
    (hbuffer : l.session.buffer ≠ []) (hpart : l.session.inFlight ≠ []) :
    (l.session.read client).phase = .ended ∧ l.waiting = none ∧ l.upstream = [] := by
  cases h with
  | answered hx hlen => exact ⟨hx.read_ended hphase hpart, rfl, rfl⟩
  | asked delay hlen => exact absurd rfl hbuffer
  | waiting hlen hparsed => exact absurd rfl hbuffer

/-- A session that waits for one more byte does not get any. -/
theorem Clean.not_readOne (h : Clean client server l) (hphase : l.session.phase = .stay) :
    l.session.buffer = [] := by
  cases h with
  | answered hx hlen => exact hx.not_readOne hphase
  | asked delay hlen => cases hphase
  | waiting hlen hparsed => cases hphase

/-- Events with whole reads keep a connection clean. -/
theorem Clean.step (hserver : server.Understands client) {e : Event ι}
    (hl : Clean client server l) (h : Link.step client server l e = some m)
    (hwhole : WholeReads l e) : Clean client server m := by
  rcases step_cases h with ⟨delay, rfl, hphase, rfl⟩ |
    ⟨around, count, result, rfl, hnone, hpos, -, hadmits, hreceive, rfl⟩ |
    ⟨heap, delay, rfl, hwaiting, rfl⟩ | ⟨count, rfl, hpos, hle, rfl⟩ |
    ⟨rfl, hphase, hbuffer, rfl⟩ | ⟨rfl, hphase, hbuffer, rfl⟩
  · exact hl.request hphase delay
  · exact hl.receive hserver hnone hpos hwhole hadmits hreceive
  · exact hl.respond hserver hwaiting heap
  · exact hl.arrive hpos hle
  · exact hl.read hphase hbuffer hwhole
  · exact absurd (hl.not_readOne hphase) hbuffer

end Clean

end Link

namespace Benchmark

variable {σ ι : Type}

end Benchmark

end Esp32WebServers
