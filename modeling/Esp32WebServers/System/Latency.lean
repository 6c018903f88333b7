import Esp32WebServers.Connection.ShortWrites
import Esp32WebServers.Events.Waits
import Esp32WebServers.System.Delivery
import Esp32WebServers.System.Program

/-!
# The response times that the IoT benchmark can write

The client measures the time from its request to the end of its read and subtracts the delay
that it asked for (`benchmark/iot_benchmark.py:101–105`), so that a row shows what the server
took besides. The C servers wait in ticks of 10 ms, whole ones of the delay, and the first of
them may be almost over; the others wait for the delay. This module says which is the least
response time that a row can show.
-/

namespace Esp32WebServers

open Base

/-! ### Pauses -/

/-- The pause of `client_handler`, `web_server/c_bsd/main/tcp_server.c:131–133`: `vTaskDelay`
counts the interrupts of the tick timer. -/
def CBsd.pause : Pause Int ℚ :=
  (Pause.ticks portTickPeriodMs.toNat).only fun delay ↦ (vTaskDelay delay).map UInt32.toNat

/-- The pause of `handle_client`, `web_server/c_netconn/main/tcp_server.c:138–140`. -/
def CNetconn.pause : Pause Int ℚ :=
  (Pause.ticks CBsd.portTickPeriodMs.toNat).only fun delay ↦ (vTaskDelay delay).map UInt32.toNat

/-- The pause of a `Session`, `web_server/cpp_asio/main/tcp_server.cpp:92`, `137–142`. -/
def CppAsio.pause : Pause Int ℚ := Pause.units.only fun delay ↦ (expiresAt delay).map Int.toNat

/-- The pause of `read_request`, `web_server/rust/src/main.rs:182–184`. -/
def Rust.pause : Pause Int ℚ := Pause.units.only fun delay ↦ sleep delay.toNat

/-- The pause of `handle_client`, `web_server/python_micropython/main/server.py:49–50`. -/
def Python.pause : Pause Int ℚ := Pause.units.only fun delay ↦ sleepMs delay.toNat

/-- The least span of a pause for the whole ticks of a delay. -/
def leastTicks (delay : Int) : Int := (10 * ((waited delay).toNat / 10 - 1) : Nat)

/-- What is waited for is an `int` if it is that of one. -/
theorem lt_of_waited {parsed delay : Int} (h : waited parsed = waited delay)
    (hlt : delay < 2 ^ 31) : parsed < 2 ^ 31 := by
  unfold waited at h
  split at h
  · split at h
    · omega
    · omega
  · omega

/-- The C-BSD server pauses for one tick less than the delay has, or longer. -/
theorem CBsd.isLeast_pause {delay : Int} (h : delay < 2 ^ 31) :
    IsLeast (pause.spans delay) (leastTicks delay) := by
  have hperiod : portTickPeriodMs.toNat = 10 := by decide
  by_cases hpos : 0 < delay
  · obtain ⟨n, rfl⟩ := Int.eq_ofNat_of_zero_le hpos.le
    have hticks : ((vTaskDelay n).map UInt32.toNat) = some (n / 10) := by
      rw [vTaskDelay, if_pos hpos, Option.map_some, toNat_ticks (by omega)]
    have hspans : pause.spans n =
        (Pause.ticks portTickPeriodMs.toNat : Pause Nat ℚ).spans (n / 10) :=
      Pause.spans_only_some (f := fun delay ↦ (vTaskDelay delay).map UInt32.toNat) hticks
    rw [hspans, leastTicks, waited, if_pos hpos, Int.toNat_natCast, hperiod]
    exact Pause.isLeast_spans_ticks (by decide) _
  · have hnone : ((vTaskDelay delay).map UInt32.toNat) = none := by
      rw [vTaskDelay, if_neg hpos, Option.map_none]
    rw [leastTicks, waited, if_neg hpos]
    exact Pause.isLeast_spans_only_none (f := fun delay ↦ (vTaskDelay delay).map UInt32.toNat) hnone

/-- The Netconn server pauses like the C-BSD server. -/
theorem CNetconn.isLeast_pause {delay : Int} (h : delay < 2 ^ 31) :
    IsLeast (pause.spans delay) (leastTicks delay) := CBsd.isLeast_pause h

/-- A pause in milliseconds for a positive delay. -/
theorem isLeast_pause_units {f : Int → Option Nat} {delay : Int}
    (hpos : 0 < delay → f delay = some delay.toNat) (hnone : ¬ 0 < delay → f delay = none) :
    IsLeast ((Pause.units.only f : Pause Int ℚ).spans delay) (waited delay) := by
  unfold waited
  split
  · next h =>
    rw [Pause.spans_only_some (hpos h)]
    have hcast : ((delay.toNat : Nat) : Int) = delay := Int.toNat_of_nonneg h.le
    have hleast := Pause.isLeast_spans_units (K := ℚ) delay.toNat
    rwa [hcast] at hleast
  · next h => exact Pause.isLeast_spans_only_none (hnone h)

/-- The Asio server pauses for the delay or longer. -/
theorem CppAsio.isLeast_pause (delay : Int) : IsLeast (pause.spans delay) (waited delay) := by
  apply isLeast_pause_units
  · intro h
    rw [expiresAt, if_pos h, Option.map_some]
  · intro h
    rw [expiresAt, if_neg h, Option.map_none]

/-- The Rust server pauses for the delay or longer. -/
theorem Rust.isLeast_pause (delay : Int) : IsLeast (pause.spans delay) (waited delay) := by
  apply isLeast_pause_units
  · intro h
    rw [sleep, if_pos (by omega)]
  · intro h
    rw [sleep, if_neg (by omega)]

/-- The Python server pauses for the delay or longer. -/
theorem Python.isLeast_pause (delay : Int) : IsLeast (pause.spans delay) (waited delay) := by
  apply isLeast_pause_units
  · intro h
    rw [sleepMs, if_pos (by omega)]
  · intro h
    rw [sleepMs, if_neg (by omega)]

/-! ### What a clean connection has answered -/

namespace Link

variable {σ ι : Type} {client : Benchmark.Client} {server : Server σ ι} {l : Link σ}

/-- A clean session at its read has one row less than requests. -/
theorem Clean.length_requests (h : Clean client server l) (hphase : l.session.phase = .read) :
    l.requests.length = l.session.rows.length + 1 := by
  cases h with
  | answered hx hlen =>
    cases hx with
    | request heaps => cases hphase
    | stay heaps => cases hphase
    | read heaps heap _ =>
      rw [← hlen, Benchmark.numerals, List.length_map, List.length_append, List.length_singleton]
  | asked delay hlen =>
    rw [List.length_append, ← hlen, Benchmark.numerals, List.length_map, List.length_singleton]
  | waiting hlen _ =>
    rw [List.length_append, ← hlen, Benchmark.numerals, List.length_map, List.length_singleton]

/-- A clean session that has something to read has all its responses. -/
theorem Clean.length_heaps (h : Clean client server l) (hbuffer : l.session.buffer ≠ []) :
    l.session.heaps.length = l.requests.length := by
  cases h with
  | answered hx hlen => exact hlen
  | asked delay hlen => exact absurd rfl hbuffer
  | waiting hlen _ => exact absurd rfl hbuffer

/-- A clean connection waits for the last of its requests. -/
theorem Clean.getLast?_waiting (h : Clean client server l) {parsed : Int}
    (hwaiting : l.waiting = some parsed) :
    ∃ delay, l.requests.getLast? = some delay ∧ waited parsed = client.wait delay.val := by
  cases h with
  | answered hx hlen => cases hwaiting
  | asked delay hlen => cases hwaiting
  | waiting hlen hparsed =>
    cases hwaiting
    exact ⟨_, List.getLast?_concat, hparsed⟩

/-- A clean connection does not wait outside of a request. -/
theorem Clean.waiting_eq_none (h : Clean client server l) (hphase : l.session.phase ≠ .read) :
    l.waiting = none := by
  cases h with
  | answered hx hlen => rfl
  | asked delay hlen => rfl
  | waiting hlen hparsed => exact absurd rfl hphase

/-- A clean connection has no more rows than requests. -/
theorem Clean.length_rows_le (h : Clean client server l) :
    l.session.rows.length ≤ l.requests.length := by
  have hpaired := h.paired
  have hrows := hpaired.session.rows.length_le
  have hwaits := hpaired.waits.length_le
  rw [Benchmark.numerals, List.length_map, hpaired.responses] at hrows
  rw [List.length_map] at hwaits
  exact hrows.trans hwaits

end Link

namespace Benchmark

variable {σ ι : Type}

/-! ### What is left of a span -/

/-- A time of a row comes from a span that the server's pause for its request may take: it is
what is left of at least this span. -/
def FromSpan (client : Client) (pause : Pause Int ℚ) (delay : IntDelay) (time : Int) : Prop :=
  ∃ parsed span, waited parsed = client.wait delay.val ∧ span ∈ pause.spans parsed ∧
    span - client.subtracted delay.val ≤ time

/-- The last request was received after it was sent, and the pause for it may be over. -/
def PauseOver (client : Client) (pause : Pause Int ℚ) (now : ℚ) (t : Timed σ) : Prop :=
  ∃ delay parsed received, t.link.requests.getLast? = some delay ∧
    waited parsed = client.wait delay.val ∧ t.startTime ≤ received ∧
    pause.returns parsed received now = true

/-- The invariant of a session while both ends read whole: the times of its rows come from spans
of the server's pauses, and the time of the next one will. -/
structure Timely (client : Client) (server : Server σ ι) (pause : Pause Int ℚ) (now : ℚ)
    (t : Timed σ) : Prop where
  clean : t.link.Clean client server
  rows : t.rows.map Prod.snd = t.link.session.rows
  nonneg : 0 ≤ t.startTime
  started : t.startTime ≤ now
  received : t.link.waiting ≠ none → t.startTime ≤ t.received
  responded : t.link.session.phase = .read →
    t.link.session.heaps.length = t.link.requests.length → PauseOver client pause now t
  times : ∀ (k : Nat) (delay : IntDelay) (row : Int × Bytes), t.link.requests[k]? = some delay →
    t.rows[k]? = some row → FromSpan client pause delay row.1

section Timely

variable {settings : Settings} {server : Server σ ι} {pause : Pause Int ℚ} {now : ℚ}
  {t u : Timed σ}

/-- A session is timely when it is opened. -/
theorem timely_start (hnow : 0 ≤ now) :
    Timely settings.client server pause now (.start server now) where
  clean := Link.clean_start
  rows := rfl
  nonneg := le_refl _
  started := hnow
  received := fun h ↦ absurd rfl h
  responded := by
    intro hphase
    cases hphase
  times := by
    intro k delay row _ hrow
    exact absurd (List.mem_of_getElem? hrow) List.not_mem_nil

/-- A session stays timely while time passes. -/
theorem Timely.wait (ht : Timely settings.client server pause now t) {now' : ℚ}
    (hle : now ≤ now') : Timely settings.client server pause now' t := by
  refine ⟨ht.clean, ht.rows, ht.nonneg, ht.started.trans hle, ht.received, ?_, ht.times⟩
  intro hphase hlen
  obtain ⟨delay, parsed, received, hlast, hwait, hle', hreturns⟩ := ht.responded hphase hlen
  exact ⟨delay, parsed, received, hlast, hwait, hle', pause.later _ _ _ _ hreturns hle⟩

/-- The rows of a timely session are as many as those of its connection. -/
theorem Timely.length_rows (ht : Timely settings.client server pause now t) :
    t.rows.length = t.link.session.rows.length := by
  rw [← ht.rows, List.length_map]

/-- A request of a timely session. -/
theorem Timely.request (ht : Timely settings.client server pause now t)
    (hphase : t.link.session.phase = .request) (hnow : 0 ≤ now) (delay : IntDelay)
    (hclean : (t.link.request settings.client delay).Clean settings.client server) :
    Timely settings.client server pause now
      { t with link := t.link.request settings.client delay, startTime := now } := by
  have hread : t.link.session.phase ≠ .read := by
    rw [hphase]
    exact nofun
  refine ⟨hclean, ht.rows, hnow, le_refl _, ?_, ?_, ?_⟩
  · intro hwaiting
    exact absurd (ht.clean.waiting_eq_none hread) hwaiting
  · intro _ hlen
    have hpaired := ht.clean.paired
    have hanswered := hpaired.answered hread
    rw [← hpaired.responses] at hanswered
    simp only [Link.request, List.length_append, List.length_singleton] at hlen
    omega
  · intro k delay' row hrequest hrow
    have hlt := (List.getElem?_eq_some_iff.mp hrow).1
    have hle := ht.clean.length_rows_le
    rw [← ht.length_rows] at hle
    simp only [Link.request] at hrequest
    rw [List.getElem?_append_left (hlt.trans_le hle)] at hrequest
    exact ht.times k delay' row hrequest hrow

/-- A response of a timely session comes after the pause. -/
theorem Timely.respond (ht : Timely settings.client server pause now t) {parsed : Int}
    (hwaiting : t.link.waiting = some parsed)
    (hreturns : pause.returns parsed t.received now = true) (heap : FreeHeap)
    (hclean : (t.link.respond server heap parsed).Clean settings.client server) :
    Timely settings.client server pause now
      { t with link := t.link.respond server heap parsed } := by
  obtain ⟨delay, hlast, hwait⟩ := ht.clean.getLast?_waiting hwaiting
  have hreceived : t.startTime ≤ t.received := by
    apply ht.received
    rw [hwaiting]
    exact nofun
  refine ⟨hclean, ht.rows, ht.nonneg, ht.started, fun h ↦ absurd rfl h, fun _ _ ↦ ?_, ht.times⟩
  exact ⟨delay, parsed, t.received, hlast, hwait, hreceived, hreturns⟩

/-- The time of a row comes from the span between the server's read and its response. -/
theorem PauseOver.fromSpan {client : Client} (h : PauseOver client pause now t)
    (hnonneg : 0 ≤ t.startTime) {delay : IntDelay}
    (hlast : t.link.requests.getLast? = some delay) :
    FromSpan client pause delay (⌊now - t.startTime⌋ - client.subtracted t.delay) := by
  obtain ⟨delay', parsed, received, hlast', hwait, hle, hreturns⟩ := h
  cases Option.some.inj (hlast.symm.trans hlast')
  have hdelay : t.delay = delay.val := by
    rw [Timed.delay, hlast]
    rfl
  refine ⟨parsed, ⌊now - received⌋, hwait, ⟨received, now, hnonneg.trans hle, hreturns, rfl⟩, ?_⟩
  rw [hdelay]
  exact sub_le_sub_right (Int.floor_mono (sub_le_sub_left hle now)) _

/-- A read of a timely session that records its row. -/
theorem Timely.read (ht : Timely settings.client server pause now t)
    (hphase : t.link.session.phase = .read) (hbuffer : t.link.session.buffer ≠ [])
    (hclean : (t.link.withSession (t.link.session.read settings.client)).Clean
      settings.client server) (asleep : ℚ) :
    Timely settings.client server pause now
      { t with
        link := t.link.withSession (t.link.session.read settings.client)
        asleep
        rows := t.rows ++ (t.record settings now (.read : Link.Event ι)).toList } := by
  have hrows : (t.link.session.read settings.client).rows =
      t.link.session.rows ++ (parsResult (t.link.session.buffer.take 1024)).toList := by
    unfold Session.read
    split
    · next hsome => rw [hsome, Option.toList_some]
    · next hnone => rw [hnone, Option.toList_none, List.append_nil]
  refine ⟨hclean, ?_, ht.nonneg, ht.started, ht.received, ?_, ?_⟩
  · rw [List.map_append, ht.rows]
    refine Eq.trans ?_ hrows.symm
    rw [Timed.record]
    cases parsResult (t.link.session.buffer.take 1024) with
    | none => rfl
    | some heap => rfl
  · intro hread
    exact absurd hread (Link.phase_read_ne settings.client t.link.session)
  · intro k delay row hrequest hrow
    have hlen := ht.clean.length_requests hphase
    rw [← ht.length_rows] at hlen
    by_cases hk : k < t.rows.length
    · rw [List.getElem?_append_left hk] at hrow
      exact ht.times k delay row hrequest hrow
    · -- The row is that of the last request.
      have hlt := (List.getElem?_eq_some_iff.mp hrequest).1
      simp only [Link.withSession] at hlt hrequest
      obtain rfl : k = t.rows.length := by omega
      have hlast : t.link.requests.getLast? = some delay := by
        rw [List.getLast?_eq_getElem?, hlen, Nat.add_sub_cancel, hrequest]
      rw [List.getElem?_append_right (Nat.le_refl _), Nat.sub_self, Timed.record] at hrow
      cases hparse : parsResult (t.link.session.buffer.take 1024) with
      | none =>
        rw [hparse] at hrow
        cases hrow
      | some heap =>
        rw [hparse] at hrow
        cases hrow
        have hover := ht.responded hphase (ht.clean.length_heaps hbuffer)
        exact hover.fromSpan ht.nonneg hlast

/-- Events with whole reads keep a session timely. -/
theorem Timely.act (hserver : server.Understands settings.client)
    (ht : Timely settings.client server pause now t) {e : Link.Event ι}
    (hact : t.act settings server pause now e = some u) (hwhole : Link.WholeReads t.link e) :
    Timely settings.client server pause now u := by
  obtain ⟨hready, link, hstep, rfl⟩ := Program.act_eq_some_iff.mp hact
  have hclean := ht.clean.step hserver hstep hwhole
  rcases Link.step_cases hstep with ⟨delay, rfl, hphase, rfl⟩ |
    ⟨around, count, result, rfl, hnone, -, -, -, -, rfl⟩ |
    ⟨heap, parsed, rfl, hwaiting, rfl⟩ | ⟨count, rfl, -, -, rfl⟩ |
    ⟨rfl, hphase, hbuffer, rfl⟩ | ⟨rfl, hphase, hbuffer, rfl⟩
  · exact ht.request hphase (ht.nonneg.trans ht.started) delay hclean
  · exact ⟨hclean, ht.rows, ht.nonneg, ht.started, fun _ ↦ ht.started, ht.responded, ht.times⟩
  · rw [Timed.ready, hwaiting, Option.all_some] at hready
    exact ht.respond hwaiting hready heap hclean
  · exact ⟨hclean, ht.rows, ht.nonneg, ht.started, ht.received, ht.responded, ht.times⟩
  · exact ht.read hphase hbuffer hclean _
  · exact absurd (ht.clean.not_readOne hphase) hbuffer

end Timely

end Benchmark

/-- A request can be sent outside of one. -/
theorem Link.step_request {σ ι : Type} {client : Benchmark.Client} {server : Server σ ι}
    {l : Link σ} (hphase : l.session.phase = .request) (delay : IntDelay) :
    Link.step client server l (.request delay) = some (l.request client delay) := by
  rw [step, if_pos hphase]

namespace Program

open Benchmark

variable {σ ι : Type} {settings : Settings} {server : Server σ ι} {pause : Pause Int ℚ}

/-- The times of the rows for a delay, in all runs in which both ends read whole. -/
def timesOf (settings : Settings) (server : Server σ ι) (pause : Pause Int ℚ)
    (delay : IntDelay) : Set Int :=
  {time | ∃ (events : List (Event ι)) (p : Program σ) (index k : Nat) (t : Timed σ)
    (row : Int × Bytes),
    Step.run (step settings server pause) (start settings) events = some p ∧
      Step.Guarded (step settings server pause) (OfSession Link.WholeReads) (start settings)
        events ∧
      p.tasks[index]? = some (.connected t) ∧ t.link.requests[k]? = some delay ∧
      t.rows[k]? = some row ∧ time = row.1}

/-- In a run in which both ends read whole, all sessions are timely. -/
theorem allConnected_timely (hserver : server.Understands settings.client)
    {events : List (Event ι)} {p : Program σ}
    (hrun : Step.run (step settings server pause) (start settings) events = some p)
    (hwhole : Step.Guarded (step settings server pause) (OfSession Link.WholeReads)
      (start settings) events) :
    p.AllConnected (Timely settings.client server pause) := by
  refine Step.Guarded.invariant (I := AllConnected (Timely settings.client server pause)) ?_
    (allConnected_start _) hrun hwhole
  intro p e q hp h he
  apply hp.step _ _ _ h he
  · intro now hnow
    exact timely_start hnow
  · intro now now' t ht hle
    exact ht.wait hle
  · intro now t e u ht hact hwhole
    exact ht.act hserver hact hwhole

/-- A run with whole reads to a program with a row for a delay. -/
private def Reaches (settings : Settings) (server : Server σ ι) (pause : Pause Int ℚ)
    (delay : IntDelay) (time : Int) (p : Program σ) : Prop :=
  ∃ (events : List (Event ι)) (q : Program σ) (t : Timed σ) (row : Int × Bytes),
    Step.run (step settings server pause) p events = some q ∧
      Step.Guarded (step settings server pause) (OfSession Link.WholeReads) p events ∧
      q.tasks[0]? = some (.connected t) ∧ t.link.requests[0]? = some delay ∧
      t.rows[0]? = some row ∧ time = row.1

private theorem Reaches.cons {delay : IntDelay} {time : Int} {p q : Program σ} (e : Event ι)
    (hstep : step settings server pause p e = some q) (he : OfSession Link.WholeReads p e)
    (h : Reaches settings server pause delay time q) :
    Reaches settings server pause delay time p := by
  obtain ⟨events, r, t, row, hrun, hguarded, hrow⟩ := h
  exact ⟨e :: events, r, t, row, Step.run_cons_eq_some.mpr ⟨q, hstep, hrun⟩,
    hguarded.cons hstep he, hrow⟩

/-- A program with one session, which has its connection. -/
private def alone (now : ℚ) (due : Option ℚ) (t : Timed σ) (file : Bytes) : Program σ :=
  ⟨now, due, [.connected t], file, .running⟩

private theorem Reaches.act {delay : IntDelay} {time : Int} {now : ℚ} {due : Option ℚ}
    {t : Timed σ} {file : Bytes} (e : Link.Event ι) {link : Link σ}
    (hready : t.ready pause now e = true)
    (hstep : Link.step settings.client server t.link e = some link)
    (hwhole : Link.WholeReads t.link e) (hlives : link.session.phase ≠ .ended)
    (h : ∀ file, Reaches settings server pause delay time
      (alone now due (t.stamp settings now link e) file)) :
    Reaches settings server pause delay time (alone now due t file) := by
  have hact : t.act settings server pause now e = some (t.stamp settings now link e) :=
    act_eq_some_iff.mpr ⟨hready, link, hstep, rfl⟩
  apply Reaches.cons (.session 0 e) (step_session rfl rfl hact)
  · rintro s hs
    cases hs
    exact hwhole
  · rw [session, stamp_link, if_neg hlives]
    exact h _

/-- Time passes for a program with one session. -/
private theorem Reaches.wait {delay : IntDelay} {time : Int} {now now' : ℚ} {due : Option ℚ}
    {t : Timed σ} {file : Bytes} (hle : now ≤ now')
    (h : Reaches settings server pause delay time (alone now' due t file)) :
    Reaches settings server pause delay time (alone now due t file) := by
  apply Reaches.cons (.elapse (now' - now)) _ trivial h
  rw [step, if_pos (sub_nonneg.mpr hle), alone, alone]
  simp only [add_sub_cancel]

/-- A session that has just been opened can get a row for its first request: the request, the
server's read, its pause, the response, its bytes, and the session's read. -/
private theorem Reaches.row (hserver : server.Understands settings.client) {delay : IntDelay}
    {around : ι} {parsed : Int}
    (hadmits : server.admits around (settings.client.message delay.val) = true)
    (hreceive : server.receive server.start around (settings.client.message delay.val) =
      some (server.start, some parsed)) {called now : ℚ} (hcalled : 0 ≤ called)
    (hreturns : pause.returns parsed called now = true) (due : Option ℚ) (file : Bytes) :
    Reaches settings server pause delay (⌊now - called⌋ - settings.client.subtracted delay.val)
      (alone called due (Timed.start server 0) file) := by
  let heap : FreeHeap := ⟨0, by decide⟩
  -- The connection after each of the events.
  let asked := (Link.start server).request settings.client delay
  let taken := asked.receive asked.upstream.length (server.start, some parsed)
  let sent := taken.respond server heap parsed
  let arrived := sent.withSession (sent.session.arrive sent.session.inFlight.length)
  have hasked : Link.step settings.client server (Link.start server) (.request delay) =
      some asked := Link.step_request rfl delay
  have hupstream : asked.upstream.take asked.upstream.length = settings.client.message delay.val :=
    List.take_length
  have hpos : 0 < asked.upstream.length := by
    obtain ⟨rest, hrest, -⟩ := message_eq_cons settings.client delay
    have hmessage : asked.upstream = 71 :: rest := hrest
    rw [hmessage]
    exact Nat.succ_pos _
  have htaken : Link.step settings.client server asked (.receive around asked.upstream.length) =
      some taken := by
    apply Link.step_receive rfl hpos (Nat.le_refl _)
    · rw [hupstream]
      exact hadmits
    · rw [hupstream]
      exact hreceive
  have hsent : Link.step settings.client server taken (.respond heap) = some sent :=
    Link.step_respond rfl heap
  have hinFlight : sent.session.inFlight = responseText 0 := hserver.formats heap
  have hne : responseText 0 ≠ [] :=
    List.ne_nil_of_length_pos (Nat.zero_lt_of_lt (lt_length_responseText _))
  have harrived : Link.step settings.client server sent
      (.arrive sent.session.inFlight.length) = some arrived := by
    apply Link.step_arrive
    rw [hinFlight]
    exact hne
  have hbuffer : arrived.session.buffer = responseText 0 := by
    rw [← hinFlight]
    exact List.take_length
  have hread : Link.step settings.client server arrived .read =
      some (arrived.withSession (arrived.session.read settings.client)) := by
    apply Link.step_read rfl
    rw [hbuffer]
    exact hne
  have hparse : parsResult (arrived.session.buffer.take 1024) = some (decimal 0) := by
    have hlen : (responseText 0).length < 200 := length_responseText_lt (by decide)
    rw [hbuffer, List.take_of_length_le (by omega), parsResult_responseText]
  have hlives : (arrived.session.read settings.client).phase ≠ .ended := by
    unfold Session.read
    rw [hparse]
    cases settings.client.stays with
    | true => exact nofun
    | false => exact nofun
  -- The session at the time of each event.
  refine Reaches.act (.request delay) (decide_eq_true hcalled) hasked trivial ?_ fun file ↦ ?_
  · exact nofun
  refine Reaches.act (.receive around asked.upstream.length) rfl htaken rfl ?_ fun file ↦ ?_
  · exact nofun
  refine Reaches.wait (pause.ordered _ _ _ hreturns) ?_
  refine Reaches.act (.respond heap) hreturns hsent trivial ?_ fun file ↦ ?_
  · exact nofun
  refine Reaches.act (.arrive sent.session.inFlight.length) rfl harrived trivial ?_ fun file ↦ ?_
  · exact nofun
  refine Reaches.act .read rfl hread ?_ hlives fun file ↦ ?_
  · exact List.drop_length
  · refine ⟨[], _, _, (_, decimal 0), rfl, Step.guarded_nil, rfl, rfl, ?_, rfl⟩
    simp only [Timed.stamp, Timed.record, hparse]
    rfl

/-- Every span of the server's pause for a delay leads to a row for it. -/
theorem exists_mem_timesOf (hserver : server.Understands settings.client)
    (hsessions : 0 < settings.nrSessions) (delay : IntDelay) (around : ι)
    (hadmits : server.admits around (settings.client.message delay.val) = true) :
    ∃ parsed, waited parsed = settings.client.wait delay.val ∧
      ∀ span ∈ pause.spans parsed,
        span - settings.client.subtracted delay.val ∈ timesOf settings server pause delay := by
  obtain ⟨parsed, hreceive, hwait⟩ := hserver.whole around delay hadmits
  refine ⟨parsed, hwait, ?_⟩
  rintro span ⟨called, now, hcalled, hreturns, rfl⟩
  suffices h : Reaches settings server pause delay
      (⌊now - called⌋ - settings.client.subtracted delay.val) (start settings) by
    obtain ⟨events, p, t, row, hrun, hguarded, ht, hrequest, hrow, htime⟩ := h
    exact ⟨events, p, 0, 0, t, row, hrun, hguarded, ht, hrequest, hrow, htime⟩
  have hcreate : step settings server pause (start settings) .create =
      some (create settings (start settings)) := by
    have hdue : (start settings : Program σ).due.any
        (fun due ↦ due ≤ (start settings : Program σ).now) = true := by
      simp only [start, Option.any_some, le_refl, decide_true]
    have hloop : (start settings : Program σ).loop ≠ .stopped := by
      intro h
      cases h
    rw [step, if_pos ⟨hloop, hsessions, hdue⟩]
  refine Reaches.cons .create hcreate trivial ?_
  have hconnect : step settings server pause (create settings (start settings)) (.connect 0) =
      some (connect server (create settings (start settings)) 0) := by
    have hloop : ¬ (create settings (start settings : Program σ)).loop = .stopped := by
      intro h
      cases h
    rw [step, if_neg hloop]
    rfl
  refine Reaches.cons (.connect 0) hconnect trivial ?_
  exact Reaches.wait hcalled (Reaches.row hserver hadmits hreceive hcalled hreturns _ _)

/-- The least time of a row is what is left of the least pause. -/
theorem isLeast_timesOf (hserver : server.Understands settings.client)
    (hsessions : 0 < settings.nrSessions) (delay : IntDelay) (around : ι)
    (hadmits : server.admits around (settings.client.message delay.val) = true) {least : Int}
    (hleast : ∀ parsed, waited parsed = settings.client.wait delay.val →
      IsLeast (pause.spans parsed) least) :
    IsLeast (timesOf settings server pause delay)
      (least - settings.client.subtracted delay.val) := by
  constructor
  · obtain ⟨parsed, hwait, hspans⟩ := exists_mem_timesOf hserver hsessions delay around hadmits
    exact hspans least (hleast parsed hwait).1
  · rintro time ⟨events, p, index, k, t, row, hrun, hwhole, ht, hrequest, hrow, rfl⟩
    have htimely := (allConnected_timely hserver hrun hwhole).connected index t ht
    obtain ⟨parsed, span, hwait, hspan, hle⟩ := htimely.times k delay row hrequest hrow
    exact (sub_le_sub_right ((hleast parsed hwait).2 hspan) _).trans hle

/-- In all runs of the IoT benchmark with whole reads, the least response time of a row for a
delay is zero with Asio, Python and Rust, and less than zero with the C servers (Netconn on
netbufs of one fragment): by what the delay exceeds its whole ticks, and by the first of its
ticks. For a delay below zero, which no server waits for, it is the delay without its sign. -/
theorem isLeast_timesOf_servers (settings : Settings) (hclient : settings.client = .iot)
    (hsessions : 0 < settings.nrSessions) (recvBuf : Buffer 1024) (data : Buffer (1024 + 200))
    (delay : IntDelay) :
    IsLeast (timesOf settings (CBsd.server recvBuf) CBsd.pause delay)
        (leastTicks delay.val - delay.val) ∧
      IsLeast (timesOf settings CNetconn.server CNetconn.pause delay)
        (leastTicks delay.val - delay.val) ∧
      IsLeast (timesOf settings (CppAsio.server data) CppAsio.pause delay)
        (waited delay.val - delay.val) ∧
      IsLeast (timesOf settings Python.server Python.pause delay)
        (waited delay.val - delay.val) ∧
      IsLeast (timesOf settings Rust.server Rust.pause delay)
        (waited delay.val - delay.val) := by
  have hsubtracted : settings.client.subtracted delay.val = delay.val := by
    rw [hclient]
    rfl
  have hwait : settings.client.wait delay.val = waited delay.val := by
    rw [hclient]
    rfl
  have hlen := length_message_le settings.client delay
  have hticks (parsed : Int) (h : waited parsed = settings.client.wait delay.val) :
      parsed < 2 ^ 31 ∧ leastTicks parsed = leastTicks delay.val := by
    rw [hwait] at h
    exact ⟨lt_of_waited h delay.lt, by rw [leastTicks, leastTicks, h]⟩
  refine ⟨?_, ?_, ?_, ?_, ?_⟩
  · have h := isLeast_timesOf (CBsd.server_understands settings.client recvBuf) hsessions delay 0
      (decide_eq_true (show _ ≤ 1023 by omega)) fun parsed h ↦
        (hticks parsed h).2 ▸ CBsd.isLeast_pause (hticks parsed h).1
    rwa [hsubtracted] at h
  · have hfits : 1 + ((settings.client.message delay.val).length + 0) < 2 ^ 31 := by omega
    have h := isLeast_timesOf (hclient ▸ CNetconn.server_understands) hsessions delay
      (0, ⟨1, settings.client.message delay.val, [], Nat.one_pos, hfits⟩) (beq_self_eq_true _)
      fun parsed h ↦ (hticks parsed h).2 ▸ CNetconn.isLeast_pause (hticks parsed h).1
    rwa [hsubtracted] at h
  · have h := isLeast_timesOf (CppAsio.server_understands settings.client data) hsessions delay 0
      (decide_eq_true (show _ ≤ 1024 by omega)) fun parsed h ↦
        (h.trans hwait) ▸ CppAsio.isLeast_pause parsed
    rwa [hsubtracted] at h
  · have h := isLeast_timesOf (Python.server_understands settings.client) hsessions delay ()
      (decide_eq_true (show _ ≤ 1024 by omega)) fun parsed h ↦
        (h.trans hwait) ▸ Python.isLeast_pause parsed
    rwa [hsubtracted] at h
  · have h := isLeast_timesOf (Rust.server_understands settings.client) hsessions delay ()
      (decide_eq_true (show _ ≤ 1024 by omega)) fun parsed h ↦
        (h.trans hwait) ▸ Rust.isLeast_pause parsed
    rwa [hsubtracted] at h

/-- With the default arguments and a delay of 459 ms, the least response time is -19 ms with
the C-BSD server and zero with the Rust server. -/
theorem isLeast_timesOf_459 :
    IsLeast (timesOf (.iot 500 5 3 (1 / 20) 1 true) (CBsd.server CBsd.exampleBuf) CBsd.pause
        ⟨459, by decide, by decide⟩) (-19) ∧
      IsLeast (timesOf (.iot 500 5 3 (1 / 20) 1 true) Rust.server Rust.pause
        ⟨459, by decide, by decide⟩) 0 := by
  have h := isLeast_timesOf_servers (.iot 500 5 3 (1 / 20) 1 true) rfl
    (show 0 < 500 by decide) CBsd.exampleBuf ⟨1, Nat.one_pos, by decide⟩
    ⟨459, by decide, by decide⟩
  exact ⟨h.1, h.2.2.2.2⟩

end Program

end Esp32WebServers
