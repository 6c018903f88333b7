import Esp32WebServers.Base.Clock
import Esp32WebServers.Base.Csv
import Esp32WebServers.System.EndToEnd
import Mathlib.Data.Rat.Floor

/-!
# A benchmark client as a program

`benchmark/iot_benchmark.py` and `benchmark/connection_benchmark.py` as a whole: the coroutine
`benchmark`, which starts the sessions, the sessions, with their connections to a server, the
clock that they read and sleep by, and the CSV file that their rows go to. The event loop takes
the steps of its tasks in any order. Times are in milliseconds, and the settings in seconds.
-/

namespace Esp32WebServers

open Base

namespace Benchmark

/-- The arguments of a client. `sessionDelay` is the time for which `benchmark` sleeps behind a
session of a number, `none` where it raises an exception. -/
structure Settings where
  client : Client
  nrSessions : Nat
  sessionDelay : Nat → Option ℚ
  requestDelay : ℚ
  writeToCsv : Bool

/-- The arguments of `iot_benchmark.py:34–50`, and its sleep (lines 72–75): longer behind the
last of the sessions that start together. Without simultaneous sessions `%` raises. -/
def Settings.iot (nrSessions : Nat) (simultaneousSessions : Int)
    (delayBetweenSessions delayBetweenSimultaneousSessions delayBetweenRequests : ℚ)
    (writeToCsv : Bool) : Settings where
  client := .iot
  nrSessions
  sessionDelay i :=
    if simultaneousSessions = 0 then none
    else if (i : Int) % simultaneousSessions = 0 then some delayBetweenSessions
    else some delayBetweenSimultaneousSessions
  requestDelay := delayBetweenRequests
  writeToCsv

/-- The arguments of `connection_benchmark.py:25–31`, and its sleep (line 52). -/
def Settings.connection (nrSessions : Nat) (delayBetweenSessions delayBetweenRequests : ℚ)
    (writeToCsv : Bool) : Settings where
  client := .connection delayBetweenRequests
  nrSessions
  sessionDelay _ := some delayBetweenSessions
  requestDelay := delayBetweenRequests
  writeToCsv

/-- What a client subtracts from the time that it measured (`iot_benchmark.py:105`). -/
def Client.subtracted : Client → Int → Int
  | .iot, delay => delay
  | .connection _, _ => 0

/-- `csv_append` (`iot_benchmark.py:131–137`): one more record behind those of the file. -/
def csvAppend (writeToCsv : Bool) (file sessionNr responseTime ramUsage : Bytes) : Bytes :=
  if writeToCsv then file ++ Csv.writeRow [sessionNr, responseTime, [], sessionNr, ramUsage]
  else file

/-- The record that `benchmark` writes before the first session (`iot_benchmark.py:65`). -/
def header : List Bytes :=
  [ascii "Connenctions", ascii "Response time [ms]", [], ascii "Connenctions",
    ascii "Free heap space [byte]"]

/-- A session with its connection: `start_time`, the time of the server's last read, the time
until which it sleeps, the time at which the connection was opened, and the response times and
heap values that it has recorded. -/
structure Timed (σ : Type) where
  link : Link σ
  startTime : ℚ
  received : ℚ
  asleep : ℚ
  opened : ℚ
  rows : List (Int × Bytes)

namespace Timed

variable {σ ι : Type}

/-- A session whose connection has just been opened. -/
def start (server : Server σ ι) (now : ℚ) : Timed σ := ⟨Link.start server, 0, 0, now, now, []⟩

/-- The delay of the last request. -/
def delay (t : Timed σ) : Int := (t.link.requests.getLast?.map IntDelay.val).getD 0

/-- What a read of the session records (`iot_benchmark.py:104–107`): the milliseconds since
`start_time`, cut to an integer, less what the client subtracts, and the heap value. An event of
another kind records nothing. -/
def record (settings : Settings) (now : ℚ) (t : Timed σ) : Link.Event ι → Option (Int × Bytes)
  | .read => (parsResult (t.link.session.buffer.take 1024)).map fun freeHeapSpace ↦
    (⌊now - t.startTime⌋ - settings.client.subtracted t.delay, freeHeapSpace)
  | _ => none

/-- Whether the clock lets an event happen: the session has slept before its next request, and
the server's pause before its response may be over. -/
def ready (pause : Pause Int ℚ) (now : ℚ) (t : Timed σ) : Link.Event ι → Bool
  | .request _ => decide (t.asleep ≤ now)
  | .respond _ => t.link.waiting.all fun delay ↦ pause.returns delay t.received now
  | _ => true

/-- The readings of the clock at an event that leads to a connection. A row is followed by the
sleep, unless the session first awaits one more byte. -/
def stamp (settings : Settings) (now : ℚ) (t : Timed σ) (link : Link σ) :
    Link.Event ι → Timed σ
  | .request _ => { t with link, startTime := now }
  | .receive _ _ => { t with link, received := now }
  | .read => { t with
      link
      asleep := if settings.client.stays then t.asleep else now + 1000 * settings.requestDelay
      rows := t.rows ++ (t.record settings now (.read : Link.Event ι)).toList }
  | .readOne => { t with link, asleep := now + 1000 * settings.requestDelay }
  | .respond _ => { t with link }
  | .arrive _ => { t with link }

/-- The events of a connection at a time. -/
def act (settings : Settings) (server : Server σ ι) (pause : Pause Int ℚ) (now : ℚ) :
    Step (Timed σ) (Link.Event ι)
  | t, e =>
    if t.ready pause now e then
      (Link.step settings.client server t.link e).map fun link ↦ t.stamp settings now link e
    else none

end Timed

/-- A task of `start_session`: it awaits its connection, has it, or could not get it. -/
inductive SessionTask (σ : Type) where
  | connecting
  | connected (session : Timed σ)
  | failed

/-- The event loop: it runs, runs its last iteration since `loop.stop()` was called, or has
returned from `run_forever`. -/
inductive Loop where
  | running
  | stopping
  | stopped
  deriving DecidableEq

end Benchmark

/-- A client program: the time, the time at which `benchmark` goes on, `none` if it raised an
exception, the tasks of the sessions in the order of their numbers, the content of the CSV file,
and the event loop. -/
structure Program (σ : Type) where
  now : ℚ
  due : Option ℚ
  tasks : List (Benchmark.SessionTask σ)
  file : Bytes
  loop : Benchmark.Loop

namespace Program

open Benchmark

variable {σ ι : Type}

/-- A program that has written the header of its file. -/
def start (settings : Settings) : Program σ where
  now := 0
  due := some 0
  tasks := []
  file :=
    csvAppend settings.writeToCsv [] (ascii "Connenctions") (ascii "Response time [ms]")
      (ascii "Free heap space [byte]")
  loop := .running

/-- What happens: time passes, `benchmark` creates the task of the next session, the connection
of a task is opened or is not, something happens on a connection, the event loop returns. -/
inductive Event (ι : Type) where
  | elapse (span : ℚ)
  | create
  | connect (index : Nat)
  | fail (index : Nat)
  | session (index : Nat) (event : Link.Event ι)
  | leave

/-- `benchmark` creates a task and sleeps. -/
def create (settings : Settings) (p : Program σ) : Program σ :=
  { p with
    due := (settings.sessionDelay (p.tasks.length + 1)).map fun delay ↦ p.now + 1000 * delay
    tasks := p.tasks ++ [.connecting] }

/-- The connection of a task is opened. -/
def connect (server : Server σ ι) (p : Program σ) (index : Nat) : Program σ :=
  { p with tasks := p.tasks.set index (.connected (.start server p.now)) }

/-- The connection of a task times out or is refused, and the task calls `loop.stop()`. -/
def fail (p : Program σ) (index : Nat) : Program σ :=
  { p with tasks := p.tasks.set index .failed, loop := .stopping }

/-- The records of a file with one more row, where there is one. -/
def append (settings : Settings) (file : Bytes) (index : Nat) :
    Option (Int × Bytes) → Bytes
  | some row =>
    csvAppend settings.writeToCsv file (decimal (index + 1)) (decimalInt row.1) row.2
  | none => file

/-- A session goes on as another after an event, and what it records goes to the file. An
exception in it calls `loop.stop()`. -/
def session (settings : Settings) (p : Program σ) (index : Nat) (event : Link.Event ι)
    (t u : Timed σ) : Program σ :=
  { p with
    tasks := p.tasks.set index (.connected u)
    file := append settings p.file index (t.record settings p.now event)
    loop := if u.link.session.phase = .ended then .stopping else p.loop }

/-- The events of a program, where they can happen. -/
def step (settings : Settings) (server : Server σ ι) (pause : Pause Int ℚ) :
    Step (Program σ) (Event ι)
  | p, .elapse span => if 0 ≤ span then some { p with now := p.now + span } else none
  | p, .create =>
    if p.loop ≠ .stopped ∧ p.tasks.length < settings.nrSessions ∧
        p.due.any (fun due ↦ due ≤ p.now) then some (p.create settings)
    else none
  | p, .connect index =>
    if p.loop = .stopped then none
    else match p.tasks[index]? with
      | some .connecting => some (p.connect server index)
      | _ => none
  | p, .fail index =>
    if p.loop = .stopped then none
    else match p.tasks[index]? with
      | some .connecting => some (p.fail index)
      | _ => none
  | p, .session index event =>
    if p.loop = .stopped then none
    else match p.tasks[index]? with
      | some (.connected t) =>
        (t.act settings server pause p.now event).map (p.session settings index event t)
      | _ => none
  | p, .leave => if p.loop = .stopping then some { p with loop := .stopped } else none

/-- The clock has run from zero on, and a property holds of the sessions that have their
connection. -/
structure AllConnected (I : ℚ → Timed σ → Prop) (p : Program σ) : Prop where
  nonneg : 0 ≤ p.now
  connected : ∀ (index : Nat) (t : Timed σ), p.tasks[index]? = some (.connected t) → I p.now t

/-- A condition on the events of a connection, for the events of a program. -/
def OfSession (G : Link σ → Link.Event ι → Prop) (p : Program σ) : Event ι → Prop
  | .session index event => ∀ t, p.tasks[index]? = some (.connected t) → G t.link event
  | _ => True

section Step

variable {settings : Settings} {server : Server σ ι} {pause : Pause Int ℚ}

/-- An event leads to its connection. -/
theorem stamp_link (now : ℚ) (t : Timed σ) (link : Link σ) (e : Link.Event ι) :
    (t.stamp settings now link e).link = link := by
  cases e with
  | request delay => rfl
  | receive around count => rfl
  | respond heap => rfl
  | arrive count => rfl
  | read => rfl
  | readOne => rfl

/-- What an event records joins the rows. -/
theorem stamp_rows (now : ℚ) (t : Timed σ) (link : Link σ) (e : Link.Event ι) :
    (t.stamp settings now link e).rows = t.rows ++ (t.record settings now e).toList := by
  cases e with
  | request delay => exact (List.append_nil _).symm
  | receive around count => exact (List.append_nil _).symm
  | respond heap => exact (List.append_nil _).symm
  | arrive count => exact (List.append_nil _).symm
  | read => rfl
  | readOne => exact (List.append_nil _).symm

/-- An event of a timed connection is one of the connection, and the clock lets it happen. -/
theorem act_eq_some_iff {t u : Timed σ} {e : Link.Event ι} {now : ℚ} :
    t.act settings server pause now e = some u ↔ t.ready pause now e = true ∧
      ∃ link, Link.step settings.client server t.link e = some link ∧
        u = t.stamp settings now link e := by
  rw [Timed.act, Option.ite_none_right_eq_some, Option.map_eq_some_iff]
  simp only [eq_comm]

/-- What an event of a program can be, with what it needs and what it does. -/
theorem step_cases {p q : Program σ} {e : Event ι}
    (h : step settings server pause p e = some q) :
    (∃ span, e = .elapse span ∧ 0 ≤ span ∧ q = { p with now := p.now + span }) ∨
      (∃ due, e = .create ∧ p.tasks.length < settings.nrSessions ∧ p.due = some due ∧
        due ≤ p.now ∧ q = p.create settings) ∨
      (∃ index, e = .connect index ∧ p.tasks[index]? = some .connecting ∧
        q = p.connect server index) ∨
      (∃ index, e = .fail index ∧ p.tasks[index]? = some .connecting ∧ q = p.fail index) ∨
      (∃ index event t u, e = .session index event ∧ p.tasks[index]? = some (.connected t) ∧
        t.act settings server pause p.now event = some u ∧
        q = p.session settings index event t u) ∨
      (e = .leave ∧ q = { p with loop := .stopped }) := by
  cases e with
  | elapse span =>
    simp only [step, Option.ite_none_right_eq_some, Option.some.injEq] at h
    exact .inl ⟨span, rfl, h.1, h.2.symm⟩
  | create =>
    simp only [step, Option.ite_none_right_eq_some, Option.some.injEq, Option.any_eq_true,
      decide_eq_true_eq] at h
    obtain ⟨⟨-, hlt, due, hdue, hle⟩, rfl⟩ := h
    exact .inr (.inl ⟨due, rfl, hlt, hdue, hle, rfl⟩)
  | connect index =>
    rw [step, Option.ite_none_left_eq_some] at h
    obtain ⟨-, h⟩ := h
    split at h
    · next hconnecting =>
      exact .inr (.inr (.inl ⟨index, rfl, hconnecting, (Option.some.inj h).symm⟩))
    · cases h
  | fail index =>
    rw [step, Option.ite_none_left_eq_some] at h
    obtain ⟨-, h⟩ := h
    split at h
    · next hconnecting =>
      exact .inr (.inr (.inr (.inl ⟨index, rfl, hconnecting, (Option.some.inj h).symm⟩)))
    · cases h
  | session index event =>
    rw [step, Option.ite_none_left_eq_some] at h
    obtain ⟨-, h⟩ := h
    split at h
    · next t hconnected =>
      obtain ⟨u, hact, rfl⟩ := Option.map_eq_some_iff.mp h
      exact .inr (.inr (.inr (.inr (.inl ⟨index, event, t, u, rfl, hconnected, hact, rfl⟩))))
    · cases h
  | leave =>
    simp only [step, Option.ite_none_right_eq_some, Option.some.injEq] at h
    exact .inr (.inr (.inr (.inr (.inr ⟨rfl, h.2.symm⟩))))

/-- The tasks after one of them has changed. -/
theorem getElem?_set_eq_connected {tasks : List (SessionTask σ)} {index i : Nat}
    {x : SessionTask σ} {t : Timed σ} (h : (tasks.set index x)[i]? = some (.connected t)) :
    (i = index ∧ x = .connected t) ∨ (i ≠ index ∧ tasks[i]? = some (.connected t)) := by
  rw [List.getElem?_set] at h
  split at h
  · next heq =>
    split at h
    · exact .inl ⟨heq.symm, Option.some.inj h⟩
    · cases h
  · next hne => exact .inr ⟨fun heq ↦ hne heq.symm, h⟩

/-- The tasks after another one has been created. -/
theorem getElem?_append_connecting {tasks : List (SessionTask σ)} {i : Nat} {t : Timed σ}
    (h : (tasks ++ [.connecting])[i]? = some (.connected t)) :
    tasks[i]? = some (.connected t) := by
  rw [List.getElem?_append] at h
  split at h
  · exact h
  · have hmem := List.mem_of_getElem? h
    rw [List.mem_singleton] at hmem
    cases hmem

/-- Before the first session every property holds of all. -/
theorem allConnected_start (I : ℚ → Timed σ → Prop) : (start settings).AllConnected I :=
  ⟨le_refl _, nofun⟩

/-- A property of sessions that holds of those just opened, that time does not end, and that the
events of a connection preserve under a condition, is preserved by the events of a program. -/
theorem AllConnected.step {I : ℚ → Timed σ → Prop} {G : Link σ → Link.Event ι → Prop}
    (hopen : ∀ now, 0 ≤ now → I now (.start server now))
    (hwait : ∀ now now' t, I now t → now ≤ now' → I now' t)
    (hact : ∀ now t e u, I now t → t.act settings server pause now e = some u → G t.link e →
      I now u)
    {p q : Program σ} {e : Event ι} (hp : p.AllConnected I)
    (h : step settings server pause p e = some q) (he : OfSession G p e) :
    q.AllConnected I := by
  rcases step_cases h with ⟨span, rfl, hspan, rfl⟩ | ⟨due, rfl, -, -, -, rfl⟩ |
    ⟨index, rfl, -, rfl⟩ | ⟨index, rfl, -, rfl⟩ | ⟨index, event, s, u, rfl, hs, hu, rfl⟩ |
    ⟨rfl, rfl⟩
  · refine ⟨add_nonneg hp.nonneg hspan, fun i t ht ↦ ?_⟩
    exact hwait p.now _ t (hp.connected i t ht) (le_add_of_nonneg_right hspan)
  · exact ⟨hp.nonneg, fun i t ht ↦ hp.connected i t (getElem?_append_connecting ht)⟩
  · refine ⟨hp.nonneg, fun i t ht ↦ ?_⟩
    rcases getElem?_set_eq_connected ht with ⟨-, hstart⟩ | ⟨-, hold⟩
    · cases hstart
      exact hopen p.now hp.nonneg
    · exact hp.connected i t hold
  · refine ⟨hp.nonneg, fun i t ht ↦ ?_⟩
    rcases getElem?_set_eq_connected ht with ⟨-, hfailed⟩ | ⟨-, hold⟩
    · cases hfailed
    · exact hp.connected i t hold
  · refine ⟨hp.nonneg, fun i t ht ↦ ?_⟩
    rcases getElem?_set_eq_connected ht with ⟨-, hnew⟩ | ⟨-, hold⟩
    · cases hnew
      exact hact p.now s event u (hp.connected index s hs) hu (he s hs)
    · exact hp.connected i t hold
  · exact ⟨hp.nonneg, hp.connected⟩

/-- An event of a session can happen in a program that runs. -/
theorem step_session {p : Program σ} {index : Nat} {e : Link.Event ι} {t u : Timed σ}
    (hloop : p.loop = .running) (ht : p.tasks[index]? = some (.connected t))
    (hu : t.act settings server pause p.now e = some u) :
    step settings server pause p (.session index e) = some (p.session settings index e t u) := by
  rw [step, hloop, if_neg nofun, ht]
  simp only [hu, Option.map_some]

end Step

end Program

end Esp32WebServers
