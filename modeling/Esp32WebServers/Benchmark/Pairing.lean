import Esp32WebServers.Base.Run
import Esp32WebServers.Response.Format

/-!
# How the benchmark clients pair responses with requests

`start_session` of `benchmark/iot_benchmark.py:78–117` and of
`benchmark/connection_benchmark.py:55–93`: each session sends a request, takes what one
`reader.read(1024)` returns for the response and writes the heap value in it to a row. Where
`pars_result` finds none, the exception ends the session and stops the event loop of all
sessions. The server answers every request with one complete response and keeps the connection
open; how TCP cuts the responses into segments, and when they arrive, is left open. The main
result says for which arrivals every session records exactly what the server sent.
-/

namespace Esp32WebServers.Benchmark

open Base

/-- The two client programs. `DELAY_BETWEEN_REQUESTS` of `connection_benchmark.py:32` decides
whether a session waits behind its row. -/
inductive Client where
  | iot
  | connection (delayBetweenRequests : Rat)

/-- Whether a session awaits `reader.read(1)` after a row
(`benchmark/connection_benchmark.py:85–86`). -/
def Client.stays : Client → Bool
  | .iot => false
  | .connection delayBetweenRequests => delayBetweenRequests == 0

/-- Where a session is: at the head of its loop, at `reader.read(1024)`, at `reader.read(1)`, or
ended by an exception. -/
inductive Phase where
  | request
  | read
  | stay
  | ended
  deriving DecidableEq

/-- A session: the heap values in the answers of the server, the bytes of the answers under way
and in the buffer of the reader, and the values of its rows. -/
structure Session where
  heaps : List UInt32
  inFlight : Bytes
  buffer : Bytes
  rows : List Bytes
  phase : Phase
  deriving DecidableEq

/-- A session whose connection is open. -/
def Session.opened : Session := ⟨[], [], [], [], .request⟩

/-- What happens to a session: it sends a request, which the server answers; TCP delivers some
bytes; one of the two reads returns. -/
inductive Action where
  | request (heap : UInt32)
  | arrive (count : Nat)
  | read
  | readOne
  deriving DecidableEq

namespace Session

/-- `writer.write(message)` (`benchmark/iot_benchmark.py:102`) and the response to it. -/
def request (x : Session) (heap : UInt32) : Session :=
  { x with
    heaps := x.heaps ++ [heap]
    inFlight := x.inFlight ++ responseText heap.toNat
    phase := .read }

/-- Bytes from the connection go to the buffer of the reader. -/
def arrive (x : Session) (count : Nat) : Session :=
  { x with
    inFlight := x.inFlight.drop count
    buffer := x.buffer ++ x.inFlight.take count }

/-- What is read is parsed and written to a row (`benchmark/iot_benchmark.py:103–110`); without
a match `group` raises. The response is ASCII, and so `decode` does not. -/
def read (client : Client) (x : Session) : Session :=
  match parsResult (x.buffer.take 1024) with
  | some freeHeapSpace =>
    { x with
      buffer := x.buffer.drop 1024
      rows := x.rows ++ [freeHeapSpace]
      phase := if client.stays then .stay else .request }
  | none => { x with buffer := x.buffer.drop 1024, phase := .ended }

/-- One more byte is dropped, and the loop goes on. -/
def readOne (x : Session) : Session :=
  { x with buffer := x.buffer.drop 1, phase := .request }

/-- The actions of a session, where they can happen: a read returns as soon as there is a byte
in the buffer, and TCP delivers at least one byte of those under way. -/
def act (client : Client) : Step Session Action
  | x, .request heap => if x.phase = .request then some (x.request heap) else none
  | x, .arrive count =>
    if 0 < count ∧ count ≤ x.inFlight.length then some (x.arrive count) else none
  | x, .read => if x.phase = .read ∧ x.buffer ≠ [] then some (x.read client) else none
  | x, .readOne => if x.phase = .stay ∧ x.buffer ≠ [] then some x.readOne else none

end Session

/-- All sessions of a run, and whether `loop.stop()` was called. -/
structure State where
  sessions : List Session
  stopped : Bool
  deriving DecidableEq

/-- The client before its first session. -/
def State.start : State := ⟨[], false⟩

/-- A session opens its connection, or an action of a session. -/
inductive Event where
  | opened
  | session (index : Nat) (action : Action)
  deriving DecidableEq

/-- The event loop, one event at a time, until it is stopped. A session that an exception ends
stops it (`benchmark/iot_benchmark.py:114–117`). -/
def step (client : Client) : Step State Event
  | s, .opened => if s.stopped then none else some { s with sessions := s.sessions ++ [.opened] }
  | s, .session index action =>
    if s.stopped then none
    else (s.sessions[index]?).bind fun x ↦
      (x.act client action).map fun y ↦
        ⟨s.sessions.set index y, decide (y.phase = .ended)⟩

/-- The rows for the heap values of some answers. -/
def numerals (heaps : List UInt32) : List Bytes := heaps.map fun heap ↦ decimal heap.toNat

/-- The rows of a session are, one by one, the heap values of the answers to its requests, and
the session has not ended. -/
structure Session.Paired (x : Session) : Prop where
  rows : x.rows <+: numerals x.heaps
  answered : x.phase ≠ .read → x.rows.length = x.heaps.length
  lives : x.phase ≠ .ended

/-- Every session is paired, and the event loop runs. -/
structure Paired (s : State) : Prop where
  sessions : ∀ x ∈ s.sessions, x.Paired
  runs : s.stopped = false

/-- When a session's read returns, the whole response to its request has arrived. -/
def ReadsWhole (s : State) : Event → Prop
  | .session index .read => ∀ x ∈ s.sessions[index]?, x.inFlight = []
  | _ => True

/-! ### Sessions -/

namespace Session

/-- The invariant of a session: outside of a request nothing is under way, and every answer has
its row; within one, the buffer and the bytes under way are the response to it. -/
inductive Clean : Session → Prop
  | request (heaps : List UInt32) : Clean ⟨heaps, [], [], numerals heaps, .request⟩
  | stay (heaps : List UInt32) : Clean ⟨heaps, [], [], numerals heaps, .stay⟩
  | read (heaps : List UInt32) (heap : UInt32) {inFlight buffer : Bytes}
      (h : buffer ++ inFlight = responseText heap.toNat) :
      Clean ⟨heaps ++ [heap], inFlight, buffer, numerals heaps, .read⟩

variable {client : Client} {x : Session}

/-- A response is shorter than what one read takes. -/
theorem length_response_lt (heap : UInt32) : (responseText heap.toNat).length < 1024 := by
  have hheap := heap.toNat_lt
  have hlt : (responseText heap.toNat).length < 200 := length_responseText_lt (by omega)
  omega

private theorem numerals_append (heaps : List UInt32) (heap : UInt32) :
    numerals (heaps ++ [heap]) = numerals heaps ++ [decimal heap.toNat] := List.map_append

private theorem length_numerals (heaps : List UInt32) :
    (numerals heaps).length = heaps.length := List.length_map _

/-- A clean session is paired. -/
theorem Clean.paired (h : Clean x) : x.Paired := by
  cases h with
  | request heaps => exact ⟨List.prefix_refl _, fun _ ↦ length_numerals heaps, nofun⟩
  | stay heaps => exact ⟨List.prefix_refl _, fun _ ↦ length_numerals heaps, nofun⟩
  | read heaps heap _ =>
    refine ⟨?_, fun h ↦ absurd rfl h, nofun⟩
    rw [numerals_append]
    exact List.prefix_append _ _

/-- A request of a clean session is answered. -/
theorem Clean.request_answered (h : Clean x) (hphase : x.phase = .request) (heap : UInt32) :
    Clean (x.request heap) := by
  cases h with
  | request heaps =>
    apply Clean.read
    rw [List.nil_append, List.nil_append]
  | stay heaps => cases hphase
  | read heaps heap _ => cases hphase

/-- Bytes that arrive are bytes of the response. -/
theorem Clean.arrives (h : Clean x) {count : Nat} (hpos : 0 < count)
    (hle : count ≤ x.inFlight.length) : Clean (x.arrive count) := by
  cases h with
  | request heaps => exact absurd hle (Nat.not_le_of_lt hpos)
  | stay heaps => exact absurd hle (Nat.not_le_of_lt hpos)
  | read heaps heap h =>
    apply Clean.read
    rw [List.append_assoc, List.take_append_drop, h]

/-- A whole response gives its row. -/
theorem Clean.reads (h : Clean x) (hphase : x.phase = .read) (hall : x.inFlight = []) :
    Clean (x.read client) := by
  cases h with
  | request heaps => cases hphase
  | stay heaps => cases hphase
  | read heaps heap h =>
    simp only at hall
    rw [hall, List.append_nil] at h
    have hlen := length_response_lt heap
    have htake : (responseText heap.toNat).take 1024 = responseText heap.toNat :=
      List.take_of_length_le (by omega)
    have hdrop : (responseText heap.toNat).drop 1024 = [] := List.drop_of_length_le (by omega)
    simp only [Session.read, h, htake, hdrop, parsResult_responseText, ← numerals_append, hall]
    cases client.stays with
    | true => exact .stay _
    | false => exact .request _

/-- A clean session that waits for one more byte does not get any. -/
theorem Clean.not_readOne (h : Clean x) (hphase : x.phase = .stay) : x.buffer = [] := by
  cases h with
  | request heaps => cases hphase
  | stay heaps => rfl
  | read heaps heap _ => cases hphase

/-- A part of a response ends the session. -/
theorem Clean.read_ended (h : Clean x) (hphase : x.phase = .read) (hpart : x.inFlight ≠ []) :
    (x.read client).phase = .ended := by
  cases h with
  | request heaps => cases hphase
  | stay heaps => cases hphase
  | read heaps heap h =>
    rename_i inFlight buffer
    have hlen := length_response_lt heap
    have hlength := congrArg List.length h
    rw [List.length_append] at hlength
    have htake : buffer.take 1024 = buffer := List.take_of_length_le (by omega)
    simp only [Session.read, htake, parsResult_of_cut h hpart]

/-- What an action can be, with what it needs and what it does. -/
theorem act_cases {y : Session} {a : Action} (h : x.act client a = some y) :
    (∃ heap, a = .request heap ∧ x.phase = .request ∧ y = x.request heap) ∨
      (∃ count, a = .arrive count ∧ 0 < count ∧ count ≤ x.inFlight.length ∧ y = x.arrive count) ∨
      (a = .read ∧ x.phase = .read ∧ x.buffer ≠ [] ∧ y = x.read client) ∨
      (a = .readOne ∧ x.phase = .stay ∧ x.buffer ≠ [] ∧ y = x.readOne) := by
  cases a with
  | request heap =>
    simp only [act, Option.ite_none_right_eq_some, Option.some.injEq] at h
    exact .inl ⟨heap, rfl, h.1, h.2.symm⟩
  | arrive count =>
    simp only [act, Option.ite_none_right_eq_some, Option.some.injEq] at h
    exact .inr (.inl ⟨count, rfl, h.1.1, h.1.2, h.2.symm⟩)
  | read =>
    simp only [act, Option.ite_none_right_eq_some, Option.some.injEq] at h
    exact .inr (.inr (.inl ⟨rfl, h.1.1, h.1.2, h.2.symm⟩))
  | readOne =>
    simp only [act, Option.ite_none_right_eq_some, Option.some.injEq] at h
    exact .inr (.inr (.inr ⟨rfl, h.1.1, h.1.2, h.2.symm⟩))

/-- Actions keep a session clean if its reads return whole responses. -/
theorem Clean.act {y : Session} {a : Action} (hx : Clean x) (h : x.act client a = some y)
    (hwhole : a = .read → x.inFlight = []) : Clean y := by
  rcases act_cases h with ⟨heap, rfl, hphase, rfl⟩ | ⟨count, rfl, hpos, hle, rfl⟩ |
    ⟨rfl, hphase, -, rfl⟩ | ⟨rfl, hphase, hbuffer, rfl⟩
  · exact hx.request_answered hphase heap
  · exact hx.arrives hpos hle
  · exact hx.reads hphase (hwhole rfl)
  · exact absurd (hx.not_readOne hphase) hbuffer

/-- A read that leaves a session paired returned a whole response. -/
theorem Clean.inFlight_eq_nil {y : Session} (hx : Clean x) (h : x.act client .read = some y)
    (hy : y.Paired) : x.inFlight = [] := by
  by_contra hpart
  rcases act_cases h with ⟨_, ha, -⟩ | ⟨_, ha, -⟩ | ⟨-, hphase, -, rfl⟩ | ⟨ha, -⟩
  · cases ha
  · cases ha
  · exact hy.lives (hx.read_ended hphase hpart)
  · cases ha

end Session

/-! ### The event loop -/

section Loop

variable {client : Client} {s t : State}

/-- What an event can be, with what it needs and what it does. -/
theorem step_cases {e : Event} (h : step client s e = some t) :
    s.stopped = false ∧
      ((e = .opened ∧ t = { s with sessions := s.sessions ++ [.opened] }) ∨
        ∃ index a x y, e = .session index a ∧ s.sessions[index]? = some x ∧
          x.act client a = some y ∧
          t = ⟨s.sessions.set index y, decide (y.phase = .ended)⟩) := by
  cases e with
  | opened =>
    simp only [step, Option.ite_none_left_eq_some, Option.some.injEq] at h
    exact ⟨Bool.not_eq_true _ ▸ h.1, .inl ⟨rfl, h.2.symm⟩⟩
  | session index a =>
    simp only [step, Option.ite_none_left_eq_some, Option.bind_eq_some_iff,
      Option.map_eq_some_iff] at h
    obtain ⟨hruns, x, hx, y, hy, ht⟩ := h
    exact ⟨Bool.not_eq_true _ ▸ hruns, .inr ⟨index, a, x, y, rfl, hx, hy, ht.symm⟩⟩

/-- The invariant: clean sessions, and a loop that runs. -/
structure Orderly (s : State) : Prop where
  sessions : ∀ x ∈ s.sessions, x.Clean
  runs : s.stopped = false

/-- In order, all sessions are paired. -/
theorem Orderly.paired (h : Orderly s) : Paired s :=
  ⟨fun x hx ↦ (h.sessions x hx).paired, h.runs⟩

/-- The client starts without a session. -/
theorem orderly_start : Orderly .start := ⟨List.forall_mem_nil _, rfl⟩

/-- An event keeps the order if a read that returns has a whole response. -/
theorem Orderly.after {e : Event} (hs : Orderly s) (h : step client s e = some t)
    (hwhole : ReadsWhole s e) : Orderly t := by
  obtain ⟨hruns, ⟨rfl, rfl⟩ | ⟨index, a, x, y, rfl, hx, hy, rfl⟩⟩ := step_cases h
  · refine ⟨?_, hruns⟩
    intro x hx
    rcases List.mem_append.mp hx with hold | hnew
    · exact hs.sessions x hold
    · rw [List.mem_singleton.mp hnew]
      exact .request []
  · have hclean : y.Clean := by
      apply (hs.sessions x (List.mem_of_getElem? hx)).act hy
      rintro rfl
      exact hwhole x hx
    refine ⟨?_, decide_eq_false hclean.paired.lives⟩
    intro z hz
    rcases List.mem_or_eq_of_mem_set hz with hold | rfl
    · exact hs.sessions z hold
    · exact hclean

/-- An event that leaves all sessions paired has not cut a response. -/
theorem Orderly.readsWhole {e : Event} (hs : Orderly s) (h : step client s e = some t)
    (ht : Paired t) : ReadsWhole s e := by
  obtain ⟨-, ⟨rfl, -⟩ | ⟨index, a, x, y, rfl, hx, hy, rfl⟩⟩ := step_cases h
  · exact trivial
  · cases a with
    | read =>
      intro z hz
      cases Option.some.inj (hx.symm.trans hz)
      apply (hs.sessions x (List.mem_of_getElem? hx)).inFlight_eq_nil hy
      exact ht.sessions y (List.mem_set (List.getElem?_eq_some_iff.mp hx).1 y)
    | request heap => exact trivial
    | arrive count => exact trivial
    | readOne => exact trivial

/-- Along every run of either client, with any number of sessions and any arrival of the bytes:
every row of every session is the heap value of its own answer, no session ends and the event
loop is not stopped, if and only if every read returns after the whole response has arrived. -/
theorem paired_iff_readsWhole (client : Client) {events : List Event} {s : State}
    (hrun : Step.run (step client) .start events = some s) :
    Step.Always (step client) Paired .start events ↔
      Step.Guarded (step client) ReadsWhole .start events := by
  apply Step.always_iff_guarded (I := Orderly) _ _ _ orderly_start hrun
  · intro s hs
    exact hs.paired
  · intro s e t hs h hwhole
    exact hs.after h hwhole
  · intro s e t hs h ht
    exact hs.readsWhole h ht

end Loop

/-- A first session, a request, a segment of its response, and the read. -/
def firstRead (heap : UInt32) (count : Nat) : List Event :=
  [.opened, .session 0 (.request heap), .session 0 (.arrive count), .session 0 .read]

/-- The session at its read, when the segment has arrived. -/
def firstSession (heap : UInt32) (count : Nat) : Session :=
  ⟨[heap], (responseText heap.toNat).drop count, (responseText heap.toNat).take count, [], .read⟩

private theorem request_opened (heap : UInt32) :
    Session.opened.request heap = ⟨[heap], responseText heap.toNat, [], [], .read⟩ :=
  congrArg (fun bytes ↦ (⟨[heap], bytes, [], [], .read⟩ : Session)) (List.nil_append _)

private theorem arrive_opened (heap : UInt32) (count : Nat) :
    (⟨[heap], responseText heap.toNat, [], [], .read⟩ : Session).arrive count =
      firstSession heap count :=
  congrArg (fun bytes ↦
    (⟨[heap], (responseText heap.toNat).drop count, bytes, [], .read⟩ : Session))
    (List.nil_append _)

section FirstRead

variable (client : Client) (heap : UInt32) {count : Nat}

private theorem step_session {x y : Session} {a : Action} (h : x.act client a = some y) :
    step client ⟨[x], false⟩ (.session 0 a) = some ⟨[y], decide (y.phase = .ended)⟩ := by
  simp [step, h]

private theorem step_lives {x y : Session} {a : Action} (h : x.act client a = some y)
    (hy : y.phase ≠ .ended) : step client ⟨[x], false⟩ (.session 0 a) = some ⟨[y], false⟩ := by
  rw [step_session client h, decide_eq_false hy]

private theorem step_request :
    step client ⟨[.opened], false⟩ (.session 0 (.request heap)) =
      some ⟨[⟨[heap], responseText heap.toNat, [], [], .read⟩], false⟩ := by
  rw [← request_opened]
  exact step_lives client rfl (by simp [Session.request])

private theorem step_arrive (hpos : 0 < count) (hle : count ≤ (responseText heap.toNat).length) :
    step client ⟨[⟨[heap], responseText heap.toNat, [], [], .read⟩], false⟩
      (.session 0 (.arrive count)) = some ⟨[firstSession heap count], false⟩ := by
  have hact : (⟨[heap], responseText heap.toNat, [], [], .read⟩ : Session).act client
      (.arrive count) = some (firstSession heap count) := by
    rw [← arrive_opened, Session.act, if_pos ⟨hpos, hle⟩]
  exact step_lives client hact (by simp [firstSession])

private theorem step_read (hpos : 0 < count) (hle : count ≤ (responseText heap.toNat).length) :
    step client ⟨[firstSession heap count], false⟩ (.session 0 .read) =
      some ⟨[(firstSession heap count).read client],
        decide (((firstSession heap count).read client).phase = .ended)⟩ := by
  apply step_session
  have hbuffer : (responseText heap.toNat).take count ≠ [] := by
    apply List.ne_nil_of_length_pos
    rw [List.length_take]
    omega
  exact if_pos ⟨rfl, hbuffer⟩

/-- The first read can return with any part of the response. -/
theorem run_firstRead (hpos : 0 < count) (hle : count ≤ (responseText heap.toNat).length) :
    Step.run (step client) .start (firstRead heap count) =
      some ⟨[(firstSession heap count).read client],
        decide (((firstSession heap count).read client).phase = .ended)⟩ := by
  have hopened : step client .start .opened = some ⟨[.opened], false⟩ := rfl
  rw [firstRead, Step.run_cons, hopened, Option.bind_some, Step.run_cons, step_request,
    Option.bind_some, Step.run_cons, step_arrive client heap hpos hle, Option.bind_some,
    Step.run_cons, step_read client heap hpos hle]
  rfl

/-- A first segment that is not the whole response stops the event loop. -/
theorem run_firstRead_cut (hpos : 0 < count) (hlt : count < (responseText heap.toNat).length) :
    ∃ s, Step.run (step client) .start (firstRead heap count) = some s ∧
      s.stopped = true ∧ ¬ Paired s := by
  have hclean : (firstSession heap count).Clean := .read [] heap (List.take_append_drop _ _)
  have hpart : (responseText heap.toNat).drop count ≠ [] := by
    apply List.ne_nil_of_length_pos
    rw [List.length_drop]
    omega
  have hended : ((firstSession heap count).read client).phase = .ended :=
    hclean.read_ended rfl hpart
  refine ⟨_, run_firstRead client heap hpos (Nat.le_of_lt hlt), decide_eq_true hended, ?_⟩
  intro h
  exact (h.sessions _ List.mem_cons_self).lives hended

private theorem guarded_firstRead :
    Step.Guarded (step client) ReadsWhole .start
      (firstRead heap (responseText heap.toNat).length) := by
  have hopened : step client .start .opened = some ⟨[.opened], false⟩ := rfl
  have hpos : 0 < (responseText heap.toNat).length :=
    Nat.zero_lt_of_lt (lt_length_responseText heap.toNat)
  simp only [firstRead, Step.guarded_cons, hopened, step_request,
    step_arrive client heap hpos (Nat.le_refl _), Option.mem_some_iff, forall_eq', ReadsWhole,
    true_and, Step.guarded_nil, implies_true, and_true]
  intro x hx
  cases hx
  exact List.drop_length

end FirstRead

/-- A response in one segment, to either client. -/
theorem paired_firstRead :
    Step.Always (step .iot) Paired .start
        (firstRead 123456 (responseText (123456 : UInt32).toNat).length) ∧
      Step.Always (step (.connection 0)) Paired .start
        (firstRead 123456 (responseText (123456 : UInt32).toNat).length) := by
  have hpos := Nat.zero_lt_of_lt (lt_length_responseText (123456 : UInt32).toNat)
  constructor
  · exact (paired_iff_readsWhole .iot (run_firstRead _ _ hpos (Nat.le_refl _))).mpr
      (guarded_firstRead _ _)
  · exact (paired_iff_readsWhole (.connection 0) (run_firstRead _ _ hpos (Nat.le_refl _))).mpr
      (guarded_firstRead _ _)

/-- A response whose first segment ends in front of the content length: the read returns without
the heap value, and the event loop of either client is stopped. -/
theorem not_paired_cut :
    (∃ s, Step.run (step .iot) .start (firstRead 123456 126) = some s ∧
      s.stopped = true ∧ ¬ Paired s) ∧
    ∃ s, Step.run (step (.connection 0)) .start (firstRead 123456 126) = some s ∧
      s.stopped = true ∧ ¬ Paired s := by
  have hlt := lt_length_responseText (123456 : UInt32).toNat
  exact ⟨run_firstRead_cut _ _ (by decide) hlt, run_firstRead_cut _ _ (by decide) hlt⟩

end Esp32WebServers.Benchmark
