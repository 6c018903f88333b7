import Esp32WebServers.Base.CString
import Esp32WebServers.Base.Run
import Esp32WebServers.Response.Format

/-!
# The send buffer of the Netconn server and lwIP

`handle_client` (`web_server/c_netconn/main/tcp_server.c:111–162`) formats every response
in one local array and passes it to `netconn_write` with `NETCONN_NOCOPY`, so that lwIP
keeps a reference: every transmission reads the array as it is at that moment, until the
bytes are acknowledged. The task and lwIP are one step relation here. The array is
the task's own, so one task stands for all of them.
-/

namespace Esp32WebServers.CNetconn.NoCopy

open Base

/-- Where the task stands, named after the call that comes next. -/
inductive Pc where
  | recv
  | snprintf
  | write
  | taskDelete
  | gone
  deriving DecidableEq

/-- A response in lwIP's hands: the text that `snprintf` produced for it, how many of its
bytes `netconn_write` queued, how many have been transmitted, and how many lwIP has no
use for any more. -/
structure Response where
  text : Bytes
  queued : Nat
  sent : Nat
  acked : Nat
  deriving DecidableEq

/-- A transmission of a part of a response and the bytes it read; there are none in memory
that the task has given back. -/
structure Transmission where
  response : Nat
  offset : Nat
  length : Nat
  read : Option Bytes
  deriving DecidableEq

/-- The task with its buffer, the text it formatted last, and lwIP with the responses in
the order of the requests and every transmission so far. -/
structure State where
  pc : Pc
  sendBuf : Bytes
  formatted : Bytes
  responses : List Response
  wire : List Transmission
  deriving DecidableEq

/-- A new task; the buffer is not initialised. -/
def State.start (sendBuf : Bytes) : State := ⟨.recv, sendBuf, [], [], []⟩

/-- Atomic steps. The task: `netconn_recv`, `snprintf` for a heap value, `netconn_write`
with the number of bytes that it queued, `vTaskDelete`. lwIP: a transmission of some of a
response's bytes, an acknowledgement up to an offset, a reset of the connection. -/
inductive Event where
  | recv (ok : Bool)
  | snprintf (heap : UInt32)
  | write (queued : Nat) (ok : Bool)
  | taskDelete
  | transmit (response offset length : Nat)
  | ack (response upTo : Nat)
  | reset
  deriving DecidableEq

/-- The bytes that lwIP finds under its reference. -/
def State.read (s : State) (offset length : Nat) : Option Bytes :=
  if s.pc = .gone then none else some ((s.sendBuf.drop offset).take length)

/-- A part of the text that a response should consist of. -/
def Response.slice (r : Response) (offset length : Nat) : Bytes :=
  (r.text.drop offset).take length

/-- The task and lwIP, one step at a time. A successful `netconn_write` queues
`strlen(send_buf)` bytes, a failing one at most that many. `netconn_close` and
`netconn_delete`, which come before `vTaskDelete`, leave the queued bytes to lwIP. -/
def step : Step State Event
  | s, .recv ok =>
    if s.pc = .recv then some { s with pc := if ok then .snprintf else .taskDelete }
    else none
  | s, .snprintf heap =>
    if s.pc = .snprintf then
      some { s with
        pc := .write
        sendBuf := storeString (response heap) s.sendBuf
        formatted := response heap }
    else none
  | s, .write queued ok =>
    if s.pc = .write ∧ queued ≤ (upToNul s.sendBuf).length ∧
        (ok = true → queued = (upToNul s.sendBuf).length) then
      some { s with
        pc := if ok then .recv else .taskDelete
        responses := s.responses ++ [⟨s.formatted, queued, 0, 0⟩] }
    else none
  | s, .taskDelete =>
    if s.pc = .taskDelete then some { s with pc := .gone } else none
  | s, .transmit response offset length =>
    match s.responses[response]? with
    | none => none
    | some r =>
      if r.acked ≤ offset ∧ 0 < length ∧ offset + length ≤ r.queued then
        some { s with
          responses := s.responses.set response { r with sent := max r.sent (offset + length) }
          wire := s.wire ++ [⟨response, offset, length, s.read offset length⟩] }
      else none
  | s, .ack response upTo =>
    match s.responses[response]? with
    | none => none
    | some r =>
      if r.acked ≤ upTo ∧ upTo ≤ r.sent ∧
          ∀ q ∈ s.responses.take response, q.queued ≤ q.acked then
        some { s with responses := s.responses.set response { r with acked := upTo } }
      else none
  | s, .reset =>
    some { s with responses := s.responses.map fun r ↦ { r with acked := r.queued } }

/-- Every transmission so far carried the text that was formatted for its response, and
every byte that lwIP may still transmit is there to be read in the memory of a living
task. -/
structure Intact (s : State) : Prop where
  sent : ∀ x ∈ s.wire, ∃ r, s.responses[x.response]? = some r ∧
    x.read = some (r.slice x.offset x.length)
  pending : ∀ r ∈ s.responses, ∀ i, r.acked ≤ i → i < r.queued →
    s.pc ≠ .gone ∧ s.sendBuf[i]? = r.text[i]?

/-- The steps that leave lwIP's references alone: a new response agrees with the earlier
ones on every byte of theirs that is not acknowledged yet, as far as the new text with
its terminator reaches; the task ends when every byte is acknowledged. -/
def Undisturbed (s : State) : Event → Prop
  | .snprintf heap => ∀ r ∈ s.responses, ∀ i < r.queued, r.acked ≤ i →
    i ≤ (response heap).length → (response heap)[i]? = r.text[i]?
  | .taskDelete => ∀ r ∈ s.responses, r.queued ≤ r.acked
  | _ => True

/-- Whether a step leaves lwIP's references alone can be computed. -/
instance (s : State) : (e : Event) → Decidable (Undisturbed s e)
  | .snprintf heap => inferInstanceAs (Decidable (∀ r ∈ s.responses, ∀ i < r.queued,
    r.acked ≤ i → i ≤ (response heap).length → (response heap)[i]? = r.text[i]?))
  | .taskDelete => inferInstanceAs (Decidable (∀ r ∈ s.responses, r.queued ≤ r.acked))
  | .recv _ => isTrue trivial
  | .write _ _ => isTrue trivial
  | .transmit _ _ _ => isTrue trivial
  | .ack _ _ => isTrue trivial
  | .reset => isTrue trivial

/-- Where lwIP has no use for any byte any more, the buffer can be formatted again. -/
theorem undisturbed_of_acked {s : State} (h : ∀ r ∈ s.responses, r.queued ≤ r.acked)
    (heap : UInt32) : Undisturbed s (.snprintf heap) := by
  intro r hr i hqueued hacked
  have hdone := h r hr
  omega

/-- The invariant: besides the above, a task about to write has its text in the buffer, and
what was queued is a part of a text without terminator. -/
structure Owned (s : State) : Prop extends Intact s where
  texts : ∀ r ∈ s.responses, NulFree r.text ∧ r.queued ≤ r.text.length
  writing : s.pc = .write →
    NulFree s.formatted ∧ ∃ old, s.sendBuf = storeString s.formatted old

/-- Before the first response lwIP has nothing to transmit. -/
theorem owned_start (sendBuf : Bytes) : Owned (.start sendBuf) := by
  refine ⟨⟨?_, ?_⟩, ?_, ?_⟩
  · intro x hx
    exact absurd hx List.not_mem_nil
  · intro r hr
    exact absurd hr List.not_mem_nil
  · intro r hr
    exact absurd hr List.not_mem_nil
  · intro hpc
    cases hpc

/-- A response later on: the same text and the same bytes queued, and none of them in need
of an acknowledgement again. -/
structure Response.Later (r r' : Response) : Prop where
  text : r'.text = r.text
  queued : r'.queued = r.queued
  acked : ∀ i < r.queued, r'.acked ≤ i → r.acked ≤ i

/-- Progress of lwIP keeps the invariant: in place of every response there is the same one
later on. -/
theorem Owned.later {s : State} (h : Owned s) {responses : List Response}
    (hback : ∀ r' ∈ responses, ∃ r ∈ s.responses, r.Later r')
    (hforth : ∀ (k : Nat) (r : Response), s.responses[k]? = some r →
      ∃ r' : Response, responses[k]? = some r' ∧ r'.text = r.text) :
    Owned { s with responses := responses } := by
  refine ⟨⟨?_, ?_⟩, ?_, h.writing⟩
  · intro x hx
    obtain ⟨r, hr, hread⟩ := h.sent x hx
    obtain ⟨r', hr', htext⟩ := hforth _ _ hr
    refine ⟨r', hr', ?_⟩
    rw [hread, Response.slice, Response.slice, htext]
  · intro r' hr' i hacked hqueued
    obtain ⟨r, hr, hlater⟩ := hback r' hr'
    rw [hlater.queued] at hqueued
    rw [hlater.text]
    exact h.pending r hr i (hlater.acked i hqueued hacked) hqueued
  · intro r' hr'
    obtain ⟨r, hr, hlater⟩ := hback r' hr'
    rw [hlater.text, hlater.queued]
    exact h.texts r hr

/-- Progress on a single response keeps the invariant. -/
theorem Owned.set {s : State} (h : Owned s) {k : Nat} {r r' : Response}
    (hr : s.responses[k]? = some r) (hlater : r.Later r') :
    Owned { s with responses := s.responses.set k r' } := by
  apply h.later
  · intro q hq
    rcases List.mem_or_eq_of_mem_set hq with hq | rfl
    · exact ⟨q, hq, rfl, rfl, fun _ _ hacked ↦ hacked⟩
    · exact ⟨r, List.mem_of_getElem? hr, hlater⟩
  · intro j q hq
    by_cases hj : k = j
    · subst hj
      obtain ⟨hlt, -⟩ := List.getElem?_eq_some_iff.mp hr
      cases Option.some.inj (hr.symm.trans hq)
      exact ⟨r', List.getElem?_set_self hlt, hlater.text⟩
    · exact ⟨q, by rw [List.getElem?_set_ne hj, hq], rfl⟩

/-- What lwIP may transmit it reads rightly. -/
theorem Owned.read {s : State} (h : Owned s) {r : Response} (hr : r ∈ s.responses)
    {offset length : Nat} (hacked : r.acked ≤ offset) (hpos : 0 < length)
    (hqueued : offset + length ≤ r.queued) :
    s.read offset length = some (r.slice offset length) := by
  have hlive := (h.pending r hr offset hacked (by omega)).1
  rw [State.read, if_neg hlive, Response.slice]
  congr 1
  apply List.ext_getElem?
  intro i
  rw [List.getElem?_take, List.getElem?_take]
  split
  · rw [List.getElem?_drop, List.getElem?_drop]
    exact (h.pending r hr (offset + i) (by omega) (by omega)).2
  · rfl

/-- A transmission keeps the invariant, and carries what it should. -/
theorem Owned.transmit {s u : State} {response offset length : Nat} (h : Owned s)
    (hu : step s (.transmit response offset length) = some u) : Owned u := by
  rw [step] at hu
  split at hu
  · cases hu
  · next r hr =>
    split at hu
    · next hc =>
      cases hu
      have hlater : r.Later { r with sent := max r.sent (offset + length) } :=
        ⟨rfl, rfl, fun _ _ hacked ↦ hacked⟩
      have hset := h.set hr hlater
      refine ⟨⟨?_, hset.pending⟩, hset.texts, hset.writing⟩
      intro x hx
      rcases List.mem_append.mp hx with hx | hx
      · exact hset.sent x hx
      · cases List.mem_singleton.mp hx
        obtain ⟨hlt, -⟩ := List.getElem?_eq_some_iff.mp hr
        exact ⟨_, List.getElem?_set_self hlt,
          h.read (List.mem_of_getElem? hr) hc.1 hc.2.1 hc.2.2⟩
    · cases hu

/-- Formatting a text that agrees with the unacknowledged bytes keeps the invariant. -/
theorem Owned.snprintf {s : State} (h : Owned s) {text : Bytes} (hnul : NulFree text)
    (hagree : ∀ r ∈ s.responses, ∀ i < r.queued, r.acked ≤ i → i ≤ text.length →
      text[i]? = r.text[i]?) :
    Owned { s with
      pc := .write
      sendBuf := storeString text s.sendBuf
      formatted := text } := by
  refine ⟨⟨h.sent, ?_⟩, h.texts, fun _ ↦ ⟨hnul, s.sendBuf, rfl⟩⟩
  intro r hr i hacked hqueued
  refine ⟨by simp, ?_⟩
  change (storeString text s.sendBuf)[i]? = r.text[i]?
  rcases Nat.lt_trichotomy i text.length with hlt | heq | hgt
  · rw [getElem?_storeString_of_lt _ hlt]
    exact hagree r hr i hqueued hacked (Nat.le_of_lt hlt)
  · -- Under the new terminator there would be no byte of the earlier text.
    have hbyte := hagree r hr i hqueued hacked (Nat.le_of_eq heq)
    have hlen := (h.texts r hr).2
    rw [List.getElem?_eq_none (by omega), List.getElem?_eq_getElem (by omega)] at hbyte
    cases hbyte
  · rw [getElem?_storeString_of_gt _ hgt]
    exact (h.pending r hr i hacked hqueued).2

/-- `netconn_write` hands over bytes that are in the buffer. -/
theorem Owned.write {s u : State} {queued : Nat} {ok : Bool} (h : Owned s)
    (hu : step s (.write queued ok) = some u) : Owned u := by
  rw [step] at hu
  split at hu
  · next hc =>
    cases hu
    obtain ⟨hpc, hqueued, -⟩ := hc
    obtain ⟨hnul, old, hbuf⟩ := h.writing hpc
    rw [hbuf, upToNul_storeString old hnul] at hqueued
    have hlive : (if ok then Pc.recv else .taskDelete) ≠ .gone := by cases ok <;> simp
    have hidle : (if ok then Pc.recv else .taskDelete) ≠ .write := by cases ok <;> simp
    refine ⟨⟨?_, ?_⟩, ?_, fun hwrite ↦ absurd hwrite hidle⟩
    · intro x hx
      obtain ⟨r, hr, hread⟩ := h.sent x hx
      obtain ⟨hlt, -⟩ := List.getElem?_eq_some_iff.mp hr
      exact ⟨r, by rw [List.getElem?_append_left hlt, hr], hread⟩
    · intro r hr i hacked hlt
      refine ⟨hlive, ?_⟩
      rcases List.mem_append.mp hr with hr | hr
      · exact (h.pending r hr i hacked hlt).2
      · cases List.mem_singleton.mp hr
        change s.sendBuf[i]? = s.formatted[i]?
        rw [hbuf]
        exact getElem?_storeString_of_lt old (Nat.lt_of_lt_of_le hlt hqueued)
    · intro r hr
      rcases List.mem_append.mp hr with hr | hr
      · exact h.texts r hr
      · cases List.mem_singleton.mp hr
        exact ⟨hnul, hqueued⟩
  · cases hu

/-- Every undisturbed step keeps the invariant. -/
theorem Owned.step {s u : State} {e : Event} (h : Owned s)
    (hu : NoCopy.step s e = some u) (he : Undisturbed s e) : Owned u := by
  cases e with
  | recv ok =>
    rw [NoCopy.step] at hu
    split at hu
    · next hpc =>
      cases hu
      have hlive : s.pc ≠ .gone := by simp [hpc]
      refine ⟨⟨h.sent, ?_⟩, h.texts, ?_⟩
      · intro r hr i hacked hqueued
        exact ⟨by cases ok <;> simp, (h.pending r hr i hacked hqueued).2⟩
      · intro hwrite
        cases ok <;> cases hwrite
    · cases hu
  | snprintf heap =>
    rw [NoCopy.step] at hu
    split at hu
    · cases hu
      exact h.snprintf (CBsd.nulFree_response heap) he
    · cases hu
  | write queued ok => exact h.write hu
  | taskDelete =>
    rw [NoCopy.step] at hu
    split at hu
    · cases hu
      refine ⟨⟨h.sent, ?_⟩, h.texts, by simp⟩
      intro r hr i hacked hqueued
      have hdone := he r hr
      omega
    · cases hu
  | transmit response offset length => exact h.transmit hu
  | ack response upTo =>
    rw [NoCopy.step] at hu
    split at hu
    · cases hu
    · next r hr =>
      split at hu
      · next hc =>
        cases hu
        exact h.set hr ⟨rfl, rfl, fun _ _ hacked ↦ Nat.le_trans hc.1 hacked⟩
      · cases hu
  | reset =>
    rw [NoCopy.step] at hu
    cases hu
    apply h.later
    · intro r' hr'
      obtain ⟨r, hr, rfl⟩ := List.mem_map.mp hr'
      refine ⟨r, hr, rfl, rfl, ?_⟩
      intro i hqueued hacked
      exact absurd hqueued (Nat.not_lt.mpr hacked)
    · intro k r hr
      exact ⟨{ r with acked := r.queued }, by rw [List.getElem?_map, hr]; rfl, rfl⟩

/-- Formatting over a byte that lwIP may still transmit leaves a wrong byte there. -/
theorem Owned.undisturbed_snprintf {s : State} (h : Owned s) {text : Bytes}
    (hintact : Intact { s with
      pc := .write
      sendBuf := storeString text s.sendBuf
      formatted := text }) :
    ∀ r ∈ s.responses, ∀ i < r.queued, r.acked ≤ i → i ≤ text.length →
      text[i]? = r.text[i]? := by
  intro r hr i hqueued hacked hle
  have hbyte : (storeString text s.sendBuf)[i]? = r.text[i]? :=
    (hintact.pending r hr i hacked hqueued).2
  rcases Nat.lt_or_eq_of_le hle with hlt | rfl
  · rw [← hbyte, getElem?_storeString_of_lt _ hlt]
  · -- The terminator is no byte of the earlier text.
    rw [getElem?_storeString_length] at hbyte
    exact absurd rfl ((h.texts r hr).1 0 (List.mem_of_getElem? hbyte.symm))

/-- After a step that disturbs lwIP's references something is wrong. -/
theorem Owned.undisturbed {s u : State} {e : Event} (h : Owned s)
    (hu : NoCopy.step s e = some u) (hintact : Intact u) : Undisturbed s e := by
  cases e with
  | snprintf heap =>
    rw [NoCopy.step] at hu
    split at hu
    · cases hu
      exact h.undisturbed_snprintf hintact
    · cases hu
  | taskDelete =>
    rw [NoCopy.step] at hu
    split at hu
    · cases hu
      intro r hr
      by_contra hlt
      exact (hintact.pending r hr r.acked (Nat.le_refl _) (by omega)).1 rfl
    · cases hu
  | recv ok => trivial
  | write queued ok => trivial
  | transmit response offset length => trivial
  | ack response upTo => trivial
  | reset => trivial

/-- For every run of the task and lwIP, in any order and with any requests, heap values,
transmissions and acknowledgements: all transmissions carry the formatted texts, and so would
every transmission that lwIP may still make, in every state of the run if and only if every step
leaves lwIP's references alone. The step from left to right is about the transmissions that lwIP
may still make; for the ones made in the run, leaving the references alone is enough. -/
theorem intact_iff_undisturbed (sendBuf : Bytes) (es : List Event) (u : State)
    (hrun : Step.run step (.start sendBuf) es = some u) :
    Step.Always step Intact (.start sendBuf) es ↔
      Step.Guarded step Undisturbed (.start sendBuf) es :=
  Step.always_iff_guarded (fun _ h ↦ h.toIntact) (fun _ _ _ h hu he ↦ h.step hu he)
    (fun _ _ _ h hu hintact ↦ h.undisturbed hu hintact) (owned_start sendBuf) hrun

/-- A client that sends its next request after the response. -/
def lockStep (heap₁ heap₂ : UInt32) : List Event :=
  [.recv true, .snprintf heap₁, .write (response heap₁).length true,
    .transmit 0 0 (response heap₁).length, .ack 0 (response heap₁).length, .recv true,
    .snprintf heap₂]

/-- A client that sends a second request before the first response arrives, which has to
be sent again. -/
def pipelined (heap₁ heap₂ : UInt32) : List Event :=
  [.recv true, .snprintf heap₁, .write (response heap₁).length true,
    .transmit 0 0 (response heap₁).length, .recv true, .snprintf heap₂,
    .transmit 0 0 (response heap₁).length]

/-- A client that closes the connection behind its request. -/
def requestThenClose (heap : UInt32) : List Event :=
  [.recv true, .snprintf heap, .write (response heap).length true, .recv false,
    .taskDelete, .transmit 0 0 (response heap).length]

/-- A transmission with other bytes than its response's. -/
private theorem not_intact_of_read {s : State} {x : Transmission} {r : Response}
    (hx : x ∈ s.wire) (hr : s.responses[x.response]? = some r)
    (hread : x.read ≠ some (r.slice x.offset x.length)) : ¬ Intact s := by
  intro h
  obtain ⟨r', hr', hread'⟩ := h.sent x hx
  cases Option.some.inj (hr.symm.trans hr')
  exact hread hread'

/-! ### Three runs

The lemmas call the text of the first response by a name of its own, so that no step of their
proofs evaluates it. -/

section Runs

variable {heap₁ heap₂ : UInt32} {text : Bytes} (htext : response heap₁ = text)

include htext

private theorem upToNul_text (old : Bytes) : upToNul (storeString text old) = text := by
  rw [← htext]
  exact upToNul_storeString old (CBsd.nulFree_response heap₁)

variable (hpos : 0 < text.length)

include hpos

/-- A client that waits for each response gets to the second one. -/
private theorem run_lockStep : Step.run step (.start []) (lockStep heap₁ heap₂) =
    some ⟨.write, storeString (response heap₂) (storeString text []), response heap₂,
      [⟨text, text.length, text.length, text.length⟩], [⟨0, 0, text.length, some text⟩]⟩ := by
  simp [lockStep, Step.run_cons, step, State.start, State.read, htext, upToNul_text htext,
    take_storeString, hpos]

/-- When its next request is read, the response before is acknowledged. -/
private theorem guarded_lockStep :
    Step.Guarded step Undisturbed (.start []) (lockStep heap₁ heap₂) := by
  have hquiet (s : State) : (∀ ok, Undisturbed s (.recv ok)) ∧
      (∀ queued ok, Undisturbed s (.write queued ok)) ∧
      (∀ k offset length, Undisturbed s (.transmit k offset length)) ∧
      ∀ k upTo, Undisturbed s (.ack k upTo) :=
    ⟨fun _ ↦ trivial, fun _ _ ↦ trivial, fun _ _ _ ↦ trivial, fun _ _ ↦ trivial⟩
  simp [lockStep, step, State.start, State.read, htext, upToNul_text htext, hpos, hquiet,
    undisturbed_of_acked]

/-- A retransmission after the next request sends the bytes of a shorter second response. -/
theorem pipelined_overwritten (hnul : NulFree text)
    (hshorter : (response heap₂).length < text.length) :
    ∃ u x, Step.run step (.start []) (pipelined heap₁ heap₂) = some u ∧ x ∈ u.wire ∧
      x.response = 0 ∧ x.read ≠ some text ∧ ¬ Intact u := by
  let overwritten := storeString (response heap₂) (storeString text [])
  let again : Transmission := ⟨0, 0, text.length, some (overwritten.take text.length)⟩
  have hne : again.read ≠ some text := fun h ↦
    take_storeString_ne _ hnul hshorter (Option.some.inj h)
  refine ⟨⟨.write, overwritten, response heap₂, [⟨text, text.length, text.length, 0⟩],
    [⟨0, 0, text.length, some text⟩, again]⟩, again, ?_,
    List.mem_cons_of_mem _ List.mem_cons_self, rfl, hne, ?_⟩
  · simp [pipelined, Step.run_cons, step, State.start, State.read, htext, upToNul_text htext,
      take_storeString, hpos, again, overwritten]
  · apply not_intact_of_read (List.mem_cons_of_mem _ List.mem_cons_self) rfl
    rw [Response.slice, List.drop_zero, List.take_length]
    exact hne

/-- A transmission after the end of the task reads memory that was given back. -/
theorem requestThenClose_gone :
    ∃ u x, Step.run step (.start []) (requestThenClose heap₁) = some u ∧ x ∈ u.wire ∧
      x.response = 0 ∧ x.read = none ∧ ¬ Intact u := by
  refine ⟨⟨.gone, storeString text [], text, [⟨text, text.length, text.length, 0⟩],
    [⟨0, 0, text.length, none⟩]⟩, ⟨0, 0, text.length, none⟩, ?_, List.mem_cons_self, rfl, rfl, ?_⟩
  · simp [requestThenClose, Step.run_cons, step, State.start, State.read, htext,
      upToNul_text htext, hpos]
  · exact not_intact_of_read List.mem_cons_self rfl (by simp)

end Runs

private theorem length_response_pos {heap : UInt32} (h : heap.toNat < 2 ^ 31) :
    0 < (response heap).length := by
  rw [response, CBsd.response_eq h]
  exact Nat.zero_lt_of_lt (lt_length_responseText _)

/-- The responses to a client that waits for each of them. -/
theorem intact_lockStep : Step.Always step Intact (.start []) (lockStep 100000 99999) := by
  have hpos : 0 < (response 100000).length := length_response_pos (by decide)
  exact (intact_iff_undisturbed [] _ _ (run_lockStep rfl hpos)).mpr (guarded_lockStep rfl hpos)

/-- A retransmission after the next request carries other bytes than the response's, and a
transmission after the end of the task reads memory that was given back. -/
theorem not_intact_pipelined_requestThenClose :
    (∃ u x, Step.run step (.start []) (pipelined 100000 99999) = some u ∧ x ∈ u.wire ∧
      x.response = 0 ∧ x.read ≠ some (response 100000) ∧ ¬ Intact u) ∧
    (∃ u x, Step.run step (.start []) (requestThenClose 100000) = some u ∧ x ∈ u.wire ∧
      x.response = 0 ∧ x.read = none ∧ ¬ Intact u) := by
  have hpos : 0 < (response 100000).length := length_response_pos (by decide)
  have hdigits : (decimal 99999).length = 5 ∧ (decimal 100000).length = 6 ∧
      (decimal 16).length = 2 ∧ (decimal 17).length = 2 := by decide
  have hshorter : (response 99999).length < (response 100000).length := by
    rw [response, response, CBsd.response_eq (by decide), CBsd.response_eq (by decide)]
    change (responseText 99999).length < (responseText 100000).length
    simp only [length_responseText, length_heapBody, hdigits]
    decide
  exact ⟨pipelined_overwritten rfl hpos (CBsd.nulFree_response 100000) hshorter,
    requestThenClose_gone rfl hpos⟩

end Esp32WebServers.CNetconn.NoCopy
