import Esp32WebServers.Base.Parties
import Esp32WebServers.Connection.Handlers
import Esp32WebServers.Events.ReceiveBuffer
import Esp32WebServers.Events.Sessions
import Esp32WebServers.Response.Format

/-!
# What the callbacks of the Asio server send

The callbacks of a `Session` (`web_server/cpp_asio/main/tcp_server.cpp:88–147`) with the memory
that they work on. A write transmits what `send_buf_` holds when it completes, and a read may
have stored its terminator there. Any number of sessions share the thread of the `io_context`,
and yet each of them sends what a loop over its own reads would send.
-/

namespace Esp32WebServers.CppAsio

open Base

/-- The object of a session: its address, what the library knows of it, its arrays, how many
bytes of `send_buf_` the last write was started with, the offsets of its waits, 0 where it did
not wait, and the responses whose writes have completed. -/
structure SessionObject where
  address : Buffer (1024 + 200)
  session : Session
  members : Members
  outgoing : Nat
  offsets : List Int
  sent : List Bytes

/-- What a pending operation completes with. A read has stored some bytes, or has failed. Where
a handler looks a delay up it meets a stack slot, and where it writes, the free heap. -/
inductive Done where
  | read (received : Option Bytes) (slot : Int) (heap : UInt32)
  | wait (request : Nat) (ok : Bool) (heap : UInt32)
  | write (ok : Bool)

/-- The object when the handler of the accept is done, with any contents of its arrays. -/
def SessionObject.accepted (object : Buffer (1024 + 200) × Members) : SessionObject :=
  ⟨object.1, .ofPhase (.reading 0), object.2, 0, [], []⟩

/-- `Session::write` (`tcp_server.cpp:99–109`) on the arrays. -/
def SessionObject.write (o : SessionObject) (heap : UInt32) : SessionObject :=
  { o with
    members := o.members.format heap
    outgoing := (upToNul (o.members.format heap).sendBuf).length }

/-- What the handler of a completion does to what the library knows, where it can run. -/
def SessionObject.handle (o : SessionObject) (completion : Completion) : Option SessionObject :=
  (o.session.handler completion).bind fun actions ↦
    (Step.run perform o.session actions).map fun x ↦ { o with session := x }

/-- The handlers of a session (`tcp_server.cpp:93–96`, `109–118`, `126–146`), on the arrays and
on what the library knows. A read that succeeds has stored at least one byte. -/
def SessionObject.complete : Step SessionObject Done
  | o, .read none _ _ => o.handle (.read false 0 0)
  | o, .read (some received) slot heap =>
    if received = [] then none
    else
      match getHeaderValue slot ((o.members.receive received).string o.address) delayName with
      | .error _ => none
      | .ok delay =>
        (o.handle (.read true received.length delay)).map fun p ↦
          let p := { p with
            members := p.members.receive received
            offsets := p.offsets ++ [waited delay] }
          if 0 < delay then p else p.write heap
  | o, .wait request ok heap => (o.handle (.wait request ok)).map fun p ↦ p.write heap
  | o, .write ok =>
    (o.handle (.write ok)).map fun p ↦
      if ok then { p with sent := p.sent ++ [p.members.sendBuf.take p.outgoing] } else p

/-- All sessions of the server: one is accepted, or the handler of one of them runs. -/
def sessions : Step (List SessionObject) (Step.Joint (Buffer (1024 + 200) × Members) Done) :=
  Step.table (fun _ ↦ true) SessionObject.accepted SessionObject.complete

/-- The reads that have completed, in their order. -/
def reads : List Done → List (Option Bytes)
  | [] => []
  | .read received _ _ :: es => received :: reads es
  | .wait _ _ _ :: es => reads es
  | .write _ :: es => reads es

/-- What a session has done is what the loop over its reads has done: it is at its read, where
the loop waits for one more; or it waits before the response to its last read or writes this
response, where the loop waits for that read; or it is closed, where the loop is. Only the
response whose write failed is not among those sent. -/
inductive FollowsLoop : SessionObject → List (Option Bytes) → Prop
  | reading {o : SessionObject} {n : Nat} {rounds : List (Round (Option Bytes))}
      {answers : List Answer} (hsession : o.session = .ofPhase (.reading n))
      (hloop : CppAsio.session o.address rounds = (answers, .waiting))
      (hsent : o.sent = answers.map Answer.response)
      (hoffsets : o.offsets = answers.map Answer.delay) :
      FollowsLoop o (rounds.map Round.input)
  | waiting {o : SessionObject} {n : Nat} {rounds : List (Round (Option Bytes))}
      {answers : List Answer} {received : Bytes} {slot delay : Int}
      (hsession : o.session = .ofPhase (.waiting n))
      (hloop : CppAsio.session o.address rounds = (answers, .waiting))
      (hsent : o.sent = answers.map Answer.response)
      (hparse : receivedDelay o.address slot received = .ok delay)
      (hoffsets : o.offsets = answers.map Answer.delay ++ [waited delay]) :
      FollowsLoop o (rounds.map Round.input ++ [some received])
  | writing {o : SessionObject} {n : Nat} {rounds : List (Round (Option Bytes))}
      {answers : List Answer} {received : Bytes} {slot delay : Int} {heap : UInt32}
      (hsession : o.session = .ofPhase (.writing n))
      (hloop : CppAsio.session o.address rounds = (answers, .waiting))
      (hsent : o.sent = answers.map Answer.response)
      (hparse : receivedDelay o.address slot received = .ok delay)
      (hoffsets : o.offsets = answers.map Answer.delay ++ [waited delay])
      (hbytes : o.members.sendBuf.take o.outgoing = response heap) :
      FollowsLoop o (rounds.map Round.input ++ [some received])
  | closed {o : SessionObject} {n : Nat} {rounds : List (Round (Option Bytes))}
      {answers : List Answer} (hsession : o.session = .ofPhase (.closed n))
      (hloop : CppAsio.session o.address rounds = (answers, .closed))
      (hsent : o.sent = answers.map Answer.response ∨
        o.sent = (answers.map Answer.response).dropLast)
      (hoffsets : o.offsets = answers.map Answer.delay) :
      FollowsLoop o (rounds.map Round.input)

/-- The encoder's string contains no terminator, whatever the heap value. -/
theorem nulFree_response (heap : UInt32) : NulFree (response heap) := by
  have hlines : NulFree statusLines := by
    have hresponse := CBsd.nulFree_response 0
    rw [CBsd.response_eq (by decide), responseText, nulFree_append] at hresponse
    exact hresponse.1
  have hformatted : NulFree (formatted heap) := by
    have hfill (contentLen heap : Bytes) : fill 37 105 message [contentLen, heap] =
        statusLines ++ (ascii "Content-Length: " ++
          (contentLen ++ (crlf ++ crlf ++ (ascii "free_heap=" ++ (heap ++ ascii ";"))))) :=
      fill_message contentLen heap
    unfold formatted
    rw [hfill]
    simp only [nulFree_append]
    exact ⟨hlines, by decide, nulFree_decimalInt _, ⟨by decide, by decide⟩, by decide,
      nulFree_decimalInt _, by decide⟩
  intro b hb
  exact hformatted b (List.mem_of_mem_take hb)

namespace SessionObject

variable {o p : SessionObject}

/-- A write leaves what the library knows alone. -/
theorem session_write (o : SessionObject) (heap : UInt32) : (o.write heap).session = o.session := by
  simp only [write]

/-- A write is started with the response. -/
theorem take_sendBuf_write (o : SessionObject) (heap : UInt32) :
    (o.write heap).members.sendBuf.take (o.write heap).outgoing = response heap := by
  have hsendBuf : (o.members.format heap).sendBuf =
      storeString (response heap) o.members.sendBuf := rfl
  simp only [write, hsendBuf, upToNul_storeString _ (nulFree_response heap), take_storeString]

/-- A handler that runs follows the machine of the phases and leaves the memory alone. -/
theorem handle_cases {phase : Phase} {completion : Completion}
    (hsession : o.session = .ofPhase phase) (h : o.handle completion = some p) :
    ∃ next, phase.next completion = some next ∧ p = { o with session := .ofPhase next } := by
  obtain ⟨actions, hactions, hrun⟩ := Option.bind_eq_some_iff.mp h
  obtain ⟨x, hx, rfl⟩ := Option.map_eq_some_iff.mp hrun
  rw [hsession] at hactions hx
  obtain ⟨next, hnext, hleads⟩ := handler_follows hactions
  cases hleads.result.symm.trans hx
  exact ⟨next, hnext, rfl⟩

/-- What a completion can be, with what it needs and what it does. -/
theorem complete_cases {e : Done} (h : complete o e = some p) :
    (∃ slot heap, e = .read none slot heap ∧ o.handle (.read false 0 0) = some p) ∨
      (∃ received slot heap delay q, e = .read (some received) slot heap ∧ received ≠ [] ∧
        getHeaderValue slot ((o.members.receive received).string o.address) delayName =
          .ok delay ∧
        o.handle (.read true received.length delay) = some q ∧
        p = if 0 < delay then
            { q with
              members := q.members.receive received
              offsets := q.offsets ++ [waited delay] }
          else
            SessionObject.write { q with
              members := q.members.receive received
              offsets := q.offsets ++ [waited delay] } heap) ∨
      (∃ request ok heap q, e = .wait request ok heap ∧
        o.handle (.wait request ok) = some q ∧ p = q.write heap) ∨
      (∃ q, e = .write true ∧ o.handle (.write true) = some q ∧
        p = { q with sent := q.sent ++ [q.members.sendBuf.take q.outgoing] }) ∨
      (e = .write false ∧ o.handle (.write false) = some p) := by
  cases e with
  | read received slot heap =>
    cases received with
    | none => exact .inl ⟨slot, heap, rfl, h⟩
    | some received =>
      simp only [complete, Option.ite_none_left_eq_some] at h
      obtain ⟨hne, h⟩ := h
      split at h
      · cases h
      · next delay hparse =>
        obtain ⟨q, hq, rfl⟩ := Option.map_eq_some_iff.mp h
        exact .inr (.inl ⟨received, slot, heap, delay, q, rfl, hne, hparse, hq, rfl⟩)
  | wait request ok heap =>
    obtain ⟨q, hq, rfl⟩ := Option.map_eq_some_iff.mp h
    exact .inr (.inr (.inl ⟨request, ok, heap, q, rfl, hq, rfl⟩))
  | write ok =>
    obtain ⟨q, hq, rfl⟩ := Option.map_eq_some_iff.mp h
    cases ok with
    | true => exact .inr (.inr (.inr (.inl ⟨q, rfl, hq, rfl⟩)))
    | false => exact .inr (.inr (.inr (.inr ⟨rfl, hq⟩)))

end SessionObject

/-! ### The loop of a session -/

/-- Reads are counted event by event. -/
theorem reads_append (es fs : List Done) : reads (es ++ fs) = reads es ++ reads fs := by
  induction es with
  | nil => rfl
  | cons e es ih =>
    cases e with
    | read received slot heap => rw [List.cons_append, reads, reads, ih, List.cons_append]
    | wait request ok heap => rw [List.cons_append, reads, reads, ih]
    | write ok => rw [List.cons_append, reads, reads, ih]

section Loop

variable {address : Buffer (1024 + 200)} {rounds : List (Round (Option Bytes))}
  {answers : List Answer}

/-- A read that fails closes the loop. -/
theorem session_append_failed (h : CppAsio.session address rounds = (answers, .waiting))
    (slot : Int) (heap : UInt32) :
    CppAsio.session address (rounds ++ [⟨none, slot, heap, false⟩]) = (answers, .closed) := by
  rw [CppAsio.session, serve_append h, serve]
  simp only [parse, List.append_nil]

/-- One more read is answered, and the loop goes on if the response can be written. -/
theorem session_append_received (h : CppAsio.session address rounds = (answers, .waiting))
    {received : Bytes} {slot delay : Int}
    (hparse : receivedDelay address slot received = .ok delay) (heap : UInt32) (ok : Bool) :
    CppAsio.session address (rounds ++ [⟨some received, slot, heap, ok⟩]) =
      (answers ++ [⟨waited delay, response heap⟩], if ok then .waiting else .closed) := by
  have hlookup : parse address slot (some received) = .ok (some delay) := by
    rw [parse, hparse]
    rfl
  rw [CppAsio.session, serve_append h, serve]
  simp only [hlookup]
  cases ok with
  | true => rfl
  | false => rfl

end Loop

/-- An accepted session is at its first read. -/
theorem followsLoop_accepted (object : Buffer (1024 + 200) × Members) :
    FollowsLoop (.accepted object) [] :=
  @FollowsLoop.reading (.accepted object) 0 [] [] rfl rfl rfl rfl

private theorem inputs_append (rounds : List (Round (Option Bytes)))
    (r : Round (Option Bytes)) :
    rounds.map Round.input ++ [r.input] = (rounds ++ [r]).map Round.input := by
  rw [List.map_append]
  rfl

section FollowsLoop

variable {o p : SessionObject} {rs : List (Option Bytes)}

/-- A read that fails ends the session. -/
theorem FollowsLoop.readFailed (h : FollowsLoop o rs) (hp : o.handle (.read false 0 0) = some p) :
    FollowsLoop p (rs ++ [none]) := by
  cases h with
  | @reading n rounds answers hsession hloop hsent hoffsets =>
    obtain ⟨next, hnext, rfl⟩ := SessionObject.handle_cases hsession hp
    cases hnext
    have hfailed := session_append_failed hloop 0 0
    have hinput : rounds.map Round.input ++ [none] = _ :=
      inputs_append rounds ⟨none, 0, 0, false⟩
    rw [hinput]
    exact .closed (n := n) rfl hfailed (.inl hsent) hoffsets
  | waiting hsession _ _ _ _ =>
    obtain ⟨next, hnext, -⟩ := SessionObject.handle_cases hsession hp
    cases hnext
  | writing hsession _ _ _ _ _ =>
    obtain ⟨next, hnext, -⟩ := SessionObject.handle_cases hsession hp
    cases hnext
  | closed hsession _ _ _ =>
    obtain ⟨next, hnext, -⟩ := SessionObject.handle_cases hsession hp
    cases hnext

/-- A read that stored some bytes starts the wait or the write for them. -/
theorem FollowsLoop.received (h : FollowsLoop o rs) {q : SessionObject} {received : Bytes}
    {slot delay : Int} (heap : UInt32)
    (hparse : getHeaderValue slot ((o.members.receive received).string o.address) delayName =
      .ok delay) (hq : o.handle (.read true received.length delay) = some q)
    (hp : p = if 0 < delay then
        { q with
          members := q.members.receive received
          offsets := q.offsets ++ [waited delay] }
      else
        SessionObject.write { q with
          members := q.members.receive received
          offsets := q.offsets ++ [waited delay] } heap) :
    FollowsLoop p (rs ++ [some received]) := by
  cases h with
  | @reading n rounds answers hsession hloop hsent hoffsets =>
    obtain ⟨next, hnext, rfl⟩ := SessionObject.handle_cases hsession hq
    simp only [Phase.next, Option.ite_none_right_eq_some, Option.some.injEq, if_true] at hnext
    obtain ⟨hlen, hnext⟩ := hnext
    rw [o.members.getHeaderValue_receive o.address slot hlen] at hparse
    have happend : o.offsets ++ [waited delay] =
        answers.map Answer.delay ++ [waited delay] := by
      rw [hoffsets]
    by_cases hpos : 0 < delay
    · rw [if_pos hpos] at hp hnext
      subst hp hnext
      exact .waiting (n := n) rfl hloop hsent hparse happend
    · rw [if_neg hpos] at hp hnext
      subst hp hnext
      exact .writing (n := n + 1) rfl hloop hsent hparse happend
        (SessionObject.take_sendBuf_write _ heap)
  | waiting hsession _ _ _ _ =>
    obtain ⟨next, hnext, -⟩ := SessionObject.handle_cases hsession hq
    cases hnext
  | writing hsession _ _ _ _ _ =>
    obtain ⟨next, hnext, -⟩ := SessionObject.handle_cases hsession hq
    cases hnext
  | closed hsession _ _ _ =>
    obtain ⟨next, hnext, -⟩ := SessionObject.handle_cases hsession hq
    cases hnext

/-- The end of a wait, also of one that failed, starts the write. -/
theorem FollowsLoop.waited (h : FollowsLoop o rs) {q : SessionObject} {request : Nat} {ok : Bool}
    (hq : o.handle (.wait request ok) = some q) (heap : UInt32) :
    FollowsLoop (q.write heap) rs := by
  cases h with
  | @waiting n rounds answers received slot delay hsession hloop hsent hparse hoffsets =>
    obtain ⟨next, hnext, rfl⟩ := SessionObject.handle_cases hsession hq
    simp only [Phase.next, Option.ite_none_right_eq_some, Option.some.injEq] at hnext
    obtain ⟨-, rfl⟩ := hnext
    exact .writing (n := n + 1) rfl hloop hsent hparse hoffsets
      (SessionObject.take_sendBuf_write _ heap)
  | reading hsession _ _ _ =>
    obtain ⟨next, hnext, -⟩ := SessionObject.handle_cases hsession hq
    cases hnext
  | writing hsession _ _ _ _ _ =>
    obtain ⟨next, hnext, -⟩ := SessionObject.handle_cases hsession hq
    cases hnext
  | closed hsession _ _ _ =>
    obtain ⟨next, hnext, -⟩ := SessionObject.handle_cases hsession hq
    cases hnext

/-- The answers of a loop with one more of them. -/
private theorem map_answers (answers : List Answer) (delay : Int) (bytes : Bytes) :
    (answers ++ [Answer.mk delay bytes]).map Answer.response =
        answers.map Answer.response ++ [bytes] ∧
      (answers ++ [Answer.mk delay bytes]).map Answer.delay =
        answers.map Answer.delay ++ [delay] :=
  ⟨List.map_append, List.map_append⟩

/-- A write that succeeds has sent the response, and the next read is started. -/
theorem FollowsLoop.written (h : FollowsLoop o rs) {q : SessionObject}
    (hq : o.handle (.write true) = some q) :
    FollowsLoop { q with sent := q.sent ++ [q.members.sendBuf.take q.outgoing] } rs := by
  cases h with
  | @writing n rounds answers received slot delay heap hsession hloop hsent hparse hoffsets
      hbytes =>
    obtain ⟨next, hnext, rfl⟩ := SessionObject.handle_cases hsession hq
    cases hnext
    have hmore := session_append_received hloop hparse heap true
    obtain ⟨hresponses, hdelays⟩ := map_answers answers (Esp32WebServers.waited delay)
      (response heap)
    have hinput : rounds.map Round.input ++ [some received] = _ :=
      inputs_append rounds ⟨some received, slot, heap, true⟩
    rw [hinput]
    refine .reading (n := n) rfl hmore ?_ ?_
    · simp only [hresponses, hsent, hbytes]
    · rw [hdelays]
      exact hoffsets
  | reading hsession _ _ _ =>
    obtain ⟨next, hnext, -⟩ := SessionObject.handle_cases hsession hq
    cases hnext
  | waiting hsession _ _ _ _ =>
    obtain ⟨next, hnext, -⟩ := SessionObject.handle_cases hsession hq
    cases hnext
  | closed hsession _ _ _ =>
    obtain ⟨next, hnext, -⟩ := SessionObject.handle_cases hsession hq
    cases hnext

/-- A write that fails ends the session. -/
theorem FollowsLoop.writeFailed (h : FollowsLoop o rs) (hp : o.handle (.write false) = some p) :
    FollowsLoop p rs := by
  cases h with
  | @writing n rounds answers received slot delay heap hsession hloop hsent hparse hoffsets
      hbytes =>
    obtain ⟨next, hnext, rfl⟩ := SessionObject.handle_cases hsession hp
    cases hnext
    have hmore := session_append_received hloop hparse heap false
    obtain ⟨hresponses, hdelays⟩ := map_answers answers (Esp32WebServers.waited delay)
      (response heap)
    have hinput : rounds.map Round.input ++ [some received] = _ :=
      inputs_append rounds ⟨some received, slot, heap, false⟩
    rw [hinput]
    refine .closed (n := n) rfl hmore (.inr ?_) ?_
    · rw [hresponses, List.dropLast_concat]
      exact hsent
    · rw [hdelays]
      exact hoffsets
  | reading hsession _ _ _ =>
    obtain ⟨next, hnext, -⟩ := SessionObject.handle_cases hsession hp
    cases hnext
  | waiting hsession _ _ _ _ =>
    obtain ⟨next, hnext, -⟩ := SessionObject.handle_cases hsession hp
    cases hnext
  | closed hsession _ _ _ =>
    obtain ⟨next, hnext, -⟩ := SessionObject.handle_cases hsession hp
    cases hnext

/-- Every handler keeps a session with its loop. -/
theorem FollowsLoop.complete (h : FollowsLoop o rs) {e : Done}
    (hp : SessionObject.complete o e = some p) : FollowsLoop p (rs ++ reads [e]) := by
  rcases SessionObject.complete_cases hp with ⟨slot, heap, rfl, hq⟩ |
    ⟨received, slot, heap, delay, q, rfl, -, hparse, hq, heq⟩ |
    ⟨request, ok, heap, q, rfl, hq, rfl⟩ | ⟨q, rfl, hq, rfl⟩ | ⟨rfl, hq⟩
  · exact h.readFailed hq
  · exact h.received heap hparse hq heq
  · rw [reads, reads, List.append_nil]
    exact h.waited hq heap
  · rw [reads, reads, List.append_nil]
    exact h.written hq
  · rw [reads, reads, List.append_nil]
    exact h.writeFailed hq

/-- A session stays with its loop over any run of its handlers. -/
theorem FollowsLoop.run (h : FollowsLoop o rs) {es : List Done}
    (hrun : Step.run SessionObject.complete o es = some p) : FollowsLoop p (rs ++ reads es) := by
  induction es generalizing o rs with
  | nil =>
    cases hrun
    rw [reads, List.append_nil]
    exact h
  | cons e es ih =>
    obtain ⟨q, hq, hrest⟩ := Step.run_cons_eq_some.mp hrun
    rw [← List.singleton_append, reads_append, ← List.append_assoc]
    exact ih (h.complete hq) hrest

end FollowsLoop

/-- In every run of the server, with any number of sessions and every interleaving of their
handlers, each session has waited and sent what `session`, the loop over its own reads, waits
and sends; a failed write alone keeps a response from the client. -/
theorem followsLoop_sessions
    {es : List (Step.Joint (Buffer (1024 + 200) × Members) Done)} {objects : List SessionObject}
    (hrun : Step.run sessions [] es = some objects) (index : Nat) (o : SessionObject)
    (ho : objects[index]? = some o) : FollowsLoop o (reads (Step.own index es)) := by
  have hlength := Step.length_of_run hrun
  have hindex : index < (Step.joined es).length := by
    have hlt := (List.getElem?_eq_some_iff.mp ho).1
    rw [List.length_nil] at hlength
    omega
  have hstart : ([] ++ (Step.joined es).map SessionObject.accepted)[index]? =
      some (.accepted (Step.joined es)[index]) := by
    rw [List.nil_append, List.getElem?_map, List.getElem?_eq_getElem hindex, Option.map_some]
  obtain ⟨p, hp, hown⟩ := Step.run_own hrun hstart
  cases hp.symm.trans ho
  exact (followsLoop_accepted _).run hown

/-- Two sessions: the second one, which does not wait, gets its response while the first one
waits. -/
def twoSessions (first second : Buffer (1024 + 200)) :
    List (Step.Joint (Buffer (1024 + 200) × Members) Done) :=
  [.join (first, filled), .join (second, filled),
    .party 0 (.read (some (ascii "GET / HTTP/1.1\r\nDelay: 450\r\n\r\n")) 0 100000),
    .party 1 (.read (some (ascii "GET / HTTP/1.1\r\n\r\n")) 450 200000), .party 1 (.write true),
    .party 0 (.wait 0 true 150000), .party 0 (.write true), .party 1 (.read none 0 0)]

/-- Both sessions follow their loops. -/
theorem followsLoop_twoSessions :
    ∃ objects o p, Step.run sessions []
        (twoSessions ⟨4096, by decide, by decide⟩ ⟨8192, by decide, by decide⟩) = some objects ∧
      objects[0]? = some o ∧
      FollowsLoop o [some (ascii "GET / HTTP/1.1\r\nDelay: 450\r\n\r\n")] ∧
      objects[1]? = some p ∧ FollowsLoop p [some (ascii "GET / HTTP/1.1\r\n\r\n"), none] := by
  have hsome : (Step.run sessions []
      (twoSessions ⟨4096, by decide, by decide⟩ ⟨8192, by decide, by decide⟩)).isSome = true := by
    decide +kernel
  obtain ⟨objects, hrun⟩ := Option.isSome_iff_exists.mp hsome
  have hlength : objects.length = 2 := Step.length_of_run hrun
  obtain ⟨o, ho⟩ : ∃ o, objects[0]? = some o := ⟨_, List.getElem?_eq_getElem (by omega)⟩
  obtain ⟨p, hp⟩ : ∃ p, objects[1]? = some p := ⟨_, List.getElem?_eq_getElem (by omega)⟩
  exact ⟨objects, o, p, hrun, ho, followsLoop_sessions hrun 0 o ho, hp,
    followsLoop_sessions hrun 1 p hp⟩

/-! ### The library's view -/

private theorem step_session {s : State} {o p : SessionObject} {index : Nat}
    {completion : Completion} (ho : s.sessions[index]? = some o.session)
    (h : o.handle completion = some p) :
    step s (.session index completion) =
      some { s with sessions := s.sessions.set index p.session } := by
  obtain ⟨actions, hactions, hrun⟩ := Option.bind_eq_some_iff.mp h
  obtain ⟨x, hx, rfl⟩ := Option.map_eq_some_iff.mp hrun
  simp only [step, ho, Option.bind_some, hactions, hx, Option.map_some]

/-- What a handler does to a session is what the library sees of it. -/
theorem exists_step {s : State} {o p : SessionObject} {index : Nat} {e : Done}
    (ho : s.sessions[index]? = some o.session) (h : o.complete e = some p) :
    ∃ completion, step s (.session index completion) =
      some { s with sessions := s.sessions.set index p.session } := by
  rcases SessionObject.complete_cases h with ⟨slot, heap, rfl, hq⟩ |
    ⟨received, slot, heap, delay, q, rfl, -, -, hq, rfl⟩ | ⟨request, ok, heap, q, rfl, hq, rfl⟩ |
    ⟨q, rfl, hq, rfl⟩ | ⟨rfl, hq⟩
  · exact ⟨_, step_session ho hq⟩
  · have hstep := step_session ho hq
    split
    · exact ⟨_, hstep⟩
    · rw [SessionObject.session_write]
      exact ⟨_, hstep⟩
  · rw [SessionObject.session_write]
    exact ⟨_, step_session ho hq⟩
  · have hstep := step_session ho hq
    exact ⟨_, hstep⟩
  · exact ⟨_, step_session ho hq⟩

/-- The runs of the sessions with their memory are runs of the server of the library's view, in
which one accept is always pending. -/
theorem exists_run {es : List (Step.Joint (Buffer (1024 + 200) × Members) Done)}
    {objects : List SessionObject} (hrun : Step.run sessions [] es = some objects) :
    ∃ events, Step.run step .start events = some ⟨1, objects.map SessionObject.session⟩ := by
  have hgeneral (os : List SessionObject) (hos : Step.run sessions os es = some objects) :
      ∃ events, Step.run step ⟨1, os.map SessionObject.session⟩ events =
        some ⟨1, objects.map SessionObject.session⟩ := by
    clear hrun
    induction es generalizing os with
    | nil =>
      cases hos
      exact ⟨[], rfl⟩
    | cons e es ih =>
      obtain ⟨ps, hps, hrest⟩ := Step.run_cons_eq_some.mp hos
      obtain ⟨events, hevents⟩ := ih ps hrest
      obtain ⟨-, ⟨object, rfl, rfl⟩ | ⟨index, event, o, p, rfl, ho, hp, rfl⟩⟩ :=
        Step.table_cases hps
      · refine ⟨.accept true :: events, Step.run_cons_eq_some.mpr ⟨_, ?_, hevents⟩⟩
        rw [List.map_append]
        rfl
      · have hsession : (os.map SessionObject.session)[index]? = some o.session := by
          rw [List.getElem?_map, ho, Option.map_some]
        obtain ⟨completion, hstep⟩ :=
          exists_step (s := ⟨1, os.map SessionObject.session⟩) hsession hp
        refine ⟨.session index completion :: events, Step.run_cons_eq_some.mpr ⟨_, hstep, ?_⟩⟩
        rw [List.map_set] at hevents
        exact hevents
  exact hgeneral [] hrun

end Esp32WebServers.CppAsio
