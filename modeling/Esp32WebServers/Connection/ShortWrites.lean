import Esp32WebServers.Base.Run
import Esp32WebServers.Connection.EndOfStream
import Esp32WebServers.Response.Format

/-!
# Writes that accept a part of a response

A write on a connection fails or accepts some of the bytes, at least one. `client_handler`
(`web_server/c_bsd/main/tcp_server.c:141–152`) and `write_response`
(`web_server/rust/src/main.rs:147–158`) write a response once and look at nothing but whether
the call failed; the other servers hand the whole response to a call that goes on until all
of it is out (`web_server/cpp_asio/main/tcp_server.cpp:108`,
`web_server/c_netconn/main/tcp_server.c:149`,
`web_server/python_micropython/main/server.py:76`). This module follows a connection from
read to read, with the bytes that were accepted.
-/

namespace Esp32WebServers

open Base

/-- What a successful write of `n` bytes returns. -/
structure Accepted (n : Nat) where
  count : Nat
  pos : 0 < count
  le : count ≤ n

/-- What comes to one pass of a handler's loop from outside, besides the bytes that it reads:
the free heap, and the result of the write of the response, `none` where it fails. -/
structure Pass (respond : UInt32 → Bytes) where
  heap : UInt32
  write : Option (Accepted (respond heap).length)

/-- The number of bytes that a write has accepted. -/
def Pass.accepted {respond : UInt32 → Bytes} (p : Pass respond) : Nat :=
  (p.write.map Accepted.count).getD 0

/-- A write that succeeds accepts its count. -/
theorem Pass.accepted_of_some {respond : UInt32 → Bytes} {p : Pass respond}
    {a : Accepted (respond p.heap).length} (h : p.write = some a) : p.accepted = a.count := by
  rw [accepted, h]
  rfl

/-- A write that fails accepts nothing. -/
theorem Pass.accepted_of_none {respond : UInt32 → Bytes} {p : Pass respond}
    (h : p.write = none) : p.accepted = 0 := by
  rw [accepted, h]
  rfl

/-- A pass whose write accepts the first byte only. -/
def Pass.short (respond : UInt32 → Bytes) (heap : UInt32) (h : 0 < (respond heap).length) :
    Pass respond := ⟨heap, some ⟨1, Nat.one_pos, h⟩⟩

/-- A pass whose write accepts the whole response. -/
def Pass.whole (respond : UInt32 → Bytes) (heap : UInt32) (h : 0 < (respond heap).length) :
    Pass respond := ⟨heap, some ⟨_, h, Nat.le_refl _⟩⟩

/-- A connection: what its handler has not read, the answers that it has made, the bytes that
were accepted, and where the handler is. -/
structure Connection (ρ ε : Type) where
  unread : ρ
  answers : List Answer
  accepted : Bytes
  stop : Stop ε

namespace Connection

variable {ρ ε : Type}

/-- A connection at its first read. -/
def start (unread : ρ) : Connection ρ ε := ⟨unread, [], [], .waiting⟩

/-- The complete responses, one after the other. -/
def produced (c : Connection ρ ε) : Bytes := c.answers.flatMap Answer.response

/-- An answer has been made and `count` bytes of it were accepted. -/
def answer (c : Connection ρ ε) (unread : ρ) (a : Answer) (count : Nat) (goesOn : Bool) :
    Connection ρ ε where
  unread := unread
  answers := c.answers ++ [a]
  accepted := c.accepted ++ a.response.take count
  stop := if goesOn then .waiting else .closed

/-- One pass of a handler's loop, from its read to the next one. `read` takes a request off
what is unread, `none` while the handler waits for more of it; `goesOn` is the decision after
the write. -/
def pass (read : ρ → Option (Except ε (Option Int) × ρ)) (respond : UInt32 → Bytes)
    (goesOn : ∀ n, Option (Accepted n) → Bool) : Step (Connection ρ ε) (Pass respond) := fun c p ↦
  match c.stop with
  | .waiting => (read c.unread).map fun r ↦
    match r.1 with
    | .error e => { c with unread := r.2, stop := .fault e }
    | .ok none => { c with unread := r.2, stop := .closed }
    | .ok (some delay) =>
      c.answer r.2 ⟨waited delay, respond p.heap⟩ p.accepted (goesOn _ p.write)
  | _ => none

end Connection

namespace CBsd

/-- A round's `recv` and lookup, with the former content of the stack slot. -/
def readRequest (recvBuf : Buffer 1024) :
    List (Int × Bytes) → Option (Except Fault (Option Int) × List (Int × Bytes))
  | [] => none
  | (slot, received) :: rest => some (parse recvBuf slot received, rest)

/-- The result of `write`, `web_server/c_bsd/main/tcp_server.c:145`. -/
def write {n : Nat} (result : Option (Accepted n)) : Int :=
  (result.map fun a ↦ (a.count : Int)).getD (-1)

/-- The loop is left where the result is negative, `tcp_server.c:145–149`. -/
def goesOn (n : Nat) (result : Option (Accepted n)) : Bool := ¬ write result < 0

/-- The rounds of `client_handler`, `web_server/c_bsd/main/tcp_server.c:123–152`. -/
def handlerPass (recvBuf : Buffer 1024) :
    Step (Connection (List (Int × Bytes)) Fault) (Pass response) :=
  Connection.pass (readRequest recvBuf) response goesOn

end CBsd

namespace Rust

/-- What a call of `read_request` comes to on the reads to come. -/
def readPass (reads : List Read) : Option (Except Panic (Option Int) × List Read) :=
  match readRequest reads with
  | .error e => some (.error e, [])
  | .ok none => none
  | .ok (some (.err, reads)) => some (.ok none, reads)
  | .ok (some (.ok delay, reads)) => some (.ok (some delay), reads)

/-- The result of `write_response`, `main.rs:147–158`: that of `stream.write`. The `flush`
behind it does nothing on a `TcpStream`. -/
def writeResponse {n : Nat} (result : Option (Accepted n)) : Except Unit Nat :=
  match result with
  | none => .error ()
  | some a => .ok a.count

/-- The loop is left where the result is an error, `main.rs:127–131`. -/
def goesOn (n : Nat) (result : Option (Accepted n)) : Bool := (writeResponse result).isOk

/-- The iterations of `handle_connection`, `main.rs:118–132`. -/
def connectionPass : Step (Connection (List Read) Panic) (Pass getResponseMessage) :=
  Connection.pass readPass getResponseMessage goesOn

end Rust

/-- Both handlers go on after every write that does not fail. -/
theorem goesOn_eq_isSome (n : Nat) (result : Option (Accepted n)) :
    CBsd.goesOn n result = result.isSome ∧ Rust.goesOn n result = result.isSome := by
  cases result with
  | none => exact ⟨rfl, rfl⟩
  | some a =>
    refine ⟨?_, rfl⟩
    simp [CBsd.goesOn, CBsd.write]

namespace Connection

variable {ρ ε : Type}

/-- While the handler is at its read, all bytes of all responses have been accepted; whatever
was accepted is the beginning of the responses. -/
structure WholeOrEnd (c : Connection ρ ε) : Prop where
  whole : c.stop = .waiting → c.accepted = c.produced
  isPrefix : c.accepted <+: c.produced

section Pass

variable {read : ρ → Option (Except ε (Option Int) × ρ)} {respond : UInt32 → Bytes}
  {goesOn : ∀ n, Option (Accepted n) → Bool}

/-- A write that the handler gets to fails or accepts the whole response. -/
def WritesWhole (read : ρ → Option (Except ε (Option Int) × ρ)) (c : Connection ρ ε)
    (p : Pass respond) : Prop :=
  ∀ delay rest, read c.unread = some (.ok (some delay), rest) →
    ∀ a ∈ p.write, a.count = (respond p.heap).length

/-- What a pass can do: stop with a fault or after a failed read, or answer. -/
theorem pass_cases {c d : Connection ρ ε} {p : Pass respond}
    (h : pass read respond goesOn c p = some d) :
    c.stop = .waiting ∧
      ((∃ e rest, read c.unread = some (.error e, rest) ∧
          d = { c with unread := rest, stop := .fault e }) ∨
        (∃ rest, read c.unread = some (.ok none, rest) ∧
          d = { c with unread := rest, stop := .closed }) ∨
        ∃ delay rest, read c.unread = some (.ok (some delay), rest) ∧
          d = c.answer rest ⟨waited delay, respond p.heap⟩ p.accepted (goesOn _ p.write)) := by
  unfold pass at h
  split at h
  · next hstop =>
    obtain ⟨⟨result, rest⟩, hread, rfl⟩ := Option.map_eq_some_iff.mp h
    refine ⟨hstop, ?_⟩
    rcases result with e | _ | delay
    · exact .inl ⟨e, rest, hread, rfl⟩
    · exact .inr (.inl ⟨rest, hread, rfl⟩)
    · exact .inr (.inr ⟨delay, rest, hread, rfl⟩)
  · cases h

/-- A pass answers a request that it reads. -/
theorem pass_of_request {c : Connection ρ ε} (p : Pass respond) {delay : Int} {rest : ρ}
    (hstop : c.stop = .waiting) (hread : read c.unread = some (.ok (some delay), rest)) :
    pass read respond goesOn c p =
      some (c.answer rest ⟨waited delay, respond p.heap⟩ p.accepted (goesOn _ p.write)) := by
  simp only [pass, hstop, hread, Option.map_some]

/-- A handler that is out of its loop makes no more passes. -/
theorem run_of_stopped {c d : Connection ρ ε} {passes : List (Pass respond)}
    (hstop : c.stop ≠ .waiting)
    (h : Step.run (pass read respond goesOn) c passes = some d) : passes = [] ∧ d = c := by
  cases passes with
  | nil => exact ⟨rfl, (Option.some.inj h).symm⟩
  | cons p passes =>
    obtain ⟨e, he, -⟩ := Step.run_cons_eq_some.mp h
    exact absurd (pass_cases he).1 hstop

/-- The answers after one more. -/
@[simp] theorem answers_answer (c : Connection ρ ε) (unread : ρ) (a : Answer) (count : Nat)
    (goesOn : Bool) : (c.answer unread a count goesOn).answers = c.answers ++ [a] := rfl

/-- The accepted bytes after one more answer. -/
@[simp] theorem accepted_answer (c : Connection ρ ε) (unread : ρ) (a : Answer) (count : Nat)
    (goesOn : Bool) :
    (c.answer unread a count goesOn).accepted = c.accepted ++ a.response.take count := rfl

/-- Where the handler is after an answer. -/
@[simp] theorem stop_answer (c : Connection ρ ε) (unread : ρ) (a : Answer) (count : Nat)
    (goesOn : Bool) :
    (c.answer unread a count goesOn).stop = if goesOn then .waiting else .closed := rfl

/-- The responses after one more answer. -/
@[simp] theorem produced_answer (c : Connection ρ ε) (unread : ρ) (a : Answer) (count : Nat)
    (goesOn : Bool) : (c.answer unread a count goesOn).produced = c.produced ++ a.response := by
  simp [answer, produced]

/-- A connection starts without a response. -/
theorem wholeOrEnd_start (unread : ρ) : WholeOrEnd (start unread : Connection ρ ε) :=
  ⟨fun _ ↦ rfl, List.prefix_refl _⟩

section GoesOn

variable (hgoes : ∀ n (result : Option (Accepted n)), goesOn n result = result.isSome)

include hgoes

/-- A pass that writes all or fails keeps the law. -/
theorem WholeOrEnd.step {c d : Connection ρ ε} {p : Pass respond} (hc : WholeOrEnd c)
    (h : pass read respond goesOn c p = some d) (hwrites : WritesWhole read c p) :
    WholeOrEnd d := by
  obtain ⟨hstop, ⟨e, rest, -, rfl⟩ | ⟨rest, -, rfl⟩ | ⟨delay, rest, hread, rfl⟩⟩ := pass_cases h
  · exact ⟨nofun, hc.isPrefix⟩
  · exact ⟨nofun, hc.isPrefix⟩
  · have hall := hc.whole hstop
    constructor
    · intro hwaiting
      cases hwrite : p.write with
      | none =>
        rw [stop_answer, hgoes, hwrite] at hwaiting
        cases hwaiting
      | some a =>
        have hcount : p.accepted = (respond p.heap).length :=
          (Pass.accepted_of_some hwrite).trans (hwrites delay rest hread a hwrite)
        rw [produced_answer, accepted_answer, hcount, List.take_length, hall]
    · rw [produced_answer, accepted_answer, hall, List.prefix_append_right_inj]
      exact List.take_prefix _ _

/-- A pass that keeps the law has written all or failed. -/
theorem WholeOrEnd.writesWhole {c d : Connection ρ ε} {p : Pass respond}
    (hc : WholeOrEnd c) (h : pass read respond goesOn c p = some d) (hd : WholeOrEnd d) :
    WritesWhole read c p := by
  obtain ⟨hstop, ⟨e, rest, hread, rfl⟩ | ⟨rest, hread, rfl⟩ | ⟨delay, rest, hread, rfl⟩⟩ :=
    pass_cases h
  · intro delay rest' hread'
    cases hread.symm.trans hread'
  · intro delay rest' hread'
    cases hread.symm.trans hread'
  · intro _ _ _ a ha
    have hwaiting : (c.answer rest ⟨waited delay, respond p.heap⟩ p.accepted
        (goesOn _ p.write)).stop = .waiting := by
      rw [hgoes, Option.mem_def.mp ha]
      rfl
    have hlength := congrArg List.length (hd.whole hwaiting)
    have hcount := Pass.accepted_of_some (Option.mem_def.mp ha)
    have hle := a.le
    simp only [produced_answer, accepted_answer, hc.whole hstop, List.length_append,
      List.length_take, hcount] at hlength
    omega

/-- For a handler that goes on after every write that does not fail, the law holds all along a
run if and only if every write that it gets to accepts the whole response or fails. -/
theorem always_wholeOrEnd_iff {unread : ρ} {passes : List (Pass respond)} {c : Connection ρ ε}
    (hrun : Step.run (Connection.pass read respond goesOn) (start unread) passes = some c) :
    Step.Always (Connection.pass read respond goesOn) WholeOrEnd (start unread) passes ↔
      Step.Guarded (Connection.pass read respond goesOn) (WritesWhole read) (start unread)
        passes := by
  apply Step.always_iff_guarded (I := WholeOrEnd) (fun _ h ↦ h) _ _ (wholeOrEnd_start unread) hrun
  · intro c p d hc hstep hwrites
    exact hc.step hgoes hstep hwrites
  · intro c p d hc hstep hd
    exact hc.writesWhole hgoes hstep hd

end GoesOn

/-! ### The lost end of a response -/

/-- Every response starts with a byte that it does not contain again. -/
def Marked (respond : UInt32 → Bytes) (x : UInt8) : Prop :=
  ∀ heap, ∃ tail, respond heap = x :: tail ∧ x ∉ tail

/-- After a part of a response was lost, a write that the handler gets to fails. -/
def FailsAfterLoss (read : ρ → Option (Except ε (Option Int) × ρ)) (c : Connection ρ ε)
    (p : Pass respond) : Prop :=
  ∀ delay rest, read c.unread = some (.ok (some delay), rest) →
    c.accepted = c.produced ∨ p.write = none

/-- What was accepted is the beginning of the responses; while the handler is at its read, what
is missing at their end does not contain the byte that starts a response. -/
structure Lost (x : UInt8) (c : Connection ρ ε) : Prop where
  isPrefix : c.accepted <+: c.produced
  tail : c.stop = .waiting → ∃ lost, c.produced = c.accepted ++ lost ∧ x ∉ lost

private theorem notMem_drop_of_marked {x : UInt8} {r tail : Bytes} (hr : r = x :: tail)
    (hx : x ∉ tail) {n : Nat} (hn : 0 < n) : x ∉ r.drop n := by
  cases n with
  | zero => exact absurd hn (Nat.lt_irrefl 0)
  | succ n =>
    rw [hr, List.drop_succ_cons]
    exact fun h ↦ hx (List.mem_of_mem_drop h)

/-- A pass that loses at most the end keeps the invariant. -/
theorem Lost.step (hgoes : ∀ n (result : Option (Accepted n)), goesOn n result = result.isSome)
    {x : UInt8} (hmarked : Marked respond x) {c d : Connection ρ ε} {p : Pass respond}
    (hc : Lost x c) (h : pass read respond goesOn c p = some d)
    (hfails : FailsAfterLoss read c p) : Lost x d := by
  obtain ⟨-, ⟨e, rest, -, rfl⟩ | ⟨rest, -, rfl⟩ | ⟨delay, rest, hread, rfl⟩⟩ := pass_cases h
  · exact ⟨hc.isPrefix, nofun⟩
  · exact ⟨hc.isPrefix, nofun⟩
  · cases hwrite : p.write with
    | none =>
      constructor
      · rw [produced_answer, accepted_answer, Pass.accepted_of_none hwrite, List.take_zero,
          List.append_nil]
        exact hc.isPrefix.trans (List.prefix_append _ _)
      · intro hwaiting
        rw [hgoes] at hwaiting
        cases hwaiting
    | some a =>
      have hall : c.accepted = c.produced :=
        (hfails delay rest hread).resolve_right (by simp [hwrite])
      have hcount := Pass.accepted_of_some hwrite
      obtain ⟨tail, htail, hx⟩ := hmarked p.heap
      constructor
      · rw [produced_answer, accepted_answer, hall, List.prefix_append_right_inj]
        exact List.take_prefix _ _
      · intro _
        refine ⟨(respond p.heap).drop a.count, ?_, notMem_drop_of_marked htail hx a.pos⟩
        rw [produced_answer, accepted_answer, hall, hcount, List.append_assoc,
          List.take_append_drop]

/-- A pass that leaves a beginning of the responses has not written behind a lost end. -/
theorem Lost.failsAfterLoss {x : UInt8} (hmarked : Marked respond x) {c d : Connection ρ ε}
    {p : Pass respond} (hc : Lost x c) (h : pass read respond goesOn c p = some d)
    (hd : d.accepted <+: d.produced) : FailsAfterLoss read c p := by
  obtain ⟨hstop, ⟨e, rest, hread, rfl⟩ | ⟨rest, hread, rfl⟩ | ⟨delay, rest, hread, rfl⟩⟩ :=
    pass_cases h
  · intro delay rest' hread'
    cases hread.symm.trans hread'
  · intro delay rest' hread'
    cases hread.symm.trans hread'
  · intro _ _ _
    obtain ⟨lost, hlost, hx⟩ := hc.tail hstop
    cases hwrite : p.write with
    | none => exact .inr rfl
    | some a =>
      left
      have hcount := Pass.accepted_of_some hwrite
      obtain ⟨tail, htail, -⟩ := hmarked p.heap
      obtain ⟨n, hn⟩ := Nat.exists_eq_succ_of_ne_zero (Nat.ne_of_gt a.pos)
      rw [produced_answer, accepted_answer, hlost, List.append_assoc,
        List.prefix_append_right_inj, hcount, hn] at hd
      change (respond p.heap).take (n + 1) <+: lost ++ respond p.heap at hd
      rw [htail, List.take_succ_cons] at hd
      -- The first byte of the next response stands where the lost end should begin.
      cases lost with
      | nil => rw [hlost, List.append_nil]
      | cons b lost =>
        rw [List.cons_append, List.cons_prefix_cons] at hd
        exact absurd (hd.1 ▸ List.mem_cons_self) hx

/-- Where the first byte of a response marks it, the accepted bytes are a beginning of the
responses all along a run if and only if no write is accepted after one that was short. -/
theorem always_isPrefix_iff
    (hgoes : ∀ n (result : Option (Accepted n)), goesOn n result = result.isSome)
    {x : UInt8} (hmarked : Marked respond x)
    {unread : ρ} {passes : List (Pass respond)} {c : Connection ρ ε}
    (hrun : Step.run (Connection.pass read respond goesOn) (start unread) passes = some c) :
    Step.Always (Connection.pass read respond goesOn) (fun c ↦ c.accepted <+: c.produced)
        (start unread) passes ↔
      Step.Guarded (Connection.pass read respond goesOn) (FailsAfterLoss read) (start unread)
        passes := by
  have hstart : Lost x (start unread : Connection ρ ε) :=
    ⟨List.prefix_refl _, fun _ ↦ ⟨[], rfl, List.not_mem_nil⟩⟩
  apply Step.always_iff_guarded (I := Lost x) (fun _ h ↦ h.isPrefix) _ _ hstart hrun
  · intro c p d hc hstep hfails
    exact hc.step hgoes hmarked hstep hfails
  · intro c p d hc hstep hd
    exact hc.failsAfterLoss hmarked hstep hd

/-- A write that accepts everything is whole. -/
theorem writesWhole_whole (c : Connection ρ ε) (heap : UInt32) (h : 0 < (respond heap).length) :
    WritesWhole read c (.whole respond heap h) := by
  intro delay rest _ a ha
  cases ha
  rfl

/-- A whole write after a request leaves the handler at its next read. -/
theorem pass_whole (hgoes : ∀ n (result : Option (Accepted n)), goesOn n result = result.isSome)
    {c : Connection ρ ε} {rest : ρ} {delay : Int} (hstop : c.stop = .waiting)
    (hread : read c.unread = some (.ok (some delay), rest)) (heap : UInt32)
    (h : 0 < (respond heap).length) :
    ∃ d, pass read respond goesOn c (.whole respond heap h) = some d ∧ d.stop = .waiting ∧
      d.unread = rest := by
  refine ⟨_, pass_of_request _ hstop hread, ?_, rfl⟩
  rw [stop_answer, hgoes]
  rfl

/-- Two requests are answered one after the other. -/
theorem run_whole (hgoes : ∀ n (result : Option (Accepted n)), goesOn n result = result.isSome)
    {unread₀ unread₁ unread₂ : ρ} {delay₀ delay₁ : Int}
    (hread₀ : read unread₀ = some (.ok (some delay₀), unread₁))
    (hread₁ : read unread₁ = some (.ok (some delay₁), unread₂)) (heap : UInt32)
    (h : 0 < (respond heap).length) :
    ∃ c, Step.run (Connection.pass read respond goesOn) (start unread₀)
      [.whole respond heap h, .whole respond heap h] = some c := by
  have hstart : (start unread₀ : Connection ρ ε).stop = .waiting := rfl
  obtain ⟨c, hfirst, hstop, rfl⟩ := pass_whole hgoes hstart hread₀ heap h
  obtain ⟨d, hsecond, -⟩ := pass_whole hgoes hstop hread₁ heap h
  exact ⟨d, Step.run_cons_eq_some.mpr
    ⟨c, hfirst, Step.run_cons_eq_some.mpr ⟨d, hsecond, rfl⟩⟩⟩

/-- After a response of which only the first byte was accepted, and a whole one, the handler is
at its read, and the accepted bytes are no beginning of the responses. -/
theorem run_short_whole
    (hgoes : ∀ n (result : Option (Accepted n)), goesOn n result = result.isSome)
    {x : UInt8} (hmarked : Marked respond x) {unread₀ unread₁ unread₂ : ρ} {delay₀ delay₁ : Int}
    (hread₀ : read unread₀ = some (.ok (some delay₀), unread₁))
    (hread₁ : read unread₁ = some (.ok (some delay₁), unread₂)) {heap : UInt32}
    (hlen : 1 < (respond heap).length) (h : 0 < (respond heap).length) :
    ∃ c, Step.run (Connection.pass read respond goesOn) (start unread₀)
        [.short respond heap h, .whole respond heap h] = some c ∧
      c.stop = .waiting ∧ ¬ c.accepted <+: c.produced := by
  let c₁ : Connection ρ ε :=
    (start unread₀).answer unread₁ ⟨waited delay₀, respond heap⟩ 1 true
  let c₂ : Connection ρ ε :=
    c₁.answer unread₂ ⟨waited delay₁, respond heap⟩ (respond heap).length true
  have hfirst : pass read respond goesOn (start unread₀) (.short respond heap h) = some c₁ := by
    rw [pass_of_request _ rfl hread₀, hgoes]
    rfl
  have hsecond : pass read respond goesOn c₁ (.whole respond heap h) = some c₂ := by
    rw [pass_of_request _ rfl hread₁, hgoes]
    rfl
  have haccepted : c₂.accepted = (respond heap).take 1 ++ respond heap := by
    simp [c₂, c₁, start]
  have hproduced : c₂.produced = respond heap ++ respond heap := by
    simp [c₂, c₁, start, produced]
  refine ⟨c₂, ?_, rfl, ?_⟩
  · apply Step.run_cons_eq_some.mpr
    exact ⟨c₁, hfirst, Step.run_cons_eq_some.mpr ⟨c₂, hsecond, rfl⟩⟩
  · obtain ⟨tail, htail, hx⟩ := hmarked heap
    rw [htail] at hlen
    rw [haccepted, hproduced, htail]
    intro hbegin
    cases tail with
    | nil => simp at hlen
    | cons b tail =>
      simp only [List.take_succ_cons, List.take_zero, List.cons_append, List.nil_append,
        List.cons_prefix_cons] at hbegin
      exact hx (hbegin.2.1 ▸ List.mem_cons_self)

end Pass

end Connection

/-! ### The handlers of the other modules -/

-- What the two handlers have in common behind an answer.
private theorem answered_of_run {ρ ε : Type}
    {read : ρ → Option (Except ε (Option Int) × ρ)} {respond : UInt32 → Bytes}
    {goesOn : ∀ n, Option (Accepted n) → Bool} {passes : List (Pass respond)}
    {c d : Connection ρ ε} {rest : ρ} {a : Answer} {count : Nat} {written : Bool}
    (result : ρ → List Answer × Stop ε)
    (ih : ∀ {c : Connection ρ ε}, c.stop = .waiting →
      Step.run (Connection.pass read respond goesOn) c passes = some d →
        ∃ made, d.answers = c.answers ++ made ∧ result c.unread = (made, d.stop))
    (h : Step.run (Connection.pass read respond goesOn) (c.answer rest a count written) passes =
      some d) :
    ∃ made, d.answers = c.answers ++ made ∧ a.andThen written (result rest) = (made, d.stop) := by
  cases written with
  | true =>
    obtain ⟨made, hanswers, hresult⟩ := ih rfl h
    refine ⟨a :: made, ?_, ?_⟩
    · rw [hanswers, Connection.answers_answer, List.append_assoc, List.singleton_append]
    · change result rest = (made, d.stop) at hresult
      rw [hresult]
      rfl
  | false =>
    obtain ⟨rfl, rfl⟩ := Connection.run_of_stopped (by simp) h
    exact ⟨[a], rfl, rfl⟩

namespace CBsd

/-- The round of `clientHandler` that a read and a pass make. -/
def round (input : Int × Bytes) (p : Pass response) : Round Bytes :=
  ⟨input.2, input.1, p.heap, p.write.isSome⟩

private theorem serve_of_run {recvBuf : Buffer 1024} {passes : List (Pass response)}
    {c d : Connection (List (Int × Bytes)) Fault} (hstop : c.stop = .waiting)
    (h : Step.run (handlerPass recvBuf) c passes = some d) :
    ∃ made, d.answers = c.answers ++ made ∧
      serve (parse recvBuf) response (List.zipWith round c.unread passes) = (made, d.stop) := by
  induction passes generalizing c with
  | nil =>
    cases h
    refine ⟨[], by rw [List.append_nil], ?_⟩
    rw [List.zipWith_nil_right, serve, hstop]
  | cons p passes ih =>
    obtain ⟨e, he, hrest⟩ := Step.run_cons_eq_some.mp h
    obtain ⟨-, hcases⟩ := Connection.pass_cases he
    cases hunread : c.unread with
    | nil => simp [hunread, readRequest] at hcases
    | cons input inputs =>
      obtain ⟨slot, received⟩ := input
      simp only [hunread, readRequest, Option.some.injEq, Prod.mk.injEq] at hcases
      rw [List.zipWith_cons_cons, serve]
      rcases hcases with ⟨fault, rest, ⟨hparse, rfl⟩, rfl⟩ | ⟨rest, ⟨hparse, rfl⟩, rfl⟩ |
        ⟨delay, rest, ⟨hparse, rfl⟩, rfl⟩
      · obtain ⟨rfl, rfl⟩ := Connection.run_of_stopped (by simp) hrest
        refine ⟨[], by rw [List.append_nil], ?_⟩
        simp only [round, hparse]
      · obtain ⟨rfl, rfl⟩ := Connection.run_of_stopped (by simp) hrest
        refine ⟨[], by rw [List.append_nil], ?_⟩
        simp only [round, hparse]
      · rw [(goesOn_eq_isSome _ p.write).1] at hrest
        obtain ⟨made, hanswers, hnext⟩ := answered_of_run
          (fun inputs ↦ serve (parse recvBuf) response (List.zipWith round inputs passes)) ih hrest
        refine ⟨made, hanswers, ?_⟩
        simp only [round, hparse]
        exact hnext

/-- A run makes the answers of `client_handler`, and ends where that does. -/
theorem clientHandler_of_run {recvBuf : Buffer 1024} {inputs : List (Int × Bytes)}
    {passes : List (Pass response)} {c : Connection (List (Int × Bytes)) Fault}
    (h : Step.run (handlerPass recvBuf) (.start inputs) passes = some c) :
    clientHandler recvBuf (List.zipWith round inputs passes) = (c.answers, c.stop) := by
  obtain ⟨made, hanswers, hserve⟩ := serve_of_run rfl h
  rw [hanswers]
  exact hserve

end CBsd

namespace Rust

/-- The iteration of `handleConnection` that a pass makes. -/
def iteration (p : Pass getResponseMessage) : Iteration := ⟨p.heap, p.write.isSome⟩

private theorem readRequest_of_readPass {reads rest : List Read}
    {result : Except Panic (Option Int)} (h : readPass reads = some (result, rest)) :
    (∃ e, result = .error e ∧ readRequest reads = .error e) ∨
      (result = .ok none ∧ readRequest reads = .ok (some (.err, rest))) ∨
      ∃ delay : Nat, result = .ok (some delay) ∧
        readRequest reads = .ok (some (.ok delay, rest)) := by
  unfold readPass at h
  split at h
  · next e hread =>
    cases h
    exact .inl ⟨e, rfl, hread⟩
  · cases h
  · next hread =>
    cases h
    exact .inr (.inl ⟨rfl, hread⟩)
  · next delay _ hread =>
    cases h
    exact .inr (.inr ⟨delay, rfl, hread⟩)

private theorem handleConnection_of_pass {passes : List (Pass getResponseMessage)}
    {c d : Connection (List Read) Panic} (hstop : c.stop = .waiting)
    (h : Step.run connectionPass c passes = some d) :
    ∃ made, d.answers = c.answers ++ made ∧
      handleConnection (passes.map iteration) c.unread = (made, d.stop) := by
  induction passes generalizing c with
  | nil =>
    cases h
    refine ⟨[], by rw [List.append_nil], ?_⟩
    rw [List.map_nil, handleConnection, hstop]
  | cons p passes ih =>
    obtain ⟨e, he, hrest⟩ := Step.run_cons_eq_some.mp h
    obtain ⟨-, hcases⟩ := Connection.pass_cases he
    rw [List.map_cons, handleConnection]
    rcases hcases with ⟨panic, rest, hread, rfl⟩ | ⟨rest, hread, rfl⟩ | ⟨delay, rest, hread, rfl⟩
    · obtain ⟨rfl, rfl⟩ := Connection.run_of_stopped (by simp) hrest
      refine ⟨[], by rw [List.append_nil], ?_⟩
      rcases readRequest_of_readPass hread with ⟨_, heq, hrequest⟩ | ⟨heq, -⟩ | ⟨_, heq, -⟩
      · cases heq
        rw [hrequest]
      · cases heq
      · cases heq
    · obtain ⟨rfl, rfl⟩ := Connection.run_of_stopped (by simp) hrest
      refine ⟨[], by rw [List.append_nil], ?_⟩
      rcases readRequest_of_readPass hread with ⟨_, heq, -⟩ | ⟨-, hrequest⟩ | ⟨_, heq, -⟩
      · cases heq
      · rw [hrequest]
      · cases heq
    · rw [(goesOn_eq_isSome _ p.write).2] at hrest
      obtain ⟨made, hanswers, hnext⟩ := answered_of_run
        (fun reads ↦ handleConnection (passes.map iteration) reads) ih hrest
      refine ⟨made, hanswers, ?_⟩
      rcases readRequest_of_readPass hread with ⟨_, heq, -⟩ | ⟨heq, -⟩ | ⟨_, heq, hrequest⟩
      · cases heq
      · cases heq
      · cases heq
        rw [hrequest]
        exact hnext

/-- A run makes the answers of `handle_connection`, and ends where that does. -/
theorem handleConnection_of_run {reads : List Read} {passes : List (Pass getResponseMessage)}
    {c : Connection (List Read) Panic}
    (h : Step.run connectionPass (.start reads) passes = some c) :
    handleConnection (passes.map iteration) reads = (c.answers, c.stop) := by
  obtain ⟨made, hanswers, hconnection⟩ := handleConnection_of_pass rfl h
  rw [hanswers]
  exact hconnection

end Rust

/-! ### Responses that start with `H` -/

private theorem statusLines_marked : ∃ tail, statusLines = 72 :: tail ∧ 72 ∉ tail := by
  have heval : statusLines.head? = some 72 ∧ 72 ∉ statusLines.tail := by
    rw [statusLines, Rust.responseHeader, ascii_ofList]
    decide +kernel
  exact ⟨statusLines.tail, List.eq_cons_of_mem_head? heval.1, heval.2⟩

private theorem notMem_decimal_H (n : Nat) : 72 ∉ decimal n := by
  intro h
  have hdigit := isDigit_of_mem_decimal h
  cases hdigit

private theorem notMem_decimalInt_H (n : Int) : 72 ∉ decimalInt n := by
  cases n with
  | ofNat n => exact notMem_decimal_H n
  | negSucc n =>
    rw [decimalInt, List.mem_cons, not_or]
    exact ⟨by decide, notMem_decimal_H (n + 1)⟩

/-- The C-BSD response starts with the only `H` in it. -/
theorem CBsd.response_marked : Connection.Marked CBsd.response 72 := by
  intro heap
  obtain ⟨tail, htail, hnot⟩ := statusLines_marked
  rw [CBsd.response, CBsd.formatted, fill_message, htail, List.cons_append, snprintf]
  refine ⟨_, List.take_succ_cons, ?_⟩
  intro h
  have hmem := List.mem_of_mem_take h
  simp only [List.mem_append, hnot, notMem_decimalInt_H, false_or] at hmem
  revert hmem
  decide

/-- The Rust response starts with the only `H` in it. -/
theorem Rust.getResponseMessage_marked : Connection.Marked Rust.getResponseMessage 72 := by
  intro heap
  obtain ⟨tail, htail, hnot⟩ := statusLines_marked
  rw [Rust.getResponseMessage_eq, responseText, heapBody, htail, List.cons_append]
  refine ⟨_, rfl, ?_⟩
  intro h
  simp only [List.mem_append, hnot, notMem_decimal_H, false_or] at h
  revert h
  decide

section Handlers

variable {recvBuf : Buffer 1024} {inputs : List (Int × Bytes)} {passes : List (Pass CBsd.response)}
  {c : Connection (List (Int × Bytes)) Fault}
  (hrun : Step.run (CBsd.handlerPass recvBuf) (.start inputs) passes = some c)
  {reads : List Rust.Read} {iterations : List (Pass Rust.getResponseMessage)}
  {d : Connection (List Rust.Read) Rust.Panic}
  (hconnection : Step.run Rust.connectionPass (.start reads) iterations = some d)

include hrun hconnection

/-- On every run of either handler, the accepted bytes are a beginning of the responses
throughout if and only if no write is accepted after one that was short. -/
theorem isPrefix_iff_failsAfterLoss :
    (Step.Always (CBsd.handlerPass recvBuf) (fun c ↦ c.accepted <+: c.produced) (.start inputs)
        passes ↔
      Step.Guarded (CBsd.handlerPass recvBuf)
        (Connection.FailsAfterLoss (CBsd.readRequest recvBuf)) (.start inputs) passes) ∧
    (Step.Always Rust.connectionPass (fun c ↦ c.accepted <+: c.produced) (.start reads)
        iterations ↔
      Step.Guarded Rust.connectionPass (Connection.FailsAfterLoss Rust.readPass) (.start reads)
        iterations) := by
  constructor
  · apply Connection.always_isPrefix_iff _ CBsd.response_marked hrun
    intro n result
    exact (goesOn_eq_isSome n result).1
  · apply Connection.always_isPrefix_iff _ Rust.getResponseMessage_marked hconnection
    intro n result
    exact (goesOn_eq_isSome n result).2

/-- On every run, for every sequence of write results: C-BSD's `client_handler` is back at its
read only after all bytes of all responses were accepted, and has sent a beginning of the
responses, if and only if every write that it gets to accepts its whole response or fails; and
so is Rust's `handle_connection`. -/
theorem wholeOrEnd_iff_writesWhole :
    (Step.Always (CBsd.handlerPass recvBuf) Connection.WholeOrEnd (.start inputs) passes ↔
      Step.Guarded (CBsd.handlerPass recvBuf)
        (Connection.WritesWhole (CBsd.readRequest recvBuf)) (.start inputs) passes) ∧
    (Step.Always Rust.connectionPass Connection.WholeOrEnd (.start reads) iterations ↔
      Step.Guarded Rust.connectionPass (Connection.WritesWhole Rust.readPass) (.start reads)
        iterations) := by
  constructor
  · apply Connection.always_wholeOrEnd_iff _ hrun
    intro n result
    exact (goesOn_eq_isSome n result).1
  · apply Connection.always_wholeOrEnd_iff _ hconnection
    intro n result
    exact (goesOn_eq_isSome n result).2

end Handlers

private theorem one_lt_length :
    1 < (CBsd.response 100000).length ∧ 1 < (Rust.getResponseMessage 100000).length := by
  rw [CBsd.response_eq (by decide), Rust.getResponseMessage_eq]
  have hlength := lt_length_responseText (100000 : UInt32).toNat
  exact ⟨by omega, by omega⟩

/-- A buffer of the C-BSD server. -/
def CBsd.exampleBuf : Buffer 1024 := ⟨20480, by decide, by decide⟩

/-- A request without a delay. -/
def exampleRequest : Bytes := ascii "GET / HTTP/1.1\r\n\r\n"

private theorem CBsd.readRequest_example (rest : List (Int × Bytes)) :
    readRequest exampleBuf ((0, exampleRequest) :: rest) = some (.ok (some 0), rest) := by
  have hdelay : receivedDelay exampleBuf 0 exampleRequest = .ok 0 :=
    receivedDelay_of_not_infix exampleBuf 0 (by decide) (by decide) (by decide)
  rw [readRequest, parse, hdelay]
  rfl

private theorem Rust.readPass_example (reads : List Read) :
    readPass (.ok exampleRequest :: reads) = some (.ok (some 0), reads) := by
  have hrequest : readRequest (.ok exampleRequest :: reads) = .ok (some (.ok 0, reads)) :=
    readRequest_of_not_infix (by decide) (by decide) (by decide)
      (momoryUsageName_le_of_short (by decide)) (by decide) reads
  rw [readPass, hrequest]
  rfl

/-- Two requests and two responses that are written whole, in both servers. -/
theorem wholeOrEnd_whole :
    Step.Always (CBsd.handlerPass CBsd.exampleBuf) Connection.WholeOrEnd
        (.start [(0, exampleRequest), (0, exampleRequest)])
        [.whole CBsd.response 100000 (Nat.zero_lt_of_lt one_lt_length.1),
          .whole CBsd.response 100000 (Nat.zero_lt_of_lt one_lt_length.1)] ∧
      Step.Always Rust.connectionPass Connection.WholeOrEnd
        (.start [.ok exampleRequest, .ok exampleRequest])
        [.whole Rust.getResponseMessage 100000 (Nat.zero_lt_of_lt one_lt_length.2),
          .whole Rust.getResponseMessage 100000 (Nat.zero_lt_of_lt one_lt_length.2)] := by
  obtain ⟨c, hbsd⟩ := Connection.run_whole (fun n r ↦ (goesOn_eq_isSome n r).1)
    (CBsd.readRequest_example _) (CBsd.readRequest_example []) 100000
    (Nat.zero_lt_of_lt one_lt_length.1)
  obtain ⟨d, hrust⟩ := Connection.run_whole (fun n r ↦ (goesOn_eq_isSome n r).2)
    (Rust.readPass_example _) (Rust.readPass_example []) 100000
    (Nat.zero_lt_of_lt one_lt_length.2)
  have hlaw := wholeOrEnd_iff_writesWhole hbsd hrust
  constructor
  · rw [hlaw.1, Step.guarded_cons]
    refine ⟨Connection.writesWhole_whole _ _ _, fun _ _ ↦ ?_⟩
    rw [Step.guarded_cons]
    exact ⟨Connection.writesWhole_whole _ _ _, fun _ _ ↦ Step.guarded_nil⟩
  · rw [hlaw.2, Step.guarded_cons]
    refine ⟨Connection.writesWhole_whole _ _ _, fun _ _ ↦ ?_⟩
    rw [Step.guarded_cons]
    exact ⟨Connection.writesWhole_whole _ _ _, fun _ _ ↦ Step.guarded_nil⟩

/-- Two requests. Of the first response one byte is accepted, the second is written whole; both
servers wait for a third request, and the client has got `HHTTP/1.1` and what follows. -/
theorem not_wholeOrEnd_short :
    (∃ c, Step.run (CBsd.handlerPass CBsd.exampleBuf)
        (.start [(0, exampleRequest), (0, exampleRequest)])
        [.short CBsd.response 100000 (Nat.zero_lt_of_lt one_lt_length.1),
          .whole CBsd.response 100000 (Nat.zero_lt_of_lt one_lt_length.1)] = some c ∧
      c.stop = .waiting ∧ ¬ c.WholeOrEnd) ∧
    ∃ c, Step.run Rust.connectionPass (.start [.ok exampleRequest, .ok exampleRequest])
        [.short Rust.getResponseMessage 100000 (Nat.zero_lt_of_lt one_lt_length.2),
          .whole Rust.getResponseMessage 100000 (Nat.zero_lt_of_lt one_lt_length.2)] = some c ∧
      c.stop = .waiting ∧ ¬ c.WholeOrEnd := by
  obtain ⟨c, hbsd, hwaiting, hbegin⟩ := Connection.run_short_whole
    (fun n r ↦ (goesOn_eq_isSome n r).1) CBsd.response_marked (CBsd.readRequest_example _)
    (CBsd.readRequest_example []) one_lt_length.1 (Nat.zero_lt_of_lt one_lt_length.1)
  obtain ⟨d, hrust, hlistening, hbroken⟩ := Connection.run_short_whole
    (fun n r ↦ (goesOn_eq_isSome n r).2) Rust.getResponseMessage_marked (Rust.readPass_example _)
    (Rust.readPass_example []) one_lt_length.2 (Nat.zero_lt_of_lt one_lt_length.2)
  exact ⟨⟨c, hbsd, hwaiting, fun h ↦ hbegin h.isPrefix⟩,
    ⟨d, hrust, hlistening, fun h ↦ hbroken h.isPrefix⟩⟩

end Esp32WebServers
