import Esp32WebServers.System.Delivery

/-!
# Requests that the Rust server loses

`read_request` (`web_server/rust/src/main.rs:160–189`) stores every read at the front of its
buffer and responds when the buffer begins with `GET`. A request is answered at most once. Where
a read takes the first byte of a request and does not leave `GET` at the front of the buffer, the
request is lost, and since the client reads without a timeout (`benchmark/iot_benchmark.py:103`),
its session waits for ever. This module says that nothing else can make it wait so.
-/

namespace Esp32WebServers

open Base

namespace Link

variable {σ ι : Type}

/-- A session is at its read, and there it stays whatever happens. -/
def Hangs (client : Benchmark.Client) (server : Server σ ι) (l : Link σ) : Prop :=
  l.session.phase = .read ∧
    ∀ es m, Step.run (step client server) l es = some m → m.session.phase = .read

section Leaves

variable {client : Benchmark.Client} {server : Server σ ι} {l m : Link σ}

/-- A session that can go on after an event does not hang. -/
theorem not_hangs_of_step {e : Event ι} (h : step client server l e = some m)
    (hm : ¬ Hangs client server m) : ¬ Hangs client server l := by
  rintro ⟨-, hstays⟩
  apply hm
  refine ⟨hstays [e] m (Step.run_cons_eq_some.mpr ⟨m, h, rfl⟩), ?_⟩
  intro es k hrun
  exact hstays (e :: es) k (Step.run_cons_eq_some.mpr ⟨m, h, hrun⟩)

/-- A session that has something to read does not hang. -/
theorem not_hangs_of_buffer (hbuffer : l.session.buffer ≠ []) : ¬ Hangs client server l := by
  intro h
  apply not_hangs_of_step (step_read h.1 hbuffer) _ h
  rintro ⟨hread, -⟩
  exact phase_read_ne client l.session hread

/-- A session to which bytes are under way does not hang. -/
theorem not_hangs_of_inFlight (hinFlight : l.session.inFlight ≠ []) :
    ¬ Hangs client server l := by
  apply not_hangs_of_step (step_arrive hinFlight)
  apply not_hangs_of_buffer
  simp only [withSession, Benchmark.Session.arrive, List.take_length]
  exact List.append_ne_nil_of_right_ne_nil _ hinFlight

/-- A session whose server waits before its response does not hang. -/
theorem not_hangs_of_waiting (hformats : Formats server) (hwaiting : l.waiting ≠ none) :
    ¬ Hangs client server l := by
  obtain ⟨delay, hdelay⟩ := Option.ne_none_iff_exists'.mp hwaiting
  apply not_hangs_of_step (step_respond hdelay ⟨0, by decide⟩)
  apply not_hangs_of_inFlight
  exact List.append_ne_nil_of_right_ne_nil _ (respond_ne_nil hformats _)

end Leaves

end Link

namespace Rust

/-! ### At most one response for a request -/

/-- A buffer that begins with `GET` got its first byte from the last read. -/
theorem head?_of_get {buffer chunk : Bytes} (hne : chunk ≠ [])
    (h : ascii "GET" <+: overlay buffer chunk) : chunk.head? = some 71 := by
  obtain ⟨b, rest, rfl⟩ := List.exists_cons_of_ne_nil hne
  obtain ⟨t, ht⟩ := h
  have hb : (71 : UInt8) = b := (List.cons.inj ht).1
  rw [List.head?_cons, hb]

/-- The invariant: a request is answered, or the server waits before its response, or its first
byte is not read, or it is lost. -/
def AnsweredOnce (l : Link Bytes) : Prop :=
  l.waits.length + l.waiting.toList.length + l.upstream.count 71 ≤ l.requests.length

/-- Events leave at most one response for each request. -/
theorem AnsweredOnce.step {client : Benchmark.Client} {l m : Link Bytes} {e : Link.Event Unit}
    (hl : AnsweredOnce l) (h : Link.step client server l e = some m) : AnsweredOnce m := by
  unfold AnsweredOnce at hl ⊢
  rcases Link.step_cases h with ⟨delay, rfl, -, rfl⟩ |
    ⟨around, count, result, rfl, hnone, hpos, hle, -, hreceive, rfl⟩ |
    ⟨heap, delay, rfl, hwaiting, rfl⟩ | ⟨count, rfl, -, -, rfl⟩ | ⟨rfl, -, -, rfl⟩ |
    ⟨rfl, -, -, rfl⟩
  · obtain ⟨rest, hmessage, hrest⟩ := Benchmark.message_eq_cons client delay
    simp only [Link.request, List.count_append, List.length_append, List.length_singleton,
      hmessage, List.count_cons_self, List.count_eq_zero.mpr hrest]
    omega
  · have hcount : (l.upstream.take count).count 71 + (l.upstream.drop count).count 71 =
        l.upstream.count 71 := by
      rw [← List.count_append, List.take_append_drop]
    simp only [Link.receive]
    rw [hnone, Option.toList_none, List.length_nil] at hl
    rcases server_receive_cases hreceive with ⟨-, rfl⟩ | ⟨hget, delay, -, rfl⟩
    · rw [Option.toList_none, List.length_nil]
      omega
    · have hne : l.upstream.take count ≠ [] := by
        apply List.ne_nil_of_length_pos
        rw [List.length_take]
        omega
      have hhead := List.count_pos_iff.mpr (List.mem_of_head? (head?_of_get hne hget))
      rw [Option.toList_some, List.length_singleton]
      omega
  · rw [hwaiting] at hl
    simp only [Link.respond, List.length_append, List.length_singleton, Option.toList_none,
      List.length_nil]
    simp only [Option.toList_some, List.length_singleton] at hl
    omega
  · exact hl
  · exact hl
  · exact hl

/-- However the bytes are cut, the Rust server never responds more often than it was asked, and a
request that it has not begun to read, or waits to answer, is not among those answered. -/
theorem answeredOnce (client : Benchmark.Client) (events : List (Link.Event Unit))
    (l : Link Bytes)
    (hrun : Step.run (Link.step client server) (Link.start server) events = some l) :
    l.waits.length + l.waiting.toList.length + l.upstream.count 71 ≤ l.requests.length :=
  Step.run_invariant (I := AnsweredOnce) (fun _ _ _ hl h ↦ hl.step h) (Nat.le_refl _) hrun

/-! ### Reads that lose a request -/

/-- The end of a request, behind its first byte. -/
structure IsTail (client : Benchmark.Client) (tail : Bytes) : Prop where
  headless : 71 ∉ tail
  suffix : ∃ delay : IntDelay, tail <:+ client.message delay.val

/-- A buffer with zeros behind at most 200 bytes of ASCII text. -/
def IsPadded (buffer : Bytes) : Prop :=
  ∃ text : Bytes, IsAscii text ∧ text.length ≤ 200 ∧
    buffer = text ++ List.replicate (1024 - text.length) 0

section Buffer

variable {client : Benchmark.Client} {buffer chunk tail : Bytes}

/-- The end of a request is ASCII and short. -/
theorem IsTail.isAscii (h : IsTail client tail) : IsAscii tail ∧ tail.length ≤ 65 := by
  obtain ⟨delay, hsuffix⟩ := h.suffix
  refine ⟨fun b hb ↦ Benchmark.isAscii_message client delay b (hsuffix.subset hb), ?_⟩
  exact hsuffix.length_le.trans (Benchmark.length_message_le client delay)

/-- What is left of the end of a request is one. -/
theorem IsTail.drop (h : IsTail client tail) (count : Nat) : IsTail client (tail.drop count) := by
  obtain ⟨delay, hsuffix⟩ := h.suffix
  exact ⟨fun hm ↦ h.headless (List.mem_of_mem_drop hm), delay,
    (List.drop_suffix _ _).trans hsuffix⟩

/-- What is left of a request behind its first byte. -/
theorem isTail_drop_message (client : Benchmark.Client) (delay : IntDelay) {count : Nat}
    (hpos : 0 < count) : IsTail client ((client.message delay.val).drop count) := by
  refine ⟨?_, delay, List.drop_suffix _ _⟩
  obtain ⟨rest, hrest, hnot⟩ := Benchmark.message_eq_cons client delay
  obtain ⟨n, rfl⟩ := Nat.exists_eq_succ_of_ne_zero (Nat.ne_of_gt hpos)
  rw [hrest, List.drop_succ_cons]
  exact fun hm ↦ hnot (List.mem_of_mem_drop hm)

/-- The empty buffer is padded. -/
theorem isPadded_emptyBuffer : IsPadded emptyBuffer :=
  ⟨[], List.forall_mem_nil _, Nat.zero_le _, rfl⟩

/-- A short read leaves a buffer padded. -/
theorem IsPadded.overlay (h : IsPadded buffer) (ha : IsAscii chunk) (hlen : chunk.length ≤ 200) :
    IsPadded (Rust.overlay buffer chunk) := by
  obtain ⟨text, htext, htextLen, rfl⟩ := h
  refine ⟨chunk ++ text.drop chunk.length, ?_, ?_, ?_⟩
  · rw [isAscii_append]
    exact ⟨ha, fun b hb ↦ htext b (List.mem_of_mem_drop hb)⟩
  · rw [List.length_append, List.length_drop]
    omega
  · rw [Rust.overlay, List.drop_append, List.drop_replicate, List.append_assoc, List.length_append,
      List.length_drop]
    congr 3
    omega

/-- A padded buffer is parsed without a panic. -/
theorem IsPadded.parseRequest (h : IsPadded buffer) :
    ∃ delay, Rust.parseRequest buffer = .ok (.ok delay) := by
  obtain ⟨text, htext, hlen, rfl⟩ := h
  have hascii := isAscii_append_zeros (1024 - text.length) htext
  -- A name has no NUL, so it stands in front of the zeros.
  have hlookup (name : Bytes) (hname : IsAscii name) (hnul : 0 ∉ name) (hne : name ≠ []) :
      ∃ n, getHeader (text ++ List.replicate (1024 - text.length) 0) name = .ok n := by
    apply getHeader_isOk hascii hname
    intro i hi
    rw [indexOf?_append_replicate _ hnul hne] at hi
    have hbound := indexOf?_add_length_le hi
    rw [List.length_append, List.length_replicate]
    omega
  obtain ⟨m, hm⟩ := hlookup momoryUsageName (by decide) (by decide) (by decide)
  obtain ⟨n, hn⟩ := hlookup delayName (by decide) (by decide) (by decide)
  refine ⟨n, ?_⟩
  simp only [Rust.parseRequest, validUtf8_of_isAscii hascii, if_true, hm, hn, bind, Except.bind,
    pure, Except.pure]

/-- A read without the first byte of a request leaves the buffer without one. -/
theorem receive_of_headless (hne : chunk ≠ []) (h : 71 ∉ chunk) :
    server.receive buffer () chunk = some (Rust.overlay buffer chunk, none) := by
  apply server_receive_of_not_get
  intro hget
  exact h (List.mem_of_head? (head?_of_get hne hget))

end Buffer

/-- A read of the server that takes the first byte of a request leaves `GET` at the front of the
buffer. -/
def KeepsHead (l : Link Bytes) : Link.Event Unit → Prop
  | .receive _ count =>
    71 ∈ l.upstream.take count → ascii "GET" <+: overlay l.server (l.upstream.take count)
  | _ => True

instance : ∀ (l : Link Bytes) (e : Link.Event Unit), Decidable (KeepsHead l e)
  | _, .receive _ _ => inferInstanceAs (Decidable (_ → _))
  | _, .request _ => isTrue trivial
  | _, .respond _ => isTrue trivial
  | _, .arrive _ => isTrue trivial
  | _, .read => isTrue trivial
  | _, .readOne => isTrue trivial

/-- A session that is paired and clean, or has ended with the rows of its responses. -/
def Recorded (x : Benchmark.Session) : Prop :=
  x.Clean ∨ x.phase = .ended ∧ x.rows <+: Benchmark.numerals x.heaps

/-- The invariant: the last request is to be read, behind the end of an earlier one, or the
server waits before its response, or it has responded. -/
inductive Attended (client : Benchmark.Client) : Link Bytes → Prop
  | asked {heaps : List UInt32} {requests : List IntDelay} {waits : List Int}
      {tail buffer : Bytes} (delay : IntDelay) (htail : IsTail client tail)
      (hbuffer : IsPadded buffer) (hlen : requests.length = heaps.length + 1) :
      Attended client ⟨⟨heaps, [], [], Benchmark.numerals heaps, .read⟩, requests,
        tail ++ client.message delay.val, buffer, none, waits⟩
  | waiting {heaps : List UInt32} {requests : List IntDelay} {waits : List Int}
      {tail buffer : Bytes} (parsed : Int) (htail : IsTail client tail)
      (hbuffer : IsPadded buffer) (hlen : requests.length = heaps.length + 1) :
      Attended client ⟨⟨heaps, [], [], Benchmark.numerals heaps, .read⟩, requests, tail, buffer,
        some parsed, waits⟩
  | responded {x : Benchmark.Session} {requests : List IntDelay} {waits : List Int}
      {tail buffer : Bytes} (hx : Recorded x) (htail : IsTail client tail)
      (hbuffer : IsPadded buffer) (hlen : requests.length = x.heaps.length) :
      Attended client ⟨x, requests, tail, buffer, none, waits⟩

/-- A session whose request is lost: it is at its read, nothing is on its way to it, and no
request is on its way to the server. The requests before have their rows. -/
structure Lost (l : Link Bytes) : Prop where
  read : l.session.phase = .read
  buffer : l.session.buffer = []
  inFlight : l.session.inFlight = []
  waiting : l.waiting = none
  headless : 71 ∉ l.upstream
  rows : l.session.rows = Benchmark.numerals l.session.heaps
  requests : l.requests.length = l.session.heaps.length + 1

section Attended

variable {client : Benchmark.Client} {l m : Link Bytes}

/-- A lost request stays lost. -/
theorem Lost.step (hl : Lost l) {e : Link.Event Unit}
    (h : Link.step client server l e = some m) : Lost m := by
  rcases Link.step_cases h with ⟨delay, rfl, hphase, rfl⟩ |
    ⟨_, count, result, rfl, -, hpos, hle, -, hreceive, rfl⟩ |
    ⟨heap, delay, rfl, hwaiting, rfl⟩ | ⟨count, rfl, hpos, hle, rfl⟩ | ⟨rfl, -, hbuffer, rfl⟩ |
    ⟨rfl, hphase, -, rfl⟩
  · rw [hl.read] at hphase
    cases hphase
  · have hne : l.upstream.take count ≠ [] := by
      apply List.ne_nil_of_length_pos
      rw [List.length_take]
      omega
    rw [receive_of_headless hne fun hm ↦ hl.headless (List.mem_of_mem_take hm)] at hreceive
    cases hreceive
    exact ⟨hl.read, hl.buffer, hl.inFlight, rfl,
      fun hm ↦ hl.headless (List.mem_of_mem_drop hm), hl.rows, hl.requests⟩
  · rw [hl.waiting] at hwaiting
    cases hwaiting
  · rw [hl.inFlight] at hle
    exact absurd hle (Nat.not_le_of_lt hpos)
  · exact absurd hl.buffer hbuffer
  · rw [hl.read] at hphase
    cases hphase

/-- A session whose request is lost hangs. -/
theorem Lost.hangs (hl : Lost l) : Link.Hangs client server l := by
  refine ⟨hl.read, fun es m hrun ↦ ?_⟩
  exact (Step.run_invariant (I := Lost) (fun _ _ _ hk h ↦ hk.step h) hl hrun).read

/-- The server attends to a connection before its first request. -/
theorem attended_start : Attended client (Link.start server) := by
  refine .responded (.inl (.request [])) ⟨List.not_mem_nil, ⟨0, by decide, by decide⟩, ?_⟩
    isPadded_emptyBuffer rfl
  exact List.nil_suffix

/-- A request is to be read. -/
theorem Attended.request (hl : Attended client l) (hphase : l.session.phase = .request)
    (delay : IntDelay) : Attended client (l.request client delay) := by
  cases hl with
  | asked _ htail hbuffer hlen => cases hphase
  | waiting parsed htail hbuffer hlen => cases hphase
  | responded hx htail hbuffer hlen =>
    rcases hx with hx | ⟨hended, -⟩
    · cases hx with
      | request heaps =>
        refine .asked delay htail hbuffer ?_
        rw [List.length_append, hlen]
        rfl
      | stay heaps => cases hphase
      | read heaps heap _ => cases hphase
    · rw [hended] at hphase
      cases hphase

/-- The end of a request may be read in pieces. -/
theorem IsTail.receive {tail buffer : Bytes} (htail : IsTail client tail)
    (hbuffer : IsPadded buffer) {count : Nat} (hpos : 0 < count) (hle : count ≤ tail.length) :
    IsPadded (overlay buffer (tail.take count)) ∧ server.receive buffer () (tail.take count) =
      some (overlay buffer (tail.take count), none) := by
  obtain ⟨ha, hlen⟩ := htail.isAscii
  constructor
  · apply hbuffer.overlay fun b hb ↦ ha b (List.mem_of_mem_take hb)
    rw [List.length_take]
    omega
  · apply receive_of_headless _ fun hm ↦ htail.headless (List.mem_of_mem_take hm)
    apply List.ne_nil_of_length_pos
    rw [List.length_take]
    omega

/-- A read that keeps the head of a request takes it from the front of the connection. -/
theorem tail_eq_nil_of_get {tail rest buffer : Bytes} {count : Nat} (htail : 71 ∉ tail)
    (hpos : 0 < count) (h : ascii "GET" <+: overlay buffer ((tail ++ rest).take count)) :
    tail = [] := by
  by_contra hne
  obtain ⟨b, t, rfl⟩ := List.exists_cons_of_ne_nil hne
  obtain ⟨n, rfl⟩ := Nat.exists_eq_succ_of_ne_zero (Nat.ne_of_gt hpos)
  have hhead := head?_of_get (List.cons_ne_nil _ _) h
  rw [List.head?_cons, Option.some.injEq] at hhead
  exact htail (by rw [hhead]; exact List.mem_cons_self)

/-- A read that keeps the head of a request is attended to. -/
theorem Attended.receive (hl : Attended client l) (hnone : l.waiting = none) {count : Nat}
    (hpos : 0 < count) (hle : count ≤ l.upstream.length) {result : Bytes × Option Int}
    (hreceive : server.receive l.server () (l.upstream.take count) = some result)
    (hkeeps : KeepsHead l (.receive () count)) : Attended client (l.receive count result) := by
  cases hl with
  | waiting parsed htail hbuffer hlen => cases hnone
  | responded hx htail hbuffer hlen =>
    obtain ⟨hpadded, heq⟩ := htail.receive hbuffer hpos hle
    cases heq.symm.trans hreceive
    exact .responded hx (htail.drop count) hpadded hlen
  | @asked heaps requests waits tail buffer delay htail hbuffer hlen =>
    by_cases hcount : count ≤ tail.length
    · simp only [List.take_append_of_le_length hcount] at hreceive
      obtain ⟨hpadded, heq⟩ := htail.receive hbuffer hpos hcount
      cases heq.symm.trans hreceive
      rw [Link.receive, List.drop_append_of_le_length hcount]
      exact .asked delay (htail.drop count) hpadded hlen
    · obtain ⟨rest, hrest, -⟩ := Benchmark.message_eq_cons client delay
      have hmem : 71 ∈ (tail ++ client.message delay.val).take count := by
        rw [List.take_append, hrest]
        obtain ⟨n, hn⟩ := Nat.exists_eq_succ_of_ne_zero (Nat.sub_ne_zero_of_lt (not_le.mp hcount))
        rw [hn, List.take_succ_cons]
        exact List.mem_append_right _ List.mem_cons_self
      have hget := hkeeps hmem
      obtain rfl := tail_eq_nil_of_get htail.headless hpos hget
      rcases server_receive_cases hreceive with ⟨hnot, -⟩ | ⟨-, parsed, -, rfl⟩
      · exact absurd hget hnot
      · exact .waiting _ (isTail_drop_message client delay hpos) isPadded_emptyBuffer hlen

/-- A response is under way after the wait. -/
theorem Attended.respond (hl : Attended client l) {delay : Int}
    (hwaiting : l.waiting = some delay) (heap : FreeHeap) :
    Attended client (l.respond server heap delay) := by
  cases hl with
  | asked _ htail hbuffer hlen => cases hwaiting
  | responded hx htail hbuffer hlen => cases hwaiting
  | @waiting heaps requests waits tail buffer parsed htail hbuffer hlen =>
    have hcount : requests.length = (heaps ++ [heap.val]).length := by
      rw [List.length_append, hlen]
      rfl
    refine .responded (.inl ?_) htail hbuffer hcount
    have hresponse : [] ++ ([] ++ server.respond heap.val) = responseText heap.val.toNat := by
      rw [List.nil_append, List.nil_append]
      exact server_formats heap
    exact .read heaps heap.val hresponse

/-- Bytes that arrive are bytes of the response. -/
theorem Attended.arrive (hl : Attended client l) {count : Nat} (hpos : 0 < count)
    (hle : count ≤ l.session.inFlight.length) :
    Attended client (l.withSession (l.session.arrive count)) := by
  cases hl with
  | asked _ htail hbuffer hlen => exact absurd hle (Nat.not_le_of_lt hpos)
  | waiting _ htail hbuffer hlen => exact absurd hle (Nat.not_le_of_lt hpos)
  | responded hx htail hbuffer hlen =>
    rcases hx with hx | hended
    · exact .responded (.inl (hx.arrives hpos hle)) htail hbuffer hlen
    · exact .responded (.inr hended) htail hbuffer hlen

/-- A read that ends the session adds no row. -/
theorem rows_read_of_ended {x : Benchmark.Session} (h : (x.read client).phase = .ended) :
    (x.read client).rows = x.rows := by
  unfold Benchmark.Session.read at h ⊢
  split at h
  · cases hstays : client.stays with
    | true =>
      rw [hstays] at h
      cases h
    | false =>
      rw [hstays] at h
      cases h
  · rfl

/-- A whole response gives its row, and a part of one ends the session. -/
theorem Attended.read (hl : Attended client l) (hphase : l.session.phase = .read)
    (hbuffer : l.session.buffer ≠ []) :
    Attended client (l.withSession (l.session.read client)) := by
  cases hl with
  | asked _ htail hpadded hlen => exact absurd rfl hbuffer
  | waiting _ htail hpadded hlen => exact absurd rfl hbuffer
  | @responded x requests waits tail buffer hx htail hpadded hlen =>
    have hheaps := Link.heaps_read client x
    refine .responded ?_ htail hpadded (hlen.trans (congrArg List.length hheaps.symm))
    rcases hx with hx | ⟨hended, -⟩
    · by_cases hall : x.inFlight = []
      · exact .inl (hx.reads hphase hall)
      · have hended : (x.read client).phase = .ended := hx.read_ended hphase hall
        refine .inr ⟨hended, ?_⟩
        rw [hheaps, rows_read_of_ended hended]
        exact hx.paired.rows
    · exact absurd (hended.symm.trans hphase) nofun

/-- A session that waits for one more byte does not get any. -/
theorem Attended.not_readOne (hl : Attended client l) (hphase : l.session.phase = .stay) :
    l.session.buffer = [] := by
  cases hl with
  | asked _ htail hbuffer hlen => cases hphase
  | waiting _ htail hbuffer hlen => cases hphase
  | responded hx htail hbuffer hlen =>
    rcases hx with hx | ⟨hended, -⟩
    · exact hx.not_readOne hphase
    · exact absurd (hended.symm.trans hphase) nofun

/-- Events whose reads keep the heads of the requests are attended to. -/
theorem Attended.step (hl : Attended client l) {e : Link.Event Unit}
    (h : Link.step client server l e = some m) (hkeeps : KeepsHead l e) : Attended client m := by
  rcases Link.step_cases h with ⟨delay, rfl, hphase, rfl⟩ |
    ⟨_, count, result, rfl, hnone, hpos, hle, -, hreceive, rfl⟩ |
    ⟨heap, delay, rfl, hwaiting, rfl⟩ | ⟨count, rfl, hpos, hle, rfl⟩ |
    ⟨rfl, hphase, hbuffer, rfl⟩ | ⟨rfl, hphase, hbuffer, rfl⟩
  · exact hl.request hphase delay
  · exact hl.receive hnone hpos hle hreceive hkeeps
  · exact hl.respond hwaiting heap
  · exact hl.arrive hpos hle
  · exact hl.read hphase hbuffer
  · exact absurd (hl.not_readOne hphase) hbuffer

/-- A read that takes the head of a request and does not keep it loses the request. -/
theorem Attended.lost (hl : Attended client l) {e : Link.Event Unit}
    (h : Link.step client server l e = some m) (hkeeps : ¬ KeepsHead l e) : Lost m := by
  rcases Link.step_cases h with ⟨delay, rfl, -⟩ |
    ⟨_, count, result, rfl, hnone, hpos, hle, -, hreceive, rfl⟩ |
    ⟨heap, delay, rfl, -⟩ | ⟨count, rfl, -⟩ | ⟨rfl, -⟩ | ⟨rfl, -⟩
  · exact absurd trivial hkeeps
  · obtain ⟨hmem, hget⟩ := Classical.not_imp.mp hkeeps
    rw [server_receive_of_not_get hget] at hreceive
    cases hreceive
    cases hl with
    | waiting _ htail hbuffer hlen => cases hnone
    | responded hx htail hbuffer hlen => exact absurd (List.mem_of_mem_take hmem) htail.headless
    | @asked heaps requests waits tail buffer delay htail hbuffer hlen =>
      refine ⟨rfl, rfl, rfl, rfl, ?_, rfl, hlen⟩
      have hcount : tail.length < count := by
        by_contra hle
        rw [List.take_append_of_le_length (not_lt.mp hle)] at hmem
        exact htail.headless (List.mem_of_mem_take hmem)
      have hrest := (isTail_drop_message client delay (Nat.sub_pos_of_lt hcount)).headless
      rw [Link.receive, List.drop_append, List.drop_of_length_le (Nat.le_of_lt hcount)]
      exact hrest
  · exact absurd trivial hkeeps
  · exact absurd trivial hkeeps
  · exact absurd trivial hkeeps
  · exact absurd trivial hkeeps

/-- A session whose request the server has in front of it does not hang. -/
theorem not_hangs_of_message {x : Benchmark.Session} {requests : List IntDelay}
    {buffer : Bytes} {waits : List Int} (delay : IntDelay) (hbuffer : IsPadded buffer) :
    ¬ Link.Hangs client server ⟨x, requests, client.message delay.val, buffer, none, waits⟩ := by
  have hlen := Benchmark.length_message_le client delay
  have htake : (client.message delay.val).take (client.message delay.val).length =
      client.message delay.val := List.take_length
  obtain ⟨parsed, hparsed⟩ :=
    (hbuffer.overlay (Benchmark.isAscii_message client delay) (by omega)).parseRequest
  have hget : ascii "GET" <+: overlay buffer (client.message delay.val) :=
    (Benchmark.get_prefix_message client delay).trans (List.prefix_append _ _)
  have hadmits : server.admits () (client.message delay.val) = true :=
    decide_eq_true (show (client.message delay.val).length ≤ 1024 by omega)
  have hreceive := server_receive_of_get hget hparsed
  have hpos : 0 < (client.message delay.val).length := by
    obtain ⟨rest, hrest, -⟩ := Benchmark.message_eq_cons client delay
    rw [hrest]
    exact Nat.succ_pos _
  rw [← htake] at hadmits hreceive
  apply Link.not_hangs_of_step (Link.step_receive rfl hpos (Nat.le_refl _) hadmits hreceive)
  exact Link.not_hangs_of_waiting server_formats nofun

/-- A session that the server attends to does not hang. -/
theorem Attended.not_hangs (hl : Attended client l) : ¬ Link.Hangs client server l := by
  intro h
  revert h
  cases hl with
  | waiting parsed htail hbuffer hlen =>
    exact Link.not_hangs_of_waiting server_formats nofun
  | @responded x requests waits tail buffer hx htail hbuffer hlen =>
    intro h
    rcases hx with hx | ⟨hended, -⟩
    · by_cases hinFlight : x.inFlight = []
      · apply Link.not_hangs_of_buffer _ h
        cases hx with
        | request heaps => exact absurd h.1 nofun
        | stay heaps => exact absurd h.1 nofun
        | read heaps heap hresponse =>
          simp only at hinFlight
          rw [hinFlight, List.append_nil] at hresponse
          rw [hresponse]
          exact List.ne_nil_of_length_pos (Nat.zero_lt_of_lt (lt_length_responseText _))
      · exact Link.not_hangs_of_inFlight hinFlight h
    · exact absurd (hended.symm.trans h.1) nofun
  | @asked heaps requests waits tail buffer delay htail hbuffer hlen =>
    -- The server reads the end of the earlier request, and then the request.
    by_cases hnil : tail = []
    · subst hnil
      exact not_hangs_of_message delay hbuffer
    · have hpos : 0 < tail.length := List.length_pos_iff.mpr hnil
      have htake : (tail ++ client.message delay.val).take tail.length = tail.take tail.length :=
        List.take_append_of_le_length (Nat.le_refl _)
      obtain ⟨hpadded, hreceive⟩ := htail.receive hbuffer hpos (Nat.le_refl _)
      have hlen := htail.isAscii.2
      have hadmits : server.admits () (tail.take tail.length) = true := by
        apply decide_eq_true
        rw [List.take_length]
        omega
      rw [← htake] at hadmits hreceive
      have hle : tail.length ≤ (tail ++ client.message delay.val).length := by
        rw [List.length_append]
        omega
      apply Link.not_hangs_of_step (Link.step_receive rfl hpos hle hadmits hreceive)
      simp only [Link.receive, List.drop_left]
      rw [htake]
      exact not_hangs_of_message delay hpadded

/-- A session with the Rust server hangs in no state of a run, for either client and every
cutting of the bytes, if and only if every read of the server that takes the first byte of a
request leaves `GET` at the front of the buffer. -/
theorem not_hangs_iff_keepsHead (client : Benchmark.Client) {events : List (Link.Event Unit)}
    {l : Link Bytes}
    (hrun : Step.run (Link.step client server) (Link.start server) events = some l) :
    Step.Always (Link.step client server) (fun l ↦ ¬ Link.Hangs client server l)
        (Link.start server) events ↔
      Step.Guarded (Link.step client server) KeepsHead (Link.start server) events := by
  apply Step.always_iff_guarded (I := Attended client) _ _ _ attended_start hrun
  · intro l hl
    exact hl.not_hangs
  · intro l e m hl h hkeeps
    exact hl.step h hkeeps
  · intro l e m hl h hm
    by_contra hkeeps
    exact hm (hl.lost h hkeeps).hangs

/-! ### No row but that of its request -/

/-- The rows of a session are, one by one, those of its requests: each has the heap value of the
response to the request of its number, and no request but the last may be without one. -/
structure RightRows (l : Link Bytes) : Prop where
  rows : l.session.rows <+: Benchmark.numerals l.session.heaps
  responses : l.session.heaps.length ≤ l.requests.length
  last : l.requests.length ≤ l.session.heaps.length + 1
  answered : l.session.phase = .request ∨ l.session.phase = .stay →
    l.session.rows.length = l.requests.length

private theorem length_numerals (heaps : List UInt32) :
    (Benchmark.numerals heaps).length = heaps.length := List.length_map _

/-- A session that the server attends to has the right rows. -/
theorem Attended.rightRows (hl : Attended client l) : RightRows l := by
  cases hl with
  | asked _ htail hbuffer hlen =>
    exact ⟨List.prefix_refl _, hlen ▸ Nat.le_succ _, hlen.le, nofun⟩
  | waiting _ htail hbuffer hlen =>
    exact ⟨List.prefix_refl _, hlen ▸ Nat.le_succ _, hlen.le, nofun⟩
  | @responded x requests waits tail buffer hx htail hbuffer hlen =>
    refine ⟨?_, hlen.ge, hlen.le.trans (Nat.le_succ _), fun hphase ↦ ?_⟩
    · rcases hx with hx | ⟨-, hrows⟩
      · exact hx.paired.rows
      · exact hrows
    · rcases hx with hx | ⟨hended, -⟩
      · have hread : x.phase ≠ .read := by
          rintro hread
          rcases hphase with hphase | hphase <;> exact absurd (hread.symm.trans hphase) nofun
        exact (hx.paired.answered hread).trans hlen.symm
      · rcases hphase with hphase | hphase <;> exact absurd (hended.symm.trans hphase) nofun

/-- A session whose request is lost has the right rows. -/
theorem Lost.rightRows (hl : Lost l) : RightRows l := by
  refine ⟨hl.rows ▸ List.prefix_refl _, hl.requests ▸ Nat.le_succ _, hl.requests.le, fun h ↦ ?_⟩
  rw [hl.read] at h
  rcases h with h | h <;> cases h

/-- However the bytes are cut, a session with the Rust server writes no heap value to the row of
another request: a cut costs it the request, or ends it. -/
theorem rightRows_always (client : Benchmark.Client) (events : List (Link.Event Unit)) :
    Step.Always (Link.step client server) RightRows (Link.start server) events := by
  refine Step.always_of_invariant (I := fun l ↦ Attended client l ∨ Lost l) ?_ ?_
    (.inl attended_start) events
  · rintro l (hl | hl)
    · exact hl.rightRows
    · exact hl.rightRows
  · rintro l e m (hl | hl) h
    · by_cases hkeeps : KeepsHead l e
      · exact .inl (hl.step h hkeeps)
      · exact .inr (hl.lost h hkeeps)
    · exact .inr (hl.step h)

end Attended

/-- A request with a delay of 450 ms, and a read of its first bytes. -/
def firstRead (count : Nat) : List (Link.Event Unit) :=
  [.request ⟨450, by decide, by decide⟩, .receive () count]

/-- The server has one request to answer when its first read returned all 57 bytes. -/
theorem answeredOnce_firstRead :
    ∃ l, Step.run (Link.step .iot server) (Link.start server) (firstRead 57) = some l ∧
      l.waits.length + l.waiting.toList.length + l.upstream.count 71 ≤ l.requests.length := by
  have hrun : (Step.run (Link.step .iot server) (Link.start server) (firstRead 57)).isSome =
      true := by
    decide +kernel
  obtain ⟨l, hl⟩ := Option.isSome_iff_exists.mp hrun
  exact ⟨l, hl, answeredOnce .iot (firstRead 57) l hl⟩

/-- A session of the IoT benchmark hangs when the server's first read returns the first byte of
its request alone, and does not when it returns all 57 bytes or only the word `GET`. -/
theorem hangs_firstByte :
    ¬ Step.Always (Link.step .iot server) (fun l ↦ ¬ Link.Hangs .iot server l)
        (Link.start server) (firstRead 1) ∧
      Step.Always (Link.step .iot server) (fun l ↦ ¬ Link.Hangs .iot server l)
        (Link.start server) (firstRead 57) ∧
      Step.Always (Link.step .iot server) (fun l ↦ ¬ Link.Hangs .iot server l)
        (Link.start server) (firstRead 3) := by
  have hruns (count : Nat)
      (h : (Step.run (Link.step .iot server) (Link.start server) (firstRead count)).isSome = true) :
      ∃ l, Step.run (Link.step .iot server) (Link.start server) (firstRead count) = some l :=
    Option.isSome_iff_exists.mp h
  obtain ⟨l, hbyte⟩ := hruns 1 (by decide +kernel)
  obtain ⟨m, hwhole⟩ := hruns 57 (by decide +kernel)
  obtain ⟨k, hword⟩ := hruns 3 (by decide +kernel)
  refine ⟨?_, ?_, ?_⟩
  · rw [not_hangs_iff_keepsHead .iot hbyte]
    decide +kernel
  · rw [not_hangs_iff_keepsHead .iot hwhole]
    decide +kernel
  · rw [not_hangs_iff_keepsHead .iot hword]
    decide +kernel

end Rust

end Esp32WebServers
