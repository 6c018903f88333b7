import Esp32WebServers.Connection.Handlers
import Esp32WebServers.Header.RoundTrip

/-!
# Requests and reads

None of the handlers looks for the end of a request: one read is one request
(`web_server/c_netconn/main/tcp_server.c:132` notes what a reassembly would need). Hence
every read gets its own answer, and where every read delivers one whole request the
answers are those of the requests.
-/

namespace Esp32WebServers

open Base

/-- A request that asks for a delay, 0 without a `Delay` header: it begins with `GET`, ends
with the only blank line in it, and holds the name `Delay` at most once, in a canonical
header. -/
structure IsRequest (text : Bytes) (delay : Nat) : Prop where
  get : ascii "GET" <+: text
  blank : OccursOnlyAt (crlf ++ crlf) text (text.length - 4)
  header : delay = 0 ∧ ¬ delayName <:+: text ∨
    ∃ front rest, text = delayText front delay rest ∧
      OccursOnlyAt delayName text front.length

/-- A request of at most 1000 bytes, which one read can deliver. -/
structure WholeRequest where
  text : Bytes
  delay : Nat
  isRequest : IsRequest text delay
  length_le : text.length ≤ 1000

namespace WholeRequest

/-- What the C and C++ servers need of a request: no NUL in front of its `Delay` header, where the
string would end, and a delay that is an `int`. -/
structure FitsC (r : WholeRequest) : Prop where
  nulFree : ∀ front rest, r.text = delayText front r.delay rest → NulFree front
  delay_lt : r.delay < 2 ^ 31

/-- What the Rust server needs of a request: ASCII, and a delay that is a `u64`. -/
structure FitsRust (r : WholeRequest) : Prop where
  isAscii : IsAscii r.text
  delay_lt : r.delay < 2 ^ 64

/-- What the Netconn server needs of the first fragment that one `netconn_recv` returns for a
request: it reaches the end of the `Delay` line, and where there is none, it does not hold the
name together with the memory behind it, up to a NUL. -/
structure InFragment (r : WholeRequest) (recvBuf : CNetconn.Payload) : Prop where
  isPrefix : recvBuf.fragment <+: r.text
  lineEnd : ∀ front rest, r.text = delayText front r.delay rest →
    (delayText front r.delay []).length ≤ recvBuf.fragment.length
  clear : ¬ delayName <:+: r.text →
    ¬ delayName <:+: upToNul (recvBuf.fragment ++ recvBuf.behind)

/-- A request without NUL whose delay is an `int` fits the C and C++ servers. -/
theorem FitsC.of_nulFree {r : WholeRequest} (hnul : NulFree r.text) (hdelay : r.delay < 2 ^ 31) :
    r.FitsC where
  nulFree := by
    intro front rest htext
    rw [htext, delayText, nulFree_append] at hnul
    exact hnul.1
  delay_lt := hdelay

/-- A request fits a first fragment that is the whole of it, with a NUL behind it. -/
theorem InFragment.of_whole {r : WholeRequest} {recvBuf : CNetconn.Payload}
    (hfragment : recvBuf.fragment = r.text) (hbehind : recvBuf.behind = []) :
    r.InFragment recvBuf where
  isPrefix := hfragment ▸ List.prefix_refl _
  lineEnd := by
    intro front rest htext
    rw [hfragment, htext]
    simp only [delayText, List.length_append, List.length_nil]
    omega
  clear := by
    intro hnone hin
    rw [hfragment, hbehind, List.append_nil] at hin
    exact hnone (hin.trans (List.takeWhile_prefix _).isInfix)

private theorem upToNul_delayText {front : Bytes} (d : Int) (rest : Bytes) (h : NulFree front) :
    upToNul (delayText front d rest) = delayText front d (upToNul rest) := by
  rw [delayText, upToNul_append _ h, upToNul_append _ (by decide),
    upToNul_append _ (nulFree_decimalInt d), upToNul_append _ (by decide)]
  rfl

private theorem delayText_append (front : Bytes) (d : Int) (rest more : Bytes) :
    delayText front d rest ++ more = delayText front d (rest ++ more) := by
  simp only [delayText, List.append_assoc]

variable (r : WholeRequest)

section Line

variable {front rest : Bytes} (htext : r.text = delayText front r.delay rest)
  (honly : OccursOnlyAt delayName r.text front.length)

include htext honly

/-- What stands behind the `Delay` line does not move the name. -/
theorem indexOf?_line (more : Bytes) :
    indexOf? delayName (delayText front r.delay more) = some front.length := by
  have hfound := honly.indexOf?
  rw [htext, ← List.nil_append rest, ← delayText_append] at hfound
  rw [← List.nil_append more, ← delayText_append]
  refine indexOf?_append_left _ (indexOf?_of_append_left hfound ?_)
  rw [delayText, List.length_append, List.length_append]
  change front.length + 5 ≤ front.length + (7 + _)
  omega

/-- The C and C++ lookups find the delay in a string that begins with the request up to the end
of its `Delay` line. -/
theorem getHeaderValue (hfits : r.FitsC) (slot : Int) {data : CString} {more : Bytes}
    (hchars : data.chars = delayText front r.delay more) :
    CBsd.getHeaderValue slot data delayName = .ok r.delay ∧
      CNetconn.getHeaderValue slot data delayName = .ok r.delay ∧
      CppAsio.getHeaderValue slot data delayName = .ok r.delay := by
  have hdelay := hfits.delay_lt
  have hline := getHeaderValue_line slot (p := front) (v := 32 :: decimalInt r.delay) (s := more)
    hchars (by rw [hchars]; exact r.indexOf?_line htext honly more) (by decide)
    (List.not_mem_cons_of_ne_of_not_mem (by decide) (notMem_decimalInt _ rfl (by decide)))
    (by decide)
  rw [lineValue_decimalInt slot (by omega) (by omega)] at hline
  exact hline

end Line

private theorem not_infix_upToNul {text : Bytes} (h : ¬ delayName <:+: text) :
    indexOf? delayName (upToNul text) = none := by
  rw [indexOf?_eq_none_iff]
  intro hin
  exact h (hin.trans (List.takeWhile_prefix _).isInfix)

/-- The C-BSD and Asio lookups find the delay in the string of a whole request. -/
theorem getHeaderValue_whole (hfits : r.FitsC) (slot : Int) {data : CString}
    (hchars : data.chars = upToNul r.text) :
    CBsd.getHeaderValue slot data delayName = .ok r.delay ∧
      CppAsio.getHeaderValue slot data delayName = .ok r.delay := by
  rcases r.isRequest.header with ⟨hzero, hnone⟩ | ⟨front, rest, htext, honly⟩
  · have hname : indexOf? delayName data.chars = none := by
      rw [hchars]
      exact not_infix_upToNul hnone
    rw [hzero]
    exact ⟨CBsd.getHeaderValue_of_none slot hname, CppAsio.getHeaderValue_of_none slot hname⟩
  · have hstring := upToNul_delayText r.delay rest (hfits.nulFree front rest htext)
    rw [← htext] at hstring
    have hline := r.getHeaderValue htext honly hfits slot (hchars.trans hstring)
    exact ⟨hline.1, hline.2.2⟩

/-- The C-BSD server finds the delay of a whole request. -/
theorem cBsd (hfits : r.FitsC) (recvBuf : Buffer 1024) (slot : Int) :
    CBsd.receivedDelay recvBuf slot r.text = .ok r.delay := by
  have hlen := r.length_le
  have hchars : (recvBuf.string (r.text.take 1023) (by rw [List.length_take]; omega)).chars =
      upToNul r.text := congrArg upToNul (List.take_of_length_le (by omega))
  exact (r.getHeaderValue_whole hfits slot hchars).1

/-- The Asio server finds the delay of a whole request. -/
theorem cppAsio (hfits : r.FitsC) (data : Buffer (1024 + 200)) (slot : Int) :
    CppAsio.receivedDelay data slot r.text = .ok r.delay := by
  have hlen := r.length_le
  have hchars : (data.string (r.text.take 1024) (by rw [List.length_take]; omega)).chars =
      upToNul r.text := congrArg upToNul (List.take_of_length_le (by omega))
  exact (r.getHeaderValue_whole hfits slot hchars).2

/-- The Netconn server finds the delay of a whole request in a first fragment that holds its
`Delay` line. -/
theorem cNetconn (hfits : r.FitsC) (slot : Int) {recvBuf : CNetconn.Payload}
    (hfragment : r.InFragment recvBuf) : CNetconn.receivedDelay slot recvBuf = .ok r.delay := by
  have hchars : recvBuf.string.chars = upToNul (recvBuf.fragment ++ recvBuf.behind) := rfl
  rcases r.isRequest.header with ⟨hzero, hnone⟩ | ⟨front, rest, htext, honly⟩
  · rw [hzero]
    apply CBsd.getHeaderValue_of_none slot
    rw [hchars, indexOf?_eq_none_iff]
    exact hfragment.clear hnone
  · have hline : delayText front r.delay [] <+: r.text := by
      rw [htext, ← List.nil_append rest, ← delayText_append]
      exact List.prefix_append _ _
    obtain ⟨t, ht⟩ := List.prefix_of_prefix_length_le hline hfragment.isPrefix
      (hfragment.lineEnd front rest htext)
    have hstring := upToNul_delayText r.delay (t ++ recvBuf.behind)
      (hfits.nulFree front rest htext)
    rw [← List.nil_append (t ++ recvBuf.behind), ← List.append_assoc, ← delayText_append,
      ← delayText_append, ht] at hstring
    exact (r.getHeaderValue htext honly hfits slot (hchars.trans hstring)).2.1

/-- The Rust server finds the delay of a whole request. -/
theorem rust (hfits : r.FitsRust) (reads : List Rust.Read) :
    Rust.readRequest (.ok r.text :: reads) = .ok (some (.ok r.delay, reads)) := by
  have hlen := r.length_le
  have hmomory := momoryUsageName_le_of_short hlen
  rcases r.isRequest.header with ⟨hzero, hnone⟩ | ⟨front, rest, htext, honly⟩
  · rw [hzero]
    exact Rust.readRequest_of_not_infix r.isRequest.get hfits.isAscii (by omega) hmomory hnone reads
  · apply Rust.readRequest_of_getHeader r.isRequest.get hfits.isAscii (by omega) hmomory
    have hline : Rust.getHeader (r.text ++ List.replicate (1024 - r.text.length) 0) delayName =
        .ok ((parseU64? ((32 :: decimalInt r.delay).drop 1)).getD 0) :=
      Rust.getHeader_line (p := front) (s := rest ++ List.replicate (1024 - r.text.length) 0)
        ((congrArg (· ++ _) htext).trans (delayText_append _ _ _ _))
        (isAscii_append_zeros _ hfits.isAscii) (by decide)
        (indexOf?_append_left _ honly.indexOf?) (List.cons_ne_nil _ _)
        (List.not_mem_cons_of_ne_of_not_mem (by decide) (notMem_decimalInt _ rfl (by decide)))
    have hdelay := hfits.delay_lt
    have hparse : parseU64? (decimalInt r.delay) = some (digitsValue (decimal r.delay)) := by
      apply parseU64?_digits (decimal_ne_nil r.delay) fun b hb ↦ isDigit_of_mem_decimal hb
      rw [digitsValue_decimal]
      exact hdelay
    rw [hline, List.drop_one, List.tail_cons, hparse, digitsValue_decimal, Option.getD_some]

end WholeRequest

/-- A whole request with the surroundings in which each server reads and answers it: the former
content of the stack slot, the free heap, and what the Netconn server has in memory, which begins
with the first fragment of what one `netconn_recv` returned. -/
structure Exchange where
  request : WholeRequest
  slot : Int
  heap : UInt32
  payload : CNetconn.Payload

namespace Exchange

/-- The round of the C-BSD server. -/
def cBsd (x : Exchange) : Round Bytes := ⟨x.request.text, x.slot, x.heap, true⟩

/-- The round of the Netconn server. -/
def cNetconn (x : Exchange) : Round (Option CNetconn.Payload) :=
  ⟨some x.payload, x.slot, x.heap, true⟩

/-- The round of the Asio server. -/
def cppAsio (x : Exchange) : Round (Option Bytes) := ⟨some x.request.text, x.slot, x.heap, true⟩

/-- The iteration of the Rust server. -/
def rust (x : Exchange) : Rust.Iteration := ⟨x.heap, true⟩

/-- The answer that a request should get from a server. -/
def answer (respond : UInt32 → Bytes) (x : Exchange) : Answer :=
  ⟨x.request.delay, respond x.heap⟩

end Exchange

/-- A delay of a request is waited. -/
theorem waited_natCast (n : Nat) : waited n = n := by
  unfold waited
  split
  · rfl
  · omega

/-- The Rust server answers whole requests one by one, and then waits for more. -/
theorem Rust.handleConnection_exchanges (xs : List Exchange)
    (hfits : ∀ x ∈ xs, x.request.FitsRust) (more : List Iteration) :
    handleConnection (xs.map Exchange.rust ++ more) (xs.map fun x ↦ .ok x.request.text) =
      (xs.map (Exchange.answer getResponseMessage), .waiting) := by
  induction xs with
  | nil =>
    cases more with
    | nil => rfl
    | cons i more => rfl
  | cons x xs ih =>
    rw [List.forall_mem_cons] at hfits
    rw [List.map_cons, List.map_cons, List.map_cons, List.cons_append, handleConnection,
      x.request.rust hfits.1]
    simp only [Answer.andThen, Exchange.rust, if_true, ih hfits.2, waited_natCast]
    rfl

/-- A request whose `Delay` header has a given value, behind a request line with the path
`/` and some more bytes. -/
def delayRequest (path : Bytes) (delay : Nat) : Bytes :=
  delayText (ascii "GET /" ++ path ++ ascii " HTTP/1.1\r\n") delay crlf

/-- A request without a `Delay` header, with some more bytes in the path. -/
def plainRequest (path : Bytes) : Bytes :=
  ascii "GET /" ++ path ++ ascii " HTTP/1.1\r\n\r\n"

private theorem isRequest_delayRequest {path : Bytes} {delay : Nat}
    (hget : ascii "GET" <+: delayRequest path delay)
    (hblank : indexOf? (crlf ++ crlf) (delayRequest path delay) =
      some ((delayRequest path delay).length - 4))
    (hend : ¬ crlf ++ crlf <:+:
      (delayRequest path delay).drop ((delayRequest path delay).length - 4 + 1))
    (hfront : crlf <:+ ascii "GET /" ++ path ++ ascii " HTTP/1.1\r\n")
    (hname : ¬ delayName <:+: ascii "GET /" ++ path ++ ascii " HTTP/1.1\r\n") :
    IsRequest (delayRequest path delay) delay where
  get := hget
  blank := occursOnlyAt_of_not_infix hblank hend
  header := Or.inr ⟨_, crlf, rfl, delayText_only delay hfront hname (by decide)⟩

private theorem isRequest_plainRequest {path : Bytes}
    (hget : ascii "GET" <+: plainRequest path)
    (hblank : indexOf? (crlf ++ crlf) (plainRequest path) =
      some ((plainRequest path).length - 4))
    (hend : ¬ crlf ++ crlf <:+: (plainRequest path).drop ((plainRequest path).length - 4 + 1))
    (hname : ¬ delayName <:+: plainRequest path) : IsRequest (plainRequest path) 0 where
  get := hget
  blank := occursOnlyAt_of_not_infix hblank hend
  header := Or.inl ⟨rfl, hname⟩

/-- A read that delivers some bytes, with 100000 bytes of free heap and a write that
succeeds. -/
def delivers {α : Type} (input : α) : Round α := ⟨input, 0, 100000, true⟩

/-- However a byte stream is cut into reads, a handler of C-BSD, Netconn or Asio that is
still in its loop has answered every read once, in order, as the lookup in what that read left to
parse says: its bytes, the former content of the stack slot and, for Netconn, its first fragment
and the memory behind it. Where every read delivers one whole request that fits the server, all
four handlers answer every request once, in order, each after its own delay, and wait for more. -/
theorem answers_per_read (recvBuf : Buffer 1024) (data : Buffer (1024 + 200)) :
    (∀ rounds, (CBsd.clientHandler recvBuf rounds).2 = .waiting →
      List.Forall₂ (AnswersRound (CBsd.parse recvBuf) CBsd.response) rounds
        (CBsd.clientHandler recvBuf rounds).1) ∧
    (∀ rounds, (CNetconn.handleClient rounds).2 = .waiting →
      List.Forall₂ (AnswersRound CNetconn.parse CNetconn.response) rounds
        (CNetconn.handleClient rounds).1) ∧
    (∀ rounds, (CppAsio.session data rounds).2 = .waiting →
      List.Forall₂ (AnswersRound (CppAsio.parse data) CppAsio.response) rounds
        (CppAsio.session data rounds).1) ∧
    ∀ xs : List Exchange,
      ((∀ x ∈ xs, x.request.FitsC) →
        CBsd.clientHandler recvBuf (xs.map Exchange.cBsd) =
          (xs.map (Exchange.answer CBsd.response), .waiting) ∧
        CppAsio.session data (xs.map Exchange.cppAsio) =
          (xs.map (Exchange.answer CppAsio.response), .waiting)) ∧
      ((∀ x ∈ xs, x.request.FitsC ∧ x.request.InFragment x.payload) →
        CNetconn.handleClient (xs.map Exchange.cNetconn) =
          (xs.map (Exchange.answer CNetconn.response), .waiting)) ∧
      ((∀ x ∈ xs, x.request.FitsRust) → ∀ more,
        Rust.handleConnection (xs.map Exchange.rust ++ more)
            (xs.map fun x ↦ .ok x.request.text) =
          (xs.map (Exchange.answer Rust.getResponseMessage), .waiting)) := by
  refine ⟨fun _ h ↦ serve_waiting h, fun _ h ↦ serve_waiting h, fun _ h ↦ serve_waiting h, ?_⟩
  intro xs
  have hwaited (respond : UInt32 → Bytes) :
      (fun x : Exchange ↦ Answer.mk (waited x.request.delay) (respond x.heap)) =
        Exchange.answer respond := by
    funext x
    rw [waited_natCast]
    rfl
  refine ⟨fun hfits ↦ ⟨?_, ?_⟩, fun hfits ↦ ?_, Rust.handleConnection_exchanges xs⟩
  · rw [← hwaited]
    apply serve_map xs Exchange.cBsd fun x ↦ x.request.delay
    · intro x hx
      change (CBsd.receivedDelay recvBuf x.slot x.request.text).map some = _
      rw [x.request.cBsd (hfits x hx)]
      rfl
    · intro x _
      rfl
  · rw [← hwaited]
    apply serve_map xs Exchange.cppAsio fun x ↦ x.request.delay
    · intro x hx
      change (CppAsio.receivedDelay data x.slot x.request.text).map some = _
      rw [x.request.cppAsio (hfits x hx)]
      rfl
    · intro x _
      rfl
  · rw [← hwaited]
    apply serve_map xs Exchange.cNetconn fun x ↦ x.request.delay
    · intro x hx
      change (CNetconn.receivedDelay x.slot x.payload).map some = _
      rw [x.request.cNetconn (hfits x hx).1 x.slot (hfits x hx).2]
      rfl
    · intro x _
      rfl

/-- A request with a delay of 5 ms and one without a delay, each in one read of its own, get their
two answers from the handlers of C-BSD, Netconn and Rust. -/
theorem answers_per_read_twoRequests :
    (CBsd.clientHandler ⟨4096, by decide, by decide⟩
      [delivers (delayRequest [] 5), delivers (plainRequest [])]).1.map Answer.delay = [5, 0] ∧
    (CNetconn.handleClient
      [delivers (some ⟨4096, delayRequest [] 5, [], by decide, by decide⟩),
        delivers (some ⟨4096, plainRequest [], [], by decide, by decide⟩)]).1.map
        Answer.delay = [5, 0] ∧
    (Rust.handleConnection [⟨100000, true⟩, ⟨100000, true⟩]
      [.ok (delayRequest [] 5), .ok (plainRequest [])]).1.map Answer.delay = [5, 0] := by
  have hfirst : IsRequest (delayRequest [] 5) 5 :=
    isRequest_delayRequest (by decide) (by decide) (by decide) (by decide) (by decide)
  have hsecond : IsRequest (plainRequest []) 0 :=
    isRequest_plainRequest (by decide) (by decide) (by decide) (by decide)
  let x : Exchange := ⟨⟨_, 5, hfirst, by decide⟩, 0, 100000, ⟨4096, delayRequest [] 5, [],
    by decide, by decide⟩⟩
  let y : Exchange := ⟨⟨_, 0, hsecond, by decide⟩, 0, 100000, ⟨4096, plainRequest [], [],
    by decide, by decide⟩⟩
  have hx : x.request.FitsC := .of_nulFree (show NulFree (delayRequest [] 5) by decide)
    (show 5 < 2 ^ 31 by decide)
  have hy : y.request.FitsC := .of_nulFree (show NulFree (plainRequest []) by decide)
    (show 0 < 2 ^ 31 by decide)
  have hxr : x.request.FitsRust :=
    ⟨show IsAscii (delayRequest [] 5) by decide, show 5 < 2 ^ 64 by decide⟩
  have hyr : y.request.FitsRust :=
    ⟨show IsAscii (plainRequest []) by decide, show 0 < 2 ^ 64 by decide⟩
  obtain ⟨-, -, -, hwhole⟩ :=
    answers_per_read ⟨4096, by decide, by decide⟩ ⟨4096, by decide, by decide⟩
  obtain ⟨hc, hnetconn, hrust⟩ := hwhole [x, y]
  refine ⟨congrArg (fun p ↦ p.1.map Answer.delay) (hc ?_).1,
    congrArg (fun p ↦ p.1.map Answer.delay) (hnetconn ?_),
    congrArg (fun p ↦ p.1.map Answer.delay) (hrust ?_ [])⟩
  · simp only [List.forall_mem_cons]
    exact ⟨hx, hy, List.forall_mem_nil _⟩
  · simp only [List.forall_mem_cons]
    exact ⟨⟨hx, .of_whole rfl rfl⟩, ⟨hy, .of_whole rfl rfl⟩, List.forall_mem_nil _⟩
  · simp only [List.forall_mem_cons]
    exact ⟨hxr, hyr, List.forall_mem_nil _⟩

/-- A request with a delay of 5 ms whose first three bytes come by themselves gets two
answers, or one without its delay; two such requests in one read get one answer. In a
single read, a NUL in front of it hides the delay from the C servers, and a delay of 2^31 is no
`int`; a byte that is not UTF-8 stops the Rust server, as a character behind the other name that
it looks up does, and a delay of 2^64 is no `u64`; the Netconn server misses a delay that its
first fragment does not hold, and takes bytes behind a netbuf's payload for a part of the
request. -/
theorem not_answers_per_request :
    IsRequest (delayRequest [] 5) 5 ∧
    (CBsd.clientHandler ⟨4096, by decide, by decide⟩
      [delivers ((delayRequest [] 5).take 3), delivers ((delayRequest [] 5).drop 3)]).1.map
        Answer.delay = [0, 5] ∧
    (CNetconn.handleClient
      [delivers (some ⟨4096, (delayRequest [] 5).take 3, [], by decide, by decide⟩),
        delivers (some ⟨4096, (delayRequest [] 5).drop 3, [], by decide, by decide⟩)]).1.map
        Answer.delay = [0, 5] ∧
    (CppAsio.session ⟨4096, by decide, by decide⟩ [delivers (some ((delayRequest [] 5).take 3)),
      delivers (some ((delayRequest [] 5).drop 3))]).1.map Answer.delay = [0, 5] ∧
    (Rust.handleConnection [⟨100000, true⟩, ⟨100000, true⟩]
      [.ok ((delayRequest [] 5).take 3), .ok ((delayRequest [] 5).drop 3)]).1.map
        Answer.delay = [0] ∧
    (CBsd.clientHandler ⟨4096, by decide, by decide⟩
      [delivers (delayRequest [] 5 ++ delayRequest [] 5)]).1.map Answer.delay = [5] ∧
    IsRequest (delayRequest [0] 5) 5 ∧
    (CBsd.clientHandler ⟨4096, by decide, by decide⟩ [delivers (delayRequest [0] 5)]).1.map
      Answer.delay = [0] ∧
    IsRequest (plainRequest [255]) 0 ∧
    (Rust.handleConnection [⟨100000, true⟩] [.ok (plainRequest [255])]) =
      ([], .fault .invalidUtf8) ∧
    IsRequest (plainRequest (momoryUsageName ++ [0xE2, 0x82, 0xAC])) 0 ∧
    (Rust.handleConnection [⟨100000, true⟩]
      [.ok (plainRequest (momoryUsageName ++ [0xE2, 0x82, 0xAC]))]) =
      ([], .fault (.slice 18 1022)) ∧
    IsRequest (delayRequest [] 2147483648) 2147483648 ∧
    (CBsd.clientHandler ⟨4096, by decide, by decide⟩
      [delivers (delayRequest [] 2147483648)]).1.map Answer.delay = [2147483647] ∧
    IsRequest (delayRequest [] 18446744073709551616) 18446744073709551616 ∧
    (Rust.handleConnection [⟨100000, true⟩]
      [.ok (delayRequest [] 18446744073709551616)]).1.map Answer.delay = [0] ∧
    (CNetconn.handleClient
      [delivers (some ⟨4096, (delayRequest [] 5).take 24, [], by decide, by decide⟩)]).1.map
        Answer.delay = [0] ∧
    IsRequest (plainRequest []) 0 ∧
    (CNetconn.handleClient
      [delivers (some ⟨4096, plainRequest [], ascii "Delay: 7\r\n", by decide, by decide⟩)]).1.map
        Answer.delay = [7] := by
  refine ⟨?_, by decide, by decide, by decide, by decide +kernel, by decide, ?_, by decide,
    ?_, by decide +kernel, ?_, by decide +kernel, ?_, by decide, ?_, by decide +kernel, by decide,
    ?_, by decide⟩
  · exact isRequest_delayRequest (by decide) (by decide) (by decide) (by decide) (by decide)
  · exact isRequest_delayRequest (by decide) (by decide) (by decide) (by decide) (by decide)
  · exact isRequest_plainRequest (by decide) (by decide) (by decide) (by decide)
  · exact isRequest_plainRequest (by decide) (by decide) (by decide) (by decide)
  · exact isRequest_delayRequest (by decide) (by decide) (by decide) (by decide) (by decide)
  · exact isRequest_delayRequest (by decide) (by decide) (by decide) (by decide) (by decide)
  · exact isRequest_plainRequest (by decide) (by decide) (by decide) (by decide)

end Esp32WebServers
