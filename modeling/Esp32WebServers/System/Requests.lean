import Esp32WebServers.Header.Captures
import Esp32WebServers.Header.ReadRequest
import Esp32WebServers.System.Servers

/-!
# The clients' requests in the servers

A whole request of a client makes every server wait as it asks. What a server finds in a piece
of the stream of requests is another matter, but C-BSD, Asio and Python find something in every
piece: the name of the header is followed by its colon and a number, or by the end of the piece.
-/

namespace Esp32WebServers

open Base

namespace Benchmark

/-- The line with the delay. -/
def Client.delayLine : Client → Int → Bytes
  | .iot, delay => ascii "Delay: " ++ (decimalInt delay ++ crlf)
  | .connection _, _ => []

/-- The milliseconds that a server is to wait before its response. -/
def Client.wait : Client → Int → Int
  | .iot, delay => waited delay
  | .connection _, _ => 0

/-- A request is its lines and the line with the delay. -/
theorem Client.message_eq (client : Client) (delay : Int) :
    client.message delay = requestLines ++ client.delayLine delay := by
  cases client with
  | iot =>
    rw [message, Benchmark.message_eq, delayText, List.append_nil]
    rfl
  | connection delayBetweenRequests =>
    rw [delayLine, List.append_nil]
    rfl

private theorem requestLines_facts :
    (IsAscii requestLines ∧ NulFree requestLines ∧ requestLines.length = 45) ∧
      ascii "GET" <+: requestLines ∧ crlf <:+ requestLines ∧ 68 ∉ requestLines ∧
      71 ∉ requestLines.tail := by
  decide

section Message

variable (client : Client) (delay : IntDelay)

/-- A request is ASCII. -/
theorem isAscii_message : IsAscii (client.message delay.val) := by
  cases client with
  | iot =>
    rw [Client.message, Benchmark.message_eq]
    exact (isCanonical_message delay.ge delay.lt).1.isAscii
  | connection delayBetweenRequests =>
    rw [Client.message_eq, Client.delayLine, List.append_nil]
    exact requestLines_facts.1.1

/-- A request is free of terminators. -/
theorem nulFree_message : NulFree (client.message delay.val) := by
  cases client with
  | iot =>
    rw [Client.message, Benchmark.message_eq]
    exact (isCanonical_message delay.ge delay.lt).1.nulFree
  | connection delayBetweenRequests =>
    rw [Client.message_eq, Client.delayLine, List.append_nil]
    exact requestLines_facts.1.2.1

/-- A request is short. -/
theorem length_message_le : (client.message delay.val).length ≤ 65 := by
  have hlines := requestLines_facts.1.2.2
  cases client with
  | iot =>
    rw [Client.message, Benchmark.message_eq]
    exact (isCanonical_message delay.ge delay.lt).2
  | connection delayBetweenRequests =>
    rw [Client.message_eq, Client.delayLine, List.append_nil]
    omega

/-- A request begins with `GET`. -/
theorem get_prefix_message : ascii "GET" <+: client.message delay.val := by
  rw [Client.message_eq]
  exact requestLines_facts.2.1.trans (List.prefix_append _ _)

/-- A request ends with a line end. -/
theorem crlf_suffix_message : crlf <:+ client.message delay.val := by
  rw [Client.message_eq]
  cases client with
  | iot =>
    refine ⟨requestLines ++ (ascii "Delay: " ++ decimalInt delay.val), ?_⟩
    simp only [Client.delayLine, List.append_assoc]
  | connection delayBetweenRequests =>
    rw [Client.delayLine, List.append_nil]
    exact requestLines_facts.2.2.1

/-- The first byte of a request is the only one of its kind in it. -/
theorem message_eq_cons : ∃ rest, client.message delay.val = 71 :: rest ∧ 71 ∉ rest := by
  refine ⟨requestLines.tail ++ client.delayLine delay.val, ?_, ?_⟩
  · rw [Client.message_eq]
    rfl
  · rw [List.mem_append, not_or]
    refine ⟨requestLines_facts.2.2.2.2, ?_⟩
    cases client with
    | iot =>
      simp only [Client.delayLine, List.mem_append, not_or]
      exact ⟨by decide, notMem_decimalInt _ rfl (by decide), by decide⟩
    | connection delayBetweenRequests => exact List.not_mem_nil

/-- The name stands in a request only in front of a colon, a space, an integer and the line
end. -/
theorem message_delay {p q : Bytes} (h : client.message delay.val = p ++ (delayName ++ q)) :
    ∃ d, q = ascii ": " ++ (decimalInt d ++ crlf) := by
  have hname : delayName = 68 :: ascii "elay" := by decide
  have hlines := requestLines_facts.2.2.2.1
  cases client with
  | iot =>
    refine ⟨delay.val, ?_⟩
    have hline : Client.delayLine .iot delay.val =
        68 :: (ascii "elay" ++ (ascii ": " ++ (decimalInt delay.val ++ crlf))) := rfl
    have hrest : (68 : UInt8) ∉ ascii "elay" ++ (ascii ": " ++ (decimalInt delay.val ++ crlf)) := by
      simp only [List.mem_append, not_or]
      exact ⟨by decide, by decide, notMem_decimalInt _ rfl (by decide), by decide⟩
    rw [Client.message_eq, hline, hname, List.cons_append] at h
    -- The byte stands once on the left, and so it does on the right.
    have hcount := congrArg (List.count 68) h
    simp only [List.count_append, List.count_cons_self, List.count_eq_zero.mpr hlines,
      List.count_eq_zero.mpr hrest] at hcount
    have hp : (68 : UInt8) ∉ p := List.count_eq_zero.mp (by omega)
    obtain ⟨-, htail⟩ := (append_cons_inj hlines hp).mp h
    exact (List.append_cancel_left htail).symm
  | connection delayBetweenRequests =>
    have hmem : (68 : UInt8) ∈ requestLines := by
      rw [Client.message_eq, Client.delayLine, List.append_nil] at h
      rw [h, hname]
      simp
    exact absurd hmem hlines

end Message

end Benchmark

/-! ### Pieces of the stream of requests -/

/-- A piece of a stream of requests is ASCII without NUL, and behind the name it ends or goes on
with a colon, a space, an integer and a line end. -/
structure IsPiece (chunk : Bytes) : Prop where
  isAscii : IsAscii chunk
  nulFree : NulFree chunk
  delay : ∀ p q, chunk = p ++ (delayName ++ q) →
    ∃ d rest, q <+: ascii ": " ++ (decimalInt d ++ (crlf ++ rest))

/-- In a whole stream nothing ends behind the name. -/
private def DelaysNamed (text : Bytes) : Prop :=
  ∀ p q, text = p ++ (delayName ++ q) → ∃ d rest, q = ascii ": " ++ (decimalInt d ++ (crlf ++ rest))

private theorem DelaysNamed.append {x y : Bytes} (hx : DelaysNamed x) (hy : DelaysNamed y)
    (hend : crlf <:+ x) : DelaysNamed (x ++ y) := by
  intro p q h
  rcases List.append_eq_append_iff.mp h with ⟨t, -, ht⟩ | ⟨t, ht, hq⟩
  · exact hy t q ht
  · rcases List.append_eq_append_iff.mp hq with ⟨u, rfl, rfl⟩ | ⟨u, hname, hu⟩
    · obtain ⟨d, rest, rfl⟩ := hx p u ht
      exact ⟨d, rest ++ y, by simp only [List.append_assoc]⟩
    · -- The line end of the first part does not stand in the name.
      have hnil : t = [] := by
        by_contra hne
        obtain ⟨z, hz⟩ := hend
        have hlast : (10 : UInt8) ∈ t := by
          have hget := congrArg List.getLast? (hz.trans ht)
          rw [List.getLast?_append_of_ne_nil _ hne, List.getLast?_append] at hget
          exact List.mem_of_getLast? hget.symm
        have hmem : (10 : UInt8) ∈ delayName := by
          rw [hname]
          exact List.mem_append_left _ hlast
        exact absurd hmem (by decide)
      subst hnil
      rw [List.nil_append] at hname
      exact hy [] q (by rw [hu, hname, List.nil_append])

private theorem delaysNamed_stream (client : Benchmark.Client) (requests : List IntDelay) :
    DelaysNamed (requests.flatMap fun delay ↦ client.message delay.val) := by
  induction requests with
  | nil =>
    intro p q h
    have hlen := congrArg List.length h
    simp [delayName, ascii] at hlen
  | cons delay requests ih =>
    rw [List.flatMap_cons]
    apply DelaysNamed.append _ ih (Benchmark.crlf_suffix_message client delay)
    intro p q h
    obtain ⟨d, rfl⟩ := Benchmark.message_delay client delay h
    exact ⟨d, [], by rw [List.append_nil]⟩

/-- What lies between two cuts of a stream of requests is a piece of it. -/
theorem isPiece_of_infix {client : Benchmark.Client} {requests : List IntDelay} {chunk : Bytes}
    (h : chunk <:+: requests.flatMap fun delay ↦ client.message delay.val) : IsPiece chunk where
  isAscii := by
    intro b hb
    obtain ⟨delay, -, hmem⟩ := List.mem_flatMap.mp (h.subset hb)
    exact Benchmark.isAscii_message client delay b hmem
  nulFree := by
    intro b hb
    obtain ⟨delay, -, hmem⟩ := List.mem_flatMap.mp (h.subset hb)
    exact Benchmark.nulFree_message client delay b hmem
  delay := by
    rintro p q rfl
    obtain ⟨x, y, hxy⟩ := h
    obtain ⟨d, rest, hq⟩ := delaysNamed_stream client requests (x ++ p) (q ++ y) (by
      rw [← hxy]
      simp only [List.append_assoc])
    exact ⟨d, rest, y, hq⟩

namespace IsPiece

variable {chunk : Bytes} (h : IsPiece chunk)

include h

/-- A piece in which the name is followed by a line end has the colon in between. -/
theorem colon {i e : Nat} (hname : indexOf? delayName chunk = some i)
    (hend : indexOf? crlf (chunk.drop i) = some e) :
    indexOf? (ascii ":") (chunk.drop i) = some 5 := by
  obtain ⟨q, hq⟩ := (indexOf?_eq_some_iff.mp hname).1
  obtain ⟨d, rest, hafter⟩ := h.delay (chunk.take i) q (by rw [hq, List.take_append_drop])
  cases q with
  | nil =>
    -- The piece ends with the name, and there is no line end in it.
    have hnone : indexOf? crlf (delayName ++ []) = none := by decide
    rw [← hq, hnone] at hend
    cases hend
  | cons b q =>
    obtain ⟨t, ht⟩ := hafter
    have hb : b = 58 := (List.cons.inj ht).1
    rw [← hq, hb]
    exact indexOf?_of_append (c := 58) (w := []) (p := delayName) (q := q) (by decide)

/-- Behind the name and its colon a piece has digits before its line end. -/
theorem not_emptyValue : ¬ EmptyValue delayName chunk := by
  rintro ⟨i, k, ⟨-, q, hq⟩, -⟩
  obtain ⟨d, rest, t, ht⟩ := h.delay (chunk.take i)
    (58 :: (List.replicate k 32 ++ ([] ++ crlf)) ++ q) (by
      rw [← List.append_assoc delayName, hq, List.take_append_drop])
  have hcolon : ascii ": " = [58, 32] := by decide
  rw [hcolon, List.nil_append, List.cons_append, List.cons_append] at ht
  have htail := (List.cons.inj ht).2
  obtain ⟨b, ds, hds⟩ := List.exists_cons_of_ne_nil (decimalInt_ne_nil d)
  have hnot (c : UInt8) (hdigit : isDigit c = false) (hc : c ≠ 45) : b ≠ c := by
    rintro rfl
    exact notMem_decimalInt d hdigit hc (by rw [hds]; exact List.mem_cons_self)
  rw [hds] at htail
  match k with
  | 0 => exact absurd (List.cons.inj htail).1 (by decide)
  | 1 =>
    have hcr : b = 13 := (List.cons.inj (List.cons.inj htail).2).1.symm
    exact hnot 13 rfl (by decide) hcr
  | k + 2 =>
    have hspace : b = 32 := (List.cons.inj (List.cons.inj htail).2).1.symm
    exact hnot 32 rfl (by decide) hspace

end IsPiece

/-! ### Responses -/

-- The projection is taken by `simp`: comparing the two sides would evaluate the responses.

/-- The responses of C-BSD are those of the repository. -/
theorem CBsd.server_formats (recvBuf : Buffer 1024) : Link.Formats (server recvBuf) := by
  intro heap
  simp only [server, Server.ofHandler]
  exact response_eq heap.lt

/-- The responses of Netconn are those of the repository. -/
theorem CNetconn.server_formats : Link.Formats server := by
  intro heap
  simp only [server, Server.ofHandler, response]
  exact CBsd.response_eq heap.lt

/-- The responses of Asio are those of the repository. -/
theorem CppAsio.server_formats (data : Buffer (1024 + 200)) : Link.Formats (server data) := by
  intro heap
  simp only [server, Server.ofHandler]
  exact response_eq heap.lt

/-- The responses of Python are those of the repository. -/
theorem Python.server_formats : Link.Formats server := by
  intro heap
  simp only [server, Server.ofHandler]
  exact sendResponse_eq heap.val.toNat

/-- The responses of Rust are those of the repository. -/
theorem Rust.server_formats : Link.Formats server := by
  intro heap
  simp only [server]
  exact getResponseMessage_eq heap.val

/-! ### Reads -/

/-- What C-BSD goes on with is the delay of its read. -/
theorem CBsd.server_receive {recvBuf : Buffer 1024} {slot : Int} {chunk : Bytes} {v : Int}
    (h : receivedDelay recvBuf slot chunk = .ok v) :
    (server recvBuf).receive () slot chunk = some ((), some v) := by
  refine Server.ofHandler_receive_eq_some_iff.mpr ⟨v, ?_, rfl⟩
  change (receivedDelay recvBuf slot chunk).map some = .ok (some v)
  rw [h]
  rfl

/-- What Netconn goes on with is the delay of its read. -/
theorem CNetconn.server_receive {around : Int × Payload} {chunk : Bytes} {v : Int}
    (h : receivedDelay around.1 around.2 = .ok v) :
    server.receive () around chunk = some ((), some v) := by
  refine Server.ofHandler_receive_eq_some_iff.mpr ⟨v, ?_, rfl⟩
  change (receivedDelay around.1 around.2).map some = .ok (some v)
  rw [h]
  rfl

/-- What Asio goes on with is the delay of its read. -/
theorem CppAsio.server_receive {data : Buffer (1024 + 200)} {slot : Int} {chunk : Bytes} {v : Int}
    (h : receivedDelay data slot chunk = .ok v) :
    (server data).receive () slot chunk = some ((), some v) := by
  refine Server.ofHandler_receive_eq_some_iff.mpr ⟨v, ?_, rfl⟩
  change (receivedDelay data slot chunk).map some = .ok (some v)
  rw [h]
  rfl

/-- What Python goes on with is the delay of its read. -/
theorem Python.server_receive {chunk : Bytes} {delay : Nat} (h : readRequest chunk = .ok delay) :
    server.receive () () chunk = some ((), some (delay : Int)) := by
  refine Server.ofHandler_receive_eq_some_iff.mpr ⟨delay, ?_, rfl⟩
  unfold ReadResult.ofBytes
  split
  · simp only [parseResult, ReadResult.bytes, h]
  · next hnil =>
    rw [ne_eq, not_not] at hnil
    subst hnil
    simp only [parseResult, ReadResult.bytes, h]

/-- A read with which `read_request` returns ends its call with the delay. -/
theorem Rust.server_receive {buffer chunk : Bytes} {delay : Nat}
    (h : readLoop buffer [.ok chunk] = .ok (some (.ok delay, []))) :
    server.receive buffer () chunk = some (emptyBuffer, some (delay : Int)) := by
  rw [readLoop] at h
  by_cases hget : ascii "GET" <+: overlay buffer chunk
  · apply server_receive_of_get hget
    simp only [if_pos hget, bind, Except.bind] at h
    split at h
    · cases h
    · next request hparse =>
      cases h
      exact hparse
  · simp only [if_neg hget, readLoop] at h
    cases h

/-! ### Servers on pieces -/

/-- A server whose responses are those of the repository, and which finds a delay in every piece
of a stream of requests that it reads; a read can return a single byte. -/
structure Server.AnswersPieces {ι : Type} (server : Server Unit ι) : Prop where
  formats : Link.Formats server
  piece : ∀ around chunk, IsPiece chunk → server.admits around chunk = true →
    ∃ delay, server.receive () around chunk = some ((), some delay)
  single : ∀ b, ∃ around, server.admits around [b] = true

/-- C-BSD finds a delay in every piece. -/
theorem CBsd.server_answersPieces (recvBuf : Buffer 1024) :
    (server recvBuf).AnswersPieces where
  formats := server_formats recvBuf
  piece := by
    intro slot chunk h hlen
    change decide (chunk.length ≤ 1023) = true at hlen
    have hchars := recvBuf.chars_string_take (n := 1023) h.nulFree (of_decide_eq_true hlen)
      (by rw [List.length_take]; omega)
    obtain ⟨v, hv⟩ : ∃ v, receivedDelay recvBuf slot chunk = .ok v := by
      cases hname : indexOf? delayName chunk with
      | none => exact ⟨0, getHeaderValue_of_none slot (by rw [hchars]; exact hname)⟩
      | some i =>
        cases hend : indexOf? crlf (chunk.drop i) with
        | none =>
          exact ⟨0, getHeaderValue_of_no_crlf slot (by rw [hchars]; exact hname)
            (by rw [hchars]; exact hend)⟩
        | some e =>
          exact ⟨_, getHeaderValue_of_found slot (by rw [hchars]; exact hname)
            (by rw [hchars]; exact h.colon hname hend) (by rw [hchars]; exact hend)⟩
    exact ⟨v, server_receive hv⟩
  single b := ⟨0, decide_eq_true (show [b].length ≤ 1023 by simp)⟩

/-- Asio finds a delay in every piece. -/
theorem CppAsio.server_answersPieces (data : Buffer (1024 + 200)) :
    (server data).AnswersPieces where
  formats := server_formats data
  piece := by
    intro slot chunk h hlen
    change decide (chunk.length ≤ 1024) = true at hlen
    have hchars := data.chars_string_take (n := 1024) h.nulFree (of_decide_eq_true hlen)
      (by rw [List.length_take]; omega)
    obtain ⟨v, hv⟩ : ∃ v, receivedDelay data slot chunk = .ok v := by
      cases hname : indexOf? delayName chunk with
      | none => exact ⟨0, getHeaderValue_of_none slot (by rw [hchars]; exact hname)⟩
      | some i =>
        cases hend : indexOf? crlf (chunk.drop i) with
        | none =>
          refine ⟨0, ?_⟩
          rw [receivedDelay, getHeaderValue, getHeader_of_no_crlf (by rw [hchars]; exact hname)
            (by rw [hchars]; exact hend)]
          rfl
        | some e =>
          exact ⟨_, getHeaderValue_of_found slot (by rw [hchars]; exact hname)
            (by rw [hchars]; exact hend)⟩
    exact ⟨v, server_receive hv⟩
  single b := ⟨0, decide_eq_true (show [b].length ≤ 1024 by simp)⟩

/-- Python finds a delay in every piece. -/
theorem Python.server_answersPieces : server.AnswersPieces where
  formats := server_formats
  piece := by
    intro _ chunk h _
    obtain ⟨delay, hdelay⟩ := (parseHaeder_isOk_iff chunk delayName).mpr h.not_emptyValue
    rw [← readRequest_of_isAscii h.isAscii] at hdelay
    exact ⟨delay, server_receive hdelay⟩
  single b := ⟨(), decide_eq_true (show [b].length ≤ 1024 by simp)⟩

/-! ### Servers on whole requests -/

/-- A server whose responses are those of the repository, and which waits as a request asks when
one of its reads returns the whole request. -/
structure Server.Understands {σ ι : Type} (client : Benchmark.Client) (server : Server σ ι) :
    Prop where
  formats : Link.Formats server
  whole : ∀ around (delay : IntDelay), server.admits around (client.message delay.val) = true →
    ∃ parsed, server.receive server.start around (client.message delay.val) =
        some (server.start, some parsed) ∧ waited parsed = client.wait delay.val

namespace Benchmark

private theorem not_delayName_infix_requestLines : ¬ delayName <:+: requestLines := by
  intro h
  exact requestLines_facts.2.2.2.1 (h.subset (by decide))

/-- The request of the IoT benchmark, as a request with one `Delay` line. -/
def iotRequest (delay : IntDelay) : DelayRequest :=
  DelayRequest.ofCanonical (isCanonical_message delay.ge delay.lt).1

/-- Its text is the request. -/
theorem iotRequest_text (delay : IntDelay) :
    (iotRequest delay).text = Client.iot.message delay.val :=
  (Benchmark.message_eq delay.val).symm

/-- What the pattern of Python and Lua finds in a request of the IoT benchmark. -/
theorem search_iotMessage (delay : IntDelay) :
    search (headerPattern delayName) (Client.iot.message delay.val) =
      if 0 ≤ delay.val then some [decimal delay.val.toNat] else none := by
  rw [← iotRequest_text]
  exact (iotRequest delay).search_headerPattern.trans (matchHere_decimalInt delay.val [])

/-- The pattern finds nothing in a request of the connection benchmark. -/
theorem search_connectionMessage (delayBetweenRequests : Rat) (delay : IntDelay) :
    search (headerPattern delayName)
      ((Client.connection delayBetweenRequests).message delay.val) = none := by
  apply search_eq_none_iff.mpr
  intro i _
  rw [headerPattern, matchHere_lits_append, if_neg]
  intro hname
  exact not_delayName_infix_requestLines
    (infix_iff_exists_drop.mpr ⟨i, (List.prefix_append _ _).trans hname⟩)

/-- A delay is what the C servers scan in its line. -/
theorem lineValue_iotRequest (slot : Int) (delay : IntDelay) :
    lineValue slot (iotRequest delay).value = delay.val :=
  lineValue_decimalInt slot delay.ge delay.lt

end Benchmark

/-- A negative delay that is parsed as none asks for the same wait. -/
theorem waited_toNat (d : Int) :
    waited ((if 0 ≤ d then d.toNat else 0 : Nat) : Int) = waited d := by
  unfold waited
  split
  · split
    · omega
    · omega
  · split
    · omega
    · omega

/-- C-BSD waits as a whole request asks. -/
theorem CBsd.server_understands (client : Benchmark.Client) (recvBuf : Buffer 1024) :
    (server recvBuf).Understands client where
  formats := server_formats recvBuf
  whole := by
    intro slot delay _
    have hlen := Benchmark.length_message_le client delay
    obtain ⟨v, hv, hwait⟩ : ∃ v, receivedDelay recvBuf slot (client.message delay.val) = .ok v ∧
        waited v = client.wait delay.val := by
      cases client with
      | iot =>
        refine ⟨delay.val, ?_, rfl⟩
        rw [← Benchmark.iotRequest_text, (Benchmark.iotRequest delay).cBsd recvBuf slot,
          Benchmark.lineValue_iotRequest]
      | connection delayBetweenRequests =>
        exact ⟨0, receivedDelay_of_not_infix recvBuf slot (Benchmark.nulFree_message _ delay)
          (by omega) Benchmark.not_delayName_infix_requestLines, rfl⟩
    exact ⟨v, server_receive hv, hwait⟩

/-- Asio waits as a whole request asks. -/
theorem CppAsio.server_understands (client : Benchmark.Client) (data : Buffer (1024 + 200)) :
    (server data).Understands client where
  formats := server_formats data
  whole := by
    intro slot delay _
    have hlen := Benchmark.length_message_le client delay
    obtain ⟨v, hv, hwait⟩ : ∃ v, receivedDelay data slot (client.message delay.val) = .ok v ∧
        waited v = client.wait delay.val := by
      cases client with
      | iot =>
        refine ⟨delay.val, ?_, rfl⟩
        rw [← Benchmark.iotRequest_text, (Benchmark.iotRequest delay).cppAsio data slot,
          Benchmark.lineValue_iotRequest]
      | connection delayBetweenRequests =>
        exact ⟨0, receivedDelay_of_not_infix data slot (Benchmark.nulFree_message _ delay)
          (by omega) Benchmark.not_delayName_infix_requestLines, rfl⟩
    exact ⟨v, server_receive hv, hwait⟩

/-- Netconn waits as a whole request of the IoT benchmark asks, whatever lies behind it. -/
theorem CNetconn.server_understands : server.Understands .iot where
  formats := server_formats
  whole := by
    intro around delay hadmits
    have hfragment : around.2.fragment = (Benchmark.iotRequest delay).text := by
      rw [Benchmark.iotRequest_text]
      exact beq_iff_eq.mp hadmits
    have hv := (Benchmark.iotRequest delay).cNetconn around.1 around.2 hfragment
    rw [Benchmark.lineValue_iotRequest] at hv
    exact ⟨delay.val, server_receive hv, rfl⟩

/-- Rust waits as a whole request asks. -/
theorem Rust.server_understands (client : Benchmark.Client) : server.Understands client where
  formats := server_formats
  whole := by
    intro _ delay _
    have hlen := Benchmark.length_message_le client delay
    obtain ⟨n, hn, hwait⟩ : ∃ n : Nat,
        readRequest [.ok (client.message delay.val)] = .ok (some (.ok n, [])) ∧
          waited n = client.wait delay.val := by
      cases client with
      | iot =>
        refine ⟨_, ?_, waited_toNat delay.val⟩
        have hrust := (Benchmark.iotRequest delay).rust []
        have hvalue : (Benchmark.iotRequest delay).value.drop 1 = decimalInt delay.val := rfl
        rw [Benchmark.iotRequest_text, hvalue, parseU64?_decimalInt delay.lt] at hrust
        rw [hrust]
        split
        · rfl
        · rfl
      | connection delayBetweenRequests =>
        have hget := Benchmark.get_prefix_message (.connection delayBetweenRequests) delay
        exact ⟨0, readRequest_of_not_infix hget (Benchmark.isAscii_message _ delay) (by omega)
          (momoryUsageName_le_of_short (by omega)) Benchmark.not_delayName_infix_requestLines [],
          rfl⟩
    exact ⟨n, server_receive hn, hwait⟩

/-- Python waits as a whole request asks. -/
theorem Python.server_understands (client : Benchmark.Client) : server.Understands client where
  formats := server_formats
  whole := by
    intro _ delay _
    obtain ⟨n, hn, hwait⟩ : ∃ n : Nat, readRequest (client.message delay.val) = .ok n ∧
        waited n = client.wait delay.val := by
      rw [readRequest_of_isAscii (Benchmark.isAscii_message client delay)]
      cases client with
      | iot =>
        refine ⟨_, ?_, waited_toNat delay.val⟩
        have hsearch := Benchmark.search_iotMessage delay
        split at hsearch
        · next h =>
          rw [if_pos h, parseHaeder_of_digits hsearch (decimal_ne_nil _)
            (fun b hb ↦ isDigit_of_mem_decimal hb), digitsValue_decimal]
        · next h => rw [if_neg h, parseHaeder_of_none hsearch]
      | connection delayBetweenRequests =>
        exact ⟨0, parseHaeder_of_none (Benchmark.search_connectionMessage _ delay), rfl⟩
    exact ⟨n, server_receive hn, hwait⟩

end Esp32WebServers
