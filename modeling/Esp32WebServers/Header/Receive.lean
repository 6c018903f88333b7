import Esp32WebServers.Header.Patterns
import Esp32WebServers.Header.Rust

/-!
# The delay of one received text

What each server parses out of one read: C-BSD and Asio out of a terminated buffer,
Netconn out of the payload of a netbuf, which nothing terminates, Rust out of a buffer
filled up with zeros, Python and Lua out of a string.
A request with one `Delay` line is decided by the text behind the colon of that line.
-/

namespace Esp32WebServers

open Base

namespace CBsd

/-- The delay of `client_handler`, `web_server/c_bsd/main/tcp_server.c:125–128`. The
buffer is zeroed and `recv` stores at most one byte less than it holds. -/
def receivedDelay (recvBuf : Buffer 1024) (slot : Int) (received : Bytes) : Except Fault Int :=
  getHeaderValue slot (recvBuf.string (received.take 1023) (by
    rw [List.length_take]
    omega)) delayName

end CBsd

namespace CNetconn

/-- The first fragment of a netbuf in memory, with the bytes behind it up to the next
NUL; these belong to the allocator or to other packets. -/
structure Payload where
  base : Nat
  fragment : Bytes
  behind : Bytes
  base_pos : 0 < base
  fits : base + (fragment.length + behind.length) < 2 ^ 31

/-- The C string that starts at the payload. -/
def Payload.string (recvBuf : Payload) : CString :=
  Buffer.string ⟨recvBuf.base, recvBuf.base_pos, recvBuf.fits⟩
    (recvBuf.fragment ++ recvBuf.behind) (by rw [List.length_append])

/-- Behind a first fragment without NUL the string goes on in the memory behind it. -/
theorem Payload.chars_string {recvBuf : Payload} (h : NulFree recvBuf.fragment) :
    recvBuf.string.chars = recvBuf.fragment ++ upToNul recvBuf.behind := upToNul_append _ h

/-- The delay of `handle_client`, `web_server/c_netconn/main/tcp_server.c:133–135`. -/
def receivedDelay (slot : Int) (recvBuf : Payload) : Except Fault Int :=
  getHeaderValue slot recvBuf.string delayName

end CNetconn

namespace CppAsio

/-- The delay of the read handler, `web_server/cpp_asio/main/tcp_server.cpp:130–133`. A
read stores up to `max_length` bytes in `data_`; the terminator behind them may be the
first byte of `send_buf_`, which follows in memory. -/
def receivedDelay (data : Buffer (1024 + 200)) (slot : Int) (received : Bytes) :
    Except Fault Int :=
  getHeaderValue slot (data.string (received.take 1024) (by
    rw [List.length_take]
    omega)) delayName

end CppAsio

/-- The 1024-byte buffer of the Rust server holds a request and zeros behind it. -/
theorem Rust.overlay_emptyBuffer {text : Bytes} :
    Rust.overlay Rust.emptyBuffer text = text ++ List.replicate (1024 - text.length) 0 := by
  rw [overlay, emptyBuffer, List.drop_replicate]

/-- Zeros behind ASCII text are ASCII. -/
theorem isAscii_append_zeros {text : Bytes} (n : Nat) (h : IsAscii text) :
    IsAscii (text ++ List.replicate n 0) := by
  refine isAscii_append.mpr ⟨h, ?_⟩
  intro b hb
  rw [List.eq_of_mem_replicate hb]
  decide

/-- A request that one read delivers, parsed on a buffer in which no lookup fails: the
Rust server returns the delay without a panic. -/
theorem Rust.readRequest_of_getHeader {text : Bytes} {n : Nat}
    (hget : ascii "GET" <+: text) (ha : IsAscii text) (hlen : text.length ≤ 1024)
    (hmomory : ∀ i, indexOf? momoryUsageName text = some i →
      i + momoryUsageName.length + 2 ≤ 1024)
    (hdelay : Rust.getHeader (text ++ List.replicate (1024 - text.length) 0) delayName = .ok n)
    (reads : List Rust.Read) :
    Rust.readRequest (.ok text :: reads) = .ok (some (.ok n, reads)) := by
  have hascii := isAscii_append_zeros (1024 - text.length) ha
  obtain ⟨m, hm⟩ : ∃ m, Rust.getHeader (text ++ List.replicate (1024 - text.length) 0)
      momoryUsageName = .ok m := by
    apply Rust.getHeader_isOk hascii (by decide)
    intro i hi
    -- The name has no NUL, so it stands in the request.
    rw [indexOf?_append_replicate _ (by decide) (by decide)] at hi
    have hbound := hmomory i hi
    rw [List.length_append, List.length_replicate]
    omega
  have hstarts : ascii "GET" <+: text ++ List.replicate (1024 - text.length) 0 :=
    hget.trans (List.prefix_append _ _)
  rw [Rust.readRequest, Rust.readLoop, Rust.overlay_emptyBuffer]
  simp only [hstarts, ite_true, Rust.parseRequest, validUtf8_of_isAscii hascii, hm, hdelay, bind,
    Except.bind, pure, Except.pure]

/-! ### Texts without the name -/

/-- The C-BSD server finds no delay in a text without the name. -/
theorem CBsd.receivedDelay_of_not_infix (recvBuf : Buffer 1024) (slot : Int) {text : Bytes}
    (hnul : NulFree text) (hlen : text.length ≤ 1023) (hnone : ¬ delayName <:+: text) :
    receivedDelay recvBuf slot text = .ok 0 := by
  have hchars := recvBuf.chars_string_take (n := 1023) hnul hlen (by rw [List.length_take]; omega)
  apply getHeaderValue_of_none
  rw [hchars]
  exact indexOf?_eq_none_iff.mpr hnone

/-- The Asio server finds no delay in a text without the name. -/
theorem CppAsio.receivedDelay_of_not_infix (data : Buffer (1024 + 200)) (slot : Int)
    {text : Bytes} (hnul : NulFree text) (hlen : text.length ≤ 1024)
    (hnone : ¬ delayName <:+: text) : receivedDelay data slot text = .ok 0 := by
  have hchars := data.chars_string_take (n := 1024) hnul hlen (by rw [List.length_take]; omega)
  apply getHeaderValue_of_none
  rw [hchars]
  exact indexOf?_eq_none_iff.mpr hnone

/-- The Netconn server finds no delay in a fragment if none stands in the memory up to the
next NUL. -/
theorem CNetconn.receivedDelay_of_not_infix (slot : Int) {recvBuf : Payload}
    (hnul : NulFree recvBuf.fragment)
    (hnone : ¬ delayName <:+: recvBuf.fragment ++ upToNul recvBuf.behind) :
    receivedDelay slot recvBuf = .ok 0 := by
  apply CBsd.getHeaderValue_of_none
  rw [Payload.chars_string hnul]
  exact indexOf?_eq_none_iff.mpr hnone

/-- The Rust server finds no delay in a request without the name. -/
theorem Rust.readRequest_of_not_infix {text : Bytes} (hget : ascii "GET" <+: text)
    (ha : IsAscii text) (hlen : text.length ≤ 1024)
    (hmomory : ∀ i, indexOf? momoryUsageName text = some i →
      i + momoryUsageName.length + 2 ≤ 1024)
    (hnone : ¬ delayName <:+: text) (reads : List Rust.Read) :
    Rust.readRequest (.ok text :: reads) = .ok (some (.ok 0, reads)) := by
  apply Rust.readRequest_of_getHeader hget ha hlen hmomory
  apply Rust.getHeader_of_none
  rw [indexOf?_append_replicate _ (by decide) (by decide)]
  exact indexOf?_eq_none_iff.mpr hnone

/-- In a text of at most 1000 bytes a name is not at the end of the buffer. -/
theorem momoryUsageName_le_of_short {text : Bytes} (hlen : text.length ≤ 1000) :
    ∀ i, indexOf? momoryUsageName text = some i → i + momoryUsageName.length + 2 ≤ 1024 := by
  intro i hi
  have hbound := indexOf?_add_length_le hi
  omega

/-! ### A request with one line -/

/-- A request of at most 1000 ASCII bytes without NUL that holds the name `Delay` once,
in a line `Delay:value`. -/
structure DelayRequest where
  front : Bytes
  value : Bytes
  rest : Bytes
  text : Bytes
  text_eq : text = front ++ (delayName ++ (58 :: value ++ (crlf ++ rest)))
  get : ascii "GET" <+: text
  only : OccursOnlyAt delayName text front.length
  isAscii : IsAscii text
  nulFree : NulFree text
  length_le : text.length ≤ 1000
  value_ne : value ≠ []
  value_line : 13 ∉ value

namespace DelayRequest

variable (r : DelayRequest)

/-- The C-BSD server reads the value of the line. -/
theorem cBsd (recvBuf : Buffer 1024) (slot : Int) :
    CBsd.receivedDelay recvBuf slot r.text = .ok (lineValue slot r.value) := by
  have hlen := r.length_le
  have hchars := recvBuf.chars_string_take (n := 1023) r.nulFree (by omega)
    (by rw [List.length_take]; omega)
  exact (getHeaderValue_line slot (hchars.trans r.text_eq)
    (by rw [hchars]; exact r.only.indexOf?) (by decide) r.value_line (by decide)).1

/-- The Asio server reads the value of the line. -/
theorem cppAsio (data : Buffer (1024 + 200)) (slot : Int) :
    CppAsio.receivedDelay data slot r.text = .ok (lineValue slot r.value) := by
  have hlen := r.length_le
  have hchars := data.chars_string_take (n := 1024) r.nulFree (by omega)
    (by rw [List.length_take]; omega)
  exact (getHeaderValue_line slot (hchars.trans r.text_eq)
    (by rw [hchars]; exact r.only.indexOf?) (by decide) r.value_line (by decide)).2.2

/-- The Netconn server reads the value of the line whatever lies behind the fragment. -/
theorem cNetconn (slot : Int) (recvBuf : CNetconn.Payload) (h : recvBuf.fragment = r.text) :
    CNetconn.receivedDelay slot recvBuf = .ok (lineValue slot r.value) := by
  have hchars : recvBuf.string.chars = r.text ++ upToNul recvBuf.behind := by
    rw [CNetconn.Payload.chars_string (by rw [h]; exact r.nulFree), h]
  have hshape : recvBuf.string.chars = r.front ++ (delayName ++
      (58 :: r.value ++ (crlf ++ (r.rest ++ upToNul recvBuf.behind)))) := by
    rw [hchars, r.text_eq]
    simp only [List.append_assoc]
  exact (getHeaderValue_line slot hshape
    (by rw [hchars]; exact indexOf?_append_left _ r.only.indexOf?) (by decide) r.value_line
    (by decide)).2.1

/-- The Rust server reads the text behind the first byte of the value, if it parses. -/
theorem rust (reads : List Rust.Read) :
    Rust.readRequest (.ok r.text :: reads) =
      .ok (some (.ok ((parseU64? (r.value.drop 1)).getD 0), reads)) := by
  have hlen := r.length_le
  apply Rust.readRequest_of_getHeader r.get r.isAscii (by omega) (momoryUsageName_le_of_short hlen)
  apply Rust.getHeader_line (p := r.front)
    (s := r.rest ++ List.replicate (1024 - r.text.length) 0)
  · rw [r.text_eq]
    simp only [List.append_assoc]
  · exact isAscii_append_zeros _ r.isAscii
  · decide
  · exact indexOf?_append_left _ r.only.indexOf?
  · exact r.value_ne
  · exact r.value_line

/-- The Python and Lua servers match their pattern behind the colon of the line. -/
theorem search_headerPattern :
    search (headerPattern delayName) r.text =
      matchHere valuePattern (r.value ++ (crlf ++ r.rest)) :=
  search_headerPattern_line r.text_eq r.only

end DelayRequest
end Esp32WebServers
