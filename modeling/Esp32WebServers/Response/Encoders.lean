import Esp32WebServers.Base.Pattern
import Esp32WebServers.Base.Template

/-!
# The response encoders of the six servers and the decoder of the client

One format string, filled in by five independently written functions: `client_handler`
with `len_helper` (`web_server/c_bsd/main/tcp_server.c:136–171`, the same text in
`web_server/c_netconn/main/tcp_server.c:142–175`), `Session::write`
(`web_server/cpp_asio/main/tcp_server.cpp:99–109`), `get_response_message`
(`web_server/rust/src/main.rs:135–145`), `send_response`
(`web_server/python_micropython/main/server.py:71–76`) and `respond_delayed`
(`web_server/lua_nodemcu/server.lua:40–44`). The client reads the response with
`pars_result` (`benchmark/iot_benchmark.py:120–121`).
-/

namespace Esp32WebServers

open Base

namespace CBsd

/-- `MESSAGE`, `web_server/c_bsd/main/tcp_server.c:33`. -/
def message : Bytes :=
  ascii "HTTP/1.1 200 OK\r\nDate: Fri, 26 Aug 2022 21:59:59 GMT\r\nServer: ESP32\r\nContent-Type: text/plain; charset=utf-8\r\nContent-Length: %i\r\n\r\nfree_heap=%i;"

/-- `len_helper`, `web_server/c_bsd/main/tcp_server.c:160–171`. -/
def lenHelper (x : UInt32) : Int :=
  if x ≥ 1000000000 then 10
  else if x ≥ 100000000 then 9
  else if x ≥ 10000000 then 8
  else if x ≥ 1000000 then 7
  else if x ≥ 100000 then 6
  else if x ≥ 10000 then 5
  else if x ≥ 1000 then 4
  else if x ≥ 100 then 3
  else if x ≥ 10 then 2
  else 1

/-- The text that `snprintf` formats, for a value of `esp_get_free_heap_size`, which is
unsigned and stored in an `int`. -/
def formatted (heap : UInt32) : Bytes :=
  let freeHeap := heap.toInt32
  let contentLen := 11 + lenHelper freeHeap.toUInt32
  fill 37 105 message [decimalInt contentLen, decimalInt freeHeap.toInt]

/-- The response text in the 200 bytes of `send_buf`, `tcp_server.c:137–146`. -/
def response (heap : UInt32) : Bytes := snprintf 200 (formatted heap)

end CBsd

namespace CNetconn

/-- The response text in `send_buf`, `web_server/c_netconn/main/tcp_server.c:142–147`:
`MESSAGE`, `len_helper` and the size of the buffer are those of the C-BSD server. -/
def response (heap : UInt32) : Bytes := CBsd.response heap

end CNetconn

namespace CppAsio

/-- `MESSAGE`, `web_server/cpp_asio/main/tcp_server.cpp:12`. -/
def message : Bytes :=
  ascii "HTTP/1.1 200 OK\r\nDate: Fri, 26 Aug 2022 21:59:59 GMT\r\nServer: ESP32\r\nContent-Type: text/plain; charset=utf-8\r\nContent-Length: %i\r\n\r\nfree_heap=%i;"

/-- The text that `snprintf` formats in `Session::write`, with the length of
`std::to_string` for the content length. -/
def formatted (heap : UInt32) : Bytes :=
  let freeHeap := heap.toInt32.toInt
  let contentLen : Int := 11 + (decimalInt freeHeap).length
  fill 37 105 message [decimalInt contentLen, decimalInt freeHeap]

/-- The response text in the 200 bytes of `send_buf_`, `tcp_server.cpp:103–108`. -/
def response (heap : UInt32) : Bytes := snprintf 200 (formatted heap)

end CppAsio

namespace Rust

/-- `RESPONSE_HEADER`, `main.rs:17`. -/
def responseHeader : Bytes :=
  ascii "HTTP/1.1 200 OK\r\nDate: Fri, 26 Aug 2022 21:59:59 GMT\r\nServer: ESP32\r\nContent-Type: text/plain; charset=utf-8\r\n"

/-- `get_response_message`, `main.rs:135–145`, for a 32-bit `usize`. -/
def getResponseMessage (heap : UInt32) : Bytes :=
  let body := fill 123 125 (ascii "free_heap=\x7b\x7d;") [decimal heap.toNat]
  fill 123 125 (ascii "\x7b\x7dContent-Length: \x7b\x7d\r\n\r\n\x7b\x7d")
    [responseHeader, decimal body.length, body]

end Rust

namespace Python

/-- `RESPONSSE`, `server.py:7`. -/
def responsse : Bytes :=
  ascii "HTTP/1.1 200 OK\r\nDate: Fri, 26 Aug 2022 21:59:59 GMT\r\nServer: ESP32\r\nContent-Type: text/plain; charset=utf-8\r\nContent-Length: \x7b\x7d\r\n\r\n\x7b\x7d"

/-- The text that `send_response` writes, `server.py:71–76`, for a value of
`gc.mem_free`. -/
def sendResponse (memFree : Nat) : Bytes :=
  let bodyText := ascii "free_heap=" ++ (decimal memFree ++ ascii ";")
  fill 123 125 responsse [decimal bodyText.length, bodyText]

end Python

namespace Lua

/-- `RESPONSE_STRING`, `server.lua:1`. -/
def responseString : Bytes :=
  ascii "HTTP/1.1 200 OK\r\nDate: Fri, 26 Aug 2022 21:59:59 GMT\r\nServer: ESP32\r\nContent-Type: text/plain; charset=utf-8\r\nContent-Length: %d\r\n\r\n"

/-- `ram_string`, `server.lua:42`, for a value of `node.heap`. -/
def ramString (freeHeap : Nat) : Bytes :=
  fill 37 100 (ascii "free_heap=%d;") [decimal freeHeap]

/-- `response`, `server.lua:43–44`, for a value of `ram_string`. -/
def responseOf (ramString : Bytes) : Bytes :=
  fill 37 100 responseString [decimal ramString.length] ++ ramString

/-- The response that `respond_delayed` builds for a value of `node.heap`. -/
def response (freeHeap : Nat) : Bytes := responseOf (ramString freeHeap)

end Lua

namespace Benchmark

/-- The pattern `free_heap=(\d+);` of `pars_result`. -/
def resultPattern : List (Piece UInt8) :=
  lits (ascii "free_heap=") ++ [.repeat isDigit 1 true, .lit 59]

/-- `pars_result`, `benchmark/iot_benchmark.py:120–121`; without a match it raises. -/
def parsResult (text : Bytes) : Option Bytes :=
  (search resultPattern text).map fun groups ↦ groups.headD []

end Benchmark

/-- The number in the `Content-Length` header of a response. -/
def contentLength? (text : Bytes) : Option Nat :=
  (indexOf? (ascii "Content-Length: ") text).map fun i ↦
    digitsValue ((text.drop (i + 16)).takeWhile isDigit)

/-- What follows the first blank line of a response. -/
def body? (text : Bytes) : Option Bytes :=
  (indexOf? (crlf ++ crlf) text).map fun i ↦ text.drop (i + 4)

end Esp32WebServers
