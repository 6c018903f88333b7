import Esp32WebServers.Connection.Handlers
import Esp32WebServers.Events.Timers

/-!
# The waits that the six servers program

A parsed delay goes to `vTaskDelay` in ticks
(`web_server/c_bsd/main/tcp_server.c:131–133`, `web_server/c_netconn/main/tcp_server.c:138–140`),
to a timer of Asio (`web_server/cpp_asio/main/tcp_server.cpp:92`, `137–142`), to
`thread::sleep` (`web_server/rust/src/main.rs:182–184`), to `asyncio.sleep_ms`
(`web_server/python_micropython/main/server.py:49–50`) or to an alarm
(`web_server/lua_nodemcu/server.lua:46–52`). This module compares them in milliseconds; the
client subtracts the delay it asked for from the time it measures
(`benchmark/iot_benchmark.py:105`).
-/

namespace Esp32WebServers

open Base

namespace CBsd

/-- `CONFIG_FREERTOS_HZ`, `web_server/c_bsd/sdkconfig:905`; the same value in
`web_server/c_netconn/sdkconfig:905`. -/
def configTickRateHz : UInt32 := 100

/-- `portTICK_PERIOD_MS`, the milliseconds of a tick. -/
def portTickPeriodMs : UInt32 := 1000 / configTickRateHz

/-- The argument of `vTaskDelay`, `web_server/c_bsd/main/tcp_server.c:131–133`, where it is
called. The period is unsigned, so the delay is divided as an unsigned integer. -/
def vTaskDelay (delay : Int) : Option UInt32 :=
  if 0 < delay then some (UInt32.ofInt delay / portTickPeriodMs) else none

/-- The programmed wait in milliseconds. -/
def wait (delay : Int) : Nat :=
  ((vTaskDelay delay).map fun ticks ↦ ticks.toNat * portTickPeriodMs.toNat).getD 0

end CBsd

namespace CNetconn

/-- The argument of `vTaskDelay`, `web_server/c_netconn/main/tcp_server.c:138–140`: the text
and the tick of the function above. -/
def vTaskDelay (delay : Int) : Option UInt32 := CBsd.vTaskDelay delay

/-- The programmed wait in milliseconds. -/
def wait (delay : Int) : Nat :=
  ((vTaskDelay delay).map fun ticks ↦ ticks.toNat * CBsd.portTickPeriodMs.toNat).getD 0

end CNetconn

namespace CppAsio

/-- The offset from now that `write_delayed` hands to `expires_at`,
`web_server/cpp_asio/main/tcp_server.cpp:92`, where the read handler calls it. -/
def expiresAt (delay : Int) : Option Int := if 0 < delay then some delay else none

/-- The programmed wait in milliseconds. -/
def wait (delay : Int) : Nat := ((expiresAt delay).map Int.toNat).getD 0

end CppAsio

namespace Rust

/-- The argument of `thread::sleep`, `main.rs:182–184`, in milliseconds. -/
def sleep (delay : Nat) : Option Nat := if 0 < delay then some delay else none

/-- The programmed wait in milliseconds. -/
def wait (delay : Nat) : Nat := (sleep delay).getD 0

end Rust

namespace Python

/-- The argument of `asyncio.sleep_ms`, `server.py:49–50`. -/
def sleepMs (delay : Nat) : Option Nat := if 0 < delay then some delay else none

/-- The programmed wait in milliseconds. -/
def wait (delay : Nat) : Nat := (sleepMs delay).getD 0

end Python

namespace Lua

/-- The interval of the alarm, `server.lua:46–52`; without one the response is sent at once. -/
def alarm (delay : Nat) : Option Nat := if 10 ≤ delay then some delay else none

/-- The programmed wait in milliseconds. -/
def wait (delay : Nat) : Nat := (alarm delay).getD 0

/-- A receive event arms a timer exactly where an alarm is set. -/
theorem receiver_timer (s : State) (socket : Nat) {data : Bytes} (heap : Nat) {delay : Nat}
    (h : parsedDelay? data = some delay) :
    (receiver s socket data heap).requests =
      s.requests ++ [⟨socket, heap, if (alarm delay).isSome then .armed else .none⟩] := by
  rw [receiver_of_some s socket heap h]
  unfold alarm
  split
  · rfl
  · rfl

end Lua

/-- The latency that the client records, `benchmark/iot_benchmark.py:105`, for the milliseconds
between its request and the response. -/
def Benchmark.elapsedTimeMs (elapsed delay : Nat) : Int := (elapsed : Int) - delay

/-! ### Milliseconds -/

/-- The division by the tick period, as numbers. -/
theorem CBsd.toNat_ticks {delay : Nat} (h : delay < 2 ^ 32) :
    (UInt32.ofInt delay / CBsd.portTickPeriodMs).toNat = delay / 10 := by
  have hperiod : CBsd.portTickPeriodMs.toNat = 10 := by decide
  have hdelay : (UInt32.ofInt delay).toNat = delay := by
    rw [UInt32.ofInt, UInt32.toNat_ofNat']
    omega
  rw [UInt32.toNat_div, hdelay, hperiod]

/-- The C-BSD server waits for whole ticks. -/
theorem CBsd.wait_eq {delay : Nat} (h : delay < 2 ^ 32) :
    CBsd.wait delay = delay - delay % 10 := by
  have hperiod : CBsd.portTickPeriodMs.toNat = 10 := by decide
  unfold CBsd.wait CBsd.vTaskDelay
  split
  · rw [Option.map_some, Option.getD_some, CBsd.toNat_ticks h, hperiod]
    omega
  · rw [Option.map_none, Option.getD_none]
    omega

/-- The Netconn server waits like the C-BSD server. -/
theorem CNetconn.wait_eq {delay : Nat} (h : delay < 2 ^ 32) :
    CNetconn.wait delay = delay - delay % 10 := CBsd.wait_eq h

/-- The Asio server waits for as long as its handler asks. -/
theorem CppAsio.wait_eq_waited (delay : Int) : (CppAsio.wait delay : Int) = waited delay := by
  unfold CppAsio.wait CppAsio.expiresAt waited
  split
  · rw [Option.map_some, Option.getD_some]
    omega
  · rfl

/-- The Asio server waits for the delay. -/
theorem CppAsio.wait_eq (delay : Nat) : CppAsio.wait delay = delay := by
  have h := CppAsio.wait_eq_waited delay
  unfold waited at h
  split at h
  · omega
  · omega

/-- The Rust server waits for the delay. -/
theorem Rust.wait_eq (delay : Nat) : Rust.wait delay = delay := by
  unfold Rust.wait Rust.sleep
  split
  · rfl
  · simp only [Option.getD_none]
    omega

/-- The Python server waits for the delay. -/
theorem Python.wait_eq (delay : Nat) : Python.wait delay = delay := by
  unfold Python.wait Python.sleepMs
  split
  · rfl
  · simp only [Option.getD_none]
    omega

/-- The Lua server waits for a delay of at least 10. -/
theorem Lua.wait_eq (delay : Nat) : Lua.wait delay = if 10 ≤ delay then delay else 0 := by
  unfold Lua.wait Lua.alarm
  split
  · rfl
  · rfl

/-- All six servers wait for exactly the delay. -/
structure SameWait (delay : Nat) : Prop where
  cBsd : CBsd.wait delay = delay
  cNetconn : CNetconn.wait delay = delay
  cppAsio : CppAsio.wait delay = delay
  rust : Rust.wait delay = delay
  python : Python.wait delay = delay
  lua : Lua.wait delay = delay

/-- The waits agree on the delay exactly where it is a number of whole ticks. -/
theorem sameWait_iff {delay : Nat} (hpos : 0 < delay) (hlt : delay < 2 ^ 32) :
    SameWait delay ↔ 10 ∣ delay := by
  constructor
  · intro h
    have hwhole := h.cBsd
    rw [CBsd.wait_eq hlt] at hwhole
    omega
  · intro h
    have hwhole : delay - delay % 10 = delay := by omega
    refine ⟨?_, ?_, CppAsio.wait_eq _, Rust.wait_eq _, Python.wait_eq _, ?_⟩
    · rw [CBsd.wait_eq hlt, hwhole]
    · rw [CNetconn.wait_eq hlt, hwhole]
    · rw [Lua.wait_eq, if_pos (by omega)]

/-- The latency that the client records is the time spent besides the wait, less what the wait
falls short of the delay. -/
theorem Benchmark.elapsedTimeMs_eq {wait delay : Nat} (rest : Nat) (h : wait ≤ delay) :
    Benchmark.elapsedTimeMs (rest + wait) delay = (rest : Int) - (delay - wait : Nat) := by
  unfold Benchmark.elapsedTimeMs
  omega

/-- For every positive delay of an `int`, Asio, Rust and Python wait for the delay, the C
servers for its whole ticks of 10 ms, and Lua for the delay from 10 on; the waits are the
delay in all six exactly where 10 divides it. The latency recorded for a server that spends
`rest` besides is `rest` where the wait is the delay, and `delay % 10` less for the C
servers. -/
theorem waits_of_delay {delay : Nat} (hpos : 0 < delay) (hlt : delay < 2 ^ 31) :
    (CppAsio.wait delay = delay ∧ Rust.wait delay = delay ∧ Python.wait delay = delay) ∧
    (CBsd.wait delay = delay - delay % 10 ∧ CNetconn.wait delay = delay - delay % 10) ∧
    (Lua.wait delay = if 10 ≤ delay then delay else 0) ∧
    (SameWait delay ↔ 10 ∣ delay) ∧
    ∀ rest,
      (Benchmark.elapsedTimeMs (rest + CppAsio.wait delay) delay = rest ∧
        Benchmark.elapsedTimeMs (rest + Rust.wait delay) delay = rest ∧
        Benchmark.elapsedTimeMs (rest + Python.wait delay) delay = rest) ∧
      Benchmark.elapsedTimeMs (rest + CBsd.wait delay) delay =
          (rest : Int) - (delay % 10 : Nat) ∧
        Benchmark.elapsedTimeMs (rest + CNetconn.wait delay) delay =
          (rest : Int) - (delay % 10 : Nat) := by
  have hint : delay < 2 ^ 32 := by omega
  refine ⟨⟨CppAsio.wait_eq _, Rust.wait_eq _, Python.wait_eq _⟩,
    ⟨CBsd.wait_eq hint, CNetconn.wait_eq hint⟩, Lua.wait_eq _, sameWait_iff hpos hint, ?_⟩
  intro rest
  have hwhole : Benchmark.elapsedTimeMs (rest + delay) delay = rest := by
    rw [Benchmark.elapsedTimeMs_eq rest (Nat.le_refl _)]
    omega
  have hticks : Benchmark.elapsedTimeMs (rest + (delay - delay % 10)) delay =
      (rest : Int) - (delay % 10 : Nat) := by
    have hshort : delay - (delay - delay % 10) = delay % 10 := by omega
    rw [Benchmark.elapsedTimeMs_eq rest (Nat.sub_le _ _), hshort]
  rw [CppAsio.wait_eq, Rust.wait_eq, Python.wait_eq, CBsd.wait_eq hint, CNetconn.wait_eq hint]
  exact ⟨⟨hwhole, hwhole, hwhole⟩, hticks, hticks⟩

/-- A delay of 437 ms, as the client may draw it. -/
theorem waits_of_delay_437 :
    CppAsio.wait 437 = 437 ∧ CBsd.wait 437 = 430 ∧ Lua.wait 437 = 437 := by
  obtain ⟨⟨hasio, -, -⟩, ⟨hbsd, -⟩, hlua, -⟩ :=
    waits_of_delay (show 0 < 437 by decide) (by decide)
  exact ⟨hasio, hbsd, hlua⟩

/-- The C servers program 430 ms for 437, and Lua nothing for 7. -/
theorem not_forall_sameWait :
    CBsd.wait 437 = 430 ∧ CNetconn.wait 437 = 430 ∧ Lua.wait 7 = 0 ∧
      ¬ ∀ delay, 0 < delay → delay < 2 ^ 31 → SameWait delay := by
  refine ⟨by decide, by decide, by decide, ?_⟩
  intro h
  exact absurd (h 437 (by decide) (by decide)).cBsd (by decide)

end Esp32WebServers
