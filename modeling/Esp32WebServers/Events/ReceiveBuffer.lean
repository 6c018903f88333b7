import Esp32WebServers.Base.Run
import Esp32WebServers.Header.Receive
import Esp32WebServers.Response.Encoders

/-!
# The receive buffer of an Asio session

`Session::read` (`web_server/cpp_asio/main/tcp_server.cpp:122–147`) offers all `max_length`
bytes of `data_` to a read and writes the terminator behind what arrived. `send_buf_` follows
`data_` in the object (`web_server/cpp_asio/main/tcp_server.h:36–38`), so the two arrays are
one stretch of memory here, over any history of reads and responses.
-/

namespace Esp32WebServers.CppAsio

open Base

/-- The two arrays of a `Session`; neither is initialised. -/
structure Members where
  data : Bytes
  sendBuf : Bytes
  length_data : data.length = 1024
  length_sendBuf : sendBuf.length = 200

/-- A completed read has stored the received bytes at the front of `data_`. -/
def Members.store (m : Members) (received : Bytes) : Members where
  data := (received ++ m.data.drop received.length).take 1024
  sendBuf := m.sendBuf
  length_data := by
    have hlen := m.length_data
    rw [List.length_take, List.length_append, List.length_drop]
    omega
  length_sendBuf := m.length_sendBuf

/-- `data_[length] = 0` (`tcp_server.cpp:130`). Behind `data_` lies `send_buf_`. -/
def Members.terminate (m : Members) (length : Nat) : Members where
  data := m.data.set length 0
  sendBuf := if length < 1024 then m.sendBuf else m.sendBuf.set (length - 1024) 0
  length_data := by rw [List.length_set, m.length_data]
  length_sendBuf := by
    split
    · exact m.length_sendBuf
    · rw [List.length_set, m.length_sendBuf]

/-- The arrays when the handler of a read looks for the header. -/
def Members.receive (m : Members) (received : Bytes) : Members :=
  (m.store received).terminate received.length

private theorem length_storeString (m : Members) (heap : UInt32) :
    (storeString (response heap) m.sendBuf).length = 200 := by
  have hlen := m.length_sendBuf
  have hshort : (response heap).length ≤ 199 := List.length_take_le _ _
  rw [storeString, List.length_append, List.length_cons, List.length_drop]
  omega

/-- `snprintf` into `send_buf_` (`tcp_server.cpp:106`). -/
def Members.format (m : Members) (heap : UInt32) : Members where
  data := m.data
  sendBuf := storeString (response heap) m.sendBuf
  length_data := m.length_data
  length_sendBuf := length_storeString m heap

/-- The string that starts at `data_`, for an object at some address. -/
def Members.string (m : Members) (address : Buffer (1024 + 200)) : CString :=
  address.string (m.data ++ m.sendBuf) (by
    rw [List.length_append, m.length_data, m.length_sendBuf])

/-- What a session does to its arrays: a read completes with at least one byte and at most
`max_length`, or a response is formatted. -/
inductive Access where
  | receive (received : Bytes)
  | format (heap : UInt32)

/-- The history of a session, one access at a time. -/
def access : Step Members Access
  | m, .receive received =>
    if 0 < received.length ∧ received.length ≤ 1024 then some (m.receive received) else none
  | m, .format heap => some (m.format heap)

/-- The terminator of a read falls inside `data_`, `send_buf_` does not change, and the string
at `data_` is what this read received, up to its first NUL. -/
structure Terminated (address : Buffer (1024 + 200)) (m : Members) (received : Bytes) :
    Prop where
  inside : received.length < m.data.length
  sendBuf : (m.receive received).sendBuf = m.sendBuf
  scanned : ((m.receive received).string address).chars = upToNul received

/-- Every read that completes is terminated. -/
def Terminates (address : Buffer (1024 + 200)) (m : Members) : Access → Prop
  | .receive received => Terminated address m received
  | .format _ => True

/-- A read that leaves room for the terminator. -/
def LeavesRoom : Access → Prop
  | .receive received => received.length < 1024
  | .format _ => True

/-- The bytes of `data_` and `send_buf_` after a read: what was received, a NUL, and a rest. -/
theorem Members.receive_append (m : Members) {received : Bytes} (h : received.length ≤ 1024) :
    ∃ rest, (m.receive received).data ++ (m.receive received).sendBuf =
      received ++ 0 :: rest := by
  have hdata := m.length_data
  have hsend := m.length_sendBuf
  have hstore : (m.store received).data = received ++ m.data.drop received.length := by
    change (received ++ m.data.drop received.length).take 1024 = _
    apply List.take_of_length_le
    rw [List.length_append, List.length_drop]
    omega
  change ∃ rest, (m.store received).data.set received.length 0 ++
    (if received.length < 1024 then m.sendBuf else m.sendBuf.set (received.length - 1024) 0) =
      received ++ 0 :: rest
  rw [hstore, List.set_append_right _ _ (Nat.le_refl _), Nat.sub_self]
  by_cases hroom : received.length < 1024
  · cases hold : m.data.drop received.length with
    | nil =>
      rw [List.drop_eq_nil_iff] at hold
      omega
    | cons b old =>
      refine ⟨old ++ m.sendBuf, ?_⟩
      rw [if_pos hroom, List.set_cons_zero, List.append_assoc, List.cons_append]
  · have hfull : received.length - 1024 = 0 := by omega
    have hold : m.data.drop received.length = [] := by
      rw [List.drop_eq_nil_iff]
      omega
    cases hbuf : m.sendBuf with
    | nil =>
      rw [hbuf] at hsend
      cases hsend
    | cons b buf =>
      refine ⟨buf, ?_⟩
      rw [if_neg hroom, hfull, hold, List.set_nil, List.append_nil, List.set_cons_zero]

/-- After a read of any length, the string at `data_` is what was received, up to its first
NUL: no byte of an earlier read or of `send_buf_` is in it. -/
theorem Members.chars_receive (m : Members) (address : Buffer (1024 + 200)) {received : Bytes}
    (h : received.length ≤ 1024) :
    ((m.receive received).string address).chars = upToNul received := by
  obtain ⟨rest, hrest⟩ := m.receive_append h
  change upToNul ((m.receive received).data ++ (m.receive received).sendBuf) = _
  rw [hrest, upToNul_append_zero]

/-- The lookup after a read, on the memory of the session, is that of the received bytes
alone. -/
theorem Members.getHeaderValue_receive (m : Members) (address : Buffer (1024 + 200))
    (slot : Int) {received : Bytes} (h : received.length ≤ 1024) :
    getHeaderValue slot ((m.receive received).string address) delayName =
      receivedDelay address slot received := by
  unfold receivedDelay
  congr 1
  apply CString.ext_chars
  · rfl
  · rw [m.chars_receive address h]
    change upToNul received = upToNul (received.take 1024)
    rw [List.take_of_length_le h]

/-- A read that fills `data_` overwrites the first byte of `send_buf_`. -/
theorem Members.sendBuf_receive_of_full (m : Members) {received : Bytes}
    (h : received.length = 1024) : (m.receive received).sendBuf = m.sendBuf.set 0 0 := by
  change (if received.length < 1024 then m.sendBuf
    else m.sendBuf.set (received.length - 1024) 0) = _
  rw [if_neg (by omega), h, Nat.sub_self]

/-- A read is terminated exactly where it leaves room for the terminator. -/
theorem terminates_iff (address : Buffer (1024 + 200)) (m : Members) (a : Access) :
    Terminates address m a ↔ LeavesRoom a := by
  cases a with
  | format heap => exact Iff.rfl
  | receive received =>
    constructor
    · intro h
      have hinside := h.inside
      rw [m.length_data] at hinside
      exact hinside
    · intro h
      change received.length < 1024 at h
      constructor
      · rw [m.length_data]
        exact h
      · exact if_pos h
      · exact m.chars_receive address h.le

/-- In every history of a session, from any contents of its arrays: the terminator of every
read falls inside `data_`, changes nothing else, and ends the received bytes, if and only if
no read fills `data_`. -/
theorem terminates_iff_leavesRoom (address : Buffer (1024 + 200)) (m u : Members)
    (es : List Access) (hrun : Step.run access m es = some u) :
    Step.Guarded access (Terminates address) m es ↔ ∀ a ∈ es, LeavesRoom a := by
  rw [← Step.guarded_const hrun]
  constructor
  · intro h before a after t hes ht
    exact (terminates_iff address t a).mp (h before a after t hes ht)
  · intro h before a after t hes ht
    exact (terminates_iff address t a).mpr (h before a after t hes ht)

/-- Arrays in which every byte is 255. -/
def filled : Members where
  data := List.replicate 1024 255
  sendBuf := List.replicate 200 255
  length_data := List.length_replicate
  length_sendBuf := List.length_replicate

/-- A request, its response, and a shorter request. -/
def shorterSecond : List Access :=
  [.receive (ascii "GET / HTTP/1.1\r\nDelay: 450\r\n\r\n"), .format 100000,
    .receive (ascii "GET / HTTP/1.1\r\n\r\n")]

/-- Requests that leave room are terminated, the shorter one after the longer one too. -/
theorem terminates_shorterSecond :
    Step.Guarded access (Terminates ⟨4096, by decide, by decide⟩) filled shorterSecond := by
  apply (terminates_iff_leavesRoom ⟨4096, by decide, by decide⟩ filled
    (((filled.receive (ascii "GET / HTTP/1.1\r\nDelay: 450\r\n\r\n")).format 100000).receive
      (ascii "GET / HTTP/1.1\r\n\r\n")) shorterSecond rfl).mpr
  unfold shorterSecond
  rw [List.forall_mem_cons, List.forall_mem_cons, List.forall_mem_singleton]
  exact ⟨show _ < _ by decide, trivial, show _ < _ by decide⟩

/-- A read of `max_length` bytes puts its terminator into `send_buf_`, over the first byte of
a response. -/
theorem not_terminates_fullRead :
    (∃ u, Step.run access filled [.receive (List.replicate 1024 65)] = some u ∧
      filled.sendBuf.head? = some 255 ∧ u.sendBuf.head? = some 0) ∧
      ¬ Step.Guarded access (Terminates ⟨4096, by decide, by decide⟩) filled
        [.receive (List.replicate 1024 65)] := by
  constructor
  · refine ⟨filled.receive (List.replicate 1024 65), ?_, rfl, ?_⟩
    · rw [Step.run_cons, access, List.length_replicate, if_pos (by decide)]
      rfl
    · rw [filled.sendBuf_receive_of_full List.length_replicate]
      rfl
  · intro h
    have hread := (Step.guarded_cons.mp h).1.inside
    rw [filled.length_data, List.length_replicate] at hread
    exact absurd hread (Nat.lt_irrefl 1024)

end Esp32WebServers.CppAsio
