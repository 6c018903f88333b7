import Esp32WebServers.Header.Receive

/-!
# Where the six servers agree on a delay

The C, C++ and Rust servers start the value at a fixed distance from the name or the
colon, for the one space of `Delay: n` (`web_server/cpp_asio/main/tcp_server.cpp:172`).
The patterns of the Python and Lua servers take any number of spaces. For a line of
spaces and digits this module says when the distance makes no difference.
-/

namespace Esp32WebServers

open Base

/-- Every server parses the number `n` out of the text, whatever its buffers and stack
slots held before. For Netconn the text is the whole first fragment of a netbuf, and whatever
lies behind it in memory. -/
structure AllParse (text : Bytes) (n : Nat) : Prop where
  cBsd : ∀ recvBuf slot, CBsd.receivedDelay recvBuf slot text = .ok n
  cNetconn : ∀ slot recvBuf, CNetconn.Payload.fragment recvBuf = text →
    CNetconn.receivedDelay slot recvBuf = .ok n
  cppAsio : ∀ data slot, CppAsio.receivedDelay data slot text = .ok n
  rust : ∀ reads, Rust.readRequest (.ok text :: reads) = .ok (some (.ok n, reads))
  python : Python.readRequest text = .ok n
  lua : Lua.parsedDelay? text = some n

/-- The C scan loses the first byte: a space, or the first digit where there is none. -/
theorem lineValue_spaces_digits (slot : Int) (k : Nat) {ds : Bytes} (hne : ds ≠ [])
    (hd : ∀ b ∈ ds, isDigit b = true) (hv : digitsValue ds < 2 ^ 31) :
    lineValue slot (List.replicate k 32 ++ ds) =
      if k = 0 then digitsValue ds.tail else digitsValue ds := by
  have hlen := List.length_pos_iff.mpr hne
  cases k with
  | zero =>
    rw [if_pos rfl, List.replicate_zero, List.nil_append, lineValue, List.drop_one]
    cases ds with
    | nil => exact absurd rfl hne
    | cons b ds =>
      rw [List.tail_cons]
      rw [digitsValue_cons] at hv
      cases ds with
      | nil => rfl
      | cons c ds =>
        have hscan := scanNumber?_spaces_digits (List.forall_mem_nil _) (List.cons_ne_nil c ds)
          (fun a ha ↦ hd a (List.mem_cons_of_mem b ha)) (by omega)
        rw [List.nil_append] at hscan
        rw [if_pos (by simp), sscanf, hscan, Option.getD_some]
  | succ k =>
    have hspaces : ∀ b ∈ List.replicate k (32 : UInt8), isSpace b = true := by
      intro b hb
      rw [List.eq_of_mem_replicate hb]
      rfl
    have hlong : 1 < (List.replicate (k + 1) (32 : UInt8) ++ ds).length := by
      rw [List.length_append, List.length_replicate]
      omega
    rw [if_neg (Nat.succ_ne_zero k), lineValue, if_pos hlong, List.replicate_succ,
      List.cons_append, List.drop_one, List.tail_cons, sscanf,
      scanNumber?_spaces_digits hspaces hne hd hv, Option.getD_some]

/-- The unsigned parse loses the first byte too, and takes no space behind it. -/
theorem parseU64?_spaces_digits (k : Nat) {ds : Bytes} (hne : ds ≠ [])
    (hd : ∀ b ∈ ds, isDigit b = true) (hv : digitsValue ds < 2 ^ 31) :
    (parseU64? ((List.replicate k 32 ++ ds).drop 1)).getD 0 =
      if k = 0 then digitsValue ds.tail else if k = 1 then digitsValue ds else 0 := by
  match k with
  | 0 =>
    rw [if_pos rfl, List.replicate_zero, List.nil_append, List.drop_one]
    cases ds with
    | nil => exact absurd rfl hne
    | cons b ds =>
      rw [List.tail_cons]
      rw [digitsValue_cons] at hv
      cases ds with
      | nil => rfl
      | cons c ds =>
        rw [parseU64?_digits (List.cons_ne_nil c ds)
          (fun a ha ↦ hd a (List.mem_cons_of_mem b ha)) (by omega), Option.getD_some]
  | 1 =>
    change (parseU64? ds).getD 0 = digitsValue ds
    rw [parseU64?_digits hne hd (by omega), Option.getD_some]
  | k + 2 =>
    change (parseU64? (32 :: (List.replicate k 32 ++ ds))).getD 0 = 0
    rw [parseU64?_of_head _ rfl (by decide), Option.getD_none]

/-- A number survives the loss of its first digit exactly where that is a zero. -/
theorem digitsValue_tail_eq_iff_head? {ds : Bytes} (hne : ds ≠ [])
    (hd : ∀ b ∈ ds, isDigit b = true) :
    digitsValue ds.tail = digitsValue ds ↔ ds.head? = some 48 := by
  cases ds with
  | nil => exact absurd rfl hne
  | cons b ds =>
    rw [List.tail_cons, List.head?_cons, Option.some.injEq]
    exact digitsValue_tail_eq_iff ds (hd b List.mem_cons_self)

/-- Zero stays zero without its first digit. -/
theorem digitsValue_tail_eq_of_zero {ds : Bytes} (hzero : digitsValue ds = 0) :
    digitsValue ds.tail = digitsValue ds := by
  cases ds with
  | nil => rfl
  | cons b ds =>
    rw [digitsValue_cons] at hzero ⊢
    rw [List.tail_cons]
    omega

section Digits

variable (r : DelayRequest) {k : Nat} {ds : Bytes}
  (hvalue : r.value = List.replicate k 32 ++ ds) (hne : ds ≠ [])
  (hd : ∀ b ∈ ds, isDigit b = true)

include hvalue

private theorem search_digits (hd : ∀ b ∈ ds, isDigit b = true) :
    search (headerPattern delayName) r.text = some [ds] := by
  rw [r.search_headerPattern, hvalue]
  exact matchHere_spaces_digits k r.rest hd

include hne hd

/-- The Python server parses the whole string of digits. -/
theorem python_digits : Python.readRequest r.text = .ok (digitsValue ds) := by
  rw [Python.readRequest_of_isAscii r.isAscii]
  exact Python.parseHaeder_of_digits (search_digits r hvalue hd) hne hd

/-- The Lua server parses the whole string of digits. -/
theorem lua_digits : Lua.parsedDelay? r.text = some (digitsValue ds) :=
  Lua.parsedDelay?_of_digits (search_digits r hvalue hd) hne hd

/-- The unsigned parse keeps the number exactly where there is one space, or the number is
0, or there is no space and the first digit is a zero. -/
theorem parseU64?_digits_iff (hv : digitsValue ds < 2 ^ 31) :
    (parseU64? (r.value.drop 1)).getD 0 = digitsValue ds ↔
      k = 1 ∨ digitsValue ds = 0 ∨ (k = 0 ∧ ds.head? = some 48) := by
  have hhead := digitsValue_tail_eq_iff_head? hne hd
  rw [hvalue, parseU64?_spaces_digits k hne hd hv]
  match k with
  | 0 =>
    rw [if_pos rfl]
    constructor
    · intro htail
      exact .inr (.inr ⟨rfl, hhead.mp htail⟩)
    · rintro (hone | hzero | ⟨-, hfirst⟩)
      · cases hone
      · exact digitsValue_tail_eq_of_zero hzero
      · exact hhead.mpr hfirst
  | 1 => simp
  | k + 2 =>
    rw [if_neg (by omega), if_neg (by omega)]
    constructor
    · intro hzero
      exact .inr (.inl hzero.symm)
    · rintro (hone | hzero | ⟨hnone, -⟩)
      · omega
      · exact hzero.symm
      · cases hnone

/-- Where the unsigned parse keeps the number, the C scan does. -/
theorem lineValue_of_parseU64? (hv : digitsValue ds < 2 ^ 31) (slot : Int)
    (h : (parseU64? (r.value.drop 1)).getD 0 = digitsValue ds) :
    lineValue slot r.value = digitsValue ds := by
  rw [hvalue, parseU64?_spaces_digits k hne hd hv] at h
  rw [hvalue, lineValue_spaces_digits slot k hne hd hv]
  split
  · next hnone =>
    rw [if_pos hnone] at h
    rw [h]
  · rfl

/-- On a line of spaces and digits, the six servers parse one and the same number exactly
where there is one space, or the number is 0, or there is no space and the first digit,
which the C, C++ and Rust servers skip, is a zero. -/
theorem allParse_iff (hv : digitsValue ds < 2 ^ 31) (n : Nat) :
    AllParse r.text n ↔
      n = digitsValue ds ∧ (k = 1 ∨ digitsValue ds = 0 ∨ (k = 0 ∧ ds.head? = some 48)) := by
  rw [← parseU64?_digits_iff r hvalue hne hd hv]
  constructor
  · intro h
    have hpython : Except.ok (digitsValue ds) = Except.ok n :=
      (python_digits r hvalue hne hd).symm.trans h.python
    have hn : n = digitsValue ds := (Except.ok.inj hpython).symm
    have hrust := h.rust []
    rw [r.rust] at hrust
    refine ⟨hn, ?_⟩
    rw [← hn]
    simpa using hrust
  · rintro ⟨rfl, hrust⟩
    have hc (slot : Int) := lineValue_of_parseU64? r hvalue hne hd hv slot hrust
    exact
      { cBsd := fun recvBuf slot ↦ by rw [r.cBsd, hc]
        cNetconn := fun slot recvBuf h ↦ by rw [r.cNetconn slot recvBuf h, hc]
        cppAsio := fun data slot ↦ by rw [r.cppAsio, hc]
        rust := fun reads ↦ by rw [r.rust, hrust]
        python := python_digits r hvalue hne hd
        lua := lua_digits r hvalue hne hd }

end Digits

/-- A request with one space in front of its delay of 0042 ms. -/
def oneSpaceRequest : DelayRequest where
  front := ascii "GET / HTTP/1.1\r\n"
  value := ascii " 0042"
  rest := crlf
  text := ascii "GET / HTTP/1.1\r\nDelay: 0042\r\n\r\n"
  text_eq := by decide
  get := by decide
  only := occursOnlyAt_of_not_infix (by decide) (by decide)
  isAscii := by decide
  nulFree := by decide
  length_le := by decide
  value_ne := by decide
  value_line := by decide

/-- One space and leading zeros: all servers parse 42. -/
theorem allParse_oneSpaceRequest : AllParse oneSpaceRequest.text 42 :=
  (@allParse_iff oneSpaceRequest 1 (ascii "0042") (by decide) (by decide)
    (List.all_eq_true.mp (by decide)) (by decide) 42).mpr (by decide)

/-- A request without a space in front of its delay of 15 ms. -/
def noSpaceRequest : DelayRequest where
  front := ascii "GET / HTTP/1.1\r\n"
  value := ascii "15"
  rest := crlf
  text := ascii "GET / HTTP/1.1\r\nDelay:15\r\n\r\n"
  text_eq := by decide
  get := by decide
  only := occursOnlyAt_of_not_infix (by decide) (by decide)
  isAscii := by decide
  nulFree := by decide
  length_le := by decide
  value_ne := by decide
  value_line := by decide

/-- Without a space the C-BSD server parses 5 where the Python server parses 15. -/
theorem not_allParse_noSpaceRequest :
    noSpaceRequest.value = List.replicate 0 32 ++ ascii "15" ∧
      ¬ momoryUsageName <:+: noSpaceRequest.text ∧ ¬ ∃ n, AllParse noSpaceRequest.text n := by
  refine ⟨by decide, by decide, ?_⟩
  rintro ⟨n, h⟩
  have hpython : Except.ok 15 = Except.ok n := Eq.trans (by decide) h.python
  have hbsd := h.cBsd ⟨4096, by decide, by decide⟩ 0
  have hline : lineValue 0 noSpaceRequest.value = 5 := by decide
  rw [noSpaceRequest.cBsd, hline] at hbsd
  have hn : (5 : Int) = n := Except.ok.inj hbsd
  have hm : 15 = n := Except.ok.inj hpython
  omega

end Esp32WebServers
