import Esp32WebServers.Base.Bytes

/-!
# Format strings

Library `Base`. The format strings of C, Lua, Rust and Python as far as they hold one
kind of two-byte hole (`%i`, `%d` or braces) and no escapes: each hole is replaced by
the next argument. `snprintf` stores the result up to the size of its buffer.
-/

namespace Esp32WebServers.Base

/-- Replace every hole, written as the two bytes `x y`, by the next argument. A hole
without an argument stays. -/
def fill (x y : UInt8) : Bytes → List Bytes → Bytes
  | [], _ => []
  | [b], _ => [b]
  | b :: c :: s, args =>
    if b = x ∧ c = y then
      match args with
      | [] => b :: c :: fill x y s []
      | a :: args => a ++ fill x y s args
    else b :: fill x y (c :: s) args

/-- The string that `snprintf` leaves in a buffer of `size` bytes for the text `text`. -/
def snprintf (size : Nat) (text : Bytes) : Bytes := text.take (size - 1)

/-- Text without the first byte of a hole is copied. -/
theorem fill_of_notMem {x y : UInt8} {s : Bytes} (args : List Bytes) (hx : x ∉ s) :
    fill x y s args = s := by
  induction s with
  | nil => rfl
  | cons b s ih =>
    rw [List.mem_cons, not_or] at hx
    cases s with
    | nil => rfl
    | cons c s =>
      unfold fill
      rw [if_neg (fun h ↦ hx.1 h.1.symm), ih hx.2]

/-- Text in front of the first hole is copied and the hole takes the first argument. -/
theorem fill_append {x y : UInt8} {s : Bytes} (t : Bytes) (a : Bytes) (args : List Bytes)
    (hx : x ∉ s) : fill x y (s ++ x :: y :: t) (a :: args) = s ++ (a ++ fill x y t args) := by
  induction s with
  | nil => simp [fill]
  | cons b s ih =>
    rw [List.mem_cons, not_or] at hx
    cases s with
    | nil =>
      change fill x y (b :: x :: y :: t) (a :: args) = _
      rw [fill, if_neg (fun h ↦ hx.1 h.1.symm)]
      exact congrArg (b :: ·) (ih (by simp))
    | cons c s =>
      change fill x y (b :: c :: (s ++ x :: y :: t)) (a :: args) = _
      rw [fill, if_neg (fun h ↦ hx.1 h.1.symm)]
      exact congrArg (b :: ·) (ih hx.2)

/-- A text that fits, with its terminator, is stored whole. -/
theorem snprintf_of_lt {size : Nat} {text : Bytes} (h : text.length < size) :
    snprintf size text = text := List.take_of_length_le (by omega)

end Esp32WebServers.Base
