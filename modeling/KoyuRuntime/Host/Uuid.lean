/-
# Host.Uuid — `uuid4().hex`

Thirty-two lowercase hexadecimal digits.  The type carries that, so an id is
never empty and never contains a path separator.
-/
import Mathlib.Data.List.Basic

namespace KoyuRuntime.Host

set_option autoImplicit false

def hexDigits : List Char :=
  ['0', '1', '2', '3', '4', '5', '6', '7', '8', '9', 'a', 'b', 'c', 'd', 'e', 'f']

structure Uuid where
  hex : String
  digits : ∀ c ∈ hex.toList, c ∈ hexDigits
  length : hex.toList.length = 32

namespace Uuid

theorem hex_ne_empty (u : Uuid) : u.hex ≠ "" := by
  intro empty
  have := u.length
  rw [empty] at this
  simp at this

theorem not_mem_of_not_hexDigit (u : Uuid) {c : Char} (off : c ∉ hexDigits) : c ∉ u.hex.toList :=
  fun mem => off (u.digits c mem)

end Uuid

end KoyuRuntime.Host
