/-
# Host.Double — the doubles the recorder computes with

A double is a NaN, an infinity or a number.  Numbers are the exact rationals
they denote and arithmetic is exact up to the one thing the code can observe
from outside: a quotient past the largest double is an infinity.

`int(x)` raises on a NaN (`ValueError`) and on an infinity (`OverflowError`) and
otherwise truncates toward zero.  An integer becomes the nearest double, of 53
significant bits (`ofInt`).
-/
import KoyuRuntime.Host.Exn
import Mathlib.Data.Rat.Floor

namespace KoyuRuntime.Host

set_option autoImplicit false

inductive Double where
  | nan
  | inf (negative : Bool)
  | fin (value : ℚ)
  deriving DecidableEq

namespace Double

/-- From here on a positive real rounds to infinity. -/
def overflow : ℚ := 2 ^ 1024 - 2 ^ 970

/-- The double an exact result is delivered as. -/
def ofExact (q : ℚ) : Double :=
  if overflow ≤ q then .inf false else if q ≤ -overflow then .inf true else .fin q

/-- `x >= y` against a number; every comparison with a NaN is false. -/
def ge : Double → ℚ → Bool
  | .nan, _ => false
  | .inf negative, _ => !negative
  | .fin q, y => decide (y ≤ q)

/-- Python truth of a float: everything but zero, the NaN included. -/
def truthy : Double → Bool
  | .fin q => decide (q ≠ 0)
  | _ => true

/-- `max(x, 0.0)`: the second argument replaces the first only if it is greater. -/
def maxZero : Double → Double
  | .nan => .nan
  | .inf negative => if negative then .fin 0 else .inf false
  | .fin q => if q < 0 then .fin 0 else .fin q

/-- `a / x` for a number `a`. -/
def divInto (a : ℚ) : Double → Except Exn Double
  | .nan => .ok .nan
  | .inf _ => .ok (.fin 0)
  | .fin q => if q = 0 then .error .zeroDivisionError else .ok (ofExact (a / q))

/-- Truncation toward zero. -/
def trunc (q : ℚ) : Int := if 0 ≤ q then ⌊q⌋ else ⌈q⌉

/-- `int(x)`. -/
def toInt : Double → Except Exn Int
  | .nan => .error .valueError
  | .inf _ => .error .overflowError
  | .fin q => .ok (trunc q)

/-- The nearest number of 53 significant bits, of two the even one. -/
def roundNat (n : Nat) : Nat :=
  let unit := 2 ^ (n.log2 - 52)
  if 2 * (n % unit) < unit ∨ (2 * (n % unit) = unit ∧ n / unit % 2 = 0) then n / unit * unit
  else (n / unit + 1) * unit

/-- The double nearest to an integer. -/
def ofInt (i : Int) : ℚ := i.sign * roundNat i.natAbs

/-- A double represents the integer exactly. -/
def ExactInt (i : Int) : Prop := ∃ m e : Nat, m < 2 ^ 53 ∧ i.natAbs = m * 2 ^ e

theorem roundNat_of_dvd {n : Nat} (whole : 2 ^ (n.log2 - 52) ∣ n) : roundNat n = n := by
  have rest : n % 2 ^ (n.log2 - 52) = 0 := Nat.mod_eq_zero_of_dvd whole
  have small : 2 * 0 < 2 ^ (n.log2 - 52) := Nat.two_pow_pos _
  simp only [roundNat, rest]
  rw [if_pos (.inl small), Nat.div_mul_cancel whole]

theorem ofInt_exact {i : Int} (exact_ : ExactInt i) : ofInt i = i := by
  obtain ⟨m, e, small, shape⟩ := exact_
  have whole : 2 ^ (i.natAbs.log2 - 52) ∣ i.natAbs := by
    by_cases zero : i.natAbs = 0
    · simp [zero]
    · have bits : i.natAbs.log2 < 53 + e := by
        rw [Nat.log2_lt zero, shape, Nat.pow_add]
        exact Nat.mul_lt_mul_of_pos_right small (Nat.two_pow_pos e)
      rw [shape] at bits ⊢
      exact (Nat.pow_dvd_pow 2 (by omega)).trans (Nat.dvd_mul_left _ _)
  rw [ofInt, roundNat_of_dvd whole]
  have parts : ((i.sign * i.natAbs : Int) : ℚ) = i := congrArg _ (Int.sign_mul_natAbs i)
  rwa [Int.cast_mul, Int.cast_natCast] at parts

end Double

end KoyuRuntime.Host
