/-
# Host.Calendar — UTC timestamps and their compact rendering

`datetime.fromtimestamp(ns / 1e9, tz=utc)` rounds to the microsecond, half to
even, and raises outside the years 1 to 9999.  `strftime("%Y%m%dT%H%M%S")` then
prints fifteen characters.  Days are turned into civil dates by counting whole
400-year eras from 1 March of year 0.
-/
import KoyuRuntime.Host.Exn

namespace KoyuRuntime.Host

set_option autoImplicit false

/-- A UTC instant, in microseconds since the epoch. -/
structure Datetime where
  micros : Int
  deriving DecidableEq, Repr

namespace Datetime

/-- 0001-01-01T00:00:00 and the last microsecond of year 9999. -/
def minMicros : Int := -62135596800000000
def maxMicros : Int := 253402300799999999

/-- Nanoseconds to microseconds, half to even. -/
def roundMicros (ns : Int) : Int :=
  let whole := ns.fdiv 1000
  let rest := ns.fmod 1000
  if rest < 500 then whole
  else if 500 < rest then whole + 1
  else if whole % 2 = 0 then whole else whole + 1

/-- `datetime.fromtimestamp(ns / 1e9, tz=timezone.utc)`. -/
def fromTimestamp (ns : Int) : Except Exn Datetime :=
  let micros := roundMicros ns
  if micros < minMicros ∨ maxMicros < micros then .error .valueError else .ok ⟨micros⟩

/-- Year, month and day of a day count from 1970-01-01. -/
def civil (days : Int) : Int × Int × Int :=
  let z := days + 719468
  let era := z.fdiv 146097
  let doe := z - era * 146097
  let yoe := (doe - doe / 1460 + doe / 36524 - doe / 146096) / 365
  let doy := doe - (365 * yoe + yoe / 4 - yoe / 100)
  let mp := (5 * doy + 2) / 153
  let day := doy - (153 * mp + 2) / 5 + 1
  let month := if mp < 10 then mp + 3 else mp - 9
  (yoe + era * 400 + (if month ≤ 2 then 1 else 0), month, day)

def digit (n : Nat) : Char :=
  match n % 10 with
  | 0 => '0' | 1 => '1' | 2 => '2' | 3 => '3' | 4 => '4'
  | 5 => '5' | 6 => '6' | 7 => '7' | 8 => '8' | _ => '9'

/-- The last `width` decimal digits of `n`. -/
def decimal : Nat → Nat → List Char
  | 0, _ => []
  | width + 1, n => decimal width (n / 10) ++ [digit n]

/-- `strftime("%Y%m%dT%H%M%S")`. -/
def compact (d : Datetime) : List Char :=
  let seconds := d.micros.fdiv 1000000
  let (year, month, day) := civil (seconds.fdiv 86400)
  let clock := (seconds.fmod 86400).toNat
  decimal 4 year.toNat ++ decimal 2 month.toNat ++ decimal 2 day.toNat ++ ['T'] ++
    decimal 2 (clock / 3600) ++ decimal 2 (clock / 60 % 60) ++ decimal 2 (clock % 60)

example : compact ⟨1700000000000000⟩ = "20231114T221320".toList := by decide

def digits : List Char := ['0', '1', '2', '3', '4', '5', '6', '7', '8', '9']

theorem digit_mem (n : Nat) : digit n ∈ digits := by
  unfold digit digits
  split <;> decide

theorem mem_decimal {width n : Nat} {c : Char} (mem : c ∈ decimal width n) : c ∈ digits := by
  induction width generalizing n with
  | zero => cases mem
  | succ width ih =>
      simp only [decimal, List.mem_append, List.mem_singleton] at mem
      rcases mem with earlier | rfl
      · exact ih earlier
      · exact digit_mem n

theorem length_decimal (width n : Nat) : (decimal width n).length = width := by
  induction width generalizing n with
  | zero => rfl
  | succ width ih => simp [decimal, ih]

/-- The rendering is digits and one `T`: no separator, no dot, no NUL. -/
theorem mem_compact {d : Datetime} {c : Char} (mem : c ∈ d.compact) : c ∈ 'T' :: digits := by
  simp only [compact, List.mem_append, List.mem_singleton] at mem
  rcases mem with (((((y | m) | dd) | rfl) | hh) | mm) | ss
  · exact List.mem_cons_of_mem _ (mem_decimal y)
  · exact List.mem_cons_of_mem _ (mem_decimal m)
  · exact List.mem_cons_of_mem _ (mem_decimal dd)
  · exact List.mem_cons_self
  · exact List.mem_cons_of_mem _ (mem_decimal hh)
  · exact List.mem_cons_of_mem _ (mem_decimal mm)
  · exact List.mem_cons_of_mem _ (mem_decimal ss)

theorem length_compact (d : Datetime) : d.compact.length = 15 := by
  simp [compact, length_decimal]

end Datetime

end KoyuRuntime.Host
