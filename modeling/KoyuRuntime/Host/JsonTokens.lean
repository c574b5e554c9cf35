/-
# Host.JsonTokens — strings and numbers are read back

A string ends at the first quote that is not escaped, and an escape says which character it is: a
character outside the basic plane is two escapes, a high surrogate and a low one.  A number goes on
as long as it can, so what follows it must not go on with it.

* `scanString_text`: a written string is read back, whatever follows it.
* `scanNumber_append`: a number is read whatever follows it, if that does not go on with it.
* `scanNumber_intText`: a written integer is a number without fraction and exponent.
-/
import KoyuRuntime.Host.JsonScan
import KoyuRuntime.Host.Decimal
import Mathlib.Data.List.TakeWhile

namespace KoyuRuntime.Host

open Theory

set_option autoImplicit false

/-! ## Strings -/

theorem hexUnit_hexFour {n : Nat} (fits : n < 0x10000) :
    hexUnit (hexDigit (n / 4096 % 16)) (hexDigit (n / 256 % 16)) (hexDigit (n / 16 % 16)) (hexDigit (n % 16)) =
      some n := by
  have digit : ∀ m, hexValue (hexDigit (m % 16)) = some (m % 16) :=
    fun m => hexValue_hexDigit _ (Nat.mod_lt m (by decide))
  have sum : ((n / 4096 % 16 * 16 + n / 256 % 16) * 16 + n / 16 % 16) * 16 + n % 16 = n := by omega
  simp only [hexUnit, digit, Option.bind_eq_bind, Option.bind_some, Option.pure_def, sum]

theorem toNat_scalar (c : Char) : c.toNat < 0xd800 ∨ 0xdfff < c.toNat ∧ c.toNat < 0x110000 := by
  have valid := c.valid
  exact valid

theorem scanString_letter {c letter : Char} (stands : unescape letter = some c) (noHex : letter ≠ 'u')
    (rest : List Char) : scanString ('\\' :: letter :: rest) =
      (scanString rest).map fun read => (c :: read.1, read.2) := by
  rw [scanString.eq_def]
  simp only [if_neg (show '\\' ≠ '"' by decide), if_true]
  split
  · rename_i other
    exact absurd (List.cons.inj other).1 noHex
  · rename_i other
    cases other
    simp only [stands]
  · rename_i other
    cases other

theorem scanString_unit {n : Nat} (fits : n < 0x10000) (noHalf : n < 0xd800 ∨ 0xdfff < n) (rest : List Char) :
    scanString (unitEscape n ++ rest) = (scanString rest).map fun read => (Char.ofNat n :: read.1, read.2) := by
  simp only [unitEscape, hexFour, List.cons_append, List.nil_append]
  rw [scanString.eq_def]
  simp only [if_neg (show '\\' ≠ '"' by decide), if_true, hexUnit_hexFour fits, if_pos noHalf]

theorem scanString_units {n m : Nat} (high : 0xd800 ≤ n ∧ n < 0xdc00) (low : 0xdc00 ≤ m ∧ m ≤ 0xdfff)
    (rest : List Char) : scanString (unitEscape n ++ unitEscape m ++ rest) =
      (scanString rest).map fun read => (surrogates n m :: read.1, read.2) := by
  have half : ¬ (n < 0xd800 ∨ 0xdfff < n) := by omega
  simp only [unitEscape, hexFour, List.cons_append, List.nil_append]
  rw [scanString.eq_def]
  simp only [if_neg (show '\\' ≠ '"' by decide), if_true, hexUnit_hexFour (show n < 0x10000 by omega), if_neg half,
    hexUnit_hexFour (show m < 0x10000 by omega), if_pos (show n < 0xdc00 ∧ 0xdc00 ≤ m ∧ m ≤ 0xdfff by omega)]

theorem scanString_plain {c : Char} (noQuote : c ≠ '"') (noEscape : c ≠ '\\') (high : 0x20 ≤ c.toNat)
    (rest : List Char) : scanString (c :: rest) = (scanString rest).map fun read => (c :: read.1, read.2) := by
  rw [scanString.eq_def]
  simp only [if_neg noQuote, if_neg noEscape, if_neg (show ¬ c.toNat < 0x20 by omega)]

/-- **One character** is read back, before the rest. -/
theorem scanString_asciiEscape (c : Char) (rest : List Char) :
    scanString (asciiEscape c ++ rest) = (scanString rest).map fun read => (c :: read.1, read.2) := by
  have other : ∀ d : Char, (shortEscape d).isSome → shortEscape c = none → c ≠ d := by
    rintro d short none_ rfl
    rw [none_] at short
    cases short
  unfold asciiEscape
  cases short : shortEscape c with
  | some letter =>
      obtain ⟨noHex, stands⟩ := unescape_shortEscape short
      exact scanString_letter stands noHex rest
  | none =>
      have scalar := toNat_scalar c
      have same := Char.ofNat_toNat c
      dsimp only
      split
      · rename_i plain
        exact scanString_plain (other _ (by decide) short) (other _ (by decide) short) plain.1 rest
      · split
        · rename_i fits
          rw [scanString_unit fits (by omega), same]
        · rw [scanString_units (by omega) (by omega)]
          have joined : surrogates (0xd800 + (c.toNat - 0x10000) / 1024) (0xdc00 + (c.toNat - 0x10000) % 1024) = c := by
            unfold surrogates
            rw [show 0x10000 + (0xd800 + (c.toNat - 0x10000) / 1024 - 0xd800) * 1024 +
              (0xdc00 + (c.toNat - 0x10000) % 1024 - 0xdc00) = c.toNat by omega, same]
          rw [joined]

/-- **A string** is read back, whatever follows it. -/
theorem scanString_text (text rest : List Char) :
    scanString (text.flatMap asciiEscape ++ '"' :: rest) = some (text, rest) := by
  induction text with
  | nil =>
      rw [List.flatMap_nil, List.nil_append, scanString.eq_def]
      rfl
  | cons c more ih =>
      rw [List.flatMap_cons, List.append_assoc, scanString_asciiEscape, ih]
      rfl

/-! ## Numbers -/

/-- Digits end where no digit follows. -/
theorem digits_append {rest : List Char} (noDigit : ∀ c ∈ rest.head?, c.isDigit = false) (text : List Char) :
    (text ++ rest).takeWhile Char.isDigit = text.takeWhile Char.isDigit ∧
      (text ++ rest).dropWhile Char.isDigit = text.dropWhile Char.isDigit ++ rest := by
  induction text with
  | nil =>
      cases rest with
      | nil => exact ⟨rfl, rfl⟩
      | cons c more =>
          have other : ¬ c.isDigit = true := by
            rw [noDigit c rfl]
            decide
          rw [List.nil_append, List.takeWhile_cons_of_neg other, List.dropWhile_cons_of_neg other]
          exact ⟨rfl, rfl⟩
  | cons c more ih =>
      rw [List.cons_append]
      by_cases digit : c.isDigit = true
      · refine ⟨?_, ?_⟩
        · rw [List.takeWhile_cons_of_pos digit, List.takeWhile_cons_of_pos digit, ih.1]
        · rw [List.dropWhile_cons_of_pos digit, List.dropWhile_cons_of_pos digit, ih.2]
      · refine ⟨?_, ?_⟩
        · rw [List.takeWhile_cons_of_neg digit, List.takeWhile_cons_of_neg digit]
        · rw [List.dropWhile_cons_of_neg digit, List.dropWhile_cons_of_neg digit, List.cons_append]

theorem scanWhole_append {text rest : List Char} (noDigit : ∀ c ∈ rest.head?, c.isDigit = false)
    {read : List Char × List Char} (found : scanWhole text = some read) :
    scanWhole (text ++ rest) = some (read.1, read.2 ++ rest) := by
  cases text with
  | nil => cases found
  | cons c more =>
      obtain ⟨take_, drop_⟩ := digits_append noDigit more
      rw [scanWhole] at found
      rw [List.cons_append, scanWhole, take_, drop_]
      split at found
      · rename_i zero
        cases found
        rw [if_pos zero]
      · rename_i noZero
        rw [if_neg noZero]
        split at found
        · rename_i digit
          cases found
          rw [if_pos digit]
        · cases found

/-- Nothing that a number goes on with stands in front. -/
def Ends (rest : List Char) : Prop :=
  ∀ c ∈ rest.head?, c.isDigit = false ∧ c ≠ '.' ∧ c ≠ 'e' ∧ c ≠ 'E' ∧ c ≠ '+' ∧ c ≠ '-'

section Ends

variable {rest : List Char} (ends : Ends rest)
include ends

theorem scanFraction_append (text : List Char) :
    scanFraction (text ++ rest) = ((scanFraction text).1, (scanFraction text).2 ++ rest) := by
  cases text with
  | cons c more =>
      obtain ⟨take_, drop_⟩ := digits_append (fun c mem => (ends c mem).1) more
      rw [List.cons_append, scanFraction, scanFraction, take_, drop_]
      split
      · rfl
      · rfl
  | nil =>
      cases rest with
      | nil => rfl
      | cons c more =>
          obtain ⟨-, noPoint, -⟩ := ends c rfl
          show scanFraction (c :: more) = ([], c :: more)
          rw [scanFraction, if_neg fun both => noPoint both.1]

theorem scanPlus_append (text : List Char) :
    scanPlus (text ++ rest) = ((scanPlus text).1, (scanPlus text).2 ++ rest) := by
  cases text with
  | cons c more =>
      rw [List.cons_append, scanPlus, scanPlus]
      split
      · rfl
      · rfl
  | nil =>
      cases rest with
      | nil => rfl
      | cons c more =>
          obtain ⟨-, -, -, -, noPlus, noMinus⟩ := ends c rfl
          show scanPlus (c :: more) = ([], c :: more)
          rw [scanPlus, if_neg (by simp [noPlus, noMinus])]

theorem scanExponent_append (text : List Char) :
    scanExponent (text ++ rest) = ((scanExponent text).1, (scanExponent text).2 ++ rest) := by
  cases text with
  | cons c more =>
      rw [List.cons_append, scanExponent, scanExponent, scanPlus_append ends more]
      obtain ⟨take_, drop_⟩ := digits_append (fun c mem => (ends c mem).1) (scanPlus more).2
      dsimp only
      rw [take_, drop_]
      split
      · rfl
      · rfl
  | nil =>
      cases rest with
      | nil => rfl
      | cons c more =>
          obtain ⟨-, -, noSmall, noLarge, -⟩ := ends c rfl
          show scanExponent (c :: more) = ([], c :: more)
          rw [scanExponent, if_neg (by simp [noSmall, noLarge])]

/-- **A number** is read whatever follows it, if that does not go on with it. -/
theorem scanNumber_append {text : List Char} {read : Number × List Char}
    (found : scanNumber text = some read) : scanNumber (text ++ rest) = some (read.1, read.2 ++ rest) := by
  have sign : scanSign (text ++ rest) = ((scanSign text).1, (scanSign text).2 ++ rest) := by
    cases text with
    | nil => cases found
    | cons c more =>
        rw [List.cons_append, scanSign, scanSign]
        split
        · rfl
        · rfl
  simp only [scanNumber] at found ⊢
  rw [sign]
  split at found
  · cases found
  · rename_i whole more there
    cases found
    simp only [scanWhole_append (fun c mem => (ends c mem).1) there, scanFraction_append ends, scanExponent_append ends]

end Ends

/-- A number and what follows it are the text. -/
theorem scanNumber_text {text : List Char} {read : Number × List Char} (found : scanNumber text = some read) :
    read.1.text ++ read.2 = text := by
  have digits : ∀ t : List Char, t.takeWhile Char.isDigit ++ t.dropWhile Char.isDigit = t :=
    fun t => List.takeWhile_append_dropWhile
  have sign : ∀ t, (scanSign t).1 ++ (scanSign t).2 = t := by
    rintro (_ | ⟨c, more⟩)
    · rfl
    · rw [scanSign]
      split
      · rename_i minus
        rw [minus]
        rfl
      · rfl
  have whole : ∀ {t : List Char} {w}, scanWhole t = some w → w.1 ++ w.2 = t := by
    rintro (_ | ⟨c, more⟩) w there
    · cases there
    · rw [scanWhole] at there
      split at there
      · rename_i zero
        cases there
        rw [zero]
        rfl
      · split at there
        · cases there
          exact congrArg (List.cons c) (digits more)
        · cases there
  have fraction : ∀ t, (scanFraction t).1 ++ (scanFraction t).2 = t := by
    rintro (_ | ⟨c, more⟩)
    · rfl
    · rw [scanFraction]
      split
      · rename_i point
        rw [point.1]
        exact congrArg (List.cons '.') (digits more)
      · rfl
  have plus : ∀ t, (scanPlus t).1 ++ (scanPlus t).2 = t := by
    rintro (_ | ⟨c, more⟩)
    · rfl
    · rw [scanPlus]
      split
      · rfl
      · rfl
  have exponent : ∀ t, (scanExponent t).1 ++ (scanExponent t).2 = t := by
    rintro (_ | ⟨c, more⟩)
    · rfl
    · rw [scanExponent]
      split
      · dsimp only
        rw [List.append_assoc, digits, List.cons_append, plus]
      · rfl
  simp only [scanNumber] at found
  split at found
  · cases found
  · rename_i w rest there
    cases found
    have digits_ := whole there
    dsimp only at digits_
    simp only [Number.text, List.append_assoc]
    rw [exponent, fraction, digits_, sign]

/-- The parts of an integer. -/
def intNumber (i : Int) : Number := ⟨if i < 0 then ['-'] else [], Nat.toDigits 10 i.natAbs, [], []⟩

theorem intNumber_text (i : Int) : (intNumber i).text = intText i := by
  unfold Number.text intNumber intText
  split
  · simp
  · simp

/-- Only zero begins with a zero. -/
theorem scanWhole_toDigits (n : Nat) : scanWhole (Nat.toDigits 10 n) = some (Nat.toDigits 10 n, []) := by
  have digits : ∀ n, ∀ c ∈ Nat.toDigits 10 n, c.isDigit = true :=
    fun n c mem => Nat.isDigit_of_mem_toDigits (by decide) (by decide) mem
  have front : ∀ n, 0 < n → ∃ c rest, Nat.toDigits 10 n = c :: rest ∧ c ≠ '0' := by
    intro n positive
    induction n using Nat.strongRecOn with
    | _ n ih =>
        by_cases small : n < 10
        · refine ⟨n.digitChar, [], Nat.toDigits_of_lt_base small, ?_⟩
          intro zero
          have value := Nat.toNat_digitChar_of_lt_ten small
          rw [zero] at value
          have : '0'.toNat = 48 := rfl
          omega
        · obtain ⟨c, rest, there, noZero⟩ := ih (n / 10) (by omega) (by omega)
          exact ⟨c, rest ++ [(n % 10).digitChar], by rw [toDigits_split (by omega), there]; rfl, noZero⟩
  rcases Nat.eq_zero_or_pos n with rfl | positive
  · rfl
  · obtain ⟨c, rest, there, noZero⟩ := front n positive
    have each := digits n
    rw [there] at each ⊢
    have all : ∀ d ∈ rest, d.isDigit = true := fun d mem => each d (List.mem_cons_of_mem c mem)
    rw [scanWhole, if_neg noZero, if_pos (each c List.mem_cons_self), List.takeWhile_eq_self_iff.mpr all,
      List.dropWhile_eq_nil_iff.mpr all]

theorem scanSign_intText (i : Int) (rest : List Char) :
    scanSign (intText i ++ rest) = ((intNumber i).sign, Nat.toDigits 10 i.natAbs ++ rest) := by
  unfold intText intNumber
  split
  · rfl
  · have some_ : Nat.toDigits 10 i.natAbs ≠ [] := List.length_pos_iff.mp Nat.length_toDigits_pos
    obtain ⟨c, more, there⟩ := List.exists_cons_of_ne_nil some_
    have digit : c.isDigit = true :=
      Nat.isDigit_of_mem_toDigits (by decide) (by decide) (there ▸ List.mem_cons_self)
    have noSign : c ≠ '-' := by
      rintro rfl
      exact absurd digit (by decide)
    rw [there, List.cons_append, scanSign, if_neg noSign]

theorem scanNumber_intText (i : Int) : scanNumber (intText i) = some (intNumber i, []) := by
  have sign := scanSign_intText i []
  rw [List.append_nil, List.append_nil] at sign
  simp only [scanNumber, sign, scanWhole_toDigits]
  rfl

end KoyuRuntime.Host
