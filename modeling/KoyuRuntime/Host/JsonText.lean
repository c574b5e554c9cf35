/-
# Host.JsonText — a text in quotes, as JSON writes it

A JSON writer that keeps what is not ASCII escapes the quote, the backslash and the
control characters, five of them by a letter of their own and the others by four hex
digits.  A reader undoes any of the escapes.

* `readQuoted_quoted`: a quoted text is read back, whatever follows it.
-/
import Mathlib.Data.String.Basic
import Mathlib.Data.Nat.Notation

namespace KoyuRuntime.Host

set_option autoImplicit false

/-! ## Writing -/

/-- The hex digit of a number below sixteen. -/
def hexDigit (n : Nat) : Char := Char.ofNat (if n < 10 then 48 + n else 87 + n)

/-- The letter that stands for a character after a backslash. -/
def shortEscape (c : Char) : Option Char :=
  match c.toNat with
  | 0x22 => some '"'
  | 0x5c => some '\\'
  | 0x08 => some 'b'
  | 0x09 => some 't'
  | 0x0a => some 'n'
  | 0x0c => some 'f'
  | 0x0d => some 'r'
  | _ => none

def escape (c : Char) : List Char :=
  match shortEscape c with
  | some letter => ['\\', letter]
  | none =>
      if c.toNat < 0x20 then ['\\', 'u', '0', '0', hexDigit (c.toNat / 16), hexDigit (c.toNat % 16)]
      else [c]

/-- The text in quotes. -/
def quoted (text : List Char) : List Char := '"' :: text.flatMap escape ++ ['"']

/-! ## Reading -/

/-- The value of a hex digit. -/
def hexValue (c : Char) : Option Nat :=
  let n := c.toNat
  if 48 ≤ n ∧ n < 58 then some (n - 48)
  else if 97 ≤ n ∧ n < 103 then some (n - 87)
  else if 65 ≤ n ∧ n < 71 then some (n - 55)
  else none

/-- The character a letter after a backslash stands for. -/
def unescape (letter : Char) : Option Char :=
  match letter.toNat with
  | 0x22 => some '"'
  | 0x5c => some '\\'
  | 0x2f => some '/'
  | 0x62 => some (Char.ofNat 0x08)
  | 0x66 => some (Char.ofNat 0x0c)
  | 0x6e => some '\n'
  | 0x72 => some '\r'
  | 0x74 => some '\t'
  | _ => none

/-- The character of four hex digits. -/
def unescapeHex (a b c d : Char) : Option Char := do
  let a ← hexValue a
  let b ← hexValue b
  let c ← hexValue c
  let d ← hexValue d
  pure (Char.ofNat (((a * 16 + b) * 16 + c) * 16 + d))

/-- The rest of a quoted text, up to the closing quote, and what follows. -/
def readEscaped : List Char → Option (List Char × List Char)
  | [] => none
  | c :: rest =>
      if c = '"' then some ([], rest)
      else if c = '\\' then
        match rest with
        | 'u' :: a :: b :: c :: d :: rest => do
            let here ← unescapeHex a b c d
            let (text, rest) ← readEscaped rest
            pure (here :: text, rest)
        | letter :: rest => do
            let here ← unescape letter
            let (text, rest) ← readEscaped rest
            pure (here :: text, rest)
        | [] => none
      else do
        let (text, rest) ← readEscaped rest
        pure (c :: text, rest)

/-- A quoted text, and what follows it. -/
def readQuoted : List Char → Option (List Char × List Char)
  | [] => none
  | c :: rest => if c = '"' then readEscaped rest else none

/-! ## Round trip -/

theorem hexValue_hexDigit : ∀ n < 16, hexValue (hexDigit n) = some n := by
  decide

theorem unescapeHex_low {n : Nat} (low : n < 0x20) :
    unescapeHex '0' '0' (hexDigit (n / 16)) (hexDigit (n % 16)) = some (Char.ofNat n) := by
  have zero : hexValue '0' = some 0 := by decide
  have high := hexValue_hexDigit (n / 16) (by omega)
  have digit := hexValue_hexDigit (n % 16) (by omega)
  have value : ((0 * 16 + 0) * 16 + n / 16) * 16 + n % 16 = n := by omega
  simp only [unescapeHex, zero, high, digit, Option.bind_eq_bind, Option.bind_some, value]
  rfl

/-- A letter that is written after a backslash stands for the character there. -/
theorem unescape_shortEscape {c letter : Char} (short : shortEscape c = some letter) :
    letter ≠ 'u' ∧ unescape letter = some c := by
  have at_ : ∀ n, c.toNat = n → c = Char.ofNat n := by
    rintro n rfl
    exact (Char.ofNat_toNat c).symm
  unfold shortEscape at short
  split at short
  case h_8 => cases short
  all_goals
    rename_i code
    cases short
    rw [at_ _ code]
    exact ⟨by decide, by decide⟩

theorem readEscaped_letter {c letter : Char} (stands : unescape letter = some c) (noHex : letter ≠ 'u')
    (rest : List Char) : readEscaped ('\\' :: letter :: rest) =
      (readEscaped rest).map fun read => (c :: read.1, read.2) := by
  rw [readEscaped.eq_def]
  simp only [if_neg (show '\\' ≠ '"' by decide), if_true]
  split
  · rename_i other
    exact absurd (List.cons.inj other).1 noHex
  · rename_i other
    cases other
    rw [stands]
    cases readEscaped rest <;> rfl
  · rename_i other
    cases other

theorem readEscaped_hex {a b c d here : Char} (stands : unescapeHex a b c d = some here)
    (rest : List Char) : readEscaped ('\\' :: 'u' :: a :: b :: c :: d :: rest) =
      (readEscaped rest).map fun read => (here :: read.1, read.2) := by
  rw [readEscaped.eq_def]
  simp only [if_neg (show '\\' ≠ '"' by decide), if_true, stands]
  cases readEscaped rest <;> rfl

theorem readEscaped_plain {c : Char} (noQuote : c ≠ '"') (noEscape : c ≠ '\\') (rest : List Char) :
    readEscaped (c :: rest) = (readEscaped rest).map fun read => (c :: read.1, read.2) := by
  rw [readEscaped.eq_def]
  simp only [if_neg noQuote, if_neg noEscape]
  cases readEscaped rest <;> rfl

/-- One character is read back, before the rest. -/
theorem readEscaped_escape (c : Char) (rest : List Char) :
    readEscaped (escape c ++ rest) = (readEscaped rest).map fun read => (c :: read.1, read.2) := by
  have plain : ∀ d : Char, (shortEscape d).isSome → shortEscape c = none → c ≠ d := by
    rintro d short none_ rfl
    rw [none_] at short
    cases short
  unfold escape
  cases short : shortEscape c with
  | some letter =>
      obtain ⟨noHex, stands⟩ := unescape_shortEscape short
      exact readEscaped_letter stands noHex rest
  | none =>
      by_cases low : c.toNat < 0x20
      · have stands := unescapeHex_low low
        rw [Char.ofNat_toNat] at stands
        simp only [if_pos low]
        exact readEscaped_hex stands rest
      · simp only [if_neg low]
        exact readEscaped_plain (plain _ (by decide) short) (plain _ (by decide) short) rest

/-- **A quoted text is read back**, whatever follows it. -/
theorem readQuoted_quoted (text rest : List Char) :
    readQuoted (quoted text ++ rest) = some (text, rest) := by
  have read : readEscaped (text.flatMap escape ++ '"' :: rest) = some (text, rest) := by
    induction text with
    | nil =>
        rw [List.flatMap_nil, List.nil_append, readEscaped.eq_def]
        rfl
    | cons c more ih =>
        rw [List.flatMap_cons, List.append_assoc, readEscaped_escape, ih]
        rfl
  rw [quoted, List.cons_append, List.cons_append, List.append_assoc, readQuoted, if_pos rfl]
  exact read

end KoyuRuntime.Host
