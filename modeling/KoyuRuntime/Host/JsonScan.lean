/-
# Host.JsonScan — a JSON text as `json.loads` reads it

The scanner looks at the next character and takes a string, a number, a word, a list or an object,
with blanks between the parts.  An integer of too many digits is refused, a number with a fraction
or an exponent is a float, and of two members with one key the later value is kept.

A part of a list or an object is shorter than the text around it, so the fuel of a scan is twice the
length of its text.

* `scanValue_fuel`: more fuel than that makes no difference.
-/
import KoyuRuntime.Host.JsonDump
import KoyuRuntime.Theory.OrderedDict

namespace KoyuRuntime.Host

open Theory

set_option autoImplicit false

/-- Why a text is not read. -/
inductive Unread where
  /-- `json.JSONDecodeError`. -/
  | malformed
  /-- The `ValueError` of an integer with too many digits. -/
  | tooLong

/-! ## Blanks and strings -/

def blank (c : Char) : Bool := c == ' ' || c == '\t' || c == '\n' || c == '\r'

def skip (text : List Char) : List Char := text.dropWhile blank

/-- The text after a character, if it stands in front. -/
def eat (c : Char) : List Char → Option (List Char)
  | [] => none
  | d :: rest => if d = c then some rest else none

/-- The UTF-16 code unit of four hex digits. -/
def hexUnit (a b c d : Char) : Option Nat := do
  let a ← hexValue a
  let b ← hexValue b
  let c ← hexValue c
  let d ← hexValue d
  pure (((a * 16 + b) * 16 + c) * 16 + d)

/-- The character of two surrogates. -/
def surrogates (high low : Nat) : Char := Char.ofNat (0x10000 + (high - 0xd800) * 1024 + (low - 0xdc00))

/-- The rest of a string and what follows it.  A lone surrogate, which is in no text here, is not
read. -/
def scanString : List Char → Option (List Char × List Char)
  | [] => none
  | c :: rest =>
      if c = '"' then some ([], rest)
      else if c = '\\' then
        match rest with
        | 'u' :: a :: b :: c :: d :: rest =>
            match hexUnit a b c d with
            | none => none
            | some n =>
                if n < 0xd800 ∨ 0xdfff < n then
                  (scanString rest).map fun read => (Char.ofNat n :: read.1, read.2)
                else
                  match rest with
                  | '\\' :: 'u' :: e :: f :: g :: h :: rest =>
                      match hexUnit e f g h with
                      | none => none
                      | some m =>
                          if n < 0xdc00 ∧ 0xdc00 ≤ m ∧ m ≤ 0xdfff then
                            (scanString rest).map fun read => (surrogates n m :: read.1, read.2)
                          else none
                  | _ => none
        | letter :: rest =>
            match unescape letter with
            | none => none
            | some here => (scanString rest).map fun read => (here :: read.1, read.2)
        | [] => none
      else if c.toNat < 0x20 then none
      else (scanString rest).map fun read => (c :: read.1, read.2)

/-! ## Numbers -/

/-- A number in its parts. -/
structure Number where
  sign : List Char
  whole : List Char
  fraction : List Char
  exponent : List Char
  deriving DecidableEq

def scanSign : List Char → List Char × List Char
  | [] => ([], [])
  | c :: rest => if c = '-' then (['-'], rest) else ([], c :: rest)

/-- A zero, or digits that begin with another. -/
def scanWhole : List Char → Option (List Char × List Char)
  | [] => none
  | c :: rest =>
      if c = '0' then some (['0'], rest)
      else if c.isDigit then some (c :: rest.takeWhile Char.isDigit, rest.dropWhile Char.isDigit)
      else none

def scanFraction : List Char → List Char × List Char
  | [] => ([], [])
  | c :: rest =>
      if c = '.' ∧ rest.takeWhile Char.isDigit ≠ [] then
        ('.' :: rest.takeWhile Char.isDigit, rest.dropWhile Char.isDigit)
      else ([], c :: rest)

/-- The sign of an exponent. -/
def scanPlus : List Char → List Char × List Char
  | [] => ([], [])
  | c :: rest => if c = '+' ∨ c = '-' then ([c], rest) else ([], c :: rest)

def scanExponent : List Char → List Char × List Char
  | [] => ([], [])
  | c :: rest =>
      let plus := scanPlus rest
      if (c = 'e' ∨ c = 'E') ∧ plus.2.takeWhile Char.isDigit ≠ [] then
        (c :: plus.1 ++ plus.2.takeWhile Char.isDigit, plus.2.dropWhile Char.isDigit)
      else ([], c :: rest)

def scanNumber (text : List Char) : Option (Number × List Char) :=
  let (sign, text) := scanSign text
  match scanWhole text with
  | none => none
  | some (whole, text) =>
      let (fraction, text) := scanFraction text
      let (exponent, text) := scanExponent text
      some (⟨sign, whole, fraction, exponent⟩, text)

def Number.isFloat (n : Number) : Bool := !(n.fraction.isEmpty && n.exponent.isEmpty)

def Number.text (n : Number) : List Char := n.sign ++ n.whole ++ n.fraction ++ n.exponent

/-- How floats print and are read: which numbers are doubles, and that those are read back. -/
structure FloatFormat extends FloatRepr where
  read : List Char → Double
  exact : ℚ → Prop
  exact_read : ∀ {word q}, read word = .fin q → exact q
  written : ∀ {q}, exact q → ∃ n, scanNumber (text (.fin q)) = some (n, []) ∧ n.isFloat = true
  readBack : ∀ {q}, exact q → read (text (.fin q)) = .fin q
  nan : text .nan = "NaN".toList
  inf : ∀ negative, text (.inf negative) = if negative then "-Infinity".toList else "Infinity".toList

/-! ## Values -/

section Scan

variable (format : FloatFormat)

def Number.value (n : Number) : Except Unread Json :=
  if n.isFloat then .ok (.float (format.read n.text))
  else
    match intOfText n.text with
    | .ok i => .ok (.int i)
    | .error _ => .error .tooLong

/-- The words of JSON, and those that Python adds. -/
def literals : List (List Char × Json) :=
  [(['n', 'u', 'l', 'l'], .null), (['t', 'r', 'u', 'e'], .bool true),
    (['f', 'a', 'l', 's', 'e'], .bool false), (['N', 'a', 'N'], .float .nan),
    (['I', 'n', 'f', 'i', 'n', 'i', 't', 'y'], .float (.inf false)),
    (['-', 'I', 'n', 'f', 'i', 'n', 'i', 't', 'y'], .float (.inf true))]

def scanLiteral (text : List Char) : Option (Json × List Char) :=
  literals.findSome? fun l => (text.dropPrefix? l.1).map fun rest => (l.2, rest)

def scanAtom (text : List Char) : Except Unread (Json × List Char) :=
  match scanLiteral text with
  | some read => .ok read
  | none =>
      match scanNumber text with
      | none => .error .malformed
      | some (n, rest) =>
          match n.value format with
          | .ok value => .ok (value, rest)
          | .error e => .error e

mutual

/-- `scan_once`. -/
def scanValue : Nat → List Char → Except Unread (Json × List Char)
  | 0, _ => .error .malformed
  | fuel + 1, text =>
      match eat '"' text with
      | some rest =>
          match scanString rest with
          | some (s, rest) => .ok (.str (String.ofList s), rest)
          | none => .error .malformed
      | none =>
          match eat '[' text with
          | some rest =>
              match eat ']' (skip rest) with
              | some rest => .ok (.arr [], rest)
              | none => scanItems fuel [] (skip rest)
          | none =>
              match eat '\x7b' text with
              | some rest =>
                  match eat '\x7d' (skip rest) with
                  | some rest => .ok (.obj [], rest)
                  | none => scanMembers fuel ∅ (skip rest)
              | none => scanAtom format text

/-- The items of a list, after those that were read. -/
def scanItems : Nat → List Json → List Char → Except Unread (Json × List Char)
  | 0, _, _ => .error .malformed
  | fuel + 1, items, text =>
      match scanValue fuel text with
      | .error e => .error e
      | .ok (item, rest) =>
          match eat ',' (skip rest) with
          | some rest => scanItems fuel (items ++ [item]) (skip rest)
          | none =>
              match eat ']' (skip rest) with
              | some rest => .ok (.arr (items ++ [item]), rest)
              | none => .error .malformed

/-- The members of an object. -/
def scanMembers : Nat → OrderedDict String Json → List Char → Except Unread (Json × List Char)
  | 0, _, _ => .error .malformed
  | fuel + 1, members, text =>
      match (eat '"' text).bind scanString with
      | none => .error .malformed
      | some (key, rest) =>
          match eat ':' (skip rest) with
          | none => .error .malformed
          | some rest =>
              match scanValue fuel (skip rest) with
              | .error e => .error e
              | .ok (value, rest) =>
                  match eat ',' (skip rest) with
                  | some rest => scanMembers fuel (members.set (String.ofList key) value) (skip rest)
                  | none =>
                      match eat '\x7d' (skip rest) with
                      | some rest => .ok (.obj (members.set (String.ofList key) value).entries, rest)
                      | none => .error .malformed

end

/-- `json.loads`. -/
def loads (text : List Char) : Except Unread Json :=
  match scanValue format (2 * text.length + 1) (skip text) with
  | .error e => .error e
  | .ok (value, rest) => if skip rest = [] then .ok value else .error .malformed

end Scan

/-! ## Fuel -/

theorem eat_eq_some {c : Char} {text rest : List Char} : eat c text = some rest ↔ text = c :: rest := by
  cases text with
  | nil => exact ⟨nofun, nofun⟩
  | cons d more =>
      rw [eat, List.cons.injEq]
      split
      · rename_i same
        rw [Option.some.injEq]
        exact ⟨fun there => ⟨same, there⟩, And.right⟩
      · rename_i other
        exact ⟨nofun, fun both => absurd both.1 other⟩

theorem length_skip_le (text : List Char) : (skip text).length ≤ text.length :=
  (List.dropWhile_suffix _).length_le

theorem length_eat {c : Char} {text rest : List Char} (eaten : eat c text = some rest) :
    rest.length < text.length := by
  rw [eat_eq_some.mp eaten]
  exact Nat.lt_succ_self _

theorem length_scanString {text : List Char} {read : List Char × List Char}
    (found : scanString text = some read) : read.2.length < text.length := by
  fun_induction scanString text generalizing read with
  | case2 =>
      cases found
      exact Nat.lt_succ_self _
  | case4 | case6 | case10 | case13 =>
      rename_i ih
      obtain ⟨inner, there, rfl⟩ := Option.map_eq_some_iff.mp found
      have shorter := ih there
      simp only [List.length_cons]
      omega
  | _ => cases found

theorem length_scanSign (text : List Char) : (scanSign text).2.length ≤ text.length := by
  cases text with
  | nil => exact Nat.le_refl _
  | cons c rest =>
      rw [scanSign]
      split
      · exact Nat.le_succ _
      · exact Nat.le_refl _

theorem length_scanWhole {text : List Char} {read : List Char × List Char}
    (found : scanWhole text = some read) : read.2.length < text.length := by
  have shorter : ∀ t : List Char, (t.dropWhile Char.isDigit).length ≤ t.length :=
    fun t => (List.dropWhile_suffix _).length_le
  cases text with
  | nil => cases found
  | cons c rest =>
      rw [scanWhole] at found
      split at found
      · cases found
        exact Nat.lt_succ_self _
      · split at found
        · cases found
          exact Nat.lt_succ_of_le (shorter rest)
        · cases found

theorem length_scanFraction (text : List Char) : (scanFraction text).2.length ≤ text.length := by
  cases text with
  | nil => exact Nat.le_refl _
  | cons c rest =>
      rw [scanFraction]
      split
      · exact Nat.le_succ_of_le (List.dropWhile_suffix _).length_le
      · exact Nat.le_refl _

theorem length_scanPlus (text : List Char) : (scanPlus text).2.length ≤ text.length := by
  cases text with
  | nil => exact Nat.le_refl _
  | cons c rest =>
      rw [scanPlus]
      split
      · exact Nat.le_succ _
      · exact Nat.le_refl _

theorem length_scanExponent (text : List Char) : (scanExponent text).2.length ≤ text.length := by
  cases text with
  | nil => exact Nat.le_refl _
  | cons c rest =>
      rw [scanExponent]
      split
      · exact Nat.le_succ_of_le ((List.dropWhile_suffix _).length_le.trans (length_scanPlus rest))
      · exact Nat.le_refl _

theorem length_scanNumber {text : List Char} {read : Number × List Char}
    (found : scanNumber text = some read) : read.2.length < text.length := by
  simp only [scanNumber] at found
  split at found
  · cases found
  · rename_i whole rest there
    cases found
    have first := length_scanWhole there
    have sign := length_scanSign text
    have fraction := length_scanFraction rest
    have exponent := length_scanExponent (scanFraction rest).2
    dsimp only at first ⊢
    omega

section Fuel

variable {format : FloatFormat}

theorem length_scanAtom {text : List Char} {read : Json × List Char}
    (found : scanAtom format text = .ok read) : read.2.length < text.length := by
  unfold scanAtom at found
  split at found
  · rename_i word there
    cases found
    obtain ⟨⟨letters, value⟩, isWord, dropped⟩ := List.exists_of_findSome?_eq_some there
    obtain ⟨rest, tail, rfl⟩ := Option.map_eq_some_iff.mp dropped
    obtain ⟨front, rfl, same⟩ := List.dropPrefix?_eq_some_iff.mp tail
    have some_ : ∀ l ∈ literals, 0 < l.1.length := by decide
    have long := some_ _ isWord
    rw [← eq_of_beq same] at long
    rw [List.length_append]
    exact Nat.lt_add_of_pos_left long
  · split at found
    · cases found
    · rename_i n rest there
      split at found
      · cases found
        exact length_scanNumber there
      · cases found

/-- What is left after a value is shorter than the text. -/
theorem length_scan (fuel : Nat) :
    (∀ {text read}, scanValue format fuel text = .ok read → read.2.length < text.length) ∧
    (∀ {items text read}, scanItems format fuel items text = .ok read → read.2.length < text.length) ∧
    (∀ {members text read}, scanMembers format fuel members text = .ok read →
      read.2.length < text.length) := by
  induction fuel with
  | zero =>
      refine ⟨?_, ?_, ?_⟩
      · intro text read found
        cases found
      · intro items text read found
        cases found
      · intro items text read found
        cases found
  | succ fuel ih =>
      obtain ⟨value, items, members⟩ := ih
      refine ⟨?_, ?_, ?_⟩
      · intro text read found
        have blanks := length_skip_le
        rw [scanValue] at found
        split at found
        · rename_i rest quote
          have eaten := length_eat quote
          split at found
          · rename_i s more inside
            cases found
            exact (length_scanString inside).trans eaten
          · cases found
        · split at found
          · rename_i rest bracket
            have eaten := length_eat bracket
            have shorter := blanks rest
            split at found
            · rename_i more closing
              cases found
              have closed := length_eat closing
              dsimp only
              omega
            · have later := items found
              omega
          · split at found
            · rename_i rest bracket
              have eaten := length_eat bracket
              have shorter := blanks rest
              split at found
              · rename_i more closing
                cases found
                have closed := length_eat closing
                dsimp only
                omega
              · have later := members found
                omega
            · exact length_scanAtom found
      · intro its text read found
        rw [scanItems] at found
        split at found
        · cases found
        · rename_i item rest here
          have first := value here
          have blanks := length_skip_le rest
          dsimp only at first
          split at found
          · rename_i more comma
            have eaten := length_eat comma
            have later := items found
            have blanks' := length_skip_le more
            omega
          · split at found
            · rename_i more closing
              cases found
              have eaten := length_eat closing
              dsimp only
              omega
            · cases found
      · intro members_ text read found
        rw [scanMembers] at found
        split at found
        · cases found
        · rename_i key rest named
          obtain ⟨inside, quote, read_⟩ := Option.bind_eq_some_iff.mp named
          have eaten := length_eat quote
          have name := length_scanString read_
          have blanks := length_skip_le
          have before := blanks rest
          dsimp only at name
          split at found
          · cases found
          · rename_i after colon
            have colon' := length_eat colon
            have between := blanks after
            split at found
            · cases found
            · rename_i val more here
              have first := value here
              have behind := blanks more
              dsimp only at first
              split at found
              · rename_i further comma
                have comma' := length_eat comma
                have later := members found
                have last := blanks further
                omega
              · split at found
                · rename_i further closing
                  cases found
                  have closed := length_eat closing
                  dsimp only
                  omega
                · cases found

theorem fuel_step (fuel : Nat) :
    (∀ {text}, 2 * text.length < fuel → scanValue format (fuel + 1) text = scanValue format fuel text) ∧
    (∀ {items text}, 2 * text.length + 1 < fuel →
      scanItems format (fuel + 1) items text = scanItems format fuel items text) ∧
    (∀ {members text}, 2 * text.length + 1 < fuel →
      scanMembers format (fuel + 1) members text = scanMembers format fuel members text) := by
  induction fuel with
  | zero => exact ⟨nofun, nofun, nofun⟩
  | succ fuel ih =>
      obtain ⟨value, items, members⟩ := ih
      have blanks := length_skip_le
      refine ⟨?_, ?_, ?_⟩
      · intro text enough
        rw [scanValue, scanValue]
        cases eat '"' text with
        | some rest => rfl
        | none =>
            cases bracket : eat '[' text with
            | some rest =>
                have eaten := length_eat bracket
                have shorter := blanks rest
                dsimp only
                cases eat ']' (skip rest) with
                | some more => rfl
                | none => exact items (by omega)
            | none =>
                cases brace : eat '\x7b' text with
                | none => rfl
                | some rest =>
                    have eaten := length_eat brace
                    have shorter := blanks rest
                    dsimp only
                    cases eat '\x7d' (skip rest) with
                    | some more => rfl
                    | none => exact members (by omega)
      · intro its text enough
        rw [scanItems, scanItems, value (by omega)]
        cases here : scanValue format fuel text with
        | error e => rfl
        | ok read =>
            have first := (length_scan fuel).1 here
            cases comma : eat ',' (skip read.2) with
            | none => simp only [comma]
            | some more =>
                have eaten := length_eat comma
                have before := blanks read.2
                have behind := blanks more
                simp only [comma]
                exact items (by omega)
      · intro mems text enough
        rw [scanMembers, scanMembers]
        cases named : (eat '"' text).bind scanString with
        | none => rfl
        | some read =>
            obtain ⟨inside, quote, read_⟩ := Option.bind_eq_some_iff.mp named
            have eaten := length_eat quote
            have name := length_scanString read_
            have before := blanks read.2
            cases colon : eat ':' (skip read.2) with
            | none => simp only [colon]
            | some after =>
                have colon' := length_eat colon
                have between := blanks after
                simp only [colon]
                rw [value (by omega)]
                cases here : scanValue format fuel (skip after) with
                | error e => rfl
                | ok val =>
                    have first := (length_scan fuel).1 here
                    have behind := blanks val.2
                    cases comma : eat ',' (skip val.2) with
                    | none => simp only [comma]
                    | some more =>
                        have eaten' := length_eat comma
                        have last := blanks more
                        simp only [comma]
                        exact members (by omega)

/-- **Enough fuel** is twice the length of the text. -/
theorem scanValue_fuel {text : List Char} {fuel : Nat} (enough : 2 * text.length < fuel) :
    scanValue format fuel text = scanValue format (2 * text.length + 1) text := by
  induction fuel with
  | zero => cases enough
  | succ fuel ih =>
      rcases Nat.lt_succ_iff_lt_or_eq.mp enough with more | same
      · rw [(fuel_step fuel).1 more, ih more]
      · rw [same]

end Fuel

end KoyuRuntime.Host
