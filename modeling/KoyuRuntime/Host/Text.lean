/-
# Host.Text — lines, words and numbers of a text

`str.splitlines` ends a line at any of Python's line boundaries, "\r\n" being one of
them, and `str.split()` takes the words between whitespace.  `int(word)` reads a signed
decimal number, and raises on anything else and on too many digits.

* `lines_of_delimited`: lines without boundaries, each ended by one, are split apart
  again, up to empty ones.
* `words_spaced`: words with one blank between them are the words of the text.
* `intOfText_intText`: a number of few enough digits is read back as printed.
-/
import KoyuRuntime.Host.Dynamic
import KoyuRuntime.Host.Ini

namespace KoyuRuntime.Host

set_option autoImplicit false

/-! ## Lines -/

/-- The characters a line ends at. -/
def isBreak (c : Char) : Bool :=
  [0x0a, 0x0b, 0x0c, 0x0d, 0x1c, 0x1d, 0x1e, 0x85, 0x2028, 0x2029].contains c.toNat

/-- A scan that has read `line` of the current line; a newline right after a carriage
return belongs to it. -/
def scanLines (afterReturn : Bool) (line : List Char) : List Char → List (List Char)
  | [] => if line.isEmpty then [] else [line]
  | c :: rest =>
      if afterReturn && c == '\n' then scanLines false line rest
      else if isBreak c then line :: scanLines (c == '\r') [] rest
      else scanLines false (line ++ [c]) rest

/-- `str.splitlines`. -/
def splitLines (text : List Char) : List (List Char) := scanLines false [] text

/-- Lines one after the other, each but the last ended by a line boundary. -/
inductive Delimited : List (List Char) → List Char → Prop where
  | none : Delimited [] []
  | last (line : List Char) : Delimited [line] line
  | ended (line : List Char) {c : Char} (isBreak : isBreak c = true) {lines : List (List Char)}
      {text : List Char} (rest : Delimited lines text) : Delimited (line :: lines) (line ++ c :: text)
  | endedTwo (line : List Char) {lines : List (List Char)} {text : List Char}
      (rest : Delimited lines text) : Delimited (line :: lines) (line ++ '\r' :: '\n' :: text)

/-- The lines that are not empty. -/
def written (lines : List (List Char)) : List (List Char) := lines.filter fun line => !line.isEmpty

theorem written_cons (line : List Char) (rest : List (List Char)) :
    written (line :: rest) = written [line] ++ written rest :=
  List.filter_append [line] rest

/-- A boundary at the front ends an empty line. -/
theorem written_splitOnP_cons {c : Char} (ends : isBreak c = true) (text : List Char) :
    written ((c :: text).splitOnP isBreak) = written (text.splitOnP isBreak) := by
  have empty := List.splitOnP_append_cons [] text ends
  rw [List.nil_append] at empty
  rw [empty]
  rfl

theorem written_scanLines {afterReturn : Bool} {line : List Char} (text : List Char)
    (fresh : afterReturn = true → line = []) (unbroken : ∀ c ∈ line, isBreak c = false) :
    written (scanLines afterReturn line text) = written ((line ++ text).splitOnP isBreak) := by
  induction text generalizing afterReturn line with
  | nil =>
      rw [List.append_nil, List.splitOnP_eq_singleton unbroken, scanLines]
      cases line with
      | nil => rfl
      | cons c rest => rfl
  | cons c rest ih =>
      by_cases second : afterReturn = true ∧ c = '\n'
      · obtain ⟨returned, rfl⟩ := second
        obtain rfl := fresh returned
        rw [scanLines, if_pos (by simp [returned]), ih (by simp) unbroken, List.nil_append, List.nil_append,
          written_splitOnP_cons (by decide)]
      · rw [scanLines, if_neg (by simpa using second)]
        by_cases ends : isBreak c = true
        · rw [if_pos ends, List.splitOnP_append_cons_of_forall_mem unbroken c ends]
          have later : written (scanLines (c == '\r') [] rest) = written (([] ++ rest).splitOnP isBreak) :=
            ih (by simp) (by simp)
          rw [List.nil_append] at later
          rw [written_cons line (scanLines _ _ _), written_cons line (List.splitOnP _ _), later]
        · rw [if_neg ends, ih (by simp) ?_, List.append_assoc]
          · rfl
          · intro d mem
            rcases List.mem_append.mp mem with earlier | here
            · exact unbroken d earlier
            · rw [List.mem_singleton.mp here]
              simpa using ends

/-- **The lines of a text** are the ones it was put together from, up to empty ones. -/
theorem lines_of_delimited {lines : List (List Char)} {text : List Char}
    (delimited : Delimited lines text) (unbroken : ∀ line ∈ lines, ∀ c ∈ line, isBreak c = false) :
    written (splitLines text) = written lines := by
  rw [splitLines, written_scanLines text (by simp) (by simp), List.nil_append]
  induction delimited with
  | none => rfl
  | last line => rw [List.splitOnP_eq_singleton (unbroken line (by simp))]
  | ended line ends rest ih =>
      have later := ih fun l mem => unbroken l (List.mem_cons_of_mem _ mem)
      rw [List.splitOnP_append_cons_of_forall_mem (unbroken line (by simp)) _ ends,
        written_cons line (List.splitOnP _ _), later, ← written_cons]
  | endedTwo line rest ih =>
      have later := ih fun l mem => unbroken l (List.mem_cons_of_mem _ mem)
      rw [List.splitOnP_append_cons_of_forall_mem (unbroken line (by simp)) _ (by decide),
        written_cons line (List.splitOnP _ _), written_splitOnP_cons (by decide), later, ← written_cons]

/-! ## Words -/

/-- `str.split()`. -/
def words (line : List Char) : List String :=
  ((line.splitOnP Ini.space).filter fun word => !word.isEmpty).map String.ofList

/-- A word is not empty and has no whitespace. -/
def IsWord (word : String) : Prop := word ≠ "" ∧ ∀ c ∈ word.toList, Ini.space c = false

/-- Of a given text this is decided character by character. -/
theorem none_of_any {p : Char → Bool} {text : List Char} (none_ : text.any p = false) :
    ∀ c ∈ text, p c = false := by
  simpa using none_

theorem isWord_of_any {word : String} (some_ : word ≠ "") (dark : word.toList.any Ini.space = false) :
    IsWord word :=
  ⟨some_, none_of_any dark⟩

/-- `" ".join(words)`. -/
def spaced : List String → List Char
  | [] => []
  | [word] => word.toList
  | word :: rest => word.toList ++ ' ' :: spaced rest

theorem words_word {word : String} (isWord : IsWord word) : words word.toList = [word] := by
  obtain ⟨some_, dark⟩ := isWord
  have full : word.toList ≠ [] := by simpa using some_
  rw [words, List.splitOnP_eq_singleton dark, List.filter_cons_of_pos (by simpa using full)]
  simp

/-- **Words** with one blank between them are the words of the text. -/
theorem words_spaced {ws : List String} (each : ∀ word ∈ ws, IsWord word) : words (spaced ws) = ws := by
  induction ws with
  | nil => rfl
  | cons word rest ih =>
      obtain ⟨first, others⟩ := List.forall_mem_cons.mp each
      cases rest with
      | nil => exact words_word first
      | cons next more =>
          have one := words_word first
          have later := ih others
          unfold words at one later ⊢
          rw [show spaced (word :: next :: more) = word.toList ++ ' ' :: spaced (next :: more) from rfl,
            List.splitOnP_append_cons _ _ (by decide), List.filter_append, List.map_append, one, later]
          rfl

/-- Every line boundary is whitespace. -/
theorem space_of_isBreak {c : Char} (ends : isBreak c = true) : Ini.space c = true := by
  simp only [isBreak, List.contains_eq_mem, List.mem_cons, List.not_mem_nil, or_false,
    decide_eq_true_eq] at ends
  unfold Ini.space
  rcases ends with h | h | h | h | h | h | h | h | h | h <;> rw [h] <;> decide

theorem unbroken_spaced {ws : List String} (each : ∀ word ∈ ws, IsWord word) :
    ∀ c ∈ spaced ws, isBreak c = false := by
  have dark : ∀ word : String, IsWord word → ∀ c ∈ word.toList, isBreak c = false := by
    intro word isWord c mem
    by_contra ends
    rw [Bool.not_eq_false] at ends
    exact absurd (space_of_isBreak ends) (by rw [isWord.2 c mem]; decide)
  induction ws with
  | nil => simp [spaced]
  | cons word rest ih =>
      obtain ⟨first, others⟩ := List.forall_mem_cons.mp each
      cases rest with
      | nil => exact dark word first
      | cons next more =>
          intro c mem
          rcases List.mem_append.mp mem with inWord | later
          · exact dark word first c inWord
          · rcases List.mem_cons.mp later with rfl | inRest
            · decide
            · exact ih others c inRest

/-! ## Numbers -/

/-- The digits of `int(text)`, with single underscores between them. -/
def digitsOf (body : List Char) : Option (List Char) :=
  let groups := body.splitOn '_'
  if groups.all fun g => !g.isEmpty && g.all Char.isDigit then some groups.flatten else none

/-- `int(word)`, for the digits of ASCII. -/
def intOfText (word : List Char) : Except Exn Int :=
  let (sign, body) : Int × List Char :=
    match word with
    | '-' :: body => (-1, body)
    | '+' :: body => (1, body)
    | body => (1, body)
  match digitsOf body with
  | some digits =>
      if digits.length ≤ maxStrDigits then .ok (sign * Nat.ofDigitChars 10 digits 0)
      else .error .valueError
  | none => .error .valueError

/-- A character as `int(text)` sees it: a digit of any script, as `unicodedata.decimal`
knows them, is one of ASCII, and other whitespace a blank. -/
def toAscii (decimal : Char → Option Nat) (c : Char) : Char :=
  if c.toNat < 127 then c
  else if Ini.space c then ' '
  else
    match decimal c with
    | some digit => Nat.digitChar digit
    | none => '?'

/-- The whitespace of ASCII. -/
def isBlank (c : Char) : Bool := c == ' ' || (9 ≤ c.toNat && c.toNat ≤ 13)

/-- `text.strip(...)`, of what a test accepts. -/
def strip (drop : Char → Bool) (text : List Char) : List Char :=
  ((text.dropWhile drop).reverse.dropWhile drop).reverse

/-- `int(value)`. -/
def Json.toInt (decimal : Char → Option Nat) : Json → Except Exn Int
  | .int i => .ok i
  | .bool b => .ok (if b then 1 else 0)
  | .float x => x.toInt
  | .str text => intOfText (strip isBlank (text.toList.map (toAscii decimal)))
  | _ => .error .typeError

/-- `str(i)`. -/
def intText (i : Int) : List Char :=
  if i < 0 then '-' :: Nat.toDigits 10 i.natAbs else Nat.toDigits 10 i.natAbs

/-- Has the number few enough digits to be read? -/
def Readable (i : Int) : Prop := i.natAbs < 10 ^ maxStrDigits

theorem digitsOf_toDigits (n : Nat) : digitsOf (Nat.toDigits 10 n) = some (Nat.toDigits 10 n) := by
  have digits : ∀ c ∈ Nat.toDigits 10 n, c.isDigit = true :=
    fun c mem => Nat.isDigit_of_mem_toDigits (by decide) (by decide) mem
  have one : (Nat.toDigits 10 n).splitOn '_' = [Nat.toDigits 10 n] := by
    rw [List.splitOn_eq_splitOnP]
    refine List.splitOnP_eq_singleton fun c mem => ?_
    rw [beq_eq_false_iff_ne]
    rintro rfl
    exact absurd (digits _ mem) (by decide)
  have some_ : (Nat.toDigits 10 n).isEmpty = false := by
    rw [List.isEmpty_eq_false_iff, ← List.length_pos_iff]
    exact Nat.length_toDigits_pos
  simp only [digitsOf, one, List.all_cons, List.all_nil, some_, List.all_eq_true.mpr digits]
  simp

/-- **A number is read back** as it was printed. -/
theorem intOfText_intText {i : Int} (readable : Readable i) : intOfText (intText i) = .ok i := by
  have short : (Nat.toDigits 10 i.natAbs).length ≤ maxStrDigits :=
    (Nat.length_toDigits_le_iff (by decide) (by decide)).mpr readable
  have value := Nat.ofDigitChars_ten_toDigits (n := i.natAbs)
  by_cases negative : i < 0
  · have sign : -1 * (i.natAbs : Int) = i := by omega
    simp only [intText, if_pos negative, intOfText, digitsOf_toDigits, if_pos short, value, sign]
  · have sign : (1 : Int) * (i.natAbs : Int) = i := by omega
    rw [intText, if_neg negative]
    have digits : ∀ c ∈ Nat.toDigits 10 i.natAbs, c.isDigit = true :=
      fun c mem => Nat.isDigit_of_mem_toDigits (by decide) (by decide) mem
    unfold intOfText
    split
    rename_i _ s body parsed
    split at parsed
    · rename_i rest split_
      exact absurd (digits '-' (split_ ▸ List.mem_cons_self)) (by decide)
    · rename_i rest split_
      exact absurd (digits '+' (split_ ▸ List.mem_cons_self)) (by decide)
    · cases parsed
      simp only [digitsOf_toDigits, if_pos short, value, sign]

theorem isWord_intText (i : Int) : IsWord (String.ofList (intText i)) := by
  have plain : ∀ c ∈ intText i, c = '-' ∨ c.isDigit = true := by
    intro c mem
    unfold intText at mem
    split at mem
    · rcases List.mem_cons.mp mem with rfl | digit
      · exact .inl rfl
      · exact .inr (Nat.isDigit_of_mem_toDigits (by decide) (by decide) digit)
    · exact .inr (Nat.isDigit_of_mem_toDigits (by decide) (by decide) mem)
  constructor
  · have some_ : Nat.toDigits 10 i.natAbs ≠ [] := List.length_pos_iff.mp Nat.length_toDigits_pos
    have full : intText i ≠ [] := by
      unfold intText
      split
      · simp
      · exact some_
    intro empty
    exact full (by simpa using congrArg String.toList empty)
  · intro c mem
    rw [String.toList_ofList] at mem
    rcases plain c mem with rfl | digit
    · decide
    · have least : 48 ≤ c.toNat := by
        have := (Bool.and_eq_true _ _ |>.mp digit).1
        simpa [UInt32.le_iff_toNat_le] using this
      have most : c.toNat ≤ 57 := by
        have := (Bool.and_eq_true _ _ |>.mp digit).2
        simpa [UInt32.le_iff_toNat_le] using this
      simp only [Ini.space, List.contains_eq_mem, List.mem_cons, List.not_mem_nil, or_false, Bool.or_eq_false_iff,
        Bool.and_eq_false_iff, decide_eq_false_iff_not]
      omega

end KoyuRuntime.Host
