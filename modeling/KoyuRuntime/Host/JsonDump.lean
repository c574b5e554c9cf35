/-
# Host.JsonDump — a JSON value as `json.dumps` writes it

Whatever is not printable ASCII is escaped, by a letter or by the hex digits of its UTF-16 code
units.  Without an indent nothing is put between the parts but blanks; with one every part stands
on a line of its own.  How a float prints is a parameter.

* `dump_plain`: without an indent the text is printable ASCII throughout, so it is one line and has
  as many bytes as characters.
-/
import KoyuRuntime.Host.Json
import KoyuRuntime.Host.JsonText
import KoyuRuntime.Host.Text

namespace KoyuRuntime.Host

set_option autoImplicit false

/-- From the blank to the tilde. -/
def Plain (c : Char) : Prop := 0x20 ≤ c.toNat ∧ c.toNat ≤ 0x7e

instance (c : Char) : Decidable (Plain c) := inferInstanceAs (Decidable (_ ∧ _))

/-- How floats print, in plain text. -/
structure FloatRepr where
  text : Double → List Char
  plain : ∀ x, ∀ c ∈ text x, Plain c

section Dump

/-- Four hex digits. -/
def hexFour (n : Nat) : List Char :=
  [hexDigit (n / 4096 % 16), hexDigit (n / 256 % 16), hexDigit (n / 16 % 16), hexDigit (n % 16)]

/-- The escape of a UTF-16 code unit. -/
def unitEscape (n : Nat) : List Char := '\\' :: 'u' :: hexFour n

/-- One character of a string, with `ensure_ascii`. -/
def asciiEscape (c : Char) : List Char :=
  match shortEscape c with
  | some letter => ['\\', letter]
  | none =>
      let n := c.toNat
      if 0x20 ≤ n ∧ n ≤ 0x7e then [c]
      else if n < 0x10000 then unitEscape n
      else unitEscape (0xd800 + (n - 0x10000) / 1024) ++ unitEscape (0xdc00 + (n - 0x10000) % 1024)

def asciiQuoted (text : String) : List Char := '"' :: text.toList.flatMap asciiEscape ++ ['"']

/-- A new line, so many levels deep. -/
def lineBreak (indent : Option Nat) (level : Nat) : List Char :=
  match indent with
  | none => []
  | some width => '\n' :: List.replicate (width * level) ' '

/-- What stands between two parts. -/
def comma (indent : Option Nat) (level : Nat) : List Char :=
  match indent with
  | none => [',', ' ']
  | some _ => ',' :: lineBreak indent level

/-- The parts with a separator between them. -/
def separated (sep : List Char) : List (List Char) → List Char
  | [] => []
  | [part] => part
  | part :: rest => part ++ sep ++ separated sep rest

/-- The parts in brackets. -/
def bracketed (indent : Option Nat) (level : Nat) (opening closing : Char) (parts : List (List Char)) :
    List Char :=
  if parts = [] then [opening, closing]
  else opening :: (lineBreak indent (level + 1) ++ separated (comma indent (level + 1)) parts ++
    lineBreak indent level ++ [closing])

variable (repr : FloatRepr) (indent : Option Nat)

mutual

/-- `json.dumps` with an indent, of a part so many levels deep. -/
def dumpAt : Nat → Json → List Char
  | _, .null => "null".toList
  | _, .bool b => if b then "true".toList else "false".toList
  | _, .int i => intText i
  | _, .float x => repr.text x
  | _, .str s => asciiQuoted s
  | level, .arr items => bracketed indent level '[' ']' (dumpItems (level + 1) items)
  | level, .obj members => bracketed indent level '\x7b' '\x7d' (dumpMembers (level + 1) members)

def dumpItems : Nat → List Json → List (List Char)
  | _, [] => []
  | level, item :: rest => dumpAt level item :: dumpItems level rest

def dumpMembers : Nat → List (String × Json) → List (List Char)
  | _, [] => []
  | level, (key, value) :: rest =>
      (asciiQuoted key ++ ':' :: ' ' :: dumpAt level value) :: dumpMembers level rest

end

/-- `json.dumps`. -/
def dump (value : Json) : List Char := dumpAt repr none 0 value

end Dump

/-! ## Plain text -/

/-- A text of plain characters. -/
def AllPlain (text : List Char) : Prop := ∀ c ∈ text, Plain c

instance (text : List Char) : Decidable (AllPlain text) := List.decidableBAll _ text

theorem AllPlain.append {l r : List Char} (left : AllPlain l) (right : AllPlain r) : AllPlain (l ++ r) := by
  intro c mem
  rcases List.mem_append.mp mem with inL | inR
  · exact left c inL
  · exact right c inR

theorem plain_hexDigit : ∀ n < 16, Plain (hexDigit n) := by decide

theorem allPlain_unitEscape (n : Nat) : AllPlain (unitEscape n) := by
  have digit : ∀ m : Nat, Plain (hexDigit (m % 16)) := fun m => plain_hexDigit _ (Nat.mod_lt m (by decide))
  intro c mem
  simp only [unitEscape, hexFour, List.mem_cons, List.not_mem_nil, or_false] at mem
  rcases mem with rfl | rfl | rfl | rfl | rfl | rfl
  · decide
  · decide
  · exact digit _
  · exact digit _
  · exact digit _
  · exact digit _

theorem plain_shortEscape {c letter : Char} (short : shortEscape c = some letter) : Plain letter := by
  unfold shortEscape at short
  split at short
  case h_8 => cases short
  all_goals
    cases short
    decide

theorem allPlain_asciiEscape (c : Char) : AllPlain (asciiEscape c) := by
  unfold asciiEscape
  split
  · rename_i letter short
    intro d mem
    simp only [List.mem_cons, List.not_mem_nil, or_false] at mem
    rcases mem with rfl | rfl
    · decide
    · exact plain_shortEscape short
  · dsimp only
    split
    · rename_i plain
      intro d mem
      rw [List.mem_singleton.mp mem]
      exact plain
    · split
      · exact allPlain_unitEscape _
      · exact (allPlain_unitEscape _).append (allPlain_unitEscape _)

theorem allPlain_asciiQuoted (text : String) : AllPlain (asciiQuoted text) := by
  have quote : AllPlain ['"'] := by decide
  have inside : AllPlain (text.toList.flatMap asciiEscape) := by
    intro c mem
    obtain ⟨d, -, here⟩ := List.mem_flatMap.mp mem
    exact allPlain_asciiEscape d c here
  exact (quote.append inside).append quote

theorem allPlain_intText (i : Int) : AllPlain (intText i) := by
  have digit : ∀ c ∈ Nat.toDigits 10 i.natAbs, Plain c := by
    intro c mem
    have isDigit : c.isDigit = true := Nat.isDigit_of_mem_toDigits (by decide) (by decide) mem
    obtain ⟨low, high⟩ := Char.isDigit_iff_toNat.mp isDigit
    exact ⟨Nat.le_trans (by decide) low, Nat.le_trans high (by decide)⟩
  intro c mem
  unfold intText at mem
  split at mem
  · rcases List.mem_cons.mp mem with rfl | inDigits
    · decide
    · exact digit c inDigits
  · exact digit c mem

theorem allPlain_separated {sep : List Char} (plain : AllPlain sep) {parts : List (List Char)}
    (each : ∀ part ∈ parts, AllPlain part) : AllPlain (separated sep parts) := by
  induction parts with
  | nil => exact fun _ none_ => (List.not_mem_nil none_).elim
  | cons part rest ih =>
      have here := each part List.mem_cons_self
      have later := ih fun p mem => each p (List.mem_cons_of_mem part mem)
      cases rest with
      | nil => exact here
      | cons next more => exact (here.append plain).append later

theorem allPlain_bracketed {opening closing : Char} (ends : AllPlain [opening, closing]) (level : Nat)
    {parts : List (List Char)} (each : ∀ part ∈ parts, AllPlain part) :
    AllPlain (bracketed none level opening closing parts) := by
  unfold bracketed
  split
  · exact ends
  · have first : AllPlain [opening] := fun c mem => ends c (List.mem_cons.mpr (.inl (List.mem_singleton.mp mem)))
    have last : AllPlain [closing] := fun c mem => ends c (List.mem_cons_of_mem _ mem)
    have none_ : AllPlain (lineBreak none level) := fun _ mem => (List.not_mem_nil mem).elim
    have sep : AllPlain (comma none (level + 1)) := show AllPlain [',', ' '] by decide
    exact first.append (((none_.append (allPlain_separated sep each)).append none_).append last)

section Plain

variable (repr : FloatRepr)

mutual

theorem dumpAt_plain : (level : Nat) → (value : Json) → AllPlain (dumpAt repr none level value)
  | _, .null => show AllPlain "null".toList by decide
  | _, .bool true => show AllPlain "true".toList by decide
  | _, .bool false => show AllPlain "false".toList by decide
  | _, .int i => allPlain_intText i
  | _, .float x => repr.plain x
  | _, .str s => allPlain_asciiQuoted s
  | level, .arr items => by
      rw [dumpAt]
      exact allPlain_bracketed (by decide) level (dumpItems_plain (level + 1) items)
  | level, .obj members => by
      rw [dumpAt]
      exact allPlain_bracketed (by decide) level (dumpMembers_plain (level + 1) members)

theorem dumpItems_plain : (level : Nat) → (items : List Json) →
    ∀ part ∈ dumpItems repr none level items, AllPlain part
  | _, [], part, mem => by
      rw [dumpItems] at mem
      cases mem
  | level, item :: rest, part, mem => by
      rw [dumpItems] at mem
      rcases List.mem_cons.mp mem with rfl | later
      · exact dumpAt_plain level item
      · exact dumpItems_plain level rest part later

theorem dumpMembers_plain : (level : Nat) → (members : List (String × Json)) →
    ∀ part ∈ dumpMembers repr none level members, AllPlain part
  | _, [], part, mem => by
      rw [dumpMembers] at mem
      cases mem
  | level, (key, value) :: rest, part, mem => by
      have colon : AllPlain [':', ' '] := by decide
      rw [dumpMembers] at mem
      rcases List.mem_cons.mp mem with rfl | later
      · exact (allPlain_asciiQuoted key).append (colon.append (dumpAt_plain level value))
      · exact dumpMembers_plain level rest part later

end

/-- **A dumped value** is plain text. -/
theorem dump_plain (value : Json) : AllPlain (dump repr value) := dumpAt_plain repr 0 value

end Plain

/-! ## Lines of plain text -/

theorem not_break_of_plain {c : Char} (plain : Plain c) : isBreak c = false := by
  obtain ⟨low, high⟩ := plain
  simp only [isBreak, List.contains_eq_mem, decide_eq_false_iff_not, List.mem_cons, List.not_mem_nil, or_false]
  omega

/-- Lines without boundaries, each ended by a newline, are split apart again. -/
theorem splitLines_ended {lines : List (List Char)} (unbroken : ∀ line ∈ lines, ∀ c ∈ line, isBreak c = false) :
    splitLines (lines.flatMap fun line => line ++ ['\n']) = lines := by
  have scan : ∀ (line before : List Char) (rest : List Char), (∀ c ∈ line, isBreak c = false) →
      scanLines false before (line ++ '\n' :: rest) = (before ++ line) :: scanLines false [] rest := by
    intro line
    induction line with
    | nil =>
        intro before rest _
        rw [List.nil_append, List.append_nil, scanLines]
        rfl
    | cons c more ih =>
        intro before rest plain
        rw [List.cons_append, scanLines, if_neg (by simp), if_neg (by simp [plain c List.mem_cons_self]),
          ih _ _ fun d mem => plain d (List.mem_cons_of_mem c mem), List.append_assoc]
        rfl
  unfold splitLines
  induction lines with
  | nil => rfl
  | cons line rest ih =>
      rw [List.flatMap_cons, List.append_assoc, List.singleton_append]
      rw [scan line [] _ (unbroken line List.mem_cons_self), List.nil_append,
        ih fun l mem => unbroken l (List.mem_cons_of_mem line mem)]

end KoyuRuntime.Host
