/-
# Host.Ini — sections of `key=value` lines

A line in square brackets opens a section; every other line that is not blank is an entry
of the section it stands in, with its key up to the first equals sign.  Nothing is merged:
a section or a key that comes twice is read twice.

* `lines_append_newline`, `kept_append_newline`: a text is read line by line.
* `length_of_sections`: every line that is not blank opens a section or is an entry.
* `sections_section`: a written section is read as it was written.
-/
import KoyuRuntime.Host.Exn
import KoyuRuntime.Theory.Raising

namespace KoyuRuntime.Host.Ini

open Theory

set_option autoImplicit false

/-- Whitespace, for `str.strip`. -/
def space (c : Char) : Bool :=
  (9 ≤ c.toNat && c.toNat ≤ 13) || (28 ≤ c.toNat && c.toNat ≤ 32) ||
    (0x2000 ≤ c.toNat && c.toNat ≤ 0x200a) ||
    [0x85, 0xa0, 0x1680, 0x2028, 0x2029, 0x202f, 0x205f, 0x3000].contains c.toNat

def blank (line : List Char) : Bool := line.all space

/-- Split at every newline. -/
def lines : List Char → List (List Char)
  | [] => [[]]
  | c :: rest =>
      if c = '\n' then [] :: lines rest
      else
        match lines rest with
        | [] => [[c]]
        | line :: more => (c :: line) :: more

/-- The lines that say something. -/
def kept (text : List Char) : List (List Char) := (lines text).filter fun line => !blank line

/-- The name a line in square brackets gives. -/
def headerName : List Char → Option (List Char)
  | '[' :: rest => if rest.getLast? = some ']' then some rest.dropLast else none
  | _ => none

/-- The key and the value of a line with an equals sign. -/
def keyValue : List Char → Option (List Char × List Char)
  | [] => none
  | '=' :: rest => some ([], rest)
  | c :: rest => (keyValue rest).map fun e => (c :: e.1, e.2)

structure Section where
  name : List Char
  entries : List (List Char × List Char)

/-- The entries before the first section, and the sections. -/
def sections : List (List Char) → Except Exn (List (List Char × List Char) × List Section)
  | [] => .ok ([], [])
  | line :: rest => do
      let (loose, more) ← sections rest
      match headerName line with
      | some name => pure ([], ⟨name, loose⟩ :: more)
      | none =>
          match keyValue line with
          | some e => pure (e :: loose, more)
          | none => .error .valueError

/-- The sections of a text; an entry before the first of them raises. -/
def read (text : List Char) : Except Exn (List Section) := do
  let (loose, found) ← sections (kept text)
  if loose.isEmpty then pure found else .error .valueError

/-- One written entry. -/
def shown (e : List Char × List Char) : List Char := e.1 ++ '=' :: e.2

/-! ## Lines -/

theorem lines_ne_nil (text : List Char) : lines text ≠ [] := by
  cases text with
  | nil => exact List.cons_ne_nil _ _
  | cons c rest =>
      rw [lines]
      split
      · exact List.cons_ne_nil _ _
      · split
        · exact List.cons_ne_nil _ _
        · exact List.cons_ne_nil _ _

theorem lines_append_newline (text tail : List Char) :
    lines (text ++ '\n' :: tail) = lines text ++ lines tail := by
  induction text with
  | nil => rfl
  | cons c rest ih =>
      rw [List.cons_append, lines, lines, ih]
      split
      · rfl
      · cases split : lines rest with
        | nil => exact absurd split (lines_ne_nil rest)
        | cons line more => rfl

theorem lines_of_not_mem {text : List Char} (one : '\n' ∉ text) : lines text = [text] := by
  induction text with
  | nil => rfl
  | cons c rest ih =>
      rw [List.mem_cons, not_or] at one
      rw [lines, if_neg (Ne.symm one.1), ih one.2]

theorem kept_append_newline (text tail : List Char) :
    kept (text ++ '\n' :: tail) = kept text ++ kept tail := by
  rw [kept, lines_append_newline, List.filter_append]
  rfl

theorem blank_eq_false {line : List Char} {c : Char} (mem : c ∈ line) (dark : space c = false) :
    blank line = false := by
  rw [blank, List.all_eq_false]
  exact ⟨c, mem, by simp [dark]⟩

theorem kept_of_not_mem {text : List Char} (one : '\n' ∉ text) {c : Char} (mem : c ∈ text)
    (dark : space c = false) : kept text = [text] := by
  rw [kept, lines_of_not_mem one, List.filter_cons_of_pos]
  · rfl
  · rw [blank_eq_false mem dark]
    rfl

theorem exists_line {text : List Char} {c : Char} (mem : c ∈ text) (ne : c ≠ '\n') :
    ∃ line ∈ lines text, c ∈ line := by
  induction text with
  | nil => cases mem
  | cons d rest ih =>
      rw [lines]
      split
      · rename_i newline
        rcases List.mem_cons.mp mem with rfl | later
        · exact absurd newline ne
        · obtain ⟨line, inLines, inLine⟩ := ih later
          exact ⟨line, List.mem_cons_of_mem _ inLines, inLine⟩
      · cases split : lines rest with
        | nil => exact absurd split (lines_ne_nil rest)
        | cons first more =>
            rcases List.mem_cons.mp mem with rfl | later
            · exact ⟨c :: first, List.mem_cons_self, List.mem_cons_self⟩
            · obtain ⟨line, inLines, inLine⟩ := ih later
              rw [split] at inLines
              rcases List.mem_cons.mp inLines with rfl | inMore
              · exact ⟨d :: line, List.mem_cons_self, List.mem_cons_of_mem d inLine⟩
              · exact ⟨line, List.mem_cons_of_mem _ inMore, inLine⟩

/-- A text that is not blank keeps a line. -/
theorem one_le_kept {text : List Char} {c : Char} (mem : c ∈ text) (dark : space c = false) :
    1 ≤ (kept text).length := by
  have ne : c ≠ '\n' := by
    rintro rfl
    exact absurd dark (by decide)
  obtain ⟨line, inLines, inLine⟩ := exists_line mem ne
  apply List.length_pos_of_mem (a := line)
  rw [kept, List.mem_filter, blank_eq_false inLine dark]
  exact ⟨inLines, rfl⟩

/-- Two dark characters around a newline keep two lines. -/
theorem two_le_of_newline (front back : List Char) {text : List Char} (newline : '\n' ∈ text) {c d : Char}
    (before : c ∈ front) (darkBefore : space c = false) (after : d ∈ back)
    (darkAfter : space d = false) : 2 ≤ (kept (front ++ text ++ back)).length := by
  obtain ⟨line, rest, rfl, -⟩ := List.eq_append_cons_of_mem newline
  have whole : front ++ (line ++ '\n' :: rest) ++ back = (front ++ line) ++ '\n' :: (rest ++ back) := by
    simp
  rw [whole, kept_append_newline, List.length_append]
  have first := one_le_kept (List.mem_append_left line before) darkBefore
  have second := one_le_kept (List.mem_append_right rest after) darkAfter
  omega

/-! ## Sections -/

/-- A section counts its header and its entries. -/
def weight : List Section → Nat
  | [] => 0
  | s :: more => s.entries.length + 1 + weight more

theorem length_of_sections {text : List (List Char)} {loose : List (List Char × List Char)}
    {found : List Section} (done : sections text = .ok (loose, found)) :
    text.length = loose.length + weight found := by
  induction text generalizing loose found with
  | nil =>
      cases done
      rfl
  | cons line rest ih =>
      obtain ⟨⟨entries, more⟩, later, here⟩ := except_bind_ok_iff.mp done
      have count := ih later
      rw [List.length_cons, count]
      dsimp only at here
      split at here
      · cases here
        simp only [List.length_nil, weight]
        omega
      · split at here
        · cases here
          simp only [List.length_cons]
          omega
        · cases here

theorem length_of_read {text : List Char} {found : List Section} (done : read text = .ok found) :
    (kept text).length = weight found := by
  obtain ⟨⟨loose, more⟩, lines, here⟩ := except_bind_ok_iff.mp done
  dsimp only at here
  split at here
  · rename_i none_
    cases here
    rw [length_of_sections lines, List.isEmpty_iff.mp none_]
    simp
  · cases here

/-- A key that is written as an entry and not as a header. -/
def PlainKey (key : List Char) : Prop := '=' ∉ key ∧ '[' ∉ key ∧ key ≠ []

theorem keyValue_shown {e : List Char × List Char} (plain : '=' ∉ e.1) : keyValue (shown e) = some e := by
  obtain ⟨key, value⟩ := e
  induction key with
  | nil => rfl
  | cons c key ih =>
      rw [List.mem_cons, not_or] at plain
      have rest := ih plain.2
      rw [shown, List.cons_append]
      unfold shown at rest
      rw [keyValue]
      · simp only [rest, Option.map_some]
      · intro same
        exact plain.1 same.symm

theorem headerName_shown {e : List Char × List Char} (plain : PlainKey e.1) : headerName (shown e) = none := by
  obtain ⟨key, value⟩ := e
  cases key with
  | nil => exact absurd rfl plain.2.2
  | cons c key =>
      have ne : c ≠ '[' := fun same => plain.2.1 (same ▸ List.mem_cons_self)
      rw [shown, List.cons_append, headerName]
      intro rest same
      exact ne (List.cons.inj same).1

/-- A written section, before others. -/
theorem sections_section {line name : List Char} (opens : headerName line = some name)
    {entries : List (List Char × List Char)} (plain : ∀ e ∈ entries, PlainKey e.1)
    {rest : List (List Char)} {more : List Section} (later : sections rest = .ok ([], more)) :
    sections (line :: (entries.map shown ++ rest)) = .ok ([], ⟨name, entries⟩ :: more) := by
  have body : sections (entries.map shown ++ rest) = .ok (entries, more) := by
    induction entries with
    | nil => exact later
    | cons e entries ih =>
        have first := plain e List.mem_cons_self
        rw [List.map_cons, List.cons_append, sections,
          ih fun f mem => plain f (List.mem_cons_of_mem e mem)]
        simp only [bind, Except.bind, headerName_shown first, keyValue_shown first.1]
        rfl
  rw [sections, body]
  simp only [bind, Except.bind, opens]
  rfl

end KoyuRuntime.Host.Ini
