/-
# Host.Paths — how a spelled path becomes components

`pathlib` splits at `/` and drops empty components and single dots; `..` stays a
component and is only interpreted when the operating system walks the path.
The file system accepts a name of at most 255 bytes without a NUL.

* `parts_of_plain`: a non-empty text without `/` (and not a dot name) is one name.
* `parts_append_plain`: a plain ending stays at the end of the last component.
* `two_le_length_parts`: a `/` between a proper first and a proper last piece
  gives at least two components, whatever stands in between.
-/
import KoyuRuntime.Theory.DirTree

namespace KoyuRuntime.Host

open Theory

set_option autoImplicit false

/-- A directory or file as the operating system lists it. -/
abbrev Path := List String

/-- Split at every `/`; the pieces may be empty. -/
def splitSlash : List Char → List (List Char)
  | [] => [[]]
  | c :: rest =>
      if c = '/' then [] :: splitSlash rest
      else
        match splitSlash rest with
        | [] => [[c]]
        | piece :: pieces => (c :: piece) :: pieces

/-- Is this piece kept as a component? -/
def proper (piece : List Char) : Bool := piece ≠ [] && piece ≠ ['.']

def hopOf (piece : List Char) : Hop String :=
  if piece = ['.', '.'] then .up else .into (String.ofList piece)

/-- The components of a relative path, as `pathlib` parses it. -/
def parts (text : List Char) : List (Hop String) :=
  ((splitSlash text).filter proper).map hopOf

/-- `dir / text`: an absolute text replaces the directory. -/
def joined (dir : Path) (text : List Char) : List (Hop String) :=
  if text.head? = some '/' then parts text else dir.map .into ++ parts text

/-- `Path(text).name`. -/
def fileName (text : List Char) : String :=
  match (parts text).getLast? with
  | some (.into name) => name
  | some .up => ".."
  | none => ""

/-- `NAME_MAX`, in bytes. -/
def nameMax : Nat := 255

/-- Does the file system accept this name? -/
def legalName (name : String) : Bool :=
  decide (name.utf8ByteSize ≤ nameMax) && !name.toList.contains (Char.ofNat 0)

theorem splitSlash_of_not_mem {cs : List Char} (plain : '/' ∉ cs) : splitSlash cs = [cs] := by
  induction cs with
  | nil => rfl
  | cons c rest ih =>
      simp only [List.mem_cons, not_or] at plain
      simp [splitSlash, Ne.symm plain.1, ih plain.2]

theorem splitSlash_append_slash {a : List Char} (plain : '/' ∉ a) (b : List Char) :
    splitSlash (a ++ '/' :: b) = a :: splitSlash b := by
  induction a with
  | nil => simp [splitSlash]
  | cons c rest ih =>
      simp only [List.mem_cons, not_or] at plain
      simp [splitSlash, Ne.symm plain.1, ih plain.2]

theorem splitSlash_ne_nil (cs : List Char) : splitSlash cs ≠ [] := by
  cases cs with
  | nil => exact List.cons_ne_nil _ _
  | cons c rest =>
      rw [splitSlash]
      split
      · exact List.cons_ne_nil _ _
      · split
        · exact List.cons_ne_nil _ _
        · exact List.cons_ne_nil _ _

theorem splitSlash_append (a b : List Char) :
    splitSlash (a ++ '/' :: b) = splitSlash a ++ splitSlash b := by
  induction a with
  | nil => rfl
  | cons c rest ih =>
      rw [List.cons_append, splitSlash, splitSlash, ih]
      split
      · rfl
      · cases split : splitSlash rest with
        | nil => exact absurd split (splitSlash_ne_nil rest)
        | cons piece more => rfl

/-- A `/` only ends a component. -/
theorem parts_append_slash (a b : List Char) : parts (a ++ '/' :: b) = parts a ++ parts b := by
  rw [parts, splitSlash_append, List.filter_append, List.map_append]
  rfl

/-- The last piece ends with whatever follows the last `/`. -/
theorem splitSlash_append_plain (b : List Char) {tail : List Char} (plain : '/' ∉ tail) :
    ∃ before last, splitSlash (b ++ tail) = before ++ [last ++ tail] := by
  induction b with
  | nil => exact ⟨[], [], by simp [splitSlash_of_not_mem plain]⟩
  | cons c rest ih =>
      obtain ⟨before, last, split⟩ := ih
      by_cases slash : c = '/'
      · exact ⟨[] :: before, last, by simp [splitSlash, slash, split]⟩
      · cases before with
        | nil => exact ⟨[], c :: last, by simp [splitSlash, slash, split]⟩
        | cons piece pieces => exact ⟨(c :: piece) :: pieces, last, by simp [splitSlash, slash, split]⟩

theorem joined_of_relative {dir : Path} {text : List Char} (relative : text.head? ≠ some '/') :
    joined dir text = dir.map .into ++ parts text := by
  simp [joined, relative]

theorem not_mem_of_mem_splitSlash {cs piece : List Char} (mem : piece ∈ splitSlash cs) :
    '/' ∉ piece := by
  induction cs generalizing piece with
  | nil =>
      simp only [splitSlash, List.mem_singleton] at mem
      simp [mem]
  | cons c rest ih =>
      simp only [splitSlash] at mem
      split at mem
      · rcases List.mem_cons.mp mem with rfl | later
        · exact List.not_mem_nil
        · exact ih later
      · rename_i other
        split at mem
        · rw [List.mem_singleton.mp mem]
          simp [Ne.symm other]
        · rename_i first others split
          rcases List.mem_cons.mp mem with rfl | later
          · have := ih (split ▸ List.mem_cons_self : first ∈ splitSlash rest)
            simp [this, Ne.symm other]
          · exact ih (split ▸ List.mem_cons_of_mem _ later)

/-- A text that is its own file name has no `/`. -/
theorem plain_of_fileName {text : List Char} (flat : fileName text = String.ofList text) :
    '/' ∉ text := by
  have chars : (fileName text).toList = text := by rw [flat, String.toList_ofList]
  rw [← chars]
  unfold fileName parts
  split
  · rename_i name last
    obtain ⟨piece, mem, same⟩ := List.mem_map.mp (List.mem_of_getLast? last)
    unfold hopOf at same
    split at same
    · cases same
    · cases same
      rw [String.toList_ofList]
      exact not_mem_of_mem_splitSlash (List.mem_filter.mp mem).1
  · decide
  · decide

theorem parts_of_plain {text : List Char} (plain : '/' ∉ text) (kept : proper text = true)
    (name : text ≠ ['.', '.']) : parts text = [.into (String.ofList text)] := by
  simp [parts, splitSlash_of_not_mem plain, kept, hopOf, name]

/-- A proper last piece stays the last component. -/
theorem parts_append_plain (text : List Char) {tail : List Char} (plain : '/' ∉ tail)
    (kept : ∀ more, proper (more ++ tail) = true) (name : ∀ more, more ++ tail ≠ ['.', '.']) :
    ∃ front last, parts (text ++ tail) = front ++ [.into (String.ofList (last ++ tail))] := by
  obtain ⟨before, last, split⟩ := splitSlash_append_plain text plain
  refine ⟨(before.filter proper).map hopOf, last, ?_⟩
  simp [parts, split, kept, hopOf, name]

/-- Two proper pieces around a `/` stay two components. -/
theorem two_le_length_parts {head middle tail : List Char} (plainHead : '/' ∉ head)
    (properHead : ∀ more, proper (head ++ more) = true) (slash : '/' ∈ middle)
    (plainTail : '/' ∉ tail) (properTail : ∀ more, proper (more ++ tail) = true) :
    2 ≤ (parts (head ++ middle ++ tail)).length := by
  obtain ⟨a, b, rfl, plain⟩ := List.eq_append_cons_of_mem slash
  have first : '/' ∉ head ++ a := by simp [plainHead, plain]
  obtain ⟨before, last, split⟩ := splitSlash_append_plain b plainTail
  have whole : splitSlash (head ++ (a ++ '/' :: b) ++ tail) =
      (head ++ a) :: (before ++ [last ++ tail]) := by
    rw [← split, ← splitSlash_append_slash first]
    simp [List.append_assoc]
  rw [parts, whole]
  simp only [List.filter_cons, properHead, if_true, List.filter_append, properTail, List.filter_nil,
    List.map_cons, List.map_append, List.length_cons, List.length_append, List.length_map]
  simp

/-! ## Legal names -/

theorem utf8ByteSize_ofList {cs : List Char} (ascii : ∀ c ∈ cs, c.utf8Size = 1) :
    (String.ofList cs).utf8ByteSize = cs.length := by
  induction cs with
  | nil => rfl
  | cons c rest ih =>
      have split : String.ofList (c :: rest) = String.singleton c ++ String.ofList rest := by
        rw [← String.toList_inj]
        simp
      rw [split, String.utf8ByteSize_append, String.utf8ByteSize_singleton,
        ih fun d mem => ascii d (List.mem_cons_of_mem c mem), ascii c List.mem_cons_self,
        List.length_cons, Nat.add_comm]

/-- A short text of printable ASCII is a legal name. -/
theorem legalName_of_ascii {cs : List Char} (short : cs.length ≤ nameMax)
    (ascii : ∀ c ∈ cs, c.utf8Size = 1 ∧ c ≠ Char.ofNat 0) : legalName (String.ofList cs) = true := by
  have size := utf8ByteSize_ofList fun c mem => (ascii c mem).1
  have clean : Char.ofNat 0 ∉ cs := fun mem => (ascii _ mem).2 rfl
  simp [legalName, size, short, clean]

end KoyuRuntime.Host
