/-
# Services.InboxProtocol.Directory — what lies in the directory, and whose it is

Three kinds of names tell everything apart: a hidden name ends in ".tmp" and is never
listed, a public name ends in ".json", and both contain the stem.  So the directory
holds exactly the hidden files of the calls that are writing or died writing, cut
anywhere, and the public files of the calls in `files`, each complete.
-/
import KoyuRuntime.Host.Decimal
import KoyuRuntime.Services.InboxProtocol.Steps
import KoyuRuntime.Theory.Positions

namespace KoyuRuntime.Services.InboxProtocol

open Host Theory

set_option autoImplicit false

/-! ## Names -/

namespace Call

theorem fileName_inj {c d : Call} (same : c.fileName = d.fileName) : c.stem = d.stem := by
  have chars := congrArg String.toList same
  simp only [fileName, String.toList_append] at chars
  exact String.toList_inj.mp (List.append_cancel_right chars)

theorem tmpName_inj {c d : Call} (same : c.tmpName = d.tmpName) : c.stem = d.stem := by
  have chars := congrArg String.toList same
  simp only [tmpName, String.toList_append] at chars
  exact String.toList_inj.mp (List.append_cancel_left (List.append_cancel_right chars))

theorem jsonFile_fileName (c : Call) : jsonFile c.fileName = true := by
  rw [jsonFile, fileName, String.toList_append, decide_eq_true_iff]
  exact List.suffix_append _ _

/-- A hidden file is not listed. -/
theorem jsonFile_tmpName (c : Call) : jsonFile c.tmpName = false := by
  rw [jsonFile, tmpName, String.toList_append, decide_eq_false_iff_not]
  intro listed
  obtain ⟨front, same⟩ := listed
  have last := congrArg List.getLast? same
  have json : ".json".toList = ['.', 'j', 's', 'o', 'n'] := rfl
  have tmp : ".tmp".toList = ['.', 't', 'm', 'p'] := rfl
  rw [json, tmp, List.getLast?_append_of_ne_nil _ (by simp),
    List.getLast?_append_of_ne_nil _ (by simp)] at last
  exact absurd last (by decide)

theorem tmpName_ne_fileName (c d : Call) : c.tmpName ≠ d.fileName := by
  intro same
  have listed := jsonFile_fileName d
  rw [← same, jsonFile_tmpName] at listed
  cases listed

/-- **The name order is the clock's**, among clocks of one width. -/
theorem fileName_lt {c d : Call} (width : (toString c.time).length = (toString d.time).length)
    (earlier : c.time < d.time) : c.fileName < d.fileName := by
  have digits : (Nat.toDigits 10 c.time).length = (Nat.toDigits 10 d.time).length := by
    rw [← String.length_toList, ← String.length_toList] at width
    simpa only [Nat.toString_eq_ofList_toDigits, String.toList_ofList] using width
  show c.fileName.toList < d.fileName.toList
  simp only [fileName, stem, String.toList_append, Nat.toString_eq_ofList_toDigits,
    String.toList_ofList, List.append_assoc]
  exact lt_append digits (toDigits_lt digits earlier) _ _

end Call

/-! ## The directory -/

/-- Hidden files: whatever part of its text a call has written. -/
def Hidden (codec : Codec) (calls : List Submission) (name : String) (text : List Char) : Prop :=
  ∃ (k : Nat) (sub : Submission) (chars : Nat), calls[k]? = some sub ∧ sub.phase = .writing chars ∧
    name = sub.call.tmpName ∧ text = (codec.dumps sub.call.req).take chars

/-- Public files: the whole text. -/
def Public (codec : Codec) (files : List Call) (name : String) (text : List Char) : Prop :=
  ∃ c ∈ files, name = c.fileName ∧ text = codec.dumps c.req

def OnDisk (codec : Codec) (s : State) (files : List Call) : Prop :=
  ∀ name text, s.dir.get? name = some text ↔
    Hidden codec s.calls name text ∨ Public codec files name text

/-- No two calls have one stem. -/
def Apart (calls : List Submission) : Prop :=
  ∀ (i j : Nat) (a b : Submission), calls[i]? = some a → calls[j]? = some b → a.call.stem = b.call.stem → i = j

section Directory

variable {codec : Codec} {s : State} {calls : List Submission} {files : List Call} {k : Nat}
  {sub : Submission}

/-- A step of one call leaves the hidden files of the others alone. -/
theorem hidden_set (new : Submission) {name : String} {text : List Char}
    (found : calls[k]? = some sub) (call : new.call = sub.call)
    (other : name ≠ sub.call.tmpName) :
    Hidden codec (calls.set k new) name text ↔ Hidden codec calls name text := by
  constructor
  · rintro ⟨i, x, chars, at_, phase, rfl, same⟩
    rcases set_cases at_ with ⟨-, rfl⟩ | ⟨-, before⟩
    · exact absurd (congrArg Call.tmpName call) other
    · exact ⟨i, x, chars, before, phase, rfl, same⟩
  · rintro ⟨i, x, chars, at_, phase, rfl, same⟩
    have ne : k ≠ i := by
      intro eq
      subst eq
      rw [found] at at_
      cases at_
      exact other rfl
    exact ⟨i, x, chars, by rw [List.getElem?_set_ne ne]; exact at_, phase, rfl, same⟩

/-- The call a hidden file belongs to is the one whose name it has. -/
theorem hidden_tmpName (apart : Apart calls) (found : calls[k]? = some sub) {text : List Char}
    (hidden : Hidden codec calls sub.call.tmpName text) :
    ∃ chars, sub.phase = .writing chars ∧ text = (codec.dumps sub.call.req).take chars := by
  obtain ⟨i, x, chars, at_, phase, same, rfl⟩ := hidden
  have eq : k = i := apart k i sub x found at_ (Call.tmpName_inj same)
  subst eq
  rw [found] at at_
  cases at_
  exact ⟨chars, phase, rfl⟩

theorem not_public_tmpName (c : Call) (text : List Char) : ¬ Public codec files c.tmpName text := by
  rintro ⟨d, -, same, -⟩
  exact Call.tmpName_ne_fileName c d same

theorem not_hidden_fileName (calls : List Submission) (c : Call) (text : List Char) :
    ¬ Hidden codec calls c.fileName text := by
  rintro ⟨i, x, chars, -, -, same, -⟩
  exact Call.tmpName_ne_fileName x.call c same.symm

theorem apart_set (new : Submission) (apart : Apart calls)
    (found : calls[k]? = some sub) (call : new.call = sub.call) : Apart (calls.set k new) := by
  intro i j a b atI atJ same
  rcases set_cases atI with ⟨rfl, rfl⟩ | ⟨-, beforeI⟩
  · rcases set_cases atJ with ⟨rfl, -⟩ | ⟨-, beforeJ⟩
    · rfl
    · exact apart i j sub b found beforeJ (call ▸ same)
  · rcases set_cases atJ with ⟨rfl, rfl⟩ | ⟨-, beforeJ⟩
    · exact apart i j a sub beforeI found (call ▸ same)
    · exact apart i j a b beforeI beforeJ same

theorem onDisk_wrote (disk : OnDisk codec s files) (apart : Apart s.calls)
    (found : s.calls[k]? = some sub) (chars : Nat) : OnDisk codec (s.wrote codec k sub chars) files := by
  intro name text
  show (s.dir.set _ _).get? name = some text ↔ Hidden codec (s.calls.set k _) name text ∨ _
  have here := set_at { sub with phase := .writing chars } found
  rw [OrderedDict.get?_set]
  by_cases same : sub.call.tmpName = name
  · subst same
    rw [if_pos rfl]
    constructor
    · intro eq
      exact Or.inl ⟨k, _, chars, here, rfl, rfl, (Option.some.inj eq).symm⟩
    · rintro (hidden | isPublic)
      · have apart' := apart_set { sub with phase := .writing chars } apart found rfl
        obtain ⟨chars', phase, rfl⟩ := hidden_tmpName apart' here hidden
        cases phase
        rfl
      · exact absurd isPublic (not_public_tmpName _ _)
  · rw [if_neg same, disk, hidden_set { sub with phase := .writing chars } found rfl
      (Ne.symm same)]

/-- A whole text becomes public at once. -/
theorem onDisk_renamed {text : List Char} (disk : OnDisk codec s files) (apart : Apart s.calls)
    (found : s.calls[k]? = some sub)
    (complete : sub.phase = .writing (codec.dumps sub.call.req).length)
    (there : s.dir.get? sub.call.tmpName = some text)
    (fresh : ∀ c ∈ files, c.stem ≠ sub.call.stem) :
    OnDisk codec
      { s with
        dir := (s.dir.erase sub.call.tmpName).set sub.call.fileName text
        calls := s.calls.set k { sub with phase := .published }
        published := s.published ++ [sub.call] } (files ++ [sub.call]) := by
  have whole : text = codec.dumps sub.call.req := by
    rcases (disk _ _).mp there with hidden | isPublic
    · obtain ⟨chars, phase, rfl⟩ := hidden_tmpName apart found hidden
      rw [complete] at phase
      cases phase
      exact List.take_length
    · exact absurd isPublic (not_public_tmpName _ _)
  have here := set_at { sub with phase := .published } found
  intro name text'
  show OrderedDict.get? (OrderedDict.set _ _ _) name = some text' ↔
    Hidden codec (s.calls.set k _) name text' ∨ _
  rw [OrderedDict.get?_set, OrderedDict.get?_erase]
  by_cases file : sub.call.fileName = name
  · subst file
    rw [if_pos rfl]
    constructor
    · intro eq
      cases eq
      exact Or.inr ⟨sub.call, by simp, rfl, whole⟩
    · rintro (hidden | ⟨c, mem, same, rfl⟩)
      · exact absurd hidden (not_hidden_fileName _ _ _)
      · rcases List.mem_append.mp mem with old | new
        · exact absurd (Call.fileName_inj same).symm (fresh c old)
        · rw [List.mem_singleton.mp new, whole]
  · rw [if_neg file]
    by_cases tmp : sub.call.tmpName = name
    · subst tmp
      rw [if_pos rfl]
      constructor
      · intro eq
        cases eq
      · rintro (hidden | isPublic)
        · have apart' := apart_set { sub with phase := .published } apart found rfl
          obtain ⟨chars, phase, -⟩ := hidden_tmpName apart' here hidden
          cases phase
        · exact absurd isPublic (not_public_tmpName _ _)
    · rw [if_neg tmp, disk, hidden_set { sub with phase := .published } found rfl
        (Ne.symm tmp)]
      apply or_congr_right
      constructor
      · rintro ⟨c, mem, rest⟩
        exact ⟨c, List.mem_append_left _ mem, rest⟩
      · rintro ⟨c, mem, rfl, rest⟩
        rcases List.mem_append.mp mem with old | new
        · exact ⟨c, old, rfl, rest⟩
        · rw [List.mem_singleton.mp new] at file
          exact absurd rfl file

theorem onDisk_stamped (disk : OnDisk codec s files) (c : Call) (overlaps : List Call) :
    OnDisk codec { s with calls := s.calls ++ [⟨c, .stamped, true, overlaps⟩] } files := by
  intro name text
  rw [disk name text]
  apply or_congr_left
  constructor
  · rintro ⟨i, x, chars, at_, rest⟩
    exact ⟨i, x, chars, snoc_iff.mpr (.inl at_), rest⟩
  · rintro ⟨i, x, chars, at_, phase, rest⟩
    rcases snoc_iff.mp at_ with old | ⟨-, rfl⟩
    · exact ⟨i, x, chars, old, phase, rest⟩
    · -- the new call has written nothing
      cases phase

theorem onDisk_died (disk : OnDisk codec s files) (found : s.calls[k]? = some sub) :
    OnDisk codec { s with calls := s.calls.set k { sub with alive := false } } files := by
  intro name text
  rw [disk name text]
  apply or_congr_left
  constructor
  · rintro ⟨i, x, chars, at_, rest⟩
    by_cases same : k = i
    · subst same
      rw [found] at at_
      cases at_
      exact ⟨k, _, chars, set_at _ found, rest⟩
    · exact ⟨i, x, chars, by rw [List.getElem?_set_ne same]; exact at_, rest⟩
  · rintro ⟨i, x, chars, at_, rest⟩
    rcases set_cases at_ with ⟨rfl, rfl⟩ | ⟨-, before⟩
    · exact ⟨i, sub, chars, found, rest⟩
    · exact ⟨i, x, chars, before, rest⟩

theorem onDisk_unlinked {c : Call} (disk : OnDisk codec s (c :: files))
    (distinct : ((c :: files).map Call.stem).Nodup) (owner : Option Draining) :
    OnDisk codec { s with dir := s.dir.erase c.fileName, owner := owner } files := by
  rw [List.map_cons, List.nodup_cons] at distinct
  intro name text
  show (s.dir.erase c.fileName).get? name = some text ↔ Hidden codec s.calls name text ∨ _
  rw [OrderedDict.get?_erase]
  by_cases same : c.fileName = name
  · subst same
    rw [if_pos rfl]
    constructor
    · intro eq
      cases eq
    · rintro (hidden | ⟨d, mem, eq, -⟩)
      · exact absurd hidden (not_hidden_fileName _ _ _)
      · rw [Call.fileName_inj eq] at distinct
        exact absurd (List.mem_map_of_mem mem) distinct.1
  · rw [if_neg same, disk]
    apply or_congr_right
    constructor
    · rintro ⟨d, mem, rfl, rest⟩
      rcases List.mem_cons.mp mem with rfl | later
      · exact absurd rfl same
      · exact ⟨d, later, rfl, rest⟩
    · rintro ⟨d, mem, rest⟩
      exact ⟨d, List.mem_cons_of_mem _ mem, rest⟩

end Directory

end KoyuRuntime.Services.InboxProtocol
