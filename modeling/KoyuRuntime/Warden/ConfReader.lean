/-
# Warden.ConfReader — how supervisord reads a value of the conf

A value ends with its line.  `expand` undoes the percent escapes: `%%` is a percent sign
and `%(here)s` the directory of the conf.

* `expand_ok_iff`: the expansions that succeed, as a relation on texts.
* `expand_double`: a doubled text expands to itself.
* `Expands.split`: an expansion goes piece by piece around a character no escape has.
* `mask_lt_of_percent`: with an absolute directory, an expansion changes every text that
  has a percent sign, and lowers it in an order.
* `firstLine_double`: where the line of a text ends does not change with the doubling.
-/
import KoyuRuntime.Warden.ConfGenerator
import Mathlib.Data.List.TakeWhile

namespace KoyuRuntime.Warden

open Host Theory

set_option autoImplicit false

/-- The expansion of a value; a percent sign that starts nothing known raises. -/
def expand (here : List Char) : List Char → Except Exn (List Char)
  | [] => .ok []
  | '%' :: '%' :: rest => do
      let later ← expand here rest
      pure ('%' :: later)
  | '%' :: '(' :: 'h' :: 'e' :: 'r' :: 'e' :: ')' :: 's' :: rest => do
      let later ← expand here rest
      pure (here ++ later)
  | '%' :: _ => .error .valueError
  | c :: rest => do
      let later ← expand here rest
      pure (c :: later)

/-- The text up to the end of its line. -/
def firstLine (text : List Char) : List Char := text.takeWhile fun c => c != '\n'

theorem expand_cons_of_ne (here : List Char) {c : Char} (ne : c ≠ '%') (rest : List Char) :
    expand here (c :: rest) = expand here rest >>= fun later => pure (c :: later) := by
  rw [expand]
  · intro more percent
    exact absurd percent ne
  · intro more percent
    exact absurd percent ne
  · intro percent
    exact absurd percent ne

theorem expand_double (here text : List Char) : expand here (double text) = .ok text := by
  induction text with
  | nil => rfl
  | cons c rest ih =>
      by_cases percent : c = '%'
      · rw [percent, double_percent, expand, ih]
        rfl
      · rw [double_cons_of_ne percent, expand_cons_of_ne here percent, ih]
        rfl

theorem firstLine_append_newline (text tail : List Char) :
    firstLine (text ++ '\n' :: tail) = firstLine text := by
  induction text with
  | nil => rfl
  | cons c rest ih =>
      unfold firstLine at ih ⊢
      rw [List.cons_append, List.takeWhile_cons, List.takeWhile_cons, ih]

theorem firstLine_double (text : List Char) : firstLine (double text) = double (firstLine text) := by
  induction text with
  | nil => rfl
  | cons c rest ih =>
      unfold firstLine at ih ⊢
      by_cases percent : c = '%'
      · rw [percent, double_percent]
        simp [ih, double_percent]
      · rw [double_cons_of_ne percent, List.takeWhile_cons, List.takeWhile_cons, ih]
        split
        · exact (double_cons_of_ne percent _).symm
        · rfl

theorem firstLine_length_le (text : List Char) : (firstLine text).length ≤ text.length :=
  (List.takeWhile_sublist _).length_le

theorem firstLine_of_not_mem {text : List Char} (one : '\n' ∉ text) : firstLine text = text := by
  apply List.takeWhile_eq_self_iff.mpr
  intro c mem
  show (c != '\n') = true
  rw [bne_iff_ne]
  intro same
  exact one (same ▸ mem)

theorem firstLine_append_of_mem {text : List Char} (more : '\n' ∈ text) (tail : List Char) :
    firstLine (text ++ tail) = firstLine text := by
  obtain ⟨line, rest, rfl, -⟩ := List.eq_append_cons_of_mem more
  rw [List.append_assoc, List.cons_append, firstLine_append_newline, firstLine_append_newline]

theorem firstLine_append_of_not_mem {text : List Char} (one : '\n' ∉ text) (tail : List Char) :
    firstLine (text ++ tail) = text ++ firstLine tail := by
  apply List.takeWhile_append_of_pos
  intro c mem
  rw [bne_iff_ne]
  intro same
  exact one (same ▸ mem)

theorem firstLine_cons_of_ne {c : Char} (ne : c ≠ '\n') (rest : List Char) :
    firstLine (c :: rest) = c :: firstLine rest := by
  have one : '\n' ∉ [c] := by simpa using Ne.symm ne
  exact firstLine_append_of_not_mem one rest

theorem mem_of_mem_firstLine {text : List Char} {c : Char} (mem : c ∈ firstLine text) : c ∈ text :=
  (List.takeWhile_sublist _).mem mem

/-! ## Expansions that succeed -/

/-- The escape for the directory of the conf. -/
def hereToken : List Char := ['%', '(', 'h', 'e', 'r', 'e', ')', 's']

/-- The text expands to another. -/
inductive Expands (here : List Char) : List Char → List Char → Prop where
  | nil : Expands here [] []
  | percent {rest later : List Char} :
      Expands here rest later → Expands here ('%' :: '%' :: rest) ('%' :: later)
  | here {rest later : List Char} :
      Expands here rest later → Expands here (hereToken ++ rest) (here ++ later)
  | plain {c : Char} {rest later : List Char} :
      c ≠ '%' → Expands here rest later → Expands here (c :: rest) (c :: later)

section Expands

variable {here text out : List Char}

theorem expands_of_expand (done : expand here text = .ok out) : Expands here text out := by
  induction text using expand.induct generalizing out with
  | case1 =>
      cases done
      exact .nil
  | case2 rest ih =>
      rw [expand] at done
      obtain ⟨later, expanded, same⟩ := except_bind_ok_iff.mp done
      cases same
      exact .percent (ih expanded)
  | case3 rest ih =>
      rw [expand] at done
      obtain ⟨later, expanded, same⟩ := except_bind_ok_iff.mp done
      cases same
      exact .here (ih expanded)
  | case4 rest noPercent noHere =>
      rw [expand] at done
      · cases done
      · exact noPercent
      · exact noHere
  | case5 c rest _ _ other ih =>
      have ne : c ≠ '%' := fun percent => other percent
      rw [expand_cons_of_ne here ne] at done
      obtain ⟨later, expanded, same⟩ := except_bind_ok_iff.mp done
      cases same
      exact .plain ne (ih expanded)

theorem Expands.expand (expands : Expands here text out) : expand here text = .ok out := by
  induction expands with
  | nil => rfl
  | percent _ ih =>
      rw [Warden.expand, ih]
      rfl
  | @here rest later _ ih =>
      show Warden.expand here ('%' :: '(' :: 'h' :: 'e' :: 'r' :: 'e' :: ')' :: 's' :: rest) = _
      rw [Warden.expand, ih]
      rfl
  | plain ne _ ih =>
      rw [expand_cons_of_ne here ne, ih]
      rfl

theorem expand_ok_iff : expand here text = .ok out ↔ Expands here text out :=
  ⟨expands_of_expand, Expands.expand⟩

theorem expands_double (here text : List Char) : Expands here (double text) text :=
  expands_of_expand (expand_double here text)

theorem expands_self {text : List Char} (none_ : '%' ∉ text) : Expands here text text := by
  induction text with
  | nil => exact .nil
  | cons c rest ih =>
      rw [List.mem_cons, not_or] at none_
      exact .plain (Ne.symm none_.1) (ih none_.2)

theorem Expands.unique {other : List Char} (one : Expands here text out)
    (two : Expands here text other) : out = other :=
  Except.ok.inj (one.expand.symm.trans two.expand)

theorem Expands.append {more later : List Char} (first : Expands here text out)
    (second : Expands here more later) : Expands here (text ++ more) (out ++ later) := by
  induction first with
  | nil => exact second
  | percent _ ih => exact .percent ih
  | here _ ih =>
      rw [List.append_assoc, List.append_assoc]
      exact .here ih
  | plain ne _ ih => exact .plain ne ih

/-- What comes out was in the text or is of the directory. -/
theorem Expands.mem (expands : Expands here text out) {c : Char} (mem : c ∈ out) :
    c ∈ text ∨ c ∈ here := by
  induction expands with
  | nil => exact Or.inl mem
  | percent _ ih =>
      rcases List.mem_cons.mp mem with rfl | later
      · exact Or.inl List.mem_cons_self
      · rcases ih later with inRest | inHere
        · exact Or.inl (List.mem_cons_of_mem _ (List.mem_cons_of_mem _ inRest))
        · exact Or.inr inHere
  | here _ ih =>
      rcases List.mem_append.mp mem with inHere | later
      · exact Or.inr inHere
      · rcases ih later with inRest | inHere
        · exact Or.inl (List.mem_append_right _ inRest)
        · exact Or.inr inHere
  | plain _ _ ih =>
      rcases List.mem_cons.mp mem with rfl | later
      · exact Or.inl List.mem_cons_self
      · rcases ih later with inRest | inHere
        · exact Or.inl (List.mem_cons_of_mem _ inRest)
        · exact Or.inr inHere

/-- Whether a text expands does not depend on the directory. -/
theorem Expands.elsewhere (expands : Expands here text out) (there : List Char) :
    ∃ other, Expands there text other := by
  induction expands with
  | nil => exact ⟨[], .nil⟩
  | percent _ ih =>
      obtain ⟨later, rest⟩ := ih
      exact ⟨_, .percent rest⟩
  | here _ ih =>
      obtain ⟨later, rest⟩ := ih
      exact ⟨_, .here rest⟩
  | plain ne _ ih =>
      obtain ⟨later, rest⟩ := ih
      exact ⟨_, .plain ne rest⟩

theorem expands_cons_iff {c : Char} (ne : c ≠ '%') {rest out : List Char} :
    Expands here (c :: rest) out ↔ ∃ later, out = c :: later ∧ Expands here rest later := by
  rw [← expand_ok_iff, expand_cons_of_ne here ne, except_bind_ok_iff]
  constructor
  · rintro ⟨later, expanded, same⟩
    cases same
    exact ⟨later, rfl, expands_of_expand expanded⟩
  · rintro ⟨later, rfl, expands⟩
    exact ⟨later, expands.expand, rfl⟩

/-- No escape goes across a character that none has. -/
theorem Expands.split {a rest : List Char} {c : Char} (stop : c ∉ hereToken)
    (expands : Expands here (a ++ c :: rest) out) :
    ∃ x y, Expands here a x ∧ Expands here rest y ∧ out = x ++ c :: y := by
  have ne : c ≠ '%' := by
    rintro rfl
    exact stop (by decide)
  generalize whole : a ++ c :: rest = text at expands
  induction expands generalizing a with
  | nil => simp at whole
  | @percent more later expands ih =>
      obtain ⟨-, same⟩ | ⟨a', rfl, same⟩ := List.append_eq_cons_iff.mp whole
      · cases same
        exact absurd rfl ne
      · obtain ⟨-, next⟩ | ⟨a'', rfl, next⟩ := List.append_eq_cons_iff.mp same.symm
        · cases next
          exact absurd rfl ne
        · obtain ⟨x, y, before, after, rfl⟩ := ih next.symm
          exact ⟨'%' :: x, y, .percent before, after, rfl⟩
  | @here more later expands ih =>
      rcases List.append_eq_append_iff.mp whole with ⟨tail, token, same⟩ | ⟨tail, rfl, same⟩
      · cases tail with
        | nil =>
            rw [List.append_nil] at token
            subst token
            obtain ⟨x, y, before, after, rfl⟩ := ih (a := []) same
            refine ⟨_, y, ?_, after, (List.append_assoc _ _ _).symm⟩
            exact List.append_nil hereToken ▸ Expands.here before
        | cons d tail =>
            cases same
            exact absurd (token ▸ List.mem_append_right a List.mem_cons_self) stop
      · obtain ⟨x, y, before, after, rfl⟩ := ih same.symm
        exact ⟨_, y, .here before, after, (List.append_assoc _ _ _).symm⟩
  | @plain d more later other expands ih =>
      obtain ⟨rfl, same⟩ | ⟨a', rfl, same⟩ := List.append_eq_cons_iff.mp whole
      · cases same
        exact ⟨[], later, .nil, expands, rfl⟩
      · obtain ⟨x, y, before, after, rfl⟩ := ih same.symm
        exact ⟨d :: x, y, .plain other before, after, rfl⟩

/-! ## What an expansion does to percent signs -/

/-- Where the percent signs of a text stand. -/
def mask (text : List Char) : List Nat := text.map fun c => if c = '%' then 1 else 0

theorem mask_cons_percent (rest : List Char) : mask ('%' :: rest) = 1 :: mask rest := rfl

theorem mask_cons_of_ne {c : Char} (ne : c ≠ '%') (rest : List Char) :
    mask (c :: rest) = 0 :: mask rest := by
  simp [mask, ne]

theorem replicate_append_cons (n : Nat) (rest : List Nat) :
    List.replicate n 1 ++ 1 :: rest = List.replicate (n + 1) 1 ++ rest := by
  rw [List.replicate_succ', List.append_assoc]
  rfl

-- a directory that starts with a slash
variable {slash : List Char}

/-- One more percent sign in front is more than an expansion can keep. -/
theorem Expands.mask_lt (expands : Expands ('/' :: slash) text out) (n : Nat) :
    mask out < List.replicate (n + 1) 1 ++ mask text := by
  induction expands generalizing n with
  | nil => exact List.nil_lt_cons _ _
  | @percent rest later _ ih =>
      rw [mask_cons_percent, mask_cons_percent, mask_cons_percent, replicate_append_cons,
        replicate_append_cons, List.replicate_succ, List.cons_append, List.cons_lt_cons_iff]
      exact Or.inr ⟨rfl, ih (n + 1)⟩
  | here _ _ =>
      rw [List.cons_append, mask_cons_of_ne (by decide), List.replicate_succ, List.cons_append,
        List.cons_lt_cons_iff]
      exact Or.inl Nat.zero_lt_one
  | plain ne _ _ =>
      rw [mask_cons_of_ne ne, List.replicate_succ, List.cons_append, List.cons_lt_cons_iff]
      exact Or.inl Nat.zero_lt_one

/-- An expansion lowers every text with a percent sign in it: where they first differ,
the text has one and the expansion has not. -/
theorem mask_lt_of_percent (expands : Expands ('/' :: slash) text out) (some_ : '%' ∈ text) :
    mask out < mask text := by
  induction expands with
  | nil => cases some_
  | percent expands _ =>
      rw [mask_cons_percent, mask_cons_percent, List.cons_lt_cons_iff]
      exact Or.inr ⟨rfl, expands.mask_lt 0⟩
  | here _ _ =>
      rw [hereToken, List.cons_append, List.cons_append, mask_cons_of_ne (by decide),
        mask_cons_percent, List.cons_lt_cons_iff]
      exact Or.inl Nat.zero_lt_one
  | plain ne _ ih =>
      rw [mask_cons_of_ne ne, mask_cons_of_ne ne, List.cons_lt_cons_iff]
      refine Or.inr ⟨rfl, ih ?_⟩
      rcases List.mem_cons.mp some_ with percent | later
      · exact absurd percent.symm ne
      · exact later

/-- With an absolute directory only a text without a percent sign expands to itself. -/
theorem expands_self_iff : Expands ('/' :: slash) text text ↔ '%' ∉ text := by
  constructor
  · intro expands some_
    exact absurd (mask_lt_of_percent expands some_) (List.lt_irrefl _)
  · exact expands_self

end Expands

end KoyuRuntime.Warden
