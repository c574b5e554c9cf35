/-
# Theory.OrderedChecks — a validator as a list of checks

A validator goes through its checks in order and stops at the first that is not passed.
Each check is `fine`, or refused, or it `trips`: the error it ends in is then a `bad` one,
not the validator's own.

`Follows x cs` says that `x` is such a run over `cs`: it returns exactly if every check is
fine, and ends in a bad error exactly if the first check that is not fine trips
(`TripsFirst`).

* `Follows.bind`: one run after the other follows one list after the other.
* `Follows.passed`, `Follows.failed`: one check.
-/
import KoyuRuntime.Theory.Raising

namespace KoyuRuntime.Theory

set_option autoImplicit false

universe u v

variable {C : Type v} {ε α β : Type u}

/-- The first check that is not fine trips. -/
def TripsFirst (fine trips : C → Prop) : List C → Prop
  | [] => False
  | c :: rest => trips c ∨ (fine c ∧ TripsFirst fine trips rest)

section Order

variable {fine trips : C → Prop}

theorem tripsFirst_append {cs ds : List C} :
    TripsFirst fine trips (cs ++ ds) ↔
      TripsFirst fine trips cs ∨ ((∀ c ∈ cs, fine c) ∧ TripsFirst fine trips ds) := by
  induction cs with
  | nil => simp [TripsFirst]
  | cons c rest ih =>
      simp only [List.cons_append, TripsFirst, ih, List.forall_mem_cons, and_or_left, or_assoc, and_assoc]

/-- Somewhere in the list, with everything before it fine. -/
theorem tripsFirst_iff {cs : List C} :
    TripsFirst fine trips cs ↔
      ∃ before c after, cs = before ++ c :: after ∧ (∀ b ∈ before, fine b) ∧ trips c := by
  constructor
  · intro trip
    induction cs with
    | nil => cases trip
    | cons c rest ih =>
        rcases trip with here | ⟨passed, later⟩
        · exact ⟨[], c, rest, rfl, by simp, here⟩
        · obtain ⟨before, d, after, rfl, all, trip⟩ := ih later
          exact ⟨c :: before, d, after, rfl, List.forall_mem_cons.mpr ⟨passed, all⟩, trip⟩
  · rintro ⟨before, c, after, rfl, all, trip⟩
    exact tripsFirst_append.mpr (.inr ⟨all, .inl trip⟩)

end Order

/-- A run over the checks, in order. -/
structure Follows (fine trips : C → Prop) (bad : ε → Prop) (x : Except ε α) (cs : List C) : Prop where
  ok : (∃ a, x = .ok a) ↔ ∀ c ∈ cs, fine c
  raises : (∃ e, x = .error e ∧ bad e) ↔ TripsFirst fine trips cs

namespace Follows

variable {fine trips : C → Prop} {bad : ε → Prop} {x : Except ε α} {k : α → Except ε β} {cs ds : List C} {c : C}

theorem pure (a : α) : Follows fine trips bad (.ok a) [] :=
  ⟨iff_of_true ⟨a, rfl⟩ (by simp), by simp [TripsFirst]⟩

/-- A check that is passed. -/
theorem passed (holds : fine c) (clear : ¬ trips c) (rest : Follows fine trips bad x cs) :
    Follows fine trips bad x (c :: cs) := by
  refine ⟨?_, ?_⟩
  · rw [rest.ok, List.forall_mem_cons, and_iff_right holds]
  · rw [rest.raises, TripsFirst, or_iff_right clear, and_iff_right holds]

/-- A check that is not. -/
theorem failed {e : ε} (fails : ¬ fine c) (same : bad e ↔ trips c) :
    Follows fine trips bad (.error e : Except ε α) (c :: cs) := by
  refine ⟨iff_of_false (by simp) (fun all => fails (all c List.mem_cons_self)), ?_⟩
  simp [TripsFirst, fails, same]

/-- **One after the other.** -/
theorem bind (first : Follows fine trips bad x cs)
    (later : ∀ a, x = .ok a → Follows fine trips bad (k a) ds) :
    Follows fine trips bad (x >>= k) (cs ++ ds) := by
  have parts : (∀ c ∈ cs ++ ds, fine c) ↔ (∀ c ∈ cs, fine c) ∧ ∀ c ∈ ds, fine c := by
    simp only [List.mem_append, or_imp, forall_and]
  cases x with
  | error e =>
      have failed : ¬ ∀ c ∈ cs, fine c := by simpa using first.ok
      refine ⟨iff_of_false (by rintro ⟨b, ran⟩; cases ran) (fun all => failed (parts.mp all).1), ?_⟩
      rw [tripsFirst_append, ← first.raises, or_iff_left fun both => failed both.1]
      simp only [Bind.bind, Except.bind, Except.error.injEq]
  | ok a =>
      have passed : ∀ c ∈ cs, fine c := first.ok.mp ⟨a, rfl⟩
      have clear : ¬ TripsFirst fine trips cs := by
        rw [← first.raises]
        rintro ⟨e, ran, -⟩
        cases ran
      have next := later a rfl
      refine ⟨?_, ?_⟩
      · rw [parts, and_iff_right passed]
        exact next.ok
      · rw [tripsFirst_append, or_iff_right clear, and_iff_right passed]
        exact next.raises

/-- What is made of a result at the end is no check. -/
theorem map (first : Follows fine trips bad x cs) (f : α → β) :
    Follows fine trips bad (x >>= fun a => .ok (f a)) cs := by
  have whole := first.bind (k := fun a => .ok (f a)) fun a _ => Follows.pure (f a)
  rwa [List.append_nil] at whole

end Follows

end KoyuRuntime.Theory
