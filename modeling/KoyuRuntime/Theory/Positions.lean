/-
# Theory.Positions — what stands where in a list that is changed

Lists that only grow at their end, and whose entries are changed in place, keep the
numbers of their entries.
-/
import Mathlib.Data.List.Basic

namespace KoyuRuntime.Theory

set_option autoImplicit false

universe u

variable {α : Type u} {l : List α} {i k : Nat} {x : α}

theorem lt_of_at (here : l[i]? = some x) : i < l.length := (List.getElem?_eq_some_iff.mp here).1

/-- An entry after one was replaced. -/
theorem set_cases {new : α} (found : (l.set k new)[i]? = some x) :
    (i = k ∧ x = new) ∨ (i ≠ k ∧ l[i]? = some x) := by
  rw [List.getElem?_set] at found
  by_cases same : k = i
  · rw [if_pos same] at found
    split at found
    · exact Or.inl ⟨same.symm, (Option.some.inj found).symm⟩
    · cases found
  · rw [if_neg same] at found
    exact Or.inr ⟨Ne.symm same, found⟩

theorem set_at (new : α) (found : l[k]? = some x) : (l.set k new)[k]? = some new :=
  List.getElem?_set_self (lt_of_at found)

/-- An entry after one was changed: the changed one, or one that was there. -/
theorem modify_cases {f : α → α} {y : α} (found : (l.modify k f)[i]? = some y) :
    ∃ x, l[i]? = some x ∧ (k = i ∧ y = f x ∨ k ≠ i ∧ y = x) := by
  rw [List.getElem?_modify] at found
  obtain ⟨x, here, same⟩ := Option.map_eq_some_iff.mp found
  refine ⟨x, here, ?_⟩
  by_cases changed : k = i
  · rw [if_pos changed] at same
    exact .inl ⟨changed, same.symm⟩
  · rw [if_neg changed] at same
    exact .inr ⟨changed, same.symm⟩

theorem modify_at (here : l[i]? = some x) (k : Nat) (f : α → α) :
    (l.modify k f)[i]? = some (if k = i then f x else x) := by
  rw [List.getElem?_modify, here]
  split <;> rfl

/-- An entry after one was added. -/
theorem snoc_iff {new : α} : (l ++ [new])[i]? = some x ↔ l[i]? = some x ∨ i = l.length ∧ x = new := by
  by_cases inside : i < l.length
  · rw [List.getElem?_append_left inside]
    exact ⟨.inl, fun h => h.elim id fun last => absurd last.1 (Nat.ne_of_lt inside)⟩
  · have none_ : l[i]? = none := List.getElem?_eq_none (Nat.le_of_not_lt inside)
    rw [List.getElem?_append_right (Nat.le_of_not_lt inside), none_, List.getElem?_singleton]
    by_cases last : i = l.length
    · simp [last, eq_comm]
    · have later : i - l.length ≠ 0 := by omega
      simp [last, later]

end KoyuRuntime.Theory
