/-
# Theory.Sift — selecting from a stream with a stateful test

`sift keep s l` folds a test that may remember something over a list and keeps
the items it accepts.  The fold composes along concatenation (`sift_append`),
so a stream processed in arbitrary pieces is selected exactly as if it had been
offered at once; the kept items are a sublist, in order (`sift_sublist`).
-/
import Mathlib.Data.List.Basic

namespace KoyuRuntime.Theory

set_option autoImplicit false

universe u v

variable {σ : Type u} {α : Type v}

/-- The items a stateful test accepts, and the state it ends in. -/
def sift (keep : σ → α → Bool × σ) : σ → List α → List α × σ
  | s, [] => ([], s)
  | s, a :: rest =>
      let later := sift keep (keep s a).2 rest
      (if (keep s a).1 then a :: later.1 else later.1, later.2)

variable (keep : σ → α → Bool × σ)

theorem sift_append (s : σ) (l r : List α) :
    sift keep s (l ++ r) =
      ((sift keep s l).1 ++ (sift keep (sift keep s l).2 r).1,
        (sift keep (sift keep s l).2 r).2) := by
  induction l generalizing s with
  | nil => rfl
  | cons a rest ih =>
      simp only [List.cons_append, sift, ih]
      split <;> rfl

/-- One more item: the state moves, and the item joins the kept ones if accepted. -/
theorem sift_snoc (s : σ) (l : List α) (a : α) :
    sift keep s (l ++ [a]) =
      ((sift keep s l).1 ++ if (keep (sift keep s l).2 a).1 then [a] else [],
        (keep (sift keep s l).2 a).2) := by
  rw [sift_append]
  rfl

theorem sift_sublist (s : σ) (l : List α) : (sift keep s l).1.Sublist l := by
  induction l generalizing s with
  | nil => exact List.Sublist.slnil
  | cons a rest ih =>
      simp only [sift]
      split
      · exact (ih _).cons_cons a
      · exact (ih _).cons a

end KoyuRuntime.Theory
