/-
# Theory.BoundedQueue — queues that overflow by dropping their oldest item

A queue has a depth and never holds more items than that.  `push` at a full
queue drops from the front, so what is kept is always the newest `depth` items
of everything pushed (`keepLast`).

* `keepLast_append`: the newest items of a concatenation are the newest of its
  second part, preceded by a suffix of the first.
* `push_shadow`: a queue that holds extra items in front of another's keeps a
  suffix of those extras in front, whatever is pushed to both.
-/
import Mathlib.Data.List.Basic

namespace KoyuRuntime.Theory

set_option autoImplicit false

universe u

/-- The newest `n` items of a list. -/
def keepLast {α : Type u} (n : Nat) (l : List α) : List α := l.drop (l.length - n)

section KeepLast

variable {α : Type u}

theorem length_keepLast_le (n : Nat) (l : List α) : (keepLast n l).length ≤ n := by
  simp only [keepLast, List.length_drop]
  omega

theorem keepLast_suffix (n : Nat) (l : List α) : keepLast n l <:+ l := List.drop_suffix _ l

theorem keepLast_append (n : Nat) (a b : List α) :
    keepLast n (a ++ b) = keepLast (n - b.length) a ++ keepLast n b := by
  have front : a.drop (a.length + b.length - n) = a.drop (a.length - (n - b.length)) := by
    by_cases full : n ≤ b.length
    · rw [List.drop_eq_nil_of_le (by omega), List.drop_eq_nil_of_le (by omega)]
    · congr 1
      omega
  have back : a.length + b.length - n - a.length = b.length - n := by omega
  simp only [keepLast, List.length_append, List.drop_append, front, back]

end KeepLast

/-- A queue of at most `depth` items, oldest first. -/
structure BoundedQueue (α : Type u) where
  depth : Nat
  items : List α
  bounded : items.length ≤ depth
  deriving DecidableEq

namespace BoundedQueue

variable {α : Type u}

def empty (depth : Nat) : BoundedQueue α := ⟨depth, [], Nat.zero_le _⟩

/-- Append an item; a full queue loses its oldest one. -/
def push (q : BoundedQueue α) (x : α) : BoundedQueue α :=
  ⟨q.depth, keepLast q.depth (q.items ++ [x]), length_keepLast_le _ _⟩

/-- The queue after everything in it has been taken out. -/
def cleared (q : BoundedQueue α) : BoundedQueue α := empty q.depth

@[simp] theorem items_empty (depth : Nat) : (empty depth : BoundedQueue α).items = [] := rfl

@[simp] theorem items_cleared (q : BoundedQueue α) : q.cleared.items = [] := rfl

@[simp] theorem depth_cleared (q : BoundedQueue α) : q.cleared.depth = q.depth := rfl

@[simp] theorem depth_push (q : BoundedQueue α) (x : α) : (q.push x).depth = q.depth := rfl

theorem mem_push {q : BoundedQueue α} {x y : α} (mem : y ∈ (q.push x).items) :
    y ∈ q.items ∨ y = x := by
  have := (keepLast_suffix q.depth (q.items ++ [x])).subset mem
  simpa using this

/-- Extra items in front of a queue stay in front of it, up to overflow. -/
theorem push_shadow {q r : BoundedQueue α} {extra : List α} (x : α) (depth : q.depth = r.depth)
    (shadow : q.items = extra ++ r.items) :
    ∃ left, left <:+ extra ∧ (q.push x).items = left ++ (r.push x).items := by
  refine ⟨keepLast (r.depth - (r.items ++ [x]).length) extra, keepLast_suffix _ _, ?_⟩
  simp only [push, depth, shadow, List.append_assoc]
  exact keepLast_append _ _ _

end BoundedQueue

end KoyuRuntime.Theory
