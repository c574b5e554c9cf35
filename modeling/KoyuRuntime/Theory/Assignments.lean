/-
# Theory.Assignments — total maps and the assignments made to them

Assignments are made to a map one after the other; each gives one key a value and leaves
the others as they are.  So a key ends up with the value it was given last.

* `assign_of_not_mem`: a key that is not assigned keeps its value.
* `assign_last`: of several assignments to a key the last one counts.
* `getD_setAll`: a dictionary that collects assignments is the map they make.
-/
import KoyuRuntime.Theory.OrderedDict
import Mathlib.Logic.Function.Basic

namespace KoyuRuntime.Theory

set_option autoImplicit false

universe u v

variable {K : Type u} {V : Type v} [DecidableEq K]

/-- Make the assignments, in order. -/
def assign (es : List (K × V)) (m : K → V) : K → V :=
  es.foldl (fun m e => Function.update m e.1 e.2) m

@[simp] theorem assign_nil (m : K → V) : assign [] m = m := rfl

theorem assign_append (l r : List (K × V)) (m : K → V) : assign (l ++ r) m = assign r (assign l m) :=
  List.foldl_append

theorem assign_of_not_mem {es : List (K × V)} {k : K} (absent : k ∉ es.map Prod.fst) (m : K → V) :
    assign es m k = m k := by
  induction es generalizing m with
  | nil => rfl
  | cons e rest ih =>
      simp only [List.map_cons, List.mem_cons, not_or] at absent
      calc assign (e :: rest) m k = assign rest (Function.update m e.1 e.2) k := rfl
        _ = Function.update m e.1 e.2 k := ih absent.2 _
        _ = m k := Function.update_of_ne absent.1 _ _

/-- **The last assignment** to a key counts. -/
theorem assign_last {k : K} {after : List (K × V)} (last : k ∉ after.map Prod.fst)
    (before : List (K × V)) (v : V) (m : K → V) : assign (before ++ (k, v) :: after) m k = v := by
  rw [assign_append]
  calc assign ((k, v) :: after) (assign before m) k
      = assign after (Function.update (assign before m) k v) k := rfl
    _ = Function.update (assign before m) k v k := assign_of_not_mem last _
    _ = v := Function.update_self _ _ _

/-- **A dictionary of assignments** over a map: what it lacks is read from the map. -/
theorem getD_setAll (es : List (K × V)) (d : OrderedDict K V) (m : K → V) (k : K) :
    ((d.setAll es).get? k).getD (m k) = assign es (fun k => (d.get? k).getD (m k)) k := by
  induction es generalizing d with
  | nil => rfl
  | cons e rest ih =>
      have first : (fun k => ((d.set e.1 e.2).get? k).getD (m k)) =
          Function.update (fun k => (d.get? k).getD (m k)) e.1 e.2 := by
        funext q
        rw [OrderedDict.get?_set]
        by_cases same : e.1 = q
        · subst same
          simp
        · rw [if_neg same, Function.update_of_ne (Ne.symm same)]
      calc ((d.setAll (e :: rest)).get? k).getD (m k)
          = (((d.set e.1 e.2).setAll rest).get? k).getD (m k) := rfl
        _ = assign rest (fun k => ((d.set e.1 e.2).get? k).getD (m k)) k := ih _
        _ = assign (e :: rest) (fun k => (d.get? k).getD (m k)) k := by
          rw [first]
          rfl

end KoyuRuntime.Theory
