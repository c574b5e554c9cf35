/-
# Ipc.Blackboard — the writer end of a latest-value cell

`write` overwrites the cell, or fails transiently and leaves it.  Which attempts
fail is the environment's choice: `outcomes` lists the coming ones, and past its
end every attempt succeeds.  The writer's third consecutive failure ends the
process; runs modelled here stay below that limit.
-/
import Mathlib.Data.List.Basic

namespace KoyuRuntime.Ipc

set_option autoImplicit false

structure Writer (T : Type) where
  cell : T
  outcomes : List Bool

namespace Writer

variable {T : Type}

/-- `Writer.write`: did this attempt succeed, and the writer after it. -/
def write (w : Writer T) (value : T) : Bool × Writer T :=
  match w.outcomes with
  | [] => (true, ⟨value, []⟩)
  | true :: rest => (true, ⟨value, rest⟩)
  | false :: rest => (false, ⟨w.cell, rest⟩)

end Writer

end KoyuRuntime.Ipc
