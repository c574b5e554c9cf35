/-
# Ipc.Streams — samples and the subscriber end of a stream

A subscriber keeps the newest samples of its topic up to its own buffer depth
(safe overflow drops the oldest).  Both reads take everything out: `latest`
returns the newest sample only, `drain` all of them, oldest first.

Every struct on the wire starts with `timestamp` and `frame_id`.  The consumers
modelled here read a timestamp only as `int(timestamp * 1e9)`, so a sample
carries that integer; the other fields are its payload.
-/
import KoyuRuntime.Theory.BoundedQueue

namespace KoyuRuntime.Ipc

open Theory

set_option autoImplicit false

structure Sample (P : Type) where
  /-- `int(sample.timestamp * 1e9)`, in nanoseconds. -/
  stamp : Int
  frameId : Nat
  payload : P
  deriving DecidableEq, Repr

abbrev Subscriber (P : Type) := BoundedQueue (Sample P)

namespace Subscriber

variable {P : Type}

def latest (sub : Subscriber P) : Option (Sample P) × Subscriber P :=
  (sub.items.getLast?, sub.cleared)

def drain (sub : Subscriber P) : List (Sample P) × Subscriber P := (sub.items, sub.cleared)

end Subscriber

end KoyuRuntime.Ipc
