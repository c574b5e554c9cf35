/-
# Host.Exn — the exceptions the modelled code raises or meets

One constructor for each Python exception some modelled function raises itself
or receives from the library call it wraps.  All are `Exception` subclasses, so
`except Exception` catches each of them.
-/
import KoyuRuntime.Theory.DirTree

namespace KoyuRuntime.Host

set_option autoImplicit false

inductive Exn where
  | valueError
  | overflowError
  | zeroDivisionError
  | attributeError
  | typeError
  | keyError (key : String)
  | validationError (field : String)
  | serializationError
  /-- `RuntimeError`, with what it is about. -/
  | runtimeError (subject : String)
  /-- `OSError`: a file system call was refused. -/
  | osError (cause : Theory.TreeError)
  /-- A codec, a full disk: whatever a wrapped library raises on its own account. -/
  | libraryError (call : String)
  deriving DecidableEq, Repr

end KoyuRuntime.Host
