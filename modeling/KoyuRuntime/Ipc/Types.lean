/-
# Ipc.Types — the registry of struct types

A struct is found by its class name or by the name its Rust companion registers under,
which is the class name unless the class overrides it.  No name belongs to two structs.

`layout` is the C layout `ctypes` gives a struct: every field starts at a multiple of
its alignment and the size is a multiple of the largest one.
-/
import KoyuRuntime.Host.Yaml
import KoyuRuntime.Services.ParamServer.Server

namespace KoyuRuntime.Ipc.Types

open Host Services.ParamServer

set_option autoImplicit false

structure Struct where
  name : String
  /-- `type_name()`, where the class defines it. -/
  override : Option String
  fields : List (String × CType)
  deriving DecidableEq

/-- `type_name`: the name the Rust side registers under. -/
def typeName (S : Struct) : String := S.override.getD S.name

def numJoints : Nat := 7

/-- `_structs()`, in the order of their definition. -/
def registry : List Struct :=
  [⟨"RobStrideState", none,
      [("timestamp", .double), ("frame_id", .uint 64), ("position", .array .double numJoints),
        ("velocity", .array .double numJoints), ("torque", .array .double numJoints),
        ("temperature", .array .double numJoints), ("enabled", .array (.uint 8) numJoints)]⟩,
    ⟨"RobStrideCommand", none,
      [("timestamp", .double), ("frame_id", .uint 64), ("position", .array .double numJoints),
        ("velocity", .array .double numJoints), ("torque", .array .double numJoints)]⟩,
    ⟨"CameraFrame", some "camera_service::CameraFrame",
      [("timestamp", .double), ("frame_id", .uint 64), ("width", .uint 32), ("height", .uint 32),
        ("channels", .uint 32), ("_pad", .uint 32), ("data", .array (.uint 8) 921600)]⟩,
    ⟨"GlobalConfig", none, [("timestamp", .double), ("frame_id", .uint 64), ("speed", .double)]⟩,
    ⟨"RecorderTelemetry", none,
      [("timestamp", .double), ("frame_id", .uint 64), ("state", .uint 8), ("_pad", .array (.uint 8) 7),
        ("frames", .uint 64), ("capture_id", .chars 33)]⟩,
    ⟨"RecorderConfig", none,
      [("timestamp", .double), ("frame_id", .uint 64), ("record_hz", .double)]⟩]

/-- Why `resolve` raises. -/
inductive ResolveError where
  /-- `UnknownType`. -/
  | unknownType
  /-- `TypeError`: a list or a dict is looked up among the names. -/
  | unhashable
  deriving DecidableEq

/-- `resolve`: by class name, else by crate-qualified name. -/
def resolve : Yaml → Except ResolveError Struct
  | .str name =>
      match registry.find? fun S => S.name == name with
      | some S => .ok S
      | none =>
          match registry.find? fun S => typeName S == name with
          | some S => .ok S
          | none => .error .unknownType
  | .scalar _ => .error .unknownType
  | _ => .error .unhashable

/-! ## Layouts -/

def size : CType → Nat
  | .double => 8
  | .uint bits => bits / 8
  | .int bits => bits / 8
  | .array item length => size item * length
  | .chars length => length

def align : CType → Nat
  | .double => 8
  | .uint bits => bits / 8
  | .int bits => bits / 8
  | .array item _ => align item
  | .chars _ => 1

def alignUp (offset unit : Nat) : Nat := (offset + unit - 1) / unit * unit

/-- A size, and the name, offset and size of each field; a printed one may say anything. -/
structure Layout where
  size : Int
  fields : List (String × Int × Int)
  deriving DecidableEq

def placeFields : Nat → List (String × CType) → List (String × Nat × Nat)
  | _, [] => []
  | offset, (name, ctype) :: rest =>
      let start := alignUp offset (align ctype)
      (name, start, size ctype) :: placeFields (start + size ctype) rest

def endOf (fields : List (String × Nat × Nat)) : Nat :=
  match fields.getLast? with
  | some (_, offset, size) => offset + size
  | none => 0

def layout (S : Struct) : Layout :=
  let fields := placeFields 0 S.fields
  ⟨alignUp (endOf fields) (S.fields.foldl (fun unit f => max unit (align f.2)) 1),
    fields.map fun f => (f.1, (f.2.1 : Int), (f.2.2 : Int))⟩

/-! ## Names -/

/-- The names of a struct. -/
def names (S : Struct) : List String := [S.name, typeName S]

/-- A name belongs to one struct, and no class name is the other name of another. -/
theorem registry_names : ∀ S ∈ registry, ∀ T ∈ registry, ∀ n ∈ names S, n ∈ names T → S = T := by
  decide +kernel

theorem resolve_names {value : Yaml} {S : Struct} (found : resolve value = .ok S) :
    S ∈ registry ∧ ∃ n ∈ names S, value = .str n := by
  unfold resolve at found
  split at found
  · rename_i name
    split at found
    · rename_i T here
      cases found
      have same := List.find?_some here
      exact ⟨List.mem_of_find?_eq_some here, name, by simp [names, eq_of_beq same], rfl⟩
    · split at found
      · rename_i T here
        cases found
        have same := List.find?_some here
        exact ⟨List.mem_of_find?_eq_some here, name, by simp [names, eq_of_beq same], rfl⟩
      · cases found
  · cases found
  · cases found

/-- **Resolution** finds the one struct with the name. -/
theorem resolve_ok_iff {value : Yaml} {S : Struct} :
    resolve value = .ok S ↔ S ∈ registry ∧ ∃ n ∈ names S, value = .str n := by
  refine ⟨resolve_names, ?_⟩
  rintro ⟨mem, n, isName, rfl⟩
  have found : ∃ T, resolve (.str n) = .ok T := by
    simp only [resolve]
    cases first : registry.find? fun S => S.name == n with
    | some T => exact ⟨T, rfl⟩
    | none =>
        cases second : registry.find? fun S => typeName S == n with
        | some T => exact ⟨T, rfl⟩
        | none =>
            rw [List.find?_eq_none] at first second
            have notFirst := first S mem
            have notSecond := second S mem
            simp only [names, List.mem_cons, List.not_mem_nil, or_false] at isName
            rcases isName with rfl | rfl
            · simp at notFirst
            · simp at notSecond
  obtain ⟨T, found⟩ := found
  obtain ⟨mem', m, isName', same⟩ := resolve_names found
  cases same
  rw [found, registry_names S mem T mem' n isName isName']

end KoyuRuntime.Ipc.Types
