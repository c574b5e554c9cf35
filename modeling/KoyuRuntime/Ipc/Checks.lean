/-
# Ipc.Checks — the type check at boot

`typecheck` goes through the services of `services.yaml`.  It collects the typed topics
of each `ipc` block in a dict, resolves every type in it, and compares the struct
layouts a native binary reports with the Python ones.  The first thing wrong raises.

A block is read in one of two layouts: flat, with the directions at its top, if any key
at its top is a direction, and else grouped, with families of directions one level down.
-/
import KoyuRuntime.Host.Paths
import KoyuRuntime.Host.Shlex
import KoyuRuntime.Ipc.Types
import KoyuRuntime.Theory.Raising

namespace KoyuRuntime.Ipc.Checks

open Host Theory Ipc.Types

set_option autoImplicit false

/-! ## Typed topics -/

/-- `_TYPED_DIRECTIONS`. -/
def typedDirections : List String := ["writes", "reads", "publishes", "subscribes"]

/-- Is this key a direction? -/
def isDirection (key : Scalar) : Bool :=
  match key with
  | .str s => s ∈ typedDirections
  | _ => false

/-- `{topic: TypeName}` or `{topic: {type: TypeName, ...}}`. -/
def typeOf : Yaml → Option Yaml
  | .str name => some (.str name)
  | .map spec => Yaml.lookup "type" spec
  | _ => none

/-- The typed entries of one direction. -/
def typedEntries (block : YamlMap) : List (Key × Yaml) :=
  block.filterMap fun e => (typeOf e.2).map fun ty => (e.1.key, ty)

/-- `collect`: what it assigns to `found`, in order. -/
def collect (owner : YamlMap) : List (Key × Yaml) :=
  typedDirections.flatMap fun direction =>
    match Yaml.lookup direction owner with
    | some (.map block) => typedEntries block
    | _ => []

def flat (ipc : YamlMap) : Bool := ipc.any fun e => isDirection e.1

def assignments (ipc : YamlMap) : List (Key × Yaml) :=
  if flat ipc then collect ipc
  else ipc.flatMap fun e =>
    match e.2 with
    | .map family => collect family
    | _ => []

/-- `_typed_topics`: the last assignment of a topic stands. -/
def typedTopics (ipc : YamlMap) : OrderedDict Key Yaml := .ofList (assignments ipc)

/-! ## Native services -/

/-- What the check learns from outside: how a value that is no text prints, and what a
binary reports when it is run with `--type-check`. -/
structure Environment where
  text : Yaml → String
  reported : List String → Except Exn (List (String × Layout))

/-- `str(arg)`. -/
def Environment.str (env : Environment) : Yaml → String
  | .str s => s
  | value => env.text value

/-- Why `typecheck` raises. -/
inductive CheckError where
  /-- "service 'service': topic 'topic' uses unknown type 'tyname'" -/
  | unknownType (service : Scalar) (topic : Key) (tyname : Yaml)
  /-- "service 'service': binary does not expose type 'tyname' (topic 'topic')" -/
  | notExposed (service : Scalar) (topic : Key) (tyname : Yaml)
  /-- "service 'service': layout mismatch for 'tyname' (topic 'topic')" -/
  | mismatch (service : Scalar) (topic : Key) (tyname : Yaml)
  | raised (e : Exn)

/-- `"python" in Path(str(arg)).name.lower()`. -/
def namesPython (arg : String) : Bool :=
  decide ("python".toList <:+: (fileName arg.toList).toList.map Char.toLower)

/-- `_is_native`. -/
def isNative (env : Environment) (cmd : List Yaml) : Bool :=
  !cmd.isEmpty && !cmd.any fun arg => namesPython (env.str arg)

/-- `stanza.get("cmd") or []`, a text split like a shell would; iterating a scalar raises. -/
def command (cmd : Yaml) : Except Exn (List Yaml) :=
  if cmd.truthy then
    match cmd with
    | .str text =>
        match Shlex.split text.toList with
        | .ok words => .ok (words.map fun w => .str (String.ofList w))
        | .error e => .error e
    | .scalar _ => .error .typeError
    | .seq items => .ok items
    | .map entries => .ok (entries.map fun e => .scalar e.1)
  else .ok []

/-- `_reported_layout`: under the declared name, the class name or the Rust one. -/
def reportedLayout (reported : List (String × Layout)) (declared : Yaml) (S : Struct) :
    Option Layout :=
  let candidates := (match declared with
    | .str name => [name]
    | _ => []) ++ [S.name, typeName S]
  candidates.findSome? fun name => OrderedDict.find name reported

/-! ## The check -/

/-- A declared type must resolve. -/
def resolveOne (service : Scalar) (topic : Key) (tyname : Yaml) : Except CheckError Struct :=
  match resolve tyname with
  | .ok S => .ok S
  | .error .unknownType => .error (.unknownType service topic tyname)
  | .error .unhashable => .error (.raised .typeError)

def resolveAll (service : Scalar) : List (Key × Yaml) → Except CheckError (List (Key × Yaml × Struct))
  | [] => .ok []
  | (topic, tyname) :: rest => do
      let S ← resolveOne service topic tyname
      let more ← resolveAll service rest
      pure ((topic, tyname, S) :: more)

/-- Every struct must have the layout the binary reports. -/
def compareAll (service : Scalar) (reported : List (String × Layout)) :
    List (Key × Yaml × Struct) → Except CheckError Unit
  | [] => .ok ()
  | (topic, tyname, S) :: rest =>
      match reportedLayout reported tyname S with
      | none => throw (.notExposed service topic tyname)
      | some got =>
          if got ≠ layout S then throw (.mismatch service topic tyname)
          else compareAll service reported rest

def raise {α : Type} : Except Exn α → Except CheckError α
  | .ok a => .ok a
  | .error e => .error (.raised e)

/-- One service with an `ipc` block. -/
def checkBlock (env : Environment) (service : Scalar) (stanza ipc : YamlMap) :
    Except CheckError Unit := do
  let declared := (typedTopics ipc).entries
  let structs ← resolveAll service declared
  let tokens := command ((Yaml.lookup "cmd" stanza).getD .null)
  match tokens with
  | .error .valueError => throw (.raised .valueError)
  | _ =>
      if declared.isEmpty then pure ()
      else
        let cmd ← raise tokens
        if isNative env cmd then
          let reported ← raise (env.reported (cmd.map env.str))
          compareAll service reported structs
        else pure ()

/-- One turn of the loop; a service without an `ipc` mapping passes. -/
def checkService (env : Environment) (service : Scalar) (stanza : Yaml) : Except CheckError Unit := do
  let ipc ← raise (stanza.orEmpty.get "ipc")
  match ipc with
  | .map block => checkBlock env service stanza.orEmpty.entries block
  | _ => pure ()

def checkServices (env : Environment) : YamlMap → Except CheckError Unit
  | [] => .ok ()
  | (service, stanza) :: rest => do
      checkService env service stanza
      checkServices env rest

/-- `typecheck` of what `services.yaml` holds. -/
def typecheck (env : Environment) (raw : Yaml) : Except CheckError Unit := do
  let services ← raise raw.orEmpty.items
  checkServices env services

/-! ## What passing says -/

theorem raise_ok_iff {α : Type} {x : Except Exn α} {a : α} : raise x = .ok a ↔ x = .ok a := by
  cases x <;> simp [raise]

theorem resolveAll_ok {service : Scalar} {declared : List (Key × Yaml)}
    {structs : List (Key × Yaml × Struct)} (done : resolveAll service declared = .ok structs) :
    ∀ e ∈ declared, ∃ S, resolve e.2 = .ok S := by
  induction declared generalizing structs with
  | nil => exact fun e mem => absurd mem List.not_mem_nil
  | cons d rest ih =>
      obtain ⟨topic, tyname⟩ := d
      simp only [resolveAll] at done
      obtain ⟨S, resolved, later⟩ := except_bind_ok_iff.mp done
      obtain ⟨more, others, -⟩ := except_bind_ok_iff.mp later
      intro e mem
      rcases List.mem_cons.mp mem with rfl | inRest
      · unfold resolveOne at resolved
        split at resolved
        · rename_i T found
          exact ⟨T, found⟩
        · cases resolved
        · cases resolved
      · exact ih others e inRest

theorem checkServices_ok {env : Environment} {services : YamlMap}
    (done : checkServices env services = .ok ()) :
    ∀ e ∈ services, checkService env e.1 e.2 = .ok () := by
  induction services with
  | nil => exact fun e mem => absurd mem List.not_mem_nil
  | cons d rest ih =>
      obtain ⟨service, stanza⟩ := d
      simp only [checkServices] at done
      obtain ⟨⟨⟩, first, later⟩ := except_bind_ok_iff.mp done
      intro e mem
      rcases List.mem_cons.mp mem with rfl | inRest
      · exact first
      · exact ih later e inRest

/-- **What a passed check says**: in every block, every topic's last type resolves. -/
theorem resolved_of_typecheck {env : Environment} {raw : Yaml} (checked : typecheck env raw = .ok ())
    {service : Scalar} {stanza ipc : YamlMap} (mem : (service, .map stanza) ∈ raw.entries)
    (block : Yaml.lookup "ipc" stanza = some (.map ipc)) {topic : Key} {ty : Yaml}
    (found : (typedTopics ipc).get? topic = some ty) : ∃ S, resolve ty = .ok S := by
  obtain ⟨services, items, later⟩ := except_bind_ok_iff.mp checked
  obtain ⟨-, rfl⟩ := Yaml.items_orEmpty.mp (raise_ok_iff.mp items)
  have passed := checkServices_ok later _ mem
  obtain ⟨value, got, rest⟩ := except_bind_ok_iff.mp passed
  obtain ⟨-, same⟩ := Yaml.get_orEmpty.mp (raise_ok_iff.mp got)
  have isBlock : value = .map ipc := by
    rw [same]
    show (Yaml.lookup "ipc" stanza).getD .null = .map ipc
    rw [block]
    rfl
  rw [isBlock] at rest
  obtain ⟨structs, resolved, -⟩ := except_bind_ok_iff.mp rest
  exact resolveAll_ok resolved (topic, ty) (OrderedDict.mem_of_find found)

end KoyuRuntime.Ipc.Checks
