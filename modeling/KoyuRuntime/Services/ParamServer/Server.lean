/-
# Services.ParamServer.Server — the owner of the tunable parameters

For each blackboard topic it writes, the server keeps a JSON document with an entry
per parameter and publishes the values as one struct.  Every tick drains the topic's
inbox: a request `{key, value, persist?}` is applied to the document or parked in
quarantine, an accepted one is published, and a tick that accepted a persisting one
saves the whole document.

Any step may raise on the shapes it is not written for; an exception leaves `on_tick`
and with it the process.  Every topic has its own inbox and its own file here: what
becomes of two topics whose slugs coincide, as those of `a/b` and `a~b`, is the subject of
`InboxRouting`.  The writer's crash after repeated failures is not modelled.
-/
import KoyuRuntime.Host.Dynamic
import KoyuRuntime.Ipc.Blackboard
import KoyuRuntime.Theory.Transition

namespace KoyuRuntime.Services.ParamServer

open Host Theory

set_option autoImplicit false

/-! ## Structs -/

/-- The C types a struct's fields have. -/
inductive CType where
  | double
  | uint (bits : Nat)
  | int (bits : Nat)
  | array (item : CType) (length : Nat)
  | chars (length : Nat)
  deriving DecidableEq, Repr

/-- Does a field of this type take the value?  An integer past the double range
overflows, an integer field wraps any integer, and no JSON value is an array. -/
def CType.assign : CType → Json → Except Exn Unit
  | .double, .int i => if Double.overflow ≤ |(i : ℚ)| then .error .overflowError else .ok ()
  | .double, .float _ => .ok ()
  | .double, .bool _ => .ok ()
  | .uint _, .int _ => .ok ()
  | .uint _, .bool _ => .ok ()
  | .int _, .int _ => .ok ()
  | .int _, .bool _ => .ok ()
  | _, _ => .error .typeError

/-- A registered struct: its fields, and what `setattr` does with a name that is none
of them (an instance attribute, or one of Python's own). -/
structure StructType where
  fields : OrderedDict String CType
  otherName : String → Json → Except Exn Unit

/-- `setattr(struct, key, val)`. -/
def StructType.setattr (T : StructType) (key : String) (val : Json) : Except Exn Unit :=
  match T.fields.get? key with
  | some ctype => ctype.assign val
  | none => T.otherName key val

/-- `META`: struct header fields, not params. -/
def headerFields : List String := ["timestamp", "frame_id"]

/-- `_param_fields`. -/
def paramFields (T : StructType) : List String := T.fields.keys.filter fun f => f ∉ headerFields

/-- `_fits`: a `TypeError` of the probe means no; a `bool` never fits. -/
def fits (T : StructType) (key : String) (val : Json) : Except Exn Bool :=
  match val with
  | .bool _ => .ok false
  | _ =>
      match T.setattr key val with
      | .ok () => .ok true
      | .error .typeError => .ok false
      | .error e => .error e

/-! ## Topics -/

/-- Why a request is parked, each reason after the topic's name. -/
inductive Reason where
  /-- "unknown param key" -/
  | unknown (key : Json)
  /-- "value val does not fit param key" -/
  | unfit (key : String) (val : Json)
  /-- "key=val out of range [min, max]" -/
  | outOfRange (key : String) (val low high : Json)

/-- What the struct on the blackboard shows: its frame id and its parameters. -/
structure Published where
  frameId : Nat
  values : List (String × Json)

/-- One topic of the server, its file and its quarantine. -/
structure Topic where
  name : String
  T : StructType
  params : Json
  file : Option Json
  frame : Nat
  writer : Ipc.Writer (Option Published)
  quarantined : List (Json × Reason)

/-- What becomes of one request. -/
inductive Ruling where
  | reject (reason : Reason)
  | accept (key : String) (val : Json)

/-- `"min" in entry and "max" in entry and not (entry["min"] <= val <= entry["max"])`:
the bounds the value is outside of. -/
def outside (entry val : Json) : Except Exn (Option (Json × Json)) := do
  if ← entry.contains "min" then
    if ← entry.contains "max" then
      let low ← entry.item "min"
      if ← low.le val then
        let high ← entry.item "max"
        if ← val.le high then return none
        return some (low, high)
      -- the message reads both bounds
      let high ← entry.item "max"
      return some (low, high)
    return none
  return none

/-- The checks of a value against the struct and the entry of its parameter. -/
def checkEntry (T : StructType) (key : String) (val entry : Json) : Except Exn Ruling := do
  if ← fits T key val then
    match ← outside entry val with
    | some (low, high) => return .reject (.outOfRange key val low high)
    | none =>
        match entry with
        | .obj _ => return .accept key val
        | _ => throw .typeError
  else return .reject (.unfit key val)

/-- `_apply`, up to its effect: the checks of a request against the document. -/
def judge (T : StructType) (params req : Json) : Except Exn Ruling := do
  let key ← req.get (.str "key")
  let val ← req.get (.str "value")
  match key, ← params.get key with
  | _, .null => return .reject (.unknown key)
  | .str name, entry => checkEntry T name val entry
  -- only texts are keys of a document
  | key, _ => return .reject (.unknown key)

/-- `entry["value"] = val` on a document. -/
def setValue (key : String) (val : Json) : Json → Json
  | .obj params =>
      match JsonObj.get? params key with
      | some (.obj entry) => .obj (OrderedDict.put key (.obj (OrderedDict.put "value" val entry)) params)
      | _ => .obj params
  | other => other

namespace Topic

/-- `_apply`: a rejected request is parked, an accepted one updates its entry. -/
def apply (t : Topic) (req : Json) : Except Exn (Bool × Topic) :=
  match judge t.T t.params req with
  | .error e => .error e
  | .ok (.reject reason) => .ok (false, { t with quarantined := t.quarantined ++ [(req, reason)] })
  | .ok (.accept key val) => .ok (true, { t with params := setValue key val t.params })

/-- `params[f]["value"]`. -/
def valueOf (params : Json) (field : String) : Except Exn Json := do
  let entry ← params.item field
  entry.item "value"

/-- The values of the struct `_publish` fills, field by field. -/
def structValues (T : StructType) (params : Json) : List String → Except Exn (List (String × Json))
  | [] => .ok []
  | f :: rest => do
      let val ← valueOf params f
      T.setattr f val
      return (f, val) :: (← structValues T params rest)

/-- `_publish`. -/
def publish (t : Topic) : Except Exn Topic := do
  let values ← structValues t.T t.params (paramFields t.T)
  let frame := t.frame + 1
  return { t with frame := frame, writer := (t.writer.write (some ⟨frame, values⟩)).2 }

/-- `_save`: the whole document replaces the file. -/
def save (t : Topic) : Topic := { t with file := some t.params }

/-- The loop of one drain: was a request accepted, and did an accepted one persist? -/
def applyAll (t : Topic) (changed persist : Bool) : List Json → Except Exn ((Bool × Bool) × Topic)
  | [] => .ok ((changed, persist), t)
  | req :: rest => do
      let (applied, t) ← t.apply req
      if applied then
        let wanted ← req.get (.str "persist")
        t.applyAll true (persist || wanted.truthy) rest
      else t.applyAll changed persist rest

/-- `Inbox.drain`: malformed files are dropped; a file that `json.loads` refuses
otherwise raises. -/
def drain : List (Option Json) → Except Exn (List Json)
  | [] => .ok []
  | none :: rest => drain rest
  | some document :: rest => do
      let req ← document.loads
      return req :: (← drain rest)

/-- One topic's share of `on_tick`, for the files its inbox holds. -/
def onTick (t : Topic) (files : List (Option Json)) : Except Exn Topic := do
  let reqs ← drain files
  let ((changed, persist), t) ← t.applyAll false false reqs
  if changed then
    let t ← t.publish
    return if persist then t.save else t
  return t

end Topic

/-! ## The server -/

/-- `_load`: a missing file reads as an empty document. -/
def loadFile (file : Option Json) : Except Exn Json :=
  match file with
  | none => .ok (.obj [])
  | some document => document.loads

/-- Bootstrap-or-die: every parameter has an entry with a value. -/
def hasValues (params : Json) : List String → Except Exn Unit
  | [] => .ok ()
  | f :: rest => do
      match ← params.get (.str f) with
      | .obj entry =>
          if (JsonObj.get? entry "value").isSome then hasValues params rest
          else throw (.runtimeError f)
      | _ => throw (.runtimeError f)

/-- `setup` for one topic. -/
def bootTopic (name : String) (T : StructType) (file : Option Json) (outcomes : List Bool) :
    Except Exn Topic := do
  let params ← loadFile file
  hasValues params (paramFields T)
  Topic.publish
    { name := name, T := T, params := params, file := file, frame := 0, writer := ⟨none, outcomes⟩,
      quarantined := [] }

abbrev Server := List Topic

/-- `setup`, topic by topic: its name, its struct, its file, and which writes of its
segment will fail. -/
def setup : List (String × StructType × Option Json × List Bool) → Except Exn Server
  | [] => .ok []
  | (name, T, file, outcomes) :: rest => do
      let t ← bootTopic name T file outcomes
      return t :: (← setup rest)

/-- `on_tick`, for the files every topic's inbox holds. -/
def onTick (files : String → List (Option Json)) : Server → Except Exn Server
  | [] => .ok []
  | t :: rest => do
      let t ← t.onTick (files t.name)
      return t :: (← onTick files rest)

/-- One tick as a step of the server. -/
def step (s : Server) (files : String → List (Option Json)) : Except Exn Server := onTick files s

end KoyuRuntime.Services.ParamServer
