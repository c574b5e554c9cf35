/-
# Services.IpcLogger.Service — the logger's own service

The logger opens a reader or a subscriber for each topic, and a log for each topic and
each event channel.  A log is looked up by the bare name, and is one of the loggers of
the `logging` module, which has one for each logger name, with the handler set last.

On a tick every topic whose frame id changed is logged: an image goes to the topic's ring
and leaves a record of its size, any other struct a record of its fields.

What the logger writes is an append-only list of lines.  The rotation of a full file is
left out: it stays in the directory of the file.
-/
import KoyuRuntime.Services.InboxRouting
import KoyuRuntime.Services.IpcReaders.Walkers
import KoyuRuntime.Theory.Transition

namespace KoyuRuntime.Services.IpcLogger

open Host Theory Ipc.Types ParamServer IpcReaders
open InboxRouting (slug)

set_option autoImplicit false

/-! ## Values -/

/-- What a field of a struct reads back as. -/
inductive Content where
  /-- A number. -/
  | scalar (value : Json)
  /-- A `c_char` array, decoded. -/
  | chars (text : String)
  /-- An array.  The logger only asks for its length. -/
  | array (length : Nat)

/-- Can a field of this type read back as that? -/
def Content.Fits : CType → Content → Prop
  | .double, .scalar (.float _) => True
  | .uint bits, .scalar (.int i) => 0 ≤ i ∧ i < 2 ^ bits
  | .int bits, .scalar (.int i) => -2 ^ bits ≤ i * 2 ∧ i * 2 < 2 ^ bits
  | .array _ length, .array n => n = length
  | .chars _, .chars _ => True
  | _, _ => False

/-- A value of a struct. -/
structure Value (S : Struct) where
  contents : List Content
  fits : List.Forall₂ (fun field content => Content.Fits field.2 content) S.fields contents

namespace Value

variable {S : Struct}

/-- The fields with their contents. -/
def fields (value : Value S) : List (String × Content) := (S.fields.map Prod.fst).zip value.contents

/-- `getattr(value, name, None)`. -/
def get? (value : Value S) (name : String) : Option Content := OrderedDict.find name value.fields

/-- `getattr(value, "frame_id", None)`: an integer, in every struct that has one. -/
def frameId (value : Value S) : Option Int :=
  match value.get? "frame_id" with
  | some (.scalar (.int i)) => some i
  | _ => none

/-- `int(value.width)` or `int(value.height)`.  Only asked of an image, which has both. -/
def extent (value : Value S) (name : String) : Nat :=
  match value.get? name with
  | some (.scalar (.int i)) => i.toNat
  | _ => 0

/-- `len(value.data)`, of an image. -/
def dataLength (value : Value S) : Nat :=
  match value.get? "data" with
  | some (.array length) => length
  | _ => 0

/-- `_snapshot`: the fields that are not arrays. -/
def snapshot (value : Value S) : List (String × Json) :=
  value.fields.filterMap fun (name, content) =>
    match content with
    | .scalar number => some (name, number)
    | .chars text => some (name, .str text)
    | .array _ => none

end Value

/-- `_is_image`. -/
def isImage (S : Struct) : Bool := ["data", "width", "height"].all fun a => a ∈ S.fields.map Prod.fst

/-! ## Files -/

/-- What is logged of, under a name. -/
inductive Source where
  | topic (name : String)
  | channel (name : String)
  deriving DecidableEq, Repr

def Source.name : Source → String
  | .topic name => name
  | .channel name => name

/-- `state.jsonl` or `events.jsonl`. -/
def Source.fileName : Source → String
  | .topic _ => "state.jsonl"
  | .channel _ => "events.jsonl"

/-- `base / slug`, where `_open_log` puts a log and `koyu tail` looks for it. -/
def logDir (home : Path) (name : String) : Path :=
  DirTree.land home ([.into "services", .into "ipc_logger"] ++ parts (slug name).toList)

/-- The directory of a topic's images. -/
def ringDir (home : Path) (topic : String) : Path := logDir home topic ++ ["frames"]

/-- The file of a topic or a channel. -/
def Source.file (home : Path) (source : Source) : Path := logDir home source.name ++ [source.fileName]

inductive Record where
  | state (fields : List (String × Json))
  | frame (frameId : Option Int) (w h : Nat)
  | event (id : Nat)

/-- A line that was appended: what it is of, the record, and the file. -/
structure Line where
  source : Source
  record : Record
  file : Path

/-! ## Set up -/

inductive Plane where
  | blackboard
  | stream
  deriving DecidableEq, Repr

structure Logger where
  /-- `_readers`: the plane a topic is read through, and its struct. -/
  readers : OrderedDict String (Plane × Struct)
  /-- `_rings`, by their directories. -/
  rings : OrderedDict String Path
  /-- `_logs`: the slug that the name of a logger ends in. -/
  logs : OrderedDict String String
  last : OrderedDict String (Option Int)
  listeners : List String
  /-- The loggers of the process, by slug: the file of the one handler each has. -/
  handlers : OrderedDict String Path
  lines : List Line
  /-- The images given to a ring: its directory, and their extents. -/
  images : List (Path × Nat × Nat)

def Logger.new : Logger := ⟨∅, ∅, ∅, ∅, [], ∅, [], []⟩

/-- What else decides whether the logger starts. -/
structure Outside where
  /-- Does the file system let this file be opened, or this directory be made? -/
  opens : Path → Bool
  /-- Is there a listener to be had for this channel? -/
  connects : String → Bool

/-- `types.resolve(_typename(spec))`. -/
def structOf (spec : Yaml) : Except Exn Struct := do
  let tyname ← specType spec
  match resolve tyname with
  | .ok S => .ok S
  | .error .unknownType => .error (.keyError "UnknownType")
  | .error .unhashable => .error .typeError

/-- `self.reader if topic in bb else self.subscriber`. -/
def planeOf (ipc : Discovered) (topic : Key) : Plane :=
  if topic ∈ ipc.reads.keys then .blackboard else .stream

/-- `{**bb, **st}`. -/
def topics (ipc : Discovered) : OrderedDict Key Yaml := ipc.reads.setAll ipc.subscribes.entries

section Setup

variable (outside : Outside) (home : Path) (ipc : Discovered)

/-- `self._logs[name] = self._open_log(slug, filename)`: the handler replaces all others
of the logger. -/
def openLog (source : Source) (s : Logger) : Except Exn Logger :=
  if outside.opens (source.file home) then
    .ok { s with
      handlers := s.handlers.set (slug source.name) (source.file home)
      logs := s.logs.set source.name (slug source.name) }
  else .error (.libraryError "open")

/-- `if _is_image(T): self._rings[topic] = FrameRing(base / slug / "frames", ...)`. -/
def openRing (topic : String) (S : Struct) (s : Logger) : Except Exn Logger :=
  if isImage S then
    if outside.opens (ringDir home topic) then
      .ok { s with rings := s.rings.set topic (ringDir home topic) }
    else .error (.libraryError "mkdir")
  else .ok s

/-- The first loop of `setup`, for one topic. -/
def openTopic (s : Logger) (e : Key × Yaml) : Except Exn Logger := do
  let S ← structOf e.2
  match e.1 with
  | .str topic =>
      let s ← openLog outside home (.topic topic) { s with
        readers := s.readers.set topic (planeOf ipc (.str topic), S) }
      openRing outside home topic S s
  | _ => .error .attributeError

/-- The second loop of `setup`, for one channel. -/
def openChannel (s : Logger) : Key → Except Exn Logger
  | .str channel => do
      let s ← openLog outside home (.channel channel) s
      if outside.connects channel then .ok { s with listeners := s.listeners ++ [channel] }
      else .error (.libraryError "listener")
  | _ => .error .attributeError

/-- `IpcLogger.setup`. -/
def setup : Except Exn Logger := do
  let s ← runs (openTopic outside home ipc) .new (topics ipc).entries
  runs (openChannel outside home) s ipc.listens

end Setup

/-! ## Ticks and events -/

/-- What the ports yield: the value on a plane, under a topic, of the struct it was opened
with. -/
abbrev Readings := Plane → String → (S : Struct) → Option (Value S)

namespace Logger

/-- `_emit(self._logs[name], rec)`. -/
def emit (source : Source) (record : Record) (s : Logger) : Except Exn Logger :=
  match s.logs.get? source.name with
  | none => .error (.keyError source.name)
  | some log =>
      match s.handlers.get? log with
      | none => .ok s
      | some file => .ok { s with lines := s.lines ++ [⟨source, record, file⟩] }

/-- `_save_frame`, into the ring of this directory. -/
def saveFrame {S : Struct} (topic : String) (ring : Path) (frame : Value S) (fid : Option Int)
    (s : Logger) : Except Exn Logger :=
  let w := frame.extent "width"
  let h := frame.extent "height"
  if w ≠ 0 ∧ h ≠ 0 ∧ w * h * 3 ≤ frame.dataLength then
    emit (.topic topic) (.frame fid w h) { s with images := s.images ++ [(ring, w, h)] }
  else .ok s

/-- The loop of `on_tick`, for one topic. -/
def visit (readings : Readings) (s : Logger) : String × Plane × Struct → Except Exn Logger
  | (topic, plane, S) =>
      match readings plane topic S with
      | none => .ok s
      | some value =>
          let fid := value.frameId
          if fid = (s.last.get? topic).join then .ok s
          else
            let s := { s with last := s.last.set topic fid }
            match s.rings.get? topic with
            | some ring => saveFrame topic ring value fid s
            | none => emit (.topic topic) (.state value.snapshot) s

def onTick (readings : Readings) (s : Logger) : Except Exn Logger :=
  runs (visit readings) s s.readers.entries

def onEvent (channel : String) (id : Nat) (s : Logger) : Except Exn Logger :=
  emit (.channel channel) (.event id) s

end Logger

/-- What wakes the logger. -/
inductive Wake where
  | tick (readings : Readings)
  | event (channel : String) (id : Nat)

/-- The loop of `Service.run`: an event comes from a listener. -/
def dispatch (s : Logger) : Wake → Except Exn Logger
  | .tick readings => s.onTick readings
  | .event channel id => if channel ∈ s.listeners then s.onEvent channel id else .ok s

end KoyuRuntime.Services.IpcLogger
