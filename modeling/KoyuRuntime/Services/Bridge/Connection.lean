/-
# Services.Bridge.Connection — one websocket connection of the bridge

The handler takes one message after the other.  A message that asks for a stream of a
topic, or for the events of a channel, makes a task; two tables say which task serves
which topic and channel.  Whatever a message raises ends the loop, and at its end all
tasks of the tables are cancelled.

Tasks take turns with the handler.  What they and the handler find outside is part of the
action: what a read returns, whether a send gets through, the files a request is dropped
into.  What goes to stdout is left out.
-/
import KoyuRuntime.Host.Text
import KoyuRuntime.Services.FrameIds
import KoyuRuntime.Services.InboxRouting
import KoyuRuntime.Services.IpcReaders.Walkers

namespace KoyuRuntime.Services.Bridge

open Host Theory Ipc.Types
open FrameIds (Consumer Struct)
open InboxRouting (Tree)

set_option autoImplicit false

/-! ## Outside -/

/-- What does not change while the bridge runs. -/
structure Outside where
  /-- The runtime directory. -/
  home : Path
  /-- `unicodedata.decimal`, of the Python at hand. -/
  decimal : Char → Option Nat
  /-- Does `asyncio.sleep` take a NaN?  It does before Python 3.13. -/
  nanSleeps : Bool
  /-- `repr(value)`. -/
  repr : Json → String
  /-- Is there a `ServiceName` of this text? -/
  legal : String → Bool
  /-- Does a notifier take this number for an event id? -/
  eventId : Int → Bool

/-- What the handling of one message finds. -/
structure Moment where
  /-- Does `ws.send_json` get through? -/
  sends : Bool
  /-- Does the notifier come up, and ring? -/
  rings : Bool
  files : Tree
  pid : Nat
  time : Nat

/-- What a task finds in one of its turns. -/
structure Turn (V : Type) where
  /-- What `read()` returns, a struct without a frame id as none; nothing if it raises. -/
  value : Option (Option (Struct V))
  /-- Does the listener come up? -/
  listens : Bool
  /-- What `lis.drain()` returns; nothing if it raises. -/
  ids : Option (List Nat)
  /-- Does `ws.send_json` get through? -/
  sends : Bool

/-- `topic_planes()`. -/
abbrev Planes := OrderedDict Key (Yaml × String)

/-! ## Rates -/

/-- `max(x, 1)`: the second argument replaces the first only if it is greater. -/
def atLeastOne : Double → Double
  | .nan => .nan
  | .inf negative => if negative then .fin 1 else .inf false
  | .fin q => if q < 1 then .fin 1 else .fin q

/-- `1.0 / max(rate_hz, 1)`. -/
def period : Json → Except Exn Double
  | .int i =>
      if i < 1 then .ok (.fin 1)
      else if Double.overflow ≤ i then .error .overflowError
      else Double.divInto 1 (.fin (Double.ofInt i))
  | .bool _ => .ok (.fin 1)
  | .float x => Double.divInto 1 (atLeastOne x)
  | _ => .error .typeError

/-- `asyncio.sleep(dt)` returns. -/
def Outside.sleeps (outside : Outside) (dt : Double) : Bool := decide (dt ≠ .nan) || outside.nanSleeps

/-! ## Tasks -/

inductive Job where
  /-- `poll_and_send(topic, type_name, plane, rate_hz)`. -/
  | stream (topic : Key) (type : Yaml) (plane : String) (rate : Json)
  /-- `listen_and_forward(channel)`. -/
  | listen (channel : Json)

/-- A task: whether it has got past its first lines, was cancelled, and is over, and what
it has sent. -/
structure Task (V : Type) where
  job : Job
  begun : Bool
  cancelled : Bool
  ended : Bool
  consumer : Consumer V
  events : List Nat

section Tasks

variable {V : Type}

/-- `asyncio.create_task(...)`. -/
def Task.new (job : Job) : Task V := ⟨job, false, false, false, ⟨none, []⟩, []⟩

/-- Will the task go on with its job at its next turn? -/
def Task.live (t : Task V) : Bool := !t.cancelled && !t.ended

/-- `task.cancel()`: nothing happens to a task that is over. -/
def Task.cancel (t : Task V) : Task V := if t.ended then t else { t with cancelled := true }

def Task.done (t : Task V) : Task V := { t with ended := true }

/-- One turn of `poll_and_send`. -/
def Task.poll (outside : Outside) (type : Yaml) (rate : Json) (turn : Turn V) (t : Task V) : Task V :=
  match resolve type, period rate, turn.value with
  | .ok _, .ok dt, some value =>
      match t.consumer.pollAndSend value turn.sends with
      | none => t.done
      | some consumer => { t with begun := true, consumer := consumer, ended := !outside.sleeps dt }
  | _, _, _ => t.done

/-- `events.Listener(channel)` comes up. -/
def Outside.listens (outside : Outside) (channel : Json) (turn : Turn V) : Bool :=
  match channel with
  | .str name => outside.legal name && turn.listens
  | _ => false

/-- One turn of `listen_and_forward`. -/
def Task.forward (outside : Outside) (channel : Json) (turn : Turn V) (t : Task V) : Task V :=
  if t.begun || outside.listens channel turn then
    match turn.ids with
    | none => t.done
    | some ids =>
        if ids = [] || turn.sends then { t with begun := true, events := t.events ++ ids } else t.done
  else t.done

/-- One turn of a task.  A cancelled one gets a `CancelledError` where it waits, or never
begins. -/
def Task.turn (outside : Outside) (turn : Turn V) (t : Task V) : Task V :=
  if t.ended then t
  else if t.cancelled then t.done
  else
    match t.job with
    | .stream _ type _ rate => t.poll outside type rate turn
    | .listen channel => t.forward outside channel turn

end Tasks

/-! ## Messages -/

inductive Verb where
  | subscribeTopic
  | unsubscribeTopic
  | ringEvent
  | listenEvent
  | unlistenEvent
  | setParam
  deriving DecidableEq, Repr

/-- The branch that `req.get("type")` leads to. -/
def verbOf (req : JsonObj) : Option Verb :=
  match req.get? "type" with
  | some (.str "subscribe-topic") => some .subscribeTopic
  | some (.str "unsubscribe-topic") => some .unsubscribeTopic
  | some (.str "ring-event") => some .ringEvent
  | some (.str "listen-event") => some .listenEvent
  | some (.str "unlisten-event") => some .unlistenEvent
  | some (.str "set-param") => some .setParam
  | _ => none

/-- `req.get(name, default)`. -/
def field (req : JsonObj) (name : String) (default : Json) : Json := (req.get? name).getD default

/-- A value as a dict key; lists and dicts are not hashable. -/
def keyOf : Json → Except Exn Key
  | .null => .ok .null
  | .bool b => .ok (.number (.fin (if b then 1 else 0)))
  | .int i => .ok (.number (.fin i))
  | .float x => .ok (.number x)
  | .str s => .ok (.str s)
  | _ => .error .typeError

/-- `planes.get(topic)`: the NaN of a message is not that of a document. -/
def planeOf (planes : Planes) (topic : Key) : Option (Yaml × String) :=
  if topic = .number .nan then none else planes.get? topic

/-- What the client or another service gets to see of a message. -/
inductive Effect where
  /-- `{"type": "error", "message": ...}`. -/
  | error (message : String)
  | rang (channel : String) (id : Int)
  | submitted (topic : String) (req : JsonObj)

/-- The local variables of the handler, the tasks it has made, and what it has done. -/
structure Connection (V : Type) where
  /-- Is the loop still running? -/
  isOpen : Bool
  subTasks : OrderedDict Key Nat
  listenTasks : OrderedDict Key Nat
  notifiers : OrderedDict String Unit
  tasks : List (Task V)
  effects : List Effect

namespace Connection

variable {V : Type}

/-- A client has connected. -/
def new : Connection V := ⟨true, ∅, ∅, ∅, [], []⟩

def cancel (n : Nat) (c : Connection V) : Connection V := { c with tasks := c.tasks.modify n Task.cancel }

/-- `old = sub_tasks.pop(topic, None)`, and `old.cancel()`. -/
def dropSub (topic : Key) (c : Connection V) : Connection V :=
  match c.subTasks.get? topic with
  | none => c
  | some n => { c.cancel n with subTasks := c.subTasks.erase topic }

/-- `old = listen_tasks.pop(channel, None)`, and `old.cancel()`. -/
def dropListen (channel : Key) (c : Connection V) : Connection V :=
  match c.listenTasks.get? channel with
  | none => c
  | some n => { c.cancel n with listenTasks := c.listenTasks.erase channel }

/-- Cancel the tasks of these numbers. -/
def cancelAll (ns : List Nat) (tasks : List (Task V)) : List (Task V) :=
  ns.foldl (fun tasks n => tasks.modify n Task.cancel) tasks

/-- The `finally` block. -/
def finish (c : Connection V) : Connection V :=
  let values := c.subTasks.entries.map Prod.snd ++ c.listenTasks.entries.map Prod.snd
  { c with isOpen := false, tasks := cancelAll values c.tasks }

section Verbs

variable (outside : Outside) (planes : Planes) (moment : Moment) (req : JsonObj) (c : Connection V)

def subscribeTopic : Except Exn (Connection V) := do
  let topic := field req "topic" (.str "")
  let rate := field req "rate_hz" (.int 30)
  let key ← keyOf topic
  match planeOf planes key with
  | none =>
      if moment.sends then
        .ok { c with effects := c.effects ++ [.error ("unknown topic " ++ outside.repr topic)] }
      else .error (.libraryError "send_json")
  | some (type, plane) =>
      let c := c.dropSub key
      .ok { c with
        subTasks := c.subTasks.set key c.tasks.length
        tasks := c.tasks ++ [Task.new (.stream key type plane rate)] }

def unsubscribeTopic : Except Exn (Connection V) := do
  let key ← keyOf (field req "topic" (.str ""))
  pure (c.dropSub key)

/-- The notifier is made before the table is looked at. -/
def ringEvent : Except Exn (Connection V) := do
  let channel := field req "channel" (.str "")
  let id ← (field req "event_id" (.int 0)).toInt outside.decimal
  if channel.truthy then
    match channel with
    | .str name =>
        if outside.legal name && outside.eventId id && moment.rings then
          .ok { c with
            notifiers := c.notifiers.set name ()
            effects := c.effects ++ [.rang name id] }
        else .error (.libraryError "ring")
    | _ => .error .typeError
  else .ok c

def listenEvent : Except Exn (Connection V) :=
  let channel := field req "channel" (.str "")
  if channel.truthy then do
    let key ← keyOf channel
    if key ∈ c.listenTasks.keys then .ok c
    else .ok { c with
      listenTasks := c.listenTasks.set key c.tasks.length
      tasks := c.tasks ++ [Task.new (.listen channel)] }
  else .ok c

def unlistenEvent : Except Exn (Connection V) := do
  let key ← keyOf (field req "channel" (.str ""))
  pure (c.dropListen key)

/-- The request that is dropped into the inbox. -/
def paramRequest : JsonObj :=
  [("key", field req "key" .null), ("value", field req "value" .null)] ++
    if (field req "persist" .null).truthy then [("persist", .bool true)] else []

def setParam : Except Exn (Connection V) :=
  let topic := field req "topic" (.str "")
  match field req "key" .null with
  | .null => .ok c
  | _ =>
      if topic.truthy then
        match topic with
        | .str name =>
            match InboxRouting.submit outside.home name ⟨0, moment.pid, moment.time, paramRequest req⟩
              moment.files with
            | .ok _ _ => .ok { c with effects := c.effects ++ [.submitted name (paramRequest req)] }
            | .error e _ => .error (.osError e)
        | _ => .error .attributeError
      else .ok c

end Verbs

section Steps

variable (outside : Outside) (planes : Planes)

/-- One message of the loop. -/
def onRequest (moment : Moment) (req : JsonObj) (c : Connection V) : Except Exn (Connection V) :=
  match verbOf req with
  | some .subscribeTopic => c.subscribeTopic outside planes moment req
  | some .unsubscribeTopic => c.unsubscribeTopic req
  | some .ringEvent => c.ringEvent outside moment req
  | some .listenEvent => c.listenEvent req
  | some .unlistenEvent => c.unlistenEvent req
  | some .setParam => c.setParam outside moment req
  | none => .ok c

/-- The document `json.loads` makes of a text, if it does not raise. -/
def loaded (message : Option Json) : Option Json :=
  match message with
  | none => none
  | some document =>
      match document.loads with
      | .ok read => some read
      | .error _ => none

/-- A text message; `none` is a text that is not JSON. -/
def onText (moment : Moment) (message : Option Json) (c : Connection V) : Except Exn (Connection V) :=
  match loaded message with
  | none => .ok c
  | some (.obj req) => c.onRequest outside planes moment req
  | some _ => .error .attributeError

end Steps

end Connection

inductive Action (V : Type) where
  | text (message : Option Json) (moment : Moment)
  /-- A message of another type. -/
  | binary
  /-- An error, or the client has closed the connection. -/
  | ends
  /-- A turn of the task of this number. -/
  | turn (n : Nat) (turn : Turn V)

section Runs

variable {V : Type} (outside : Outside) (planes : Planes)

/-- What an exception ends is the loop. -/
def step (c : Connection V) : Action V → Connection V
  | .text message moment =>
      if c.isOpen then
        match c.onText outside planes moment message with
        | .ok c' => c'
        | .error _ => c.finish
      else c
  | .binary => c
  | .ends => if c.isOpen then c.finish else c
  | .turn n turn => { c with tasks := c.tasks.modify n (Task.turn outside turn) }

/-- The connection after some actions, from its beginning. -/
def after (actions : List (Action V)) : Connection V := actions.foldl (step outside planes) .new

end Runs

end KoyuRuntime.Services.Bridge
