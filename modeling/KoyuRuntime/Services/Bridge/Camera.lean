/-
# Services.Bridge.Camera — camera frames, served as JPEGs

Frames of a stream go out in two ways.  `/frame/<topic>` answers with one JPEG.
`/mjpeg/<topic>` is a response that does not end: it opens with the cached picture, and then
each new frame is pushed as one more part, no faster than the viewer asked for; while no frame
comes, the cached picture is pushed again every three seconds.

Every viewer has a subscriber of depth one.  Frames are encoded in threads, which share one
cache, of the last picture of each topic: a thread stores its picture there and then returns
what the cache holds, and another thread may have been there in between.  A thread goes on
after the viewer that waits for it has left.

Between two of its waits a handler runs alone; a thread's store and its look into the cache
are one step each.  What goes to stdout is left out.
-/
import KoyuRuntime.Services.Bridge.Connection

namespace KoyuRuntime.Services.Bridge.Camera

open Host Theory Ipc.Types

set_option autoImplicit false

/-! ## Outside -/

/-- What Python and the libraries make of a query and of a struct. -/
structure Pictures (V J : Type) where
  /-- `float(text)`; none is a `ValueError`. -/
  float : String → Option Double
  /-- Has the struct a width, a height and data? -/
  imageShaped : V → Bool
  /-- `getattr(v, "frame_id", None)`. -/
  frameId : V → Option Nat
  /-- The JPEG of the struct's pixels, or what `numpy` or `PIL` raises. -/
  jpeg : V → Except Exn J

/-- What an attempt to open a subscriber finds. -/
structure Arrival where
  /-- Is there a publisher, with a slot left? -/
  connects : Bool
  /-- Does it deliver the sample it sent last? -/
  history : Bool

/-- What a viewer finds in one of its turns. -/
structure Turn where
  /-- Is the transport gone or closing? -/
  closing : Bool
  /-- `loop.time()`. -/
  now : ℚ
  /-- Where the probe opens the subscriber, and where the read does. -/
  probe : Arrival
  read : Arrival
  /-- Does `resp.write` get through? -/
  writes : Bool

/-! ## Subscribers -/

/-- `_LazySubscriber(topic, ..., buffer=1)`: closed until it connects, then it holds the
newest sample that has not been read. -/
inductive Port (V : Type) where
  | closed
  | opened (newest : Option V)
  deriving DecidableEq

namespace Port

variable {V : Type}

def ensure (arrival : Arrival) (last : Option V) : Port V → Port V
  | .closed =>
      if arrival.connects then .opened (if arrival.history then last else none) else .closed
  | .opened newest => .opened newest

def unread : Port V → Option V
  | .closed => none
  | .opened newest => newest

def latest (arrival : Arrival) (last : Option V) (port : Port V) : Option V × Port V :=
  match port.ensure arrival last with
  | .closed => (none, .closed)
  | .opened newest => (newest, .opened none)

/-- The publisher sends a sample. -/
def receive (v : V) : Port V → Port V
  | .closed => .closed
  | .opened _ => .opened (some v)

end Port

/-! ## Encoding -/

/-- How far a thread has come. -/
inductive Stage (J : Type) where
  | submitted
  | stored
  | returned (jpeg : Except Exn (Option J))

/-- A thread that runs `_encode_jpeg(topic, frame)`. -/
structure Encode (V J : Type) where
  topic : String
  frame : Option V
  stage : Stage J

section Encode

variable {V J : Type} (pictures : Pictures V J)

/-- The `if` block of `_encode_jpeg`, with the new cache. -/
def Encode.store (cache : OrderedDict String J) (e : Encode V J) : Encode V J × OrderedDict String J :=
  match e.stage with
  | .submitted =>
      match e.frame.filter pictures.imageShaped with
      | none => ({ e with stage := .stored }, cache)
      | some v =>
          match pictures.jpeg v with
          | .ok jpeg => ({ e with stage := .stored }, cache.set e.topic jpeg)
          | .error x => ({ e with stage := .returned (.error x) }, cache)
  | _ => (e, cache)

/-- `return _frame_cache.get(topic)`. -/
def Encode.fetch (cache : OrderedDict String J) (e : Encode V J) : Encode V J :=
  match e.stage with
  | .stored => { e with stage := .returned (.ok (cache.get? e.topic)) }
  | _ => e

end Encode

/-! ## Viewers -/

/-- A part of an MJPEG response. -/
inductive Part (V J : Type) where
  /-- The cached picture, before the loop. -/
  | opening (jpeg : J)
  /-- For a new frame, read at this time. -/
  | fresh (time : ℚ) (frame : V) (jpeg : J)
  /-- The cached picture once more. -/
  | again (time : ℚ) (jpeg : J)
  deriving DecidableEq

/-- Where a viewer's handler waits. -/
inductive Phase (V : Type) where
  | preparing
  /-- In a write or in `asyncio.sleep(0.005)`. -/
  | waiting
  /-- For the thread of this number, with the frame and the time of the turn. -/
  | encoding (frame : V) (now : ℚ) (thread : Nat)
  | left
  deriving DecidableEq

structure Viewer (V J : Type) where
  topic : String
  minDt : Double
  sub : Port V
  lastFid : Option Nat
  lastPush : ℚ
  probeAt : Option ℚ
  phase : Phase V
  parts : List (Part V J)
  deriving DecidableEq

/-- `min(x, 120.0)`: the second argument replaces the first only if it is smaller. -/
def atMost120 : Double → Double
  | .nan => .nan
  | .inf negative => if negative then .inf true else .fin 120
  | .fin q => if 120 < q then .fin 120 else .fin q

/-- `elapsed >= min_dt`. -/
def reached (minDt : Double) (elapsed : ℚ) : Bool :=
  match minDt with
  | .nan => false
  | .inf negative => negative
  | .fin q => decide (q ≤ elapsed)

/-- `KEEPALIVE_S`. -/
def keepaliveS : ℚ := 3

namespace Viewer

variable {V J : Type} (pictures : Pictures V J)

def new (topic : String) (minDt : Double) : Viewer V J :=
  ⟨topic, minDt, .closed, none, 0, none, .preparing, []⟩

/-- `fps`, and what is at least between two pushes. -/
def minDtOf (query : Option String) : Except Exn Double :=
  let fps := match query with
    | none => .fin 30
    | some text =>
        match pictures.float text with
        | none => .fin 30
        | some x => atMost120 (atLeastOne x)
  Double.divInto 1 fps

/-- `await push(jpeg)`: the part has been handed on, whether or not the write gets through. -/
def push (part : Part V J) (writes : Bool) (v : Viewer V J) : Viewer V J :=
  { v with parts := v.parts ++ [part], phase := if writes then .waiting else .left }

/-- From `resp.prepare` to the loop. -/
def opens (now : ℚ) (cached : Option J) (writes : Bool) (v : Viewer V J) : Viewer V J :=
  let v := { v with probeAt := some (now + 2), phase := .waiting }
  match cached with
  | none => v
  | some jpeg => v.push (.opening jpeg) writes

/-- The silent-failure guard. -/
def guarded (turn : Turn) (last : Option V) (v : Viewer V J) : Viewer V J :=
  match v.probeAt with
  | none => v
  | some probeAt =>
      if probeAt ≤ turn.now then { v with probeAt := none, sub := v.sub.ensure turn.probe last } else v

/-- From the top of the loop to its next wait, and the frame that goes to a new thread. -/
def turn (turn : Turn) (last : Option V) (cached : Option J) (thread : Nat) (v : Viewer V J) :
    Viewer V J × Option V :=
  if turn.closing then ({ v with phase := .left }, none)
  else
    let v := v.guarded turn last
    if reached v.minDt (turn.now - v.lastPush) then
      let (frame, sub) := v.sub.latest turn.read last
      let v := { v with sub := sub }
      match frame.filter fun frame => decide (pictures.frameId frame ≠ v.lastFid) with
      | some frame => ({ v with phase := .encoding frame turn.now thread }, some frame)
      | none =>
          if keepaliveS ≤ turn.now - v.lastPush then
            let v := { v with lastPush := turn.now }
            match cached with
            | none => (v, none)
            | some jpeg => (v.push (.again turn.now jpeg) turn.writes, none)
          else (v, none)
    else (v, none)

/-- From the thread's return to the next wait. -/
def resume (frame : V) (now : ℚ) (writes : Bool) (v : Viewer V J) : Except Exn (Option J) → Viewer V J
  | .error _ => { v with phase := .left }
  | .ok none => { v with phase := .waiting }
  | .ok (some jpeg) =>
      match pictures.frameId frame with
      | none => { v with phase := .left }
      | some fid =>
          { v with lastFid := some fid, lastPush := now }.push (.fresh now frame jpeg) writes

end Viewer

/-! ## The bridge -/

inductive Reply (J : Type) where
  | image (jpeg : J)
  | noContent
  | failed

/-- A request for one frame, and the thread it waits for. -/
structure Shot (J : Type) where
  topic : String
  thread : Nat
  reply : Option (Reply J)

structure Cameras (V J : Type) where
  /-- What has been sent on the topics, in order. -/
  published : List (String × V)
  frameCache : OrderedDict String J
  frameSubs : OrderedDict String (Port V)
  threads : List (Encode V J)
  viewers : List (Viewer V J)
  shots : List (Shot J)

inductive Action (V : Type) where
  | publish (topic : String) (v : V)
  /-- A request to `/mjpeg/<topic>`, with its `fps` and what `topic_planes()` returns. -/
  | view (topic : String) (planes : Planes) (fps : Option String)
  | opens (k : Nat) (now : ℚ) (writes : Bool)
  | turn (k : Nat) (turn : Turn)
  | resume (k : Nat) (writes : Bool)
  /-- The viewer's handler is cancelled. -/
  | leave (k : Nat)
  /-- A request to `/frame/<topic>`. -/
  | snapshot (topic : String) (planes : Planes) (arrival : Arrival)
  | reply (k : Nat)
  /-- A thread's two steps. -/
  | store (n : Nat)
  | fetch (n : Nat)

/-- `_stream_info(topic)`. -/
def streamInfo (planes : Planes) (topic : String) : Option Yaml :=
  match planes.get? (.str topic) with
  | some (type, plane) => if plane = "stream" then some type else none
  | none => none

namespace Cameras

variable {V J : Type} (pictures : Pictures V J)

def new : Cameras V J := ⟨[], ∅, ∅, [], [], []⟩

/-- What has been sent on a topic, in order. -/
def publishedOn (topic : String) (s : Cameras V J) : List V :=
  s.published.filterMap fun e => if e.1 = topic then some e.2 else none

def publish (topic : String) (v : V) (s : Cameras V J) : Cameras V J :=
  { s with
    published := s.published ++ [(topic, v)]
    frameSubs := match s.frameSubs.get? topic with
      | none => s.frameSubs
      | some port => s.frameSubs.set topic (port.receive v)
    viewers := s.viewers.map fun viewer =>
      if viewer.topic = topic then { viewer with sub := viewer.sub.receive v } else viewer }

/-- `mjpeg_handler`, up to its first wait; the type is resolved once the response is prepared,
and a viewer whose type cannot be gets no part. -/
def view (topic : String) (planes : Planes) (fps : Option String) (s : Cameras V J) : Cameras V J :=
  match streamInfo planes topic, Viewer.minDtOf pictures fps with
  | some type, .ok minDt =>
      match resolve type with
      | .ok _ => { s with viewers := s.viewers ++ [.new topic minDt] }
      | .error _ => s
  | _, _ => s

/-- `run_in_executor(None, _encode_jpeg, topic, frame)`. -/
def submit (topic : String) (frame : Option V) (s : Cameras V J) : Cameras V J :=
  { s with threads := s.threads ++ [⟨topic, frame, .submitted⟩] }

def setViewer (k : Nat) (v : Viewer V J) (s : Cameras V J) : Cameras V J :=
  { s with viewers := s.viewers.set k v }

def turnOf (k : Nat) (turn : Turn) (v : Viewer V J) (s : Cameras V J) : Cameras V J :=
  match v.turn pictures turn (s.publishedOn v.topic).getLast? (s.frameCache.get? v.topic) s.threads.length with
  | (v', none) => s.setViewer k v'
  | (v', some frame) => (s.setViewer k v').submit v.topic (some frame)

/-- The subscriber that all snapshots of a topic share, made for the first of them; the type
is resolved only then. -/
def frameSub (topic : String) (type : Yaml) (s : Cameras V J) : Option (Port V) :=
  match s.frameSubs.get? topic, resolve type with
  | some port, _ => some port
  | none, .ok _ => some .closed
  | none, .error _ => none

/-- `frame_handler`, up to its wait. -/
def snapshot (topic : String) (planes : Planes) (arrival : Arrival) (s : Cameras V J) : Cameras V J :=
  match streamInfo planes topic with
  | none => s
  | some type =>
      match s.frameSub topic type with
      | none => s
      | some port =>
          let (frame, port') := port.latest arrival (s.publishedOn topic).getLast?
          { s.submit topic frame with
            frameSubs := s.frameSubs.set topic port'
            shots := s.shots ++ [⟨topic, s.threads.length, none⟩] }

def replyOf : Except Exn (Option J) → Reply J
  | .ok (some jpeg) => .image jpeg
  | .ok none => .noContent
  | .error _ => .failed

def step (s : Cameras V J) : Action V → Cameras V J
  | .publish topic v => s.publish topic v
  | .view topic planes fps => s.view pictures topic planes fps
  | .opens k now writes =>
      match s.viewers[k]? with
      | none => s
      | some v =>
          match v.phase with
          | .preparing => s.setViewer k (v.opens now (s.frameCache.get? v.topic) writes)
          | _ => s
  | .turn k turn =>
      match s.viewers[k]? with
      | none => s
      | some v =>
          match v.phase with
          | .waiting => s.turnOf pictures k turn v
          | _ => s
  | .resume k writes =>
      match s.viewers[k]? with
      | none => s
      | some v =>
          match v.phase with
          | .encoding frame now n =>
              match s.threads[n]? with
              | some ⟨_, _, .returned jpeg⟩ => s.setViewer k (v.resume pictures frame now writes jpeg)
              | _ => s
          | _ => s
  | .leave k => { s with viewers := s.viewers.modify k fun v => { v with phase := .left } }
  | .snapshot topic planes arrival => s.snapshot topic planes arrival
  | .reply k =>
      match s.shots[k]? with
      | some ⟨topic, n, none⟩ =>
          match s.threads[n]? with
          | some ⟨_, _, .returned jpeg⟩ => { s with shots := s.shots.set k ⟨topic, n, some (replyOf jpeg)⟩ }
          | _ => s
      | _ => s
  | .store n =>
      match s.threads[n]? with
      | none => s
      | some e =>
          let (e', cache) := e.store pictures s.frameCache
          { s with threads := s.threads.set n e', frameCache := cache }
  | .fetch n => { s with threads := s.threads.modify n (Encode.fetch s.frameCache) }

/-- The bridge after some actions, from its start. -/
def after (actions : List (Action V)) : Cameras V J := actions.foldl (step pictures) .new

end Cameras

namespace Demo

/-- Frames are their numbers. -/
def pictures : Pictures Nat Nat := ⟨fun _ => none, fun _ => true, some, fun v => .ok (100 + v)⟩

def planes : Planes := OrderedDict.ofList [(.str "cam/wrist", (.str "CameraFrame", "stream"))]

def turnAt (now : ℚ) : Turn := ⟨false, now, ⟨true, true⟩, ⟨true, true⟩, true⟩

end Demo

end KoyuRuntime.Services.Bridge.Camera
