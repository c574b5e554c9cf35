/-
# Services.DataRecorder.Shell — the recorder on its WaitSet thread

The recorder is a state and three entry points: `onEvent` for the control
channel, `onTick` for the 200 Hz tick, and the worker thread that finishes one
finalize job after the other.  The twelve fields `_reset` clears are one record,
`Capture`.

`episode` lists the ids rung on `recorder/episode`; `journal` lists, in order,
what happened to which capture.  No handler reads either.
-/
import KoyuRuntime.Services.DataRecorder.Finalize
import KoyuRuntime.Services.Inbox
import KoyuRuntime.Ipc.Blackboard

namespace KoyuRuntime.Services.DataRecorder

open Host Theory Ipc

set_option autoImplicit false

/-- `recorder/control` ids. -/
def ctlStart : Nat := 1
def ctlStop : Nat := 2
def ctlDiscard : Nat := 3

/-- `recorder/episode` ids. -/
def epCaptured : Nat := 1
def epDiscarded : Nat := 2
def epFailed : Nat := 3

inductive State where
  | idle
  | recording
  deriving DecidableEq, Repr

/-- What `_reset` clears: everything that belongs to one capture. -/
structure Capture (P V : Type) where
  captureId : String := ""
  deferred : List (Sample P) := []
  rows : List (Row V) := []
  cache : OrderedDict String (Sample P) := ∅
  pairCache : OrderedDict String (OrderedDict Nat (Sample P)) := ∅
  snap : Option RecordingContext := none
  recHz : Double := .fin 0
  periodNs : Int := 0
  nextDue : Int := 0
  lastTs : Int := 0
  t0Ns : Int := 0
  clockSeen : ℚ := 0

/-- The arguments of one `pool.submit(finalize, ...)`. -/
structure Job (V : Type) where
  ctx : Option RecordingContext
  rows : List (Row V)
  recHz : Double
  captureId : String
  verdict : Option JsonObj

/-- A submitted job and what it returned or raised, once it is done. -/
structure Future (V : Type) where
  job : Job V
  result : Option (Except Exn Outcome)

/-- The reasons `_abort` is called with. -/
inductive AbortReason where
  /-- "clock went backwards (NTP step?)" -/
  | clockBackwards
  /-- "'topic' stale at t=ts" -/
  | stale (topic : String) (ts : Int)
  /-- "paired source never matched frame id" -/
  | neverMatched (frameId : Nat)
  /-- "clock 'topic' silent for 1.0s" -/
  | clockSilent (topic : String)
  deriving DecidableEq, Repr

inductive Entry (V : Type) where
  | opened (captureId : String) (snap : RecordingContext) (recHz : Double) (t0Ns : Int)
  | discarded (captureId : String)
  | aborted (captureId : String) (reason : AbortReason)
  | submitted (job : Job V)
  | finished (job : Job V) (result : Except Exn Outcome)
  | collected (job : Job V) (result : Except Exn Outcome)

/-- The cell on `recorder/telemetry`. -/
structure RecorderTelemetry where
  frameId : Nat
  state : Nat
  frames : Nat
  captureId : String
  deriving DecidableEq, Repr

/-- `_tele_fid`, `_tele_last` and the writer. -/
structure TelemetryPort where
  fid : Nat
  last : Option (Nat × Nat × String)
  writer : Writer RecorderTelemetry

structure Recorder (P V : Type) where
  state : State
  cap : Capture P V
  subs : OrderedDict String (Subscriber P)
  pending : List (Future V)
  verdicts : Inbox
  telemetry : TelemetryPort
  episode : List Nat
  journal : List (Entry V)

variable {P V : Type}

/-! ## Small effects -/

def ring (id : Nat) (r : Recorder P V) : Recorder P V := { r with episode := r.episode ++ [id] }

def note (entry : Entry V) (r : Recorder P V) : Recorder P V :=
  { r with journal := r.journal ++ [entry] }

/-- `_reset` and `self.state = "idle"`, which every caller but START runs together. -/
def toIdle (r : Recorder P V) : Recorder P V := { r with cap := {}, state := .idle }

/-- The body of `_telemetry`: publish on change only, with a fresh frame id. -/
def TelemetryPort.publish (port : TelemetryPort) (now : Nat × Nat × String) : TelemetryPort :=
  if port.last = some now then port
  else
    let fid := port.fid + 1
    ⟨fid, some now, (port.writer.write ⟨fid, now.1, now.2.1, now.2.2⟩).2⟩

/-- `_telemetry`. -/
def publish (r : Recorder P V) : Recorder P V :=
  let now := (if r.state = .recording then 1 else 0, r.cap.rows.length, r.cap.captureId)
  { r with telemetry := r.telemetry.publish now }

/-! ## Verdicts -/

/-- `capture_id and req.get("capture_id") == capture_id`. -/
def names (captureId : Option String) (req : JsonObj) : Bool :=
  match captureId with
  | none => false
  | some id => decide (id ≠ "") && match JsonObj.get? req "capture_id" with
      | some value => value.eqStr id
      | none => false

def duplicateReason (captureId : Option String) : String :=
  "duplicate verdict for " ++ captureId.getD ""

def mismatchReason (captureId : Option String) : String :=
  "capture_id mismatch (current: " ++
    (match captureId with
      | some id => if id = "" then "none" else id
      | none => "none") ++ ")"

/-- The loop of `_drain_verdicts` over the drained requests. -/
def matchVerdicts (captureId : Option String) :
    Option JsonObj → Inbox → List JsonObj → Option JsonObj × Inbox
  | matched, box, [] => (matched, box)
  | matched, box, req :: rest =>
      if names captureId req then
        match matched with
        | none => matchVerdicts captureId (some req) box rest
        | some _ =>
            matchVerdicts captureId matched (box.quarantine req (duplicateReason captureId)) rest
      else matchVerdicts captureId matched (box.quarantine req (mismatchReason captureId)) rest

/-- `_drain_verdicts`. -/
def drainVerdicts (captureId : Option String) (r : Recorder P V) : Option JsonObj × Recorder P V :=
  let (reqs, box) := r.verdicts.drain
  let (matched, box) := matchVerdicts captureId none box reqs
  (matched, { r with verdicts := box })

/-! ## Ends of a capture -/

/-- `_abort`. -/
def abort (reason : AbortReason) (r : Recorder P V) : Recorder P V :=
  let r := (drainVerdicts none r).2
  let r := note (.aborted r.cap.captureId reason) r
  ring epFailed (publish (toIdle r))

/-- `_submit_finalize`. -/
def submitFinalize (r : Recorder P V) : Recorder P V :=
  let (verdict, r) := drainVerdicts (some r.cap.captureId) r
  let job : Job V := ⟨r.cap.snap, r.cap.rows, r.cap.recHz, r.cap.captureId, verdict⟩
  let r := note (.submitted job) { r with pending := r.pending ++ [⟨job, none⟩] }
  publish (toIdle r)

/-! ## The capture pass -/

/-- `while len(held) > PAIR_CACHE: del held[min(held)]`, with the dictionary's size as fuel. -/
def evict : Nat → OrderedDict Nat (Sample P) → OrderedDict Nat (Sample P)
  | 0, held => held
  | fuel + 1, held =>
      if held.size > pairCacheCap then
        match held.keys.min? with
        | some oldest => evict fuel (held.erase oldest)
        | none => held
      else held

/-- `self.subs[topic].drain()`; a topic without a port reads as empty. -/
def drainTopic (topic : String) (r : Recorder P V) : List (Sample P) × Recorder P V :=
  match r.subs.get? topic with
  | none => ([], r)
  | some sub => (sub.drain.1, { r with subs := r.subs.set topic sub.drain.2 })

/-- `self.subs[topic].latest()`. -/
def latestTopic (topic : String) (r : Recorder P V) : Option (Sample P) × Recorder P V :=
  match r.subs.get? topic with
  | none => (none, r)
  | some sub => (sub.latest.1, { r with subs := r.subs.set topic sub.latest.2 })

/-- One turn of the refresh loop: drain lockstep answers, or read the latest sample. -/
def refreshSource (r : Recorder P V) (s : Source P V) : Recorder P V :=
  if s.paired then
    let held := (r.cap.pairCache.get? s.topic).getD ∅
    let (samples, r) := drainTopic s.topic r
    let held := held.setAll (samples.map fun x => (x.frameId, x))
    { r with cap.pairCache := r.cap.pairCache.set s.topic (evict held.size held) }
  else
    match latestTopic s.topic r with
    | (some sample, r) => { r with cap.cache := r.cap.cache.set s.topic sample }
    | (none, r) => r

def refresh (cfg : Config P V) (r : Recorder P V) : Recorder P V :=
  cfg.others.foldl refreshSource r

/-- The held answer of a paired source to a frame. -/
def answer (c : Capture P V) (s : Source P V) (frameId : Nat) : Option (Sample P) :=
  (c.pairCache.get? s.topic).bind (·.get? frameId)

/-- Does every paired source hold an answer to this frame? -/
def answered (cfg : Config P V) (c : Capture P V) (frameId : Nat) : Bool :=
  cfg.others.all fun s => !s.paired || (answer c s frameId).isSome

/-- Is a window source's cached sample missing or out of tolerance at `ts`? -/
def staleAt (c : Capture P V) (ts : Int) (s : Source P V) : Bool :=
  !s.paired && match c.cache.get? s.topic with
    | none => true
    | some x => decide (tolNs s < |x.stamp - ts|)

/-- The sample a source contributes to a row. -/
def sampleFor (c : Capture P V) (frameId : Nat) (s : Source P V) : Option (Sample P) :=
  if s.paired then answer c s frameId else c.cache.get? s.topic

/-- The row dictionary: the clock's value, then every other source's, in order. -/
def rowValues (cfg : Config P V) (c : Capture P V) (frame : Sample P) : OrderedDict String V :=
  (OrderedDict.ofList [(cfg.clock.feature, cfg.clock.extract frame)]).setAll
    (cfg.others.filterMap fun s =>
      (sampleFor c frame.frameId s).map fun x => (s.feature, s.extract x))

/-- `_frame`: was the frame consumed, and the recorder after it. -/
def frame (cfg : Config P V) (f : Sample P) (r : Recorder P V) : Bool × Recorder P V :=
  -- an unmatched answer means "still cooking": the frame waits before any other test
  if !answered cfg r.cap f.frameId then (false, r)
  else if f.stamp < r.cap.t0Ns then (true, r)
  else if f.stamp < r.cap.lastTs then (true, abort .clockBackwards r)
  else
    let (keep, due) := gate f.stamp r.cap.nextDue r.cap.periodNs
    let r := { r with cap.lastTs := f.stamp, cap.nextDue := due }
    if !keep then (true, r)
    else
      match cfg.others.find? (staleAt r.cap f.stamp) with
      | some s =>
          -- mid-episode drift aborts; at the leading edge the frame is skipped
          if r.cap.rows ≠ [] then (true, abort (.stale s.topic f.stamp) r) else (true, r)
      | none =>
          (true, { r with cap.rows := r.cap.rows ++ [(f.stamp, rowValues cfg r.cap f)] })

/-- `self.deferred.pop(0)`. -/
def pop (r : Recorder P V) : Recorder P V := { r with cap.deferred := r.cap.deferred.tail }

/-- The deferred queue's loop; the list is the queue as it stands. -/
def consume (cfg : Config P V) : List (Sample P) → Recorder P V → Recorder P V
  | [], r => r
  | f :: rest, r =>
      if r.state ≠ .recording then r
      else
        match frame cfg f r with
        | (consumed, r) =>
            if r.state ≠ .recording then r
            else if consumed then consume cfg rest (pop r)
            else if r.cap.deferred.length > clockBuffer then abort (.neverMatched f.frameId) r
            else r

/-- The clock frames a pass drains: what the clock's port holds once the other
sources have been refreshed. -/
def clockDrain (cfg : Config P V) (r : Recorder P V) : List (Sample P) :=
  (drainTopic cfg.clock.topic (refresh cfg r)).1

/-- The pass up to its loop: caches refreshed, the clock drained into the queue. -/
def arrive (cfg : Config P V) (mono : ℚ) (r : Recorder P V) : Recorder P V :=
  let frames := clockDrain cfg r
  let r := (drainTopic cfg.clock.topic (refresh cfg r)).2
  let r := if frames ≠ [] then { r with cap.clockSeen := mono } else r
  { r with cap.deferred := r.cap.deferred ++ frames }

/-- `_capture`, with the `time.monotonic()` it reads. -/
def capture (cfg : Config P V) (mono : ℚ) (r : Recorder P V) : Recorder P V :=
  let r := arrive cfg mono r
  consume cfg r.cap.deferred r

/-! ## The entry points -/

/-- What `_read_context` finds at the context file. -/
inductive ContextFile where
  | missing
  | invalid
  | valid (ctx : RecordingContext)

/-- `_read_context`. -/
def readContext : ContextFile → RecordingContext
  | .valid ctx => ctx
  | _ => {}

/-- `_read_record_hz`, from the `recorder/config` cell if there is one. -/
def readRecordHz (cfg : Config P V) (cell : Option Double) : Double :=
  let hz := cell.getD (.fin 0)
  if hz.ge cfg.clock.rateHz then .fin 0 else hz.maxZero

/-- `int(1e9 / self.rec_hz) if self.rec_hz else 0`. -/
def periodOf (recHz : Double) : Except Exn Int :=
  if recHz.truthy then (Double.divInto 1000000000 recHz).bind Double.toInt else .ok 0

/-- What handling one control event reads from outside. -/
structure Readings where
  contextFile : ContextFile
  config : Option Double
  timeNs : Int
  mono : ℚ
  captureId : Uuid

/-- `on_event`, `CTL_START` while idle. -/
def start (cfg : Config P V) (env : Readings) (r : Recorder P V) : Except Exn (Recorder P V) :=
  let snap := readContext env.contextFile
  let recHz := readRecordHz cfg env.config
  (periodOf recHz).map fun period =>
    let cap : Capture P V :=
      { captureId := env.captureId.hex, snap := some snap, recHz := recHz, periodNs := period,
        t0Ns := env.timeNs, clockSeen := env.mono }
    publish (note (.opened env.captureId.hex snap recHz env.timeNs)
      { r with cap := cap, state := .recording })

/-- `on_event`, `CTL_DISCARD` while recording. -/
def discard (r : Recorder P V) : Recorder P V :=
  let r := (drainVerdicts none r).2
  publish (toIdle (note (.discarded r.cap.captureId) r))

/-- `on_event`, `CTL_STOP` while recording: catch the clock queue's tail first. -/
def stop (cfg : Config P V) (mono : ℚ) (r : Recorder P V) : Recorder P V :=
  let r := capture cfg mono r
  -- the tail can still abort
  if r.state = .recording then submitFinalize r else r

/-- `on_event`. -/
def onEvent (cfg : Config P V) (channel : String) (eventId : Nat) (env : Readings)
    (r : Recorder P V) : Except Exn (Recorder P V) :=
  if channel ≠ "recorder/control" then .ok r
  else if eventId = ctlStart then
    if r.state ≠ .idle then .ok r else start cfg env r
  else if eventId = ctlDiscard ∧ r.state = .recording then .ok (discard r)
  else if eventId = ctlStop ∧ r.state = .recording then .ok (stop cfg env.mono r)
  else .ok r

/-- The id one collected result rings. -/
def resultRing : Except Exn Outcome → Nat
  | .ok out => if out.path.isSome then epCaptured else epDiscarded
  | .error _ => epFailed

/-- The loop of `_collect` over the pending futures; gives the ones still running. -/
def collectLoop : List (Future V) → Recorder P V → List (Future V) × Recorder P V
  | [], r => ([], r)
  | fut :: rest, r =>
      match fut.result with
      | none =>
          let (still, r) := collectLoop rest r
          (fut :: still, r)
      | some result =>
          collectLoop rest (note (.collected fut.job result) (ring (resultRing result) r))

/-- `_collect`. -/
def collect (r : Recorder P V) : Recorder P V :=
  let (still, r) := collectLoop r.pending r
  { r with pending := still }

/-- The two `time.monotonic()` readings of a tick. -/
structure TickReadings where
  mono : ℚ
  monoAfter : ℚ

/-- Has the clock been silent for too long? -/
def clockSilent (now : ℚ) (r : Recorder P V) : Bool := decide (clockTimeoutS < now - r.cap.clockSeen)

/-- The tail of `on_tick`, once the pass has left the recorder recording. -/
def afterPass (cfg : Config P V) (now : ℚ) (r : Recorder P V) : Recorder P V :=
  let r := publish r
  if clockSilent now r then abort (.clockSilent cfg.clock.topic) r
  else if maxFrames ≤ r.cap.rows.length then submitFinalize r
  else r

/-- `on_tick`. -/
def onTick (cfg : Config P V) (env : TickReadings) (r : Recorder P V) : Recorder P V :=
  let r := collect r
  if r.state ≠ .recording then r
  else
    let r := capture cfg env.mono r
    -- the pass may have aborted
    if r.state ≠ .recording then r else afterPass cfg env.monoAfter r

/-- `setup`: one subscriber per topic, deep for the clock and every paired source. -/
def subscribe (cfg : Config P V) : OrderedDict String (Subscriber P) :=
  let shallow (s : Source P V) : String × Subscriber P :=
    (s.topic, BoundedQueue.empty (if s.paired then clockBuffer else 1))
  OrderedDict.ofList
    (cfg.before.map shallow ++ (cfg.clock.topic, BoundedQueue.empty clockBuffer) ::
      cfg.after.map shallow)

end KoyuRuntime.Services.DataRecorder
