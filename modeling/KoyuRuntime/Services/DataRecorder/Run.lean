/-
# Services.DataRecorder.Run — the recorder among publishers, judges and its worker

One action is a sample reaching a subscription, a verdict file appearing in the
inbox, a control event, a tick, or the worker thread finishing its next job.
Handlers run on one thread, so a run is a list of actions.  A `START` may raise
(then the process is gone and the run ends); `uuid4` never repeats an id, so an
action that would is no action of a run.

`History` records what a run is judged by and no handler keeps: every sample
that reached a topic; since `START`, the clock frames drained, whether the window
samples were fresh at each as it was drained, and the lockstep answers drained;
every verdict drained from the inbox; and for every job what its capture had seen.
-/
import KoyuRuntime.Services.DataRecorder.Shell
import KoyuRuntime.Theory.Transition
import KoyuRuntime.Theory.Sift

namespace KoyuRuntime.Services.DataRecorder

open Host Theory Ipc

set_option autoImplicit false

structure World (P V : Type) where
  recorder : Recorder P V
  disk : Disk V

inductive Action (P : Type) where
  | deliver (topic : String) (sample : Sample P)
  | submit (stem : String) (content : Option JsonObj)
  | event (channel : String) (eventId : Nat) (env : Readings)
  | tick (env : TickReadings)
  | finish (call : Call)

variable {P V : Type}

/-! ## The worker -/

/-- The job the single worker thread runs next: the oldest one not done. -/
def nextJob (pending : List (Future V)) : Option (Job V) :=
  (pending.find? fun fut => fut.result.isNone).map (·.job)

/-- Record the result of the oldest future not done. -/
def completeNext (result : Except Exn Outcome) : List (Future V) → List (Future V)
  | [] => []
  | fut :: rest =>
      match fut.result with
      | none => ⟨fut.job, some result⟩ :: rest
      | some _ => fut :: completeNext result rest

/-- `finalize` on the worker: its result, and the disk after it. -/
def runJob (libs : Libs V) (cfg : Config P V) (call : Call) (job : Job V) (disk : Disk V) :
    Except Exn Outcome × Disk V :=
  match job.ctx with
  -- `ctx.model_dump()` on `None`
  | none => (.error .attributeError, disk)
  | some ctx =>
      match finalize libs call cfg.recordings ctx job.rows cfg.sources job.recHz
          (some job.captureId) job.verdict disk with
      | .ok out disk' => (.ok out, disk')
      | .error e disk' => (.error e, disk')

def finishNext (libs : Libs V) (cfg : Config P V) (call : Call) (w : World P V) : World P V :=
  match nextJob w.recorder.pending with
  | none => w
  | some job =>
      let done := runJob libs cfg call job w.disk
      { recorder := note (.finished job done.1)
          { w.recorder with pending := completeNext done.1 w.recorder.pending }
        disk := done.2 }

/-! ## Steps -/

/-- A sample reaches the subscription of its topic, if there is one. -/
def deliver (topic : String) (sample : Sample P) (r : Recorder P V) : Recorder P V :=
  match r.subs.get? topic with
  | none => r
  | some sub => { r with subs := r.subs.set topic (sub.push sample) }

def World.step (libs : Libs V) (cfg : Config P V) (w : World P V) :
    Action P → Except Exn (World P V)
  | .deliver topic sample => .ok { w with recorder := deliver topic sample w.recorder }
  | .submit stem content =>
      .ok { w with recorder := { w.recorder with verdicts := w.recorder.verdicts.submit stem content } }
  | .event channel eventId env =>
      (onEvent cfg channel eventId env w.recorder).map fun r => { w with recorder := r }
  | .tick env => .ok { w with recorder := onTick cfg env w.recorder }
  | .finish call => .ok (finishNext libs cfg call w)

/-- A recorder just after `setup`: idle, with nothing pending, rung or captured. -/
structure Recorder.Booted (cfg : Config P V) (r : Recorder P V) : Prop where
  state : r.state = .idle
  cap : r.cap = {}
  subs : r.subs = subscribe cfg
  pending : r.pending = []
  episode : r.episode = []
  journal : r.journal = []

/-! ## Histories -/

/-- What was handed to one finalize job, and what its capture had seen. -/
structure Handed (P V : Type) where
  job : Job V
  t0Ns : Int
  periodNs : Int
  drained : List (Sample P)
  /-- The requests in the inbox when the handler that submitted the job began. -/
  inbox : List JsonObj

structure History (P V : Type) where
  delivered : List (String × Sample P) := []
  drained : List (Sample P) := []
  /-- One flag for each drained frame. -/
  arrivedFresh : List Bool := []
  /-- Topic and frame id of each drained answer. -/
  answers : List (String × Nat) := []
  handed : List (Handed P V) := []
  verdicts : List JsonObj := []

/-- The jobs a journal says were submitted. -/
def submissions (journal : List (Entry V)) : List (Job V) :=
  journal.filterMap fun
    | .submitted job => some job
    | _ => none

/-- The capture ids a journal says were opened. -/
def openings (journal : List (Entry V)) : List String :=
  journal.filterMap fun
    | .opened id _ _ _ => some id
    | _ => none

/-- Does this action run a capture pass? -/
def Action.isPass (r : Recorder P V) : Action P → Bool
  | .tick _ => r.state = .recording
  | .event channel eventId _ =>
      channel = "recorder/control" ∧ eventId = ctlStop ∧ r.state = .recording
  | _ => false

/-- Were the window samples a pass has read fresh at each frame it drains? -/
def freshAtDrain (cfg : Config P V) (r : Recorder P V) : List Bool :=
  (clockDrain cfg r).map fun f =>
    cfg.others.all fun s => !staleAt (refresh cfg r).cap f.stamp s

/-- The lockstep answers a pass drains. -/
def answersDrained (cfg : Config P V) (r : Recorder P V) : List (String × Nat) :=
  (cfg.others.filter Source.paired).flatMap fun s =>
    (drainTopic s.topic r).1.map fun x => (s.topic, x.frameId)

/-- A record kept since `START`: a pass appends to it and an idle recorder has none. -/
def sinceStart {α : Type} (w : World P V) (a : Action P) (before new : List α) : List α :=
  if a.isPass w.recorder then before ++ new
  else if w.recorder.state = .recording then before else []

def History.next (cfg : Config P V) (h : History P V) (w : World P V) (a : Action P)
    (w' : World P V) : History P V :=
  let drained := sinceStart w a h.drained (clockDrain cfg w.recorder)
  { delivered := match a with
      | .deliver topic sample => h.delivered ++ [(topic, sample)]
      | _ => h.delivered
    drained := drained
    arrivedFresh := sinceStart w a h.arrivedFresh (freshAtDrain cfg w.recorder)
    answers := sinceStart w a h.answers (answersDrained cfg w.recorder)
    handed := h.handed ++
      ((submissions w'.recorder.journal).drop (submissions w.recorder.journal).length).map fun job =>
        ⟨job, w.recorder.cap.t0Ns, w.recorder.cap.periodNs, drained, w.recorder.verdicts.requests⟩
    -- every drain empties the inbox, so what was there has been drained
    verdicts := match a with
      | .submit _ _ => h.verdicts
      | _ => if w'.recorder.verdicts.files = [] then h.verdicts ++ w.recorder.verdicts.requests else h.verdicts }

/-- A run's state: the world and what has happened in it. -/
structure Traced (P V : Type) where
  world : World P V
  hist : History P V

/-- `uuid4` never repeats: neither a capture id nor a temporary directory. -/
def fresh (cfg : Config P V) (w : World P V) : Action P → Bool
  | .event _ eventId env =>
      decide (eventId = ctlStart → w.recorder.state = .idle →
        env.captureId.hex ∉ openings w.recorder.journal)
  | .finish call =>
      w.disk.entries.all fun e => decide (¬ tmpDir cfg.recordings call <+: e.1)
  | _ => true

/-- Why an action is no step of a run. -/
inductive Refusal where
  | raised (e : Exn)
  | reusedUuid

def Traced.step (libs : Libs V) (cfg : Config P V) (t : Traced P V) (a : Action P) :
    Except Refusal (Traced P V) :=
  if fresh cfg t.world a then
    match t.world.step libs cfg a with
    | .ok w => .ok ⟨w, t.hist.next cfg t.world a w⟩
    | .error e => .error (.raised e)
  else .error .reusedUuid

def Traced.Init (cfg : Config P V) (t : Traced P V) : Prop :=
  t.world.recorder.Booted cfg ∧ t.hist = {}

/-- The worlds and histories of the recorder's runs. -/
def Traced.Reach (libs : Libs V) (cfg : Config P V) : Traced P V → Prop :=
  Reachable (Traced.step libs cfg) (Traced.Init cfg)

/-! ## A small recorder -/

namespace Demo

def cam : Source Nat Nat where
  topic := "cam/front"
  feature := "observation.images.front"
  extract := fun x => x.payload
  schema := []
  kind := .video
  rateHz := 20
  typeName := "CameraFrame"

/-- The lockstep answer to every camera frame. -/
def act : Source Nat Nat where
  topic := "act/cmd"
  feature := "action"
  extract := fun x => x.payload
  schema := [("dtype", .str "float32")]
  kind := .column
  rateHz := 20
  typeName := "ActionCommand"
  paired := true

def joint : Source Nat Nat where
  topic := "joint/state"
  feature := "observation.state"
  extract := fun x => x.payload
  schema := [("dtype", .str "float32")]
  kind := .column
  rateHz := 100
  typeName := "JointState"

def rig : Config Nat Nat := ⟨["run"], [cam, act, joint], [], cam, [act, joint], rfl⟩

def libs : Libs Nat where
  pydantic :=
    { reward := fun
        | .null => some none
        | .float x => some (some x)
        | .int i => some (some (.fin i))
        | _ => none
      events := fun
        | .arr items => some items
        | _ => none
      encodable := fun _ => true }
  shape := fun _ => (480, 640)

def firstId : Uuid := ⟨"0123456789abcdef0123456789abcdef", by simp [hexDigits], by decide +kernel⟩

def secondId : Uuid := ⟨"fedcba9876543210fedcba9876543210", by simp [hexDigits], by decide +kernel⟩

/-- The recorder just after `setup`. -/
def boot : Traced Nat Nat where
  world :=
    { recorder :=
        { state := .idle, cap := {}, subs := subscribe rig, pending := [], verdicts := ⟨[], []⟩,
          telemetry := ⟨0, none, ⟨⟨0, 0, 0, ""⟩, []⟩⟩, episode := [], journal := [] }
      disk := ⟨[(["run"], .dir), (["run", "data-recordings"], .dir)]⟩ }
  hist := {}

theorem boot_init : boot.Init rig := ⟨⟨rfl, rfl, rfl, rfl, rfl, rfl⟩, rfl⟩

/-- `START` at `t0Ns`, at the native rate. -/
def startAt (t0Ns : Int) : Action Nat :=
  .event "recorder/control" ctlStart ⟨.missing, none, t0Ns, 0, firstId⟩

def stopNow : Action Nat := .event "recorder/control" ctlStop ⟨.missing, none, 0, 0, firstId⟩

def tickNow : Action Nat := .tick ⟨0, 0⟩

/-- A finalize call whose library steps all succeed. -/
def quietCall : Call := ⟨secondId, secondId, fun _ => none⟩

/-- One captured row, stamped in November 2023. -/
def row : Row Nat :=
  (1700000000000000000,
    OrderedDict.ofList [("observation.images.front", 1), ("action", 2), ("observation.state", 3)])

/-- One recorded row, handed over and finalized. -/
def recorded : List (Action Nat) :=
  [startAt 1000, .deliver "cam/front" ⟨2000, 5, 50⟩, .deliver "joint/state" ⟨1500, 1, 7⟩,
    .deliver "act/cmd" ⟨2100, 5, 55⟩, stopNow, .finish quietCall]

/-- A verdict for the first capture. -/
def rewarded : JsonObj := [("capture_id", .str firstId.hex), ("reward", .int 1)]

/-- What a run of these actions leaves. -/
def after (actions : List (Action Nat)) : Traced Nat Nat :=
  endState (Traced.step libs rig) boot actions

theorem reach_after {actions : List (Action Nat)}
    (accepted : accepts (Traced.step libs rig) boot actions = true) :
    Traced.Reach libs rig (after actions) :=
  Reachable.of_accepts boot_init accepted

end Demo

end KoyuRuntime.Services.DataRecorder
