/-
# Warden.Boot — bringing a runtime up and down

`koyu up`, `apply`, `down`, `restart` and `status` read `services.yaml`, write the conf and talk
to supervisord.  Each is a program of atomic steps: between two of them the file may be edited,
services may come and go, the daemon may end, and other commands may take steps of their own.

`load_services` and every validator read the file for themselves, so the conf may come from a
version of the file that is not the one a validator saw.  The conf is truncated, filled and
closed, and a command that is killed in between leaves what has been written so far.

How supervisord reads a conf is a parameter, and so are the validators and cleanups that other
packages register.  A world remembers what the file held before, and whether a probe has found
no daemon where there was one.

* `answer_cases`, `safe_call`: what one call to the daemon can come to.
-/
import KoyuRuntime.Ipc.Checks
import KoyuRuntime.Theory.Threads
import KoyuRuntime.Warden.ConfGenerator
import KoyuRuntime.Warden.Redeploy

namespace KoyuRuntime.Warden.Boot

open Host Theory
open Ipc.Checks (CheckError)

set_option autoImplicit false

/-- What reading `services.yaml` finds. -/
inductive Document where
  | missing
  /-- No YAML. -/
  | invalid
  | loaded (raw : Yaml)

/-! ## Failures -/

/-- The faults of supervisord that a call can meet. -/
inductive RpcFault where
  | group (fault : Fault)
  | cantReread (detail : String)
  | shutdownState
  | notRunning
  | alreadyStarted
  | spawnError (detail : String)

/-- Why a `SupervisordError` was raised for a call. -/
inductive CallFailure where
  | fault (fault : RpcFault)
  | unreachable

/-- What a command raises. -/
inductive BootExn where
  /-- `BootError`: "runtime is already up: dir" -/
  | alreadyUp
  /-- `BootError`: "runtime is not up: dir" -/
  | notUp
  /-- `BootError`: "supervisord failed to start:" and the detail -/
  | failedToStart (detail : String)
  /-- `BootError`: "supervisord did not become reachable within 10s" -/
  | notReachable
  /-- `BootError`: "supervisord did not shut down within 10s" -/
  | notShutDown
  /-- `ServicesError`: "services.yaml not found: path" -/
  | notFound
  /-- `ServicesError`: "services.yaml is not valid YAML: exc" -/
  | notYaml
  | services (e : ParseError)
  /-- What a validator raised. -/
  | refused (e : CheckError)
  /-- What a cleanup raised. -/
  | cleanup (e : Exn)
  /-- What `generate_conf` raised. -/
  | unrendered (e : Exn)
  /-- `SupervisordError`: "what: …" -/
  | supervisord (what : String) (why : CallFailure)
  /-- `SupervisordError`: "runtime is down: dir (run `koyu up`)" -/
  | runtimeDown

/-! ## The world a command runs in -/

section Model

-- the configuration of a process group
variable {Config : Type}

/-- A supervisord that has been started and has not ended. -/
structure Daemon (Config : Type) where
  core : Supervisord Config
  stopping : Bool
  /-- Does it answer calls? -/
  answering : Bool

/-- What becomes of the next call, and what the next program to be started fails with. -/
structure Luck where
  fate : Fate
  refusal : Option String

structure World (Config : Type) where
  services : Document
  /-- What the file held before, the latest first. -/
  earlier : List Document
  conf : Option String
  stateDirs : Bool
  /-- The iceoryx2 files of this machine. -/
  segments : List String
  daemon : Option (Daemon Config)
  /-- `time.monotonic()`, in milliseconds. -/
  clock : Nat
  luck : List Luck
  /-- How much of the next text is written before it is closed. -/
  buffered : Nat
  /-- Has a probe found no daemon where there was one? -/
  missed : Bool

namespace World

/-- Everything the file has held, the latest first. -/
def versions (w : World Config) : List Document := w.services :: w.earlier

def fate (w : World Config) : Fate :=
  match w.luck with
  | [] => .answered
  | next :: _ => next.fate

def refusal (w : World Config) : Option String :=
  match w.luck with
  | [] => none
  | next :: _ => next.refusal

/-- Does `getState` come back without a fault? -/
def answers (w : World Config) : Bool :=
  decide (w.fate = .answered) && w.daemon.any fun d => d.answering && !d.stopping

/-- The luck of one call is used up. -/
def spent (w : World Config) : World Config := { w with luck := w.luck.tail }

end World

/-- What a deployment brings along. -/
structure Setup (Config : Type) where
  /-- `repr` of a float -/
  floatText : Double → String
  pythonExecutable : String
  /-- How supervisord reads a conf: the groups it describes, or what is wrong with it. -/
  programs : String → Except String (OrderedDict String Config)
  validators : List (Document → Except CheckError Unit)
  cleanups : List (EStateM Exn (List String) Unit)

/-- A program of a command. -/
abbrev Run (Config : Type) : Type → Type := Prog (World Config) BootExn

/-! ## The client -/

/-- `is_running`; a fault, an unreachable socket and a lost answer are all `False`. -/
def isRunning : Run Config Bool :=
  .step (fun w => { w.spent with missed := w.missed || (w.daemon.isSome && !w.answers) })
    fun w => .ret w.answers

/-- The outcome of a call, and the world after it; a daemon that is shutting down answers with a
fault. -/
def answer {α : Type} (what : String)
    (method : World Config → Daemon Config → Except RpcFault (α × Daemon Config)) (w : World Config) :
    Except BootExn α × World Config :=
  match w.fate, w.daemon with
  | .unsent, _ => (.error (.supervisord what .unreachable), w.spent)
  | _, none => (.error (.supervisord what .unreachable), w.spent)
  | fate, some d =>
      match if d.stopping then .error .shutdownState else method w d with
      | .error fault =>
          (.error (.supervisord what (if fate = .cut then .unreachable else .fault fault)), w.spent)
      | .ok (a, d') =>
          (if fate = .cut then .error (.supervisord what .unreachable) else .ok a,
            { w.spent with daemon := some d' })

/-- `_call`. -/
def call {α : Type} (what : String)
    (method : World Config → Daemon Config → Except RpcFault (α × Daemon Config)) : Run Config α :=
  .atomic (answer what method)

/-- A method on the groups. -/
def onCore {α : Type} (method : Supervisord Config → Except Fault (α × Supervisord Config))
    (_ : World Config) (d : Daemon Config) : Except RpcFault (α × Daemon Config) :=
  match method d.core with
  | .ok (a, core) => .ok (a, { d with core := core })
  | .error fault => .error (.group fault)

/-- `reloadConfig`, of the conf as it stands in its file. -/
def reload [DecidableEq Config] (setup : Setup Config) (w : World Config) (d : Daemon Config) :
    Except RpcFault (Diff × Daemon Config) :=
  match w.conf with
  | none => .error (.cantReread "could not find config file")
  | some text =>
      match setup.programs text with
      | .error detail => .error (.cantReread detail)
      | .ok file => onCore (reloadConfig file) w d

/-- Does a group have a running process? -/
def running (name : String) (d : Daemon Config) : Option Bool := (d.core.groups.get? name).map (·.running)

def setRunning (name : String) (value : Bool) (d : Daemon Config) : Daemon Config :=
  match d.core.groups.get? name with
  | none => d
  | some group =>
      { d with core := { d.core with groups := d.core.groups.set name { group with running := value } } }

/-- `stopProcess`. -/
def stop (name : String) (_ : World Config) (d : Daemon Config) : Except RpcFault (Unit × Daemon Config) :=
  match running name d with
  | none => .error (.group .badName)
  | some false => .error .notRunning
  | some true => .ok ((), setRunning name false d)

/-- `startProcess`, which waits until the process runs. -/
def start (name : String) (w : World Config) (d : Daemon Config) : Except RpcFault (Unit × Daemon Config) :=
  match running name d with
  | none => .error (.group .badName)
  | some true => .error .alreadyStarted
  | some false =>
      match w.refusal with
      | some detail => .error (.spawnError detail)
      | none => .ok ((), setRunning name true d)

def stopEach : List String → Daemon Config → Daemon Config
  | [], d => d
  | name :: rest, d => stopEach rest (setRunning name false d)

/-- `stopAllProcesses`. -/
def stopAll (_ : World Config) (d : Daemon Config) : Except RpcFault (Unit × Daemon Config) :=
  .ok ((), stopEach d.core.groups.keys d)

def startEach : List String → List Luck → Daemon Config → Daemon Config
  | [], _, d => d
  | name :: rest, luck, d =>
      startEach rest luck.tail (match luck.head?.bind (·.refusal) with
        | some _ => d
        | none => setRunning name true d)

/-- `startAllProcesses`: what does not start is told in the answer, which nobody reads. -/
def startAll (w : World Config) (d : Daemon Config) : Except RpcFault (Unit × Daemon Config) :=
  .ok ((), startEach d.core.groups.keys w.luck d)

def processInfo : Run Config (List (String × Bool)) :=
  call "status" fun _ d => .ok (d.core.groups.entries.map fun e => (e.1, e.2.running), d)

/-- `_tolerate` of `NOT_RUNNING`. -/
def stopTolerant (name : String) (w : World Config) (d : Daemon Config) :
    Except RpcFault (Unit × Daemon Config) :=
  match stop name w d with
  | .error .notRunning => .ok ((), d)
  | outcome => outcome

def restartProcess (name : String) : Run Config Unit := do
  call ("stop " ++ name) (stopTolerant name)
  call ("start " ++ name) (start name)

def restartAll : Run Config Unit := do
  call "stop all" stopAll
  call "start all" startAll

/-- `shutdown`. -/
def shutdown : Run Config Unit := call "shutdown" fun _ d => .ok ((), { d with stopping := true })

/-- `_add_group`. -/
def addGroup (name : String) : Run Config Unit := call ("add " ++ name) (onCore (addProcessGroup name))

/-- `_remove_group`. -/
def removeGroup (name : String) : Run Config Unit := do
  call ("stop " ++ name) (onCore (stopProcessGroup name))
  call ("remove " ++ name) (onCore (removeProcessGroup name))

def replaceGroup (name : String) : Run Config Unit := do
  removeGroup name
  addGroup name

/-- `SupervisordClient.apply`. -/
def reconcile [DecidableEq Config] (setup : Setup Config) : Run Config Diff := do
  let diff ← call "reload" (reload setup)
  .each removeGroup diff.removed
  .each replaceGroup diff.changed
  .each addGroup diff.added
  pure diff

/-! ## Booting -/

/-- `load_services`. -/
def loadServices (setup : Setup Config) : Document → Except BootExn (OrderedDict String ServiceSpec)
  | .missing => .error .notFound
  | .invalid => .error .notYaml
  | .loaded raw =>
      match parseServices setup.floatText raw with
      | .ok specs => .ok specs
      | .error e => .error (.services e)

def load (setup : Setup Config) : Run Config (OrderedDict String ServiceSpec) :=
  .atomic fun w => (loadServices setup w.services, w)

/-- A validator gets the path and reads the file itself. -/
def validate (validator : Document → Except CheckError Unit) : Run Config Unit :=
  .atomic fun w =>
    match validator w.services with
    | .ok () => (.ok (), w)
    | .error e => (.error (.refused e), w)

def clean (cleanup : EStateM Exn (List String) Unit) : Run Config Unit :=
  .atomic fun w =>
    match cleanup w.segments with
    | .ok () segments => (.ok (), { w with segments := segments })
    | .error e segments => (.error (.cleanup e), { w with segments := segments })

/-- `Runtime.ensure_state_dirs`. -/
def ensureStateDirs : Run Config Unit := .write fun w => { w with stateDirs := true }

/-- `Path.write_text`: open and truncate, write, close. -/
def writeText (text : String) : Run Config Unit := do
  .write fun w => { w with conf := some "" }
  .write fun w => { w with conf := some (String.ofList (text.toList.take w.buffered)) }
  .write fun w => { w with conf := some text }

/-- `generate_conf` of the specs. -/
def render (setup : Setup Config) (specs : OrderedDict String ServiceSpec) : Except BootExn String :=
  match generateConf specs setup.pythonExecutable with
  | .ok text => .ok text
  | .error e => .error (.unrendered e)

/-- `_write_conf`. -/
def writeConf (setup : Setup Config) (specs : OrderedDict String ServiceSpec) : Run Config Unit := do
  ensureStateDirs
  let text ← .ofExcept (render setup specs)
  writeText text

/-- `prepare`. -/
def prepare (setup : Setup Config) : Run Config (OrderedDict String ServiceSpec) := do
  let specs ← load setup
  .each validate setup.validators
  .each clean setup.cleanups
  writeConf setup specs
  pure specs

/-- A supervisord just started from a conf, not yet reachable. -/
def Daemon.started (file : OrderedDict String Config) : Daemon Config := ⟨.booted file, false, false⟩

/-- `_start_supervisord`: it refuses to start where another listens on the socket. -/
def startSupervisord (setup : Setup Config) : Run Config Unit :=
  .atomic fun w =>
    match w.daemon, w.refusal, w.conf with
    | some _, _, _ => (.error (.failedToStart "another program is already listening"), w.spent)
    | none, some detail, _ => (.error (.failedToStart detail), w.spent)
    | none, none, none => (.error (.failedToStart "could not find config file"), w.spent)
    | none, none, some text =>
        match setup.programs text with
        | .error detail => (.error (.failedToStart detail), w.spent)
        | .ok file => (.ok (), { w.spent with daemon := some (.started file) })

/-- `time.monotonic()`. -/
def now : Run Config Nat := .read fun w => w.clock

/-- `time.sleep(0.1)`. -/
def sleep : Run Config Unit := .write fun w => { w with clock := w.clock + 100 }

/-- `_READY_TIMEOUT_S`, in milliseconds. -/
def readyTimeout : Nat := 10000

/-- Probe every tenth of a second until the answer is `wanted` or the time is over.  A probe
takes the clock a tenth further, so there are no more of them than `turns`. -/
def poll (wanted : Bool) (gaveUp : BootExn) (deadline : Nat) : Nat → Run Config Unit
  | 0 => .raise gaveUp
  | turns + 1 => do
      let time ← now
      if time < deadline then do
        let found ← isRunning
        if found = wanted then pure () else do
          sleep
          poll wanted gaveUp deadline turns
      else .raise gaveUp

def waitFor (wanted : Bool) (gaveUp : BootExn) : Run Config Unit := do
  let time ← now
  poll wanted gaveUp (time + readyTimeout) (readyTimeout / 100 + 1)

/-- `boot.up`. -/
def up (setup : Setup Config) : Run Config Unit := do
  let already ← isRunning
  if already then .raise .alreadyUp else do
    let _ ← prepare setup
    startSupervisord setup
    waitFor true .notReachable

/-- `boot.apply`: no cleanups, as services are running. -/
def apply [DecidableEq Config] (setup : Setup Config) : Run Config Diff := do
  let there ← isRunning
  if there then do
    let specs ← load setup
    .each validate setup.validators
    writeConf setup specs
    reconcile setup
  else .raise .notUp

/-- `boot.down`. -/
def down : Run Config Unit := do
  let there ← isRunning
  if there then do
    shutdown
    waitFor false .notShutDown
  else pure ()

/-! ## The commands -/

inductive Command where
  | up
  | down
  | apply
  | restart (service : Option String)
  | status

/-- What a command prints. -/
inductive Reply where
  | up (info : List (String × Bool))
  | down
  | alreadyDown
  | applied (diff : Diff)
  | restarted (service : String)
  | restartedAll
  | status (info : List (String × Bool))

/-- `_cmd_up`. -/
def cmdUp (setup : Setup Config) : Run Config Reply := do
  up setup
  let info ← processInfo
  pure (.up info)

/-- `_cmd_down`. -/
def cmdDown : Run Config Reply := do
  let there ← isRunning
  if there then do
    down
    pure .down
  else pure .alreadyDown

/-- `_cmd_status`. -/
def cmdStatus : Run Config Reply := do
  let there ← isRunning
  if there then do
    let info ← processInfo
    pure (.status info)
  else pure .alreadyDown

/-- `_cmd_restart`. -/
def cmdRestart (service : Option String) : Run Config Reply := do
  let there ← isRunning
  if there then
    match service with
    | none | some "" => do
        restartAll
        pure .restartedAll
    | some name => do
        restartProcess name
        pure (.restarted name)
  else .raise .runtimeDown

/-- `_cmd_apply`. -/
def cmdApply [DecidableEq Config] (setup : Setup Config) : Run Config Reply := do
  let diff ← apply setup
  pure (.applied diff)

def program [DecidableEq Config] (setup : Setup Config) : Command → Run Config Reply
  | .up => cmdUp setup
  | .down => cmdDown
  | .apply => cmdApply setup
  | .restart service => cmdRestart service
  | .status => cmdStatus

/-! ## What else happens -/

/-- What goes on besides the commands. -/
inductive Event where
  /-- Somebody writes `services.yaml`. -/
  | edit (doc : Document)
  /-- A service opens a topic. -/
  | segment (file : String)
  | daemonEnds
  /-- The daemon begins or ceases to answer. -/
  | answering (value : Bool)
  /-- A process ends, or is started again by supervisord. -/
  | process (name : String) (running : Bool)
  | time (passed : Nat)
  | luck (next : List Luck)
  | buffered (amount : Nat)

def World.outside (w : World Config) : Event → World Config
  | .edit doc => { w with services := doc, earlier := w.services :: w.earlier }
  | .segment file => { w with segments := file :: w.segments }
  | .daemonEnds => { w with daemon := none }
  | .answering value => { w with daemon := w.daemon.map fun d => { d with answering := value } }
  | .process name value => { w with daemon := w.daemon.map (setRunning name value) }
  | .time passed => { w with clock := w.clock + passed }
  | .luck next => { w with luck := next }
  | .buffered amount => { w with buffered := amount }

/-- Commands side by side, as from several terminals. -/
def together [DecidableEq Config] (setup : Setup Config) :
    Machine Command Event (World Config) BootExn Reply :=
  ⟨program setup, World.outside, fun _ => true⟩

/-- Commands one after the other. -/
def oneByOne [DecidableEq Config] (setup : Setup Config) :
    Machine Command Event (World Config) BootExn Reply :=
  ⟨program setup, World.outside, fun threads => threads.all fun thread => thread.rest.ended⟩

/-! ## The hooks of a full bring-up -/

/-- `checks.typecheck`, with the file still to be read. -/
def typecheckFile (env : Ipc.Checks.Environment) : Document → Except CheckError Unit
  | .missing => .error (.raised (.libraryError "read_text"))
  | .invalid => .error (.raised (.libraryError "yaml.safe_load"))
  | .loaded raw => Ipc.Checks.typecheck env raw

/-- `checks.sweep_segments`. -/
def sweepSegments : EStateM Exn (List String) Unit := fun _ => .ok () []

/-- `bring_up` and `reconfigure`: the type check and the sweep first, then what was registered. -/
def standard (floatText : Double → String) (pythonExecutable : String)
    (programs : String → Except String (OrderedDict String Config)) (env : Ipc.Checks.Environment)
    (validators : List (Document → Except CheckError Unit))
    (cleanups : List (EStateM Exn (List String) Unit)) : Setup Config :=
  ⟨floatText, pythonExecutable, programs, typecheckFile env :: validators, sweepSegments :: cleanups⟩

/-! ## What a call can come to -/

/-- Nothing has happened, or the method has run; then the answer may still be lost. -/
theorem answer_cases {α : Type} (what : String)
    (method : World Config → Daemon Config → Except RpcFault (α × Daemon Config)) (w : World Config) :
    (∃ why, answer what method w = (.error (.supervisord what why), w.spent)) ∨
      ∃ d a d', w.daemon = some d ∧ method w d = .ok (a, d') ∧
        ∃ outcome, answer what method w = (outcome, { w.spent with daemon := some d' }) ∧
          (outcome = .ok a ∨ ∃ why, outcome = .error (.supervisord what why)) := by
  unfold answer
  split
  · exact .inl ⟨_, rfl⟩
  · exact .inl ⟨_, rfl⟩
  · rename_i d there _
    split
    · exact .inl ⟨_, rfl⟩
    · rename_i a d' ran
      have done : method w d = .ok (a, d') := by
        split at ran
        · cases ran
        · exact ran
      refine .inr ⟨d, a, d', there, done, _, rfl, ?_⟩
      split
      · exact .inr ⟨_, rfl⟩
      · exact .inl rfl

/-- **The rule for a call**: what holds if nothing happened, and what if the method ran. -/
theorem safe_call {α : Type} {R : Rely (World Config)} {G : World Config → World Config → Prop}
    {Q : α → World Config → Prop} {X : BootExn → World Config → Prop} {P : World Config → Prop}
    {what : String} {method : World Config → Daemon Config → Except RpcFault (α × Daemon Config)}
    {w : World Config} (holds : P w) (stable : Stable R P) (returns : ∀ a, Stable R (Q a))
    (raises : ∀ e, Stable R (X e))
    (nothing : ∀ t, P t → G t t.spent ∧ ∀ why, X (.supervisord what why) t.spent)
    (does : ∀ t d a d', P t → t.daemon = some d → method t d = .ok (a, d') →
      G t { t.spent with daemon := some d' } ∧ Q a { t.spent with daemon := some d' } ∧
        ∀ why, X (.supervisord what why) { t.spent with daemon := some d' }) :
    Safe R G Q X (call what method) w := by
  refine Safe.atomic holds stable returns raises fun t now_ => ?_
  rcases answer_cases what method t with ⟨why, same⟩ | ⟨d, a, d', there, ran, outcome, same, end_⟩
  · rw [same]
    obtain ⟨within, raised⟩ := nothing t now_
    refine ⟨within, by rintro _ ⟨⟩, ?_⟩
    intro e done
    cases done
    exact raised why
  · rw [same]
    obtain ⟨within, returned, raised⟩ := does t d a d' now_ there ran
    refine ⟨within, ?_, ?_⟩
    · intro a' done
      rcases end_ with rfl | ⟨why, rfl⟩
      · cases done
        exact returned
      · cases done
    · intro e done
      rcases end_ with rfl | ⟨why, rfl⟩
      · cases done
      · cases done
        exact raised why

end Model

end KoyuRuntime.Warden.Boot
