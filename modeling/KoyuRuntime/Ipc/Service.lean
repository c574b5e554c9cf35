/-
# Ipc.Service — the loop every service runs in

`setup` declares listeners and a tick; `run` then waits, and after each wait calls the hooks: the
tick if its interval has fired, and for each listener that has, the ids that rang, one by one.
Ids are rung by anyone at any time, also by the hooks.  A hook may call `stop`, which the loop
looks at between two waits only, or raise, which ends the process.

The pending calls of a batch are a list of work; draining a listener puts its ids in front.

* `events_dispatched`: in every run, the ids rung on a channel since its listener was opened are
  those its hook was called with, then those in hand, then those still in the listener.
* `served_serially`: every run is a run of the hooks one after the other, called with just the
  ids that were heard.
-/
import KoyuRuntime.Theory.OrderedDict
import KoyuRuntime.Theory.Transition

namespace KoyuRuntime.Ipc

open Theory

set_option autoImplicit false

/-! ## The service -/

/-- An open listener: the ids that rang since it was last drained, and since it was opened. -/
structure Listener where
  channel : String
  queue : List Nat
  rung : List Nat

/-- `ring` reaches every listener that is connected to the channel. -/
def Listener.ring (event : String × Nat) (l : Listener) : Listener :=
  if l.channel = event.1 then ⟨l.channel, l.queue ++ [event.2], l.rung ++ [event.2]⟩ else l

/-- `drain`: the ids, and the listener without them. -/
def Listener.drained (l : Listener) : Listener := ⟨l.channel, [], l.rung⟩

inductive Call where
  | tick
  | event (channel : String) (id : Nat)

/-- What a hook leaves: the state of the service, the ids it rang, and whether it called `stop`. -/
structure Hooked (σ : Type) where
  state : σ
  rings : List (String × Nat)
  stops : Bool

/-- A subclass: its hooks, with what a call reads from outside, and what others do to its state. -/
structure Hooks (σ ρ ω ε : Type) where
  handle : Call → ρ → σ → Except ε (Hooked σ)
  /-- Can a call read this? -/
  admits : Call → ρ → σ → Bool
  outside : ω → σ → Option σ

/-- A call of a hook, or something that others do. -/
inductive Move (ρ ω : Type) where
  | called (c : Call) (reads : ρ)
  | outside (by_ : ω)

def Move.event {ρ ω : Type} : Move ρ ω → Option (String × Nat)
  | .called (.event channel id) _ => some (channel, id)
  | _ => none

/-- The state of the service without its loop. -/
def Hooks.move {σ ρ ω ε : Type} (h : Hooks σ ρ ω ε) (state : σ) : Move ρ ω → Except Unit σ
  | .called c reads =>
      if h.admits c reads state then
        match h.handle c reads state with
        | .ok done => .ok done.state
        | .error _ => .error ()
      else .error ()
  | .outside by_ =>
      match h.outside by_ state with
      | some state => .ok state
      | none => .error ()

/-- What is left to do of a batch. -/
inductive Work where
  | tick
  | drain (channel : String) (port : Nat)
  | event (channel : String) (id : Nat)

inductive Failure (ε : Type) where
  /-- "a service needs a tick or a listener to run" -/
  | nothingToWait
  | raised (e : ε)

inductive Phase (ε : Type) where
  | setup
  | waiting
  | batch (work : List Work)
  | returned
  | failed (cause : Failure ε) (work : List Work)

/-- A service; `heard` is what `on_event` was called with. -/
structure Service (σ ε : Type) where
  state : σ
  ports : List Listener
  listeners : OrderedDict String Nat
  ticks : Bool
  running : Bool
  phase : Phase ε
  heard : List (String × Nat)

/-- What has fired: the interval, or a listener. -/
inductive Fired where
  | interval
  | notification (channel : String)

inductive ServiceAction (ρ ω : Type) where
  /-- `on`, in `setup`. -/
  | on (channel : String)
  | tick
  | stopInSetup
  | run
  /-- `wait_and_process_with_timeout` returns, for a signal or with what has fired. -/
  | wake (terminated : Bool) (fired : List Fired)
  | go (reads : ρ)
  | ring (channel : String) (id : Nat)
  | outside (by_ : ω)

namespace Service

variable {σ ρ ω ε : Type}

def init (state : σ) : Service σ ε := ⟨state, [], ∅, false, true, .setup, []⟩

def ring (event : String × Nat) (s : Service σ ε) : Service σ ε :=
  { s with ports := s.ports.map (Listener.ring event) }

/-- `while self._running` -/
def loop (s : Service σ ε) : Service σ ε :=
  { s with phase := if s.running then .waiting else .returned }

/-- On with the batch, or with the loop. -/
def resume (work : List Work) (s : Service σ ε) : Service σ ε :=
  match work with
  | [] => s.loop
  | _ => { s with phase := .batch work }

/-- The body of `for aid in fired`. -/
def workOf (s : Service σ ε) : Fired → List Work
  | .interval => if s.ticks then [.tick] else []
  | .notification channel =>
      match s.listeners.get? channel with
      | some port => [.drain channel port]
      | none => []

/-- One call of a hook. -/
def call (h : Hooks σ ρ ω ε) (c : Call) (reads : ρ) (rest : List Work) (s : Service σ ε) : Service σ ε :=
  match h.handle c reads s.state with
  | .error e => { s with phase := .failed (.raised e) rest }
  | .ok done =>
      let s := done.rings.foldl (fun s event => s.ring event) { s with state := done.state }
      resume rest { s with running := s.running && !done.stops }

/-- The first piece of work. -/
def advance (h : Hooks σ ρ ω ε) (reads : ρ) (s : Service σ ε) : Work → List Work → Except Unit (Service σ ε)
  | .tick, rest => if h.admits .tick reads s.state then .ok (s.call h .tick reads rest) else .error ()
  | .event channel id, rest =>
      if h.admits (.event channel id) reads s.state then
        .ok (call h (.event channel id) reads rest { s with heard := s.heard ++ [(channel, id)] })
      else .error ()
  | .drain channel port, rest =>
      match s.ports[port]? with
      | none => .error ()
      | some l =>
          .ok (resume (l.queue.map (Work.event channel) ++ rest) { s with ports := s.ports.set port l.drained })

def step (h : Hooks σ ρ ω ε) (s : Service σ ε) : ServiceAction ρ ω → Except Unit (Service σ ε)
  | .on channel =>
      match s.phase with
      | .setup =>
          .ok { s with
            ports := s.ports ++ [⟨channel, [], []⟩]
            listeners := s.listeners.set channel s.ports.length }
      | _ => .error ()
  | .tick =>
      match s.phase with
      | .setup => .ok { s with ticks := true }
      | _ => .error ()
  | .stopInSetup =>
      match s.phase with
      | .setup => .ok { s with running := false }
      | _ => .error ()
  | .run =>
      match s.phase with
      | .setup =>
          if s.ticks = false ∧ s.listeners.entries = [] then
            .ok { s with phase := .failed .nothingToWait [] }
          else .ok s.loop
      | _ => .error ()
  | .wake terminated fired =>
      match s.phase with
      | .waiting => .ok (if terminated then { s with phase := .returned } else s.resume (fired.flatMap s.workOf))
      | _ => .error ()
  | .go reads =>
      match s.phase with
      | .batch (work :: rest) => s.advance h reads work rest
      | _ => .error ()
  | .ring channel id => .ok (s.ring (channel, id))
  | .outside by_ =>
      match h.outside by_ s.state with
      | some state => .ok { s with state := state }
      | none => .error ()

/-! ## Events -/

/-- The ids on a channel. -/
def idsOn (channel : String) (events : List (String × Nat)) : List Nat :=
  events.filterMap fun e => if e.1 = channel then some e.2 else none

def Work.idOn (channel : String) : Work → Option Nat
  | .event name id => if name = channel then some id else none
  | _ => none

/-- What is left of the batch, also of one that failed. -/
def work (s : Service σ ε) : List Work :=
  match s.phase with
  | .batch work => work
  | .failed _ work => work
  | _ => []

/-- The ids in hand: drained, and not yet passed to the hook. -/
def inHand (channel : String) (s : Service σ ε) : List Nat := s.work.filterMap (Work.idOn channel)

/-- Events first, and then what does not depend on them. -/
def Shaped (listeners : OrderedDict String Nat) (work : List Work) : Prop :=
  ∃ events : List (String × Nat), ∃ jobs : List Work, work = events.map (fun e => .event e.1 e.2) ++ jobs ∧
    (∀ e ∈ events, e.1 ∈ listeners.keys) ∧
    ∀ job ∈ jobs, job = .tick ∨ ∃ channel port, job = .drain channel port ∧ listeners.get? channel = some port

/-- Every id that was rung is in one place, in order. -/
structure Accounts (listeners : OrderedDict String Nat) (ports : List Listener) (heard : List (String × Nat))
    (work : List Work) : Prop where
  shaped : Shaped listeners work
  ports : ∀ channel port, listeners.get? channel = some port → ∃ l, ports[port]? = some l ∧
    l.channel = channel ∧ idsOn channel heard ++ work.filterMap (Work.idOn channel) ++ l.queue = l.rung
  heard : ∀ e ∈ heard, e.1 ∈ listeners.keys

section Accounts

variable {listeners : OrderedDict String Nat} {ports : List Listener} {heard : List (String × Nat)}
  {rest : List Work} {channel : String} {id port : Nat}

theorem idsOn_append (events more : List (String × Nat)) :
    idsOn channel (events ++ more) = idsOn channel events ++ idsOn channel more := List.filterMap_append

theorem Accounts.ring {work : List Work} (accounts : Accounts listeners ports heard work) (event : String × Nat) :
    Accounts listeners (ports.map (Listener.ring event)) heard work := by
  refine ⟨accounts.shaped, ?_, accounts.heard⟩
  intro channel port found
  obtain ⟨l, there, own, all⟩ := accounts.ports channel port found
  refine ⟨l.ring event, by rw [List.getElem?_map, there]; rfl, ?_⟩
  unfold Listener.ring
  split
  · exact ⟨own, by rw [← all, List.append_assoc, List.append_assoc, List.append_assoc]⟩
  · exact ⟨own, all⟩

theorem Accounts.rings {work : List Work} (accounts : Accounts listeners ports heard work)
    (events : List (String × Nat)) :
    Accounts listeners (events.foldl (fun ports event => ports.map (Listener.ring event)) ports) heard work := by
  induction events generalizing ports with
  | nil => exact accounts
  | cons event rest ih => exact ih (accounts.ring event)

/-- A listener is opened in `setup`. -/
theorem Accounts.on (accounts : Accounts listeners ports [] []) (channel : String) :
    Accounts (listeners.set channel ports.length) (ports ++ [⟨channel, [], []⟩]) [] [] := by
  refine ⟨⟨[], [], rfl, nofun, nofun⟩, ?_, nofun⟩
  intro name port found
  rw [OrderedDict.get?_set] at found
  split at found
  · rename_i same
    cases found
    exact ⟨_, List.getElem?_concat_length, same, rfl⟩
  · obtain ⟨l, there, own⟩ := accounts.ports name port found
    have inside : port < ports.length := (List.getElem?_eq_some_iff.mp there).1
    exact ⟨l, by rw [List.getElem?_append_left inside, there], own⟩

theorem shaped_jobs {jobs : List Work} (each : ∀ job ∈ jobs, job = .tick ∨
    ∃ channel port, job = .drain channel port ∧ listeners.get? channel = some port) :
    Shaped listeners jobs ∧ ∀ channel, jobs.filterMap (Work.idOn channel) = [] := by
  refine ⟨⟨[], jobs, rfl, nofun, each⟩, ?_⟩
  intro channel
  rw [List.filterMap_eq_nil_iff]
  intro job mem
  rcases each job mem with rfl | ⟨_, _, rfl, -⟩
  · rfl
  · rfl

/-- A batch begins with no event in hand. -/
theorem Accounts.batch (accounts : Accounts listeners ports heard []) {jobs : List Work}
    (each : ∀ job ∈ jobs, job = .tick ∨
      ∃ channel port, job = .drain channel port ∧ listeners.get? channel = some port) :
    Accounts listeners ports heard jobs := by
  obtain ⟨shaped, nothing⟩ := shaped_jobs each
  refine ⟨shaped, ?_, accounts.heard⟩
  intro channel port found
  obtain ⟨l, there, own, all⟩ := accounts.ports channel port found
  exact ⟨l, there, own, by rw [nothing channel, ← all, List.filterMap_nil]⟩

theorem Accounts.tick (accounts : Accounts listeners ports heard (.tick :: rest)) :
    Accounts listeners ports heard rest := by
  refine ⟨?_, accounts.ports, accounts.heard⟩
  obtain ⟨events, jobs, split, known, each⟩ := accounts.shaped
  cases events with
  | nil =>
      cases split
      exact ⟨[], rest, rfl, nofun, fun job mem => each job (List.mem_cons_of_mem _ mem)⟩
  | cons e more => cases (List.cons.inj split).1

/-- The event in front is passed to the hook. -/
theorem Accounts.event (accounts : Accounts listeners ports heard (.event channel id :: rest)) :
    Accounts listeners ports (heard ++ [(channel, id)]) rest := by
  obtain ⟨events, jobs, split, known, each⟩ := accounts.shaped
  cases events with
  | nil =>
      rw [List.map_nil, List.nil_append] at split
      rcases each _ (split ▸ List.mem_cons_self) with other | ⟨_, _, other, -⟩
      · cases other
      · cases other
  | cons e more =>
      obtain ⟨same, later⟩ := List.cons.inj split
      cases same
      refine ⟨⟨more, jobs, later, fun e' mem => known e' (List.mem_cons_of_mem _ mem), each⟩, ?_, ?_⟩
      · intro name port found
        obtain ⟨l, there, own, all⟩ := accounts.ports name port found
        refine ⟨l, there, own, ?_⟩
        rw [← all, idsOn_append]
        by_cases here : e.1 = name
        · simp [idsOn, Work.idOn, here]
        · simp [idsOn, Work.idOn, here]
      · intro e' mem
        rcases List.mem_append.mp mem with old | new
        · exact accounts.heard e' old
        · rw [List.mem_singleton.mp new]
          exact known e List.mem_cons_self

/-- The listener in front is drained. -/
theorem Accounts.drain (accounts : Accounts listeners ports heard (.drain channel port :: rest)) {l : Listener}
    (there : ports[port]? = some l) :
    Accounts listeners (ports.set port l.drained) heard (l.queue.map (Work.event channel) ++ rest) := by
  obtain ⟨events, jobs, split, known, each⟩ := accounts.shaped
  cases events with
  | cons e more => cases (List.cons.inj split).1
  | nil =>
      cases split
      have later : ∀ job ∈ rest, job = .tick ∨
          ∃ channel port, job = .drain channel port ∧ listeners.get? channel = some port :=
        fun job mem => each job (List.mem_cons_of_mem _ mem)
      have attached : listeners.get? channel = some port := by
        rcases each _ List.mem_cons_self with other | ⟨c, i, same, found⟩
        · cases other
        · cases same
          exact found
      obtain ⟨-, nothing⟩ := shaped_jobs later
      refine ⟨⟨l.queue.map fun id => (channel, id), rest, by rw [List.map_map]; rfl, ?_, later⟩, ?_, accounts.heard⟩
      · intro e mem
        obtain ⟨id, -, rfl⟩ := List.mem_map.mp mem
        exact OrderedDict.mem_keys_iff.mpr (by rw [attached]; rfl)
      · intro name i found
        obtain ⟨l', there', own, all⟩ := accounts.ports name i found
        by_cases same : i = port
        · -- two channels never have one listener
          subst same
          cases there.symm.trans there'
          have inside : i < ports.length := (List.getElem?_eq_some_iff.mp there).1
          refine ⟨l.drained, List.getElem?_set_self inside, own, ?_⟩
          obtain ⟨l'', there'', own', -⟩ := accounts.ports channel i attached
          cases there.symm.trans there''
          cases own.symm.trans own'
          have mine : (l.queue.map (Work.event channel)).filterMap (Work.idOn channel) = l.queue := by
            simp [List.filterMap_map, Function.comp_def, Work.idOn]
          rw [List.filterMap_cons_none rfl, nothing, List.append_nil] at all
          rw [List.filterMap_append, mine, nothing, List.append_nil]
          exact (List.append_nil _).trans all
        · refine ⟨l', by rw [List.getElem?_set_ne (Ne.symm same), there'], own, ?_⟩
          have other : channel ≠ name := by
            rintro rfl
            exact same (Option.some.inj (found.symm.trans attached))
          have others : (l.queue.map (Work.event channel)).filterMap (Work.idOn name) = [] := by
            rw [List.filterMap_map, List.filterMap_eq_nil_iff]
            exact fun id _ => if_neg other
          rw [List.filterMap_append, others, nothing, ← all, List.filterMap_cons_none rfl, nothing]
          rfl

end Accounts

/-! ## Every run -/

/-- What holds between two steps of the loop. -/
structure Inv (s : Service σ ε) : Prop where
  accounts : Accounts s.listeners s.ports s.heard s.work
  unheard : s.phase = .setup → s.heard = []
  waits : s.phase = .waiting → s.running = true

section Runs

variable {h : Hooks σ ρ ω ε} {s s' : Service σ ε}

theorem rings_eq (events : List (String × Nat)) (s : Service σ ε) :
    events.foldl (fun s event => s.ring event) s =
      { s with ports := events.foldl (fun ports event => ports.map (Listener.ring event)) s.ports } := by
  induction events generalizing s with
  | nil => rfl
  | cons event rest ih => exact ih (s.ring event)

theorem inv_resume {work : List Work} (accounts : Accounts s.listeners s.ports s.heard work) :
    (s.resume work).Inv := by
  cases work with
  | cons job rest => exact ⟨accounts, nofun, nofun⟩
  | nil =>
      show s.loop.Inv
      unfold loop
      cases runs_ : s.running with
      | false => exact ⟨accounts, nofun, nofun⟩
      | true => exact ⟨accounts, nofun, fun _ => rfl⟩

theorem inv_call {c : Call} {reads : ρ} {rest : List Work}
    (accounts : Accounts s.listeners s.ports s.heard rest) : (s.call h c reads rest).Inv := by
  unfold call
  cases h.handle c reads s.state with
  | error e => exact ⟨accounts, nofun, nofun⟩
  | ok done =>
      simp only [rings_eq]
      exact inv_resume (accounts.rings done.rings)

/-- What a batch starts with. -/
theorem workOf_jobs (s : Service σ ε) (fired : List Fired) : ∀ job ∈ fired.flatMap s.workOf, job = .tick ∨
    ∃ channel port, job = .drain channel port ∧ s.listeners.get? channel = some port := by
  intro job mem
  obtain ⟨f, -, inWork⟩ := List.mem_flatMap.mp mem
  cases f with
  | interval =>
      simp only [workOf] at inWork
      split at inWork
      · exact .inl (List.mem_singleton.mp inWork)
      · cases inWork
  | notification channel =>
      simp only [workOf] at inWork
      split at inWork
      · rename_i port found
        exact .inr ⟨channel, port, List.mem_singleton.mp inWork, found⟩
      · cases inWork

/-- **One step**, of the loop or of others. -/
theorem inv_step (inv : s.Inv) {a : ServiceAction ρ ω} (stepped : s.step h a = .ok s') : s'.Inv := by
  obtain ⟨accounts, unheard, waits⟩ := inv
  cases a with
  | ring channel id =>
      cases stepped
      exact ⟨accounts.ring (channel, id), unheard, waits⟩
  | outside by_ =>
      simp only [step] at stepped
      split at stepped
      · cases stepped
        exact ⟨accounts, unheard, waits⟩
      · cases stepped
  | wake terminated fired =>
      simp only [step] at stepped
      split at stepped
      · rename_i waiting
        rw [work, waiting] at accounts
        cases stepped
        split
        · exact ⟨accounts, nofun, nofun⟩
        · exact inv_resume (accounts.batch (s.workOf_jobs fired))
      · cases stepped
  | go reads =>
      simp only [step] at stepped
      split at stepped
      · rename_i job rest batch
        rw [work, batch] at accounts
        cases job with
        | tick =>
            simp only [advance] at stepped
            split at stepped
            · cases stepped
              exact inv_call accounts.tick
            · cases stepped
        | event channel id =>
            simp only [advance] at stepped
            split at stepped
            · cases stepped
              exact inv_call accounts.event
            · cases stepped
        | drain channel port =>
            simp only [advance] at stepped
            split at stepped
            · cases stepped
            · rename_i l there
              cases stepped
              exact inv_resume (accounts.drain there)
      · cases stepped
  | _ =>
      -- what `setup` and the start of `run` do
      simp only [step] at stepped
      split at stepped
      swap
      · cases stepped
      rename_i setup
      rw [work, setup, unheard setup] at accounts
      first
      | split at stepped
        · cases stepped
          exact ⟨by rw [unheard setup]; exact accounts, nofun, nofun⟩
        · cases stepped
          exact inv_resume (by rw [unheard setup]; exact accounts)
      | cases stepped
        refine ⟨?_, fun _ => unheard setup, fun waiting => ?_⟩
        · simp only [work, setup, unheard setup]
          first | exact accounts.on _ | exact accounts
        · rw [setup] at waiting
          cases waiting

theorem inv_reach (state : σ) (reach : Reachable (step h) (· = init state) s) : s.Inv := by
  refine reach.invariant (?_ : ∀ s : Service σ ε, s = init state → s.Inv) fun s a s' inv => inv_step inv
  rintro s rfl
  exact ⟨⟨⟨[], [], rfl, nofun, nofun⟩, nofun, nofun⟩, fun _ => rfl, nofun⟩

/-- **Every id is heard once and in order**: in every run, what was rung on a channel since its
listener was opened is what the hook was called with, then what is in hand, then what is still in
the listener; between two batches, and after `run` has returned, nothing is in hand. -/
theorem events_dispatched (h : Hooks σ ρ ω ε) (state : σ)
    (reach : Reachable (step h) (· = init state) s) :
    (∀ channel port, s.listeners.get? channel = some port → ∃ l, s.ports[port]? = some l ∧
      l.channel = channel ∧ idsOn channel s.heard ++ s.inHand channel ++ l.queue = l.rung) ∧
    (∀ e ∈ s.heard, e.1 ∈ s.listeners.keys) ∧
    (s.phase = .waiting ∨ s.phase = .returned → ∀ channel, s.inHand channel = []) ∧
    (s.phase = .waiting → s.running = true) := by
  have inv := inv_reach state reach
  refine ⟨inv.accounts.ports, inv.accounts.heard, ?_, inv.waits⟩
  intro between channel
  unfold inHand work
  rcases between with phase | phase
  · rw [phase]
    rfl
  · rw [phase]
    rfl

/-- A hook that answers an id on `arm` with one on `done`, and a run in which two were rung. -/
def Demo.answers : Hooks Nat Unit Empty Empty where
  handle
    | .event "arm" id, (), n => .ok ⟨n + 1, [("done", id)], false⟩
    | _, (), n => .ok ⟨n, [], false⟩
  admits _ _ _ := true
  outside nothing := nomatch nothing

def Demo.twoRung : List (ServiceAction Unit Empty) :=
  [.on "arm", .on "done", .run, .ring "arm" 7, .ring "arm" 8, .wake false [.notification "arm"], .go (), .go ()]

/-- One of two ids is in hand when the answer to the other is rung. -/
theorem events_dispatched_twoRung :
    let s := endState (step Demo.answers) (init 0) Demo.twoRung
    idsOn "arm" s.heard = [7] ∧ s.inHand "arm" = [8] ∧
      ∃ l, s.ports[1]? = some l ∧ l.channel = "done" ∧ idsOn "done" s.heard ++ s.inHand "done" ++ l.queue = l.rung ∧
        l.rung = [7] := by
  intro s
  have dispatched := events_dispatched (s := s) Demo.answers 0 (Reachable.of_accepts rfl rfl)
  obtain ⟨l, there, own, all⟩ := dispatched.1 "done" 1 rfl
  refine ⟨rfl, rfl, l, there, own, all, ?_⟩
  cases there
  rfl

/-- The calls that were made explain the state, and the ids that were heard but for one: the hook
that was called with it has raised. -/
structure Served (h : Hooks σ ρ ω ε) (start : σ) (s : Service σ ε) (moves : List (Move ρ ω)) : Prop where
  run : runs h.move start moves = .ok s.state
  heard : s.heard = moves.filterMap Move.event ∨
    ∃ last e work, s.heard = moves.filterMap Move.event ++ [last] ∧ s.phase = .failed (.raised e) work

variable {start : σ} {moves : List (Move ρ ω)}

theorem resume_state (work : List Work) (s : Service σ ε) :
    (s.resume work).state = s.state ∧ (s.resume work).heard = s.heard := by
  cases work <;> exact ⟨rfl, rfl⟩

theorem Served.more (run : runs h.move start moves = .ok s.state) {m : Move ρ ω}
    {state : σ} (moved : h.move s.state m = .ok state) :
    runs h.move start (moves ++ [m]) = .ok state :=
  runs_append_ok.mpr ⟨s.state, run, runs_cons_ok.mpr ⟨state, moved, rfl⟩⟩

/-- A hook is called, with an id or for the tick. -/
theorem Served.call (run : runs h.move start moves = .ok s.state) {c : Call} {reads : ρ} {rest : List Work}
    (admitted : h.admits c reads s.state = true)
    (heard : s.heard = moves.filterMap Move.event ++ (Move.event (.called c reads : Move ρ ω)).toList) :
    ∃ moves, Served h start (s.call h c reads rest) moves := by
  unfold Service.call
  cases result : h.handle c reads s.state with
  | ok done =>
      simp only [rings_eq]
      obtain ⟨state, heard'⟩ := resume_state (ε := ε) rest
        { s with
          state := done.state
          running := s.running && !done.stops
          ports := done.rings.foldl (fun ports event => ports.map (Listener.ring event)) s.ports }
      refine ⟨moves ++ [.called c reads], ?_, .inl ?_⟩
      · rw [state]
        refine Served.more run ?_
        simp only [Hooks.move, admitted, result, if_true]
      · rw [heard', heard, List.filterMap_append]
        cases c <;> rfl
  | error e =>
      refine ⟨moves, run, ?_⟩
      cases c with
      | tick => exact .inl (heard.trans (List.append_nil _))
      | event channel id => exact .inr ⟨(channel, id), e, rest, heard, rfl⟩

/-- A service whose hooks have not raised has heard what they were called with. -/
theorem Served.heard_of {work : List Work} (served : Served h start s moves) (phase : s.phase = .batch work) :
    s.heard = moves.filterMap Move.event := by
  rcases served.heard with all | ⟨_, _, _, -, failed⟩
  · exact all
  · rw [phase] at failed
    cases failed

theorem Served.unchanged (served : Served h start s moves) (state : s'.state = s.state)
    (heard : s'.heard = s.heard) (phase : ∀ e work, s.phase = .failed (.raised e) work → s'.phase = s.phase) :
    Served h start s' moves := by
  refine ⟨state ▸ served.run, ?_⟩
  rw [heard]
  rcases served.heard with all | ⟨last, e, work, all, failed⟩
  · exact .inl all
  · exact .inr ⟨last, e, work, all, (phase e work failed).trans failed⟩

theorem served_step (served : Served h start s moves) {a : ServiceAction ρ ω} (stepped : s.step h a = .ok s') :
    ∃ moves, Served h start s' moves := by
  cases a with
  | ring channel id =>
      cases stepped
      exact ⟨moves, served.unchanged rfl rfl fun _ _ _ => rfl⟩
  | outside by_ =>
      simp only [step] at stepped
      split at stepped
      · rename_i state done
        cases stepped
        refine ⟨moves ++ [.outside by_], Served.more served.run (by simp only [Hooks.move, done]), ?_⟩
        rw [List.filterMap_append]
        exact (List.append_nil (moves.filterMap Move.event)).symm ▸ served.heard
      · cases stepped
  | go reads =>
      simp only [step] at stepped
      split at stepped
      · rename_i job rest batch
        have all := served.heard_of batch
        cases job with
        | drain channel port =>
            simp only [advance] at stepped
            split at stepped
            · cases stepped
            · cases stepped
              obtain ⟨state, heard⟩ := resume_state _ _
              refine ⟨moves, served.unchanged state heard ?_⟩
              intro e work failed
              rw [batch] at failed
              cases failed
        | tick =>
            simp only [advance] at stepped
            split at stepped
            · rename_i admitted
              cases stepped
              exact Served.call served.run admitted (all.trans (List.append_nil _).symm)
            · cases stepped
        | event channel id =>
            simp only [advance] at stepped
            split at stepped
            · rename_i admitted
              cases stepped
              exact Served.call (s := { s with heard := s.heard ++ [(channel, id)] }) served.run admitted
                (congrArg (· ++ [(channel, id)]) all)
            · cases stepped
      · cases stepped
  | wake terminated fired =>
      simp only [step] at stepped
      split at stepped
      · rename_i waiting
        have other : ∀ e work, s.phase = .failed (.raised e) work → s'.phase = s.phase := by
          intro e work failed
          rw [waiting] at failed
          cases failed
        cases terminated with
        | true =>
            cases stepped
            exact ⟨moves, served.unchanged rfl rfl other⟩
        | false =>
            cases stepped
            obtain ⟨state, heard⟩ := resume_state (fired.flatMap s.workOf) s
            exact ⟨moves, served.unchanged state heard other⟩
      · cases stepped
  | _ =>
      simp only [step] at stepped
      split at stepped
      swap
      · cases stepped
      rename_i setup
      have other : ∀ e work, s.phase = .failed (.raised e) work → s'.phase = s.phase := by
        intro e work failed
        rw [setup] at failed
        cases failed
      first
      | split at stepped <;> (cases stepped; exact ⟨moves, served.unchanged rfl rfl other⟩)
      | cases stepped; exact ⟨moves, served.unchanged rfl rfl other⟩

/-- **The loop is serial**: every run comes of calls of the hooks one after the other, among what
others do, with exactly the ids that were heard. -/
theorem served_serially (h : Hooks σ ρ ω ε) (start : σ) (reach : Reachable (step h) (· = init start) s) :
    ∃ moves, Served h start s moves := by
  refine reach.invariant (?_ : ∀ s : Service σ ε, s = init start → ∃ moves, Served h start s moves) ?_
  · rintro s rfl
    exact ⟨[], rfl, .inl rfl⟩
  · rintro s a s' ⟨moves, served⟩ stepped
    exact served_step served stepped

end Runs

end Service

end KoyuRuntime.Ipc
