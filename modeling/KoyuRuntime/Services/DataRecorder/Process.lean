/-
# Services.DataRecorder.Process — the recorder in its loop

The runs of the recorder are lists of actions.  The process gets there by its loop: it is woken,
drains the control channel, and calls its hooks one by one while publishers, judges and the worker
go on.

* `actions_of_moves`: what the hooks and the others do is a run of actions.
* `recorder_process`: every run of the process is a run of the recorder, handles every id rung on
  `recorder/control` once and in order, and opens no capture without a `START` that was rung.
-/
import KoyuRuntime.Ipc.Service
import KoyuRuntime.Services.DataRecorder.Lifecycle

namespace KoyuRuntime.Services.DataRecorder

open Host Theory Ipc

set_option autoImplicit false

variable {P V : Type}

/-- What a hook reads from outside. -/
inductive Reads where
  | control (env : Readings)
  | tick (env : TickReadings)

/-- A call of a hook, as an action. -/
def actionOf : Ipc.Call → Reads → Option (Action P)
  | .tick, .tick env => some (.tick env)
  | .event channel id, .control env => some (.event channel id env)
  | _, _ => none

/-- The event an action is the handling of. -/
def Action.handles : Action P → Option (String × Nat)
  | .event channel id _ => some (channel, id)
  | _ => none

/-- Is it a hook that does this? -/
def Action.isHook : Action P → Bool
  | .event _ _ _ => true
  | .tick _ => true
  | _ => false

/-- `DataRecorder` as a subclass: the ids that `recorder/episode` rings are its own rings. -/
def hooks (libs : Libs V) (cfg : Config P V) : Hooks (Traced P V) Reads (Action P) Exn where
  handle c reads t :=
    match actionOf c reads with
    | none => .ok ⟨t, [], false⟩
    | some a =>
        match t.world.step libs cfg a with
        | .ok w =>
            .ok ⟨⟨w, t.hist.next cfg t.world a w⟩,
              (w.recorder.episode.drop t.world.recorder.episode.length).map fun id => ("recorder/episode", id),
              false⟩
        | .error e => .error e
  admits c reads t :=
    match actionOf c reads with
    | none => false
    | some a => fresh cfg t.world a
  outside a t :=
    if a.isHook then none
    else
      match Traced.step libs cfg t a with
      | .ok t' => some t'
      | .error _ => none

section Process

variable {libs : Libs V} {cfg : Config P V} {t t' boot : Traced P V}

/-- What a hook or someone else does is an action. -/
theorem action_of_move {m : Move Reads (Action P)} (moved : (hooks libs cfg).move t m = .ok t') :
    ∃ a, Traced.step libs cfg t a = .ok t' ∧ a.handles = m.event := by
  cases m with
  | called c reads =>
      simp only [Hooks.move, hooks] at moved
      cases isAction : (actionOf c reads : Option (Action P)) with
      | none => simp [isAction] at moved
      | some a =>
          simp only [isAction] at moved
          split at moved
          · rename_i isFresh
            cases stepped : t.world.step libs cfg a with
            | error e => simp [stepped] at moved
            | ok w =>
                simp only [stepped, Except.ok.injEq] at moved
                refine ⟨a, ?_, ?_⟩
                · rw [← moved]
                  simp only [Traced.step, isFresh, stepped, if_true]
                · cases c <;> cases reads <;> cases isAction <;> rfl
          · cases moved
  | outside a =>
      simp only [Hooks.move, hooks] at moved
      split at moved
      · rename_i state done
        cases moved
        split at done
        · cases done
        · rename_i noHook
          split at done
          · rename_i stepped
            cases done
            refine ⟨a, stepped, ?_⟩
            cases a <;> first | rfl | exact absurd rfl noHook
          · cases done
      · cases moved

/-- **A run of actions**, with the events that were handled. -/
theorem actions_of_moves {moves : List (Move Reads (Action P))}
    (run : runs (hooks libs cfg).move t moves = .ok t') :
    ∃ actions, runs (Traced.step libs cfg) t actions = .ok t' ∧
      actions.filterMap Action.handles = moves.filterMap Move.event := by
  induction moves generalizing t with
  | nil =>
      cases run
      exact ⟨[], rfl, rfl⟩
  | cons m rest ih =>
      obtain ⟨mid, first, later⟩ := runs_cons_ok.mp run
      obtain ⟨a, stepped, same⟩ := action_of_move first
      obtain ⟨actions, run', same'⟩ := ih later
      refine ⟨a :: actions, runs_cons_ok.mpr ⟨mid, stepped, run'⟩, ?_⟩
      rw [List.filterMap_cons, List.filterMap_cons, same, same']

/-- The captures an action opens. -/
def Action.starts : Action P → Nat
  | .event channel id _ => if channel = "recorder/control" ∧ id = ctlStart then 1 else 0
  | _ => 0

theorem openings_step {a : Action P} (step : Traced.step libs cfg t a = .ok t') :
    (openings t'.world.recorder.journal).length ≤ (openings t.world.recorder.journal).length + a.starts := by
  obtain ⟨isFresh, stepped, -⟩ := traced_step_cases step
  cases turn_of_stepped isFresh stepped with
  | opened env snap recHz _ _ _ journal =>
      rw [journal, openings_append, List.length_append]
      exact Nat.le_refl _
  | kept late _ about journal =>
      rw [journal, openings_append, (late_nothing about).1, List.append_nil]
      exact Nat.le_add_right _ _
  | resolved late entry about journal _ _ ends =>
      have nothing : openings [entry] = [] := by cases ends <;> rfl
      rw [journal, openings_append, openings_append, (late_nothing about).1, nothing]
      simp

theorem openings_run {actions : List (Action P)} (run : runs (Traced.step libs cfg) t actions = .ok t') :
    (openings t'.world.recorder.journal).length ≤
      (openings t.world.recorder.journal).length + (actions.map Action.starts).sum := by
  induction actions generalizing t with
  | nil =>
      cases run
      exact Nat.le_refl _
  | cons a rest ih =>
      obtain ⟨mid, first, later⟩ := runs_cons_ok.mp run
      have here := openings_step first
      have there := ih later
      rw [List.map_cons, List.sum_cons]
      omega

/-- Each of them handles a `START`. -/
theorem starts_le (actions : List (Action P)) : (actions.map Action.starts).sum =
    (Service.idsOn "recorder/control" (actions.filterMap Action.handles)).count ctlStart := by
  induction actions with
  | nil => rfl
  | cons a rest ih =>
      rw [List.map_cons, List.sum_cons, ih]
      cases a with
      | event channel id env =>
          have split : Service.idsOn "recorder/control"
              ((Action.event channel id env :: rest).filterMap Action.handles) =
              (if channel = "recorder/control" then [id] else []) ++
                Service.idsOn "recorder/control" (rest.filterMap Action.handles) := by
            by_cases control : channel = "recorder/control" <;>
              simp [Service.idsOn, Action.handles, control]
          rw [split, List.count_append, Action.starts]
          by_cases control : channel = "recorder/control"
          · by_cases isStart : id = ctlStart <;> simp [control, isStart]
          · simp [control]
      | _ => exact Nat.zero_add _

/-- **The process**: it runs as the recorder does, handles what is rung on `recorder/control` once
and in order, and opens no capture for which no `START` was rung. -/
theorem recorder_process (initial : boot.Init cfg) {s : Service (Traced P V) Exn}
    (reach : Reachable (Service.step (hooks libs cfg)) (· = Service.init boot) s) :
    Traced.Reach libs cfg s.state ∧
      ∀ port, s.listeners.get? "recorder/control" = some port → ∃ l, s.ports[port]? = some l ∧
        Service.idsOn "recorder/control" s.heard ++ s.inHand "recorder/control" ++ l.queue = l.rung ∧
        (openings s.state.world.recorder.journal).length ≤ l.rung.count ctlStart := by
  obtain ⟨moves, served⟩ := Service.served_serially _ _ reach
  obtain ⟨actions, run, handled⟩ := actions_of_moves served.run
  refine ⟨⟨boot, actions, initial, run⟩, ?_⟩
  intro port found
  obtain ⟨l, there, -, all⟩ := (Service.inv_reach _ reach).accounts.ports "recorder/control" port found
  refine ⟨l, there, all, ?_⟩
  have opened := openings_run run
  rw [initial.1.journal, starts_le, handled] at opened
  have heard : (Service.idsOn "recorder/control" (moves.filterMap Move.event)).count ctlStart ≤
      (Service.idsOn "recorder/control" s.heard).count ctlStart := by
    rcases served.heard with same | ⟨last, _, _, same, -⟩
    · rw [same]
    · rw [same, Service.idsOn_append, List.count_append]
      exact Nat.le_add_right _ _
  rw [← all, List.count_append, List.count_append]
  have none_ : (openings ([] : List (Entry V))).length = 0 := rfl
  omega

end Process

namespace Demo

/-- `setup` and the start of the loop; then a `START` is rung, heard and handled. -/
def wakened : List (ServiceAction Reads (Action Nat)) :=
  [.on "recorder/control", .tick, .run, .ring "recorder/control" ctlStart,
    .wake false [.notification "recorder/control"], .go (.tick ⟨0, 0⟩),
    .go (.control ⟨.missing, none, 1000, 0, firstId⟩)]

def process : Service (Traced Nat Nat) Exn :=
  endState (Service.step (hooks libs rig)) (Service.init boot) wakened

theorem process_reach : Reachable (Service.step (hooks libs rig)) (· = Service.init boot) process :=
  Reachable.of_accepts rfl (by decide +kernel)

end Demo

theorem recorder_process_wakened :
    Demo.process.heard = [("recorder/control", ctlStart)] ∧
      (openings Demo.process.state.world.recorder.journal).length = 1 ∧
      Traced.Reach Demo.libs Demo.rig Demo.process.state :=
  ⟨by decide +kernel, by decide +kernel, (recorder_process Demo.boot_init Demo.process_reach).1⟩

end KoyuRuntime.Services.DataRecorder
