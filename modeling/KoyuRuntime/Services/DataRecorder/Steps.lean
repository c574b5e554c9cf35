/-
# Services.DataRecorder.Steps — one action of a run, case by case

`Stepped` lists every way an accepted action changes the world; each invariant of
whole runs is a case analysis over it and never unfolds a handler.  A handler
that runs a capture pass does so on `passStart` (a tick collects finished jobs
first) and ends in one of four ways: the pass aborted, the recording goes on, its
clock went silent, or the capture is handed to a finalize job.

The journal and the history move in step: `next_handed_same` and
`next_handed_new` say what a step adds to the jobs handed over.
-/
import KoyuRuntime.Services.DataRecorder.Effects
import KoyuRuntime.Services.DataRecorder.Run

namespace KoyuRuntime.Services.DataRecorder

open Host Theory Ipc

set_option autoImplicit false

variable {P V : Type}

/-! ## Deliveries -/

/-- The ports once a sample has reached its topic. -/
def pushed (topic : String) (sample : Sample P) (subs : OrderedDict String (Subscriber P)) :
    OrderedDict String (Subscriber P) :=
  match subs.get? topic with
  | none => subs
  | some sub => subs.set topic (sub.push sample)

theorem deliver_eq (topic : String) (sample : Sample P) (r : Recorder P V) :
    deliver topic sample r = { r with subs := pushed topic sample r.subs } := by
  unfold deliver pushed
  cases r.subs.get? topic <;> rfl

theorem get?_pushed (topic : String) (sample : Sample P) (subs : OrderedDict String (Subscriber P))
    (q : String) : (pushed topic sample subs).get? q =
      if topic = q then (subs.get? q).map fun sub => sub.push sample else subs.get? q := by
  unfold pushed
  split
  · rename_i none
    by_cases same : topic = q
    · rw [if_pos same, ← same, none]
      rfl
    · rw [if_neg same]
  · rename_i sub found
    rw [OrderedDict.get?_set]
    by_cases same : topic = q
    · rw [if_pos same, if_pos same, ← same, found]
      rfl
    · rw [if_neg same, if_neg same]

/-! ## Collecting -/

/-- The jobs a collection finds done, oldest first, with their results. -/
def doneJobs (pending : List (Future V)) : List (Job V × Except Exn Outcome) :=
  pending.filterMap fun fut => fut.result.map fun result => (fut.job, result)

theorem collectLoop_eq (futs : List (Future V)) (r : Recorder P V) :
    collectLoop futs r =
      (futs.filter fun fut => fut.result.isNone,
        { r with
          episode := r.episode ++ (doneJobs futs).map fun d => resultRing d.2
          journal := r.journal ++ (doneJobs futs).map fun d => .collected d.1 d.2 }) := by
  induction futs generalizing r with
  | nil => simp [collectLoop, doneJobs]
  | cons fut rest ih =>
      cases done : fut.result with
      | none => simp [collectLoop, done, ih, doneJobs]
      | some result => simp [collectLoop, done, ih, doneJobs, note, ring, List.append_assoc]

theorem collect_eq (r : Recorder P V) :
    collect r =
      { r with
        pending := r.pending.filter fun fut => fut.result.isNone
        episode := r.episode ++ (doneJobs r.pending).map fun d => resultRing d.2
        journal := r.journal ++ (doneJobs r.pending).map fun d => .collected d.1 d.2 } := by
  simp [collect, collectLoop_eq]

section Collect

variable (r : Recorder P V)

@[simp] theorem collect_state : (collect r).state = r.state := by rw [collect_eq]
@[simp] theorem collect_cap : (collect r).cap = r.cap := by rw [collect_eq]
@[simp] theorem collect_subs : (collect r).subs = r.subs := by rw [collect_eq]
@[simp] theorem collect_verdicts : (collect r).verdicts = r.verdicts := by rw [collect_eq]
@[simp] theorem collect_telemetry : (collect r).telemetry = r.telemetry := by rw [collect_eq]

end Collect

/-- What a refresh reads and writes is the ports and the two caches. -/
theorem refreshSource_congr (s : Source P V) {r r' : Recorder P V} (cap : r'.cap = r.cap)
    (subs : r'.subs = r.subs) :
    (refreshSource r' s).cap = (refreshSource r s).cap ∧
      (refreshSource r' s).subs = (refreshSource r s).subs := by
  cases paired : s.paired <;> cases port : r.subs.get? s.topic with
  | none => simp [refreshSource, drainTopic, latestTopic, paired, port, cap, subs]
  | some sub =>
      cases newest : sub.latest.1 <;>
        simp [refreshSource, drainTopic, latestTopic, paired, port, newest, cap, subs]

theorem refresh_congr (cfg : Config P V) {r r' : Recorder P V} (cap : r'.cap = r.cap)
    (subs : r'.subs = r.subs) :
    (refresh cfg r').cap = (refresh cfg r).cap ∧ (refresh cfg r').subs = (refresh cfg r).subs := by
  unfold refresh
  induction cfg.others generalizing r r' with
  | nil => exact ⟨cap, subs⟩
  | cons s rest ih =>
      obtain ⟨cap', subs'⟩ := refreshSource_congr s cap subs
      exact ih cap' subs'

theorem clockDrain_collect (cfg : Config P V) (r : Recorder P V) :
    clockDrain cfg (collect r) = clockDrain cfg r := by
  obtain ⟨-, subs⟩ := refresh_congr cfg (collect_cap r) (collect_subs r)
  simp only [clockDrain, drainTopic, subs]
  split <;> rfl

/-! ## Passes -/

/-- The recorder a handler's capture pass runs on. -/
def Action.passStart (r : Recorder P V) : Action P → Recorder P V
  | .tick _ => collect r
  | _ => r

/-- The `time.monotonic()` its pass reads. -/
def Action.passMono : Action P → ℚ
  | .event _ _ env => env.mono
  | .tick env => env.mono
  | _ => 0

/-- The recorder after the capture pass of an action that has one. -/
def passed (cfg : Config P V) (a : Action P) (r : Recorder P V) : Recorder P V :=
  capture cfg a.passMono (a.passStart r)

/-- A tick publishes after a pass that left the recording alive; `STOP` does not. -/
def Action.settle (r : Recorder P V) : Action P → Recorder P V
  | .tick _ => publish r
  | _ => r

section PassStart

variable (a : Action P) (r : Recorder P V)

@[simp] theorem passStart_state : (a.passStart r).state = r.state := by
  cases a <;> simp [Action.passStart]
@[simp] theorem passStart_cap : (a.passStart r).cap = r.cap := by
  cases a <;> simp [Action.passStart]
@[simp] theorem passStart_subs : (a.passStart r).subs = r.subs := by
  cases a <;> simp [Action.passStart]
@[simp] theorem passStart_verdicts : (a.passStart r).verdicts = r.verdicts := by
  cases a <;> simp [Action.passStart]

theorem clockDrain_passStart (cfg : Config P V) :
    clockDrain cfg (a.passStart r) = clockDrain cfg r := by
  cases a <;> simp [Action.passStart, clockDrain_collect]

@[simp] theorem settle_state : (a.settle r).state = r.state := by cases a <;> rfl
@[simp] theorem settle_cap : (a.settle r).cap = r.cap := by cases a <;> rfl
@[simp] theorem settle_subs : (a.settle r).subs = r.subs := by cases a <;> rfl
@[simp] theorem settle_pending : (a.settle r).pending = r.pending := by cases a <;> rfl
@[simp] theorem settle_verdicts : (a.settle r).verdicts = r.verdicts := by cases a <;> rfl
@[simp] theorem settle_episode : (a.settle r).episode = r.episode := by cases a <;> rfl
@[simp] theorem settle_journal : (a.settle r).journal = r.journal := by cases a <;> rfl

end PassStart

theorem isPass_tick {r : Recorder P V} (env : TickReadings) (recording : r.state = .recording) :
    (Action.tick env : Action P).isPass r = true := decide_eq_true recording

theorem isPass_stop {r : Recorder P V} (env : Readings) (recording : r.state = .recording) :
    (Action.event "recorder/control" ctlStop env : Action P).isPass r = true := by
  simp [Action.isPass, recording]

theorem isPass_recording {a : Action P} {r : Recorder P V} (pass : a.isPass r = true) :
    r.state = .recording := by
  cases a <;> simp_all [Action.isPass]

/-- The recorder an accepted `START` leaves. -/
def opened (env : Readings) (snap : RecordingContext) (recHz : Double) (period : Int)
    (r : Recorder P V) : Recorder P V :=
  publish (note (.opened env.captureId.hex snap recHz env.timeNs)
    { r with
      cap :=
        { captureId := env.captureId.hex, snap := some snap, recHz := recHz, periodNs := period,
          t0Ns := env.timeNs, clockSeen := env.mono }
      state := .recording })

section Opened

variable (env : Readings) (snap : RecordingContext) (recHz : Double) (period : Int)
  (r : Recorder P V)

@[simp] theorem opened_state : (opened env snap recHz period r).state = .recording := rfl
@[simp] theorem opened_cap : (opened env snap recHz period r).cap =
    { captureId := env.captureId.hex, snap := some snap, recHz := recHz, periodNs := period,
      t0Ns := env.timeNs, clockSeen := env.mono } := rfl
@[simp] theorem opened_subs : (opened env snap recHz period r).subs = r.subs := rfl
@[simp] theorem opened_pending : (opened env snap recHz period r).pending = r.pending := rfl
@[simp] theorem opened_verdicts : (opened env snap recHz period r).verdicts = r.verdicts := rfl
@[simp] theorem opened_episode : (opened env snap recHz period r).episode = r.episode := rfl
@[simp] theorem opened_journal : (opened env snap recHz period r).journal =
    r.journal ++ [.opened env.captureId.hex snap recHz env.timeNs] := rfl

end Opened

/-! ## Actions -/

/-- Everything an accepted action can do to the world. -/
inductive Stepped (libs : Libs V) (cfg : Config P V) (w : World P V) :
    Action P → World P V → Prop where
  | delivered (topic : String) (sample : Sample P) :
      Stepped libs cfg w (.deliver topic sample)
        { w with recorder := deliver topic sample w.recorder }
  | filed (stem : String) (content : Option JsonObj) :
      Stepped libs cfg w (.submit stem content)
        { w with recorder :=
            { w.recorder with verdicts := w.recorder.verdicts.submit stem content } }
  | ignored (channel : String) (eventId : Nat) (env : Readings)
      (quiet : (Action.event channel eventId env : Action P).isPass w.recorder = false)
      (noStart : channel = "recorder/control" → eventId = ctlStart → w.recorder.state ≠ .idle) :
      Stepped libs cfg w (.event channel eventId env) w
  | opened (env : Readings) (period : Int) (idle : w.recorder.state = .idle)
      (rate : periodOf (readRecordHz cfg env.config) = .ok period) :
      Stepped libs cfg w (.event "recorder/control" ctlStart env)
        { w with recorder :=
            opened env (readContext env.contextFile) (readRecordHz cfg env.config) period w.recorder }
  | discarded (env : Readings) (recording : w.recorder.state = .recording) :
      Stepped libs cfg w (.event "recorder/control" ctlDiscard env)
        { w with recorder := discard w.recorder }
  | collected (env : TickReadings) (idle : w.recorder.state = .idle) :
      Stepped libs cfg w (.tick env) { w with recorder := collect w.recorder }
  | aborted (a : Action P) (pass : a.isPass w.recorder = true)
      (dead : (passed cfg a w.recorder).state = .idle) :
      Stepped libs cfg w a { w with recorder := passed cfg a w.recorder }
  | continued (env : TickReadings) (recording : w.recorder.state = .recording)
      (alive : (passed cfg (.tick env) w.recorder).state = .recording)
      (heard : clockSilent env.monoAfter (passed cfg (.tick env) w.recorder) = false) :
      Stepped libs cfg w (.tick env)
        { w with recorder := publish (passed cfg (.tick env) w.recorder) }
  | silent (env : TickReadings) (recording : w.recorder.state = .recording)
      (alive : (passed cfg (.tick env) w.recorder).state = .recording)
      (timeout : clockSilent env.monoAfter (passed cfg (.tick env) w.recorder) = true) :
      Stepped libs cfg w (.tick env)
        { w with recorder :=
            abort (.clockSilent cfg.clock.topic) (publish (passed cfg (.tick env) w.recorder)) }
  | submitted (a : Action P) (pass : a.isPass w.recorder = true)
      (alive : (passed cfg a w.recorder).state = .recording) :
      Stepped libs cfg w a
        { w with recorder := submitFinalize (a.settle (passed cfg a w.recorder)) }
  | waited (call : Call) (none : nextJob w.recorder.pending = none) :
      Stepped libs cfg w (.finish call) w
  | finished (call : Call) (job : Job V) (next : nextJob w.recorder.pending = some job) :
      Stepped libs cfg w (.finish call)
        { recorder := note (.finished job (runJob libs cfg call job w.disk).1)
            { w.recorder with
              pending := completeNext (runJob libs cfg call job w.disk).1 w.recorder.pending }
          disk := (runJob libs cfg call job w.disk).2 }

theorem stepped_event {libs : Libs V} {cfg : Config P V} {w : World P V} {channel : String}
    {eventId : Nat} {env : Readings} {r : Recorder P V}
    (handled : onEvent cfg channel eventId env w.recorder = .ok r) :
    Stepped libs cfg w (.event channel eventId env) { w with recorder := r } := by
  unfold onEvent at handled
  by_cases control : channel = "recorder/control"
  swap
  · rw [if_pos control] at handled
    cases handled
    exact .ignored _ _ _ (by simp [Action.isPass, control]) fun same => absurd same control
  subst control
  rw [if_neg (not_not.mpr rfl)] at handled
  by_cases isStart : eventId = ctlStart
  · subst isStart
    rw [if_pos rfl] at handled
    by_cases idle : w.recorder.state = .idle
    · rw [if_neg (not_not.mpr idle), start] at handled
      cases rate : periodOf (readRecordHz cfg env.config) with
      | error e => simp [rate, Except.map] at handled
      | ok period =>
          simp only [rate, Except.map, Except.ok.injEq] at handled
          subst handled
          exact .opened env period idle rate
    · rw [if_pos idle] at handled
      cases handled
      exact .ignored _ _ _ (by simp [Action.isPass, ctlStart, ctlStop]) fun _ _ => idle
  rw [if_neg isStart] at handled
  by_cases isDiscard : eventId = ctlDiscard ∧ w.recorder.state = .recording
  · rw [if_pos isDiscard] at handled
    cases handled
    obtain ⟨rfl, recording⟩ := isDiscard
    exact .discarded env recording
  rw [if_neg isDiscard] at handled
  by_cases isStop : eventId = ctlStop ∧ w.recorder.state = .recording
  · rw [if_pos isStop] at handled
    cases handled
    obtain ⟨rfl, recording⟩ := isStop
    have pass := isPass_stop env recording
    unfold stop
    by_cases alive : (capture cfg env.mono w.recorder).state = .recording
    · simp only [alive, if_true]
      exact .submitted _ pass alive
    · simp only [alive, if_false]
      exact .aborted _ pass (state_idle_of_ne alive)
  · rw [if_neg isStop] at handled
    cases handled
    exact .ignored _ _ _ (by simpa [Action.isPass] using isStop) fun _ same => absurd same isStart

theorem stepped_tick (libs : Libs V) (cfg : Config P V) (w : World P V) (env : TickReadings) :
    Stepped libs cfg w (.tick env) { w with recorder := onTick cfg env w.recorder } := by
  unfold onTick
  by_cases recording : w.recorder.state = .recording
  swap
  · simp only [collect_state, recording, ne_eq, not_false_eq_true, if_true]
    exact .collected env (state_idle_of_ne recording)
  simp only [collect_state, recording, ne_eq, not_true_eq_false, if_false]
  have pass := isPass_tick env recording
  by_cases alive : (capture cfg env.mono (collect w.recorder)).state = .recording
  swap
  · simp only [alive, not_false_eq_true, if_true]
    exact .aborted _ pass (state_idle_of_ne alive)
  simp only [alive, not_true_eq_false, if_false, afterPass]
  have same : ∀ r : Recorder P V, clockSilent env.monoAfter (publish r) = clockSilent env.monoAfter r :=
    fun _ => rfl
  cases silence : clockSilent env.monoAfter (capture cfg env.mono (collect w.recorder)) with
  | true =>
      simp only [same, silence, if_true]
      exact .silent env recording alive silence
  | false =>
      simp only [same, silence, Bool.false_eq_true, if_false]
      split
      · exact .submitted _ pass alive
      · exact .continued env recording alive silence

/-- **The inversion rule** of an accepted action. -/
theorem step_cases {libs : Libs V} {cfg : Config P V} {w w' : World P V} {a : Action P}
    (step : w.step libs cfg a = .ok w') : Stepped libs cfg w a w' := by
  cases a with
  | deliver topic sample =>
      cases step
      exact .delivered topic sample
  | submit stem content =>
      cases step
      exact .filed stem content
  | event channel eventId env =>
      simp only [World.step] at step
      cases handled : onEvent cfg channel eventId env w.recorder with
      | error e => simp [handled, Except.map] at step
      | ok r =>
          simp only [handled, Except.map, Except.ok.injEq] at step
          subst step
          exact stepped_event handled
  | tick env =>
      cases step
      exact stepped_tick libs cfg w env
  | finish call =>
      cases step
      unfold finishNext
      split
      · rename_i none
        exact .waited call none
      · rename_i job next
        exact .finished call job next

theorem traced_step_cases {libs : Libs V} {cfg : Config P V} {t t' : Traced P V} {a : Action P}
    (step : Traced.step libs cfg t a = .ok t') :
    fresh cfg t.world a = true ∧ Stepped libs cfg t.world a t'.world ∧
      t'.hist = t.hist.next cfg t.world a t'.world := by
  unfold Traced.step at step
  split at step
  · rename_i isFresh
    split at step
    · rename_i w stepped
      cases step
      exact ⟨isFresh, step_cases stepped, rfl⟩
    · cases step
  · cases step

/-- **The run rule**: what holds just after `setup` and survives every case of an
accepted action holds in every reachable state. -/
theorem reach_invariant {libs : Libs V} {cfg : Config P V} {Inv : Traced P V → Prop}
    (base : ∀ t : Traced P V, t.Init cfg → Inv t)
    (next : ∀ (t : Traced P V) (a : Action P) (w' : World P V), Inv t → fresh cfg t.world a = true →
      Stepped libs cfg t.world a w' → Inv ⟨w', t.hist.next cfg t.world a w'⟩)
    {t : Traced P V} (reach : Traced.Reach libs cfg t) : Inv t := by
  refine Reachable.invariant base ?_ reach
  intro s a s' inv step
  obtain ⟨isFresh, stepped, hist⟩ := traced_step_cases step
  have := next s a s'.world inv isFresh stepped
  rw [← hist] at this
  exact this

/-! ## Histories -/

section Journal

variable (journal : List (Entry V))

@[simp] theorem submissions_nil : submissions ([] : List (Entry V)) = [] := rfl
@[simp] theorem submissions_append (more : List (Entry V)) :
    submissions (journal ++ more) = submissions journal ++ submissions more :=
  List.filterMap_append
@[simp] theorem submissions_opened (id : String) (snap : RecordingContext) (recHz : Double)
    (t0 : Int) : submissions ([.opened id snap recHz t0] : List (Entry V)) = [] := rfl
@[simp] theorem submissions_discarded (id : String) :
    submissions ([.discarded id] : List (Entry V)) = [] := rfl
@[simp] theorem submissions_aborted (id : String) (reason : AbortReason) :
    submissions ([.aborted id reason] : List (Entry V)) = [] := rfl
@[simp] theorem submissions_submitted (job : Job V) : submissions [.submitted job] = [job] := rfl
@[simp] theorem submissions_finished (job : Job V) (result : Except Exn Outcome) :
    submissions [.finished job result] = [] := rfl

@[simp] theorem submissions_collected (done : List (Job V × Except Exn Outcome)) :
    submissions (done.map fun d => .collected d.1 d.2) = [] := by
  induction done with
  | nil => rfl
  | cons d rest ih => exact ih

end Journal

theorem submissions_collect (r : Recorder P V) :
    submissions (collect r).journal = submissions r.journal := by
  rw [collect_eq]
  simp

theorem submissions_passStart (a : Action P) (r : Recorder P V) :
    submissions (a.passStart r).journal = submissions r.journal := by
  cases a <;> simp [Action.passStart, submissions_collect]

section Passed

variable {cfg : Config P V} {a : Action P} {r : Recorder P V}

theorem passed_effect (pass : a.isPass r = true) : PassEffect (a.passStart r) (passed cfg a r) :=
  capture_effect cfg a.passMono (by simpa using isPass_recording pass)

/-- A pass that leaves the recording alive touches nothing outside the capture. -/
theorem passed_same (pass : a.isPass r = true) (alive : (passed cfg a r).state = .recording) :
    SameShell (a.passStart r) (passed cfg a r) := by
  have effect : PassEffect (a.passStart r) (passed cfg a r) := passed_effect pass
  generalize passed cfg a r = out at effect alive
  cases effect with
  | live same => exact same
  | aborted => simp at alive

/-- A pass that ends the recording is exactly one abort. -/
theorem passed_dead (pass : a.isPass r = true) (dead : (passed cfg a r).state = .idle) :
    ∃ mid reason, SameShell (a.passStart r) mid ∧ passed cfg a r = abort reason mid := by
  have effect : PassEffect (a.passStart r) (passed cfg a r) := passed_effect pass
  generalize passed cfg a r = out at effect dead
  cases effect with
  | live same =>
      have := same.state.symm.trans dead
      simp [isPass_recording pass] at this
  | aborted reason same => exact ⟨_, reason, same, rfl⟩

theorem passed_cap_dead (pass : a.isPass r = true) (dead : (passed cfg a r).state = .idle) :
    (passed cfg a r).cap = {} := by
  obtain ⟨mid, reason, -, eq⟩ := passed_dead pass dead
  simp [eq]

theorem submissions_passed_live (pass : a.isPass r = true)
    (alive : (passed cfg a r).state = .recording) :
    submissions (passed cfg a r).journal = submissions r.journal := by
  rw [(passed_same pass alive).journal, submissions_passStart]

theorem submissions_passed_dead (pass : a.isPass r = true)
    (dead : (passed cfg a r).state = .idle) :
    submissions (passed cfg a r).journal = submissions r.journal := by
  obtain ⟨mid, reason, same, eq⟩ := passed_dead pass dead
  simp [eq, same.journal, submissions_passStart]

end Passed

section Next

variable (cfg : Config P V) (h : History P V) {w w' : World P V} {a : Action P}

/-- The clock frames drained since `START`, once this action has run. -/
def History.drainedBy (w : World P V) (a : Action P) : List (Sample P) :=
  sinceStart w a h.drained (clockDrain cfg w.recorder)

theorem sinceStart_pass {α : Type} {before new : List α} (pass : a.isPass w.recorder = true) :
    sinceStart w a before new = before ++ new := by
  simp [sinceStart, pass]

theorem sinceStart_quiet {α : Type} {before new : List α} (quiet : a.isPass w.recorder = false)
    (recording : w.recorder.state = .recording) : sinceStart w a before new = before := by
  simp [sinceStart, quiet, recording]

theorem sinceStart_idle {α : Type} {before new : List α} (idle : w.recorder.state = .idle) :
    sinceStart w a before new = [] := by
  have quiet : a.isPass w.recorder = false := by
    cases pass : a.isPass w.recorder with
    | false => rfl
    | true => simp [isPass_recording pass] at idle
  simp [sinceStart, quiet, idle]

theorem next_handed_same
    (same : submissions w'.recorder.journal = submissions w.recorder.journal) :
    (h.next cfg w a w').handed = h.handed := by
  simp [History.next, same]

theorem next_handed_new {job : Job V}
    (new : submissions w'.recorder.journal = submissions w.recorder.journal ++ [job]) :
    (h.next cfg w a w').handed = h.handed ++
      [⟨job, w.recorder.cap.t0Ns, w.recorder.cap.periodNs, h.drainedBy cfg w a,
        w.recorder.verdicts.requests⟩] := by
  simp [History.next, new, History.drainedBy]

theorem subset_next_delivered (w' : World P V) :
    h.delivered ⊆ (h.next cfg w a w').delivered := by
  cases a <;> simp [History.next]

end Next

end KoyuRuntime.Services.DataRecorder
