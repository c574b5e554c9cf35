/-
# Services.DataRecorder.Isolation — one episode does not influence the next

A recorder that is idle holds nothing of the episodes it has been through: in every
reachable idle state all twelve capture fields are at their reset values
(`idle_blank`).  What a recorder does with its inputs is then a function of its
ports alone: two idle recorders whose subscriptions hold the same samples show the
same episode under the same inputs (`episode_isolation`), whatever their pasts.

Capture ids are minted per `START` and verdict files come from outside, so an
episode is compared without its id and without the verdict of its job.
-/
import KoyuRuntime.Services.DataRecorder.Steps

namespace KoyuRuntime.Services.DataRecorder

open Host Theory Ipc

set_option autoImplicit false

variable {P V : Type}

/-! ## Idle recorders -/

/-- **Nothing is left of an episode**: an idle recorder's capture is reset. -/
theorem idle_blank {libs : Libs V} {cfg : Config P V} {t : Traced P V}
    (reach : Traced.Reach libs cfg t) : t.world.recorder.state = .idle → t.world.recorder.cap = {} := by
  have base : ∀ t : Traced P V, t.Init cfg →
      t.world.recorder.state = .idle → t.world.recorder.cap = {} := fun t initial _ => initial.1.cap
  refine reach_invariant base ?_ reach
  intro t a w' blank _ stepped idle
  cases stepped with
  | delivered topic sample =>
      simp only [deliver_eq] at idle ⊢
      exact blank idle
  | filed => exact blank idle
  | ignored => exact blank idle
  | opened => cases idle
  | discarded => rfl
  | collected env was =>
      rw [collect_cap]
      exact blank was
  | aborted _ pass dead => exact passed_cap_dead pass dead
  | continued env recording alive =>
      rw [publish_state, alive] at idle
      cases idle
  | silent => rfl
  | submitted => rfl
  | waited => exact blank idle
  | finished => exact blank idle

/-! ## What an episode shows -/

/-- A journal entry about an episode, without the capture's id and the verdict. -/
def Entry.unnamed : Entry V → Option (Entry V)
  | .opened _ snap recHz t0Ns => some (.opened "" snap recHz t0Ns)
  | .discarded _ => some (.discarded "")
  | .aborted _ reason => some (.aborted "" reason)
  | .submitted job => some (.submitted { job with captureId := "", verdict := none })
  | .finished _ _ => none
  | .collected _ _ => none

/-- How the episodes of a journal began and ended. -/
def chronicle (journal : List (Entry V)) : List (Entry V) := journal.filterMap Entry.unnamed

/-- What the gate says of each frame of the queue that reaches it. -/
def decisions (cfg : Config P V) : List (Sample P) → Recorder P V → List (Bool × Int)
  | [], _ => []
  | f :: rest, r =>
      let next := frame cfg f r
      (if answered cfg r.cap f.frameId ∧ r.cap.t0Ns ≤ f.stamp ∧ r.cap.lastTs ≤ f.stamp then
        [gate f.stamp r.cap.nextDue r.cap.periodNs] else []) ++
      if next.1 ∧ next.2.state = .recording then decisions cfg rest (pop next.2) else []

/-- The decimation decisions of the pass an action runs. -/
def passDecisions (cfg : Config P V) (a : Action P) (r : Recorder P V) : List (Bool × Int) :=
  if a.isPass r then
    let r := arrive cfg a.passMono (a.passStart r)
    decisions cfg r.cap.deferred r
  else []

/-- What one action shows: the state and the capture after it (rows, deferred
frames, cursors and all), the decimation decisions on the way, and whether an
episode began or ended. -/
structure Shown (P V : Type) where
  state : State
  capture : Capture P V
  decided : List (Bool × Int)
  ended : List (Entry V)

def Shown.of (cfg : Config P V) (a : Action P) (r r' : Recorder P V) : Shown P V where
  state := r'.state
  capture := { r'.cap with captureId := "" }
  decided := passDecisions cfg a r
  ended := (chronicle r'.journal).drop (chronicle r.journal).length

/-- Is this an action of a judge or of the worker? -/
def Action.aside : Action P → Bool
  | .submit _ _ => true
  | .finish _ => true
  | _ => false

/-- What the deliveries, ticks and events of a run show, up to a handler that raises. -/
def shown (libs : Libs V) (cfg : Config P V) : World P V → List (Action P) → List (Except Exn (Shown P V))
  | _, [] => []
  | w, a :: rest =>
      match w.step libs cfg a with
      | .error e => [.error e]
      | .ok w' =>
          (if a.aside then [] else [.ok (Shown.of cfg a w.recorder w'.recorder)]) ++ shown libs cfg w' rest

/-- The same delivery, tick or event; `uuid4` is free to differ. -/
inductive SameAction : Action P → Action P → Prop where
  | deliver (topic : String) (sample : Sample P) :
      SameAction (.deliver topic sample) (.deliver topic sample)
  | tick (env : TickReadings) : SameAction (.tick env) (.tick env)
  | event (channel : String) (eventId : Nat) (env : Readings) (captureId : Uuid) :
      SameAction (.event channel eventId env)
        (.event channel eventId { env with captureId := captureId })

/-- The same deliveries, ticks and events in the same order, whatever judges and the
worker do in between. -/
inductive SameInputs : List (Action P) → List (Action P) → Prop where
  | nil : SameInputs [] []
  | both {a a' : Action P} {rest rest' : List (Action P)} (same : SameAction a a')
      (later : SameInputs rest rest') : SameInputs (a :: rest) (a' :: rest')
  | left {a : Action P} {rest rest' : List (Action P)} (aside : a.aside = true)
      (later : SameInputs rest rest') : SameInputs (a :: rest) rest'
  | right {a : Action P} {rest rest' : List (Action P)} (aside : a.aside = true)
      (later : SameInputs rest rest') : SameInputs rest (a :: rest')

/-! ## Two recorders with the same episode -/

@[simp] theorem chronicle_append (journal more : List (Entry V)) :
    chronicle (journal ++ more) = chronicle journal ++ chronicle more := List.filterMap_append

/-- A recorder under another capture id, with another past: another inbox, other
jobs, other things published, rung and noted. -/
def elsewhere (id : String) (pending : List (Future V)) (verdicts : Inbox) (telemetry : TelemetryPort)
    (episode : List Nat) (journal : List (Entry V)) (r : Recorder P V) : Recorder P V :=
  { r with
    cap := { r.cap with captureId := id }
    pending := pending
    verdicts := verdicts
    telemetry := telemetry
    episode := episode
    journal := journal }

/-- Two recorders in the same episode, `was` and `was'` being how the episodes before
it began and ended. -/
structure SameEpisode (was was' : List (Entry V)) (r r' : Recorder P V) : Prop where
  other : ∃ id pending verdicts telemetry episode journal,
    r' = elsewhere id pending verdicts telemetry episode journal r
  ended : ∃ new, chronicle r.journal = was ++ new ∧ chronicle r'.journal = was' ++ new

namespace SameEpisode

variable {was was' : List (Entry V)} {r r' : Recorder P V}

theorem state (same : SameEpisode was was' r r') : r'.state = r.state := by
  obtain ⟨⟨_, _, _, _, _, _, rfl⟩, -⟩ := same
  rfl

/-- An entry noted in both journals. -/
theorem noted (same : SameEpisode was was' r r') (more more' : List (Entry V))
    (alike : chronicle more' = chronicle more) : ∃ new,
      chronicle (r.journal ++ more) = was ++ new ∧ chronicle (r'.journal ++ more') = was' ++ new := by
  obtain ⟨new, first, second⟩ := same.ended
  exact ⟨new ++ chronicle more, by simp [first], by simp [second, alike]⟩

theorem published (same : SameEpisode was was' r r') :
    SameEpisode was was' (publish r) (publish r') := by
  obtain ⟨⟨_, _, _, _, _, _, rfl⟩, ended⟩ := same
  exact ⟨⟨_, _, _, _, _, _, rfl⟩, ended⟩

theorem aborted (same : SameEpisode was was' r r') (reason : AbortReason) :
    SameEpisode was was' (abort reason r) (abort reason r') := by
  refine ⟨?_, same.noted [.aborted r.cap.captureId reason] [.aborted r'.cap.captureId reason] rfl⟩
  obtain ⟨⟨_, _, _, _, _, _, rfl⟩, -⟩ := same
  exact ⟨"", _, _, _, _, _, rfl⟩

theorem discarded (same : SameEpisode was was' r r') :
    SameEpisode was was' (discard r) (discard r') := by
  refine ⟨?_, same.noted [.discarded r.cap.captureId] [.discarded r'.cap.captureId] rfl⟩
  obtain ⟨⟨_, _, _, _, _, _, rfl⟩, -⟩ := same
  exact ⟨"", _, _, _, _, _, rfl⟩

theorem submitted (same : SameEpisode was was' r r') :
    SameEpisode was was' (submitFinalize r) (submitFinalize r') := by
  refine ⟨?_, same.noted [.submitted (jobOf r)] [.submitted (jobOf r')] ?_⟩
  all_goals obtain ⟨⟨_, _, _, _, _, _, rfl⟩, -⟩ := same
  · exact ⟨"", _, _, _, _, _, rfl⟩
  · rfl

theorem collected (same : SameEpisode was was' r r') :
    SameEpisode was was' (collect r) (collect r') := by
  have quiet : ∀ done : List (Job V × Except Exn Outcome),
      chronicle (done.map fun d => Entry.collected d.1 d.2) = [] := by
    intro done
    simp [chronicle, Entry.unnamed]
  rw [collect_eq, collect_eq]
  refine ⟨?_, same.noted _ _ (by rw [quiet, quiet])⟩
  obtain ⟨⟨_, _, _, _, _, _, rfl⟩, -⟩ := same
  exact ⟨_, _, _, _, _, _, rfl⟩

theorem opened (same : SameEpisode was was' r r') (env : Readings) (captureId : Uuid)
    (snap : RecordingContext) (recHz : Double) (period : Int) :
    SameEpisode was was' (opened env snap recHz period r)
      (DataRecorder.opened { env with captureId := captureId } snap recHz period r') := by
  refine ⟨?_, same.noted [.opened env.captureId.hex snap recHz env.timeNs]
    [.opened captureId.hex snap recHz env.timeNs] rfl⟩
  obtain ⟨⟨_, _, _, _, _, _, rfl⟩, -⟩ := same
  exact ⟨captureId.hex, _, _, _, _, _, rfl⟩

theorem delivered (same : SameEpisode was was' r r') (topic : String) (sample : Sample P) :
    SameEpisode was was' (deliver topic sample r) (deliver topic sample r') := by
  obtain ⟨⟨_, _, _, _, _, _, rfl⟩, ended⟩ := same
  rw [deliver_eq, deliver_eq]
  exact ⟨⟨_, _, _, _, _, _, rfl⟩, ended⟩

/-! ## A capture pass -/

theorem drained (same : SameEpisode was was' r r') (topic : String) :
    (drainTopic topic r').1 = (drainTopic topic r).1 ∧
      SameEpisode was was' (drainTopic topic r).2 (drainTopic topic r').2 := by
  obtain ⟨⟨_, _, _, _, _, _, rfl⟩, ended⟩ := same
  cases port : r.subs.get? topic with
  | none =>
      simp only [drainTopic, elsewhere, port]
      exact ⟨trivial, ⟨_, _, _, _, _, _, rfl⟩, ended⟩
  | some sub =>
      simp only [drainTopic, elsewhere, port]
      exact ⟨trivial, ⟨_, _, _, _, _, _, rfl⟩, ended⟩

theorem refreshedSource (same : SameEpisode was was' r r') (s : Source P V) :
    SameEpisode was was' (refreshSource r s) (refreshSource r' s) := by
  obtain ⟨⟨_, _, _, _, _, _, rfl⟩, ended⟩ := same
  cases paired : s.paired <;> cases port : r.subs.get? s.topic with
  | none =>
      simp only [refreshSource, drainTopic, latestTopic, elsewhere, paired, port, if_true,
        Bool.false_eq_true, if_false]
      exact ⟨⟨_, _, _, _, _, _, rfl⟩, ended⟩
  | some sub =>
      cases newest : sub.latest.1 <;>
        simp only [refreshSource, drainTopic, latestTopic, elsewhere, paired, port, newest, if_true,
          Bool.false_eq_true, if_false] <;>
        exact ⟨⟨_, _, _, _, _, _, rfl⟩, ended⟩

theorem refreshed (same : SameEpisode was was' r r') (cfg : Config P V) :
    SameEpisode was was' (refresh cfg r) (refresh cfg r') := by
  unfold refresh
  induction cfg.others generalizing r r' with
  | nil => exact same
  | cons s rest ih => exact ih (same.refreshedSource s)

theorem arrived (same : SameEpisode was was' r r') (cfg : Config P V) (mono : ℚ) :
    SameEpisode was was' (arrive cfg mono r) (arrive cfg mono r') := by
  obtain ⟨frames, after⟩ := (same.refreshed cfg).drained cfg.clock.topic
  unfold arrive clockDrain
  simp only [frames]
  obtain ⟨⟨_, _, _, _, _, _, later⟩, ended⟩ := after
  rw [later] at ended ⊢
  split
  · exact ⟨⟨_, _, _, _, _, _, rfl⟩, ended⟩
  · exact ⟨⟨_, _, _, _, _, _, rfl⟩, ended⟩

/-- **One frame** is treated alike: its tests read nothing that differs. -/
theorem framed (same : SameEpisode was was' r r') (cfg : Config P V) (f : Sample P) :
    (frame cfg f r').1 = (frame cfg f r).1 ∧
      SameEpisode was was' (frame cfg f r).2 (frame cfg f r').2 := by
  have step := frame_step cfg f r
  generalize frame cfg f r = out at step ⊢
  suffices alike : ∃ out', FrameStep cfg f r' out' ∧ out'.1 = out.1 ∧ SameEpisode was was' out.2 out'.2 by
    obtain ⟨out', step', consumed, after⟩ := alike
    rw [step'.eq]
    exact ⟨consumed, after⟩
  have touched : SameEpisode was was' (touch f r) (touch f r') := by
    obtain ⟨⟨_, _, _, _, _, _, rfl⟩, ended⟩ := same
    exact ⟨⟨_, _, _, _, _, _, rfl⟩, ended⟩
  have landed : SameEpisode was was' (land cfg f r) (land cfg f r') := by
    obtain ⟨⟨_, _, _, _, _, _, rfl⟩, ended⟩ := same
    exact ⟨⟨_, _, _, _, _, _, rfl⟩, ended⟩
  have apart := same
  obtain ⟨⟨_, _, _, _, _, _, rfl⟩, -⟩ := apart
  cases step with
  | wait unanswered => exact ⟨_, .wait unanswered, rfl, same⟩
  | fenced held early => exact ⟨_, .fenced held early, rfl, same⟩
  | backwards held fence back => exact ⟨_, .backwards held fence back, rfl, same.aborted _⟩
  | gated held order drop => exact ⟨_, .gated held order drop, rfl, touched⟩
  | drifted held order keep s found rows =>
      refine ⟨(true, _), .drifted ?_ ?_ ?_ s ?_ ?_, rfl, touched.aborted _⟩
      · exact held
      · exact order
      · exact keep
      · exact found
      · exact rows
  | leading held order keep s found rows =>
      exact ⟨_, .leading held order keep s found rows, rfl, touched⟩
  | landed held order keep windows => exact ⟨_, .landed held order keep windows, rfl, landed⟩

theorem popped (same : SameEpisode was was' r r') : SameEpisode was was' (pop r) (pop r') := by
  obtain ⟨⟨_, _, _, _, _, _, rfl⟩, ended⟩ := same
  exact ⟨⟨_, _, _, _, _, _, rfl⟩, ended⟩

/-- The queue's loop takes the same decisions. -/
theorem consumed (same : SameEpisode was was' r r') (cfg : Config P V) (q : List (Sample P)) :
    decisions cfg q r' = decisions cfg q r ∧
      SameEpisode was was' (consume cfg q r) (consume cfg q r') := by
  induction q generalizing r r' with
  | nil => exact ⟨rfl, same⟩
  | cons f rest ih =>
      obtain ⟨waits, after⟩ := same.framed cfg f
      obtain ⟨decided, later⟩ := ih after.popped
      have dropped : SameEpisode was was' (abort (.neverMatched f.frameId) (frame cfg f r).2)
          (abort (.neverMatched f.frameId) (frame cfg f r').2) := after.aborted _
      have queue : (frame cfg f r').2.cap.deferred = (frame cfg f r).2.cap.deferred := by
        obtain ⟨⟨_, _, _, _, _, _, shape⟩, -⟩ := after
        rw [shape]
        rfl
      constructor
      · unfold decisions
        simp only [waits, after.state, decided]
        obtain ⟨⟨_, _, _, _, _, _, rfl⟩, -⟩ := same
        rfl
      · unfold consume
        simp only [same.state, after.state, waits, queue]
        split
        · exact same
        · split
          · exact after
          · split
            · exact later
            · split
              · exact dropped
              · exact after

/-- A capture pass. -/
theorem captured (same : SameEpisode was was' r r') (cfg : Config P V) (mono : ℚ) :
    SameEpisode was was' (capture cfg mono r) (capture cfg mono r') := by
  have start := same.arrived cfg mono
  have queue : (arrive cfg mono r').cap.deferred = (arrive cfg mono r).cap.deferred := by
    obtain ⟨⟨_, _, _, _, _, _, shape⟩, -⟩ := start
    rw [shape]
    rfl
  show SameEpisode was was' (consume cfg (arrive cfg mono r).cap.deferred (arrive cfg mono r))
    (consume cfg (arrive cfg mono r').cap.deferred (arrive cfg mono r'))
  rw [queue]
  exact (start.consumed cfg _).2

/-! ## Actions -/

theorem stopped (same : SameEpisode was was' r r') (cfg : Config P V) (mono : ℚ) :
    SameEpisode was was' (stop cfg mono r) (stop cfg mono r') := by
  have pass := same.captured cfg mono
  unfold stop
  simp only [pass.state]
  split
  · exact pass.submitted
  · exact pass

theorem ticked (same : SameEpisode was was' r r') (cfg : Config P V) (env : TickReadings) :
    SameEpisode was was' (onTick cfg env r) (onTick cfg env r') := by
  have found := same.collected
  have pass := found.captured cfg env.mono
  have told := pass.published
  have rest : SameEpisode was was' (afterPass cfg env.monoAfter (capture cfg env.mono (collect r)))
      (afterPass cfg env.monoAfter (capture cfg env.mono (collect r'))) := by
    have tests : clockSilent env.monoAfter (publish (capture cfg env.mono (collect r'))) =
          clockSilent env.monoAfter (publish (capture cfg env.mono (collect r))) ∧
        (publish (capture cfg env.mono (collect r'))).cap.rows.length =
          (publish (capture cfg env.mono (collect r))).cap.rows.length := by
      obtain ⟨⟨_, _, _, _, _, _, shape⟩, -⟩ := told
      rw [shape]
      exact ⟨rfl, rfl⟩
    unfold afterPass
    simp only [tests.1, tests.2]
    split
    · exact told.aborted _
    · split
      · exact told.submitted
      · exact told
  unfold onTick
  simp only [found.state, pass.state]
  split
  · exact found
  · split
    · exact pass
    · exact rest

/-- A control event is refused alike or handled alike. -/
theorem handled (same : SameEpisode was was' r r') (cfg : Config P V) (channel : String)
    (eventId : Nat) (env : Readings) (captureId : Uuid) :
    match onEvent cfg channel eventId env r,
      onEvent cfg channel eventId { env with captureId := captureId } r' with
    | .ok out, .ok out' => SameEpisode was was' out out'
    | .error e, .error e' => e = e'
    | _, _ => False := by
  unfold onEvent
  simp only [same.state]
  by_cases control : channel = "recorder/control"
  swap
  · simpa only [ne_eq, control, not_false_eq_true, if_true] using same
  simp only [control, ne_eq, not_true_eq_false, if_false]
  by_cases isStart : eventId = ctlStart
  · simp only [isStart, if_true]
    by_cases idle : r.state = .idle
    swap
    · simpa only [idle, not_false_eq_true, if_true] using same
    simp only [idle, not_true_eq_false, if_false, start]
    cases periodOf (readRecordHz cfg env.config) with
    | error e => rfl
    | ok period => exact same.opened env captureId _ _ period
  simp only [isStart, if_false]
  by_cases isDiscard : eventId = ctlDiscard ∧ r.state = .recording
  · simp only [isDiscard, and_self, if_true]
    exact same.discarded
  simp only [isDiscard, if_false]
  by_cases isStop : eventId = ctlStop ∧ r.state = .recording
  · simp only [isStop, and_self, if_true]
    exact same.stopped cfg env.mono
  · simp only [isStop, if_false]
    exact same

end SameEpisode

section World

variable {libs : Libs V} {cfg : Config P V} {was was' : List (Entry V)} {w w' : World P V}
  {a a' : Action P}

variable (libs cfg) in
/-- **The two-run step**: the same action is refused in both episodes or keeps them
the same. -/
theorem sameEpisode_step (same : SameEpisode was was' w.recorder w'.recorder)
    (alike : SameAction a a') :
    match w.step libs cfg a, w'.step libs cfg a' with
    | .ok out, .ok out' => SameEpisode was was' out.recorder out'.recorder
    | .error e, .error e' => e = e'
    | _, _ => False := by
  cases alike with
  | deliver topic sample => exact same.delivered topic sample
  | tick env => exact same.ticked cfg env
  | event channel eventId env captureId =>
      have out := same.handled cfg channel eventId env captureId
      simp only [World.step]
      cases first : onEvent cfg channel eventId env w.recorder <;>
        cases second : onEvent cfg channel eventId { env with captureId := captureId } w'.recorder <;>
        rw [first, second] at out <;> exact out

variable (libs cfg w) in
/-- Judges and the worker leave the episode alone. -/
theorem step_aside (aside : a.aside = true) : ∃ out, w.step libs cfg a = .ok out ∧
    ∃ pending verdicts more, out.recorder =
        { w.recorder with
          pending := pending, verdicts := verdicts, journal := w.recorder.journal ++ more } ∧
      chronicle more = [] := by
  cases a with
  | submit stem content =>
      refine ⟨_, rfl, w.recorder.pending, w.recorder.verdicts.submit stem content, [], ?_, rfl⟩
      rw [List.append_nil]
  | finish call =>
      refine ⟨_, rfl, ?_⟩
      unfold finishNext
      split
      · exact ⟨w.recorder.pending, w.recorder.verdicts, [], by simp, rfl⟩
      · exact ⟨_, _, _, rfl, rfl⟩
  | deliver topic sample => cases aside
  | event channel eventId env => cases aside
  | tick env => cases aside

variable (cfg) in
/-- A pass decides the same in both episodes. -/
theorem sameEpisode_decides (same : SameEpisode was was' w.recorder w'.recorder)
    (alike : SameAction a a') :
    passDecisions cfg a' w'.recorder = passDecisions cfg a w.recorder := by
  have pass : a'.isPass w'.recorder = a.isPass w.recorder := by
    cases alike <;> simp only [Action.isPass, same.state]
  have mono : a'.passMono = a.passMono := by cases alike <;> rfl
  have start : SameEpisode was was' (a.passStart w.recorder) (a'.passStart w'.recorder) := by
    cases alike with
    | deliver => exact same
    | tick => exact same.collected
    | event => exact same
  have arrived := start.arrived cfg a.passMono
  have queue : (arrive cfg a.passMono (a'.passStart w'.recorder)).cap.deferred =
      (arrive cfg a.passMono (a.passStart w.recorder)).cap.deferred := by
    obtain ⟨⟨_, _, _, _, _, _, shape⟩, -⟩ := arrived
    rw [shape]
    rfl
  simp only [passDecisions, pass, mono, queue, (arrived.consumed cfg _).1]

/-- What is noted from here on. -/
theorem SameEpisode.fromHere {r r' : Recorder P V} (same : SameEpisode was was' r r') :
    SameEpisode (chronicle r.journal) (chronicle r'.journal) r r' :=
  ⟨same.other, [], by simp, by simp⟩

variable (cfg) in
/-- **One action shows the same**: the capture it leaves, what it decided and what it
noted, and nothing of what was before. -/
theorem shown_same {out out' : Recorder P V}
    (after : SameEpisode (chronicle w.recorder.journal) (chronicle w'.recorder.journal) out out')
    (decided : passDecisions cfg a' w'.recorder = passDecisions cfg a w.recorder) :
    Shown.of cfg a' w'.recorder out' = Shown.of cfg a w.recorder out := by
  obtain ⟨more, grown, grown'⟩ := after.ended
  have ended : (chronicle out'.journal).drop (chronicle w'.recorder.journal).length =
      (chronicle out.journal).drop (chronicle w.recorder.journal).length := by
    rw [grown, grown', List.drop_left, List.drop_left]
  have capture : ({ out'.cap with captureId := "" } : Capture P V) = { out.cap with captureId := "" } := by
    obtain ⟨⟨_, _, _, _, _, _, rfl⟩, -⟩ := after
    rfl
  simp only [Shown.of, after.state, capture, decided, ended]

theorem aside_of_sameAction (alike : SameAction a a') : a.aside = false ∧ a'.aside = false := by
  cases alike <;> exact ⟨rfl, rfl⟩

variable (libs cfg w) in
/-- An action of a judge or of the worker shows nothing. -/
theorem shown_aside {rest : List (Action P)} (aside : a.aside = true) : ∃ out,
    shown libs cfg w (a :: rest) = shown libs cfg out rest ∧
      ∀ r' : Recorder P V, (SameEpisode was was' w.recorder r' → SameEpisode was was' out.recorder r') ∧
        (SameEpisode was was' r' w.recorder → SameEpisode was was' r' out.recorder) := by
  obtain ⟨out, stepped, pending, verdicts, more, shape, quiet⟩ := step_aside libs cfg w aside
  refine ⟨out, by simp [shown, stepped, aside], ?_⟩
  intro r'
  rw [shape]
  constructor
  · rintro ⟨⟨id, pending', verdicts', telemetry, episode, journal, rfl⟩, new, first, second⟩
    exact ⟨⟨id, pending', verdicts', telemetry, episode, journal, rfl⟩, new, by simp [first, quiet], second⟩
  · rintro ⟨⟨id, pending', verdicts', telemetry, episode, journal, other⟩, new, first, second⟩
    rw [other] at second ⊢
    exact ⟨⟨id, pending, verdicts, telemetry, episode, _, rfl⟩, new, first, by simp [second, quiet]⟩

/-- **The two-run lemma**: the same inputs show the same episodes. -/
theorem sameEpisode_shown {inputs inputs' : List (Action P)} (alike : SameInputs inputs inputs')
    (same : SameEpisode was was' w.recorder w'.recorder) :
    shown libs cfg w inputs = shown libs cfg w' inputs' := by
  induction alike generalizing w w' was was' with
  | nil => rfl
  | @both a a' rest rest' one later ih =>
      have here := same.fromHere
      have step := sameEpisode_step libs cfg here one
      have decided := sameEpisode_decides cfg same one
      obtain ⟨aside, aside'⟩ := aside_of_sameAction one
      cases first : w.step libs cfg a <;> cases second : w'.step libs cfg a' <;>
        rw [first, second] at step
      · simp only [shown, first, second, step]
      · cases step
      · cases step
      · rename_i out out'
        have now := shown_same cfg step decided
        have rest := ih step
        simp only [shown, first, second, aside, aside', Bool.false_eq_true, if_false, now, rest]
  | left aside later ih =>
      obtain ⟨out, skips, keeps⟩ := shown_aside libs cfg w aside
      rw [skips]
      exact ih ((keeps w'.recorder).1 same)
  | right aside later ih =>
      obtain ⟨out, skips, keeps⟩ := shown_aside libs cfg w' aside
      rw [skips]
      exact ih ((keeps w.recorder).2 same)

end World

/-! ## Every pair of histories -/

/-- **Episode isolation**: two idle recorders, whatever their histories, hold a reset
capture each, and if their subscriptions hold the same samples, the same inputs (a
`START` and what follows it) show the same rows, deferred frames, decisions and ends. -/
theorem episode_isolation {libs : Libs V} {cfg : Config P V} {t t' : Traced P V}
    (reach : Traced.Reach libs cfg t) (reach' : Traced.Reach libs cfg t')
    (idle : t.world.recorder.state = .idle) (idle' : t'.world.recorder.state = .idle)
    (ports : t'.world.recorder.subs = t.world.recorder.subs) {inputs inputs' : List (Action P)}
    (alike : SameInputs inputs inputs') :
    t.world.recorder.cap = {} ∧ t'.world.recorder.cap = {} ∧
      shown libs cfg t.world inputs = shown libs cfg t'.world inputs' := by
  have blank := idle_blank reach idle
  have blank' := idle_blank reach' idle'
  have same : SameEpisode (chronicle t.world.recorder.journal) (chronicle t'.world.recorder.journal)
      t.world.recorder t'.world.recorder := by
    refine ⟨⟨"", t'.world.recorder.pending, t'.world.recorder.verdicts, t'.world.recorder.telemetry,
      t'.world.recorder.episode, t'.world.recorder.journal, ?_⟩, [], by simp, by simp⟩
    rw [elsewhere, blank, idle, ← ports, ← blank', ← idle']
  exact ⟨blank, blank', sameEpisode_shown alike same⟩

/-- One row, then a frame that steps back: the recording is aborted. -/
def Demo.aborted : List (Action Nat) :=
  [Demo.startAt 1000, .deliver "cam/front" ⟨2000, 5, 50⟩, .deliver "joint/state" ⟨1500, 1, 7⟩,
    .deliver "act/cmd" ⟨2100, 5, 55⟩, Demo.tickNow, .deliver "cam/front" ⟨1500, 6, 60⟩,
    .deliver "act/cmd" ⟨2200, 6, 65⟩, Demo.tickNow]

/-- An episode of one row, under a given capture id. -/
def Demo.episode (captureId : Uuid) : List (Action Nat) :=
  [.event "recorder/control" ctlStart ⟨.missing, none, 1000, 0, captureId⟩,
    .deliver "cam/front" ⟨2000, 5, 50⟩, .deliver "joint/state" ⟨1500, 1, 7⟩, Demo.tickNow,
    .deliver "act/cmd" ⟨2100, 5, 55⟩, Demo.stopNow]

/-- A recorder that has aborted an episode shows what one fresh from `setup` shows. -/
theorem episode_isolation_afterAbort :
    (Demo.after Demo.aborted).world.recorder.episode = [epFailed] ∧
      shown Demo.libs Demo.rig Demo.boot.world (Demo.episode Demo.firstId) =
        shown Demo.libs Demo.rig (Demo.after Demo.aborted).world (Demo.episode Demo.secondId) := by
  have alike : SameInputs (Demo.episode Demo.firstId) (Demo.episode Demo.secondId) :=
    .both (.event _ _ _ _) (.both (.deliver _ _) (.both (.deliver _ _) (.both (.tick _)
      (.both (.deliver _ _) (.both (.event _ _ _ _) .nil)))))
  have reached : Traced.Reach Demo.libs Demo.rig (Demo.after Demo.aborted) :=
    Demo.reach_after (by decide +kernel)
  have ports : (Demo.after Demo.aborted).world.recorder.subs = Demo.boot.world.recorder.subs := by
    decide +kernel
  have isolated := episode_isolation (Reachable.start Demo.boot_init) reached rfl
    (by decide +kernel) ports alike
  exact ⟨by decide +kernel, isolated.2.2⟩

end KoyuRuntime.Services.DataRecorder
