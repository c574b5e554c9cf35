/-
# Services.DataRecorder.Lockstep — lockstep pairing does not depend on the schedule

With paired sources only, a row is a clock frame and, for each source, its answer to
that frame's id.  Which tick drains which sample decides when a frame leaves the
deferred queue and never what its row holds: at the end of a recording that has
consumed every frame, the rows are those an offline pass over the whole clock
sequence keeps, each looked up in the whole answer sequences (`lockstep_rows`).  Two
schedules of the same sequences therefore record the same rows
(`schedule_independent`).
-/
import KoyuRuntime.Services.DataRecorder.Tracking

namespace KoyuRuntime.Services.DataRecorder

open Host Theory Ipc

set_option autoImplicit false

variable {P V : Type}

/-! ## Schedules -/

/-- An action of a schedule: a delivery, a tick, or something that does not concern
the control channel. -/
def Action.scheduled : Action P → Bool
  | .event _ _ _ => false
  | _ => true

/-- What the passes of a run read, put together in order. -/
def gathered {α : Type} (libs : Libs V) (cfg : Config P V) (read : Recorder P V → List α) :
    World P V → List (Action P) → List α
  | _, [] => []
  | w, a :: rest =>
      (if a.isPass w.recorder then read w.recorder else []) ++
        match w.step libs cfg a with
        | .ok w' => gathered libs cfg read w' rest
        | .error _ => []

/-- The clock sequence a run splits over its ticks. -/
def clockSequence (libs : Libs V) (cfg : Config P V) : World P V → List (Action P) → List (Sample P) :=
  gathered libs cfg (clockDrain cfg)

/-- The answer sequence of one topic a run splits over its ticks. -/
def answerSequence (libs : Libs V) (cfg : Config P V) (topic : String) :
    World P V → List (Action P) → List (Sample P) :=
  gathered libs cfg fun r => (drainTopic topic r).1

/-! ## The rows of whole sequences -/

/-- The row of a frame, its answers looked up in whole sequences. -/
def lockstepRow (cfg : Config P V) (answers : String → List (Sample P)) (f : Sample P) : Row V :=
  (f.stamp, (OrderedDict.ofList [(cfg.clock.feature, cfg.clock.extract f)]).setAll
    (cfg.others.filterMap fun s =>
      ((answers s.topic).find? fun x => decide (x.frameId = f.frameId)).map fun x =>
        (s.feature, s.extract x)))

/-- The rows a recording at this rate has of a clock sequence. -/
def lockstepRows (cfg : Config P V) (answers : String → List (Sample P)) (period : Int)
    (frames : List (Sample P)) : List (Row V) :=
  (sift (gateKeep period) 0 frames).1.map (lockstepRow cfg answers)

/-! ## Held answers -/

/-- Every held answer is one of these, under its own frame id. -/
def Held (cfg : Config P V) (answers : String → List (Sample P)) (c : Capture P V) : Prop :=
  ∀ s ∈ cfg.others, ∀ id x, answer c s id = some x → x ∈ answers s.topic ∧ x.frameId = id

section Refresh

variable {cfg : Config P V} {answers : String → List (Sample P)} {r : Recorder P V}

/-- The samples a port holds. -/
def queued (topic : String) (subs : OrderedDict String (Subscriber P)) : List (Sample P) :=
  match subs.get? topic with
  | none => []
  | some sub => sub.items

theorem drainTopic_eq_queued (topic : String) (r : Recorder P V) :
    (drainTopic topic r).1 = queued topic r.subs := by
  unfold drainTopic queued
  cases r.subs.get? topic <;> rfl

/-- A drained port is empty, and every other port holds what it held. -/
theorem queued_drained (topic q : String) (r : Recorder P V) :
    queued q (drainTopic topic r).2.subs = if topic = q then [] else queued q r.subs := by
  cases port : r.subs.get? topic with
  | none =>
      simp only [drainTopic, port]
      by_cases same : topic = q
      · rw [if_pos same, ← same, queued, port]
      · rw [if_neg same]
  | some sub =>
      simp only [drainTopic, port, queued, OrderedDict.get?_set]
      by_cases same : topic = q
      · rw [if_pos same, if_pos same]
        rfl
      · rw [if_neg same, if_neg same]

/-- Either read of a source empties the port of its own topic alone. -/
theorem queued_refreshSource (s : Source P V) (q : String) (r : Recorder P V) :
    queued q (refreshSource r s).subs = if s.topic = q then [] else queued q r.subs := by
  have read : (refreshSource r s).subs = (drainTopic s.topic r).2.subs := by
    cases port : r.subs.get? s.topic with
    | none => cases paired : s.paired <;> simp [refreshSource, drainTopic, latestTopic, paired, port]
    | some sub =>
        cases paired : s.paired <;> cases newest : sub.items.getLast? <;>
          simp [refreshSource, drainTopic, latestTopic, Subscriber.drain, Subscriber.latest, paired, port,
            newest]
  rw [read, queued_drained]

/-- An answer held once a paired source has been read was held before or has just
been drained. -/
theorem answer_refreshSource {s s' : Source P V} {id : Nat} {x : Sample P}
    (paired : s.paired = true) (held : answer (refreshSource r s).cap s' id = some x) :
    answer r.cap s' id = some x ∨
      (s'.topic = s.topic ∧ x ∈ queued s.topic r.subs ∧ x.frameId = id) := by
  rw [← drainTopic_eq_queued]
  obtain ⟨subs, shape⟩ := drainTopic_shape s.topic r
  simp only [refreshSource, paired, if_true, answer, shape, OrderedDict.get?_set] at held
  by_cases same : s.topic = s'.topic
  swap
  · rw [if_neg same] at held
    exact .inl held
  rw [if_pos same, Option.bind_some] at held
  rcases OrderedDict.get?_setAll_cases _ _ (get?_evict held) with new | old
  · obtain ⟨y, mem, eq⟩ := List.mem_map.mp new
    cases eq
    exact .inr ⟨same.symm, mem, rfl⟩
  · refine .inl ?_
    rw [answer, ← same]
    cases before : r.cap.pairCache.get? s.topic with
    | none => simp [before] at old
    | some prior => simpa [before] using old

/-- A refresh holds what was held and what it drains. -/
theorem Held.refreshed (paired : ∀ s ∈ cfg.others, s.paired = true) (held : Held cfg answers r.cap)
    (drains : ∀ s ∈ cfg.others, queued s.topic r.subs ⊆ answers s.topic) :
    Held cfg answers (refresh cfg r).cap := by
  have among : ∀ (some_ : List (Source P V)) (r : Recorder P V), some_ ⊆ cfg.others →
      Held cfg answers r.cap → (∀ s ∈ cfg.others, queued s.topic r.subs ⊆ answers s.topic) →
      Held cfg answers (some_.foldl refreshSource r).cap := by
    intro some_
    induction some_ with
    | nil => exact fun r _ held _ => held
    | cons s rest ih =>
        intro r sub held drains
        have mem : s ∈ cfg.others := sub List.mem_cons_self
        refine ih (refreshSource r s) (fun s' mem' => sub (List.mem_cons_of_mem s mem')) ?_ ?_
        · intro s' mem' id x found
          rcases answer_refreshSource (paired s mem) found with old | ⟨same, new, byId⟩
          · exact held s' mem' id x old
          · exact ⟨drains s' mem' (same ▸ new), byId⟩
        · intro s' mem'
          rw [queued_refreshSource]
          split
          · exact List.nil_subset _
          · exact drains s' mem'
  exact among cfg.others r (List.Subset.refl _) held drains

end Refresh

/-! ## One capture against whole sequences -/

/-- A capture that has drained `frames`: the consumed ones have given it the rows of
an offline pass over them. -/
def Locked (cfg : Config P V) (answers : String → List (Sample P)) (frames : List (Sample P))
    (c : Capture P V) : Prop :=
  ∃ consumed, frames = consumed ++ c.deferred ∧
    (sift (gateKeep c.periodNs) 0 consumed).2 = c.nextDue ∧
    c.rows = lockstepRows cfg answers c.periodNs consumed

section Frame

variable {cfg : Config P V} {answers : String → List (Sample P)} {frames rest : List (Sample P)}
  {f : Sample P} {r : Recorder P V}

/-- An answered frame's row is the one the whole sequences give it. -/
theorem rowValues_locked (paired : ∀ s ∈ cfg.others, s.paired = true)
    (once : ∀ s ∈ cfg.others, ((answers s.topic).map Sample.frameId).Nodup)
    (held : Held cfg answers r.cap) (answered_ : answered cfg r.cap f.frameId = true) :
    (f.stamp, rowValues cfg r.cap f) = lockstepRow cfg answers f := by
  have each : ∀ s ∈ cfg.others, sampleFor r.cap f.frameId s =
      (answers s.topic).find? fun x => decide (x.frameId = f.frameId) := by
    intro s mem
    have some_ := List.all_eq_true.mp answered_ s mem
    simp only [paired s mem, Bool.not_true, Bool.false_or] at some_
    obtain ⟨x, found⟩ := Option.isSome_iff_exists.mp some_
    obtain ⟨inAnswers, byId⟩ := held s mem _ _ found
    simp only [sampleFor, paired s mem, if_true, found]
    -- no other answer of the topic bears this id
    cases look : (answers s.topic).find? fun x => decide (x.frameId = f.frameId) with
    | none =>
        have other := List.find?_eq_none.mp look x inAnswers
        simp [byId] at other
    | some y =>
        have sameId : y.frameId = f.frameId := by simpa using List.find?_some look
        rw [List.inj_on_of_nodup_map (once s mem) inAnswers (List.mem_of_find?_eq_some look)
          (byId.trans sameId.symm)]
  have values : cfg.others.filterMap (fun s =>
        (sampleFor r.cap f.frameId s).map fun x => (s.feature, s.extract x)) =
      cfg.others.filterMap fun s =>
        ((answers s.topic).find? fun x => decide (x.frameId = f.frameId)).map fun x =>
          (s.feature, s.extract x) := by
    refine List.filterMap_congr ?_
    intro s mem
    rw [each s mem]
  rw [lockstepRow, rowValues, values]

/-- A paired source is never stale. -/
theorem find?_staleAt (paired : ∀ s ∈ cfg.others, s.paired = true) (c : Capture P V) (ts : Int) :
    cfg.others.find? (staleAt c ts) = none := by
  rw [List.find?_eq_none]
  intro s mem
  simp [staleAt, paired s mem]

/-- **One consumed frame** past the fence: the offline pass takes the same step. -/
theorem locked_frame (paired : ∀ s ∈ cfg.others, s.paired = true)
    (once : ∀ s ∈ cfg.others, ((answers s.topic).map Sample.frameId).Nodup)
    (held : Held cfg answers r.cap) (locked : Locked cfg answers frames r.cap)
    (queue : r.cap.deferred = f :: rest) (fence : r.cap.t0Ns ≤ f.stamp)
    (taken : (frame cfg f r).1 = true) (alive : (frame cfg f r).2.state = .recording) :
    Locked cfg answers frames (pop (frame cfg f r).2).cap := by
  obtain ⟨consumed, split, due, rows⟩ := locked
  have moved : frames = (consumed ++ [f]) ++ rest := by
    rw [split, queue, List.append_assoc]
    rfl
  have sifted := sift_snoc (gateKeep r.cap.periodNs) 0 consumed f
  rw [due] at sifted
  have step := frame_step cfg f r
  generalize frame cfg f r = out at step taken alive
  cases step with
  | wait => cases taken
  | fenced _ early => exact absurd early (not_lt.mpr fence)
  | backwards => cases alive
  | gated _ order drop =>
      refine ⟨consumed ++ [f], by simpa [pop, touch, queue] using moved, ?_, ?_⟩
      · show (sift (gateKeep r.cap.periodNs) 0 (consumed ++ [f])).2 = _
        rw [sifted]
        rfl
      · show r.cap.rows = lockstepRows cfg answers r.cap.periodNs (consumed ++ [f])
        simp [lockstepRows, sifted, gateKeep, drop, rows]
  | drifted _ _ _ s found => simp [find?_staleAt paired] at found
  | leading _ _ _ s found => simp [find?_staleAt paired] at found
  | landed answered_ order keep windows =>
      refine ⟨consumed ++ [f], by simpa [pop, land, touch, queue] using moved, ?_, ?_⟩
      · show (sift (gateKeep r.cap.periodNs) 0 (consumed ++ [f])).2 = _
        rw [sifted]
        rfl
      · show r.cap.rows ++ [(f.stamp, rowValues cfg r.cap f)] =
          lockstepRows cfg answers r.cap.periodNs (consumed ++ [f])
        rw [rowValues_locked paired once held answered_]
        simp [lockstepRows, sifted, gateKeep, keep, rows]

end Frame

/-! ## One pass -/

section Pass

variable {cfg : Config P V} {answers : String → List (Sample P)} {frames : List (Sample P)}
  {r : Recorder P V}

/-- The loop changes no held answer, and neither the fence nor the rate. -/
theorem AtFrame.lockstep_same {r₀ : Recorder P V} {done q : List (Sample P)}
    (head : AtFrame cfg r₀ done q r) :
    r.cap.pairCache = r₀.cap.pairCache ∧ r.cap.t0Ns = r₀.cap.t0Ns ∧
      r.cap.periodNs = r₀.cap.periodNs := by
  induction head with
  | start => exact ⟨rfl, rfl, rfl⟩
  | @next done rest f r _ _ alive ih =>
      rw [← ih.1, ← ih.2.1, ← ih.2.2]
      have step := frame_step cfg f r
      generalize frame cfg f r = out at step alive
      cases step with
      | backwards => cases alive
      | drifted => cases alive
      | _ => exact ⟨rfl, rfl, rfl⟩

theorem Held.congr {c c' : Capture P V} (held : Held cfg answers c)
    (same : c'.pairCache = c.pairCache) : Held cfg answers c' := by
  intro s mem id x found
  rw [answer, same] at found
  exact held s mem id x found

/-- Every head of a loop that starts locked is locked. -/
theorem AtFrame.locked {r₀ : Recorder P V} (paired : ∀ s ∈ cfg.others, s.paired = true)
    (once : ∀ s ∈ cfg.others, ((answers s.topic).map Sample.frameId).Nodup)
    (held : Held cfg answers r₀.cap) (locked : Locked cfg answers frames r₀.cap)
    (fence : ∀ f ∈ frames, r₀.cap.t0Ns ≤ f.stamp) {done q : List (Sample P)}
    (head : AtFrame cfg r₀ done q r) : Locked cfg answers frames r.cap := by
  induction head with
  | start => exact locked
  | @next done rest f r head taken alive ih =>
      obtain ⟨pairs, t0, -⟩ := head.lockstep_same
      have inFrames : f ∈ frames := by
        obtain ⟨consumed, split, -⟩ := ih
        rw [split, head.queue]
        simp
      exact locked_frame paired once (held.congr pairs) ih head.queue (by rw [t0]; exact fence f inFrames)
        taken alive

/-- **One pass** of a recording that lives on. -/
theorem capture_locked (mono : ℚ) (recording : r.state = .recording)
    (paired : ∀ s ∈ cfg.others, s.paired = true)
    (once : ∀ s ∈ cfg.others, ((answers s.topic).map Sample.frameId).Nodup)
    (held : Held cfg answers r.cap) (locked : Locked cfg answers frames r.cap)
    (drains : ∀ s ∈ cfg.others, queued s.topic r.subs ⊆ answers s.topic)
    (fence : ∀ f ∈ frames ++ clockDrain cfg r, r.cap.t0Ns ≤ f.stamp)
    (alive : (capture cfg mono r).state = .recording) :
    Held cfg answers (capture cfg mono r).cap ∧
      Locked cfg answers (frames ++ clockDrain cfg r) (capture cfg mono r).cap := by
  have refreshed := held.refreshed paired drains
  obtain ⟨subs, cache, pairs, shape⟩ := refresh_shape cfg r
  obtain ⟨subs', clockSeen, shape'⟩ := arrive_shape cfg mono r
  have heldHere : Held cfg answers (arrive cfg mono r).cap := refreshed.congr (by rw [shape'])
  have lockedHere : Locked cfg answers (frames ++ clockDrain cfg r) (arrive cfg mono r).cap := by
    obtain ⟨consumed, split, due, rows⟩ := locked
    rw [shape', shape]
    exact ⟨consumed, by simp [split], due, rows⟩
  have fence' : ∀ f ∈ frames ++ clockDrain cfg r, (arrive cfg mono r).cap.t0Ns ≤ f.stamp := by
    rw [shape', shape]
    exact fence
  have begun : (arrive cfg mono r).state = .recording :=
    (sameShell_arrive cfg mono r).state.trans recording
  obtain ⟨done, q, r', head, ending⟩ := consume_ends cfg begun
  have here : Held cfg answers r'.cap ∧ Locked cfg answers (frames ++ clockDrain cfg r) r'.cap :=
    ⟨heldHere.congr head.lockstep_same.1, head.locked paired once heldHere lockedHere fence'⟩
  unfold capture at alive ⊢
  generalize consume cfg (arrive cfg mono r).cap.deferred (arrive cfg mono r) = out at ending alive
  cases ending with
  | emptied => exact here
  | aborted dead => rw [dead] at alive; cases alive
  | waits => exact here
  | overflowed => cases alive

end Pass

/-! ## A whole schedule -/

section Run

variable {libs : Libs V} {cfg : Config P V} {answers : String → List (Sample P)}

/-- A schedule has no `START`: an idle recorder stays idle. -/
theorem scheduled_idle {w w' : World P V} {a : Action P} (scheduled : a.scheduled = true)
    (step : w.step libs cfg a = .ok w') (idle : w.recorder.state = .idle) : w'.recorder.state = .idle := by
  have notPass : a.isPass w.recorder ≠ true := by
    intro pass
    rw [isPass_recording pass] at idle
    cases idle
  cases step_cases step with
  | delivered topic sample =>
      rw [deliver_eq]
      exact idle
  | filed => exact idle
  | ignored => cases scheduled
  | opened => cases scheduled
  | discarded => cases scheduled
  | collected => exact (collect_state _).trans idle
  | aborted _ pass => exact absurd pass notPass
  | continued env recording => exact absurd (isPass_tick env recording) notPass
  | silent env recording => exact absurd (isPass_tick env recording) notPass
  | submitted _ pass => exact absurd pass notPass
  | waited => exact idle
  | finished => exact idle

theorem scheduled_idle_run {w w' : World P V} {actions : List (Action P)}
    (scheduled : ∀ a ∈ actions, a.scheduled = true)
    (run : runs (World.step libs cfg) w actions = .ok w') (idle : w.recorder.state = .idle) :
    w'.recorder.state = .idle := by
  induction actions generalizing w with
  | nil =>
      cases run
      exact idle
  | cons a rest ih =>
      obtain ⟨mid, first, later⟩ := runs_cons_ok.mp run
      exact ih (fun b mem => scheduled b (List.mem_cons_of_mem a mem)) later
        (scheduled_idle (scheduled a List.mem_cons_self) first idle)

/-- A recording locked to the frames it has drained, at a fence and a rate. -/
structure Paced (cfg : Config P V) (answers : String → List (Sample P)) (t0 period : Int)
    (frames : List (Sample P)) (c : Capture P V) : Prop where
  held : Held cfg answers c
  locked : Locked cfg answers frames c
  fence : c.t0Ns = t0
  rate : c.periodNs = period

/-- **One action** of a schedule that lives on. -/
theorem paced_step (paired : ∀ s ∈ cfg.others, s.paired = true)
    (once : ∀ s ∈ cfg.others, ((answers s.topic).map Sample.frameId).Nodup) {w w' : World P V}
    {a : Action P} {t0 period : Int} {frames : List (Sample P)} (scheduled : a.scheduled = true)
    (step : w.step libs cfg a = .ok w') (recording : w.recorder.state = .recording)
    (alive : w'.recorder.state = .recording) (paced : Paced cfg answers t0 period frames w.recorder.cap)
    (drains : a.isPass w.recorder = true → ∀ s ∈ cfg.others, queued s.topic w.recorder.subs ⊆ answers s.topic)
    (fence : ∀ f ∈ frames ++ (if a.isPass w.recorder then clockDrain cfg w.recorder else []), t0 ≤ f.stamp) :
    Paced cfg answers t0 period
      (frames ++ if a.isPass w.recorder then clockDrain cfg w.recorder else []) w'.recorder.cap := by
  cases step_cases step with
  | delivered topic sample =>
      rw [deliver_eq]
      simpa [Action.isPass] using paced
  | filed => simpa [Action.isPass] using paced
  | ignored => cases scheduled
  | opened => cases scheduled
  | discarded => cases scheduled
  | collected env idle => rw [idle] at recording; cases recording
  | aborted _ pass dead =>
      rw [dead] at alive
      cases alive
  | continued env recording going =>
      have pass := isPass_tick (P := P) env recording
      rw [if_pos pass] at fence ⊢
      have same := passed_same pass going
      have found : (collect w.recorder).cap = w.recorder.cap := collect_cap _
      have drained : clockDrain cfg (collect w.recorder) = clockDrain cfg w.recorder :=
        clockDrain_collect cfg w.recorder
      obtain ⟨held, locked⟩ := capture_locked (r := collect w.recorder) env.mono
        ((collect_state _).trans recording) paired once (found ▸ paced.held) (found ▸ paced.locked)
        (by rw [collect_subs]; exact drains pass)
        (by rw [drained, found, paced.fence]; exact fence) going
      rw [drained] at locked
      exact ⟨held, locked, same.t0Ns.trans (by rw [passStart_cap, paced.fence]),
        same.periodNs.trans (by rw [passStart_cap, paced.rate])⟩
  | silent => cases alive
  | submitted => cases alive
  | waited => simpa [Action.isPass] using paced
  | finished => simpa [Action.isPass, note] using paced

/-- **The run lemma**: a schedule that lives on is locked to all it has drained. -/
theorem paced_run (paired : ∀ s ∈ cfg.others, s.paired = true)
    (once : ∀ s ∈ cfg.others, ((answers s.topic).map Sample.frameId).Nodup) {w w' : World P V}
    {actions : List (Action P)} {t0 period : Int} {frames : List (Sample P)}
    (scheduled : ∀ a ∈ actions, a.scheduled = true)
    (run : runs (World.step libs cfg) w actions = .ok w') (recording : w.recorder.state = .recording)
    (alive : w'.recorder.state = .recording) (paced : Paced cfg answers t0 period frames w.recorder.cap)
    (drains : ∀ s ∈ cfg.others, answerSequence libs cfg s.topic w actions ⊆ answers s.topic)
    (fence : ∀ f ∈ frames ++ clockSequence libs cfg w actions, t0 ≤ f.stamp) :
    Paced cfg answers t0 period (frames ++ clockSequence libs cfg w actions) w'.recorder.cap := by
  induction actions generalizing w frames with
  | nil =>
      cases run
      simpa [clockSequence, gathered] using paced
  | cons a rest ih =>
      obtain ⟨mid, first, later⟩ := runs_cons_ok.mp run
      have going : mid.recorder.state = .recording := by
        by_contra dead
        have end_ := scheduled_idle_run (fun b mem => scheduled b (List.mem_cons_of_mem a mem)) later
          (state_idle_of_ne dead)
        rw [end_] at alive
        cases alive
      simp only [clockSequence, answerSequence, gathered, first] at drains fence ⊢
      rw [← List.append_assoc] at fence ⊢
      have now := paced_step paired once (scheduled a List.mem_cons_self) first recording going paced
        (fun pass s mem => by
          have all := drains s mem
          rw [if_pos pass, drainTopic_eq_queued] at all
          exact List.Subset.trans (List.subset_append_left _ _) all)
        (fun f mem => fence f (List.mem_append_left _ mem))
      exact ih (fun b mem => scheduled b (List.mem_cons_of_mem a mem)) later going now
        (fun s mem => List.Subset.trans (List.subset_append_right _ _) (drains s mem)) fence

/-- The `START` of a recording. -/
def startWith (env : Readings) : Action P := .event "recorder/control" ctlStart env

variable (answers) in
/-- An accepted `START` of an idle recorder begins a fresh capture. -/
theorem paced_opened {w w' : World P V} {env : Readings} (idle : w.recorder.state = .idle)
    (step : w.step libs cfg (startWith env) = .ok w') :
    w'.recorder.state = .recording ∧ ∃ period, periodOf (readRecordHz cfg env.config) = .ok period ∧
      Paced cfg answers env.timeNs period [] w'.recorder.cap := by
  unfold startWith at step
  cases step_cases step with
  | ignored _ _ _ _ noStart => exact absurd idle (noStart rfl rfl)
  | opened env period _ rate =>
      refine ⟨rfl, period, rate, ?_, ⟨[], rfl, rfl, rfl⟩, rfl, rfl⟩
      intro s _ id x found
      simp [answer] at found
  | aborted _ pass => rw [isPass_recording pass] at idle; cases idle
  | submitted _ pass => rw [isPass_recording pass] at idle; cases idle

/-- A `START` of an idle recorder and a schedule that lives on until every frame has
been consumed. -/
structure Completed (libs : Libs V) (cfg : Config P V) (env : Readings) (w w₁ : World P V)
    (actions : List (Action P)) (w₂ : World P V) : Prop where
  idle : w.recorder.state = .idle
  opens : w.step libs cfg (startWith env) = .ok w₁
  scheduled : ∀ a ∈ actions, a.scheduled = true
  run : runs (World.step libs cfg) w₁ actions = .ok w₂
  alive : w₂.recorder.state = .recording
  emptied : w₂.recorder.cap.deferred = []

section Completed

variable {env : Readings} {w w₁ w₂ v v₁ v₂ : World P V} {actions actions' : List (Action P)}

/-- **The rows of a completed schedule** are those of the whole sequences. -/
theorem lockstep_rows (answers : String → List (Sample P)) (paired : ∀ s ∈ cfg.others, s.paired = true)
    (once : ∀ s ∈ cfg.others, ((answers s.topic).map Sample.frameId).Nodup)
    (completed : Completed libs cfg env w w₁ actions w₂)
    (drains : ∀ s ∈ cfg.others, answerSequence libs cfg s.topic w₁ actions = answers s.topic)
    (fence : ∀ f ∈ clockSequence libs cfg w₁ actions, env.timeNs ≤ f.stamp) :
    ∃ period, periodOf (readRecordHz cfg env.config) = .ok period ∧
      w₂.recorder.cap.rows =
        lockstepRows cfg answers period (clockSequence libs cfg w₁ actions) := by
  obtain ⟨recording, period, rate, paced⟩ :=
    paced_opened answers completed.idle completed.opens
  refine ⟨period, rate, ?_⟩
  have end_ := paced_run paired once completed.scheduled completed.run recording completed.alive paced
    (fun s mem x inside => drains s mem ▸ inside) fence
  obtain ⟨consumed, split, -, rows⟩ := end_.locked
  rw [completed.emptied, List.append_nil, List.nil_append] at split
  rw [rows, end_.rate, split]

/-- **Schedule independence**: two schedules that split the same clock sequence, past
the fence, and the same answer sequences over their ticks, and that both live on and
have consumed every frame, have recorded the same rows.  Topics need not be distinct,
and neither the order of the stamps nor the number of rows enters beyond the
recordings being alive. -/
theorem schedule_independent (paired : ∀ s ∈ cfg.others, s.paired = true)
    (first : Completed libs cfg env w w₁ actions w₂) (second : Completed libs cfg env v v₁ actions' v₂)
    {frames : List (Sample P)} (clock : clockSequence libs cfg w₁ actions = frames)
    (clock' : clockSequence libs cfg v₁ actions' = frames)
    (drains : ∀ s ∈ cfg.others, answerSequence libs cfg s.topic w₁ actions = answers s.topic)
    (drains' : ∀ s ∈ cfg.others, answerSequence libs cfg s.topic v₁ actions' = answers s.topic)
    (fence : ∀ f ∈ frames, env.timeNs ≤ f.stamp)
    (once : ∀ s ∈ cfg.others, ((answers s.topic).map Sample.frameId).Nodup) :
    w₂.recorder.cap.rows = v₂.recorder.cap.rows := by
  obtain ⟨period, rate, rows⟩ := lockstep_rows answers paired once first drains (clock ▸ fence)
  obtain ⟨period', rate', rows'⟩ := lockstep_rows answers paired once second drains' (clock' ▸ fence)
  rw [rate] at rate'
  cases rate'
  rw [rows, rows', clock, clock']

end Completed

end Run

namespace Demo

/-- The camera and its lockstep answer. -/
def pair : Config Nat Nat := ⟨["run"], [cam, act], [], cam, [act], rfl⟩

/-- The pair's recorder just after `setup`. -/
def pairBoot : World Nat Nat where
  recorder :=
    { state := .idle, cap := {}, subs := subscribe pair, pending := [], verdicts := ⟨[], []⟩,
      telemetry := ⟨0, none, ⟨⟨0, 0, 0, ""⟩, []⟩⟩, episode := [], journal := [] }
  disk := ⟨[(["run"], .dir), (["run", "data-recordings"], .dir)]⟩

/-- The readings at which the recording starts. -/
def pairNow : Readings := ⟨.missing, none, 1000, 0, firstId⟩

def pairOpened : World Nat Nat := endState (World.step libs pair) pairBoot [startWith pairNow]

/-- Two frames and their answers in one tick. -/
def batched : List (Action Nat) :=
  [.deliver "act/cmd" ⟨2100, 5, 55⟩, .deliver "act/cmd" ⟨3100, 6, 66⟩, .deliver "cam/front" ⟨2000, 5, 50⟩,
    .deliver "cam/front" ⟨3000, 6, 60⟩, tickNow]

/-- The answers to them, whatever the topic. -/
def answers (_ : String) : List (Sample Nat) := [⟨2100, 5, 55⟩, ⟨3100, 6, 66⟩]

/-- The same frames, each answered two ticks late. -/
def late : List (Action Nat) :=
  [.deliver "cam/front" ⟨2000, 5, 50⟩, tickNow, .deliver "cam/front" ⟨3000, 6, 60⟩, tickNow,
    .deliver "act/cmd" ⟨2100, 5, 55⟩, tickNow, .deliver "act/cmd" ⟨3100, 6, 66⟩, tickNow]

theorem pair_completed (actions : List (Action Nat)) (scheduled : actions.all Action.scheduled = true)
    (accepted : accepts (World.step libs pair) pairOpened actions = true)
    (alive : (endState (World.step libs pair) pairOpened actions).recorder.state = .recording)
    (emptied : (endState (World.step libs pair) pairOpened actions).recorder.cap.deferred = []) :
    Completed libs pair pairNow pairBoot pairOpened actions
      (endState (World.step libs pair) pairOpened actions) where
  idle := rfl
  opens := by
    have first : runs (World.step libs pair) pairBoot [startWith pairNow] = .ok pairOpened :=
      runs_of_accepts (by decide +kernel)
    obtain ⟨mid, step, rest⟩ := runs_cons_ok.mp first
    cases rest
    exact step
  scheduled := List.all_eq_true.mp scheduled
  run := runs_of_accepts accepted
  alive := alive
  emptied := emptied

end Demo

theorem schedule_independent_twoFrames :
    (endState (World.step Demo.libs Demo.pair) Demo.pairOpened Demo.batched).recorder.cap.rows =
        (endState (World.step Demo.libs Demo.pair) Demo.pairOpened Demo.late).recorder.cap.rows ∧
      (endState (World.step Demo.libs Demo.pair) Demo.pairOpened Demo.late).recorder.cap.rows.length = 2 := by
  refine ⟨?_, by decide +kernel⟩
  have clock : clockSequence Demo.libs Demo.pair Demo.pairOpened Demo.batched =
      [⟨2000, 5, 50⟩, ⟨3000, 6, 60⟩] := by decide +kernel
  have drains : ∀ s ∈ Demo.pair.others,
      answerSequence Demo.libs Demo.pair s.topic Demo.pairOpened Demo.batched = Demo.answers s.topic := by
    intro s mem
    cases List.mem_singleton.mp mem
    decide +kernel
  refine schedule_independent (by decide +kernel)
    (Demo.pair_completed Demo.batched (by decide) (by decide +kernel) (by decide +kernel)
      (by decide +kernel))
    (Demo.pair_completed Demo.late (by decide) (by decide +kernel) (by decide +kernel)
      (by decide +kernel))
    clock (by decide +kernel) drains ?_ (by decide +kernel) ?_
  · intro s mem
    cases List.mem_singleton.mp mem
    decide +kernel
  · intro s mem
    show (List.map Sample.frameId [⟨2100, 5, 55⟩, (⟨3100, 6, 66⟩ : Sample Nat)]).Nodup
    decide

/-! ## Schedules of deliveries

A port that never overflows hands out exactly what was delivered to it, so the
sequences of a run are those its publishers sent. -/

/-- What these actions deliver to a topic. -/
def sent (topic : String) (actions : List (Action P)) : List (Sample P) :=
  actions.flatMap fun
    | .deliver q x => if q = topic then [x] else []
    | _ => []

/-- No delivery of the run overflows the topic's port. -/
def Roomy (libs : Libs V) (cfg : Config P V) (topic : String) : World P V → List (Action P) → Prop :=
  Along (World.step libs cfg) fun w a => ∀ x, a = .deliver topic x →
    ∃ sub, w.recorder.subs.get? topic = some sub ∧ sub.items.length < sub.depth

section Delivered

variable {libs : Libs V} {cfg : Config P V} {topic : String}

theorem queued_pushed {q : String} (x : Sample P) (subs : OrderedDict String (Subscriber P))
    (room : q = topic → ∃ sub, subs.get? topic = some sub ∧ sub.items.length < sub.depth) :
    queued topic (pushed q x subs) = queued topic subs ++ if q = topic then [x] else [] := by
  by_cases same : q = topic
  · obtain ⟨sub, port, fits⟩ := room same
    have kept : (sub.push x).items = sub.items ++ [x] := by
      have short : (sub.items ++ [x]).length - sub.depth = 0 := by
        simp
        omega
      simp only [BoundedQueue.push, keepLast, short, List.drop_zero]
    simp [queued, get?_pushed, same, port, kept]
  · simp [queued, get?_pushed, same]

theorem queued_reads (some_ : List (Source P V)) (r : Recorder P V) :
    queued topic (some_.foldl refreshSource r).subs =
      if topic ∈ some_.map Source.topic then [] else queued topic r.subs := by
  induction some_ generalizing r with
  | nil => rfl
  | cons s rest ih =>
      rw [List.foldl_cons, ih, queued_refreshSource, List.map_cons]
      by_cases here : s.topic = topic
      · simp [here]
      · simp [here, Ne.symm here]

theorem queued_refresh (r : Recorder P V) :
    queued topic (refresh cfg r).subs =
      if topic ∈ cfg.others.map Source.topic then [] else queued topic r.subs :=
  queued_reads cfg.others r

/-- A pass leaves nothing at the ports of its sources. -/
theorem queued_capture (source : topic ∈ cfg.clock.topic :: cfg.others.map Source.topic) (mono : ℚ)
    {r : Recorder P V} (recording : r.state = .recording) : queued topic (capture cfg mono r).subs = [] := by
  have ports : (capture cfg mono r).subs = (drainTopic cfg.clock.topic (refresh cfg r)).2.subs := by
    rw [capture_subs mono recording]
    simp only [arrive]
    split <;> rfl
  rw [ports, queued_drained, queued_refresh]
  rcases List.mem_cons.mp source with rfl | other
  · simp
  · simp [other]

/-- **One action** of a schedule: a port's samples are handed out by a pass and come
from deliveries. -/
theorem carried_step (source : topic ∈ cfg.clock.topic :: cfg.others.map Source.topic)
    {w w' : World P V} {a : Action P}
    (scheduled : a.scheduled = true) (step : w.step libs cfg a = .ok w')
    (room : ∀ x, a = .deliver topic x →
      ∃ sub, w.recorder.subs.get? topic = some sub ∧ sub.items.length < sub.depth) :
    queued topic w.recorder.subs ++ sent topic [a] =
      (if a.isPass w.recorder then queued topic w.recorder.subs else []) ++
        queued topic w'.recorder.subs := by
  have emptied : a.isPass w.recorder = true → queued topic (passed cfg a w.recorder).subs = [] := by
    intro pass
    exact queued_capture source a.passMono (by simpa using isPass_recording pass)
  have silent : a.isPass w.recorder = true → sent topic [a] = [] := by
    intro pass
    cases a with
    | deliver => cases pass
    | event => cases scheduled
    | _ => rfl
  cases step_cases step with
  | delivered q x =>
      have port := queued_pushed x w.recorder.subs fun same => room x (same ▸ rfl)
      simpa [sent, Action.isPass, deliver_eq] using port.symm
  | filed => simp [sent, Action.isPass]
  | ignored => cases scheduled
  | opened => cases scheduled
  | discarded => cases scheduled
  | collected env idle => simp [sent, Action.isPass, idle, collect_subs]
  | aborted _ pass => rw [if_pos pass, silent pass, emptied pass]
  | continued env recording =>
      have pass := isPass_tick (P := P) env recording
      rw [if_pos pass, silent pass, publish_subs, emptied pass]
  | silent env recording =>
      have pass := isPass_tick (P := P) env recording
      rw [if_pos pass, silent pass, abort_subs, publish_subs, emptied pass]
  | submitted _ pass => rw [if_pos pass, silent pass, submitFinalize_subs, settle_subs, emptied pass]
  | waited => simp [sent, Action.isPass]
  | finished => simp [sent, Action.isPass, note]

/-- **A port that never overflows loses nothing**: what it held and what was delivered
is what the passes read and what it still holds. -/
theorem carried_run (source : topic ∈ cfg.clock.topic :: cfg.others.map Source.topic)
    {w w' : World P V} {actions : List (Action P)} (scheduled : ∀ a ∈ actions, a.scheduled = true)
    (run : runs (World.step libs cfg) w actions = .ok w') (roomy : Roomy libs cfg topic w actions) :
    queued topic w.recorder.subs ++ sent topic actions =
      gathered libs cfg (fun r => queued topic r.subs) w actions ++ queued topic w'.recorder.subs := by
  induction actions generalizing w with
  | nil =>
      cases run
      simp [sent, gathered]
  | cons a rest ih =>
      obtain ⟨mid, first, later⟩ := runs_cons_ok.mp run
      have one := carried_step source (scheduled a List.mem_cons_self) first roomy.1
      have more := ih (fun b mem => scheduled b (List.mem_cons_of_mem a mem)) later (roomy.2 mid first)
      have both : sent topic (a :: rest) = sent topic [a] ++ sent topic rest := by simp [sent]
      rw [both, ← List.append_assoc, one, List.append_assoc, more, ← List.append_assoc]
      simp only [gathered, first]

/-- **Schedules of deliveries**: with distinct topics and ports that never overflow and
hold nothing before and after, two schedules that deliver the same samples to every
source's topic record the same rows. -/
theorem deliveries_independent (paired : ∀ s ∈ cfg.others, s.paired = true)
    (distinct : cfg.clock.topic ∉ cfg.others.map Source.topic) {env : Readings}
    {w w₁ w₂ v v₁ v₂ : World P V} {actions actions' : List (Action P)}
    (first : Completed libs cfg env w w₁ actions w₂) (second : Completed libs cfg env v v₁ actions' v₂)
    (same : ∀ q ∈ cfg.clock.topic :: cfg.others.map Source.topic, sent q actions = sent q actions')
    (vacant : ∀ q ∈ cfg.clock.topic :: cfg.others.map Source.topic,
      queued q w₁.recorder.subs = [] ∧ queued q w₂.recorder.subs = [] ∧
        queued q v₁.recorder.subs = [] ∧ queued q v₂.recorder.subs = [])
    (roomy : ∀ q ∈ cfg.clock.topic :: cfg.others.map Source.topic,
      Roomy libs cfg q w₁ actions ∧ Roomy libs cfg q v₁ actions')
    (fence : ∀ f ∈ sent cfg.clock.topic actions, env.timeNs ≤ f.stamp)
    (once : ∀ s ∈ cfg.others, ((sent s.topic actions).map Sample.frameId).Nodup) :
    w₂.recorder.cap.rows = v₂.recorder.cap.rows := by
  have read : clockDrain cfg = fun r : Recorder P V => queued cfg.clock.topic r.subs := by
    funext r
    rw [clockDrain, drainTopic_eq_queued, queued_refresh, if_neg distinct]
  have reads : ∀ q, (fun r : Recorder P V => (drainTopic q r).1) = fun r => queued q r.subs :=
    fun q => funext fun r => drainTopic_eq_queued q r
  have all : ∀ q ∈ cfg.clock.topic :: cfg.others.map Source.topic,
      gathered libs cfg (fun r => queued q r.subs) w₁ actions = sent q actions ∧
        gathered libs cfg (fun r => queued q r.subs) v₁ actions' = sent q actions := by
    intro q mem
    obtain ⟨start, stop, start', stop'⟩ := vacant q mem
    have carried := carried_run mem first.scheduled first.run (roomy q mem).1
    have carried' := carried_run mem second.scheduled second.run (roomy q mem).2
    rw [start, stop, List.nil_append, List.append_nil] at carried
    rw [start', stop', List.nil_append, List.append_nil, ← same q mem] at carried'
    exact ⟨carried.symm, carried'.symm⟩
  have clockTopic : cfg.clock.topic ∈ cfg.clock.topic :: cfg.others.map Source.topic :=
    List.mem_cons_self
  have topics : ∀ s ∈ cfg.others, s.topic ∈ cfg.clock.topic :: cfg.others.map Source.topic :=
    fun s mem => List.mem_cons_of_mem _ (List.mem_map_of_mem mem)
  have clock : clockSequence libs cfg w₁ actions = sent cfg.clock.topic actions := by
    rw [clockSequence, read]
    exact (all _ clockTopic).1
  have clock' : clockSequence libs cfg v₁ actions' = sent cfg.clock.topic actions := by
    rw [clockSequence, read]
    exact (all _ clockTopic).2
  have drains : ∀ s ∈ cfg.others, answerSequence libs cfg s.topic w₁ actions = sent s.topic actions := by
    intro s mem
    rw [answerSequence, reads]
    exact (all _ (topics s mem)).1
  have drains' : ∀ s ∈ cfg.others, answerSequence libs cfg s.topic v₁ actions' = sent s.topic actions := by
    intro s mem
    rw [answerSequence, reads]
    exact (all _ (topics s mem)).2
  obtain ⟨period, rate, rows⟩ :=
    lockstep_rows (fun q => sent q actions) paired once first drains (clock ▸ fence)
  obtain ⟨period', rate', rows'⟩ :=
    lockstep_rows (fun q => sent q actions) paired once second drains' (clock' ▸ fence)
  rw [rate] at rate'
  cases rate'
  rw [rows, rows', clock, clock']

end Delivered

end KoyuRuntime.Services.DataRecorder
