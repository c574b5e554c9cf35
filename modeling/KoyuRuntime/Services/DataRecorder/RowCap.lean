/-
# Services.DataRecorder.RowCap — the whole-episode row cap

"Whole-episode row cap; auto-stop, never discard", says `MAX_FRAMES`.  The cap is
tested once, after a whole capture pass and after the test for a silent clock.  A
pass goes through every queued frame, so it can run past the cap, and a frame
behind the one that reached it can still abort the recording.

* `below_cap`: between actions a recording holds fewer rows than the cap.
* `RoomAtCap`: no frame that comes up at the cap lands or aborts, and the clock is
  heard then.
* `row_cap_iff`: along a run the cap is kept, and a full capture handed over with
  its rows, exactly when there is room at the cap at every step.
-/
import KoyuRuntime.Services.DataRecorder.Steps

namespace KoyuRuntime.Services.DataRecorder

open Host Theory Ipc

set_option autoImplicit false

variable {P V : Type}

/-! ## What is said of a pass -/

/-- A property of every loop head of the pass of one action. -/
def AtHeads (cfg : Config P V) (Q : List (Sample P) → Recorder P V → Prop) (t : Traced P V)
    (a : Action P) : Prop :=
  a.isPass t.world.recorder = true → ∀ done q r,
    AtFrame cfg (arrive cfg a.passMono (a.passStart t.world.recorder)) done q r → Q q r

/-- The action hands exactly these rows to one finalize job. -/
def HandsOver (libs : Libs V) (cfg : Config P V) (w : World P V) (a : Action P) (rows : List (Row V)) :
    Prop :=
  ∃ w' job, w.step libs cfg a = .ok w' ∧ job.rows = rows ∧
    submissions w'.recorder.journal = submissions w.recorder.journal ++ [job]

/-- The cap at one action: wherever its pass stands the rows fit, a capture that
holds `MAX_FRAMES` rows is handed over with them, and what the action leaves fits. -/
structure CapKept (libs : Libs V) (cfg : Config P V) (t : Traced P V) (a : Action P) : Prop where
  fits : AtHeads cfg (fun _ r => r.cap.rows.length ≤ maxFrames) t a
  submits : AtHeads cfg
    (fun _ r => r.cap.rows.length = maxFrames → HandsOver libs cfg t.world a r.cap.rows) t a
  state : ∀ w', t.world.step libs cfg a = .ok w' → w'.recorder.state = .recording →
    w'.recorder.cap.rows.length ≤ maxFrames
  jobs : ∀ w', t.world.step libs cfg a = .ok w' → ∀ job ∈ submissions w'.recorder.journal,
    job ∈ submissions t.world.recorder.journal ∨ job.rows.length ≤ maxFrames

/-- A frame that neither lands nor aborts: it waits with room in the queue, was
queued while idle, or is dropped by the gate. -/
def PassesBy (cfg : Config P V) (f : Sample P) (rest : List (Sample P)) (r : Recorder P V) : Prop :=
  (answered cfg r.cap f.frameId = false ∧ (f :: rest).length ≤ clockBuffer) ∨
    (answered cfg r.cap f.frameId = true ∧
      (f.stamp < r.cap.t0Ns ∨
        InOrder f r.cap ∧ (gate f.stamp r.cap.nextDue r.cap.periodNs).1 = false))

/-- At the cap every frame that comes up passes by, and a tick has heard the clock. -/
def RoomAtCap (cfg : Config P V) (t : Traced P V) (a : Action P) : Prop :=
  AtHeads cfg (fun q r => r.cap.rows.length = maxFrames →
    (∀ f rest, q = f :: rest → PassesBy cfg f rest r) ∧
      ∀ env, a = .tick env → clockSilent env.monoAfter r = false) t a

/-! ## How an action with a pass ends -/

/-- What a handler does with the recorder its pass leaves. -/
def Action.conclude (cfg : Config P V) (r : Recorder P V) : Action P → Recorder P V
  | .tick env => if r.state ≠ .recording then r else afterPass cfg env.monoAfter r
  | _ => if r.state = .recording then submitFinalize r else r

section Conclude

variable {libs : Libs V} {cfg : Config P V} {w : World P V} {a : Action P} {r : Recorder P V}

theorem pass_step (pass : a.isPass w.recorder = true) :
    w.step libs cfg a = .ok { w with recorder := a.conclude cfg (passed cfg a w.recorder) } := by
  have recording := isPass_recording pass
  cases a with
  | tick env =>
      have state : (collect w.recorder).state = .recording := by rw [collect_state, recording]
      simp only [World.step, onTick, state, ne_eq, not_true_eq_false, if_false]
      rfl
  | event channel eventId env =>
      simp only [Action.isPass, decide_eq_true_eq] at pass
      obtain ⟨rfl, rfl, -⟩ := pass
      simp only [World.step, onEvent, recording, ctlStop, ctlStart, ctlDiscard]
      rfl
  | deliver topic sample => cases pass
  | submit stem content => cases pass
  | finish call => cases pass

variable (cfg a) in
/-- A live capture is handed over by `STOP`, and by a tick that has heard the clock at
the cap. -/
theorem conclude_submits (alive : r.state = .recording) (full : maxFrames ≤ r.cap.rows.length)
    (heard : ∀ env, a = .tick env → clockSilent env.monoAfter r = false) :
    a.conclude cfg r = submitFinalize (a.settle r) := by
  cases a with
  | tick env =>
      have same : clockSilent env.monoAfter (publish r) = clockSilent env.monoAfter r := rfl
      simp [Action.conclude, alive, afterPass, same, heard env rfl, full, Action.settle]
  | _ => simp [Action.conclude, alive, Action.settle]

theorem conclude_idle (dead : r.state = .idle) : a.conclude cfg r = r := by
  cases a <;> simp [Action.conclude, dead]

theorem conclude_silent {env : TickReadings} (alive : r.state = .recording)
    (silent : clockSilent env.monoAfter r = true) :
    (Action.tick env).conclude cfg r = abort (.clockSilent cfg.clock.topic) (publish r) := by
  have same : clockSilent env.monoAfter (publish r) = clockSilent env.monoAfter r := rfl
  simp [Action.conclude, alive, afterPass, same, silent]

variable (cfg) in
/-- A tick goes on below the cap. -/
theorem conclude_goes (env : TickReadings) (alive : r.state = .recording)
    (heard : clockSilent env.monoAfter r = false) (room : r.cap.rows.length < maxFrames) :
    (Action.tick env).conclude cfg r = publish r := by
  have same : clockSilent env.monoAfter (publish r) = clockSilent env.monoAfter r := rfl
  simp [Action.conclude, alive, afterPass, same, heard, not_le.mpr room]

/-- A recording that goes on after a pass is below the cap. -/
theorem conclude_below (going : (a.conclude cfg r).state = .recording) :
    (a.conclude cfg r).cap.rows = r.cap.rows ∧ r.cap.rows.length < maxFrames := by
  by_cases alive : r.state = .recording
  swap
  · rw [conclude_idle (state_idle_of_ne alive)] at going
    exact absurd going alive
  by_cases heard : ∀ env, a = .tick env → clockSilent env.monoAfter r = false
  · by_cases full : maxFrames ≤ r.cap.rows.length
    · rw [conclude_submits cfg a alive full heard] at going
      cases going
    · refine ⟨?_, by omega⟩
      cases a with
      | tick env =>
          rw [conclude_goes cfg env alive (heard env rfl) (by omega)]
          rfl
      | _ =>
          simp only [Action.conclude, alive, if_true] at going
          cases going
  · push Not at heard
    obtain ⟨env, rfl, silent⟩ := heard
    rw [conclude_silent alive (by simpa using silent)] at going
    cases going

/-- Nothing is handed over without a live recording, heard if a tick asks. -/
theorem conclude_unsubmitted
    (lost : r.state = .idle ∨ ∃ env, a = .tick env ∧ clockSilent env.monoAfter r = true) :
    submissions (a.conclude cfg r).journal = submissions r.journal := by
  by_cases dead : r.state = .idle
  · rw [conclude_idle dead]
  · have alive : r.state = .recording := by
      cases state : r.state with
      | idle => exact absurd state dead
      | recording => rfl
    obtain ⟨env, rfl, silent⟩ := lost.resolve_left dead
    rw [conclude_silent alive silent]
    simp

end Conclude

/-! ## Between actions -/

theorem traced_step_world {libs : Libs V} {cfg : Config P V} {t t' : Traced P V} {a : Action P}
    (step : Traced.step libs cfg t a = .ok t') : t.world.step libs cfg a = .ok t'.world := by
  unfold Traced.step at step
  split at step
  · split at step
    · rename_i w stepped
      cases step
      exact stepped
    · cases step
  · cases step

theorem traced_step_of_world {libs : Libs V} {cfg : Config P V} {t : Traced P V} {a : Action P}
    {w : World P V} (isFresh : fresh cfg t.world a = true) (step : t.world.step libs cfg a = .ok w) :
    Traced.step libs cfg t a = .ok ⟨w, t.hist.next cfg t.world a w⟩ := by
  simp [Traced.step, isFresh, step]

/-- An action without a pass leaves the rows of a recording alone, and hands nothing over. -/
theorem stepped_quiet {libs : Libs V} {cfg : Config P V} {w w' : World P V} {a : Action P}
    (stepped : Stepped libs cfg w a w') (quiet : a.isPass w.recorder = false) :
    (w'.recorder.state = .recording → w'.recorder.cap.rows = [] ∨
      w.recorder.state = .recording ∧ w'.recorder.cap.rows = w.recorder.cap.rows) ∧
    submissions w'.recorder.journal = submissions w.recorder.journal := by
  cases stepped with
  | delivered topic sample =>
      rw [deliver_eq]
      exact ⟨fun going => .inr ⟨going, rfl⟩, rfl⟩
  | filed => exact ⟨fun going => .inr ⟨going, rfl⟩, rfl⟩
  | ignored => exact ⟨fun going => .inr ⟨going, rfl⟩, rfl⟩
  | opened => exact ⟨fun _ => .inl rfl, by simp⟩
  | discarded => exact ⟨fun going => (by cases going), by simp⟩
  | collected env idle =>
      refine ⟨fun going => ?_, submissions_collect _⟩
      rw [collect_state, idle] at going
      cases going
  | aborted _ pass => rw [pass] at quiet; cases quiet
  | continued env recording => rw [isPass_tick env recording] at quiet; cases quiet
  | silent env recording => rw [isPass_tick env recording] at quiet; cases quiet
  | submitted _ pass => rw [pass] at quiet; cases quiet
  | waited => exact ⟨fun going => .inr ⟨going, rfl⟩, rfl⟩
  | finished => exact ⟨fun going => .inr ⟨going, rfl⟩, by simp [note]⟩

/-- **A recording holds fewer rows than the cap** whenever no handler runs. -/
theorem below_cap {libs : Libs V} {cfg : Config P V} {t : Traced P V} (reach : Traced.Reach libs cfg t) :
    t.world.recorder.state = .recording → t.world.recorder.cap.rows.length < maxFrames := by
  have base : ∀ t : Traced P V, t.Init cfg → t.world.recorder.state = .recording →
      t.world.recorder.cap.rows.length < maxFrames := by
    intro t initial going
    rw [initial.1.state] at going
    cases going
  refine Reachable.invariant base ?_ reach
  intro t a t' below step going
  cases pass : a.isPass t.world.recorder with
  | true =>
      have out : t'.world = { t.world with recorder := a.conclude cfg (passed cfg a t.world.recorder) } :=
        Except.ok.inj ((traced_step_world step).symm.trans (pass_step pass))
      rw [out] at going ⊢
      obtain ⟨rows, room⟩ := conclude_below going
      rw [rows]
      exact room
  | false =>
      obtain ⟨-, stepped, -⟩ := traced_step_cases step
      rcases (stepped_quiet stepped pass).1 going with none | ⟨was, rows⟩
      · rw [none]
        exact Nat.zero_lt_of_ne_zero (by decide)
      · rw [rows]
        exact below was

/-! ## The heads of one pass -/

section Heads

variable {libs : Libs V} {cfg : Config P V} {r₀ r : Recorder P V} {done q : List (Sample P)}

/-- The loop never moves the clock's liveness timer. -/
theorem AtFrame.clockSeen (head : AtFrame cfg r₀ done q r) : r.cap.clockSeen = r₀.cap.clockSeen := by
  induction head with
  | start => rfl
  | @next done rest f r _ _ alive ih =>
      rw [← ih]
      obtain ⟨lastTs, nextDue, more, shape⟩ := frame_alive alive
      rw [shape]
      rfl

/-- A frame that passes by is consumed without a row, or the loop ends with it. -/
theorem PassesBy.cases {f : Sample P} {rest : List (Sample P)} (by_ : PassesBy cfg f rest r) :
    (answered cfg r.cap f.frameId = false ∧ (f :: rest).length ≤ clockBuffer) ∨
      ((frame cfg f r).1 = true ∧ (frame cfg f r).2.state = r.state ∧
        (frame cfg f r).2.cap.rows = r.cap.rows) := by
  rcases by_ with waits | ⟨held, early | ⟨order, drop⟩⟩
  · exact .inl waits
  · rw [(FrameStep.fenced held early).eq]
    exact .inr ⟨rfl, rfl, rfl⟩
  · rw [(FrameStep.gated held order drop).eq]
    exact .inr ⟨rfl, rfl, rfl⟩

/-- From a head at the cap at which all frames pass by, the loop ends alive with the
same rows. -/
theorem consume_full (recording : r₀.state = .recording)
    (passesBy : ∀ done q r, AtFrame cfg r₀ done q r → r.cap.rows.length = maxFrames →
      ∀ f rest, q = f :: rest → PassesBy cfg f rest r)
    (head : AtFrame cfg r₀ done q r) (full : r.cap.rows.length = maxFrames) :
    ∃ done' q', AtFrame cfg r₀ done' q' (consume cfg q r) ∧ (consume cfg q r).cap.rows = r.cap.rows := by
  induction q generalizing done r with
  | nil => exact ⟨done, [], head, rfl⟩
  | cons f rest ih =>
      have live := head.live recording
      rcases (passesBy _ _ _ head full f rest rfl).cases with ⟨waits, room⟩ | ⟨consumed, state, rows⟩
      · rw [consume_of_waits live waits, head.queue, if_neg (by omega)]
        exact ⟨done, f :: rest, head, rfl⟩
      · have alive : (frame cfg f r).2.state = .recording := state.trans live
        rw [consume_of_consumed live consumed alive]
        have popped : (pop (frame cfg f r).2).cap.rows = r.cap.rows := rows
        obtain ⟨done', q', later, same⟩ := ih (head.next consumed alive) (by rw [popped, full])
        exact ⟨done', q', later, same.trans popped⟩

/-- A live pass ends at one of its heads. -/
theorem consume_last (recording : r₀.state = .recording)
    (alive : (consume cfg r₀.cap.deferred r₀).state = .recording) :
    ∃ done q, AtFrame cfg r₀ done q (consume cfg r₀.cap.deferred r₀) := by
  obtain ⟨done, q, r, head, end_⟩ := consume_ends cfg recording
  generalize consume cfg r₀.cap.deferred r₀ = out at end_ alive ⊢
  cases end_ with
  | emptied => exact ⟨done, _, head⟩
  | aborted dead =>
      rw [dead] at alive
      cases alive
  | waits => exact ⟨done, _, head⟩
  | overflowed => cases alive

end Heads

theorem arrive_rows (cfg : Config P V) (mono : ℚ) (r : Recorder P V) :
    (arrive cfg mono r).cap.rows = r.cap.rows := by
  obtain ⟨_, _, _, refreshed⟩ := refresh_shape cfg r
  obtain ⟨_, _, shape⟩ := arrive_shape cfg mono r
  rw [shape, refreshed]

/-- One frame makes at most one row. -/
theorem frame_rows_le (cfg : Config P V) (f : Sample P) (r : Recorder P V) :
    (frame cfg f r).2.cap.rows.length ≤ r.cap.rows.length + 1 := by
  have step := frame_step cfg f r
  generalize frame cfg f r = out at step
  cases step <;> simp [touch, land]

/-! ## One action -/

section Action

variable {libs : Libs V} {cfg : Config P V} {t : Traced P V} {a : Action P}

variable (cfg) in
/-- Where a pass begins its loop. -/
theorem arrive_recording (pass : a.isPass t.world.recorder = true) :
    (arrive cfg a.passMono (a.passStart t.world.recorder)).state = .recording :=
  (sameShell_arrive cfg a.passMono (a.passStart t.world.recorder)).state.trans
    (by simpa using isPass_recording pass)

/-- With room at the cap the rows fit at every head. -/
theorem RoomAtCap.fits (room : RoomAtCap cfg t a) (reach : Traced.Reach libs cfg t) :
    AtHeads cfg (fun _ r => r.cap.rows.length ≤ maxFrames) t a := by
  intro pass done q r head
  induction head with
  | start =>
      rw [arrive_rows, passStart_cap]
      exact (below_cap reach (isPass_recording pass)).le
  | @next done rest f r head consumed alive ih =>
      show (frame cfg f r).2.cap.rows.length ≤ maxFrames
      by_cases full : r.cap.rows.length = maxFrames
      · obtain ⟨passesBy, -⟩ := room pass _ _ _ head full
        rcases (passesBy f rest rfl).cases with ⟨waits, -⟩ | ⟨-, -, rows⟩
        · rw [frame_waits_iff.mpr waits] at consumed
          cases consumed
        · rw [rows]
          exact ih
      · have one := frame_rows_le cfg f r
        omega

/-- A handler that hands its live capture over adds one job with its rows. -/
theorem handsOver_of_conclude (pass : a.isPass t.world.recorder = true)
    (alive : (passed cfg a t.world.recorder).state = .recording)
    (over_ : a.conclude cfg (passed cfg a t.world.recorder) =
      submitFinalize (a.settle (passed cfg a t.world.recorder))) :
    HandsOver libs cfg t.world a (passed cfg a t.world.recorder).cap.rows := by
  refine ⟨_, jobOf (a.settle (passed cfg a t.world.recorder)), pass_step pass, ?_, ?_⟩
  · simp [jobOf]
  · rw [over_]
    simp [submissions_passed_live pass alive]

/-- With room at the cap a full capture is handed over with its rows. -/
theorem RoomAtCap.submits (room : RoomAtCap cfg t a) :
    AtHeads cfg (fun _ r => r.cap.rows.length = maxFrames → HandsOver libs cfg t.world a r.cap.rows)
      t a := by
  intro pass done q r head full
  have recording := arrive_recording cfg pass
  obtain ⟨done', q', last, rows⟩ := consume_full recording
    (fun done q r head full => (room pass done q r head full).1) head full
  have ends : passed cfg a t.world.recorder = consume cfg q r := head.consume_eq recording
  rw [← ends] at last rows
  have stillFull : (passed cfg a t.world.recorder).cap.rows.length = maxFrames := by rw [rows, full]
  have alive := last.live recording
  rw [← rows]
  exact handsOver_of_conclude pass alive
    (conclude_submits cfg a alive stillFull.ge (room pass _ _ _ last stillFull).2)

/-- A property of rows that holds at the heads of a pass holds of what the action
leaves recording. -/
theorem state_of_heads (R : List (Row V) → Prop) (none : R [])
    (before : t.world.recorder.state = .recording → R t.world.recorder.cap.rows)
    (heads : AtHeads cfg (fun _ r => R r.cap.rows) t a) {w' : World P V}
    (step : t.world.step libs cfg a = .ok w') (going : w'.recorder.state = .recording) :
    R w'.recorder.cap.rows := by
  cases pass : a.isPass t.world.recorder with
  | true =>
      cases step.symm.trans (pass_step pass)
      have alive : (passed cfg a t.world.recorder).state = .recording := by
        by_contra dead
        rw [conclude_idle (state_idle_of_ne dead)] at going
        exact dead going
      obtain ⟨rows, -⟩ := conclude_below going
      obtain ⟨done, q, last⟩ := consume_last (arrive_recording cfg pass) alive
      rw [rows]
      exact heads pass _ _ _ last
  | false =>
      rcases (stepped_quiet (step_cases step) pass).1 going with fresh | ⟨was, rows⟩
      · rw [fresh]
        exact none
      · rw [rows]
        exact before was

/-- And of whatever the action hands over. -/
theorem jobs_of_heads (R : List (Row V) → Prop) (heads : AtHeads cfg (fun _ r => R r.cap.rows) t a)
    {w' : World P V} (step : t.world.step libs cfg a = .ok w') {job : Job V}
    (mem : job ∈ submissions w'.recorder.journal) :
    job ∈ submissions t.world.recorder.journal ∨ R job.rows := by
  cases step_cases step with
  | submitted a pass alive =>
      simp only [submitFinalize_journal, settle_journal, submissions_append, submissions_submitted,
        List.mem_append, List.mem_singleton, submissions_passed_live pass alive] at mem
      rcases mem with before | rfl
      · exact .inl before
      · obtain ⟨done, q, last⟩ := consume_last (arrive_recording cfg pass) alive
        refine .inr ?_
        show R (a.settle (passed cfg a t.world.recorder)).cap.rows
        rw [settle_cap]
        exact heads pass _ _ _ last
  | delivered topic sample =>
      rw [deliver_eq] at mem
      exact .inl mem
  | filed => exact .inl mem
  | ignored => exact .inl mem
  | opened => exact .inl (by simpa using mem)
  | discarded => exact .inl (by simpa using mem)
  | collected => exact .inl (submissions_collect t.world.recorder ▸ mem)
  | aborted _ pass dead => exact .inl (submissions_passed_dead pass dead ▸ mem)
  | continued env recording alive =>
      have same := submissions_passed_live (isPass_tick env recording) alive
      exact .inl (same ▸ mem)
  | silent env recording alive =>
      have same := submissions_passed_live (isPass_tick env recording) alive
      exact .inl (by simpa [same] using mem)
  | waited => exact .inl mem
  | finished => exact .inl (by simpa [note] using mem)

/-- **Room at the cap keeps the cap.** -/
theorem capKept_of_room (reach : Traced.Reach libs cfg t) (room : RoomAtCap cfg t a) :
    CapKept libs cfg t a where
  fits := room.fits reach
  submits := room.submits
  state _ step going := state_of_heads (fun rows => rows.length ≤ maxFrames) (Nat.zero_le _)
    (fun was => (below_cap reach was).le) (room.fits reach) step going
  jobs _ step _ mem :=
    jobs_of_heads (fun rows => rows.length ≤ maxFrames) (room.fits reach) step mem

/-- A lost capture is not handed over. -/
theorem not_handsOver (pass : a.isPass t.world.recorder = true) {rows : List (Row V)}
    (lost : (passed cfg a t.world.recorder).state = .idle ∨
      ((passed cfg a t.world.recorder).state = .recording ∧
        ∃ env, a = .tick env ∧ clockSilent env.monoAfter (passed cfg a t.world.recorder) = true)) :
    ¬ HandsOver libs cfg t.world a rows := by
  rintro ⟨w', job, step, -, handed⟩
  cases step.symm.trans (pass_step pass)
  have kept : submissions (passed cfg a t.world.recorder).journal =
      submissions t.world.recorder.journal := by
    rcases lost with dead | ⟨alive, -⟩
    · exact submissions_passed_dead pass dead
    · exact submissions_passed_live pass alive
  rw [conclude_unsubmitted (lost.imp_right And.right), kept] at handed
  simpa using congrArg List.length handed

/-- **A kept cap had room.** -/
theorem room_of_capKept (kept : CapKept libs cfg t a) : RoomAtCap cfg t a := by
  intro pass done q r head full
  have recording := arrive_recording cfg pass
  have live := head.live recording
  have handed := kept.submits pass _ _ _ head full
  have ends : passed cfg a t.world.recorder = consume cfg q r := head.consume_eq recording
  have notDead : (consume cfg q r).state = .recording := by
    cases state : (consume cfg q r).state with
    | recording => rfl
    | idle => exact absurd handed (not_handsOver pass (.inl (ends ▸ state)))
  constructor
  · rintro f rest rfl
    have alive : (frame cfg f r).2.state = .recording := by
      by_contra dead
      rw [consume_of_dead live (state_idle_of_ne dead)] at notDead
      exact dead notDead
    have step := frame_step cfg f r
    generalize out : frame cfg f r = o at step
    rw [out] at alive
    cases step with
    | wait unanswered =>
        refine .inl ⟨unanswered, ?_⟩
        by_contra overflow
        rw [consume_of_waits live unanswered, head.queue, if_pos (by omega)] at notDead
        cases notDead
    | fenced held early => exact .inr ⟨held, .inl early⟩
    | backwards => cases alive
    | gated held order drop => exact .inr ⟨held, .inr ⟨order, drop⟩⟩
    | drifted => cases alive
    | leading held order keep s found rows =>
        simp [rows, maxFrames] at full
    | landed held order keep windows =>
        -- a row too many at the next head
        have next := head.next (by rw [out]) (by rw [out]; exact live)
        have over_ := kept.fits pass _ _ _ next
        rw [out] at over_
        simp [pop, land, full] at over_
  · rintro env rfl
    by_contra silent
    obtain ⟨done', q', last⟩ := consume_last recording ((head.consume_eq recording).symm ▸ notDead)
    have timer : (passed cfg (.tick env) t.world.recorder).cap.clockSeen = r.cap.clockSeen :=
      last.clockSeen.trans head.clockSeen.symm
    refine not_handsOver pass (.inr ⟨ends ▸ notDead, env, rfl, ?_⟩) handed
    simpa only [clockSilent, timer, Bool.not_eq_false] using silent

end Action

/-! ## Every run -/

section Run

variable {libs : Libs V} {cfg : Config P V} {t : Traced P V}

/-- One action keeps the cap exactly when there is room at the cap. -/
theorem capKept_iff_room (reach : Traced.Reach libs cfg t) (a : Action P) :
    CapKept libs cfg t a ↔ RoomAtCap cfg t a :=
  ⟨room_of_capKept, capKept_of_room reach⟩

/-- Every job ever submitted fits. -/
def JobsFit (t : Traced P V) : Prop :=
  ∀ job ∈ submissions t.world.recorder.journal, job.rows.length ≤ maxFrames

theorem jobsFit_run {t' : Traced P V} {actions : List (Action P)}
    (run : runs (Traced.step libs cfg) t actions = .ok t')
    (kept : Along (Traced.step libs cfg) (CapKept libs cfg) t actions) (fit : JobsFit t) : JobsFit t' := by
  induction actions generalizing t with
  | nil =>
      cases run
      exact fit
  | cons a rest ih =>
      obtain ⟨mid, first, later⟩ := runs_cons_ok.mp run
      refine ih later (kept.2 mid first) ?_
      intro job mem
      exact (kept.1.jobs _ (traced_step_world first) job mem).elim (fit job) id

/-- **The row cap**: along a run every pass keeps the cap and a capture that reaches
it is handed over with its rows, exactly when at every step there is room at the cap;
then no recording and no finalize job of the run holds more than `MAX_FRAMES` rows. -/
theorem row_cap_iff (reach : Traced.Reach libs cfg t) {t' : Traced P V} {actions : List (Action P)}
    (run : runs (Traced.step libs cfg) t actions = .ok t') :
    (Along (Traced.step libs cfg) (CapKept libs cfg) t actions ↔
      Along (Traced.step libs cfg) (RoomAtCap cfg) t actions) ∧
    (Along (Traced.step libs cfg) (RoomAtCap cfg) t actions → JobsFit t →
      (t'.world.recorder.state = .recording → t'.world.recorder.cap.rows.length ≤ maxFrames) ∧
        JobsFit t') := by
  have agree : Along (Traced.step libs cfg) (CapKept libs cfg) t actions ↔
      Along (Traced.step libs cfg) (RoomAtCap cfg) t actions :=
    along_iff (fun _ here a => capKept_iff_room here a) reach actions
  refine ⟨agree, ?_⟩
  intro room fit
  obtain ⟨t₀, before, initial, prior⟩ := reach
  have reached : Traced.Reach libs cfg t' :=
    ⟨t₀, before ++ actions, initial, runs_append_ok.mpr ⟨t, prior, run⟩⟩
  exact ⟨fun going => (below_cap reached going).le, jobsFit_run run (agree.mpr room) fit⟩

end Run

/-- A run with one job of one row. -/
theorem row_cap_iff_recorded :
    (submissions (Demo.after Demo.recorded).world.recorder.journal).map (fun job => job.rows.length) = [1] ∧
      (Along (Traced.step Demo.libs Demo.rig) (CapKept Demo.libs Demo.rig) Demo.boot Demo.recorded ↔
        Along (Traced.step Demo.libs Demo.rig) (RoomAtCap Demo.rig) Demo.boot Demo.recorded) :=
  ⟨by decide +kernel,
    (row_cap_iff (Reachable.start Demo.boot_init) (runs_of_accepts (by decide +kernel))).1⟩

/-! ## A recording one row short of the cap -/

namespace Demo

/-- A recorder with the camera alone. -/
def solo : Config Nat Nat := ⟨["run"], [cam], [], cam, [], rfl⟩

/-- The camera's recorder just after `setup`. -/
def soloBoot : Traced Nat Nat where
  world :=
    { recorder :=
        { state := .idle, cap := {}, subs := subscribe solo, pending := [], verdicts := ⟨[], []⟩,
          telemetry := ⟨0, none, ⟨⟨0, 0, 0, ""⟩, []⟩⟩, episode := [], journal := [] }
      disk := ⟨[(["run"], .dir), (["run", "data-recordings"], .dir)]⟩ }
  hist := {}

/-- Every frame in order lands: nothing else is recorded and nothing is decimated. -/
theorem frame_solo {f : Sample Nat} {r : Recorder Nat Nat} (fence : r.cap.t0Ns = 0)
    (period : r.cap.periodNs = 0) (past : 0 ≤ f.stamp) (order : r.cap.lastTs ≤ f.stamp) :
    frame solo f r = (true, land solo f r) := by
  refine (FrameStep.landed (by rfl) ⟨fence ▸ past, order⟩ ?_ ?_).eq
  · simp [gate, period]
  · intro s mem
    cases mem

/-- The loop lands a queue of frames in order. -/
theorem consume_solo {q : List (Sample Nat)} {r : Recorder Nat Nat} (recording : r.state = .recording)
    (queue : r.cap.deferred = q) (fence : r.cap.t0Ns = 0) (period : r.cap.periodNs = 0)
    (past : ∀ f ∈ q, 0 ≤ f.stamp) (order : ∀ f ∈ q, r.cap.lastTs ≤ f.stamp)
    (sorted : q.Pairwise fun f g => f.stamp ≤ g.stamp) {bound : Int} (last : r.cap.lastTs ≤ bound)
    (below : ∀ f ∈ q, f.stamp ≤ bound) :
    (consume solo q r).state = .recording ∧ (consume solo q r).cap.deferred = [] ∧
      (consume solo q r).cap.rows.length = r.cap.rows.length + q.length ∧
      (consume solo q r).cap.lastTs ≤ bound ∧ (consume solo q r).cap.t0Ns = 0 ∧
      (consume solo q r).cap.periodNs = 0 ∧ (consume solo q r).cap.clockSeen = r.cap.clockSeen ∧
      (consume solo q r).subs = r.subs ∧ (consume solo q r).journal = r.journal := by
  induction q generalizing r with
  | nil => exact ⟨recording, queue, rfl, last, fence, period, rfl, rfl, rfl⟩
  | cons f rest ih =>
      obtain ⟨after, sorted⟩ := List.pairwise_cons.mp sorted
      have landed := frame_solo fence period (past f List.mem_cons_self) (order f List.mem_cons_self)
      rw [consume_of_consumed recording (by rw [landed]) (by rw [landed]; exact recording), landed]
      have more := ih (r := pop (land solo f r)) recording (by simp [pop, land, touch, queue]) fence period
        (fun g mem => past g (List.mem_cons_of_mem f mem)) after sorted
        (below f List.mem_cons_self) fun g mem => below g (List.mem_cons_of_mem f mem)
      obtain ⟨state, deferred, rows, later⟩ := more
      refine ⟨state, deferred, ?_, later⟩
      rw [rows]
      simp [pop, land]
      omega

/-- A recording of `n` rows at the native rate. -/
structure Rolling (n : Nat) (r : Recorder Nat Nat) : Prop where
  state : r.state = .recording
  deferred : r.cap.deferred = []
  rows : r.cap.rows.length = n
  last : r.cap.lastTs ≤ n
  fence : r.cap.t0Ns = 0
  period : r.cap.periodNs = 0
  jobs : submissions r.journal = []

theorem Rolling.ported {n : Nat} {r : Recorder Nat Nat} (rolling : Rolling n r)
    (subs : OrderedDict String (Subscriber Nat)) : Rolling n { r with subs := subs } :=
  ⟨rolling.state, rolling.deferred, rolling.rows, rolling.last, rolling.fence, rolling.period, rolling.jobs⟩

/-- The `n`-th camera frame, `n` nanoseconds past the fence. -/
def shot (n : Nat) : Sample Nat := ⟨n, n, n⟩

/-- A tick's pass over one or more queued frames. -/
theorem capture_solo {n : Nat} {r : Recorder Nat Nat} (rolling : Rolling n r) {q : List (Sample Nat)}
    (read : drainTopic "cam/front" r = (q, { r with subs := subscribe solo })) (some_ : q ≠ [])
    (past : ∀ f ∈ q, (n : Int) ≤ f.stamp) (sorted : q.Pairwise fun f g => f.stamp ≤ g.stamp)
    (below : ∀ f ∈ q, f.stamp ≤ ((n + q.length : Nat) : Int)) :
    Rolling (n + q.length) (capture solo 0 r) ∧ (capture solo 0 r).subs = subscribe solo ∧
      (capture solo 0 r).cap.clockSeen = 0 := by
  have start : arrive solo 0 r =
      { r with
        subs := subscribe solo
        cap := { r.cap with clockSeen := 0, deferred := r.cap.deferred ++ q } } := by
    have frames : clockDrain solo r = q := congrArg Prod.fst read
    have port : (drainTopic solo.clock.topic (refresh solo r)).2 = { r with subs := subscribe solo } :=
      congrArg Prod.snd read
    simp only [arrive, frames, port, some_, ne_eq, not_false_eq_true, if_true]
  obtain ⟨state, deferred, rows, last, fence, period, seen, subs, journal⟩ :=
    consume_solo (q := q) (r := arrive solo 0 r) (by rw [start]; exact rolling.state)
      (by rw [start, rolling.deferred]; rfl) (by rw [start]; exact rolling.fence)
      (by rw [start]; exact rolling.period) (fun f mem => (Int.natCast_nonneg n).trans (past f mem))
      (fun f mem => by rw [start]; exact rolling.last.trans (past f mem)) sorted
      (by rw [start]; exact rolling.last.trans (by simp)) below
  have eq : capture solo 0 r = consume solo q (arrive solo 0 r) := by
    show consume solo (arrive solo 0 r).cap.deferred (arrive solo 0 r) = _
    congr 1
    rw [start, rolling.deferred]
    rfl
  rw [start] at rows seen subs journal
  rw [eq, start]
  rw [start] at state deferred last fence period
  exact ⟨⟨state, deferred, by rw [rows]; simp [rolling.rows], last, fence, period,
    by rw [journal]; exact rolling.jobs⟩, subs, seen⟩

/-- A reachable recording of `n` rows whose port is empty. -/
structure Filming (n : Nat) (t : Traced Nat Nat) : Prop where
  reach : Traced.Reach libs solo t
  rolling : Rolling n t.world.recorder
  port : t.world.recorder.subs = subscribe solo

/-- The state after one more delivery. -/
theorem reach_deliver {t : Traced Nat Nat} (reach : Traced.Reach libs solo t) (x : Sample Nat) :
    ∃ t', Traced.Reach libs solo t' ∧
      t'.world.recorder = { t.world.recorder with subs := pushed "cam/front" x t.world.recorder.subs } := by
  refine ⟨_, reach.next (a := .deliver "cam/front" x) rfl, ?_⟩
  exact deliver_eq "cam/front" x t.world.recorder

/-- The pass of a tick at time 0, over the frames at the port. -/
theorem passed_solo {n : Nat} {t : Traced Nat Nat} (rolling : Rolling n t.world.recorder)
    {q : List (Sample Nat)} (some_ : q ≠ [])
    (read : ∀ r : Recorder Nat Nat, r.subs = t.world.recorder.subs →
      drainTopic "cam/front" r = (q, { r with subs := subscribe solo }))
    (past : ∀ f ∈ q, (n : Int) ≤ f.stamp) (sorted : q.Pairwise fun f g => f.stamp ≤ g.stamp)
    (below : ∀ f ∈ q, f.stamp ≤ ((n + q.length : Nat) : Int)) :
    Rolling (n + q.length) (passed solo tickNow t.world.recorder) ∧
      (passed solo tickNow t.world.recorder).subs = subscribe solo ∧
      clockSilent 0 (passed solo tickNow t.world.recorder) = false := by
  have found : Rolling n (collect t.world.recorder) :=
    ⟨by simp [rolling.state], by simp [rolling.deferred], by simp [rolling.rows],
      by simp [rolling.last], by simp [rolling.fence], by simp [rolling.period],
      by rw [submissions_collect, rolling.jobs]⟩
  obtain ⟨after, subs, seen⟩ :=
    capture_solo found (read _ (collect_subs t.world.recorder)) some_ past sorted below
  refine ⟨after, subs, ?_⟩
  show clockSilent 0 (capture solo 0 (collect t.world.recorder)) = false
  simp [clockSilent, seen, clockTimeoutS]

/-- One more row. -/
theorem Filming.next {n : Nat} {t : Traced Nat Nat} (filming : Filming n t) (room : n + 1 < maxFrames) :
    ∃ t', Filming (n + 1) t' := by
  obtain ⟨t₁, reach₁, shape⟩ := reach_deliver filming.reach (shot n)
  have rolling : Rolling n t₁.world.recorder := by
    rw [shape]
    exact filming.rolling.ported _
  have read : ∀ r : Recorder Nat Nat, r.subs = t₁.world.recorder.subs →
      drainTopic "cam/front" r = ([shot n], { r with subs := subscribe solo }) := by
    intro r same
    rw [shape, filming.port] at same
    simp only [drainTopic, same]
    rfl
  obtain ⟨after, subs, heard⟩ := passed_solo rolling (by simp) read (by simp [shot]) (by simp)
    (by simp [shot])
  have rows : (passed solo tickNow t₁.world.recorder).cap.rows.length < maxFrames := by
    rw [after.rows]
    exact room
  have going := conclude_goes solo ⟨0, 0⟩ after.state heard rows
  have world : t₁.world.step libs solo tickNow =
      .ok { t₁.world with recorder := publish (passed solo tickNow t₁.world.recorder) } := by
    rw [← going]
    exact pass_step (isPass_tick _ rolling.state)
  exact ⟨_, reach₁.next (traced_step_of_world rfl world),
    ⟨after.state, after.deferred, after.rows, after.last, after.fence, after.period, after.jobs⟩, subs⟩

/-- `START` at time 0. -/
theorem filming_zero : ∃ t, Filming 0 t := by
  have start : accepts (Traced.step libs solo) soloBoot [startAt 0] = true := by decide +kernel
  refine ⟨_, Reachable.of_accepts ⟨⟨rfl, rfl, rfl, rfl, rfl, rfl⟩, rfl⟩ start, ?_, ?_⟩
  · exact ⟨by decide +kernel, by decide +kernel, by decide +kernel, by decide +kernel, by decide +kernel,
      by decide +kernel, by rfl⟩
  · decide +kernel

/-- A recording can reach every row count below the cap. -/
theorem filming (n : Nat) (room : n < maxFrames) : ∃ t, Filming n t := by
  induction n with
  | zero => exact filming_zero
  | succ n ih =>
      obtain ⟨t, filming⟩ := ih (by omega)
      exact filming.next room

end Demo

/-- **The cap is passed**: two frames between two ticks, one row short of the cap,
and a finalize job of 1801 rows is submitted. -/
theorem row_cap_passed :
    ∃ t, Traced.Reach Demo.libs Demo.solo t ∧
      ∃ job ∈ submissions t.world.recorder.journal, job.rows.length = maxFrames + 1 := by
  obtain ⟨t, filming⟩ := Demo.filming (maxFrames - 1) (by decide)
  obtain ⟨t₁, reach₁, shape₁⟩ := Demo.reach_deliver filming.reach (Demo.shot (maxFrames - 1))
  obtain ⟨t₂, reach₂, shape₂⟩ := Demo.reach_deliver reach₁ (Demo.shot maxFrames)
  have rolling : Demo.Rolling (maxFrames - 1) t₂.world.recorder := by
    rw [shape₂, shape₁]
    exact (filming.rolling.ported _).ported _
  have read : ∀ r : Recorder Nat Nat, r.subs = t₂.world.recorder.subs →
      drainTopic "cam/front" r =
        ([Demo.shot (maxFrames - 1), Demo.shot maxFrames], { r with subs := subscribe Demo.solo }) := by
    intro r same
    rw [shape₂, shape₁, filming.port] at same
    simp only [drainTopic, same]
    rfl
  obtain ⟨after, -, heard⟩ := Demo.passed_solo rolling (by simp) read (by simp [Demo.shot, maxFrames])
    (by simp [Demo.shot, maxFrames]) (by simp [Demo.shot, maxFrames])
  have full : maxFrames ≤ (passed Demo.solo Demo.tickNow t₂.world.recorder).cap.rows.length := by
    rw [after.rows]
    exact Nat.le_add_right maxFrames 1
  have over_ := conclude_submits Demo.solo Demo.tickNow after.state full (by
    intro env same
    cases same
    exact heard)
  have world : t₂.world.step Demo.libs Demo.solo Demo.tickNow = .ok { t₂.world with
      recorder := submitFinalize
        (Demo.tickNow.settle (passed Demo.solo Demo.tickNow t₂.world.recorder)) } := by
    rw [← over_]
    exact pass_step (isPass_tick _ rolling.state)
  refine ⟨_, reach₂.next (traced_step_of_world rfl world),
    jobOf (Demo.tickNow.settle (passed Demo.solo Demo.tickNow t₂.world.recorder)), by simp, ?_⟩
  show (Demo.tickNow.settle (passed Demo.solo Demo.tickNow t₂.world.recorder)).cap.rows.length = _
  rw [settle_cap, after.rows]
  rfl

end KoyuRuntime.Services.DataRecorder
