/-
# Services.DataRecorder.Lifecycle — from START to the rung id

Every accepted `START` opens one capture under a fresh id, and a capture that ends
is resolved once: discarded, aborted, or handed to one finalize job.  Jobs are
collected once each, and `recorder/episode` is rung once for every abort and once
for every collected job, and for nothing else.

* `Lived`: the journal as an account of all captures, in every reachable state
  (`reach_lived`): what was opened is what has ended, then the one being recorded.
* `Ran`: what one finalize job returned, and the id its collection rings.
* `Turn`: what one action does to the capture being recorded (`turn_of_stepped`).
* `episode_lifecycle`: the three together.
-/
import KoyuRuntime.Services.DataRecorder.Bundle
import KoyuRuntime.Services.DataRecorder.Jobs

namespace KoyuRuntime.Services.DataRecorder

open Host Theory Ipc

set_option autoImplicit false

variable {P V : Type}

/-! ## The journal's captures -/

/-- The capture ids a journal says have ended. -/
def endings (journal : List (Entry V)) : List String :=
  journal.filterMap fun
    | .discarded id => some id
    | .aborted id _ => some id
    | .submitted job => some job.captureId
    | _ => none

/-- The ids an entry rings on `recorder/episode`. -/
def Entry.rings : Entry V → List Nat
  | .aborted _ _ => [epFailed]
  | .collected _ result => [resultRing result]
  | _ => []

/-- The capture an entry is about. -/
def Entry.captureId : Entry V → String
  | .opened id _ _ _ => id
  | .discarded id => id
  | .aborted id _ => id
  | .submitted job => job.captureId
  | .finished job _ => job.captureId
  | .collected job _ => job.captureId

/-- The capture being recorded, if there is one. -/
def running (r : Recorder P V) : List String :=
  if r.state = .recording then [r.cap.captureId] else []

theorem openings_append (journal more : List (Entry V)) :
    openings (journal ++ more) = openings journal ++ openings more :=
  List.filterMap_append

theorem endings_append (journal more : List (Entry V)) :
    endings (journal ++ more) = endings journal ++ endings more :=
  List.filterMap_append

/-- Entries about finalize jobs that open, end and hand over nothing. -/
def Entry.late : Entry V → Bool
  | .finished _ _ => true
  | .collected _ _ => true
  | _ => false

theorem late_nothing {entries : List (Entry V)} (late : ∀ entry ∈ entries, entry.late = true) :
    openings entries = [] ∧ endings entries = [] ∧ submissions entries = [] := by
  refine ⟨?_, ?_, ?_⟩
  all_goals
    first | unfold openings | unfold endings | unfold submissions
    rw [List.filterMap_eq_nil_iff]
    intro entry mem
    have := late entry mem
    cases entry <;> simp_all [Entry.late]

/-! ## The account of the captures -/

/-- The journal accounts for every capture. -/
structure Lived (r : Recorder P V) : Prop where
  empty : r.state = .idle → r.cap.captureId = ""
  named : ∀ id ∈ openings r.journal, id ≠ ""
  distinct : (openings r.journal).Nodup
  resolved : openings r.journal = endings r.journal ++ running r
  opened : r.state = .recording → ∃ snap t0,
    r.cap.snap = some snap ∧ .opened r.cap.captureId snap r.cap.recHz t0 ∈ r.journal
  handed : ∀ job ∈ submissions r.journal, ∃ snap t0,
    job.ctx = some snap ∧ .opened job.captureId snap job.recHz t0 ∈ r.journal
  rung : r.episode = r.journal.flatMap Entry.rings

section Ops

variable {r r' : Recorder P V}

/-- Late entries, each with its ring, leave the captures alone. -/
theorem Lived.note (lived : Lived r) (entries : List (Entry V))
    (late : ∀ entry ∈ entries, entry.late = true) (state : r'.state = r.state)
    (captureId : r'.cap.captureId = r.cap.captureId) (snap : r'.cap.snap = r.cap.snap)
    (recHz : r'.cap.recHz = r.cap.recHz) (journal : r'.journal = r.journal ++ entries)
    (episode : r'.episode = r.episode ++ entries.flatMap Entry.rings) : Lived r' := by
  obtain ⟨opens, ends, hands⟩ := late_nothing late
  have openings_eq : openings r'.journal = openings r.journal := by
    rw [journal, openings_append, opens, List.append_nil]
  have running_eq : running r' = running r := by rw [running, running, state, captureId]
  refine ⟨?_, ?_, ?_, ?_, ?_, ?_, ?_⟩
  · rw [state, captureId]
    exact lived.empty
  · rw [openings_eq]
    exact lived.named
  · rw [openings_eq]
    exact lived.distinct
  · rw [openings_eq, journal, endings_append, ends, List.append_nil, running_eq]
    exact lived.resolved
  · rw [state, captureId, snap, recHz, journal]
    intro recording
    obtain ⟨ctx, t0, same, mem⟩ := lived.opened recording
    exact ⟨ctx, t0, same, List.mem_append_left _ mem⟩
  · rw [journal, submissions_append, hands, List.append_nil]
    intro job mem
    obtain ⟨ctx, t0, same, mem⟩ := lived.handed job mem
    exact ⟨ctx, t0, same, List.mem_append_left _ mem⟩
  · rw [episode, journal, List.flatMap_append, lived.rung]

theorem Lived.congr (lived : Lived r) (state : r'.state = r.state)
    (captureId : r'.cap.captureId = r.cap.captureId) (snap : r'.cap.snap = r.cap.snap)
    (recHz : r'.cap.recHz = r.cap.recHz) (journal : r'.journal = r.journal)
    (episode : r'.episode = r.episode) : Lived r' :=
  lived.note [] (fun _ none => by cases none) state captureId snap recHz
    (by rw [journal, List.append_nil]) (by rw [episode]; simp)

theorem Lived.same (lived : Lived r) (same : SameShell r r') : Lived r' :=
  lived.congr same.state same.captureId same.snap same.recHz same.journal same.episode

theorem Lived.publish (lived : Lived r) : Lived (publish r) :=
  lived.congr (publish_state r) (by rw [publish_cap]) (by rw [publish_cap]) (by rw [publish_cap])
    (publish_journal r) (publish_episode r)

theorem Lived.collect (lived : Lived r) : Lived (collect r) := by
  refine lived.note ((doneJobs r.pending).map fun d => .collected d.1 d.2) ?_ ?_ ?_ ?_ ?_ ?_ ?_
  · intro entry mem
    obtain ⟨d, -, rfl⟩ := List.mem_map.mp mem
    rfl
  all_goals rw [collect_eq]
  simp only [List.flatMap_map, Entry.rings, List.append_cancel_left_eq]
  exact List.map_eq_flatMap

/-- A fresh capture joins the account. -/
theorem Lived.open (lived : Lived r) (idle : r.state = .idle) {env : Readings}
    (unused : env.captureId.hex ∉ openings r.journal) (snap : RecordingContext) (recHz : Double)
    (period : Int) : Lived (DataRecorder.opened env snap recHz period r) := by
  have opens : openings (DataRecorder.opened env snap recHz period r).journal =
      openings r.journal ++ [env.captureId.hex] := openings_append _ _
  refine ⟨fun none => by simp at none, ?_, ?_, ?_, ?_, ?_, ?_⟩
  · rw [opens]
    intro id mem
    rcases List.mem_append.mp mem with old | new
    · exact lived.named id old
    · rw [List.mem_singleton.mp new]
      exact env.captureId.hex_ne_empty
  · rw [opens, List.nodup_append]
    refine ⟨lived.distinct, List.nodup_singleton _, ?_⟩
    rintro id old _ new rfl
    exact unused (List.mem_singleton.mp new ▸ old)
  · have ends : endings (DataRecorder.opened env snap recHz period r).journal = endings r.journal := by
      rw [opened_journal, endings_append]
      exact List.append_nil _
    have before := lived.resolved
    rw [running, if_neg (by simp [idle]), List.append_nil] at before
    rw [opens, ends, ← before, running, if_pos (opened_state _ _ _ _ _)]
    rfl
  · intro _
    exact ⟨snap, env.timeNs, rfl, List.mem_append_right _ List.mem_cons_self⟩
  · intro job mem
    rw [opened_journal, submissions_append, submissions_opened, List.append_nil] at mem
    obtain ⟨ctx, t0, same, old⟩ := lived.handed job mem
    exact ⟨ctx, t0, same, List.mem_append_left _ old⟩
  · rw [opened_episode, opened_journal, List.flatMap_append, ← lived.rung]
    exact (List.append_nil _).symm

/-- An entry that ends the capture being recorded: nothing opens, and a job handed
over is the capture's own. -/
structure Ends (r : Recorder P V) (entry : Entry V) : Prop where
  opens : openings [entry] = []
  ends : endings [entry] = [r.cap.captureId]
  own : ∀ job ∈ submissions [entry], job.captureId = r.cap.captureId ∧ job.ctx = r.cap.snap ∧
    job.recHz = r.cap.recHz

theorem Lived.resolve (lived : Lived r) (recording : r.state = .recording) (entry : Entry V)
    (ends : Ends r entry) (state : r'.state = .idle) (cap : r'.cap = {})
    (journal : r'.journal = r.journal ++ [entry]) (episode : r'.episode = r.episode ++ entry.rings) :
    Lived r' := by
  have opens : openings r'.journal = openings r.journal := by
    rw [journal, openings_append, ends.opens, List.append_nil]
  refine ⟨fun _ => by rw [cap], ?_, ?_, ?_, ?_, ?_, ?_⟩
  · rw [opens]
    exact lived.named
  · rw [opens]
    exact lived.distinct
  · have before := lived.resolved
    rw [running, if_pos recording] at before
    rw [opens, before, journal, endings_append, ends.ends, running, if_neg (by simp [state]),
      List.append_nil]
  · intro recording'
    rw [state] at recording'
    cases recording'
  · intro job mem
    rw [journal, submissions_append] at mem
    rw [journal]
    rcases List.mem_append.mp mem with old | new
    · obtain ⟨ctx, t0, same, mem⟩ := lived.handed job old
      exact ⟨ctx, t0, same, List.mem_append_left _ mem⟩
    · obtain ⟨id, ctx, hz⟩ := ends.own job new
      obtain ⟨snap, t0, same, mem⟩ := lived.opened recording
      exact ⟨snap, t0, ctx.trans same, by rw [id, hz]; exact List.mem_append_left _ mem⟩
  · rw [episode, journal, List.flatMap_append, ← lived.rung, List.flatMap_singleton]

theorem Lived.abort (lived : Lived r) (recording : r.state = .recording) (reason : AbortReason) :
    Lived (abort reason r) :=
  lived.resolve recording (.aborted r.cap.captureId reason)
    ⟨rfl, rfl, fun _ none => by cases none⟩ rfl rfl (abort_journal _ _) (abort_episode _ _)

theorem Lived.submit (lived : Lived r) (recording : r.state = .recording) : Lived (submitFinalize r) := by
  refine lived.resolve recording (.submitted (jobOf r)) ⟨rfl, rfl, fun job mem => ?_⟩ rfl rfl
    (submitFinalize_journal _) ?_
  · rw [List.mem_singleton.mp mem]
    exact ⟨rfl, rfl, rfl⟩
  · rw [submitFinalize_episode]
    exact (List.append_nil _).symm

end Ops

section Run

variable {libs : Libs V} {cfg : Config P V} {w w' : World P V} {a : Action P} {t : Traced P V}

theorem Lived.passStart {r : Recorder P V} (lived : Lived r) (a : Action P) : Lived (a.passStart r) := by
  cases a <;> first | exact lived.collect | exact lived

theorem lived_passed {r : Recorder P V} (lived : Lived r) (pass : a.isPass r = true) :
    Lived (passed cfg a r) := by
  have started := lived.passStart a
  have effect : PassEffect (a.passStart r) (passed cfg a r) := passed_effect pass
  have recording : (a.passStart r).state = .recording := by simpa using isPass_recording pass
  generalize passed cfg a r = out at effect
  cases effect with
  | live same => exact started.same same
  | aborted reason same => exact (started.same same).abort (same.state.trans recording) reason

theorem lived_next (lived : Lived w.recorder) (isFresh : fresh cfg w a = true)
    (stepped : Stepped libs cfg w a w') : Lived w'.recorder := by
  cases stepped with
  | delivered topic sample => apply lived.congr <;> rw [deliver_eq]
  | filed => exact lived.congr rfl rfl rfl rfl rfl rfl
  | ignored => exact lived
  | opened env period idle =>
      have unused : env.captureId.hex ∉ openings w.recorder.journal :=
        of_decide_eq_true isFresh rfl idle
      exact lived.open idle unused _ _ period
  | discarded env recording =>
      refine lived.resolve recording (.discarded w.recorder.cap.captureId)
        ⟨rfl, rfl, fun _ none => by cases none⟩ rfl rfl (discard_journal _) ?_
      rw [discard_episode]
      exact (List.append_nil _).symm
  | collected => exact lived.collect
  | aborted _ pass => exact lived_passed lived pass
  | continued env recording =>
      have passed : Lived (DataRecorder.passed cfg (.tick env) w.recorder) :=
        lived_passed lived (isPass_tick _ recording)
      exact passed.publish
  | silent env recording alive =>
      have passed : Lived (DataRecorder.passed cfg (.tick env) w.recorder) :=
        lived_passed lived (isPass_tick _ recording)
      exact passed.publish.abort ((publish_state _).trans alive) _
  | submitted _ pass alive =>
      have passed : Lived (DataRecorder.passed cfg a w.recorder) := lived_passed lived pass
      have settled : Lived (a.settle (DataRecorder.passed cfg a w.recorder)) :=
        passed.congr (by simp) (by simp) (by simp) (by simp) (by simp) (by simp)
      exact settled.submit (by simpa using alive)
  | waited => exact lived
  | finished call job next =>
      refine lived.note [.finished job (runJob libs cfg call job w.disk).1] ?_ rfl rfl rfl rfl
        rfl (List.append_nil _).symm
      intro entry mem
      rw [List.mem_singleton.mp mem]
      rfl

/-- **The journal accounts for every capture** in every reachable state. -/
theorem reach_lived (reach : Traced.Reach libs cfg t) : Lived t.world.recorder := by
  refine reach_invariant ?_ (fun _ _ _ lived isFresh stepped =>
    lived_next lived isFresh stepped) reach
  intro t initial
  obtain ⟨booted, -⟩ := initial
  refine ⟨fun _ => by rw [booted.cap], ?_, ?_, ?_, ?_, ?_, ?_⟩
  · rw [booted.journal]
    intro _ none
    cases none
  · rw [booted.journal]
    exact List.nodup_nil
  · rw [booted.journal, running, if_neg (by simp [booted.state])]
    rfl
  · rw [booted.state]
    intro none
    cases none
  · rw [booted.journal]
    intro _ none
    cases none
  · rw [booted.journal, booted.episode]
    rfl

end Run

/-! ## Rows only grow -/

section Rows

variable {cfg : Config P V} {r r₀ : Recorder P V}

theorem frame_rows {f : Sample P} (alive : (frame cfg f r).2.state = .recording) :
    r.cap.rows <+: (frame cfg f r).2.cap.rows := by
  obtain ⟨lastTs, nextDue, more, shape⟩ := frame_alive alive
  rw [shape]
  exact List.prefix_append r.cap.rows more

theorem AtFrame.rows {done q : List (Sample P)} (head : AtFrame cfg r₀ done q r) :
    r₀.cap.rows <+: r.cap.rows := by
  induction head with
  | start => exact List.prefix_refl _
  | next _ _ alive ih => exact ih.trans (frame_rows alive)

/-- A pass that leaves the recording alive only adds rows. -/
theorem capture_rows {mono : ℚ} (recording : r.state = .recording)
    (alive : (capture cfg mono r).state = .recording) :
    r.cap.rows <+: (capture cfg mono r).cap.rows := by
  have arrived : (arrive cfg mono r).cap.rows = r.cap.rows := by
    obtain ⟨subs, cache, pairs, refreshed⟩ := refresh_shape cfg r
    obtain ⟨subs', clockSeen, shape⟩ := arrive_shape cfg mono r
    rw [shape, refreshed]
  obtain ⟨done, q, r', head, ending⟩ :=
    consume_ends cfg ((sameShell_arrive cfg mono r).state.trans recording)
  have grown := head.rows
  rw [arrived] at grown
  unfold capture at alive ⊢
  dsimp only at alive ⊢
  generalize consume cfg (arrive cfg mono r).cap.deferred (arrive cfg mono r) = out at ending alive
  cases ending with
  | emptied => exact grown
  | aborted dead => simp [dead] at alive
  | waits => exact grown
  | overflowed => simp at alive

theorem passed_rows {a : Action P} (pass : a.isPass r = true)
    (alive : (passed cfg a r).state = .recording) : r.cap.rows <+: (passed cfg a r).cap.rows := by
  have grown : (a.passStart r).cap.rows <+: (passed cfg a r).cap.rows :=
    capture_rows (by simpa using isPass_recording pass) alive
  rwa [passStart_cap] at grown

end Rows

/-! ## What a job returns -/

section Results

variable {libs : Libs V} {cfg : Config P V} {call : Call} {job : Job V} {disk disk' : Disk V}
  {result : Except Exn Outcome}

/-- A finalize job has committed its capture's bundle. -/
def CommittedBy (libs : Libs V) (cfg : Config P V) (call : Call) (job : Job V)
    (disk disk' : Disk V) : Prop :=
  ∃ ctx first rest path, job.ctx = some ctx ∧ job.rows = first :: rest ∧
    Committed libs call cfg.recordings ctx first rest cfg.sources job.recHz (some job.captureId)
      job.verdict disk path disk'

theorem committedBy_iff (ran : runJob libs cfg call job disk = (result, disk')) :
    CommittedBy libs cfg call job disk disk' ↔ ∃ path, result = .ok { path := some path } := by
  unfold runJob at ran
  constructor
  · rintro ⟨ctx, first, rest, path, hasCtx, hasRows, committed⟩
    rw [hasCtx] at ran
    dsimp only at ran
    rw [hasRows, finalize_commits_iff.mpr committed] at ran
    cases ran
    exact ⟨path, rfl⟩
  · rintro ⟨path, rfl⟩
    cases hasCtx : job.ctx with
    | none => simp [hasCtx] at ran
    | some ctx =>
        rw [hasCtx] at ran
        dsimp only at ran
        cases hasRows : job.rows with
        | nil =>
            rw [hasRows] at ran
            simp [finalize] at ran
        | cons first rest =>
            rw [hasRows] at ran
            split at ran
            · rename_i out disk'' finalized
              cases ran
              exact ⟨ctx, first, rest, path, hasCtx, hasRows, finalize_commits_iff.mp finalized⟩
            · cases ran

/-- A job commits, returns "no frames", or raises. -/
theorem runJob_result (ran : runJob libs cfg call job disk = (result, disk')) :
    (∃ path, result = .ok { path := some path }) ∨ result = .ok { reason := some "no frames" } ∨
      ∃ e, result = .error e := by
  unfold runJob at ran
  split at ran
  · cases ran
    exact .inr (.inr ⟨_, rfl⟩)
  · split at ran
    · rename_i out disk'' finalized
      cases ran
      cases hasRows : job.rows with
      | nil =>
          rw [hasRows] at finalized
          cases finalized
          exact .inr (.inl rfl)
      | cons first rest =>
          rw [hasRows] at finalized
          obtain ⟨path, rfl, -⟩ := finalize_ok_iff.mp finalized
          exact .inl ⟨path, rfl⟩
    · cases ran
      exact .inr (.inr ⟨_, rfl⟩)

/-- The one id a result rings says what became of the episode. -/
structure Rings (result : Except Exn Outcome) (committed : Prop) : Prop where
  captured : resultRing result = epCaptured ↔ committed
  discarded : resultRing result = epDiscarded ↔
    ∃ out reason, result = .ok out ∧ out.reason = some reason
  failed : resultRing result = epFailed ↔ ∃ e, result = .error e

theorem rings_of_ran (ran : runJob libs cfg call job disk = (result, disk')) :
    Rings result (CommittedBy libs cfg call job disk disk') := by
  have committed := committedBy_iff ran
  rcases runJob_result ran with ⟨path, rfl⟩ | rfl | ⟨e, rfl⟩
  · exact ⟨by simp [resultRing, committed], by simp [resultRing, epCaptured, epDiscarded],
      by simp [resultRing, epCaptured, epFailed]⟩
  · exact ⟨by simp [resultRing, epCaptured, epDiscarded, committed], by simp [resultRing],
      by simp [resultRing, epFailed, epDiscarded]⟩
  · exact ⟨by simp [resultRing, epCaptured, epFailed, committed],
      by simp [resultRing, epFailed, epDiscarded], by simp [resultRing]⟩

end Results

/-! ## The account of the jobs -/

/-- Some call of this job on some disk returned this, and its ring says so. -/
def Ran (libs : Libs V) (cfg : Config P V) (job : Job V) (result : Except Exn Outcome) : Prop :=
  ∃ call disk disk', runJob libs cfg call job disk = (result, disk') ∧
    Rings result (CommittedBy libs cfg call job disk disk')

/-- The journal accounts for every job, and every entry belongs to a capture. -/
structure JobsRung (libs : Libs V) (cfg : Config P V) (r : Recorder P V) : Prop where
  collected : submissions r.journal =
    (collections r.journal).map Prod.fst ++ r.pending.map Future.job
  finished : finishes r.journal = collections r.journal ++ doneJobs r.pending
  ran : ∀ d ∈ finishes r.journal, Ran libs cfg d.1 d.2
  belongs : ∀ entry ∈ r.journal, entry.captureId ∈ openings r.journal

section Jobs

variable {libs : Libs V} {cfg : Config P V} {w w' : World P V} {a : Action P} {t : Traced P V}

theorem reach_ran (reach : Traced.Reach libs cfg t) :
    ∀ d ∈ finishes t.world.recorder.journal, Ran libs cfg d.1 d.2 := by
  refine @reach_invariant P V libs cfg
    (fun t => ∀ d ∈ finishes t.world.recorder.journal, Ran libs cfg d.1 d.2)
    (fun t initial => ?_) (fun t a w' ran _ stepped => ?_) t reach
  · rw [initial.1.journal]
    intro _ none
    cases none
  · show ∀ d ∈ finishes w'.recorder.journal, Ran libs cfg d.1 d.2
    rcases finishes_next stepped with ⟨same, -⟩ | ⟨call, job, -, -, grown, -⟩
    · rw [same]
      exact ran
    · rw [grown]
      intro d mem
      rcases List.mem_append.mp mem with old | last
      · exact ran d old
      · rw [List.mem_singleton.mp last]
        exact ⟨call, t.world.disk, _, rfl, rings_of_ran rfl⟩

theorem mem_endings_of_submissions {journal : List (Entry V)} {job : Job V}
    (mem : job ∈ submissions journal) : job.captureId ∈ endings journal := by
  obtain ⟨entry, inJournal, same⟩ := List.mem_filterMap.mp mem
  refine List.mem_filterMap.mpr ⟨entry, inJournal, ?_⟩
  cases entry with
  | submitted job' =>
      cases same
      rfl
  | _ => cases same

/-- Every entry is about a capture that was opened. -/
theorem reach_belongs (reach : Traced.Reach libs cfg t) :
    ∀ entry ∈ t.world.recorder.journal, entry.captureId ∈ openings t.world.recorder.journal := by
  have lived := reach_lived reach
  have jobs := jobs_accounted reach
  have ended : ∀ id ∈ endings t.world.recorder.journal, id ∈ openings t.world.recorder.journal := by
    intro id mem
    rw [lived.resolved]
    exact List.mem_append_left _ mem
  have handed : ∀ d ∈ finishes t.world.recorder.journal,
      d.1.captureId ∈ openings t.world.recorder.journal := by
    intro d mem
    refine ended _ (mem_endings_of_submissions ?_)
    rw [jobs.submitted]
    exact List.mem_append_left _ (List.mem_map_of_mem mem)
  intro entry mem
  cases entry with
  | opened id snap recHz t0 => exact List.mem_filterMap.mpr ⟨_, mem, rfl⟩
  | discarded id => exact ended _ (List.mem_filterMap.mpr ⟨_, mem, rfl⟩)
  | aborted id reason => exact ended _ (List.mem_filterMap.mpr ⟨_, mem, rfl⟩)
  | submitted job => exact ended _ (List.mem_filterMap.mpr ⟨_, mem, rfl⟩)
  | finished job result => exact handed (job, result) (List.mem_filterMap.mpr ⟨_, mem, rfl⟩)
  | collected job result =>
      refine handed (job, result) ?_
      rw [jobs.finished]
      exact List.mem_append_left _ (List.mem_filterMap.mpr ⟨_, mem, rfl⟩)

theorem reach_jobsRung (reach : Traced.Reach libs cfg t) : JobsRung libs cfg t.world.recorder :=
  ⟨pending_submitted reach, (jobs_accounted reach).finished, reach_ran reach, reach_belongs reach⟩

end Jobs

/-! ## One action -/

/-- The ways a capture ends, by action and entry. -/
inductive Resolution (cfg : Config P V) (r : Recorder P V) : Action P → Entry V → Prop where
  | discarded (env : Readings) :
      Resolution cfg r (.event "recorder/control" ctlDiscard env) (.discarded r.cap.captureId)
  | aborted {a : Action P} (pass : a.isPass r = true) (reason : AbortReason) :
      Resolution cfg r a (.aborted r.cap.captureId reason)
  /-- The job is handed the rows its last pass left. -/
  | submitted {a : Action P} (pass : a.isPass r = true) (verdict : Option JsonObj)
      (grown : r.cap.rows <+: (passed cfg a r).cap.rows) :
      Resolution cfg r a (.submitted
        ⟨r.cap.snap, (passed cfg a r).cap.rows, r.cap.recHz, r.cap.captureId, verdict⟩)

/-- What one action does to the capture being recorded. -/
inductive Turn (cfg : Config P V) (r : Recorder P V) : Action P → Recorder P V → Prop where
  | opened {r' : Recorder P V} (env : Readings) (snap : RecordingContext) (recHz : Double)
      (idle : r.state = .idle) (recording : r'.state = .recording)
      (unused : env.captureId.hex ∉ openings r.journal)
      (journal : r'.journal = r.journal ++ [.opened env.captureId.hex snap recHz env.timeNs])
      (captureId : r'.cap.captureId = env.captureId.hex) (rows : r'.cap.rows = []) :
      Turn cfg r (.event "recorder/control" ctlStart env) r'
  | kept {a : Action P} {r' : Recorder P V} (late : List (Entry V))
      (noStart : r.state = .idle → ∀ env, a ≠ .event "recorder/control" ctlStart env)
      (about : ∀ entry ∈ late, entry.late = true) (journal : r'.journal = r.journal ++ late)
      (state : r'.state = r.state) (captureId : r'.cap.captureId = r.cap.captureId)
      (snap : r'.cap.snap = r.cap.snap) (recHz : r'.cap.recHz = r.cap.recHz)
      (rows : r.cap.rows <+: r'.cap.rows) : Turn cfg r a r'
  | resolved {a : Action P} {r' : Recorder P V} (late : List (Entry V)) (entry : Entry V)
      (about : ∀ entry ∈ late, entry.late = true)
      (journal : r'.journal = r.journal ++ late ++ [entry]) (recording : r.state = .recording)
      (idle : r'.state = .idle) (ends : Resolution cfg r a entry) : Turn cfg r a r'

section Turns

variable {libs : Libs V} {cfg : Config P V} {w w' : World P V} {a : Action P} {t : Traced P V}

/-- What happens before a pass is at most a collection. -/
theorem passStart_journal (a : Action P) (r : Recorder P V) :
    ∃ late, (∀ entry ∈ late, entry.late = true) ∧ (a.passStart r).journal = r.journal ++ late := by
  cases a with
  | tick env =>
      refine ⟨(doneJobs r.pending).map fun d => .collected d.1 d.2, ?_, by simp [Action.passStart, collect_eq]⟩
      intro entry mem
      obtain ⟨d, -, rfl⟩ := List.mem_map.mp mem
      rfl
  | _ => exact ⟨[], by simp, (List.append_nil _).symm⟩

theorem isPass_noStart {r : Recorder P V} (pass : a.isPass r = true) :
    r.state = .idle → ∀ env, a ≠ .event "recorder/control" ctlStart env := by
  intro idle
  rw [isPass_recording pass] at idle
  cases idle

/-- A pass that leaves the recording alive keeps its capture. -/
theorem turn_kept (pass : a.isPass w.recorder = true)
    (alive : (passed cfg a w.recorder).state = .recording) {r' : Recorder P V}
    (state : r'.state = (passed cfg a w.recorder).state) (cap : r'.cap = (passed cfg a w.recorder).cap)
    (journal : r'.journal = (passed cfg a w.recorder).journal) : Turn cfg w.recorder a r' := by
  obtain ⟨late, about, started⟩ := passStart_journal a w.recorder
  have same := passed_same pass alive
  refine .kept late (isPass_noStart pass) about ?_ ?_ ?_ ?_ ?_ ?_
  · rw [journal, same.journal, started]
  · rw [state, alive, isPass_recording pass]
  · rw [cap, same.captureId, passStart_cap]
  · rw [cap, same.snap, passStart_cap]
  · rw [cap, same.recHz, passStart_cap]
  · rw [cap]
    exact passed_rows pass alive

/-- **What one action does to the capture being recorded.** -/
theorem turn_of_stepped (isFresh : fresh cfg w a = true) (stepped : Stepped libs cfg w a w') :
    Turn cfg w.recorder a w'.recorder := by
  have still : ∀ {a : Action P} {r' : Recorder P V},
      (w.recorder.state = .idle → ∀ env, a ≠ .event "recorder/control" ctlStart env) →
      r'.state = w.recorder.state → r'.cap = w.recorder.cap → r'.journal = w.recorder.journal →
      Turn cfg w.recorder a r' := by
    intro a r' noStart state cap journal
    refine .kept [] noStart (by simp) ?_ state ?_ ?_ ?_ ?_ <;>
      first | rw [cap] | rw [journal, List.append_nil]
  cases stepped with
  | delivered topic sample =>
      apply still
      · intro _ env same
        cases same
      all_goals rw [deliver_eq]
  | filed => exact still (fun _ _ same => by cases same) rfl rfl rfl
  | ignored channel eventId env quiet noStart =>
      refine still ?_ rfl rfl rfl
      intro idle env same
      cases same
      exact noStart rfl rfl idle
  | opened env period idle =>
      exact .opened env _ _ idle rfl (of_decide_eq_true isFresh rfl idle) rfl rfl rfl
  | discarded env recording =>
      refine .resolved [] _ (by simp) ?_ recording rfl (.discarded env)
      rw [List.append_nil]
      exact discard_journal _
  | collected env idle =>
      obtain ⟨late, about, started⟩ := passStart_journal (.tick env) w.recorder
      exact .kept late (fun _ _ same => by cases same) about started (collect_state _) (by simp) (by simp)
        (by simp) (by simp)
  | aborted _ pass dead =>
      obtain ⟨late, about, started⟩ := passStart_journal a w.recorder
      obtain ⟨mid, reason, same, eq⟩ := passed_dead pass dead
      refine .resolved late (.aborted w.recorder.cap.captureId reason) about ?_
        (isPass_recording pass) dead (.aborted pass reason)
      show (passed cfg a w.recorder).journal = _
      rw [eq, abort_journal, same.journal, started, same.captureId, passStart_cap]
  | continued env recording alive =>
      exact turn_kept (isPass_tick _ recording) alive rfl rfl rfl
  | silent env recording alive =>
      have pass := isPass_tick env recording
      obtain ⟨late, about, started⟩ := passStart_journal (.tick env) w.recorder
      have same := passed_same pass alive
      refine .resolved late (.aborted w.recorder.cap.captureId (.clockSilent cfg.clock.topic)) about ?_
        recording rfl (.aborted pass _)
      show (abort _ (publish (passed cfg (.tick env) w.recorder))).journal = _
      rw [abort_journal, publish_journal, publish_cap, same.journal, started, same.captureId,
        passStart_cap]
  | submitted _ pass alive =>
      obtain ⟨late, about, started⟩ := passStart_journal a w.recorder
      have same := passed_same pass alive
      refine .resolved late (.submitted (jobOf (a.settle (passed cfg a w.recorder)))) about ?_
        (isPass_recording pass) rfl ?_
      · show (submitFinalize (a.settle (passed cfg a w.recorder))).journal = _
        rw [submitFinalize_journal, settle_journal, same.journal, started]
      · rw [jobOf, settle_cap, same.snap, same.recHz, same.captureId, passStart_cap]
        exact .submitted pass _ (passed_rows pass alive)
  | waited => exact still (fun _ _ same => by cases same) rfl rfl rfl
  | finished call job =>
      refine .kept [.finished job (runJob libs cfg call job w.disk).1] (fun _ _ same => by cases same) ?_ rfl
        rfl rfl rfl rfl (List.prefix_refl _)
      intro entry mem
      rw [List.mem_singleton.mp mem]
      rfl

/-- After a tick no finished job is left to collect. -/
theorem tick_collects {env : TickReadings} (stepped : Stepped libs cfg w (.tick env) w') :
    ∀ fut ∈ w'.recorder.pending, fut.result = none := by
  have started : ∀ fut ∈ (collect w.recorder).pending, fut.result = none := by
    intro fut mem
    rw [collect_eq] at mem
    simpa using (List.mem_filter.mp mem).2
  have through : (Action.tick env : Action P).isPass w.recorder = true →
      ∀ fut ∈ (passed cfg (.tick env) w.recorder).pending, fut.result = none := by
    intro pass
    have effect : PassEffect (collect w.recorder) (passed cfg (.tick env) w.recorder) :=
      passed_effect (a := .tick env) pass
    generalize passed cfg (.tick env) w.recorder = out at effect
    cases effect with
    | live same =>
        rw [same.pending]
        exact started
    | aborted reason same =>
        rw [abort_pending, same.pending]
        exact started
  cases stepped with
  | collected => exact started
  | aborted _ pass => exact through pass
  | continued env recording =>
      show ∀ fut ∈ (publish (passed cfg (.tick env) w.recorder)).pending, fut.result = none
      rw [publish_pending]
      exact through (isPass_tick env recording)
  | silent env recording =>
      show ∀ fut ∈ (abort _ (publish (passed cfg (.tick env) w.recorder))).pending, fut.result = none
      rw [abort_pending, publish_pending]
      exact through (isPass_tick env recording)
  | submitted _ pass =>
      intro fut mem
      dsimp only at mem
      rw [submitFinalize_pending, settle_pending] at mem
      rcases List.mem_append.mp mem with old | new
      · exact through pass fut old
      · rw [List.mem_singleton.mp new]

/-- **The lifecycle of every episode**: the captures, the jobs and the rung ids are
accounted for in every reachable state, the recorder is idle exactly when it has no
capture id, and every action treats the capture being recorded as it should. -/
theorem episode_lifecycle (reach : Traced.Reach libs cfg t) :
    Lived t.world.recorder ∧ JobsRung libs cfg t.world.recorder ∧
      (t.world.recorder.state = .idle ↔ t.world.recorder.cap.captureId = "") ∧
      ∀ a t', Traced.step libs cfg t a = .ok t' →
        Turn cfg t.world.recorder a t'.world.recorder ∧
          (∀ env, a = .tick env → ∀ fut ∈ t'.world.recorder.pending, fut.result = none) := by
  have lived := reach_lived reach
  refine ⟨lived, reach_jobsRung reach, ⟨lived.empty, fun empty => ?_⟩, fun a t' step => ?_⟩
  · by_contra busy
    have recording : t.world.recorder.state = .recording := by
      cases state : t.world.recorder.state with
      | idle => exact absurd state busy
      | recording => rfl
    obtain ⟨snap, t0, -, mem⟩ := lived.opened recording
    exact lived.named _ (List.mem_filterMap.mpr ⟨_, mem, rfl⟩) empty
  · obtain ⟨isFresh, stepped, -⟩ := traced_step_cases step
    refine ⟨turn_of_stepped isFresh stepped, ?_⟩
    rintro env rfl
    exact tick_collects stepped

end Turns

namespace Demo

theorem reach_collected : Traced.Reach libs rig (after (recorded ++ [tickNow])) :=
  reach_after (by decide +kernel)

end Demo

theorem episode_lifecycle_collected :
    (Demo.after (Demo.recorded ++ [Demo.tickNow])).world.recorder.episode = [epCaptured] ∧
      Lived (Demo.after (Demo.recorded ++ [Demo.tickNow])).world.recorder ∧
      JobsRung Demo.libs Demo.rig (Demo.after (Demo.recorded ++ [Demo.tickNow])).world.recorder :=
  have lifecycle := episode_lifecycle Demo.reach_collected
  ⟨by decide +kernel, lifecycle.1, lifecycle.2.1⟩

end KoyuRuntime.Services.DataRecorder
