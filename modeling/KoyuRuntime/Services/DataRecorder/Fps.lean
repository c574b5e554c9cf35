/-
# Services.DataRecorder.Fps — when the measured rate is defined

`finalize` measures `(n - 1) / (last - first)` over the stamps of its rows.  The
backwards check lets a frame through whose stamp equals the last one, and at the
native rate `gate` keeps it, so a camera frame stamped like its predecessor makes a
second row under one stamp; a recording of just those two rows fails to finalize.

* `rising_frame_iff` — one frame: the stamps still rise strictly unless it repeats
  the last row's.
* `fps_defined_iff` — along a run the rows of every capture rise strictly exactly if
  no frame repeats a row, and then so do the rows of every job and its rate is defined.
-/
import KoyuRuntime.Services.DataRecorder.RateLaw
import KoyuRuntime.Services.DataRecorder.RowCap

namespace KoyuRuntime.Services.DataRecorder

open Host Theory Ipc

set_option autoImplicit false

variable {P V : Type}

/-- Rows whose stamps strictly increase. -/
def Rising (rows : List (Row V)) : Prop := rows.Pairwise fun row later => row.1 < later.1

/-- A frame that is about to become a row, at the native rate, under the stamp the
last row has. -/
structure Repeats (cfg : Config P V) (f : Sample P) (c : Capture P V) : Prop where
  native : c.periodNs ≤ 0
  held : answered cfg c f.frameId = true
  order : InOrder f c
  windows : WindowsFresh cfg c f.stamp
  last : ∃ row, c.rows.getLast? = some row ∧ row.1 = f.stamp

/-- At every loop head of the pass the rows rise strictly. -/
def RowsRise (cfg : Config P V) : Traced P V → Action P → Prop :=
  AtHeads cfg fun _ r => Rising r.cap.rows

/-- No frame of the pass repeats a row. -/
def NoRepeat (cfg : Config P V) : Traced P V → Action P → Prop :=
  AtHeads cfg fun q r => ∀ f rest, q = f :: rest → ¬ Repeats cfg f r.cap

/-- Every job handed over has rows that rise strictly, and a measured rate. -/
def JobsTimed (t : Traced P V) : Prop :=
  ∀ job ∈ submissions t.world.recorder.journal, Rising job.rows ∧
    ∃ fps, measuredFps (job.rows.map Prod.fst) job.recHz = .ok fps

/-- Strictly rising rows have a measured rate: two of them span some time. -/
theorem measuredFps_of_rising {rows : List (Row V)} (rising : Rising rows) (recordHz : Double) :
    ∃ fps, measuredFps (rows.map Prod.fst) recordHz = .ok fps := by
  have stamps : (rows.map Prod.fst).Pairwise (· < ·) := List.pairwise_map.mpr rising
  generalize rows.map Prod.fst = ts at stamps
  cases ts with
  | nil => exact ⟨_, rfl⟩
  | cons first rest =>
      cases rest with
      | nil => exact ⟨_, rfl⟩
      | cons second rest =>
          have last : (second :: rest).getLast (by simp) ∈ second :: rest := List.getLast_mem _
          have later := (List.pairwise_cons.mp stamps).1 _ last
          have span : (((first :: second :: rest).getLast?.getD first - first : Int) : ℚ) /
              1000000000 ≠ 0 := by
            rw [List.getLast?_cons_cons, List.getLast?_eq_some_getLast (by simp), Option.getD_some]
            have apart : (second :: rest).getLast (by simp) - first ≠ 0 := by omega
            exact div_ne_zero (Int.cast_ne_zero.mpr apart) (by norm_num)
          unfold measuredFps
          simp only [span, if_false]
          exact ⟨_, rfl⟩

/-! ## One frame -/

section Frame

variable {cfg : Config P V} {delivered : List (String × Sample P)} {frames : List (Sample P)}

/-- No row is stamped after the last accepted frame. -/
theorem Tracks.rows_le {c : Capture P V} {consumed skipped kept : List (Sample P)}
    (tracks : Tracks cfg delivered frames c consumed skipped kept) :
    ∀ row ∈ c.rows, row.1 ≤ c.lastTs := by
  intro row mem
  obtain ⟨f, inKept, made⟩ := frame_of_row tracks.rows mem
  obtain ⟨_, rfl, -⟩ := made
  exact tracks.bound f (tracks.kept_sublist.subset inKept)

/-- At a decimated rate the rows rise strictly by the rate law. -/
theorem Tracks.rising {c : Capture P V} {consumed skipped kept : List (Sample P)}
    (tracks : Tracks cfg delivered frames c consumed skipped kept) (positive : 0 < c.periodNs) :
    Rising c.rows := by
  unfold Rising
  rw [← List.pairwise_map (f := Prod.fst) (R := fun s t => s < t), List.pairwise_iff_getElem]
  intro i j inside_i inside_j before
  have apart := tracks.rows_spread positive (i := i) (k := j - i) (by omega)
    (List.getElem?_eq_getElem inside_i)
    (by rw [Nat.add_sub_cancel' before.le]; exact List.getElem?_eq_getElem inside_j)
  have nonneg : (0 : Int) ≤ (((j - i : Nat) : Int) - 1) * c.periodNs :=
    Int.mul_nonneg (by omega) positive.le
  omega

/-- One more row keeps the rows rising unless it carries the last one's stamp. -/
theorem rising_snoc_iff {rows : List (Row V)} {row : Row V} (rising : Rising rows)
    (bound : ∀ earlier ∈ rows, earlier.1 ≤ row.1) :
    Rising (rows ++ [row]) ↔ ¬ ∃ last, rows.getLast? = some last ∧ last.1 = row.1 := by
  unfold Rising
  rw [List.pairwise_append]
  constructor
  · rintro ⟨-, -, across⟩ ⟨last, read, same⟩
    have := across last (List.mem_of_getLast? read) row List.mem_cons_self
    omega
  · intro apart
    refine ⟨rising, List.pairwise_singleton _ _, ?_⟩
    intro earlier mem later single
    cases List.mem_singleton.mp single
    rcases List.eq_nil_or_concat' rows with rfl | ⟨init, last, rfl⟩
    · cases mem
    · -- the last row is below the new one, and every other row below the last
      have below : last.1 < row.1 := by
        have at_most := bound last (by simp)
        have other : last.1 ≠ row.1 := fun same => apart ⟨last, List.getLast?_concat, same⟩
        omega
      rcases List.mem_append.mp mem with inside | single
      · have ordered := (List.pairwise_append.mp rising).2.2 earlier inside last List.mem_cons_self
        omega
      · rw [List.mem_singleton.mp single]
        exact below

variable {f : Sample P} {rest : List (Sample P)} {r : Recorder P V}

/-- A frame that repeats a row becomes one. -/
theorem Repeats.lands (repeats : Repeats cfg f r.cap) : frame cfg f r = (true, land cfg f r) := by
  have keep : (gate f.stamp r.cap.nextDue r.cap.periodNs).1 = true := by
    simp [gate, repeats.native]
  exact (FrameStep.landed repeats.held repeats.order keep repeats.windows).eq

/-- **One frame**: strictly rising rows stay so exactly if the frame repeats none. -/
theorem rising_frame_iff (caps : CapSourced delivered r.cap)
    (tracked : Tracked cfg delivered frames r.cap) (queue : r.cap.deferred = f :: rest)
    (recording : r.state = .recording) (rising : Rising r.cap.rows) :
    Rising (frame cfg f r).2.cap.rows ↔ ¬ Repeats cfg f r.cap := by
  obtain ⟨consumed, skipped, kept, tracks⟩ := tracked
  by_cases repeats : Repeats cfg f r.cap
  · refine iff_of_false ?_ (not_not.mpr repeats)
    rw [repeats.lands]
    have bound : ∀ row ∈ r.cap.rows, row.1 ≤ f.stamp :=
      fun row mem => (tracks.rows_le row mem).trans repeats.order.2
    exact fun rises => (rising_snoc_iff rising bound).mp rises repeats.last
  · refine iff_of_true ?_ repeats
    have step := frame_step cfg f r
    have next : (frame cfg f r).1 = true → (frame cfg f r).2.state = .recording → _ :=
      fun taken alive => tracks_frame caps tracks queue taken alive
    generalize frame cfg f r = out at step next ⊢
    cases step with
    | wait => exact rising
    | fenced => exact rising
    | backwards => exact .nil
    | gated => exact rising
    | drifted => exact .nil
    | leading => exact rising
    | landed held order keep windows =>
        by_cases native : r.cap.periodNs ≤ 0
        · have bound : ∀ row ∈ r.cap.rows, row.1 ≤ f.stamp :=
            fun row mem => (tracks.rows_le row mem).trans order.2
          exact (rising_snoc_iff rising bound).mpr fun last =>
            repeats ⟨native, held, order, windows, last⟩
        · obtain ⟨skipped', kept', after⟩ := next rfl recording
          exact after.rising (not_le.mp native)

end Frame

/-! ## Runs -/

section Run

variable {libs : Libs V} {cfg : Config P V} {t : Traced P V} {a : Action P}

/-- At one action of a run the rows rise at every head exactly if no frame repeats one. -/
theorem rowsRise_iff (reach : Traced.Reach libs cfg t)
    (before : t.world.recorder.state = .recording → Rising t.world.recorder.cap.rows) :
    RowsRise cfg t a ↔ NoRepeat cfg t a := by
  have followed := reach_tracked reach
  have at_head (pass : a.isPass t.world.recorder = true) {done rest : List (Sample P)} {f : Sample P}
      {r : Recorder P V} (head : AtFrame cfg
        (arrive cfg a.passMono (a.passStart t.world.recorder)) done (f :: rest) r)
      (rising : Rising r.cap.rows) : Rising (frame cfg f r).2.cap.rows ↔ ¬ Repeats cfg f r.cap := by
    obtain ⟨caps, tracked⟩ := followed.head_tracks pass head
    exact rising_frame_iff caps tracked head.queue (head.live (arrive_recording cfg pass)) rising
  constructor
  · rintro rise pass done _ r head f rest rfl repeats
    have live := head.live (arrive_recording cfg pass)
    have landed := repeats.lands
    have after := rise pass _ _ _
      (head.next (by rw [landed]) (by rw [landed]; exact live))
    exact (at_head pass head (rise pass _ _ _ head)).mp after repeats
  · intro unrepeated pass done q r head
    induction head with
    | start =>
        rw [arrive_rows, passStart_cap]
        exact before (isPass_recording pass)
    | next head _ _ ih => exact (at_head pass head ih).mpr (unrepeated pass _ _ _ head _ _ rfl)

/-- The rows of the running capture and of every job, in a state of a run. -/
structure WellTimed (libs : Libs V) (cfg : Config P V) (t : Traced P V) : Prop where
  reach : Traced.Reach libs cfg t
  running : t.world.recorder.state = .recording → Rising t.world.recorder.cap.rows
  jobs : JobsTimed t

theorem WellTimed.next {t' : Traced P V} (timed : WellTimed libs cfg t) (unrepeated : NoRepeat cfg t a)
    (step : Traced.step libs cfg t a = .ok t') : WellTimed libs cfg t' := by
  have rise := (rowsRise_iff timed.reach timed.running).mpr unrepeated
  have moved := traced_step_world step
  refine ⟨timed.reach.next step, state_of_heads Rising .nil timed.running rise moved, ?_⟩
  intro job mem
  rcases jobs_of_heads Rising rise moved mem with old | rising
  · exact timed.jobs job old
  · exact ⟨rising, measuredFps_of_rising rising job.recHz⟩

theorem wellTimed_init (initial : t.Init cfg) : WellTimed libs cfg t where
  reach := .start initial
  running going := by
    rw [initial.1.state] at going
    cases going
  jobs job mem := by
    rw [initial.1.journal] at mem
    cases mem

/-- **The measured rate**: along a run the rows of the capture rise strictly wherever a
pass stands exactly if no frame of the run repeats a row; then the rows of every job
handed over do, and its measured rate is defined. -/
theorem fps_defined_iff {t' : Traced P V} {actions : List (Action P)} (initial : t.Init cfg)
    (run : runs (Traced.step libs cfg) t actions = .ok t') :
    (Along (Traced.step libs cfg) (RowsRise cfg) t actions ↔
      Along (Traced.step libs cfg) (NoRepeat cfg) t actions) ∧
    (Along (Traced.step libs cfg) (NoRepeat cfg) t actions →
      (t'.world.recorder.state = .recording → Rising t'.world.recorder.cap.rows) ∧ JobsTimed t') := by
  have start : WellTimed libs cfg t := wellTimed_init initial
  constructor
  · refine along_iff_of_kept ?_ ?_ start actions
    · exact fun s a timed => rowsRise_iff timed.reach timed.running
    · exact fun s a s' timed unrepeated step => timed.next unrepeated step
  · intro along
    have parted : (Along (Traced.step libs cfg) (NoRepeat cfg) t actions → WellTimed libs cfg t') ∧
        (¬ Along (Traced.step libs cfg) (NoRepeat cfg) t actions → True) :=
      runs_parted (fun s a s' timed step =>
        ⟨fun unrepeated => timed.next unrepeated step, fun _ => trivial⟩)
        (fun _ _ _ _ _ => trivial) run start
    have timed := parted.1 along
    exact ⟨timed.running, timed.jobs⟩

/-- Two frames, the second stamped `stamp`, captured, handed over and finalized, and the
result collected. -/
def Demo.pairStamped (stamp : Int) : List (Action Nat) :=
  [Demo.startAt 1000, .deliver "joint/state" ⟨1500, 1, 7⟩, .deliver "cam/front" ⟨2000, 5, 50⟩,
    .deliver "act/cmd" ⟨2100, 5, 55⟩, .deliver "cam/front" ⟨stamp, 6, 60⟩,
    .deliver "act/cmd" ⟨2200, 6, 65⟩, Demo.stopNow, .finish Demo.quietCall, Demo.tickNow]

theorem fps_defined_iff_pairStamped :
    (submissions (Demo.after (Demo.pairStamped 3000)).world.recorder.journal).map
        (fun job => job.rows.map Prod.fst) = [[2000, 3000]] ∧
      (Along (Traced.step Demo.libs Demo.rig) (RowsRise Demo.rig) Demo.boot (Demo.pairStamped 3000) ↔
        Along (Traced.step Demo.libs Demo.rig) (NoRepeat Demo.rig) Demo.boot
          (Demo.pairStamped 3000)) :=
  ⟨by decide +kernel, (fps_defined_iff Demo.boot_init (runs_of_accepts (by decide +kernel))).1⟩

/-- The second frame is stamped like the first: the division by zero fails the job. -/
theorem fps_undefined_pairStamped :
    Traced.Reach Demo.libs Demo.rig (Demo.after (Demo.pairStamped 2000)) ∧
      (Demo.after (Demo.pairStamped 2000)).world.recorder.episode = [epFailed] ∧
      ¬ JobsTimed (Demo.after (Demo.pairStamped 2000)) := by
  refine ⟨Demo.reach_after (by decide +kernel), by decide +kernel, ?_⟩
  intro timed
  have stamps : (submissions (Demo.after (Demo.pairStamped 2000)).world.recorder.journal).map
      (fun job => job.rows.map Prod.fst) = [[2000, 2000]] := by decide +kernel
  obtain ⟨job, mem, same⟩ : ∃ job ∈ submissions
      (Demo.after (Demo.pairStamped 2000)).world.recorder.journal, job.rows.map Prod.fst = [2000, 2000] := by
    have listed : [2000, 2000] ∈ (submissions
        (Demo.after (Demo.pairStamped 2000)).world.recorder.journal).map
          (fun job => job.rows.map Prod.fst) := by rw [stamps]; exact List.mem_singleton_self _
    exact List.mem_map.mp listed
  have undefined_ : measuredFps [2000, 2000] job.recHz = .error .zeroDivisionError := by
    simp [measuredFps]
  obtain ⟨-, fps, measured⟩ := timed job mem
  rw [same, undefined_] at measured
  cases measured

end Run

end KoyuRuntime.Services.DataRecorder
