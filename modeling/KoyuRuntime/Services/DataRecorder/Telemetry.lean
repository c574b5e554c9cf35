/-
# Services.DataRecorder.Telemetry — what the telemetry cell shows

`_telemetry` notes what it is about to publish before it writes, and never looks at the
outcome.  So a write that fails is not repeated: the cell stays behind until the state
changes again.

* `Telemetered`: what one action does to the port, in terms of the state it leaves.
* `Sound`: the cell has the id of a past attempt, and of the last one only if it holds
  what was noted last.
* `Reported`: while recording, the cell shows the current row count only if the last
  attempt got through (capture ids are fresh and row counts grow).
* `quiet_ticks_iff`: after two ticks in which nothing changed the cell shows the state
  exactly if the last write attempted before the second succeeded.
-/
import KoyuRuntime.Services.DataRecorder.Lifecycle
import KoyuRuntime.Services.FrameIds

namespace KoyuRuntime.Services.DataRecorder

open Host Theory Ipc FrameIds

set_option autoImplicit false

/-! ## The port -/

/-- What the cell says, its id apart. -/
def RecorderTelemetry.now (cell : RecorderTelemetry) : Nat × Nat × String :=
  (cell.state, cell.frames, cell.captureId)

namespace TelemetryPort

/-- The port after `setup`: the writer has put a zeroed struct into the cell. -/
def boot (outcomes : List Bool) : TelemetryPort := ⟨0, none, ⟨0, 0, 0, ""⟩, outcomes⟩

def cell (port : TelemetryPort) : RecorderTelemetry := port.writer.cell

/-- Did the last write attempted get through?  The cell then has its id. -/
def Delivered (port : TelemetryPort) : Prop := port.cell.frameId = port.fid

instance (port : TelemetryPort) : Decidable port.Delivered :=
  inferInstanceAs (Decidable (port.cell.frameId = port.fid))

variable {port : TelemetryPort} {now : Nat × Nat × String}

theorem publish_of_last (last : port.last = some now) : port.publish now = port := by
  rw [publish, if_pos last]

theorem publish_of_change (change : port.last ≠ some now) :
    (port.publish now).fid = port.fid + 1 ∧ (port.publish now).last = some now ∧
      ((port.publish now).cell = ⟨port.fid + 1, now.1, now.2.1, now.2.2⟩ ∨
        (port.publish now).cell = port.cell) := by
  rw [publish, if_neg change]
  refine ⟨rfl, rfl, ?_⟩
  obtain ⟨fid, last, before, outcomes⟩ := port
  cases outcomes with
  | nil => exact .inl rfl
  | cons outcome rest =>
      cases outcome with
      | true => exact .inl rfl
      | false => exact .inr rfl

@[simp] theorem publish_last : (port.publish now).last = some now := by
  by_cases last : port.last = some now
  · rw [publish_of_last last, last]
  · exact (publish_of_change last).2.1

/-- The cell has the id of an attempt; the last attempt's only with what was noted last. -/
structure Sound (port : TelemetryPort) : Prop where
  le : port.cell.frameId ≤ port.fid
  latest : port.Delivered → port.last = none ∨ port.last = some port.cell.now

theorem sound_boot (outcomes : List Bool) : (boot outcomes).Sound := ⟨Nat.le_refl 0, fun _ => .inl rfl⟩

theorem Sound.publish (sound : port.Sound) (now : Nat × Nat × String) : (port.publish now).Sound := by
  by_cases last : port.last = some now
  · rwa [publish_of_last last]
  · obtain ⟨fid, noted, shown⟩ := publish_of_change last
    have le := sound.le
    rcases shown with shown | shown
    · exact ⟨by rw [shown, fid], fun _ => .inr (by rw [noted, shown]; rfl)⟩
    · refine ⟨by rw [shown, fid]; omega, fun delivered => ?_⟩
      rw [Delivered, shown, fid] at delivered
      omega

/-- A publish that changes the cell gives it an id above every earlier one. -/
theorem publish_rises (port : TelemetryPort) (now : Nat × Nat × String) :
    port.fid ≤ (port.publish now).fid ∧
      ((port.publish now).cell = port.cell ∨ port.fid < (port.publish now).cell.frameId) := by
  by_cases last : port.last = some now
  · rw [publish_of_last last]
    exact ⟨Nat.le_refl _, .inl rfl⟩
  · obtain ⟨fid, -, shown⟩ := publish_of_change last
    refine ⟨by omega, ?_⟩
    rcases shown with shown | shown
    · exact .inr (by rw [shown]; exact Nat.lt_succ_self _)
    · exact .inl shown

end TelemetryPort

/-! ## What an action does to the port -/

variable {P V : Type}

/-- What `_telemetry` publishes: state, row count and capture id. -/
def current (r : Recorder P V) : Nat × Nat × String :=
  (if r.state = .recording then 1 else 0, r.cap.rows.length, r.cap.captureId)

theorem publish_telemetry (r : Recorder P V) :
    (publish r).telemetry = r.telemetry.publish (current r) := rfl

theorem current_publish (r : Recorder P V) : current (publish r) = current r := rfl

theorem recording_iff_current {r : Recorder P V} : r.state = .recording ↔ (current r).1 = 1 := by
  unfold current
  cases r.state <;> simp

/-- An action leaves port and state alone, or publishes the state it leaves; one that
ends a recording may publish another one first. -/
inductive Telemetered (r r' : Recorder P V) : Prop where
  | still (port : r'.telemetry = r.telemetry) (same : current r' = current r)
  | once (port : r'.telemetry = r.telemetry.publish (current r'))
  | twice (mid : Nat × Nat × String) (ended : r.state = .recording)
      (named : mid.2.2 = r.cap.captureId) (idle : r'.state = .idle)
      (port : r'.telemetry = (r.telemetry.publish mid).publish (current r'))

section Actions

variable {libs : Libs V} {cfg : Config P V} {w w' : World P V} {a : Action P}

@[simp] theorem passStart_telemetry (a : Action P) (r : Recorder P V) :
    (a.passStart r).telemetry = r.telemetry := by
  cases a with
  | tick env => simp [Action.passStart, collect_eq]
  | _ => rfl

theorem abort_telemetry (reason : AbortReason) (r : Recorder P V) :
    (abort reason r).telemetry = r.telemetry.publish (current (abort reason r)) := rfl

theorem submitFinalize_telemetry (r : Recorder P V) :
    (submitFinalize r).telemetry = r.telemetry.publish (current (submitFinalize r)) := rfl

/-- A pass that goes on leaves the port alone. -/
theorem passed_telemetry (pass : a.isPass w.recorder = true)
    (alive : (passed cfg a w.recorder).state = .recording) :
    (passed cfg a w.recorder).telemetry = w.recorder.telemetry := by
  rw [(passed_same pass alive).telemetry, passStart_telemetry]

theorem telemetered_of_stepped (stepped : Stepped libs cfg w a w') :
    Telemetered w.recorder w'.recorder := by
  cases stepped with
  | delivered topic sample => exact .still (by rw [deliver_eq]) (by rw [deliver_eq]; rfl)
  | filed => exact .still rfl rfl
  | ignored => exact .still rfl rfl
  | opened => exact .once rfl
  | discarded => exact .once rfl
  | collected => exact .still (by simp [collect_eq]) (by simp [collect_eq, current])
  | aborted _ pass dead =>
      obtain ⟨mid, reason, same, eq⟩ := passed_dead pass dead
      refine .once ?_
      show (passed cfg a w.recorder).telemetry = _
      rw [eq, abort_telemetry, same.telemetry, passStart_telemetry]
  | continued env recording alive =>
      have pass := isPass_tick env recording
      refine .once ?_
      rw [publish_telemetry, passed_telemetry pass alive]
      rfl
  | silent env recording alive =>
      have pass := isPass_tick env recording
      refine .twice (current (passed cfg (.tick env) w.recorder)) recording ?_ rfl ?_
      · show (passed cfg (.tick env) w.recorder).cap.captureId = _
        rw [(passed_same pass alive).captureId, passStart_cap]
      · rw [abort_telemetry, publish_telemetry, passed_telemetry pass alive]
  | submitted _ pass alive =>
      have same := passed_telemetry pass alive
      cases a with
      | tick env =>
          refine .twice (current (passed cfg (.tick env) w.recorder)) (isPass_recording pass) ?_ rfl ?_
          · show (passed cfg (.tick env) w.recorder).cap.captureId = _
            rw [(passed_same pass alive).captureId, passStart_cap]
          · rw [submitFinalize_telemetry]
            show ((passed cfg (.tick env) w.recorder).telemetry.publish _).publish _ = _
            rw [same]
            rfl
      | _ =>
          refine .once ?_
          rw [submitFinalize_telemetry]
          show (passed cfg _ w.recorder).telemetry.publish _ = _
          rw [same]
  | waited => exact .still rfl rfl
  | finished => exact .still rfl rfl

/-- A tick that leaves the recorder recording has noted the state it leaves. -/
theorem tick_noted {env : TickReadings} (stepped : Stepped libs cfg w (.tick env) w')
    (recording : w'.recorder.state = .recording) :
    w'.recorder.telemetry.last = some (current w'.recorder) := by
  cases stepped with
  | collected _ idle =>
      have := (collect_state w.recorder).symm.trans recording
      rw [idle] at this
      cases this
  | aborted _ _ dead =>
      have : State.idle = State.recording := dead.symm.trans recording
      cases this
  | continued => rw [publish_telemetry, TelemetryPort.publish_last, current_publish]
  | silent => cases recording
  | submitted => cases recording

end Actions

/-! ## Runs -/

/-- Just after `setup`, with the writes of the cell that are going to fail. -/
def Traced.Started (cfg : Config P V) (t : Traced P V) : Prop :=
  t.Init cfg ∧ ∃ outcomes, t.world.recorder.telemetry = .boot outcomes

/-- A state of no capture, or of one the journal has opened. -/
def Known (journal : List (Entry V)) (now : Nat × Nat × String) : Prop :=
  now.2.2 = "" ∨ now.2.2 ∈ openings journal

/-- The port of a reachable recorder. -/
structure Reported (r : Recorder P V) : Prop where
  sound : r.telemetry.Sound
  shown : Known r.journal r.telemetry.cell.now
  noted : ∀ now, r.telemetry.last = some now → Known r.journal now
  /-- The rows noted last are no more than there are, and what the cell shows of this
  capture is either that or less. -/
  behind : r.state = .recording → ∃ rows ≤ r.cap.rows.length,
    r.telemetry.last = some (1, rows, r.cap.captureId) ∧
      (r.telemetry.cell.captureId = r.cap.captureId → r.telemetry.cell.frames ≤ rows ∧
        (r.telemetry.cell.frames = rows → r.telemetry.Delivered))

section Runs

variable {libs : Libs V} {cfg : Config P V} {t t' : Traced P V} {a : Action P}

theorem Known.grow {journal more : List (Entry V)} {now : Nat × Nat × String}
    (known : Known journal now) : Known (journal ++ more) now := by
  rcases known with empty | mem
  · exact .inl empty
  · exact .inr (by rw [openings_append]; exact List.mem_append_left _ mem)

theorem known_current {r : Recorder P V} (lived : Lived r) : Known r.journal (current r) := by
  by_cases recording : r.state = .recording
  · obtain ⟨snap, t0, -, mem⟩ := lived.opened recording
    exact .inr (List.mem_filterMap.mpr ⟨_, mem, rfl⟩)
  · exact .inl (lived.empty (state_idle_of_ne recording))

/-- What is known of the cell and of what was noted stays known over a publish. -/
theorem known_publish {journal : List (Entry V)} {port : TelemetryPort} {now : Nat × Nat × String}
    (shown : Known journal port.cell.now) (known : Known journal now) :
    Known journal (port.publish now).cell.now ∧
      ∀ x, (port.publish now).last = some x → Known journal x := by
  refine ⟨?_, fun x last => ?_⟩
  · by_cases last : port.last = some now
    · rwa [TelemetryPort.publish_of_last last]
    · obtain ⟨-, -, new | old⟩ := TelemetryPort.publish_of_change last
      · rw [new]
        exact known
      · rwa [old]
  · rw [TelemetryPort.publish_last] at last
    cases last
    exact known

/-- Every action only adds to the journal. -/
theorem Turn.grows {r r' : Recorder P V} (turn : Turn cfg r a r') :
    ∃ more, r'.journal = r.journal ++ more := by
  cases turn with
  | opened _ _ _ _ _ _ journal => exact ⟨_, journal⟩
  | kept late _ _ journal => exact ⟨late, journal⟩
  | resolved late entry _ journal => exact ⟨late ++ [entry], by rw [journal, List.append_assoc]⟩

/-- A publish of the recording's next state keeps the port behind it. -/
theorem behind_publish {port : TelemetryPort} {rows rows' : Nat} {id : String}
    (last : port.last = some (1, rows, id)) (le : rows ≤ rows')
    (behind : port.cell.captureId = id → port.cell.frames ≤ rows ∧
      (port.cell.frames = rows → port.Delivered)) :
    (port.publish (1, rows', id)).cell.captureId = id →
      (port.publish (1, rows', id)).cell.frames ≤ rows' ∧
        ((port.publish (1, rows', id)).cell.frames = rows' →
          (port.publish (1, rows', id)).Delivered) := by
  by_cases same : rows' = rows
  · subst same
    rwa [TelemetryPort.publish_of_last last]
  · have change : port.last ≠ some (1, rows', id) := by
      rw [last]
      simp [Ne.symm same]
    obtain ⟨fid, -, shown⟩ := TelemetryPort.publish_of_change change
    rcases shown with new | old
    · exact fun _ => ⟨by rw [new], fun _ => by rw [TelemetryPort.Delivered, new, fid]⟩
    · rw [old]
      intro here
      have fewer := (behind here).1
      exact ⟨by omega, fun full => absurd full (by omega)⟩

/-- So does the first publish of a capture that nothing before it was about. -/
theorem fresh_publish {port : TelemetryPort} {rows : Nat} {id : String}
    (noted : ∀ now, port.last = some now → now.2.2 ≠ id) (shown : port.cell.captureId ≠ id) :
    (port.publish (1, rows, id)).cell.captureId = id →
      (port.publish (1, rows, id)).cell.frames ≤ rows ∧
        ((port.publish (1, rows, id)).cell.frames = rows → (port.publish (1, rows, id)).Delivered) := by
  have change : port.last ≠ some (1, rows, id) := fun last => noted _ last rfl
  obtain ⟨fid, -, new | old⟩ := TelemetryPort.publish_of_change change
  · exact fun _ => ⟨by rw [new], fun _ => by rw [TelemetryPort.Delivered, new, fid]⟩
  · rw [old]
    exact fun same => absurd same shown

/-- **Step lemma**: the port stays behind the recorder. -/
theorem Reported.step {r r' : Recorder P V} (reported : Reported r) (lived : Lived r)
    (lived' : Lived r') (turn : Turn cfg r a r') (telemetered : Telemetered r r') : Reported r' := by
  obtain ⟨more, journal⟩ := turn.grows
  have shown : Known r'.journal r.telemetry.cell.now := journal ▸ reported.shown.grow
  have noted : ∀ now, r.telemetry.last = some now → Known r'.journal now :=
    fun now last => journal ▸ (reported.noted now last).grow
  have now' := known_current lived'
  cases telemetered with
  | still port same =>
      refine ⟨by rw [port]; exact reported.sound, by rw [port]; exact shown, by rwa [port], ?_⟩
      intro recording
      have before : r.state = .recording := by
        rw [recording_iff_current, ← same, ← recording_iff_current]
        exact recording
      obtain ⟨rows, le, last, behind⟩ := reported.behind before
      simp only [current, Prod.mk.injEq] at same
      rw [port, same.2.1, same.2.2]
      exact ⟨rows, le, last, behind⟩
  | twice mid ended named idle port =>
      have known : Known r'.journal mid := by
        have opened := known_current lived
        rw [journal]
        refine Known.grow ?_
        rw [Known, named]
        exact opened
      have first := known_publish shown known
      have second := known_publish first.1 now'
      refine ⟨?_, by rw [port]; exact second.1, by rw [port]; exact second.2, ?_⟩
      · rw [port]
        exact (reported.sound.publish mid).publish _
      · intro recording
        rw [idle] at recording
        cases recording
  | once port =>
      have first := known_publish shown now'
      refine ⟨?_, by rw [port]; exact first.1, by rw [port]; exact first.2, ?_⟩
      · rw [port]
        exact reported.sound.publish _
      intro recording
      have here : current r' = (1, r'.cap.rows.length, r'.cap.captureId) := by
        simp only [current, recording, if_true]
      refine ⟨r'.cap.rows.length, Nat.le_refl _, by rw [port, TelemetryPort.publish_last, here], ?_⟩
      rw [port, here]
      cases turn with
      | resolved _ _ _ _ _ idle =>
          rw [idle] at recording
          cases recording
      | kept _ _ _ _ state captureId _ _ rows =>
          obtain ⟨n, le, last, behind⟩ := reported.behind (state ▸ recording)
          rw [captureId]
          exact behind_publish last (le.trans rows.length_le) behind
      | opened env _ _ _ _ unused opens captureId =>
          -- a fresh capture: neither the cell nor what was noted is about it
          have mem : env.captureId.hex ∈ openings r'.journal := by
            rw [opens, openings_append]
            exact List.mem_append_right _ (List.mem_singleton.mpr rfl)
          have foreign : ∀ now : Nat × Nat × String, Known r.journal now → now.2.2 ≠ env.captureId.hex := by
            rintro now (empty | known) same
            · exact lived'.named _ mem (same ▸ empty)
            · exact unused (same ▸ known)
          rw [captureId]
          exact fresh_publish (fun now last => foreign now (reported.noted now last))
            (foreign _ reported.shown)

theorem Traced.Started.reported (started : Traced.Started cfg t) : Reported t.world.recorder := by
  obtain ⟨init, outcomes, port⟩ := started
  refine ⟨by rw [port]; exact TelemetryPort.sound_boot outcomes, by rw [port]; exact .inl rfl, ?_, ?_⟩
  · intro now last
    rw [port] at last
    cases last
  · intro recording
    rw [init.1.state] at recording
    cases recording

theorem reported_of_reachable (reach : Reachable (Traced.step libs cfg) (Traced.Started cfg) t) :
    Reported t.world.recorder := by
  refine reach.invariant_within (fun _ started => started.1) (fun _ started => started.reported) ?_
  intro s a s' reach reported stepped
  obtain ⟨isFresh, cases_, -⟩ := traced_step_cases stepped
  exact reported.step (reach_lived reach) (reach_lived (reach.next stepped))
    (turn_of_stepped isFresh cases_) (telemetered_of_stepped cases_)

/-! ## Quiet ticks -/

/-- The cell shows the recorder's state. -/
def ShowsCurrent (r : Recorder P V) : Prop := r.telemetry.cell.now = current r

instance (r : Recorder P V) : Decidable (ShowsCurrent r) :=
  inferInstanceAs (Decidable (r.telemetry.cell.now = current r))

/-- An accepted action that leaves state, row count and capture id as they are. -/
def Unchanged (libs : Libs V) (cfg : Config P V) (t : Traced P V) (a : Action P) : Prop :=
  ∀ t', Traced.step libs cfg t a = .ok t' → current t'.world.recorder = current t.world.recorder

/-- Two ticks of a recording recorder, and what happens in between, in all of which the
state stays the same: before the first, after it, before the second and after it. -/
structure QuietTicks (libs : Libs V) (cfg : Config P V) (t t₁ t₂ t' : Traced P V) : Prop where
  first : ∃ env, Traced.step libs cfg t (.tick env) = .ok t₁ ∧ Unchanged libs cfg t (.tick env)
  between : ∃ actions, runs (Traced.step libs cfg) t₁ actions = .ok t₂ ∧
    Along (Traced.step libs cfg) (Unchanged libs cfg) t₁ actions
  second : ∃ env, Traced.step libs cfg t₂ (.tick env) = .ok t' ∧ Unchanged libs cfg t₂ (.tick env)
  recording : t.world.recorder.state = .recording

/-- The state the recorder is in has been noted. -/
def Noted (r : Recorder P V) : Prop :=
  r.state = .recording ∧ r.telemetry.last = some (current r)

/-- Once the state is noted, an action that does not change it leaves the port alone. -/
theorem noted_step (noted : Noted t.world.recorder) (stepped : Traced.step libs cfg t a = .ok t')
    (unchanged : Unchanged libs cfg t a) :
    Noted t'.world.recorder ∧ t'.world.recorder.telemetry = t.world.recorder.telemetry ∧
      current t'.world.recorder = current t.world.recorder := by
  have same := unchanged t' stepped
  have recording : t'.world.recorder.state = .recording := by
    rw [recording_iff_current, same, ← recording_iff_current]
    exact noted.1
  have port : t'.world.recorder.telemetry = t.world.recorder.telemetry := by
    cases telemetered_of_stepped (traced_step_cases stepped).2.1 with
    | still port => exact port
    | once port => rw [port, same, TelemetryPort.publish_of_last noted.2]
    | twice _ _ _ idle =>
        rw [idle] at recording
        cases recording
  exact ⟨⟨recording, by rw [port, same]; exact noted.2⟩, port, same⟩

theorem noted_run {actions : List (Action P)} (noted : Noted t.world.recorder)
    (run : runs (Traced.step libs cfg) t actions = .ok t')
    (along : Along (Traced.step libs cfg) (Unchanged libs cfg) t actions) :
    Noted t'.world.recorder ∧ t'.world.recorder.telemetry = t.world.recorder.telemetry ∧
      current t'.world.recorder = current t.world.recorder := by
  induction actions generalizing t with
  | nil =>
      cases run
      exact ⟨noted, rfl, rfl⟩
  | cons a rest ih =>
      obtain ⟨mid, first, later⟩ := runs_cons_ok.mp run
      obtain ⟨noted', port, same⟩ := noted_step noted first along.1
      obtain ⟨noted'', port', same'⟩ := ih noted' later (along.2 mid first)
      exact ⟨noted'', port'.trans port, same'.trans same⟩

/-- **Quiet ticks**: after two ticks without a change of state the cell shows the state
exactly if the last write attempted before the second got through. -/
theorem quiet_ticks_iff {t₁ t₂ : Traced P V}
    (reach : Reachable (Traced.step libs cfg) (Traced.Started cfg) t)
    (quiet : QuietTicks libs cfg t t₁ t₂ t') :
    ShowsCurrent t'.world.recorder ↔ t₂.world.recorder.telemetry.Delivered := by
  obtain ⟨env, first, unchanged⟩ := quiet.first
  have recording : t₁.world.recorder.state = .recording := by
    rw [recording_iff_current, unchanged _ first, ← recording_iff_current]
    exact quiet.recording
  have noted : Noted t₁.world.recorder :=
    ⟨recording, tick_noted (traced_step_cases first).2.1 recording⟩
  obtain ⟨actions, run, along⟩ := quiet.between
  obtain ⟨noted₂, -, -⟩ := noted_run noted run along
  obtain ⟨env', second, unchanged'⟩ := quiet.second
  obtain ⟨-, port, same⟩ := noted_step noted₂ second unchanged'
  have reported := reported_of_reachable ((reach.next first).after run)
  rw [ShowsCurrent, port, same]
  constructor
  · intro shows
    obtain ⟨rows, -, last, behind⟩ := reported.behind noted₂.1
    rw [noted₂.2] at last
    have now := shows.trans (Option.some.inj last)
    simp only [RecorderTelemetry.now, Prod.mk.injEq] at now
    exact (behind now.2.2).2 now.2.1
  · intro delivered
    rcases reported.sound.latest delivered with none_ | last
    · rw [noted₂.2] at none_
      cases none_
    · exact Option.some.inj (last.symm.trans noted₂.2)

/-- **Rising ids**: an action that changes the cell gives it a higher frame id, as long
as the counter fits the field. -/
theorem frame_id_rises (reach : Reachable (Traced.step libs cfg) (Traced.Started cfg) t)
    (stepped : Traced.step libs cfg t a = .ok t') (fits : t'.world.recorder.telemetry.fid < 2 ^ 64)
    (changed : t'.world.recorder.telemetry.cell ≠ t.world.recorder.telemetry.cell) :
    uint64 t.world.recorder.telemetry.cell.frameId <
      uint64 t'.world.recorder.telemetry.cell.frameId := by
  have sound := (reported_of_reachable reach).sound
  have sound' := (reported_of_reachable (reach.next stepped)).sound
  have le := sound.le
  have le' := sound'.le
  have rises : t.world.recorder.telemetry.fid < t'.world.recorder.telemetry.cell.frameId := by
    cases telemetered_of_stepped (traced_step_cases stepped).2.1 with
    | still port => exact absurd (by rw [port]) changed
    | once port =>
        have rises := TelemetryPort.publish_rises t.world.recorder.telemetry (current t'.world.recorder)
        rw [← port] at rises
        exact rises.2.resolve_left changed
    | twice mid _ _ _ port =>
        have first := TelemetryPort.publish_rises t.world.recorder.telemetry mid
        have second := TelemetryPort.publish_rises (t.world.recorder.telemetry.publish mid)
          (current t'.world.recorder)
        rw [← port] at second
        rcases second.2 with same | rises
        · rw [same] at changed ⊢
          exact first.2.resolve_left changed
        · omega
  unfold uint64
  rw [Nat.mod_eq_of_lt (by omega), Nat.mod_eq_of_lt (by omega)]
  omega

end Runs

namespace Demo

/-- The recorder just after `setup`, with these outcomes for its first telemetry writes. -/
def wired (outcomes : List Bool) : Traced Nat Nat :=
  { boot with world.recorder.telemetry := .boot outcomes }

theorem wired_started (outcomes : List Bool) : Traced.Started rig (wired outcomes) :=
  ⟨⟨⟨rfl, rfl, rfl, rfl, rfl, rfl⟩, rfl⟩, outcomes, rfl⟩

/-- `START`, one row, and the tick that captures it. -/
def oneRow : List (Action Nat) :=
  [startAt 1000, .deliver "cam/front" ⟨2000, 5, 50⟩, .deliver "joint/state" ⟨1500, 1, 7⟩,
    .deliver "act/cmd" ⟨2100, 5, 55⟩, tickNow]

/-- What the row and this many further ticks leave. -/
def ticked (outcomes : List Bool) (more : Nat) : Traced Nat Nat :=
  endState (Traced.step libs rig) (wired outcomes) (oneRow ++ List.replicate more tickNow)

theorem ticked_reach {outcomes : List Bool} {more : Nat}
    (accepted : accepts (Traced.step libs rig) (wired outcomes)
      (oneRow ++ List.replicate more tickNow) = true) :
    Reachable (Traced.step libs rig) (Traced.Started rig) (ticked outcomes more) :=
  Reachable.of_accepts (wired_started outcomes) accepted

theorem ticked_next {outcomes : List Bool} {more : Nat}
    (accepted : accepts (Traced.step libs rig) (wired outcomes)
      (oneRow ++ List.replicate (more + 1) tickNow) = true) :
    Traced.step libs rig (ticked outcomes more) tickNow = .ok (ticked outcomes (more + 1)) := by
  have run := runs_of_accepts accepted
  rw [List.replicate_succ', ← List.append_assoc] at run
  obtain ⟨mid, before, last⟩ := runs_append_ok.mp run
  obtain ⟨after, step, done⟩ := runs_cons_ok.mp last
  cases done
  have here : ticked outcomes more = mid := by
    unfold ticked endState
    rw [before]
  rw [here, step, ticked, List.replicate_succ', ← List.append_assoc]

/-- The row's own tick apart, two ticks on end change nothing. -/
theorem ticked_quiet {outcomes : List Bool}
    (accepted : accepts (Traced.step libs rig) (wired outcomes)
      (oneRow ++ List.replicate 1 tickNow) = true)
    (accepted' : accepts (Traced.step libs rig) (wired outcomes)
      (oneRow ++ List.replicate 2 tickNow) = true)
    (recording : (ticked outcomes 0).world.recorder.state = .recording)
    (same : current (ticked outcomes 1).world.recorder = current (ticked outcomes 0).world.recorder)
    (same' : current (ticked outcomes 2).world.recorder = current (ticked outcomes 1).world.recorder) :
    QuietTicks libs rig (ticked outcomes 0) (ticked outcomes 1) (ticked outcomes 1)
      (ticked outcomes 2) := by
  have first : Traced.step libs rig (ticked outcomes 0) tickNow = .ok (ticked outcomes 1) :=
    ticked_next accepted
  have second : Traced.step libs rig (ticked outcomes 1) tickNow = .ok (ticked outcomes 2) :=
    ticked_next accepted'
  refine ⟨⟨_, first, ?_⟩, ⟨[], rfl, trivial⟩, ⟨_, second, ?_⟩, recording⟩
  · intro t' step
    rw [← Except.ok.inj (first.symm.trans step)]
    exact same
  · intro t' step
    rw [← Except.ok.inj (second.symm.trans step)]
    exact same'

theorem shown_quiet : QuietTicks libs rig (ticked [] 0) (ticked [] 1) (ticked [] 1) (ticked [] 2) :=
  ticked_quiet (by decide +kernel) (by decide +kernel) (by decide +kernel) (by decide +kernel)
    (by decide +kernel)

/-- The write of the row fails. -/
theorem stalled_quiet : QuietTicks libs rig (ticked [true, false] 0) (ticked [true, false] 1)
    (ticked [true, false] 1) (ticked [true, false] 2) :=
  ticked_quiet (by decide +kernel) (by decide +kernel) (by decide +kernel) (by decide +kernel)
    (by decide +kernel)

end Demo

end KoyuRuntime.Services.DataRecorder
