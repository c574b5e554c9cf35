/-
# Services.DataRecorder.ClockStep — when the clock's stamps step backwards

"A backwards clock step aborts loudly", says the module: a frame stamped before
one the recording has already accepted ends it.  `_frame` tests the fence first,
so a step that reaches behind the start of the recording is taken for a frame
queued while idle and swallowed.

* `backwards_aborts_iff`: an answered frame that steps back aborts exactly when
  it is still past the fence.
* `backwards_loud_iff`: a run is loud at every step exactly when none of its
  passes meets an answered frame that steps back behind the fence.
-/
import KoyuRuntime.Services.DataRecorder.Tracking

namespace KoyuRuntime.Services.DataRecorder

open Host Theory Ipc

set_option autoImplicit false

variable {P V : Type}

/-- The recording is over: idle, its rows dropped, its failure rung. -/
structure Aborted (r r' : Recorder P V) : Prop where
  state : r'.state = .idle
  rows : r'.cap.rows = []
  rung : r'.episode = r.episode ++ [epFailed]

/-- Frame `f`, next in the queue, is stamped before a frame the capture has
already accepted past its fence. -/
def StepsBack (frames : List (Sample P)) (f : Sample P) (rest : List (Sample P))
    (c : Capture P V) : Prop :=
  ∃ taken g, frames = taken ++ f :: rest ∧ g ∈ taken ∧ c.t0Ns ≤ g.stamp ∧ f.stamp < g.stamp

/-- A property of every answered frame that steps back in the pass of one action:
of the frame and the recorder at its loop head. -/
def AtStepsBack (cfg : Config P V) (Q : Recorder P V → Action P → Sample P → Recorder P V → Prop)
    (t : Traced P V) (a : Action P) : Prop :=
  a.isPass t.world.recorder = true → ∀ done f rest r,
    AtFrame cfg (arrive cfg a.passMono (a.passStart t.world.recorder)) done (f :: rest) r →
    answered cfg r.cap f.frameId = true → StepsBack (t.hist.drainedBy cfg t.world a) f rest r.cap →
    Q t.world.recorder a f r

/-- Every backwards step in the pass aborts the recording, and the pass with it. -/
def BackwardsLoud (cfg : Config P V) : Traced P V → Action P → Prop :=
  AtStepsBack cfg fun start a f r =>
    Aborted r (frame cfg f r).2 ∧ passed cfg a start = (frame cfg f r).2

/-- No backwards step in the pass reaches behind the fence. -/
def BackwardsPastFence (cfg : Config P V) : Traced P V → Action P → Prop :=
  AtStepsBack cfg fun _ _ f r => r.cap.t0Ns ≤ f.stamp

section Head

variable {cfg : Config P V} {delivered : List (String × Sample P)} {frames : List (Sample P)}
  {f : Sample P} {rest : List (Sample P)} {r : Recorder P V}

/-- An accepted stamp is at most the last one. -/
theorem StepsBack.lt_lastTs (tracked : Tracked cfg delivered frames r.cap)
    (queue : r.cap.deferred = f :: rest) (back : StepsBack frames f rest r.cap) :
    f.stamp < r.cap.lastTs := by
  obtain ⟨consumed, skipped, kept, tracks⟩ := tracked
  obtain ⟨taken, g, split, mem, fence, earlier⟩ := back
  have same : taken = consumed := by
    have := split.symm.trans tracks.queue
    rw [queue] at this
    exact List.append_cancel_right this
  exact earlier.trans_le (tracks.bound g (mem_pastFence.mpr ⟨same ▸ mem, fence⟩))

/-- **One frame**: an answered step back aborts exactly when it is past the fence. -/
theorem backwards_aborts_iff (recording : r.state = .recording)
    (held : answered cfg r.cap f.frameId = true) (back : f.stamp < r.cap.lastTs) :
    Aborted r (frame cfg f r).2 ↔ r.cap.t0Ns ≤ f.stamp := by
  have step := frame_step cfg f r
  generalize frame cfg f r = out at step
  constructor
  · intro aborted
    have state := aborted.state
    cases step with
    | wait unanswered => simp [unanswered] at held
    | fenced _ early => simp [recording] at state
    | backwards _ fence => exact fence
    | gated _ order => exact order.1
    | drifted _ order => exact order.1
    | leading _ order => exact order.1
    | landed _ order => exact order.1
  · intro fence
    cases step with
    | wait unanswered => simp [unanswered] at held
    | fenced _ early => exact absurd early (not_lt.mpr fence)
    | backwards => exact ⟨rfl, rfl, rfl⟩
    | gated _ order => exact absurd back (not_lt.mpr order.2)
    | drifted _ order => exact absurd back (not_lt.mpr order.2)
    | leading _ order => exact absurd back (not_lt.mpr order.2)
    | landed _ order => exact absurd back (not_lt.mpr order.2)

end Head

section Run

variable {libs : Libs V} {cfg : Config P V} {t : Traced P V}

/-- The two properties agree in every reachable state. -/
theorem backwards_step_iff (reach : Traced.Reach libs cfg t) (a : Action P) :
    BackwardsLoud cfg t a ↔ BackwardsPastFence cfg t a := by
  refine forall_congr' fun pass => forall_congr' fun done => forall_congr' fun f =>
    forall_congr' fun rest => forall_congr' fun r => forall_congr' fun head =>
    forall_congr' fun held => forall_congr' fun back => ?_
  have followed := reach_tracked reach
  have recording : (arrive cfg a.passMono (a.passStart t.world.recorder)).state = .recording :=
    (sameShell_arrive cfg a.passMono (a.passStart t.world.recorder)).state.trans
      (by simpa using isPass_recording pass)
  obtain ⟨-, tracked⟩ := followed.head_tracks pass head
  have behind := back.lt_lastTs tracked head.queue
  have aborts := backwards_aborts_iff (head.live recording) held behind
  refine ⟨fun loud => aborts.mp loud.1, fun fence => ⟨aborts.mpr fence, ?_⟩⟩
  rw [passed, capture, head.consume_eq recording]
  exact consume_of_dead (head.live recording) (aborts.mpr fence).state

/-- **A backwards clock step aborts loudly**, along a whole run, exactly when no
pass of the run meets one that reaches behind the fence. -/
theorem backwards_loud_iff (reach : Traced.Reach libs cfg t) (actions : List (Action P)) :
    Along (Traced.step libs cfg) (BackwardsLoud cfg) t actions ↔
      Along (Traced.step libs cfg) (BackwardsPastFence cfg) t actions :=
  along_iff (fun _ reach a => backwards_step_iff reach a) reach actions

/-- One row at `t = 2000` after a start at 1000, then an answered frame stamped `stamp`. -/
def Demo.stepTo (stamp : Int) : List (Action Nat) :=
  [Demo.startAt 1000, .deliver "cam/front" ⟨2000, 5, 50⟩, .deliver "joint/state" ⟨1500, 1, 7⟩,
    .deliver "act/cmd" ⟨2100, 5, 55⟩, Demo.tickNow, .deliver "cam/front" ⟨stamp, 6, 60⟩,
    .deliver "act/cmd" ⟨2200, 6, 65⟩]

/-- A step back past the fence: the recording ends. -/
theorem backwards_loud_iff_stepTo :
    (Demo.after (Demo.stepTo 1500 ++ [Demo.tickNow])).world.recorder.episode = [epFailed] ∧
      (Along (Traced.step Demo.libs Demo.rig) (BackwardsLoud Demo.rig)
          (Demo.after (Demo.stepTo 1500)) [Demo.tickNow] ↔
        Along (Traced.step Demo.libs Demo.rig) (BackwardsPastFence Demo.rig)
          (Demo.after (Demo.stepTo 1500)) [Demo.tickNow]) :=
  ⟨by decide +kernel, backwards_loud_iff (Demo.reach_after (by decide +kernel)) _⟩

/-- A step back behind the fence: the frame is swallowed and the recording goes on. -/
theorem backwards_step_swallowed :
    Traced.Reach Demo.libs Demo.rig (Demo.after (Demo.stepTo 500)) ∧
      ¬ BackwardsLoud Demo.rig (Demo.after (Demo.stepTo 500)) Demo.tickNow := by
  refine ⟨Demo.reach_after (by decide +kernel), ?_⟩
  intro loud
  have aborted := loud (by decide +kernel) [] ⟨500, 6, 60⟩ [] _ (AtFrame.first (by decide +kernel))
    (by decide +kernel) ⟨[⟨2000, 5, 50⟩], ⟨2000, 5, 50⟩, by decide +kernel, by decide,
      by decide +kernel, by decide⟩
  exact absurd aborted.1.state (by decide +kernel)

end Run

end KoyuRuntime.Services.DataRecorder
