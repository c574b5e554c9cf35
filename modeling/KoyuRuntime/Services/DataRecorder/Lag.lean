/-
# Services.DataRecorder.Lag — one capture pass with extra frames in front

Two recorders that differ in the frames at the front of the deferred queue, in
the ports and in `clock_seen` run the same pass as soon as the extra frames do
not matter: `frame` and the loop commute with `lag` (`frame_lag`, `consume_lag`).

* `consume_answered`: extra frames before the fence whose answers are held fall
  out of the queue and leave no trace.
* `consume_early`: a short queue of frames before the fence only loses its
  answered front.
* `consume_lagged`: in either case both loops end alike, with the same state, rows
  and everything else outside the queue.
-/
import KoyuRuntime.Services.DataRecorder.Effects

namespace KoyuRuntime.Services.DataRecorder

open Host Theory Ipc

set_option autoImplicit false

variable {P V : Type}

/-- A recorder with extra frames in front of its queue, other ports and another
`clock_seen`. -/
def lag (left : List (Sample P)) (seen : ℚ) (subs : OrderedDict String (Subscriber P))
    (r : Recorder P V) : Recorder P V :=
  { r with subs := subs, cap := { r.cap with deferred := left ++ r.cap.deferred, clockSeen := seen } }

/-- The same at the end of a pass: an abort has cleared the whole capture. -/
def lagAfter (left : List (Sample P)) (seen : ℚ) (subs : OrderedDict String (Subscriber P))
    (r : Recorder P V) : Recorder P V :=
  if r.state = .recording then lag left seen subs r else { r with subs := subs }

/-- A recorder with another deferred queue. -/
def requeue (q : List (Sample P)) (r : Recorder P V) : Recorder P V := { r with cap.deferred := q }

theorem requeue_self {q : List (Sample P)} {r : Recorder P V} (queue : r.cap.deferred = q) :
    requeue q r = r := by
  rw [← queue]
  rfl

section Loop

variable {cfg : Config P V} {seen : ℚ} {subs : OrderedDict String (Subscriber P)}

theorem lagAfter_live {left : List (Sample P)} {r : Recorder P V} (alive : r.state = .recording) :
    lagAfter left seen subs r = lag left seen subs r := by
  rw [lagAfter, if_pos alive]

theorem lagAfter_idle {left : List (Sample P)} {r : Recorder P V} (idle : r.state = .idle) :
    lagAfter left seen subs r = { r with subs := subs } := by
  rw [lagAfter, if_neg (by simp [idle])]

theorem abort_lag (reason : AbortReason) (left : List (Sample P)) (r : Recorder P V) :
    abort reason (lag left seen subs r) = lagAfter left seen subs (abort reason r) := by
  rw [lagAfter_idle (abort_state r reason)]
  rfl

/-- One frame is processed alike: it reads none of what differs. -/
theorem frame_lag (f : Sample P) (left : List (Sample P)) {r : Recorder P V}
    (recording : r.state = .recording) :
    frame cfg f (lag left seen subs r) =
      ((frame cfg f r).1, lagAfter left seen subs (frame cfg f r).2) := by
  apply FrameStep.eq
  have step := frame_step cfg f r
  generalize frame cfg f r = out at step
  cases step with
  | wait unanswered =>
      rw [lagAfter_live recording]
      exact .wait unanswered
  | fenced held early =>
      rw [lagAfter_live recording]
      exact .fenced held early
  | backwards held fence back =>
      rw [← abort_lag]
      exact .backwards held fence back
  | gated held order drop =>
      dsimp only
      have touched : (touch f r).state = .recording := recording
      rw [lagAfter_live touched]
      exact FrameStep.gated (r := lag left seen subs r) held order drop
  | drifted held order keep s found rows =>
      rw [← abort_lag]
      exact FrameStep.drifted (r := lag left seen subs r) held order keep s found rows
  | leading held order keep s found rows =>
      dsimp only
      have touched : (touch f r).state = .recording := recording
      rw [lagAfter_live touched]
      exact FrameStep.leading (r := lag left seen subs r) held order keep s found rows
  | landed held order keep windows =>
      dsimp only
      have landed : (land cfg f r).state = .recording := recording
      rw [lagAfter_live landed]
      exact FrameStep.landed (r := lag left seen subs r) held order keep windows

/-- With nothing extra in the queue the whole loop runs alike. -/
theorem consume_lag (q : List (Sample P)) {r : Recorder P V} (recording : r.state = .recording) :
    consume cfg q (lag [] seen subs r) = lagAfter [] seen subs (consume cfg q r) := by
  induction q generalizing r with
  | nil => exact (lagAfter_live recording).symm
  | cons f rest ih =>
      have recording' : (lag [] seen subs r).state = .recording := recording
      have step : frame cfg f (lag [] seen subs r) =
          ((frame cfg f r).1, lagAfter [] seen subs (frame cfg f r).2) := frame_lag f [] recording
      by_cases alive : (frame cfg f r).2.state = .recording
      · rw [lagAfter_live alive] at step
        cases consumed : (frame cfg f r).1 with
        | true =>
            rw [consume_of_consumed recording consumed alive, consume_of_consumed recording'
              (by rw [step]; exact consumed) (by rw [step]; exact alive), step]
            exact ih (r := pop (frame cfg f r).2) alive
        | false =>
            have unanswered := frame_waits_iff.mp consumed
            rw [consume_of_waits recording unanswered, consume_of_waits recording' unanswered]
            have same : (lag [] seen subs r).cap.deferred.length = r.cap.deferred.length := rfl
            rw [same]
            split
            · exact abort_lag _ [] r
            · exact (lagAfter_live recording).symm
      · have dead := state_idle_of_ne alive
        have dead' : (frame cfg f (lag [] seen subs r)).2.state = .idle := by
          rw [step, lagAfter_idle dead]
          exact dead
        rw [consume_of_dead recording dead, consume_of_dead recording' dead', step]

/-- A frame before the fence whose answers are held changes nothing. -/
theorem frame_of_early {f : Sample P} {r : Recorder P V}
    (held : answered cfg r.cap f.frameId = true) (early : f.stamp < r.cap.t0Ns) :
    frame cfg f r = (true, r) :=
  FrameStep.eq (.fenced held early)

/-- Extra frames before the fence whose answers are held fall out of the queue. -/
theorem consume_answered (left q : List (Sample P)) {r : Recorder P V}
    (recording : r.state = .recording) (early : ∀ f ∈ left, f.stamp < r.cap.t0Ns)
    (held : ∀ f ∈ left, answered cfg r.cap f.frameId = true) :
    consume cfg (left ++ q) (lag left seen subs r) = consume cfg q (lag [] seen subs r) := by
  induction left with
  | nil => rfl
  | cons f rest ih =>
      obtain ⟨earlyHead, earlyRest⟩ := List.forall_mem_cons.mp early
      obtain ⟨heldHead, heldRest⟩ := List.forall_mem_cons.mp held
      have recording' : (lag (f :: rest) seen subs r).state = .recording := recording
      have fenced : frame cfg f (lag (f :: rest) seen subs r) = (true, lag (f :: rest) seen subs r) :=
        frame_of_early heldHead earlyHead
      rw [← ih earlyRest heldRest, List.cons_append, consume_of_consumed recording' (by rw [fenced])
        (by rw [fenced]; exact recording'), fenced]
      rfl

/-- A short queue of frames before the fence loses its answered front, no more. -/
theorem consume_early (q : List (Sample P)) {r : Recorder P V} (recording : r.state = .recording)
    (queue : r.cap.deferred = q) (early : ∀ f ∈ q, f.stamp < r.cap.t0Ns)
    (room : q.length ≤ clockBuffer) :
    consume cfg q r = requeue (q.dropWhile fun f => answered cfg r.cap f.frameId) r := by
  induction q generalizing r with
  | nil => exact (requeue_self queue).symm
  | cons f rest ih =>
      obtain ⟨earlyHead, earlyRest⟩ := List.forall_mem_cons.mp early
      cases held : answered cfg r.cap f.frameId with
      | true =>
          have fenced : frame cfg f r = (true, r) := frame_of_early held earlyHead
          have room' : rest.length ≤ clockBuffer := by
            rw [List.length_cons] at room
            omega
          rw [consume_of_consumed recording (by rw [fenced]) (by rw [fenced]; exact recording), fenced,
            ih (r := pop r) recording (by simp [pop, queue]) earlyRest room',
            List.dropWhile_cons, if_pos held]
          rfl
      | false =>
          rw [consume_of_waits recording held, queue, if_neg (not_lt.mpr room), List.dropWhile_cons,
            if_neg (by simp [held]), requeue_self queue]

/-- Extra frames in front of a queue, once both have lost their answered fronts. -/
theorem dropWhile_front {α : Type} (p : α → Bool) (left q : List α) :
    ∃ left', left' ⊆ left ++ q ∧ (left ++ q).dropWhile p = left' ++ q.dropWhile p := by
  rw [List.dropWhile_append]
  split
  · exact ⟨[], List.nil_subset _, rfl⟩
  · refine ⟨left.dropWhile p ++ q.takeWhile p, ?_, ?_⟩
    · exact List.append_subset.mpr
        ⟨fun x mem => List.mem_append_left q ((List.dropWhile_suffix p).subset mem),
          fun x mem => List.mem_append_right left ((List.takeWhile_prefix p).subset mem)⟩
    · rw [List.append_assoc, List.takeWhile_append_dropWhile]

/-- Extra frames before the fence do not matter to a pass if every queued frame
before the fence is answered, or if only a few such frames are queued at all. -/
def FrontHarmless (cfg : Config P V) (r : Recorder P V) : Prop :=
  (∀ f ∈ r.cap.deferred, f.stamp < r.cap.t0Ns → answered cfg r.cap f.frameId = true) ∨
    (r.cap.deferred.length ≤ clockBuffer ∧ ∀ f ∈ r.cap.deferred, f.stamp < r.cap.t0Ns)

/-- **The loop with extra frames in front** ends as it does without them, up to
frames before the fence still in front of the queue. -/
theorem consume_lagged {left : List (Sample P)} {r : Recorder P V} (recording : r.state = .recording)
    (early : ∀ f ∈ left, f.stamp < r.cap.t0Ns)
    (harmless : FrontHarmless cfg (lag left seen subs r)) :
    ∃ left', (∀ f ∈ left', f.stamp < r.cap.t0Ns) ∧
      consume cfg (left ++ r.cap.deferred) (lag left seen subs r) =
        lagAfter left' seen subs (consume cfg r.cap.deferred r) := by
  rcases harmless with answers | ⟨room, allEarly⟩
  · refine ⟨[], by simp, ?_⟩
    have held : ∀ f ∈ left, answered cfg r.cap f.frameId = true :=
      fun f mem => answers f (List.mem_append_left _ mem) (early f mem)
    rw [consume_answered left _ recording early held, consume_lag _ recording]
  · obtain ⟨left', inside, split⟩ := dropWhile_front (fun f => answered cfg r.cap f.frameId) left
      r.cap.deferred
    have room' : r.cap.deferred.length ≤ clockBuffer := by
      have whole : (left ++ r.cap.deferred).length ≤ clockBuffer := room
      rw [List.length_append] at whole
      omega
    refine ⟨left', fun f mem => allEarly f (inside mem), ?_⟩
    rw [consume_early (r.cap.deferred) recording rfl
      (fun f mem => allEarly f (List.mem_append_right left mem)) room',
      consume_early (r := lag left seen subs r) (left ++ r.cap.deferred) recording rfl allEarly room,
      lagAfter_live (by exact recording)]
    have same : answered cfg (lag left seen subs r).cap = answered cfg r.cap := rfl
    rw [same, split]
    rfl

end Loop

end KoyuRuntime.Services.DataRecorder
