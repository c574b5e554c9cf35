/-
# Services.DataRecorder.Effects — what each recorder operation can do

One statement per operation, so that no later proof unfolds a handler: the small
effects touch one field each, `FrameStep` lists everything `_frame` can do to a
recorder, and `PassEffect` everything a capture pass can do to the fields outside
the capture: nothing at all, or exactly one abort.

`AtFrame` describes the heads of the deferred-queue loop; `consume_ends` says in
which of three ways the loop leaves its last head.
-/
import KoyuRuntime.Services.DataRecorder.Shell

namespace KoyuRuntime.Services.DataRecorder

open Host Theory Ipc

set_option autoImplicit false

variable {P V : Type}

theorem state_idle_of_ne {r : Recorder P V} (other : r.state ≠ .recording) : r.state = .idle := by
  cases state : r.state with
  | idle => rfl
  | recording => exact absurd state other

/-! ## Small effects -/

section Small

variable (r : Recorder P V)

@[simp] theorem publish_state : (publish r).state = r.state := rfl
@[simp] theorem publish_cap : (publish r).cap = r.cap := rfl
@[simp] theorem publish_subs : (publish r).subs = r.subs := rfl
@[simp] theorem publish_pending : (publish r).pending = r.pending := rfl
@[simp] theorem publish_verdicts : (publish r).verdicts = r.verdicts := rfl
@[simp] theorem publish_episode : (publish r).episode = r.episode := rfl
@[simp] theorem publish_journal : (publish r).journal = r.journal := rfl

/-- The inbox after one drain for `id`. -/
def drained (id : Option String) (box : Inbox) : Inbox :=
  (matchVerdicts id none box.drain.2 box.drain.1).2

/-- The verdict one drain for `id` matches. -/
def matchedVerdict (id : Option String) (box : Inbox) : Option JsonObj :=
  (matchVerdicts id none box.drain.2 box.drain.1).1

/-! ## Ends of a capture -/

variable (reason : AbortReason)

@[simp] theorem abort_state : (abort reason r).state = .idle := rfl
@[simp] theorem abort_cap : (abort reason r).cap = {} := rfl
@[simp] theorem abort_subs : (abort reason r).subs = r.subs := rfl
@[simp] theorem abort_pending : (abort reason r).pending = r.pending := rfl
@[simp] theorem abort_verdicts : (abort reason r).verdicts = drained none r.verdicts := rfl
@[simp] theorem abort_episode : (abort reason r).episode = r.episode ++ [epFailed] := rfl
@[simp] theorem abort_journal :
    (abort reason r).journal = r.journal ++ [.aborted r.cap.captureId reason] := rfl

/-- The job a capture is handed over as. -/
def jobOf (r : Recorder P V) : Job V :=
  ⟨r.cap.snap, r.cap.rows, r.cap.recHz, r.cap.captureId,
    matchedVerdict (some r.cap.captureId) r.verdicts⟩

@[simp] theorem submitFinalize_state : (submitFinalize r).state = .idle := rfl
@[simp] theorem submitFinalize_cap : (submitFinalize r).cap = {} := rfl
@[simp] theorem submitFinalize_subs : (submitFinalize r).subs = r.subs := rfl
@[simp] theorem submitFinalize_pending :
    (submitFinalize r).pending = r.pending ++ [⟨jobOf r, none⟩] := rfl
@[simp] theorem submitFinalize_verdicts :
    (submitFinalize r).verdicts = drained (some r.cap.captureId) r.verdicts := rfl
@[simp] theorem submitFinalize_episode : (submitFinalize r).episode = r.episode := rfl
@[simp] theorem submitFinalize_journal :
    (submitFinalize r).journal = r.journal ++ [.submitted (jobOf r)] := rfl

@[simp] theorem discard_state : (discard r).state = .idle := rfl
@[simp] theorem discard_cap : (discard r).cap = {} := rfl
@[simp] theorem discard_subs : (discard r).subs = r.subs := rfl
@[simp] theorem discard_pending : (discard r).pending = r.pending := rfl
@[simp] theorem discard_verdicts : (discard r).verdicts = drained none r.verdicts := rfl
@[simp] theorem discard_episode : (discard r).episode = r.episode := rfl
@[simp] theorem discard_journal :
    (discard r).journal = r.journal ++ [.discarded r.cap.captureId] := rfl

end Small

/-! ## One frame -/

/-- A frame past the fence moves the last stamp and the grid. -/
def touch (f : Sample P) (r : Recorder P V) : Recorder P V :=
  { r with
    cap.lastTs := f.stamp
    cap.nextDue := (gate f.stamp r.cap.nextDue r.cap.periodNs).2 }

/-- The recorder once a frame has become a row. -/
def land (cfg : Config P V) (f : Sample P) (r : Recorder P V) : Recorder P V :=
  { touch f r with
    cap.rows := r.cap.rows ++ [(f.stamp, rowValues cfg r.cap f)] }

/-- Every window source's cached sample is within its tolerance at `ts`. -/
def WindowsFresh (cfg : Config P V) (c : Capture P V) (ts : Int) : Prop :=
  ∀ s ∈ cfg.others, staleAt c ts s = false

theorem windowsFresh_iff {cfg : Config P V} {c : Capture P V} {ts : Int} :
    WindowsFresh cfg c ts ↔ cfg.others.find? (staleAt c ts) = none := by
  simp [WindowsFresh]

/-- A stale source is one that is not fresh. -/
theorem not_windowsFresh {cfg : Config P V} {c : Capture P V} {ts : Int} {s : Source P V}
    (found : cfg.others.find? (staleAt c ts) = some s) : ¬ WindowsFresh cfg c ts := by
  intro windows
  rw [windowsFresh_iff.mp windows] at found
  cases found

/-- A frame that passes the fence and the backwards check. -/
def InOrder (f : Sample P) (c : Capture P V) : Prop := c.t0Ns ≤ f.stamp ∧ c.lastTs ≤ f.stamp

/-- Everything `_frame` can do, with the test that led there. -/
inductive FrameStep (cfg : Config P V) (f : Sample P) (r : Recorder P V) :
    Bool × Recorder P V → Prop where
  | wait (unanswered : answered cfg r.cap f.frameId = false) : FrameStep cfg f r (false, r)
  | fenced (held : answered cfg r.cap f.frameId = true) (early : f.stamp < r.cap.t0Ns) :
      FrameStep cfg f r (true, r)
  | backwards (held : answered cfg r.cap f.frameId = true) (fence : r.cap.t0Ns ≤ f.stamp)
      (back : f.stamp < r.cap.lastTs) : FrameStep cfg f r (true, abort .clockBackwards r)
  | gated (held : answered cfg r.cap f.frameId = true) (order : InOrder f r.cap)
      (drop : (gate f.stamp r.cap.nextDue r.cap.periodNs).1 = false) :
      FrameStep cfg f r (true, touch f r)
  | drifted (held : answered cfg r.cap f.frameId = true) (order : InOrder f r.cap)
      (keep : (gate f.stamp r.cap.nextDue r.cap.periodNs).1 = true) (s : Source P V)
      (found : cfg.others.find? (staleAt r.cap f.stamp) = some s) (rows : r.cap.rows ≠ []) :
      FrameStep cfg f r (true, abort (.stale s.topic f.stamp) (touch f r))
  | leading (held : answered cfg r.cap f.frameId = true) (order : InOrder f r.cap)
      (keep : (gate f.stamp r.cap.nextDue r.cap.periodNs).1 = true) (s : Source P V)
      (found : cfg.others.find? (staleAt r.cap f.stamp) = some s) (rows : r.cap.rows = []) :
      FrameStep cfg f r (true, touch f r)
  | landed (held : answered cfg r.cap f.frameId = true) (order : InOrder f r.cap)
      (keep : (gate f.stamp r.cap.nextDue r.cap.periodNs).1 = true)
      (windows : WindowsFresh cfg r.cap f.stamp) : FrameStep cfg f r (true, land cfg f r)

theorem frame_step (cfg : Config P V) (f : Sample P) (r : Recorder P V) :
    FrameStep cfg f r (frame cfg f r) := by
  unfold frame
  cases held : answered cfg r.cap f.frameId with
  | false => exact .wait held
  | true =>
      simp only [Bool.not_true, Bool.false_eq_true, if_false]
      by_cases early : f.stamp < r.cap.t0Ns
      · rw [if_pos early]
        exact .fenced held early
      rw [if_neg early]
      by_cases back : f.stamp < r.cap.lastTs
      · rw [if_pos back]
        exact .backwards held (not_lt.mp early) back
      rw [if_neg back]
      have order : InOrder f r.cap := ⟨not_lt.mp early, not_lt.mp back⟩
      cases keep : (gate f.stamp r.cap.nextDue r.cap.periodNs).1 with
      | false =>
          simp only [Bool.not_false, if_true]
          exact .gated held order keep
      | true =>
          simp only [Bool.not_true, Bool.false_eq_true, if_false]
          -- the staleness tests read the cache, which the touch left alone
          have same : staleAt (P := P) (V := V)
              { r.cap with
                lastTs := f.stamp, nextDue := (gate f.stamp r.cap.nextDue r.cap.periodNs).2 } f.stamp =
              staleAt r.cap f.stamp := rfl
          rw [same]
          cases found : cfg.others.find? (staleAt r.cap f.stamp) with
          | some s =>
              dsimp only
              by_cases rows : r.cap.rows = []
              · rw [if_neg (not_not.mpr rows)]
                exact .leading held order keep s found rows
              · rw [if_pos rows]
                exact .drifted held order keep s found rows
          | none => exact .landed held order keep (windowsFresh_iff.mpr found)

/-- The tests of a step decide it. -/
theorem FrameStep.eq {cfg : Config P V} {f : Sample P} {r : Recorder P V}
    {out : Bool × Recorder P V} (step : FrameStep cfg f r out) : frame cfg f r = out := by
  have same : ∀ c : Capture P V, c.cache = r.cap.cache → staleAt c f.stamp = staleAt r.cap f.stamp := by
    intro c cache
    funext s
    simp only [staleAt, cache]
  cases step with
  | wait unanswered => simp [frame, unanswered]
  | fenced held early => simp [frame, held, early]
  | backwards held fence back => simp [frame, held, not_lt.mpr fence, back]
  | gated held order drop =>
      simp [frame, held, not_lt.mpr order.1, not_lt.mpr order.2, drop, touch]
  | drifted held order keep s found rows =>
      simp [frame, held, not_lt.mpr order.1, not_lt.mpr order.2, keep, same, found, rows, touch]
  | leading held order keep s found rows =>
      simp [frame, held, not_lt.mpr order.1, not_lt.mpr order.2, keep, same, found, rows, touch]
  | landed held order keep windows =>
      simp [frame, held, not_lt.mpr order.1, not_lt.mpr order.2, keep, same,
        windowsFresh_iff.mp windows, land, touch]
      rfl

/-! ## The deferred-queue loop -/

/-- The loop heads of one pass: the frames consumed so far, the queue still to
go through, and the recorder there. -/
inductive AtFrame (cfg : Config P V) (r₀ : Recorder P V) :
    List (Sample P) → List (Sample P) → Recorder P V → Prop where
  | start : AtFrame cfg r₀ [] r₀.cap.deferred r₀
  | next {done rest : List (Sample P)} {f : Sample P} {r : Recorder P V}
      (head : AtFrame cfg r₀ done (f :: rest) r) (consumed : (frame cfg f r).1 = true)
      (alive : (frame cfg f r).2.state = .recording) :
      AtFrame cfg r₀ (done ++ [f]) rest (pop (frame cfg f r).2)

/-- How the loop leaves a head: the queue is empty, the head frame aborted the
recording, it waits, or too many frames wait behind it. -/
inductive LoopEnd (cfg : Config P V) : List (Sample P) → Recorder P V → Recorder P V → Prop where
  | emptied (r : Recorder P V) : LoopEnd cfg [] r r
  | aborted {f : Sample P} {rest : List (Sample P)} {r : Recorder P V}
      (dead : (frame cfg f r).2.state = .idle) : LoopEnd cfg (f :: rest) r (frame cfg f r).2
  | waits {f : Sample P} {rest : List (Sample P)} {r : Recorder P V}
      (unanswered : answered cfg r.cap f.frameId = false)
      (room : (f :: rest).length ≤ clockBuffer) : LoopEnd cfg (f :: rest) r r
  | overflowed {f : Sample P} {rest : List (Sample P)} {r : Recorder P V}
      (unanswered : answered cfg r.cap f.frameId = false)
      (full : clockBuffer < (f :: rest).length) :
      LoopEnd cfg (f :: rest) r (abort (.neverMatched f.frameId) r)

/-- A frame that does not end the recording moves the last stamp and the grid, and may
add rows. -/
theorem frame_alive {cfg : Config P V} {f : Sample P} {r : Recorder P V}
    (alive : (frame cfg f r).2.state = .recording) :
    ∃ lastTs nextDue more, (frame cfg f r).2 =
      { r with cap.lastTs := lastTs, cap.nextDue := nextDue, cap.rows := r.cap.rows ++ more } := by
  have step := frame_step cfg f r
  generalize frame cfg f r = out at step alive
  cases step with
  | backwards => simp at alive
  | drifted => simp at alive
  | landed => exact ⟨f.stamp, (gate f.stamp r.cap.nextDue r.cap.periodNs).2, _, rfl⟩
  | wait => exact ⟨r.cap.lastTs, r.cap.nextDue, [], by rw [List.append_nil]⟩
  | fenced => exact ⟨r.cap.lastTs, r.cap.nextDue, [], by rw [List.append_nil]⟩
  | gated => exact ⟨f.stamp, (gate f.stamp r.cap.nextDue r.cap.periodNs).2, [], by
      rw [List.append_nil]
      rfl⟩
  | leading => exact ⟨f.stamp, (gate f.stamp r.cap.nextDue r.cap.periodNs).2, [], by
      rw [List.append_nil]
      rfl⟩

/-- A frame leaves the queue alone unless it aborts the recording. -/
theorem frame_deferred {cfg : Config P V} {f : Sample P} {r : Recorder P V}
    (alive : (frame cfg f r).2.state = .recording) :
    (frame cfg f r).2.cap.deferred = r.cap.deferred := by
  obtain ⟨lastTs, nextDue, more, shape⟩ := frame_alive alive
  rw [shape]

theorem frame_waits_iff {cfg : Config P V} {f : Sample P} {r : Recorder P V} :
    (frame cfg f r).1 = false ↔ answered cfg r.cap f.frameId = false := by
  have step := frame_step cfg f r
  generalize frame cfg f r = out at step
  cases step <;> simp_all

theorem frame_of_unanswered {cfg : Config P V} {f : Sample P} {r : Recorder P V}
    (unanswered : answered cfg r.cap f.frameId = false) : frame cfg f r = (false, r) := by
  simp [frame, unanswered]

section Turn

variable {cfg : Config P V} {f : Sample P} {rest : List (Sample P)} {r : Recorder P V}

/-- A consumed frame leaves the queue and the loop goes on. -/
theorem consume_of_consumed (recording : r.state = .recording) (consumed : (frame cfg f r).1 = true)
    (alive : (frame cfg f r).2.state = .recording) :
    consume cfg (f :: rest) r = consume cfg rest (pop (frame cfg f r).2) := by
  simp [consume, recording, alive, consumed]

/-- A frame that ends the recording ends the loop. -/
theorem consume_of_dead (recording : r.state = .recording)
    (dead : (frame cfg f r).2.state = .idle) : consume cfg (f :: rest) r = (frame cfg f r).2 := by
  simp [consume, recording, dead]

/-- A waiting frame ends the loop, and the recording if the queue has overflowed. -/
theorem consume_of_waits (recording : r.state = .recording)
    (unanswered : answered cfg r.cap f.frameId = false) :
    consume cfg (f :: rest) r =
      if clockBuffer < r.cap.deferred.length then abort (.neverMatched f.frameId) r else r := by
  simp [consume, recording, frame_of_unanswered unanswered]

end Turn

namespace AtFrame

variable {cfg : Config P V} {r₀ : Recorder P V}

theorem first {q : List (Sample P)} (queue : r₀.cap.deferred = q) : AtFrame cfg r₀ [] q r₀ :=
  queue ▸ .start

theorem queue {done q : List (Sample P)} {r : Recorder P V} (head : AtFrame cfg r₀ done q r) :
    r.cap.deferred = q := by
  induction head with
  | start => rfl
  | next _ _ alive ih => simp [pop, frame_deferred alive, ih]

theorem live (recording : r₀.state = .recording) {done q : List (Sample P)} {r : Recorder P V}
    (head : AtFrame cfg r₀ done q r) : r.state = .recording := by
  cases head with
  | start => exact recording
  | next _ _ alive => exact alive

/-- The rest of the loop does not depend on how it came to a head. -/
theorem consume_eq (recording : r₀.state = .recording) {done q : List (Sample P)}
    {r : Recorder P V} (head : AtFrame cfg r₀ done q r) :
    consume cfg r₀.cap.deferred r₀ = consume cfg q r := by
  induction head with
  | start => rfl
  | next head consumed alive ih =>
      rw [ih, consume_of_consumed (head.live recording) consumed alive]

end AtFrame

theorem consume_from {cfg : Config P V} {r₀ : Recorder P V} (recording : r₀.state = .recording)
    {done q : List (Sample P)} {r : Recorder P V} (head : AtFrame cfg r₀ done q r) :
    ∃ done' q' r', AtFrame cfg r₀ done' q' r' ∧ LoopEnd cfg q' r' (consume cfg q r) := by
  induction q generalizing done r with
  | nil => exact ⟨done, [], r, head, .emptied r⟩
  | cons f rest ih =>
      have live := head.live recording
      by_cases alive : (frame cfg f r).2.state = .recording
      · cases consumed : (frame cfg f r).1 with
        | true =>
            rw [consume_of_consumed live consumed alive]
            exact ih (head.next consumed alive)
        | false =>
            have unanswered := frame_waits_iff.mp consumed
            rw [consume_of_waits live unanswered, head.queue]
            by_cases full : clockBuffer < (f :: rest).length
            · rw [if_pos full]
              exact ⟨done, f :: rest, r, head, .overflowed unanswered full⟩
            · rw [if_neg full]
              exact ⟨done, f :: rest, r, head, .waits unanswered (not_lt.mp full)⟩
      · have dead := state_idle_of_ne alive
        rw [consume_of_dead live dead]
        exact ⟨done, f :: rest, r, head, .aborted dead⟩

/-- **The loop rule**: the pass goes through loop heads and leaves the last one
in one of four ways. -/
theorem consume_ends (cfg : Config P V) {r : Recorder P V} (recording : r.state = .recording) :
    ∃ done q r', AtFrame cfg r done q r' ∧ LoopEnd cfg q r' (consume cfg r.cap.deferred r) :=
  consume_from recording .start

/-! ## What a pass does outside the capture -/

/-- Nothing outside the capture's moving parts has changed. -/
structure SameShell (r r' : Recorder P V) : Prop where
  state : r'.state = r.state
  captureId : r'.cap.captureId = r.cap.captureId
  snap : r'.cap.snap = r.cap.snap
  recHz : r'.cap.recHz = r.cap.recHz
  periodNs : r'.cap.periodNs = r.cap.periodNs
  t0Ns : r'.cap.t0Ns = r.cap.t0Ns
  pending : r'.pending = r.pending
  verdicts : r'.verdicts = r.verdicts
  telemetry : r'.telemetry = r.telemetry
  episode : r'.episode = r.episode
  journal : r'.journal = r.journal

namespace SameShell

theorem refl (r : Recorder P V) : SameShell r r := ⟨rfl, rfl, rfl, rfl, rfl, rfl, rfl, rfl, rfl, rfl, rfl⟩

theorem trans {r r' r'' : Recorder P V} (first : SameShell r r') (later : SameShell r' r'') :
    SameShell r r'' where
  state := later.state.trans first.state
  captureId := later.captureId.trans first.captureId
  snap := later.snap.trans first.snap
  recHz := later.recHz.trans first.recHz
  periodNs := later.periodNs.trans first.periodNs
  t0Ns := later.t0Ns.trans first.t0Ns
  pending := later.pending.trans first.pending
  verdicts := later.verdicts.trans first.verdicts
  telemetry := later.telemetry.trans first.telemetry
  episode := later.episode.trans first.episode
  journal := later.journal.trans first.journal

end SameShell

/-- A pass either leaves everything outside the capture alone or aborts once. -/
inductive PassEffect (r : Recorder P V) : Recorder P V → Prop where
  | live {r' : Recorder P V} (same : SameShell r r') : PassEffect r r'
  | aborted {mid : Recorder P V} (reason : AbortReason) (same : SameShell r mid) :
      PassEffect r (abort reason mid)

/-- A read moves nothing but the ports. -/
theorem drainTopic_shape (topic : String) (r : Recorder P V) :
    ∃ subs, (drainTopic topic r).2 = { r with subs := subs } := by
  unfold drainTopic
  split <;> exact ⟨_, rfl⟩

theorem latestTopic_shape (topic : String) (r : Recorder P V) :
    ∃ subs, (latestTopic topic r).2 = { r with subs := subs } := by
  unfold latestTopic
  split <;> exact ⟨_, rfl⟩

/-- A recorder whose ports and sample caches alone differ from another's. -/
def Recached (r r' : Recorder P V) : Prop :=
  ∃ subs cache pairCache,
    r' = { r with subs := subs, cap := { r.cap with cache := cache, pairCache := pairCache } }

theorem refreshSource_shape (r : Recorder P V) (s : Source P V) :
    Recached r (refreshSource r s) := by
  unfold refreshSource
  split
  · obtain ⟨subs, shape⟩ := drainTopic_shape s.topic r
    simp only [shape]
    exact ⟨_, _, _, rfl⟩
  · obtain ⟨subs, shape⟩ := latestTopic_shape s.topic r
    split
    · rename_i sample r' read
      rw [read] at shape
      subst shape
      exact ⟨_, _, _, rfl⟩
    · rename_i r' read
      rw [read] at shape
      subst shape
      exact ⟨_, r.cap.cache, r.cap.pairCache, rfl⟩

theorem refresh_shape (cfg : Config P V) (r : Recorder P V) : Recached r (refresh cfg r) := by
  unfold refresh
  induction cfg.others generalizing r with
  | nil => exact ⟨r.subs, r.cap.cache, r.cap.pairCache, rfl⟩
  | cons s rest ih =>
      obtain ⟨subs, cache, pairs, shape⟩ := refreshSource_shape r s
      obtain ⟨subs', cache', pairs', shape'⟩ := ih (refreshSource r s)
      rw [shape] at shape'
      exact ⟨subs', cache', pairs', by rw [List.foldl_cons, shape, shape']⟩

/-- What the pass's loop starts from: new caches, and the drained clock frames at
the end of the queue. -/
theorem arrive_shape (cfg : Config P V) (mono : ℚ) (r : Recorder P V) :
    ∃ subs clockSeen, arrive cfg mono r =
      { r with
        subs := subs
        cap := { (refresh cfg r).cap with
          deferred := r.cap.deferred ++ clockDrain cfg r, clockSeen := clockSeen } } := by
  obtain ⟨subs, cache, pairs, shape⟩ := refresh_shape cfg r
  obtain ⟨subs', read⟩ := drainTopic_shape cfg.clock.topic (refresh cfg r)
  simp only [arrive, read, clockDrain]
  rw [shape]
  split
  · exact ⟨_, _, rfl⟩
  · exact ⟨_, r.cap.clockSeen, rfl⟩

theorem sameShell_arrive (cfg : Config P V) (mono : ℚ) (r : Recorder P V) :
    SameShell r (arrive cfg mono r) := by
  obtain ⟨subs, cache, pairs, refreshed⟩ := refresh_shape cfg r
  obtain ⟨subs', clockSeen, shape⟩ := arrive_shape cfg mono r
  rw [shape, refreshed]
  exact ⟨rfl, rfl, rfl, rfl, rfl, rfl, rfl, rfl, rfl, rfl, rfl⟩

theorem sameShell_touch (f : Sample P) (r : Recorder P V) : SameShell r (touch f r) :=
  ⟨rfl, rfl, rfl, rfl, rfl, rfl, rfl, rfl, rfl, rfl, rfl⟩

theorem sameShell_land (cfg : Config P V) (f : Sample P) (r : Recorder P V) :
    SameShell r (land cfg f r) :=
  ⟨rfl, rfl, rfl, rfl, rfl, rfl, rfl, rfl, rfl, rfl, rfl⟩

theorem sameShell_pop (r : Recorder P V) : SameShell r (pop r) :=
  ⟨rfl, rfl, rfl, rfl, rfl, rfl, rfl, rfl, rfl, rfl, rfl⟩

/-- A frame either leaves everything outside the capture alone or aborts once. -/
theorem frame_effect (cfg : Config P V) (f : Sample P) (r : Recorder P V) :
    PassEffect r (frame cfg f r).2 := by
  have step := frame_step cfg f r
  generalize frame cfg f r = out at step
  cases step with
  | wait => exact .live (.refl r)
  | fenced => exact .live (.refl r)
  | backwards => exact .aborted _ (.refl r)
  | gated => exact .live (sameShell_touch f r)
  | drifted => exact .aborted _ (sameShell_touch f r)
  | leading => exact .live (sameShell_touch f r)
  | landed => exact .live (sameShell_land cfg f r)

theorem AtFrame.sameShell {cfg : Config P V} {r₀ : Recorder P V} {done q : List (Sample P)}
    {r : Recorder P V} (head : AtFrame cfg r₀ done q r) : SameShell r₀ r := by
  induction head with
  | start => exact .refl r₀
  | @next done rest f r _ _ alive ih =>
      have effect := frame_effect cfg f r
      generalize (frame cfg f r).2 = r' at effect alive
      cases effect with
      | live same => exact (ih.trans same).trans (sameShell_pop _)
      | aborted reason same => simp at alive

/-- **The pass, from outside the capture.** -/
theorem capture_effect (cfg : Config P V) (mono : ℚ) {r : Recorder P V}
    (recording : r.state = .recording) : PassEffect r (capture cfg mono r) := by
  have arrived := sameShell_arrive cfg mono r
  obtain ⟨done, q, r', head, ending⟩ := consume_ends cfg (arrived.state.trans recording)
  have same := arrived.trans head.sameShell
  unfold capture
  generalize consume cfg (arrive cfg mono r).cap.deferred (arrive cfg mono r) = out at ending
  cases ending with
  | emptied => exact .live same
  | @aborted f rest _ dead =>
      have effect := frame_effect cfg f r'
      generalize (frame cfg f r').2 = r'' at effect dead
      cases effect with
      | live more =>
          have := (more.state.trans same.state).trans recording
          rw [dead] at this
          cases this
      | aborted reason more => exact .aborted reason (same.trans more)
  | waits => exact .live same
  | overflowed => exact .aborted _ same

end KoyuRuntime.Services.DataRecorder
