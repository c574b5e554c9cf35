/-
# Services.DataRecorder.SharedTopics — sources that read one topic

A subscription belongs to a topic, the capture loop goes over sources, and either read
takes everything out.  So the first source to read a topic in a pass gets all its
samples: a window source in front of a paired one takes the answers, and any source of
the clock's topic takes the frames.

* `pairCache_reads`: what the reads of a pass leave in the pair cache of a topic.
* `nothingStolen_iff`: when a pass gives clock and paired sources their samples.
* `no_theft_iff`: it does in every pass of every run exactly for the configurations in
  which no source gets in front of the one that needs the samples.
-/
import KoyuRuntime.Services.DataRecorder.IdleFrames
import KoyuRuntime.Services.DataRecorder.Lockstep

namespace KoyuRuntime.Services.DataRecorder

open Host Theory Ipc

set_option autoImplicit false

variable {P V : Type}

/-! ## One pass -/

/-- A pair cache after these samples have entered it. -/
def enter (held : OrderedDict Nat (Sample P)) (samples : List (Sample P)) : OrderedDict Nat (Sample P) :=
  let held := held.setAll (samples.map fun x => (x.frameId, x))
  evict held.size held

/-- What the pair cache of a topic holds. -/
def heldAnswers (topic : String) (r : Recorder P V) : OrderedDict Nat (Sample P) :=
  (r.cap.pairCache.get? topic).getD ∅

/-- The first source of a list that reads the topic. -/
def firstReader (topic : String) (sources : List (Source P V)) : Option (Source P V) :=
  sources.find? fun s => s.topic = topic

/-- A pass that is about to run appends all clock samples to the queue, in order, and
enters all samples of a paired topic into its cache. -/
structure NothingStolen (cfg : Config P V) (mono : ℚ) (r : Recorder P V) : Prop where
  clock : (arrive cfg mono r).cap.deferred = r.cap.deferred ++ queued cfg.clock.topic r.subs
  pairs : ∀ s ∈ cfg.others, s.paired = true →
    (arrive cfg mono r).cap.pairCache.get? s.topic =
      some (enter (heldAnswers s.topic r) (queued s.topic r.subs))

section Reads

variable {topic : String}

theorem evict_of_fits {held : OrderedDict Nat (Sample P)} (fits : held.size ≤ pairCacheCap) (fuel : Nat) :
    evict fuel held = held := by
  cases fuel with
  | zero => rfl
  | succ fuel => rw [evict, if_neg (by omega)]

theorem enter_nil (held : OrderedDict Nat (Sample P)) : enter held [] = evict held.size held := rfl

/-- Entering nothing once more changes nothing. -/
theorem enter_again (held : OrderedDict Nat (Sample P)) (samples : List (Sample P)) :
    enter (enter held samples) [] = enter held samples := by
  rw [enter_nil]
  exact evict_of_fits (evict_fits _) _

theorem refreshSource_pairs_other {s : Source P V} (other : s.paired = true → s.topic ≠ topic)
    (r : Recorder P V) :
    (refreshSource r s).cap.pairCache.get? topic = r.cap.pairCache.get? topic := by
  cases paired : s.paired with
  | false =>
      obtain ⟨subs, shape⟩ := latestTopic_shape s.topic r
      simp only [refreshSource, paired, Bool.false_eq_true, if_false]
      split
      · rename_i sample r' read
        rw [read] at shape
        subst shape
        rfl
      · rename_i r' read
        rw [read] at shape
        subst shape
        rfl
  | true =>
      obtain ⟨subs, shape⟩ := drainTopic_shape s.topic r
      simp only [refreshSource, paired, if_true, shape]
      exact OrderedDict.get?_set_ne _ _ (other paired)

theorem reads_pairs_other {sources : List (Source P V)}
    (others : ∀ s ∈ sources, s.paired = true → s.topic ≠ topic) (r : Recorder P V) :
    (sources.foldl refreshSource r).cap.pairCache.get? topic = r.cap.pairCache.get? topic := by
  induction sources generalizing r with
  | nil => rfl
  | cons s rest ih =>
      rw [List.foldl_cons, ih fun s' mem => others s' (List.mem_cons_of_mem s mem)]
      exact refreshSource_pairs_other (others s List.mem_cons_self) r

theorem refreshSource_pairs_own {s : Source P V} (paired : s.paired = true) (r : Recorder P V) :
    (refreshSource r s).cap.pairCache.get? s.topic =
      some (enter (heldAnswers s.topic r) (queued s.topic r.subs)) := by
  obtain ⟨subs, shape⟩ := drainTopic_shape s.topic r
  simp only [refreshSource, paired, if_true, shape]
  rw [drainTopic_eq_queued]
  exact OrderedDict.get?_set_self _ _ _

/-- The samples of a topic that the reads of these sources hand to a paired one. -/
def handed (topic : String) (sources : List (Source P V)) (r : Recorder P V) : List (Sample P) :=
  if (firstReader topic sources).any Source.paired then queued topic r.subs else []

/-- **The reads of a pass**: the pair cache of a topic that some paired source reads has
entered the topic's samples if a paired source read it first, and nothing otherwise. -/
theorem pairCache_reads {sources : List (Source P V)}
    (some_ : ∃ s ∈ sources, s.topic = topic ∧ s.paired = true) (r : Recorder P V) :
    (sources.foldl refreshSource r).cap.pairCache.get? topic =
      some (enter (heldAnswers topic r) (handed topic sources r)) := by
  induction sources generalizing r with
  | nil =>
      obtain ⟨s, mem, -⟩ := some_
      cases mem
  | cons s rest ih =>
      rw [List.foldl_cons]
      by_cases here : s.topic = topic
      swap
      · -- another topic's turn
        have later : ∃ s' ∈ rest, s'.topic = topic ∧ s'.paired = true := by
          obtain ⟨s', mem, same, paired⟩ := some_
          rcases List.mem_cons.mp mem with rfl | inRest
          · exact absurd same here
          · exact ⟨s', inRest, same, paired⟩
        rw [ih later, heldAnswers, refreshSource_pairs_other (fun _ => here), handed, queued_refreshSource,
          if_neg here, handed, firstReader, firstReader, List.find?_cons_of_neg (by simpa using here)]
        rfl
      have after : queued topic (refreshSource r s).subs = [] := by
        rw [queued_refreshSource, if_pos here]
      have empty : handed topic rest (refreshSource r s) = [] := by
        rw [handed, after, ite_self]
      have first : firstReader topic (s :: rest) = some s := by
        rw [firstReader, List.find?_cons_of_pos (by simpa using here)]
      cases paired : s.paired with
      | false =>
          have later : ∃ s' ∈ rest, s'.topic = topic ∧ s'.paired = true := by
            obtain ⟨s', mem, same, paired'⟩ := some_
            rcases List.mem_cons.mp mem with rfl | inRest
            · rw [paired] at paired'
              cases paired'
            · exact ⟨s', inRest, same, paired'⟩
          rw [ih later, empty, heldAnswers,
            refreshSource_pairs_other (fun window => by rw [paired] at window; cases window), handed, first]
          simp [paired, heldAnswers]
      | true =>
          have own := refreshSource_pairs_own paired r
          rw [here] at own
          have goal : handed topic (s :: rest) r = queued topic r.subs := by
            rw [handed, first]
            simp [paired]
          rw [goal]
          by_cases later : ∃ s' ∈ rest, s'.topic = topic ∧ s'.paired = true
          · rw [ih later, empty, heldAnswers, own, Option.getD_some, enter_again]
          · rw [reads_pairs_other fun s' mem paired' same => later ⟨s', mem, same, paired'⟩, own]

end Reads

section Pass

variable {cfg : Config P V}

/-- What a pass has in the cache of a paired topic once its reads are done. -/
theorem arrive_pairs (mono : ℚ) (r : Recorder P V) {s : Source P V} (mem : s ∈ cfg.others)
    (paired : s.paired = true) :
    (arrive cfg mono r).cap.pairCache.get? s.topic =
      some (enter (heldAnswers s.topic r) (handed s.topic cfg.others r)) := by
  obtain ⟨subs, clockSeen, shape⟩ := arrive_shape cfg mono r
  rw [shape]
  exact pairCache_reads ⟨s, mem, rfl, paired⟩ r

/-- What a pass drains from the clock's port: nothing, if another source reads it first. -/
theorem clockDrain_eq (r : Recorder P V) :
    clockDrain cfg r =
      if cfg.clock.topic ∈ cfg.others.map Source.topic then [] else queued cfg.clock.topic r.subs := by
  rw [clockDrain, drainTopic_eq_queued, queued_refresh]

/-- **One pass** gives clock and paired sources their samples exactly if no other source
reads the clock's topic or it holds none, and the first source to read a paired topic is a
paired one or the topic's samples change nothing in the cache. -/
theorem nothingStolen_iff (mono : ℚ) (r : Recorder P V) :
    NothingStolen cfg mono r ↔
      (cfg.clock.topic ∈ cfg.others.map Source.topic → queued cfg.clock.topic r.subs = []) ∧
      ∀ s ∈ cfg.others, s.paired = true → (firstReader s.topic cfg.others).any Source.paired = false →
        enter (heldAnswers s.topic r) [] = enter (heldAnswers s.topic r) (queued s.topic r.subs) := by
  obtain ⟨subs, clockSeen, shape⟩ := arrive_shape cfg mono r
  have deferred : (arrive cfg mono r).cap.deferred = r.cap.deferred ++ clockDrain cfg r := by rw [shape]
  have first : (arrive cfg mono r).cap.deferred = r.cap.deferred ++ queued cfg.clock.topic r.subs ↔
      (cfg.clock.topic ∈ cfg.others.map Source.topic → queued cfg.clock.topic r.subs = []) := by
    rw [deferred, clockDrain_eq, List.append_cancel_left_eq]
    split
    · rename_i shared
      exact ⟨fun none_ _ => none_.symm, fun none_ => (none_ shared).symm⟩
    · rename_i own
      exact ⟨fun _ shared => absurd shared own, fun _ => rfl⟩
  constructor
  · intro nothing
    refine ⟨first.mp nothing.clock, fun s mem paired window => ?_⟩
    have same := (arrive_pairs mono r mem paired).symm.trans (nothing.pairs s mem paired)
    rw [handed, window] at same
    exact Option.some.inj same
  · rintro ⟨clock, others⟩
    refine ⟨first.mpr clock, fun s mem paired => ?_⟩
    rw [arrive_pairs mono r mem paired]
    cases reader : (firstReader s.topic cfg.others).any Source.paired with
    | true => rw [handed, reader, if_pos rfl]
    | false => rw [handed, reader, if_neg (by simp), others s mem paired reader]

/-! ## Every run -/

/-- No other source reads the clock's topic, and a paired source's topic is first read by
a paired source. -/
structure TopicsApart (cfg : Config P V) : Prop where
  clock : cfg.clock.topic ∉ cfg.others.map Source.topic
  pairs : ∀ s ∈ cfg.others, s.paired = true → (firstReader s.topic cfg.others).any Source.paired = true

theorem TopicsApart.nothingStolen (apart : TopicsApart cfg) (mono : ℚ) (r : Recorder P V) :
    NothingStolen cfg mono r := by
  refine (nothingStolen_iff mono r).mpr ⟨fun shared => absurd shared apart.clock, ?_⟩
  intro s mem paired window
  rw [apart.pairs s mem paired] at window
  cases window

/-- Every source's topic has a port, with room for a sample. -/
theorem subscribe_port {topic : String} (read : topic ∈ cfg.clock.topic :: cfg.others.map Source.topic) :
    ∃ depth, 0 < depth ∧
      (subscribe cfg).get? topic = some (BoundedQueue.empty depth : Subscriber P) := by
  have listed : ∃ sub : Subscriber P, (topic, sub) ∈
      (cfg.before.map fun s => (s.topic, BoundedQueue.empty (if s.paired then clockBuffer else 1))) ++
        (cfg.clock.topic, BoundedQueue.empty clockBuffer) ::
          cfg.after.map fun s => (s.topic, BoundedQueue.empty (if s.paired then clockBuffer else 1)) := by
    rcases List.mem_cons.mp read with rfl | other
    · exact ⟨_, List.mem_append_right _ List.mem_cons_self⟩
    · obtain ⟨s, mem, rfl⟩ := List.mem_map.mp other
      rcases List.mem_append.mp mem with before | after
      · exact ⟨_, List.mem_append_left _ (List.mem_map.mpr ⟨s, before, rfl⟩)⟩
      · exact ⟨_, List.mem_append_right _ (List.mem_cons_of_mem _ (List.mem_map.mpr ⟨s, after, rfl⟩))⟩
  obtain ⟨sub, mem⟩ := listed
  obtain ⟨port, found, inList⟩ := OrderedDict.exists_get?_ofList mem
  have roomy : ∀ paired : Bool, 0 < if paired then clockBuffer else 1 := by decide
  rcases List.mem_append.mp inList with before | rest
  · obtain ⟨s, -, pair⟩ := List.mem_map.mp before
    cases pair
    exact ⟨_, roomy s.paired, found⟩
  · rcases List.mem_cons.mp rest with clock | after
    · cases clock
      exact ⟨_, roomy true, found⟩
    · obtain ⟨s, -, pair⟩ := List.mem_map.mp after
      cases pair
      exact ⟨_, roomy s.paired, found⟩

/-- The recorder just after `setup`. -/
def setUp (cfg : Config P V) : Traced P V where
  world :=
    { recorder :=
        { state := .idle, cap := {}, subs := subscribe cfg, pending := [], verdicts := ⟨[], []⟩,
          telemetry := ⟨0, none, ⟨⟨0, 0, 0, ""⟩, []⟩⟩, episode := [], journal := [] }
      disk := ⟨[]⟩ }
  hist := {}

/-- A `START` with no context and no config cell. -/
def plainStart : Readings := ⟨.missing, none, 0, 0, Demo.firstId⟩

theorem readRecordHz_none (cfg : Config P V) : readRecordHz cfg none = .fin 0 := by
  dsimp only [readRecordHz]
  split <;> rfl

/-- A run in which one sample waits at a topic's port while the recorder records, its
caches empty. -/
theorem reach_waiting (libs : Libs V) {topic : String}
    (read : topic ∈ cfg.clock.topic :: cfg.others.map Source.topic) (x : Sample P) :
    ∃ t, Traced.Reach libs cfg t ∧ t.world.recorder.state = .recording ∧
      t.world.recorder.cap.pairCache = ∅ ∧ queued topic t.world.recorder.subs = [x] := by
  obtain ⟨depth, room, port⟩ := subscribe_port read
  have init : (setUp cfg).Init cfg := ⟨⟨rfl, rfl, rfl, rfl, rfl, rfl⟩, rfl⟩
  have first : Traced.Reach libs cfg (setUp cfg) := .start init
  -- the recorder opens a capture, and the sample arrives
  have handled : onEvent cfg "recorder/control" ctlStart plainStart (setUp cfg).world.recorder =
      .ok (opened plainStart {} (.fin 0) 0 (setUp cfg).world.recorder) := by
    have rate : readRecordHz cfg plainStart.config = .fin 0 := readRecordHz_none cfg
    simp only [onEvent, ne_eq, not_true_eq_false, if_false, if_true, setUp, start, rate]
    rfl
  let world : World P V := ⟨opened plainStart {} (.fin 0) 0 (setUp cfg).world.recorder, ⟨[]⟩⟩
  let begin_ : Action P := .event "recorder/control" ctlStart plainStart
  have started : Traced.step libs cfg (setUp cfg) begin_ =
      .ok ⟨world, (setUp cfg).hist.next cfg (setUp cfg).world begin_ world⟩ := by
    have isFresh : fresh cfg (setUp cfg).world begin_ = true := by
      simp [fresh, begin_, setUp, openings]
    have stepped : (setUp cfg).world.step libs cfg begin_ = .ok world := by
      simp only [World.step, begin_, handled]
      rfl
    rw [Traced.step, if_pos isFresh, stepped]
  have waits : Traced.Reach libs cfg _ := (first.next started).next (a := .deliver topic x) rfl
  refine ⟨_, waits, ?_⟩
  refine ⟨by rw [deliver_eq]; rfl, by rw [deliver_eq]; rfl, ?_⟩
  have ports : queued topic (pushed topic x (subscribe cfg)) = [x] := by
    rw [queued_pushed x _ fun _ => ⟨_, port, room⟩, queued, port]
    simp
  rw [deliver_eq]
  exact ports

end Pass

namespace Demo

/-- The answers once more, as a window column. -/
def rawAct : Source Nat Nat :=
  { act with feature := "action.raw", paired := false }

/-- The camera's own stamps as a column. -/
def camMeta : Source Nat Nat :=
  { joint with topic := "cam/front", feature := "observation.exposure" }

def windowFirst : Config Nat Nat :=
  ⟨["run"], [cam, rawAct, act], [], cam, [rawAct, act], rfl⟩

def clockShared : Config Nat Nat :=
  ⟨["run"], [cam, act, camMeta], [], cam, [act, camMeta], rfl⟩

theorem rig_apart : TopicsApart rig := by
  constructor
  · decide
  · intro s mem paired
    rcases List.mem_cons.mp mem with rfl | later
    · decide
    · cases List.mem_singleton.mp later
      cases paired

theorem answers_read :
    act.topic ∈ windowFirst.clock.topic :: windowFirst.others.map Source.topic := by decide

/-- A camera frame waits at the port when the first tick comes. -/
def frameWaits : List (Action Nat) := [startAt 1000, .deliver "cam/front" ⟨2000, 5, 50⟩]

theorem frameWaits_recording : (after frameWaits).world.recorder.state = .recording := by decide +kernel

/-- An accepted list of sources, and a run with a pass in which a sample gets lost. -/
def Steals (cfg : Config Nat Nat) : Prop :=
  validateSources cfg.sources = .ok () ∧
    ∃ t, Traced.Reach libs cfg t ∧ tickNow.isPass t.world.recorder = true ∧
      ¬ NothingStolen cfg tickNow.passMono (tickNow.passStart t.world.recorder)

/-- A waiting sample that the first pass of some run loses. -/
theorem steals {cfg : Config Nat Nat} {topic : String} (valid : validateSources cfg.sources = .ok ())
    (read : topic ∈ cfg.clock.topic :: cfg.others.map Source.topic)
    (lost : ∀ r : Recorder Nat Nat, r.cap.pairCache = ∅ → DataRecorder.queued topic r.subs = [⟨2000, 5, 50⟩] →
      ¬ NothingStolen cfg 0 r) : Steals cfg := by
  obtain ⟨t, reach, recording, caches, port⟩ := reach_waiting libs read ⟨2000, 5, 50⟩
  refine ⟨valid, t, reach, isPass_tick _ recording, ?_⟩
  exact lost (tickNow.passStart t.world.recorder) (by simpa using caches) (by simpa using port)

end Demo

end KoyuRuntime.Services.DataRecorder
