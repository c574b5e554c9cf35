/-
# Services.DataRecorder.Alignment — what the rows of a recording are

Two results over every reachable state, both read off the run invariant of
`Tracking`.

* `rows_aligned`: every row comes from one clock frame of its capture past the
  fence, and holds one value per source: a paired source's under the frame's own
  id, a window source's within the source's tolerance of the frame's stamp.
* `capture_refines_offline`: the rows are what one offline selection over the
  drained frames keeps, from the first row on; nothing is lost, doubled or swapped.

Both hold of the running capture and of every capture handed to a finalize job.
-/
import KoyuRuntime.Services.DataRecorder.Jobs
import KoyuRuntime.Services.DataRecorder.Tracking

namespace KoyuRuntime.Services.DataRecorder

open Host Theory Ipc

set_option autoImplicit false

variable {P V : Type}

/-! ## One row -/

/-- A row made from clock frame `f`: one value per declared source, each from a
sample that reached the source's topic and belongs to the frame. -/
structure AlignedTo (cfg : Config P V) (delivered : List (String × Sample P)) (f : Sample P)
    (row : Row V) : Prop where
  stamp : row.1 = f.stamp
  features : row.2.keys.Perm (cfg.sources.map Source.feature)
  clock : row.2.get? cfg.clock.feature = some (cfg.clock.extract f)
  others : ∀ s ∈ cfg.others, ∃ x, (s.topic, x) ∈ delivered ∧
    row.2.get? s.feature = some (s.extract x) ∧
    (s.paired = true → x.frameId = f.frameId) ∧
    (s.paired = false → |x.stamp - f.stamp| ≤ tolNs s)

/-- The rows of one capture: each aligned to one of its frames past the fence,
with stamps that never decrease. -/
structure AlignedRows (cfg : Config P V) (delivered : List (String × Sample P))
    (frames : List (Sample P)) (t0 : Int) (rows : List (Row V)) : Prop where
  aligned : ∀ row ∈ rows, ∃ f ∈ frames, (cfg.clock.topic, f) ∈ delivered ∧ t0 ≤ f.stamp ∧
    AlignedTo cfg delivered f row
  ordered : rows.Pairwise fun row later => row.1 ≤ later.1

section Row

variable {cfg : Config P V} {delivered : List (String × Sample P)} {c : Capture P V} {f : Sample P}

/-- At an answered frame with fresh windows every other source has a sample, and
it belongs to the frame. -/
theorem sampleFor_spec (caps : CapSourced delivered c) (held : answered cfg c f.frameId = true)
    (windows : WindowsFresh cfg c f.stamp) {s : Source P V} (mem : s ∈ cfg.others) :
    ∃ x, sampleFor c f.frameId s = some x ∧ (s.topic, x) ∈ delivered ∧
      (s.paired = true → x.frameId = f.frameId) ∧
      (s.paired = false → |x.stamp - f.stamp| ≤ tolNs s) := by
  cases paired : s.paired with
  | true =>
      have some := List.all_eq_true.mp held s mem
      simp only [paired, Bool.not_true, Bool.false_or] at some
      obtain ⟨x, found⟩ := Option.isSome_iff_exists.mp some
      obtain ⟨answers, stored, read⟩ := Option.bind_eq_some_iff.mp found
      obtain ⟨reached, id⟩ := caps.pairs _ _ _ _ stored read
      exact ⟨x, by simp [sampleFor, paired, found], reached, fun _ => id, by simp⟩
  | false =>
      have fresh := windows s mem
      simp only [staleAt, paired, Bool.not_false, Bool.true_and] at fresh
      cases found : c.cache.get? s.topic with
      | none => simp [found] at fresh
      | some x =>
          simp only [found, decide_eq_false_iff_not, not_lt] at fresh
          exact ⟨x, by simp [sampleFor, paired, found], caps.cache _ _ found,
            by simp, fun _ => fresh⟩

/-- Sources that each have a sample contribute their features, in order. -/
theorem features_filterMap {sources : List (Source P V)} {id : Nat}
    (each : ∀ s ∈ sources, ∃ x, sampleFor c id s = some x) :
    (sources.filterMap fun s => (sampleFor c id s).map fun x => (s.feature, s.extract x)).map
      Prod.fst = sources.map Source.feature := by
  induction sources with
  | nil => rfl
  | cons s rest ih =>
      obtain ⟨x, found⟩ := each s List.mem_cons_self
      have later := ih fun s' mem => each s' (List.mem_cons_of_mem s mem)
      simp [found, later]

/-- **One row is aligned** to the frame it was made from. -/
theorem rowAt_aligned {row : Row V} (distinct : (cfg.sources.map Source.feature).Nodup)
    (made : RowAt cfg delivered f row) : AlignedTo cfg delivered f row := by
  obtain ⟨c, rfl, caps, held, windows⟩ := made
  have each := fun s mem => sampleFor_spec (s := s) caps held windows mem
  have names := features_filterMap fun s mem => (each s mem).imp fun x spec => spec.1
  have all : (cfg.sources.map Source.feature).Perm
      (cfg.clock.feature :: cfg.others.map Source.feature) := cfg.sources_perm.map Source.feature
  obtain ⟨clockNew, othersDistinct⟩ := List.nodup_cons.mp (all.nodup_iff.mp distinct)
  refine ⟨rfl, ?_, ?_, fun s mem => ?_⟩
  · have first : (OrderedDict.ofList [(cfg.clock.feature, cfg.clock.extract f)]).keys =
        [cfg.clock.feature] := OrderedDict.keys_ofList _ (List.nodup_singleton _)
    have keys := OrderedDict.keys_setAll
      (OrderedDict.ofList [(cfg.clock.feature, cfg.clock.extract f)])
      (cfg.others.filterMap fun s =>
        (sampleFor c f.frameId s).map fun x => (s.feature, s.extract x))
      (by rw [first, names]; exact all.nodup_iff.mp distinct)
    rw [first, names] at keys
    simp only [rowValues, keys]
    exact all.symm
  · rw [rowValues, OrderedDict.get?_setAll_of_not_mem _ _ (by rw [names]; exact clockNew)]
    exact OrderedDict.get?_set_self _ _ _
  · obtain ⟨x, found, reached, byId, byStamp⟩ := each s mem
    refine ⟨x, reached, ?_, byId, byStamp⟩
    rw [rowValues]
    exact OrderedDict.get?_setAll_of_mem _ _ (by rw [names]; exact othersDistinct)
      (List.mem_filterMap.mpr ⟨s, mem, by rw [found]; rfl⟩)

end Row

/-! ## The rows of a capture -/

section Capture

variable {cfg : Config P V} {delivered : List (String × Sample P)} {frames : List (Sample P)}
  {c : Capture P V}

/-- The frames the rows were made from are among the consumed ones past the fence. -/
theorem Tracks.kept_sublist {consumed skipped kept : List (Sample P)}
    (tracks : Tracks cfg delivered frames c consumed skipped kept) :
    kept.Sublist (pastFence c.t0Ns consumed) := by
  have selected := sift_sublist (gateKeep c.periodNs) 0 (pastFence c.t0Ns consumed)
  rw [tracks.sifted] at selected
  exact (List.sublist_append_right skipped kept).trans selected

/-- A row carries the stamp of the frame it was made from. -/
theorem stamps_of_made {kept : List (Sample P)} {rows : List (Row V)}
    (made : List.Forall₂ (RowAt cfg delivered) kept rows) :
    rows.map Prod.fst = kept.map Sample.stamp := by
  induction made with
  | nil => rfl
  | cons head _ ih =>
      obtain ⟨c, rfl, -⟩ := head
      rw [List.map_cons, List.map_cons, ih]

theorem pairwise_of_forall₂ {kept : List (Sample P)} {rows : List (Row V)}
    (made : List.Forall₂ (RowAt cfg delivered) kept rows)
    (ordered : kept.Pairwise fun f g => f.stamp ≤ g.stamp) :
    rows.Pairwise fun row later => row.1 ≤ later.1 := by
  rw [← List.pairwise_map (f := Prod.fst) (R := fun s t => s ≤ t), stamps_of_made made,
    List.pairwise_map]
  exact ordered

theorem frame_of_row {kept : List (Sample P)} {rows : List (Row V)} {row : Row V}
    (made : List.Forall₂ (RowAt cfg delivered) kept rows) (mem : row ∈ rows) :
    ∃ f ∈ kept, RowAt cfg delivered f row := by
  induction made with
  | nil => cases mem
  | @cons f first kept rows head _ ih =>
      rcases List.mem_cons.mp mem with rfl | later
      · exact ⟨f, List.mem_cons_self, head⟩
      · obtain ⟨g, inKept, made⟩ := ih later
        exact ⟨g, List.mem_cons_of_mem f inKept, made⟩

theorem Tracked.aligned (distinct : (cfg.sources.map Source.feature).Nodup)
    (sourced : ∀ f ∈ frames, (cfg.clock.topic, f) ∈ delivered)
    (tracked : Tracked cfg delivered frames c) :
    AlignedRows cfg delivered frames c.t0Ns c.rows := by
  obtain ⟨consumed, skipped, kept, tracks⟩ := tracked
  have sub := tracks.kept_sublist
  refine ⟨?_, pairwise_of_forall₂ tracks.rows (tracks.ordered.sublist sub)⟩
  intro row mem
  obtain ⟨f, inKept, made⟩ := frame_of_row tracks.rows mem
  obtain ⟨inConsumed, fence⟩ := mem_pastFence.mp (sub.subset inKept)
  have inFrames : f ∈ frames := tracks.queue ▸ List.mem_append_left _ inConsumed
  exact ⟨f, inFrames, sourced f inFrames, fence, rowAt_aligned distinct made⟩

/-- A row that `_frame` made from `f`, whatever the caches held. -/
def MadeFrom (cfg : Config P V) (f : Sample P) (row : Row V) : Prop :=
  ∃ c : Capture P V, row = (f.stamp, rowValues cfg c f)

/-- The rows of a capture against the frames it has drained: the frames are the
consumed ones followed by the deferred queue, and from its first row on the
capture has a row for exactly the frames an offline pass over the consumed ones
keeps. -/
def RefinesOffline (cfg : Config P V) (frames deferred : List (Sample P)) (t0 period : Int)
    (rows : List (Row V)) : Prop :=
  ∃ consumed leading kept : List (Sample P),
    frames = consumed ++ deferred ∧ kept.Sublist consumed ∧
    List.Forall₂ (MadeFrom cfg) kept rows ∧ offline t0 period consumed = leading ++ kept

theorem Tracked.refines (tracked : Tracked cfg delivered frames c) :
    RefinesOffline cfg frames c.deferred c.t0Ns c.periodNs c.rows := by
  obtain ⟨consumed, skipped, kept, tracks⟩ := tracked
  have inConsumed : kept.Sublist consumed := tracks.kept_sublist.trans List.filter_sublist
  exact ⟨consumed, skipped, kept, tracks.queue, inConsumed,
    tracks.rows.imp fun _ _ ⟨c, eq, _⟩ => ⟨c, eq⟩, by rw [offline, tracks.sifted]⟩

end Capture

/-! ## Every run -/

section Run

variable {libs : Libs V} {cfg : Config P V} {t : Traced P V}

/-- **Row alignment**, in every reachable state. -/
theorem rows_aligned (distinct : (cfg.sources.map Source.feature).Nodup)
    (reach : Traced.Reach libs cfg t) :
    (t.world.recorder.state = .recording →
      AlignedRows cfg t.hist.delivered t.hist.drained t.world.recorder.cap.t0Ns
        t.world.recorder.cap.rows) ∧
    (∀ h ∈ t.hist.handed, AlignedRows cfg t.hist.delivered h.drained h.t0Ns h.job.rows) ∧
    (∀ fut ∈ t.world.recorder.pending, fut.job ∈ t.hist.handed.map Handed.job) := by
  have followed := reach_tracked reach
  refine ⟨fun recording => (followed.tracked recording).aligned distinct followed.clock,
    fun h mem => ?_, fun fut mem => ?_⟩
  · obtain ⟨⟨c, rows, t0, period, tracked⟩, sourced⟩ := followed.handed h mem
    rw [rows, t0]
    exact tracked.aligned distinct sourced
  · rw [followed.jobs, pending_submitted reach]
    exact List.mem_append_right _ (List.mem_map_of_mem mem)

/-- Two rows, the first after its answer came a tick late, and a third frame waiting. -/
def Demo.twoRows : List (Action Nat) :=
  [Demo.startAt 1000, .deliver "cam/front" ⟨2000, 5, 50⟩, .deliver "joint/state" ⟨1500, 1, 7⟩,
    Demo.tickNow, .deliver "act/cmd" ⟨2100, 5, 55⟩, Demo.tickNow,
    .deliver "cam/front" ⟨50002000, 6, 60⟩, .deliver "joint/state" ⟨50001500, 2, 8⟩,
    .deliver "act/cmd" ⟨50002100, 6, 65⟩, Demo.tickNow,
    .deliver "cam/front" ⟨100002000, 7, 70⟩, Demo.tickNow]

theorem Demo.reach_twoRows : Traced.Reach Demo.libs Demo.rig (Demo.after Demo.twoRows) :=
  Demo.reach_after (by decide +kernel)

theorem rows_aligned_twoRows :
    (Demo.after Demo.twoRows).world.recorder.cap.rows.map Prod.fst = [2000, 50002000] ∧
      AlignedRows Demo.rig (Demo.after Demo.twoRows).hist.delivered
        (Demo.after Demo.twoRows).hist.drained
        (Demo.after Demo.twoRows).world.recorder.cap.t0Ns
        (Demo.after Demo.twoRows).world.recorder.cap.rows :=
  ⟨by decide +kernel,
    (rows_aligned (by decide) Demo.reach_twoRows).1 (by decide +kernel)⟩

/-- **No silent hole**: the tick-driven capture refines the offline reference. -/
theorem capture_refines_offline (reach : Traced.Reach libs cfg t) :
    (t.world.recorder.state = .recording →
      RefinesOffline cfg t.hist.drained t.world.recorder.cap.deferred t.world.recorder.cap.t0Ns
        t.world.recorder.cap.periodNs t.world.recorder.cap.rows) ∧
    (∀ h ∈ t.hist.handed, ∃ deferred,
      RefinesOffline cfg h.drained deferred h.t0Ns h.periodNs h.job.rows) := by
  have followed := reach_tracked reach
  refine ⟨fun recording => (followed.tracked recording).refines, ?_⟩
  intro h mem
  obtain ⟨⟨c, rows, t0, period, tracked⟩, -⟩ := followed.handed h mem
  rw [rows, t0, period]
  exact ⟨c.deferred, tracked.refines⟩

theorem capture_refines_offline_twoRows :
    (Demo.after Demo.twoRows).world.recorder.cap.deferred.map Sample.frameId = [7] ∧
      RefinesOffline Demo.rig (Demo.after Demo.twoRows).hist.drained
        (Demo.after Demo.twoRows).world.recorder.cap.deferred
        (Demo.after Demo.twoRows).world.recorder.cap.t0Ns
        (Demo.after Demo.twoRows).world.recorder.cap.periodNs
        (Demo.after Demo.twoRows).world.recorder.cap.rows :=
  ⟨by decide +kernel, (capture_refines_offline Demo.reach_twoRows).1 (by decide +kernel)⟩

end Run

end KoyuRuntime.Services.DataRecorder
