/-
# Services.DataRecorder.Tracking — what a recording knows about its clock frames

The offline reference of a capture is one selection over the whole list of clock
frames: drop what is stamped before the fence, then fold `gate` from 0 over the
rest (`offline`).  `Tracks` ties a recording to it at every head of the
deferred-queue loop: the frames drained so far are a consumed prefix followed by
the queue, the reference selects from the prefix a skipped leading edge followed
by exactly the frames the rows were made from, and its cursor is the recorder's.

* `tracks_frame`: one consumed frame keeps it; `tracks_arrive`: a refresh and a
  drain keep it; `head_tracks` and `capture_tracks`: so does a whole pass.
* `reach_tracked`: it holds in every reachable recording state, and of every
  capture at the moment it was handed to a finalize job.
-/
import KoyuRuntime.Services.DataRecorder.Steps

namespace KoyuRuntime.Services.DataRecorder

open Host Theory Ipc

set_option autoImplicit false

variable {P V : Type}

/-! ## The offline reference -/

/-- The frames stamped at or after the fence. -/
def pastFence (t0 : Int) (frames : List (Sample P)) : List (Sample P) :=
  frames.filter fun f => decide (t0 ≤ f.stamp)

/-- `gate` as a test that remembers the next slot of the grid. -/
def gateKeep (period : Int) (due : Int) (f : Sample P) : Bool × Int := gate f.stamp due period

/-- What an offline pass over a finished list of clock frames keeps. -/
def offline (t0 period : Int) (frames : List (Sample P)) : List (Sample P) :=
  (sift (gateKeep period) 0 (pastFence t0 frames)).1

theorem pastFence_snoc_early {t0 : Int} {frames : List (Sample P)} {f : Sample P}
    (early : f.stamp < t0) : pastFence t0 (frames ++ [f]) = pastFence t0 frames := by
  simp [pastFence, not_le.mpr early]

theorem pastFence_snoc {t0 : Int} {frames : List (Sample P)} {f : Sample P}
    (fence : t0 ≤ f.stamp) : pastFence t0 (frames ++ [f]) = pastFence t0 frames ++ [f] := by
  simp [pastFence, fence]

theorem mem_pastFence {t0 : Int} {frames : List (Sample P)} {f : Sample P} :
    f ∈ pastFence t0 frames ↔ f ∈ frames ∧ t0 ≤ f.stamp := by
  simp [pastFence]

/-! ## Where cached samples come from -/

/-- Every cached sample reached its own topic; held answers sit under their id. -/
structure CapSourced (delivered : List (String × Sample P)) (c : Capture P V) : Prop where
  cache : ∀ topic x, c.cache.get? topic = some x → (topic, x) ∈ delivered
  pairs : ∀ topic held id x, c.pairCache.get? topic = some held → held.get? id = some x →
    (topic, x) ∈ delivered ∧ x.frameId = id

/-- Every queued sample reached its own topic. -/
def PortsSourced (delivered : List (String × Sample P))
    (subs : OrderedDict String (Subscriber P)) : Prop :=
  ∀ topic sub x, subs.get? topic = some sub → x ∈ sub.items → (topic, x) ∈ delivered

theorem CapSourced.mono {delivered more : List (String × Sample P)} {c : Capture P V}
    (sub : delivered ⊆ more) (sourced : CapSourced delivered c) : CapSourced more c where
  cache topic x found := sub (sourced.cache topic x found)
  pairs topic held id x found read :=
    ⟨sub (sourced.pairs topic held id x found read).1, (sourced.pairs topic held id x found read).2⟩

theorem CapSourced.congr {delivered : List (String × Sample P)} {c c' : Capture P V}
    (sourced : CapSourced delivered c) (cache : c'.cache = c.cache)
    (pairCache : c'.pairCache = c.pairCache) : CapSourced delivered c' where
  cache topic x found := sourced.cache topic x (cache ▸ found)
  pairs topic held id x found read := sourced.pairs topic held id x (pairCache ▸ found) read

theorem capSourced_empty (delivered : List (String × Sample P)) {c : Capture P V}
    (cache : c.cache = ∅) (pairCache : c.pairCache = ∅) : CapSourced delivered c where
  cache topic x found := by rw [cache] at found; simp at found
  pairs topic held id x found _ := by rw [pairCache] at found; simp at found

theorem PortsSourced.mono {delivered more : List (String × Sample P)}
    {subs : OrderedDict String (Subscriber P)} (sub : delivered ⊆ more)
    (sourced : PortsSourced delivered subs) : PortsSourced more subs :=
  fun topic s x found mem => sub (sourced topic s x found mem)

/-- Emptying one port keeps every port sourced. -/
theorem PortsSourced.clear {delivered : List (String × Sample P)}
    {subs : OrderedDict String (Subscriber P)} (sourced : PortsSourced delivered subs)
    (topic : String) (sub : Subscriber P) : PortsSourced delivered (subs.set topic sub.cleared) := by
  intro q s x found mem
  rw [OrderedDict.get?_set] at found
  split at found
  · cases found
    simp at mem
  · exact sourced q s x found mem

/-- Eviction stops at its bound: the dictionary's size is fuel enough. -/
theorem size_evict {fuel : Nat} {held : OrderedDict Nat (Sample P)}
    (enough : held.size ≤ fuel + pairCacheCap) : (evict fuel held).size ≤ pairCacheCap := by
  induction fuel generalizing held with
  | zero =>
      show held.size ≤ pairCacheCap
      omega
  | succ fuel ih =>
      unfold evict
      by_cases full : held.size > pairCacheCap
      · rw [if_pos full]
        cases least : held.keys.min? with
        | some oldest =>
            have dropped := OrderedDict.size_erase (List.min?_mem least)
            apply ih
            omega
        | none =>
            rw [List.min?_eq_none_iff, OrderedDict.keys, List.map_eq_nil_iff] at least
            rw [OrderedDict.size, least] at full
            simp at full
      · rw [if_neg full]
        omega

/-- No pair cache holds more than its bound after a refresh of its source. -/
theorem evict_fits (held : OrderedDict Nat (Sample P)) : (evict held.size held).size ≤ pairCacheCap :=
  size_evict (Nat.le_add_right _ _)

theorem get?_evict {fuel : Nat} {held : OrderedDict Nat (Sample P)} {id : Nat} {x : Sample P}
    (found : (evict fuel held).get? id = some x) : held.get? id = some x := by
  induction fuel generalizing held with
  | zero => exact found
  | succ fuel ih =>
      simp only [evict] at found
      split at found
      · split at found
        · exact OrderedDict.get?_of_erase (ih found)
        · exact found
      · exact found

/-- What a drain hands over was delivered, and what it leaves too. -/
theorem PortsSourced.drained {delivered : List (String × Sample P)} {r : Recorder P V}
    (ports : PortsSourced delivered r.subs) (topic : String) :
    (∀ x ∈ (drainTopic topic r).1, (topic, x) ∈ delivered) ∧
      PortsSourced delivered (drainTopic topic r).2.subs := by
  unfold drainTopic
  split
  · exact ⟨fun x mem => absurd mem List.not_mem_nil, ports⟩
  · rename_i sub found
    exact ⟨fun x mem => ports topic sub x found mem, ports.clear topic _⟩

/-- So it is for a read of the newest sample. -/
theorem PortsSourced.newest {delivered : List (String × Sample P)} {r : Recorder P V}
    (ports : PortsSourced delivered r.subs) (topic : String) :
    (∀ x, (latestTopic topic r).1 = some x → (topic, x) ∈ delivered) ∧
      PortsSourced delivered (latestTopic topic r).2.subs := by
  unfold latestTopic
  split
  · exact ⟨(fun x read => by cases read), ports⟩
  · rename_i sub found
    exact ⟨fun x read => ports topic sub x found (List.mem_of_getLast? read), ports.clear topic _⟩

/-- Both caches and all ports stay sourced across a read of any one source. -/
theorem sourced_refreshSource {delivered : List (String × Sample P)} {r : Recorder P V}
    (caps : CapSourced delivered r.cap) (ports : PortsSourced delivered r.subs) (s : Source P V) :
    CapSourced delivered (refreshSource r s).cap ∧ PortsSourced delivered (refreshSource r s).subs := by
  unfold refreshSource
  split
  · -- a paired source: the drained answers join the held ones under their ids
    obtain ⟨samples, drainedPorts⟩ := ports.drained s.topic
    obtain ⟨subs, shape⟩ := drainTopic_shape s.topic r
    refine ⟨⟨fun topic x found => ?_, fun topic held id x found read => ?_⟩, drainedPorts⟩
    · simp only [shape] at found
      exact caps.cache topic x found
    · simp only [shape, OrderedDict.get?_set] at found
      split at found
      · rename_i same
        cases found
        subst same
        rcases OrderedDict.get?_setAll_cases _ _ (get?_evict read) with new | old
        · obtain ⟨y, mem, eq⟩ := List.mem_map.mp new
          cases eq
          exact ⟨samples _ mem, rfl⟩
        · cases before : r.cap.pairCache.get? s.topic with
          | none => simp [before] at old
          | some prior =>
              rw [before] at old
              exact caps.pairs s.topic prior id x before old
      · exact caps.pairs topic held id x found read
  · -- a window source: the newest queued sample replaces the cached one
    obtain ⟨newest, readPorts⟩ := ports.newest s.topic
    obtain ⟨subs, shape⟩ := latestTopic_shape s.topic r
    split
    · rename_i sample r' read
      rw [read] at newest readPorts shape
      simp only at newest readPorts shape
      refine ⟨⟨fun topic x found => ?_, fun topic held id x found => ?_⟩, readPorts⟩
      · rw [shape] at found
        simp only [OrderedDict.get?_set] at found
        split at found
        · rename_i same
          cases found
          exact same ▸ newest _ rfl
        · exact caps.cache topic x found
      · rw [shape] at found
        exact caps.pairs topic held id x found
    · rename_i r' read
      rw [read] at readPorts shape
      simp only at readPorts shape
      exact ⟨caps.congr (by rw [shape]) (by rw [shape]), readPorts⟩

theorem sourced_refresh {delivered : List (String × Sample P)} {r : Recorder P V}
    (cfg : Config P V) (caps : CapSourced delivered r.cap) (ports : PortsSourced delivered r.subs) :
    CapSourced delivered (refresh cfg r).cap ∧ PortsSourced delivered (refresh cfg r).subs := by
  unfold refresh
  induction cfg.others generalizing r with
  | nil => exact ⟨caps, ports⟩
  | cons s rest ih =>
      obtain ⟨caps', ports'⟩ := sourced_refreshSource caps ports s
      exact ih caps' ports'

theorem sourced_arrive {delivered : List (String × Sample P)} {r : Recorder P V} (cfg : Config P V)
    (mono : ℚ) (caps : CapSourced delivered r.cap) (ports : PortsSourced delivered r.subs) :
    CapSourced delivered (arrive cfg mono r).cap ∧
      PortsSourced delivered (arrive cfg mono r).subs := by
  obtain ⟨caps', ports'⟩ := sourced_refresh cfg caps ports
  constructor
  · obtain ⟨subs, clockSeen, shape⟩ := arrive_shape cfg mono r
    exact caps'.congr (by rw [shape]) (by rw [shape])
  · obtain ⟨-, read⟩ := ports'.drained cfg.clock.topic
    simp only [arrive]
    split <;> exact read

/-! ## The loop invariant -/

/-- A row made from frame `f`, with caches that were sourced, answered and fresh. -/
def RowAt (cfg : Config P V) (delivered : List (String × Sample P)) (f : Sample P)
    (row : Row V) : Prop :=
  ∃ c : Capture P V, row = (f.stamp, rowValues cfg c f) ∧ CapSourced delivered c ∧
    answered cfg c f.frameId = true ∧ WindowsFresh cfg c f.stamp

/-- A capture against the frames it has drained. -/
structure Tracks (cfg : Config P V) (delivered : List (String × Sample P))
    (frames : List (Sample P)) (c : Capture P V) (consumed skipped kept : List (Sample P)) :
    Prop where
  queue : frames = consumed ++ c.deferred
  sifted : sift (gateKeep c.periodNs) 0 (pastFence c.t0Ns consumed) = (skipped ++ kept, c.nextDue)
  rows : List.Forall₂ (RowAt cfg delivered) kept c.rows
  ordered : (pastFence c.t0Ns consumed).Pairwise fun f g => f.stamp ≤ g.stamp
  bound : ∀ f ∈ pastFence c.t0Ns consumed, f.stamp ≤ c.lastTs

/-- A capture of these frames, with its three parts left open. -/
def Tracked (cfg : Config P V) (delivered : List (String × Sample P)) (frames : List (Sample P))
    (c : Capture P V) : Prop :=
  ∃ consumed skipped kept, Tracks cfg delivered frames c consumed skipped kept

theorem RowAt.mono {cfg : Config P V} {delivered more : List (String × Sample P)} {f : Sample P}
    {row : Row V} (sub : delivered ⊆ more) (made : RowAt cfg delivered f row) :
    RowAt cfg more f row := by
  obtain ⟨c, eq, sourced, held, windows⟩ := made
  exact ⟨c, eq, sourced.mono sub, held, windows⟩

theorem Tracked.mono {cfg : Config P V} {delivered more : List (String × Sample P)}
    {frames : List (Sample P)} {c : Capture P V} (sub : delivered ⊆ more)
    (tracked : Tracked cfg delivered frames c) : Tracked cfg more frames c := by
  obtain ⟨consumed, skipped, kept, tracks⟩ := tracked
  exact ⟨consumed, skipped, kept, tracks.queue, tracks.sifted,
    tracks.rows.imp fun _ _ made => made.mono sub, tracks.ordered, tracks.bound⟩

/-- A fresh capture has drained nothing. -/
theorem tracked_opened (cfg : Config P V) (delivered : List (String × Sample P))
    {c : Capture P V} (deferred : c.deferred = []) (rows : c.rows = []) (due : c.nextDue = 0) :
    Tracked cfg delivered [] c :=
  ⟨[], [], [], by rw [deferred]; rfl, by rw [due]; rfl, by rw [rows]; exact .nil, .nil, by
    intro f mem; cases mem⟩

/-- The frames drained by a pass join the queue. -/
theorem tracked_arrive {cfg : Config P V} {delivered : List (String × Sample P)}
    {frames : List (Sample P)} {r : Recorder P V} (mono : ℚ)
    (tracked : Tracked cfg delivered frames r.cap) :
    Tracked cfg delivered (frames ++ clockDrain cfg r) (arrive cfg mono r).cap := by
  obtain ⟨consumed, skipped, kept, tracks⟩ := tracked
  obtain ⟨subs, cache, pairs, refreshed⟩ := refresh_shape cfg r
  obtain ⟨subs', clockSeen, shape⟩ := arrive_shape cfg mono r
  rw [shape, refreshed]
  exact ⟨consumed, skipped, kept, by simp [tracks.queue, List.append_assoc], tracks.sifted,
    tracks.rows, tracks.ordered, tracks.bound⟩

section Frame

variable {cfg : Config P V} {delivered : List (String × Sample P)} {frames rest : List (Sample P)}
  {f : Sample P} {r : Recorder P V} {consumed skipped kept : List (Sample P)}

/-- What a frame past the fence and the backwards check does to the ordered
prefix: it extends it, and every stamp in it stays at or below the new last one. -/
theorem inOrder_extends (tracks : Tracks cfg delivered frames r.cap consumed skipped kept)
    (order : InOrder f r.cap) :
    (pastFence r.cap.t0Ns (consumed ++ [f])).Pairwise (fun f g => f.stamp ≤ g.stamp) ∧
      ∀ g ∈ pastFence r.cap.t0Ns (consumed ++ [f]), g.stamp ≤ f.stamp := by
  rw [pastFence_snoc order.1]
  have below : ∀ g ∈ pastFence r.cap.t0Ns consumed, g.stamp ≤ f.stamp :=
    fun g mem => (tracks.bound g mem).trans order.2
  constructor
  · rw [List.pairwise_append]
    refine ⟨tracks.ordered, List.pairwise_singleton _ _, ?_⟩
    intro g mem h single
    rw [List.mem_singleton.mp single]
    exact below g mem
  · intro g mem
    rcases List.mem_append.mp mem with earlier | single
    · exact below g earlier
    · rw [List.mem_singleton.mp single]

/-- The reference's state after one more accepted frame. -/
theorem sift_extends (tracks : Tracks cfg delivered frames r.cap consumed skipped kept)
    (order : InOrder f r.cap) :
    sift (gateKeep r.cap.periodNs) 0 (pastFence r.cap.t0Ns (consumed ++ [f])) =
      (skipped ++ kept ++ (if (gate f.stamp r.cap.nextDue r.cap.periodNs).1 then [f] else []),
        (gate f.stamp r.cap.nextDue r.cap.periodNs).2) := by
  rw [pastFence_snoc order.1, sift_snoc, tracks.sifted]
  rfl

/-- **One consumed frame**: if the recording lives on, the frame has moved from
the queue to the consumed prefix and the reference has moved with it. -/
theorem tracks_frame (caps : CapSourced delivered r.cap)
    (tracks : Tracks cfg delivered frames r.cap consumed skipped kept)
    (queue : r.cap.deferred = f :: rest) (taken : (frame cfg f r).1 = true)
    (alive : (frame cfg f r).2.state = .recording) :
    ∃ skipped' kept',
      Tracks cfg delivered frames (pop (frame cfg f r).2).cap (consumed ++ [f]) skipped' kept' := by
  have moved : frames = (consumed ++ [f]) ++ rest := by
    rw [tracks.queue, queue, List.append_assoc]
    rfl
  have step := frame_step cfg f r
  generalize frame cfg f r = out at step taken alive
  cases step with
  | wait => cases taken
  | backwards => simp at alive
  | drifted => simp at alive
  | fenced _ early =>
      refine ⟨skipped, kept, ?_, ?_, tracks.rows, ?_, ?_⟩
      · simpa [pop, queue] using moved
      · simpa [pop, pastFence_snoc_early early] using tracks.sifted
      · simpa [pop, pastFence_snoc_early early] using tracks.ordered
      · simpa [pop, pastFence_snoc_early early] using tracks.bound
  | gated _ order drop =>
      obtain ⟨ordered, bound⟩ := inOrder_extends tracks order
      have sifted := sift_extends tracks order
      rw [drop] at sifted
      exact ⟨skipped, kept, by simpa [pop, touch, queue] using moved,
        by simpa [pop, touch] using sifted, tracks.rows, ordered, bound⟩
  | leading _ order keep s found rows =>
      -- no row yet, so the skipped frame extends the leading edge
      obtain ⟨ordered, bound⟩ := inOrder_extends tracks order
      have sifted := sift_extends tracks order
      have none : kept = [] := by
        have := tracks.rows
        rw [rows] at this
        cases this
        rfl
      rw [keep, none] at sifted
      exact ⟨skipped ++ [f], [], by simpa [pop, touch, queue] using moved,
        by simpa [pop, touch] using sifted, by simp [pop, touch, rows], ordered, bound⟩
  | landed held order keep windows =>
      obtain ⟨ordered, bound⟩ := inOrder_extends tracks order
      have sifted := sift_extends tracks order
      rw [keep] at sifted
      have row : RowAt cfg delivered f (f.stamp, rowValues cfg r.cap f) :=
        ⟨r.cap, rfl, caps, held, windows⟩
      exact ⟨skipped, kept ++ [f], by simpa [pop, land, touch, queue] using moved,
        by simpa [pop, land, touch, List.append_assoc] using sifted,
        List.rel_append tracks.rows (.cons row .nil), ordered, bound⟩

end Frame

/-! ## Passes -/

section Pass

variable {cfg : Config P V} {delivered : List (String × Sample P)} {frames : List (Sample P)}

theorem frame_caps {f : Sample P} {r : Recorder P V} (caps : CapSourced delivered r.cap)
    (alive : (frame cfg f r).2.state = .recording) :
    CapSourced delivered (frame cfg f r).2.cap := by
  obtain ⟨lastTs, nextDue, more, shape⟩ := frame_alive alive
  rw [shape]
  exact ⟨caps.cache, caps.pairs⟩

/-- A loop that starts from a tracked capture is tracked at every head. -/
theorem AtFrame.tracks {r₀ : Recorder P V} (caps : CapSourced delivered r₀.cap)
    (tracked : Tracked cfg delivered frames r₀.cap) {done q : List (Sample P)} {r : Recorder P V}
    (head : AtFrame cfg r₀ done q r) :
    CapSourced delivered r.cap ∧ Tracked cfg delivered frames r.cap := by
  induction head with
  | start => exact ⟨caps, tracked⟩
  | next head taken alive ih =>
      obtain ⟨caps', consumed, skipped, kept, tracks⟩ := ih
      obtain ⟨skipped', kept', next⟩ := tracks_frame caps' tracks head.queue taken alive
      exact ⟨CapSourced.congr (frame_caps caps' alive) rfl rfl, _, skipped', kept', next⟩

/-- Every head of a pass's loop is tracked, the frames drained in this pass included. -/
theorem head_tracks {r : Recorder P V} (mono : ℚ) (caps : CapSourced delivered r.cap)
    (ports : PortsSourced delivered r.subs) (tracked : Tracked cfg delivered frames r.cap)
    {done q : List (Sample P)} {r' : Recorder P V}
    (head : AtFrame cfg (arrive cfg mono r) done q r') :
    CapSourced delivered r'.cap ∧ Tracked cfg delivered (frames ++ clockDrain cfg r) r'.cap :=
  head.tracks (sourced_arrive cfg mono caps ports).1 (tracked_arrive mono tracked)

theorem frame_subs (f : Sample P) (r : Recorder P V) : (frame cfg f r).2.subs = r.subs := by
  have step := frame_step cfg f r
  generalize frame cfg f r = out at step
  cases step <;> simp [touch, land]

theorem AtFrame.subs {r₀ : Recorder P V} {done q : List (Sample P)} {r : Recorder P V}
    (head : AtFrame cfg r₀ done q r) : r.subs = r₀.subs := by
  induction head with
  | start => rfl
  | next _ _ _ ih => simp [pop, frame_subs, ih]

/-- A pass leaves the ports as its reads left them. -/
theorem capture_subs (mono : ℚ) {r : Recorder P V} (recording : r.state = .recording) :
    (capture cfg mono r).subs = (arrive cfg mono r).subs := by
  obtain ⟨done, q, r', head, ending⟩ :=
    consume_ends cfg ((sameShell_arrive cfg mono r).state.trans recording)
  unfold capture
  rw [← head.subs]
  generalize consume cfg (arrive cfg mono r).cap.deferred (arrive cfg mono r) = out at ending
  cases ending with
  | emptied => rfl
  | aborted dead => exact frame_subs _ _
  | waits => rfl
  | overflowed => simp

/-- **A whole pass** that leaves the recording alive leaves it tracked. -/
theorem capture_tracks {r : Recorder P V} (mono : ℚ) (recording : r.state = .recording)
    (caps : CapSourced delivered r.cap) (ports : PortsSourced delivered r.subs)
    (tracked : Tracked cfg delivered frames r.cap)
    (alive : (capture cfg mono r).state = .recording) :
    CapSourced delivered (capture cfg mono r).cap ∧
      Tracked cfg delivered (frames ++ clockDrain cfg r) (capture cfg mono r).cap := by
  obtain ⟨done, q, r', head, ending⟩ :=
    consume_ends cfg ((sameShell_arrive cfg mono r).state.trans recording)
  have tracks := head_tracks mono caps ports tracked head
  unfold capture at alive ⊢
  generalize consume cfg (arrive cfg mono r).cap.deferred (arrive cfg mono r) = out at ending alive
  cases ending with
  | emptied => exact tracks
  | aborted dead => rw [dead] at alive; cases alive
  | waits => exact tracks
  | overflowed => simp at alive

end Pass

/-! ## Whole runs -/

/-- What a capture handed to a finalize job had been tracked to. -/
def HandedTracked (cfg : Config P V) (delivered : List (String × Sample P)) (h : Handed P V) : Prop :=
  ∃ c : Capture P V, h.job.rows = c.rows ∧ h.t0Ns = c.t0Ns ∧ h.periodNs = c.periodNs ∧
    Tracked cfg delivered h.drained c

/-- The run invariant: ports and caches are sourced, a recording is tracked against
the frames drained since its `START`, and so was every capture handed over. -/
structure Followed (cfg : Config P V) (t : Traced P V) : Prop where
  ports : PortsSourced t.hist.delivered t.world.recorder.subs
  caps : CapSourced t.hist.delivered t.world.recorder.cap
  clock : ∀ f ∈ t.hist.drained, (cfg.clock.topic, f) ∈ t.hist.delivered
  tracked : t.world.recorder.state = .recording →
    Tracked cfg t.hist.delivered t.hist.drained t.world.recorder.cap
  jobs : t.hist.handed.map Handed.job = submissions t.world.recorder.journal
  handed : ∀ h ∈ t.hist.handed, HandedTracked cfg t.hist.delivered h ∧
    ∀ f ∈ h.drained, (cfg.clock.topic, f) ∈ t.hist.delivered

theorem portsSourced_subscribe (cfg : Config P V) (delivered : List (String × Sample P)) :
    PortsSourced delivered (subscribe cfg) := by
  intro topic sub x found mem
  have vacant : sub.items = [] := by
    rcases OrderedDict.get?_setAll_cases _ _ found with listed | absent
    · simp only [List.mem_append, List.mem_map, List.mem_cons, Prod.mk.injEq] at listed
      rcases listed with ⟨_, _, _, rfl⟩ | ⟨_, rfl⟩ | ⟨_, _, _, rfl⟩ <;> rfl
    · simp at absent
  rw [vacant] at mem
  cases mem

theorem portsSourced_deliver {delivered : List (String × Sample P)} {r : Recorder P V}
    (ports : PortsSourced delivered r.subs) (topic : String) (sample : Sample P) :
    PortsSourced (delivered ++ [(topic, sample)]) (deliver topic sample r).subs := by
  have wider : PortsSourced (delivered ++ [(topic, sample)]) r.subs :=
    ports.mono (List.subset_append_left _ _)
  rw [deliver_eq]
  intro q sub x found mem
  rw [get?_pushed] at found
  split at found
  · rename_i same
    obtain ⟨before, read, rfl⟩ := Option.map_eq_some_iff.mp found
    rcases BoundedQueue.mem_push mem with old | rfl
    · exact wider q before x read old
    · simp [same]
  · exact wider q sub x found mem

theorem clockDrain_sourced {delivered : List (String × Sample P)} {r : Recorder P V}
    (cfg : Config P V) (caps : CapSourced delivered r.cap) (ports : PortsSourced delivered r.subs) :
    ∀ f ∈ clockDrain cfg r, (cfg.clock.topic, f) ∈ delivered := by
  obtain ⟨-, ports'⟩ := sourced_refresh cfg caps ports
  exact (ports'.drained cfg.clock.topic).1

section Run

variable {libs : Libs V} {cfg : Config P V} {t : Traced P V} {a : Action P}

/-- The frames drained by an action all came in on the clock's topic. -/
theorem drainedBy_sourced (followed : Followed cfg t) :
    ∀ f ∈ t.hist.drainedBy cfg t.world a, (cfg.clock.topic, f) ∈ t.hist.delivered := by
  intro f mem
  unfold History.drainedBy sinceStart at mem
  split at mem
  · rcases List.mem_append.mp mem with old | new
    · exact followed.clock f old
    · exact clockDrain_sourced cfg followed.caps followed.ports f new
  · split at mem
    · exact followed.clock f mem
    · cases mem

/-- Every loop head of a pass of a run. -/
theorem Followed.head_tracks (followed : Followed cfg t) (pass : a.isPass t.world.recorder = true)
    {done q : List (Sample P)} {r : Recorder P V}
    (head : AtFrame cfg (arrive cfg a.passMono (a.passStart t.world.recorder)) done q r) :
    CapSourced t.hist.delivered r.cap ∧
      Tracked cfg t.hist.delivered (t.hist.drainedBy cfg t.world a) r.cap := by
  have caps : CapSourced t.hist.delivered (a.passStart t.world.recorder).cap := by
    simpa using followed.caps
  have tracked : Tracked cfg t.hist.delivered t.hist.drained (a.passStart t.world.recorder).cap := by
    simpa using followed.tracked (isPass_recording pass)
  have tracks := DataRecorder.head_tracks a.passMono caps (by simpa using followed.ports) tracked head
  rw [clockDrain_passStart] at tracks
  rw [History.drainedBy, sinceStart_pass pass]
  exact tracks

/-- A pass of a run, as far as the recording lives through it. -/
theorem passed_tracks (followed : Followed cfg t) (pass : a.isPass t.world.recorder = true)
    (alive : (passed cfg a t.world.recorder).state = .recording) :
    CapSourced t.hist.delivered (passed cfg a t.world.recorder).cap ∧
      Tracked cfg t.hist.delivered (t.hist.drainedBy cfg t.world a)
        (passed cfg a t.world.recorder).cap := by
  have recording := isPass_recording pass
  have caps : CapSourced t.hist.delivered (a.passStart t.world.recorder).cap := by
    simpa using followed.caps
  have tracked : Tracked cfg t.hist.delivered t.hist.drained (a.passStart t.world.recorder).cap := by
    simpa using followed.tracked recording
  have tracks := capture_tracks a.passMono (by simpa using recording) caps
    (by simpa using followed.ports) tracked alive
  rw [clockDrain_passStart] at tracks
  rw [History.drainedBy, sinceStart_pass pass]
  exact tracks

theorem passed_ports (followed : Followed cfg t) (pass : a.isPass t.world.recorder = true) :
    PortsSourced t.hist.delivered (passed cfg a t.world.recorder).subs := by
  rw [passed, capture_subs a.passMono (by simpa using isPass_recording pass)]
  exact (sourced_arrive cfg a.passMono (by simpa using followed.caps)
    (by simpa using followed.ports)).2

/-- A step that hands nothing over keeps the invariant as soon as it keeps its
first parts. -/
theorem followed_of_same {w' : World P V} (followed : Followed cfg t)
    (same : submissions w'.recorder.journal = submissions t.world.recorder.journal)
    (ports : PortsSourced (t.hist.next cfg t.world a w').delivered w'.recorder.subs)
    (caps : CapSourced t.hist.delivered w'.recorder.cap)
    (tracked : w'.recorder.state = .recording →
      Tracked cfg t.hist.delivered (t.hist.drainedBy cfg t.world a) w'.recorder.cap) :
    Followed cfg ⟨w', t.hist.next cfg t.world a w'⟩ := by
  have wider := subset_next_delivered (a := a) (w := t.world) cfg t.hist w'
  refine ⟨ports, caps.mono wider, fun f mem => wider (drainedBy_sourced followed f mem),
    fun recording => (tracked recording).mono wider, ?_, fun h mem => ?_⟩
  · rw [next_handed_same cfg t.hist same, same]
    exact followed.jobs
  · rw [next_handed_same cfg t.hist same] at mem
    obtain ⟨⟨c, rows, t0, period, tracked'⟩, clock⟩ := followed.handed h mem
    exact ⟨⟨c, rows, t0, period, tracked'.mono wider⟩, fun f mem => wider (clock f mem)⟩

/-- A step that touches neither the ports nor the capture keeps the invariant. -/
theorem followed_of_kept {w' : World P V} (followed : Followed cfg t)
    (quiet : a.isPass t.world.recorder = false)
    (same : submissions w'.recorder.journal = submissions t.world.recorder.journal)
    (state : w'.recorder.state = t.world.recorder.state)
    (cap : w'.recorder.cap = t.world.recorder.cap)
    (ports : PortsSourced (t.hist.next cfg t.world a w').delivered w'.recorder.subs) :
    Followed cfg ⟨w', t.hist.next cfg t.world a w'⟩ := by
  refine followed_of_same followed same ports (cap ▸ followed.caps) ?_
  intro recording
  have recording' := state.symm.trans recording
  rw [History.drainedBy, sinceStart_quiet quiet recording', cap]
  exact followed.tracked recording'

theorem followed_init (initial : t.Init cfg) : Followed cfg t := by
  obtain ⟨booted, hist⟩ := initial
  refine ⟨?_, ?_, ?_, ?_, ?_, ?_⟩
  · rw [booted.subs]
    exact portsSourced_subscribe cfg _
  · rw [booted.cap]
    exact capSourced_empty _ rfl rfl
  · simp [hist]
  · simp [booted.state]
  · simp [hist, booted.journal]
  · simp [hist]

theorem followed_next (followed : Followed cfg t) {w' : World P V}
    (stepped : Stepped libs cfg t.world a w') :
    Followed cfg ⟨w', t.hist.next cfg t.world a w'⟩ := by
  have wider := subset_next_delivered (a := a) (w := t.world) cfg t.hist w'
  have ports := followed.ports.mono wider
  cases stepped with
  | delivered topic sample =>
      exact followed_of_kept followed rfl (by rw [deliver_eq]) (by rw [deliver_eq])
        (by rw [deliver_eq]) (portsSourced_deliver followed.ports topic sample)
  | filed stem content => exact followed_of_kept followed rfl rfl rfl rfl ports
  | ignored channel eventId env quiet => exact followed_of_kept followed quiet rfl rfl rfl ports
  | opened env period idle rate =>
      refine followed_of_same followed (by simp) ports (capSourced_empty _ rfl rfl) ?_
      intro _
      have none : t.hist.drainedBy cfg t.world (.event "recorder/control" ctlStart env) = [] :=
        sinceStart_idle idle
      rw [none]
      exact tracked_opened cfg _ rfl rfl rfl
  | discarded env recording =>
      exact followed_of_same followed (by simp) ports (capSourced_empty _ rfl rfl)
        fun alive => by simp at alive
  | collected env idle =>
      exact followed_of_kept followed (by simp [Action.isPass, idle]) (submissions_collect _)
        (by simp) (by simp) (by simpa using ports)
  | aborted _ pass dead =>
      exact followed_of_same followed (submissions_passed_dead pass dead)
        ((passed_ports followed pass).mono wider)
        (by rw [passed_cap_dead pass dead]; exact capSourced_empty _ rfl rfl)
        fun alive => by simp [dead] at alive
  | continued env recording alive heard =>
      have pass := isPass_tick env recording
      obtain ⟨caps, tracked⟩ := passed_tracks followed pass alive
      exact followed_of_same followed (submissions_passed_live pass alive)
        ((passed_ports followed pass).mono wider) caps fun _ => tracked
  | silent env recording alive timeout =>
      have pass := isPass_tick env recording
      exact followed_of_same followed (by simpa using submissions_passed_live pass alive)
        (by simpa using (passed_ports followed pass).mono wider) (capSourced_empty _ rfl rfl)
        fun alive => by simp at alive
  | submitted _ pass alive =>
      obtain ⟨caps, tracked⟩ := passed_tracks followed pass alive
      have same := passed_same pass alive
      have new : submissions (submitFinalize (a.settle (passed cfg a t.world.recorder))).journal =
          submissions t.world.recorder.journal ++
            [jobOf (a.settle (passed cfg a t.world.recorder))] := by
        simp [submissions_passed_live pass alive]
      refine ⟨by simpa using (passed_ports followed pass).mono wider, capSourced_empty _ rfl rfl,
        fun f mem => wider (drainedBy_sourced followed f mem), fun alive => by simp at alive, ?_, ?_⟩
      · rw [next_handed_new cfg t.hist new, new, List.map_append, followed.jobs]
        rfl
      · intro h mem
        rw [next_handed_new cfg t.hist new] at mem
        rcases List.mem_append.mp mem with old | last
        · obtain ⟨⟨c, rows, t0, period, tracked'⟩, clock⟩ := followed.handed h old
          exact ⟨⟨c, rows, t0, period, tracked'.mono wider⟩, fun f mem => wider (clock f mem)⟩
        · cases List.mem_singleton.mp last
          refine ⟨⟨(passed cfg a t.world.recorder).cap, ?_, ?_, ?_, tracked.mono wider⟩,
            fun f mem => wider (drainedBy_sourced followed f mem)⟩
          · simp [jobOf]
          · simpa using same.t0Ns.symm
          · simpa using same.periodNs.symm
  | waited call none => exact followed_of_kept followed rfl rfl rfl rfl ports
  | finished call job next =>
      exact followed_of_kept followed rfl (by simp [note]) rfl rfl ports

/-- **The run invariant** holds in every reachable state. -/
theorem reach_tracked (reach : Traced.Reach libs cfg t) : Followed cfg t :=
  reach_invariant (fun _ => followed_init) (fun _ _ _ followed _ stepped =>
    followed_next followed stepped) reach

end Run

end KoyuRuntime.Services.DataRecorder
