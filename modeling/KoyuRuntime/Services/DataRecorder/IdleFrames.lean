/-
# Services.DataRecorder.IdleFrames — frames queued before a start

Two runs of the same actions, one of which begins with frames in its clock port
that were queued while idle.  The fence is there to "ignore frames queued while
idle"; but a frame waits for its paired answers before it meets the fence, so an
idle frame whose answer never comes blocks the frames behind it.

`Twins` relates the two recorders: they are alike but for frames in front of the
queue or of the clock port.  Every handler keeps it (`step_twins`), a pass under
the condition `IdleHarmless`: whenever an idle frame waits, nothing but frames
before the fence is queued behind it.  Should another source read the clock's
topic too, the clock never delivers anything and the runs cannot differ.
-/
import KoyuRuntime.Services.DataRecorder.Lag
import KoyuRuntime.Services.DataRecorder.Tracking

namespace KoyuRuntime.Services.DataRecorder

open Host Theory Ipc

set_option autoImplicit false

variable {P V : Type}

/-! ## Recorders that differ in frames to come -/

/-- What an observer sees of a recorder's captures: equal rows, states, rings, jobs
and capture ends. -/
structure SameOutcome (r r' : Recorder P V) : Prop where
  state : r.state = r'.state
  rows : r.cap.rows = r'.cap.rows
  episode : r.episode = r'.episode
  pending : r.pending = r'.pending
  journal : r.journal = r'.journal

/-- Recorders that differ in ports, queue, caches and `clock_seen` only. -/
def Alike (r r' : Recorder P V) : Prop :=
  ∃ subs deferred cache pairCache seen, r =
    { r' with
      subs := subs
      cap := { r'.cap with
        deferred := deferred, cache := cache, pairCache := pairCache, clockSeen := seen } }

namespace Alike

variable {r r' : Recorder P V}

theorem outcome (alike : Alike r r') : SameOutcome r r' := by
  obtain ⟨subs, deferred, cache, pairCache, seen, rfl⟩ := alike
  exact ⟨rfl, rfl, rfl, rfl, rfl⟩

theorem published (alike : Alike r r') : Alike (publish r) (publish r') := by
  obtain ⟨subs, deferred, cache, pairCache, seen, rfl⟩ := alike
  exact ⟨subs, deferred, cache, pairCache, seen, rfl⟩

theorem aborted (alike : Alike r r') (reason : AbortReason) :
    Alike (abort reason r) (abort reason r') := by
  obtain ⟨subs, deferred, cache, pairCache, seen, rfl⟩ := alike
  exact ⟨subs, [], ∅, ∅, 0, rfl⟩

theorem discarded (alike : Alike r r') : Alike (discard r) (discard r') := by
  obtain ⟨subs, deferred, cache, pairCache, seen, rfl⟩ := alike
  exact ⟨subs, [], ∅, ∅, 0, rfl⟩

theorem submitted (alike : Alike r r') : Alike (submitFinalize r) (submitFinalize r') := by
  obtain ⟨subs, deferred, cache, pairCache, seen, rfl⟩ := alike
  exact ⟨subs, [], ∅, ∅, 0, rfl⟩

theorem opened (alike : Alike r r') (env : Readings) (snap : RecordingContext) (recHz : Double)
    (period : Int) : Alike (opened env snap recHz period r) (opened env snap recHz period r') := by
  obtain ⟨subs, deferred, cache, pairCache, seen, rfl⟩ := alike
  exact ⟨subs, [], ∅, ∅, env.mono, rfl⟩

theorem collected (alike : Alike r r') : Alike (collect r) (collect r') := by
  obtain ⟨subs, deferred, cache, pairCache, seen, rfl⟩ := alike
  rw [collect_eq, collect_eq]
  exact ⟨subs, deferred, cache, pairCache, seen, rfl⟩

end Alike

/-- Ports that agree everywhere but at one topic. -/
def PortsAgree (topic : String) (subs subs' : OrderedDict String (Subscriber P)) : Prop :=
  ∀ q, q ≠ topic → subs.get? q = subs'.get? q

/-- The first of two ports holds `extra` in front of what the second holds. -/
def Fronted (extra : List (Sample P)) : Option (Subscriber P) → Option (Subscriber P) → Prop
  | none, none => extra = []
  | some sub, some sub' => sub.depth = sub'.depth ∧ sub.items = extra ++ sub'.items
  | _, _ => False

theorem fronted_push {extra : List (Sample P)} {port port' : Option (Subscriber P)}
    (sample : Sample P) (fronted : Fronted extra port port') :
    ∃ left, left <:+ extra ∧ Fronted left (port.map fun sub => sub.push sample)
      (port'.map fun sub => sub.push sample) := by
  cases port with
  | none =>
      cases port' with
      | none => exact ⟨extra, List.suffix_refl _, fronted⟩
      | some sub' => exact fronted.elim
  | some sub =>
      cases port' with
      | none => exact fronted.elim
      | some sub' =>
          obtain ⟨left, suffix, items⟩ := BoundedQueue.push_shadow sample fronted.1 fronted.2
          exact ⟨left, suffix, fronted.1, items⟩

/-- How the two recorders differ: the first has idle frames in front of the clock
port, or frames before the fence in front of the queue; or the clock is mute,
because another source empties its port. -/
inductive Differ (cfg : Config P V) (idle : List (Sample P)) (r r' : Recorder P V) : Prop where
  | front (left extra : List (Sample P)) (apart : ∀ s ∈ cfg.others, s.topic ≠ cfg.clock.topic)
      (cache : r.cap.cache = r'.cap.cache) (pairCache : r.cap.pairCache = r'.cap.pairCache)
      (queue : r.cap.deferred = left ++ r'.cap.deferred)
      (early : ∀ f ∈ left, f.stamp < r'.cap.t0Ns)
      (ports : PortsAgree cfg.clock.topic r.subs r'.subs)
      (clock : Fronted extra (r.subs.get? cfg.clock.topic) (r'.subs.get? cfg.clock.topic))
      (inside : extra ⊆ idle) (place : extra = [] ∨ left = [] ∧ r'.cap.deferred = [])
  | mute (s : Source P V) (mem : s ∈ cfg.others) (shared : s.topic = cfg.clock.topic)
      (queue : r.cap.deferred = []) (queue' : r'.cap.deferred = [])

structure Twins (cfg : Config P V) (idle : List (Sample P)) (r r' : Recorder P V) : Prop where
  alike : Alike r r'
  differ : Differ cfg idle r r'

namespace Differ

variable {cfg : Config P V} {idle : List (Sample P)} {r r' s s' : Recorder P V}

/-- Only captures and ports matter. -/
theorem congr (differ : Differ cfg idle r r') (cap : s.cap = r.cap) (subs : s.subs = r.subs)
    (cap' : s'.cap = r'.cap) (subs' : s'.subs = r'.subs) : Differ cfg idle s s' := by
  cases differ with
  | front left extra apart cache pairCache queue early ports clock inside place =>
      exact .front left extra apart (by rwa [cap, cap']) (by rwa [cap, cap']) (by rwa [cap, cap'])
        (by rwa [cap']) (by rwa [subs, subs']) (by rwa [subs, subs']) inside (by rwa [cap'])
  | mute source mem shared queue queue' =>
      exact .mute source mem shared (cap ▸ queue) (cap' ▸ queue')

/-- Two captures begun or ended alike differ in ports at most. -/
theorem cleared (differ : Differ cfg idle r r') (cap : ∃ c : Capture P V, c.deferred = [] ∧
    s.cap = c ∧ s'.cap = c) (subs : s.subs = r.subs) (subs' : s'.subs = r'.subs) :
    Differ cfg idle s s' := by
  obtain ⟨c, empty, cap, cap'⟩ := cap
  cases differ with
  | front left extra apart cache pairCache queue early ports clock inside place =>
      exact .front [] extra apart (by rw [cap, cap']) (by rw [cap, cap']) (by rw [cap, cap']; rfl)
        (by simp) (by rwa [subs, subs']) (by rwa [subs, subs']) inside
        (.inr ⟨rfl, by rw [cap', empty]⟩)
  | mute source mem shared queue queue' =>
      exact .mute source mem shared (by rw [cap, empty]) (by rw [cap', empty])

end Differ

/-! ## A pass -/

section Pass

variable {cfg : Config P V} {idle : List (Sample P)} {topic : String} {left extra : List (Sample P)}
  {seen : ℚ} {subs : OrderedDict String (Subscriber P)} {r : Recorder P V}

theorem portsAgree_set {subs' : OrderedDict String (Subscriber P)}
    (ports : PortsAgree topic subs subs') (q : String) (sub : Subscriber P) :
    PortsAgree topic (subs.set q sub) (subs'.set q sub) := by
  intro q' other
  rw [OrderedDict.get?_set, OrderedDict.get?_set, ports q' other]

/-- Reading a source of another topic is the same on both sides. -/
theorem refreshSource_lag (left : List (Sample P)) (seen : ℚ) {s : Source P V} (apart : s.topic ≠ topic)
    (ports : PortsAgree topic subs r.subs) :
    ∃ subs', refreshSource (lag left seen subs r) s = lag left seen subs' (refreshSource r s) ∧
      PortsAgree topic subs' (refreshSource r s).subs ∧ subs'.get? topic = subs.get? topic ∧
      (refreshSource r s).subs.get? topic = r.subs.get? topic := by
  have same := ports s.topic apart
  cases port : r.subs.get? s.topic with
  | none =>
      rw [port] at same
      refine ⟨subs, ?_, ?_, rfl, ?_⟩ <;> cases paired : s.paired <;>
        simp [refreshSource, drainTopic, latestTopic, paired, port, same, lag, ports]
  | some sub =>
      rw [port] at same
      have ports' := portsAgree_set ports s.topic sub.cleared
      refine ⟨subs.set s.topic sub.cleared, ?_, ?_, OrderedDict.get?_set_ne _ _ apart, ?_⟩ <;>
        cases paired : s.paired <;> cases newest : sub.items.getLast? <;>
        simp [refreshSource, drainTopic, latestTopic, Subscriber.drain, Subscriber.latest, paired, port,
          same, newest, lag, ports', OrderedDict.get?_set_ne _ _ apart]

theorem refresh_lag (left : List (Sample P)) (seen : ℚ) (apart : ∀ s ∈ cfg.others, s.topic ≠ topic)
    (ports : PortsAgree topic subs r.subs) :
    ∃ subs', refresh cfg (lag left seen subs r) = lag left seen subs' (refresh cfg r) ∧
      PortsAgree topic subs' (refresh cfg r).subs ∧ subs'.get? topic = subs.get? topic ∧
      (refresh cfg r).subs.get? topic = r.subs.get? topic := by
  unfold refresh
  generalize cfg.others = sources at apart ⊢
  induction sources generalizing subs r with
  | nil => exact ⟨subs, rfl, ports, rfl, rfl⟩
  | cons s rest ih =>
      obtain ⟨apartHead, apartRest⟩ := List.forall_mem_cons.mp apart
      obtain ⟨subs₁, read, ports₁, mine₁, theirs₁⟩ :=
        refreshSource_lag left seen apartHead ports
      obtain ⟨subs₂, reads, ports₂, mine₂, theirs₂⟩ := ih ports₁ apartRest
      exact ⟨subs₂, by rw [List.foldl_cons, read, reads, List.foldl_cons], ports₂,
        mine₂.trans mine₁, theirs₂.trans theirs₁⟩

/-- Draining the clock takes the extra frames first and leaves both ports empty. -/
theorem drainTopic_lag (left : List (Sample P)) (seen : ℚ)
    (clock : Fronted extra (subs.get? topic) (r.subs.get? topic))
    (ports : PortsAgree topic subs r.subs) :
    (drainTopic topic (lag left seen subs r)).1 = extra ++ (drainTopic topic r).1 ∧
      ∃ subs', (drainTopic topic (lag left seen subs r)).2 = lag left seen subs' (drainTopic topic r).2 ∧
        PortsAgree topic subs' (drainTopic topic r).2.subs ∧
        Fronted [] (subs'.get? topic) ((drainTopic topic r).2.subs.get? topic) := by
  have read : (lag left seen subs r).subs = subs := rfl
  cases mine : subs.get? topic with
  | none =>
      cases theirs : r.subs.get? topic with
      | none =>
          rw [mine, theirs] at clock
          refine ⟨by simpa [drainTopic, read, mine, theirs] using clock.symm, subs, ?_, ?_, ?_⟩ <;>
            simp [drainTopic, read, mine, theirs, ports, Fronted]
      | some sub => simp [mine, theirs, Fronted] at clock
  | some sub =>
      cases theirs : r.subs.get? topic with
      | none => simp [mine, theirs, Fronted] at clock
      | some sub' =>
          rw [mine, theirs] at clock
          obtain ⟨depth, items⟩ := clock
          refine ⟨by simpa [drainTopic, Subscriber.drain, read, mine, theirs] using items,
            subs.set topic sub.cleared, ?_, ?_, ?_⟩
          · simp [drainTopic, Subscriber.drain, mine, theirs, lag]
          · intro q other
            simp only [drainTopic, theirs, Subscriber.drain]
            rw [OrderedDict.get?_set_ne _ _ (Ne.symm other), OrderedDict.get?_set_ne _ _ (Ne.symm other),
              ports q other]
          · simp [drainTopic, theirs, Subscriber.drain, Fronted, depth]

/-- The drained frames join the queue, and the clock has been heard if there are any. -/
def enqueue (mono : ℚ) (read : List (Sample P) × Recorder P V) : Recorder P V :=
  let r := if read.1 ≠ [] then { read.2 with cap.clockSeen := mono } else read.2
  { r with cap.deferred := r.cap.deferred ++ read.1 }

theorem arrive_eq (cfg : Config P V) (mono : ℚ) (r : Recorder P V) :
    arrive cfg mono r = enqueue mono (drainTopic cfg.clock.topic (refresh cfg r)) := rfl

@[simp] theorem enqueue_subs (mono : ℚ) (read : List (Sample P) × Recorder P V) :
    (enqueue mono read).subs = read.2.subs := by
  simp only [enqueue]
  split <;> rfl

/-- The extra frames stand behind the queue they are drained into, unless one of
the two is empty. -/
theorem enqueue_lag (mono seen : ℚ) (subs : OrderedDict String (Subscriber P))
    (frames : List (Sample P))
    (place : extra = [] ∨ left = [] ∧ r.cap.deferred = []) :
    ∃ seen', enqueue mono (extra ++ frames, lag left seen subs r) =
      lag (left ++ extra) seen' subs (enqueue mono (frames, r)) := by
  have order : left ++ r.cap.deferred ++ (extra ++ frames) =
      left ++ extra ++ (r.cap.deferred ++ frames) := by
    rcases place with none | ⟨-, none⟩ <;> simp [none]
  refine ⟨if extra ++ frames ≠ [] then mono else seen, ?_⟩
  by_cases drained : frames = [] <;> by_cases more : extra = [] <;>
    simp_all [enqueue, lag]

/-- **The start of a pass**: the extra frames end up in front of the queue. -/
theorem arrive_lag (left : List (Sample P)) (seen mono : ℚ)
    (apart : ∀ s ∈ cfg.others, s.topic ≠ cfg.clock.topic)
    (ports : PortsAgree cfg.clock.topic subs r.subs)
    (clock : Fronted extra (subs.get? cfg.clock.topic) (r.subs.get? cfg.clock.topic))
    (place : extra = [] ∨ left = [] ∧ r.cap.deferred = []) :
    ∃ seen' subs', arrive cfg mono (lag left seen subs r) =
        lag (left ++ extra) seen' subs' (arrive cfg mono r) ∧
      PortsAgree cfg.clock.topic subs' (arrive cfg mono r).subs ∧
      Fronted [] (subs'.get? cfg.clock.topic) ((arrive cfg mono r).subs.get? cfg.clock.topic) := by
  obtain ⟨subs₁, refreshed, ports₁, mine, theirs⟩ :=
    refresh_lag left seen apart ports
  rw [← mine, ← theirs] at clock
  obtain ⟨frames, subs₂, drained, ports₂, clock₂⟩ :=
    drainTopic_lag left seen clock ports₁
  have queue : (drainTopic cfg.clock.topic (refresh cfg r)).2.cap.deferred = r.cap.deferred := by
    obtain ⟨subs₃, shape⟩ := drainTopic_shape cfg.clock.topic (refresh cfg r)
    obtain ⟨subs₄, cache, pairs, shape'⟩ := refresh_shape cfg r
    rw [shape, shape']
  obtain ⟨seen', joined⟩ := enqueue_lag mono seen subs₂
    (drainTopic cfg.clock.topic (refresh cfg r)).1 (queue.symm ▸ place)
  refine ⟨seen', subs₂, ?_, by simpa [arrive_eq] using ports₂, by simpa [arrive_eq] using clock₂⟩
  rw [arrive_eq, arrive_eq, refreshed, ← joined, ← frames, ← drained]

/-- The condition on a pass with idle frames about: they are still before the fence,
and none of them waits in front of a frame that is not. -/
def PassHarmless (cfg : Config P V) (idle : List (Sample P)) (r : Recorder P V) : Prop :=
  (∀ f ∈ r.cap.deferred, f ∈ idle → f.stamp < r.cap.t0Ns) ∧ FrontHarmless cfg r

theorem capture_front {r' : Recorder P V} (mono : ℚ) (recording : r.state = .recording)
    (shape : r' = lag left seen subs r) (apart : ∀ s ∈ cfg.others, s.topic ≠ cfg.clock.topic)
    (early : ∀ f ∈ left, f.stamp < r.cap.t0Ns) (ports : PortsAgree cfg.clock.topic subs r.subs)
    (clock : Fronted extra (subs.get? cfg.clock.topic) (r.subs.get? cfg.clock.topic))
    (inside : extra ⊆ idle) (place : extra = [] ∨ left = [] ∧ r.cap.deferred = [])
    (harmless : PassHarmless cfg idle (arrive cfg mono r')) :
    Twins cfg idle (capture cfg mono r') (capture cfg mono r) := by
  obtain ⟨seen', subs', arrived, ports', clock'⟩ :=
    arrive_lag left seen mono apart ports clock place
  subst shape
  rw [arrived] at harmless
  have same := sameShell_arrive cfg mono r
  have live : (arrive cfg mono r).state = .recording := same.state.trans recording
  have early' : ∀ f ∈ left ++ extra, f.stamp < (arrive cfg mono r).cap.t0Ns := by
    intro f mem
    rcases List.mem_append.mp mem with old | new
    · rw [same.t0Ns]
      exact early f old
    · exact harmless.1 f (List.mem_append_left _ mem) (inside new)
  obtain ⟨left', early'', ended⟩ := consume_lagged live early' harmless.2
  have whole : capture cfg mono (lag left seen subs r) =
      lagAfter left' seen' subs' (capture cfg mono r) := by
    rw [capture, arrived]
    exact ended
  have subsKept : (capture cfg mono r).subs = (arrive cfg mono r).subs := capture_subs mono recording
  rw [whole]
  by_cases alive : (capture cfg mono r).state = .recording
  · rw [lagAfter_live alive]
    have t0 : (capture cfg mono r).cap.t0Ns = (arrive cfg mono r).cap.t0Ns := by
      have effect := capture_effect cfg mono recording
      generalize capture cfg mono r = out at effect alive
      cases effect with
      | live more => rw [more.t0Ns, same.t0Ns]
      | aborted => simp at alive
    exact ⟨⟨subs', _, _, _, seen', rfl⟩, .front left' [] apart rfl rfl rfl (t0 ▸ early'')
      (subsKept ▸ ports') (subsKept ▸ clock') (by simp) (.inl rfl)⟩
  · have dead := state_idle_of_ne alive
    rw [lagAfter_idle dead]
    exact ⟨⟨subs', _, _, _, _, rfl⟩, .front [] [] apart rfl rfl rfl (by simp)
      (subsKept ▸ ports') (subsKept ▸ clock') (by simp) (.inl rfl)⟩

/-- Nothing waits at a topic's port. -/
def PortVacant (topic : String) (subs : OrderedDict String (Subscriber P)) : Prop :=
  ∀ sub, subs.get? topic = some sub → sub.items = []

theorem portVacant_set {subs : OrderedDict String (Subscriber P)} (vacant : PortVacant topic subs)
    (q : String) (sub : Subscriber P) : PortVacant topic (subs.set q sub.cleared) := by
  intro sub' found
  rw [OrderedDict.get?_set] at found
  split at found
  · cases found
    rfl
  · exact vacant sub' found

/-- A read empties the port of its own topic and fills no other. -/
theorem refreshSource_vacant (topic : String) (r : Recorder P V) (s : Source P V) :
    PortVacant s.topic (refreshSource r s).subs ∧
      (PortVacant topic r.subs → PortVacant topic (refreshSource r s).subs) := by
  cases port : r.subs.get? s.topic with
  | none =>
      have kept : (refreshSource r s).subs = r.subs := by
        cases paired : s.paired <;> simp [refreshSource, drainTopic, latestTopic, paired, port]
      rw [kept]
      exact ⟨fun sub found => by simp [port] at found, id⟩
  | some sub =>
      have emptied : (refreshSource r s).subs = r.subs.set s.topic sub.cleared := by
        cases paired : s.paired <;> cases newest : sub.items.getLast? <;>
          simp [refreshSource, drainTopic, latestTopic, Subscriber.drain, Subscriber.latest, paired,
            port, newest]
      rw [emptied]
      exact ⟨fun sub' found => by
        rw [OrderedDict.get?_set_self] at found
        cases found
        rfl, fun vacant => portVacant_set vacant s.topic sub⟩

/-- **A mute clock**: another source of its topic takes every frame first. -/
theorem clockDrain_mute {s : Source P V} (mem : s ∈ cfg.others) (shared : s.topic = cfg.clock.topic)
    (r : Recorder P V) : clockDrain cfg r = [] := by
  have vacant : PortVacant cfg.clock.topic (refresh cfg r).subs := by
    unfold refresh
    obtain ⟨before, after, split⟩ := List.append_of_mem mem
    rw [split, List.foldl_append, List.foldl_cons]
    generalize before.foldl refreshSource r = r'
    have own : PortVacant cfg.clock.topic (refreshSource r' s).subs :=
      shared ▸ (refreshSource_vacant s.topic r' s).1
    generalize refreshSource r' s = r'' at own
    clear split
    induction after generalizing r'' with
    | nil => exact own
    | cons s' rest ih => exact ih _ ((refreshSource_vacant _ r'' s').2 own)
  unfold clockDrain drainTopic
  split
  · rfl
  · rename_i sub found
    exact vacant sub found

theorem capture_mute {s : Source P V} (mono : ℚ) (mem : s ∈ cfg.others)
    (shared : s.topic = cfg.clock.topic) (queue : r.cap.deferred = []) :
    ∃ subs cache pairCache seen, capture cfg mono r =
      { r with
        subs := subs
        cap := { r.cap with cache := cache, pairCache := pairCache, clockSeen := seen } } := by
  obtain ⟨subs, clockSeen, shape⟩ := arrive_shape cfg mono r
  obtain ⟨subs', cache, pairs, refreshed⟩ := refresh_shape cfg r
  rw [clockDrain_mute mem shared, List.append_nil, refreshed] at shape
  have empty : (arrive cfg mono r).cap.deferred = [] := by
    rw [shape]
    exact queue
  refine ⟨subs, cache, pairs, clockSeen, ?_⟩
  rw [capture, empty]
  exact shape

/-- **A pass of twins** leaves twins. -/
theorem capture_twins {r' : Recorder P V} (mono : ℚ) (recording : r.state = .recording)
    (twins : Twins cfg idle r' r) (harmless : PassHarmless cfg idle (arrive cfg mono r')) :
    Twins cfg idle (capture cfg mono r') (capture cfg mono r) := by
  obtain ⟨⟨subs, deferred, cache, pairCache, seen, shape⟩, differ⟩ := twins
  cases differ with
  | front left extra apart sameCache samePairs queue early ports clock inside place =>
      subst shape
      simp only at sameCache samePairs queue ports clock
      subst sameCache samePairs queue
      exact capture_front mono recording rfl apart early ports clock inside place harmless
  | mute s mem shared queue queue' =>
      obtain ⟨subs₁, cache₁, pairs₁, seen₁, eq₁⟩ := capture_mute mono mem shared queue
      obtain ⟨subs₂, cache₂, pairs₂, seen₂, eq₂⟩ := capture_mute mono mem shared queue'
      rw [eq₁, eq₂]
      refine ⟨⟨subs₁, r'.cap.deferred, cache₁, pairs₁, seen₁, ?_⟩, .mute s mem shared queue queue'⟩
      subst shape
      rfl

end Pass

/-! ## Every handler -/

namespace Twins

variable {cfg : Config P V} {idle : List (Sample P)} {r r' : Recorder P V}

theorem state (twins : Twins cfg idle r r') : r.state = r'.state := twins.alike.outcome.state

theorem published (twins : Twins cfg idle r r') : Twins cfg idle (publish r) (publish r') :=
  ⟨twins.alike.published, twins.differ.congr rfl rfl rfl rfl⟩

theorem collected (twins : Twins cfg idle r r') : Twins cfg idle (collect r) (collect r') :=
  ⟨twins.alike.collected, twins.differ.congr (collect_cap r) (collect_subs r) (collect_cap r')
    (collect_subs r')⟩

theorem aborted (twins : Twins cfg idle r r') (reason : AbortReason) :
    Twins cfg idle (abort reason r) (abort reason r') :=
  ⟨twins.alike.aborted reason, twins.differ.cleared ⟨{}, rfl, rfl, rfl⟩ rfl rfl⟩

theorem discarded (twins : Twins cfg idle r r') : Twins cfg idle (discard r) (discard r') :=
  ⟨twins.alike.discarded, twins.differ.cleared ⟨{}, rfl, rfl, rfl⟩ rfl rfl⟩

theorem submitted (twins : Twins cfg idle r r') :
    Twins cfg idle (submitFinalize r) (submitFinalize r') :=
  ⟨twins.alike.submitted, twins.differ.cleared ⟨{}, rfl, rfl, rfl⟩ rfl rfl⟩

theorem opened (twins : Twins cfg idle r r') (env : Readings) (snap : RecordingContext)
    (recHz : Double) (period : Int) :
    Twins cfg idle (opened env snap recHz period r) (opened env snap recHz period r') :=
  ⟨twins.alike.opened env snap recHz period,
    twins.differ.cleared ⟨_, rfl, opened_cap .., opened_cap ..⟩ rfl rfl⟩

theorem delivered (twins : Twins cfg idle r r') (topic : String) (sample : Sample P) :
    Twins cfg idle (deliver topic sample r) (deliver topic sample r') := by
  have alike : Alike (deliver topic sample r) (deliver topic sample r') := by
    obtain ⟨subs, deferred, cache, pairCache, seen, rfl⟩ := twins.alike
    rw [deliver_eq, deliver_eq]
    exact ⟨_, deferred, cache, pairCache, seen, rfl⟩
  refine ⟨alike, ?_⟩
  rw [deliver_eq, deliver_eq]
  cases twins.differ with
  | mute s mem shared queue queue' => exact .mute s mem shared queue queue'
  | front left extra apart cache pairCache queue early ports clock inside place =>
      have ports' : PortsAgree cfg.clock.topic (pushed topic sample r.subs)
          (pushed topic sample r'.subs) := by
        intro q other
        rw [get?_pushed, get?_pushed, ports q other]
      by_cases same : topic = cfg.clock.topic
      · obtain ⟨extra', suffix, clock'⟩ : ∃ extra', extra' <:+ extra ∧
            Fronted extra' ((pushed topic sample r.subs).get? cfg.clock.topic)
              ((pushed topic sample r'.subs).get? cfg.clock.topic) := by
          rw [get?_pushed, get?_pushed, if_pos same, if_pos same]
          exact fronted_push sample clock
        refine .front left extra' apart cache pairCache queue early ports' clock'
          (List.Subset.trans suffix.subset inside) (place.imp ?_ id)
        intro none
        rw [none] at suffix
        exact List.suffix_nil.mp suffix
      · refine .front left extra apart cache pairCache queue early ports' ?_ inside place
        rw [get?_pushed, get?_pushed, if_neg same, if_neg same]
        exact clock

end Twins

/-! ## Every run -/

/-- No tick finds the clock silent. -/
def ClockHeard (cfg : Config P V) (t : Traced P V) : Action P → Prop
  | .tick env => (passed cfg (.tick env) t.world.recorder).state = .recording →
      clockSilent env.monoAfter (passed cfg (.tick env) t.world.recorder) = false
  | _ => True

/-- The pass of an action meets no idle frame that matters. -/
def IdleHarmless (cfg : Config P V) (idle : List (Sample P)) (t : Traced P V) (a : Action P) : Prop :=
  a.isPass t.world.recorder = true →
    PassHarmless cfg idle (arrive cfg a.passMono (a.passStart t.world.recorder))

instance (cfg : Config P V) (t : Traced P V) : (a : Action P) → Decidable (ClockHeard cfg t a)
  | .tick _ => inferInstanceAs (Decidable (_ → _))
  | .deliver _ _ => isTrue trivial
  | .submit _ _ => isTrue trivial
  | .event _ _ _ => isTrue trivial
  | .finish _ => isTrue trivial

instance [DecidableEq P] (cfg : Config P V) (idle : List (Sample P)) (t : Traced P V)
    (a : Action P) : Decidable (IdleHarmless cfg idle t a) :=
  inferInstanceAs (Decidable (_ → (∀ f ∈ _, f ∈ idle → _) ∧ (_ ∨ _)))

/-- Two idle recorders, the first of which holds the idle frames in front of its
clock port. -/
structure QueuedWhileIdle (cfg : Config P V) (idle : List (Sample P)) (t t' : Traced P V) : Prop where
  state : t'.world.recorder.state = .idle
  queue : t'.world.recorder.cap.deferred = []
  same : ∃ subs, t.world =
      { t'.world with recorder := { t'.world.recorder with subs := subs } } ∧
    PortsAgree cfg.clock.topic subs t'.world.recorder.subs ∧
    Fronted idle (subs.get? cfg.clock.topic) (t'.world.recorder.subs.get? cfg.clock.topic)

section Run

variable {libs : Libs V} {cfg : Config P V} {idle : List (Sample P)} {r r' : Recorder P V}

theorem twins_stop (mono : ℚ) (twins : Twins cfg idle r r') (recording : r'.state = .recording)
    (harmless : PassHarmless cfg idle (arrive cfg mono r)) :
    Twins cfg idle (stop cfg mono r) (stop cfg mono r') := by
  have passed := capture_twins mono recording twins harmless
  simp only [stop, passed.state]
  split
  · exact passed.submitted
  · exact passed

theorem twins_onTick (env : TickReadings) (twins : Twins cfg idle r r')
    (harmless : r.state = .recording → PassHarmless cfg idle (arrive cfg env.mono (collect r)))
    (heard : (capture cfg env.mono (collect r)).state = .recording →
      clockSilent env.monoAfter (capture cfg env.mono (collect r)) = false)
    (heard' : (capture cfg env.mono (collect r')).state = .recording →
      clockSilent env.monoAfter (capture cfg env.mono (collect r')) = false) :
    Twins cfg idle (onTick cfg env r) (onTick cfg env r') := by
  unfold onTick
  by_cases recording : r'.state = .recording
  swap
  · simp only [collect_state, twins.state, recording, ne_eq, not_false_eq_true, if_true]
    exact twins.collected
  have recording₁ : r.state = .recording := twins.state.trans recording
  have passed := capture_twins env.mono (by simpa using recording) twins.collected
    (harmless recording₁)
  simp only [collect_state, recording, recording₁, ne_eq, not_true_eq_false, if_false]
  by_cases alive : (capture cfg env.mono (collect r')).state = .recording
  swap
  · rw [if_pos alive, if_pos (passed.state ▸ alive)]
    exact passed
  have alive₁ := passed.state.trans alive
  rw [if_neg (not_not.mpr alive), if_neg (not_not.mpr alive₁)]
  have quiet : clockSilent env.monoAfter (publish (capture cfg env.mono (collect r))) = false :=
    heard alive₁
  have quiet' : clockSilent env.monoAfter (publish (capture cfg env.mono (collect r'))) = false :=
    heard' alive
  simp only [afterPass, quiet, quiet', Bool.false_eq_true, if_false]
  have rows := passed.published.alike.outcome.rows
  rw [rows]
  split
  · exact passed.published.submitted
  · exact passed.published

theorem twins_onEvent {channel : String} {eventId : Nat} {env : Readings} {out : Recorder P V}
    (twins : Twins cfg idle r r')
    (harmless : (Action.event channel eventId env : Action P).isPass r = true →
      PassHarmless cfg idle (arrive cfg env.mono r))
    (handled : onEvent cfg channel eventId env r = .ok out) :
    ∃ out', onEvent cfg channel eventId env r' = .ok out' ∧ Twins cfg idle out out' := by
  have state := twins.state
  unfold onEvent at handled ⊢
  by_cases control : channel = "recorder/control"
  swap
  · rw [if_pos control] at handled ⊢
    cases handled
    exact ⟨r', rfl, twins⟩
  rw [if_neg (not_not.mpr control)] at handled ⊢
  rw [state] at handled
  by_cases isStart : eventId = ctlStart
  · rw [if_pos isStart] at handled ⊢
    by_cases isIdle : r'.state = .idle
    · rw [if_neg (not_not.mpr isIdle), start] at handled ⊢
      cases rate : periodOf (readRecordHz cfg env.config) with
      | error e => simp [rate, Except.map] at handled
      | ok period =>
          simp only [rate, Except.map, Except.ok.injEq] at handled ⊢
          subst handled
          exact ⟨_, rfl, twins.opened env _ _ period⟩
    · rw [if_pos isIdle] at handled ⊢
      cases handled
      exact ⟨r', rfl, twins⟩
  rw [if_neg isStart] at handled ⊢
  by_cases isDiscard : eventId = ctlDiscard ∧ r'.state = .recording
  · rw [if_pos isDiscard] at handled ⊢
    cases handled
    exact ⟨_, rfl, twins.discarded⟩
  rw [if_neg isDiscard] at handled ⊢
  by_cases isStop : eventId = ctlStop ∧ r'.state = .recording
  · rw [if_pos isStop] at handled ⊢
    cases handled
    have pass : (Action.event channel eventId env : Action P).isPass r = true := by
      simp [Action.isPass, control, isStop.1, state, isStop.2]
    exact ⟨_, rfl, twins_stop env.mono twins isStop.2 (harmless pass)⟩
  · rw [if_neg isStop] at handled ⊢
    cases handled
    exact ⟨r', rfl, twins⟩

/-- Twins that share a disk. -/
def TwinWorlds (cfg : Config P V) (idle : List (Sample P)) (t t' : Traced P V) : Prop :=
  Twins cfg idle t.world.recorder t'.world.recorder ∧ t.world.disk = t'.world.disk

theorem twins_world {w w' out : World P V} {a : Action P}
    (twins : Twins cfg idle w.recorder w'.recorder) (disk : w.disk = w'.disk)
    (harmless : a.isPass w.recorder = true →
      PassHarmless cfg idle (arrive cfg a.passMono (a.passStart w.recorder)))
    (heard : ∀ env, a = .tick env → (passed cfg a w.recorder).state = .recording →
      clockSilent env.monoAfter (passed cfg a w.recorder) = false)
    (heard' : ∀ env, a = .tick env → (passed cfg a w'.recorder).state = .recording →
      clockSilent env.monoAfter (passed cfg a w'.recorder) = false)
    (step : w.step libs cfg a = .ok out) :
    ∃ out', w'.step libs cfg a = .ok out' ∧
      Twins cfg idle out.recorder out'.recorder ∧ out.disk = out'.disk := by
  cases a with
  | deliver topic sample =>
      cases step
      exact ⟨_, rfl, twins.delivered topic sample, disk⟩
  | submit stem content =>
      cases step
      refine ⟨_, rfl, ⟨?_, twins.differ.congr rfl rfl rfl rfl⟩, disk⟩
      obtain ⟨subs, deferred, cache, pairCache, seen, shape⟩ := twins.alike
      rw [shape]
      exact ⟨subs, deferred, cache, pairCache, seen, rfl⟩
  | event channel eventId env =>
      simp only [World.step] at step ⊢
      cases handled : onEvent cfg channel eventId env w.recorder with
      | error e => simp [handled, Except.map] at step
      | ok r =>
          simp only [handled, Except.map, Except.ok.injEq] at step
          subst step
          obtain ⟨r', handled', twins'⟩ := twins_onEvent twins harmless handled
          exact ⟨{ w' with recorder := r' }, by rw [handled']; rfl, twins', disk⟩
  | tick env =>
      cases step
      refine ⟨_, rfl, twins_onTick env twins ?_ (heard env rfl) (heard' env rfl),
        disk⟩
      intro recording
      exact harmless (isPass_tick _ recording)
  | finish call =>
      cases step
      refine ⟨_, rfl, ?_⟩
      have pending := twins.alike.outcome.pending
      simp only [finishNext, pending, disk]
      cases nextJob w'.recorder.pending with
      | none => exact ⟨twins, disk⟩
      | some job =>
          refine ⟨⟨?_, twins.differ.congr rfl rfl rfl rfl⟩, rfl⟩
          obtain ⟨subs, deferred, cache, pairCache, seen, shape⟩ := twins.alike
          rw [shape]
          exact ⟨subs, deferred, cache, pairCache, seen, rfl⟩

theorem twins_step {t t' out : Traced P V} {a : Action P} (twins : TwinWorlds cfg idle t t')
    (harmless : IdleHarmless cfg idle t a ∧ ClockHeard cfg t a) (heard' : ClockHeard cfg t' a)
    (step : Traced.step libs cfg t a = .ok out) :
    ∃ out', Traced.step libs cfg t' a = .ok out' ∧ TwinWorlds cfg idle out out' := by
  obtain ⟨twins, disk⟩ := twins
  have sameFresh : fresh cfg t'.world a = fresh cfg t.world a := by
    cases a <;> simp [fresh, twins.state, twins.alike.outcome.journal, disk]
  unfold Traced.step at step
  split at step
  · rename_i isFresh
    split at step
    · rename_i w stepped
      cases step
      obtain ⟨w', stepped', twins'⟩ := twins_world twins disk harmless.1
        (fun env eq => by subst eq; exact harmless.2) (fun env eq => by subst eq; exact heard') stepped
      exact ⟨⟨w', t'.hist.next cfg t'.world a w'⟩, by
        rw [Traced.step, if_pos (sameFresh.trans isFresh), stepped'], twins'⟩
    · cases step
  · cases step

theorem QueuedWhileIdle.twins {t t' : Traced P V} (queued : QueuedWhileIdle cfg idle t t') :
    TwinWorlds cfg idle t t' := by
  obtain ⟨subs, same, ports, clock⟩ := queued.same
  rw [TwinWorlds, same]
  refine ⟨⟨⟨subs, _, _, _, _, rfl⟩, ?_⟩, rfl⟩
  by_cases shared : ∃ s ∈ cfg.others, s.topic = cfg.clock.topic
  · obtain ⟨s, mem, eq⟩ := shared
    exact .mute s mem eq queued.queue queued.queue
  · refine .front [] idle (fun s mem eq => shared ⟨s, mem, eq⟩) rfl rfl rfl (by simp) ports clock
      (fun _ mem => mem) (.inr ⟨rfl, queued.queue⟩)

/-- **Idle frames do not influence a recording**, the liveness timer aside, as long
as no pass meets one that is past the fence or waits in front of such a frame. -/
theorem idle_frames_harmless {t t' out : Traced P V} {actions : List (Action P)}
    (queued : QueuedWhileIdle cfg idle t t')
    (harmless : Along (Traced.step libs cfg)
      (fun s a => IdleHarmless cfg idle s a ∧ ClockHeard cfg s a) t actions)
    (heard : Along (Traced.step libs cfg) (ClockHeard cfg) t' actions)
    (run : runs (Traced.step libs cfg) t actions = .ok out) :
    ∃ out', runs (Traced.step libs cfg) t' actions = .ok out' ∧
      SameOutcome out.world.recorder out'.world.recorder := by
  have next : ∀ (s s' : Traced P V) (a : Action P) (o : Traced P V), TwinWorlds cfg idle s s' →
      IdleHarmless cfg idle s a ∧ ClockHeard cfg s a → ClockHeard cfg s' a →
      Traced.step libs cfg s a = .ok o →
      ∃ o', Traced.step libs cfg s' a = .ok o' ∧ TwinWorlds cfg idle o o' :=
    fun _ _ _ _ twins harmless heard step => twins_step twins harmless heard step
  obtain ⟨out', run', twins⟩ := runs_simulated next queued.twins harmless heard run
  exact ⟨out', run', twins.1.alike.outcome⟩

/-- A recorder with a frame stamped 500 in its clock port. -/
def Demo.withIdleFrame : Traced Nat Nat := Demo.after [.deliver "cam/front" ⟨500, 4, 40⟩]

theorem Demo.queued : QueuedWhileIdle Demo.rig [⟨500, 4, 40⟩] Demo.withIdleFrame Demo.boot where
  state := rfl
  queue := rfl
  same := ⟨pushed "cam/front" ⟨500, 4, 40⟩ (subscribe Demo.rig), rfl,
    fun q other => (get?_pushed _ _ _ q).trans (if_neg (Ne.symm other)), rfl, rfl⟩

/-- A start at 1000, then one complete frame; `answers` reach the action topic first. -/
def Demo.oneFrame (answers : List (Action Nat)) : List (Action Nat) :=
  Demo.startAt 1000 :: answers ++
    [.deliver "cam/front" ⟨2000, 5, 50⟩, .deliver "joint/state" ⟨1500, 1, 7⟩,
      .deliver "act/cmd" ⟨2100, 5, 55⟩, Demo.tickNow]

theorem idle_frames_harmless_oneFrame :
    ∃ out, runs (Traced.step Demo.libs Demo.rig) Demo.boot
        (Demo.oneFrame [.deliver "act/cmd" ⟨600, 4, 44⟩]) = .ok out ∧
      SameOutcome (endState (Traced.step Demo.libs Demo.rig) Demo.withIdleFrame
        (Demo.oneFrame [.deliver "act/cmd" ⟨600, 4, 44⟩])).world.recorder out.world.recorder :=
  idle_frames_harmless Demo.queued (by decide +kernel) (by decide +kernel)
    (runs_of_accepts (by decide +kernel))

/-- The idle frame's answer never comes: it blocks the frame past the fence, which
is a row of the other run. -/
theorem idle_frame_blocks :
    QueuedWhileIdle Demo.rig [⟨500, 4, 40⟩] Demo.withIdleFrame Demo.boot ∧
      Along (Traced.step Demo.libs Demo.rig) (ClockHeard Demo.rig) Demo.withIdleFrame
        (Demo.oneFrame []) ∧
      Along (Traced.step Demo.libs Demo.rig) (ClockHeard Demo.rig) Demo.boot (Demo.oneFrame []) ∧
      ∃ out out',
        runs (Traced.step Demo.libs Demo.rig) Demo.withIdleFrame (Demo.oneFrame []) = .ok out ∧
        runs (Traced.step Demo.libs Demo.rig) Demo.boot (Demo.oneFrame []) = .ok out' ∧
        ¬ SameOutcome out.world.recorder out'.world.recorder := by
  refine ⟨Demo.queued, by decide +kernel, by decide +kernel, _, _,
    runs_of_accepts (by decide +kernel), runs_of_accepts (by decide +kernel), ?_⟩
  intro same
  have rows := congrArg List.length same.rows
  exact absurd rows (by decide +kernel)

end Run

end KoyuRuntime.Services.DataRecorder
