/-
# Services.DataRecorder.PairCache — the pair cache never evicts a needed answer

The pair cache of a source holds at most `PAIR_CACHE` answers and evicts the ones
with the smallest ids, while a clock frame may wait for another source's answer over
many ticks.  An answer is needed as long as its frame is in the deferred queue.

* `evict_keeps` — an id survives if no more than `PAIR_CACHE` ids are from it on.
* `Kept` — between passes every answered frame of the queue finds its answer, and
  whatever has been drained beyond a queued frame answers a frame behind it in the
  queue; so at most `2 * CLOCK_BUFFER` held ids are from a queued frame on.
* `pair_cache_keeps` — at every loop head of every pass a frame whose answer has been
  drained finds it, and "paired source never matched" means one was not drained.
-/
import KoyuRuntime.Services.DataRecorder.SharedTopics
import Mathlib.Data.List.Perm.Subperm

namespace KoyuRuntime.Services.DataRecorder

open Host Theory Ipc

set_option autoImplicit false

variable {P V : Type}

/-! ## Eviction -/

section Evict

variable {held : OrderedDict Nat (Sample P)} {id : Nat}

theorem mem_keys_erase {k : Nat} : id ∈ (held.erase k).keys ↔ id ≠ k ∧ id ∈ held.keys := by
  rw [OrderedDict.mem_keys_iff, OrderedDict.mem_keys_iff, OrderedDict.get?_erase]
  by_cases same : k = id
  · simp [same]
  · simp [same, Ne.symm same]

/-- Eviction keeps an id if no more than the bound of ids are from it on. -/
theorem evict_keeps {fuel : Nat} (mem : id ∈ held.keys)
    (few : (held.keys.filter fun k => decide (id ≤ k)).length ≤ pairCacheCap) :
    id ∈ (evict fuel held).keys := by
  induction fuel generalizing held with
  | zero => exact mem
  | succ fuel ih =>
      rw [evict]
      by_cases full : held.size > pairCacheCap
      swap
      · rw [if_neg full]
        exact mem
      rw [if_pos full]
      cases least : held.keys.min? with
      | none => exact mem
      | some oldest =>
          have other : id ≠ oldest := by
            rintro rfl
            -- all held ids are from the smallest on
            have all : held.keys.filter (fun k => decide (id ≤ k)) = held.keys := by
              rw [List.filter_eq_self]
              intro k inside
              exact decide_eq_true ((List.min?_eq_some_iff.mp least).2 k inside)
            rw [all, OrderedDict.keys, List.length_map] at few
            exact absurd few (not_le.mpr full)
          apply ih (mem_keys_erase.mpr ⟨other, mem⟩)
          have sub : (held.erase oldest).keys.Sublist held.keys := List.filter_sublist.map Prod.fst
          exact (sub.filter _).length_le.trans few

/-- An entered cache keeps an id whose successors all lie in a short window. -/
theorem enter_keeps {samples : List (Sample P)} (window : List Nat)
    (mem : id ∈ held.keys ∨ id ∈ samples.map Sample.frameId)
    (among : ∀ k, (k ∈ held.keys ∨ k ∈ samples.map Sample.frameId) → id ≤ k → k ∈ window)
    (short : window.length ≤ pairCacheCap) : id ∈ (enter held samples).keys := by
  have ids : (samples.map fun x => (x.frameId, x)).map Prod.fst = samples.map Sample.frameId := by
    rw [List.map_map]
    rfl
  have inside : id ∈ (held.setAll (samples.map fun x => (x.frameId, x))).keys :=
    OrderedDict.mem_keys_setAll _ _ (by rwa [ids])
  apply evict_keeps inside
  have sub : (held.setAll (samples.map fun x => (x.frameId, x))).keys.filter (fun k => decide (id ≤ k)) ⊆
      window := by
    intro k found
    obtain ⟨present, from_on⟩ := List.mem_filter.mp found
    refine among k ?_ (of_decide_eq_true from_on)
    obtain ⟨x, read⟩ := Option.isSome_iff_exists.mp (OrderedDict.mem_keys_iff.mp present)
    rcases OrderedDict.get?_setAll_cases _ _ read with new | old
    · right
      rw [← ids]
      exact List.mem_map_of_mem new
    · left
      exact OrderedDict.mem_keys_iff.mpr (by rw [old]; rfl)
  have distinct := (held.setAll (samples.map fun x => (x.frameId, x))).nodup.filter
    (fun k => decide (id ≤ k))
  exact (List.subperm_of_subset distinct sub).length_le.trans short

/-- What an entered cache holds was held or has entered. -/
theorem mem_enter {samples : List (Sample P)} (mem : id ∈ (enter held samples).keys) :
    id ∈ held.keys ∨ id ∈ samples.map Sample.frameId := by
  obtain ⟨x, read⟩ := Option.isSome_iff_exists.mp (OrderedDict.mem_keys_iff.mp mem)
  rcases OrderedDict.get?_setAll_cases _ _ (get?_evict read) with new | old
  · right
    obtain ⟨y, inside, same⟩ := List.mem_map.mp new
    cases same
    exact List.mem_map_of_mem inside
  · left
    exact OrderedDict.mem_keys_iff.mpr (by rw [old]; rfl)

/-- A held id is one its source has an answer under. -/
theorem mem_heldAnswers {s : Source P V} {r : Recorder P V} :
    id ∈ (heldAnswers s.topic r).keys ↔ (answer r.cap s id).isSome := by
  rw [OrderedDict.mem_keys_iff, heldAnswers, answer]
  cases r.cap.pairCache.get? s.topic <;> simp

end Evict

/-! ## The depth of a port -/

/-- The depth of the port of a topic, if it has one. -/
def depthAt (topic : String) (subs : OrderedDict String (Subscriber P)) : Option Nat :=
  (subs.get? topic).map BoundedQueue.depth

section Depth

variable {cfg : Config P V} {topic : String}

theorem depthAt_pushed (q : String) (x : Sample P) (subs : OrderedDict String (Subscriber P)) :
    depthAt topic (pushed q x subs) = depthAt topic subs := by
  rw [depthAt, get?_pushed, depthAt]
  split
  · cases subs.get? topic <;> rfl
  · rfl

/-- A cleared port keeps its depth. -/
theorem depthAt_clear {q : String} {sub : Subscriber P} {subs : OrderedDict String (Subscriber P)}
    (found : subs.get? q = some sub) : depthAt topic (subs.set q sub.cleared) = depthAt topic subs := by
  rw [depthAt, OrderedDict.get?_set, depthAt]
  split
  · rename_i same
    rw [← same, found]
    rfl
  · rfl

theorem depthAt_drainTopic (q : String) (r : Recorder P V) :
    depthAt topic (drainTopic q r).2.subs = depthAt topic r.subs := by
  unfold drainTopic
  split
  · rfl
  · rename_i sub found
    exact depthAt_clear found

theorem depthAt_latestTopic (q : String) (r : Recorder P V) :
    depthAt topic (latestTopic q r).2.subs = depthAt topic r.subs := by
  unfold latestTopic
  split
  · rfl
  · rename_i sub found
    exact depthAt_clear found

theorem depthAt_refreshSource (s : Source P V) (r : Recorder P V) :
    depthAt topic (refreshSource r s).subs = depthAt topic r.subs := by
  unfold refreshSource
  split
  · exact depthAt_drainTopic s.topic r
  · have read : depthAt topic (latestTopic s.topic r).2.subs = depthAt topic r.subs :=
      depthAt_latestTopic s.topic r
    split
    · rename_i sample r' eq
      rw [eq] at read
      exact read
    · rename_i r' eq
      rw [eq] at read
      exact read

theorem depthAt_refresh (r : Recorder P V) :
    depthAt topic (refresh cfg r).subs = depthAt topic r.subs := by
  unfold refresh
  induction cfg.others generalizing r with
  | nil => rfl
  | cons s rest ih => rw [List.foldl_cons, ih, depthAt_refreshSource]

theorem depthAt_passed {a : Action P} {r : Recorder P V} (pass : a.isPass r = true) :
    depthAt topic (passed cfg a r).subs = depthAt topic r.subs := by
  have recording : (a.passStart r).state = .recording := by simpa using isPass_recording pass
  have ports : (arrive cfg a.passMono (a.passStart r)).subs =
      (drainTopic cfg.clock.topic (refresh cfg (a.passStart r))).2.subs := by
    simp only [arrive]
    split <;> rfl
  rw [passed, capture_subs a.passMono recording, ports, depthAt_drainTopic, depthAt_refresh,
    passStart_subs]

/-- No action changes the depth of a port. -/
theorem depthAt_step {libs : Libs V} {w w' : World P V} {a : Action P}
    (step : w.step libs cfg a = .ok w') :
    depthAt topic w'.recorder.subs = depthAt topic w.recorder.subs := by
  cases step_cases step with
  | delivered q x =>
      rw [deliver_eq]
      exact depthAt_pushed q x w.recorder.subs
  | filed => rfl
  | ignored => rfl
  | opened => rfl
  | discarded => rfl
  | collected => rw [collect_subs]
  | aborted _ pass => exact depthAt_passed pass
  | continued env recording =>
      rw [publish_subs]
      exact depthAt_passed (isPass_tick env recording)
  | silent env recording =>
      rw [abort_subs, publish_subs]
      exact depthAt_passed (isPass_tick env recording)
  | submitted a pass =>
      rw [submitFinalize_subs, settle_subs]
      exact depthAt_passed pass
  | waited => rfl
  | finished => rfl

/-- Ports are at most `CLOCK_BUFFER` deep, and the clock's own port is just that. -/
structure PortDepths (cfg : Config P V) (subs : OrderedDict String (Subscriber P)) : Prop where
  bound : ∀ topic depth, depthAt topic subs = some depth → depth ≤ clockBuffer
  clock : cfg.clock.topic ∉ cfg.others.map Source.topic →
    depthAt cfg.clock.topic subs = some clockBuffer

theorem portDepths_subscribe (cfg : Config P V) : PortDepths cfg (subscribe cfg) := by
  have shallow : ∀ paired : Bool, (if paired then clockBuffer else 1) ≤ clockBuffer := by decide
  constructor
  · intro topic depth at_
    obtain ⟨sub, found, rfl⟩ := Option.map_eq_some_iff.mp at_
    have listed := OrderedDict.mem_of_get?_ofList found
    simp only [List.mem_append, List.mem_map, List.mem_cons, Prod.mk.injEq] at listed
    rcases listed with ⟨s, -, -, rfl⟩ | ⟨-, rfl⟩ | ⟨s, -, -, rfl⟩
    · exact shallow s.paired
    · exact le_rfl
    · exact shallow s.paired
  · intro own
    have listed : (cfg.clock.topic, (BoundedQueue.empty clockBuffer : Subscriber P)) ∈
        (cfg.before.map fun s => (s.topic, BoundedQueue.empty (if s.paired then clockBuffer else 1))) ++
          (cfg.clock.topic, BoundedQueue.empty clockBuffer) ::
            cfg.after.map fun s => (s.topic, BoundedQueue.empty (if s.paired then clockBuffer else 1)) :=
      List.mem_append_right _ List.mem_cons_self
    obtain ⟨sub, found, inside⟩ := OrderedDict.exists_get?_ofList listed
    have elsewhere : ∀ s ∈ cfg.others, s.topic ≠ cfg.clock.topic :=
      fun s mem same => own (List.mem_map.mpr ⟨s, mem, same⟩)
    have depth : sub.depth = clockBuffer := by
      simp only [List.mem_append, List.mem_map, List.mem_cons, Prod.mk.injEq] at inside
      rcases inside with ⟨s, mem, same, -⟩ | ⟨-, rfl⟩ | ⟨s, mem, same, -⟩
      · exact absurd same (elsewhere s (List.mem_append_left _ mem))
      · rfl
      · exact absurd same (elsewhere s (List.mem_append_right _ mem))
    rw [depthAt, subscribe, found, ← depth]
    rfl

/-- The worlds of the recorder's runs. -/
def World.Reach (libs : Libs V) (cfg : Config P V) : World P V → Prop :=
  Reachable (World.step libs cfg) fun w => w.recorder.Booted cfg

theorem portDepths_reach {libs : Libs V} {w : World P V} (reach : World.Reach libs cfg w) :
    PortDepths cfg w.recorder.subs := by
  have base : ∀ w : World P V, w.recorder.Booted cfg → PortDepths cfg w.recorder.subs := by
    intro w booted
    rw [booted.subs]
    exact portDepths_subscribe cfg
  refine Reachable.invariant base ?_ reach
  intro w a w' depths step
  exact ⟨fun topic depth at_ => depths.bound topic depth (depthAt_step step ▸ at_),
    fun own => (depthAt_step step).trans (depths.clock own)⟩

/-- So a port never holds more than `CLOCK_BUFFER` samples. -/
theorem PortDepths.length_queued {subs : OrderedDict String (Subscriber P)}
    (depths : PortDepths cfg subs) (topic : String) : (queued topic subs).length ≤ clockBuffer := by
  unfold queued
  cases found : subs.get? topic with
  | none => exact Nat.zero_le _
  | some sub => exact sub.bounded.trans (depths.bound topic sub.depth (by rw [depthAt, found]; rfl))

/-- What a delivery leaves at its port was there or is the sample. -/
theorem mem_queued_pushed {subs : OrderedDict String (Subscriber P)} {q : String} {x y : Sample P}
    (mem : y ∈ queued topic (pushed q x subs)) : y ∈ queued topic subs ∨ y = x := by
  rw [queued, get?_pushed] at mem
  by_cases here : q = topic
  · rw [if_pos here] at mem
    cases found : subs.get? topic with
    | none =>
        rw [found] at mem
        cases mem
    | some sub =>
        rw [found] at mem
        rw [queued, found]
        exact BoundedQueue.mem_push mem
  · rw [if_neg here] at mem
    exact .inl mem

/-- A sample at a port of depth `CLOCK_BUFFER` pushes the oldest out of a full one. -/
theorem queued_pushed_deep {subs : OrderedDict String (Subscriber P)}
    (deep : depthAt topic subs = some clockBuffer) (x : Sample P) :
    queued topic (pushed topic x subs) = keepLast clockBuffer (queued topic subs ++ [x]) := by
  obtain ⟨sub, found, depth⟩ := Option.map_eq_some_iff.mp deep
  rw [queued, get?_pushed, if_pos rfl, found, queued, found]
  show keepLast sub.depth (sub.items ++ [x]) = _
  rw [depth]

end Depth

/-! ## Between passes -/

/-- The ids of samples. -/
abbrev ids (samples : List (Sample P)) : List Nat := samples.map Sample.frameId

/-- Of increasing ids, one after an id of a suffix is in the suffix. -/
theorem mem_suffix_of_lt {l all : List Nat} {x y : Nat} (suffix : l <:+ all)
    (increasing : all.Pairwise (· < ·)) (mem : x ∈ l) (later : x < y) (inside : y ∈ all) : y ∈ l := by
  obtain ⟨before, rfl⟩ := suffix
  rcases List.mem_append.mp inside with front | back
  · have below := (List.pairwise_append.mp increasing).2.2 y front x mem
    omega
  · exact back

/-- A recording between passes: `published` are the ids of the clock frames published
so far and `taken` the ids a paired topic's reads have put into its cache. -/
structure Kept (cfg : Config P V) (published : List Nat) (taken : String → List Nat)
    (r : Recorder P V) : Prop where
  port : ids (queued cfg.clock.topic r.subs) <:+ published
  /-- No frame behind a queued one has been lost, unless the port is full. -/
  behind : (queued cfg.clock.topic r.subs).length = clockBuffer ∨
    ids (r.cap.deferred ++ queued cfg.clock.topic r.subs) <:+ published
  short : r.cap.deferred.length ≤ clockBuffer
  known : ∀ s ∈ cfg.others, s.paired = true →
    ∀ id ∈ taken s.topic ++ ids (queued s.topic r.subs), id ∈ published
  /-- The frames at the port came after every answer taken. -/
  later : ∀ s ∈ cfg.others, s.paired = true → ∀ id ∈ taken s.topic,
    ∀ f ∈ queued cfg.clock.topic r.subs, id < f.frameId
  /-- An answer taken beyond a queued frame is to a frame behind it in the queue. -/
  ahead : ∀ s ∈ cfg.others, s.paired = true → ∀ id ∈ taken s.topic,
    ∀ f ∈ r.cap.deferred, f.frameId < id → id ∈ ids r.cap.deferred
  held : ∀ s ∈ cfg.others, s.paired = true → ∀ f ∈ r.cap.deferred, f.frameId ∈ taken s.topic →
    f.frameId ∈ (heldAnswers s.topic r).keys
  keys : ∀ s ∈ cfg.others, s.paired = true → ∀ id ∈ (heldAnswers s.topic r).keys, id ∈ taken s.topic

section Kept

variable {cfg : Config P V} {published : List Nat} {taken : String → List Nat} {r : Recorder P V}

/-- A step that moves neither the ports nor the capture keeps the invariant. -/
theorem Kept.congr {r' : Recorder P V} (kept : Kept cfg published taken r) (subs : r'.subs = r.subs)
    (cap : r'.cap = r.cap) : Kept cfg published taken r' := by
  have same (topic : String) : heldAnswers topic r' = heldAnswers topic r := by
    rw [heldAnswers, cap, heldAnswers]
  constructor
  · rw [subs]; exact kept.port
  · rw [subs, cap]; exact kept.behind
  · rw [cap]; exact kept.short
  · rw [subs]; exact kept.known
  · rw [subs]; exact kept.later
  · rw [cap]; exact kept.ahead
  · intro s mem paired
    rw [cap, same]
    exact kept.held s mem paired
  · intro s mem paired
    rw [same]
    exact kept.keys s mem paired

/-- What a START opens has taken nothing. -/
theorem kept_opened {r' : Recorder P V} (deferred : r'.cap.deferred = []) (cache : r'.cap.pairCache = ∅)
    (port : ids (queued cfg.clock.topic r'.subs) <:+ published)
    (known : ∀ s ∈ cfg.others, s.paired = true → ∀ x ∈ queued s.topic r'.subs, x.frameId ∈ published) :
    Kept cfg published (fun _ => []) r' where
  port := port
  behind := by
    rw [deferred, List.nil_append]
    exact .inr port
  short := by
    rw [deferred]
    exact Nat.zero_le _
  known s mem paired id inside := by
    rw [List.nil_append] at inside
    obtain ⟨x, queued_, rfl⟩ := List.mem_map.mp inside
    exact known s mem paired x queued_
  later _ _ _ _ inside := by cases inside
  ahead _ _ _ _ inside := by cases inside
  held _ _ _ _ _ inside := by cases inside
  keys s _ _ id inside := by simp [heldAnswers, cache] at inside

/-- A sample that reaches another topic than the clock's. -/
theorem Kept.answered {topic : String} {x : Sample P} (kept : Kept cfg published taken r)
    (other : topic ≠ cfg.clock.topic)
    (known : ∀ s ∈ cfg.others, s.paired = true → s.topic = topic → x.frameId ∈ published) :
    Kept cfg published taken { r with subs := pushed topic x r.subs } := by
  have clock : queued cfg.clock.topic (pushed topic x r.subs) = queued cfg.clock.topic r.subs := by
    rw [queued, get?_pushed, if_neg other, queued]
  constructor
  · rw [clock]; exact kept.port
  · rw [clock]; exact kept.behind
  · exact kept.short
  · intro s mem paired id inside
    rcases List.mem_append.mp inside with old | port
    · exact kept.known s mem paired id (List.mem_append_left _ old)
    · obtain ⟨y, at_port, rfl⟩ := List.mem_map.mp port
      by_cases here : topic = s.topic
      · rcases mem_queued_pushed at_port with before | rfl
        · exact kept.known s mem paired _ (List.mem_append_right _ (List.mem_map_of_mem before))
        · exact known s mem paired here.symm
      · rw [queued, get?_pushed, if_neg here] at at_port
        exact kept.known s mem paired _ (List.mem_append_right _ (List.mem_map_of_mem at_port))
  · rw [clock]; exact kept.later
  · exact kept.ahead
  · exact kept.held
  · exact kept.keys

/-- A clock frame that reaches the clock's own port. -/
theorem Kept.framed {x : Sample P} (kept : Kept cfg published taken r)
    (own : cfg.clock.topic ∉ cfg.others.map Source.topic)
    (deep : depthAt cfg.clock.topic r.subs = some clockBuffer)
    (increasing : (published ++ [x.frameId]).Pairwise (· < ·)) :
    Kept cfg (published ++ [x.frameId]) taken { r with subs := pushed cfg.clock.topic x r.subs } := by
  have elsewhere (s : Source P V) (mem : s ∈ cfg.others) :
      queued s.topic (pushed cfg.clock.topic x r.subs) = queued s.topic r.subs := by
    have other : cfg.clock.topic ≠ s.topic := fun same => own (same ▸ List.mem_map_of_mem mem)
    rw [queued, get?_pushed, if_neg other, queued]
  have port := queued_pushed_deep deep x
  have grown {l : List (Sample P)} (suffix : ids l <:+ published) :
      ids (l ++ [x]) <:+ published ++ [x.frameId] := by
    obtain ⟨before, rfl⟩ := suffix
    exact ⟨before, by simp [ids]⟩
  constructor
  · rw [port]
    exact ((keepLast_suffix _ _).map Sample.frameId).trans (grown kept.port)
  · -- a port with room keeps what it had, a full one stays full
    rw [port]
    by_cases room : (queued cfg.clock.topic r.subs).length < clockBuffer
    · right
      have all : keepLast clockBuffer (queued cfg.clock.topic r.subs ++ [x]) =
          queued cfg.clock.topic r.subs ++ [x] := by
        rw [keepLast, List.length_append, List.length_singleton,
          show (queued cfg.clock.topic r.subs).length + 1 - clockBuffer = 0 by omega, List.drop_zero]
      rw [all, ← List.append_assoc]
      exact grown (kept.behind.resolve_left (by omega))
    · left
      rw [keepLast, List.length_drop, List.length_append, List.length_singleton]
      omega
  · exact kept.short
  · intro s mem paired id inside
    rw [elsewhere s mem] at inside
    exact List.mem_append_left _ (kept.known s mem paired id inside)
  · intro s mem paired id inside f at_port
    have known := kept.known s mem paired id (List.mem_append_left _ inside)
    rcases mem_queued_pushed at_port with before | rfl
    · exact kept.later s mem paired id inside f before
    · exact (List.pairwise_append.mp increasing).2.2 id known f.frameId List.mem_cons_self
  · exact kept.ahead
  · exact kept.held
  · exact kept.keys

/-- **One read**: an answered frame of the queue, or one the pass drains, finds its
answer in the cache the read leaves: of the ids from its own on, those taken before
answer frames of the queue, and those read now are at most `CLOCK_BUFFER`. -/
theorem Kept.entered (kept : Kept cfg published taken r) (depths : PortDepths cfg r.subs)
    {s : Source P V} (mem : s ∈ cfg.others) (paired : s.paired = true) {f : Sample P}
    (waiting : f ∈ r.cap.deferred ++ queued cfg.clock.topic r.subs)
    (drained : f.frameId ∈ taken s.topic ++ ids (handed s.topic cfg.others r)) :
    f.frameId ∈ (enter (heldAnswers s.topic r) (handed s.topic cfg.others r)).keys := by
  have short : (handed s.topic cfg.others r).length ≤ clockBuffer := by
    unfold handed
    split
    · exact depths.length_queued s.topic
    · exact Nat.zero_le _
  have behind {k : Nat} (inside : k ∈ taken s.topic) (from_on : f.frameId ≤ k) :
      k ∈ ids r.cap.deferred := by
    rcases List.mem_append.mp waiting with deferred | port
    · rcases Nat.eq_or_lt_of_le from_on with same | beyond
      · exact same ▸ List.mem_map_of_mem deferred
      · exact kept.ahead s mem paired k inside f deferred beyond
    · have before := kept.later s mem paired k inside f port
      omega
  refine enter_keeps (ids r.cap.deferred ++ ids (handed s.topic cfg.others r)) ?_ ?_ ?_
  · rcases List.mem_append.mp drained with old | new
    · left
      rcases List.mem_append.mp waiting with deferred | port
      · exact kept.held s mem paired f deferred old
      · exact absurd (kept.later s mem paired _ old f port) (lt_irrefl _)
    · exact .inr new
  · intro k found from_on
    rcases found with old | new
    · exact List.mem_append_left _ (behind (kept.keys s mem paired k old) from_on)
    · exact List.mem_append_right _ new
  · have bound := kept.short
    simp only [List.length_append, List.length_map, pairCacheCap]
    omega

end Kept

/-! ## One pass -/

/-- The loop goes through the queue it starts from. -/
theorem AtFrame.split {cfg : Config P V} {r₀ r : Recorder P V} {done q : List (Sample P)}
    (head : AtFrame cfg r₀ done q r) : r₀.cap.deferred = done ++ q := by
  induction head with
  | start => rfl
  | next _ _ _ ih => rw [ih, List.append_assoc, List.singleton_append]

/-- A loop that leaves the recording alive ends at a head with a short queue. -/
theorem consume_short {cfg : Config P V} {r₀ : Recorder P V} (recording : r₀.state = .recording)
    (alive : (consume cfg r₀.cap.deferred r₀).state = .recording) :
    ∃ done q, AtFrame cfg r₀ done q (consume cfg r₀.cap.deferred r₀) ∧ q.length ≤ clockBuffer := by
  obtain ⟨done, q, r, head, end_⟩ := consume_ends cfg recording
  generalize consume cfg r₀.cap.deferred r₀ = out at end_ alive ⊢
  cases end_ with
  | emptied => exact ⟨done, [], head, Nat.zero_le _⟩
  | aborted dead =>
      rw [dead] at alive
      cases alive
  | waits _ room => exact ⟨done, _, head, room⟩
  | overflowed => cases alive

section Pass

variable {cfg : Config P V} {published : List Nat} {taken : String → List Nat} {r : Recorder P V}
  {a : Action P}

/-- What a pass starts its loop from. -/
theorem arrive_queue (own : cfg.clock.topic ∉ cfg.others.map Source.topic) :
    (arrive cfg a.passMono (a.passStart r)).cap.deferred =
      r.cap.deferred ++ queued cfg.clock.topic r.subs := by
  obtain ⟨subs, clockSeen, shape⟩ := arrive_shape cfg a.passMono (a.passStart r)
  rw [shape, clockDrain_eq, if_neg own, passStart_subs, passStart_cap]

theorem arrive_unqueued (shared : cfg.clock.topic ∈ cfg.others.map Source.topic)
    (none : r.cap.deferred = []) : (arrive cfg a.passMono (a.passStart r)).cap.deferred = [] := by
  obtain ⟨subs, clockSeen, shape⟩ := arrive_shape cfg a.passMono (a.passStart r)
  rw [shape, clockDrain_eq, if_pos shared, passStart_cap, none, List.append_nil]

theorem heldAnswers_arrive {s : Source P V} (mem : s ∈ cfg.others) (paired : s.paired = true) :
    heldAnswers s.topic (arrive cfg a.passMono (a.passStart r)) =
      enter (heldAnswers s.topic r) (handed s.topic cfg.others r) := by
  rw [heldAnswers, arrive_pairs a.passMono (a.passStart r) mem paired, Option.getD_some, heldAnswers,
    passStart_cap, handed, passStart_subs, heldAnswers, handed]

theorem heldAnswers_head {done q : List (Sample P)} {r' : Recorder P V}
    (head : AtFrame cfg (arrive cfg a.passMono (a.passStart r)) done q r') {s : Source P V}
    (mem : s ∈ cfg.others) (paired : s.paired = true) :
    heldAnswers s.topic r' = enter (heldAnswers s.topic r) (handed s.topic cfg.others r) := by
  rw [heldAnswers, head.lockstep_same.1]
  exact heldAnswers_arrive mem paired

/-- **Every loop head** of a pass: a queued frame whose answer has been drained, in this
pass or before, finds it. -/
theorem Kept.head (kept : Kept cfg published taken r) (depths : PortDepths cfg r.subs)
    (own : cfg.clock.topic ∉ cfg.others.map Source.topic) {done q : List (Sample P)}
    {r' : Recorder P V} (head : AtFrame cfg (arrive cfg a.passMono (a.passStart r)) done q r')
    {s : Source P V} (mem : s ∈ cfg.others) (paired : s.paired = true) {f : Sample P} (waiting : f ∈ q)
    (drained : f.frameId ∈ taken s.topic ++ ids (handed s.topic cfg.others r)) :
    f.frameId ∈ (heldAnswers s.topic r').keys := by
  rw [heldAnswers_head head mem paired]
  refine kept.entered depths mem paired ?_ drained
  rw [← arrive_queue (a := a) own, head.split]
  exact List.mem_append_right done waiting

/-- A pass that leaves the recording alive ends at a head with a short queue. -/
theorem passed_head (pass : a.isPass r = true) (alive : (passed cfg a r).state = .recording) :
    ∃ done q, AtFrame cfg (arrive cfg a.passMono (a.passStart r)) done q (passed cfg a r) ∧
      q.length ≤ clockBuffer := by
  have begun : (arrive cfg a.passMono (a.passStart r)).state = .recording :=
    (sameShell_arrive cfg a.passMono (a.passStart r)).state.trans (by simpa using isPass_recording pass)
  exact consume_short begun alive

/-- The answers drained by the end of a pass are to published frames. -/
theorem Kept.known_drained (kept : Kept cfg published taken r) {s : Source P V} (mem : s ∈ cfg.others)
    (paired : s.paired = true) {id : Nat}
    (inside : id ∈ taken s.topic ++ ids (handed s.topic cfg.others r)) : id ∈ published := by
  apply kept.known s mem paired id
  rcases List.mem_append.mp inside with old | new
  · exact List.mem_append_left _ old
  · unfold handed at new
    split at new
    · exact List.mem_append_right _ new
    · cases new

/-- What is left of the queue ends the published frames: it is short, so past a full port
it is made of frames the port held. -/
theorem Kept.left_suffix (kept : Kept cfg published taken r) {done q : List (Sample P)}
    (split : r.cap.deferred ++ queued cfg.clock.topic r.subs = done ++ q) (short : q.length ≤ clockBuffer) :
    ids q <:+ published := by
  rcases kept.behind with full | all
  · have inside : q <:+ queued cfg.clock.topic r.subs :=
      List.suffix_of_suffix_length_le (split ▸ List.suffix_append done q)
        (List.suffix_append _ _) (by omega)
    exact (inside.map Sample.frameId).trans kept.port
  · rw [split] at all
    exact ((List.suffix_append done q).map Sample.frameId).trans all

/-- **A whole pass** that leaves the recording alive keeps the invariant. -/
theorem Kept.passed (kept : Kept cfg published taken r) (depths : PortDepths cfg r.subs)
    (own : cfg.clock.topic ∉ cfg.others.map Source.topic) (increasing : published.Pairwise (· < ·))
    (pass : a.isPass r = true) (alive : (passed cfg a r).state = .recording) :
    Kept cfg published (fun topic => taken topic ++ ids (handed topic cfg.others r))
      (passed cfg a r) := by
  have recording : (a.passStart r).state = .recording := by simpa using isPass_recording pass
  obtain ⟨done, q, head, short⟩ := passed_head pass alive
  have queue := head.queue
  have empty (topic : String) (source : topic ∈ cfg.clock.topic :: cfg.others.map Source.topic) :
      queued topic (DataRecorder.passed cfg a r).subs = [] :=
    queued_capture source a.passMono recording
  have clock := empty cfg.clock.topic List.mem_cons_self
  have split : r.cap.deferred ++ queued cfg.clock.topic r.subs = done ++ q := by
    rw [← arrive_queue (a := a) own, head.split]
  have ends : ids q <:+ published := kept.left_suffix split short
  constructor
  · rw [clock]
    exact List.nil_suffix
  · right
    rw [clock, queue, List.append_nil]
    exact ends
  · rw [queue]
    exact short
  · intro s mem paired id inside
    rw [empty s.topic (List.mem_cons_of_mem _ (List.mem_map_of_mem mem))] at inside
    exact kept.known_drained mem paired (by simpa using inside)
  · rw [clock]
    intro _ _ _ _ _ _ none
    cases none
  · intro s mem paired id inside f waiting beyond
    rw [queue] at waiting ⊢
    exact mem_suffix_of_lt ends increasing (List.mem_map_of_mem waiting) beyond
      (kept.known_drained mem paired inside)
  · intro s mem paired f waiting drained
    rw [queue] at waiting
    exact kept.head depths own head mem paired waiting drained
  · intro s mem paired id inside
    rw [heldAnswers_head head mem paired] at inside
    rcases mem_enter inside with old | new
    · exact List.mem_append_left _ (kept.keys s mem paired id old)
    · exact List.mem_append_right _ new

/-- Where another source reads the clock's topic, a pass queues nothing. -/
theorem passed_unqueued (shared : cfg.clock.topic ∈ cfg.others.map Source.topic)
    (none : r.cap.deferred = []) (pass : a.isPass r = true)
    (alive : (passed cfg a r).state = .recording) : (passed cfg a r).cap.deferred = [] := by
  obtain ⟨done, q, head, -⟩ := passed_head pass alive
  have queue := head.split
  rw [arrive_unqueued shared none, eq_comm, List.append_eq_nil_iff] at queue
  exact head.queue.trans queue.2

end Pass

/-! ## Recordings -/

section Recordings

variable {libs : Libs V} {cfg : Config P V}

/-- What a recording hears on a topic: what was queued at its START, then what is
delivered. -/
def heard (topic : String) (w : World P V) (actions : List (Action P)) : List (Sample P) :=
  queued topic w.recorder.subs ++ sent topic actions

/-- The ids of the answers the passes of a run drain into the cache of a topic. -/
def drainedIds (libs : Libs V) (cfg : Config P V) (w : World P V) (actions : List (Action P))
    (topic : String) : List Nat :=
  ids (gathered libs cfg (handed topic cfg.others) w actions)

/-- A recording opened by START in `w₁` that is still going in `w₂`. -/
structure Recorded (libs : Libs V) (cfg : Config P V) (w₁ : World P V) (actions : List (Action P))
    (w₂ : World P V) : Prop where
  opened : ∃ w₀ env, World.Reach libs cfg w₀ ∧ w₀.recorder.state = .idle ∧
    w₀.step libs cfg (startWith env) = .ok w₁
  run : runs (World.step libs cfg) w₁ actions = .ok w₂
  lasting : ∀ before after w, actions = before ++ after → runs (World.step libs cfg) w₁ before = .ok w →
    w.recorder.state = .recording

/-- The publishers of a recording: clock frames come in increasing ids, after those
published before any the recording hears, and an answer is to a frame published by then.
Neither the order of the answers nor whether one is repeated matters. -/
structure Answering (cfg : Config P V) (older : List Nat) (w₁ : World P V)
    (actions : List (Action P)) : Prop where
  frames : (older ++ ids (heard cfg.clock.topic w₁ actions)).Pairwise (· < ·)
  published : ∀ before after, actions = before ++ after → ∀ s ∈ cfg.others, s.paired = true →
    ∀ x ∈ heard s.topic w₁ before, x.frameId ∈ older ++ ids (heard cfg.clock.topic w₁ before)

theorem gathered_snoc {α : Type} {read : Recorder P V → List α} {w w' : World P V}
    {actions : List (Action P)} (run : runs (World.step libs cfg) w actions = .ok w') (a : Action P) :
    gathered libs cfg read w (actions ++ [a]) = gathered libs cfg read w actions ++
      if a.isPass w'.recorder then read w'.recorder else [] := by
  induction actions generalizing w with
  | nil =>
      cases run
      simp only [List.nil_append, gathered]
      cases World.step libs cfg w' a <;> rw [List.append_nil]
  | cons b rest ih =>
      obtain ⟨mid, first, later⟩ := runs_cons_ok.mp run
      simp only [List.cons_append, gathered, first, ih later, List.append_assoc]

theorem heard_snoc (topic : String) (w : World P V) (actions : List (Action P)) (a : Action P) :
    ids (heard topic w (actions ++ [a])) = ids (heard topic w actions) ++ ids (sent topic [a]) := by
  simp [heard, sent, ids]

theorem drainedIds_snoc {w w' : World P V} {actions : List (Action P)}
    (run : runs (World.step libs cfg) w actions = .ok w') (a : Action P) (topic : String) :
    drainedIds libs cfg w (actions ++ [a]) topic = drainedIds libs cfg w actions topic ++
      if a.isPass w'.recorder then ids (handed topic cfg.others w'.recorder) else [] := by
  rw [drainedIds, gathered_snoc run a, ids, List.map_append, drainedIds]
  split <;> rfl

/-- **One action** of a recording that lives on. -/
theorem Kept.step {w w' : World P V} {a : Action P} {published : List Nat} {taken : String → List Nat}
    (kept : Kept cfg published taken w.recorder) (depths : PortDepths cfg w.recorder.subs)
    (own : cfg.clock.topic ∉ cfg.others.map Source.topic) (recording : w.recorder.state = .recording)
    (step : w.step libs cfg a = .ok w') (going : w'.recorder.state = .recording)
    (increasing : (published ++ ids (sent cfg.clock.topic [a])).Pairwise (· < ·))
    (known : ∀ s ∈ cfg.others, s.paired = true → ∀ x ∈ sent s.topic [a],
      x.frameId ∈ published ++ ids (sent cfg.clock.topic [a])) :
    Kept cfg (published ++ ids (sent cfg.clock.topic [a]))
      (fun topic => taken topic ++
        if a.isPass w.recorder then ids (handed topic cfg.others w.recorder) else []) w'.recorder := by
  have quiet : a.isPass w.recorder = false → sent cfg.clock.topic [a] = [] →
      w'.recorder.subs = w.recorder.subs → w'.recorder.cap = w.recorder.cap →
      Kept cfg (published ++ ids (sent cfg.clock.topic [a]))
        (fun topic => taken topic ++
          if a.isPass w.recorder then ids (handed topic cfg.others w.recorder) else []) w'.recorder := by
    intro noPass silent subs cap
    simp only [noPass, silent, Bool.false_eq_true, if_false, List.append_nil, ids, List.map_nil]
    exact kept.congr subs cap
  cases step_cases step with
  | delivered topic x =>
      simp only [Action.isPass, Bool.false_eq_true, if_false, List.append_nil, deliver_eq]
      by_cases clock : topic = cfg.clock.topic
      · subst clock
        have one : sent cfg.clock.topic [Action.deliver cfg.clock.topic x] = [x] := by simp [sent]
        rw [one] at increasing ⊢
        exact kept.framed own (depths.clock own) increasing
      · have none : sent cfg.clock.topic [Action.deliver topic x] = [] := by simp [sent, clock]
        rw [none, ids, List.map_nil, List.append_nil] at known ⊢
        exact kept.answered clock fun s mem paired same => known s mem paired x (by simp [sent, same])
  | filed => exact quiet rfl rfl rfl rfl
  | ignored channel eventId env noPass => exact quiet noPass rfl rfl rfl
  | opened env period idle =>
      rw [idle] at recording
      cases recording
  | discarded => cases going
  | collected env idle =>
      rw [idle] at recording
      cases recording
  | aborted a pass dead =>
      rw [dead] at going
      cases going
  | continued env _ alive =>
      have pass := isPass_tick (P := P) env recording
      have none : sent cfg.clock.topic [Action.tick env] = ([] : List (Sample P)) := rfl
      simp only [pass, if_true, none, ids, List.map_nil, List.append_nil] at increasing ⊢
      exact (kept.passed depths own increasing pass alive).congr (publish_subs _) (publish_cap _)
  | silent => cases going
  | submitted => cases going
  | waited => exact quiet rfl rfl rfl rfl
  | finished => exact quiet rfl rfl rfl rfl

variable {w₁ w₂ : World P V} {actions : List (Action P)} {older : List Nat}

theorem Recorded.recording (recorded : Recorded libs cfg w₁ actions w₂) :
    w₂.recorder.state = .recording :=
  recorded.lasting actions [] w₂ (List.append_nil actions).symm recorded.run

theorem Recorded.depths (recorded : Recorded libs cfg w₁ actions w₂) :
    PortDepths cfg w₂.recorder.subs := by
  obtain ⟨w₀, env, reach, -, opens⟩ := recorded.opened
  exact portDepths_reach ((reach.next opens).after recorded.run)

/-- A recording begins with nothing queued and nothing held. -/
theorem Recorded.fresh (recorded : Recorded libs cfg w₁ [] w₂) :
    w₂ = w₁ ∧ w₂.recorder.cap.deferred = [] ∧ w₂.recorder.cap.pairCache = ∅ := by
  have same : w₂ = w₁ := (Except.ok.inj recorded.run).symm
  subst same
  refine ⟨rfl, ?_⟩
  obtain ⟨w₀, env, -, idle, opens⟩ := recorded.opened
  unfold startWith at opens
  cases step_cases opens with
  | ignored _ _ _ _ noStart => exact absurd idle (noStart rfl rfl)
  | opened => exact ⟨rfl, rfl⟩
  | aborted _ pass =>
      rw [isPass_recording pass] at idle
      cases idle
  | submitted _ pass =>
      rw [isPass_recording pass] at idle
      cases idle

theorem Recorded.front {a : Action P} (recorded : Recorded libs cfg w₁ (actions ++ [a]) w₂) :
    ∃ mid, Recorded libs cfg w₁ actions mid ∧ mid.step libs cfg a = .ok w₂ := by
  obtain ⟨mid, first, last⟩ := runs_append_ok.mp recorded.run
  obtain ⟨w, step, rest⟩ := runs_cons_ok.mp last
  cases rest
  refine ⟨mid, ⟨recorded.opened, first, ?_⟩, step⟩
  intro before after w split run
  exact recorded.lasting before (after ++ [a]) w (by rw [split, List.append_assoc]) run

theorem Answering.front {a : Action P} (answering : Answering cfg older w₁ (actions ++ [a])) :
    Answering cfg older w₁ actions where
  frames := by
    have all := answering.frames
    rw [heard_snoc, ← List.append_assoc] at all
    exact (List.pairwise_append.mp all).1
  published before after split := answering.published before (after ++ [a]) (by
    rw [split, List.append_assoc])

/-- **The run invariant** of a recording whose clock has its topic to itself. -/
theorem Recorded.kept (own : cfg.clock.topic ∉ cfg.others.map Source.topic)
    (recorded : Recorded libs cfg w₁ actions w₂) (answering : Answering cfg older w₁ actions) :
    Kept cfg (older ++ ids (heard cfg.clock.topic w₁ actions)) (drainedIds libs cfg w₁ actions)
      w₂.recorder := by
  induction actions using List.reverseRecOn generalizing w₂ with
  | nil =>
      obtain ⟨rfl, queue, cache⟩ := recorded.fresh
      have none (topic : String) : heard topic w₂ [] = queued topic w₂.recorder.subs := by
        simp [heard, sent]
      refine kept_opened queue cache ?_ ?_
      · rw [none]
        exact List.suffix_append _ _
      · intro s mem paired x at_port
        exact answering.published [] [] rfl s mem paired x (by rwa [none])
  | append_singleton actions a ih =>
      obtain ⟨mid, recorded', step⟩ := recorded.front
      have frames := answering.frames
      rw [heard_snoc, ← List.append_assoc] at frames ⊢
      have next := (ih recorded' answering.front).step recorded'.depths own recorded'.recording step
        recorded.recording frames ?_
      · have taken : drainedIds libs cfg w₁ (actions ++ [a]) = fun topic =>
            drainedIds libs cfg w₁ actions topic ++
              if a.isPass mid.recorder then ids (handed topic cfg.others mid.recorder) else [] := by
          funext topic
          exact drainedIds_snoc recorded'.run a topic
        rw [taken]
        exact next
      · intro s mem paired x delivered
        have known := answering.published (actions ++ [a]) [] (List.append_nil _).symm s mem paired x
          (by
            rw [heard, sent, List.flatMap_append]
            exact List.mem_append_right _ (List.mem_append_right _ delivered))
        rwa [heard_snoc, ← List.append_assoc] at known

/-- Where another source reads the clock's topic, no frame is ever queued. -/
theorem Recorded.unqueued (shared : cfg.clock.topic ∈ cfg.others.map Source.topic)
    (recorded : Recorded libs cfg w₁ actions w₂) : w₂.recorder.cap.deferred = [] := by
  induction actions using List.reverseRecOn generalizing w₂ with
  | nil =>
      obtain ⟨rfl, queue, -⟩ := recorded.fresh
      exact queue
  | append_singleton actions a ih =>
      obtain ⟨mid, recorded', step⟩ := recorded.front
      have before := ih recorded'
      have going := recorded.recording
      cases step_cases step with
      | delivered topic x =>
          rw [deliver_eq]
          exact before
      | filed => exact before
      | ignored => exact before
      | opened => rfl
      | discarded => rfl
      | collected => rwa [collect_cap]
      | aborted a pass dead => rw [passed_cap_dead pass dead]
      | continued env recording alive =>
          rw [publish_cap]
          exact passed_unqueued shared before (isPass_tick env recording) alive
      | silent => rfl
      | submitted => rfl
      | waited => exact before
      | finished => exact before

/-! ## The abort -/

/-- The pass of an action ends the recording with "paired source never matched". -/
def EndsUnmatched (cfg : Config P V) (a : Action P) (r : Recorder P V) (id : Nat) : Prop :=
  ∃ mid, passed cfg a r = abort (.neverMatched id) mid

theorem abort_reason {r r' : Recorder P V} {reason reason' : AbortReason}
    (same : abort reason r = abort reason' r') : reason = reason' := by
  have journals : r.journal ++ [.aborted r.cap.captureId reason] =
      r'.journal ++ [.aborted r'.cap.captureId reason'] := by
    rw [← abort_journal, same, abort_journal]
  have last := List.append_inj_right' journals rfl
  simp only [List.cons.injEq, Entry.aborted.injEq, and_true] at last
  exact last.2

/-- That abort is about the frame at the head, and some source holds no answer to it. -/
theorem unmatched_head {a : Action P} {r : Recorder P V} {id : Nat} (pass : a.isPass r = true)
    (ends : EndsUnmatched cfg a r id) :
    ∃ done f rest r', AtFrame cfg (arrive cfg a.passMono (a.passStart r)) done (f :: rest) r' ∧
      f.frameId = id ∧ answered cfg r'.cap id = false := by
  obtain ⟨mid, ended⟩ := ends
  have begun : (arrive cfg a.passMono (a.passStart r)).state = .recording :=
    (sameShell_arrive cfg a.passMono (a.passStart r)).state.trans (by simpa using isPass_recording pass)
  obtain ⟨done, q, r', head, end_⟩ := consume_ends cfg begun
  have live := head.live begun
  rw [passed, capture] at ended
  generalize consume cfg (arrive cfg a.passMono (a.passStart r)).cap.deferred
    (arrive cfg a.passMono (a.passStart r)) = out at end_ ended
  have other {reason : AbortReason} {r'' : Recorder P V} (same : out = abort reason r'') :
      reason = .neverMatched id := abort_reason (same.symm.trans ended)
  have dead : out.state = .idle := by rw [ended, abort_state]
  cases end_ with
  | emptied =>
      rw [live] at dead
      cases dead
  | @aborted f rest =>
      have step := frame_step cfg f r'
      generalize frame cfg f r' = after at step other dead
      cases step with
      | backwards => cases other rfl
      | drifted => cases other rfl
      | wait =>
          rw [live] at dead
          cases dead
      | fenced =>
          rw [live] at dead
          cases dead
      | gated => exact absurd (live.symm.trans dead) (by decide)
      | leading => exact absurd (live.symm.trans dead) (by decide)
      | landed => exact absurd (live.symm.trans dead) (by decide)
  | waits =>
      rw [live] at dead
      cases dead
  | @overflowed f rest _ unanswered =>
      have same : f.frameId = id := by
        have := other rfl
        simpa using this
      exact ⟨done, f, rest, r', head, same, same ▸ unanswered⟩

/-- **The pair cache keeps what is needed**: in a recording whose publishers number their
frames in increasing order and answer published ones, a queued frame whose answer has been
drained finds it, between passes and at every loop head of the next; so the abort "paired
source never matched" means that some source's answer to the frame was not drained. -/
theorem pair_cache_keeps (recorded : Recorded libs cfg w₁ actions w₂)
    (answering : Answering cfg older w₁ actions) :
    (∀ s ∈ cfg.others, s.paired = true → ∀ f ∈ w₂.recorder.cap.deferred,
      f.frameId ∈ drainedIds libs cfg w₁ actions s.topic →
        (answer w₂.recorder.cap s f.frameId).isSome) ∧
    ∀ a : Action P, a.isPass w₂.recorder = true →
      (∀ done f rest r,
        AtFrame cfg (arrive cfg a.passMono (a.passStart w₂.recorder)) done (f :: rest) r →
        ∀ s ∈ cfg.others, s.paired = true →
          f.frameId ∈ drainedIds libs cfg w₁ (actions ++ [a]) s.topic →
            (answer r.cap s f.frameId).isSome) ∧
      ∀ id, EndsUnmatched cfg a w₂.recorder id →
        ∃ s ∈ cfg.others, s.paired = true ∧
          id ∉ drainedIds libs cfg w₁ (actions ++ [a]) s.topic := by
  have at_heads : ∀ a : Action P, a.isPass w₂.recorder = true → ∀ done f rest r,
      AtFrame cfg (arrive cfg a.passMono (a.passStart w₂.recorder)) done (f :: rest) r →
      ∀ s ∈ cfg.others, s.paired = true →
        f.frameId ∈ drainedIds libs cfg w₁ (actions ++ [a]) s.topic →
          (answer r.cap s f.frameId).isSome := by
    intro a pass done f rest r head s mem paired drained
    by_cases shared : cfg.clock.topic ∈ cfg.others.map Source.topic
    · have queue := head.split
      rw [arrive_unqueued shared (recorded.unqueued shared)] at queue
      simp at queue
    · rw [drainedIds_snoc recorded.run, if_pos pass] at drained
      exact mem_heldAnswers.mp ((recorded.kept shared answering).head recorded.depths shared head mem
        paired List.mem_cons_self drained)
  refine ⟨?_, fun a pass => ⟨at_heads a pass, ?_⟩⟩
  · intro s mem paired f waiting drained
    by_cases shared : cfg.clock.topic ∈ cfg.others.map Source.topic
    · rw [recorded.unqueued shared] at waiting
      cases waiting
    · exact mem_heldAnswers.mp ((recorded.kept shared answering).held s mem paired f waiting drained)
  · intro id ends
    obtain ⟨done, f, rest, r, head, rfl, unanswered⟩ := unmatched_head pass ends
    by_contra all
    push Not at all
    have matched : answered cfg r.cap f.frameId = true := by
      rw [answered, List.all_eq_true]
      intro s mem
      cases paired : s.paired with
      | false => rfl
      | true => exact at_heads a pass done f rest r head s mem paired (all s mem paired)
    rw [matched] at unanswered
    cases unanswered

/-- A run that stays in the recording at each of its steps. -/
theorem lasting_of_along (run : runs (World.step libs cfg) w₁ actions = .ok w₂)
    (along : Along (World.step libs cfg) (fun w _ => w.recorder.state = .recording) w₁ actions)
    (still : w₂.recorder.state = .recording) {before after : List (Action P)} {w : World P V}
    (split : actions = before ++ after) (prior : runs (World.step libs cfg) w₁ before = .ok w) :
    w.recorder.state = .recording := by
  subst split
  induction before generalizing w₁ with
  | nil =>
      cases prior
      cases after with
      | nil =>
          cases run
          exact still
      | cons a rest => exact along.1
  | cons a rest ih =>
      obtain ⟨mid, step, later⟩ := runs_cons_ok.mp prior
      obtain ⟨mid', step', run'⟩ := runs_cons_ok.mp run
      cases step.symm.trans step'
      exact ih later run' (along.2 mid step)

end Recordings

/-- A frame that waits over a tick for its answer. -/
def Demo.waited : List (Action Nat) :=
  [.deliver "cam/front" ⟨2000, 5, 50⟩, Demo.tickNow, .deliver "act/cmd" ⟨2100, 5, 55⟩]

theorem pair_cache_keeps_waited :
    drainedIds Demo.libs Demo.pair Demo.pairOpened (Demo.waited ++ [Demo.tickNow]) "act/cmd" = [5] ∧
      (answer (arrive Demo.pair 0 (collect
        (endState (World.step Demo.libs Demo.pair) Demo.pairOpened Demo.waited).recorder)).cap
          Demo.act 5).isSome := by
  refine ⟨by decide +kernel, ?_⟩
  have run : runs (World.step Demo.libs Demo.pair) Demo.pairOpened Demo.waited =
      .ok (endState (World.step Demo.libs Demo.pair) Demo.pairOpened Demo.waited) :=
    runs_of_accepts (by decide +kernel)
  have recorded : Recorded Demo.libs Demo.pair Demo.pairOpened Demo.waited
      (endState (World.step Demo.libs Demo.pair) Demo.pairOpened Demo.waited) := by
    refine ⟨⟨Demo.pairBoot, Demo.pairNow, .start ⟨rfl, rfl, rfl, rfl, rfl, rfl⟩, rfl, ?_⟩, run, ?_⟩
    · have opens : runs (World.step Demo.libs Demo.pair) Demo.pairBoot [startWith Demo.pairNow] =
          .ok Demo.pairOpened := runs_of_accepts (by decide +kernel)
      obtain ⟨mid, step, rest⟩ := runs_cons_ok.mp opens
      cases rest
      exact step
    · intro before after w split prior
      exact lasting_of_along run (by decide +kernel) (by decide +kernel) split prior
  have answering : Answering Demo.pair [] Demo.pairOpened Demo.waited := by
    refine ⟨by decide +kernel, fun before after split => ?_⟩
    have all : ∀ before ∈ Demo.waited.inits, ∀ s ∈ Demo.pair.others, s.paired = true →
        ∀ x ∈ heard s.topic Demo.pairOpened before,
          x.frameId ∈ [] ++ ids (heard Demo.pair.clock.topic Demo.pairOpened before) := by
      decide +kernel
    exact all before ((List.mem_inits _ _).mpr ⟨after, split.symm⟩)
  have keeps := (pair_cache_keeps recorded answering).2 Demo.tickNow (by decide +kernel)
  exact keeps.1 [] ⟨2000, 5, 50⟩ [] _ (AtFrame.first (by decide +kernel)) Demo.act
    List.mem_cons_self rfl (by decide +kernel)

end KoyuRuntime.Services.DataRecorder
