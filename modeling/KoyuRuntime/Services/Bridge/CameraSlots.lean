/-
# Services.Bridge.CameraSlots — a viewer that is gone gives its slot back

Each viewer takes one of the publisher's subscriber slots.  A viewer whose connection is dead
notices at its next push, so an idle stream is pushed again every three seconds.

That needs a picture to push: a viewer of a topic with nothing cached does not write, and
neither does one that asked for NaN frames a second.

* `Going`: what holds of a viewer whose writes fail, from some point of a run on.
* `dead_viewer_leaves`: the first turn three seconds after the last push ends it, at once or by
  the return of the thread it waits for.
-/
import KoyuRuntime.Services.Bridge.CameraFrames

namespace KoyuRuntime.Services.Bridge.Camera

open Host Theory Ipc.Types

set_option autoImplicit false

variable {V J : Type}

/-! ## A viewer whose writes fail -/

/-- The writes of the viewer of this number do not get through. -/
def WritesFail (k : Nat) : Action V → Prop
  | .opens j _ writes => j = k → writes = false
  | .turn j turn => j = k → turn.writes = false
  | .resume j writes => j = k → writes = false
  | _ => True

/-- A turn of the viewer, three seconds or more after this time. -/
def LateTurn (k : Nat) (lastPush : ℚ) : Action V → Prop
  | .turn j turn => j = k ∧ lastPush + keepaliveS ≤ turn.now
  | _ => False

/-- A viewer waits since its last push, or for a thread numbered `first` or later, or has left. -/
structure Going (k first : Nat) (topic : String) (lastPush : ℚ) (early : Prop) (s : Cameras V J) : Prop where
  cached : s.frameCache.get? topic ≠ none
  older : first ≤ s.threads.length
  results : ∀ (n : Nat) (e : Encode V J), first ≤ n → s.threads[n]? = some e → e.topic = topic →
    e.stage ≠ .returned (.ok none)
  viewer : ∃ v, s.viewers[k]? = some v ∧ v.topic = topic ∧ reached v.minDt keepaliveS = true ∧
    (v.phase = .left ∨ (∃ frame now n, v.phase = .encoding frame now n ∧ first ≤ n) ∨
      v.phase = .waiting ∧ v.lastPush = lastPush ∧ early)

namespace Going

variable {pictures : Pictures V J} {k first : Nat} {topic : String} {lastPush : ℚ} {early : Prop}
  {s s' : Cameras V J} {v : Viewer V J}

/-- Nothing happens to the viewer. -/
theorem same (going : Going k first topic lastPush early s) (cached : s'.frameCache.get? topic ≠ none)
    (older : first ≤ s'.threads.length)
    (results : ∀ (n : Nat) (e : Encode V J), first ≤ n → s'.threads[n]? = some e → e.topic = topic →
      e.stage ≠ .returned (.ok none))
    (viewer : ∀ v, s.viewers[k]? = some v → ∃ v', s'.viewers[k]? = some v' ∧ v'.topic = v.topic ∧
      v'.minDt = v.minDt ∧ v'.phase = v.phase ∧ v'.lastPush = v.lastPush) :
    Going k first topic lastPush early s' := by
  obtain ⟨v, at_, on, short, phase⟩ := going.viewer
  obtain ⟨v', at_', topic', minDt', phase', push'⟩ := viewer v at_
  exact ⟨cached, older, results, v', at_', topic'.trans on, by rw [minDt']; exact short,
    by rw [phase', push']; exact phase⟩

/-- Another viewer takes a step. -/
theorem other {j : Nat} {w : Viewer V J} (going : Going k first topic lastPush early s) (ne : j ≠ k) :
    Going k first topic lastPush early (s.setViewer j w) :=
  going.same going.cached going.older going.results fun v at_ =>
    ⟨v, by simpa [Cameras.setViewer, List.getElem?_set_ne ne] using at_, rfl, rfl, rfl, rfl⟩

theorem submit (going : Going k first topic lastPush early s) (on : String) (frame : Option V) :
    Going k first topic lastPush early (s.submit on frame) := by
  refine going.same going.cached ?_ ?_ fun v at_ => ⟨v, at_, rfl, rfl, rfl, rfl⟩
  · have := going.older
    simp only [Cameras.submit, List.length_append]
    omega
  · intro n e from_ found on_e
    have mem := List.mem_of_getElem? found
    by_cases inside : n < s.threads.length
    · simp only [Cameras.submit, List.getElem?_append_left inside] at found
      exact going.results n e from_ found on_e
    · simp only [Cameras.submit, List.getElem?_append_right (not_lt.mp inside), List.getElem?_singleton] at found
      split at found
      · cases found
        intro returned
        cases returned
      · cases found

/-- The viewer itself takes a step. -/
theorem moves (going : Going k first topic lastPush early s) {later : Prop} {v v' : Viewer V J}
    (at_ : s.viewers[k]? = some v) (topic' : v'.topic = v.topic) (minDt' : v'.minDt = v.minDt)
    (phase : v'.phase = .left ∨ (∃ frame now n, v'.phase = .encoding frame now n ∧ first ≤ n) ∨
      v'.phase = .waiting ∧ v'.lastPush = lastPush ∧ later) :
    Going k first topic lastPush later (s.setViewer k v') := by
  obtain ⟨w, at_w, on, short, -⟩ := going.viewer
  obtain rfl : v = w := Option.some.inj (at_.symm.trans at_w)
  obtain ⟨inside, -⟩ := List.getElem?_eq_some_iff.mp at_
  exact ⟨going.cached, going.older, going.results, v', by simp [Cameras.setViewer, inside], topic'.trans on,
    by rw [minDt']; exact short, phase⟩

theorem turn {turn : Turn} (going : Going k first topic lastPush early s) (at_ : s.viewers[k]? = some v)
    (waiting : v.phase = .waiting) (fails : turn.writes = false) :
    Going k first topic lastPush (early ∧ ¬ lastPush + keepaliveS ≤ turn.now) (s.turnOf pictures k turn v) := by
  obtain ⟨w, at_w, on, short, phase⟩ := going.viewer
  obtain rfl : v = w := Option.some.inj (at_.symm.trans at_w)
  obtain ⟨since, soon⟩ : v.lastPush = lastPush ∧ early := by simpa [waiting] using phase
  unfold Cameras.turnOf
  cases moved : v.turn pictures turn (s.publishedOn v.topic).getLast? (s.frameCache.get? v.topic)
    s.threads.length with
  | mk v' asked =>
  obtain ⟨rfl, rfl⟩ | ⟨sub, probeAt, read, -, ⟨rfl, idle, rfl⟩ | ⟨frame, -, rfl, -, -, rfl⟩ |
    ⟨rfl, -, -, ⟨none_, rfl⟩ | ⟨jpeg, found, rfl⟩⟩⟩ := Viewer.turn_cases moved
  · exact going.moves at_ rfl rfl (.inl rfl)
  · refine going.moves at_ rfl rfl (.inr (.inr ⟨waiting, since, soon, fun late => ?_⟩))
    -- after three seconds there would have been something to do
    have long : keepaliveS ≤ turn.now - v.lastPush := by rw [since]; linarith
    exact absurd (idle (reached_mono short long)) (not_lt.mpr long)
  · refine Going.submit (going.moves at_ ?_ ?_ (.inr (.inl ⟨frame, turn.now, _, rfl, going.older⟩))) _ _ <;> rfl
  · exact absurd (on ▸ none_) going.cached
  · exact going.moves at_ rfl rfl (.inl (by simp [Viewer.push, fails]))

theorem resume {n : Nat} {frame : V} {now : ℚ} {e : Encode V J} {result : Except Exn (Option J)}
    (going : Going k first topic lastPush early s) (sound : Sound pictures s) (at_ : s.viewers[k]? = some v)
    (encoding : v.phase = .encoding frame now n) (found : s.threads[n]? = some e)
    (done : e.stage = .returned result) :
    Going k first topic lastPush early (s.setViewer k (v.resume pictures frame now false result)) := by
  obtain ⟨w, at_w, on, short, phase⟩ := going.viewer
  obtain rfl : v = w := Option.some.inj (at_.symm.trans at_w)
  have from_ : first ≤ n := by simpa [encoding] using phase
  obtain ⟨e', found', about, -⟩ := (sound.viewers v (List.mem_of_getElem? at_)).2.thread frame now n encoding
  obtain rfl : e = e' := Option.some.inj (found.symm.trans found')
  obtain same | ⟨rfl, -⟩ | ⟨jpeg, fid, -, -, same⟩ := Viewer.resume_cases frame now false v result
  · rw [same]
    exact going.moves at_ rfl rfl (.inl rfl)
  · exact absurd done (going.results n e from_ found (about.trans on))
  · rw [same]
    exact going.moves at_ rfl rfl (.inl rfl)

theorem store {n : Nat} {e : Encode V J} (going : Going k first topic lastPush early s)
    (found : s.threads[n]? = some e) :
    Going k first topic lastPush early { s with
      threads := s.threads.set n (e.store pictures s.frameCache).1
      frameCache := (e.store pictures s.frameCache).2 } := by
  refine going.same ?_ (by simpa using going.older) ?_ fun v at_ => ⟨v, at_, rfl, rfl, rfl, rfl⟩
  · obtain is | ⟨-, -, is⟩ | ⟨image, jpeg, -, -, -, -, is⟩ | ⟨x, -, is⟩ := e.store_cases pictures s.frameCache
    · simpa [is] using going.cached
    · simpa [is] using going.cached
    · simp only [is, OrderedDict.get?_set]
      split
      · exact Option.some_ne_none jpeg
      · exact going.cached
    · simpa [is] using going.cached
  · intro m d from_ found' on
    simp only [List.getElem?_set] at found'
    split at found'
    · next same =>
      split at found'
      · cases found'
        obtain is | ⟨-, -, is⟩ | ⟨image, jpeg, -, -, -, -, is⟩ | ⟨x, -, is⟩ := e.store_cases pictures s.frameCache
        · rw [is] at on ⊢
          exact going.results n e (same ▸ from_) found on
        · rw [is]
          intro returned
          cases returned
        · rw [is]
          intro returned
          cases returned
        · rw [is]
          intro returned
          cases returned
      · cases found'
    · exact going.results m d from_ found' on

theorem fetch (going : Going k first topic lastPush early s) (n : Nat) :
    Going k first topic lastPush early { s with threads := s.threads.modify n (Encode.fetch s.frameCache) } := by
  refine going.same going.cached (by simpa using going.older) ?_ fun v at_ => ⟨v, at_, rfl, rfl, rfl, rfl⟩
  intro m d from_ found on
  simp only [List.getElem?_modify] at found
  obtain ⟨e, before, is⟩ := Option.map_eq_some_iff.mp found
  split at is
  · subst is
    unfold Encode.fetch at on ⊢
    split at on
    · intro returned
      exact going.cached (on ▸ by simpa using returned)
    · next other => exact going.results m e from_ before on
  · subst is
    exact going.results m e from_ before on

theorem step {action : Action V} (going : Going k first topic lastPush early s) (sound : Sound pictures s)
    (fails : WritesFail k action) :
    Going k first topic lastPush (early ∧ ¬ LateTurn k lastPush action) (s.step pictures action) := by
  cases action with
  | publish on frame =>
      simp only [LateTurn, not_false_eq_true, and_true]
      refine going.same going.cached going.older going.results fun v at_ => ?_
      simp only [Cameras.step, Cameras.publish, List.getElem?_map, at_, Option.map_some]
      split <;> exact ⟨_, rfl, rfl, rfl, rfl, rfl⟩
  | view on planes fps =>
      simp only [LateTurn, not_false_eq_true, and_true, Cameras.step, Cameras.view]
      split
      · split
        · refine going.same going.cached going.older going.results fun v at_ => ⟨v, ?_, rfl, rfl, rfl, rfl⟩
          obtain ⟨inside, -⟩ := List.getElem?_eq_some_iff.mp at_
          rw [List.getElem?_append_left inside, at_]
        · exact going
      · exact going
  | opens j now writes =>
      simp only [LateTurn, not_false_eq_true, and_true, Cameras.step]
      split
      · exact going
      next v at_ =>
      split
      · next preparing =>
        refine going.other ?_
        rintro rfl
        obtain ⟨w, at_w, -, -, phase⟩ := going.viewer
        obtain rfl : v = w := Option.some.inj (at_.symm.trans at_w)
        simp [preparing] at phase
      · exact going
  | turn j turn =>
      simp only [LateTurn, Cameras.step]
      by_cases here : j = k
      · subst here
        obtain ⟨v, at_, on, short, phase⟩ := going.viewer
        rw [at_]
        obtain left | ⟨frame, now, n, encoding, from_⟩ | ⟨waiting, -⟩ := phase
        · simp only [left]
          exact ⟨going.cached, going.older, going.results, v, at_, on, short, .inl left⟩
        · simp only [encoding]
          exact ⟨going.cached, going.older, going.results, v, at_, on, short,
            .inr (.inl ⟨frame, now, n, encoding, from_⟩)⟩
        · have next : Going j first topic lastPush _ (s.turnOf pictures j turn v) :=
            going.turn at_ waiting (fails rfl)
          simpa [waiting] using next
      · simp only [here, false_and, not_false_eq_true, and_true]
        split
        · exact going
        next v at_ =>
        split
        · unfold Cameras.turnOf
          split
          · exact going.other here
          · exact (going.other here).submit _ _
        · exact going
  | resume j writes =>
      simp only [LateTurn, not_false_eq_true, and_true, Cameras.step]
      split
      · exact going
      next v at_ =>
      split
      · next frame now n encoding =>
        split
        · next found =>
          by_cases here : j = k
          · subst here
            obtain rfl : writes = false := fails rfl
            exact going.resume sound at_ encoding found rfl
          · exact going.other here
        · exact going
      · exact going
  | leave j =>
      simp only [LateTurn, not_false_eq_true, and_true, Cameras.step]
      obtain ⟨v, at_, on, short, phase⟩ := going.viewer
      by_cases here : j = k
      · subst here
        exact ⟨going.cached, going.older, going.results, { v with phase := .left },
          by simp [at_], on, short, .inl rfl⟩
      · exact ⟨going.cached, going.older, going.results, v, by simp [here, at_], on, short, phase⟩
  | snapshot on planes arrival =>
      simp only [LateTurn, not_false_eq_true, and_true, Cameras.step, Cameras.snapshot]
      split
      · exact going
      split
      · exact going
      next port _ =>
      have submitted := going.submit on (port.latest arrival (s.publishedOn on).getLast?).1
      exact ⟨submitted.cached, submitted.older, submitted.results, submitted.viewer⟩
  | reply j =>
      simp only [LateTurn, not_false_eq_true, and_true, Cameras.step]
      split
      · split
        · exact ⟨going.cached, going.older, going.results, going.viewer⟩
        · exact going
      · exact going
  | store n =>
      simp only [LateTurn, not_false_eq_true, and_true, Cameras.step]
      split
      · exact going
      · next e found => exact going.store found
  | fetch n =>
      simp only [LateTurn, not_false_eq_true, and_true]
      exact going.fetch n

theorem run {actions : List (Action V)} (going : Going k first topic lastPush early s)
    (sound : Sound pictures s) (fails : ∀ action ∈ actions, WritesFail k action) :
    Going k first topic lastPush (early ∧ ∀ action ∈ actions, ¬ LateTurn k lastPush action)
      (actions.foldl (Cameras.step pictures) s) := by
  induction actions generalizing s early with
  | nil => simpa using going
  | cons action rest ih =>
      have next := going.step sound (fails action (List.mem_cons_self ..))
      have ran := ih next (sound.step action) fun a mem => fails a (List.mem_cons_of_mem _ mem)
      simpa [and_assoc] using ran

end Going

/-- A viewer whose writes fail has left by its first turn three seconds after its last push, or
is about to: it only waits for the thread that it gave its frame to. -/
theorem dead_viewer_leaves (pictures : Pictures V J) (before rest : List (Action V)) (k : Nat) (v : Viewer V J)
    (at_ : (Cameras.after pictures before).viewers[k]? = some v) (waiting : v.phase = .waiting)
    (paced : v.minDt ≠ .nan) (cached : (Cameras.after pictures before).frameCache.get? v.topic ≠ none)
    (fails : ∀ action ∈ rest, WritesFail k action) (late : ∃ action ∈ rest, LateTurn k v.lastPush action) :
    ∃ w, (Cameras.after pictures (before ++ rest)).viewers[k]? = some w ∧
      (w.phase = .left ∨ ∃ frame now n, w.phase = .encoding frame now n) := by
  have sound := Sound.after pictures before
  have short := ((sound.viewers v (List.mem_of_getElem? at_)).1.short).resolve_left paced
  have going : Going k (Cameras.after pictures before).threads.length v.topic v.lastPush True
      (Cameras.after pictures before) := by
    refine ⟨cached, le_rfl, fun n e from_ found => ?_, v, at_, rfl, short, .inr (.inr ⟨waiting, rfl, trivial⟩)⟩
    obtain ⟨inside, -⟩ := List.getElem?_eq_some_iff.mp found
    omega
  obtain ⟨w, at_w, -, -, phase⟩ := (going.run sound fails).viewer
  rw [Cameras.after, List.foldl_append]
  refine ⟨w, at_w, ?_⟩
  obtain left | ⟨frame, now, n, encoding, -⟩ | ⟨-, -, -, early⟩ := phase
  · exact .inl left
  · exact .inr ⟨frame, now, n, encoding⟩
  · obtain ⟨action, mem, is_late⟩ := late
    exact absurd is_late (early action mem)

namespace Demo

/-- A viewer gets a frame. -/
def connected : List (Action Nat) :=
  [.publish "cam/wrist" 1, .view "cam/wrist" planes none, .opens 0 1 true, .turn 0 (turnAt 1), .store 0, .fetch 0,
    .resume 0 true]

end Demo

theorem dead_viewer_leaves_wrist :
    ∃ w, (Cameras.after Demo.pictures
      (Demo.connected ++ [.turn 0 { Demo.turnAt 4 with writes := false }])).viewers[0]? = some w ∧
      (w.phase = .left ∨ ∃ frame now n, w.phase = .encoding frame now n) := by
  have there : ∃ v ∈ (Cameras.after Demo.pictures Demo.connected).viewers[0]?, v.phase = .waiting ∧
      v.minDt ≠ .nan ∧ (Cameras.after Demo.pictures Demo.connected).frameCache.get? v.topic ≠ none ∧
      v.lastPush = 1 := by decide +kernel
  obtain ⟨v, at_, waiting, paced, cached, pushed⟩ := there
  refine dead_viewer_leaves Demo.pictures Demo.connected _ 0 v at_ waiting paced cached ?_ ?_
  · intro action mem
    obtain rfl := List.mem_singleton.mp mem
    exact fun _ => rfl
  · refine ⟨_, List.mem_singleton_self _, rfl, ?_⟩
    rw [pushed]
    decide +kernel

end KoyuRuntime.Services.Bridge.Camera
