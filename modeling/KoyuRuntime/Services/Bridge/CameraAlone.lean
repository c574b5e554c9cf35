/-
# Services.Bridge.CameraAlone — one viewer of a topic at a time

The threads of a topic share its cached picture: between a thread's store and its return
another one may have stored an older picture, and a viewer then gets that one for its frame.

With one request for a topic at a time this cannot happen.  The cached picture is then the one
the viewer was sent last, except while its own thread is at work.

* `Idle`, `InTurn`: a request for the topic comes when no viewer of it is left and no thread.
* `Viewer.Agrees`: the cached picture, by the place where the viewer waits.
* `shown_in_order`: a viewer of the topic gets each new frame with its own picture, in the
  order sent, and what is pushed again is the picture before.
-/
import KoyuRuntime.Services.Bridge.CameraFrames

namespace KoyuRuntime.Services.Bridge.Camera

open Host Theory Ipc.Types

set_option autoImplicit false

variable {V J : Type}

/-! ## What should hold -/

def Stage.isReturned : Stage J → Bool
  | .returned _ => true
  | _ => false

/-- No viewer of the topic is there, and no thread at work. -/
def Idle (topic : String) (s : Cameras V J) : Prop :=
  (∀ v ∈ s.viewers, v.topic = topic → v.phase = .left) ∧
    ∀ e ∈ s.threads, e.topic = topic → e.stage.isReturned = true

/-- A request for the topic comes when it is idle. -/
def InTurn (topic : String) (s : Cameras V J) : Action V → Prop
  | .view on _ _ => on = topic → Idle topic s
  | .snapshot on _ _ => on = topic → Idle topic s
  | _ => True

instance [DecidableEq V] (topic : String) (s : Cameras V J) : Decidable (Idle topic s) :=
  inferInstanceAs (Decidable (_ ∧ _))

instance [DecidableEq V] (topic : String) (s : Cameras V J) : (action : Action V) → Decidable (InTurn topic s action)
  | .view on _ _ => inferInstanceAs (Decidable (on = topic → Idle topic s))
  | .snapshot on _ _ => inferInstanceAs (Decidable (on = topic → Idle topic s))
  | .publish _ _ | .opens _ _ _ | .turn _ _ | .resume _ _ | .leave _ | .reply _ | .store _ | .fetch _ =>
      isTrue trivial

/-- New frames are shown with their own pictures, and a repeated picture is the one before. -/
structure Faithful (pictures : Pictures V J) (parts : List (Part V J)) : Prop where
  own : ∀ time frame jpeg, .fresh time frame jpeg ∈ parts → pictures.imageShaped frame = true →
    pictures.jpeg frame = .ok jpeg
  repeated : parts.IsChain fun before part => ∀ time jpeg, part = .again time jpeg → jpeg = before.jpeg
  starts : ∀ time jpeg, parts.head? ≠ some (.again time jpeg)

namespace Faithful

variable {pictures : Pictures V J} {parts : List (Part V J)}

theorem nil : Faithful pictures ([] : List (Part V J)) := ⟨nofun, .nil, nofun⟩

theorem concat (faithful : Faithful pictures parts) (part : Part V J)
    (own : ∀ time frame jpeg, part = .fresh time frame jpeg → pictures.imageShaped frame = true →
      pictures.jpeg frame = .ok jpeg)
    (repeated : ∀ time jpeg, part = .again time jpeg → ∃ before ∈ parts.getLast?, jpeg = before.jpeg) :
    Faithful pictures (parts ++ [part]) where
  own time frame jpeg mem := by
    obtain old | is : .fresh time frame jpeg ∈ parts ∨ .fresh time frame jpeg = part := by simpa using mem
    · exact faithful.own time frame jpeg old
    · exact own time frame jpeg is.symm
  repeated := by
    refine List.isChain_append.mpr ⟨faithful.repeated, .singleton _, ?_⟩
    rintro before mem _ ⟨⟩ time jpeg is
    obtain ⟨before', mem', same⟩ := repeated time jpeg is
    obtain rfl : before = before' := Option.mem_unique mem mem'
    exact same
  starts time jpeg is := by
    cases parts with
    | nil =>
        obtain rfl : part = .again time jpeg := by simpa using is
        obtain ⟨_, mem, -⟩ := repeated time jpeg rfl
        cases mem
    | cons first rest => exact faithful.starts time jpeg is

end Faithful

/-! ## The cached picture -/

section Agrees

variable (pictures : Pictures V J)

/-- The picture of the last part. -/
def Viewer.picture (v : Viewer V J) : Option J := v.parts.getLast?.map Part.jpeg

/-- What is cached once the viewer's thread has stored the picture of this frame. -/
def Viewer.Stored (cached : Option J) (frame : V) (v : Viewer V J) : Prop :=
  (pictures.imageShaped frame = true → ∃ jpeg, pictures.jpeg frame = .ok jpeg ∧ cached = some jpeg) ∧
    (pictures.imageShaped frame = false → cached = v.picture)

/-- What is cached while the only viewer of a topic waits. -/
def Viewer.Agrees (s : Cameras V J) (v : Viewer V J) : Prop :=
  match v.phase with
  | .preparing => v.parts = []
  | .waiting => s.frameCache.get? v.topic = v.picture
  | .encoding frame _ n =>
      ∃ e : Encode V J, s.threads[n]? = some e ∧ e.topic = v.topic ∧ e.frame = some frame ∧
        match e.stage with
        | .submitted => s.frameCache.get? v.topic = v.picture
        | .stored => v.Stored pictures (s.frameCache.get? v.topic) frame
        | .returned (.ok found) => found = s.frameCache.get? v.topic ∧ v.Stored pictures found frame
        | .returned (.error _) => True
  | .left => True

/-- The viewer of this number is the only one of its topic, and only its thread is at work. -/
structure Only (s : Cameras V J) (k : Nat) (v : Viewer V J) : Prop where
  others : ∀ (j : Nat) (w : Viewer V J), s.viewers[j]? = some w → w.topic = v.topic → w.phase ≠ .left → j = k
  threads : ∀ (n : Nat) (e : Encode V J), s.threads[n]? = some e → e.topic = v.topic →
    e.stage.isReturned = false → ∃ frame now, v.phase = .encoding frame now n
  agrees : v.Agrees pictures s

structure Alone (topic : String) (s : Cameras V J) : Prop where
  faithful : ∀ v ∈ s.viewers, v.topic = topic → Faithful pictures v.parts
  single : ∀ (k : Nat) (v : Viewer V J), s.viewers[k]? = some v → v.topic = topic → v.phase ≠ .left → Only pictures s k v

end Agrees

/-- Nothing happens to the cached picture of the topic and to its threads. -/
structure SameOn (topic : String) (s s' : Cameras V J) : Prop where
  cached : s'.frameCache.get? topic = s.frameCache.get? topic
  kept : ∀ (n : Nat) (e : Encode V J), s.threads[n]? = some e → e.topic = topic → s'.threads[n]? = some e
  none_new : ∀ (n : Nat) (e : Encode V J), s'.threads[n]? = some e → e.topic = topic → s.threads[n]? = some e

section Frame

variable {pictures : Pictures V J} {topic : String} {s s' : Cameras V J} {v w : Viewer V J}

theorem SameOn.of_eq (cached : s'.frameCache = s.frameCache) (threads : s'.threads = s.threads) :
    SameOn topic s s' :=
  ⟨by rw [cached], fun _ _ at_ _ => by rwa [threads], fun _ _ at_ _ => by rwa [threads] at at_⟩

theorem SameOn.submit {on : String} {frame : Option V} (off : on ≠ topic)
    (cached : s'.frameCache = s.frameCache)
    (threads : s'.threads = s.threads ++ [⟨on, frame, .submitted⟩]) : SameOn topic s s' where
  cached := by rw [cached]
  kept n e at_ _ := by
    obtain ⟨inside, -⟩ := List.getElem?_eq_some_iff.mp at_
    rw [threads, List.getElem?_append_left inside, at_]
  none_new n e at_ about := by
    rw [threads] at at_
    by_cases inside : n < s.threads.length
    · rwa [List.getElem?_append_left inside] at at_
    · rw [List.getElem?_append_right (by omega), List.getElem?_singleton] at at_
      split at at_
      · cases at_
        exact (off about).elim
      · cases at_

theorem Viewer.agrees_waiting (waiting : v.phase = .waiting) (cached : s.frameCache.get? v.topic = v.picture) :
    v.Agrees pictures s := by simpa [Viewer.Agrees, waiting] using cached

theorem Viewer.Agrees.same (agrees : w.Agrees pictures s) (on : w.topic = topic) (same : SameOn topic s s')
    (topics : v.topic = w.topic) (phase : v.phase = w.phase) (parts : v.parts = w.parts) :
    v.Agrees pictures s' := by
  have picture : v.picture = w.picture := by simp only [Viewer.picture, parts]
  have cached : s'.frameCache.get? w.topic = s.frameCache.get? w.topic := by rw [on]; exact same.cached
  unfold Viewer.Agrees at agrees ⊢
  rw [phase]
  split
  · next at_ => simpa [at_, parts] using agrees
  · next at_ => simpa [at_, topics, cached, picture] using agrees
  · next frame now n at_ =>
    simp only [at_] at agrees
    obtain ⟨e, found, about, of, stage⟩ := agrees
    refine ⟨e, same.kept n e found (about.trans on), about.trans topics.symm, of, ?_⟩
    simp only [topics, cached, picture, Viewer.Stored] at stage ⊢
    exact stage
  · trivial

namespace Alone

theorem new (topic : String) : Alone pictures topic (Cameras.new : Cameras V J) :=
  ⟨fun _ mem => (List.not_mem_nil mem).elim, nofun⟩

/-- A step that is not about the topic, or ends a viewer. -/
theorem still (alone : Alone pictures topic s) (same : SameOn topic s s')
    (viewers : ∀ (k : Nat) (v : Viewer V J), s'.viewers[k]? = some v → v.topic = topic →
      ∃ w : Viewer V J, s.viewers[k]? = some w ∧ w.topic = topic ∧ v.parts = w.parts ∧
        (v.phase = w.phase ∨ v.phase = .left)) : Alone pictures topic s' where
  faithful v mem on := by
    obtain ⟨k, at_⟩ := List.mem_iff_getElem?.mp mem
    obtain ⟨w, before, on', parts, -⟩ := viewers k v at_ on
    rw [parts]
    exact alone.faithful w (List.mem_of_getElem? before) on'
  single k v at_ on live := by
    obtain ⟨w, before, on', parts, phase⟩ := viewers k v at_ on
    have phase := phase.resolve_right live
    have only := alone.single k w before on' (phase ▸ live)
    refine ⟨?_, ?_, only.agrees.same on' same (on.trans on'.symm) phase parts⟩
    · intro j u at_j on_j live_j
      obtain ⟨u', before_j, on_j', -, phase_j⟩ := viewers j u at_j (on_j.trans on)
      exact only.others j u' before_j (on_j'.trans on'.symm) (phase_j.resolve_right live_j ▸ live_j)
    · intro n e found about working
      obtain ⟨frame, now, encoding⟩ := only.threads n e (same.none_new n e found (about.trans on))
        (about.trans (on.trans on'.symm)) working
      exact ⟨frame, now, phase.trans encoding⟩

/-- A step of the only viewer. -/
theorem set {k : Nat} (alone : Alone pictures topic s) (at_ : s.viewers[k]? = some w) (on : w.topic = topic)
    (live : w.phase ≠ .left) (viewers : s'.viewers = s.viewers.set k v) (topics : v.topic = w.topic)
    (faithful : Faithful pictures v.parts)
    (threads : v.phase ≠ .left → ∀ (n : Nat) (e : Encode V J), s'.threads[n]? = some e → e.topic = topic →
      e.stage.isReturned = false → ∃ frame now, v.phase = .encoding frame now n)
    (agrees : v.phase ≠ .left → v.Agrees pictures s') : Alone pictures topic s' := by
  have only := alone.single k w at_ on live
  have others : ∀ (j : Nat) (u : Viewer V J), s'.viewers[j]? = some u → u.topic = topic → u.phase ≠ .left → j = k := by
    intro j u at_j on_j live_j
    by_contra other
    rw [viewers, List.getElem?_set_ne (Ne.symm other)] at at_j
    exact other (only.others j u at_j (on_j.trans on.symm) live_j)
  refine ⟨?_, ?_⟩
  · intro u mem on_u
    rw [viewers] at mem
    obtain old | rfl := List.mem_or_eq_of_mem_set mem
    · exact alone.faithful u old on_u
    · exact faithful
  · intro j u at_j on_j live_j
    obtain rfl := others j u at_j on_j live_j
    obtain ⟨inside, -⟩ := List.getElem?_eq_some_iff.mp at_
    obtain rfl : v = u := by
      rw [viewers, List.getElem?_set_self inside] at at_j
      exact Option.some.inj at_j
    refine ⟨fun i u at_i on_i live_i => others i u at_i (on_i.trans on_j) live_i, ?_, agrees live_j⟩
    exact fun n e found about working => threads live_j n e found (about.trans on_j) working

/-- A step of a viewer of another topic. -/
theorem elsewhere {k : Nat} (alone : Alone pictures topic s) (same : SameOn topic s s')
    (viewers : s'.viewers = s.viewers.set k v) (off : v.topic ≠ topic) : Alone pictures topic s' := by
  refine alone.still same fun j u at_j on => ?_
  rw [viewers, List.getElem?_set] at at_j
  split at at_j
  · split at at_j
    · cases at_j
      exact (off on).elim
    · cases at_j
  · exact ⟨u, at_j, on, rfl, .inl rfl⟩

end Alone

end Frame

/-! ## One step -/

namespace Alone

variable {pictures : Pictures V J} {topic : String} {s : Cameras V J} {v : Viewer V J}

theorem publish (alone : Alone pictures topic s) (on : String) (frame : V) :
    Alone pictures topic (s.publish on frame) := by
  refine alone.still (.of_eq rfl rfl) fun k v at_ here => ?_
  simp only [Cameras.publish, List.getElem?_map] at at_
  obtain ⟨w, before, rfl⟩ := Option.map_eq_some_iff.mp at_
  refine ⟨w, before, ?_, ?_, .inl ?_⟩
  · split at here <;> exact here
  · split <;> rfl
  · split <;> rfl

theorem view (alone : Alone pictures topic s) {on : String} (planes : Planes) (fps : Option String)
    (idle : on = topic → Idle topic s) : Alone pictures topic (s.view pictures on planes fps) := by
  unfold Cameras.view
  split
  · next type minDt _ _ =>
    split
    · have old_or_new : ∀ (k : Nat) (v : Viewer V J), (s.viewers ++ [.new on minDt])[k]? = some v →
          s.viewers[k]? = some v ∨ k = s.viewers.length ∧ v = .new on minDt := by
        intro k v at_
        by_cases inside : k < s.viewers.length
        · exact .inl (by rwa [List.getElem?_append_left inside] at at_)
        · rw [List.getElem?_append_right (by omega)] at at_
          rw [List.getElem?_singleton] at at_
          split at at_
          · cases at_
            exact .inr ⟨by omega, rfl⟩
          · cases at_
      by_cases here : on = topic
      · obtain ⟨all_left, all_done⟩ := idle here
        have new : ∀ (k : Nat) (v : Viewer V J), (s.viewers ++ [.new on minDt])[k]? = some v → v.topic = topic →
            v.phase ≠ .left → k = s.viewers.length ∧ v = .new on minDt := fun k v at_ on_v live =>
          (old_or_new k v at_).resolve_left fun old => live (all_left v (List.mem_of_getElem? old) on_v)
        refine ⟨?_, ?_⟩
        · intro v mem on_v
          obtain old | rfl : v ∈ s.viewers ∨ v = .new on minDt := by simpa using mem
          · exact alone.faithful v old on_v
          · exact .nil
        · intro k v at_ on_v live
          obtain ⟨rfl, rfl⟩ := new k v at_ on_v live
          refine ⟨fun j w at_j on_w live_w => (new j w at_j (on_w.trans on_v) live_w).1, ?_, rfl⟩
          intro n e found about working
          simp [all_done e (List.mem_of_getElem? found) (about.trans on_v)] at working
      · refine alone.still (.of_eq rfl rfl) fun k v at_ on_v => ?_
        obtain old | ⟨-, rfl⟩ := old_or_new k v at_
        · exact ⟨v, old, on_v, rfl, .inl rfl⟩
        · exact (here on_v).elim
    · exact alone
  · exact alone

theorem opens {k : Nat} {now : ℚ} {writes : Bool} (alone : Alone pictures topic s)
    (at_ : s.viewers[k]? = some v) (preparing : v.phase = .preparing) :
    Alone pictures topic (s.setViewer k (v.opens now (s.frameCache.get? v.topic) writes)) := by
  have topics : ∀ cached, (v.opens now cached writes).topic = v.topic := by rintro (_ | _) <;> rfl
  by_cases on : v.topic = topic
  · have live : v.phase ≠ .left := by simp [preparing]
    have only := alone.single k v at_ on live
    have empty : v.parts = [] := by simpa [Viewer.Agrees, preparing] using only.agrees
    have at_rest : ∀ (n : Nat) (e : Encode V J), s.threads[n]? = some e → e.topic = topic →
        e.stage.isReturned = false → False := by
      intro n e found about working
      obtain ⟨frame, now, encoding⟩ := only.threads n e found (about.trans on.symm) working
      simp [preparing] at encoding
    refine alone.set at_ on live rfl (topics _) ?_
      (fun _ n e found about working => (at_rest n e found about working).elim) fun live' => ?_
    · cases s.frameCache.get? v.topic with
      | none => simpa [Viewer.opens, empty] using .nil
      | some jpeg =>
          simp only [Viewer.opens, Viewer.push, empty]
          exact Faithful.nil.concat _ nofun nofun
    · cases found : s.frameCache.get? v.topic with
      | none => simp [Viewer.opens, Viewer.Agrees, Viewer.picture, Cameras.setViewer, empty, found]
      | some jpeg =>
          cases writes with
          | false => simp [Viewer.opens, Viewer.push, Viewer.Agrees]
          | true => simp [Viewer.opens, Viewer.push, Viewer.Agrees, Viewer.picture, Cameras.setViewer, Part.jpeg, found]
  · exact alone.elsewhere (.of_eq rfl rfl) rfl (by rw [topics]; exact on)

theorem turn {k : Nat} {turn : Turn} (alone : Alone pictures topic s) (at_ : s.viewers[k]? = some v)
    (waiting : v.phase = .waiting) : Alone pictures topic (s.turnOf pictures k turn v) := by
  unfold Cameras.turnOf
  cases moved : v.turn pictures turn (s.publishedOn v.topic).getLast? (s.frameCache.get? v.topic)
    s.threads.length with
  | mk v' asked =>
  have cases_ := Viewer.turn_cases moved
  by_cases on : v.topic = topic
  · have live : v.phase ≠ .left := by simp [waiting]
    have only := alone.single k v at_ on live
    have cached : s.frameCache.get? v.topic = v.picture := by simpa [Viewer.Agrees, waiting] using only.agrees
    have faithful := alone.faithful v (List.mem_of_getElem? at_) on
    have at_rest : ∀ (n : Nat) (e : Encode V J), s.threads[n]? = some e → e.topic = topic →
        e.stage.isReturned = false → False := by
      intro n e found about working
      obtain ⟨frame, now, encoding⟩ := only.threads n e found (about.trans on.symm) working
      simp [waiting] at encoding
    have rest : ∀ {P : Nat → Prop}, ∀ (n : Nat) (e : Encode V J), s.threads[n]? = some e → e.topic = topic →
        e.stage.isReturned = false → P n := fun n e found about working => (at_rest n e found about working).elim
    obtain ⟨rfl, rfl⟩ | ⟨sub, probeAt, read, -, ⟨rfl, -, rfl⟩ | ⟨frame, -, rfl, -, -, rfl⟩ |
      ⟨rfl, -, -, ⟨-, rfl⟩ | ⟨jpeg, found, rfl⟩⟩⟩ := cases_
    · exact alone.set at_ on live rfl rfl faithful (fun _ => rest) (fun live' => (live' rfl).elim)
    · refine alone.set at_ on live rfl rfl faithful (fun _ => rest) fun _ => ?_
      exact Viewer.agrees_waiting waiting cached
    · -- a thread gets the frame
      refine alone.set at_ on live rfl rfl faithful (fun _ n e found about working => ?_) fun _ => ?_
      · by_cases inside : n < s.threads.length
        · simp only [Cameras.submit, Cameras.setViewer, List.getElem?_append_left inside] at found
          exact (at_rest n e found about working).elim
        · have last : n < s.threads.length + 1 := by
            obtain ⟨bound, -⟩ := List.getElem?_eq_some_iff.mp found
            simpa [Cameras.submit, Cameras.setViewer] using bound
          obtain rfl : n = s.threads.length := by omega
          exact ⟨frame, turn.now, rfl⟩
      · exact ⟨⟨v.topic, some frame, .submitted⟩, by simp [Cameras.submit, Cameras.setViewer], rfl, rfl, cached⟩
    · refine alone.set at_ on live rfl rfl faithful (fun _ => rest) fun _ => ?_
      exact Viewer.agrees_waiting waiting cached
    · have last : v.parts.getLast?.map Part.jpeg = some jpeg := cached.symm.trans found
      obtain ⟨before, is_last, same⟩ := Option.map_eq_some_iff.mp last
      refine alone.set at_ on live rfl rfl (faithful.concat _ (by rintro _ _ _ ⟨⟩) ?_) (fun _ => rest) fun live' => ?_
      · rintro _ _ ⟨⟩
        exact ⟨before, is_last, same.symm⟩
      · cases writes : turn.writes with
        | false => simp [Viewer.push, writes] at live'
        | true => exact Viewer.agrees_waiting rfl (found.trans (by simp [Viewer.push, Viewer.picture, Part.jpeg]))
  · obtain ⟨rfl, rfl⟩ | ⟨sub, probeAt, read, -, ⟨rfl, -, rfl⟩ | ⟨frame, -, rfl, -, -, rfl⟩ |
      ⟨rfl, -, -, ⟨-, rfl⟩ | ⟨jpeg, found, rfl⟩⟩⟩ := cases_
    · exact alone.elsewhere (.of_eq rfl rfl) rfl on
    · exact alone.elsewhere (.of_eq rfl rfl) rfl on
    · exact alone.elsewhere (.submit on rfl rfl) rfl on
    · exact alone.elsewhere (.of_eq rfl rfl) rfl on
    · exact alone.elsewhere (.of_eq rfl rfl) rfl on

theorem resume {k n : Nat} {frame : V} {now : ℚ} {writes : Bool} {e : Encode V J}
    {result : Except Exn (Option J)} (alone : Alone pictures topic s) (at_ : s.viewers[k]? = some v)
    (encoding : v.phase = .encoding frame now n) (found : s.threads[n]? = some e)
    (done : e.stage = .returned result) :
    Alone pictures topic (s.setViewer k (v.resume pictures frame now writes result)) := by
  have cases_ : v.resume pictures frame now writes result = { v with phase := .left } ∨ _ :=
    Viewer.resume_cases frame now writes v result
  by_cases on : v.topic = topic
  · have live : v.phase ≠ .left := by simp [encoding]
    have only := alone.single k v at_ on live
    have faithful := alone.faithful v (List.mem_of_getElem? at_) on
    have rest : ∀ {P : Nat → Prop}, ∀ (m : Nat) (e : Encode V J), s.threads[m]? = some e → e.topic = topic →
        e.stage.isReturned = false → P m := by
      intro P m e' found' about working
      obtain ⟨_, _, encoding'⟩ := only.threads m e' found' (about.trans on.symm) working
      obtain ⟨-, -, rfl⟩ : _ ∧ _ ∧ n = m := by simpa [encoding] using encoding'
      obtain rfl : e = e' := Option.some.inj (found.symm.trans found')
      simp [done, Stage.isReturned] at working
    have cached : ∀ picture, result = .ok picture →
        picture = s.frameCache.get? v.topic ∧ v.Stored pictures picture frame := by
      rintro picture rfl
      have agrees := only.agrees
      simp only [Viewer.Agrees, encoding] at agrees
      obtain ⟨e', found', -, -, stage⟩ := agrees
      obtain rfl : e = e' := Option.some.inj (found.symm.trans found')
      simpa [done] using stage
    obtain same | ⟨rfl, same⟩ | ⟨jpeg, fid, rfl, -, same⟩ := cases_
    · rw [same]
      exact alone.set at_ on live rfl rfl faithful (fun _ => rest) (fun live' => (live' rfl).elim)
    · rw [same]
      obtain ⟨is_cached, image, no_image⟩ := cached none rfl
      refine alone.set at_ on live rfl rfl faithful (fun _ => rest) fun _ => ?_
      have plain : pictures.imageShaped frame = false := by
        by_contra shaped
        obtain ⟨_, -, absurd_⟩ := image (by simpa using shaped)
        cases absurd_
      exact Viewer.agrees_waiting rfl (is_cached.symm.trans (no_image plain))
    · rw [same]
      obtain ⟨is_cached, image, -⟩ := cached (some jpeg) rfl
      refine alone.set at_ on live rfl rfl (faithful.concat _ ?_ (by rintro _ _ ⟨⟩)) (fun _ => rest) fun live' => ?_
      · rintro _ _ _ ⟨⟩ shaped
        obtain ⟨jpeg', made, same⟩ := image shaped
        rw [made, Option.some.inj same]
      · cases writes with
        | false => simp [Viewer.push] at live'
        | true =>
            exact Viewer.agrees_waiting rfl (is_cached.symm.trans (by simp [Viewer.push, Viewer.picture, Part.jpeg]))
  · obtain same | ⟨-, same⟩ | ⟨_, _, -, -, same⟩ := cases_ <;> rw [same]
    · exact alone.elsewhere (.of_eq rfl rfl) rfl on
    · exact alone.elsewhere (.of_eq rfl rfl) rfl on
    · exact alone.elsewhere (.of_eq rfl rfl) rfl on

theorem leave (alone : Alone pictures topic s) (k : Nat) :
    Alone pictures topic { s with viewers := s.viewers.modify k fun v => { v with phase := .left } } := by
  refine alone.still (.of_eq rfl rfl) fun j v at_ on => ?_
  rw [List.getElem?_modify] at at_
  obtain ⟨w, before, rfl⟩ := Option.map_eq_some_iff.mp at_
  refine ⟨w, before, ?_, ?_, ?_⟩
  · split at on <;> exact on
  · split <;> rfl
  · split
    · exact .inr rfl
    · exact .inl rfl

theorem snapshot (alone : Alone pictures topic s) {on : String} (planes : Planes) (arrival : Arrival)
    (idle : on = topic → Idle topic s) : Alone pictures topic (s.snapshot on planes arrival) := by
  unfold Cameras.snapshot
  split
  · exact alone
  split
  · exact alone
  next port _ =>
  cases port.latest arrival (s.publishedOn on).getLast? with
  | mk frame port' =>
  by_cases here : on = topic
  · refine ⟨alone.faithful, fun k v at_ on_v live => ?_⟩
    exact (live ((idle here).1 v (List.mem_of_getElem? at_) on_v)).elim
  · exact alone.still (.submit here rfl rfl) fun k v at_ on_v => ⟨v, at_, on_v, rfl, .inl rfl⟩

/-- A thread goes on; if it is one of the topic it was at work, and so the viewer waits for it. -/
theorem goes {n : Nat} {e e' : Encode V J} {cache : OrderedDict String J} (alone : Alone pictures topic s)
    (found : s.threads[n]? = some e) (about : e'.topic = e.topic)
    (off : e.topic ≠ topic → cache.get? topic = s.frameCache.get? topic)
    (working : e.topic = topic → e.stage.isReturned = false)
    (agrees : e.topic = topic → ∀ (v : Viewer V J) frame now, v.topic = topic →
      v.phase = .encoding frame now n → v.Agrees pictures s →
      v.Agrees pictures { s with threads := s.threads.set n e', frameCache := cache }) :
    Alone pictures topic { s with threads := s.threads.set n e', frameCache := cache } := by
  have others : ∀ (m : Nat) (d : Encode V J), (s.threads.set n e')[m]? = some d →
      s.threads[m]? = some d ∧ m ≠ n ∨ m = n ∧ d = e' := by
    intro m d at_
    rw [List.getElem?_set] at at_
    split at at_
    · next same =>
      split at at_
      · cases at_
        exact .inr ⟨same.symm, rfl⟩
      · cases at_
    · next other => exact .inl ⟨at_, Ne.symm other⟩
  by_cases on : e.topic = topic
  · refine ⟨alone.faithful, fun k v at_ on_v live => ?_⟩
    have only := alone.single k v at_ on_v live
    obtain ⟨frame, now, encoding⟩ := only.threads n e found (on.trans on_v.symm) (working on)
    refine ⟨only.others, fun m d at_m about_m working_m => ?_, agrees on v frame now on_v encoding only.agrees⟩
    obtain ⟨before, -⟩ | ⟨rfl, -⟩ := others m d at_m
    · exact only.threads m d before about_m working_m
    · exact ⟨frame, now, encoding⟩
  · refine alone.still ⟨off on, ?_, ?_⟩ fun k v at_ on_v => ⟨v, at_, on_v, rfl, .inl rfl⟩
    · intro m d at_m about_m
      have other : n ≠ m := by
        rintro rfl
        obtain rfl : e = d := Option.some.inj (found.symm.trans at_m)
        exact on about_m
      rw [List.getElem?_set_ne other]
      exact at_m
    · intro m d at_m about_m
      obtain ⟨before, -⟩ | ⟨-, rfl⟩ := others m d at_m
      · exact before
      · exact (on (about.symm.trans about_m)).elim

theorem store {n : Nat} {e : Encode V J} (alone : Alone pictures topic s) (found : s.threads[n]? = some e) :
    Alone pictures topic { s with
      threads := s.threads.set n (e.store pictures s.frameCache).1
      frameCache := (e.store pictures s.frameCache).2 } := by
  obtain ⟨inside, is_e⟩ := List.getElem?_eq_some_iff.mp found
  -- the viewer that waits for the thread, before its step
  have before : ∀ {v : Viewer V J} {frame now}, v.phase = .encoding frame now n → v.Agrees pictures s →
      e.stage = .submitted →
      e.topic = v.topic ∧ e.frame = some frame ∧ s.frameCache.get? v.topic = v.picture := by
    intro v frame now encoding agrees at_
    simp only [Viewer.Agrees, encoding] at agrees
    obtain ⟨e', found', about, of, stage⟩ := agrees
    obtain rfl : e = e' := Option.some.inj (found.symm.trans found')
    exact ⟨about, of, by simpa [at_] using stage⟩
  obtain is | ⟨at_, plain, is⟩ | ⟨image, jpeg, at_, of, shaped, made, is⟩ | ⟨x, at_, is⟩ :=
    e.store_cases pictures s.frameCache
  · rw [is]
    simp only
    rw [← is_e, List.set_getElem_self]
    exact alone
  · rw [is]
    refine alone.goes found rfl (fun _ => rfl) (fun _ => by rw [at_]; rfl) ?_
    intro _ v frame now _ encoding agrees
    obtain ⟨about, of, cached⟩ := before encoding agrees at_
    simp only [Viewer.Agrees, encoding]
    refine ⟨{ e with stage := .stored }, by simp [inside], about, of, ?_, fun _ => cached⟩
    intro shaped
    simp [of, Option.filter, shaped] at plain
  · rw [is]
    refine alone.goes found rfl (fun off => OrderedDict.get?_set_ne _ _ off) (fun _ => by rw [at_]; rfl) ?_
    intro _ v frame now _ encoding agrees
    obtain ⟨about, of', -⟩ := before encoding agrees at_
    obtain rfl : image = frame := Option.some.inj (of.symm.trans of')
    simp only [Viewer.Agrees, encoding]
    refine ⟨{ e with stage := .stored }, by simp [inside], about, of, ?_, ?_⟩
    · exact fun _ => ⟨jpeg, made, by rw [about, OrderedDict.get?_set_self]⟩
    · simp [shaped]
  · rw [is]
    refine alone.goes found rfl (fun _ => rfl) (fun _ => by rw [at_]; rfl) ?_
    intro _ v frame now _ encoding agrees
    obtain ⟨about, of, -⟩ := before encoding agrees at_
    simp only [Viewer.Agrees, encoding]
    exact ⟨{ e with stage := .returned (.error x) }, by simp [inside], about, of, trivial⟩

theorem fetch (alone : Alone pictures topic s) (n : Nat) :
    Alone pictures topic { s with threads := s.threads.modify n (Encode.fetch s.frameCache) } := by
  cases found : s.threads[n]? with
  | none =>
      rw [List.modify_eq_set_getElem?, found]
      exact alone
  | some e =>
      obtain ⟨inside, is_e⟩ := List.getElem?_eq_some_iff.mp found
      have one : s.threads.modify n (Encode.fetch s.frameCache) = s.threads.set n (e.fetch s.frameCache) := by
        rw [List.modify_eq_set_getElem?, found]
        rfl
      rw [one]
      unfold Encode.fetch
      split
      · next at_ =>
        refine alone.goes found rfl (fun _ => rfl) (fun _ => by rw [at_]; rfl) ?_
        intro _ v frame now _ encoding agrees
        simp only [Viewer.Agrees, encoding] at agrees ⊢
        obtain ⟨e', found', about, of, stage⟩ := agrees
        obtain rfl : e = e' := Option.some.inj (found.symm.trans found')
        rw [at_] at stage
        refine ⟨{ e with stage := .returned (.ok (s.frameCache.get? e.topic)) }, by simp [inside], about, of, ?_⟩
        rw [about]
        exact ⟨rfl, stage⟩
      · rw [← is_e, List.set_getElem_self]
        exact alone

theorem step (alone : Alone pictures topic s) {action : Action V} (inTurn : InTurn topic s action) :
    Alone pictures topic (s.step pictures action) := by
  cases action with
  | publish on frame => exact alone.publish on frame
  | view on planes fps => exact alone.view planes fps inTurn
  | opens k now writes =>
      simp only [Cameras.step]
      split
      · exact alone
      next v at_ =>
      split
      · next preparing => exact alone.opens at_ preparing
      · exact alone
  | turn k turn =>
      simp only [Cameras.step]
      split
      · exact alone
      next v at_ =>
      split
      · next waiting => exact alone.turn at_ waiting
      · exact alone
  | resume k writes =>
      simp only [Cameras.step]
      split
      · exact alone
      next v at_ =>
      split
      · next frame now n encoding =>
        split
        · next jpeg found => exact alone.resume at_ encoding found rfl
        · exact alone
      · exact alone
  | leave k => exact alone.leave k
  | snapshot on planes arrival => exact alone.snapshot planes arrival inTurn
  | reply k =>
      simp only [Cameras.step]
      split
      · split
        · exact alone.still (.of_eq rfl rfl) fun k v at_ on => ⟨v, at_, on, rfl, .inl rfl⟩
        · exact alone
      · exact alone
  | store n =>
      simp only [Cameras.step]
      split
      · exact alone
      · next e found => exact alone.store found
  | fetch n => exact alone.fetch n

theorem run {actions : List (Action V)} (alone : Alone pictures topic s)
    (inTurn : Along (fun s a => (.ok (s.step pictures a) : Except Empty _)) (InTurn topic) s actions) :
    Alone pictures topic (actions.foldl (Cameras.step pictures) s) := by
  induction actions generalizing s with
  | nil => exact alone
  | cons action rest ih => exact ih (alone.step inTurn.1) (inTurn.2 _ rfl)

end Alone

/-- With one request for a topic at a time, a viewer of it gets new frames with their own
pictures, in the order sent, and what is pushed again is the picture before. -/
theorem shown_in_order (pictures : Pictures V J) (topic : String) (actions : List (Action V))
    (inTurn : Along (fun s a => (.ok (s.step pictures a) : Except Empty _)) (InTurn topic) .new actions) :
    ∀ v ∈ (Cameras.after pictures actions).viewers, v.topic = topic →
      Faithful pictures v.parts ∧
        v.frames.Sublist ((Cameras.after pictures actions).publishedOn topic) := by
  intro v mem on
  have reads := ((Sound.after pictures actions).viewers v mem).2.reads.1
  rw [on, List.append_assoc] at reads
  exact ⟨((Alone.new topic).run inTurn).faithful v mem on, (List.sublist_append_left _ _).trans reads⟩

namespace Demo

/-- A viewer gets two frames, and three seconds later the second one again. -/
def watched : List (Action Nat) :=
  [.publish "cam/wrist" 1, .view "cam/wrist" planes none, .opens 0 1 true, .turn 0 (turnAt 1), .store 0, .fetch 0,
    .resume 0 true, .publish "cam/wrist" 2, .turn 0 (turnAt 2), .store 1, .fetch 1, .resume 0 true,
    .turn 0 (turnAt 5)]

end Demo

theorem shown_in_order_wrist : ∃ v ∈ (Cameras.after Demo.pictures Demo.watched).viewers,
    v.parts = [.fresh 1 1 101, .fresh 2 2 102, .again 5 102] ∧ Faithful Demo.pictures v.parts ∧
      v.frames.Sublist ((Cameras.after Demo.pictures Demo.watched).publishedOn "cam/wrist") := by
  have there : ∃ v ∈ (Cameras.after Demo.pictures Demo.watched).viewers,
      v.parts = [.fresh 1 1 101, .fresh 2 2 102, .again 5 102] ∧ v.topic = "cam/wrist" := by decide +kernel
  obtain ⟨v, mem, parts, on⟩ := there
  exact ⟨v, mem, parts, shown_in_order Demo.pictures "cam/wrist" Demo.watched (by decide +kernel) v mem on⟩

/-- With two viewers the second frame may be shown with the first one's picture. -/
example : ∃ v ∈ (Cameras.after Demo.pictures
    [.publish "cam/wrist" 1, .view "cam/wrist" Demo.planes none, .view "cam/wrist" Demo.planes none,
      .opens 0 1 true, .opens 1 1 true, .turn 0 (Demo.turnAt 1), .publish "cam/wrist" 2, .turn 1 (Demo.turnAt 1),
      .store 1, .store 0, .fetch 1, .resume 1 true]).viewers, v.parts = [.fresh 1 2 101] := by decide +kernel

end KoyuRuntime.Services.Bridge.Camera
