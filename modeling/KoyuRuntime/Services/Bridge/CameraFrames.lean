/-
# Services.Bridge.CameraFrames — what a viewer gets to see

Any number of viewers and snapshots may share a topic; their threads share its cached picture.

* `Port.Follows`: a subscriber of depth one reads a subsequence of what is sent.
* `Viewer.turn_cases`: what one turn of a viewer can do.
* `Viewer.Paced`: the parts of a viewer keep its distance, and the frames in a row differ.
* `frames_served`: in every state of the bridge every picture that goes out is the JPEG of a
  frame sent on the topic asked for, and a viewer's frames are some of those sent, in order.
-/
import KoyuRuntime.Services.Bridge.Camera
import Mathlib.Data.List.Chain

namespace KoyuRuntime.Services.Bridge.Camera

open Host Theory Ipc.Types

set_option autoImplicit false

variable {V J : Type}

/-! ## Subscribers -/

namespace Port

/-- Of what was sent, in order, these samples have been read, and then the unread one came. -/
def Follows (seen sent : List V) (port : Port V) : Prop :=
  (seen ++ port.unread.toList).Sublist sent ∧ (port = .closed → seen = [])

/-- The samples read from `port` on its way to `port'`. -/
def Gives (last : Option V) (port : Port V) (read : List V) (port' : Port V) : Prop :=
  ∀ seen sent, last = sent.getLast? → port.Follows seen sent → port'.Follows (seen ++ read) sent

variable {last : Option V} {seen sent read : List V} {port port' port'' : Port V}

theorem follows_closed (sent : List V) : (closed : Port V).Follows [] sent := by simp [Follows, unread]

theorem Follows.mono {more : List V} (follows : port.Follows seen sent) (grown : sent.Sublist more) :
    port.Follows seen more := ⟨follows.1.trans grown, follows.2⟩

theorem Follows.receive (follows : port.Follows seen sent) (v : V) :
    (port.receive v).Follows seen (sent ++ [v]) := by
  cases port with
  | closed => exact follows.mono (List.sublist_append_left _ _)
  | opened newest =>
      have read : seen.Sublist sent := (List.sublist_append_left _ _).trans follows.1
      exact ⟨read.append_right [v], nofun⟩

/-- What is read may be thrown away. -/
theorem Follows.drop (follows : port.Follows (seen ++ read) sent) : port.Follows seen sent := by
  refine ⟨List.Sublist.trans ?_ follows.1, fun shut => (List.append_eq_nil_iff.mp (follows.2 shut)).1⟩
  rw [List.append_assoc]
  exact (List.sublist_append_right read _).append_left seen

theorem Gives.refl : Gives last port [] port := fun seen sent _ follows => by simpa using follows

theorem Gives.trans (one : Gives last port [] port') (two : Gives last port' read port'') :
    Gives last port read port'' := fun seen sent known follows => by
  simpa using two seen sent known (by simpa using one seen sent known follows)

theorem Gives.drop (gives : Gives last port read port') : Gives last port [] port' :=
  fun seen sent known follows => by simpa using (gives seen sent known follows).drop

theorem gives_ensure (arrival : Arrival) : Gives last port [] (port.ensure arrival last) := by
  rintro seen sent rfl follows
  cases port with
  | opened newest => simpa [ensure] using follows
  | closed =>
      obtain rfl : seen = [] := follows.2 rfl
      cases connects : arrival.connects with
      | false => simpa [ensure, connects] using follows
      | true =>
          refine ⟨?_, by simp [ensure, connects]⟩
          cases history : arrival.history with
          | false => simp [ensure, connects, history, unread]
          | true =>
              cases newest : sent.getLast? with
              | none => simp [ensure, connects, history, unread]
              | some v =>
                  obtain ⟨before, rfl⟩ := List.getLast?_eq_some_iff.mp newest
                  simp [ensure, connects, history, unread]

theorem gives_latest {arrival : Arrival} {frame : Option V} (reads : port.latest arrival last = (frame, port')) :
    Gives last port frame.toList port' := by
  refine (gives_ensure arrival).trans fun seen sent known follows => ?_
  unfold latest at reads
  cases opens : port.ensure arrival last with
  | closed =>
      rw [opens] at reads follows
      cases reads
      simpa using follows
  | opened newest =>
      rw [opens] at reads follows
      cases reads
      exact ⟨by simpa [unread] using follows.1, nofun⟩

end Port

/-! ## Threads -/

/-- What the first step of a thread can do. -/
theorem Encode.store_cases (pictures : Pictures V J) (cache : OrderedDict String J) (e : Encode V J) :
    e.store pictures cache = (e, cache) ∨
    (e.stage = .submitted ∧ e.frame.filter pictures.imageShaped = none ∧
      e.store pictures cache = ({ e with stage := .stored }, cache)) ∨
    (∃ frame jpeg, e.stage = .submitted ∧ e.frame = some frame ∧ pictures.imageShaped frame = true ∧
      pictures.jpeg frame = .ok jpeg ∧
      e.store pictures cache = ({ e with stage := .stored }, cache.set e.topic jpeg)) ∨
    ∃ x, e.stage = .submitted ∧ e.store pictures cache = ({ e with stage := .returned (.error x) }, cache) := by
  unfold Encode.store
  split
  · next at_ =>
    split
    · next none_ => exact .inr (.inl ⟨at_, none_, rfl⟩)
    · next frame kept =>
      obtain ⟨of, shaped⟩ := Option.filter_eq_some_iff.mp kept
      split
      · next jpeg made => exact .inr (.inr (.inl ⟨frame, jpeg, at_, of, shaped, made, rfl⟩))
      · next x _ => exact .inr (.inr (.inr ⟨x, at_, rfl⟩))
  · exact .inl rfl

/-! ## Rates -/

theorem atMost120_atLeastOne (x : Double) :
    atMost120 (atLeastOne x) = .nan ∨ ∃ q : ℚ, 1 ≤ q ∧ atMost120 (atLeastOne x) = .fin q := by
  cases x with
  | nan => exact .inl rfl
  | inf negative =>
      cases negative with
      | false => exact .inr ⟨120, by norm_num, rfl⟩
      | true => exact .inr ⟨1, le_rfl, by simp [atLeastOne, atMost120]⟩
  | fin q =>
      refine .inr ?_
      by_cases small : q < 1
      · exact ⟨1, le_rfl, by simp [atLeastOne, atMost120, small]⟩
      · by_cases large : 120 < q
        · exact ⟨120, by norm_num, by simp [atLeastOne, atMost120, small, large]⟩
        · exact ⟨q, not_lt.mp small, by simp [atLeastOne, atMost120, small, large]⟩

theorem reached_mono {minDt : Double} {a b : ℚ} (due : reached minDt a = true) (le : a ≤ b) :
    reached minDt b = true := by
  cases minDt with
  | nan => cases due
  | inf negative => exact due
  | fin q => simpa [reached] using (by simpa [reached] using due : q ≤ a).trans le

/-- Three seconds are enough for the next part. -/
def Short (minDt : Double) : Prop := minDt = .nan ∨ reached minDt keepaliveS = true

theorem short_divInto {q : ℚ} {minDt : Double} (large : 1 ≤ q) (made : Double.divInto 1 (.fin q) = .ok minDt) :
    Short minDt := by
  have positive : 0 < q := by linarith
  have small : 1 / q ≤ 1 := (div_le_one positive).mpr large
  have above : 0 < 1 / q := by positivity
  have huge : (3 : ℚ) < Double.overflow := by decide +kernel
  simp only [Double.divInto, positive.ne', if_false, Except.ok.injEq] at made
  subst made
  refine .inr ?_
  rw [Double.ofExact, if_neg (by linarith), if_neg (by linarith)]
  exact decide_eq_true (small.trans (by norm_num [keepaliveS]))

theorem minDt_short {pictures : Pictures V J} {fps : Option String} {minDt : Double}
    (made : Viewer.minDtOf pictures fps = .ok minDt) : Short minDt := by
  unfold Viewer.minDtOf at made
  split at made
  · exact short_divInto (by norm_num) made
  split at made
  · exact short_divInto (by norm_num) made
  · next x _ =>
    obtain is | ⟨q, large, is⟩ := atMost120_atLeastOne x
    · rw [is] at made
      cases made
      exact .inl rfl
    · rw [is] at made
      exact short_divInto large made

/-! ## Viewers -/

namespace Part

def jpeg : Part V J → J
  | .opening jpeg => jpeg
  | .fresh _ _ jpeg => jpeg
  | .again _ jpeg => jpeg

def frame? : Part V J → Option V
  | .fresh _ frame _ => some frame
  | _ => none

/-- The time of a part of the loop, and whether it repeats a picture. -/
def mark? : Part V J → Option (ℚ × Bool)
  | .opening _ => none
  | .fresh time _ _ => some (time, false)
  | .again time _ => some (time, true)

end Part

namespace Viewer

variable {pictures : Pictures V J} {v v' : Viewer V J}

/-- The new frames a viewer has got. -/
def frames (v : Viewer V J) : List V := v.parts.filterMap Part.frame?

def marks (v : Viewer V J) : List (ℚ × Bool) := v.parts.filterMap Part.mark?

/-- The frame that is being encoded. -/
def pending (v : Viewer V J) : List V :=
  match v.phase with
  | .encoding frame _ _ => [frame]
  | _ => []

/-- After a push the viewer waits or has left. -/
theorem phase_push (part : Part V J) (writes : Bool) (v : Viewer V J) (frame : V) (now : ℚ) (n : Nat) :
    (v.push part writes).phase ≠ .encoding frame now n := by
  cases writes <;> exact nofun

/-- What a turn can do. -/
theorem turn_cases {turn : Turn} {last : Option V} {cached : Option J} {thread : Nat} {asked : Option V}
    (moved : v.turn pictures turn last cached thread = (v', asked)) :
    (asked = none ∧ v' = { v with phase := .left }) ∨
    ∃ sub probeAt read, Port.Gives last v.sub read sub ∧
      ((asked = none ∧
        (reached v.minDt (turn.now - v.lastPush) = true → turn.now - v.lastPush < keepaliveS) ∧
        v' = { v with sub := sub, probeAt := probeAt }) ∨
      (∃ frame, read = [frame] ∧ asked = some frame ∧
        reached v.minDt (turn.now - v.lastPush) = true ∧ pictures.frameId frame ≠ v.lastFid ∧
        v' = { v with sub := sub, probeAt := probeAt, phase := .encoding frame turn.now thread }) ∨
      (asked = none ∧ reached v.minDt (turn.now - v.lastPush) = true ∧ keepaliveS ≤ turn.now - v.lastPush ∧
        ((cached = none ∧ v' = { v with sub := sub, probeAt := probeAt, lastPush := turn.now }) ∨
        ∃ jpeg, cached = some jpeg ∧
          v' = push (.again turn.now jpeg) turn.writes
            { v with sub := sub, probeAt := probeAt, lastPush := turn.now }))) := by
  obtain ⟨probed, probeAt, guards, still⟩ : ∃ sub probeAt,
      v.guarded turn last = { v with sub := sub, probeAt := probeAt } ∧ Port.Gives last v.sub [] sub := by
    unfold guarded
    split
    · exact ⟨v.sub, v.probeAt, rfl, .refl⟩
    · split
      · exact ⟨_, none, rfl, Port.gives_ensure _⟩
      · exact ⟨v.sub, v.probeAt, rfl, .refl⟩
  unfold Viewer.turn at moved
  simp only [guards] at moved
  split at moved
  · cases moved
    exact .inl ⟨rfl, rfl⟩
  refine .inr ?_
  split at moved
  · next due =>
    cases reads : probed.latest turn.read last with
    | mk frame sub =>
      have gives := still.trans (Port.gives_latest reads)
      rw [reads] at moved
      dsimp only at moved
      split at moved
      · next f new =>
        obtain ⟨rfl, differs⟩ := Option.filter_eq_some_iff.mp new
        cases moved
        exact ⟨sub, probeAt, _, gives, .inr (.inl ⟨f, rfl, rfl, due, by simpa using differs, rfl⟩)⟩
      · refine ⟨sub, probeAt, _, gives, ?_⟩
        split at moved
        · next idle =>
          refine .inr (.inr ?_)
          cases cached with
          | none =>
              cases moved
              exact ⟨rfl, due, idle, .inl ⟨rfl, rfl⟩⟩
          | some jpeg =>
              cases moved
              exact ⟨rfl, due, idle, .inr ⟨jpeg, rfl, rfl⟩⟩
        · next soon =>
          cases moved
          exact .inl ⟨rfl, fun _ => not_le.mp soon, rfl⟩
  · next soon =>
    cases moved
    exact ⟨probed, probeAt, [], still, .inl ⟨rfl, fun due => (soon due).elim, rfl⟩⟩

/-- What a thread's return can do. -/
theorem resume_cases (frame : V) (now : ℚ) (writes : Bool) (v : Viewer V J) (result : Except Exn (Option J)) :
    (v.resume pictures frame now writes result = { v with phase := .left }) ∨
    (result = .ok none ∧ v.resume pictures frame now writes result = { v with phase := .waiting }) ∨
    ∃ jpeg fid, result = .ok (some jpeg) ∧ pictures.frameId frame = some fid ∧
      v.resume pictures frame now writes result =
        push (.fresh now frame jpeg) writes { v with lastFid := some fid, lastPush := now } := by
  cases result with
  | error e => exact .inl rfl
  | ok found =>
      cases found with
      | none => exact .inr (.inl ⟨rfl, rfl⟩)
      | some jpeg =>
          cases named : pictures.frameId frame with
          | none => exact .inl (by simp [resume, named])
          | some fid => exact .inr (.inr ⟨jpeg, fid, rfl, rfl, by simp [resume, named]⟩)

/-! ## The distance between parts -/

/-- From one part of the loop to the next it is at least `min_dt`, and at least three seconds
before a repeated picture. -/
def Apart (minDt : Double) (a b : ℚ × Bool) : Prop :=
  reached minDt (b.1 - a.1) = true ∧ (b.2 = true → keepaliveS ≤ b.1 - a.1)

/-- The parts keep their distance, a frame in a row differs from the one before, and the
viewer knows the time and the frame of its last part. -/
structure Paced (pictures : Pictures V J) (v : Viewer V J) : Prop where
  short : Short v.minDt
  apart : v.marks.IsChain (Apart v.minDt)
  last : ∀ mark ∈ v.marks.getLast?, mark.1 ≤ v.lastPush
  due : ∀ frame now n, v.phase = .encoding frame now n →
    reached v.minDt (now - v.lastPush) = true ∧ pictures.frameId frame ≠ v.lastFid
  differ : (v.frames.map pictures.frameId).IsChain (· ≠ ·)
  known : v.lastFid = v.frames.getLast?.bind pictures.frameId

namespace Paced

theorem new (topic : String) {minDt : Double} (short : Short minDt) : Paced pictures (Viewer.new topic minDt) :=
  ⟨short, .nil, nofun, nofun, .nil, rfl⟩

/-- Nothing is pushed, and no thread started. -/
theorem quiet (paced : Paced pictures v) (parts : v'.parts = v.parts) (minDt : v'.minDt = v.minDt)
    (lastFid : v'.lastFid = v.lastFid) (later : v.lastPush ≤ v'.lastPush)
    (phase : ∀ frame now n, v'.phase ≠ .encoding frame now n) : Paced pictures v' := by
  have frames : v'.frames = v.frames := by simp only [Viewer.frames, parts]
  have marks : v'.marks = v.marks := by simp only [Viewer.marks, parts]
  exact
    { short := by rw [minDt]; exact paced.short
      apart := by rw [marks, minDt]; exact paced.apart
      last := by rw [marks]; exact fun mark mem => (paced.last mark mem).trans later
      due := fun frame now n at_ => (phase frame now n at_).elim
      differ := by rw [frames]; exact paced.differ
      known := by rw [lastFid, frames]; exact paced.known }

/-- One part is pushed. -/
theorem pushes (paced : Paced pictures v) (part : Part V J) (parts : v'.parts = v.parts ++ [part])
    (minDt : v'.minDt = v.minDt) (phase : ∀ frame now n, v'.phase ≠ .encoding frame now n)
    (due : ∀ mark ∈ part.mark?, reached v.minDt (mark.1 - v.lastPush) = true ∧
      (mark.2 = true → keepaliveS ≤ mark.1 - v.lastPush))
    (lastPush : v'.lastPush = part.mark?.elim v.lastPush Prod.fst)
    (new : ∀ frame ∈ part.frame?, pictures.frameId frame ≠ v.lastFid)
    (lastFid : v'.lastFid = part.frame?.elim v.lastFid pictures.frameId) : Paced pictures v' := by
  have marks : v'.marks = v.marks ++ part.mark?.toList := by
    simp only [Viewer.marks, parts, List.filterMap_append]
    cases shown : part.mark? <;> simp [shown]
  have frames : v'.frames = v.frames ++ part.frame?.toList := by
    simp only [Viewer.frames, parts, List.filterMap_append]
    cases shown : part.frame? <;> simp [shown]
  refine ⟨by rw [minDt]; exact paced.short, ?_, ?_, fun frame now n at_ => (phase frame now n at_).elim, ?_, ?_⟩
  · rw [marks, minDt]
    refine List.isChain_append.mpr ⟨paced.apart, by cases part.mark? <;> simp, ?_⟩
    intro before mem mark is_new
    obtain ⟨far, idle⟩ := due mark (by simpa using is_new)
    have earlier := paced.last before mem
    exact ⟨reached_mono far (by linarith), fun repeated => (idle repeated).trans (by linarith)⟩
  · rw [marks, lastPush]
    cases shown : part.mark? with
    | none => simpa using paced.last
    | some mark => simp
  · rw [frames, List.map_append]
    refine List.isChain_append.mpr ⟨paced.differ, by cases part.frame? <;> simp, ?_⟩
    intro before mem fid is_new
    obtain ⟨frame, shown, rfl⟩ : ∃ frame, part.frame? = some frame ∧ pictures.frameId frame = fid := by
      simpa [Option.mem_def] using is_new
    have newest : v.lastFid = before := by
      rw [List.getLast?_map] at mem
      obtain ⟨f, is_last, rfl⟩ := Option.map_eq_some_iff.mp mem
      simp [paced.known, is_last]
    rw [← newest]
    exact (new frame shown).symm
  · rw [lastFid, frames]
    cases shown : part.frame? with
    | none => simpa using paced.known
    | some frame => simp

/-- The response opens with the cached picture. -/
theorem opens {now : ℚ} {cached : Option J} {writes : Bool} (paced : Paced pictures v) :
    Paced pictures (v.opens now cached writes) := by
  cases cached with
  | none => exact paced.quiet rfl rfl rfl le_rfl nofun
  | some jpeg => exact paced.pushes (.opening jpeg) rfl rfl (phase_push _ _ _) nofun rfl nofun rfl

theorem turn {turn : Turn} {last : Option V} {cached : Option J} {thread : Nat} {asked : Option V}
    (paced : Paced pictures v) (waiting : v.phase = .waiting)
    (moved : v.turn pictures turn last cached thread = (v', asked)) : Paced pictures v' := by
  obtain ⟨-, rfl⟩ | ⟨sub, probeAt, read, -, ⟨-, -, rfl⟩ | ⟨frame, -, -, due, differs, rfl⟩ |
    ⟨-, due, idle, ⟨-, rfl⟩ | ⟨jpeg, -, rfl⟩⟩⟩ := turn_cases moved
  · exact paced.quiet rfl rfl rfl le_rfl nofun
  · exact paced.quiet rfl rfl rfl le_rfl (by simp [waiting])
  · exact ⟨paced.short, paced.apart, paced.last, by rintro _ _ _ ⟨⟩; exact ⟨due, differs⟩, paced.differ, paced.known⟩
  · refine paced.quiet rfl rfl rfl ?_ (by simp [waiting])
    have := (show (0 : ℚ) ≤ keepaliveS by decide).trans idle
    dsimp only
    linarith
  · have moved : Paced pictures { v with sub := sub, probeAt := probeAt } :=
      paced.quiet rfl rfl rfl le_rfl (by simp [waiting])
    exact moved.pushes (.again turn.now jpeg) rfl rfl (phase_push _ _ _)
      (by rintro _ ⟨⟩; exact ⟨due, fun _ => idle⟩) rfl nofun rfl

theorem resume {frame : V} {now : ℚ} {n : Nat} {writes : Bool} {result : Except Exn (Option J)}
    (paced : Paced pictures v) (at_ : v.phase = .encoding frame now n) :
    Paced pictures (v.resume pictures frame now writes result) := by
  obtain same | ⟨-, same⟩ | ⟨jpeg, fid, -, named, same⟩ := resume_cases frame now writes v result
  · rw [same]
    exact paced.quiet rfl rfl rfl le_rfl nofun
  · rw [same]
    exact paced.quiet rfl rfl rfl le_rfl nofun
  · rw [same]
    obtain ⟨due, differs⟩ := paced.due frame now n at_
    exact paced.pushes (.fresh now frame jpeg) rfl rfl (phase_push _ _ _)
      (by rintro _ ⟨⟩; exact ⟨due, nofun⟩) rfl (by rintro _ ⟨⟩; exact differs) named.symm

end Paced

end Viewer

/-! ## The whole bridge -/

section Sound

variable (pictures : Pictures V J)

/-- The JPEG of a frame that was sent on the topic. -/
def Pictured (s : Cameras V J) (topic : String) (jpeg : J) : Prop :=
  ∃ frame ∈ s.publishedOn topic, pictures.imageShaped frame = true ∧ pictures.jpeg frame = .ok jpeg

/-- A viewer in its bridge: what it has read, what it has been sent, and the thread it waits
for. -/
structure Served (s : Cameras V J) (v : Viewer V J) : Prop where
  reads : v.sub.Follows (v.frames ++ v.pending) (s.publishedOn v.topic)
  shown : ∀ part ∈ v.parts, Pictured pictures s v.topic part.jpeg
  thread : ∀ frame now n, v.phase = .encoding frame now n →
    ∃ e : Encode V J, s.threads[n]? = some e ∧ e.topic = v.topic ∧ e.frame = some frame

structure Sound (s : Cameras V J) : Prop where
  cached : ∀ topic jpeg, s.frameCache.get? topic = some jpeg → Pictured pictures s topic jpeg
  threads : ∀ e ∈ s.threads, (∀ frame, e.frame = some frame → frame ∈ s.publishedOn e.topic) ∧
    ∀ jpeg, e.stage = .returned (.ok (some jpeg)) → Pictured pictures s e.topic jpeg
  subs : ∀ topic port, s.frameSubs.get? topic = some port → port.Follows [] (s.publishedOn topic)
  viewers : ∀ v ∈ s.viewers, v.Paced pictures ∧ Served pictures s v
  shots : ∀ shot ∈ s.shots, (∃ e, s.threads[shot.thread]? = some e ∧ e.topic = shot.topic) ∧
    ∀ jpeg, shot.reply = some (.image jpeg) → Pictured pictures s shot.topic jpeg

end Sound

/-- More may have been sent, and threads keep what they are about. -/
structure Grows (s s' : Cameras V J) : Prop where
  published : ∀ topic, (s.publishedOn topic).Sublist (s'.publishedOn topic)
  threads : ∀ (n : Nat) (e : Encode V J), s.threads[n]? = some e →
    ∃ e' : Encode V J, s'.threads[n]? = some e' ∧ e'.topic = e.topic ∧ e'.frame = e.frame

section Grows

variable {pictures : Pictures V J} {s s' : Cameras V J} {v : Viewer V J}

/-- Only what a viewer or a snapshot has to itself changes. -/
theorem Grows.still (published : s'.published = s.published) (threads : s'.threads = s.threads) :
    Grows s s' where
  published topic := by simp only [Cameras.publishedOn, published]; exact List.Sublist.refl _
  threads n e at_ := ⟨e, threads ▸ at_, rfl, rfl⟩

/-- One thread goes on. -/
theorem Grows.goes {n : Nat} {f : Encode V J → Encode V J} (published : s'.published = s.published)
    (threads : s'.threads = s.threads.modify n f) (kept : ∀ e, (f e).topic = e.topic ∧ (f e).frame = e.frame) :
    Grows s s' where
  published topic := by simp only [Cameras.publishedOn, published]; exact List.Sublist.refl _
  threads m e at_ := by
    rw [threads, List.getElem?_modify, at_]
    by_cases same : n = m
    · exact ⟨f e, by simp [same], kept e⟩
    · exact ⟨e, by simp [same], rfl, rfl⟩

theorem grows_submit (topic : String) (frame : Option V) (s : Cameras V J) : Grows s (s.submit topic frame) where
  published _ := List.Sublist.refl _
  threads n e at_ := by
    obtain ⟨inside, rfl⟩ := List.getElem?_eq_some_iff.mp at_
    exact ⟨s.threads[n], by simp [Cameras.submit, List.getElem?_append_left inside, inside], rfl, rfl⟩

theorem Pictured.grows {topic : String} {jpeg : J} (pictured : Pictured pictures s topic jpeg)
    (grows : Grows s s') : Pictured pictures s' topic jpeg := by
  obtain ⟨frame, sent, shaped, made⟩ := pictured
  exact ⟨frame, (grows.published topic).subset sent, shaped, made⟩

theorem Served.grows (served : Served pictures s v) (grows : Grows s s') : Served pictures s' v where
  reads := served.reads.mono (grows.published v.topic)
  shown part mem := (served.shown part mem).grows grows
  thread frame now n at_ := by
    obtain ⟨e, found, topic, of⟩ := served.thread frame now n at_
    obtain ⟨e', found', topic', of'⟩ := grows.threads n e found
    exact ⟨e', found', topic'.trans topic, of'.trans of⟩

/-- What a step leaves as it was stays sound. -/
theorem Sound.next (sound : Sound pictures s) (grows : Grows s s')
    (cached : ∀ topic jpeg, s'.frameCache.get? topic = some jpeg →
      s.frameCache.get? topic = some jpeg ∨ Pictured pictures s' topic jpeg)
    (threads : ∀ e ∈ s'.threads, e ∈ s.threads ∨
      (∀ frame, e.frame = some frame → frame ∈ s'.publishedOn e.topic) ∧
        ∀ jpeg, e.stage = .returned (.ok (some jpeg)) → Pictured pictures s' e.topic jpeg)
    (subs : ∀ topic port, s'.frameSubs.get? topic = some port →
      s.frameSubs.get? topic = some port ∨ port.Follows [] (s'.publishedOn topic))
    (viewers : ∀ v ∈ s'.viewers, v ∈ s.viewers ∨ v.Paced pictures ∧ Served pictures s' v)
    (shots : ∀ shot ∈ s'.shots, shot ∈ s.shots ∨
      (∃ e, s'.threads[shot.thread]? = some e ∧ e.topic = shot.topic) ∧
        ∀ jpeg, shot.reply = some (.image jpeg) → Pictured pictures s' shot.topic jpeg) :
    Sound pictures s' where
  cached topic jpeg found := (cached topic jpeg found).elim (fun old => (sound.cached topic jpeg old).grows grows) id
  threads e mem := (threads e mem).elim
    (fun old => ⟨fun frame of => (grows.published e.topic).subset ((sound.threads e old).1 frame of),
      fun jpeg done => ((sound.threads e old).2 jpeg done).grows grows⟩) id
  subs topic port found := (subs topic port found).elim
    (fun old => (sound.subs topic port old).mono (grows.published topic)) id
  viewers v mem := (viewers v mem).elim
    (fun old => ⟨(sound.viewers v old).1, (sound.viewers v old).2.grows grows⟩) id
  shots shot mem := (shots shot mem).elim
    (fun old => by
      obtain ⟨⟨e, found, topic⟩, shown⟩ := sound.shots shot old
      obtain ⟨e', found', topic', -⟩ := grows.threads _ e found
      exact ⟨⟨e', found', topic'.trans topic⟩, fun jpeg answered => (shown jpeg answered).grows grows⟩) id

end Grows

/-! ## One viewer's steps in the bridge -/

namespace Served

variable {pictures : Pictures V J} {s : Cameras V J} {v v' : Viewer V J}

theorem new (s : Cameras V J) (topic : String) (minDt : Double) :
    Served pictures s (Viewer.new topic minDt) where
  reads := Port.follows_closed _
  shown := fun _ mem => (List.not_mem_nil mem).elim
  thread := nofun

/-- Nothing is pushed, and no thread is waited for. -/
theorem quiet (served : Served pictures s v) (topic : v'.topic = v.topic) (parts : v'.parts = v.parts)
    (sub : Port.Gives (s.publishedOn v.topic).getLast? v.sub [] v'.sub)
    (phase : ∀ frame now n, v'.phase ≠ .encoding frame now n) : Served pictures s v' where
  reads := by
    have none_pending : v'.pending = [] := by
      unfold Viewer.pending
      split
      · next at_ => exact (phase _ _ _ at_).elim
      · rfl
    have frames : v'.frames = v.frames := by simp only [Viewer.frames, parts]
    have now := sub _ _ rfl served.reads
    rw [List.append_nil] at now
    rw [none_pending, frames, topic, List.append_nil]
    exact now.drop
  shown := by rw [parts, topic]; exact served.shown
  thread frame now n at_ := (phase frame now n at_).elim

/-- One part is pushed: a picture of the topic, for a new frame that was pending. -/
theorem pushes (served : Served pictures s v) (part : Part V J) (topic : v'.topic = v.topic)
    (parts : v'.parts = v.parts ++ [part])
    (sub : Port.Gives (s.publishedOn v.topic).getLast? v.sub [] v'.sub)
    (phase : ∀ frame now n, v'.phase ≠ .encoding frame now n)
    (pending : ∀ frame ∈ part.frame?, v.pending = [frame])
    (pictured : Pictured pictures s v.topic part.jpeg) : Served pictures s v' where
  reads := by
    have none_pending : v'.pending = [] := by
      unfold Viewer.pending
      split
      · next at_ => exact (phase _ _ _ at_).elim
      · rfl
    have frames : v'.frames = v.frames ++ part.frame?.toList := by
      simp only [Viewer.frames, parts, List.filterMap_append]
      cases shown : part.frame? <;> simp [shown]
    have now := sub _ _ rfl served.reads
    rw [List.append_nil] at now
    rw [none_pending, frames, topic, List.append_nil]
    cases shown : part.frame? with
    | none => simpa using now.drop
    | some frame => simpa [pending frame shown] using now
  shown := by
    rw [parts, topic]
    intro shown mem
    obtain old | rfl : shown ∈ v.parts ∨ shown = part := by simpa using mem
    · exact served.shown shown old
    · exact pictured
  thread frame now n at_ := (phase frame now n at_).elim

end Served

/-! ## One step of the bridge -/

namespace Sound

variable {pictures : Pictures V J} {s : Cameras V J} {v v' : Viewer V J}

theorem new : Sound pictures (Cameras.new : Cameras V J) where
  cached := nofun
  threads := fun _ mem => (List.not_mem_nil mem).elim
  subs := nofun
  viewers := fun _ mem => (List.not_mem_nil mem).elim
  shots := fun _ mem => (List.not_mem_nil mem).elim

theorem setViewer (sound : Sound pictures s) (k : Nat) (paced : v.Paced pictures)
    (served : Served pictures s v) : Sound pictures (s.setViewer k v) := by
  have grows : Grows s (s.setViewer k v) := .still rfl rfl
  refine sound.next grows (fun _ _ => .inl) (fun _ => .inl) (fun _ _ => .inl) ?_ fun _ => .inl
  intro w mem
  obtain old | rfl := List.mem_or_eq_of_mem_set mem
  · exact .inl old
  · exact .inr ⟨paced, served.grows grows⟩

theorem submit {topic : String} {frame : Option V} (sound : Sound pictures s)
    (sent : ∀ f, frame = some f → f ∈ s.publishedOn topic) : Sound pictures (s.submit topic frame) := by
  refine sound.next (grows_submit topic frame s) (fun _ _ => .inl) ?_ (fun _ _ => .inl)
    (fun _ => .inl) fun _ => .inl
  intro e mem
  obtain old | rfl : e ∈ s.threads ∨ e = ⟨topic, frame, .submitted⟩ := by simpa [Cameras.submit] using mem
  · exact .inl old
  · exact .inr ⟨sent, nofun⟩

theorem publishedOn_publish (s : Cameras V J) (topic on : String) (frame : V) :
    (s.publish topic frame).publishedOn on = s.publishedOn on ++ if topic = on then [frame] else [] := by
  by_cases same : topic = on <;> simp [Cameras.publish, Cameras.publishedOn, same]

theorem publish (sound : Sound pictures s) (topic : String) (frame : V) :
    Sound pictures (s.publish topic frame) := by
  have grows : Grows s (s.publish topic frame) :=
    ⟨fun on => by rw [publishedOn_publish]; exact List.sublist_append_left _ _, fun n e at_ => ⟨e, at_, rfl, rfl⟩⟩
  refine sound.next grows (fun _ _ => .inl) (fun _ => .inl) ?_ ?_ fun _ => .inl
  · intro on port found
    cases shared : s.frameSubs.get? topic with
    | none => exact .inl (by simpa [Cameras.publish, shared] using found)
    | some old =>
        simp only [Cameras.publish, shared, OrderedDict.get?_set] at found
        by_cases same : topic = on
        · obtain rfl : old.receive frame = port := by simpa [same] using found
          rw [publishedOn_publish, if_pos same, ← same]
          exact .inr ((sound.subs topic old shared).receive frame)
        · exact .inl (by simpa [same, Ne.symm same] using found)
  · intro w mem
    obtain ⟨v, before, rfl⟩ := List.mem_map.mp mem
    obtain ⟨paced, served⟩ := sound.viewers v before
    have now := served.grows grows
    split
    · next here =>
      refine .inr ⟨⟨paced.short, paced.apart, paced.last, paced.due, paced.differ, paced.known⟩, ?_, now.shown, now.thread⟩
      have reads := served.reads.receive frame
      rw [publishedOn_publish, if_pos here.symm]
      exact reads
    · exact .inr ⟨paced, now⟩

theorem opens {k : Nat} {now : ℚ} {writes : Bool} (sound : Sound pictures s) (mem : v ∈ s.viewers) :
    Sound pictures (s.setViewer k (v.opens now (s.frameCache.get? v.topic) writes)) := by
  obtain ⟨paced, served⟩ := sound.viewers v mem
  refine sound.setViewer k paced.opens ?_
  cases found : s.frameCache.get? v.topic with
  | none => exact served.quiet rfl rfl .refl nofun
  | some jpeg =>
      exact served.pushes (.opening jpeg) rfl rfl .refl (Viewer.phase_push _ _ _) nofun (sound.cached _ _ found)

theorem turn {k : Nat} {turn : Turn} (sound : Sound pictures s) (mem : v ∈ s.viewers)
    (waiting : v.phase = .waiting) : Sound pictures (s.turnOf pictures k turn v) := by
  obtain ⟨paced, served⟩ := sound.viewers v mem
  unfold Cameras.turnOf
  cases moved : v.turn pictures turn (s.publishedOn v.topic).getLast? (s.frameCache.get? v.topic)
    s.threads.length with
  | mk v' asked =>
  have paced' := paced.turn waiting moved
  obtain ⟨rfl, rfl⟩ | ⟨sub, probeAt, read, gives, ⟨rfl, -, rfl⟩ | ⟨frame, rfl, rfl, due, differs, rfl⟩ |
    ⟨rfl, -, -, ⟨-, rfl⟩ | ⟨jpeg, found, rfl⟩⟩⟩ := Viewer.turn_cases moved
  · exact sound.setViewer k paced' (served.quiet rfl rfl .refl nofun)
  · exact sound.setViewer k paced' (served.quiet rfl rfl gives.drop (by simp [waiting]))
  · -- a thread gets the frame
    have idle : v.pending = [] := by simp [Viewer.pending, waiting]
    have reads := gives _ _ rfl served.reads
    rw [idle, List.append_nil] at reads
    have sent : frame ∈ s.publishedOn v.topic :=
      reads.1.subset (List.mem_append_left _ (List.mem_append_right _ (List.mem_singleton_self _)))
    have submitted : Sound pictures (s.submit v.topic (some frame)) :=
      sound.submit fun f is => Option.some.inj is ▸ sent
    have grown := served.grows (grows_submit v.topic (some frame) s)
    refine submitted.setViewer k paced' ⟨reads, grown.shown, ?_⟩
    rintro _ _ _ ⟨⟩
    exact ⟨⟨v.topic, some frame, .submitted⟩, by simp [Cameras.submit], rfl, rfl⟩
  · exact sound.setViewer k paced' (served.quiet rfl rfl gives.drop (by simp [waiting]))
  · exact sound.setViewer k paced' (served.pushes (.again turn.now jpeg) rfl rfl gives.drop
      (Viewer.phase_push _ _ _) nofun (sound.cached _ _ found))

theorem resume {k n : Nat} {frame : V} {now : ℚ} {writes : Bool} {e : Encode V J}
    {result : Except Exn (Option J)} (sound : Sound pictures s) (mem : v ∈ s.viewers)
    (at_ : v.phase = .encoding frame now n) (found : s.threads[n]? = some e) (done : e.stage = .returned result) :
    Sound pictures (s.setViewer k (v.resume pictures frame now writes result)) := by
  obtain ⟨paced, served⟩ := sound.viewers v mem
  refine sound.setViewer k (paced.resume at_) ?_
  obtain same | ⟨-, same⟩ | ⟨jpeg, fid, rfl, -, same⟩ := Viewer.resume_cases frame now writes v result
  · rw [same]
    exact served.quiet rfl rfl .refl nofun
  · rw [same]
    exact served.quiet rfl rfl .refl nofun
  · rw [same]
    obtain ⟨e', found', topic, -⟩ := served.thread frame now n at_
    obtain rfl : e = e' := Option.some.inj (found.symm.trans found')
    refine served.pushes (.fresh now frame jpeg) rfl rfl .refl (Viewer.phase_push _ _ _) ?_ ?_
    · rintro _ ⟨⟩
      simp [Viewer.pending, at_]
    · rw [← topic]
      exact (sound.threads e (List.mem_of_getElem? found)).2 jpeg done

theorem snapshot (sound : Sound pictures s) (topic : String) (planes : Planes) (arrival : Arrival) :
    Sound pictures (s.snapshot topic planes arrival) := by
  unfold Cameras.snapshot
  split
  · exact sound
  split
  · exact sound
  next port shared =>
  cases reads : port.latest arrival (s.publishedOn topic).getLast? with
  | mk frame port' =>
  have follows : port.Follows [] (s.publishedOn topic) := by
    unfold Cameras.frameSub at shared
    split at shared
    · next found => cases shared; exact sound.subs topic port found
    · cases shared; exact Port.follows_closed _
    · cases shared
  have now := Port.gives_latest reads _ _ rfl follows
  have sent : ∀ f, frame = some f → f ∈ s.publishedOn topic := by
    rintro f rfl
    exact now.1.subset (by simp)
  have submitted := sound.submit sent
  refine submitted.next (.still rfl rfl) (fun _ _ => .inl) (fun _ => .inl) ?_ (fun _ => .inl) ?_
  · intro on port'' found
    simp only [OrderedDict.get?_set] at found
    split at found
    · next same =>
      cases found
      exact .inr (same ▸ now.drop)
    · exact .inl found
  · intro shot mem
    obtain old | rfl : shot ∈ s.shots ∨ shot = ⟨topic, s.threads.length, none⟩ := by simpa using mem
    · exact .inl old
    · exact .inr ⟨⟨⟨topic, frame, .submitted⟩, by simp [Cameras.submit], rfl⟩, fun _ taken => by cases taken⟩

theorem reply {k n : Nat} {topic : String} {e : Encode V J} {result : Except Exn (Option J)}
    (sound : Sound pictures s) (asked : s.shots[k]? = some ⟨topic, n, none⟩) (found : s.threads[n]? = some e)
    (done : e.stage = .returned result) :
    Sound pictures { s with shots := s.shots.set k ⟨topic, n, some (Cameras.replyOf result)⟩ } := by
  refine sound.next (.still rfl rfl) (fun _ _ => .inl) (fun _ => .inl) (fun _ _ => .inl) (fun _ => .inl) ?_
  intro shot mem
  obtain old | rfl := List.mem_or_eq_of_mem_set mem
  · exact .inl old
  obtain ⟨⟨e', found', on⟩, -⟩ := sound.shots _ (List.mem_of_getElem? asked)
  obtain rfl : e = e' := Option.some.inj (found.symm.trans found')
  refine .inr ⟨⟨e, found, on⟩, ?_⟩
  intro jpeg shown
  obtain rfl : result = .ok (some jpeg) := by
    unfold Cameras.replyOf at shown
    split at shown <;> cases shown
    rfl
  have pictured := (sound.threads e (List.mem_of_getElem? found)).2 jpeg done
  rw [show e.topic = topic from on] at pictured
  exact pictured.grows (.still rfl rfl)

/-- A thread takes its first step. -/
theorem store {n : Nat} {e : Encode V J} (sound : Sound pictures s) (found : s.threads[n]? = some e) :
    Sound pictures { s with
      threads := s.threads.set n (e.store pictures s.frameCache).1
      frameCache := (e.store pictures s.frameCache).2 } := by
  have of_frame := (sound.threads e (List.mem_of_getElem? found)).1
  have same : ∀ stage, s.threads.set n { e with stage := stage } =
      s.threads.modify n fun e => { e with stage := stage } := fun stage => by
    rw [List.modify_eq_set_getElem?, found]
    rfl
  have grows : ∀ stage cache,
      Grows s { s with threads := s.threads.set n { e with stage := stage }, frameCache := cache } :=
    fun stage cache => .goes rfl (same stage) fun _ => ⟨rfl, rfl⟩
  have threads : ∀ stage, (∀ jpeg, stage ≠ .returned (.ok (some jpeg))) →
      ∀ e' ∈ s.threads.set n { e with stage := stage }, e' ∈ s.threads ∨
        (∀ frame, e'.frame = some frame → frame ∈ s.publishedOn e'.topic) ∧
          ∀ jpeg, e'.stage = .returned (.ok (some jpeg)) → Pictured pictures s e'.topic jpeg := by
    intro stage early e' mem
    obtain old | rfl := List.mem_or_eq_of_mem_set mem
    · exact .inl old
    · exact .inr ⟨of_frame, fun jpeg is => (early jpeg is).elim⟩
  obtain is | ⟨-, -, is⟩ | ⟨frame, jpeg, -, of, shaped, made, is⟩ | ⟨x, -, is⟩ := e.store_cases pictures s.frameCache
  · obtain ⟨inside, rfl⟩ := List.getElem?_eq_some_iff.mp found
    rw [is, List.set_getElem_self]
    exact sound
  · rw [is]
    exact sound.next (grows _ _) (fun _ _ => .inl) (threads .stored fun _ returned => by cases returned) (fun _ _ => .inl) (fun _ => .inl)
      fun _ => .inl
  · rw [is]
    refine sound.next (grows _ _) ?_ (threads .stored fun _ returned => by cases returned) (fun _ _ => .inl) (fun _ => .inl) fun _ => .inl
    intro topic jpeg' found'
    rw [OrderedDict.get?_set] at found'
    split at found'
    · next here =>
      cases found'
      exact .inr ⟨frame, here ▸ of_frame frame of, shaped, made⟩
    · exact .inl found'
  · rw [is]
    exact sound.next (grows _ _) (fun _ _ => .inl) (threads _ fun _ returned => by cases returned) (fun _ _ => .inl) (fun _ => .inl)
      fun _ => .inl

/-- A thread takes its last step. -/
theorem fetch (sound : Sound pictures s) (n : Nat) :
    Sound pictures { s with threads := s.threads.modify n (Encode.fetch s.frameCache) } := by
  have kept : ∀ e : Encode V J, (e.fetch s.frameCache).topic = e.topic ∧ (e.fetch s.frameCache).frame = e.frame := by
    intro e
    unfold Encode.fetch
    split <;> exact ⟨rfl, rfl⟩
  have grows : Grows s { s with threads := s.threads.modify n (Encode.fetch s.frameCache) } := .goes rfl rfl kept
  refine sound.next grows (fun _ _ => .inl) ?_ (fun _ _ => .inl) (fun _ => .inl) fun _ => .inl
  intro e' mem
  obtain ⟨m, at_⟩ := List.mem_iff_getElem?.mp mem
  simp only [List.getElem?_modify] at at_
  obtain ⟨e, found, is⟩ := Option.map_eq_some_iff.mp at_
  have old := List.mem_of_getElem? found
  split at is
  · subst is
    refine .inr ⟨?_, ?_⟩
    · rw [(kept e).1, (kept e).2]
      exact (sound.threads e old).1
    · intro jpeg done
      rw [(kept e).1]
      unfold Encode.fetch at done
      split at done
      · cases done' : s.frameCache.get? e.topic with
        | none => simp [done'] at done
        | some cached =>
            obtain rfl : cached = jpeg := by simpa [done'] using done
            exact sound.cached _ _ done'
      · exact (sound.threads e old).2 jpeg done
  · subst is
    exact .inl old

theorem step (sound : Sound pictures s) (action : Action V) : Sound pictures (s.step pictures action) := by
  cases action with
  | publish topic frame => exact sound.publish topic frame
  | view topic planes fps =>
      simp only [Cameras.step, Cameras.view]
      split
      · next type minDt _ made =>
        split
        · refine sound.next (.still rfl rfl) (fun _ _ => .inl) (fun _ => .inl) (fun _ _ => .inl) ?_ fun _ => .inl
          intro v mem
          obtain old | rfl := by simpa using mem
          · exact .inl old
          · exact .inr ⟨Viewer.Paced.new _ (minDt_short made), Served.new _ _ _⟩
        · exact sound
      · exact sound
  | opens k now writes =>
      simp only [Cameras.step]
      split
      · exact sound
      next v at_ =>
      split
      · exact sound.opens (List.mem_of_getElem? at_)
      · exact sound
  | turn k turn =>
      simp only [Cameras.step]
      split
      · exact sound
      next v at_ =>
      split
      · next waiting => exact sound.turn (List.mem_of_getElem? at_) waiting
      · exact sound
  | resume k writes =>
      simp only [Cameras.step]
      split
      · exact sound
      next v at_ =>
      split
      · next frame now n encoding =>
        split
        · next jpeg found => exact sound.resume (List.mem_of_getElem? at_) encoding found rfl
        · exact sound
      · exact sound
  | leave k =>
      simp only [Cameras.step, List.modify_eq_set_getElem?]
      cases at_ : s.viewers[k]? with
      | none => exact sound
      | some v =>
          obtain ⟨paced, served⟩ := sound.viewers v (List.mem_of_getElem? at_)
          have left : ∀ (frame : V) (now : ℚ) (n : Nat), Phase.left ≠ .encoding frame now n := by
            intro frame now n encoding
            cases encoding
          exact sound.setViewer k (paced.quiet rfl rfl rfl le_rfl left) (served.quiet rfl rfl .refl left)
  | snapshot topic planes arrival => exact sound.snapshot topic planes arrival
  | reply k =>
      simp only [Cameras.step]
      split
      · next topic n asked =>
        split
        · next jpeg found => exact sound.reply asked found rfl
        · exact sound
      · exact sound
  | store n =>
      simp only [Cameras.step]
      split
      · exact sound
      · next e found => exact sound.store found
  | fetch n => exact sound.fetch n

theorem after (pictures : Pictures V J) (actions : List (Action V)) :
    Sound pictures (Cameras.after pictures actions) := by
  induction actions using List.reverseRecOn with
  | nil => exact .new
  | append_singleton actions action sound =>
      rw [Cameras.after, List.foldl_append]
      exact sound.step action

end Sound

/-- Every picture that goes out is the JPEG of a frame sent on the topic asked for.  The new
frames of a viewer are some of those sent, in order, each with another id than the one before;
its parts keep the distance asked for, and repeated pictures three seconds. -/
theorem frames_served (pictures : Pictures V J) (actions : List (Action V)) :
    (∀ v ∈ (Cameras.after pictures actions).viewers,
      (∀ part ∈ v.parts, Pictured pictures (Cameras.after pictures actions) v.topic part.jpeg) ∧
      v.frames.Sublist ((Cameras.after pictures actions).publishedOn v.topic) ∧
      (v.frames.map pictures.frameId).IsChain (· ≠ ·) ∧
      v.marks.IsChain (Viewer.Apart v.minDt)) ∧
    ∀ shot ∈ (Cameras.after pictures actions).shots, ∀ jpeg, shot.reply = some (.image jpeg) →
      Pictured pictures (Cameras.after pictures actions) shot.topic jpeg := by
  have sound := Sound.after pictures actions
  refine ⟨fun v mem => ?_, fun shot mem => (sound.shots shot mem).2⟩
  obtain ⟨paced, served⟩ := sound.viewers v mem
  have read : v.frames.Sublist (v.frames ++ v.pending ++ v.sub.unread.toList) := by
    rw [List.append_assoc]
    exact List.sublist_append_left _ _
  exact ⟨served.shown, read.trans served.reads.1, paced.differ, paced.apart⟩

end KoyuRuntime.Services.Bridge.Camera
