/-
# Services.FrameIds — polling consumers and the frame ids of a restarted owner

The owner of a blackboard topic numbers the structs it publishes; the number starts over
with the process.  The logger and the bridge poll the cell and take what they read only
if its frame id is not the one they took last.

Two structs of one owner process have different ids until the counter wraps, but a
restarted owner hands out the same ids again.  So a poll leaves the consumer at the
struct in the cell exactly if that struct can be logged at all and its id is not that of
an older struct the consumer took before the restart (`polls_show_cell_iff`).

* `Watched`: what the steps keep true of the cell, the counter and the struct taken last.
* `publish_owner`, `bootTopic_owner`: a topic of the param server is such an owner.

`read` returns nothing before the first owner has created the topic; after that the
reader's port is open and stays on the topic's cell.
-/
import KoyuRuntime.Services.ParamServer.Totality

namespace KoyuRuntime.Services.FrameIds

open Host Theory

set_option autoImplicit false

/-- What a `c_uint64` field keeps of a counter. -/
def uint64 (n : Nat) : Nat := n % 2 ^ 64

/-- A struct as readers decode it: its frame id and its other fields. -/
structure Struct (V : Type) where
  frameId : Nat
  values : V
  deriving DecidableEq, Repr

/-! ## The owner -/

/-- The owner's counter and the topic's cell, which outlives the process. -/
structure Owner (V : Type) where
  frame : Nat
  cell : Option (Struct V)

namespace Owner

variable {V : Type}

/-- A new process: its `Writer` puts the initial struct into the cell. -/
def restart (initial : V) (_ : Owner V) : Owner V := ⟨0, some ⟨0, initial⟩⟩

/-- `_publish`: the counter moves, whether or not the write succeeds. -/
def publish (values : V) (written : Bool) (o : Owner V) : Owner V :=
  let frame := o.frame + 1
  ⟨frame, if written then some ⟨uint64 frame, values⟩ else o.cell⟩

end Owner

/-! ## The consumers -/

/-- A consumer of one topic: the id it took last, and what it has logged or sent. -/
structure Consumer (V : Type) where
  last : Option Nat
  shown : List (Struct V)

/-- How the logger logs a topic: a line of the struct's scalars, or a frame in its ring. -/
inductive Logged (V : Type) where
  | state
  | image (width height size : V → Nat)

namespace Logged

variable {V : Type}

/-- Does `on_tick` get this struct into the log?  For an image, the check of `_save_frame`:
`w and h and w * h * 3 <= len(frame.data)`. -/
def saves : Logged V → V → Bool
  | .state, _ => true
  | .image width height size, v =>
      decide (width v ≠ 0) && decide (height v ≠ 0) && decide (width v * height v * 3 ≤ size v)

end Logged

namespace Consumer

variable {V : Type}

/-- `IpcLogger.on_tick` for one topic, and the struct its reader returns. -/
def onTick (logged : Logged V) (c : Consumer V) (value : Option (Struct V)) : Consumer V :=
  match value with
  | none => c
  | some v =>
      if some v.frameId = c.last then c
      -- the id counts as taken also when the frame is not saved
      else ⟨some v.frameId, if logged.saves v.values then c.shown ++ [v] else c.shown⟩

/-- One round of `poll_and_send`; a send that raises ends the loop. -/
def pollAndSend (c : Consumer V) (value : Option (Struct V)) (delivered : Bool) :
    Option (Consumer V) :=
  match value with
  | none => some c
  | some v =>
      if some v.frameId ≠ c.last then
        if delivered then some ⟨some v.frameId, c.shown ++ [v]⟩ else none
      else some c

end Consumer

/-- The two programs that poll. -/
inductive Poller (V : Type) where
  | logger (logged : Logged V)
  | bridge

namespace Poller

variable {V : Type}

def shows : Poller V → V → Bool
  | .logger logged, v => logged.saves v
  | .bridge, _ => true

def poll (p : Poller V) (c : Consumer V) (value : Option (Struct V)) (delivered : Bool) :
    Option (Consumer V) :=
  match p with
  | .logger logged => some (c.onTick logged value)
  | .bridge => c.pollAndSend value delivered

/-- **A poll that returns**: a struct of a new id is taken, and shown if it can be. -/
theorem poll_returns {p : Poller V} {c c' : Consumer V} {v : Struct V} {delivered : Bool}
    (returned : p.poll c (some v) delivered = some c') :
    c' = if some v.frameId = c.last then c
      else ⟨some v.frameId, if p.shows v.values then c.shown ++ [v] else c.shown⟩ := by
  cases p with
  | logger logged => exact (Option.some.inj returned).symm
  | bridge =>
      by_cases known : some v.frameId = c.last
      · simp only [poll, Consumer.pollAndSend, known, ne_eq, not_true, if_false] at returned
        rw [if_pos known]
        exact (Option.some.inj returned).symm
      · simp only [poll, Consumer.pollAndSend, ne_eq, known, not_false_eq_true, if_true] at returned
        cases delivered with
        | true => rw [if_neg known]; exact (Option.some.inj returned).symm
        | false => exact absurd returned (by simp)

end Poller

/-! ## Owner and consumer together -/

/-- What the consumer took last and where the counter stood when that struct, and the
one now in the cell, were written.  No code reads it. -/
structure Watch (V : Type) where
  taken : Option (Struct V)
  takenAt : Nat
  writtenAt : Nat
  /-- Has the owner restarted since? -/
  restarted : Bool

structure State (V : Type) where
  owner : Owner V
  consumer : Consumer V
  watch : Watch V

inductive Action (V : Type) where
  | restart (initial : V)
  | publish (values : V) (written : Bool)
  | poll (delivered : Bool)

/-- Why a step is refused: no owner has run yet, or the consumer's loop is over. -/
inductive Refusal where
  | noOwner
  | closed
  deriving DecidableEq, Repr

variable {V : Type}

def start : State V := ⟨⟨0, none⟩, ⟨none, []⟩, ⟨none, 0, 0, false⟩⟩

namespace Watch

/-- The watch after a poll of this struct. -/
def poll (w : Watch V) (last : Option Nat) : Option (Struct V) → Watch V
  | none => w
  | some v => if some v.frameId = last then w else ⟨some v, w.writtenAt, w.writtenAt, false⟩

end Watch

def step (p : Poller V) (s : State V) : Action V → Except Refusal (State V)
  | .restart initial =>
      .ok ⟨s.owner.restart initial, s.consumer, { s.watch with writtenAt := 0, restarted := true }⟩
  | .publish values written =>
      match s.owner.cell with
      | none => .error .noOwner
      | some _ =>
          let owner := s.owner.publish values written
          .ok ⟨owner, s.consumer,
            { s.watch with writtenAt := if written then owner.frame else s.watch.writtenAt }⟩
  | .poll delivered =>
      match p.poll s.consumer s.owner.cell delivered with
      | none => .error .closed
      | some consumer => .ok ⟨s.owner, consumer, s.watch.poll s.consumer.last s.owner.cell⟩

/-! ## What every step keeps -/

/-- The consumer's last id is that of the struct taken, which is the last one shown if it
could be; and while the owner keeps running the counter only moves on from there. -/
structure Watched (p : Poller V) (s : State V) : Prop where
  last : s.consumer.last = s.watch.taken.map Struct.frameId
  current : ∀ v, s.watch.taken = some v → p.shows v.values = true →
    s.consumer.shown.getLast? = some v
  showable : ∀ v ∈ s.consumer.shown, p.shows v.values = true
  within : s.watch.writtenAt ≤ s.owner.frame
  numbered : ∀ v, s.owner.cell = some v → v.frameId = uint64 s.watch.writtenAt
  since : s.watch.restarted = false → ∀ v, s.watch.taken = some v →
    v.frameId = uint64 s.watch.takenAt ∧ s.watch.takenAt ≤ s.watch.writtenAt ∧
      (s.watch.takenAt = s.watch.writtenAt → s.owner.cell = some v)

section Steps

variable {p : Poller V} {s s' : State V}

theorem watched_start : Watched p (start : State V) where
  last := rfl
  current := by intro v taken; cases taken
  showable := by intro v mem; cases mem
  within := Nat.le_refl 0
  numbered := by intro v cell; cases cell
  since := by intro _ v taken; cases taken

theorem watched_restart (watched : Watched p s) {initial : V}
    (done : step p s (.restart initial) = .ok s') : Watched p s' := by
  cases done
  exact {
    last := watched.last
    current := watched.current
    showable := watched.showable
    within := Nat.zero_le _
    numbered := by intro v cell; cases cell; rfl
    since := by intro running; cases running }

theorem watched_publish (watched : Watched p s) {values : V} {written : Bool}
    (done : step p s (.publish values written) = .ok s') : Watched p s' := by
  simp only [step] at done
  cases cell : s.owner.cell with
  | none => simp [cell] at done
  | some before =>
      rw [cell] at done
      cases done
      have within := watched.within
      cases written with
      | true =>
          exact {
            last := watched.last
            current := watched.current
            showable := watched.showable
            within := Nat.le_refl _
            numbered := by intro v here; cases here; rfl
            since := by
              intro running v taken
              obtain ⟨id, before_, -⟩ := watched.since running v taken
              refine ⟨id, ?_, ?_⟩
              · show s.watch.takenAt ≤ s.owner.frame + 1
                omega
              · intro same
                have : s.watch.takenAt = s.owner.frame + 1 := same
                omega }
      | false =>
          exact {
            last := watched.last
            current := watched.current
            showable := watched.showable
            within := Nat.le_succ_of_le within
            numbered := watched.numbered
            since := watched.since }

theorem watched_poll (watched : Watched p s) {delivered : Bool}
    (done : step p s (.poll delivered) = .ok s') : Watched p s' := by
  simp only [step] at done
  cases polled : p.poll s.consumer s.owner.cell delivered with
  | none => simp [polled] at done
  | some after =>
      rw [polled] at done
      cases done
      cases cell : s.owner.cell with
      | none =>
          have same : after = s.consumer := by
            cases p <;> exact (Option.some.inj (by rw [cell] at polled; exact polled)).symm
          subst same
          simpa only [Watch.poll] using watched
      | some v =>
          rw [cell] at polled
          have taken := Poller.poll_returns polled
          by_cases known : some v.frameId = s.consumer.last
          · rw [if_pos known] at taken
            subst taken
            simpa only [Watch.poll, if_pos known] using watched
          · rw [if_neg known] at taken
            subst taken
            simp only [Watch.poll, if_neg known]
            exact {
              last := rfl
              current := by
                intro x same shows
                cases same
                rw [if_pos shows, List.getLast?_concat]
              showable := by
                intro x mem
                by_cases shows : p.shows v.values = true
                · rw [if_pos shows] at mem
                  rcases List.mem_append.mp mem with earlier | now
                  · exact watched.showable x earlier
                  · rwa [List.mem_singleton.mp now]
                · rw [if_neg shows] at mem
                  exact watched.showable x mem
              within := watched.within
              numbered := watched.numbered
              since := by
                intro _ x same
                cases same
                exact ⟨watched.numbered v cell, Nat.le_refl _, fun _ => cell⟩ }

theorem watched_step (watched : Watched p s) {a : Action V} (done : step p s a = .ok s') :
    Watched p s' := by
  cases a with
  | restart initial => exact watched_restart watched done
  | publish values written => exact watched_publish watched done
  | poll delivered => exact watched_poll watched done

theorem watched_reachable (reach : Reachable (step p) (· = start) s) : Watched p s :=
  reach.invariant (fun _ first => first ▸ watched_start) fun _ _ _ watched done =>
    watched_step watched done

end Steps

/-! ## When a poll shows the cell -/

/-- A poll that returns leaves the consumer at the struct in the cell. -/
def ShowsCell (p : Poller V) (s : State V) : Action V → Prop
  | .poll delivered => ∀ s' v, step p s (.poll delivered) = .ok s' → s.owner.cell = some v →
      s'.consumer.shown.getLast? = some v
  | _ => True

/-- The struct in the cell can be shown, and if it has the id the consumer took last,
either the same process has published fewer than 2^64 times from the one to the other,
or it is the struct shown last once more. -/
def ToldApart (p : Poller V) (s : State V) : Action V → Prop
  | .poll delivered => ∀ s' v, step p s (.poll delivered) = .ok s' → s.owner.cell = some v →
      p.shows v.values = true ∧
        (s.consumer.last = some v.frameId →
          (s.watch.restarted = false ∧ s.watch.writtenAt < s.watch.takenAt + 2 ^ 64) ∨
            s.consumer.shown.getLast? = some v)
  | _ => True

/-- Counters less than 2^64 apart have the same id only if they are the same. -/
theorem uint64_near {m n : Nat} (le : m ≤ n) (near : n < m + 2 ^ 64) (same : uint64 m = uint64 n) :
    m = n := by
  unfold uint64 at same
  omega

/-- While one process owns the cell, and the counter has not gone round, the id taken last
comes back only with the struct taken last. -/
theorem Watched.taken_last {p : Poller V} {s : State V} (watched : Watched p s) {v : Struct V}
    (cell : s.owner.cell = some v) (known : some v.frameId = s.consumer.last)
    (running : s.watch.restarted = false) (near : s.watch.writtenAt < s.watch.takenAt + 2 ^ 64)
    (shows : p.shows v.values = true) : s.consumer.shown.getLast? = some v := by
  have last := watched.last
  rw [← known] at last
  cases took : s.watch.taken with
  | none =>
      rw [took] at last
      cases last
  | some x =>
      rw [took] at last
      have sameId : x.frameId = v.frameId := (Option.some.inj last).symm
      obtain ⟨id, le, unchanged⟩ := watched.since running x took
      have ids : uint64 s.watch.takenAt = uint64 s.watch.writtenAt := by
        rw [← id, sameId, watched.numbered v cell]
      -- the ids agree, so nothing was written in between
      have here := unchanged (uint64_near le near ids)
      cases cell.symm.trans here
      exact watched.current v took shows

theorem showsCell_iff {p : Poller V} {s : State V} (watched : Watched p s) (a : Action V) :
    ShowsCell p s a ↔ ToldApart p s a := by
  cases a with
  | restart initial => exact Iff.rfl
  | publish values written => exact Iff.rfl
  | poll delivered =>
      refine forall_congr' fun s' => forall_congr' fun v => forall_congr' fun done =>
        forall_congr' fun cell => ?_
      simp only [step, cell] at done
      cases polled : p.poll s.consumer (some v) delivered with
      | none => simp [polled] at done
      | some after =>
          rw [polled] at done
          cases done
          have taken := Poller.poll_returns polled
          have shown_last : ∀ {l : List (Struct V)}, (∀ x ∈ l, p.shows x.values = true) →
              l.getLast? = some v → p.shows v.values = true := fun all last =>
            all v (List.mem_of_getLast? last)
          by_cases known : some v.frameId = s.consumer.last
          · rw [if_pos known] at taken
            subst taken
            constructor
            · intro last
              exact ⟨shown_last watched.showable last, fun _ => .inr last⟩
            · rintro ⟨shows, told⟩
              rcases told known.symm with ⟨running, near⟩ | last
              · exact watched.taken_last cell known running near shows
              · exact last
          · rw [if_neg known] at taken
            subst taken
            constructor
            · intro last
              refine ⟨?_, fun same => absurd same.symm known⟩
              by_cases shows : p.shows v.values = true
              · exact shows
              · simp only [if_neg shows] at last
                exact shown_last watched.showable last
            · rintro ⟨shows, -⟩
              simp only [if_pos shows, List.getLast?_concat]

/-- **Dedup by frame id**: along every run, every poll leaves the consumer at the struct
in the cell exactly if at every poll that struct can be shown and told apart. -/
theorem polls_show_cell_iff (p : Poller V) (actions : List (Action V)) :
    Along (step p) (ShowsCell p) start actions ↔ Along (step p) (ToldApart p) start actions :=
  have first : Reachable (step p) (· = start) start := .start rfl
  along_iff (fun _ reach a => showsCell_iff (watched_reachable reach) a) first actions

/-- A param server that restarts with a new boot value: what it publishes carries the
id of the value the consumer has from the process before. -/
def rebooted : List (Action Nat) :=
  [.restart 0, .publish 1 true, .poll true, .restart 0, .publish 2 true, .poll true]

/-- The logger and the bridge both stay at the old value. -/
theorem rebooted_hidden :
    ¬ Along (step (.logger .state)) (ShowsCell (.logger .state)) start rebooted ∧
      ¬ Along (step .bridge) (ShowsCell .bridge) start rebooted := by
  constructor <;>
    · intro shows
      have hidden := (shows.2 _ rfl).2 _ rfl |>.2 _ rfl |>.2 _ rfl |>.2 _ rfl |>.1 _ _ rfl rfl
      exact absurd hidden (by decide)

/-! ## The param server as an owner -/

section ParamServer

open ParamServer

variable {t t' : Topic} {initial : List (String × Json)}

/-- A topic of the param server as its readers see it, up to the timestamp: before the
first successful write the cell holds the initial struct. -/
def ownerOf (initial : List (String × Json)) (t : Topic) : Owner (List (String × Json)) where
  frame := t.frame
  cell := match t.writer.cell with
    | none => some ⟨0, initial⟩
    | some shown => some ⟨uint64 shown.frameId, shown.values⟩

/-- `_publish` is a publish of the owner, of whatever outcome the write has. -/
theorem publish_owner (ran : t.publish = .ok t') :
    ∃ values written, ownerOf initial t' = (ownerOf initial t).publish values written := by
  obtain ⟨values, -, ran⟩ := except_bind_ok_iff.mp ran
  cases ran
  rcases writes : t.writer with ⟨cell, outcomes⟩
  cases outcomes with
  | nil => exact ⟨values, true, by simp [ownerOf, Owner.publish, Ipc.Writer.write, writes]⟩
  | cons outcome rest =>
      refine ⟨values, outcome, ?_⟩
      cases outcome <;> simp [ownerOf, Owner.publish, Ipc.Writer.write, writes]

/-- `setup` is a restart of the owner and its first publish. -/
theorem bootTopic_owner {name : String} {T : StructType} {file : Option Json} {outcomes : List Bool}
    (booted : bootTopic name T file outcomes = .ok t) (before : Owner (List (String × Json))) :
    ∃ values written, ownerOf initial t = (before.restart initial).publish values written := by
  obtain ⟨params, -, booted⟩ := except_bind_ok_iff.mp booted
  obtain ⟨-, -, ran⟩ := except_bind_ok_iff.mp booted
  exact publish_owner ran

/-- A tick publishes, or leaves the owner alone. -/
theorem onTick_owner {files : List (Option Json)} (ran : t.onTick files = .ok t') :
    ownerOf initial t' = ownerOf initial t ∨
      ∃ values written, ownerOf initial t' = (ownerOf initial t).publish values written := by
  obtain ⟨-, ⟨-, rfl⟩ | ⟨-, published, shown, rfl⟩⟩ := Topic.onTick_cases ran
  · exact .inl rfl
  · have same : ∃ values written, ownerOf initial published =
        (ownerOf initial (t.heard (Topic.requests files))).publish values written :=
      publish_owner shown
    obtain ⟨values, written, same⟩ := same
    refine .inr ⟨values, written, ?_⟩
    split
    · exact same
    · exact same

end ParamServer

end KoyuRuntime.Services.FrameIds
