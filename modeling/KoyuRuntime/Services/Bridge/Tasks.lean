/-
# Services.Bridge.Tasks — which tasks are still running

A task that is neither cancelled nor over is in the table of its kind, under its topic or
channel.  A table has one task for each key, so there is at most one stream of a topic;
and the tasks in the tables are the ones that are cancelled at the end.

* `Table`: what a table says about the tasks of its kind.
* `Tracked`: what every action keeps of both tables.
* `after_tracked`: so it is in every run.
* `Tracked.single`: two live streams are not of the same topic.
-/
import KoyuRuntime.Services.Bridge.Plans
import KoyuRuntime.Theory.Positions
import Mathlib.Data.List.Induction

namespace KoyuRuntime.Services.Bridge

open Host Theory Ipc.Types
open FrameIds (Consumer Struct)

set_option autoImplicit false

variable {V : Type}

/-! ## Single tasks -/

namespace Task

variable {outside : Outside} {turn : Turn V} {t : Task V}

theorem not_live_done (t : Task V) : t.done.live = false := by
  simp [done, live]

theorem not_live_cancel (t : Task V) : t.cancel.live = false := by
  unfold cancel live
  split
  · rename_i ended
    simp [ended]
  · simp

theorem job_cancel (t : Task V) : t.cancel.job = t.job := by
  unfold cancel
  split <;> rfl

theorem job_poll (type : Yaml) (rate : Json) : (t.poll outside type rate turn).job = t.job := by
  unfold poll
  split
  · split <;> rfl
  · rfl

theorem job_forward (channel : Json) : (t.forward outside channel turn).job = t.job := by
  unfold forward
  split
  · split
    · rfl
    · split <;> rfl
  · rfl

/-- What a turn leaves of a task: its job, and no life it did not have. -/
theorem turn_fades (outside : Outside) (turn : Turn V) (t : Task V) :
    (t.turn outside turn).job = t.job ∧ ((t.turn outside turn).live = true → t.live = true) := by
  unfold Task.turn
  split
  · exact ⟨rfl, id⟩
  · rename_i running
    split
    · exact ⟨rfl, fun lives => absurd lives (by simp [not_live_done])⟩
    · rename_i kept
      refine ⟨?_, fun _ => by simp [live, running, kept]⟩
      split
      · exact job_poll _ _
      · exact job_forward _

/-- Does a stream's turn go well: `read()` returns, and what is new gets sent? -/
def Flows (turn : Turn V) (t : Task V) : Prop :=
  match turn.value with
  | none => False
  | some none => True
  | some (some v) => some v.frameId = t.consumer.last ∨ turn.sends = true

theorem flows_iff {value : Option (Struct V)} (read : turn.value = some value) :
    t.Flows turn ↔ t.consumer.pollAndSend value turn.sends ≠ none := by
  unfold Flows
  rw [read]
  cases value with
  | none => simp [Consumer.pollAndSend]
  | some v =>
      by_cases old : some v.frameId = t.consumer.last
      · simp [Consumer.pollAndSend, old]
      · cases turn.sends <;> simp [Consumer.pollAndSend, old]

/-- **A stream goes on** exactly if its type and rate can be used and the turn goes well. -/
theorem live_turn_iff {topic : Key} {type : Yaml} {plane : String} {rate : Json} (lives : t.live = true)
    (job : t.job = .stream topic type plane rate) :
    (t.turn outside turn).live = true ↔
      (∃ S, resolve type = .ok S) ∧ (∃ dt, period rate = .ok dt ∧ outside.sleeps dt = true) ∧ t.Flows turn := by
  obtain ⟨kept, running⟩ : t.cancelled = false ∧ t.ended = false := by simpa [live] using lives
  have dead := not_live_done t
  simp only [Task.turn, kept, running, job, Bool.false_eq_true, if_false, poll]
  cases resolved : resolve type with
  | error e => simp [dead]
  | ok S =>
      cases paced : period rate with
      | error e => simp [dead]
      | ok dt =>
          cases read : turn.value with
          | none => simp [dead, Flows, read]
          | some value =>
              rw [flows_iff read]
              cases sent : t.consumer.pollAndSend value turn.sends with
              | none => simp [dead, sent]
              | some consumer => simp [live, sent]

end Task

/-! ## Lists of tasks -/

/-- What happens to tasks: they keep their jobs, and none comes to life. -/
def Fades (tasks tasks' : List (Task V)) : Prop :=
  ∀ (m : Nat) (t' : Task V), tasks'[m]? = some t' →
    ∃ t, tasks[m]? = some t ∧ t'.job = t.job ∧ (t'.live = true → t.live = true)

theorem fades_modify {f : Task V → Task V} (fades : ∀ t, (f t).job = t.job ∧ ((f t).live = true → t.live = true))
    (tasks : List (Task V)) (n : Nat) : Fades tasks (tasks.modify n f) := by
  intro m t' at_
  obtain ⟨t, here, ⟨-, rfl⟩ | ⟨-, rfl⟩⟩ := modify_cases at_
  · exact ⟨t, here, fades t⟩
  · exact ⟨t', here, rfl, id⟩

theorem cancel_fades (t : Task V) : t.cancel.job = t.job ∧ (t.cancel.live = true → t.live = true) :=
  ⟨t.job_cancel, fun lives => absurd lives (by simp [Task.not_live_cancel])⟩

theorem Fades.refl (tasks : List (Task V)) : Fades tasks tasks := fun _ t here => ⟨t, here, rfl, id⟩

theorem Fades.trans {a b c : List (Task V)} (first : Fades a b) (second : Fades b c) : Fades a c := by
  intro m t'' at_
  obtain ⟨t', mid, job', lives'⟩ := second m t'' at_
  obtain ⟨t, here, job, lives⟩ := first m t' mid
  exact ⟨t, here, job'.trans job, lives ∘ lives'⟩

theorem fades_cancelAll (ns : List Nat) (tasks : List (Task V)) :
    Fades tasks (Connection.cancelAll ns tasks) ∧ (Connection.cancelAll ns tasks).length = tasks.length := by
  induction ns generalizing tasks with
  | nil => exact ⟨.refl tasks, rfl⟩
  | cons n rest ih =>
      obtain ⟨fades, length⟩ := ih (tasks.modify n Task.cancel)
      exact ⟨(fades_modify cancel_fades tasks n).trans fades, length.trans (List.length_modify _ _ _)⟩

/-- A task that is live after a cancellation was not cancelled. -/
theorem cancelAll_live {ns : List Nat} {tasks : List (Task V)} {m : Nat} {t' : Task V}
    (at_ : (Connection.cancelAll ns tasks)[m]? = some t') (lives : t'.live = true) :
    tasks[m]? = some t' ∧ m ∉ ns := by
  induction ns generalizing tasks with
  | nil => exact ⟨at_, List.not_mem_nil⟩
  | cons n rest ih =>
      obtain ⟨there, others⟩ := ih at_
      obtain ⟨t, here, ⟨-, rfl⟩ | ⟨other, rfl⟩⟩ := modify_cases there
      · exact absurd lives (by simp [Task.not_live_cancel])
      · refine ⟨here, fun mem => ?_⟩
        rcases List.mem_cons.mp mem with same | inRest
        · exact other same.symm
        · exact others inRest

/-! ## One table -/

/-- A task for the stream of a topic. -/
def Job.Streams (topic : Key) : Job → Prop
  | .stream key _ _ _ => key = topic
  | .listen _ => False

/-- A task for the events of a channel. -/
def Job.Listens (_ : Key) : Job → Prop
  | .stream .. => False
  | .listen _ => True

theorem streams_iff {topic : Key} {job : Job} :
    job.Streams topic ↔ ∃ type plane rate, job = .stream topic type plane rate := by
  cases job <;> simp [Job.Streams]

/-- The live tasks of a kind are in its table, and the table points to tasks of the kind. -/
structure Table (kind : Key → Job → Prop) (table : OrderedDict Key Nat) (tasks : List (Task V)) : Prop where
  listed : ∀ n t key, tasks[n]? = some t → t.live = true → kind key t.job →
    ∃ key', kind key' t.job ∧ table.get? key' = some n
  points : ∀ key n, table.get? key = some n → ∃ t, tasks[n]? = some t ∧ kind key t.job

namespace Table

variable {kind : Key → Job → Prop} {table : OrderedDict Key Nat} {tasks : List (Task V)}

theorem new : Table kind ∅ ([] : List (Task V)) where
  listed := by simp
  points := by simp

/-- Tasks may fade under a table that stays. -/
theorem fade (tracked : Table kind table tasks) {tasks' : List (Task V)} (fades : Fades tasks tasks')
    (length : tasks'.length = tasks.length) : Table kind table tasks' where
  listed n t' key at_ alive own := by
    obtain ⟨t, here, same, lives⟩ := fades n t' at_
    rw [same] at own ⊢
    exact tracked.listed n t key here (lives alive) own
  points key n found := by
    obtain ⟨t, here, own⟩ := tracked.points key n found
    have inside : n < tasks'.length := by
      rw [length]
      exact lt_of_at here
    obtain ⟨t₀, before, same, -⟩ := fades n _ (List.getElem?_eq_getElem inside)
    cases here.symm.trans before
    exact ⟨_, List.getElem?_eq_getElem inside, same.symm ▸ own⟩

/-- `table.pop(key)`, and the task is cancelled. -/
theorem drop (tracked : Table kind table tasks) {key : Key} {n : Nat} (found : table.get? key = some n) :
    Table kind (table.erase key) (tasks.modify n Task.cancel) := by
  have faded := tracked.fade (fades_modify cancel_fades tasks n) (List.length_modify _ _ _)
  refine ⟨?_, fun key' m there => faded.points key' m (OrderedDict.get?_of_erase there)⟩
  intro m t' key₀ at_ alive own
  obtain ⟨key', own', there⟩ := faded.listed m t' key₀ at_ alive own
  refine ⟨key', own', ?_⟩
  rw [OrderedDict.get?_erase, if_neg]
  · exact there
  · rintro rfl
    cases found.symm.trans there
    obtain ⟨t, -, ⟨-, rfl⟩ | ⟨other, -⟩⟩ := modify_cases at_
    · simp [Task.not_live_cancel] at alive
    · exact other rfl

/-- `table[key] = asyncio.create_task(...)`, for a key without a task. -/
theorem add (tracked : Table kind table tasks) {key : Key} (fresh : table.get? key = none) {job : Job}
    (own : kind key job) : Table kind (table.set key tasks.length) (tasks ++ [Task.new job]) where
  listed m t' key₀ at_ alive own₀ := by
    rcases snoc_iff.mp at_ with here | ⟨rfl, rfl⟩
    · obtain ⟨key', own', there⟩ := tracked.listed m t' key₀ here alive own₀
      refine ⟨key', own', ?_⟩
      rw [OrderedDict.get?_set, if_neg]
      · exact there
      · rintro rfl
        rw [fresh] at there
        cases there
    · exact ⟨key, own, OrderedDict.get?_set_self _ _ _⟩
  points key' m there := by
    rw [OrderedDict.get?_set] at there
    split at there
    · rename_i same
      cases there
      exact ⟨_, List.getElem?_concat_length, same ▸ own⟩
    · obtain ⟨t, here, own'⟩ := tracked.points key' m there
      exact ⟨t, snoc_iff.mpr (.inl here), own'⟩

/-- A task of another kind is made. -/
theorem other (tracked : Table kind table tasks) {job : Job} (foreign : ∀ key, ¬ kind key job) :
    Table kind table (tasks ++ [Task.new job]) where
  listed m t' key at_ alive own := by
    rcases snoc_iff.mp at_ with here | ⟨rfl, rfl⟩
    · exact tracked.listed m t' key here alive own
    · exact absurd own (foreign key)
  points key m found := by
    obtain ⟨t, here, own⟩ := tracked.points key m found
    exact ⟨t, snoc_iff.mpr (.inl here), own⟩

end Table

/-! ## Both tables -/

/-- While the loop runs the tables are in step with the tasks; after it no task is live. -/
structure Tracked (c : Connection V) : Prop where
  closed : c.isOpen = false → ∀ t ∈ c.tasks, t.live = false
  subs : Table Job.Streams c.subTasks c.tasks
  listens : Table Job.Listens c.listenTasks c.tasks

namespace Tracked

variable {c : Connection V}

theorem new : Tracked (Connection.new : Connection V) where
  closed := by simp [Connection.new]
  subs := Table.new
  listens := Table.new

theorem closed_fade (tracked : Tracked c) {tasks : List (Task V)} (fades : Fades c.tasks tasks)
    (stopped : c.isOpen = false) : ∀ t ∈ tasks, t.live = false := by
  intro t' mem
  obtain ⟨n, at_⟩ := List.mem_iff_getElem?.mp mem
  obtain ⟨t, here, -, lives⟩ := fades n t' at_
  have dead := tracked.closed stopped t (List.mem_of_getElem? here)
  by_contra alive
  rw [lives (by simpa using alive)] at dead
  cases dead

/-- Tasks may fade under tables that stay. -/
theorem fade (tracked : Tracked c) {tasks : List (Task V)} (fades : Fades c.tasks tasks)
    (length : tasks.length = c.tasks.length) : Tracked { c with tasks := tasks } :=
  ⟨tracked.closed_fade fades, tracked.subs.fade fades length, tracked.listens.fade fades length⟩

theorem dropSub (tracked : Tracked c) (topic : Key) : Tracked (c.dropSub topic) := by
  unfold Connection.dropSub
  cases found : c.subTasks.get? topic with
  | none => exact tracked
  | some n =>
      have faded := tracked.fade (fades_modify cancel_fades c.tasks n) (List.length_modify _ _ _)
      exact ⟨faded.closed, tracked.subs.drop found, faded.listens⟩

theorem dropListen (tracked : Tracked c) (channel : Key) : Tracked (c.dropListen channel) := by
  unfold Connection.dropListen
  cases found : c.listenTasks.get? channel with
  | none => exact tracked
  | some n =>
      have faded := tracked.fade (fades_modify cancel_fades c.tasks n) (List.length_modify _ _ _)
      exact ⟨faded.closed, faded.subs, tracked.listens.drop found⟩

/-- `sub_tasks[topic] = asyncio.create_task(...)`, for a topic without a task. -/
theorem addSub (tracked : Tracked c) (running : c.isOpen = true) {topic : Key}
    (fresh : c.subTasks.get? topic = none) (type : Yaml) (plane : String) (rate : Json) :
    Tracked { c with
      subTasks := c.subTasks.set topic c.tasks.length
      tasks := c.tasks ++ [Task.new (.stream topic type plane rate)] } where
  closed stopped := absurd (running.symm.trans stopped) (by decide)
  subs := tracked.subs.add fresh rfl
  listens := tracked.listens.other fun _ => id

/-- `listen_tasks[ch] = asyncio.create_task(...)`, for a channel without a task. -/
theorem addListen (tracked : Tracked c) (running : c.isOpen = true) (channel : Json) {key : Key}
    (fresh : c.listenTasks.get? key = none) :
    Tracked { c with
      listenTasks := c.listenTasks.set key c.tasks.length
      tasks := c.tasks ++ [Task.new (.listen channel)] } where
  closed stopped := absurd (running.symm.trans stopped) (by decide)
  subs := tracked.subs.other fun _ => id
  listens := tracked.listens.add fresh trivial

/-- A live task is in one of the tables. -/
theorem listed (tracked : Tracked c) {n : Nat} {t : Task V} (here : c.tasks[n]? = some t) (alive : t.live = true) :
    n ∈ c.subTasks.entries.map Prod.snd ++ c.listenTasks.entries.map Prod.snd := by
  refine List.mem_append.mpr ?_
  cases job : t.job with
  | stream topic type plane rate =>
      obtain ⟨key, -, there⟩ := tracked.subs.listed n t topic here alive (by rw [job]; rfl)
      exact .inl (List.mem_map_of_mem (OrderedDict.mem_of_find there))
  | listen channel =>
      obtain ⟨key, -, there⟩ := tracked.listens.listed n t .null here alive (by rw [job]; trivial)
      exact .inr (List.mem_map_of_mem (OrderedDict.mem_of_find there))

/-- **At the end** no task is live: the live ones were in the tables. -/
theorem finish (tracked : Tracked c) : Tracked c.finish := by
  have gone : ∀ t ∈ c.finish.tasks, t.live = false := by
    intro t mem
    obtain ⟨m, at_⟩ := List.mem_iff_getElem?.mp mem
    by_contra alive
    rw [Bool.not_eq_false] at alive
    obtain ⟨here, others⟩ := cancelAll_live at_ alive
    exact others (tracked.listed here alive)
  obtain ⟨fades, length⟩ := fades_cancelAll
    (c.subTasks.entries.map Prod.snd ++ c.listenTasks.entries.map Prod.snd) c.tasks
  exact ⟨fun _ => gone, tracked.subs.fade fades length, tracked.listens.fade fades length⟩

end Tracked

section Runs

variable {outside : Outside} {planes : Planes} {c : Connection V}

theorem isOpen_dropSub (c : Connection V) (topic : Key) : (c.dropSub topic).isOpen = c.isOpen := by
  unfold Connection.dropSub
  split <;> rfl

theorem length_dropSub (c : Connection V) (topic : Key) : (c.dropSub topic).tasks.length = c.tasks.length := by
  unfold Connection.dropSub
  split
  · rfl
  · exact List.length_modify _ _ _

theorem get?_dropSub (c : Connection V) (topic topic' : Key) :
    (c.dropSub topic).subTasks.get? topic' = if topic = topic' then none else c.subTasks.get? topic' := by
  unfold Connection.dropSub
  split
  · rename_i none_
    split
    · rename_i same
      exact same ▸ none_
    · rfl
  · exact OrderedDict.get?_erase _ _ _

/-- **A plan** keeps the tables in step with the tasks. -/
theorem Tracked.outcome (tracked : Tracked c) (running : c.isOpen = true) (plan : Plan) :
    Tracked (plan.outcome c) := by
  cases plan with
  | raise e => exact tracked.finish
  | idle => exact tracked
  | say effect => exact ⟨tracked.closed, tracked.subs, tracked.listens⟩
  | ring channel id => exact ⟨tracked.closed, tracked.subs, tracked.listens⟩
  | subscribe topic type plane rate =>
      refine (tracked.dropSub topic).addSub ((isOpen_dropSub c topic).trans running) ?_ type plane rate
      rw [get?_dropSub, if_pos rfl]
  | unsubscribe topic => exact tracked.dropSub topic
  | listen channel key =>
      by_cases old : key ∈ c.listenTasks.keys
      · simp only [Plan.outcome, Plan.carry, if_pos old]
        exact tracked
      · simp only [Plan.outcome, Plan.carry, if_neg old]
        exact tracked.addListen running channel (OrderedDict.get?_eq_none_iff.mpr old)
  | unlisten key => exact tracked.dropListen key

/-- **An action** keeps the tables in step with the tasks. -/
theorem step_tracked (tracked : Tracked c) (a : Action V) : Tracked (step outside planes c a) := by
  cases a with
  | text message moment =>
      by_cases running : c.isOpen = true
      · rw [step_text running]
        exact tracked.outcome running _
      · simp only [step, if_neg running]
        exact tracked
  | binary => exact tracked
  | ends =>
      by_cases running : c.isOpen = true
      · simp only [step, if_pos running]
        exact tracked.finish
      · simp only [step, if_neg running]
        exact tracked
  | turn n turn =>
      exact tracked.fade (fades_modify (Task.turn_fades outside turn) c.tasks n) (List.length_modify _ _ _)

theorem after_snoc (outside : Outside) (planes : Planes) (before : List (Action V)) (a : Action V) :
    after outside planes (before ++ [a]) = step outside planes (after outside planes before) a :=
  List.foldl_concat _ _ _ _

/-- **In every run** the tables are in step with the tasks. -/
theorem after_tracked (outside : Outside) (planes : Planes) (actions : List (Action V)) :
    Tracked (after outside planes actions) := by
  induction actions using List.reverseRecOn with
  | nil => exact .new
  | append_singleton before a ih =>
      rw [after_snoc]
      exact step_tracked ih a

end Runs

/-- The task of this number is a live stream of the topic, at this rate. -/
def StreamAt (c : Connection V) (n : Nat) (topic : Key) (rate : Json) : Prop :=
  ∃ t : Task V, c.tasks[n]? = some t ∧ t.live = true ∧ ∃ type plane, t.job = .stream topic type plane rate

theorem Tracked.streamAt {c : Connection V} (tracked : Tracked c) {n : Nat} {topic : Key} {rate : Json}
    (stream : StreamAt c n topic rate) : c.subTasks.get? topic = some n := by
  obtain ⟨t, here, alive, type, plane, job⟩ := stream
  obtain ⟨key, own, there⟩ := tracked.subs.listed n t topic here alive (by rw [job]; rfl)
  obtain ⟨_, _, _, job'⟩ := streams_iff.mp own
  cases job.symm.trans job'
  exact there

/-- There is at most one live stream of a topic. -/
theorem Tracked.single {c : Connection V} (tracked : Tracked c) {n m : Nat} {topic : Key} {rate rate' : Json}
    (first : StreamAt c n topic rate) (second : StreamAt c m topic rate') : n = m :=
  Option.some.inj ((tracked.streamAt first).symm.trans (tracked.streamAt second))

end KoyuRuntime.Services.Bridge
