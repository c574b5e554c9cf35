/-
# Services.Bridge.Isolation — a bad message affects only itself

A message that is no request should leave the connection open and the tables alone, and
what comes later should go as if it had not been sent.  The topics subscribed to should
have one live stream each, at the rate asked for last.

The handler does that for the messages it foresees: text that is not JSON, an unknown
type, an unknown topic.  A JSON list ends the loop with an `AttributeError`, and so does a
list for a topic; a rate that is no number replaces a stream by a task that dies at once.

* `Lawful`: what should hold in a run.
* `Serving`: what the tables say about the tasks while it does.
* `messages_isolated_iff`: a run is lawful exactly if its bad messages are harmless ones
  and its streams can read and send.
-/
import KoyuRuntime.Services.Bridge.Requests
import KoyuRuntime.Services.Bridge.Tasks

namespace KoyuRuntime.Services.Bridge

open Host Theory Ipc.Types

set_option autoImplicit false

variable {V : Type}

/-! ## What should hold -/

/-- The rates asked for, after one more request. -/
def Request.ask (rates : String → Option Json) : Request → String → Option Json
  | .subscribe topic rate => Function.update rates topic (some rate)
  | .unsubscribe topic => Function.update rates topic none
  | _ => rates

section Specification

variable (outside : Outside) (planes : Planes)

def ask (rates : String → Option Json) : Action V → String → Option Json
  | .text message _ =>
      match requestOf outside planes message with
      | some r => r.ask rates
      | none => rates
  | _ => rates

/-- The topics that the requests have subscribed to, with the last rate of each. -/
def asked (actions : List (Action V)) : String → Option Json :=
  actions.foldl (ask outside planes) fun _ => none

/-- From `c'` on everything goes as from `c`: the connection stays open, with the tables it
had, and whatever comes later does the same to its tasks and to those it talks to. -/
structure Alone (c c' : Connection V) : Prop where
  isOpen : c'.isOpen = true
  subTasks : c'.subTasks = c.subTasks
  listenTasks : c'.listenTasks = c.listenTasks
  later : ∀ rest : List (Action V),
    Agree (rest.foldl (step outside planes) c) (rest.foldl (step outside planes) c') ∧
      SameMore c c' (rest.foldl (step outside planes) c) (rest.foldl (step outside planes) c')

/-- What should hold at every point of a run. -/
structure Lawful (actions : List (Action V)) : Prop where
  /-- A bad message affects only itself. -/
  alone : ∀ before message moment rest, actions = before ++ .text message moment :: rest →
    (after outside planes before).isOpen = true → requestOf outside planes message = none →
    Alone outside planes (after outside planes before) (after outside planes (before ++ [.text message moment]))
  /-- There is at most one live stream of a topic. -/
  single : ∀ before rest, actions = before ++ rest → ∀ n m topic rate rate',
    StreamAt (after outside planes before) n topic rate → StreamAt (after outside planes before) m topic rate' →
    n = m
  /-- There is one for every topic subscribed to, at its last rate. -/
  streamed : ∀ before rest, actions = before ++ rest → (after outside planes before).isOpen = true →
    ∀ topic rate, (∃ n, StreamAt (after outside planes before) n topic rate) ↔
      ∃ name, topic = .str name ∧ asked outside planes before name = some rate
  /-- At the end there is none. -/
  cancelled : ∀ before rest, actions = before ++ rest → (after outside planes before).isOpen = false →
    ∀ t ∈ (after outside planes before).tasks, t.live = false

/-- The condition on an action: a bad message is a harmless one, and the turn of a live
stream goes well. -/
def Sound (c : Connection V) : Action V → Prop
  | .text message moment => requestOf outside planes message = none → Harmless outside planes moment message
  | .turn n turn => ∀ topic rate t, StreamAt c n topic rate → c.tasks[n]? = some t → t.Flows turn
  | .binary | .ends => True

end Specification

/-! ## The tables while the loop runs -/

/-- A live stream that goes on as long as its turns go well. -/
def Task.Streams (outside : Outside) (topic : Key) (rate : Json) (t : Task V) : Prop :=
  t.live = true ∧ ∃ type plane, t.job = .stream topic type plane rate ∧ (∃ S, resolve type = .ok S) ∧
    ∃ dt, period rate = .ok dt ∧ outside.sleeps dt = true

/-- The tables hold what was asked for: a stream for every topic, which is its name, and
listeners only to channels there are. -/
structure Serving (outside : Outside) (rates : String → Option Json) (c : Connection V) : Prop where
  served : ∀ topic n, c.subTasks.get? topic = some n → ∃ name rate t, topic = .str name ∧
    rates name = some rate ∧ c.tasks[n]? = some t ∧ t.Streams outside topic rate
  kept : ∀ name, rates name ≠ none → c.subTasks.get? (.str name) ≠ none
  heard : ∀ key n, c.listenTasks.get? key = some n → ∃ name, key = .str name ∧ outside.legal name = true

namespace Serving

variable {outside : Outside} {planes : Planes} {rates : String → Option Json} {c c' : Connection V}

theorem new : Serving outside (fun _ => none) (Connection.new : Connection V) where
  served := by simp [Connection.new]
  kept := by simp
  heard := by simp [Connection.new]

theorem agree (serving : Serving outside rates c) (same : Agree c c') : Serving outside rates c' := by
  rw [same.eq]
  exact ⟨serving.served, serving.kept, serving.heard⟩

/-- The tables may stay and the streams in them too. -/
theorem of_tasks (serving : Serving outside rates c) {tasks : List (Task V)}
    (still : ∀ topic n t rate, c.subTasks.get? topic = some n → c.tasks[n]? = some t →
      t.Streams outside topic rate → ∃ t', tasks[n]? = some t' ∧ t'.Streams outside topic rate) :
    Serving outside rates { c with tasks := tasks } where
  served topic n found := by
    obtain ⟨name, rate, t, named, given, here, streams⟩ := serving.served topic n found
    obtain ⟨t', there, streams'⟩ := still topic n t rate found here streams
    exact ⟨name, rate, t', named, given, there, streams'⟩
  kept := serving.kept
  heard := serving.heard

/-- **The live streams** are those of the topics asked for. -/
theorem streamAt_iff (serving : Serving outside rates c) (tracked : Tracked c) (topic : Key) (rate : Json) :
    (∃ n, StreamAt c n topic rate) ↔ ∃ name, topic = .str name ∧ rates name = some rate := by
  constructor
  · rintro ⟨n, stream⟩
    have found := tracked.streamAt stream
    obtain ⟨t, here, -, type, plane, job⟩ := stream
    obtain ⟨name, rate', t', named, given, here', -, type', plane', job', -⟩ := serving.served topic n found
    cases here.symm.trans here'
    cases job.symm.trans job'
    exact ⟨name, named, given⟩
  · rintro ⟨name, rfl, given⟩
    obtain ⟨n, found⟩ := Option.ne_none_iff_exists'.mp (serving.kept name (by simp [given]))
    obtain ⟨name', rate', t, named, given', here, alive, type, plane, job, -⟩ := serving.served _ n found
    cases named
    cases given.symm.trans given'
    exact ⟨n, t, here, alive, type, plane, job⟩

/-- A task stays when another is cancelled. -/
theorem cancel_at {n m : Nat} {t : Task V} (here : c.tasks[n]? = some t) (other : m ≠ n) :
    (c.cancel m).tasks[n]? = some t := by
  refine (modify_at here m Task.cancel).trans ?_
  rw [if_neg other]

/-- A task serves one topic. -/
theorem eq_of_index (serving : Serving outside rates c) {topic topic' : Key} {n : Nat}
    (found : c.subTasks.get? topic = some n) (found' : c.subTasks.get? topic' = some n) : topic = topic' := by
  obtain ⟨_, rate, t, -, -, here, -, type, plane, job, -⟩ := serving.served topic n found
  obtain ⟨_, rate', t', -, -, here', -, type', plane', job', -⟩ := serving.served topic' n found'
  cases here.symm.trans here'
  cases job.symm.trans job'
  rfl

/-- `unsubscribe-topic`. -/
theorem dropSub (serving : Serving outside rates c) (name : String) :
    Serving outside (Function.update rates name none) (c.dropSub (.str name)) := by
  unfold Connection.dropSub
  cases found : c.subTasks.get? (.str name) with
  | none =>
      have never : rates name = none := by
        by_contra given
        exact serving.kept name given found
      rw [Function.update_eq_self_iff.mpr never.symm]
      exact serving
  | some m =>
      refine ⟨?_, ?_, serving.heard⟩
      · intro topic n there
        have there := OrderedDict.get?_erase c.subTasks (.str name) topic ▸ there
        split at there
        · cases there
        · rename_i other
          obtain ⟨name', rate, t, rfl, given, here, streams⟩ := serving.served topic n there
          refine ⟨name', rate, t, rfl, ?_, cancel_at here ?_, streams⟩
          · rw [Function.update_of_ne]
            · exact given
            · rintro rfl
              exact other rfl
          · rintro rfl
            exact other (serving.eq_of_index found there)
      · intro name' given
        show (c.subTasks.erase (.str name)).get? (.str name') ≠ none
        have other : name' ≠ name := by
          rintro rfl
          exact given (Function.update_self _ _ _)
        rw [Function.update_of_ne other] at given
        rw [OrderedDict.get?_erase, if_neg]
        · exact serving.kept name' given
        · intro same
          cases same
          exact other rfl

/-- `subscribe-topic`, once there is no old stream. -/
theorem addSub (serving : Serving outside rates c) (name : String) {type : Yaml} (plane : String) {rate : Json}
    {S : Struct} (resolved : resolve type = .ok S) (paced : outside.paces rate = true) :
    Serving outside (Function.update rates name (some rate)) { c with
      subTasks := c.subTasks.set (.str name) c.tasks.length
      tasks := c.tasks ++ [Task.new (.stream (.str name) type plane rate)] } := by
  refine ⟨?_, ?_, serving.heard⟩
  · intro topic n there
    have there : (c.subTasks.set (.str name) c.tasks.length).get? topic = some n := there
    rw [OrderedDict.get?_set] at there
    split at there
    · rename_i same
      cases there
      subst same
      exact ⟨name, rate, _, rfl, Function.update_self _ _ _, List.getElem?_concat_length, rfl, type, plane, rfl, ⟨S, resolved⟩,
        Outside.period_of_paces paced⟩
    · rename_i other
      obtain ⟨name', rate', t, rfl, given, here, streams⟩ := serving.served topic n there
      refine ⟨name', rate', t, rfl, ?_, snoc_iff.mpr (.inl here), streams⟩
      rw [Function.update_of_ne]
      · exact given
      · rintro rfl
        exact other rfl
  · intro name' given
    show (c.subTasks.set (.str name) c.tasks.length).get? (.str name') ≠ none
    rw [OrderedDict.get?_set]
    split
    · exact Option.some_ne_none _
    · rename_i other
      refine serving.kept name' ?_
      rwa [Function.update_of_ne] at given
      rintro rfl
      exact other rfl

/-- `listen-event`. -/
theorem addListen (serving : Serving outside rates c) {name : String} (legal : outside.legal name = true) :
    Serving outside rates { c with
      listenTasks := c.listenTasks.set (.str name) c.tasks.length
      tasks := c.tasks ++ [Task.new (.listen (.str name))] } := by
  refine ⟨?_, serving.kept, ?_⟩
  · intro topic n found
    obtain ⟨name', rate, t, named, given, here, streams⟩ := serving.served topic n found
    exact ⟨name', rate, t, named, given, snoc_iff.mpr (.inl here), streams⟩
  · intro key n there
    have there : (c.listenTasks.set (.str name) c.tasks.length).get? key = some n := there
    rw [OrderedDict.get?_set] at there
    split at there
    · rename_i same
      exact ⟨name, same.symm, legal⟩
    · exact serving.heard key n there

/-- `unlisten-event`. -/
theorem dropListen (serving : Serving outside rates c) (tracked : Tracked c) (key : Key) :
    Serving outside rates (c.dropListen key) := by
  unfold Connection.dropListen
  cases found : c.listenTasks.get? key with
  | none => exact serving
  | some m =>
      refine ⟨?_, serving.kept, ?_⟩
      · intro topic n there
        obtain ⟨name, rate, t, named, given, here, streams⟩ := serving.served topic n there
        refine ⟨name, rate, t, named, given, cancel_at here ?_, streams⟩
        rintro rfl
        obtain ⟨t', here', listens⟩ := tracked.listens.points key m found
        obtain ⟨-, type, plane, job, -⟩ := streams
        cases here.symm.trans here'
        rw [job] at listens
        exact listens
      · intro key' n there
        exact serving.heard key' n (OrderedDict.get?_of_erase there)

/-- No stream is under a key that is no text. -/
theorem no_stream (serving : Serving outside rates c) {key : Key} (foreign : ∀ name, key ≠ .str name) :
    c.subTasks.get? key = none := by
  by_contra some_
  obtain ⟨n, found⟩ := Option.ne_none_iff_exists'.mp some_
  obtain ⟨name, -, -, named, -⟩ := serving.served key n found
  exact foreign name named

/-- No listener is under a key that is no channel's name. -/
theorem no_listener (serving : Serving outside rates c) {key : Key}
    (foreign : ∀ name, key = .str name → outside.legal name = false) : c.listenTasks.get? key = none := by
  by_contra some_
  obtain ⟨n, found⟩ := Option.ne_none_iff_exists'.mp some_
  obtain ⟨name, named, legal⟩ := serving.heard key n found
  rw [foreign name named] at legal
  cases legal

/-- A turn that goes well. -/
theorem turn (serving : Serving outside rates c) {n : Nat} {turn : Turn V}
    (sound : Sound outside planes c (.turn n turn)) :
    Serving outside rates { c with tasks := c.tasks.modify n (Task.turn outside turn) } := by
  refine serving.of_tasks ?_
  intro topic m t rate found here streams
  refine ⟨_, modify_at here n _, ?_⟩
  split
  · rename_i same
    subst same
    obtain ⟨alive, type, plane, job, resolved, paced⟩ := streams
    have flows := sound topic rate t ⟨t, here, alive, type, plane, job⟩ here
    refine ⟨(Task.live_turn_iff alive job).mpr ⟨resolved, paced, flows⟩, type, plane, ?_, resolved, paced⟩
    exact (Task.turn_fades outside turn t).1.trans job
  · exact streams

end Serving

/-! ## Bad messages -/

section Steps

variable {outside : Outside} {planes : Planes} {rates : String → Option Json} {c : Connection V}

/-- A plan that is calm, of a message that is no request, changes nothing. -/
theorem Plan.outcome_calm (serving : Serving outside rates c) {plan : Plan} (astray : plan.Astray outside)
    (calm : plan.Calm) : Agree c (plan.outcome c) := by
  cases plan with
  | idle => exact .refl c
  | say effect | ring channel id => exact ⟨rfl, rfl, rfl, rfl⟩
  | unsubscribe key =>
      simp only [outcome, carry, Connection.dropSub, serving.no_stream astray]
      exact .refl c
  | unlisten key =>
      have nothing := serving.no_listener fun name named => absurd named (astray name)
      simp only [outcome, carry, Connection.dropListen, nothing]
      exact .refl c
  | raise e | subscribe topic type plane rate | listen channel key => exact calm.elim

/-- One that is not calm closes the connection or changes a table. -/
theorem Plan.calm_of_outcome (serving : Serving outside rates c) (tracked : Tracked c) {plan : Plan}
    (astray : plan.Astray outside) (running : (plan.outcome c).isOpen = true)
    (subs : (plan.outcome c).subTasks = c.subTasks) (listens : (plan.outcome c).listenTasks = c.listenTasks) :
    plan.Calm := by
  cases plan with
  | raise e => cases running
  | subscribe topic type plane rate =>
      -- the table names a task that is not there yet
      have named : c.subTasks.get? topic = some (c.dropSub topic).tasks.length := by
        rw [← subs]
        exact OrderedDict.get?_set_self _ _ _
      obtain ⟨t, here, -⟩ := tracked.subs.points topic _ named
      have inside := lt_of_at here
      rw [length_dropSub] at inside
      exact absurd inside (Nat.lt_irrefl _)
  | listen channel key =>
      have fresh := serving.no_listener astray
      simp only [outcome, carry, if_neg (OrderedDict.get?_eq_none_iff.mp fresh)] at listens
      rw [← listens, OrderedDict.get?_set_self] at fresh
      cases fresh
  | _ => trivial

/-- **A harmless message** leaves everything as it is. -/
theorem agree_of_harmless (serving : Serving outside rates c) (running : c.isOpen = true) {message : Option Json}
    {moment : Moment} (bad : requestOf outside planes message = none)
    (harmless : Harmless outside planes moment message) :
    Agree c (step outside planes c (.text message moment)) := by
  have fits := requestOf_fits outside planes moment message
  rw [bad] at fits
  rw [step_text running]
  exact Plan.outcome_calm serving fits.1 (fits.2.mp harmless)

/-- **A request** that does not close the connection. -/
theorem Serving.request (serving : Serving outside rates c) (tracked : Tracked c) {r : Request} {plan : Plan}
    (gets : r.Gets outside plan) (still : (plan.outcome c).isOpen = true) :
    Serving outside (r.ask rates) (plan.outcome c) := by
  cases r with
  | subscribe topic rate =>
      obtain ⟨type, plane, S, resolved, paced, rfl⟩ := gets
      have added := (serving.dropSub topic).addSub topic plane resolved paced
      rw [Function.update_idem] at added
      exact added
  | unsubscribe topic =>
      cases gets
      exact serving.dropSub topic
  | ring channel id =>
      rcases gets with rfl | ⟨e, rfl⟩
      · exact serving.agree ⟨rfl, rfl, rfl, rfl⟩
      · cases still
  | listen channel =>
      obtain ⟨legal, rfl⟩ := gets
      simp only [Plan.outcome, Plan.carry]
      by_cases old : Key.str channel ∈ c.listenTasks.keys
      · simp only [if_pos old]
        exact serving
      · simp only [if_neg old]
        exact serving.addListen legal
  | unlisten channel =>
      cases gets
      exact serving.dropListen tracked _
  | setParam topic key value persist =>
      rcases gets with rfl | ⟨e, rfl⟩
      · exact serving.agree ⟨rfl, rfl, rfl, rfl⟩
      · cases still

/-- **A message** that does not close the connection, if it is a request or harmless. -/
theorem Serving.text (serving : Serving outside rates c) (tracked : Tracked c) (running : c.isOpen = true)
    {message : Option Json} {moment : Moment} (sound : Sound outside planes c (.text message moment))
    (still : (step outside planes c (.text message moment)).isOpen = true) :
    Serving outside (ask (V := V) outside planes rates (.text message moment))
      (step outside planes c (.text message moment)) := by
  simp only [ask]
  cases request : requestOf outside planes message with
  | none => exact serving.agree (agree_of_harmless serving running request (sound request))
  | some r =>
      have gets := requestOf_fits outside planes moment message
      rw [request] at gets
      rw [step_text running] at still ⊢
      exact serving.request tracked gets still

/-- **An action** that does not close the connection. -/
theorem Serving.next (serving : Serving outside rates c) (tracked : Tracked c) (running : c.isOpen = true)
    {a : Action V} (sound : Sound outside planes c a) (still : (step outside planes c a).isOpen = true) :
    Serving outside (ask outside planes rates a) (step outside planes c a) := by
  cases a with
  | text message moment => exact serving.text tracked running sound still
  | binary => exact serving
  | ends =>
      simp only [step, if_pos running] at still
      cases still
  | turn n turn => exact serving.turn sound

theorem isOpen_of_step {a : Action V} (still : (step outside planes c a).isOpen = true) : c.isOpen = true := by
  by_contra stopped
  cases a with
  | text message moment =>
      simp only [step, if_neg stopped] at still
      exact stopped still
  | binary => exact stopped still
  | ends =>
      simp only [step, if_neg stopped] at still
      exact stopped still
  | turn n turn => exact stopped still

end Steps

/-! ## Whole runs -/

section Runs

variable {outside : Outside} {planes : Planes} {actions : List (Action V)}

theorem asked_snoc (before : List (Action V)) (a : Action V) :
    asked outside planes (before ++ [a]) = ask outside planes (asked outside planes before) a :=
  List.foldl_concat _ _ _ _

/-- **While the loop runs** the tables hold what was asked for, if every action up to then
is sound where they do. -/
theorem serving_of_sound
    (sound : ∀ before a rest, actions = before ++ a :: rest → (after outside planes before).isOpen = true →
      Serving outside (asked outside planes before) (after outside planes before) →
      Sound outside planes (after outside planes before) a) (before : List (Action V)) :
    ∀ rest, actions = before ++ rest → (after outside planes before).isOpen = true →
      Serving outside (asked outside planes before) (after outside planes before) := by
  induction before using List.reverseRecOn with
  | nil => exact fun _ _ _ => .new
  | append_singleton before a ih =>
      intro rest whole running
      have split_ : actions = before ++ a :: rest := by simpa using whole
      rw [after_snoc] at running ⊢
      have running' := isOpen_of_step running
      have serving := ih (a :: rest) split_ running'
      rw [asked_snoc]
      exact serving.next (after_tracked _ _ _) running' (sound before a rest split_ running' serving) running

/-- Where the tables hold what was asked for, a lawful run goes on with a sound action. -/
theorem Lawful.sound (lawful : Lawful outside planes actions) {before rest : List (Action V)} {a : Action V}
    (whole : actions = before ++ a :: rest) (running : (after outside planes before).isOpen = true)
    (serving : Serving outside (asked outside planes before) (after outside planes before)) :
    Sound outside planes (after outside planes before) a := by
  have tracked := after_tracked outside planes before
  cases a with
  | text message moment =>
      intro bad
      have fits := requestOf_fits outside planes moment message
      rw [bad] at fits
      have alone := lawful.alone before message moment rest whole running bad
      rw [after_snoc, step_text running] at alone
      exact fits.2.mpr (Plan.calm_of_outcome serving tracked fits.1 alone.isOpen alone.subTasks alone.listenTasks)
  | turn n turn =>
      intro topic rate t stream here
      -- after the turn there still is a stream of the topic, and only this task can be it
      have wished := (serving.streamAt_iff tracked topic rate).mp ⟨n, stream⟩
      have found := tracked.streamAt stream
      obtain ⟨m, stream'⟩ := (lawful.streamed (before ++ [.turn n turn]) rest (by simpa using whole)
        (by rw [after_snoc]; exact running) topic rate).mpr (by rw [asked_snoc]; exact wished)
      have found' := (after_tracked outside planes (before ++ [.turn n turn])).streamAt stream'
      rw [after_snoc] at found' stream'
      cases found.symm.trans found'
      obtain ⟨t', here', alive', -⟩ := stream'
      obtain ⟨t₀, here₀, alive, type, plane, job⟩ := stream
      cases here.symm.trans here₀
      have there := modify_at here n (Task.turn outside turn)
      rw [if_pos rfl] at there
      cases here'.symm.trans there
      exact ((Task.live_turn_iff alive job).mp alive').2.2
  | binary => trivial
  | ends => trivial

/-- A run whose actions are sound is lawful. -/
theorem lawful_of_sound
    (sound : ∀ before a rest, actions = before ++ a :: rest → (after outside planes before).isOpen = true →
      Sound outside planes (after outside planes before) a) : Lawful outside planes actions := by
  have serving := serving_of_sound fun before a rest whole running _ => sound before a rest whole running
  refine ⟨?_, ?_, ?_, ?_⟩
  · intro before message moment rest whole running bad
    have same := agree_of_harmless (serving before _ whole running) running bad
      (sound before _ rest whole running bad)
    rw [after_snoc]
    exact ⟨same.isOpen.trans running, same.subTasks, same.listenTasks, steps_agree same⟩
  · intro before rest _ n m topic rate rate'
    exact (after_tracked outside planes before).single
  · intro before rest whole running
    exact (serving before rest whole running).streamAt_iff (after_tracked outside planes before)
  · intro before rest _
    exact (after_tracked outside planes before).closed

end Runs

/-- **Exactly when bad messages affect only themselves**: in a run whose bad messages are
all harmless ones and in which every turn of a live stream goes well. -/
theorem messages_isolated_iff (outside : Outside) (planes : Planes) (actions : List (Action V)) :
    Lawful outside planes actions ↔
      ∀ before a rest, actions = before ++ a :: rest → (after outside planes before).isOpen = true →
        Sound outside planes (after outside planes before) a := by
  constructor
  · intro lawful before a rest whole running
    have serving := serving_of_sound fun _ _ _ whole running serving => lawful.sound whole running serving
    exact lawful.sound whole running (serving before _ whole running)
  · exact lawful_of_sound

namespace Demo

/-- An arm whose state is on the blackboard. -/
def services : Yaml :=
  .map [(.str "arm", .map [(.str "ipc", .map [(.str "blackboard", .map [(.str "writes",
    .map [(.str "arm/state", .str "RobStrideState")])])])])]

def outside : Outside := ⟨["run"], fun _ => none, false, fun _ => "", fun _ => true, fun _ => true⟩

def send (message : Json) : Action Unit := .text (some message) ⟨true, true, InboxRouting.bare ["run"], 1, 0⟩

def subscribe (options : JsonObj) : Action Unit :=
  send (.obj ([("type", .str "subscribe-topic"), ("topic", .str "arm/state")] ++ options))

end Demo

/-- A client that watches the arm loses the connection by a list, and the stream's entry by
a rate in quotes. -/
theorem bad_messages_not_isolated :
    ∃ planes, IpcReaders.topicPlanes Demo.services = .ok planes ∧
      ¬ Lawful Demo.outside planes [Demo.subscribe [], Demo.send (.arr [])] ∧
      ¬ Lawful Demo.outside planes [Demo.subscribe [], Demo.subscribe [("rate_hz", .str "60")]] := by
  refine ⟨_, rfl, fun lawful => ?_, fun lawful => ?_⟩
  · have alone := lawful.alone [Demo.subscribe []] _ _ [] rfl rfl rfl
    cases alone.isOpen
  · have alone := lawful.alone [Demo.subscribe []] _ _ [] rfl rfl rfl
    cases alone.subTasks

end KoyuRuntime.Services.Bridge
