/-
# Services.Bridge.Plans — what a message does, whatever the connection

The handler decides what to do by the message, and by what it finds outside; the tables
only say what that means for the tasks.  So a message is a plan, made without the
connection, which is then carried out on it.

* `planOf`: the plan of a message.
* `onText_eq_carry`: a message is handled by carrying out its plan.
* `carry_agree`: connections with the same tables and tasks come to the same.
-/
import KoyuRuntime.Services.Bridge.Connection

namespace KoyuRuntime.Services.Bridge

open Host Theory

set_option autoImplicit false

inductive Plan where
  | raise (e : Exn)
  | idle
  | say (effect : Effect)
  | ring (channel : String) (id : Int)
  | subscribe (topic : Key) (type : Yaml) (plane : String) (rate : Json)
  | unsubscribe (topic : Key)
  | listen (channel : Json) (key : Key)
  | unlisten (key : Key)

/-- The plan with a hashable value. -/
def withKey (value : Json) (plan : Key → Plan) : Plan :=
  match keyOf value with
  | .ok key => plan key
  | .error e => .raise e

section Plans

variable (outside : Outside) (planes : Planes) (moment : Moment) (req : JsonObj)

def planSubscribe : Plan :=
  withKey (field req "topic" (.str "")) fun key =>
    match planeOf planes key with
    | none =>
        if moment.sends then .say (.error ("unknown topic " ++ outside.repr (field req "topic" (.str ""))))
        else .raise (.libraryError "send_json")
    | some (type, plane) => .subscribe key type plane (field req "rate_hz" (.int 30))

def planRing : Plan :=
  match (field req "event_id" (.int 0)).toInt outside.decimal with
  | .error e => .raise e
  | .ok id =>
      if (field req "channel" (.str "")).truthy then
        match field req "channel" (.str "") with
        | .str name =>
            if outside.legal name && outside.eventId id && moment.rings then .ring name id
            else .raise (.libraryError "ring")
        | _ => .raise .typeError
      else .idle

def planListen : Plan :=
  if (field req "channel" (.str "")).truthy then
    withKey (field req "channel" (.str "")) (.listen (field req "channel" (.str "")))
  else .idle

def planSetParam : Plan :=
  match field req "key" .null with
  | .null => .idle
  | _ =>
      if (field req "topic" (.str "")).truthy then
        match field req "topic" (.str "") with
        | .str name =>
            match InboxRouting.submit outside.home name
              ⟨0, moment.pid, moment.time, Connection.paramRequest req⟩ moment.files with
            | .ok _ _ => .say (.submitted name (Connection.paramRequest req))
            | .error e _ => .raise (.osError e)
        | _ => .raise .attributeError
      else .idle

def planRequest : Plan :=
  match verbOf req with
  | some .subscribeTopic => planSubscribe outside planes moment req
  | some .unsubscribeTopic => withKey (field req "topic" (.str "")) .unsubscribe
  | some .ringEvent => planRing outside moment req
  | some .listenEvent => planListen req
  | some .unlistenEvent => withKey (field req "channel" (.str "")) .unlisten
  | some .setParam => planSetParam outside moment req
  | none => .idle

/-- The plan of a text message. -/
def planOf (message : Option Json) : Plan :=
  match Connection.loaded message with
  | none => .idle
  | some (.obj req) => planRequest outside planes moment req
  | some _ => .raise .attributeError

end Plans

variable {V : Type}

/-- Carry out a plan. -/
def Plan.carry (c : Connection V) : Plan → Except Exn (Connection V)
  | .raise e => .error e
  | .idle => .ok c
  | .say effect => .ok { c with effects := c.effects ++ [effect] }
  | .ring channel id => .ok { c with
      notifiers := c.notifiers.set channel ()
      effects := c.effects ++ [.rang channel id] }
  | .subscribe topic type plane rate =>
      let c := c.dropSub topic
      .ok { c with
        subTasks := c.subTasks.set topic c.tasks.length
        tasks := c.tasks ++ [Task.new (.stream topic type plane rate)] }
  | .unsubscribe topic => .ok (c.dropSub topic)
  | .listen channel key =>
      if key ∈ c.listenTasks.keys then .ok c
      else .ok { c with
        listenTasks := c.listenTasks.set key c.tasks.length
        tasks := c.tasks ++ [Task.new (.listen channel)] }
  | .unlisten key => .ok (c.dropListen key)

section Carry

variable {outside : Outside} {planes : Planes} {moment : Moment} {req : JsonObj} {c d : Connection V}

theorem withKey_carry {value : Json} {plan : Key → Plan} {does : Key → Except Exn (Connection V)}
    (same : ∀ key, does key = (plan key).carry c) :
    (keyOf value >>= does) = (withKey value plan).carry c := by
  unfold withKey
  cases keyOf value with
  | ok key => exact same key
  | error e => rfl

theorem subscribeTopic_eq :
    c.subscribeTopic outside planes moment req = (planSubscribe outside planes moment req).carry c := by
  apply withKey_carry
  intro key
  cases planeOf planes key with
  | none => cases moment.sends <;> rfl
  | some plane => rfl

theorem ringEvent_eq : c.ringEvent outside moment req = (planRing outside moment req).carry c := by
  simp only [Connection.ringEvent, planRing]
  cases (field req "event_id" (.int 0)).toInt outside.decimal with
  | error e => rfl
  | ok id =>
      simp only [bind, Except.bind]
      generalize field req "channel" (.str "") = channel
      by_cases some_ : channel.truthy = true
      · simp only [if_pos some_]
        cases channel with
        | str name =>
            by_cases rings : (outside.legal name && outside.eventId id && moment.rings) = true
            · simp only [if_pos rings]
              rfl
            · simp only [if_neg rings]
              rfl
        | _ => rfl
      · simp only [if_neg some_]
        rfl

theorem listenEvent_eq : c.listenEvent req = (planListen req).carry c := by
  simp only [Connection.listenEvent, planListen]
  generalize field req "channel" (.str "") = channel
  by_cases some_ : channel.truthy = true
  · simp only [if_pos some_]
    exact withKey_carry fun key => rfl
  · simp only [if_neg some_]
    rfl

theorem setParam_eq : c.setParam outside moment req = (planSetParam outside moment req).carry c := by
  simp only [Connection.setParam, planSetParam]
  generalize field req "topic" (.str "") = topic
  cases field req "key" .null with
  | null => rfl
  | _ =>
      by_cases some_ : topic.truthy = true
      · simp only [if_pos some_]
        cases topic with
        | str name =>
            dsimp only
            cases InboxRouting.submit outside.home name
              ⟨0, moment.pid, moment.time, Connection.paramRequest req⟩ moment.files <;> rfl
        | _ => rfl
      · simp only [if_neg some_]
        rfl

/-- **A message is handled** by carrying out its plan. -/
theorem onText_eq_carry (message : Option Json) :
    c.onText outside planes moment message = (planOf outside planes moment message).carry c := by
  simp only [Connection.onText, planOf]
  cases Connection.loaded message with
  | none => rfl
  | some read =>
      cases read with
      | obj req =>
          simp only [Connection.onRequest, planRequest]
          cases verbOf req with
          | none => rfl
          | some verb =>
              cases verb with
              | subscribeTopic => exact subscribeTopic_eq
              | unsubscribeTopic => exact withKey_carry fun key => rfl
              | ringEvent => exact ringEvent_eq
              | listenEvent => exact listenEvent_eq
              | unlistenEvent => exact withKey_carry fun key => rfl
              | setParam => exact setParam_eq
      | _ => rfl

end Carry

/-! ## Connections that agree -/

/-- The same tables and the same tasks. -/
structure Agree (c d : Connection V) : Prop where
  isOpen : d.isOpen = c.isOpen
  subTasks : d.subTasks = c.subTasks
  listenTasks : d.listenTasks = c.listenTasks
  tasks : d.tasks = c.tasks

/-- Both have done the same since. -/
def SameMore (c d c' d' : Connection V) : Prop :=
  ∃ more, c'.effects = c.effects ++ more ∧ d'.effects = d.effects ++ more

namespace Agree

variable {outside : Outside} {planes : Planes} {c d : Connection V}

theorem refl (c : Connection V) : Agree c c := ⟨rfl, rfl, rfl, rfl⟩

/-- Only what they have done can differ. -/
theorem eq (agree : Agree c d) : d = { c with notifiers := d.notifiers, effects := d.effects } := by
  cases c
  cases d
  cases agree
  simp_all

theorem dropSub (agree : Agree c d) (topic : Key) : Agree (c.dropSub topic) (d.dropSub topic) := by
  rw [agree.eq]
  simp only [Connection.dropSub]
  cases c.subTasks.get? topic with
  | none => exact ⟨rfl, rfl, rfl, rfl⟩
  | some n => exact ⟨rfl, rfl, rfl, rfl⟩

theorem dropListen (agree : Agree c d) (key : Key) : Agree (c.dropListen key) (d.dropListen key) := by
  rw [agree.eq]
  simp only [Connection.dropListen]
  cases c.listenTasks.get? key with
  | none => exact ⟨rfl, rfl, rfl, rfl⟩
  | some n => exact ⟨rfl, rfl, rfl, rfl⟩

theorem finish (agree : Agree c d) : Agree c.finish d.finish := by
  refine ⟨rfl, agree.subTasks, agree.listenTasks, ?_⟩
  simp only [Connection.finish, agree.subTasks, agree.listenTasks, agree.tasks]

end Agree

theorem effects_dropSub (c : Connection V) (topic : Key) : (c.dropSub topic).effects = c.effects := by
  unfold Connection.dropSub
  split <;> rfl

theorem effects_dropListen (c : Connection V) (key : Key) : (c.dropListen key).effects = c.effects := by
  unfold Connection.dropListen
  split <;> rfl

section Steps

variable {outside : Outside} {planes : Planes} {c d : Connection V}

/-- The connection after a plan: an exception ends it. -/
def Plan.outcome (c : Connection V) (plan : Plan) : Connection V :=
  match plan.carry c with
  | .ok c' => c'
  | .error _ => c.finish

/-- **A plan** does the same to connections that agree. -/
theorem outcome_agree (agree : Agree c d) (plan : Plan) :
    Agree (plan.outcome c) (plan.outcome d) ∧ SameMore c d (plan.outcome c) (plan.outcome d) := by
  have quiet : ∀ {c' d' : Connection V}, c'.effects = c.effects → d'.effects = d.effects → SameMore c d c' d' :=
    fun same same' => ⟨[], by simpa using same, by simpa using same'⟩
  cases plan with
  | raise e => exact ⟨agree.finish, quiet rfl rfl⟩
  | idle => exact ⟨agree, quiet rfl rfl⟩
  | say effect => exact ⟨⟨agree.isOpen, agree.subTasks, agree.listenTasks, agree.tasks⟩, [effect], rfl, rfl⟩
  | ring channel id =>
      exact ⟨⟨agree.isOpen, agree.subTasks, agree.listenTasks, agree.tasks⟩, [.rang channel id], rfl, rfl⟩
  | subscribe topic type plane rate =>
      have dropped := agree.dropSub topic
      refine ⟨⟨dropped.isOpen, ?_, dropped.listenTasks, ?_⟩, quiet (effects_dropSub c topic) (effects_dropSub d topic)⟩
      · simp only [Plan.outcome, Plan.carry, dropped.subTasks, dropped.tasks]
      · simp only [Plan.outcome, Plan.carry, dropped.tasks]
  | unsubscribe topic =>
      exact ⟨agree.dropSub topic, quiet (effects_dropSub c topic) (effects_dropSub d topic)⟩
  | listen channel key =>
      simp only [Plan.outcome, Plan.carry, agree.listenTasks]
      by_cases old : key ∈ c.listenTasks.keys
      · simp only [if_pos old]
        exact ⟨agree, quiet rfl rfl⟩
      · simp only [if_neg old]
        exact ⟨⟨agree.isOpen, agree.subTasks, by simp only [agree.tasks], by simp only [agree.tasks]⟩, quiet rfl rfl⟩
  | unlisten key =>
      exact ⟨agree.dropListen key, quiet (effects_dropListen c key) (effects_dropListen d key)⟩

/-- **A text message** on an open connection is its plan. -/
theorem step_text (running : c.isOpen = true) (message : Option Json) (moment : Moment) :
    step outside planes c (.text message moment) = (planOf outside planes moment message).outcome c := by
  simp only [step, if_pos running, onText_eq_carry]
  rfl

/-- **An action** does the same to connections that agree. -/
theorem step_agree (agree : Agree c d) (a : Action V) :
    Agree (step outside planes c a) (step outside planes d a) ∧
      SameMore c d (step outside planes c a) (step outside planes d a) := by
  have idle : SameMore c d c d := ⟨[], by simp, by simp⟩
  cases a with
  | text message moment =>
      by_cases running : c.isOpen = true
      · rw [step_text running, step_text (agree.isOpen.trans running)]
        exact outcome_agree agree _
      · have stopped : ¬ d.isOpen = true := by rwa [agree.isOpen]
        simp only [step, if_neg running, if_neg stopped]
        exact ⟨agree, idle⟩
  | binary => exact ⟨agree, idle⟩
  | ends =>
      by_cases running : c.isOpen = true
      · simp only [step, if_pos running, if_pos (agree.isOpen.trans running)]
        exact ⟨agree.finish, [], by simp [Connection.finish], by simp [Connection.finish]⟩
      · have stopped : ¬ d.isOpen = true := by rwa [agree.isOpen]
        simp only [step, if_neg running, if_neg stopped]
        exact ⟨agree, idle⟩
  | turn n turn =>
      refine ⟨⟨agree.isOpen, agree.subTasks, agree.listenTasks, ?_⟩, idle⟩
      simp only [step, agree.tasks]

/-- **Whole runs** from connections that agree do the same. -/
theorem steps_agree (agree : Agree c d) (later : List (Action V)) :
    Agree (later.foldl (step outside planes) c) (later.foldl (step outside planes) d) ∧
      SameMore c d (later.foldl (step outside planes) c) (later.foldl (step outside planes) d) := by
  induction later generalizing c d with
  | nil => exact ⟨agree, [], by simp, by simp⟩
  | cons a rest ih =>
      obtain ⟨agree', more, first, first'⟩ := @step_agree _ outside planes _ _ agree a
      obtain ⟨agree'', others, second, second'⟩ := ih agree'
      refine ⟨agree'', more ++ others, ?_, ?_⟩
      · rw [List.foldl_cons, second, first, List.append_assoc]
      · rw [List.foldl_cons, second', first', List.append_assoc]

end Steps

end KoyuRuntime.Services.Bridge
