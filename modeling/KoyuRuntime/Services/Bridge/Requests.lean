/-
# Services.Bridge.Requests — which messages are requests, and what the others do

A message is a request if it is a JSON object of a known type whose fields are of the types
the protocol gives them and can be used: the topic is one of `services.yaml`, the rate one a
stream can run at, the channel a `ServiceName`.  The handler does not ask for that.
It takes a value wherever Python lets it be used.

* `requestOf`: the request that a message is.
* `Harmless`: the condition under which a message that is none stays without consequences.
* `requestOf_fits`: a request gets its plan, and the plan of any other message leaves the
  loop and the tables alone exactly if it is harmless.
-/
import KoyuRuntime.Services.Bridge.Plans

namespace KoyuRuntime.Services.Bridge

open Host Theory Ipc.Types

set_option autoImplicit false

/-! ## Requests -/

inductive Request where
  | subscribe (topic : String) (rate : Json)
  | unsubscribe (topic : String)
  | ring (channel : String) (id : Int)
  | listen (channel : String)
  | unlisten (channel : String)
  | setParam (topic key : String) (value : Json) (persist : Bool)

/-- Is the topic in `services.yaml`, and its type one there is? -/
def served (planes : Planes) (topic : String) : Bool :=
  match planes.get? (.str topic) with
  | some (type, _) => (resolve type).isOk
  | none => false

/-- Is the rate a number that a stream can run at? -/
def Outside.paces (outside : Outside) : Json → Bool
  | .int i => (period (.int i)).toOption.any outside.sleeps
  | .float x => (period (.float x)).toOption.any outside.sleeps
  | _ => false

theorem Outside.period_of_paces {outside : Outside} {rate : Json} (paced : outside.paces rate = true) :
    ∃ dt, period rate = .ok dt ∧ outside.sleeps dt = true := by
  have number : (period rate).toOption.any outside.sleeps = true := by
    cases rate with
    | int i => exact paced
    | float x => exact paced
    | _ => cases paced
  cases period_ : period rate with
  | error e =>
      rw [period_] at number
      cases number
  | ok dt =>
      rw [period_] at number
      exact ⟨dt, rfl, number⟩

/-- A text that a field has, or has by default. -/
def textOf (req : JsonObj) (name : String) : Option String :=
  match field req name (.str "") with
  | .str text => some text
  | _ => none

section Reading

variable (outside : Outside) (planes : Planes) (req : JsonObj)

def subscribeOf : Option Request :=
  let rate := field req "rate_hz" (.int 30)
  match field req "topic" (.str "") with
  | .str topic => if served planes topic && outside.paces rate then some (.subscribe topic rate) else none
  | _ => none

def unsubscribeOf : Option Request := (textOf req "topic").map .unsubscribe

def ringOf : Option Request :=
  match field req "channel" (.str ""), field req "event_id" (.int 0) with
  | .str channel, .int id =>
      if channel ≠ "" && outside.legal channel && outside.eventId id then some (.ring channel id) else none
  | _, _ => none

def listenOf : Option Request :=
  match field req "channel" (.str "") with
  | .str channel => if channel ≠ "" && outside.legal channel then some (.listen channel) else none
  | _ => none

def unlistenOf : Option Request := (textOf req "channel").map .unlisten

def setParamOf : Option Request :=
  match field req "topic" (.str ""), field req "key" .null, field req "persist" (.bool false) with
  | .str topic, .str key, .bool persist =>
      if topic ≠ "" && InboxRouting.Nameable topic then
        some (.setParam topic key (field req "value" .null) persist)
      else none
  | _, _, _ => none

/-- The request that a text message is. -/
def requestOf (message : Option Json) : Option Request :=
  match Connection.loaded message with
  | some (.obj req) =>
      match verbOf req with
      | some .subscribeTopic => subscribeOf outside planes req
      | some .unsubscribeTopic => unsubscribeOf req
      | some .ringEvent => ringOf outside req
      | some .listenEvent => listenOf outside req
      | some .unlistenEvent => unlistenOf req
      | some .setParam => setParamOf req
      | none => none
  | _ => none

end Reading

/-! ## Other messages -/

section Harmless

variable (outside : Outside) (planes : Planes) (moment : Moment) (req : JsonObj)

/-- The topic is unknown, and the client can be told so. -/
def HarmlessSubscribe : Prop :=
  ∃ key, keyOf (field req "topic" (.str "")) = .ok key ∧ planeOf planes key = none ∧ moment.sends = true

/-- The event id is a number to Python, and without a channel or the event can be fired. -/
def HarmlessRing : Prop :=
  ∃ id, (field req "event_id" (.int 0)).toInt outside.decimal = .ok id ∧
    ((field req "channel" (.str "")).truthy = false ∨ ∃ name, field req "channel" (.str "") = .str name ∧
      outside.legal name = true ∧ outside.eventId id = true ∧ moment.rings = true)

/-- Without a key or a topic, or the request can be dropped into the inbox. -/
def HarmlessSetParam : Prop :=
  field req "key" .null = .null ∨ (field req "topic" (.str "")).truthy = false ∨
    ∃ name files, field req "topic" (.str "") = .str name ∧
      InboxRouting.submit outside.home name ⟨0, moment.pid, moment.time, Connection.paramRequest req⟩
        moment.files = .ok () files

/-- Text that is not JSON, an object of no known type, and the cases above; a channel to
listen to has to be empty, and a topic or channel to give up hashable. -/
def Harmless (message : Option Json) : Prop :=
  match Connection.loaded message with
  | none => True
  | some (.obj req) =>
      match verbOf req with
      | some .subscribeTopic => HarmlessSubscribe planes moment req
      | some .unsubscribeTopic => (field req "topic" (.str "")).hashable = true
      | some .ringEvent => HarmlessRing outside moment req
      | some .listenEvent => (field req "channel" (.str "")).truthy = false
      | some .unlistenEvent => (field req "channel" (.str "")).hashable = true
      | some .setParam => HarmlessSetParam outside moment req
      | none => True
  | some _ => False

end Harmless

/-! ## The plans of requests and of other messages -/

/-- What the handler does for a request.  Firing an event and dropping a request into an
inbox can raise. -/
def Request.Gets (outside : Outside) : Request → Plan → Prop
  | .subscribe topic rate, plan => ∃ type plane S, resolve type = .ok S ∧ outside.paces rate = true ∧
      plan = .subscribe (.str topic) type plane rate
  | .unsubscribe topic, plan => plan = .unsubscribe (.str topic)
  | .ring channel id, plan => plan = .ring channel id ∨ ∃ e, plan = .raise e
  | .listen channel, plan => outside.legal channel = true ∧ plan = .listen (.str channel) (.str channel)
  | .unlisten channel, plan => plan = .unlisten (.str channel)
  | .setParam topic key value persist, plan =>
      plan = .say (.submitted topic ([("key", .str key), ("value", value)] ++
        if persist then [("persist", .bool true)] else [])) ∨ ∃ e, plan = .raise e

namespace Plan

/-- Does the plan leave the loop running, and make no task? -/
def Calm : Plan → Prop
  | .raise _ | .subscribe .. | .listen .. => False
  | _ => True

/-- Does the plan miss what requests are about: the topics and channels of the tables? -/
def Astray (outside : Outside) : Plan → Prop
  | .unsubscribe key | .unlisten key => ∀ name, key ≠ .str name
  | .listen _ key => ∀ name, key = .str name → outside.legal name = false
  | _ => True

end Plan

/-- The plan of a message that is this request, or none, and then is harmless or not. -/
def Fits (outside : Outside) (request : Option Request) (harmless : Prop) (plan : Plan) : Prop :=
  match request with
  | some r => r.Gets outside plan
  | none => plan.Astray outside ∧ (harmless ↔ plan.Calm)

theorem keyOf_cases (value : Json) :
    (∃ name, value = .str name ∧ keyOf value = .ok (.str name)) ∨
    (∃ key, keyOf value = .ok key ∧ ∀ name, key ≠ .str name) ∨ ∃ e, keyOf value = .error e := by
  cases value <;> simp [keyOf]

section Fits

variable {outside : Outside} {planes : Planes} {moment : Moment} {req : JsonObj}

theorem served_iff {topic : String} :
    served planes topic = true ↔ ∃ type plane S, planes.get? (.str topic) = some (type, plane) ∧ resolve type = .ok S := by
  unfold served
  cases planes.get? (.str topic) with
  | none => simp
  | some found =>
      obtain ⟨type, plane⟩ := found
      cases resolved : resolve type <;> simp [Except.isOk, Except.toBool, resolved]

theorem subscribe_fits : Fits outside (subscribeOf outside planes req) (HarmlessSubscribe planes moment req)
    (planSubscribe outside planes moment req) := by
  unfold subscribeOf HarmlessSubscribe planSubscribe withKey
  generalize field req "topic" (.str "") = topic
  generalize field req "rate_hz" (.int 30) = rate
  rcases keyOf_cases topic with ⟨name, rfl, hashed⟩ | ⟨key, hashed, other⟩ | ⟨e, raised⟩
  · have plane_ : planeOf planes (.str name) = planes.get? (.str name) := by simp [planeOf]
    by_cases good : (served planes name && outside.paces rate) = true
    · obtain ⟨there, paced⟩ := Bool.and_eq_true_iff.mp good
      obtain ⟨type, plane, S, found, resolved⟩ := served_iff.mp there
      simp only [hashed, if_pos good, plane_, found]
      exact ⟨type, plane, S, resolved, paced, rfl⟩
    · simp only [hashed, if_neg good, plane_]
      cases found : planes.get? (.str name) with
      | none => cases sends : moment.sends <;> simp [Fits, Plan.Astray, Plan.Calm, plane_, found]
      | some plane => simp [Fits, Plan.Astray, Plan.Calm, plane_, found]
  · have none_ : ∀ name, topic ≠ .str name := by
      rintro name rfl
      cases hashed
      exact other name rfl
    cases topic with
    | str name => exact absurd rfl (none_ name)
    | _ =>
      simp only [hashed]
      cases found : planeOf planes key with
      | none => cases sends : moment.sends <;> simp [Fits, Plan.Astray, Plan.Calm, found]
      | some plane => simp [Fits, Plan.Astray, Plan.Calm, found]
  · cases topic with
    | str name => cases raised
    | _ => simp [Fits, Plan.Astray, Plan.Calm, raised]

/-- A verb that only gives up what its field names. -/
theorem drop_fits {name : String} {request : String → Request} {plan : Key → Plan}
    (gets : ∀ text, (request text).Gets outside (plan (.str text)))
    (astray : ∀ key, (∀ text, key ≠ .str text) → (plan key).Astray outside) (calm : ∀ key, (plan key).Calm) :
    Fits outside ((textOf req name).map request) ((field req name (.str "")).hashable = true)
      (withKey (field req name (.str "")) plan) := by
  have hashed : ∀ key, (∀ text, key ≠ .str text) → Fits outside none (true = true) (plan key) :=
    fun key foreign => ⟨astray key foreign, iff_of_true rfl (calm key)⟩
  have raised : ∀ e, Fits outside none (false = true) (.raise e) :=
    fun e => ⟨trivial, iff_of_false Bool.false_ne_true id⟩
  unfold textOf withKey
  cases field req name (.str "") with
  | str text => exact gets text
  | null | bool b | int i | float x => exact hashed _ nofun
  | arr items | obj members => exact raised _

theorem unsubscribe_fits : Fits outside (unsubscribeOf req) ((field req "topic" (.str "")).hashable = true)
    (withKey (field req "topic" (.str "")) .unsubscribe) :=
  drop_fits (fun _ => rfl) (fun _ => id) fun _ => trivial

theorem unlisten_fits : Fits outside (unlistenOf req) ((field req "channel" (.str "")).hashable = true)
    (withKey (field req "channel" (.str "")) .unlisten) :=
  drop_fits (fun _ => rfl) (fun _ => id) fun _ => trivial

theorem listen_fits : Fits outside (listenOf outside req) ((field req "channel" (.str "")).truthy = false)
    (planListen req) := by
  unfold listenOf planListen withKey
  generalize field req "channel" (.str "") = channel
  rcases keyOf_cases channel with ⟨name, rfl, hashed⟩ | ⟨key, hashed, other⟩ | ⟨e, raised⟩
  · by_cases empty : name = ""
    · simp [Fits, Plan.Astray, Plan.Calm, Json.truthy, empty]
    · cases legal : outside.legal name <;>
        simp [Fits, Request.Gets, Plan.Astray, Plan.Calm, Json.truthy, empty, hashed, legal]
  · have request : (match channel with
        | .str name => if name ≠ "" && outside.legal name then some (Request.listen name) else none
        | _ => none) = none := by
      cases channel with
      | str name =>
          cases hashed
          exact absurd rfl (other name)
      | _ => rfl
    cases some_ : channel.truthy <;> simp_all [Fits, Plan.Astray, Plan.Calm]
  · cases channel with
    | str name => cases raised
    | _ => cases some_ : Json.truthy _ <;> simp_all [Fits, Plan.Astray, Plan.Calm]

theorem ring_fits : Fits outside (ringOf outside req) (HarmlessRing outside moment req)
    (planRing outside moment req) := by
  unfold ringOf HarmlessRing planRing
  generalize field req "channel" (.str "") = channel
  generalize field req "event_id" (.int 0) = number
  cases converted : number.toInt outside.decimal with
  | error e =>
      cases number with
      | int id => cases converted
      | _ => cases channel <;> simp [Fits, Plan.Astray, Plan.Calm]
  | ok id =>
      cases channel with
      | str name =>
          by_cases empty : name = ""
          · cases number <;> simp [Fits, Plan.Astray, Plan.Calm, Json.truthy, empty]
          · cases legal : outside.legal name <;> cases known : outside.eventId id <;> cases rings : moment.rings <;>
              cases number <;>
              simp_all [Fits, Request.Gets, Plan.Astray, Plan.Calm, Json.truthy, Json.toInt]
      | _ => cases some_ : Json.truthy _ <;> simp [Fits, Plan.Astray, Plan.Calm]

theorem persist_truthy {persist : Bool} (given : field req "persist" (.bool false) = .bool persist) :
    (field req "persist" .null).truthy = persist := by
  unfold field at given ⊢
  cases found : req.get? "persist" with
  | none =>
      rw [found] at given
      cases given
      rfl
  | some value =>
      rw [found] at given
      cases given
      rfl

theorem paramRequest_eq {key : String} {persist : Bool} (named : field req "key" .null = .str key)
    (given : field req "persist" (.bool false) = .bool persist) :
    Connection.paramRequest req = [("key", .str key), ("value", field req "value" .null)] ++
      if persist then [("persist", .bool true)] else [] := by
  unfold Connection.paramRequest
  rw [persist_truthy given, named]

theorem setParam_calm : (planSetParam outside moment req).Astray outside ∧
    (HarmlessSetParam outside moment req ↔ (planSetParam outside moment req).Calm) := by
  unfold HarmlessSetParam planSetParam
  generalize field req "topic" (.str "") = topic
  cases field req "key" .null with
  | null => simp [Plan.Astray, Plan.Calm]
  | _ =>
      cases some_ : topic.truthy with
      | false => simp [Plan.Astray, Plan.Calm]
      | true =>
          cases topic with
          | str name =>
              cases sent : InboxRouting.submit outside.home name
                ⟨0, moment.pid, moment.time, Connection.paramRequest req⟩ moment.files <;>
                simp [Plan.Astray, Plan.Calm, sent]
          | _ => simp [Plan.Astray, Plan.Calm]

theorem setParam_fits : Fits outside (setParamOf req) (HarmlessSetParam outside moment req)
    (planSetParam outside moment req) := by
  cases asked : setParamOf req with
  | none => exact setParam_calm
  | some r =>
      unfold setParamOf at asked
      split at asked
      · rename_i name key persist named keyed given
        by_cases good : (name ≠ "" && InboxRouting.Nameable name) = true
        · rw [if_pos good] at asked
          cases asked
          have some_ : (Json.str name).truthy = true := (Bool.and_eq_true_iff.mp good).1
          unfold planSetParam
          simp only [named, keyed, if_pos some_, paramRequest_eq keyed given]
          split
          · exact .inl rfl
          · exact .inr ⟨_, rfl⟩
        · rw [if_neg good] at asked
          cases asked
      · cases asked

/-- **What a message comes to.** -/
theorem requestOf_fits (outside : Outside) (planes : Planes) (moment : Moment) (message : Option Json) :
    Fits outside (requestOf outside planes message) (Harmless outside planes moment message)
      (planOf outside planes moment message) := by
  unfold requestOf Harmless planOf
  cases Connection.loaded message with
  | none => simp [Fits, Plan.Astray, Plan.Calm]
  | some read =>
      cases read with
      | obj req =>
          simp only [planRequest]
          cases verbOf req with
          | none => simp [Fits, Plan.Astray, Plan.Calm]
          | some verb =>
              cases verb with
              | subscribeTopic => exact subscribe_fits
              | unsubscribeTopic => exact unsubscribe_fits
              | ringEvent => exact ring_fits
              | listenEvent => exact listen_fits
              | unlistenEvent => exact unlisten_fits
              | setParam => exact setParam_fits
      | _ => simp [Fits, Plan.Astray, Plan.Calm]

end Fits

end KoyuRuntime.Services.Bridge
