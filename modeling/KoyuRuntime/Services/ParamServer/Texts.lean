/-
# Services.ParamServer.Texts — the server on the texts of its files

The server was described on documents.  Its files hold texts: `_load` reads one at the start, a
drain reads one for each request, `_save` writes the live document with an indent and `quarantine`
writes a rejected request with its reason.  A process can also be restarted: it then has nothing but
what its files hold.  How a reason reads, with the `repr` of its values, is a parameter.

* `server_on_texts`: in every run, restarts among it, the server does on texts what it does on
  documents, raises where that raises, and every file it has written reads back.
-/
import KoyuRuntime.Services.InboxProtocol.Texts
import KoyuRuntime.Services.ParamServer.Persistence

namespace KoyuRuntime.Services.ParamServer

open Host Theory

set_option autoImplicit false

/-- A topic with the texts of its file and of what was parked for it.  Of the topic itself, the
document of its file and its quarantine are only remembered. -/
structure TextTopic where
  topic : Topic
  text : Option (List Char)
  parked : List (List Char)

section Texts

variable (format : FloatFormat) (describe : String → Reason → String)

/-- `Inbox.drain`. -/
def drainTexts : List (List Char) → Except Exn (List Json)
  | [] => .ok []
  | text :: rest =>
      match loads format text with
      | .ok req => do return req :: (← drainTexts rest)
      | .error .malformed => drainTexts rest
      | .error .tooLong => .error .valueError

/-- `_load`; a `JSONDecodeError` is a `ValueError`. -/
def loadText : Option (List Char) → Except Exn Json
  | none => .ok (.obj [])
  | some text =>
      match loads format text with
      | .ok document => .ok document
      | .error _ => .error .valueError

/-- `setup` for one topic. -/
def bootText (name : String) (T : StructType) (text : Option (List Char)) (parked : List (List Char))
    (outcomes : List Bool) : Except Exn TextTopic := do
  let params ← loadText format text
  hasValues params (paramFields T)
  let topic ← Topic.publish
    { name := name, T := T, params := params, file := text.map fun _ => params, frame := 0,
      writer := ⟨none, outcomes⟩, quarantined := [] }
  return ⟨topic, text, parked⟩

/-- What `quarantine` writes for the requests that a topic parked. -/
def parkedTexts (name : String) (rejected : List (Json × Reason)) : List (List Char) :=
  rejected.map fun p => parkedText format (describe name p.2) p.1

/-- The text that `_save` writes. -/
def savedText (params : Json) : List Char := dumpAt format.toFloatRepr (some 2) 0 params

/-- One topic's share of `on_tick`. -/
def TextTopic.onTick (t : TextTopic) (texts : List (List Char)) : Except Exn TextTopic := do
  let reqs ← drainTexts format texts
  let ((changed, persist), topic) ← t.topic.applyAll false false reqs
  let parked := t.parked ++
    parkedTexts format describe topic.name (topic.quarantined.drop t.topic.quarantined.length)
  if changed then
    let topic ← topic.publish
    return if persist then ⟨topic.save, some (savedText format topic.params), parked⟩
      else ⟨topic, t.text, parked⟩
  return ⟨topic, t.text, parked⟩

abbrev TextServer := List TextTopic

/-- `setup`, with the text of every topic's file. -/
def setupTexts : List (String × StructType × Option (List Char) × List Bool) → Except Exn TextServer
  | [] => .ok []
  | (name, T, text, outcomes) :: rest => do
      let t ← bootText format name T text [] outcomes
      return t :: (← setupTexts rest)

/-- A tick, with the texts of every topic's inbox, or a new process. -/
inductive TextAction where
  | tick (texts : String → List (List Char))
  | restart (outcomes : String → List Bool)

/-- Every topic in turn; the first that raises ends it. -/
def TextServer.each (act : TextTopic → Except Exn TextTopic) : TextServer → Except Exn TextServer
  | [] => .ok []
  | t :: rest => do
      let t ← act t
      return t :: (← TextServer.each act rest)

def TextServer.step (s : TextServer) : TextAction → Except Exn TextServer
  | .tick texts => s.each fun t => t.onTick format describe (texts t.topic.name)
  | .restart outcomes =>
      s.each fun t => bootText format t.topic.name t.topic.T t.text t.parked (outcomes t.topic.name)

/-! ## On documents -/

/-- What a tick or a new process is on documents. -/
inductive DocAction where
  | tick (files : String → List (Option Json))
  | restart (outcomes : String → List Bool)

def docStep (s : Server) : DocAction → Except Exn Server
  | .tick files => ParamServer.step s files
  | .restart outcomes => setup (s.map fun t => (t.name, t.T, t.file, outcomes t.name))

/-- The document of a text: none where `drain` drops it, one that raises where reading it raises. -/
def docOf (text : List Char) : Option Json :=
  match loads format text with
  | .ok document => some document
  | .error .malformed => none
  | .error .tooLong => some (.int (10 ^ maxStrDigits : Nat))

def TextAction.onDocs : TextAction → DocAction
  | .tick texts => .tick fun name => (texts name).map (docOf format)
  | .restart outcomes => .restart outcomes

/-- The texts are those of the documents. -/
structure TextTopic.Sound (t : TextTopic) : Prop where
  params : Proper format t.topic.params
  file : t.text.map (loads format) = t.topic.file.map .ok
  parked : ∃ earlier, t.parked = earlier ++ parkedTexts format describe t.topic.name t.topic.quarantined
  reads : ∀ text ∈ t.parked, ∃ reason req, Proper format req ∧ text = parkedText format reason req
  requests : ∀ p ∈ t.topic.quarantined, Proper format p.1

end Texts

/-! ## Documents stay documents -/

section Proper

variable {format : FloatFormat}

mutual

theorem withinDigits_of_proper : (value : Json) → Proper format value → value.withinDigits = true
  | .null, _ => by rw [Json.withinDigits]
  | .bool _, _ => by rw [Json.withinDigits]
  | .float _, _ => by rw [Json.withinDigits]
  | .str _, _ => by rw [Json.withinDigits]
  | .int i, proper => by
      rw [Proper] at proper
      rw [Json.withinDigits]
      exact decide_eq_true proper
  | .arr items, proper => by
      rw [Proper] at proper
      rw [Json.withinDigits]
      exact withinDigits_of_items items proper
  | .obj members, proper => by
      rw [Proper] at proper
      rw [Json.withinDigits]
      exact withinDigits_of_members members proper.2

theorem withinDigits_of_items : (items : List Json) → ItemsProper format items →
    Json.allWithinDigits items = true
  | [], _ => by rw [Json.allWithinDigits]
  | item :: rest, proper => by
      rw [ItemsProper] at proper
      rw [Json.allWithinDigits, withinDigits_of_proper item proper.1, withinDigits_of_items rest proper.2]
      rfl

theorem withinDigits_of_members : (members : List (String × Json)) → MembersProper format members →
    Json.membersWithinDigits members = true
  | [], _ => by rw [Json.membersWithinDigits]
  | (key, value) :: rest, proper => by
      rw [MembersProper] at proper
      rw [Json.membersWithinDigits, withinDigits_of_proper value proper.1, withinDigits_of_members rest proper.2]
      rfl

end

theorem proper_find {members : List (String × Json)} (proper : MembersProper format members) {key : String}
    {value : Json} (found : JsonObj.get? members key = some value) : Proper format value := by
  induction members with
  | nil => cases found
  | cons m rest ih =>
      obtain ⟨name, here⟩ := m
      rw [MembersProper] at proper
      simp only [JsonObj.get?, OrderedDict.find] at found
      split at found
      · cases found
        exact proper.1
      · exact ih proper.2 found

theorem proper_get {value key found : Json} (proper : Proper format value) (read : value.get key = .ok found) :
    Proper format found := by
  cases value with
  | obj members =>
      rw [Proper] at proper
      cases key with
      | str k =>
          cases read
          cases there : JsonObj.get? members k with
          | none => simp only [Option.getD_none, Proper]
          | some entry => exact proper_find proper.2 there
      | arr items => cases read
      | obj more => cases read
      | _ =>
          cases read
          simp only [Proper]
  | _ => cases read

theorem proper_put {members : List (String × Json)} (proper : Proper format (.obj members)) (key : String)
    {value : Json} (new : Proper format value) : Proper format (.obj (OrderedDict.put key value members)) := by
  rw [Proper] at proper ⊢
  refine ⟨?_, membersProper_put proper.2 key new⟩
  exact (OrderedDict.set ⟨members, proper.1⟩ key value).nodup

theorem proper_setValue {params val : Json} (proper : Proper format params) (key : String)
    (new : Proper format val) : Proper format (setValue key val params) := by
  cases params with
  | obj members =>
      cases found : JsonObj.get? members key with
      | none =>
          simp only [setValue, found]
          exact proper
      | some entry =>
          cases entry with
          | obj bounds =>
              rw [setValue_obj val found]
              have old : Proper format (.obj bounds) := by
                rw [Proper] at proper
                exact proper_find proper.2 found
              exact proper_put proper key (proper_put old "value" new)
          | _ =>
              simp only [setValue, found]
              exact proper
  | _ => exact proper

/-- The value that is applied is the request's. -/
theorem judge_value {T : StructType} {params req val : Json} {key : String}
    (accepted : judge T params req = .ok (.accept key val)) : req.get (.str "value") = .ok val := by
  unfold judge at accepted
  obtain ⟨name, -, accepted⟩ := except_bind_ok_iff.mp accepted
  obtain ⟨value, read, accepted⟩ := except_bind_ok_iff.mp accepted
  obtain ⟨entry, -, accepted⟩ := except_bind_ok_iff.mp accepted
  have same : value = val := by
    split at accepted
    · cases accepted
    · unfold checkEntry at accepted
      obtain ⟨fit, -, accepted⟩ := except_bind_ok_iff.mp accepted
      cases fit with
      | false => cases accepted
      | true =>
          rw [if_pos rfl] at accepted
          obtain ⟨range, -, accepted⟩ := except_bind_ok_iff.mp accepted
          cases range with
          | some range => cases accepted
          | none =>
              dsimp only at accepted
              split at accepted
              · cases accepted
                rfl
              · cases accepted
    · cases accepted
  rw [read, same]

/-- What the requests of a drain do to a topic: its file stays, and it parks some of them. -/
structure Goes (format : FloatFormat) (t t' : Topic) : Prop where
  name : t'.name = t.name
  file : t'.file = t.file
  params : Proper format t.params → Proper format t'.params
  parked : ∃ more, t'.quarantined = t.quarantined ++ more ∧ ∀ p ∈ more, Proper format p.1

theorem Goes.refl (t : Topic) : Goes format t t := ⟨rfl, rfl, id, [], (List.append_nil _).symm, nofun⟩

theorem Goes.trans {t u v : Topic} (first : Goes format t u) (later : Goes format u v) : Goes format t v := by
  obtain ⟨more, same, each⟩ := first.parked
  obtain ⟨others, same', each'⟩ := later.parked
  refine ⟨later.name.trans first.name, later.file.trans first.file, later.params ∘ first.params, more ++ others, ?_, ?_⟩
  · rw [same', same, List.append_assoc]
  · intro p mem
    rcases List.mem_append.mp mem with old | new
    · exact each p old
    · exact each' p new

theorem goes_apply {t t' : Topic} {req : Json} {took : Bool} (proper : Proper format req)
    (ran : t.apply req = .ok (took, t')) : Goes format t t' := by
  unfold Topic.apply at ran
  split at ran
  · cases ran
  · cases ran
    exact ⟨rfl, rfl, id, [_], rfl, fun p mem => by rw [List.mem_singleton.mp mem]; exact proper⟩
  · rename_i key val accepted
    cases ran
    exact ⟨rfl, rfl, fun old => proper_setValue old key (proper_get proper (judge_value accepted)), [],
      (List.append_nil _).symm, nofun⟩

theorem goes_applyAll {t t' : Topic} {reqs : List Json} (proper : ∀ req ∈ reqs, Proper format req)
    {changed persist : Bool} {flags : Bool × Bool} (ran : t.applyAll changed persist reqs = .ok (flags, t')) :
    Goes format t t' := by
  induction reqs generalizing t changed persist with
  | nil =>
      cases ran
      exact .refl _
  | cons req rest ih =>
      have later := fun r mem => proper r (List.mem_cons_of_mem req mem)
      rw [Topic.applyAll] at ran
      obtain ⟨⟨took, mid⟩, first, ran⟩ := except_bind_ok_iff.mp ran
      have here := goes_apply (proper req List.mem_cons_self) first
      dsimp only at ran
      split at ran
      · obtain ⟨wanted, -, ran⟩ := except_bind_ok_iff.mp ran
        exact here.trans (ih later ran)
      · exact here.trans (ih later ran)

theorem goes_publish {t t' : Topic} (ran : t.publish = .ok t') : Goes format t t' := by
  rw [Topic.publish_same ran]
  exact ⟨rfl, rfl, id, [], (List.append_nil _).symm, nofun⟩

end Proper

/-! ## One topic -/

section Topics

variable {format : FloatFormat} {describe : String → Reason → String} {t t' : TextTopic}

/-- **A drain of texts** is a drain of what they stand for. -/
theorem drainTexts_eq (texts : List (List Char)) :
    drainTexts format texts = Topic.drain (texts.map (docOf format)) := by
  induction texts with
  | nil => rfl
  | cons text rest ih =>
      rw [List.map_cons, drainTexts, docOf]
      cases read : loads format text with
      | ok document =>
          have digits := withinDigits_of_proper document (loads_proper read)
          have same : document.loads = .ok document := Json.loads_ok_iff.mpr ⟨digits, rfl⟩
          simp only [Topic.drain, same, ih]
          rfl
      | error e =>
          cases e with
          | malformed => simp only [Topic.drain, ih]
          | tooLong =>
              have digits : ¬ (Json.int (10 ^ maxStrDigits : Nat)).withinDigits = true := by
                rw [Json.withinDigits, Int.natAbs_natCast, decide_eq_true_eq]
                exact Nat.lt_irrefl _
              have raised : (Json.int (10 ^ maxStrDigits : Nat)).loads = .error .valueError := if_neg digits
              simp only [Topic.drain, raised]
              rfl

theorem drainTexts_proper {texts : List (List Char)} {reqs : List Json} (drained : drainTexts format texts = .ok reqs) :
    ∀ req ∈ reqs, Proper format req := by
  induction texts generalizing reqs with
  | nil =>
      cases drained
      exact nofun
  | cons text rest ih =>
      rw [drainTexts] at drained
      split at drained
      · rename_i req read
        obtain ⟨more, later, same⟩ := except_bind_ok_iff.mp drained
        cases same
        exact List.forall_mem_cons.mpr ⟨loads_proper read, ih later⟩
      · exact ih drained
      · cases drained

/-- The topic that a result holds. -/
def topicOf (result : Except Exn TextTopic) : Except Exn Topic := result.map TextTopic.topic

/-- **A tick on texts** is the tick on documents. -/
theorem onTick_topic (t : TextTopic) (texts : List (List Char)) :
    topicOf (t.onTick format describe texts) = t.topic.onTick (texts.map (docOf format)) := by
  unfold TextTopic.onTick Topic.onTick
  rw [drainTexts_eq]
  cases Topic.drain (texts.map (docOf format)) with
  | error e => rfl
  | ok reqs =>
      simp only [bind, Except.bind]
      cases t.topic.applyAll false false reqs with
      | error e => rfl
      | ok out =>
          obtain ⟨⟨changed, persist⟩, topic⟩ := out
          cases changed with
          | false => rfl
          | true =>
              simp only [if_true]
              cases topic.publish with
              | error e => rfl
              | ok published => cases persist <;> rfl

/-- What was parked is the texts of the quarantine, after those of earlier processes. -/
theorem parked_goes (sound : t.Sound format describe) {topic : Topic} (goes : Goes format t.topic topic) :
    (∃ earlier, t.parked ++ parkedTexts format describe topic.name
        (topic.quarantined.drop t.topic.quarantined.length) =
      earlier ++ parkedTexts format describe topic.name topic.quarantined) ∧
    (∀ text ∈ t.parked ++ parkedTexts format describe topic.name
        (topic.quarantined.drop t.topic.quarantined.length),
      ∃ reason req, Proper format req ∧ text = parkedText format reason req) ∧
    ∀ p ∈ topic.quarantined, Proper format p.1 := by
  obtain ⟨more, all, proper⟩ := goes.parked
  obtain ⟨earlier, parked⟩ := sound.parked
  have new : topic.quarantined.drop t.topic.quarantined.length = more := by rw [all, List.drop_left]
  rw [new]
  refine ⟨⟨earlier, ?_⟩, ?_, ?_⟩
  · rw [parked, all, goes.name, List.append_assoc]
    unfold parkedTexts
    rw [List.map_append]
  · intro text mem
    rcases List.mem_append.mp mem with old | here
    · exact sound.reads text old
    · obtain ⟨p, inMore, rfl⟩ := List.mem_map.mp here
      exact ⟨_, _, proper p inMore, rfl⟩
  · intro p mem
    rw [all] at mem
    rcases List.mem_append.mp mem with old | here
    · exact sound.requests p old
    · exact proper p here

theorem sound_tick (sound : t.Sound format describe) {texts : List (List Char)}
    (ran : t.onTick format describe texts = .ok t') : t'.Sound format describe := by
  obtain ⟨reqs, drained, ran⟩ := except_bind_ok_iff.mp ran
  obtain ⟨⟨⟨changed, persist⟩, topic⟩, batch, ran⟩ := except_bind_ok_iff.mp ran
  have goes := goes_applyAll (drainTexts_proper drained) batch
  have kept := parked_goes sound goes
  dsimp only at ran
  cases changed with
  | false =>
      cases ran
      exact ⟨goes.params sound.params, goes.file ▸ sound.file, kept.1, kept.2.1, kept.2.2⟩
  | true =>
      rw [if_pos rfl] at ran
      obtain ⟨published, shown, ran⟩ := except_bind_ok_iff.mp ran
      have same := Topic.publish_same shown
      have name : published.name = topic.name := by rw [same]
      have quarantined : published.quarantined = topic.quarantined := by rw [same]
      have params : Proper format published.params := by
        rw [same]
        exact goes.params sound.params
      cases persist with
      | false =>
          cases ran
          refine ⟨params, ?_, ?_, kept.2.1, ?_⟩
          · rw [same]
            exact goes.file ▸ sound.file
          · show ∃ earlier, _ = earlier ++ parkedTexts format describe published.name published.quarantined
            rw [name, quarantined]
            exact kept.1
          · show ∀ p ∈ published.quarantined, _
            rw [quarantined]
            exact kept.2.2
      | true =>
          cases ran
          refine ⟨params, ?_, ?_, kept.2.1, ?_⟩
          · exact congrArg some (loads_dumpAt (some 2) params)
          · show ∃ earlier, _ = earlier ++ parkedTexts format describe published.name published.quarantined
            rw [name, quarantined]
            exact kept.1
          · show ∀ p ∈ published.quarantined, _
            rw [quarantined]
            exact kept.2.2

/-- **A start on a text** is the start on its document. -/
theorem bootText_topic {name : String} {T : StructType} {text : Option (List Char)} {file : Option Json}
    (reads : text.map (loads format) = file.map .ok) (parked : List (List Char)) (outcomes : List Bool) :
    topicOf (bootText format name T text parked outcomes) = bootTopic name T file outcomes := by
  have loaded : loadText format text = loadFile file ∧
      ∀ params, loadFile file = .ok params → (text.map fun _ => params) = file := by
    cases text with
    | none =>
        cases file with
        | none => exact ⟨rfl, fun _ _ => rfl⟩
        | some document => cases reads
    | some text =>
        cases file with
        | none => cases reads
        | some document =>
            have read : loads format text = .ok document := Option.some.inj reads
            have whole : document.loads = .ok document :=
              Json.loads_ok_iff.mpr ⟨withinDigits_of_proper document (loads_proper read), rfl⟩
            refine ⟨?_, ?_⟩
            · simp only [loadText, loadFile, read, whole]
            · intro params load
              rw [loadFile, whole] at load
              cases load
              rfl
  unfold bootText bootTopic
  rw [loaded.1]
  cases load : loadFile file with
  | error e => rfl
  | ok params =>
      simp only [bind, Except.bind, loaded.2 params load]
      cases hasValues params (paramFields T) with
      | error e => rfl
      | ok values =>
          dsimp only
          cases Topic.publish _ with
          | error e => rfl
          | ok topic => rfl

theorem loadText_reads {text : Option (List Char)} {params : Json} (loaded : loadText format text = .ok params) :
    Proper format params ∧ text.map (loads format) = (text.map fun _ => params).map .ok := by
  cases text with
  | none =>
      cases loaded
      simp only [Proper, MembersProper]
      exact ⟨⟨List.nodup_nil, trivial⟩, rfl⟩
  | some text =>
      rw [loadText] at loaded
      split at loaded
      · rename_i read
        cases loaded
        exact ⟨loads_proper read, congrArg some read⟩
      · cases loaded

theorem sound_boot {name : String} {T : StructType} {text : Option (List Char)} {parked : List (List Char)}
    {outcomes : List Bool} (reads : ∀ text ∈ parked, ∃ reason req, Proper format req ∧ text = parkedText format reason req)
    (booted : bootText format name T text parked outcomes = .ok t) :
    t.Sound format describe ∧ bootTopic name T t.topic.file outcomes = .ok t.topic := by
  have whole := booted
  obtain ⟨params, loaded, booted⟩ := except_bind_ok_iff.mp booted
  obtain ⟨_, -, booted⟩ := except_bind_ok_iff.mp booted
  obtain ⟨topic, shown, booted⟩ := except_bind_ok_iff.mp booted
  cases booted
  have same := Topic.publish_same shown
  obtain ⟨proper, read⟩ := loadText_reads loaded
  have file : text.map (loads format) = topic.file.map .ok := by
    rw [same]
    exact read
  have none_ : topic.quarantined = [] := by rw [same]
  refine ⟨⟨?_, file, ⟨parked, ?_⟩, reads, ?_⟩, ?_⟩
  · rw [same]
    exact proper
  · rw [none_]
    exact (List.append_nil _).symm
  · rw [none_]
    exact nofun
  · rw [← bootText_topic file parked outcomes, whole]
    rfl

end Topics

/-! ## The server -/

section Server

variable {format : FloatFormat} {describe : String → Reason → String}

def topicsOf (result : Except Exn TextServer) : Except Exn Server := result.map (List.map TextTopic.topic)

theorem sound_setup {config : List (String × StructType × Option (List Char) × List Bool)} {s : TextServer}
    (booted : setupTexts format config = .ok s) :
    (∀ t ∈ s, t.Sound format describe) ∧ Booted (s.map TextTopic.topic) := by
  induction config generalizing s with
  | nil =>
      cases booted
      exact ⟨nofun, [], rfl⟩
  | cons c rest ih =>
      obtain ⟨name, T, text, outcomes⟩ := c
      obtain ⟨t, first, booted⟩ := except_bind_ok_iff.mp booted
      obtain ⟨others, later, booted⟩ := except_bind_ok_iff.mp booted
      cases booted
      obtain ⟨sound, document⟩ : t.Sound format describe ∧ _ :=
        sound_boot (fun _ mem => (List.not_mem_nil mem).elim) first
      obtain ⟨sounds, config, rests⟩ := ih later
      refine ⟨List.forall_mem_cons.mpr ⟨sound, sounds⟩, (name, T, t.topic.file, outcomes) :: config, ?_⟩
      simp only [setup, document, rests]
      rfl

/-- **A step on texts** is the step on documents. -/
theorem step_topics {s : TextServer} (sound : ∀ t ∈ s, t.Sound format describe) (a : TextAction) :
    topicsOf (s.step format describe a) = docStep (s.map TextTopic.topic) (a.onDocs format) := by
  induction s with
  | nil => cases a <;> rfl
  | cons t rest ih =>
      obtain ⟨here, others⟩ := List.forall_mem_cons.mp sound
      have later := ih others
      cases a with
      | tick texts =>
          have one : topicOf (t.onTick format describe (texts t.topic.name)) = _ := onTick_topic t _
          simp only [TextServer.step, TextServer.each, docStep, step, onTick, TextAction.onDocs, topicOf, topicsOf,
            List.map_cons] at one later ⊢
          rw [← one, ← later]
          cases t.onTick format describe (texts t.topic.name) with
          | error e => rfl
          | ok t' =>
              simp only [bind, Except.bind, Except.map]
              cases TextServer.each _ rest <;> rfl
      | restart outcomes =>
          have one : topicOf (bootText format t.topic.name t.topic.T t.text t.parked (outcomes t.topic.name)) = _ :=
            bootText_topic here.file _ _
          simp only [TextServer.step, TextServer.each, docStep, setup, TextAction.onDocs, topicOf, topicsOf,
            List.map_cons] at one later ⊢
          rw [← one, ← later]
          cases bootText format t.topic.name t.topic.T t.text t.parked (outcomes t.topic.name) with
          | error e => rfl
          | ok t' =>
              simp only [bind, Except.bind, Except.map]
              cases TextServer.each _ rest <;> rfl

theorem sound_each {act : TextTopic → Except Exn TextTopic} {s s' : TextServer}
    (kept : ∀ t ∈ s, ∀ t', act t = .ok t' → t'.Sound format describe) (ran : s.each act = .ok s') :
    ∀ t ∈ s', t.Sound format describe := by
  induction s generalizing s' with
  | nil =>
      cases ran
      exact nofun
  | cons t rest ih =>
      obtain ⟨t', first, ran⟩ := except_bind_ok_iff.mp ran
      obtain ⟨others, later, ran⟩ := except_bind_ok_iff.mp ran
      cases ran
      obtain ⟨here, rests⟩ := List.forall_mem_cons.mp kept
      exact List.forall_mem_cons.mpr ⟨here t' first, ih rests later⟩

theorem sound_step {s s' : TextServer} (sound : ∀ t ∈ s, t.Sound format describe) {a : TextAction}
    (ran : s.step format describe a = .ok s') : ∀ t ∈ s', t.Sound format describe := by
  cases a with
  | tick texts => exact sound_each (fun t mem t' ticked => sound_tick (sound t mem) ticked) ran
  | restart outcomes => exact sound_each (fun t mem t' booted => (sound_boot (sound t mem).reads booted).1) ran

/-- **The server on texts**: from any texts that `setup` accepts, every run of ticks and restarts is
the run on documents, and raises where that raises; and in every state it reaches, the text of a
topic's file reads as the document that was saved last, the requests that this process rejected are
the last that were parked, and every text that was parked reads as a request with its reason. -/
theorem server_on_texts {config : List (String × StructType × Option (List Char) × List Bool)} {s₀ : TextServer}
    (booted : setupTexts format config = .ok s₀) (actions : List TextAction) :
    Booted (s₀.map TextTopic.topic) ∧
      topicsOf (runs (TextServer.step format describe) s₀ actions) =
        runs docStep (s₀.map TextTopic.topic) (actions.map (TextAction.onDocs format)) ∧
      ∀ s, runs (TextServer.step format describe) s₀ actions = .ok s → ∀ t ∈ s,
        t.text.map (loads format) = t.topic.file.map .ok ∧
        (∃ earlier, t.parked = earlier ++ parkedTexts format describe t.topic.name t.topic.quarantined) ∧
        ∀ text ∈ t.parked, ∃ reason req,
          loads format text = .ok (.obj [("reason", .str reason), ("request", req)]) := by
  obtain ⟨sound, documents⟩ : (∀ t ∈ s₀, t.Sound format describe) ∧ _ := sound_setup booted
  have both : ∀ s : TextServer, (∀ t ∈ s, t.Sound format describe) →
      topicsOf (runs (TextServer.step format describe) s actions) =
        runs docStep (s.map TextTopic.topic) (actions.map (TextAction.onDocs format)) ∧
      ∀ s', runs (TextServer.step format describe) s actions = .ok s' → ∀ t ∈ s', t.Sound format describe := by
    induction actions with
    | nil =>
        intro s sound
        refine ⟨rfl, ?_⟩
        intro s' ran
        cases ran
        exact sound
    | cons a rest ih =>
        intro s sound
        have one := step_topics sound a
        rw [List.map_cons, runs, runs, ← one]
        cases stepped : s.step format describe a with
        | error e =>
            refine ⟨rfl, ?_⟩
            intro s' ran
            cases ran
        | ok mid => exact ih mid (sound_step sound stepped)
  obtain ⟨same, reached⟩ := both s₀ sound
  refine ⟨documents, same, ?_⟩
  intro s ran t mem
  obtain ⟨-, file, parked, reads, -⟩ := reached s ran t mem
  refine ⟨file, parked, ?_⟩
  intro text inParked
  obtain ⟨reason, req, proper, rfl⟩ := reads text inParked
  exact ⟨reason, req, loads_parkedText reason proper⟩

end Server

namespace Demo

def textConfig : List (String × StructType × Option (List Char) × List Bool) :=
  [("param/live", globalConfig, some (savedText Host.Demo.wholes speedFile), [])]

def textServer : TextServer := (setupTexts Host.Demo.wholes textConfig).toOption.getD []

/-- A persisting set, a text that is no JSON, and a set out of range; then a new process. -/
def textActions : List TextAction :=
  [.tick fun _ => [dump Host.Demo.wholes.toFloatRepr (setSpeed (.float (.fin 2)) true), "\x7bspeed".toList,
      dump Host.Demo.wholes.toFloatRepr (setSpeed (.int 70) true)],
    .restart fun _ => []]

def reasonName (topic : String) : Reason → String
  | .unknown _ => topic ++ ": unknown"
  | .unfit key _ => topic ++ ": unfit " ++ key
  | .outOfRange key _ _ _ => topic ++ ": out of range " ++ key

def textsAfter : TextServer := endState (TextServer.step Host.Demo.wholes reasonName) textServer textActions

theorem texts_booted : setupTexts Host.Demo.wholes textConfig = .ok textServer := by
  have boots : (setupTexts Host.Demo.wholes textConfig).toOption.isSome = true := by decide +kernel
  unfold textServer
  cases result : setupTexts Host.Demo.wholes textConfig with
  | ok s => rfl
  | error e =>
      rw [result] at boots
      cases boots

theorem texts_ran : runs (TextServer.step Host.Demo.wholes reasonName) textServer textActions = .ok textsAfter :=
  runs_of_accepts (by decide +kernel)

end Demo

theorem server_on_texts_restarted :
    Demo.textsAfter.map (fun t => (t.topic.frame, t.topic.quarantined.length, t.parked.length)) = [(1, 0, 1)] ∧
      ∀ t ∈ Demo.textsAfter, t.text.map (loads Host.Demo.wholes) = t.topic.file.map .ok :=
  ⟨by decide +kernel, fun t mem => ((server_on_texts Demo.texts_booted Demo.textActions).2.2 _ Demo.texts_ran t mem).1⟩

end KoyuRuntime.Services.ParamServer
