/-
# Services.ParamServer.Totality — a tick that survives its inbox

A published topic stays publishable: every field of its struct has a value that the
struct takes (`Publishable`), whatever requests are applied.  So a tick raises on its
requests or not at all, and `tick_total_iff` says on which: one request that an operator
is not written for takes the batch, the later topics and the process with it.  On every
other batch each request is applied or parked, as if it were alone.
-/
import KoyuRuntime.Services.ParamServer.Judgement

namespace KoyuRuntime.Services.ParamServer

open Host Theory

set_option autoImplicit false

/-! ## Publishing -/

/-- Every field of the struct has a value that the struct takes. -/
def Publishable (t : Topic) : Prop :=
  ∀ f ∈ paramFields t.T, ∃ val, Topic.valueOf t.params f = .ok val ∧ t.T.setattr f val = .ok ()

namespace Topic

variable {t t' : Topic} {files : List (Option Json)} {reqs : List Json}

theorem structValues_ok_iff {T : StructType} {params : Json} {fs : List String} :
    (∃ values, structValues T params fs = .ok values) ↔
      ∀ f ∈ fs, ∃ val, valueOf params f = .ok val ∧ T.setattr f val = .ok () := by
  induction fs with
  | nil => simp [structValues]
  | cons f rest ih =>
      rw [List.forall_mem_cons, ← ih]
      constructor
      · rintro ⟨values, ran⟩
        obtain ⟨val, read, ran⟩ := except_bind_ok_iff.mp ran
        obtain ⟨_, took, ran⟩ := except_bind_ok_iff.mp ran
        obtain ⟨more, later, -⟩ := except_bind_ok_iff.mp ran
        exact ⟨⟨val, read, took⟩, more, later⟩
      · rintro ⟨⟨val, read, took⟩, more, later⟩
        refine ⟨(f, val) :: more, except_bind_ok_iff.mpr ⟨val, read, except_bind_ok_iff.mpr ⟨(), took, ?_⟩⟩⟩
        exact except_bind_ok_iff.mpr ⟨more, later, rfl⟩

theorem publish_ok_iff : (∃ t', t.publish = .ok t') ↔ Publishable t := by
  unfold Publishable
  rw [← structValues_ok_iff]
  constructor
  · rintro ⟨t', ran⟩
    obtain ⟨values, filled, -⟩ := except_bind_ok_iff.mp ran
    exact ⟨values, filled⟩
  · rintro ⟨values, filled⟩
    exact ⟨_, except_bind_ok_iff.mpr ⟨values, filled, rfl⟩⟩

/-- Publishing touches the frame counter and the segment. -/
theorem publish_same (ran : t.publish = .ok t') :
    t' = { t with frame := t'.frame, writer := t'.writer } := by
  obtain ⟨values, -, ran⟩ := except_bind_ok_iff.mp ran
  cases ran
  rfl

/-- A value set in an entry is the one read there. -/
theorem valueOf_setValue {entries bounds : JsonObj} {key f : String} {val : Json}
    (found : JsonObj.get? entries key = some (.obj bounds)) :
    valueOf (setValue key val (.obj entries)) f =
      if key = f then .ok val else valueOf (.obj entries) f := by
  rw [setValue_obj val found]
  simp only [valueOf, Json.item, JsonObj.get?_put]
  by_cases here : key = f
  · simp only [here, if_true, bind, Except.bind, JsonObj.get?_put]
  · simp only [here, if_false]

/-- An accepted request keeps a topic publishable. -/
theorem publishable_setValue {req : Json} {key : String} {val : Json} (publishable : Publishable t)
    (accepted : judge t.T t.params req = .ok (.accept key val)) :
    Publishable { t with params := setValue key val t.params } := by
  obtain ⟨takes, entries, bounds, doc, found⟩ := judge_accept accepted
  intro f field
  obtain ⟨old, read, took⟩ := publishable f field
  rw [doc] at read
  dsimp only
  rw [doc, valueOf_setValue found]
  by_cases here : key = f
  · subst here
    exact ⟨val, if_pos rfl, takes.2⟩
  · exact ⟨old, by rw [if_neg here, read], took⟩

theorem publishable_applied {accepted : List Accepted} (publishable : Publishable t)
    (each : ∀ a ∈ accepted, ∃ req, judge t.T t.params req = .ok (.accept a.key a.val)) :
    Publishable { t with params := applied t.params accepted } := by
  induction accepted generalizing t with
  | nil => exact publishable
  | cons a rest ih =>
      obtain ⟨req, judged⟩ := each a List.mem_cons_self
      refine ih (t := { t with params := setValue a.key a.val t.params })
        (publishable_setValue publishable judged) ?_
      intro a' mem
      obtain ⟨req', judged'⟩ := each a' (List.mem_cons_of_mem a mem)
      exact ⟨req', (judge_setValue a.key a.val).trans judged'⟩

theorem acceptance_some {req : Json} {a : Accepted} (passed : t.acceptance req = some a) :
    judge t.T t.params req = .ok (.accept a.key a.val) ∧ a.persist = wantsPersist req := by
  unfold acceptance at passed
  split at passed
  · rename_i key val judged
    cases passed
    exact ⟨judged, rfl⟩
  · cases passed

theorem publishable_accepted (publishable : Publishable t) (reqs : List Json) :
    Publishable { t with params := applied t.params (reqs.filterMap t.acceptance) } := by
  refine publishable_applied publishable ?_
  intro a mem
  obtain ⟨req, -, passed⟩ := List.mem_filterMap.mp mem
  exact ⟨req, (acceptance_some passed).1⟩

/-! ## One tick of one topic -/

/-- The files that are JSON. -/
def requests (files : List (Option Json)) : List Json := files.filterMap id

theorem drain_ok_iff {out : List Json} :
    drain files = .ok out ↔
      (∀ document, some document ∈ files → document.withinDigits = true) ∧ out = requests files := by
  induction files generalizing out with
  | nil =>
      constructor
      · rintro ⟨⟩
        exact ⟨by simp, rfl⟩
      · rintro ⟨-, rfl⟩
        rfl
  | cons file rest ih =>
      cases file with
      | none =>
          rw [drain, ih]
          simp only [requests, List.mem_cons, reduceCtorEq, false_or, List.filterMap_cons_none, id]
      | some document =>
          rw [drain, except_bind_ok_iff]
          constructor
          · rintro ⟨req, read, ran⟩
            obtain ⟨digits, rfl⟩ := Json.loads_ok_iff.mp read
            obtain ⟨more, later, same⟩ := except_bind_ok_iff.mp ran
            cases same
            obtain ⟨others, rfl⟩ := ih.mp later
            refine ⟨?_, rfl⟩
            intro d mem
            rcases List.mem_cons.mp mem with here | later
            · cases here
              exact digits
            · exact others d later
          · rintro ⟨all, rfl⟩
            have digits := all document List.mem_cons_self
            refine ⟨document, Json.loads_ok_iff.mpr ⟨digits, rfl⟩, except_bind_ok_iff.mpr ?_⟩
            exact ⟨requests rest, ih.mpr ⟨fun d mem => all d (List.mem_cons_of_mem _ mem), rfl⟩, rfl⟩

/-- What a tick does to a topic: the accepted requests are applied in order, the
rejected ones are parked, and a persisting one saves the document. -/
structure Ticked (t : Topic) (reqs : List Json) (t' : Topic) : Prop where
  name : t'.name = t.name
  struct : t'.T = t.T
  params : t'.params = applied t.params (reqs.filterMap t.acceptance)
  quarantined : t'.quarantined = t.quarantined ++ reqs.filterMap t.rejection
  file : t'.file =
    if (reqs.filterMap t.acceptance).any Accepted.persist then some t'.params else t.file

/-- A document that a tick digests. -/
def Digestible (t : Topic) (document : Json) : Prop :=
  document.withinDigits = true ∧ Judgeable t.T t.params document

/-- A topic after a batch of decided requests, before it publishes. -/
def heard (t : Topic) (reqs : List Json) : Topic :=
  { t with
    params := applied t.params (reqs.filterMap t.acceptance)
    quarantined := t.quarantined ++ reqs.filterMap t.rejection }

/-- **What a tick does**: it digests every document, and publishes if it accepted one. -/
theorem onTick_cases (ran : t.onTick files = .ok t') :
    (∀ document, some document ∈ files → Digestible t document) ∧
      (((requests files).filterMap t.acceptance = [] ∧ t' = t.heard (requests files)) ∨
        ((requests files).filterMap t.acceptance ≠ [] ∧
          ∃ published, (t.heard (requests files)).publish = .ok published ∧
            t' = if ((requests files).filterMap t.acceptance).any Accepted.persist
              then published.save else published)) := by
  obtain ⟨reqs, drained, ran⟩ := except_bind_ok_iff.mp ran
  obtain ⟨digits, rfl⟩ := drain_ok_iff.mp drained
  obtain ⟨out, batch, ran⟩ := except_bind_ok_iff.mp ran
  have decided := decided_of_applyAll batch
  rw [applyAll_judged false false decided] at batch
  cases batch
  have digested : ∀ document, some document ∈ files → Digestible t document := fun document mem =>
    ⟨digits document mem, judge_ok_iff.mp
      (decided document (List.mem_filterMap.mpr ⟨some document, mem, rfl⟩))⟩
  refine ⟨digested, ?_⟩
  simp only [Bool.false_or] at ran
  cases some_ : ((requests files).filterMap t.acceptance).isEmpty with
  | true =>
      rw [some_] at ran
      cases ran
      exact .inl ⟨List.isEmpty_iff.mp some_, rfl⟩
  | false =>
      rw [some_, Bool.not_false, if_pos rfl] at ran
      obtain ⟨published, shown, ran⟩ := except_bind_ok_iff.mp ran
      refine .inr ⟨by intro none_; simp [none_] at some_, published, shown, ?_⟩
      cases persist : ((requests files).filterMap t.acceptance).any Accepted.persist with
      | true =>
          rw [persist, if_pos rfl] at ran
          cases ran
          rfl
      | false =>
          rw [persist, if_neg (by simp)] at ran
          cases ran
          rfl

/-- **A tick that returns** has digested every document and decided every request. -/
theorem onTick_ticked (ran : t.onTick files = .ok t') :
    (∀ document, some document ∈ files → Digestible t document) ∧ Ticked t (requests files) t' := by
  obtain ⟨digested, ⟨none_, rfl⟩ | ⟨-, published, shown, rfl⟩⟩ := onTick_cases ran
  · exact ⟨digested, rfl, rfl, rfl, rfl, by simp [none_, heard]⟩
  · refine ⟨digested, ?_⟩
    have same := publish_same shown
    cases persist : ((requests files).filterMap t.acceptance).any Accepted.persist with
    | true =>
        rw [if_pos rfl, same]
        exact ⟨rfl, rfl, rfl, rfl, by rw [persist, if_pos rfl]; rfl⟩
    | false =>
        rw [if_neg (by simp), same]
        exact ⟨rfl, rfl, rfl, rfl, by rw [persist, if_neg (by simp)]; rfl⟩

theorem Ticked.publishable (ticked : Ticked t reqs t') (publishable : Publishable t) : Publishable t' := by
  have kept := publishable_accepted publishable reqs
  unfold Publishable
  rw [ticked.struct, ticked.params]
  exact kept

/-- A topic that digests every document ticks. -/
theorem onTick_of_digestible (publishable : Publishable t)
    (digestible : ∀ document, some document ∈ files → Digestible t document) :
    ∃ t', t.onTick files = .ok t' := by
  have drained := drain_ok_iff.mpr ⟨fun document mem => (digestible document mem).1, rfl⟩
  have decided : ∀ req ∈ requests files, ∃ ruling, judge t.T t.params req = .ok ruling := by
    intro req mem
    obtain ⟨file, there, same⟩ := List.mem_filterMap.mp mem
    rw [id] at same
    exact judge_ok_iff.mpr (digestible req (same ▸ there)).2
  have batch := applyAll_judged false false decided
  have kept := publishable_accepted publishable (requests files)
  obtain ⟨published, shown⟩ := publish_ok_iff (t := { t with
    params := applied t.params ((requests files).filterMap t.acceptance)
    quarantined := t.quarantined ++ (requests files).filterMap t.rejection }) |>.mpr kept
  simp only [onTick, drained, batch, bind, Except.bind, Bool.false_or]
  split
  · rw [shown]
    exact ⟨_, rfl⟩
  · exact ⟨_, rfl⟩

end Topic

/-! ## The server -/

/-- A server just after `setup`. -/
def Booted (s : Server) : Prop := ∃ config, setup config = .ok s

theorem bootTopic_publishable {name : String} {T : StructType} {file : Option Json}
    {outcomes : List Bool} {t : Topic} (booted : bootTopic name T file outcomes = .ok t) :
    Publishable t := by
  obtain ⟨params, -, booted⟩ := except_bind_ok_iff.mp booted
  obtain ⟨_, -, booted⟩ := except_bind_ok_iff.mp booted
  have kept := Topic.publish_ok_iff.mp ⟨t, booted⟩
  rw [Topic.publish_same booted]
  exact kept

theorem setup_publishable {config : List (String × StructType × Option Json × List Bool)} {s : Server}
    (booted : setup config = .ok s) : ∀ t ∈ s, Publishable t := by
  induction config generalizing s with
  | nil =>
      cases booted
      simp
  | cons topic rest ih =>
      obtain ⟨name, T, file, outcomes⟩ := topic
      obtain ⟨t, first, booted⟩ := except_bind_ok_iff.mp booted
      obtain ⟨others, later, booted⟩ := except_bind_ok_iff.mp booted
      cases booted
      exact List.forall_mem_cons.mpr ⟨bootTopic_publishable first, ih later⟩

/-- A tick of the server is a tick of each of its topics. -/
theorem step_ok_iff {s s' : Server} {files : String → List (Option Json)} :
    step s files = .ok s' ↔ List.Forall₂ (fun t t' => t.onTick (files t.name) = .ok t') s s' := by
  unfold step
  induction s generalizing s' with
  | nil =>
      rw [List.forall₂_nil_left_iff]
      simp [onTick, eq_comm]
  | cons t rest ih =>
      rw [List.forall₂_cons_left_iff]
      constructor
      · intro ran
        obtain ⟨t', first, ran⟩ := except_bind_ok_iff.mp ran
        obtain ⟨others, later, ran⟩ := except_bind_ok_iff.mp ran
        cases ran
        exact ⟨t', others, first, ih.mp later, rfl⟩
      · rintro ⟨t', others, first, later, rfl⟩
        exact except_bind_ok_iff.mpr ⟨t', first, except_bind_ok_iff.mpr ⟨others, ih.mpr later, rfl⟩⟩

theorem step_publishable {s s' : Server} {files : String → List (Option Json)}
    (all : ∀ t ∈ s, Publishable t) (ran : step s files = .ok s') : ∀ t ∈ s', Publishable t := by
  have each := step_ok_iff.mp ran
  clear ran
  induction each with
  | nil => exact all
  | @cons t t' rest rest' first _ ih =>
      refine List.forall_mem_cons.mpr ⟨?_, ih fun t mem => all t (List.mem_cons_of_mem _ mem)⟩
      exact (Topic.onTick_ticked first).2.publishable (all t List.mem_cons_self)

/-- **Every topic of a running server can be published.** -/
theorem reachable_publishable {s : Server} (reach : Reachable step Booted s) : ∀ t ∈ s, Publishable t :=
  reach.invariant (fun _ booted => setup_publishable booted.choose_spec)
    fun _ _ _ all ran => step_publishable all ran

/-- The requests of a batch are each applied or parked, and not both, each as if it
were alone. -/
structure Handled (files : String → List (Option Json)) (t t' : Topic) : Prop where
  each : ∀ req ∈ Topic.requests (files t.name),
    ((t.acceptance req).isSome = true ∧ (t.rejection req).isNone = true) ∨
      ((t.acceptance req).isNone = true ∧ (t.rejection req).isSome = true)
  applied : t'.params =
    Topic.applied t.params ((Topic.requests (files t.name)).filterMap t.acceptance)
  parked : t'.quarantined =
    t.quarantined ++ (Topic.requests (files t.name)).filterMap t.rejection

theorem handled_of_onTick {files : String → List (Option Json)} {t t' : Topic}
    (ran : t.onTick (files t.name) = .ok t') : Handled files t t' := by
  obtain ⟨digested, ticked⟩ := Topic.onTick_ticked ran
  refine ⟨?_, ticked.params, ticked.quarantined⟩
  intro req mem
  obtain ⟨file, there, same⟩ := List.mem_filterMap.mp mem
  rw [id] at same
  obtain ⟨ruling, judged⟩ := judge_ok_iff.mpr (digested req (same ▸ there)).2
  cases ruling with
  | reject reason => exact .inr (by simp [Topic.acceptance, Topic.rejection, judged])
  | accept key val => exact .inl (by simp [Topic.acceptance, Topic.rejection, judged])

namespace Demo

/-- `GlobalConfig`: the header and one parameter. -/
def globalConfig : StructType where
  fields := OrderedDict.ofList [("timestamp", .double), ("frame_id", .uint 64), ("speed", .double)]
  otherName := fun _ _ => .ok ()

/-- `{"speed": {"value": 1.0, "min": 0.0, "max": 10.0}}`. -/
def speedFile : Json :=
  .obj [("speed", .obj [("value", .float (.fin 1)), ("min", .float (.fin 0)), ("max", .float (.fin 10))])]

def config : List (String × StructType × Option Json × List Bool) :=
  [("param/live", globalConfig, some speedFile, [])]

def server : Server := (setup config).toOption.getD []

theorem booted : setup config = .ok server := rfl

theorem running : Reachable step Booted server := ⟨server, [], ⟨config, booted⟩, rfl⟩

/-- A request for the speed. -/
def setSpeed (val : Json) (persist : Bool) : Json :=
  .obj [("key", .str "speed"), ("value", val), ("persist", .bool persist)]

/-- A valid set, one out of range, one of the wrong type, an unknown key, a file that is
no JSON. -/
def oddBatch : List (Option Json) :=
  [some (setSpeed (.float (.fin 2)) false), some (setSpeed (.float (.fin 99)) false),
    some (setSpeed (.str "fast") false), some (.obj [("key", .str "nope")]), none]

end Demo

end KoyuRuntime.Services.ParamServer
