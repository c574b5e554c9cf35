/-
# Services.ParamServer.RangeSafety — what every live parameter keeps

A request is accepted only if the struct takes its value and the bounds of its entry
hold it (`judge_accept_between`), and nothing else writes a document.  So in every state
a run reaches each parameter fits its field, lies in its declared range and has the value
last accepted for it, the members beside the values are those of the boot file, and the
struct can be published (`safe_run`).

A tick publishes if it accepted a request, unless a later request of the same drain
raises: the accepted one is then in no frame (`publishLaw_iff`).  `range_safety_iff` puts
the two together for whole runs.
-/
import KoyuRuntime.Services.ParamServer.Persistence
import KoyuRuntime.Services.ParamServer.Publishing

namespace KoyuRuntime.Services.ParamServer

open Host Theory

set_option autoImplicit false

/-! ## Values in their range -/

/-- One member of a parameter's entry. -/
def member (document : Json) (key m : String) : Option Json :=
  match document with
  | .obj entries =>
      match JsonObj.get? entries key with
      | some (.obj entry) => JsonObj.get? entry m
      | _ => none
  | _ => none

/-- A JSON number. -/
def isNumber : Json → Bool
  | .int _ => true
  | .float _ => true
  | _ => false

/-- The value of a parameter fits its field. -/
def Fitting (T : StructType) (params : Json) (key : String) : Prop :=
  ∃ val, stored params key = some val ∧ Takes T key val

/-- Where a parameter declares numeric bounds, its value lies between them. -/
def InRange (params : Json) (key : String) : Prop :=
  ∀ low high, member params key "min" = some low → member params key "max" = some high →
    isNumber low = true → isNumber high = true →
      ∃ val, stored params key = some val ∧ low.le val = .ok true ∧ val.le high = .ok true

section Document

variable {T : StructType} {params params' req : Json} {key : String} {val : Json}

/-- Documents that differ in values agree in every other member. -/
theorem member_alike (alike : DocAlike params params') (key : String) {m : String} (other : m ≠ "value") :
    member params' key m = member params key m := by
  cases alike with
  | same => rfl
  | entries entries entries' each =>
      have one := each key
      unfold member
      dsimp only
      generalize JsonObj.get? entries key = found, JsonObj.get? entries' key = found' at one
      cases one with
      | same => rfl
      | valued entry entry' bounds => exact (bounds m other).symm

/-- A value that is outside of no bounds lies between them. -/
theorem outside_none {bounds : JsonObj} (inside : outside (.obj bounds) val = .ok none) {low high : Json}
    (least : JsonObj.get? bounds "min" = some low) (most : JsonObj.get? bounds "max" = some high) :
    low.le val = .ok true ∧ val.le high = .ok true := by
  simp only [outside, Json.contains, Json.item, least, most, Option.isSome_some, bind, Except.bind, pure,
    Except.pure, if_true] at inside
  cases above : low.le val with
  | error e => simp [above] at inside
  | ok up =>
      cases up with
      | false => simp [above] at inside
      | true =>
          cases below : val.le high with
          | error e => simp [above, below] at inside
          | ok down =>
              cases down with
              | false => simp [above, below] at inside
              | true => exact ⟨rfl, rfl⟩

/-- **An accepted value lies between the bounds of its entry**, of whatever type they are. -/
theorem judge_accept_between (accepted : judge T params req = .ok (.accept key val)) {low high : Json}
    (least : member params key "min" = some low) (most : member params key "max" = some high) :
    low.le val = .ok true ∧ val.le high = .ok true := by
  obtain ⟨-, entries, bounds, rfl, found, inside⟩ := judge_accept_entry accepted
  simp only [member, found] at least most
  exact outside_none inside least most

end Document

/-! ## Along a run -/

theorem lastOf_some {key : String} {accepted : List Accepted} {val : Json}
    (last : lastOf key accepted = some val) : ∃ a ∈ accepted, a.key = key ∧ a.val = val := by
  unfold lastOf at last
  obtain ⟨a, found, rfl⟩ := Option.map_eq_some_iff.mp last
  obtain ⟨mem, same⟩ := List.mem_filter.mp (List.mem_of_getLast? found)
  exact ⟨a, mem, by simpa using same, rfl⟩

/-- What holds of a topic after these ticks since `t₀`. -/
structure Safe (t₀ : Topic) (ticks : List (List (Option Json))) (t : Topic) : Prop where
  fits : ∀ f ∈ paramFields t.T, Fitting t.T t.params f
  ranged : ∀ f ∈ paramFields t.T, InRange t.params f
  metadata : ∀ key m, m ≠ "value" → member t.params key m = member t₀.params key m
  live : ∀ key, stored t.params key = t₀.latest ticks key
  publishes : ∃ published, t.publish = .ok published

namespace Topic

variable {t₀ t t' : Topic} {ticks : List (List (Option Json))} {files : List (Option Json)}

/-- Every request in a history has been accepted by the document `t₀` has. -/
theorem history_judged {a : Accepted} (mem : a ∈ t₀.history ticks) :
    ∃ req, judge t₀.T t₀.params req = .ok (.accept a.key a.val) := by
  obtain ⟨files, -, there⟩ := List.mem_flatMap.mp mem
  obtain ⟨req, -, passed⟩ := List.mem_filterMap.mp there
  exact ⟨req, (acceptance_some passed).1⟩

theorem run_publishable (publishable : Publishable t₀) (run : runs Topic.onTick t₀ ticks = .ok t) :
    Publishable t :=
  runs_invariant (fun _ _ _ kept ran => (onTick_ticked ran).2.publishable kept) run publishable

/-- **Safety along a run**: a parameter's value is the boot file's or an accepted one, and
both fit and lie in the range that no tick changes. -/
theorem safe_run (publishable : Publishable t₀) (fit : ∀ f ∈ paramFields t₀.T, Fitting t₀.T t₀.params f)
    (ranged : ∀ f ∈ paramFields t₀.T, InRange t₀.params f)
    (run : runs Topic.onTick t₀ ticks = .ok t) : Safe t₀ ticks t := by
  have follows := follows_run run
  have metadata : ∀ key m, m ≠ "value" → member t.params key m = member t₀.params key m :=
    fun key _ other => member_alike follows.alike key other
  refine ⟨?_, ?_, metadata, follows.live, publish_ok_iff.mpr (run_publishable publishable run)⟩
  · intro f field
    rw [follows.struct] at field ⊢
    unfold Fitting
    rw [follows.live, latest]
    cases last : lastOf f (t₀.history ticks) with
    | none => exact fit f field
    | some val =>
        obtain ⟨a, mem, rfl, rfl⟩ := lastOf_some last
        obtain ⟨req, judged⟩ := history_judged mem
        exact ⟨a.val, rfl, (judge_accept judged).1⟩
  · intro f field low high least most lowNumber highNumber
    rw [follows.struct] at field
    rw [metadata f "min" (by decide)] at least
    rw [metadata f "max" (by decide)] at most
    rw [follows.live, latest]
    cases last : lastOf f (t₀.history ticks) with
    | none => exact ranged f field low high least most lowNumber highNumber
    | some val =>
        obtain ⟨a, mem, rfl, rfl⟩ := lastOf_some last
        obtain ⟨req, judged⟩ := history_judged mem
        exact ⟨a.val, rfl, judge_accept_between judged least most⟩

/-! ## What a tick publishes -/

/-- Does the loop of one drain accept a request?  A request that raises ends the loop. -/
def acceptsSome (t : Topic) : List Json → Bool
  | [] => false
  | req :: rest =>
      match t.apply req with
      | .ok (true, _) => true
      | .ok (false, t) => t.acceptsSome rest
      | .error _ => false

/-- Does a tick accept a request?  A drain that raises hands out none. -/
def tickAccepts (t : Topic) (files : List (Option Json)) : Bool :=
  match drain files with
  | .ok reqs => t.acceptsSome reqs
  | .error _ => false

/-- The tick writes the struct of its document under the next frame id. -/
def WritesNext (t : Topic) (files : List (Option Json)) : Prop :=
  ∃ t' values, t.onTick files = .ok t' ∧ structValues t'.T t'.params (paramFields t'.T) = .ok values ∧
    t'.frame = t.frame + 1 ∧ t'.writer = (t.writer.write (some ⟨t.frame + 1, values⟩)).2

/-- A tick publishes exactly when it accepts at least one request. -/
def PublishLaw (t : Topic) (files : List (Option Json)) : Prop :=
  if t.tickAccepts files then t.WritesNext files
  else ∀ t', t.onTick files = .ok t' → t'.frame = t.frame ∧ t'.writer = t.writer

/-- Where every file of the inbox loads, no accepted request stands before the first one
that is not decided. -/
def Undeterred (t : Topic) (files : List (Option Json)) : Prop :=
  (∀ document, some document ∈ files → document.withinDigits = true) →
    ∀ before req after, requests files = before ++ req :: after →
      (∀ r ∈ before, Judgeable t.T t.params r) → ¬ Judgeable t.T t.params req →
        ∀ r ∈ before, t.acceptance r = none

/-- The loop accepts a request if it is among the decided ones the batch begins with. -/
theorem acceptsSome_iff {before rest : List Json} (decided : ∀ r ∈ before, Judgeable t.T t.params r)
    (halts : ∀ req after, rest = req :: after → ¬ Judgeable t.T t.params req) :
    t.acceptsSome (before ++ rest) = true ↔ ∃ r ∈ before, t.acceptance r ≠ none := by
  induction before generalizing t with
  | nil =>
      cases rest with
      | nil => simp [acceptsSome]
      | cons req after =>
          have raises : ∃ e, judge t.T t.params req = .error e := by
            cases judged : judge t.T t.params req with
            | error e => exact ⟨e, rfl⟩
            | ok ruling => exact absurd (judge_ok_iff.mp ⟨ruling, judged⟩) (halts req after rfl)
          obtain ⟨e, raised⟩ := raises
          simp [acceptsSome, apply, raised]
  | cons req before ih =>
      obtain ⟨ruling, judged⟩ := judge_ok_iff.mpr (decided req List.mem_cons_self)
      cases ruling with
      | accept key val =>
          have took : t.acceptance req ≠ none := by simp [acceptance, judged]
          refine iff_of_true ?_ ⟨req, List.mem_cons_self, took⟩
          simp [acceptsSome, apply, judged]
      | reject reason =>
          have passed : t.acceptance req = none := by simp [acceptance, judged]
          have parked := ih (t := { t with quarantined := t.quarantined ++ [(req, reason)] })
            (fun r mem => decided r (List.mem_cons_of_mem req mem)) halts
          have same : t.acceptsSome (req :: before ++ rest) =
              acceptsSome { t with quarantined := t.quarantined ++ [(req, reason)] } (before ++ rest) := by
            simp [acceptsSome, apply, judged]
          rw [same, parked]
          simp only [List.mem_cons, exists_eq_or_imp, passed, ne_eq, not_true, false_or]
          exact Iff.rfl

/-- A batch begins with decided requests, and the next one, if there is any, is not decided. -/
theorem exists_decided (t : Topic) (reqs : List Json) :
    ∃ before rest, reqs = before ++ rest ∧ (∀ r ∈ before, Judgeable t.T t.params r) ∧
      ∀ req after, rest = req :: after → ¬ Judgeable t.T t.params req := by
  induction reqs with
  | nil => exact ⟨[], [], rfl, by simp, by simp⟩
  | cons req reqs ih =>
      by_cases decided : Judgeable t.T t.params req
      · obtain ⟨before, rest, rfl, all, halts⟩ := ih
        exact ⟨req :: before, rest, rfl, List.forall_mem_cons.mpr ⟨decided, all⟩, halts⟩
      · refine ⟨[], req :: reqs, rfl, by simp, ?_⟩
        rintro _ _ ⟨⟩
        exact decided

/-- What `_publish` writes. -/
theorem publish_writes (ran : t.publish = .ok t') :
    ∃ values, structValues t'.T t'.params (paramFields t'.T) = .ok values ∧ t'.frame = t.frame + 1 ∧
      t'.writer = (t.writer.write (some ⟨t.frame + 1, values⟩)).2 := by
  obtain ⟨values, filled, ran⟩ := except_bind_ok_iff.mp ran
  cases ran
  exact ⟨values, filled, rfl, rfl⟩

/-- A tick that returns obeys the law. -/
theorem publishLaw_of_onTick (ran : t.onTick files = .ok t') : t.PublishLaw files := by
  have digested := (onTick_cases ran).1
  have drained := drain_ok_iff.mpr ⟨fun document mem => (digested document mem).1, rfl⟩
  have decided : ∀ r ∈ requests files, Judgeable t.T t.params r := by
    intro r mem
    obtain ⟨file, there, same⟩ := List.mem_filterMap.mp mem
    rw [id] at same
    exact (digested r (same ▸ there)).2
  have accepts : t.tickAccepts files = true ↔ t.Publishes files := by
    have halts : ∀ req after, [] = req :: after → ¬ Judgeable t.T t.params req := by simp
    have loop := acceptsSome_iff decided halts
    rw [List.append_nil] at loop
    unfold Publishes tickAccepts
    rw [drained, ne_eq, List.filterMap_eq_nil_iff]
    push Not
    exact loop
  unfold PublishLaw
  by_cases publishes : t.Publishes files
  · rw [if_pos (accepts.mpr publishes)]
    obtain ⟨published, shown, writer, frame, T, params⟩ := onTick_publishes ran publishes
    obtain ⟨values, filled, next, written⟩ := publish_writes shown
    refine ⟨t', values, ran, ?_, frame.trans next, writer.trans written⟩
    rw [T, params]
    exact filled
  · rw [if_neg fun took => publishes (accepts.mp took)]
    intro u again
    cases ran.symm.trans again
    obtain ⟨writer, frame, -, -⟩ := onTick_quiet ran publishes
    exact ⟨frame, writer⟩

/-- The first undecided request is one place of the batch. -/
theorem decided_unique {T : StructType} {params req req' : Json} {before before' after after' : List Json}
    (decided : ∀ r ∈ before, Judgeable T params r) (undecided : ¬ Judgeable T params req)
    (decided' : ∀ r ∈ before', Judgeable T params r) (undecided' : ¬ Judgeable T params req')
    (same : before ++ req :: after = before' ++ req' :: after') : before' = before := by
  rcases List.append_eq_append_iff.mp same with ⟨more, rfl, rest_⟩ | ⟨more, rfl, rest_⟩
  · cases more with
    | nil => simp
    | cons r more =>
        cases rest_
        exact absurd (decided' req (by simp)) undecided
  · cases more with
    | nil => simp
    | cons r more =>
        cases rest_
        exact absurd (decided req' (by simp)) undecided'

/-- A tick that raises breaks the law if it accepts a request first. -/
theorem publishLaw_of_raises (raises : ∀ t', t.onTick files ≠ .ok t') :
    t.PublishLaw files ↔ ¬ t.tickAccepts files = true := by
  unfold PublishLaw
  by_cases took : t.tickAccepts files = true
  · rw [if_pos took]
    refine iff_of_false ?_ (not_not_intro took)
    rintro ⟨t', -, ran, -⟩
    exact raises t' ran
  · rw [if_neg took]
    exact iff_of_true (fun t' ran => absurd ran (raises t')) took

/-- A file that does not load ends the drain before anything is accepted. -/
theorem publishLaw_of_unloaded (unloaded : ¬ ∀ document, some document ∈ files → document.withinDigits = true) :
    t.PublishLaw files := by
  have raised : ∃ e, drain files = .error e := by
    cases drained : drain files with
    | error e => exact ⟨e, rfl⟩
    | ok reqs => exact absurd (drain_ok_iff.mp drained).1 unloaded
  obtain ⟨e, raised⟩ := raised
  have raises : ∀ t', t.onTick files ≠ .ok t' := by
    intro t' ran
    simp [onTick, raised, bind, Except.bind] at ran
  rw [publishLaw_of_raises raises]
  simp [tickAccepts, raised]

/-- **The publish law of one tick**: it fails exactly where a request raises behind an
accepted one. -/
theorem publishLaw_iff (publishable : Publishable t) : t.PublishLaw files ↔ t.Undeterred files := by
  by_cases loads : ∀ document, some document ∈ files → document.withinDigits = true
  swap
  · exact iff_of_true (publishLaw_of_unloaded loads) (fun all => absurd all loads)
  obtain ⟨before, rest, split, decided, halts⟩ := exists_decided t (requests files)
  cases rest with
  | nil =>
      -- every request is decided
      rw [List.append_nil] at split
      have all : ∀ r ∈ requests files, Judgeable t.T t.params r := split ▸ decided
      have digestible : ∀ document, some document ∈ files → Digestible t document := fun document mem =>
        ⟨loads document mem, all document (List.mem_filterMap.mpr ⟨some document, mem, rfl⟩)⟩
      obtain ⟨t', ran⟩ := onTick_of_digestible publishable digestible
      refine iff_of_true (publishLaw_of_onTick ran) ?_
      intro _ earlier req after parts _ undecided
      exact absurd (all req (by simp [parts])) undecided
  | cons req after =>
      have undecided := halts req after rfl
      have drained := drain_ok_iff.mpr ⟨loads, rfl⟩
      have accepts : t.tickAccepts files = true ↔ ∃ r ∈ before, t.acceptance r ≠ none := by
        rw [tickAccepts, drained]
        show t.acceptsSome (requests files) = true ↔ _
        rw [split]
        exact acceptsSome_iff decided halts
      have raises : ∀ t', t.onTick files ≠ .ok t' := by
        intro t' ran
        obtain ⟨file, there, same⟩ := List.mem_filterMap.mp
          (show req ∈ requests files by simp [split])
        rw [id] at same
        exact undecided ((onTick_cases ran).1 req (same ▸ there)).2
      rw [publishLaw_of_raises raises, accepts]
      push Not
      constructor
      · intro quiet _ before' req' after' parts decided' undecided'
        exact decided_unique decided undecided decided' undecided' (split.symm.trans parts) ▸ quiet
      · intro undeterred
        exact undeterred loads before req after split decided undecided

/-- A run changes neither what is decided nor what is accepted. -/
theorem Follows.undeterred (follows : Follows t₀ ticks t) :
    t.Undeterred files ↔ t₀.Undeterred files := by
  have judgeable : ∀ req, Judgeable t.T t.params req ↔ Judgeable t₀.T t₀.params req := by
    intro req
    rw [← judge_ok_iff, ← judge_ok_iff, follows.struct, judge_alike follows.alike]
  simp only [Undeterred, judgeable, follows.rulings]

end Topic

/-- Range safety over a sequence of ticks: every state reached is safe, and every tick
taken publishes exactly when it accepts a request. -/
def RangeSafety (t₀ : Topic) (batches : List (List (Option Json))) : Prop :=
  (∀ ticks t, ticks <+: batches → runs Topic.onTick t₀ ticks = .ok t → Safe t₀ ticks t) ∧
    Along Topic.onTick Topic.PublishLaw t₀ batches

section Boot

variable {T : StructType} {file : Option Json} {params : Json}

theorem hasValues_of_stored {fs : List String} (values : ∀ f ∈ fs, ∃ val, stored params f = some val) :
    hasValues params fs = .ok () := by
  induction fs with
  | nil => rfl
  | cons f rest ih =>
      obtain ⟨⟨val, there⟩, others⟩ := List.forall_mem_cons.mp values
      unfold stored at there
      split at there
      · rename_i entries
        split at there
        · rename_i entry found
          simp [hasValues, Json.get, found, there, bind, Except.bind, ih others]
        · cases there
      · cases there

theorem valueOf_of_stored {f : String} {val : Json} (there : stored params f = some val) :
    Topic.valueOf params f = .ok val := by
  unfold stored at there
  split at there
  · rename_i entries
    split at there
    · rename_i entry found
      simp [Topic.valueOf, Json.item, found, there, bind, Except.bind]
    · cases there
  · cases there

/-- A file whose every value fits its field boots. -/
theorem bootTopic_of_fitting (name : String) (outcomes : List Bool) (read : loadFile file = .ok params)
    (fit : ∀ f ∈ paramFields T, Fitting T params f) :
    ∃ t₀, bootTopic name T file outcomes = .ok t₀ ∧ t₀.T = T ∧ t₀.params = params := by
  have values := hasValues_of_stored fun f field => (fit f field).imp fun _ both => both.1
  have publishable : Publishable
      { name := name, T := T, params := params, file := file, frame := 0, writer := ⟨none, outcomes⟩,
        quarantined := [] } := by
    intro f field
    obtain ⟨val, there, takes⟩ := fit f field
    exact ⟨val, valueOf_of_stored there, takes.2⟩
  obtain ⟨t₀, published⟩ := Topic.publish_ok_iff.mpr publishable
  refine ⟨t₀, except_bind_ok_iff.mpr ⟨params, read, except_bind_ok_iff.mpr ⟨(), values, published⟩⟩, ?_, ?_⟩
  · rw [Topic.publish_same published]
  · rw [Topic.publish_same published]

/-- **Range safety of live parameters**: a file whose values fit their fields and lie in
their ranges boots, and over every sequence of ticks from there each parameter stays in
its range and each tick publishes exactly when it accepts a request, if and only if in no
tick a request raises behind an accepted one. -/
theorem range_safety_iff (name : String) (outcomes : List Bool) (read : loadFile file = .ok params)
    (fit : ∀ f ∈ paramFields T, Fitting T params f) (ranged : ∀ f ∈ paramFields T, InRange params f) :
    ∃ t₀, bootTopic name T file outcomes = .ok t₀ ∧ t₀.T = T ∧ t₀.params = params ∧
      ∀ batches, RangeSafety t₀ batches ↔
        Along Topic.onTick (fun _ files => t₀.Undeterred files) t₀ batches := by
  obtain ⟨t₀, booted, struct, doc⟩ := bootTopic_of_fitting name outcomes read fit
  refine ⟨t₀, booted, struct, doc, ?_⟩
  intro batches
  have publishable := bootTopic_publishable booted
  rw [← struct, ← doc] at fit ranged
  have safe : ∀ ticks t, ticks <+: batches → runs Topic.onTick t₀ ticks = .ok t → Safe t₀ ticks t :=
    fun ticks t _ run => Topic.safe_run publishable fit ranged run
  have same : ∀ t, Reachable Topic.onTick (fun t => t = t₀) t → ∀ files,
      t.PublishLaw files ↔ t₀.Undeterred files := by
    rintro t ⟨_, ticks, rfl, run⟩ files
    rw [Topic.publishLaw_iff (Topic.run_publishable publishable run), (Topic.follows_run run).undeterred]
  rw [RangeSafety, and_iff_right safe]
  exact along_iff same (.start rfl) batches

end Boot

namespace Demo

/-- The entry of `speedFile`. -/
def speedEntry : JsonObj :=
  [("value", .float (.fin 1)), ("min", .float (.fin 0)), ("max", .float (.fin 10))]

/-- `speed` beside an entry that is no parameter of the struct any more. -/
def leftoverFile : Json := .obj [("speed", .obj speedEntry), ("gain", .obj speedEntry)]

/-- A valid set, and a text for an entry with numeric bounds. -/
def strayBatch : List (Option Json) :=
  [some (setSpeed (.float (.fin 2)) false), some (.obj [("key", .str "gain"), ("value", .str "fast")])]

section File

variable {rest : JsonObj}

theorem file_fits : ∀ f ∈ paramFields globalConfig,
    Fitting globalConfig (.obj (("speed", .obj speedEntry) :: rest)) f := by
  intro f field
  obtain rfl := List.mem_singleton.mp (show f ∈ ["speed"] from field)
  exact ⟨.float (.fin 1), rfl, by simp, rfl⟩

theorem file_inRange : ∀ f ∈ paramFields globalConfig,
    InRange (.obj (("speed", .obj speedEntry) :: rest)) f := by
  intro f field low high least most _ _
  obtain rfl := List.mem_singleton.mp (show f ∈ ["speed"] from field)
  cases (show some (Json.float (.fin 0)) = some low from least)
  cases (show some (Json.float (.fin 10)) = some high from most)
  exact ⟨.float (.fin 1), rfl, by decide, by decide⟩

end File

end Demo

theorem range_safety_iff_oddBatch :
    ∃ t₀, bootTopic "param/live" Demo.globalConfig (some Demo.speedFile) [] = .ok t₀ ∧
      RangeSafety t₀ [Demo.oddBatch] := by
  obtain ⟨t₀, booted, struct, doc, safety⟩ := range_safety_iff "param/live" []
    (show loadFile (some Demo.speedFile) = .ok Demo.speedFile from rfl) Demo.file_fits
    Demo.file_inRange
  refine ⟨t₀, booted, (safety [Demo.oddBatch]).mpr ⟨?_, fun _ _ => trivial⟩⟩
  intro _ before req after parts _ undecided
  obtain ⟨file, mem, rfl⟩ := List.mem_filterMap.mp
    (show req ∈ Topic.requests Demo.oddBatch by simp [parts])
  rw [struct, doc] at undecided
  simp only [Demo.oddBatch, List.mem_cons, Option.some.injEq, reduceCtorEq, List.not_mem_nil, or_false]
    at mem
  rcases mem with rfl | rfl | rfl | rfl
  · exact absurd (judge_ok_iff.mp ⟨_, rfl⟩) undecided
  · exact absurd (judge_ok_iff.mp ⟨_, rfl⟩) undecided
  · exact absurd (judge_ok_iff.mp ⟨_, rfl⟩) undecided
  · exact absurd (judge_ok_iff.mp ⟨_, rfl⟩) undecided

/-- A text set for an entry with numeric bounds takes the server down, and the set
accepted before it is in no frame. -/
theorem accepted_set_unpublished :
    ∃ t₀, bootTopic "param/live" Demo.globalConfig (some Demo.leftoverFile) [] = .ok t₀ ∧
      (∀ f ∈ paramFields Demo.globalConfig, Fitting Demo.globalConfig Demo.leftoverFile f) ∧
      (∀ f ∈ paramFields Demo.globalConfig, InRange Demo.leftoverFile f) ∧
      ¬ RangeSafety t₀ [Demo.strayBatch] := by
  have booted : bootTopic "param/live" Demo.globalConfig (some Demo.leftoverFile) [] = .ok
      ⟨"param/live", Demo.globalConfig, Demo.leftoverFile, some Demo.leftoverFile, 1,
        ⟨some ⟨1, [("speed", .float (.fin 1))]⟩, []⟩, []⟩ := rfl
  refine ⟨_, booted, Demo.file_fits, Demo.file_inRange, ?_⟩
  intro safety
  have law := safety.2.1
  unfold Topic.PublishLaw at law
  rw [if_pos (by rfl)] at law
  obtain ⟨t', values, ran, -⟩ := law
  have raised : Topic.onTick
      ⟨"param/live", Demo.globalConfig, Demo.leftoverFile, some Demo.leftoverFile, 1,
        ⟨some ⟨1, [("speed", .float (.fin 1))]⟩, []⟩, []⟩ Demo.strayBatch = .error .typeError := rfl
  rw [raised] at ran
  cases ran

end KoyuRuntime.Services.ParamServer
