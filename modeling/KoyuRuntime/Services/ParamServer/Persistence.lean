/-
# Services.ParamServer.Persistence — what reaches the disk

A tick that accepts a persisting request saves the whole live document, so the file then
holds the last accepted value of every parameter, persisted or not (`stored_save`).  The
persist law, by which each parameter's stored value is that of the last accepted request
for it that carried persist, holds along a run exactly if at every save the two agree
(`persist_law_iff`).
-/
import KoyuRuntime.Services.ParamServer.Totality

namespace KoyuRuntime.Services.ParamServer

open Host Theory

set_option autoImplicit false

/-! ## Values of a document -/

/-- The value a document gives a parameter. -/
def stored (document : Json) (key : String) : Option Json :=
  match document with
  | .obj entries =>
      match JsonObj.get? entries key with
      | some (.obj entry) => JsonObj.get? entry "value"
      | _ => none
  | _ => none

/-- The value of the last of these requests for a parameter. -/
def lastOf (key : String) (accepted : List Accepted) : Option Json :=
  ((accepted.filter fun a => a.key = key).getLast?).map Accepted.val

section Values

variable {key : String} {params : Json}

theorem lastOf_append (earlier later : List Accepted) :
    lastOf key (earlier ++ later) = (lastOf key later).or (lastOf key earlier) := by
  unfold lastOf
  rw [List.filter_append, List.getLast?_append]
  cases (later.filter fun a => decide (a.key = key)).getLast? with
  | none => simp
  | some a => simp

theorem stored_setValue {entries bounds : JsonObj} {k : String} {val : Json}
    (found : JsonObj.get? entries k = some (.obj bounds)) :
    stored (setValue k val (.obj entries)) key =
      if k = key then some val else stored (.obj entries) key := by
  rw [setValue_obj val found]
  simp only [stored, JsonObj.get?_put]
  by_cases here : k = key
  · simp only [here, if_true, JsonObj.get?_put]
  · simp only [here, if_false]

/-- **Applied requests**: the last one for a parameter gives its value. -/
theorem stored_applied {accepted : List Accepted}
    (each : ∀ a ∈ accepted, ∃ T req, judge T params req = .ok (.accept a.key a.val)) :
    stored (Topic.applied params accepted) key = (lastOf key accepted).or (stored params key) := by
  induction accepted generalizing params with
  | nil => rfl
  | cons a rest ih =>
      obtain ⟨T, req, judged⟩ := each a List.mem_cons_self
      obtain ⟨-, entries, bounds, rfl, found⟩ := judge_accept judged
      have each' : ∀ a' ∈ rest, ∃ T req,
          judge T (setValue a.key a.val (.obj entries)) req = .ok (.accept a'.key a'.val) := by
        intro a' mem
        obtain ⟨T', req', judged'⟩ := each a' (List.mem_cons_of_mem a mem)
        exact ⟨T', req', (judge_setValue a.key a.val).trans judged'⟩
      have later := ih each'
      have split : lastOf key (a :: rest) = (lastOf key rest).or (lastOf key [a]) :=
        lastOf_append [a] rest
      show stored (Topic.applied (setValue a.key a.val (.obj entries)) rest) key = _
      rw [later, stored_setValue found, split, Option.or_assoc]
      congr 1
      by_cases here : a.key = key
      · simp [lastOf, here]
      · simp [lastOf, here]

end Values

/-! ## Histories -/

namespace Topic

/-- The accepted requests of one tick, in order. -/
def acceptedOf (t : Topic) (files : List (Option Json)) : List Accepted :=
  (requests files).filterMap t.acceptance

/-- The accepted requests of the ticks since `t`, in order. -/
def history (t : Topic) (batches : List (List (Option Json))) : List Accepted :=
  batches.flatMap t.acceptedOf

/-- The last accepted value of a parameter, or the one it had. -/
def latest (t : Topic) (batches : List (List (Option Json))) (key : String) : Option Json :=
  (lastOf key (t.history batches)).or (stored t.params key)

/-- The value of the last accepted request for a parameter that carried persist, or the
one it had. -/
def durable (t : Topic) (batches : List (List (Option Json))) (key : String) : Option Json :=
  (lastOf key ((t.history batches).filter Accepted.persist)).or (stored t.params key)

/-- What the file gives a parameter; a missing file gives none a value. -/
def onDisk (t : Topic) (key : String) : Option Json := stored (t.file.getD (.obj [])) key

/-- The persist law after these ticks: the file holds what was persisted. -/
def PersistLaw (t₀ : Topic) (batches : List (List (Option Json))) (t : Topic) : Prop :=
  ∀ key, t.onDisk key = t₀.durable batches key

/-- If the last of these ticks accepts a persisting request, then every parameter's last
accepted value is its last persisted one. -/
def SaveSettled (t₀ : Topic) (batches : List (List (Option Json))) (files : List (Option Json)) : Prop :=
  (t₀.acceptedOf files).any Accepted.persist = true →
    ∀ key, t₀.latest (batches ++ [files]) key = t₀.durable (batches ++ [files]) key

section Run

variable {t₀ t t' : Topic} {batches : List (List (Option Json))} {files : List (Option Json)}

theorem history_snoc : t₀.history (batches ++ [files]) = t₀.history batches ++ t₀.acceptedOf files := by
  simp [history]

/-- What a run from `t₀` has made of the document. -/
structure Follows (t₀ : Topic) (batches : List (List (Option Json))) (t : Topic) : Prop where
  struct : t.T = t₀.T
  alike : DocAlike t₀.params t.params
  live : ∀ key, stored t.params key = t₀.latest batches key

theorem Follows.rulings (follows : Follows t₀ batches t) : t.acceptance = t₀.acceptance :=
  (rulings_alike t₀ t follows.struct follows.alike).2

/-- **One tick** applies what it accepts. -/
theorem Follows.tick (follows : Follows t₀ batches t) (ran : t.onTick files = .ok t') :
    Follows t₀ (batches ++ [files]) t' := by
  have ticked := (onTick_ticked ran).2
  have params : t'.params = applied t.params (t₀.acceptedOf files) := by
    rw [ticked.params, follows.rulings]
    rfl
  refine ⟨ticked.struct.trans follows.struct, ?_, ?_⟩
  · rw [params]
    exact follows.alike.trans (applied_alike _ _)
  · intro key
    rw [params, stored_applied, follows.live, latest, latest, history_snoc, lastOf_append, Option.or_assoc]
    intro a mem
    rw [acceptedOf, ← follows.rulings] at mem
    obtain ⟨req, -, passed⟩ := List.mem_filterMap.mp mem
    exact ⟨t.T, req, (acceptance_some passed).1⟩

theorem follows_run (ran : runs Topic.onTick t₀ batches = .ok t) : Follows t₀ batches t := by
  induction batches using List.reverseRecOn generalizing t with
  | nil =>
      cases ran
      exact ⟨rfl, .same _, fun _ => rfl⟩
  | append_singleton before files ih =>
      obtain ⟨mid, earlier, last⟩ := runs_append_ok.mp ran
      obtain ⟨t', ticked, done⟩ := runs_cons_ok.mp last
      cases done
      exact (ih earlier).tick ticked

/-- A tick that accepts a persisting request saves what it has accepted last. -/
theorem onDisk_saved (before : runs Topic.onTick t₀ batches = .ok t) (ran : t.onTick files = .ok t')
    (persists : (t₀.acceptedOf files).any Accepted.persist = true) (key : String) :
    t'.onDisk key = t₀.latest (batches ++ [files]) key := by
  have follows := follows_run before
  have file := (onTick_ticked ran).2.file
  rw [follows.rulings, show (requests files).filterMap t₀.acceptance = t₀.acceptedOf files from rfl,
    if_pos persists] at file
  rw [onDisk, file, ← (follows.tick ran).live]
  rfl

/-- Any other tick leaves the file and what was persisted. -/
theorem onDisk_kept (before : runs Topic.onTick t₀ batches = .ok t) (ran : t.onTick files = .ok t')
    (silent : (t₀.acceptedOf files).any Accepted.persist = false) (key : String) :
    t'.onDisk key = t.onDisk key ∧ t₀.durable (batches ++ [files]) key = t₀.durable batches key := by
  have follows := follows_run before
  have file := (onTick_ticked ran).2.file
  rw [follows.rulings, show (requests files).filterMap t₀.acceptance = t₀.acceptedOf files from rfl,
    if_neg (by simp [silent])] at file
  refine ⟨by rw [onDisk, onDisk, file], ?_⟩
  have none_ : (t₀.acceptedOf files).filter Accepted.persist = [] := by
    rw [List.filter_eq_nil_iff]
    intro a mem wanted
    rw [List.any_eq_false] at silent
    exact silent a mem wanted
  rw [durable, durable, history_snoc, List.filter_append, none_, List.append_nil]

end Run

end Topic

/-- The booted document is the boot file's, or an empty one. -/
theorem bootTopic_file {name : String} {T : StructType} {file : Option Json} {outcomes : List Bool}
    {t : Topic} (booted : bootTopic name T file outcomes = .ok t) :
    t.file = file ∧ t.params = file.getD (.obj []) := by
  obtain ⟨params, loaded, booted⟩ := except_bind_ok_iff.mp booted
  obtain ⟨_, -, booted⟩ := except_bind_ok_iff.mp booted
  rw [Topic.publish_same booted]
  refine ⟨rfl, ?_⟩
  cases file with
  | none =>
      cases loaded
      rfl
  | some document => exact (Json.loads_ok_iff.mp loaded).2

/-- **The persist law along a run**: for every boot file and every sequence of ticks, the
file holds after each tick what was persisted of each parameter, if and only if every
tick that accepts a persisting request leaves no parameter whose last accepted value
differs from its last persisted one. -/
theorem persist_law_iff {name : String} {T : StructType} {file : Option Json} {outcomes : List Bool}
    {t₀ t : Topic} (booted : bootTopic name T file outcomes = .ok t₀)
    {batches : List (List (Option Json))} (run : runs Topic.onTick t₀ batches = .ok t) :
    (∀ ticks u, ticks <+: batches → runs Topic.onTick t₀ ticks = .ok u → Topic.PersistLaw t₀ ticks u) ↔
      ∀ ticks files, ticks ++ [files] <+: batches → Topic.SaveSettled t₀ ticks files := by
  induction batches using List.reverseRecOn generalizing t with
  | nil =>
      refine iff_of_true ?_ (by simp)
      intro ticks u none_ ran key
      rw [List.prefix_nil] at none_
      subst none_
      cases ran
      obtain ⟨same, params⟩ := bootTopic_file booted
      rw [Topic.onDisk, same, ← params]
      rfl
  | append_singleton before files ih =>
      obtain ⟨mid, earlier, last⟩ := runs_append_ok.mp run
      obtain ⟨t', ticked, done⟩ := runs_cons_ok.mp last
      cases done
      -- the law of the whole list is that of the earlier ticks and of the last one
      have parts : (∀ ticks u, ticks <+: before ++ [files] → runs Topic.onTick t₀ ticks = .ok u →
            Topic.PersistLaw t₀ ticks u) ↔
          (∀ ticks u, ticks <+: before → runs Topic.onTick t₀ ticks = .ok u →
            Topic.PersistLaw t₀ ticks u) ∧ Topic.PersistLaw t₀ (before ++ [files]) t := by
        constructor
        · intro all
          refine ⟨fun ticks u inside => all ticks u (inside.trans (List.prefix_append _ _)), ?_⟩
          exact all _ t (List.prefix_refl _) run
        · rintro ⟨all, here⟩ ticks u inside ran
          rcases List.prefix_concat_iff.mp inside with rfl | inside
          · rw [run] at ran
            cases ran
            exact here
          · exact all ticks u inside ran
      have conditions : (∀ ticks f, ticks ++ [f] <+: before ++ [files] → Topic.SaveSettled t₀ ticks f) ↔
          (∀ ticks f, ticks ++ [f] <+: before → Topic.SaveSettled t₀ ticks f) ∧
            Topic.SaveSettled t₀ before files := by
        constructor
        · intro all
          refine ⟨fun ticks f inside => all ticks f (inside.trans (List.prefix_append _ _)), ?_⟩
          exact all _ _ (List.prefix_refl _)
        · rintro ⟨all, here⟩ ticks f inside
          rcases List.prefix_concat_iff.mp inside with same | inside
          · obtain ⟨rfl, one⟩ := List.append_inj' same rfl
            cases one
            exact here
          · exact all ticks f inside
      rw [parts, conditions, ← ih earlier]
      refine and_congr_right ?_
      intro all
      cases persists : (t₀.acceptedOf files).any Accepted.persist with
      | true =>
          have saved := Topic.onDisk_saved earlier ticked persists
          simp only [Topic.PersistLaw, Topic.SaveSettled, saved, persists, forall_const]
      | false =>
          refine iff_of_true ?_ (fun wanted => by rw [persists] at wanted; cases wanted)
          intro key
          obtain ⟨file, kept⟩ := Topic.onDisk_kept earlier ticked persists key
          rw [file, kept]
          exact all before mid (List.prefix_refl _) earlier key

/-- In a run of the server every topic runs on its own inbox. -/
theorem server_runs_topics {s s' : Server} {batches : List (String → List (Option Json))}
    (run : runs step s batches = .ok s') :
    List.Forall₂ (fun t t' => runs Topic.onTick t (batches.map fun files => files t.name) = .ok t') s s' := by
  induction batches generalizing s with
  | nil =>
      cases run
      exact List.forall₂_same.mpr fun _ _ => rfl
  | cons files rest ih =>
      obtain ⟨mid, first, later⟩ := runs_cons_ok.mp run
      have one := step_ok_iff.mp first
      have more := ih later
      clear run first later ih
      induction one generalizing s' with
      | nil =>
          cases more
          exact .nil
      | cons ticked _ ih =>
          cases more with
          | cons ran others =>
              refine .cons ?_ (ih others)
              rw [(Topic.onTick_ticked ticked).2.name] at ran
              exact runs_cons_ok.mpr ⟨_, ticked, ran⟩

namespace Demo

/-- The topic just after `setup`. -/
def topic : Topic := ((bootTopic "param/live" globalConfig (some speedFile) []).toOption).getD
  ⟨"", globalConfig, .null, none, 0, ⟨none, []⟩, []⟩

theorem topic_booted : bootTopic "param/live" globalConfig (some speedFile) [] = .ok topic := rfl

def speed (value : ℚ) (persist : Bool) : Accepted := ⟨"speed", .float (.fin value), persist⟩

/-- A set, then in the next tick a persisting one. -/
def settledBatches : List (List (Option Json)) :=
  [[some (setSpeed (.float (.fin 2)) false)], [some (setSpeed (.float (.fin 3)) true)]]

/-- A persisting set and then another set, in one tick. -/
def mixedBatch : List (Option Json) :=
  [some (setSpeed (.float (.fin 2)) true), some (setSpeed (.float (.fin 3)) false)]

end Demo

theorem persist_law_iff_settled :
    ∃ u, runs Topic.onTick Demo.topic Demo.settledBatches = .ok u ∧
      Topic.PersistLaw Demo.topic Demo.settledBatches u ∧ u.onDisk "speed" = some (.float (.fin 3)) := by
  have run : runs Topic.onTick Demo.topic Demo.settledBatches = .ok
      (endState Topic.onTick Demo.topic Demo.settledBatches) := runs_of_accepts (by rfl)
  refine ⟨_, run, ?_, rfl⟩
  refine (persist_law_iff Demo.topic_booted run).mpr ?_ _ _ (List.prefix_refl _) run
  intro ticks files inside persists key
  have cases_ : ticks ++ [files] <+: [[some (Demo.setSpeed (.float (.fin 2)) false)]] ++
      [[some (Demo.setSpeed (.float (.fin 3)) true)]] := inside
  rcases List.prefix_concat_iff.mp cases_ with same | first
  · obtain ⟨rfl, one⟩ := List.append_inj' same rfl
    cases one
    have accepted : Demo.topic.history ([[some (Demo.setSpeed (.float (.fin 2)) false)]] ++
        [[some (Demo.setSpeed (.float (.fin 3)) true)]]) = [Demo.speed 2 false, Demo.speed 3 true] := rfl
    rw [Topic.latest, Topic.durable, accepted]
    by_cases here : "speed" = key
    · simp [lastOf, Demo.speed, here]
    · simp [lastOf, Demo.speed, here]
  · -- the first tick accepts nothing that persists
    have only : files = [some (Demo.setSpeed (.float (.fin 2)) false)] := by
      obtain ⟨more, whole⟩ := first
      cases ticks with
      | nil => simpa using (List.cons.inj whole).1
      | cons t rest =>
          have long := congrArg List.length whole
          simp at long
    rw [only] at persists
    cases persists

/-- A set without persist reaches the disk with the persisting one before it. -/
theorem live_set_saved :
    ∃ u, runs Topic.onTick Demo.topic [Demo.mixedBatch] = .ok u ∧
      ¬ Topic.PersistLaw Demo.topic [Demo.mixedBatch] u := by
  refine ⟨_, runs_of_accepts (by rfl), ?_⟩
  intro law
  have disk := law "speed"
  have stored_ : Topic.onDisk (endState Topic.onTick Demo.topic [Demo.mixedBatch]) "speed" =
      some (.float (.fin 3)) := rfl
  have persisted : Demo.topic.durable [Demo.mixedBatch] "speed" = some (.float (.fin 2)) := rfl
  rw [stored_, persisted] at disk
  simp at disk

end KoyuRuntime.Services.ParamServer
