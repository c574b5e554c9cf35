/-
# Cli.Context — the fields that `koyu context set` sets

The recording context has nine fields, each a text or nothing.  `koyu context set` takes
`key=value` pairs, refuses the command for any pair it cannot use, and copies the context
with the others: the last pair for a key wins, and an empty value clears the field.

* `get_update`: what each field of the copy holds.
* `update_eq_self_iff`: a copy changes nothing exactly if the fields had their values.
* `update_comm`: updates of different fields commute.
-/
import KoyuRuntime.Services.EpisodeSchema
import KoyuRuntime.Theory.OrderedDict

namespace KoyuRuntime.Cli

open Services Theory

set_option autoImplicit false

/-! ## Fields -/

/-- `RecordingContext.model_fields`. -/
inductive Field where
  | task
  | taskDescription
  | requestedManifest
  | manifestId
  | collectionMode
  | sourceProjectId
  | sourceRunId
  | sourceCheckpoint
  | policyName
  deriving DecidableEq, Repr

namespace Field

def name : Field → String
  | task => "task"
  | taskDescription => "task_description"
  | requestedManifest => "requested_manifest"
  | manifestId => "manifest_id"
  | collectionMode => "collection_mode"
  | sourceProjectId => "source_project_id"
  | sourceRunId => "source_run_id"
  | sourceCheckpoint => "source_checkpoint"
  | policyName => "policy_name"

def all : List Field :=
  [task, taskDescription, requestedManifest, manifestId, collectionMode, sourceProjectId, sourceRunId,
    sourceCheckpoint, policyName]

def ofName (key : String) : Option Field := all.find? fun f => f.name = key

def get (ctx : RecordingContext) : Field → Option String
  | task => ctx.task
  | taskDescription => ctx.taskDescription
  | requestedManifest => ctx.requestedManifest
  | manifestId => ctx.manifestId
  | collectionMode => ctx.collectionMode
  | sourceProjectId => ctx.sourceProjectId
  | sourceRunId => ctx.sourceRunId
  | sourceCheckpoint => ctx.sourceCheckpoint
  | policyName => ctx.policyName

def put (value : Option String) (ctx : RecordingContext) : Field → RecordingContext
  | task => { ctx with task := value }
  | taskDescription => { ctx with taskDescription := value }
  | requestedManifest => { ctx with requestedManifest := value }
  | manifestId => { ctx with manifestId := value }
  | collectionMode => { ctx with collectionMode := value }
  | sourceProjectId => { ctx with sourceProjectId := value }
  | sourceRunId => { ctx with sourceRunId := value }
  | sourceCheckpoint => { ctx with sourceCheckpoint := value }
  | policyName => { ctx with policyName := value }

theorem ofName_name (f : Field) : ofName f.name = some f := by
  cases f <;> decide

theorem get_put (f g : Field) (value : Option String) (ctx : RecordingContext) :
    g.get (f.put value ctx) = if f = g then value else g.get ctx := by
  cases f <;> cases g <;> rfl

theorem ext {c d : RecordingContext} (same : ∀ f : Field, f.get c = f.get d) : c = d := by
  cases c
  cases d
  have each := fun f => same f
  simp only [RecordingContext.mk.injEq]
  exact ⟨each task, each taskDescription, each requestedManifest, each manifestId, each collectionMode,
    each sourceProjectId, each sourceRunId, each sourceCheckpoint, each policyName⟩

end Field

/-! ## Pairs -/

/-- What the pairs of one command set. -/
abbrev Updates := OrderedDict Field (Option String)

/-- `pair.partition("=")`: the key, whether there is a `=`, and what follows it. -/
def partition (pair : String) : String × Bool × String :=
  let cs := pair.toList
  (String.ofList (cs.takeWhile fun c => c ≠ '='), cs.contains '=',
    String.ofList ((cs.dropWhile fun c => c ≠ '=').drop 1))

/-- One pair; `value or None` makes an empty value clear the field. -/
def parsePair (pair : String) : Option (Field × Option String) :=
  let (key, sep, value) := partition pair
  if sep then (Field.ofName key).map fun f => (f, if value = "" then none else some value) else none

/-- The loop over the pairs; nothing if one of them is refused. -/
def parsePairs (pairs : List String) : Option Updates :=
  (pairs.mapM parsePair).map fun es => OrderedDict.ofList es

/-- `context.model_copy(update=updates)`. -/
def update (updates : Updates) (ctx : RecordingContext) : RecordingContext :=
  updates.entries.foldl (fun ctx e => e.1.put e.2 ctx) ctx

/-- A `koyu context set` whose pairs are accepted. -/
structure SetCall where
  pairs : List String
  updates : Updates
  accepted : pairs ≠ [] ∧ parsePairs pairs = some updates

/-! ## Updates -/

/-- **What a copy holds**: the value set for the field, or what the context had. -/
theorem get_update (updates : Updates) (f : Field) (ctx : RecordingContext) :
    f.get (update updates ctx) = (updates.get? f).getD (f.get ctx) := by
  obtain ⟨entries, distinct⟩ := updates
  simp only [update, OrderedDict.get?]
  induction entries generalizing ctx with
  | nil => rfl
  | cons e rest ih =>
      obtain ⟨g, value⟩ := e
      obtain ⟨new, distinct⟩ := List.nodup_cons.mp distinct
      rw [List.foldl_cons, ih _ distinct, Field.get_put, OrderedDict.find]
      by_cases same : g = f
      · subst same
        rw [OrderedDict.find_eq_none_iff.mpr new, if_pos rfl, if_pos rfl]
        rfl
      · rw [if_neg same, if_neg same]

/-- A copy is the context itself exactly if the fields had the values already. -/
theorem update_eq_self_iff {updates : Updates} {ctx : RecordingContext} :
    update updates ctx = ctx ↔ ∀ f value, updates.get? f = some value → f.get ctx = value := by
  constructor
  · intro same f value set
    have held := get_update updates f ctx
    rw [same, set] at held
    exact held
  · intro held
    refine Field.ext fun f => ?_
    rw [get_update]
    cases set : updates.get? f with
    | none => rfl
    | some value => exact (held f value set).symm

/-- Updates of different fields commute. -/
theorem update_comm {u v : Updates} (disjoint : ∀ f ∈ u.keys, f ∉ v.keys) (ctx : RecordingContext) :
    update u (update v ctx) = update v (update u ctx) := by
  refine Field.ext fun f => ?_
  simp only [get_update]
  by_cases inU : f ∈ u.keys
  · have notInV := OrderedDict.get?_eq_none_iff.mpr (disjoint f inU)
    rw [notInV]
    rfl
  · rw [OrderedDict.get?_eq_none_iff.mpr inU]
    rfl

end KoyuRuntime.Cli
