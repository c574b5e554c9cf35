/-
# Services.EpisodeSchema — the recording context and the episode sidecar

`RecordingContext` is what the user sets; `EpisodeSidecar` adds what the recorder
captured and is written as `episode.json`.  Pydantic validates the two fields a
verdict can set and renders the sidecar; what it accepts is a parameter.
-/
import KoyuRuntime.Host.Json
import KoyuRuntime.Host.Calendar

namespace KoyuRuntime.Services

open Host Theory

set_option autoImplicit false

structure RecordingContext where
  task : Option String := none
  taskDescription : Option String := none
  requestedManifest : Option String := none
  manifestId : Option String := none
  collectionMode : Option String := none
  sourceProjectId : Option String := none
  sourceRunId : Option String := none
  sourceCheckpoint : Option String := none
  policyName : Option String := none
  deriving DecidableEq, Repr

def schemaVersion : Nat := 1

structure EpisodeSidecar extends RecordingContext where
  schemaVersion : Nat := Services.schemaVersion
  captureId : String
  recordedAt : Datetime
  length : Nat
  recordHz : Option Double := none
  fps : Double
  features : OrderedDict String JsonObj := ∅
  encoding : JsonObj := []
  reward : Option Double := none
  events : List Json := []

/-- What pydantic does with the verdict fields of the sidecar. -/
structure Pydantic where
  /-- Validation of `reward: float | None`. -/
  reward : Json → Option (Option Double)
  /-- Validation of `events: list`. -/
  events : Json → Option (List Json)
  /-- Can `model_dump_json` encode this list? -/
  encodable : List Json → Bool

end KoyuRuntime.Services
