/-
# Services.DataRecorder.Sources — sources, tolerances and the decimation gate

A recorder is configured with a list of sources; the slowest video source is its
clock (the first of them, should several be slowest) and every other source is
sampled at the clock's frames.  `gate` decides on an anchored grid which clock
frames a reduced recording rate keeps.  `validateSources` are the checks `setup`
makes before anything else.
-/
import KoyuRuntime.Ipc.Streams
import KoyuRuntime.Host.Json
import KoyuRuntime.Host.Paths
import Mathlib.Data.List.Perm.Basic

namespace KoyuRuntime.Services.DataRecorder

open Host Theory Ipc

set_option autoImplicit false

/-- Staleness slack on top of one source period. -/
def jitterNs : Int := 5000000

/-- Clock frames queued between ticks. -/
def clockBuffer : Nat := 8

/-- Held lockstep answers per paired source. -/
def pairCacheCap : Nat := 4 * clockBuffer

/-- Seconds without a clock frame before a recording aborts. -/
def clockTimeoutS : ℚ := 1

/-- Whole-episode row cap. -/
def maxFrames : Nat := 1800

inductive Kind where
  | video
  | column
  deriving DecidableEq, Repr

structure Source (P V : Type) where
  topic : String
  feature : String
  extract : Sample P → V
  schema : JsonObj
  kind : Kind
  rateHz : ℚ
  typeName : String := ""
  paired : Bool := false

variable {P V : Type}

/-- `int(1e9 / rate_hz) + JITTER_NS`. -/
def tolNs (s : Source P V) : Int := Double.trunc (1000000000 / s.rateHz) + jitterNs

/-- `self.clock`, the first slowest video source, with what stands before and
after it in the list. -/
def splitClock : List (Source P V) → Option (List (Source P V) × Source P V × List (Source P V))
  | [] => none
  | s :: rest =>
      match splitClock rest with
      | none => if s.kind = .video then some ([], s, rest) else none
      | some (before, clock, after) =>
          if s.kind = .video ∧ s.rateHz ≤ clock.rateHz then some ([], s, rest)
          else some (s :: before, clock, after)

/-- The clock is a video, and stands between the other sources. -/
theorem splitClock_spec {sources before after : List (Source P V)} {clock : Source P V}
    (split : splitClock sources = some (before, clock, after)) :
    sources = before ++ clock :: after ∧ clock.kind = .video := by
  induction sources generalizing before clock after with
  | nil => cases split
  | cons s rest ih =>
      simp only [splitClock] at split
      cases below : splitClock rest with
      | none =>
          simp only [below] at split
          split at split
          · rename_i video
            cases split
            exact ⟨rfl, video⟩
          · cases split
      | some found =>
          obtain ⟨b, c, a⟩ := found
          simp only [below] at split
          split at split
          · rename_i video
            cases split
            exact ⟨rfl, video.1⟩
          · cases split
            obtain ⟨same, video⟩ := ih below
            exact ⟨by rw [same]; rfl, video⟩

/-- `gate`: keep this frame?  And the next slot of the grid. -/
def gate (ts nextDue period : Int) : Bool × Int :=
  if period ≤ 0 then (true, 0)
  else if ts < nextDue then (false, nextDue)
  else
    let nxt := nextDue + period
    (true, if nxt ≤ ts then ts + period else nxt)

/-- `_vid`. -/
def vid (feature : String) : String := feature ++ ".mp4"

/-- The messages `_validate_sources` raises with, each after "data_recorder: ". -/
inductive ConfigError where
  /-- "needs at least one video source as the clock" -/
  | noVideo
  /-- "source 'topic' needs a type_name" -/
  | noTypeName (topic : String)
  /-- "source 'topic' needs a positive rate_hz" -/
  | notPositive (topic : String)
  /-- "column 'feature' must declare dtype float32 (stored as list<float32>)" -/
  | notFloat32 (feature : String)
  /-- "video feature must map to a flat filename: names" -/
  | notFlat (names : List String)
  /-- "video filename collision: names" -/
  | collision (names : List String)
  deriving DecidableEq, Repr

/-- `s.schema.get("dtype") == "float32"`. -/
def declaresFloat32 (s : Source P V) : Bool :=
  match JsonObj.get? s.schema "dtype" with
  | some j => j.eqStr "float32"
  | none => false

/-- The loop body of `_validate_sources`. -/
def validateSource (s : Source P V) : Except ConfigError Unit :=
  if s.typeName = "" then .error (.noTypeName s.topic)
  else if s.rateHz ≤ 0 then .error (.notPositive s.topic)
  else if s.kind = .column ∧ declaresFloat32 s = false then .error (.notFloat32 s.feature)
  else .ok ()

/-- `_validate_sources`. -/
def validateSources (sources : List (Source P V)) : Except ConfigError Unit :=
  let videos := sources.filter fun s => s.kind = .video
  if videos = [] then .error .noVideo
  else
    (sources.forM validateSource).bind fun _ =>
      let names := videos.map fun s => vid s.feature
      if names.any fun name => fileName name.toList ≠ name then .error (.notFlat names)
      else if names.Nodup then .ok () else .error (.collision names)

/-- What an accepted list of sources has passed. -/
theorem validateSources_ok {sources : List (Source P V)} (valid : validateSources sources = .ok ()) :
    (∀ s ∈ sources, s.kind = .video → fileName (vid s.feature).toList = vid s.feature) ∧
      ((sources.filter fun s => s.kind = .video).map fun s => vid s.feature).Nodup := by
  unfold validateSources at valid
  dsimp only at valid
  split at valid
  · cases valid
  · cases each : sources.forM validateSource with
    | error e => simp [each, Except.bind] at valid
    | ok u =>
        simp only [each, Except.bind] at valid
        split at valid
        · cases valid
        · rename_i flat
          split at valid
          · rename_i distinct
            refine ⟨fun s mem video => ?_, distinct⟩
            by_contra other
            apply flat
            rw [List.any_map, List.any_eq_true]
            exact ⟨s, by simp [mem, video], by simpa using other⟩
          · cases valid

/-- An accepted video source maps to a name without a `/`. -/
theorem vid_plain {sources : List (Source P V)} (valid : validateSources sources = .ok ())
    {s : Source P V} (mem : s ∈ sources) (video : s.kind = .video) : '/' ∉ (vid s.feature).toList := by
  have own := (validateSources_ok valid).1 s mem video
  exact plain_of_fileName (by rw [own, String.ofList_toList])

/-- Accepted video sources have features of their own. -/
theorem videos_distinct {sources : List (Source P V)} (valid : validateSources sources = .ok ()) :
    ((sources.filter fun s => s.kind = .video).map Source.feature).Nodup := by
  have names := (validateSources_ok valid).2
  refine List.Nodup.of_map vid ?_
  rwa [List.map_map]

/-- A recorder's configuration, with its clock picked. -/
structure Config (P V : Type) where
  home : List String
  sources : List (Source P V)
  before : List (Source P V)
  clock : Source P V
  after : List (Source P V)
  split : splitClock sources = some (before, clock, after)

namespace Config

def recordings (cfg : Config P V) : List String := cfg.home ++ ["data-recordings"]

/-- `self.others`: every source but the clock, in list order. -/
def others (cfg : Config P V) : List (Source P V) := cfg.before ++ cfg.after

theorem sources_perm (cfg : Config P V) : cfg.sources.Perm (cfg.clock :: cfg.others) := by
  rw [(splitClock_spec cfg.split).1]
  exact List.perm_middle

end Config

end KoyuRuntime.Services.DataRecorder
