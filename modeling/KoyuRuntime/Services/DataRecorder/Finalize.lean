/-
# Services.DataRecorder.Finalize — writing one episode bundle

`finalize` turns the captured rows into a bundle: a hidden `.tmp-` directory
receives the parquet table, one mp4 per video source and the `episode.json`
sidecar, and one rename commits it under `<stamp>__<manifest>__<id>`.  Whatever
raises on the way, the temporary directory is removed and the exception goes on.

The bundle writers are outside this repository: a call comes with the exception
each of their steps raises on its own account, if any (`Call.fault`).
-/
import KoyuRuntime.Services.DataRecorder.Sources
import KoyuRuntime.Services.EpisodeSchema
import KoyuRuntime.Host.Uuid

namespace KoyuRuntime.Services.DataRecorder

open Host Theory

set_option autoImplicit false

/-- One captured row: the clock stamp and one value per feature. -/
abbrev Row (V : Type) := Int × OrderedDict String V

inductive Column (V : Type) where
  | int64 (values : List Int)
  | vectors (values : List V)

/-- What a file in the recordings tree holds. -/
inductive FileData (V : Type) where
  | parquet (table : OrderedDict String (Column V))
  | mp4 (frames : List V) (fps : Double)
  | episode (sidecar : EpisodeSidecar)
  | foreign (bytes : List Nat)

abbrev Disk (V : Type) := DirTree String (FileData V)

/-- A written bundle, or a discard with a reason. -/
structure Outcome where
  path : Option (List (Hop String)) := none
  reason : Option String := none

/-- The library steps of one call. -/
inductive Step where
  | mkdir
  | parquet
  | mp4 (feature : String)
  | text
  | rename
  deriving DecidableEq

/-- What one call reads from outside: two fresh ids and the writers' own failures. -/
structure Call where
  tmpId : Uuid
  defaultId : Uuid
  fault : Step → Option Exn

/-- The libraries a recorder is linked with. -/
structure Libs (V : Type) where
  pydantic : Pydantic
  /-- `im.shape[0], im.shape[1]`. -/
  shape : V → Nat × Nat

/-- Effects on the recordings tree that may raise. -/
abbrev DiskM (V : Type) := EStateM Exn (Disk V)

variable {P V : Type}

/-- One library step: its own failure first, then the file system's answer. -/
def attempt (fault : Option Exn) (op : Disk V → Except TreeError (Disk V)) : DiskM V Unit := fun disk =>
  match fault with
  | some e => .error e disk
  | none =>
      match op disk with
      | .ok disk' => .ok () disk'
      | .error cause => .error (.osError cause) disk

/-- Lift a pure check that may raise. -/
def check {α : Type} (result : Except Exn α) : DiskM V α := fun disk =>
  match result with
  | .ok a => .ok a disk
  | .error e => .error e disk

/-! ## Facts of a capture -/

/-- `[r[feature] for _, r in rows]`. -/
def valuesOf (feature : String) : List (Row V) → Except Exn (List V)
  | [] => .ok []
  | row :: rest =>
      match row.2.get? feature with
      | none => .error (.keyError feature)
      | some v => (valuesOf feature rest).map (v :: ·)

/-- The measured landed rate; the nominal one for a lone frame. -/
def measuredFps (ts : List Int) (recordHz : Double) : Except Exn Double :=
  match ts with
  | first :: _ :: _ =>
      let span : ℚ := ((ts.getLast?.getD first - first : Int) : ℚ) / 1000000000
      if span = 0 then .error .zeroDivisionError
      else .ok (Double.ofExact (((ts.length : ℚ) - 1) / span))
  | _ => .ok (if recordHz.truthy then recordHz else .fin 30)

/-- `_dirname`. -/
def dirname (ts : Int) : Except Exn (List Char) :=
  (Datetime.fromTimestamp ts).map Datetime.compact

/-- The columns of the table, in source order. -/
def columns (rows : List (Row V)) :
    List (Source P V) → OrderedDict String (List V) → Except Exn (OrderedDict String (List V))
  | [], cols => .ok cols
  | s :: rest, cols =>
      match s.kind with
      | .video => columns rows rest cols
      | .column =>
          match valuesOf s.feature rows with
          | .error e => .error e
          | .ok vs => columns rows rest (cols.set s.feature vs)

/-- `_write_parquet`: the spine columns, then one column per feature. -/
def parquetTable (ts : List Int) (cols : OrderedDict String (List V)) : OrderedDict String (Column V) :=
  cols.entries.foldl (fun table c => table.set c.1 (.vectors c.2))
    (OrderedDict.ofList
      [("step", .int64 ((List.range ts.length).map Int.ofNat)), ("timestamp", .int64 ts)])

/-- `_features`: the declared schema, with a video's shape taken from its first frame. -/
def features (libs : Libs V) (firstRow : OrderedDict String V) :
    List (Source P V) → OrderedDict String JsonObj → Except Exn (OrderedDict String JsonObj)
  | [], feats => .ok feats
  | s :: rest, feats =>
      match s.kind with
      | .column => features libs firstRow rest (feats.set s.feature s.schema)
      | .video =>
          match firstRow.get? s.feature with
          | none => .error (.keyError s.feature)
          | some im =>
              let shape := libs.shape im
              features libs firstRow rest (feats.set s.feature
                [("dtype", .str "video"), ("shape", .arr [.int shape.1, .int shape.2, .int 3])])

/-- `ENCODING`. -/
def encoding : JsonObj := [("video_codec", .str "libx264"), ("pix_fmt", .str "yuv420p")]

/-! ## The sidecar -/

/-- Validation of a verdict's `reward`. -/
def rewardOf (py : Pydantic) (verdict : JsonObj) : Except Exn (Option Double) :=
  match JsonObj.get? verdict "reward" with
  | none => .ok none
  | some j =>
      match py.reward j with
      | some r => .ok r
      | none => .error (.validationError "reward")

/-- Validation of a verdict's `events`. -/
def eventsOf (py : Pydantic) (verdict : JsonObj) : Except Exn (List Json) :=
  match JsonObj.get? verdict "events" with
  | none => .ok []
  | some j =>
      match py.events j with
      | some es => .ok es
      | none => .error (.validationError "events")

/-- The verdict's share of the sidecar: `reward` and `events`, where present. -/
def verdictFields (py : Pydantic) (verdict : Option JsonObj) : Except Exn (Option Double × List Json) :=
  (rewardOf py (verdict.getD [])).bind fun reward =>
    (eventsOf py (verdict.getD [])).map fun events => (reward, events)

/-- The sidecar's `capture_id`; an empty or missing one is minted by default. -/
def captureIdOf (call : Call) : Option String → String
  | some id => if id = "" then call.defaultId.hex else id
  | none => call.defaultId.hex

/-- The capture facts of the sidecar, before a verdict is merged in. -/
def captureFacts (libs : Libs V) (call : Call) (ctx : RecordingContext) (first : Row V) (n : Nat)
    (fps : Double) (sources : List (Source P V)) (recordHz : Double) (captureId : Option String) :
    Except Exn EpisodeSidecar :=
  (Datetime.fromTimestamp first.1).bind fun recordedAt =>
    (features libs first.2 sources ∅).map fun feats =>
      { ctx with
        length := n
        fps := fps
        recordedAt := recordedAt
        recordHz := if recordHz.truthy then some recordHz else none
        features := feats
        encoding := encoding
        captureId := captureIdOf call captureId }

/-- `EpisodeSidecar(...)`. -/
def sidecar (py : Pydantic) (facts : EpisodeSidecar) (verdict : Option JsonObj) :
    Except Exn EpisodeSidecar :=
  (verdictFields py verdict).map fun v => { facts with reward := v.1, events := v.2 }

/-- The name a bundle is committed under, as `pathlib` receives it. -/
def bundleName (stamp : List Char) (manifest : Option String) (captureId : String) : List Char :=
  let filed := match manifest with
    | some m => if m = "" then "unfiled" else m
    | none => "unfiled"
  stamp ++ "__".toList ++ filed.toList ++ "__".toList ++ captureId.toList.take 8

/-! ## The bundle -/

/-- Write a file below `dir` under a name that `pathlib` parses. -/
def writeAt (dir : Path) (name : String) (content : FileData V) (disk : Disk V) :
    Except TreeError (Disk V) :=
  match DirTree.place legalName disk (joined dir name.toList) with
  | .ok path => disk.writeFile path content
  | .error e => .error e

/-- `_encode_mp4` of one video source. -/
def encodeMp4 (call : Call) (tmp : Path) (rows : List (Row V)) (fps : Double) (s : Source P V) :
    DiskM V Unit := do
  let frames ← check (valuesOf s.feature rows)
  attempt (call.fault (.mp4 s.feature)) (writeAt tmp (vid s.feature) (.mp4 frames fps))

/-- One mp4 per video source, in source order. -/
def encodeVideos (call : Call) (tmp : Path) (rows : List (Row V)) (fps : Double) :
    List (Source P V) → DiskM V Unit
  | [] => pure ()
  | s :: rest =>
      match s.kind with
      | .column => encodeVideos call tmp rows fps rest
      | .video => do
          encodeMp4 call tmp rows fps s
          encodeVideos call tmp rows fps rest

/-- The media files of the bundle: directory, parquet table, videos. -/
def writeMedia (call : Call) (tmp : Path) (rows : List (Row V)) (fps : Double)
    (sources : List (Source P V)) : DiskM V Unit := do
  attempt (call.fault .mkdir) fun disk => disk.mkdirParents tmp
  let cols ← check (columns rows sources ∅)
  attempt (call.fault .parquet) fun disk =>
    disk.writeFile (tmp ++ ["data.parquet"]) (.parquet (parquetTable (rows.map Prod.fst) cols))
  encodeVideos call tmp rows fps sources

/-- `(tmp / "episode.json").write_text(sidecar.model_dump_json())`. -/
def writeSidecar (py : Pydantic) (call : Call) (tmp : Path) (sc : EpisodeSidecar) : DiskM V Unit := do
  check (if py.encodable sc.events then .ok () else .error .serializationError)
  attempt (call.fault .text) fun disk => disk.writeFile (tmp ++ ["episode.json"]) (.episode sc)

/-- The path the bundle is renamed to. -/
def finalPath (recordings : Path) (stamp : List Char) (manifest : Option String) (captureId : String) :
    List (Hop String) :=
  joined recordings (bundleName stamp manifest captureId)

/-- `tmp.rename(final)`. -/
def renameTo (tmp : Path) (final : List (Hop String)) (disk : Disk V) : Except TreeError (Disk V) :=
  match DirTree.place legalName disk final with
  | .ok path => disk.rename tmp path
  | .error e => .error e

/-- The body of the `try`. -/
def writeBundle (libs : Libs V) (call : Call) (recordings tmp : Path) (ctx : RecordingContext)
    (rows : List (Row V)) (first : Row V) (fps : Double) (sources : List (Source P V))
    (recordHz : Double) (captureId : Option String) (verdict : Option JsonObj) : DiskM V Outcome := do
  writeMedia call tmp rows fps sources
  let facts ← check (captureFacts libs call ctx first rows.length fps sources recordHz captureId)
  let sc ← check (sidecar libs.pydantic facts verdict)
  writeSidecar libs.pydantic call tmp sc
  let stamp ← check (dirname first.1)
  let final := finalPath recordings stamp ctx.requestedManifest sc.captureId
  attempt (call.fault .rename) (renameTo tmp final)
  pure { path := some final }

def tmpDir (recordings : Path) (call : Call) : Path := recordings ++ [".tmp-" ++ call.tmpId.hex]

/-- `finalize`. -/
def finalize (libs : Libs V) (call : Call) (recordings : Path) (ctx : RecordingContext)
    (rows : List (Row V)) (sources : List (Source P V)) (recordHz : Double)
    (captureId : Option String) (verdict : Option JsonObj) : DiskM V Outcome := fun disk =>
  match rows with
  | [] => .ok { reason := some "no frames" } disk
  | first :: _ =>
      match measuredFps (rows.map Prod.fst) recordHz with
      | .error e => .error e disk
      | .ok fps =>
          let tmp := tmpDir recordings call
          match writeBundle libs call recordings tmp ctx rows first fps sources recordHz captureId
              verdict disk with
          | .ok out disk' => .ok out disk'
          -- no orphan `.tmp-` directory on failure
          | .error e disk' => .error e (disk'.prune tmp)

end KoyuRuntime.Services.DataRecorder
