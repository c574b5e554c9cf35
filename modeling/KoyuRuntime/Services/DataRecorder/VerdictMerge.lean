/-
# Services.DataRecorder.VerdictMerge — what a verdict can do to its bundle

Two finalize calls on the same capture, one without a verdict and one with: both
validate the sidecar, and a sidecar pydantic refuses takes the recording with it.
`verdict_harmless_iff` says for which verdicts the second call commits whenever
the first one does, with the same files and the same capture facts: exactly those
whose `reward` and `events`, where present, pydantic accepts and can encode.
-/
import KoyuRuntime.Services.DataRecorder.Recordings
import KoyuRuntime.Services.DataRecorder.Run

namespace KoyuRuntime.Services.DataRecorder

open Host Theory

set_option autoImplicit false

variable {P V : Type}

/-! ## Accepted verdicts -/

/-- `reward` and `events`, where present, are accepted and can be written. -/
structure Acceptable (py : Pydantic) (verdict : JsonObj) : Prop where
  reward : ∀ j, JsonObj.get? verdict "reward" = some j → (py.reward j).isSome
  events : ∀ j, JsonObj.get? verdict "events" = some j → ∃ es, py.events j = some es ∧ py.encodable es

section Fields

variable {py : Pydantic} {verdict : JsonObj}

theorem rewardOf_ok_iff :
    (∃ r, rewardOf py verdict = .ok r) ↔
      ∀ j, JsonObj.get? verdict "reward" = some j → (py.reward j).isSome := by
  unfold rewardOf
  cases JsonObj.get? verdict "reward" with
  | none => simp
  | some j =>
      dsimp only
      cases taken : py.reward j <;> simp [taken]

theorem eventsOf_ok_iff (plain : py.encodable [] = true) :
    (∃ es, eventsOf py verdict = .ok es ∧ py.encodable es) ↔
      ∀ j, JsonObj.get? verdict "events" = some j → ∃ es, py.events j = some es ∧ py.encodable es := by
  unfold eventsOf
  cases JsonObj.get? verdict "events" with
  | none => simp [plain]
  | some j =>
      dsimp only
      cases taken : py.events j <;> simp [taken]

theorem verdictFields_ok {fields : Option Double × List Json} :
    verdictFields py (some verdict) = .ok fields ↔
      rewardOf py verdict = .ok fields.1 ∧ eventsOf py verdict = .ok fields.2 := by
  unfold verdictFields
  dsimp only [Option.getD_some]
  cases rewardOf py verdict with
  | error e => simp [Except.bind]
  | ok r =>
      cases eventsOf py verdict with
      | error e => simp [Except.bind, Except.map]
      | ok es => simp [Except.bind, Except.map, Prod.ext_iff]

/-- The sidecar takes exactly the acceptable verdicts. -/
theorem acceptable_iff (plain : py.encodable [] = true) :
    (∃ fields, verdictFields py (some verdict) = .ok fields ∧ py.encodable fields.2) ↔
      Acceptable py verdict := by
  constructor
  · rintro ⟨fields, accepted, encodable⟩
    obtain ⟨reward, events⟩ := verdictFields_ok.mp accepted
    exact ⟨rewardOf_ok_iff.mp ⟨_, reward⟩, (eventsOf_ok_iff plain).mp ⟨_, events, encodable⟩⟩
  · rintro ⟨reward, events⟩
    obtain ⟨r, rewardOk⟩ := rewardOf_ok_iff.mpr reward
    obtain ⟨es, eventsOk, encodable⟩ := (eventsOf_ok_iff plain).mpr events
    exact ⟨(r, es), verdictFields_ok.mpr ⟨rewardOk, eventsOk⟩, encodable⟩

end Fields

/-! ## Two calls -/

/-- Two trees agree but for the verdict's fields in the sidecar of one bundle. -/
structure SameCapture (loc : Path) (disk disk' : Disk V) : Prop where
  others : ∀ q, q ≠ episodeAt loc → disk'.get? q = disk.get? q
  facts : ∃ facts fields fields',
    disk.get? (episodeAt loc) = some (.file (.episode (judged facts fields))) ∧
      disk'.get? (episodeAt loc) = some (.file (.episode (judged facts fields')))

section Calls

variable {libs : Libs V} {call : Call} {recordings : Path} {ctx : RecordingContext}
  {first : Row V} {rest : List (Row V)} {sources : List (Source P V)} {recordHz : Double}
  {captureId : Option String} {verdict : JsonObj} {disk disk₀ : Disk V} {path : List (Hop String)}

/-- A verdict's fields replace the defaults, and nothing else moves. -/
theorem Stages.withVerdict
    (stages : Stages libs call recordings ctx first rest sources recordHz captureId none disk path disk₀)
    {fields : Option Double × List Json}
    (accepted : verdictFields libs.pydantic (some verdict) = .ok fields)
    (encodable : libs.pydantic.encodable fields.2 = true) :
    ∃ disk', Committed libs call recordings ctx first rest sources recordHz captureId (some verdict)
        disk path disk' ∧ SameCapture stages.loc disk₀ disk' := by
  have dir := DirTree.writeFile_dir stages.text (writeMedia_dir stages.encoded)
  obtain ⟨parent, other, wrote⟩ := DirTree.writeFile_ok_iff.mp stages.text
  have text : stages.media.writeFile (episodeAt (tmpDir recordings call))
      (.episode (judged stages.facts fields)) = .ok _ :=
    DirTree.writeFile_ok_iff.mpr ⟨parent, other, rfl⟩
  have placed := stages.placed
  have moved := stages.moved
  rw [wrote] at dir placed moved
  obtain ⟨disk', moved', others⟩ := DirTree.rename_set_file
    (b := FileData.episode (judged stages.facts fields)) dir moved
  let stages' : Stages libs call recordings ctx first rest sources recordHz captureId (some verdict)
      disk path disk' :=
    ⟨stages.fps, stages.media, stages.facts, fields, stages.stamp, _, stages.loc, stages.rate,
      stages.encoded, stages.captured, accepted, encodable, stages.noted, text, stages.dated,
      stages.target, stages.unhindered, DirTree.place_set_file placed, moved'⟩
  refine ⟨disk', ⟨stages'⟩, others, stages.facts, stages.fields, fields, stages.episode, ?_⟩
  exact stages'.episode

/-- **A verdict is harmless exactly if it is acceptable**: whenever finalize commits
without it, finalize with it commits under the same path, with the same files and
the same capture facts. -/
theorem verdict_harmless_iff {rows : List (Row V)}
    (commits : finalize libs call recordings ctx rows sources recordHz captureId none disk =
      .ok { path := some path } disk₀) :
    (∃ loc disk', finalize libs call recordings ctx rows sources recordHz captureId (some verdict) disk =
        .ok { path := some path } disk' ∧ SameCapture loc disk₀ disk') ↔
      Acceptable libs.pydantic verdict := by
  cases rows with
  | nil => cases commits
  | cons first rest =>
      obtain ⟨stages⟩ := finalize_commits_iff.mp commits
      have plain : libs.pydantic.encodable [] = true := by
        have fields : stages.fields = (none, []) := (Except.ok.inj stages.accepted).symm
        simpa [fields] using stages.encodable
      constructor
      · rintro ⟨loc, disk', ran, -⟩
        obtain ⟨stages'⟩ := finalize_commits_iff.mp ran
        exact (acceptable_iff plain).mp ⟨_, stages'.accepted, stages'.encodable⟩
      · intro acceptable
        obtain ⟨fields, accepted, encodable⟩ := (acceptable_iff plain).mpr acceptable
        obtain ⟨disk', committed, same⟩ := stages.withVerdict accepted encodable
        exact ⟨stages.loc, disk', finalize_commits_iff.mpr committed, same⟩

end Calls

namespace Demo

/-- Finalizing one row of the small recorder, with or without a verdict. -/
def finalized (verdict : Option JsonObj) : EStateM.Result Exn (Disk Nat) Outcome :=
  finalize libs quietCall rig.recordings {} [row] rig.sources (.fin 0) (some firstId.hex) verdict
    boot.world.disk

theorem finalized_none : ∃ path disk₀, finalized none = .ok { path := some path } disk₀ :=
  commits_of_returned (by decide +kernel)

/-- A reward no number can be read from. -/
def garbled : JsonObj := [("capture_id", .str firstId.hex), ("reward", .str "great")]

end Demo

theorem verdict_harmless_iff_rewarded :
    ∃ path disk₀, Demo.finalized none = .ok { path := some path } disk₀ ∧
      ∃ loc disk', Demo.finalized (some Demo.rewarded) = .ok { path := some path } disk' ∧
        SameCapture loc disk₀ disk' := by
  obtain ⟨path, disk₀, commits⟩ := Demo.finalized_none
  refine ⟨path, disk₀, commits, (verdict_harmless_iff commits).mpr ⟨?_, ?_⟩⟩
  · intro j found
    cases found
    rfl
  · intro j found
    cases found

/-- A verdict with a garbled reward names the capture, passes the inbox and costs
the recording. -/
theorem garbled_reward_destroys :
    names (some Demo.firstId.hex) Demo.garbled = true ∧
      (∃ path disk₀, Demo.finalized none = .ok { path := some path } disk₀) ∧
      ¬ ∃ out disk', Demo.finalized (some Demo.garbled) = .ok out disk' := by
  refine ⟨by decide +kernel, Demo.finalized_none, ?_⟩
  rintro ⟨out, disk', ran⟩
  have raised : (returned (Demo.finalized (some Demo.garbled))).isNone = true := by decide +kernel
  rw [ran] at raised
  cases raised

end KoyuRuntime.Services.DataRecorder
