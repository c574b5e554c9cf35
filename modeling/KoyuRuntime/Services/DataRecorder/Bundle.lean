/-
# Services.DataRecorder.Bundle — the stages of a commit

`Stages` names what went well in a finalize that returned a path; `finalize_ok_iff`
says that there is no other way to return one, and `finalize_commits_iff` that a
finalize whose stages go well commits.

* `captureFacts_ok_iff`: the sidecar before a verdict is merged in.
* `Stages.captureId_eq`: a bundle is named after the capture it was given.
-/
import KoyuRuntime.Services.DataRecorder.Finalize
import KoyuRuntime.Theory.Raising

namespace KoyuRuntime.Services.DataRecorder

open Host Theory

set_option autoImplicit false

variable {P V : Type}

/-! ## Effects that may raise -/

section DiskM

variable {α : Type} {disk disk' : Disk V} {a : α}

theorem check_ok_iff {result : Except Exn α} :
    check result disk = .ok a disk' ↔ result = .ok a ∧ disk = disk' := by
  unfold check
  cases result <;> simp

theorem attempt_ok_iff {fault : Option Exn} {op : Disk V → Except TreeError (Disk V)} {u : Unit} :
    attempt fault op disk = .ok u disk' ↔ fault = none ∧ op disk = .ok disk' := by
  unfold attempt
  cases fault with
  | some e => simp
  | none =>
      dsimp only
      cases op disk <;> simp

end DiskM

/-! ## The stages of a bundle -/

/-- The capture facts with a verdict's fields merged in. -/
def judged (facts : EpisodeSidecar) (fields : Option Double × List Json) : EpisodeSidecar :=
  { facts with reward := fields.1, events := fields.2 }

theorem sidecar_ok_iff {py : Pydantic} {facts sc : EpisodeSidecar} {verdict : Option JsonObj} :
    sidecar py facts verdict = .ok sc ↔
      ∃ fields, verdictFields py verdict = .ok fields ∧ sc = judged facts fields := by
  unfold sidecar judged
  cases verdictFields py verdict <;> simp [Except.map, eq_comm]

/-- Where a bundle's sidecar is written. -/
def episodeAt (dir : Path) : Path := dir ++ ["episode.json"]

theorem writeSidecar_ok_iff {py : Pydantic} {call : Call} {tmp : Path} {sc : EpisodeSidecar}
    {disk disk' : Disk V} {u : Unit} :
    writeSidecar py call tmp sc disk = .ok u disk' ↔
      py.encodable sc.events = true ∧ call.fault .text = none ∧
        disk.writeFile (episodeAt tmp) (.episode sc) = .ok disk' := by
  simp only [writeSidecar, bind_ok_iff, check_ok_iff, attempt_ok_iff, episodeAt]
  cases py.encodable sc.events <;> simp

theorem renameTo_ok_iff {tmp : Path} {final : List (Hop String)} {disk disk' : Disk V} :
    renameTo tmp final disk = .ok disk' ↔
      ∃ loc, DirTree.place legalName disk final = .ok loc ∧ disk.rename tmp loc = .ok disk' := by
  unfold renameTo
  cases DirTree.place legalName disk final <;> simp

section Stages

variable (libs : Libs V) (call : Call) (recordings : Path) (ctx : RecordingContext)
  (first : Row V) (rest : List (Row V)) (sources : List (Source P V)) (recordHz : Double)
  (captureId : Option String) (verdict : Option JsonObj) (disk : Disk V)

/-- Everything that went well on the way to a returned path. -/
structure Stages (path : List (Hop String)) (disk' : Disk V) where
  fps : Double
  media : Disk V
  facts : EpisodeSidecar
  fields : Option Double × List Json
  stamp : List Char
  written : Disk V
  loc : Path
  rate : measuredFps ((first :: rest).map Prod.fst) recordHz = .ok fps
  encoded : writeMedia call (tmpDir recordings call) (first :: rest) fps sources disk = .ok () media
  captured : captureFacts libs call ctx first (first :: rest).length fps sources recordHz captureId =
    .ok facts
  accepted : verdictFields libs.pydantic verdict = .ok fields
  encodable : libs.pydantic.encodable fields.2 = true
  noted : call.fault .text = none
  text : media.writeFile (episodeAt (tmpDir recordings call)) (.episode (judged facts fields)) =
    .ok written
  dated : dirname first.1 = .ok stamp
  target : path = finalPath recordings stamp ctx.requestedManifest facts.captureId
  unhindered : call.fault .rename = none
  placed : DirTree.place legalName written path = .ok loc
  moved : written.rename (tmpDir recordings call) loc = .ok disk'

def Committed (path : List (Hop String)) (disk' : Disk V) : Prop :=
  Nonempty (Stages libs call recordings ctx first rest sources recordHz captureId verdict disk path disk')

end Stages

section Commit

variable {libs : Libs V} {call : Call} {recordings : Path} {ctx : RecordingContext}
  {first : Row V} {rest : List (Row V)} {sources : List (Source P V)} {recordHz : Double}
  {captureId : Option String} {verdict : Option JsonObj} {disk disk' : Disk V}

theorem writeBundle_ok_iff {tmp : Path} {rows : List (Row V)} {fps : Double} {out : Outcome} :
    writeBundle libs call recordings tmp ctx rows first fps sources recordHz captureId verdict disk =
        .ok out disk' ↔
      ∃ media facts fields written stamp loc,
        writeMedia call tmp rows fps sources disk = .ok () media ∧
        captureFacts libs call ctx first rows.length fps sources recordHz captureId = .ok facts ∧
        verdictFields libs.pydantic verdict = .ok fields ∧
        libs.pydantic.encodable fields.2 = true ∧ call.fault .text = none ∧
        media.writeFile (episodeAt tmp) (.episode (judged facts fields)) = .ok written ∧
        dirname first.1 = .ok stamp ∧ call.fault .rename = none ∧
        DirTree.place legalName written
          (finalPath recordings stamp ctx.requestedManifest facts.captureId) = .ok loc ∧
        written.rename tmp loc = .ok disk' ∧
        out = { path := some (finalPath recordings stamp ctx.requestedManifest facts.captureId) } := by
  simp only [writeBundle, bind_ok_iff, check_ok_iff, attempt_ok_iff, pure_ok_iff, sidecar_ok_iff,
    writeSidecar_ok_iff, renameTo_ok_iff]
  constructor
  · rintro ⟨_, media, encoded, facts, _, ⟨captured, rfl⟩, _, _, ⟨⟨fields, accepted, rfl⟩, rfl⟩, _,
      written, ⟨encodable, noted, text⟩, stamp, _, ⟨dated, rfl⟩, _, _, ⟨unhindered, loc, placed, moved⟩,
      rfl, rfl⟩
    exact ⟨media, facts, fields, written, stamp, loc, encoded, captured, accepted, encodable, noted, text,
      dated, unhindered, placed, moved, rfl⟩
  · rintro ⟨media, facts, fields, written, stamp, loc, encoded, captured, accepted, encodable, noted,
      text, dated, unhindered, placed, moved, rfl⟩
    exact ⟨(), media, encoded, facts, media, ⟨captured, rfl⟩, _, media, ⟨⟨fields, accepted, rfl⟩, rfl⟩,
      (), written, ⟨encodable, noted, text⟩, stamp, written, ⟨dated, rfl⟩, (), disk',
      ⟨unhindered, loc, placed, moved⟩, rfl, rfl⟩

/-- **A finalize of captured rows returns exactly by committing.** -/
theorem finalize_ok_iff {out : Outcome} :
    finalize libs call recordings ctx (first :: rest) sources recordHz captureId verdict disk =
        .ok out disk' ↔
      ∃ path, out = { path := some path } ∧
        Committed libs call recordings ctx first rest sources recordHz captureId verdict disk path
          disk' := by
  unfold finalize
  dsimp only
  cases rate : measuredFps ((first :: rest).map Prod.fst) recordHz with
  | error e =>
      simp only [reduceCtorEq, false_iff, not_exists, not_and]
      rintro path - ⟨stages⟩
      have := stages.rate
      rw [rate] at this
      cases this
  | ok fps =>
      dsimp only
      constructor
      · intro ran
        split at ran
        · rename_i out' disk'' bundle
          cases ran
          obtain ⟨media, facts, fields, written, stamp, loc, encoded, captured, accepted, encodable, noted,
            text, dated, unhindered, placed, moved, rfl⟩ := writeBundle_ok_iff.mp bundle
          exact ⟨_, rfl, ⟨⟨fps, media, facts, fields, stamp, written, loc, rate, encoded, captured, accepted,
            encodable, noted, text, dated, rfl, unhindered, placed, moved⟩⟩⟩
        · cases ran
      · rintro ⟨path, rfl, ⟨stages⟩⟩
        have same : stages.fps = fps := Except.ok.inj (stages.rate.symm.trans rate)
        have bundle := writeBundle_ok_iff.mpr ⟨stages.media, stages.facts, stages.fields, stages.written,
          stages.stamp, stages.loc, stages.encoded, stages.captured, stages.accepted, stages.encodable,
          stages.noted, stages.text, stages.dated, stages.unhindered,
          by rw [← stages.target]; exact stages.placed, stages.moved, rfl⟩
        rw [same, ← stages.target] at bundle
        rw [bundle]

theorem finalize_commits_iff {path : List (Hop String)} :
    finalize libs call recordings ctx (first :: rest) sources recordHz captureId verdict disk =
        .ok { path := some path } disk' ↔
      Committed libs call recordings ctx first rest sources recordHz captureId verdict disk path disk' := by
  rw [finalize_ok_iff]
  constructor
  · rintro ⟨path', out, committed⟩
    injection out with same
    cases same
    exact committed
  · intro committed
    exact ⟨path, rfl, committed⟩

/-- A finalize seen to return has committed. -/
theorem commits_of_returned
    (ran : (returned (finalize libs call recordings ctx (first :: rest) sources recordHz captureId
      verdict disk)).isSome = true) :
    ∃ path disk', finalize libs call recordings ctx (first :: rest) sources recordHz captureId verdict
      disk = .ok { path := some path } disk' := by
  cases result : finalize libs call recordings ctx (first :: rest) sources recordHz captureId verdict
      disk with
  | ok out disk' =>
      obtain ⟨path, rfl, -⟩ := finalize_ok_iff.mp result
      exact ⟨path, disk', rfl⟩
  | error e disk' =>
      rw [result] at ran
      cases ran

end Commit

/-! ## The facts of a capture -/

section Facts

variable {libs : Libs V} {call : Call} {recordings : Path} {ctx : RecordingContext}
  {sources : List (Source P V)} {recordHz : Double} {captureId : Option String}
  {verdict : Option JsonObj} {first : Row V} {rest : List (Row V)} {disk disk' : Disk V}
  {path : List (Hop String)}

theorem captureFacts_ok_iff {facts : EpisodeSidecar} {n : Nat} {fps : Double} :
    captureFacts libs call ctx first n fps sources recordHz captureId = .ok facts ↔
      ∃ recordedAt feats, Datetime.fromTimestamp first.1 = .ok recordedAt ∧
        features libs first.2 sources ∅ = .ok feats ∧
        facts =
          { ctx with
            length := n
            fps := fps
            recordedAt := recordedAt
            recordHz := if recordHz.truthy then some recordHz else none
            features := feats
            encoding := encoding
            captureId := captureIdOf call captureId } := by
  unfold captureFacts
  cases Datetime.fromTimestamp first.1 with
  | error e => simp [Except.bind]
  | ok recordedAt =>
      cases features libs first.2 sources ∅ with
      | error e => simp [Except.bind, Except.map]
      | ok feats =>
          simp only [Except.bind, Except.map, Except.ok.injEq, exists_and_left, exists_eq_left']
          exact eq_comm

@[simp] theorem captureIdOf_hex (captureId : Option Uuid) :
    captureIdOf call (captureId.map Uuid.hex) = (captureId.getD call.defaultId).hex := by
  cases captureId with
  | none => rfl
  | some u => simp [captureIdOf, u.hex_ne_empty]

/-- The sidecar names the capture it was given. -/
theorem Stages.captureId_eq (stages : Stages libs call recordings ctx first rest sources recordHz
    captureId verdict disk path disk') : stages.facts.captureId = captureIdOf call captureId := by
  obtain ⟨_, _, -, -, same⟩ := captureFacts_ok_iff.mp stages.captured
  rw [same]

end Facts

end KoyuRuntime.Services.DataRecorder
