/-
# Services.DataRecorder.Recordings — what a finalize leaves on disk

Everything up to the rename is written below the temporary directory (`Writes`), so
a committed bundle holds its own sidecar (`Stages.episode`) and nothing else has
become an `episode.json`.

`finalize_leaves` lists how a finalize can leave the recordings tree, also when it
raises.  It spares the bundles that are already there (`Leftover.spares`) and adds
no `episode.json` but the one it commits (`Leftover.adds`).
-/
import KoyuRuntime.Services.DataRecorder.Bundle
import KoyuRuntime.Theory.DirTreeFrame

namespace KoyuRuntime.Services.DataRecorder

open Host Theory

set_option autoImplicit false

variable {P V : Type}

/-! ## One step of a finalize -/

section DiskM

variable {α β : Type} {disk : Disk V} {R : Disk V → Disk V → Prop}

theorem leaves_check (refl : ∀ t, R t t) {result : Except Exn α} : Leaves R (check result) disk := by
  unfold Leaves check
  cases result <;> exact refl disk

theorem leaves_attempt (refl : ∀ t, R t t) {fault : Option Exn}
    {op : Disk V → Except TreeError (Disk V)} (done : ∀ t', op disk = .ok t' → R disk t') :
    Leaves R (attempt fault op) disk := by
  unfold Leaves attempt
  cases fault with
  | some e => exact refl disk
  | none =>
      dsimp only
      cases ran : op disk with
      | ok disk' => exact done disk' ran
      | error cause => exact refl disk

/-- A library step that raises has changed nothing. -/
theorem fails_attempt (refl : ∀ t, R t t) {fault : Option Exn}
    {op : Disk V → Except TreeError (Disk V)} : Fails R (attempt fault op) disk := by
  intro e disk' raised
  unfold attempt at raised
  cases fault with
  | some e' =>
      cases raised
      exact refl disk
  | none =>
      dsimp only at raised
      split at raised
      · cases raised
      · cases raised
        exact refl disk

end DiskM

/-! ## Writing into the temporary directory -/

/-- What the writers may do to the tree: they keep every directory, make none strictly
below `tmp`, and touch no `episode.json` outside it. -/
structure Writes (tmp : Path) (t t' : Disk V) : Prop where
  dirs : ∀ p, t.get? p = some .dir → t'.get? p = some .dir
  rooted : t.Rooted → t'.Rooted
  flat : ∀ p, tmp <+: p → p ≠ tmp → t'.get? p = some .dir → t.get? p = some .dir
  episodes : ∀ dir content, ¬ tmp <+: episodeAt dir →
    (t'.get? (episodeAt dir) = some (.file content) ↔ t.get? (episodeAt dir) = some (.file content))

namespace Writes

variable {tmp : Path} {t t' : Disk V}

theorem refl (t : Disk V) : Writes tmp t t :=
  ⟨fun _ dir => dir, fun rooted => rooted, fun _ _ _ dir => dir, fun _ _ _ => Iff.rfl⟩

theorem trans (t mid t' : Disk V) (first : Writes tmp t mid) (later : Writes tmp mid t') :
    Writes tmp t t' where
  dirs p dir := later.dirs p (first.dirs p dir)
  rooted rooted := later.rooted (first.rooted rooted)
  flat p below other dir := first.flat p below other (later.flat p below other dir)
  episodes dir content outside :=
    (later.episodes dir content outside).trans (first.episodes dir content outside)

theorem mkdir (made : t.mkdirParents tmp = .ok t') : Writes tmp t t' where
  dirs p dir := (DirTree.mkdirParents_grows made p (by simp [dir])).trans dir
  rooted rooted := rooted.mkdirParents made
  flat p below other dir := by
    rcases DirTree.mkdirParents_get? made p with same | ⟨-, above⟩
    · rw [← same, dir]
    · exact absurd (above.eq_of_length_le below.length_le) other
  episodes dir content _ := by
    constructor
    · intro file
      rcases DirTree.mkdirParents_get? made (episodeAt dir) with same | ⟨isDir, -⟩
      · rw [← same, file]
      · rw [isDir] at file
        cases file
    · intro file
      exact (DirTree.mkdirParents_grows made _ (by simp [file])).trans file

/-- A file that is no `episode.json` outside `tmp`. -/
theorem file {path : Path} {content : FileData V} (other : ∀ dir, path = episodeAt dir → tmp <+: path)
    (done : t.writeFile path content = .ok t') : Writes tmp t t' where
  dirs p dir := DirTree.writeFile_dir done dir
  rooted rooted := rooted.writeFile done
  flat p _ _ dir := by
    obtain ⟨-, -, rfl⟩ := DirTree.writeFile_ok_iff.mp done
    rw [DirTree.get?_set] at dir
    split at dir
    · cases dir
    · exact dir
  episodes dir content' outside := by
    obtain ⟨-, -, rfl⟩ := DirTree.writeFile_ok_iff.mp done
    rw [DirTree.get?_set, if_neg]
    intro same
    exact outside (same ▸ other dir same)

end Writes

section Leaves

variable {call : Call} {tmp : Path} {rows : List (Row V)} {fps : Double} {disk disk' : Disk V}

/-- An mp4's path ends in its suffix, whatever its feature is called. -/
theorem parts_vid (feature : String) :
    ∃ front last, parts (vid feature).toList =
      front ++ [.into (String.ofList (last ++ ['.', 'm', 'p', '4']))] := by
  rw [vid, String.toList_append]
  refine parts_append_plain feature.toList (by decide) (fun more => ?_) (fun more short => ?_)
  · cases more with
    | nil => decide
    | cons c rest => simp [proper]
  · simpa using congrArg List.length short

/-- So an mp4 never lands on an `episode.json`. -/
theorem vid_ne_episode {tmp : Path} {feature : String} {path : Path}
    (placed : DirTree.place legalName disk (joined tmp (vid feature).toList) = .ok path)
    (dir : Path) : path ≠ episodeAt dir := by
  obtain ⟨front, last, ending⟩ := parts_vid feature
  obtain ⟨parent, name, -, -, isLast, rfl⟩ := DirTree.place_ok placed
  have hops : ∃ before, joined tmp (vid feature).toList =
      before ++ [.into (String.ofList (last ++ ['.', 'm', 'p', '4']))] := by
    unfold joined
    split
    · exact ⟨front, ending⟩
    · exact ⟨tmp.map .into ++ front, by rw [ending, List.append_assoc]⟩
  obtain ⟨before, hops⟩ := hops
  rw [hops, List.getLast?_concat, Option.some.injEq, Hop.into.injEq] at isLast
  intro same
  have ends : name = "episode.json" := by
    simpa using (List.append_inj' same rfl).2
  have chars := congrArg (fun s : String => s.toList.getLast?) (isLast.trans ends)
  simp [List.getLast?_append] at chars

theorem encodeMp4_leaves (s : Source P V) (disk : Disk V) :
    Leaves (Writes tmp) (encodeMp4 call tmp rows fps s) disk := by
  refine Leaves.bind Writes.trans (leaves_check Writes.refl) ?_
  intro frames mid _
  refine leaves_attempt Writes.refl ?_
  intro t' done
  unfold writeAt at done
  split at done
  · rename_i path placed
    exact Writes.file (fun dir same => absurd same (vid_ne_episode placed dir)) done
  · cases done

theorem encodeVideos_leaves (sources : List (Source P V)) (disk : Disk V) :
    Leaves (Writes tmp) (encodeVideos call tmp rows fps sources) disk := by
  induction sources generalizing disk with
  | nil => exact Leaves.pure Writes.refl
  | cons s rest ih =>
      unfold encodeVideos
      split
      · exact ih disk
      · exact Leaves.bind Writes.trans (encodeMp4_leaves s disk) fun _ mid _ => ih mid

theorem writeMedia_leaves (sources : List (Source P V)) (disk : Disk V) :
    Leaves (Writes tmp) (writeMedia call tmp rows fps sources) disk := by
  refine Leaves.bind Writes.trans (leaves_attempt Writes.refl fun _ => Writes.mkdir) ?_
  intro _ mid _
  refine Leaves.bind Writes.trans (leaves_check Writes.refl) ?_
  intro cols mid' _
  refine Leaves.bind Writes.trans (leaves_attempt Writes.refl ?_) fun _ mid'' _ =>
    encodeVideos_leaves sources mid''
  intro t' done
  exact Writes.file (fun _ _ => List.prefix_append tmp _) done

theorem writeSidecar_leaves (py : Pydantic) (sc : EpisodeSidecar) (disk : Disk V) :
    Leaves (Writes tmp) (writeSidecar py call tmp sc) disk := by
  refine Leaves.bind Writes.trans (leaves_check Writes.refl) ?_
  intro _ mid _
  refine leaves_attempt Writes.refl ?_
  intro t' done
  exact Writes.file (fun _ _ => List.prefix_append tmp _) done

/-- The media are written into a directory that exists from then on. -/
theorem writeMedia_dir {sources : List (Source P V)} {u : Unit}
    (encoded : writeMedia call tmp rows fps sources disk = .ok u disk') : disk'.get? tmp = some .dir := by
  simp only [writeMedia, bind_ok_iff, check_ok_iff, attempt_ok_iff] at encoded
  obtain ⟨_, made, ⟨-, mkdir⟩, cols, _, ⟨-, rfl⟩, _, table, ⟨-, parquet⟩, videos⟩ := encoded
  refine ((encodeVideos_leaves sources table).of_ok videos).dirs tmp ?_
  exact DirTree.writeFile_dir parquet (DirTree.mkdirParents_dir mkdir)

end Leaves

/-! ## Committing -/

section Commit

variable {libs : Libs V} {call : Call} {recordings : Path} {ctx : RecordingContext}
  {sources : List (Source P V)} {recordHz : Double} {captureId : Option String}
  {verdict : Option JsonObj} {first : Row V} {rest : List (Row V)} {disk disk' : Disk V}
  {path : List (Hop String)}

/-- **A committed bundle holds its sidecar**: the capture facts and the verdict's fields. -/
theorem Stages.episode (stages : Stages libs call recordings ctx first rest sources recordHz captureId
    verdict disk path disk') :
    disk'.get? (episodeAt stages.loc) =
      some (.file (.episode (judged stages.facts stages.fields))) := by
  have dir := DirTree.writeFile_dir stages.text (writeMedia_dir stages.encoded)
  rw [episodeAt, DirTree.rename_below dir stages.moved]
  obtain ⟨-, -, wrote⟩ := DirTree.writeFile_ok_iff.mp stages.text
  rw [wrote, episodeAt, DirTree.get?_set, if_pos rfl]

/-- Up to its rename a bundle is written into the temporary directory only. -/
theorem Stages.writes (stages : Stages libs call recordings ctx first rest sources recordHz captureId
    verdict disk path disk') : Writes (tmpDir recordings call) disk stages.written := by
  have media := (writeMedia_leaves sources disk).of_ok stages.encoded
  exact media.trans _ _ _ (Writes.file (fun _ _ => List.prefix_append _ _) stages.text)

theorem Stages.dir (stages : Stages libs call recordings ctx first rest sources recordHz captureId
    verdict disk path disk') : stages.written.get? (tmpDir recordings call) = some .dir :=
  DirTree.writeFile_dir stages.text (writeMedia_dir stages.encoded)

/-- The only `episode.json` in the temporary directory is the sidecar. -/
theorem Stages.only (stages : Stages libs call recordings ctx first rest sources recordHz captureId
    verdict disk path disk') (rooted : disk.Rooted)
    (unused : ∀ q, tmpDir recordings call <+: q → disk.get? q = none) {inner : Path}
    {content : FileData V}
    (file : stages.written.get? (episodeAt (tmpDir recordings call ++ inner)) = some (.file content)) :
    content = .episode (judged stages.facts stages.fields) := by
  obtain ⟨-, -, wrote⟩ := DirTree.writeFile_ok_iff.mp stages.text
  cases inner with
  | nil =>
      rw [List.append_nil, wrote, DirTree.get?_set, if_pos rfl] at file
      cases file
      rfl
  | cons name more =>
      -- a directory below the temporary one would have been there before
      have there : stages.written.get?
          (tmpDir recordings call ++ name :: more ++ ["episode.json"]) ≠ none := by
        rw [← episodeAt, file]
        simp
      have above := (stages.writes.rooted rooted).isDir_above (List.cons_ne_nil _ _) there
      rcases DirTree.isDir_iff.mp above with root | isDir
      · simp at root
      · have before := stages.writes.flat _ (List.prefix_append _ _) (by simp) isDir
        rw [unused _ (List.prefix_append _ _)] at before
        cases before

/-- A commit adds its own sidecar and no other `episode.json`. -/
theorem Stages.adds (stages : Stages libs call recordings ctx first rest sources recordHz captureId
    verdict disk path disk') (rooted : disk.Rooted)
    (unused : ∀ q, tmpDir recordings call <+: q → disk.get? q = none) {dir : Path} {content : FileData V}
    (file : disk'.get? (episodeAt dir) = some (.file content)) :
    disk.get? (episodeAt dir) = some (.file content) ∨
      content = .episode (judged stages.facts stages.fields) := by
  have inside : ∀ below, stages.loc ++ below = episodeAt dir →
      content = .episode (judged stages.facts stages.fields) := by
    intro below spelled
    rw [← spelled, DirTree.rename_below stages.dir stages.moved] at file
    rcases List.eq_nil_or_concat below with rfl | ⟨inner, last, rfl⟩
    · rw [List.append_nil, stages.dir] at file
      cases file
    · rw [List.concat_eq_append, ← List.append_assoc] at spelled file
      have name : last = "episode.json" := by
        simpa using (List.append_inj' spelled rfl).2
      subst name
      exact stages.only rooted unused file
  by_cases target : stages.loc <+: episodeAt dir
  · obtain ⟨below, spelled⟩ := target
    exact .inr (inside below spelled)
  · by_cases same : tmpDir recordings call = stages.loc
    · have moved := stages.moved
      simp only [DirTree.rename, stages.dir, if_pos same, Except.ok.injEq] at moved
      rw [← moved] at file
      exact .inl ((stages.writes.episodes dir content (same ▸ target)).mp file)
    · obtain ⟨moved, below, above⟩ := DirTree.rename_ok same stages.dir stages.moved
      rw [moved, DirTree.get?_move _ below above, if_neg target] at file
      split at file
      · cases file
      · rename_i outside
        exact .inl ((stages.writes.episodes dir content outside).mp file)

/-- A bundle that fails leaves what its writers leave. -/
theorem writeBundle_fails_of {R : Disk V → Disk V → Prop} (refl : ∀ t, R t t)
    (trans : ∀ t mid t', R t mid → R mid t' → R t t') {tmp : Path} {rows : List (Row V)} {fps : Double}
    {disk : Disk V} (media : Leaves R (writeMedia call tmp rows fps sources) disk)
    (text : ∀ sc mid, Leaves R (writeSidecar libs.pydantic call tmp sc) mid) (first : Row V) :
    Fails R
      (writeBundle libs call recordings tmp ctx rows first fps sources recordHz captureId verdict)
      disk := by
  refine Fails.bind trans media ?_
  intro _ media _
  refine Fails.bind trans (leaves_check refl) ?_
  intro facts mid _
  refine Fails.bind trans (leaves_check refl) ?_
  intro sc mid' _
  refine Fails.bind trans (text sc mid') ?_
  intro _ written _
  refine Fails.bind trans (leaves_check refl) ?_
  intro stamp mid'' _
  exact Fails.last (fails_attempt refl)

/-- A bundle that fails has been written into the temporary directory only. -/
theorem writeBundle_fails (tmp : Path) (rows : List (Row V)) (first : Row V) (fps : Double)
    (disk : Disk V) :
    Fails (Writes tmp)
      (writeBundle libs call recordings tmp ctx rows first fps sources recordHz captureId verdict)
      disk :=
  writeBundle_fails_of Writes.refl Writes.trans (writeMedia_leaves sources disk)
    (fun sc mid => writeSidecar_leaves libs.pydantic sc mid) first

/-- How a finalize can leave the recordings tree. -/
inductive Leftover (libs : Libs V) (call : Call) (recordings : Path) (ctx : RecordingContext)
    (rows : List (Row V)) (sources : List (Source P V)) (recordHz : Double)
    (captureId : Option String) (verdict : Option JsonObj) (disk disk' : Disk V) : Prop where
  | untouched (same : disk' = disk)
  | removed (mid : Disk V) (writes : Writes (tmpDir recordings call) disk mid)
      (pruned : disk' = mid.prune (tmpDir recordings call))
  | committed (first : Row V) (rest : List (Row V)) (some_ : rows = first :: rest)
      (path : List (Hop String))
      (stages : Stages libs call recordings ctx first rest sources recordHz captureId verdict disk path
        disk')

/-- **What a finalize leaves**, whether it commits, returns a reason or raises. -/
theorem finalize_leaves (libs : Libs V) (call : Call) (recordings : Path) (ctx : RecordingContext)
    (rows : List (Row V)) (sources : List (Source P V)) (recordHz : Double)
    (captureId : Option String) (verdict : Option JsonObj) (disk : Disk V) :
    Leftover libs call recordings ctx rows sources recordHz captureId verdict disk
      (left (finalize libs call recordings ctx rows sources recordHz captureId verdict disk)) := by
  cases ran : finalize libs call recordings ctx rows sources recordHz captureId verdict disk with
  | ok out disk' =>
      cases rows with
      | nil =>
          cases ran
          exact .untouched rfl
      | cons first rest =>
          obtain ⟨path, -, ⟨stages⟩⟩ := finalize_ok_iff.mp ran
          exact .committed first rest rfl path stages
  | error e disk' =>
      unfold finalize at ran
      cases rows with
      | nil => cases ran
      | cons first rest =>
          dsimp only at ran
          cases rate : measuredFps ((first :: rest).map Prod.fst) recordHz with
          | error e' =>
              rw [rate] at ran
              cases ran
              exact .untouched rfl
          | ok fps =>
              rw [rate] at ran
              dsimp only at ran
              split at ran
              · cases ran
              · rename_i e' mid failed
                cases ran
                exact .removed mid (writeBundle_fails _ _ _ _ disk e mid failed) rfl

section Leftover

variable {rows : List (Row V)}

/-- **A finalize spares the bundles already there**, whether it commits or raises. -/
theorem Leftover.spares
    (left : Leftover libs call recordings ctx rows sources recordHz captureId verdict disk disk')
    (rooted : disk.Rooted) (unused : ∀ q, tmpDir recordings call <+: q → disk.get? q = none) :
    disk'.Rooted ∧ ∀ dir content, disk.get? (episodeAt dir) = some (.file content) →
      disk'.get? (episodeAt dir) = some (.file content) := by
  have outside : ∀ {dir : Path} {content : FileData V}, disk.get? (episodeAt dir) = some (.file content) →
      ¬ tmpDir recordings call <+: episodeAt dir := by
    intro dir content file below
    rw [unused _ below] at file
    cases file
  cases left with
  | untouched same =>
      subst same
      exact ⟨rooted, fun _ _ file => file⟩
  | removed mid writes pruned =>
      subst pruned
      refine ⟨(writes.rooted rooted).prune _, ?_⟩
      intro dir content file
      rw [DirTree.get?_prune, if_neg (outside file)]
      exact (writes.episodes dir content (outside file)).mpr file
  | committed first rest some_ path stages =>
      have grown := stages.writes.rooted rooted
      refine ⟨grown.rename stages.dir (grown.place_parent stages.placed) stages.moved, ?_⟩
      intro dir content file
      exact DirTree.rename_keeps_file grown stages.dir stages.moved
        ((stages.writes.episodes dir content (outside file)).mpr file) (outside file)

/-- **It adds no `episode.json` but that of a commit.** -/
theorem Leftover.adds
    (left : Leftover libs call recordings ctx rows sources recordHz captureId verdict disk disk')
    (rooted : disk.Rooted) (unused : ∀ q, tmpDir recordings call <+: q → disk.get? q = none)
    {dir : Path} {content : FileData V}
    (file : disk'.get? (episodeAt dir) = some (.file content)) :
    disk.get? (episodeAt dir) = some (.file content) ∨
      ∃ first rest path, ∃ stages : Stages libs call recordings ctx first rest sources recordHz captureId
        verdict disk path disk',
          rows = first :: rest ∧ content = .episode (judged stages.facts stages.fields) := by
  cases left with
  | untouched same => exact .inl (same ▸ file)
  | removed mid writes pruned =>
      rw [pruned, DirTree.get?_prune] at file
      split at file
      · cases file
      · rename_i outside
        exact .inl ((writes.episodes dir content outside).mp file)
  | committed first rest some_ path stages =>
      rcases stages.adds rooted unused file with old | own
      · exact .inl old
      · exact .inr ⟨first, rest, path, stages, some_, own⟩

end Leftover

end Commit

end KoyuRuntime.Services.DataRecorder
