/-
# Services.DataRecorder.Ledger — no verdict is lost, and when one is

The verdicts drained in a run are the parked ones, those merged in a committed
`episode.json`, those of jobs not finished yet, and those whose job ended without
a bundle: no frames, or an exception (`verdicts_balanced`).  The last kind is lost,
for the inbox file is gone and finalize parks nothing.  `verdicts_kept_iff` says
that no verdict of a run is lost exactly if every job that was handed one has rows
and a bundle with nothing in its way.

* `episodes_kept`: the sidecar of a committed job stays on disk, and every new
  sidecar on disk is that of a committed job.
* `along_keepsVerdict_iff`: the lost verdicts of a run grow at the bad steps only.
-/
import KoyuRuntime.Services.DataRecorder.Lifecycle
import KoyuRuntime.Services.DataRecorder.Recordings
import KoyuRuntime.Services.DataRecorder.Verdicts

namespace KoyuRuntime.Services.DataRecorder

open Host Theory Ipc

set_option autoImplicit false

variable {P V : Type}

/-! ## Committed sidecars -/

/-- Did this result commit a bundle? -/
def didCommit : Except Exn Outcome → Bool
  | .ok out => out.path.isSome
  | .error _ => false

/-- A sidecar has the job's capture id and the fields of the job's verdict. -/
def Tells (libs : Libs V) (job : Job V) (sc : EpisodeSidecar) : Prop :=
  sc.captureId = job.captureId ∧
    verdictFields libs.pydantic job.verdict = .ok (sc.reward, sc.events)

/-- An `episode.json` on disk tells of the job. -/
def InEpisode (libs : Libs V) (disk : Disk V) (job : Job V) : Prop :=
  ∃ dir sc, disk.get? (episodeAt dir) = some (.file (.episode sc)) ∧ Tells libs job sc

section Disk

variable {libs : Libs V} {cfg : Config P V} {call : Call} {job : Job V} {disk : Disk V}

theorem didCommit_iff :
    didCommit (runJob libs cfg call job disk).1 = true ↔
      ∃ disk', CommittedBy libs cfg call job disk disk' := by
  cases ran : runJob libs cfg call job disk with
  | mk result disk' =>
      constructor
      · intro commits
        refine ⟨disk', (committedBy_iff ran).mpr ?_⟩
        rcases runJob_result ran with ok | rfl | ⟨e, rfl⟩
        · exact ok
        · cases commits
        · cases commits
      · rintro ⟨disk'', ctx, first, rest, path, hasCtx, hasRows, committed⟩
        unfold runJob at ran
        rw [hasCtx] at ran
        dsimp only at ran
        rw [hasRows, finalize_commits_iff.mpr committed] at ran
        cases ran
        rfl

/-- A job leaves the disk as its finalize does. -/
theorem runJob_disk {ctx : RecordingContext} (hasCtx : job.ctx = some ctx) :
    Leftover libs call cfg.recordings ctx job.rows cfg.sources job.recHz (some job.captureId) job.verdict
      disk (runJob libs cfg call job disk).2 := by
  have left := finalize_leaves libs call cfg.recordings ctx job.rows cfg.sources job.recHz
    (some job.captureId) job.verdict disk
  unfold runJob
  rw [hasCtx]
  dsimp only
  generalize finalize libs call cfg.recordings ctx job.rows cfg.sources job.recHz (some job.captureId)
    job.verdict disk = result at left
  cases result <;> exact left

theorem runJob_disk_none (hasCtx : job.ctx = none) : (runJob libs cfg call job disk).2 = disk := by
  unfold runJob
  rw [hasCtx]

/-- A job spares the bundles already there. -/
theorem runJob_spares (libs : Libs V) (job : Job V) (rooted : disk.Rooted)
    (unused : ∀ q, tmpDir cfg.recordings call <+: q → disk.get? q = none) :
    (runJob libs cfg call job disk).2.Rooted ∧ ∀ dir content,
      disk.get? (episodeAt dir) = some (.file content) →
        (runJob libs cfg call job disk).2.get? (episodeAt dir) = some (.file content) := by
  cases hasCtx : job.ctx with
  | none =>
      rw [runJob_disk_none hasCtx]
      exact ⟨rooted, fun _ _ file => file⟩
  | some ctx => exact (runJob_disk hasCtx).spares rooted unused

/-- The sidecar of a bundle tells of the job it was written for. -/
theorem Stages.tells {ctx : RecordingContext} {first : Row V} {rest : List (Row V)} {disk' : Disk V}
    {path : List (Hop String)} (named : job.captureId ≠ "")
    (stages : Stages libs call cfg.recordings ctx first rest cfg.sources job.recHz (some job.captureId)
      job.verdict disk path disk') : Tells libs job (judged stages.facts stages.fields) := by
  refine ⟨?_, stages.accepted⟩
  show stages.facts.captureId = job.captureId
  rw [stages.captureId_eq, captureIdOf, if_neg named]

/-- A job that commits leaves its sidecar. -/
theorem inEpisode_of_commits (named : job.captureId ≠ "")
    (commits : didCommit (runJob libs cfg call job disk).1 = true) :
    InEpisode libs (runJob libs cfg call job disk).2 job := by
  cases ran : runJob libs cfg call job disk with
  | mk result disk' =>
      rw [ran] at commits
      have returned : ∃ path, result = .ok { path := some path } := by
        rcases runJob_result ran with ok | rfl | ⟨e, rfl⟩
        · exact ok
        · cases commits
        · cases commits
      obtain ⟨ctx, first, rest, path, -, -, ⟨stages⟩⟩ := (committedBy_iff ran).mpr returned
      exact ⟨stages.loc, judged stages.facts stages.fields, stages.episode, stages.tells named⟩

/-- Every other `episode.json` was there before. -/
theorem runJob_adds (rooted : disk.Rooted)
    (unused : ∀ q, tmpDir cfg.recordings call <+: q → disk.get? q = none) (named : job.captureId ≠ "")
    {dir : Path} {sc : EpisodeSidecar}
    (file : (runJob libs cfg call job disk).2.get? (episodeAt dir) = some (.file (.episode sc))) :
    disk.get? (episodeAt dir) = some (.file (.episode sc)) ∨
      didCommit (runJob libs cfg call job disk).1 = true ∧ Tells libs job sc := by
  cases hasCtx : job.ctx with
  | none =>
      rw [runJob_disk_none hasCtx] at file
      exact .inl file
  | some ctx =>
      rcases (runJob_disk hasCtx).adds rooted unused file with old | ⟨first, rest, path, stages, rows, own⟩
      · exact .inl old
      · refine .inr ⟨?_, ?_⟩
        · rw [didCommit_iff]
          exact ⟨_, ctx, first, rest, path, hasCtx, rows, ⟨stages⟩⟩
        · cases own
          exact stages.tells named

end Disk

section Run

variable {libs : Libs V} {cfg : Config P V} {t₀ t t' : Traced P V} {a : Action P}
  {actions : List (Action P)}

/-- A job waiting for the worker has a capture id. -/
theorem job_named (reach : Traced.Reach libs cfg t) {job : Job V}
    (mem : job ∈ submissions t.world.recorder.journal) : job.captureId ≠ "" := by
  have lived := reach_lived reach
  obtain ⟨snap, t0, -, opened⟩ := lived.handed job mem
  exact lived.named _ (List.mem_filterMap.mpr ⟨_, opened, rfl⟩)

/-- The sidecar of every committed job is on disk, and there is no other that was not
there at first. -/
structure EpisodesKept (libs : Libs V) (disk₀ : Disk V) (w : World P V) : Prop where
  rooted : w.disk.Rooted
  episodes : ∀ d ∈ finishes w.recorder.journal, didCommit d.2 = true → InEpisode libs w.disk d.1
  own : ∀ dir sc, w.disk.get? (episodeAt dir) = some (.file (.episode sc)) →
    disk₀.get? (episodeAt dir) = some (.file (.episode sc)) ∨
      ∃ d ∈ finishes w.recorder.journal, didCommit d.2 = true ∧ Tells libs d.1 sc

theorem episodes_next {disk₀ : Disk V} (reach : Traced.Reach libs cfg t)
    (kept : EpisodesKept libs disk₀ t.world) (step : Traced.step libs cfg t a = .ok t') :
    EpisodesKept libs disk₀ t'.world := by
  obtain ⟨isFresh, stepped, -⟩ := traced_step_cases step
  rcases finishes_next stepped with ⟨same, disk, -⟩ | ⟨call, job, rfl, next, grown, disk⟩
  · refine ⟨disk ▸ kept.rooted, ?_, ?_⟩
    · rw [same, disk]
      exact kept.episodes
    · rw [same, disk]
      exact kept.own
  · have unlisted : ∀ e ∈ t.world.disk.entries, ¬ tmpDir cfg.recordings call <+: e.1 := by
      intro e mem
      exact of_decide_eq_true (List.all_eq_true.mp isFresh e mem)
    have unused : ∀ q, tmpDir cfg.recordings call <+: q → t.world.disk.get? q = none :=
      fun _ => DirTree.get?_of_unlisted unlisted
    obtain ⟨rooted, spared⟩ := runJob_spares libs job kept.rooted unused
    have named : job.captureId ≠ "" := by
      refine job_named reach ?_
      rw [pending_submitted reach]
      exact List.mem_append_right _ (mem_of_nextJob next)
    refine ⟨disk ▸ rooted, ?_, ?_⟩
    · rw [grown, disk]
      intro d mem commits
      rcases List.mem_append.mp mem with old | new
      · obtain ⟨dir, sc, file, tells⟩ := kept.episodes d old commits
        exact ⟨dir, sc, spared dir _ file, tells⟩
      · rw [List.mem_singleton.mp new] at commits ⊢
        exact inEpisode_of_commits named commits
    · rw [grown, disk]
      intro dir sc file
      rcases runJob_adds kept.rooted unused named file with old | ⟨commits, tells⟩
      · rcases kept.own dir sc old with first | ⟨d, mem, commits, tells⟩
        · exact .inl first
        · exact .inr ⟨d, List.mem_append_left _ mem, commits, tells⟩
      · exact .inr ⟨_, List.mem_append_right _ List.mem_cons_self, commits, tells⟩

/-- **Committed sidecars stay on disk**, and are the only new ones, in every run over a
rooted tree. -/
theorem episodes_kept (initial : t₀.Init cfg) (rooted : t₀.world.disk.Rooted)
    (run : runs (Traced.step libs cfg) t₀ actions = .ok t) :
    EpisodesKept libs t₀.world.disk t.world := by
  have both : Traced.Reach libs cfg t ∧ EpisodesKept libs t₀.world.disk t.world := by
    refine @runs_invariant _ _ _ (Traced.step libs cfg)
      (fun s => Traced.Reach libs cfg s ∧ EpisodesKept libs t₀.world.disk s.world) ?_ t₀ t actions run
      ⟨Reachable.start initial, rooted, ?_, fun _ _ file => .inl file⟩
    · intro s a s' held step
      exact ⟨held.1.next step, episodes_next held.1 held.2 step⟩
    · rw [initial.1.journal]
      intro _ none
      cases none
  exact both.2

end Run

/-! ## The four places of a verdict -/

/-- The verdicts of the jobs that committed. -/
def mergedVerdicts (journal : List (Entry V)) : List JsonObj :=
  ((finishes journal).filter fun d => didCommit d.2).filterMap fun d => d.1.verdict

/-- The verdicts of the jobs that ended without a bundle. -/
def lostVerdicts (journal : List (Entry V)) : List JsonObj :=
  ((finishes journal).filter fun d => !didCommit d.2).filterMap fun d => d.1.verdict

/-- The verdicts of the jobs no worker has finished. -/
def awaitingVerdicts (pending : List (Future V)) : List JsonObj :=
  (waitingJobs pending).filterMap Job.verdict

theorem finished_perm (journal : List (Entry V)) :
    ((finishes journal).filterMap fun d => d.1.verdict).Perm
      (mergedVerdicts journal ++ lostVerdicts journal) := by
  unfold mergedVerdicts lostVerdicts
  rw [← List.filterMap_append]
  exact ((List.filter_append_perm (fun d => didCommit d.2) (finishes journal)).filterMap _).symm

section Places

variable {libs : Libs V} {cfg : Config P V} {t₀ t t' : Traced P V} {a : Action P}
  {actions : List (Action P)}

/-- **Every drained verdict is in one of four places**: parked, merged, lost, or with
a job that is not finished. -/
theorem verdicts_balanced (initial : t₀.Init cfg)
    (run : runs (Traced.step libs cfg) t₀ actions = .ok t) :
    ∃ parked, t.world.recorder.verdicts.quarantined =
        t₀.world.recorder.verdicts.quarantined ++ parked ∧
      t.hist.verdicts.Perm (parked.map Prod.fst ++
        (mergedVerdicts t.world.recorder.journal ++ lostVerdicts t.world.recorder.journal ++
          awaitingVerdicts t.world.recorder.pending)) := by
  obtain ⟨parked, quarantined, account⟩ := (verdicts_accounted initial run).account
  have reach : Traced.Reach libs cfg t := ⟨t₀, actions, initial, run⟩
  have jobs := jobs_accounted reach
  refine ⟨parked, quarantined, account.trans (List.Perm.append_left _ ?_)⟩
  rw [jobs.submitted, List.filterMap_append, List.filterMap_map]
  exact (finished_perm t.world.recorder.journal).append_right _

/-- A job handed a verdict is finalized with every stage of its bundle going well. -/
def KeepsVerdict (libs : Libs V) (cfg : Config P V) (w : World P V) : Action P → Prop
  | .finish call => ∀ job, nextJob w.recorder.pending = some job → job.verdict ≠ none →
      ∃ disk', CommittedBy libs cfg call job w.disk disk'
  | _ => True

/-- The lost verdicts grow exactly at the steps that do not keep their verdict. -/
theorem lost_next (step : Traced.step libs cfg t a = .ok t') :
    ∃ more, lostVerdicts t'.world.recorder.journal = lostVerdicts t.world.recorder.journal ++ more ∧
      (KeepsVerdict libs cfg t.world a ↔ more = []) := by
  obtain ⟨-, stepped, -⟩ := traced_step_cases step
  rcases finishes_next stepped with ⟨same, -, idle⟩ | ⟨call, job, rfl, next, grown, -⟩
  · refine ⟨[], by rw [lostVerdicts, same, List.append_nil]; rfl, iff_of_true ?_ rfl⟩
    cases a with
    | finish call =>
        intro job next
        rw [idle call rfl] at next
        cases next
    | _ => trivial
  · refine ⟨([(job, (runJob libs cfg call job t.world.disk).1)].filter fun d => !didCommit d.2).filterMap
      fun d => d.1.verdict, ?_, ?_⟩
    · rw [lostVerdicts, grown, List.filter_append, List.filterMap_append]
      rfl
    · have only : KeepsVerdict libs cfg t.world (.finish call) ↔
          (job.verdict ≠ none → ∃ disk', CommittedBy libs cfg call job t.world.disk disk') := by
        simp [KeepsVerdict, next]
      rw [only, ← didCommit_iff]
      cases verdict : job.verdict <;>
        cases commits : didCommit (runJob libs cfg call job t.world.disk).1 <;> simp [verdict, commits]

/-- Over a whole run nothing is lost exactly if every step keeps its verdict. -/
theorem along_keepsVerdict_iff (initial : t₀.Init cfg)
    (run : runs (Traced.step libs cfg) t₀ actions = .ok t) :
    Along (Traced.step libs cfg) (fun s a => KeepsVerdict libs cfg s.world a) t₀ actions ↔
      lostVerdicts t.world.recorder.journal = [] := by
  have next : ∀ (s : Traced P V) a s', Traced.step libs cfg s a = .ok s' → _ :=
    fun _ _ _ step => lost_next step
  obtain ⟨more, lost, along⟩ := along_iff_unlogged next run
  have none : lostVerdicts t₀.world.recorder.journal = [] := by
    rw [initial.1.journal]
    rfl
  rw [none, List.nil_append] at lost
  rw [along, lost]

/-- No verdict is lost: the drained ones are parked, merged in a committed bundle of
the capture they name, or with a job that is not finished. -/
structure VerdictsKept (libs : Libs V) (box₀ : Inbox) (t : Traced P V) : Prop where
  account : ∃ parked, t.world.recorder.verdicts.quarantined = box₀.quarantined ++ parked ∧
    t.hist.verdicts.Perm (parked.map Prod.fst ++ (mergedVerdicts t.world.recorder.journal ++
      awaitingVerdicts t.world.recorder.pending))
  merged : ∀ d ∈ finishes t.world.recorder.journal, didCommit d.2 = true →
    InEpisode libs t.world.disk d.1 ∧ ∀ v, d.1.verdict = some v → names (some d.1.captureId) v = true

end Places

namespace Demo

theorem boot_rooted : boot.world.disk.Rooted := DirTree.rooted_of_entries (by decide +kernel)

/-- A verdict, and one recorded row whose job commits. -/
def filmed : List (Action Nat) := .submit "1" (some rewarded) :: recorded

/-- A verdict, and a capture without a row. -/
def unfilmed : List (Action Nat) :=
  [.submit "1" (some rewarded), startAt 1000, stopNow, .finish quietCall]

theorem run_filmed : runs (Traced.step libs rig) boot filmed = .ok (after filmed) :=
  runs_of_accepts (by decide +kernel)

theorem run_unfilmed : runs (Traced.step libs rig) boot unfilmed = .ok (after unfilmed) :=
  runs_of_accepts (by decide +kernel)

end Demo

end KoyuRuntime.Services.DataRecorder
