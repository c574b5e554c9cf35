/-
# Services.DataRecorder.Outbox — the recordings over the lives of many recorders

A recorder is started on the recordings an earlier one left, sweeps the temporary directories,
runs, and dies at any moment: between two steps, in the middle of a finalize, or while it sweeps.
Its successor knows nothing of it but the tree.

* `Outbox.Next`: one step of the recorder that runs, its death, or the start of the next.
* `outbox_kept`: whatever the lives were, every bundle that shows keeps all its files as they were
  written, no two lie in one place, and no `episode.json` shows but that of a bundle, with the
  context and the id of the `START` it came from.
-/
import KoyuRuntime.Services.DataRecorder.Features
import KoyuRuntime.Services.DataRecorder.Ledger
import Mathlib.Logic.Relation

namespace KoyuRuntime.Services.DataRecorder

open Host Theory

set_option autoImplicit false

variable {P V : Type}

/-! ## Bundles -/

/-- A committed bundle: what its finalize was given, the ids it drew, and where it lies. -/
structure Bundle (P V : Type) where
  args : FinalizeArgs P V
  call : Call
  dir : Path

/-- The sidecar its finalize wrote. -/
def Bundle.Sidecar (libs : Libs V) (b : Bundle P V) (sc : EpisodeSidecar) : Prop :=
  ∃ first fps facts fields, b.args.Begun first fps ∧
    captureFacts libs b.call b.args.ctx first b.args.rows.length fps b.args.sources b.args.recordHz
      b.args.captureId = .ok facts ∧
    verdictFields libs.pydantic b.args.verdict = .ok fields ∧ sc = judged facts fields

/-- Every file of it is there as it was written. -/
structure Bundle.Intact (libs : Libs V) (b : Bundle P V) (t : Disk V) : Prop where
  parquet : ∃ cols, columns b.args.rows b.args.sources ∅ = .ok cols ∧
    t.get? (b.dir ++ ["data.parquet"]) =
      some (.file (.parquet (parquetTable (b.args.rows.map Prod.fst) cols)))
  videos : ∃ first fps, b.args.Begun first fps ∧ ∀ s ∈ b.args.sources, s.kind = .video →
    ∃ frames, valuesOf s.feature b.args.rows = .ok frames ∧
      t.get? (b.dir ++ [vid s.feature]) = some (.file (.mp4 frames fps))
  episode : ∃ sc, b.Sidecar libs sc ∧ t.get? (episodeAt b.dir) = some (.file (.episode sc))

/-- What the worker gives to the finalize of a job. -/
def argsOf (cfg : Config P V) (ctx : RecordingContext) (job : Job V) : FinalizeArgs P V :=
  ⟨cfg.recordings, ctx, job.rows, cfg.sources, job.recHz, some job.captureId, job.verdict⟩

/-- The worker's next job commits this bundle. -/
structure Commits (libs : Libs V) (cfg : Config P V) (w : World P V) (b : Bundle P V) (disk' : Disk V) :
    Prop where
  job : ∃ job ctx, nextJob w.recorder.pending = some job ∧ job.ctx = some ctx ∧ b.args = argsOf cfg ctx job
  ran : ∃ path, b.args.finalize libs b.call w.disk = .ok { path := some path } disk' ∧
    b.args.BundleAt libs b.call w.disk disk' path b.dir

/-! ## Lives -/

/-- The recordings, the recorder that runs on them or did so last, and what all of them have done:
the bundles they committed, and the journals of those before. -/
structure Outbox (P V : Type) where
  trace : Traced P V
  up : Bool
  shelf : List (Bundle P V)
  past : List (Entry V)

def Outbox.disk (s : Outbox P V) : Disk V := s.trace.world.disk

def Outbox.log (s : Outbox P V) : List (Entry V) := s.past ++ s.trace.world.recorder.journal

/-- The tree a dying process leaves. -/
def Outbox.died (s : Outbox P V) (disk : Disk V) : Outbox P V :=
  { s with trace := ⟨⟨s.trace.world.recorder, disk⟩, s.trace.hist⟩, up := false }

inductive Outbox.Next (libs : Libs V) (cfg : Config P V) (s : Outbox P V) : Outbox P V → Prop where
  /-- `setup` of the next recorder: the sources are checked and the tree is swept. -/
  | booted (r : Recorder P V) (disk' : Disk V) (down : s.up = false)
      (valid : validateSources cfg.sources = .ok ())
      (swept : setupTree cfg.recordings s.disk = .ok () disk') (booted : r.Booted cfg) :
      Next libs cfg s ⟨⟨⟨r, disk'⟩, {}⟩, true, s.shelf, s.log⟩
  /-- It dies while it sweeps. -/
  | halfSwept (gone : List Path) (down : s.up = false)
      (below : ∀ p ∈ gone, ∃ name, isTmp name = true ∧ cfg.recordings ++ [name] <+: p) :
      Next libs cfg s (s.died (gone.foldl DirTree.prune s.disk))
  | stepped (a : Action P) (t' : Traced P V) (up : s.up = true)
      (step : Traced.step libs cfg s.trace a = .ok t')
      (quiet : ∀ b, a = .finish b.call → ¬ Commits libs cfg s.trace.world b t'.world.disk) :
      Next libs cfg s { s with trace := t' }
  | committed (b : Bundle P V) (t' : Traced P V) (up : s.up = true)
      (step : Traced.step libs cfg s.trace (.finish b.call) = .ok t')
      (commits : Commits libs cfg s.trace.world b t'.world.disk) :
      Next libs cfg s { s with trace := t', shelf := s.shelf ++ [b] }
  | halted (up : s.up = true) : Next libs cfg s (s.died s.disk)
  /-- It dies in the middle of a finalize, or of the cleanup after one. -/
  | cut (call : Call) (job : Job V) (ctx : RecordingContext) (left : Disk V) (gone : List Path)
      (up : s.up = true) (fresh : fresh cfg s.trace.world (.finish call) = true)
      (next : nextJob s.trace.world.recorder.pending = some job) (hasCtx : job.ctx = some ctx)
      (short : (argsOf cfg ctx job).StopsShort libs call s.disk left)
      (below : ∀ p ∈ gone, (argsOf cfg ctx job).tmp call <+: p) :
      Next libs cfg s (s.died (gone.foldl DirTree.prune left))

/-- Recordings no recorder has run on yet. -/
structure Outbox.Fresh (s : Outbox P V) : Prop where
  down : s.up = false
  shelf : s.shelf = []
  log : s.log = []
  rooted : s.disk.Rooted

/-- The `START` a bundle came from. -/
def Bundle.Started (cfg : Config P V) (b : Bundle P V) (log : List (Entry V)) : Prop :=
  b.args.recordings = cfg.recordings ∧ b.args.sources = cfg.sources ∧
    ∃ (id : Uuid) (t0 : Int), b.args.captureId = some id.hex ∧
      .opened id.hex b.args.ctx b.args.recordHz t0 ∈ log

/-- What holds of the recordings, `disk₀` being what the first recorder found. -/
structure Outbox.Sound (libs : Libs V) (cfg : Config P V) (disk₀ : Disk V) (s : Outbox P V) : Prop where
  intact : ∀ b ∈ s.shelf, Visible cfg.recordings b.dir → b.Intact libs s.disk
  apart : s.shelf.Pairwise fun b b' => Visible cfg.recordings b.dir → b.dir ≠ b'.dir
  started : ∀ b ∈ s.shelf, b.Started cfg s.log
  /-- Without a `/` in the manifest a bundle shows, as a child of the recordings. -/
  shown : ∀ b ∈ s.shelf, PlainManifest b.args.ctx.requestedManifest →
    ∃ name, b.dir = cfg.recordings ++ [name] ∧ isTmp name = false
  episodes : ∀ dir sc, Visible cfg.recordings (episodeAt dir) →
    s.disk.get? (episodeAt dir) = some (.file (.episode sc)) →
      disk₀.get? (episodeAt dir) = some (.file (.episode sc)) ∨
        ∃ b ∈ s.shelf, b.dir = dir ∧ b.Sidecar libs sc

/-! ## The tree stays rooted -/

section Rooted

variable {libs : Libs V} {call : Call} {args : FinalizeArgs P V} {disk left t t' : Disk V}
  {recordings : Path}

theorem rooted_pruned (rooted : t.Rooted) (gone : List Path) : (gone.foldl DirTree.prune t).Rooted := by
  induction gone generalizing t with
  | nil => exact rooted
  | cons p rest ih => exact ih (rooted.prune p)

theorem rooted_rmtree (rooted : t.Rooted) (dir : Path) : (rmtree dir t).Rooted := by
  unfold rmtree
  split
  · exact rooted.prune dir
  · exact rooted

theorem rooted_setupTree {u : Unit} (rooted : t.Rooted) (done : setupTree recordings t = .ok u t') :
    t'.Rooted := by
  obtain ⟨_, mid, made, swept⟩ := bind_ok_iff.mp done
  obtain ⟨-, made⟩ := attempt_ok_iff.mp made
  have grown : mid.Rooted := by
    unfold mkdirOk at made
    split at made
    · cases made
      exact rooted
    · cases made
    · split at made
      · rename_i parent
        cases made
        exact rooted.set parent fun _ => rfl
      · cases made
  have removed : ∀ (names : List String) (t : Disk V), t.Rooted →
      (names.foldl (fun t name => rmtree (recordings ++ [name]) t) t).Rooted := by
    intro names
    induction names with
    | nil => exact fun _ rooted => rooted
    | cons name rest ih => exact fun t rooted => ih _ (rooted_rmtree rooted _)
  cases swept
  exact removed _ _ grown

theorem rooted_short (rooted : disk.Rooted) (short : args.StopsShort libs call disk left) : left.Rooted := by
  cases short with
  | raised first fps begun e left ran => exact (writeBundle_fails _ _ _ _ disk e left ran).rooted rooted
  | cut first fps begun step before left reached torn =>
      have stopped : before.Rooted :=
        (writeBundle_fails _ _ _ _ disk .valueError before (reached .valueError)).rooted rooted
      cases torn with
      | untouched => exact stopped
      | mkdir k t t' made => exact stopped.makeParents (DirTree.isDir_iff.mpr (.inl rfl)) made
      | parquet bytes t t' wrote => exact stopped.writeFile wrote
      | mp4 s mem video bytes t t' wrote =>
          unfold writeAt at wrote
          split at wrote
          · exact stopped.writeFile wrote
          · cases wrote
      | text bytes t t' wrote => exact stopped.writeFile wrote

end Rooted

/-! ## What shows after one finalize -/

theorem Visible.child {recordings q : Path} (visible : Visible recordings q) (name : String) :
    Visible recordings (q ++ [name]) := by
  obtain ⟨shown, below, spelled, plain⟩ := visible
  exact ⟨shown, below ++ [name], by rw [spelled, List.append_assoc, List.cons_append], plain⟩

/-- Below temporary directories nothing shows. -/
theorem pruned_visible {recordings : Path} {gone : List Path} (t : Disk V)
    (below : ∀ p ∈ gone, ∃ name, isTmp name = true ∧ recordings ++ [name] <+: p) :
    SameVisible recordings t (gone.foldl DirTree.prune t) := by
  induction gone generalizing t with
  | nil => exact fun _ _ => rfl
  | cons p rest ih =>
      have later := ih (t.prune p) fun p' mem => below p' (List.mem_cons_of_mem p mem)
      refine SameVisible.trans (fun q visible => ?_) later
      obtain ⟨name, tmp, above⟩ := below p List.mem_cons_self
      rw [DirTree.get?_prune, if_neg fun under => visible.apart tmp (above.trans under)]

section Finalize

variable {libs : Libs V} {call : Call} {args : FinalizeArgs P V} {disk disk' : Disk V}
  {first : Row V} {rest : List (Row V)} {path : List (Hop String)}
  (stages : Stages libs call args.recordings args.ctx first rest args.sources args.recordHz args.captureId
    args.verdict disk path disk')

theorem raised_visible {e : Exn} (plain : PlainVideos args.sources)
    (ran : args.finalize libs call disk = .error e disk') : SameVisible args.recordings disk disk' := by
  cases FinalizeArgs.raises_of_error ran with
  | early => exact fun _ _ => rfl
  | cleaned mid short =>
      exact FinalizeArgs.sameVisible_of_confined call
        (FinalizeArgs.confined_prune (short.confined plain) (List.prefix_refl _))
  | late path mid ran' =>
      rw [ran] at ran'
      cases ran'

include stages

/-- A commit leaves the files that show. -/
theorem commit_keeps (plain : PlainVideos args.sources) (rooted : disk.Rooted) {q : Path}
    {content : FileData V} (visible : Visible args.recordings q)
    (file : disk.get? q = some (.file content)) : disk'.get? q = some (.file content) := by
  have written := (FinalizeArgs.same_before_rename stages plain q visible).trans file
  exact DirTree.rename_keeps_file (stages.writes.rooted rooted) stages.dir stages.moved written
    (visible.apart_tmpDir call)

/-- A commit goes where no bundle is. -/
theorem commit_apart (plain : PlainVideos args.sources) (rooted : disk.Rooted)
    (visible : Visible args.recordings stages.loc) {name : String} {content : FileData V}
    (file : disk.get? (stages.loc ++ [name]) = some (.file content)) : False := by
  have other : tmpDir args.recordings call ≠ stages.loc := fun home =>
    visible.apart_tmpDir call (home ▸ List.prefix_refl _)
  have empty := DirTree.rename_target_empty (stages.writes.rooted rooted) other stages.dir stages.moved
    (List.cons_ne_nil name [])
  rw [FinalizeArgs.same_before_rename stages plain _ (visible.child name), file] at empty
  cases empty

/-- The only `episode.json` a commit shows is the one of its bundle. -/
theorem commit_adds (rows : args.rows = first :: rest) (plain : PlainVideos args.sources)
    (rooted : disk.Rooted) {dir : Path} {content : FileData V}
    (visible : Visible args.recordings (episodeAt dir))
    (file : disk'.get? (episodeAt dir) = some (.file content)) :
    disk.get? (episodeAt dir) = some (.file content) ∨ dir = stages.loc := by
  have complete := FinalizeArgs.bundle_complete stages rows plain rooted
  have same := FinalizeArgs.same_before_rename stages plain _ visible
  by_cases target : stages.loc <+: episodeAt dir
  · -- a bundle has nothing but its own files
    obtain ⟨below, spelled⟩ := target
    right
    rcases complete.only below (by rw [spelled, file]; simp) with none_ | ⟨name, -, one⟩
    · rw [none_, List.append_nil] at spelled
      rw [← spelled, complete.top] at file
      cases file
    · rw [one] at spelled
      exact (List.append_inj' spelled rfl).1.symm
  · left
    by_cases home : tmpDir args.recordings call = stages.loc
    · have moved := stages.moved
      simp only [DirTree.rename, stages.dir, if_pos home, Except.ok.injEq] at moved
      rw [← same, moved, file]
    · obtain ⟨moved, below, above⟩ := DirTree.rename_ok home stages.dir stages.moved
      rw [moved, DirTree.get?_move _ below above, if_neg target,
        if_neg (visible.apart_tmpDir call), same] at file
      exact file

end Finalize

/-! ## What shows after one job -/

section Job

variable {libs : Libs V} {cfg : Config P V} {w w' : World P V} {a : Action P} {t : Traced P V}

/-- **The worker's next job** leaves what shows, or commits a bundle. -/
theorem runJob_visible (valid : validateSources cfg.sources = .ok ()) (call : Call) {job : Job V}
    (next : nextJob w.recorder.pending = some job) :
    SameVisible cfg.recordings w.disk (runJob libs cfg call job w.disk).2 ∨
      ∃ b, b.call = call ∧ Commits libs cfg w b (runJob libs cfg call job w.disk).2 := by
  cases hasCtx : job.ctx with
  | none =>
      rw [runJob_disk_none hasCtx]
      exact .inl fun _ _ => rfl
  | some ctx =>
      have plain : PlainVideos (argsOf cfg ctx job).sources := fun s mem video => vid_plain valid mem video
      have same : (runJob libs cfg call job w.disk).2 = left ((argsOf cfg ctx job).finalize libs call w.disk) := by
        unfold runJob FinalizeArgs.finalize argsOf
        rw [hasCtx]
        dsimp only
        split <;> (rename_i result; rw [result]; rfl)
      rw [same]
      cases ran : (argsOf cfg ctx job).finalize libs call w.disk with
      | error e disk' => exact .inl (raised_visible plain ran)
      | ok out disk' =>
          cases rows : job.rows with
          | nil =>
              have none_ : (argsOf cfg ctx job).finalize libs call w.disk = _ := FinalizeArgs.body_nil rows
              rw [ran] at none_
              cases none_
              exact .inl fun _ _ => rfl
          | cons first rest =>
              have committed := ran
              unfold FinalizeArgs.finalize at committed
              rw [show (argsOf cfg ctx job).rows = first :: rest from rows] at committed
              obtain ⟨path, rfl, ⟨stages⟩⟩ := finalize_ok_iff.mp committed
              exact .inr ⟨⟨argsOf cfg ctx job, call, stages.loc⟩, rfl, ⟨job, ctx, next, hasCtx, rfl⟩,
                path, ran, first, rest, rows, stages, rfl⟩

/-- A journal grows, and the captures it opens have ids that were drawn. -/
theorem journal_next (isFresh : fresh cfg w a = true) (stepped : Stepped libs cfg w a w') :
    ∃ more, w'.recorder.journal = w.recorder.journal ++ more ∧
      ∀ id ∈ openings more, ∃ u : Uuid, id = u.hex := by
  cases turn_of_stepped isFresh stepped with
  | opened env snap recHz _ _ _ journal =>
      refine ⟨_, journal, ?_⟩
      intro id mem
      exact ⟨env.captureId, List.mem_singleton.mp mem⟩
  | kept late _ about journal =>
      refine ⟨late, journal, ?_⟩
      rw [(late_nothing about).1]
      exact fun _ none_ => (List.not_mem_nil none_).elim
  | resolved late entry about journal _ _ ends =>
      refine ⟨late ++ [entry], by rw [journal, List.append_assoc], ?_⟩
      have nothing : openings [entry] = [] := by cases ends <;> rfl
      rw [openings_append, (late_nothing about).1, nothing]
      exact fun _ none_ => (List.not_mem_nil none_).elim

theorem openings_drawn (reach : Traced.Reach libs cfg t) :
    ∀ id ∈ openings t.world.recorder.journal, ∃ u : Uuid, id = u.hex := by
  refine reach_invariant (?_ : ∀ t : Traced P V, t.Init cfg →
    ∀ id ∈ openings t.world.recorder.journal, ∃ u : Uuid, id = u.hex) ?_ reach
  · rintro t ⟨booted, -⟩
    rw [booted.journal]
    exact fun _ none_ => (List.not_mem_nil none_).elim
  · intro t a w' drawn isFresh stepped
    obtain ⟨more, grown, new⟩ := journal_next isFresh stepped
    show ∀ id ∈ openings w'.recorder.journal, _
    rw [grown, openings_append]
    intro id mem
    rcases List.mem_append.mp mem with old | late
    · exact drawn id old
    · exact new id late

end Job

/-! ## Where a bundle lies -/

/-- A bundle's name begins with a digit. -/
theorem bundleName_shows (d : Datetime) (manifest : Option String) (u : Uuid) :
    isTmp (String.ofList (bundleName d.compact manifest u.hex)) = false := by
  by_contra hidden
  have front : (bundleName d.compact manifest u.hex).take 5 = ".tmp-".toList := by
    simpa [isTmp] using hidden
  rw [bundleName_eq, List.append_assoc, List.take_append_of_le_length (by rw [nameHead_length]; decide)] at front
  have dot : '.' ∈ nameHead d := List.mem_of_mem_take (show '.' ∈ (nameHead d).take 5 by rw [front]; decide)
  rcases List.mem_append.mp dot with stamp | bars
  · exact absurd (Datetime.mem_compact stamp) (by decide)
  · exact absurd bars (by decide)

theorem Stages.child {libs : Libs V} {call : Call} {args : FinalizeArgs P V} {disk disk' : Disk V}
    {first : Row V} {rest : List (Row V)} {path : List (Hop String)}
    (stages : Stages libs call args.recordings args.ctx first rest args.sources args.recordHz args.captureId
      args.verdict disk path disk') {u : Uuid} (id : args.captureId = some u.hex)
    (plain : PlainManifest args.ctx.requestedManifest) :
    ∃ name, stages.loc = args.recordings ++ [name] ∧ isTmp name = false := by
  obtain ⟨d, -, stamped⟩ := dirname_ok_iff.mp stages.dated
  have named : stages.facts.captureId = u.hex := by
    have drawn : args.captureId = (some u).map Uuid.hex := id
    rw [stages.captureId_eq, drawn, captureIdOf_hex]
    rfl
  have target := stages.target
  rw [named, ← stamped, finalPath, joined_bundleName,
    (parts_bundleName_iff _ _ _ _).mpr ⟨plain, rfl⟩] at target
  have placed := stages.placed
  generalize stages.written = tree, stages.loc = loc at placed ⊢
  rw [target] at placed
  obtain ⟨parent, name, walked, -, isLast, spelled⟩ := DirTree.place_ok placed
  rw [List.dropLast_concat] at walked
  obtain ⟨rfl, -⟩ := DirTree.resolve_names walked
  rw [List.getLast?_concat, Option.some.injEq, Hop.into.injEq] at isLast
  exact ⟨name, spelled, isLast ▸ bundleName_shows d _ u⟩

/-! ## Every step -/

section Lives

variable {libs : Libs V} {cfg : Config P V} {disk₀ : Disk V} {s s' : Outbox P V} {b : Bundle P V}

theorem Bundle.Intact.kept {t t' : Disk V} {recordings : Path} (intact : b.Intact libs t)
    (visible : Visible recordings b.dir)
    (keeps : ∀ q content, Visible recordings q → t.get? q = some (.file content) →
      t'.get? q = some (.file content)) : b.Intact libs t' := by
  obtain ⟨cols, read, table⟩ := intact.parquet
  obtain ⟨first, fps, begun, all⟩ := intact.videos
  obtain ⟨sc, told, text⟩ := intact.episode
  refine ⟨⟨cols, read, keeps _ _ (visible.child _) table⟩, ⟨first, fps, begun, ?_⟩,
    sc, told, keeps _ _ (visible.child _) text⟩
  intro src mem video
  obtain ⟨frames, values, there⟩ := all src mem video
  exact ⟨frames, values, keeps _ _ (visible.child _) there⟩

theorem Bundle.Started.grown {log log' : List (Entry V)} (started : b.Started cfg log)
    (grown : ∀ entry ∈ log, entry ∈ log') : b.Started cfg log' := by
  obtain ⟨home, sources, id, t0, named, opened⟩ := started
  exact ⟨home, sources, id, t0, named, grown _ opened⟩

/-- What leaves everything that shows keeps the recordings sound. -/
theorem Outbox.Sound.kept (sound : s.Sound libs cfg disk₀) (shelf : s'.shelf = s.shelf)
    (grown : ∀ entry ∈ s.log, entry ∈ s'.log) (same : SameVisible cfg.recordings s.disk s'.disk) :
    s'.Sound libs cfg disk₀ := by
  refine ⟨?_, ?_, ?_, ?_, ?_⟩ <;> rw [shelf]
  · intro b mem visible
    exact (sound.intact b mem visible).kept visible fun q _ shows file => (same q shows).trans file
  · exact sound.apart
  · exact fun b mem => (sound.started b mem).grown grown
  · exact sound.shown
  · intro dir sc visible file
    exact sound.episodes dir sc visible ((same _ visible).symm.trans file)

/-- A commit keeps the recordings sound. -/
theorem Outbox.Sound.commits (sound : s.Sound libs cfg disk₀) (rooted : s.disk.Rooted)
    (valid : validateSources cfg.sources = .ok ()) {t' : Traced P V}
    (grown : ∀ entry ∈ s.log, entry ∈ s.past ++ t'.world.recorder.journal)
    (commits : Commits libs cfg s.trace.world b t'.world.disk) (started : b.Started cfg s.log) :
    Outbox.Sound libs cfg disk₀ { s with trace := t', shelf := s.shelf ++ [b] } := by
  obtain ⟨home, sources, id, t0, named, opened⟩ := started
  obtain ⟨path, ran, first, rest, rows, stages, at_⟩ := commits.ran
  have plain : PlainVideos b.args.sources := by
    rw [sources]
    exact fun src mem video => vid_plain valid mem video
  have keeps : ∀ q content, Visible cfg.recordings q → s.disk.get? q = some (.file content) →
      t'.world.disk.get? q = some (.file content) := by
    rw [← home]
    exact fun q content visible file => commit_keeps stages plain rooted visible file
  have complete := FinalizeArgs.bundle_complete stages rows plain rooted
  rw [at_] at complete
  obtain ⟨begun, fps, facts, fields, judgedAt, captured, accepted, text⟩ := complete.episode
  have told : b.Sidecar libs (judged facts fields) :=
    ⟨begun, fps, facts, fields, judgedAt, captured, accepted, rfl⟩
  refine ⟨?_, ?_, ?_, ?_, ?_⟩
  · intro c mem visible
    rcases List.mem_append.mp mem with old | new
    · exact (sound.intact c old visible).kept visible keeps
    · rw [List.mem_singleton.mp new]
      exact ⟨complete.parquet, complete.videos, _, told, text⟩
  · rw [List.pairwise_append]
    refine ⟨sound.apart, List.pairwise_singleton _ _, ?_⟩
    intro c old c' new visible same
    rw [List.mem_singleton.mp new, ← at_] at same
    obtain ⟨cols, -, table⟩ := (sound.intact c old visible).parquet
    rw [same] at visible table
    rw [← home] at visible
    exact commit_apart stages plain rooted visible table
  · intro c mem
    rcases List.mem_append.mp mem with old | new
    · exact (sound.started c old).grown grown
    · rw [List.mem_singleton.mp new]
      exact ⟨home, sources, id, t0, named, grown _ opened⟩
  · intro c mem plainManifest
    rcases List.mem_append.mp mem with old | new
    · exact sound.shown c old plainManifest
    · rw [List.mem_singleton.mp new] at plainManifest ⊢
      rw [← at_, ← home]
      exact stages.child named plainManifest
  · intro dir sc visible file
    rw [← home] at visible
    rcases commit_adds stages rows plain rooted visible file with old | here
    · rw [home] at visible
      rcases sound.episodes dir sc visible old with first | ⟨c, mem, there⟩
      · exact .inl first
      · exact .inr ⟨c, List.mem_append_left _ mem, there⟩
    · right
      refine ⟨b, List.mem_append_right _ List.mem_cons_self, (here.trans at_).symm, ?_⟩
      have own : t'.world.disk.get? (episodeAt dir) = some (.file (.episode sc)) := file
      rw [here, at_, text] at own
      cases own
      exact told

/-- What holds as well of the recorder that runs. -/
structure Outbox.Inv (libs : Libs V) (cfg : Config P V) (disk₀ : Disk V) (s : Outbox P V) : Prop where
  rooted : s.disk.Rooted
  valid : s.up = true → validateSources cfg.sources = .ok ()
  reach : s.up = true → Traced.Reach libs cfg s.trace
  sound : s.Sound libs cfg disk₀

theorem finish_unused {w : World P V} {call : Call} (isFresh : fresh cfg w (.finish call) = true) :
    ∀ q, tmpDir cfg.recordings call <+: q → w.disk.get? q = none := by
  have unlisted : ∀ e ∈ w.disk.entries, ¬ tmpDir cfg.recordings call <+: e.1 := by
    intro e mem
    exact of_decide_eq_true (List.all_eq_true.mp isFresh e mem)
  exact fun _ => DirTree.get?_of_unlisted unlisted

/-- The tree after a step of the recorder that runs. -/
theorem step_rooted {t t' : Traced P V} {a : Action P} (rooted : t.world.disk.Rooted)
    (step : Traced.step libs cfg t a = .ok t') : t'.world.disk.Rooted := by
  obtain ⟨isFresh, stepped, -⟩ := traced_step_cases step
  rcases finishes_next stepped with ⟨-, disk, -⟩ | ⟨call, job, rfl, next, -, disk⟩
  · rwa [disk]
  · rw [disk]
    exact (runJob_spares libs job rooted (finish_unused isFresh)).1

/-- The `START` of the job that commits. -/
theorem commits_started (reach : Traced.Reach libs cfg s.trace) {disk' : Disk V}
    (commits : Commits libs cfg s.trace.world b disk') : b.Started cfg s.log := by
  obtain ⟨job, ctx, next, hasCtx, args⟩ := commits.job
  have handed : job ∈ submissions s.trace.world.recorder.journal := by
    rw [pending_submitted reach]
    exact List.mem_append_right _ (mem_of_nextJob next)
  obtain ⟨snap, t0, same, opened⟩ := (reach_lived reach).handed job handed
  cases hasCtx.symm.trans same
  obtain ⟨u, drawn⟩ := openings_drawn reach job.captureId (List.mem_filterMap.mpr ⟨_, opened, rfl⟩)
  rw [drawn] at opened
  refine ⟨by rw [args]; rfl, by rw [args]; rfl, u, t0, by rw [args, ← drawn]; rfl, ?_⟩
  rw [args]
  exact List.mem_append_right _ opened

/-- **One step** of a life, a death, or a start. -/
theorem Outbox.Inv.next (inv : s.Inv libs cfg disk₀) (step : Outbox.Next libs cfg s s') :
    s'.Inv libs cfg disk₀ := by
  have later : ∀ {a : Action P} {t' : Traced P V}, Traced.step libs cfg s.trace a = .ok t' →
      ∀ entry ∈ s.log, entry ∈ s.past ++ t'.world.recorder.journal := by
    intro a t' step entry mem
    obtain ⟨isFresh, stepped, -⟩ := traced_step_cases step
    obtain ⟨more, grown, -⟩ := journal_next isFresh stepped
    rw [grown, ← List.append_assoc]
    exact List.mem_append_left _ mem
  cases step with
  | booted r disk' down valid swept booted =>
      refine ⟨rooted_setupTree inv.rooted swept, fun _ => valid, fun _ => .start ⟨booted, rfl⟩, ?_⟩
      refine inv.sound.kept rfl ?_ (setupTree_sweeps swept).1
      intro entry mem
      exact List.mem_append_left _ mem
  | halfSwept gone down below =>
      exact ⟨rooted_pruned inv.rooted gone, nofun, nofun,
        inv.sound.kept rfl (fun _ mem => mem) (pruned_visible s.disk below)⟩
  | stepped a t' up step quiet =>
      refine ⟨step_rooted inv.rooted step, inv.valid, fun _ => (inv.reach up).next step, ?_⟩
      refine inv.sound.kept rfl (later step) ?_
      obtain ⟨-, stepped, -⟩ := traced_step_cases step
      rcases finishes_next stepped with ⟨-, disk, -⟩ | ⟨call, job, rfl, next, -, disk⟩
      · exact fun q _ => by rw [Outbox.disk, disk]; rfl
      · rcases runJob_visible (inv.valid up) call next with same | ⟨b, rfl, commits⟩
        · intro q shows
          rw [Outbox.disk, disk]
          exact same q shows
        · rw [← disk] at commits
          exact absurd commits (quiet b rfl)
  | committed b t' up step commits =>
      exact ⟨step_rooted inv.rooted step, inv.valid, fun _ => (inv.reach up).next step,
        inv.sound.commits inv.rooted (inv.valid up) (later step) commits
          (commits_started (inv.reach up) commits)⟩
  | halted up =>
      exact ⟨inv.rooted, nofun, nofun, inv.sound.kept rfl (fun _ mem => mem) fun _ _ => rfl⟩
  | cut call job ctx left gone up isFresh next hasCtx short below =>
      have plain : PlainVideos (argsOf cfg ctx job).sources :=
        fun src mem video => vid_plain (inv.valid up) mem video
      have confined := FinalizeArgs.confined_cleanup (short.confined plain) below
      exact ⟨rooted_pruned (rooted_short inv.rooted short) gone, nofun, nofun,
        inv.sound.kept rfl (fun _ mem => mem) (FinalizeArgs.sameVisible_of_confined call confined)⟩

/-- **The recordings over many lives**: from any tree, through any starts, runs and deaths, every
bundle that shows stays as it was written, apart from the others and with what its `START` found,
and nothing else shows an `episode.json`. -/
theorem outbox_kept {s₀ : Outbox P V} (none_ : s₀.Fresh)
    (reach : Relation.ReflTransGen (Outbox.Next libs cfg) s₀ s) : s.Sound libs cfg s₀.disk := by
  have base : s₀.Inv libs cfg s₀.disk := by
    have dead : s₀.up ≠ true := by simp [none_.down]
    refine ⟨none_.rooted, fun up => absurd up dead, fun up => absurd up dead, ?_⟩
    have empty : ∀ b : Bundle P V, b ∉ s₀.shelf := by simp [none_.shelf]
    refine ⟨fun b mem => absurd mem (empty b), ?_, fun b mem => absurd mem (empty b),
      fun b mem => absurd mem (empty b), fun _ _ _ file => .inl file⟩
    rw [none_.shelf]
    exact List.Pairwise.nil
  have all : s.Inv libs cfg s₀.disk := by
    induction reach with
    | refl => exact base
    | tail _ step inv => exact inv.next step
  exact all.sound

/-- Every run of a recorder is part of a life. -/
theorem Outbox.lives {actions : List (Action P)} {t' : Traced P V} (up : s.up = true)
    (run : runs (Traced.step libs cfg) s.trace actions = .ok t') :
    ∃ s', Relation.ReflTransGen (Outbox.Next libs cfg) s s' ∧ s'.up = true ∧ s'.trace = t' := by
  induction actions generalizing s with
  | nil =>
      cases run
      exact ⟨s, .refl, up, rfl⟩
  | cons a rest ih =>
      obtain ⟨mid, first, later⟩ := runs_cons_ok.mp run
      by_cases commits : ∃ b, a = .finish b.call ∧ Commits libs cfg s.trace.world b mid.world.disk
      · obtain ⟨b, rfl, commits⟩ := commits
        obtain ⟨s', reach, up', same⟩ := ih (s := { s with trace := mid, shelf := s.shelf ++ [b] }) up later
        exact ⟨s', reach.head (.committed b mid up first commits), up', same⟩
      · have quiet : ∀ b, a = .finish b.call → ¬ Commits libs cfg s.trace.world b mid.world.disk :=
          fun b isFinish here => commits ⟨b, isFinish, here⟩
        obtain ⟨s', reach, up', same⟩ := ih (s := { s with trace := mid }) up later
        exact ⟨s', reach.head (.stepped a mid up first quiet), up', same⟩

end Lives

namespace Demo

/-- A recordings directory before the first recorder. -/
def unused : Outbox Nat Nat := ⟨boot, false, [], []⟩

theorem unused_fresh : unused.Fresh := ⟨rfl, rfl, rfl, boot_rooted⟩

/-- Where the recorded row is filed. -/
def filed : Path := rig.recordings ++ ["19700101T000000__unfiled__01234567"]

/-- An `episode.json` is there. -/
def isEpisode : Option (Node (FileData Nat)) → Bool
  | some (.file (.episode _)) => true
  | _ => false

theorem sets_up {disk : Disk Nat} (ok : (returned (setupTree rig.recordings disk)).isSome = true) :
    setupTree rig.recordings disk = .ok () (left (setupTree rig.recordings disk)) := by
  cases done : setupTree rig.recordings disk with
  | ok u disk' => rfl
  | error e disk' =>
      rw [done] at ok
      cases ok

/-- The recorder that `setup` starts on a tree. -/
def startedOn (disk : Disk Nat) : Traced Nat Nat :=
  ⟨⟨boot.world.recorder, left (setupTree rig.recordings disk)⟩, {}⟩

/-- The end of the first life, a row having been recorded and filed. -/
def firstEnd : Traced Nat Nat := endState (Traced.step libs rig) (startedOn boot.world.disk) recorded

/-- A start on the tree that is there. -/
theorem start_next {s : Outbox Nat Nat} (down : s.up = false)
    (ok : (returned (setupTree rig.recordings s.disk)).isSome = true) :
    Outbox.Next libs rig s ⟨startedOn s.disk, true, s.shelf, s.log⟩ :=
  .booted boot.world.recorder _ down (by decide +kernel) (sets_up ok) boot_init.1

end Demo

/-- A row is recorded and filed, the recorder dies, and the next one has started. -/
theorem outbox_kept_restarted : ∃ s b, Relation.ReflTransGen (Outbox.Next Demo.libs Demo.rig) Demo.unused s ∧
    s.up = true ∧ b ∈ s.shelf ∧ b.dir = Demo.filed ∧ b.Intact Demo.libs s.disk := by
  have first := Demo.start_next (s := Demo.unused) rfl (by decide +kernel)
  have run : runs (Traced.step Demo.libs Demo.rig) (Demo.startedOn Demo.boot.world.disk) Demo.recorded =
      .ok Demo.firstEnd := runs_of_accepts (by decide +kernel)
  obtain ⟨mid, reach, up, same⟩ := Outbox.lives (s := ⟨Demo.startedOn Demo.unused.disk, true, _, _⟩) rfl run
  have disk : mid.disk = Demo.firstEnd.world.disk := by rw [Outbox.disk, same]
  have dead : Relation.ReflTransGen (Outbox.Next Demo.libs Demo.rig) Demo.unused (mid.died mid.disk) :=
    (reach.head first).tail (.halted up)
  have again := Demo.start_next (s := mid.died mid.disk) rfl (by
    show (returned (setupTree Demo.rig.recordings mid.disk)).isSome = true
    rw [disk]
    decide +kernel)
  have all := dead.tail again
  have sound := outbox_kept Demo.unused_fresh all
  have shows : Visible Demo.rig.recordings Demo.filed :=
    ⟨"19700101T000000__unfiled__01234567", [], rfl, by decide +kernel⟩
  -- an `episode.json` that was not there before
  have text : ∃ sc, (Demo.startedOn mid.disk).world.disk.get? (episodeAt Demo.filed) =
      some (.file (.episode sc)) := by
    rw [disk]
    have there : Demo.isEpisode ((Demo.startedOn Demo.firstEnd.world.disk).world.disk.get? (episodeAt Demo.filed)) =
        true := by decide +kernel
    unfold Demo.isEpisode at there
    split at there
    · rename_i sc found
      exact ⟨sc, found⟩
    · cases there
  obtain ⟨sc, text⟩ := text
  rcases sound.episodes Demo.filed sc (shows.child _) text with before | ⟨b, mem, at_, -⟩
  · have none_ : (Demo.unused.disk.get? (episodeAt Demo.filed)).isNone = true := by decide +kernel
    rw [before] at none_
    cases none_
  · exact ⟨_, b, all, rfl, mem, at_, sound.intact b mem (at_ ▸ shows)⟩

end KoyuRuntime.Services.DataRecorder
