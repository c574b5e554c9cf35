/-
# Services.DataRecorder.Jobs — the finalize jobs between hand-over and collection

One worker runs the jobs one after the other, oldest first, and a tick collects
the finished ones.  So at any time the pending futures are some finished jobs
followed by the waiting ones, and the journal accounts for every job handed over:
the finished jobs in order, then the waiting ones.

* `jobs_accounted`: submitted = finished ++ waiting, finished = collected ++
  finished but not yet collected, in every reachable state.
* `pending_submitted`: a pending job was handed over.
* `finishes_next`: only the worker finishes jobs and writes the disk.
-/
import KoyuRuntime.Services.DataRecorder.Steps

namespace KoyuRuntime.Services.DataRecorder

open Host Theory Ipc

set_option autoImplicit false

variable {P V : Type}

/-- The jobs a journal says were finished, with their results. -/
def finishes (journal : List (Entry V)) : List (Job V × Except Exn Outcome) :=
  journal.filterMap fun
    | .finished job result => some (job, result)
    | _ => none

/-- The jobs a journal says were collected, with their results. -/
def collections (journal : List (Entry V)) : List (Job V × Except Exn Outcome) :=
  journal.filterMap fun
    | .collected job result => some (job, result)
    | _ => none

/-- The jobs no worker has finished. -/
def waitingJobs (pending : List (Future V)) : List (Job V) :=
  (pending.filter fun fut => fut.result.isNone).map Future.job

/-- No finished future stands behind one that is not. -/
def DoneFirst (pending : List (Future V)) : Prop :=
  pending.Pairwise fun f g => f.result = none → g.result = none

/-! ## Futures -/

section Futures

variable {pending : List (Future V)} {fut : Future V} {job : Job V}

theorem doneJobs_cons_some {result : Except Exn Outcome} (done : fut.result = some result) :
    doneJobs (fut :: pending) = (fut.job, result) :: doneJobs pending := by
  simp [doneJobs, done]

theorem doneJobs_append (more : List (Future V)) :
    doneJobs (pending ++ more) = doneJobs pending ++ doneJobs more :=
  List.filterMap_append

theorem waitingJobs_append (more : List (Future V)) :
    waitingJobs (pending ++ more) = waitingJobs pending ++ waitingJobs more := by
  simp [waitingJobs]

/-- A queue of waiting futures has nothing done. -/
theorem doneJobs_of_waiting (all : ∀ fut ∈ pending, fut.result = none) : doneJobs pending = [] := by
  unfold doneJobs
  rw [List.filterMap_eq_nil_iff]
  intro fut mem
  simp [all fut mem]

/-- What stays after a collection is what was waiting. -/
theorem doneJobs_filter : doneJobs (pending.filter fun fut => fut.result.isNone) = [] :=
  doneJobs_of_waiting fun fut mem => by simpa using (List.mem_filter.mp mem).2

theorem waitingJobs_filter :
    waitingJobs (pending.filter fun fut => fut.result.isNone) = waitingJobs pending := by
  simp [waitingJobs]

theorem DoneFirst.snoc (order : DoneFirst pending) (job : Job V) :
    DoneFirst (pending ++ [⟨job, none⟩]) := by
  unfold DoneFirst
  rw [List.pairwise_append]
  exact ⟨order, List.pairwise_singleton _ _, fun f _ g single _ => by
    rw [List.mem_singleton.mp single]⟩

/-- Finishing the oldest waiting job moves it from the waiting to the done ones. -/
theorem completeNext_spec (order : DoneFirst pending) (next : nextJob pending = some job)
    (result : Except Exn Outcome) :
    DoneFirst (completeNext result pending) ∧
      doneJobs (completeNext result pending) = doneJobs pending ++ [(job, result)] ∧
      waitingJobs pending = job :: waitingJobs (completeNext result pending) := by
  induction pending with
  | nil => simp [nextJob] at next
  | cons fut rest ih =>
      obtain ⟨first, later⟩ := List.pairwise_cons.mp order
      cases done : fut.result with
      | none =>
          have all : ∀ g ∈ rest, g.result = none := fun g mem => first g mem done
          have same : fut.job = job := by simpa [nextJob, done] using next
          refine ⟨?_, ?_, ?_⟩
          · simp only [completeNext, done]
            exact List.pairwise_cons.mpr ⟨fun g _ running => absurd running (by simp), later⟩
          · rw [doneJobs_of_waiting (List.forall_mem_cons.mpr ⟨done, all⟩)]
            simp only [completeNext, done]
            rw [doneJobs_cons_some rfl, doneJobs_of_waiting all, same]
            rfl
          · simp [completeNext, done, waitingJobs, same]
      | some before =>
          have next' : nextJob rest = some job := by simpa [nextJob, done] using next
          obtain ⟨order', doneEq, waitEq⟩ := ih later next'
          refine ⟨?_, ?_, ?_⟩
          · simp only [completeNext, done]
            exact List.pairwise_cons.mpr ⟨fun g _ running => by simp [done] at running, order'⟩
          · simp only [completeNext, done]
            rw [doneJobs_cons_some done, doneJobs_cons_some done, doneEq, List.cons_append]
          · simpa [completeNext, done, waitingJobs] using waitEq

/-- The finished futures stand before the waiting ones. -/
theorem DoneFirst.map_job (order : DoneFirst pending) :
    pending.map Future.job = (doneJobs pending).map Prod.fst ++ waitingJobs pending := by
  induction pending with
  | nil => rfl
  | cons fut rest ih =>
      obtain ⟨first, later⟩ := List.pairwise_cons.mp order
      cases done : fut.result with
      | none =>
          have all : ∀ g ∈ fut :: rest, g.result = none :=
            List.forall_mem_cons.mpr ⟨done, fun g behind => first g behind done⟩
          have kept : (fut :: rest).filter (fun g => g.result.isNone) = fut :: rest := by
            rw [List.filter_eq_self]
            intro g mem
            simp [all g mem]
          rw [doneJobs_of_waiting all, waitingJobs, kept]
          rfl
      | some result =>
          rw [List.map_cons, ih later, doneJobs_cons_some done]
          simp [waitingJobs, done]

end Futures

/-! ## The account of a run -/

/-- The journal accounts for every job. -/
structure JobsKept (r : Recorder P V) : Prop where
  order : DoneFirst r.pending
  submitted : submissions r.journal = (finishes r.journal).map Prod.fst ++ waitingJobs r.pending
  finished : finishes r.journal = collections r.journal ++ doneJobs r.pending

theorem finishes_append (journal more : List (Entry V)) :
    finishes (journal ++ more) = finishes journal ++ finishes more :=
  List.filterMap_append

theorem collections_append (journal more : List (Entry V)) :
    collections (journal ++ more) = collections journal ++ collections more :=
  List.filterMap_append

/-- An entry that is about no job. -/
def Entry.bare : Entry V → Bool
  | .opened _ _ _ _ => true
  | .discarded _ => true
  | .aborted _ _ => true
  | _ => false

section Kept

variable {r r' : Recorder P V}

theorem JobsKept.congr (kept : JobsKept r) (pending : r'.pending = r.pending)
    (journal : r'.journal = r.journal) : JobsKept r' where
  order := pending ▸ kept.order
  submitted := by rw [pending, journal, kept.submitted]
  finished := by rw [pending, journal, kept.finished]

theorem JobsKept.bare (kept : JobsKept r) {entry : Entry V} (pending : r'.pending = r.pending)
    (journal : r'.journal = r.journal ++ [entry]) (about : entry.bare = true) :
    JobsKept r' := by
  have none : submissions [entry] = [] ∧ finishes [entry] = [] ∧ collections [entry] = [] := by
    cases entry <;> simp_all [Entry.bare, submissions, finishes, collections]
  obtain ⟨noSubmission, noFinish, noCollection⟩ := none
  refine ⟨pending ▸ kept.order, ?_, ?_⟩
  · rw [journal, pending, submissions_append, finishes_append, noSubmission, noFinish,
      List.append_nil, List.append_nil, kept.submitted]
  · rw [journal, pending, finishes_append, collections_append, noFinish, noCollection,
      List.append_nil, List.append_nil, kept.finished]

theorem JobsKept.submit (kept : JobsKept r) {job : Job V}
    (pending : r'.pending = r.pending ++ [⟨job, none⟩])
    (journal : r'.journal = r.journal ++ [.submitted job]) : JobsKept r' := by
  have noFinish : finishes [Entry.submitted job] = [] := rfl
  have noCollection : collections [Entry.submitted job] = [] := rfl
  refine ⟨pending ▸ kept.order.snoc job, ?_, ?_⟩
  · rw [journal, pending, submissions_append, finishes_append, noFinish, List.append_nil,
      waitingJobs_append, kept.submitted, List.append_assoc]
    rfl
  · rw [journal, pending, finishes_append, collections_append, noFinish, noCollection,
      List.append_nil, List.append_nil, doneJobs_append, kept.finished]
    simp [doneJobs]

theorem finishes_collected (done : List (Job V × Except Exn Outcome)) :
    finishes (done.map fun d => .collected d.1 d.2) = [] := by
  induction done with
  | nil => rfl
  | cons d rest ih => exact ih

theorem JobsKept.collect (kept : JobsKept r) : JobsKept (collect r) := by
  have all : collections ((doneJobs r.pending).map fun d => Entry.collected d.1 d.2) =
      doneJobs r.pending := by
    simp [collections]
  rw [collect_eq]
  refine ⟨List.Pairwise.filter _ kept.order, ?_, ?_⟩
  · simp only [submissions_append, submissions_collected, finishes_append, finishes_collected,
      List.append_nil, waitingJobs_filter, kept.submitted]
  · simp only [finishes_append, finishes_collected, collections_append, all, doneJobs_filter,
      List.append_nil, kept.finished]

theorem JobsKept.finish (kept : JobsKept r) {job : Job V} (next : nextJob r.pending = some job)
    (result : Except Exn Outcome) :
    JobsKept (note (.finished job result)
      { r with pending := completeNext result r.pending }) := by
  obtain ⟨order, doneEq, waitEq⟩ := completeNext_spec kept.order next result
  have finished : finishes [Entry.finished job result] = [(job, result)] := rfl
  refine ⟨order, ?_, ?_⟩
  · simp only [note, submissions_append, submissions_finished, finishes_append, finished,
      List.append_nil, kept.submitted, List.map_append, List.append_assoc, List.append_cancel_left_eq,
      waitEq]
    rfl
  · have noCollection : collections [Entry.finished job result] = [] := rfl
    simp only [note, finishes_append, finished, collections_append, noCollection, List.append_nil,
      doneEq, kept.finished, List.append_assoc]

end Kept

theorem JobsKept.passStart {r : Recorder P V} (kept : JobsKept r) (a : Action P) :
    JobsKept (a.passStart r) := by
  cases a <;> first | exact kept.collect | exact kept

section Run

variable {libs : Libs V} {cfg : Config P V} {w w' : World P V} {a : Action P} {t : Traced P V}

theorem jobsKept_passed {r : Recorder P V} (kept : JobsKept r) (pass : a.isPass r = true) :
    JobsKept (passed cfg a r) := by
  have started := kept.passStart a
  have effect : PassEffect (a.passStart r) (passed cfg a r) := passed_effect pass
  generalize passed cfg a r = out at effect
  cases effect with
  | live same => exact started.congr same.pending same.journal
  | aborted reason same =>
      exact (started.congr same.pending same.journal).bare (abort_pending _ _) (abort_journal _ _) rfl

theorem jobsKept_next (kept : JobsKept w.recorder) (stepped : Stepped libs cfg w a w') :
    JobsKept w'.recorder := by
  cases stepped with
  | delivered topic sample => exact kept.congr (by rw [deliver_eq]) (by rw [deliver_eq])
  | filed => exact kept.congr rfl rfl
  | ignored => exact kept
  | opened env period => exact kept.bare rfl rfl rfl
  | discarded => exact kept.bare rfl rfl rfl
  | collected => exact kept.collect
  | aborted _ pass => exact jobsKept_passed kept pass
  | continued env recording =>
      exact (jobsKept_passed kept (isPass_tick _ recording)).congr rfl rfl
  | silent env recording =>
      have passed : JobsKept (passed cfg (.tick env) w.recorder) :=
        jobsKept_passed kept (isPass_tick _ recording)
      exact (passed.congr (publish_pending _) (publish_journal _)).bare (abort_pending _ _)
        (abort_journal _ _) rfl
  | submitted _ pass =>
      have passed : JobsKept (passed cfg a w.recorder) := jobsKept_passed kept pass
      exact (passed.congr (settle_pending a _) (settle_journal a _)).submit (submitFinalize_pending _)
        (submitFinalize_journal _)
  | waited => exact kept
  | finished call job next => exact kept.finish next _

theorem finishes_passStart (a : Action P) (r : Recorder P V) :
    finishes (a.passStart r).journal = finishes r.journal := by
  cases a <;> simp [Action.passStart, collect_eq, finishes_append, finishes_collected]

theorem finishes_passed {r : Recorder P V} (pass : a.isPass r = true) :
    finishes (passed cfg a r).journal = finishes r.journal := by
  have started := finishes_passStart a r
  have effect : PassEffect (a.passStart r) (passed cfg a r) := passed_effect pass
  generalize passed cfg a r = out at effect
  cases effect with
  | live same => rw [same.journal, started]
  | aborted reason same =>
      rw [abort_journal, finishes_append, same.journal, started]
      exact List.append_nil _

/-- Only the worker finishes a job, and only the worker writes the disk. -/
theorem finishes_next (stepped : Stepped libs cfg w a w') :
    (finishes w'.recorder.journal = finishes w.recorder.journal ∧ w'.disk = w.disk ∧
        ∀ call, a = .finish call → nextJob w.recorder.pending = none) ∨
      ∃ call job, a = .finish call ∧ nextJob w.recorder.pending = some job ∧
        finishes w'.recorder.journal =
          finishes w.recorder.journal ++ [(job, (runJob libs cfg call job w.disk).1)] ∧
        w'.disk = (runJob libs cfg call job w.disk).2 := by
  have bare : ∀ (journal : List (Entry V)) {entry : Entry V}, finishes [entry] = [] →
      finishes (journal ++ [entry]) = finishes journal := by
    intro journal entry none
    rw [finishes_append, none, List.append_nil]
  have noFinish : a.isPass w.recorder = true → ∀ call, a = .finish call →
      nextJob w.recorder.pending = none := by
    rintro pass call rfl
    cases pass
  cases stepped with
  | delivered topic sample => exact .inl ⟨by rw [deliver_eq], rfl, fun _ same => by cases same⟩
  | filed => exact .inl ⟨rfl, rfl, fun _ same => by cases same⟩
  | ignored => exact .inl ⟨rfl, rfl, fun _ same => by cases same⟩
  | opened => exact .inl ⟨bare _ rfl, rfl, fun _ same => by cases same⟩
  | discarded => exact .inl ⟨bare _ rfl, rfl, fun _ same => by cases same⟩
  | collected env =>
      exact .inl ⟨finishes_passStart (.tick env) w.recorder, rfl, fun _ same => by cases same⟩
  | aborted _ pass => exact .inl ⟨finishes_passed pass, rfl, noFinish pass⟩
  | continued env recording =>
      have pass := isPass_tick env recording
      exact .inl ⟨finishes_passed pass, rfl, noFinish pass⟩
  | silent env recording =>
      have pass := isPass_tick env recording
      refine .inl ⟨?_, rfl, noFinish pass⟩
      show finishes (abort _ (publish (passed cfg (.tick env) w.recorder))).journal = _
      rw [abort_journal, bare _ rfl, publish_journal]
      exact finishes_passed pass
  | submitted _ pass =>
      refine .inl ⟨?_, rfl, noFinish pass⟩
      show finishes (submitFinalize (a.settle (passed cfg a w.recorder))).journal = _
      rw [submitFinalize_journal, bare _ rfl, settle_journal]
      exact finishes_passed pass
  | waited _ none => exact .inl ⟨rfl, rfl, fun _ _ => none⟩
  | finished call job next => exact .inr ⟨call, job, rfl, next, finishes_append _ _, rfl⟩

theorem mem_of_nextJob {pending : List (Future V)} {job : Job V} (next : nextJob pending = some job) :
    job ∈ pending.map Future.job := by
  obtain ⟨fut, found, rfl⟩ := Option.map_eq_some_iff.mp next
  exact List.mem_map_of_mem (List.mem_of_find?_eq_some found)

/-- **Every job is accounted for** in every reachable state. -/
theorem jobs_accounted (reach : Traced.Reach libs cfg t) : JobsKept t.world.recorder := by
  refine reach_invariant ?_ (fun _ _ _ kept _ stepped => jobsKept_next kept stepped)
    reach
  intro t initial
  obtain ⟨booted, -⟩ := initial
  refine ⟨?_, ?_, ?_⟩ <;> rw [booted.pending]
  · exact List.Pairwise.nil
  · rw [booted.journal]
    rfl
  · rw [booted.journal]
    rfl

/-- What is handed over and not collected is pending, in order. -/
theorem pending_submitted (reach : Traced.Reach libs cfg t) :
    submissions t.world.recorder.journal =
      (collections t.world.recorder.journal).map Prod.fst ++ t.world.recorder.pending.map Future.job := by
  have kept := jobs_accounted reach
  rw [kept.submitted, kept.finished, kept.order.map_job, List.map_append, List.append_assoc]

end Run

end KoyuRuntime.Services.DataRecorder
