/-
# Services.DataRecorder.Attribution — whose verdict an episode carries

A verdict reaches an `episode.json` only through the finalize job of the capture
it names, one job per capture, and the job is handed the first request of the
drain that names it (`Attributed`).

A handler that ends a capture settles the whole inbox (`settled_of_stepped`).  If
it hands the capture over, every request for it went with the job or is parked as
a duplicate; if its pass aborts, or the capture is discarded, all of them are
parked, also those for the capture that just ended.
-/
import KoyuRuntime.Services.DataRecorder.Ledger

namespace KoyuRuntime.Services.DataRecorder

open Host Theory Ipc

set_option autoImplicit false

variable {P V : Type}

/-- Every request for the capture that ends went with its finalize job, or is parked
as a duplicate. -/
def Told (w w' : World P V) : Prop :=
  ∀ req ∈ w.recorder.verdicts.requests, names (some w.recorder.cap.captureId) req = true →
    (∃ job ∈ submissions w'.recorder.journal,
      job.captureId = w.recorder.cap.captureId ∧ job.verdict = some req) ∨
    (req, duplicateReason (some w.recorder.cap.captureId)) ∈ w'.recorder.verdicts.quarantined

/-- How the inbox is settled when a capture ends. -/
inductive Settled (cfg : Config P V) (w : World P V) (a : Action P) (w' : World P V) : Prop where
  | handed (job : Job V) (pass : a.isPass w.recorder = true)
      (alive : (passed cfg a w.recorder).state = .recording)
      (own : job.captureId = w.recorder.cap.captureId)
      (submitted : submissions w'.recorder.journal = submissions w.recorder.journal ++ [job])
      (first : job.verdict = w.recorder.verdicts.requests.find? (names (some job.captureId)))
      (others : w'.recorder.verdicts.quarantined = w.recorder.verdicts.quarantined ++
        parkAll (some job.captureId)
          (w.recorder.verdicts.requests.eraseP (names (some job.captureId))))
      (told : Told w w')
  | parked (doomed : a.isPass w.recorder = true → Doomed cfg w.recorder a)
      (submitted : submissions w'.recorder.journal = submissions w.recorder.journal)
      (others : w'.recorder.verdicts.quarantined = w.recorder.verdicts.quarantined ++
        parkAll none w.recorder.verdicts.requests)

/-- Whose verdicts the episodes of a run carry. -/
structure Attributed (libs : Libs V) (disk₀ : Disk V) (box₀ : Inbox) (t : Traced P V) : Prop where
  /-- Every sidecar on disk that was not there at first is that of a committed job. -/
  merged : ∀ dir sc, t.world.disk.get? (episodeAt dir) = some (.file (.episode sc)) →
    disk₀.get? (episodeAt dir) = some (.file (.episode sc)) ∨
      ∃ d ∈ finishes t.world.recorder.journal, didCommit d.2 = true ∧ Tells libs d.1 sc
  /-- Every committed job has its sidecar on disk. -/
  committed : ∀ d ∈ finishes t.world.recorder.journal, didCommit d.2 = true →
    InEpisode libs t.world.disk d.1
  /-- Every finished job was handed over. -/
  finished : ∀ d ∈ finishes t.world.recorder.journal, d.1 ∈ submissions t.world.recorder.journal
  own : ∀ job ∈ submissions t.world.recorder.journal, ∀ v, job.verdict = some v →
    JsonObj.get? v "capture_id" = some (.str job.captureId)
  once : ((submissions t.world.recorder.journal).map Job.captureId).Nodup
  jobs : t.hist.handed.map Handed.job = submissions t.world.recorder.journal
  first : ∀ h ∈ t.hist.handed, h.job.verdict = h.inbox.find? (names (some h.job.captureId))
  parked : ∃ parked, t.world.recorder.verdicts.quarantined = box₀.quarantined ++ parked ∧
    t.hist.verdicts.Perm
      (parked.map Prod.fst ++ (submissions t.world.recorder.journal).filterMap Job.verdict)

/-! ## One step -/

section Step

variable {libs : Libs V} {cfg : Config P V} {w w' : World P V} {a : Action P}

theorem names_iff {id : String} {req : JsonObj} :
    names (some id) req = true ↔ id ≠ "" ∧ JsonObj.get? req "capture_id" = some (.str id) := by
  unfold names
  cases JsonObj.get? req "capture_id" with
  | none => simp
  | some value => simp [Json.eqStr_iff]

/-- One drain for a capture leaves none of its requests untold. -/
theorem told_of_drain {job : Job V}
    (own : job.captureId = w.recorder.cap.captureId)
    (submitted : submissions w'.recorder.journal = submissions w.recorder.journal ++ [job])
    (first : job.verdict = w.recorder.verdicts.requests.find? (names (some job.captureId)))
    (others : w'.recorder.verdicts.quarantined = w.recorder.verdicts.quarantined ++
      parkAll (some job.captureId)
        (w.recorder.verdicts.requests.eraseP (names (some job.captureId)))) : Told w w' := by
  intro req mem hit
  rw [← own] at hit ⊢
  have place := (perm_find_eraseP (names (some job.captureId)) w.recorder.verdicts.requests).mem_iff.mp mem
  rw [← first] at place
  rcases List.mem_append.mp place with matched | later
  · refine .inl ⟨job, ?_, rfl, by simpa using matched⟩
    rw [submitted]
    exact List.mem_append_right _ List.mem_cons_self
  · refine .inr ?_
    rw [others]
    refine List.mem_append_right _ (List.mem_map.mpr ⟨req, later, ?_⟩)
    rw [parkReason, if_pos hit]

/-- **The end of a capture settles the inbox.** -/
theorem settled_of_stepped (stepped : Stepped libs cfg w a w')
    (recording : w.recorder.state = .recording) (idle : w'.recorder.state = .idle) :
    Settled cfg w a w' := by
  cases verdict_step stepped with
  | kept _ _ alive =>
      rw [alive recording] at idle
      cases idle
  | parked box submitted doomed => exact .parked doomed submitted (by rw [box, drained_none])
  | handed job box submitted own matched pass alive =>
      rw [matchedVerdict_eq] at matched
      have others : w'.recorder.verdicts.quarantined = w.recorder.verdicts.quarantined ++
          parkAll (some job.captureId)
            (w.recorder.verdicts.requests.eraseP (names (some job.captureId))) := by
        rw [box, drained_eq]
      exact .handed job pass alive own submitted matched others
        (told_of_drain own submitted matched others)

/-- `STOP` ends the capture being recorded. -/
theorem stop_ends {env : Readings} (recording : w.recorder.state = .recording)
    (stepped : Stepped libs cfg w (.event "recorder/control" ctlStop env) w') :
    w'.recorder.state = .idle := by
  have pass := isPass_stop env recording
  generalize stop : (Action.event "recorder/control" ctlStop env : Action P) = a at stepped pass
  cases stepped with
  | aborted _ _ dead => exact dead
  | submitted => rfl
  | silent => rfl
  | discarded => rfl
  | ignored channel eventId env quiet =>
      rw [quiet] at pass
      cases pass
  | opened env period idle =>
      rw [recording] at idle
      cases idle
  | _ => cases stop

end Step

/-! ## Whole runs -/

section Run

variable {libs : Libs V} {cfg : Config P V} {t₀ t : Traced P V} {actions : List (Action P)}

theorem submissions_sublist (journal : List (Entry V)) :
    ((submissions journal).map Job.captureId).Sublist (endings journal) := by
  induction journal with
  | nil => exact List.Sublist.slnil
  | cons entry rest ih =>
      cases entry with
      | submitted job => exact ih.cons_cons job.captureId
      | discarded id => exact ih.cons id
      | aborted id reason => exact ih.cons id
      | _ => exact ih

/-- A capture is handed over at most once. -/
theorem submissions_distinct (reach : Traced.Reach libs cfg t) :
    ((submissions t.world.recorder.journal).map Job.captureId).Nodup := by
  have lived := reach_lived reach
  have ended : (endings t.world.recorder.journal).Sublist (openings t.world.recorder.journal) := by
    rw [lived.resolved]
    exact List.sublist_append_left _ _
  exact lived.distinct.sublist ((submissions_sublist _).trans ended)

/-- The handed jobs and the inboxes they were matched against. -/
structure FirstMatched (t : Traced P V) : Prop where
  jobs : t.hist.handed.map Handed.job = submissions t.world.recorder.journal
  first : ∀ h ∈ t.hist.handed, h.job.verdict = h.inbox.find? (names (some h.job.captureId))

theorem firstMatched_next {w' : World P V} {a : Action P} (held : FirstMatched t)
    (stepped : Stepped libs cfg t.world a w') :
    FirstMatched ⟨w', t.hist.next cfg t.world a w'⟩ := by
  have kept : submissions w'.recorder.journal = submissions t.world.recorder.journal →
      FirstMatched ⟨w', t.hist.next cfg t.world a w'⟩ := by
    intro same
    have handed := next_handed_same cfg t.hist same (a := a)
    exact ⟨by rw [handed, same]; exact held.jobs, by rw [handed]; exact held.first⟩
  cases verdict_step stepped with
  | kept _ submitted => exact kept submitted
  | parked _ submitted => exact kept submitted
  | handed job box submitted own matched =>
      have handed := next_handed_new cfg t.hist submitted (a := a)
      refine ⟨by rw [handed, submitted, List.map_append, held.jobs]; rfl, ?_⟩
      rw [handed]
      intro h mem
      rcases List.mem_append.mp mem with old | new
      · exact held.first h old
      · rw [List.mem_singleton.mp new]
        exact matched.trans (matchedVerdict_eq _)

theorem reach_firstMatched (reach : Traced.Reach libs cfg t) : FirstMatched t := by
  refine reach_invariant ?_ (fun _ _ _ held _ stepped =>
    firstMatched_next held stepped) reach
  intro t initial
  obtain ⟨booted, hist⟩ := initial
  refine ⟨?_, ?_⟩
  · rw [hist, booted.journal]
    rfl
  · rw [hist]
    intro _ none
    cases none

end Run

namespace Demo

/-- A verdict for another capture. -/
def stray : JsonObj := [("capture_id", .str secondId.hex), ("reward", .int 0)]

/-- Two verdicts for the capture and one for another, and a job that commits. -/
def rivals : List (Action Nat) :=
  [.submit "1" (some stray), .submit "2" (some rewarded), .submit "3" (some rewarded)] ++ recorded

theorem run_rivals : runs (Traced.step libs rig) boot rivals = .ok (after rivals) :=
  runs_of_accepts (by decide +kernel)

/-- The clock has stepped back when `STOP` comes, and the verdict is in the inbox. -/
def steppedBack : List (Action Nat) :=
  [startAt 1000, .deliver "cam/front" ⟨2000, 5, 50⟩, .deliver "act/cmd" ⟨2100, 5, 55⟩,
    .deliver "cam/front" ⟨1500, 6, 60⟩, .deliver "act/cmd" ⟨1600, 6, 65⟩,
    .submit "1" (some rewarded)]

end Demo

end KoyuRuntime.Services.DataRecorder
