/-
# Services.DataRecorder.Verdicts — where a drained verdict goes

One drain empties the inbox: the first request naming the capture is matched, and
every other one is parked in the quarantine directory with its reason
(`drained_eq`).  A handler that ends a capture drains once, and no other action
does (`verdict_step`).

So in every run the drained verdicts are, one for one, the parked ones and those
handed to a finalize job (`verdicts_accounted`).
-/
import KoyuRuntime.Services.DataRecorder.Jobs

namespace KoyuRuntime.Services.DataRecorder

open Host Theory Ipc

set_option autoImplicit false

variable {P V : Type}

/-! ## One drain -/

/-- The reason a request is parked with. -/
def parkReason (captureId : Option String) (req : JsonObj) : String :=
  if names captureId req then duplicateReason captureId else mismatchReason captureId

/-- A quarantine file for each request. -/
def parkAll (captureId : Option String) (reqs : List JsonObj) : List (JsonObj × String) :=
  reqs.map fun req => (req, parkReason captureId req)

section Drain

variable {captureId : Option String}

/-- Once a request has matched, every later one is parked. -/
theorem matchVerdicts_some (matched : JsonObj) (box : Inbox) (reqs : List JsonObj) :
    matchVerdicts captureId (some matched) box reqs =
      (some matched, { box with quarantined := box.quarantined ++ parkAll captureId reqs }) := by
  induction reqs generalizing box with
  | nil => simp [matchVerdicts, parkAll]
  | cons req rest ih =>
      by_cases hit : names captureId req = true
      · simp [matchVerdicts, hit, ih, Inbox.quarantine, parkAll, parkReason]
      · simp [matchVerdicts, hit, ih, Inbox.quarantine, parkAll, parkReason]

theorem matchVerdicts_none (box : Inbox) (reqs : List JsonObj) :
    matchVerdicts captureId none box reqs =
      (reqs.find? (names captureId),
        { box with
          quarantined := box.quarantined ++ parkAll captureId (reqs.eraseP (names captureId)) }) := by
  induction reqs generalizing box with
  | nil => simp [matchVerdicts, parkAll]
  | cons req rest ih =>
      by_cases hit : names captureId req = true
      · simp [matchVerdicts, hit, matchVerdicts_some]
      · simp [matchVerdicts, hit, ih, Inbox.quarantine, parkAll, parkReason]

/-- The matched request is the first one naming the capture. -/
theorem matchedVerdict_eq (box : Inbox) :
    matchedVerdict captureId box = box.requests.find? (names captureId) := by
  simp [matchedVerdict, matchVerdicts_none]

/-- Every other request is parked, and the inbox is empty. -/
theorem drained_eq (box : Inbox) :
    drained captureId box =
      ⟨[], box.quarantined ++ parkAll captureId (box.requests.eraseP (names captureId))⟩ := by
  simp [drained, matchVerdicts_none, Inbox.drain]

@[simp] theorem drained_files (box : Inbox) : (drained captureId box).files = [] := by
  rw [drained_eq]

theorem map_fst_parkAll (reqs : List JsonObj) : (parkAll captureId reqs).map Prod.fst = reqs := by
  rw [parkAll, List.map_map]
  exact List.map_id reqs

/-- Without a capture nothing matches, and every request is parked. -/
theorem drained_none (box : Inbox) :
    drained none box = ⟨[], box.quarantined ++ parkAll none box.requests⟩ := by
  rw [drained_eq, List.eraseP_of_forall_not]
  intro req _ hit
  cases hit

end Drain

section Perm

variable {α : Type} {all more parked handed hit rest : List α}

/-- The first hit of a list and the rest of it are the list. -/
theorem perm_find_eraseP (p : α → Bool) (l : List α) :
    l.Perm ((l.find? p).toList ++ l.eraseP p) := by
  induction l with
  | nil => exact List.Perm.refl _
  | cons a rest ih =>
      by_cases hit : p a = true
      · simp [hit]
      · simp only [List.find?_cons_of_neg hit, List.eraseP_cons_of_neg hit]
        exact (ih.cons a).trans List.perm_middle.symm

/-- One drain keeps an account balanced. -/
theorem balanced (account : all.Perm (parked ++ handed)) (split : more.Perm (hit ++ rest)) :
    (all ++ more).Perm ((parked ++ rest) ++ (handed ++ hit)) := by
  refine (account.append split).trans ?_
  rw [List.append_assoc, List.append_assoc, ← List.append_assoc handed]
  exact List.perm_append_comm.append_left parked

end Perm

/-! ## One action -/

/-- The pass of this action aborts the recording, or finds its clock silent. -/
def Doomed (cfg : Config P V) (r : Recorder P V) : Action P → Prop
  | .tick env =>
      (passed cfg (.tick env) r).state = .idle ∨
        clockSilent env.monoAfter (passed cfg (.tick env) r) = true
  | a => (passed cfg a r).state = .idle

theorem doomed_of_dead {cfg : Config P V} {r : Recorder P V} {a : Action P}
    (dead : (passed cfg a r).state = .idle) : Doomed cfg r a := by
  cases a with
  | tick env => exact .inl dead
  | _ => exact dead

/-- What an action does to the verdicts: nothing, or one drain that parks them all,
or one that hands the first match to the job it submits. -/
inductive VerdictStep (cfg : Config P V) (w : World P V) (a : Action P) (w' : World P V) : Prop where
  | kept
      (quarantined : w'.recorder.verdicts.quarantined = w.recorder.verdicts.quarantined)
      (submitted : submissions w'.recorder.journal = submissions w.recorder.journal)
      (alive : w.recorder.state = .recording → w'.recorder.state = .recording)
      (hist : ∀ h : History P V, (h.next cfg w a w').verdicts = h.verdicts)
  | parked
      (box : w'.recorder.verdicts = drained none w.recorder.verdicts)
      (submitted : submissions w'.recorder.journal = submissions w.recorder.journal)
      (doomed : a.isPass w.recorder = true → Doomed cfg w.recorder a)
      (hist : ∀ h : History P V,
        (h.next cfg w a w').verdicts = h.verdicts ++ w.recorder.verdicts.requests)
  | handed (job : Job V)
      (box : w'.recorder.verdicts = drained (some job.captureId) w.recorder.verdicts)
      (submitted : submissions w'.recorder.journal = submissions w.recorder.journal ++ [job])
      (own : job.captureId = w.recorder.cap.captureId)
      (matched : job.verdict = matchedVerdict (some job.captureId) w.recorder.verdicts)
      (pass : a.isPass w.recorder = true)
      (alive : (passed cfg a w.recorder).state = .recording)
      (hist : ∀ h : History P V,
        (h.next cfg w a w').verdicts = h.verdicts ++ w.recorder.verdicts.requests)

section Step

variable {libs : Libs V} {cfg : Config P V} {w w' : World P V} {a : Action P}

theorem next_verdicts_same (h : History P V)
    (same : w'.recorder.verdicts = w.recorder.verdicts) :
    (h.next cfg w a w').verdicts = h.verdicts := by
  have none : (if w'.recorder.verdicts.files = [] then h.verdicts ++ w.recorder.verdicts.requests
      else h.verdicts) = h.verdicts := by
    split
    · rename_i empty
      rw [same] at empty
      rw [Inbox.requests_of_files_nil empty, List.append_nil]
    · rfl
  cases a with
  | submit stem content => rfl
  | _ => exact none

theorem next_verdicts_drained (h : History P V) {captureId : Option String}
    (noFile : ∀ stem content, a ≠ .submit stem content)
    (box : w'.recorder.verdicts = drained captureId w.recorder.verdicts) :
    (h.next cfg w a w').verdicts = h.verdicts ++ w.recorder.verdicts.requests := by
  have empty : w'.recorder.verdicts.files = [] := by rw [box, drained_files]
  cases a with
  | submit stem content => exact absurd rfl (noFile stem content)
  | _ => exact if_pos empty

theorem isPass_noFile (pass : a.isPass w.recorder = true) : ∀ stem content, a ≠ .submit stem content := by
  rintro stem content rfl
  cases pass

/-- A pass that ends the recording has parked the inbox; any other leaves it alone. -/
theorem verdicts_passed_live (pass : a.isPass w.recorder = true)
    (alive : (passed cfg a w.recorder).state = .recording) :
    (passed cfg a w.recorder).verdicts = w.recorder.verdicts := by
  rw [(passed_same pass alive).verdicts, passStart_verdicts]

/-- **What an action does to the verdicts.** -/
theorem verdict_step (stepped : Stepped libs cfg w a w') : VerdictStep cfg w a w' := by
  cases stepped with
  | delivered topic sample =>
      refine .kept ?_ ?_ (fun alive => ?_) fun h => next_verdicts_same h ?_
      all_goals rw [deliver_eq]
      exact alive
  | filed => exact .kept rfl rfl (fun alive => alive) fun _ => rfl
  | ignored => exact .kept rfl rfl (fun alive => alive) fun h => next_verdicts_same h rfl
  | opened env period =>
      exact .kept rfl (by simp) (fun _ => rfl) fun h => next_verdicts_same h rfl
  | discarded env =>
      have box : (discard w.recorder).verdicts = drained none w.recorder.verdicts := discard_verdicts _
      exact .parked box (by simp) (fun pass => by simp [Action.isPass, ctlDiscard, ctlStop] at pass)
        fun h => next_verdicts_drained h (fun _ _ same => by cases same) box
  | collected env =>
      exact .kept (by simp) (submissions_collect _) (fun alive => (collect_state _).trans alive)
        fun h => next_verdicts_same h (collect_verdicts _)
  | aborted _ pass dead =>
      obtain ⟨mid, reason, same, eq⟩ := passed_dead pass dead
      have box : (passed cfg a w.recorder).verdicts = drained none w.recorder.verdicts := by
        rw [eq, abort_verdicts, same.verdicts, passStart_verdicts]
      exact .parked box (submissions_passed_dead pass dead) (fun _ => doomed_of_dead dead) fun h =>
        next_verdicts_drained h (isPass_noFile pass) box
  | continued env recording alive =>
      have pass := isPass_tick env recording
      have same := verdicts_passed_live pass alive
      exact .kept (by rw [publish_verdicts, same]) (submissions_passed_live pass alive) (fun _ => alive)
        fun h => next_verdicts_same h (by rw [publish_verdicts, same])
  | silent env recording alive timeout =>
      have pass := isPass_tick env recording
      have box : (abort (.clockSilent cfg.clock.topic)
          (publish (passed cfg (.tick env) w.recorder))).verdicts = drained none w.recorder.verdicts := by
        rw [abort_verdicts, publish_verdicts, verdicts_passed_live pass alive]
      refine .parked box ?_ (fun _ => .inr timeout) fun h =>
        next_verdicts_drained h (fun _ _ same => by cases same) box
      show submissions (abort _ (publish (passed cfg (.tick env) w.recorder))).journal = _
      rw [abort_journal, submissions_append, submissions_aborted, List.append_nil, publish_journal,
        submissions_passed_live pass alive]
  | submitted _ pass alive =>
      have same := verdicts_passed_live pass alive
      have own : (passed cfg a w.recorder).cap.captureId = w.recorder.cap.captureId := by
        rw [(passed_same pass alive).captureId, passStart_cap]
      have box : (submitFinalize (a.settle (passed cfg a w.recorder))).verdicts =
          drained (some (jobOf (a.settle (passed cfg a w.recorder))).captureId) w.recorder.verdicts := by
        rw [submitFinalize_verdicts, settle_verdicts, same]
        rfl
      refine .handed (jobOf (a.settle (passed cfg a w.recorder))) box ?_ ?_ ?_ pass alive fun h =>
        next_verdicts_drained h (isPass_noFile pass) box
      · show submissions (submitFinalize (a.settle (passed cfg a w.recorder))).journal = _
        rw [submitFinalize_journal, submissions_append, submissions_submitted, settle_journal,
          submissions_passed_live pass alive]
      · rw [jobOf, settle_cap, own]
      · simp only [jobOf, settle_cap, settle_verdicts, same]
  | waited => exact .kept rfl rfl (fun alive => alive) fun h => next_verdicts_same h rfl
  | finished call job =>
      exact .kept rfl (by simp [note]) (fun alive => alive) fun h => next_verdicts_same h rfl

end Step

/-! ## Whole runs -/

/-- Drained is parked, or handed over with a job whose capture it names. -/
structure VerdictsHeld (box₀ : Inbox) (t : Traced P V) : Prop where
  account : ∃ parked, t.world.recorder.verdicts.quarantined = box₀.quarantined ++ parked ∧
    t.hist.verdicts.Perm
      (parked.map Prod.fst ++ (submissions t.world.recorder.journal).filterMap Job.verdict)
  named : ∀ job ∈ submissions t.world.recorder.journal, ∀ v, job.verdict = some v →
    names (some job.captureId) v = true

section Run

variable {libs : Libs V} {cfg : Config P V} {box₀ : Inbox} {t₀ t : Traced P V}
  {actions : List (Action P)}

theorem verdictsHeld_next {w' : World P V} {a : Action P} (held : VerdictsHeld box₀ t)
    (stepped : Stepped libs cfg t.world a w') :
    VerdictsHeld box₀ ⟨w', t.hist.next cfg t.world a w'⟩ := by
  obtain ⟨⟨parked, quarantined, account⟩, named⟩ := held
  cases verdict_step stepped with
  | kept quarantined' submitted alive hist =>
      refine ⟨⟨parked, quarantined'.trans quarantined, ?_⟩, ?_⟩
      · show (t.hist.next cfg t.world a w').verdicts.Perm _
        rw [hist, submitted]
        exact account
      · show ∀ job ∈ submissions w'.recorder.journal, _
        rw [submitted]
        exact named
  | parked box submitted doomed hist =>
      refine ⟨⟨parked ++ parkAll none t.world.recorder.verdicts.requests, ?_, ?_⟩, ?_⟩
      · show w'.recorder.verdicts.quarantined = _
        rw [box, drained_none, quarantined, List.append_assoc]
      · show (t.hist.next cfg t.world a w').verdicts.Perm _
        rw [hist, submitted, List.map_append, map_fst_parkAll]
        simpa using balanced account
          (List.Perm.of_eq (List.nil_append t.world.recorder.verdicts.requests).symm)
      · show ∀ job ∈ submissions w'.recorder.journal, _
        rw [submitted]
        exact named
  | handed job box submitted own matched pass alive hist =>
      rw [matchedVerdict_eq] at matched
      refine ⟨⟨parked ++ parkAll (some job.captureId)
        (t.world.recorder.verdicts.requests.eraseP (names (some job.captureId))), ?_, ?_⟩, ?_⟩
      · show w'.recorder.verdicts.quarantined = _
        rw [box, drained_eq, quarantined, List.append_assoc]
      · have one : [job].filterMap Job.verdict = job.verdict.toList := by
          cases verdict : job.verdict <;> simp [verdict]
        show (t.hist.next cfg t.world a w').verdicts.Perm _
        rw [hist, submitted, List.map_append, map_fst_parkAll, List.filterMap_append, one, matched]
        exact balanced account (perm_find_eraseP _ _)
      · show ∀ job ∈ submissions w'.recorder.journal, _
        rw [submitted]
        intro job' mem v found
        rcases List.mem_append.mp mem with old | new
        · exact named job' old v found
        · rw [List.mem_singleton.mp new] at found ⊢
          rw [matched] at found
          exact List.find?_some found

/-- **Every drained verdict is accounted for** in every run: it is parked, or it was
handed to a finalize job whose capture it names. -/
theorem verdicts_accounted (initial : t₀.Init cfg)
    (run : runs (Traced.step libs cfg) t₀ actions = .ok t) :
    VerdictsHeld t₀.world.recorder.verdicts t := by
  refine runs_invariant (fun s a s' held step => ?_) run ⟨⟨[], (List.append_nil _).symm, ?_⟩, ?_⟩
  · obtain ⟨-, stepped, hist⟩ := traced_step_cases step
    have next := verdictsHeld_next held stepped
    rw [← hist] at next
    exact next
  · rw [initial.1.journal, initial.2]
    exact List.Perm.refl _
  · rw [initial.1.journal]
    intro _ none
    cases none

end Run

end KoyuRuntime.Services.DataRecorder
