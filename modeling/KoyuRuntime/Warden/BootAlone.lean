/-
# Warden.BootAlone — what a command leaves behind when no other runs

One command after the other, with edits, services and the daemon's end at any time in between.
A command that returned or raised has ended; what follows is about the state it ended in.

* `Deployed`: after an `up` or an `apply` that returned, the conf is what a version held while
  it ran gives, every validator was content with such a version, and the groups of the daemon
  are the programs supervisord reads in that conf.
* `Undisturbed`: every other command, and an `up` or `apply` that was refused before it began
  to write, leaves the conf and the configurations of the daemon as they were.
* `commands_settle`: both, and waiting is not given up before its time.
* `deployed_unedited`: if the file was not edited meanwhile, it is the file as it stands.
* `sweeps_when_down`: a command changes the segments only when there is no daemon, unless a
  probe has missed it.
-/
import KoyuRuntime.Warden.BootCalm

namespace KoyuRuntime.Warden.Boot

open Host Theory
open Ipc.Checks (CheckError)

set_option autoImplicit false

section Alone

variable {Config : Type}

/-! ## What is deployed -/

/-- The file held this version at some time since `s`. -/
def During (s t : World Config) (doc : Document) : Prop :=
  ∃ more, t.versions = more ++ s.earlier ∧ doc ∈ more

/-- The versions and the clock have gone on. -/
structure Since (s t : World Config) : Prop where
  versions : s.versions <:+ t.versions
  clock : s.clock ≤ t.clock

theorem Undisturbed.since {s t : World Config} (quiet : Undisturbed s t) : Since s t :=
  ⟨quiet.versions, quiet.clock⟩

theorem Since.trans {s t u : World Config} (one : Since s t) (other : Since t u) : Since s u :=
  ⟨one.versions.trans other.versions, one.clock.trans other.clock⟩

/-- The version the file holds now is one it held since. -/
theorem Since.during {s t : World Config} (since : Since s t) : During s t t.services := by
  obtain ⟨more, same⟩ := since.versions
  refine ⟨more ++ [s.services], by rw [List.append_assoc]; exact same.symm, ?_⟩
  cases more with
  | nil => exact List.mem_append_right _ (by rw [(List.cons.inj same).1]; exact List.mem_singleton_self _)
  | cons doc rest => exact List.mem_append_left _ (by rw [← (List.cons.inj same).1]; exact List.mem_cons_self)

theorem During.later {s t u : World Config} {doc : Document} (during : During s t doc)
    (since : Since t u) : During s u doc := by
  obtain ⟨more, split, mem⟩ := during
  obtain ⟨later, same⟩ := since.versions
  refine ⟨later ++ more, ?_, List.mem_append_right later mem⟩
  rw [← same, split, List.append_assoc]

theorem During.unedited {s t : World Config} {doc : Document} (during : During s t doc)
    (unedited : t.versions = s.versions) : doc = t.services := by
  obtain ⟨more, split, mem⟩ := during
  have one : more = [s.services] := by
    exact List.append_cancel_right (split.symm.trans unedited)
  rw [one] at mem
  rw [List.mem_singleton.mp mem]
  exact (List.cons.inj unedited).1.symm

variable (setup : Setup Config)

/-- A conf of a version held since `s`, with every validator content with such a version. -/
structure Chosen (s t : World Config) (text : String) : Prop where
  since : Since s t
  generated : ∃ doc, During s t doc ∧ ∃ specs, loadServices setup doc = .ok specs ∧
    render setup specs = .ok text
  accepted : ∀ validator ∈ setup.validators, ∃ doc, During s t doc ∧ validator doc = .ok ()

/-- The conf stands in its file, and the daemon has these configurations. -/
structure Holds (s : World Config) (text : String) (file : OrderedDict String Config)
    (configs : String → Option Config) (t : World Config) : Prop where
  chosen : Chosen setup s t text
  conf : t.conf = some text
  reads : setup.programs text = .ok file
  daemon : ∀ d, t.daemon = some d → d.core.reread = file ∧ ∀ name, d.configs name = configs name

/-- The conf was chosen since `s`, and the groups of the daemon are its programs. -/
def Deployed (s t : World Config) : Prop := ∃ text file, Holds setup s text file file.get? t

variable {setup} {s t u w : World Config} {text : String} {file : OrderedDict String Config}
  {configs : String → Option Config}

theorem Chosen.later (chosen : Chosen setup s t text) (since : Since t u) : Chosen setup s u text := by
  obtain ⟨doc, during, generated⟩ := chosen.generated
  refine ⟨chosen.since.trans since, ⟨doc, during.later since, generated⟩, ?_⟩
  intro validator mem
  obtain ⟨doc', during', accepts⟩ := chosen.accepted validator mem
  exact ⟨doc', during'.later since, accepts⟩

theorem stable_chosen (s : World Config) (text : String) :
    Stable (aloneRely Config) fun t => Chosen setup s t text :=
  fun _ _ chosen may => chosen.later may.since

theorem stable_holds : Stable (aloneRely Config) (Holds setup s text file configs) := by
  intro t u holds may
  refine ⟨holds.chosen.later may.since, may.conf.trans holds.conf, holds.reads, ?_⟩
  intro d' there
  obtain ⟨d, before, same⟩ := may.daemon d' there
  obtain ⟨reread, groups⟩ := holds.daemon d before
  exact ⟨same.reread.trans reread, fun name => (same.configs name).trans (groups name)⟩

/-- A daemon that was there before, if there is one at all. -/
theorem stable_deployed (s : World Config) : Stable (aloneRely Config) (Deployed setup s) := by
  rintro t u ⟨text, file, holds⟩ may
  exact ⟨text, file, stable_holds t u holds may⟩

/-! ## How a command can end -/

/-- Raised before a conf was written, or by a command that writes none. -/
def Early : BootExn → Prop
  | .failedToStart _ | .notReachable | .notShutDown | .supervisord _ _ => False
  | _ => True

/-- What holds when a command launched in `s` has raised. -/
def Raised (setup : Setup Config) (s : World Config) (e : BootExn) (t : World Config) : Prop :=
  (Early e → Undisturbed s t) ∧
    (e = .notReachable → Deployed setup s t ∧ s.clock + readyTimeout ≤ t.clock) ∧
    (e = .notShutDown → Undisturbed s t ∧ s.clock + readyTimeout ≤ t.clock)

/-- And when it has returned. -/
def Returned (setup : Setup Config) (s : World Config) : Reply → World Config → Prop
  | .up _ | .applied _ => Deployed setup s
  | _ => Undisturbed s

theorem raised_early {e : BootExn} (early : Early e) (quiet : Undisturbed s t) : Raised setup s e t :=
  ⟨fun _ => quiet, fun same => by rw [same] at early; exact early.elim,
    fun same => by rw [same] at early; exact early.elim⟩

theorem raised_failedToStart (detail : String) : Raised setup s (.failedToStart detail) t :=
  ⟨False.elim, nofun, nofun⟩

theorem raised_supervisord (what : String) (why : CallFailure) : Raised setup s (.supervisord what why) t :=
  ⟨False.elim, nofun, nofun⟩

theorem raised_byCall {e : BootExn} (byCall : ByCall e t) : Raised setup s e t := by
  obtain ⟨what, why, rfl⟩ := byCall
  exact raised_supervisord what why

theorem stable_raised (e : BootExn) : Stable (aloneRely Config) (Raised setup s e) := by
  intro t u raised may
  refine ⟨fun early => (raised.1 early).trans may, ?_, ?_⟩
  · intro same
    obtain ⟨deployed, late⟩ := raised.2.1 same
    exact ⟨stable_deployed s t u deployed may, late.trans may.clock⟩
  · intro same
    obtain ⟨quiet, late⟩ := raised.2.2 same
    exact ⟨quiet.trans may, late.trans may.clock⟩

/-- A step of the command itself: it sweeps only where it knows of no daemon. -/
def SweepsDown (w t : World Config) : Prop :=
  t.segments = w.segments ∨ w.daemon = none ∨ w.missed = true

/-- A command launched in `s`, in a later state. -/
abbrev Sound {α : Type} (setup : Setup Config) (s : World Config) (Q : α → World Config → Prop)
    (p : Run Config α) (w : World Config) : Prop :=
  Safe (aloneRely Config) SweepsDown Q (Raised setup s) p w

section Parts

variable {α : Type} {p : Run Config α} {X : BootExn → World Config → Prop} {P : World Config → Prop}

/-- A calm part of a command keeps what the surroundings keep. -/
theorem Calm.sound (calm : Calm X p w) (stable : Stable (aloneRely Config) P) (holds : P w)
    (raises : ∀ e t, X e t ∧ P t → Raised setup s e t) : Sound setup s (fun _ => P) p w :=
  (calm.keeping stable holds raises).guarantee fun _ _ calmly => .inl calmly.2

/-- A daemon is not there, or was missed. -/
def Down (t : World Config) : Prop := t.daemon = none ∨ t.missed = true

theorem stable_down : Stable (aloneRely Config) Down := by
  rintro t u (none_ | missed) may
  · refine .inl ?_
    cases there : u.daemon with
    | none => rfl
    | some d =>
        obtain ⟨d₀, before, -⟩ := may.daemon d there
        rw [none_] at before
        cases before
  · exact .inr (may.missed missed)

/-- **Probing**: where the answer is no, there is no daemon or it was missed. -/
theorem sound_isRunning (quiet : Undisturbed s w) :
    Sound setup s (fun there t => Undisturbed s t ∧ (there = false → Down t)) isRunning w := by
  intro t may
  refine ⟨.inl rfl, ?_⟩
  have probed := (calmly_probe t).1
  intro u later
  refine ⟨(quiet.trans may).trans (probed.trans later), ?_⟩
  intro silent
  refine stable_down _ u ?_ later
  cases there : t.daemon with
  | none => exact .inl there
  | some d =>
      refine .inr ?_
      show (t.missed || (t.daemon.isSome && !t.answers)) = true
      rw [there, silent]
      simp

theorem sound_load (quiet : Undisturbed s w) (down : P w) (stable : Stable (aloneRely Config) P) :
    Sound setup s (fun specs t => (Undisturbed s t ∧ P t) ∧
      ∃ doc, During s t doc ∧ loadServices setup doc = .ok specs) (load setup) w := by
  have stable' := (stable_undisturbed s).and stable
  refine Safe.atomic ⟨quiet, down⟩ stable' ?_ stable_raised ?_
  · rintro specs t u ⟨holds, doc, during, loads⟩ may
    exact ⟨stable' t u holds may, doc, during.later may.since, loads⟩
  · rintro t holds
    refine ⟨.inl rfl, fun specs loads => ⟨holds, t.services, holds.1.since.during, loads⟩, ?_⟩
    intro e failed
    refine raised_early ?_ holds.1
    change loadServices setup t.services = .error e at failed
    unfold loadServices at failed
    split at failed
    · cases failed
      trivial
    · cases failed
      trivial
    · split at failed
      · cases failed
      · cases failed
        trivial

/-- Each of these validators was content with a version held since `s`. -/
def AcceptedSince (s t : World Config) (validators : List (Document → Except CheckError Unit)) : Prop :=
  ∀ validator ∈ validators, ∃ doc, During s t doc ∧ validator doc = .ok ()

theorem AcceptedSince.later {validators : List (Document → Except CheckError Unit)}
    (accepted : AcceptedSince s t validators) (since : Since t u) : AcceptedSince s u validators := by
  intro validator mem
  obtain ⟨doc, during, accepts⟩ := accepted validator mem
  exact ⟨doc, during.later since, accepts⟩

theorem sound_validate (quiet : Undisturbed s w) (down : P w) (stable : Stable (aloneRely Config) P) :
    Sound setup s (fun _ t => (Undisturbed s t ∧ P t) ∧ AcceptedSince s t setup.validators)
      (.each validate setup.validators) w := by
  let ran (rest : List (Document → Except CheckError Unit)) (t : World Config) : Prop :=
    (Undisturbed s t ∧ P t) ∧ ∃ before, before ++ rest = setup.validators ∧ AcceptedSince s t before
  have stable' : ∀ rest, Stable (aloneRely Config) (ran rest) := by
    rintro rest t u ⟨holds, before, split, accepted⟩ may
    exact ⟨((stable_undisturbed s).and stable) t u holds may, before, split, accepted.later may.since⟩
  have base : ran setup.validators w :=
    ⟨⟨quiet, down⟩, [], rfl, fun _ mem => (List.not_mem_nil mem).elim⟩
  refine (Safe.each ran stable' ?_ _ base).mono ?_ fun _ _ => id
  · intro validator rest t holds
    refine Safe.atomic holds (stable' _) (fun _ => stable' rest) stable_raised ?_
    rintro t ⟨holds, before, split, accepted⟩
    split
    · rename_i content
      refine ⟨.inl rfl, fun _ _ => ?_, by rintro _ ⟨⟩⟩
      refine ⟨holds, before ++ [validator], by rw [List.append_assoc]; exact split, ?_⟩
      intro v mem
      rcases List.mem_append.mp mem with earlier | here
      · exact accepted v earlier
      · rw [List.mem_singleton.mp here]
        exact ⟨t.services, holds.1.since.during, content⟩
    · refine ⟨.inl rfl, by rintro _ ⟨⟩, ?_⟩
      intro e failed
      cases failed
      exact raised_early trivial holds.1
  · rintro _ t ⟨holds, before, split, accepted⟩
    rw [List.append_nil] at split
    rw [← split]
    exact ⟨holds, accepted⟩

/-- **Cleaning up**, where no daemon is known of. -/
theorem sound_clean {P : World Config → Prop} (stable : Stable (aloneRely Config) P)
    (quiet : ∀ t, P t → Undisturbed s t ∧ Down t) (holds : P w) :
    Sound setup s (fun _ => P) (.each clean setup.cleanups) w := by
  refine Safe.each (fun _ => P) (fun _ => stable) ?_ _ holds
  intro cleanup _ t holds
  refine Safe.atomic holds stable (fun _ => stable) stable_raised ?_
  intro t holds
  obtain ⟨undisturbed, down⟩ := quiet t holds
  have moved : ∀ segments, Undisturbed t { t with segments := segments } := fun segments =>
    undisturbed_of_same rfl (le_refl _) rfl (fun d there => ⟨d, there, .refl d⟩) id
  split
  · rename_i segments _
    exact ⟨.inr down, fun _ _ => stable t _ holds (moved segments),
      by rintro _ ⟨⟩⟩
  · rename_i e' segments _
    refine ⟨.inr down, by rintro _ ⟨⟩, ?_⟩
    intro e failed
    cases failed
    exact raised_early trivial (undisturbed.trans (moved segments))

/-! ### Writing and starting -/

theorem sound_writeText (chosen : Chosen setup s w text) :
    Sound setup s (fun _ t => Chosen setup s t text ∧ t.conf = some text) (writeText text) w := by
  have stable : Stable _ fun t => Chosen setup s t text := stable_chosen s text
  have stable' : Stable (aloneRely Config) fun t => Chosen setup s t text ∧ t.conf = some text :=
    fun t u holds may => ⟨stable t u holds.1 may, may.conf.trans holds.2⟩
  have moved : ∀ (t : World Config) (conf : Option String), Chosen setup s t text →
      Chosen setup s { t with conf := conf } text :=
    fun t conf chosen => chosen.later ⟨List.suffix_refl _, le_refl _⟩
  have one : ∀ {w : World Config} (part : World Config → String), Chosen setup s w text →
      Sound setup s (fun _ t => Chosen setup s t text)
        (.write fun t => { t with conf := some (part t) } : Run Config Unit) w :=
    fun part chosen => Safe.write chosen stable stable fun t chosen => ⟨.inl rfl, moved t _ chosen⟩
  refine (one _ chosen).seq fun _ _ chosen => (one _ chosen).seq fun _ _ chosen => ?_
  exact Safe.write chosen stable stable' fun t chosen => ⟨.inl rfl, moved t _ chosen, rfl⟩

/-- The specs that were loaded, and every validator content. -/
def Checked (setup : Setup Config) (s : World Config) (specs : OrderedDict String ServiceSpec)
    (t : World Config) : Prop :=
  (∃ doc, During s t doc ∧ loadServices setup doc = .ok specs) ∧ AcceptedSince s t setup.validators

theorem stable_checkedSince (specs : OrderedDict String ServiceSpec) :
    Stable (aloneRely Config) (Checked setup s specs) := by
  rintro t u ⟨⟨doc, during, loads⟩, accepted⟩ may
  exact ⟨⟨doc, during.later may.since, loads⟩, accepted.later may.since⟩

theorem sound_writeConf {specs : OrderedDict String ServiceSpec} (quiet : Undisturbed s w)
    (checked : Checked setup s specs w) :
    Sound setup s (fun _ t => ∃ text, Chosen setup s t text ∧ t.conf = some text)
      (writeConf setup specs) w := by
  have stable : Stable _ fun t => Undisturbed s t ∧ Checked setup s specs t :=
    (stable_undisturbed s).and (stable_checkedSince specs)
  have dirs : Sound setup s (fun _ t => Undisturbed s t ∧ Checked setup s specs t) ensureStateDirs w :=
    (calm_ensureStateDirs (X := fun _ _ => False)).sound stable ⟨quiet, checked⟩
      fun _ _ impossible => impossible.1.elim
  refine dirs.seq fun _ t holds => ?_
  obtain ⟨quiet, ⟨doc, during, loads⟩, accepted⟩ := holds
  unfold render
  cases rendered : generateConf specs setup.pythonExecutable with
  | error e => exact Safe.raise fun u may => raised_early trivial (quiet.trans may)
  | ok text =>
      have chosen : Chosen setup s t text :=
        ⟨quiet.since, ⟨doc, during, specs, loads, by unfold render; rw [rendered]⟩, accepted⟩
      exact (sound_writeText chosen).mono (fun _ _ holds => ⟨text, holds⟩) fun _ _ => id

theorem configs_started (file : OrderedDict String Config) (name : String) :
    (Daemon.started file).configs name = file.get? name := by
  show ((Supervisord.booted file).groups.get? name).map _ = _
  rw [get?_booted, started, Option.map_map]
  exact Option.map_id'

theorem sound_startSupervisord (written : ∃ text, Chosen setup s w text ∧ w.conf = some text) :
    Sound setup s (fun _ => Deployed setup s) (startSupervisord setup) w := by
  have stable : Stable (aloneRely Config) fun t => ∃ text, Chosen setup s t text ∧ t.conf = some text := by
    rintro t u ⟨text, chosen, conf⟩ may
    exact ⟨text, chosen.later may.since, may.conf.trans conf⟩
  refine Safe.atomic written stable (fun _ => stable_deployed s) stable_raised ?_
  rintro t ⟨text, chosen, conf⟩
  have refused : ∀ detail, SweepsDown t t.spent ∧
      (∀ a : Unit, (Except.error (BootExn.failedToStart detail) : Except BootExn Unit) = .ok a →
        Deployed setup s t.spent) ∧
      ∀ e, (Except.error (BootExn.failedToStart detail) : Except BootExn Unit) = .error e →
        Raised setup s e t.spent := by
    intro detail
    refine ⟨.inl rfl, by rintro _ ⟨⟩, ?_⟩
    intro e same
    cases same
    exact raised_failedToStart detail
  split
  · exact refused _
  · exact refused _
  · exact refused _
  · rename_i other _ _ there
    rw [conf] at there
    cases there
    split
    · exact refused _
    · rename_i file reads
      refine ⟨.inl rfl, fun _ _ => ?_, by rintro _ ⟨⟩⟩
      refine ⟨text, file, chosen.later ⟨List.suffix_refl _, le_refl _⟩, conf, reads, ?_⟩
      intro d started
      cases started
      exact ⟨rfl, configs_started file⟩

/-! ### Reconciling -/

/-- A call on the groups that is known to give these configurations. -/
theorem sound_onCore {before after : String → Option Config} {what : String}
    {method : Supervisord Config → Except Fault (Unit × Supervisord Config)}
    (gives : ∀ core core', method core = .ok ((), core') → core.reread = file →
      (∀ q, (core.groups.get? q).map (·.config) = before q) →
      core'.reread = file ∧ ∀ q, (core'.groups.get? q).map (·.config) = after q)
    (holds : Holds setup s text file before w) :
    Sound setup s (fun _ => Holds setup s text file after) (call what (onCore method)) w := by
  refine safe_call holds stable_holds (fun _ => stable_holds) stable_raised ?_ ?_
  · exact fun t _ => ⟨.inl rfl, fun why => raised_supervisord what why⟩
  · intro t d a d' holds there ran
    refine ⟨.inl rfl, ?_, fun why => raised_supervisord what why⟩
    unfold onCore at ran
    split at ran
    · rename_i core done
      cases ran
      obtain ⟨reread, groups⟩ := holds.daemon d there
      refine ⟨holds.chosen.later ⟨List.suffix_refl _, le_refl _⟩, holds.conf, holds.reads, ?_⟩
      intro d'' found
      cases found
      exact gives d.core core done reread groups
    · cases ran

theorem sound_removeGroup {before : String → Option Config} (name : String)
    (holds : Holds setup s text file before w) :
    Sound setup s (fun _ => Holds setup s text file fun q => if name = q then none else before q)
      (removeGroup name) w := by
  refine Safe.seq (Q := fun _ => Holds setup s text file before) (sound_onCore ?_ holds) ?_
  · rintro core core' done reread groups
    obtain ⟨group, found, rfl⟩ := stopProcessGroup_ok_iff.mp done
    refine ⟨reread, fun q => ?_⟩
    show ((core.groups.set name _).get? q).map (·.config) = before q
    rw [OrderedDict.get?_set, ← groups q]
    split
    · rename_i here
      rw [← here, found]
      rfl
    · rfl
  · intro _ t holds
    refine sound_onCore ?_ holds
    rintro core core' done reread groups
    obtain ⟨group, -, -, rfl⟩ := removeProcessGroup_ok_iff.mp done
    refine ⟨reread, fun q => ?_⟩
    show ((core.groups.erase name).get? q).map (·.config) = _
    rw [OrderedDict.get?_erase, ← groups q]
    split <;> rfl

theorem sound_addGroup {before : String → Option Config} (name : String)
    (holds : Holds setup s text file before w) :
    Sound setup s (fun _ => Holds setup s text file fun q => if name = q then file.get? name else before q)
      (addGroup name) w := by
  refine sound_onCore ?_ holds
  rintro core core' done reread groups
  obtain ⟨config, found, -, rfl⟩ := addProcessGroup_ok_iff.mp done
  refine ⟨reread, fun q => ?_⟩
  show ((core.groups.set name _).get? q).map (·.config) = _
  rw [OrderedDict.get?_set, ← groups q, ← reread, found]
  split <;> rfl

theorem sound_replaceGroup {before : String → Option Config} (name : String)
    (holds : Holds setup s text file before w) :
    Sound setup s (fun _ => Holds setup s text file fun q => if name = q then file.get? name else before q)
      (replaceGroup name) w := by
  refine (sound_removeGroup name holds).seq fun _ t holds => ?_
  refine (sound_addGroup name holds).mono (fun _ u holds => ?_) fun _ _ => id
  refine ⟨holds.chosen, holds.conf, holds.reads, fun d there => ?_⟩
  obtain ⟨reread, groups⟩ := holds.daemon d there
  refine ⟨reread, fun q => (groups q).trans ?_⟩
  split <;> rfl

/-- **A pass over some groups** settles each of them and leaves the others. -/
theorem sound_each {f : String → Run Config Unit} (gives : String → Option Config)
    (one : ∀ name before t, Holds setup s text file before t →
      Sound setup s (fun _ => Holds setup s text file fun q => if name = q then gives name else before q)
        (f name) t) (names : List String) {before : String → Option Config}
    (holds : Holds setup s text file before w) :
    Sound setup s (fun _ => Holds setup s text file fun q => if q ∈ names then gives q else before q)
      (.each f names) w := by
  induction names generalizing w before with
  | nil => exact fun t may => by simpa using stable_holds w t holds may
  | cons name rest ih =>
      refine (one name before w holds).seq fun _ t holds => ?_
      refine (ih holds).mono (fun _ u holds => ?_) fun _ _ => id
      have same : (fun q => if q ∈ rest then gives q else if name = q then gives name else before q) =
          fun q => if q ∈ name :: rest then gives q else before q := by
        funext q
        by_cases inRest : q ∈ rest
        · simp [inRest]
        · by_cases here : name = q
          · simp [here]
          · simp [inRest, here, Ne.symm here]
      rw [← same]
      exact holds

/-- What the three passes come to is the conf. -/
theorem reconciled [DecidableEq Config] (file : OrderedDict String Config) (core : Supervisord Config) (q : String) :
    (if q ∈ (core.after file).diff.added then file.get? q
      else if q ∈ (core.after file).diff.changed then file.get? q
      else if q ∈ (core.after file).diff.removed then none
      else (core.groups.get? q).map (·.config)) = file.get? q := by
  split
  · rfl
  rename_i notAdded
  split
  · rfl
  rename_i notChanged
  rw [mem_added_iff] at notAdded
  rw [mem_changed_iff] at notChanged
  split
  · rename_i removed
    exact (OrderedDict.get?_eq_none_iff.mpr (mem_removed_iff.mp removed).2).symm
  rename_i notRemoved
  rw [mem_removed_iff] at notRemoved
  cases held : core.groups.get? q with
  | none =>
      have absent : q ∉ core.groups.keys := OrderedDict.get?_eq_none_iff.mp held
      exact (OrderedDict.get?_eq_none_iff.mpr fun inFile => notAdded ⟨inFile, absent⟩).symm
  | some group =>
      have present : q ∈ core.groups.keys := by
        rw [OrderedDict.mem_keys_iff, held]
        rfl
      cases inFile : file.get? q with
      | none => exact absurd ⟨present, OrderedDict.get?_eq_none_iff.mp inFile⟩ notRemoved
      | some config =>
          by_contra ne
          exact notChanged ⟨group, config, held, inFile, fun same => ne (congrArg some same)⟩

theorem sound_reload [DecidableEq Config] (written : ∃ text, Chosen setup s w text ∧ w.conf = some text) :
    Sound setup s (fun diff t => ∃ text file core, diff = (Supervisord.after core file).diff ∧
        Holds setup s text file (fun q => (core.groups.get? q).map (·.config)) t)
      (call "reload" (reload setup)) w := by
  have stable : Stable (aloneRely Config) fun t => ∃ text, Chosen setup s t text ∧ t.conf = some text := by
    rintro t u ⟨text, chosen, conf⟩ may
    exact ⟨text, chosen.later may.since, may.conf.trans conf⟩
  refine safe_call written stable ?_ stable_raised ?_ ?_
  · rintro diff t u ⟨text, file, core, same, holds⟩ may
    exact ⟨text, file, core, same, stable_holds t u holds may⟩
  · exact fun t _ => ⟨.inl rfl, fun why => raised_supervisord _ why⟩
  · rintro t d diff d' ⟨text, chosen, conf⟩ there ran
    refine ⟨.inl rfl, ?_, fun why => raised_supervisord _ why⟩
    unfold reload at ran
    rw [conf] at ran
    dsimp only at ran
    split at ran
    · cases ran
    · rename_i file reads
      cases ran
      refine ⟨text, file, d.core, rfl, chosen.later ⟨List.suffix_refl _, le_refl _⟩, conf, reads, ?_⟩
      intro d'' found
      cases found
      exact ⟨rfl, fun _ => rfl⟩

theorem sound_reconcile [DecidableEq Config]
    (written : ∃ text, Chosen setup s w text ∧ w.conf = some text) :
    Sound setup s (fun _ => Deployed setup s) (reconcile setup) w := by
  refine (sound_reload written).seq ?_
  rintro _ t ⟨text, file, core, rfl, holds⟩
  refine (sound_each (fun _ => none) (fun name _ _ => sound_removeGroup name) _ holds).seq ?_
  intro _ t holds
  refine (sound_each file.get? (fun name _ _ => sound_replaceGroup name) _ holds).seq ?_
  intro _ t holds
  refine (sound_each file.get? (fun name _ _ => sound_addGroup name) _ holds).seq ?_
  intro _ t holds
  refine Safe.ret fun u may => ⟨text, file, ?_⟩
  have same := funext (reconciled file core)
  rw [← same]
  exact stable_holds t u holds may

end Parts

/-! ## Whole commands -/

section Commands

variable [DecidableEq Config]

omit [DecidableEq Config] in
theorem sound_prepare (quiet : Undisturbed s w) (down : Down w) :
    Sound setup s (fun _ t => ∃ text, Chosen setup s t text ∧ t.conf = some text) (prepare setup) w := by
  refine (sound_load quiet down stable_down).seq ?_
  rintro specs t ⟨⟨quiet, down⟩, loaded⟩
  let known (t : World Config) : Prop :=
    Down t ∧ ∃ doc, During s t doc ∧ loadServices setup doc = .ok specs
  have stable : Stable (aloneRely Config) known := by
    rintro t u ⟨down, doc, during, loads⟩ may
    exact ⟨stable_down t u down may, doc, during.later may.since, loads⟩
  refine (sound_validate (P := known) quiet ⟨down, loaded⟩ stable).seq ?_
  rintro _ t ⟨⟨quiet, down, loaded⟩, accepted⟩
  let checked (t : World Config) : Prop := (Undisturbed s t ∧ Down t) ∧ Checked setup s specs t
  have stable' : Stable (aloneRely Config) checked :=
    ((stable_undisturbed s).and stable_down).and (stable_checkedSince specs)
  refine (sound_clean stable' (fun _ => And.left) ⟨⟨quiet, down⟩, loaded, accepted⟩).seq ?_
  rintro _ t ⟨⟨quiet, -⟩, checked⟩
  refine (sound_writeConf quiet checked).seq fun _ t written => ?_
  refine Safe.ret fun u may => ?_
  obtain ⟨text, chosen, conf⟩ := written
  exact ⟨text, chosen.later may.since, may.conf.trans conf⟩

omit [DecidableEq Config] in
theorem sound_up : Sound setup s (fun _ => Deployed setup s) (up setup) s := by
  refine (sound_isRunning (.refl s)).seq ?_
  rintro already t ⟨quiet, silent⟩
  split
  · exact Safe.raise fun u may => raised_early trivial (quiet.trans may)
  · rename_i no
    refine (sound_prepare quiet (silent (by simpa using no))).seq fun _ t written => ?_
    refine (sound_startSupervisord written).seq fun _ t deployed => ?_
    obtain ⟨text, file, holds⟩ := deployed
    have since := holds.chosen.since
    refine (calm_waitFor true .notReachable).sound (stable_deployed s) ⟨text, file, holds⟩ ?_
    rintro e u ⟨⟨rfl, late⟩, deployed⟩
    refine ⟨False.elim, fun _ => ⟨deployed, ?_⟩, nofun⟩
    have := since.clock
    omega

theorem sound_apply : Sound setup s (fun _ => Deployed setup s) (apply setup) s := by
  refine (sound_isRunning (.refl s)).seq ?_
  rintro there t ⟨quiet, -⟩
  split
  · refine (sound_load (P := fun _ => True) quiet trivial (stable_const True)).seq ?_
    rintro specs t ⟨⟨quiet, -⟩, loaded⟩
    have stable : Stable (aloneRely Config) fun t =>
        ∃ doc, During s t doc ∧ loadServices setup doc = .ok specs := by
      rintro t u ⟨doc, during, loads⟩ may
      exact ⟨doc, during.later may.since, loads⟩
    refine (sound_validate quiet loaded stable).seq ?_
    rintro _ t ⟨⟨quiet, loaded⟩, accepted⟩
    refine (sound_writeConf quiet ⟨loaded, accepted⟩).seq fun _ t written => ?_
    exact sound_reconcile written
  · exact Safe.raise fun u may => raised_early trivial (quiet.trans may)

omit [DecidableEq Config] in
theorem sound_down (quiet : Undisturbed s w) : Sound setup s (fun _ => Undisturbed s) down w := by
  refine (sound_isRunning quiet).seq ?_
  rintro there t ⟨quiet, -⟩
  split
  · refine (calm_shutdown.sound (stable_undisturbed s) quiet fun e u byCall => raised_byCall byCall.1).seq ?_
    intro _ t quiet
    refine (calm_waitFor false .notShutDown).sound (stable_undisturbed s) quiet ?_
    rintro e u ⟨⟨rfl, late⟩, quiet'⟩
    refine ⟨False.elim, nofun, fun _ => ⟨quiet', ?_⟩⟩
    have := quiet.clock
    omega
  · exact Safe.ret fun u may => quiet.trans may

/-- **Every command**, whatever goes on besides. -/
theorem sound_program (setup : Setup Config) (command : Command) (s : World Config) :
    Sound setup s (Returned setup s) (program setup command) s := by
  have byCall : ∀ {P : World Config → Prop} (e : BootExn) (t : World Config), ByCall e t ∧ P t →
      Raised setup s e t := fun e t holds => raised_byCall holds.1
  cases command with
  | up =>
      refine sound_up.seq fun _ t deployed => ?_
      refine (calm_processInfo.sound (stable_deployed s) deployed byCall).seq fun info t deployed => ?_
      exact Safe.ret fun u may => stable_deployed s t u deployed may
  | apply =>
      refine sound_apply.seq fun diff t deployed => ?_
      exact Safe.ret fun u may => stable_deployed s t u deployed may
  | down =>
      refine (sound_isRunning (.refl s)).seq ?_
      rintro there t ⟨quiet, -⟩
      split
      · refine (sound_down quiet).seq fun _ t quiet => ?_
        exact Safe.ret fun u may => quiet.trans may
      · exact Safe.ret fun u may => quiet.trans may
  | status =>
      refine (sound_isRunning (.refl s)).seq ?_
      rintro there t ⟨quiet, -⟩
      split
      · refine (calm_processInfo.sound (stable_undisturbed s) quiet byCall).seq fun info t quiet => ?_
        exact Safe.ret fun u may => quiet.trans may
      · exact Safe.ret fun u may => quiet.trans may
  | restart service =>
      refine (sound_isRunning (.refl s)).seq ?_
      rintro there t ⟨quiet, -⟩
      have all : Sound setup s (Returned setup s) (do
          restartAll
          pure .restartedAll) t := by
        refine (calm_restartAll.sound (stable_undisturbed s) quiet byCall).seq fun _ t quiet => ?_
        exact Safe.ret fun u may => quiet.trans may
      split
      · split
        · exact all
        · exact all
        · refine ((calm_restartProcess _).sound (stable_undisturbed s) quiet byCall).seq fun _ t quiet => ?_
          exact Safe.ret fun u may => quiet.trans may
      · exact Safe.raise fun u may => raised_early trivial (quiet.trans may)

/-! ## Runs -/

/-- **Commands one after the other**: a state they can reach. -/
theorem alone_of_reachable (setup : Setup Config) (init : World Config → Prop)
    {sys : System Command (World Config) BootExn Reply}
    (reach : Reachable (oneByOne setup).step (Machine.Fresh init) sys) :
    Alone (aloneRely Config) SweepsDown (fun _ s => Returned setup s) (fun _ s => Raised setup s)
      (fun _ => True) sys := by
  have respects : Respects (oneByOne setup) (aloneRely Config) SweepsDown
      (fun _ s => Returned setup s) (fun _ s => Raised setup s) (fun _ => True) :=
    { launched := fun command s _ => sound_program setup command s
      outside := undisturbed_outside
      kept := fun _ _ _ _ => trivial
      own := fun _ _ _ _ => trivial }
  refine safe_alone respects ?_ (fun _ _ => trivial) reach
  intro threads admitted thread mem
  exact List.all_eq_true.mp admitted thread mem

/-- **The command launched last**: the earlier ones have ended, and what it returned or raised
says what it has left behind. -/
theorem commands_settle (setup : Setup Config) (init : World Config → Prop)
    {sys : System Command (World Config) BootExn Reply}
    (reach : Reachable (oneByOne setup).step (Machine.Fresh init) sys)
    {before : List (Thread Command (World Config) BootExn Reply)}
    {last : Thread Command (World Config) BootExn Reply} (launched : sys.threads = before ++ [last]) :
    (∀ thread ∈ before, thread.rest.ended = true) ∧
      (∀ reply, last.rest = .ret reply → Returned setup last.start reply sys.shared) ∧
      ∀ e, last.rest = .raise e → Raised setup last.start e sys.shared := by
  have alone := alone_of_reachable setup init reach
  have safe := alone.safe before last launched
  unfold Thread.SafeIn at safe
  refine ⟨alone.ended before last launched, ?_, ?_⟩
  · intro reply done
    rw [done] at safe
    exact safe sys.shared ((aloneRely Config).refl _)
  · intro e done
    rw [done] at safe
    exact safe sys.shared ((aloneRely Config).refl _)

/-- **Sweeping**: a command changes the segments only where there is no daemon, or after a
probe has missed one. -/
theorem sweeps_when_down (setup : Setup Config) (init : World Config → Prop)
    {sys sys' : System Command (World Config) BootExn Reply}
    (reach : Reachable (oneByOne setup).step (Machine.Fresh init) sys) {i : Nat}
    (stepped : (oneByOne setup).step sys (.advance i) = .ok sys') :
    sys'.shared.segments = sys.shared.segments ∨ sys.shared.daemon = none ∨ sys.shared.missed = true :=
  (alone_of_reachable setup init reach).guaranteed stepped

end Commands

/-- What is deployed is the file as it stands. -/
structure Current (setup : Setup Config) (t : World Config) : Prop where
  validated : ∀ validator ∈ setup.validators, validator t.services = .ok ()
  deployed : ∃ specs text file, loadServices setup t.services = .ok specs ∧
    render setup specs = .ok text ∧ t.conf = some text ∧ setup.programs text = .ok file ∧
    ∀ d, t.daemon = some d → d.core.reread = file ∧ ∀ name, d.configs name = file.get? name

/-- **Without an edit** since the launch, every check was one of the file as it stands. -/
theorem deployed_unedited (deployed : Deployed setup s t) (unedited : t.versions = s.versions) :
    Current setup t := by
  obtain ⟨text, file, holds⟩ := deployed
  refine ⟨?_, ?_⟩
  · intro validator mem
    obtain ⟨doc, during, accepts⟩ := holds.chosen.accepted validator mem
    rw [← during.unedited unedited]
    exact accepts
  · obtain ⟨doc, during, specs, loads, rendered⟩ := holds.chosen.generated
    rw [during.unedited unedited] at loads
    exact ⟨specs, text, file, loads, rendered, holds.conf, holds.reads, holds.daemon⟩

end Alone

/-! ## A run -/

namespace Demo

/-- Launch `up`, take its first steps up to the start of the daemon, let that answer, and go on. -/
def upRun : List (Move Command Event) :=
  [.launch .up] ++ List.replicate 8 (.advance 0) ++ [.outside (.answering true)] ++
    List.replicate 4 (.advance 0)

def upEnd : Sys := endState (oneByOne setup).step ⟨off, []⟩ upRun

theorem reach_upEnd : Reachable (oneByOne setup).step (Machine.Fresh (· = off)) upEnd :=
  Reachable.of_accepts ⟨rfl, rfl⟩ rfl

theorem commands_settle_up : ∃ thread : Thread Command (World String) BootExn Reply,
    thread.rest = .ret (.up []) ∧ Returned setup thread.start (.up []) upEnd.shared :=
  ⟨_, rfl, (commands_settle setup (· = off) reach_upEnd (show _ = [] ++ [_] from rfl)).2.1 _ rfl⟩

/-- The state in which the segments are about to be swept. -/
def upSweep : Sys := endState (oneByOne setup).step ⟨off, []⟩ [.launch .up, .advance 0, .advance 0]

theorem sweeps_when_down_up : (endState (oneByOne setup).step upSweep [.advance 0]).shared.segments = [] ∧
    ((endState (oneByOne setup).step upSweep [.advance 0]).shared.segments = upSweep.shared.segments ∨
      upSweep.shared.daemon = none ∨ upSweep.shared.missed = true) :=
  ⟨rfl, sweeps_when_down setup (· = off) (Reachable.of_accepts ⟨rfl, rfl⟩ rfl) (i := 0) rfl⟩

end Demo

end KoyuRuntime.Warden.Boot
