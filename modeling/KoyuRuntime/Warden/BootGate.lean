/-
# Warden.BootGate — what can come to be in the conf and in the daemon

`bring_up` and `reconfigure` exist so that the checks are never skipped.  Commands run side by
side, the file is edited at any time and commands are killed halfway; still, the conf is what
it was at first or the beginning of a text that was generated from a version of the file that
loads, after every validator had accepted a version of it, and every configuration in the
daemon was read from such a conf.

* `Gated`: that, as an invariant of the world.
* `gated_program`: every step of every command keeps it, whatever the others do.
* `conf_gated`: it holds in every state that commands side by side can reach.
-/
import KoyuRuntime.Warden.Boot

namespace KoyuRuntime.Warden.Boot

open Host Theory
open Ipc.Checks (CheckError)

set_option autoImplicit false

section Gate

variable {Config : Type} (setup : Setup Config)

/-- A conf of a version that loads, with every validator content with a version. -/
structure Vetted (versions : List Document) (text : String) : Prop where
  generated : ∃ doc ∈ versions, ∃ specs, loadServices setup doc = .ok specs ∧ render setup specs = .ok text
  accepted : ∀ validator ∈ setup.validators, ∃ doc ∈ versions, validator doc = .ok ()

/-- The first conf, or as much as is written of a vetted one. -/
def Written (first : World Config) (versions : List Document) (text : String) : Prop :=
  first.conf = some text ∨ ∃ full, Vetted setup versions full ∧ text.toList <+: full.toList

/-- A configuration in the daemon: of a group, or of the conf read last. -/
def Carries (d : Daemon Config) (config : Config) : Prop :=
  (∃ name group, d.core.groups.get? name = some group ∧ group.config = config) ∨
    ∃ name, d.core.reread.get? name = some config

/-- A configuration supervisord reads in a conf. -/
def Reads (text : String) (config : Config) : Prop :=
  ∃ file, setup.programs text = .ok file ∧ ∃ name, file.get? name = some config

/-- Every configuration was there at first or stood in such a conf. -/
structure Gated (first w : World Config) : Prop where
  conf : ∀ text, w.conf = some text → Written setup first w.versions text
  daemon : ∀ d config, w.daemon = some d → Carries d config →
    (∃ d₀, first.daemon = some d₀ ∧ Carries d₀ config) ∨
      ∃ text, Written setup first w.versions text ∧ Reads setup text config

variable {setup} {first w t : World Config} {versions more : List Document} {text : String}

theorem Vetted.grow (vetted : Vetted setup versions text) (sub : versions ⊆ more) :
    Vetted setup more text := by
  obtain ⟨doc, mem, loads⟩ := vetted.generated
  refine ⟨⟨doc, sub mem, loads⟩, ?_⟩
  intro validator among
  obtain ⟨doc', mem', accepts⟩ := vetted.accepted validator among
  exact ⟨doc', sub mem', accepts⟩

theorem Written.grow (written : Written setup first versions text) (sub : versions ⊆ more) :
    Written setup first more text := by
  rcases written with same | ⟨full, vetted, part⟩
  · exact .inl same
  · exact .inr ⟨full, vetted.grow sub, part⟩

theorem gated_refl (first : World Config) : Gated setup first first :=
  ⟨fun _ same => .inl same, fun d _ same carries => .inl ⟨d, same, carries⟩⟩

variable (setup first)

/-- What commands and surroundings do: no version is forgotten, and the invariant is kept. -/
def gateRely : Rely (World Config) where
  may w t := w.versions ⊆ t.versions ∧ (Gated setup first w → Gated setup first t)
  refl _ := ⟨List.Subset.refl _, id⟩
  trans one other := ⟨fun _ mem => other.1 (one.1 mem), fun gated => other.2 (one.2 gated)⟩

/-- A program all of whose steps keep to it. -/
def Keeps {α : Type} (p : Run Config α) : Prop :=
  ∀ w, Safe (gateRely setup first) (gateRely setup first).may (fun _ _ => True) (fun _ _ => True) p w

variable {setup first}

/-- A step that touches neither the file nor the conf nor the daemon. -/
theorem may_of_same (versions : t.versions = w.versions) (conf : t.conf = w.conf)
    (daemon : t.daemon = w.daemon) : (gateRely setup first).may w t := by
  refine ⟨versions ▸ List.Subset.refl _, ?_⟩
  intro gated
  refine ⟨?_, ?_⟩
  · rw [conf, versions]
    exact gated.conf
  · rw [daemon, versions]
    exact gated.daemon

/-- A step that changes the daemon: every configuration was there or stands in the conf. -/
theorem may_of_daemon (versions : t.versions = w.versions) (conf : t.conf = w.conf)
    (daemon : ∀ d' config, t.daemon = some d' → Carries d' config →
      (∃ d, w.daemon = some d ∧ Carries d config) ∨ ∃ text, w.conf = some text ∧ Reads setup text config) :
    (gateRely setup first).may w t := by
  refine ⟨versions ▸ List.Subset.refl _, ?_⟩
  intro gated
  refine ⟨?_, ?_⟩
  · rw [conf, versions]
    exact gated.conf
  · intro d' config there carries
    rw [versions]
    rcases daemon d' config there carries with ⟨d, before, carried⟩ | ⟨text, here, reads⟩
    · exact gated.daemon d config before carried
    · exact .inr ⟨text, gated.conf text here, reads⟩

/-! ## Parts of a command -/

section Parts

variable {α β : Type} {p : Run Config α}

theorem keeps_ret (a : α) : Keeps setup first (pure a : Run Config α) := fun _ _ _ => trivial

theorem keeps_raise (e : BootExn) : Keeps setup first (.raise e : Run Config α) := fun _ _ _ => trivial

theorem keeps_ofExcept (result : Except BootExn α) : Keeps setup first (.ofExcept result) := by
  cases result with
  | ok a => exact keeps_ret a
  | error e => exact keeps_raise e

theorem Keeps.bind {k : α → Run Config β} (keeps : Keeps setup first p)
    (later : ∀ a, Keeps setup first (k a)) : Keeps setup first (p >>= k) :=
  fun w => (keeps w).seq fun a t _ => later a t

/-- A step that keeps to it wherever it is taken. -/
theorem keeps_step {effect : World Config → World Config} {next : World Config → Run Config α}
    (may : ∀ w, (gateRely setup first).may w (effect w)) (later : ∀ w, Keeps setup first (next w)) :
    Keeps setup first (.step effect next) :=
  fun _ t _ => ⟨may t, later t (effect t)⟩

theorem keeps_each {f : β → Run Config Unit} (one : ∀ b, Keeps setup first (f b)) (l : List β) :
    Keeps setup first (.each f l) := by
  induction l with
  | nil => exact keeps_ret ()
  | cons b rest ih => exact (one b).bind fun _ => ih

theorem keeps_now : Keeps setup first now :=
  keeps_step (fun _ => may_of_same rfl rfl rfl) fun _ => keeps_ret _

theorem keeps_sleep : Keeps setup first sleep :=
  keeps_step (fun _ => may_of_same rfl rfl rfl) fun _ => keeps_ret _

theorem keeps_isRunning : Keeps setup first isRunning :=
  keeps_step (fun _ => may_of_same rfl rfl rfl) fun _ => keeps_ret _

/-- What a method of the daemon keeps. -/
def Carried (setup : Setup Config)
    (method : World Config → Daemon Config → Except RpcFault (α × Daemon Config)) : Prop :=
  ∀ w d a d', method w d = .ok (a, d') → ∀ config, Carries d' config →
    Carries d config ∨ ∃ text, w.conf = some text ∧ Reads setup text config

theorem keeps_call {method : World Config → Daemon Config → Except RpcFault (α × Daemon Config)}
    (what : String) (carried : Carried setup method) : Keeps setup first (call what method) := by
  intro w
  refine safe_call (P := fun _ => True) trivial (stable_const True) (fun _ => stable_const True)
    (fun _ => stable_const True) ?_ ?_
  · exact fun t _ => ⟨may_of_same rfl rfl rfl, fun _ => trivial⟩
  · intro t d a d' _ there ran
    refine ⟨may_of_daemon rfl rfl ?_, trivial, fun _ => trivial⟩
    intro d'' config found carries
    cases found
    rcases carried t d a d' ran config carries with before | read_
    · exact .inl ⟨d, there, before⟩
    · exact .inr read_

end Parts

/-! ### The methods -/

section Methods

variable {d d' : Daemon Config} {config : Config} {name : String}

theorem carries_setRunning {value : Bool} (carries : Carries (setRunning name value d) config) :
    Carries d config := by
  unfold setRunning at carries
  split at carries
  · exact carries
  · rename_i group found
    rcases carries with ⟨q, g, held, same⟩ | reread
    · change (d.core.groups.set name _).get? q = some g at held
      rw [OrderedDict.get?_set] at held
      split at held
      · cases held
        exact .inl ⟨name, group, found, same⟩
      · exact .inl ⟨q, g, held, same⟩
    · exact .inr reread

theorem carried_stop (name : String) : Carried setup (stop name) := by
  intro w d a d' ran config carries
  unfold stop at ran
  split at ran
  · cases ran
  · cases ran
  · cases ran
    exact .inl (carries_setRunning carries)

theorem carried_start (name : String) : Carried setup (start name) := by
  intro w d a d' ran config carries
  unfold start at ran
  split at ran
  · cases ran
  · cases ran
  · split at ran
    · cases ran
    · cases ran
      exact .inl (carries_setRunning carries)

theorem carried_stopTolerant (name : String) : Carried setup (stopTolerant name) := by
  intro w d a d' ran config carries
  unfold stopTolerant at ran
  split at ran
  · cases ran
    exact .inl carries
  · exact carried_stop name w d a d' ran config carries

theorem carries_stopEach {names : List String} (carries : Carries (stopEach names d) config) :
    Carries d config := by
  induction names generalizing d with
  | nil => exact carries
  | cons name rest ih => exact carries_setRunning (ih carries)

theorem carries_startEach {names : List String} {luck : List Luck}
    (carries : Carries (startEach names luck d) config) : Carries d config := by
  induction names generalizing d luck with
  | nil => exact carries
  | cons name rest ih =>
      have before := ih carries
      split at before
      · exact before
      · exact carries_setRunning before

theorem carried_onCore {α : Type} {method : Supervisord Config → Except Fault (α × Supervisord Config)}
    (keeps : ∀ core a core', method core = .ok (a, core') → core'.reread = core.reread ∧
      ∀ q g, core'.groups.get? q = some g →
        (∃ g', core.groups.get? q = some g' ∧ g'.config = g.config) ∨ core.reread.get? q = some g.config) :
    Carried setup (onCore method) := by
  intro w d a d' ran config carries
  unfold onCore at ran
  split at ran
  · rename_i a' core done
    cases ran
    obtain ⟨reread, groups⟩ := keeps _ _ _ done
    rcases carries with ⟨q, g, held, rfl⟩ | ⟨q, held⟩
    · rcases groups q g held with ⟨g', before, same⟩ | inReread
      · exact .inl (.inl ⟨q, g', before, same⟩)
      · exact .inl (.inr ⟨q, inReread⟩)
    · change core.reread.get? q = some config at held
      rw [reread] at held
      exact .inl (.inr ⟨q, held⟩)
  · cases ran

theorem carried_stopProcessGroup (name : String) : Carried setup (onCore (stopProcessGroup name)) := by
  apply carried_onCore
  intro core a core' done
  obtain ⟨group, found, rfl⟩ := stopProcessGroup_ok_iff.mp done
  refine ⟨rfl, ?_⟩
  intro q g held
  change (core.groups.set name _).get? q = some g at held
  rw [OrderedDict.get?_set] at held
  split at held
  · rename_i here
    cases held
    exact .inl ⟨group, here ▸ found, rfl⟩
  · exact .inl ⟨g, held, rfl⟩

theorem carried_removeProcessGroup (name : String) :
    Carried setup (onCore (removeProcessGroup name)) := by
  apply carried_onCore
  intro core a core' done
  obtain ⟨group, -, -, rfl⟩ := removeProcessGroup_ok_iff.mp done
  exact ⟨rfl, fun q g held => .inl ⟨g, OrderedDict.get?_of_erase held, rfl⟩⟩

theorem carried_addProcessGroup (name : String) : Carried setup (onCore (addProcessGroup name)) := by
  apply carried_onCore
  intro core a core' done
  obtain ⟨config, found, -, rfl⟩ := addProcessGroup_ok_iff.mp done
  refine ⟨rfl, ?_⟩
  intro q g held
  change (core.groups.set name _).get? q = some g at held
  rw [OrderedDict.get?_set] at held
  split at held
  · rename_i here
    cases held
    exact .inr (here ▸ found)
  · exact .inl ⟨g, held, rfl⟩

theorem carried_reload [DecidableEq Config] : Carried setup (reload setup) := by
  intro w d a d' ran config carries
  unfold reload at ran
  split at ran
  · cases ran
  · rename_i text here
    split at ran
    · cases ran
    · rename_i file reads
      cases ran
      rcases carries with groups | ⟨q, held⟩
      · exact .inl (.inl groups)
      · exact .inr ⟨text, here, file, reads, q, held⟩

end Methods

/-! ## Writing the conf -/

/-- A step that leaves part of a vetted text in the conf. -/
theorem may_of_conf (vetted : Vetted setup w.versions text) (versions : t.versions = w.versions)
    (conf : ∀ part, t.conf = some part → part.toList <+: text.toList) (daemon : t.daemon = w.daemon) :
    (gateRely setup first).may w t := by
  refine ⟨versions ▸ List.Subset.refl _, ?_⟩
  intro gated
  refine ⟨?_, ?_⟩
  · intro part here
    rw [versions]
    exact .inr ⟨text, vetted, conf part here⟩
  · rw [daemon, versions]
    exact gated.daemon

/-- A fact about the versions that more of them do not spoil. -/
theorem stable_versions {P : List Document → Prop} (mono : ∀ l m, l ⊆ m → P l → P m) :
    Stable (gateRely setup first) fun w => P w.versions :=
  fun _ _ holds may => mono _ _ may.1 holds

theorem gated_writeText (vetted : Vetted setup w.versions text) :
    Safe (gateRely setup first) (gateRely setup first).may (fun _ _ => True) (fun _ _ => True)
      (writeText text) w := by
  have stable : Stable (gateRely setup first) fun w => Vetted setup w.versions text :=
    stable_versions (P := fun l => Vetted setup l text) fun _ _ sub vetted => vetted.grow sub
  have one : ∀ {w : World Config} (part : World Config → String),
      (∀ t, (part t).toList <+: text.toList) → Vetted setup w.versions text →
      Safe (gateRely setup first) (gateRely setup first).may
        (fun _ t => Vetted setup t.versions text) (fun _ _ => True)
        (.write fun t => { t with conf := some (part t) } : Run Config Unit) w := by
    intro w part begins vetted
    refine Safe.write vetted stable stable fun t vetted => ⟨?_, vetted⟩
    refine may_of_conf vetted rfl ?_ rfl
    intro _ same
    cases same
    exact begins t
  refine (one (fun _ => "") (fun _ => List.nil_prefix) vetted).seq fun _ _ vetted => ?_
  refine (one (fun t => String.ofList (text.toList.take t.buffered)) ?_ vetted).seq fun _ _ vetted => ?_
  · intro t
    rw [String.toList_ofList]
    exact List.take_prefix _ _
  · exact (one (fun _ => text) (fun _ => List.prefix_refl _) vetted).mono (fun _ _ _ => trivial)
      fun _ _ => id

/-- The specs are those of a version that loads. -/
def Loaded (setup : Setup Config) (specs : OrderedDict String ServiceSpec) (versions : List Document) :
    Prop := ∃ doc ∈ versions, loadServices setup doc = .ok specs

/-- Each of these validators was content with a version. -/
def Accepted (validators : List (Document → Except CheckError Unit)) (versions : List Document) : Prop :=
  ∀ validator ∈ validators, ∃ doc ∈ versions, validator doc = .ok ()

theorem Loaded.grow {specs : OrderedDict String ServiceSpec} (loaded : Loaded setup specs versions)
    (sub : versions ⊆ more) : Loaded setup specs more := by
  obtain ⟨doc, mem, loads⟩ := loaded
  exact ⟨doc, sub mem, loads⟩

theorem Accepted.grow {validators : List (Document → Except CheckError Unit)}
    (accepted : Accepted validators versions) (sub : versions ⊆ more) : Accepted validators more := by
  intro validator mem
  obtain ⟨doc, inVersions, accepts⟩ := accepted validator mem
  exact ⟨doc, sub inVersions, accepts⟩

theorem stable_checked (specs : OrderedDict String ServiceSpec) : Stable (gateRely setup first) fun t =>
    Loaded setup specs t.versions ∧ Accepted setup.validators t.versions :=
  stable_versions (P := fun l => Loaded setup specs l ∧ Accepted setup.validators l)
    fun _ _ sub holds => ⟨holds.1.grow sub, holds.2.grow sub⟩

theorem gated_load : Safe (gateRely setup first) (gateRely setup first).may
    (fun specs t => Loaded setup specs t.versions) (fun _ _ => True) (load setup) w := by
  refine Safe.atomic (P := fun _ => True) trivial (stable_const True)
    (fun specs => stable_versions (P := Loaded setup specs) fun _ _ sub loaded => loaded.grow sub)
    (fun _ => stable_const True) ?_
  intro t _
  exact ⟨may_of_same rfl rfl rfl, fun specs loads => ⟨t.services, List.mem_cons_self, loads⟩,
    fun _ _ => trivial⟩

/-- **Validating**: when all validators have run, each was content with some version. -/
theorem gated_validate : Safe (gateRely setup first) (gateRely setup first).may
    (fun _ t => Accepted setup.validators t.versions) (fun _ _ => True)
    (.each validate setup.validators) w := by
  -- the validators that are not among those still to come
  let ran (rest : List (Document → Except CheckError Unit)) (t : World Config) : Prop :=
    ∃ before, before ++ rest = setup.validators ∧ Accepted before t.versions
  have stable : ∀ rest, Stable (gateRely setup first) (ran rest) := by
    rintro rest s t ⟨before, split, accepted⟩ may
    exact ⟨before, split, accepted.grow may.1⟩
  refine (Safe.each ran stable ?_ _ ⟨[], rfl, by simp [Accepted]⟩).mono ?_ fun _ _ => id
  · intro validator rest s holds
    refine Safe.atomic holds (stable _) (fun _ => stable rest) (fun _ => stable_const True) ?_
    rintro t ⟨before, split, accepted⟩
    split
    · rename_i content
      refine ⟨may_of_same rfl rfl rfl, fun _ _ => ?_, fun _ _ => trivial⟩
      refine ⟨before ++ [validator], by rw [List.append_assoc]; exact split, ?_⟩
      intro v mem
      rcases List.mem_append.mp mem with earlier | here
      · exact accepted v earlier
      · rw [List.mem_singleton.mp here]
        exact ⟨t.services, List.mem_cons_self, content⟩
    · exact ⟨may_of_same rfl rfl rfl, by rintro _ ⟨⟩,
        fun _ _ => trivial⟩
  · rintro _ t ⟨before, split, accepted⟩
    rw [List.append_nil] at split
    rw [← split]
    exact accepted

theorem keeps_clean (cleanup : EStateM Exn (List String) Unit) : Keeps setup first (clean cleanup) := by
  refine keeps_step ?_ fun _ => keeps_ofExcept _
  intro w
  dsimp only
  split
  · exact may_of_same rfl rfl rfl
  · exact may_of_same rfl rfl rfl

theorem gated_writeConf {specs : OrderedDict String ServiceSpec} (loaded : Loaded setup specs w.versions)
    (accepted : Accepted setup.validators w.versions) :
    Safe (gateRely setup first) (gateRely setup first).may (fun _ _ => True) (fun _ _ => True)
      (writeConf setup specs) w := by
  have stable : Stable (gateRely setup first) _ := stable_checked specs
  have dirs : Safe (gateRely setup first) (gateRely setup first).may
      (fun _ t => Loaded setup specs t.versions ∧ Accepted setup.validators t.versions)
      (fun _ _ => True) ensureStateDirs w :=
    Safe.write ⟨loaded, accepted⟩ stable stable fun t holds => ⟨may_of_same rfl rfl rfl, holds⟩
  refine dirs.seq fun _ t holds => ?_
  cases rendered : render setup specs with
  | error e => exact Safe.raise fun _ _ => trivial
  | ok text =>
      obtain ⟨⟨doc, mem, loads⟩, accepted⟩ := holds
      exact gated_writeText ⟨⟨doc, mem, specs, loads, rendered⟩, accepted⟩

/-! ## Whole commands -/

/-- Loading and validating, then what needs both. -/
theorem keeps_checked {α : Type} {k : OrderedDict String ServiceSpec → Run Config α}
    (later : ∀ specs w, Loaded setup specs w.versions → Accepted setup.validators w.versions →
      Safe (gateRely setup first) (gateRely setup first).may (fun _ _ => True) (fun _ _ => True)
        (k specs) w) :
    Keeps setup first (do
      let specs ← load setup
      .each validate setup.validators
      k specs) := by
  intro w
  refine gated_load.seq fun specs t loaded => ?_
  have stable : Stable (gateRely setup first) fun t => Loaded setup specs t.versions :=
    stable_versions (P := Loaded setup specs) fun _ _ sub loaded => loaded.grow sub
  refine (gated_validate.frame (fun _ _ => id) stable loaded fun _ _ => And.left).seq fun _ u holds => ?_
  exact later specs u holds.2 holds.1

theorem keeps_prepare : Keeps setup first (prepare setup) := by
  refine keeps_checked ?_
  intro specs w loaded accepted
  have stable : Stable (gateRely setup first) _ := stable_checked specs
  refine ((keeps_each keeps_clean _ w).frame (fun _ _ => id) stable ⟨loaded, accepted⟩
    fun _ _ => And.left).seq ?_
  intro _ t holds
  exact (gated_writeConf holds.2.1 holds.2.2).seq fun _ _ _ => keeps_ret _ _

theorem keeps_startSupervisord : Keeps setup first (startSupervisord setup) := by
  refine keeps_step ?_ fun _ => keeps_ofExcept _
  intro w
  have same : (gateRely setup first).may w w.spent := may_of_same rfl rfl rfl
  dsimp only
  split
  · exact same
  · exact same
  · exact same
  · rename_i text _ _ here
    split
    · exact same
    · rename_i file reads
      show (gateRely setup first).may w { w.spent with daemon := some (.started file) }
      refine may_of_daemon rfl rfl ?_
      intro d config there carries
      cases there
      refine .inr ⟨text, here, file, reads, ?_⟩
      rcases carries with ⟨q, g, held, same⟩ | held
      · change (OrderedDict.ofList _).get? q = some g at held
        obtain ⟨e, mem, pair⟩ := List.mem_map.mp (OrderedDict.mem_of_get?_ofList held)
        cases pair
        exact ⟨e.1, (OrderedDict.get?_of_mem mem).trans (congrArg some same)⟩
      · exact held

theorem keeps_poll (wanted : Bool) (gaveUp : BootExn) (deadline turns : Nat) :
    Keeps setup first (poll wanted gaveUp deadline turns) := by
  induction turns with
  | zero => exact keeps_raise _
  | succ turns ih =>
      refine keeps_now.bind fun time => ?_
      split
      · refine keeps_isRunning.bind fun found => ?_
        split
        · exact keeps_ret _
        · exact keeps_sleep.bind fun _ => ih
      · exact keeps_raise _

theorem keeps_waitFor (wanted : Bool) (gaveUp : BootExn) : Keeps setup first (waitFor wanted gaveUp) :=
  keeps_now.bind fun _ => keeps_poll _ _ _ _

theorem keeps_up : Keeps setup first (up setup) := by
  refine keeps_isRunning.bind fun already => ?_
  split
  · exact keeps_raise _
  · exact keeps_prepare.bind fun _ => keeps_startSupervisord.bind fun _ => keeps_waitFor _ _

theorem keeps_down : Keeps setup first down := by
  refine keeps_isRunning.bind fun there => ?_
  split
  · refine (keeps_call _ ?_).bind fun _ => keeps_waitFor _ _
    intro w d a d' ran config carries
    cases ran
    exact .inl carries
  · exact keeps_ret _

theorem keeps_processInfo : Keeps setup first processInfo := by
  refine keeps_call _ ?_
  intro w d a d' ran config carries
  cases ran
  exact .inl carries

theorem keeps_restartAll : Keeps setup first restartAll := by
  refine (keeps_call _ ?_).bind fun _ => keeps_call _ ?_
  · intro w d a d' ran config carries
    cases ran
    exact .inl (carries_stopEach carries)
  · intro w d a d' ran config carries
    cases ran
    exact .inl (carries_startEach carries)

theorem keeps_restartProcess (name : String) : Keeps setup first (restartProcess name) :=
  (keeps_call _ (carried_stopTolerant name)).bind fun _ => keeps_call _ (carried_start name)

theorem keeps_removeGroup (name : String) : Keeps setup first (removeGroup name) :=
  (keeps_call _ (carried_stopProcessGroup name)).bind fun _ =>
    keeps_call _ (carried_removeProcessGroup name)

theorem keeps_addGroup (name : String) : Keeps setup first (addGroup name) :=
  keeps_call _ (carried_addProcessGroup name)

section Apply

variable [DecidableEq Config]

theorem keeps_reconcile : Keeps setup first (reconcile setup) := by
  refine (keeps_call _ carried_reload).bind fun diff => ?_
  refine (keeps_each keeps_removeGroup _).bind fun _ => ?_
  refine (keeps_each (fun name => (keeps_removeGroup name).bind fun _ => keeps_addGroup name) _).bind
    fun _ => ?_
  exact (keeps_each keeps_addGroup _).bind fun _ => keeps_ret _

theorem keeps_apply : Keeps setup first (apply setup) := by
  refine keeps_isRunning.bind fun there => ?_
  split
  · refine keeps_checked ?_
    intro specs w loaded accepted
    exact (gated_writeConf loaded accepted).seq fun _ t _ => keeps_reconcile t
  · exact keeps_raise _

theorem gated_program (command : Command) : Keeps setup first (program setup command) := by
  cases command with
  | up => exact keeps_up.bind fun _ => keeps_processInfo.bind fun _ => keeps_ret _
  | down =>
      refine keeps_isRunning.bind fun there => ?_
      split
      · exact keeps_down.bind fun _ => keeps_ret _
      · exact keeps_ret _
  | apply => exact keeps_apply.bind fun _ => keeps_ret _
  | status =>
      refine keeps_isRunning.bind fun there => ?_
      split
      · exact keeps_processInfo.bind fun _ => keeps_ret _
      · exact keeps_ret _
  | restart service =>
      refine keeps_isRunning.bind fun there => ?_
      split
      · split
        · exact keeps_restartAll.bind fun _ => keeps_ret _
        · exact keeps_restartAll.bind fun _ => keeps_ret _
        · exact (keeps_restartProcess _).bind fun _ => keeps_ret _
      · exact keeps_raise _

end Apply

/-! ## Every interleaving -/

theorem may_outside (w : World Config) (event : Event) : (gateRely setup first).may w (w.outside event) := by
  cases event with
  | edit doc =>
      have sub : w.versions ⊆ (w.outside (.edit doc)).versions := List.subset_cons_self _ _
      refine ⟨sub, ?_⟩
      intro gated
      refine ⟨fun text here => (gated.conf text here).grow sub, ?_⟩
      intro d config there carries
      rcases gated.daemon d config there carries with before | ⟨text, written, reads⟩
      · exact .inl before
      · exact .inr ⟨text, written.grow sub, reads⟩
  | segment file => exact may_of_same rfl rfl rfl
  | daemonEnds => exact may_of_daemon rfl rfl fun d config there => by cases there
  | answering value =>
      refine may_of_daemon rfl rfl ?_
      intro d' config there carries
      obtain ⟨d, before, rfl⟩ := Option.map_eq_some_iff.mp there
      exact .inl ⟨d, before, carries⟩
  | process name value =>
      refine may_of_daemon rfl rfl ?_
      intro d' config there carries
      obtain ⟨d, before, rfl⟩ := Option.map_eq_some_iff.mp there
      exact .inl ⟨d, before, carries_setRunning carries⟩
  | time passed => exact may_of_same rfl rfl rfl
  | luck next => exact may_of_same rfl rfl rfl
  | buffered amount => exact may_of_same rfl rfl rfl

/-- **The gate**: in every state that commands side by side can reach, the conf is the first
one or the beginning of one whose specs a version of the file gave and whose validators were
all content, and every configuration in the daemon was there at first or read from such a conf. -/
theorem conf_gated [DecidableEq Config] (setup : Setup Config) (first : World Config)
    {sys : System Command (World Config) BootExn Reply}
    (reach : Reachable (together setup).step (Machine.Fresh (· = first)) sys) :
    Gated setup first sys.shared := by
  have respects : Respects (together setup) (gateRely setup first) (gateRely setup first).may
      (fun _ _ _ _ => True) (fun _ _ _ _ => True) (Gated setup first) :=
    { launched := fun command w _ => gated_program command w
      outside := may_outside
      kept := fun _ _ gated may => may.2 gated
      own := fun _ _ gated may => may.2 gated }
  have base : ∀ w, w = first → Gated setup first w := fun w same => by rw [same]; exact gated_refl first
  exact (safe_together respects (fun _ _ => id) base reach).1

end Gate

/-! ## A run -/

namespace Demo

/-- A conf without programs is read as one without groups. -/
def setup : Setup String := ⟨fun _ => "", "python3", fun _ => .ok ∅, [], [sweepSegments]⟩

/-- A runtime that is down, with a segment of an earlier generation. -/
def off : World String := ⟨.loaded .null, [], none, false, ["iox2_old"], none, 0, [], 0, false⟩

abbrev Sys : Type := System Command (World String) BootExn Reply

/-- Two terminals bring the runtime up at once, and the file is removed in between. -/
def twoTerminals : List (Move Command Event) :=
  [.launch .up, .launch .up, .advance 0, .advance 1, .advance 0, .advance 1, .outside (.edit .missing),
    .advance 0, .advance 0, .advance 0, .advance 1, .advance 1, .advance 1]

theorem conf_gated_twoTerminals :
    Gated setup off (endState (together setup).step ⟨off, []⟩ twoTerminals).shared :=
  conf_gated setup off (Reachable.of_accepts ⟨rfl, rfl⟩ rfl)

end Demo

end KoyuRuntime.Warden.Boot
