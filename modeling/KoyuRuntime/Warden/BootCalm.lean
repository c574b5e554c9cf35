/-
# Warden.BootCalm — the steps of a command that disturb nothing

Most of what a command does changes neither the conf nor the configurations in the daemon nor
the segments: probing, waiting, reading the file, starting and stopping processes.

* `Undisturbed`: conf and configurations are as they were, and no daemon was started.  The
  surroundings of a command that runs alone leave its world so.
* `Calm`: a program of steps that do no more.
* `Calm.keeping`: what the surroundings keep, a calm program keeps.
* `poll_never_short`: waiting is given up only when the time is over.
-/
import KoyuRuntime.Warden.BootGate

namespace KoyuRuntime.Warden.Boot

open Host Theory
open Ipc.Checks (CheckError)

set_option autoImplicit false

variable {Config : Type}

/-! ## What surroundings do -/

/-- The configuration of the group of a name. -/
def Daemon.configs (d : Daemon Config) (name : String) : Option Config :=
  (d.core.groups.get? name).map (·.config)

/-- The same configurations, whatever runs. -/
structure Daemon.Same (d d' : Daemon Config) : Prop where
  reread : d'.core.reread = d.core.reread
  configs : ∀ name, d'.configs name = d.configs name

theorem Daemon.Same.refl (d : Daemon Config) : d.Same d := ⟨rfl, fun _ => rfl⟩

theorem Daemon.Same.trans {d d' d'' : Daemon Config} (one : d.Same d') (other : d'.Same d'') :
    d.Same d'' :=
  ⟨other.reread.trans one.reread, fun name => (other.configs name).trans (one.configs name)⟩

/-- No conf was written and no daemon started, and the daemon has no other configurations. -/
structure Undisturbed (w t : World Config) : Prop where
  versions : w.versions <:+ t.versions
  clock : w.clock ≤ t.clock
  conf : t.conf = w.conf
  daemon : ∀ d', t.daemon = some d' → ∃ d, w.daemon = some d ∧ d.Same d'
  missed : w.missed = true → t.missed = true

theorem Undisturbed.refl (w : World Config) : Undisturbed w w :=
  ⟨List.suffix_refl _, le_refl _, rfl, fun d there => ⟨d, there, .refl d⟩, id⟩

theorem Undisturbed.trans {w t u : World Config} (one : Undisturbed w t) (other : Undisturbed t u) :
    Undisturbed w u := by
  refine ⟨one.versions.trans other.versions, one.clock.trans other.clock,
    other.conf.trans one.conf, ?_, fun missed => other.missed (one.missed missed)⟩
  intro d'' there
  obtain ⟨d', between, same'⟩ := other.daemon d'' there
  obtain ⟨d, before, same⟩ := one.daemon d' between
  exact ⟨d, before, same.trans same'⟩

/-- What goes on besides the one command that runs. -/
def aloneRely (Config : Type) : Rely (World Config) := ⟨Undisturbed, .refl, .trans⟩

/-- A step that changes neither conf nor configurations nor segments. -/
def Calmly (w t : World Config) : Prop := Undisturbed w t ∧ t.segments = w.segments

/-- A program of such steps. -/
def Calm {α : Type} (X : BootExn → World Config → Prop) (p : Run Config α) (w : World Config) : Prop :=
  Safe (aloneRely Config) Calmly (fun _ _ => True) X p w

section Calm

variable {α β : Type} {w t : World Config}

theorem same_setRunning (name : String) (value : Bool) (d : Daemon Config) :
    d.Same (setRunning name value d) := by
  unfold setRunning
  split
  · exact .refl d
  · rename_i group found
    refine ⟨rfl, fun q => ?_⟩
    show ((d.core.groups.set name _).get? q).map (·.config) = _
    rw [OrderedDict.get?_set]
    split
    · rename_i here
      rw [← here]
      show some group.config = _
      rw [Daemon.configs, found]
      rfl
    · rfl

theorem same_stopEach (names : List String) (d : Daemon Config) : d.Same (stopEach names d) := by
  induction names generalizing d with
  | nil => exact .refl d
  | cons name rest ih => exact (same_setRunning name false d).trans (ih _)

theorem same_startEach (names : List String) (luck : List Luck) (d : Daemon Config) :
    d.Same (startEach names luck d) := by
  induction names generalizing d luck with
  | nil => exact .refl d
  | cons name rest ih =>
      refine Daemon.Same.trans ?_ (ih luck.tail _)
      split
      · exact .refl d
      · exact same_setRunning name true d

/-- A step that leaves the file, the conf and the configurations. -/
theorem undisturbed_of_same (versions : t.versions = w.versions) (clock : w.clock ≤ t.clock)
    (conf : t.conf = w.conf) (daemon : ∀ d', t.daemon = some d' → ∃ d, w.daemon = some d ∧ d.Same d')
    (missed : w.missed = true → t.missed = true) : Undisturbed w t :=
  ⟨versions ▸ List.suffix_refl _, clock, conf, daemon, missed⟩

theorem undisturbed_outside (w : World Config) (event : Event) : Undisturbed w (w.outside event) := by
  have kept : ∀ d', w.daemon = some d' → ∃ d, w.daemon = some d ∧ d.Same d' :=
    fun d there => ⟨d, there, .refl d⟩
  cases event with
  | edit doc => exact ⟨List.suffix_cons _ _, le_refl _, rfl, kept, id⟩
  | segment file => exact undisturbed_of_same rfl (le_refl _) rfl kept id
  | daemonEnds => exact undisturbed_of_same rfl (le_refl _) rfl (fun _ there => by cases there) id
  | answering value =>
      refine undisturbed_of_same rfl (le_refl _) rfl ?_ id
      intro d' there
      obtain ⟨d, before, rfl⟩ := Option.map_eq_some_iff.mp there
      exact ⟨d, before, rfl, fun _ => rfl⟩
  | process name value =>
      refine undisturbed_of_same rfl (le_refl _) rfl ?_ id
      intro d' there
      obtain ⟨d, before, rfl⟩ := Option.map_eq_some_iff.mp there
      exact ⟨d, before, same_setRunning name value d⟩
  | time passed => exact undisturbed_of_same rfl (Nat.le_add_right _ _) rfl kept id
  | luck next => exact undisturbed_of_same rfl (le_refl _) rfl kept id
  | buffered amount => exact undisturbed_of_same rfl (le_refl _) rfl kept id

/-! ## Calm programs -/

variable {X X' : BootExn → World Config → Prop}

/-- An assertion about a world that nothing has disturbed since. -/
theorem stable_undisturbed (s : World Config) : Stable (aloneRely Config) (Undisturbed s) :=
  fun _ _ since may => since.trans may

/-- **What the surroundings keep**, a calm program keeps. -/
theorem Calm.keeping {p : Run Config α} {P : World Config → Prop} (calm : Calm X p w)
    (stable : Stable (aloneRely Config) P) (holds : P w) (raises : ∀ e t, X e t ∧ P t → X' e t) :
    Safe (aloneRely Config) Calmly (fun _ t => P t) X' p w :=
  (calm.frame (fun _ _ => And.left) stable holds raises).mono (fun _ _ => And.right) fun _ _ => id

theorem calm_ret (a : α) : Calm X (pure a : Run Config α) w := fun _ _ => trivial

theorem Calm.bind {p : Run Config α} {k : α → Run Config β} (calm : Calm X p w)
    (later : ∀ a t, Calm X (k a) t) : Calm X (p >>= k) w :=
  calm.seq fun a t _ => later a t

theorem calm_step {effect : World Config → World Config} {next : World Config → Run Config α}
    (calmly : ∀ t, Calmly t (effect t)) (later : ∀ t u, Calm X (next t) u) :
    Calm X (.step effect next) w :=
  fun t _ => ⟨calmly t, later t (effect t)⟩

/-- A step that only counts the luck and the probes. -/
theorem calmly_of_same (versions : t.versions = w.versions) (clock : w.clock ≤ t.clock)
    (conf : t.conf = w.conf) (daemon : t.daemon = w.daemon) (missed : w.missed = true → t.missed = true)
    (segments : t.segments = w.segments) : Calmly w t :=
  ⟨undisturbed_of_same versions clock conf (fun d there => ⟨d, daemon ▸ there, .refl d⟩) missed, segments⟩

theorem calmly_probe (t : World Config) :
    Calmly t { t.spent with missed := t.missed || (t.daemon.isSome && !t.answers) } :=
  calmly_of_same rfl (le_refl _) rfl rfl (fun missed => by rw [missed]; rfl) rfl

theorem calm_isRunning : Calm X isRunning w := calm_step calmly_probe fun _ _ => calm_ret _

theorem calm_now : Calm X now w :=
  calm_step (fun _ => calmly_of_same rfl (le_refl _) rfl rfl id rfl) fun _ _ => calm_ret _

theorem calm_sleep : Calm X sleep w :=
  calm_step (fun _ => calmly_of_same rfl (Nat.le_add_right _ _) rfl rfl id rfl) fun _ _ => calm_ret _

theorem calm_ensureStateDirs : Calm X ensureStateDirs w :=
  calm_step (fun _ => calmly_of_same rfl (le_refl _) rfl rfl id rfl) fun _ _ => calm_ret _

theorem calmly_spent (t : World Config) : Calmly t t.spent :=
  calmly_of_same rfl (le_refl _) rfl rfl id rfl

/-- A step that gives the daemon no other configurations. -/
theorem calmly_daemon {d d' : Daemon Config} (there : t.daemon = some d) (same : d.Same d') :
    Calmly t { t.spent with daemon := some d' } := by
  refine ⟨undisturbed_of_same rfl (le_refl _) rfl ?_ id, rfl⟩
  intro d'' found
  cases found
  exact ⟨d, there, same⟩

/-- What a call raises. -/
def ByCall (e : BootExn) (_ : World Config) : Prop := ∃ what why, e = .supervisord what why

/-- A call of a method that changes no configuration. -/
theorem calm_call {method : World Config → Daemon Config → Except RpcFault (α × Daemon Config)}
    (what : String) (same : ∀ w d a d', method w d = .ok (a, d') → d.Same d') :
    Calm ByCall (call what method) w := by
  refine safe_call (P := fun _ => True) trivial (stable_const True) (fun _ => stable_const True)
    (fun e => stable_const (∃ what why, e = .supervisord what why)) ?_ ?_
  · exact fun t _ => ⟨calmly_spent t, fun why => ⟨what, why, rfl⟩⟩
  · intro t d a d' _ there ran
    exact ⟨calmly_daemon there (same t d a d' ran), trivial, fun why => ⟨what, why, rfl⟩⟩

theorem same_stop {name : String} {d d' : Daemon Config} {a : Unit} (ran : stop name w d = .ok (a, d')) :
    d.Same d' := by
  unfold stop at ran
  split at ran
  · cases ran
  · cases ran
  · cases ran
    exact same_setRunning name false d

theorem same_start {name : String} {d d' : Daemon Config} {a : Unit} (ran : start name w d = .ok (a, d')) :
    d.Same d' := by
  unfold start at ran
  split at ran
  · cases ran
  · cases ran
  · split at ran
    · cases ran
    · cases ran
      exact same_setRunning name true d

theorem calm_processInfo : Calm ByCall processInfo w := by
  refine calm_call _ ?_
  intro t d a d' ran
  cases ran
  exact .refl d

theorem calm_restartAll : Calm ByCall restartAll w := by
  refine (calm_call _ ?_).bind fun _ t => calm_call _ ?_
  · intro t d a d' ran
    cases ran
    exact same_stopEach _ d
  · intro t d a d' ran
    cases ran
    exact same_startEach _ _ d

theorem calm_restartProcess (name : String) : Calm ByCall (restartProcess name) w := by
  refine (calm_call _ ?_).bind fun _ t => calm_call _ fun _ _ _ _ ran => same_start ran
  intro t d a d' ran
  unfold stopTolerant at ran
  split at ran
  · cases ran
    exact .refl d
  · exact same_stop ran

theorem calm_shutdown : Calm ByCall shutdown w := by
  refine calm_call _ ?_
  intro t d a d' ran
  cases ran
  exact ⟨rfl, fun _ => rfl⟩

/-- **Waiting** is given up only when the time is over: there are turns enough for it. -/
theorem poll_never_short (wanted : Bool) (gaveUp : BootExn) (deadline turns : Nat)
    (enough : deadline ≤ w.clock + 100 * turns) :
    Calm (fun e t => e = gaveUp ∧ deadline ≤ t.clock) (poll wanted gaveUp deadline turns) w := by
  induction turns generalizing w with
  | zero =>
      intro t may
      exact ⟨rfl, Nat.le_trans enough may.clock⟩
  | succ turns ih =>
      -- the clock read in this turn and the clock after it
      intro t may
      refine ⟨calmly_of_same rfl (le_refl _) rfl rfl id rfl, ?_⟩
      show Calm _ (if t.clock < deadline then _ else _) t
      split
      · intro u later
        refine ⟨calmly_probe u, ?_⟩
        show Calm _ (if u.answers = wanted then _ else _) _
        split
        · exact calm_ret _
        · intro v after
          refine ⟨calmly_of_same rfl (Nat.le_add_right _ _) rfl rfl id rfl, ih ?_⟩
          have clock : w.clock ≤ v.clock := may.clock.trans (later.clock.trans after.clock)
          show deadline ≤ v.clock + 100 + 100 * turns
          omega
      · rename_i late
        exact fun u later => ⟨rfl, Nat.le_trans (Nat.le_of_not_lt late) later.clock⟩

theorem calm_waitFor (wanted : Bool) (gaveUp : BootExn) :
    Calm (fun e t => e = gaveUp ∧ w.clock + readyTimeout ≤ t.clock) (waitFor wanted gaveUp) w := by
  intro t may
  refine ⟨calmly_of_same rfl (le_refl _) rfl rfl id rfl, ?_⟩
  have clock : w.clock ≤ t.clock := may.clock
  refine (poll_never_short (w := t) wanted gaveUp _ _ ?_).mono (fun _ _ => id) ?_
  · show t.clock + readyTimeout ≤ t.clock + 100 * (readyTimeout / 100 + 1)
    unfold readyTimeout
    omega
  · rintro e u ⟨same, late⟩
    refine ⟨same, ?_⟩
    dsimp only at late
    omega

end Calm

end KoyuRuntime.Warden.Boot
