/-
# Warden.Redeploy — applying one edit after another

A successful `apply` gives every group what the conf says, except that a group whose config has
not changed is left as it is, also when it does not run.  Such a group can come from an attempt
that stopped it for an edit that was undone before the next attempt.

* `groups_after_apply`: what a successful attempt makes of every group, from any daemon.
* `all_running_iff`: when that is the conf with everything running.
* `Fleet`: edits and attempts, in any order.
* `settled_after_edits`: in every run that edits the conf only when the last attempt succeeded,
  the groups are those of the conf applied last, all running, whenever no attempt is open.
* `undone_edit`: without that, a program can stay stopped.
-/
import KoyuRuntime.Theory.Transition
import KoyuRuntime.Warden.SupervisordClient

namespace KoyuRuntime.Warden

open Theory

set_option autoImplicit false

section Boot

variable {Config : Type}

/-- supervisord just started from a conf. -/
def Supervisord.booted (file : OrderedDict String Config) : Supervisord Config :=
  ⟨.ofList (file.entries.map fun e => (e.1, ⟨e.2, true⟩)), file⟩

/-- It has one group for each program of the conf. -/
theorem get?_booted (file : OrderedDict String Config) (name : String) :
    (Supervisord.booted file).groups.get? name = started file name := by
  let groups := file.entries.map fun e => (e.1, (⟨e.2, true⟩ : Group Config))
  have keys : groups.map Prod.fst = file.keys := List.map_map
  have distinct : (groups.map Prod.fst).Nodup := keys ▸ file.nodup
  show (OrderedDict.ofList groups).get? name = started file name
  unfold started
  cases held : file.get? name with
  | none =>
      refine OrderedDict.get?_eq_none_iff.mpr ?_
      rw [OrderedDict.keys_ofList _ distinct, keys]
      exact OrderedDict.get?_eq_none_iff.mp held
  | some config =>
      apply OrderedDict.get?_of_mem
      rw [OrderedDict.entries_ofList _ distinct]
      exact List.mem_map.mpr ⟨(name, config), OrderedDict.mem_of_find held, rfl⟩

end Boot

section Attempt

variable {Config : Type} [DecidableEq Config] {file : OrderedDict String Config}
  {s s' : Session Config} {diff : Diff}

/-- The three lists of an attempt say which groups it has made anew. -/
theorem groups_by_lists (done : SupervisordClient.apply file s = .ok diff s') (q : String) :
    s'.daemon.groups.get? q =
      if q ∈ (s.daemon.after file).diff.added then started file q
      else if q ∈ (s.daemon.after file).diff.changed then started file q
      else if q ∈ (s.daemon.after file).diff.removed then none
      else s.daemon.groups.get? q := by
  obtain ⟨diff, mid, reload, rest⟩ := bind_ok_iff.mp done
  obtain ⟨_, mid', removes, rest⟩ := bind_ok_iff.mp rest
  obtain ⟨_, mid'', replaces, rest⟩ := bind_ok_iff.mp rest
  obtain ⟨_, last, adds, rest⟩ := bind_ok_iff.mp rest
  obtain ⟨-, rfl⟩ := pure_ok_iff.mp rest
  obtain ⟨rfl, daemon⟩ := reload_ok reload
  have reread : mid.daemon.reread = file := by rw [daemon]; rfl
  have reread' := ((touches_each touches_removeGroup _ mid).of_ok removes).reread.trans reread
  have reread'' := ((touches_each touches_replaceGroup _ mid').of_ok replaces).reread.trans reread'
  rw [each_ok (started file) touches_addGroup (fun _ _ _ => addGroup_ok) reread'' adds,
    each_ok (started file) touches_replaceGroup (fun _ _ _ => replaceGroup_ok) reread' replaces,
    each_ok (fun _ => none) touches_removeGroup (fun _ _ _ _ => removeGroup_ok) reread removes,
    daemon]
  rfl

/-- What a successful attempt makes of a group: an unchanged one is left as it is. -/
def afterApply (file : OrderedDict String Config) (d : Supervisord Config) (q : String) :
    Option (Group Config) :=
  match d.groups.get? q with
  | none => started file q
  | some group => if file.get? q = some group.config then some group else started file q

/-- **A successful attempt**, from any daemon. -/
theorem groups_after_apply (done : SupervisordClient.apply file s = .ok diff s') (q : String) :
    s'.daemon.groups.get? q = afterApply file s.daemon q := by
  rw [groups_by_lists done]
  unfold afterApply
  cases held : s.daemon.groups.get? q with
  | none =>
      have absent : q ∉ s.daemon.groups.keys := OrderedDict.get?_eq_none_iff.mp held
      by_cases inFile : q ∈ file.keys
      · rw [if_pos (mem_added_iff.mpr ⟨inFile, absent⟩)]
      · have notAdded : q ∉ (s.daemon.after file).diff.added :=
          fun added => inFile (mem_added_iff.mp added).1
        have notChanged : q ∉ (s.daemon.after file).diff.changed := by
          intro changed
          obtain ⟨group, _, found, -⟩ := mem_changed_iff.mp changed
          rw [held] at found
          cases found
        rw [if_neg notAdded, if_neg notChanged, started_of_absent inFile, ite_self]
  | some group =>
      have present : q ∈ s.daemon.groups.keys := by
        rw [OrderedDict.mem_keys_iff, held]
        rfl
      have notAdded : q ∉ (s.daemon.after file).diff.added :=
        fun added => (mem_added_iff.mp added).2 present
      dsimp only
      rw [if_neg notAdded]
      by_cases same : file.get? q = some group.config
      · have out := not_mem_affected (d := s.daemon) ⟨group, held, same⟩
        simp only [Diff.affected, List.mem_append, not_or] at out
        rw [if_neg out.1.2, if_neg out.1.1, if_pos same]
      · rw [if_neg same]
        cases inFile : file.get? q with
        | none =>
            have absent := OrderedDict.get?_eq_none_iff.mp inFile
            rw [if_pos (mem_removed_iff.mpr ⟨present, absent⟩), started_of_absent absent, ite_self]
        | some config =>
            have ne : group.config ≠ config := fun equal => same (by rw [inFile, equal])
            rw [if_pos (mem_changed_iff.mpr ⟨group, config, held, inFile, ne⟩)]

/-- **Everything runs** after a successful attempt exactly if no unchanged group was stopped. -/
theorem all_running_iff (done : SupervisordClient.apply file s = .ok diff s') :
    (∀ q, s'.daemon.groups.get? q = started file q) ↔ Ready file s.daemon := by
  constructor
  · intro all q group held
    by_cases same : file.get? q = some group.config
    · have after_ := (groups_after_apply done q).symm.trans (all q)
      unfold afterApply at after_
      rw [held] at after_
      dsimp only at after_
      rw [if_pos same, started, same] at after_
      refine .inl ?_
      rw [Option.some.inj after_]
    · exact .inr same
  · exact fun ready q => groups_apply ready done q

end Attempt

/-! ## Edits and attempts -/

section Fleet

variable {Config : Type}

/-- The conf in its file and the daemon; the conf of the last attempt that succeeded, and whether
one has failed since. -/
structure Fleet (Config : Type) where
  file : OrderedDict String Config
  daemon : Supervisord Config
  applied : OrderedDict String Config
  failed : Bool

inductive FleetAction (Config : Type) where
  | edit (file : OrderedDict String Config)
  | attempt (fates : List Fate)

variable [DecidableEq Config]

def Fleet.step (f : Fleet Config) : FleetAction Config → Except Unit (Fleet Config)
  | .edit file => .ok { f with file := file }
  | .attempt fates =>
      match SupervisordClient.apply f.file ⟨f.daemon, fates, []⟩ with
      | .ok _ s => .ok { f with daemon := s.daemon, applied := f.file, failed := false }
      | .error _ s => .ok { f with daemon := s.daemon, failed := true }

/-- A fleet that runs the conf it was started with. -/
def Fleet.Settled (f : Fleet Config) : Prop :=
  f.failed = false ∧ ∀ q, f.daemon.groups.get? q = started f.applied q

/-- An edit is made only when the last attempt succeeded. -/
def Careful (f : Fleet Config) : FleetAction Config → Prop
  | .edit _ => f.failed = false
  | .attempt _ => True

omit [DecidableEq Config] in
instance Careful.decide (f : Fleet Config) : (a : FleetAction Config) → Decidable (Careful f a)
  | .edit _ => inferInstanceAs (Decidable (f.failed = false))
  | .attempt _ => isTrue trivial

omit [DecidableEq Config] in
/-- A group that a conf started runs, whatever the next conf says. -/
theorem ready_of_settled {f : Fleet Config} (settled : f.Settled) (file : OrderedDict String Config) :
    Ready file f.daemon := by
  intro q group held
  rw [settled.2 q, started] at held
  obtain ⟨config, -, rfl⟩ := Option.map_eq_some_iff.mp held
  exact .inl rfl

/-- Between attempts: settled, or one has failed and the file is still the one it was made for. -/
def Tended (f : Fleet Config) : Prop := f.Settled ∨ f.failed = true ∧ Ready f.file f.daemon

omit [DecidableEq Config] in
theorem Tended.ready {f : Fleet Config} (tended : Tended f) : Ready f.file f.daemon := by
  rcases tended with settled | ⟨-, ready⟩
  · exact ready_of_settled settled f.file
  · exact ready

theorem tended_step {f f' : Fleet Config} {a : FleetAction Config} (tended : Tended f)
    (careful : Careful f a) (stepped : f.step a = .ok f') : Tended f' := by
  cases a with
  | edit file =>
      cases stepped
      rcases tended with settled | ⟨failed, -⟩
      · exact .inl settled
      · rw [show f.failed = false from careful] at failed
        cases failed
  | attempt fates =>
      have ready := tended.ready
      unfold Fleet.step at stepped
      dsimp only at stepped
      split at stepped
      · rename_i diff s done
        cases stepped
        exact .inl ⟨rfl, fun q => groups_apply (s := ⟨f.daemon, fates, []⟩) ready done q⟩
      · rename_i error s raised
        cases stepped
        have kept : Ready f.file (left (SupervisordClient.apply f.file ⟨f.daemon, fates, []⟩)).daemon :=
          ready_apply (s := ⟨f.daemon, fates, []⟩) ready
        rw [raised] at kept
        exact .inr ⟨rfl, kept⟩

/-- **Careful edits**: whenever no attempt is open, the groups are those of the conf applied
last, and all of them run. -/
theorem settled_after_edits {f f' : Fleet Config} {actions : List (FleetAction Config)}
    (settled : f.Settled) (careful : Along Fleet.step Careful f actions)
    (run : runs Fleet.step f actions = .ok f') :
    (f'.failed = false → ∀ q, f'.daemon.groups.get? q = started f'.applied q) ∧
      (f'.failed = true → Ready f'.file f'.daemon) := by
  have tended : Tended f' := by
    have base : Tended f := .inl settled
    clear settled
    induction actions generalizing f with
    | nil =>
        cases run
        exact base
    | cons a rest ih =>
        obtain ⟨mid, first, later⟩ := runs_cons_ok.mp run
        exact ih (careful.2 mid first) later (tended_step base careful.1 first)
  rcases tended with ⟨closed, all⟩ | ⟨failed, ready⟩
  · exact ⟨fun _ => all, fun failed => absurd (closed.symm.trans failed) (by decide)⟩
  · exact ⟨fun closed => absurd (closed.symm.trans failed) (by decide), fun _ => ready⟩

end Fleet

/-- A fleet just started from a conf. -/
def Fleet.booted {Config : Type} (file : OrderedDict String Config) : Fleet Config :=
  ⟨file, .booted file, file, false⟩

theorem settled_booted {Config : Type} (file : OrderedDict String Config) : (Fleet.booted file).Settled :=
  ⟨rfl, get?_booted file⟩

namespace Demo

/-- One program, which an edit changes and a second edit changes back. -/
def old : OrderedDict String Nat := .ofList [("alpha", 1)]
def new : OrderedDict String Nat := .ofList [("alpha", 2)]

/-- The attempt for the edit stops the program and gets no further. -/
def halfway : FleetAction Nat := .attempt [.answered, .answered, .unsent]

/-- A daemon whose program an open attempt has stopped, and the same after the next attempt. -/
def parked : Session Nat := ⟨⟨.ofList [("alpha", ⟨1, false⟩)], old⟩, [], []⟩
def unhelped : Session Nat := ⟨parked.daemon, [], [.reloadConfig]⟩

theorem all_running_iff_parked :
    (∀ q, unhelped.daemon.groups.get? q = started old q) ↔ Ready old parked.daemon :=
  all_running_iff (show SupervisordClient.apply old parked = .ok ⟨[], [], []⟩ unhelped from rfl)

/-- **Undone**: the next attempt finds nothing to do, and the program stays stopped. -/
theorem undone_edit :
    ((endState Fleet.step (Fleet.booted old) [.edit new, halfway, .edit old, .attempt []]).daemon.groups.get?
      "alpha").map (fun group => (group.config, group.running)) = some (1, false) := by
  decide +kernel

/-- The same edits, with an attempt that succeeds before the second. -/
def patient : List (FleetAction Nat) := [.edit new, halfway, .attempt [], .edit old, .attempt []]

theorem settled_after_edits_patient :
    ∀ q, (endState Fleet.step (Fleet.booted old) patient).daemon.groups.get? q =
      started (endState Fleet.step (Fleet.booted old) patient).applied q :=
  (settled_after_edits (settled_booted old) (by decide +kernel)
    (runs_of_accepts (by decide +kernel))).1 (by decide +kernel)

end Demo

end KoyuRuntime.Warden
