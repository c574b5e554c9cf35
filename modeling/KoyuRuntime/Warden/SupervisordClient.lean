/-
# Warden.SupervisordClient — reconciling the groups of supervisord with the conf

`apply` rereads the conf and gets the groups that were added, changed and removed; it stops
and removes what is gone, replaces what changed and adds what is new, one call at a time.
A call may be rejected, may not arrive, or may lose its answer after it has taken effect,
and the first failure ends the attempt.

* `call_left`, `call_ok`: what one call does, whatever becomes of it.
* `ready_apply`: an attempt that fails anywhere stops no group whose config is the conf's.
* `groups_apply`: a whole attempt makes the groups those of the conf.
* `apply_converges`: any number of failed attempts, and one that succeeds.
* `apply_succeeds`: an attempt whose calls are all answered.
-/
import KoyuRuntime.Theory.OrderedDict
import KoyuRuntime.Theory.Raising

namespace KoyuRuntime.Warden

open Theory

set_option autoImplicit false

section Model

-- the configuration of a process group
variable {Config : Type}

/-- A process group of the daemon. -/
structure Group (Config : Type) where
  config : Config
  running : Bool

/-- supervisord: its groups, and the conf it has read last. -/
structure Supervisord (Config : Type) where
  groups : OrderedDict String (Group Config)
  reread : OrderedDict String Config

/-- The faults supervisord answers with. -/
inductive Fault where
  | badName
  | stillRunning
  | alreadyAdded
  deriving DecidableEq

/-- The groups the last conf read and the active ones differ in. -/
structure Diff where
  added : List String
  changed : List String
  removed : List String
  deriving DecidableEq

/-- The groups an attempt is about. -/
def Diff.affected (diff : Diff) : List String := diff.removed ++ diff.changed ++ diff.added

def Supervisord.diff [DecidableEq Config] (d : Supervisord Config) : Diff :=
  ⟨d.reread.keys.filter fun name => decide (name ∉ d.groups.keys),
    (d.reread.entries.filter fun e =>
      ((d.groups.get? e.1).any fun group => decide (group.config ≠ e.2))).map Prod.fst,
    d.groups.keys.filter fun name => decide (name ∉ d.reread.keys)⟩

/-- `reloadConfig`, with the conf as it stands in its file. -/
def reloadConfig [DecidableEq Config] (file : OrderedDict String Config) (d : Supervisord Config) :
    Except Fault (Diff × Supervisord Config) :=
  let d' := { d with reread := file }
  .ok (d'.diff, d')

/-- `stopProcessGroup`, which waits until the group has stopped. -/
def stopProcessGroup (name : String) (d : Supervisord Config) :
    Except Fault (Unit × Supervisord Config) :=
  match d.groups.get? name with
  | none => .error .badName
  | some group => .ok ((), { d with groups := d.groups.set name { group with running := false } })

/-- `removeProcessGroup`. -/
def removeProcessGroup (name : String) (d : Supervisord Config) :
    Except Fault (Unit × Supervisord Config) :=
  match d.groups.get? name with
  | none => .error .badName
  | some group =>
      if group.running then .error .stillRunning
      else .ok ((), { d with groups := d.groups.erase name })

/-- `addProcessGroup`, from the conf read last. -/
def addProcessGroup (name : String) (d : Supervisord Config) :
    Except Fault (Unit × Supervisord Config) :=
  match d.reread.get? name with
  | none => .error .badName
  | some config =>
      if name ∈ d.groups.keys then .error .alreadyAdded
      else .ok ((), { d with groups := d.groups.set name ⟨config, true⟩ })

/-! ## The client -/

inductive Rpc where
  | reloadConfig
  | stopProcessGroup (name : String)
  | removeProcessGroup (name : String)
  | addProcessGroup (name : String)
  deriving DecidableEq

/-- The group a call is about. -/
def Rpc.group : Rpc → Option String
  | .reloadConfig => none
  | .stopProcessGroup name => some name
  | .removeProcessGroup name => some name
  | .addProcessGroup name => some name

/-- What becomes of a call: it is answered, it does not arrive, or its answer is lost. -/
inductive Fate where
  | answered
  | unsent
  | cut
  deriving DecidableEq

/-- `SupervisordError`: supervisord rejected the call, or could not be reached. -/
inductive SupervisordError where
  | rejected (fault : Fault)
  | unreachable
  deriving DecidableEq

/-- The daemon, what will become of the next calls, and the calls issued so far. -/
structure Session (Config : Type) where
  daemon : Supervisord Config
  fates : List Fate
  issued : List Rpc

/-- `_call`; when nothing is said about its fate, the call is answered. -/
def call {α : Type} (rpc : Rpc) (method : Supervisord Config → Except Fault (α × Supervisord Config)) :
    EStateM SupervisordError (Session Config) α := fun s =>
  let s' := { s with fates := s.fates.tail, issued := s.issued ++ [rpc] }
  match s.fates.headD .answered, method s.daemon with
  | .unsent, _ => .error .unreachable s'
  | .answered, .ok (a, d) => .ok a { s' with daemon := d }
  | .answered, .error fault => .error (.rejected fault) s'
  | .cut, .ok (_, d) => .error .unreachable { s' with daemon := d }
  | .cut, .error _ => .error .unreachable s'

/-- `_add_group`. -/
def addGroup (name : String) : EStateM SupervisordError (Session Config) Unit :=
  call (.addProcessGroup name) (addProcessGroup name)

/-- `_remove_group`. -/
def removeGroup (name : String) : EStateM SupervisordError (Session Config) Unit := do
  call (.stopProcessGroup name) (stopProcessGroup name)
  call (.removeProcessGroup name) (removeProcessGroup name)

def replaceGroup (name : String) : EStateM SupervisordError (Session Config) Unit := do
  removeGroup name
  addGroup name

/-- A call for every name; the first that fails ends it. -/
def each (f : String → EStateM SupervisordError (Session Config) Unit) :
    List String → EStateM SupervisordError (Session Config) Unit
  | [] => pure ()
  | name :: rest => do
      f name
      each f rest

/-- `SupervisordClient.apply`. -/
def SupervisordClient.apply [DecidableEq Config] (file : OrderedDict String Config) :
    EStateM SupervisordError (Session Config) Diff := do
  let diff ← call .reloadConfig (reloadConfig file)
  each removeGroup diff.removed
  each replaceGroup diff.changed
  each addGroup diff.added
  pure diff

/-! ## What one call does -/

variable {α : Type} {s s' : Session Config} {name : String}

theorem call_left (rpc : Rpc) (method : Supervisord Config → Except Fault (α × Supervisord Config))
    (s : Session Config) :
    (left (call rpc method s)).issued = s.issued ++ [rpc] ∧
      ((left (call rpc method s)).daemon = s.daemon ∨
        ∃ a d, method s.daemon = .ok (a, d) ∧ (left (call rpc method s)).daemon = d) := by
  unfold call
  cases s.fates.headD .answered with
  | unsent => exact ⟨rfl, Or.inl rfl⟩
  | answered =>
      cases ran : method s.daemon with
      | error fault => exact ⟨rfl, Or.inl rfl⟩
      | ok out => exact ⟨rfl, Or.inr ⟨out.1, out.2, rfl, rfl⟩⟩
  | cut =>
      cases ran : method s.daemon with
      | error fault => exact ⟨rfl, Or.inl rfl⟩
      | ok out => exact ⟨rfl, Or.inr ⟨out.1, out.2, rfl, rfl⟩⟩

/-- A call that returns was answered with what the method gives. -/
theorem call_ok {rpc : Rpc} {method : Supervisord Config → Except Fault (α × Supervisord Config)}
    {a : α} (done : call rpc method s = .ok a s') : method s.daemon = .ok (a, s'.daemon) := by
  unfold call at done
  cases fate : s.fates.headD .answered with
  | unsent =>
      rw [fate] at done
      cases done
  | answered =>
      rw [fate] at done
      cases ran : method s.daemon with
      | error fault =>
          rw [ran] at done
          cases done
      | ok out =>
          rw [ran] at done
          cases done
          rfl
  | cut =>
      rw [fate] at done
      cases ran : method s.daemon with
      | error fault =>
          rw [ran] at done
          cases done
      | ok out =>
          rw [ran] at done
          cases done

/-- A call whose fate is to be answered returns what the method gives. -/
theorem call_answered (rpc : Rpc)
    (method : Supervisord Config → Except Fault (α × Supervisord Config)) {a : α}
    {d : Supervisord Config} (answered : s.fates = []) (gives : method s.daemon = .ok (a, d)) :
    call rpc method s = .ok a ⟨d, [], s.issued ++ [rpc]⟩ := by
  unfold call
  rw [answered, gives]
  rfl

/-! ### The methods -/

variable {d d' : Supervisord Config}

theorem stopProcessGroup_ok_iff :
    stopProcessGroup name d = .ok ((), d') ↔ ∃ group, d.groups.get? name = some group ∧
      d' = { d with groups := d.groups.set name { group with running := false } } := by
  unfold stopProcessGroup
  cases d.groups.get? name with
  | none => simp
  | some group => simp [eq_comm]

theorem removeProcessGroup_ok_iff :
    removeProcessGroup name d = .ok ((), d') ↔ ∃ group, d.groups.get? name = some group ∧
      group.running = false ∧ d' = { d with groups := d.groups.erase name } := by
  unfold removeProcessGroup
  cases d.groups.get? name with
  | none => simp
  | some group =>
      constructor
      · intro done
        dsimp only at done
        split at done
        · cases done
        · rename_i stopped
          cases done
          exact ⟨group, rfl, by simpa using stopped, rfl⟩
      · rintro ⟨other, same, stopped, rfl⟩
        cases same
        simp [stopped]

theorem addProcessGroup_ok_iff :
    addProcessGroup name d = .ok ((), d') ↔ ∃ config, d.reread.get? name = some config ∧
      name ∉ d.groups.keys ∧ d' = { d with groups := d.groups.set name ⟨config, true⟩ } := by
  unfold addProcessGroup
  cases d.reread.get? name with
  | none => simp
  | some config =>
      by_cases present : name ∈ d.groups.keys
      · simp [present]
      · simp [present, eq_comm]

/-! ## What an attempt touches -/

/-- The calls between two points of an attempt are about these groups, if about any, and
the others are as they were. -/
structure Calls (names : List String) (s s' : Session Config) : Prop where
  issued : ∃ more, s'.issued = s.issued ++ more ∧
    ∀ rpc ∈ more, ∀ name, rpc.group = some name → name ∈ names
  others : ∀ q, q ∉ names → s'.daemon.groups.get? q = s.daemon.groups.get? q

/-- And the conf is not read again. -/
structure Touches (names : List String) (s s' : Session Config) : Prop extends Calls names s s' where
  reread : s'.daemon.reread = s.daemon.reread

variable {names more : List String}

theorem Calls.refl (names : List String) (s : Session Config) : Calls names s s :=
  ⟨⟨[], by simp, by simp⟩, fun _ _ => rfl⟩

theorem Calls.trans {s'' : Session Config} (first : Calls names s s') (second : Calls names s' s'') :
    Calls names s s'' := by
  obtain ⟨m, grown, about⟩ := first.issued
  obtain ⟨m', grown', about'⟩ := second.issued
  refine ⟨⟨m ++ m', by rw [grown', grown, List.append_assoc], ?_⟩, ?_⟩
  · intro rpc mem
    rcases List.mem_append.mp mem with before | after
    · exact about rpc before
    · exact about' rpc after
  · intro q other
    rw [second.others q other, first.others q other]

theorem Calls.mono (calls : Calls names s s') (part : names ⊆ more) : Calls more s s' := by
  obtain ⟨m, grown, about⟩ := calls.issued
  refine ⟨⟨m, grown, ?_⟩, fun q other => calls.others q fun mem => other (part mem)⟩
  intro rpc mem name same
  exact part (about rpc mem name same)

theorem Touches.refl (names : List String) (s : Session Config) : Touches names s s :=
  ⟨Calls.refl names s, rfl⟩

theorem Touches.trans {s'' : Session Config} (first : Touches names s s')
    (second : Touches names s' s'') : Touches names s s'' :=
  ⟨first.toCalls.trans second.toCalls, second.reread.trans first.reread⟩

theorem Touches.mono (touches : Touches names s s') (part : names ⊆ more) : Touches more s s' :=
  ⟨touches.toCalls.mono part, touches.reread⟩

theorem touches_call {rpc : Rpc} {method : Supervisord Config → Except Fault (α × Supervisord Config)}
    (about : rpc.group = some name)
    (frame : ∀ d a d', method d = .ok (a, d') →
      (∀ q, q ≠ name → d'.groups.get? q = d.groups.get? q) ∧ d'.reread = d.reread)
    (s : Session Config) : Leaves (Touches [name]) (call rpc method) s := by
  obtain ⟨issued, daemon⟩ := call_left rpc method s
  have log : ∃ more, (left (call rpc method s)).issued = s.issued ++ more ∧
      ∀ r ∈ more, ∀ n, r.group = some n → n ∈ [name] := by
    refine ⟨[rpc], issued, ?_⟩
    intro r mem n same
    rw [List.mem_singleton.mp mem, about] at same
    exact List.mem_singleton.mpr (Option.some.inj same).symm
  rcases daemon with same | ⟨a, d', gives, same⟩
  · exact ⟨⟨log, fun q _ => by rw [same]⟩, by rw [same]⟩
  · obtain ⟨others, reread⟩ := frame _ a d' gives
    refine ⟨⟨log, ?_⟩, by rw [same, reread]⟩
    intro q other
    rw [same]
    exact others q fun here => other (List.mem_singleton.mpr here)

theorem touches_removeGroup (name : String) (s : Session Config) :
    Leaves (Touches [name]) (removeGroup name) s := by
  refine Leaves.bind (fun _ _ _ => Touches.trans) (touches_call rfl ?_ s) fun _ mid _ =>
    touches_call rfl ?_ mid
  · intro d a d' gives
    obtain ⟨group, -, rfl⟩ := stopProcessGroup_ok_iff.mp gives
    exact ⟨fun q other => OrderedDict.get?_set_ne _ _ (Ne.symm other), rfl⟩
  · intro d a d' gives
    obtain ⟨group, -, -, rfl⟩ := removeProcessGroup_ok_iff.mp gives
    refine ⟨?_, rfl⟩
    intro q other
    show (d.groups.erase name).get? q = _
    rw [OrderedDict.get?_erase, if_neg (Ne.symm other)]

theorem touches_addGroup (name : String) (s : Session Config) :
    Leaves (Touches [name]) (addGroup name) s := by
  refine touches_call rfl ?_ s
  intro d a d' gives
  obtain ⟨config, -, -, rfl⟩ := addProcessGroup_ok_iff.mp gives
  exact ⟨fun q other => OrderedDict.get?_set_ne _ _ (Ne.symm other), rfl⟩

theorem touches_replaceGroup (name : String) (s : Session Config) :
    Leaves (Touches [name]) (replaceGroup name) s :=
  Leaves.bind (fun _ _ _ => Touches.trans) (touches_removeGroup name s) fun _ mid _ =>
    touches_addGroup name mid

theorem touches_each {f : String → EStateM SupervisordError (Session Config) Unit}
    (one : ∀ name s, Leaves (Touches [name]) (f name) s) (names : List String)
    (s : Session Config) : Leaves (Touches names) (each f names) s := by
  induction names generalizing s with
  | nil => exact Leaves.pure (Touches.refl [])
  | cons name rest ih =>
      refine Leaves.bind (fun _ _ _ => Touches.trans) ?_ fun _ mid _ => ?_
      · exact Touches.mono (one name s) (by simp)
      · exact Touches.mono (ih mid) (List.subset_cons_self name rest)

/-! ## What a whole attempt makes of the groups -/

variable {file : OrderedDict String Config}

/-- The group a conf starts under a name. -/
def started (file : OrderedDict String Config) (name : String) : Option (Group Config) :=
  (file.get? name).map fun config => ⟨config, true⟩

theorem removeGroup_ok (done : removeGroup name s = .ok () s') (q : String) :
    s'.daemon.groups.get? q = if name = q then none else s.daemon.groups.get? q := by
  obtain ⟨_, mid, stop, remove⟩ := bind_ok_iff.mp done
  obtain ⟨group, -, stopped⟩ := stopProcessGroup_ok_iff.mp (call_ok stop)
  obtain ⟨_, -, -, removed⟩ := removeProcessGroup_ok_iff.mp (call_ok remove)
  rw [removed, stopped]
  show ((s.daemon.groups.set name _).erase name).get? q = _
  rw [OrderedDict.get?_erase, OrderedDict.get?_set]
  split
  · rfl
  · rfl

theorem addGroup_ok (reread : s.daemon.reread = file) (done : addGroup name s = .ok () s')
    (q : String) :
    s'.daemon.groups.get? q = if name = q then started file name else s.daemon.groups.get? q := by
  obtain ⟨config, held, -, added⟩ := addProcessGroup_ok_iff.mp (call_ok done)
  rw [added, started, ← reread, held]
  exact OrderedDict.get?_set _ _ _ _

theorem replaceGroup_ok (reread : s.daemon.reread = file) (done : replaceGroup name s = .ok () s')
    (q : String) :
    s'.daemon.groups.get? q = if name = q then started file name else s.daemon.groups.get? q := by
  obtain ⟨_, mid, remove, add⟩ := bind_ok_iff.mp done
  have same := ((touches_removeGroup name s).of_ok remove).reread
  rw [addGroup_ok (same.trans reread) add, removeGroup_ok remove]
  split
  · rfl
  · rfl

/-- Calls that each decide their own group decide all of them. -/
theorem each_ok {f : String → EStateM SupervisordError (Session Config) Unit}
    (gives : String → Option (Group Config))
    (touches : ∀ name s, Leaves (Touches [name]) (f name) s)
    (one : ∀ name s s', s.daemon.reread = file → f name s = .ok () s' → ∀ q,
      s'.daemon.groups.get? q = if name = q then gives name else s.daemon.groups.get? q)
    (reread : s.daemon.reread = file) (done : each f names s = .ok () s') (q : String) :
    s'.daemon.groups.get? q = if q ∈ names then gives q else s.daemon.groups.get? q := by
  induction names generalizing s with
  | nil =>
      cases done
      rfl
  | cons name rest ih =>
      obtain ⟨_, mid, first, later⟩ := bind_ok_iff.mp done
      have same := ((touches name s).of_ok first).reread
      rw [ih (same.trans reread) later, one name s mid reread first]
      by_cases inRest : q ∈ rest
      · simp [inRest]
      · by_cases here : name = q
        · simp [here]
        · simp [inRest, here, Ne.symm here]

/-! ### What the difference says -/

section Diff

variable [DecidableEq Config]

/-- The daemon after it has read the conf. -/
def Supervisord.after (d : Supervisord Config) (file : OrderedDict String Config) :
    Supervisord Config := { d with reread := file }

theorem mem_removed_iff :
    name ∈ (d.after file).diff.removed ↔ name ∈ d.groups.keys ∧ name ∉ file.keys := by
  show name ∈ d.groups.keys.filter _ ↔ _
  rw [List.mem_filter, decide_eq_true_iff]
  rfl

theorem mem_added_iff :
    name ∈ (d.after file).diff.added ↔ name ∈ file.keys ∧ name ∉ d.groups.keys := by
  show name ∈ file.keys.filter _ ↔ _
  rw [List.mem_filter, decide_eq_true_iff]
  rfl

theorem mem_changed_iff :
    name ∈ (d.after file).diff.changed ↔ ∃ group config, d.groups.get? name = some group ∧
      file.get? name = some config ∧ group.config ≠ config := by
  show name ∈ (file.entries.filter _).map Prod.fst ↔ _
  rw [List.mem_map]
  constructor
  · rintro ⟨⟨n, config⟩, mem, rfl⟩
    obtain ⟨inFile, differs⟩ := List.mem_filter.mp mem
    obtain ⟨group, held, ne⟩ := (Option.any_eq_true _ _).mp differs
    exact ⟨group, config, held, OrderedDict.get?_of_mem inFile, of_decide_eq_true ne⟩
  · rintro ⟨group, config, held, inFile, ne⟩
    refine ⟨(name, config), List.mem_filter.mpr ⟨OrderedDict.mem_of_find inFile, ?_⟩, rfl⟩
    show (d.groups.get? name).any _ = true
    rw [held]
    simpa using ne

theorem nodup_removed : (d.after file).diff.removed.Nodup := d.groups.nodup.filter _

theorem nodup_changed : (d.after file).diff.changed.Nodup :=
  file.nodup.sublist (List.filter_sublist.map Prod.fst)

theorem nodup_added : (d.after file).diff.added.Nodup := file.nodup.filter _

/-! ## Attempts that fail -/

/-- Every group runs, or the conf has another config for it or none. -/
def Ready (file : OrderedDict String Config) (d : Supervisord Config) : Prop :=
  ∀ name group, d.groups.get? name = some group →
    group.running = true ∨ file.get? name ≠ some group.config

/-- What the daemon has under this name is not what the conf says. -/
def Stale (file : OrderedDict String Config) (d : Supervisord Config) (name : String) : Prop :=
  ∀ group, d.groups.get? name = some group → file.get? name ≠ some group.config

omit [DecidableEq Config] in
/-- Every outcome of a call keeps what holds before it and after the method. -/
theorem leaves_call {P : Supervisord Config → Prop} {rpc : Rpc}
    {method : Supervisord Config → Except Fault (α × Supervisord Config)}
    (before : P s.daemon) (after : ∀ a d, method s.daemon = .ok (a, d) → P d) :
    Leaves (fun _ s' => P s'.daemon) (call rpc method) s := by
  show P (left (call rpc method s)).daemon
  rcases (call_left rpc method s).2 with same | ⟨a, d, gives, same⟩
  · rw [same]
    exact before
  · rw [same]
    exact after a d gives

omit [DecidableEq Config] in
theorem ready_removeGroup (ready : Ready file s.daemon) (stale : Stale file s.daemon name) :
    Leaves (fun _ s' => Ready file s'.daemon) (removeGroup name) s := by
  have stopped : ∀ d, stopProcessGroup name s.daemon = .ok ((), d) → Ready file d := by
    intro d gives
    obtain ⟨group, held, rfl⟩ := stopProcessGroup_ok_iff.mp gives
    intro q g found
    change (s.daemon.groups.set name _).get? q = some g at found
    rw [OrderedDict.get?_set] at found
    split at found
    · rename_i here
      cases found
      exact Or.inr (here ▸ stale group held)
    · exact ready q g found
  refine Leaves.bind (fun _ _ _ _ after => after) (leaves_call ready fun _ d => stopped d) ?_
  intro _ mid stop
  have readyMid := stopped _ (call_ok stop)
  apply leaves_call readyMid
  intro _ d gives
  obtain ⟨_, -, -, rfl⟩ := removeProcessGroup_ok_iff.mp gives
  intro q g found
  exact readyMid q g (OrderedDict.get?_of_erase found)

omit [DecidableEq Config] in
theorem ready_addGroup (ready : Ready file s.daemon) :
    Leaves (fun _ s' => Ready file s'.daemon) (addGroup name) s := by
  apply leaves_call ready
  intro _ d gives
  obtain ⟨config, -, -, rfl⟩ := addProcessGroup_ok_iff.mp gives
  intro q g found
  change (s.daemon.groups.set name _).get? q = some g at found
  rw [OrderedDict.get?_set] at found
  split at found
  · cases found
    exact Or.inl rfl
  · exact ready q g found

omit [DecidableEq Config] in
theorem ready_replaceGroup (ready : Ready file s.daemon) (stale : Stale file s.daemon name) :
    Leaves (fun _ s' => Ready file s'.daemon) (replaceGroup name) s := by
  refine Leaves.bind (fun _ _ _ _ after => after) (ready_removeGroup ready stale) ?_
  intro _ mid remove
  exact ready_addGroup ((ready_removeGroup ready stale).of_ok remove)

omit [DecidableEq Config] in
theorem ready_each {f : String → EStateM SupervisordError (Session Config) Unit}
    (touches : ∀ name s, Leaves (Touches [name]) (f name) s)
    (one : ∀ name s, Ready file s.daemon → Stale file s.daemon name →
      Leaves (fun _ s' => Ready file s'.daemon) (f name) s)
    (distinct : names.Nodup) (ready : Ready file s.daemon)
    (stale : ∀ name ∈ names, Stale file s.daemon name) :
    Leaves (fun _ s' => Ready file s'.daemon) (each f names) s := by
  induction names generalizing s with
  | nil => exact ready
  | cons name rest ih =>
      obtain ⟨fresh, distinct⟩ := List.nodup_cons.mp distinct
      have first := one name s ready (stale name List.mem_cons_self)
      refine Leaves.bind (fun _ _ _ _ after => after) first ?_
      intro _ mid done
      apply ih distinct (first.of_ok done)
      intro q mem group held
      -- the group of another name is the one it was
      have ne : q ∉ [name] := by
        intro here
        rw [List.mem_singleton.mp here] at mem
        exact fresh mem
      rw [((touches name s).of_ok done).others q ne] at held
      exact stale q (List.mem_cons_of_mem name mem) group held

theorem stale_removed {q : String} (mem : q ∈ (d.after file).diff.removed) : Stale file d q := by
  intro group _ same
  apply (mem_removed_iff.mp mem).2
  rw [OrderedDict.mem_keys_iff, same]
  rfl

theorem stale_changed {q : String} (mem : q ∈ (d.after file).diff.changed) : Stale file d q := by
  obtain ⟨group, config, held, inFile, ne⟩ := mem_changed_iff.mp mem
  intro other found same
  rw [held] at found
  cases found
  rw [inFile] at same
  exact ne (Option.some.inj same).symm

theorem stale_added {q : String} (mem : q ∈ (d.after file).diff.added) : Stale file d q := by
  intro group held
  have present : q ∈ d.groups.keys := by
    rw [OrderedDict.mem_keys_iff, held]
    rfl
  exact absurd present (mem_added_iff.mp mem).2

/-- The three lists have no group in common. -/
theorem changed_not_removed {q : String} (changed : q ∈ (d.after file).diff.changed) :
    q ∉ (d.after file).diff.removed := by
  intro removed
  obtain ⟨group, config, -, inFile, -⟩ := mem_changed_iff.mp changed
  apply (mem_removed_iff.mp removed).2
  rw [OrderedDict.mem_keys_iff, inFile]
  rfl

theorem added_not_removed {q : String} (added : q ∈ (d.after file).diff.added) :
    q ∉ (d.after file).diff.removed :=
  fun removed => (mem_added_iff.mp added).2 (mem_removed_iff.mp removed).1

theorem added_not_changed {q : String} (added : q ∈ (d.after file).diff.added) :
    q ∉ (d.after file).diff.changed := by
  intro changed
  obtain ⟨group, config, held, -, -⟩ := mem_changed_iff.mp changed
  apply (mem_added_iff.mp added).2
  rw [OrderedDict.mem_keys_iff, held]
  rfl

theorem reload_ok {diff : Diff} (done : call .reloadConfig (reloadConfig file) s = .ok diff s') :
    diff = (s.daemon.after file).diff ∧ s'.daemon = s.daemon.after file := by
  obtain ⟨same, daemon⟩ := Prod.mk.inj (Except.ok.inj (call_ok done))
  exact ⟨same.symm, daemon.symm⟩

omit [DecidableEq Config] in
theorem Stale.of_others {q : String} (stale : Stale file s.daemon q) (touches : Touches names s s')
    (other : q ∉ names) : Stale file s'.daemon q := by
  intro group held
  rw [touches.others q other] at held
  exact stale group held

/-- **An attempt that ends anywhere** stops no group whose config is the conf's. -/
theorem ready_apply (ready : Ready file s.daemon) :
    Leaves (fun _ s' => Ready file s'.daemon) (SupervisordClient.apply file) s := by
  refine Leaves.bind (fun _ _ _ _ after => after) (leaves_call ready ?_) ?_
  · intro diff d gives
    cases gives
    exact ready
  intro diff mid reload
  obtain ⟨rfl, same⟩ := reload_ok reload
  have readyMid : Ready file mid.daemon := by
    rw [same]
    exact ready
  have stale : ∀ q, Stale file s.daemon q → Stale file mid.daemon q := by
    intro q stale
    rw [same]
    exact stale
  have first := ready_each touches_removeGroup (fun _ _ => ready_removeGroup) nodup_removed readyMid
    fun q mem => stale q (stale_removed mem)
  refine Leaves.bind (fun _ _ _ _ after => after) first ?_
  intro _ mid' removed
  have touched := (touches_each touches_removeGroup _ mid).of_ok removed
  have second := ready_each touches_replaceGroup (fun _ _ => ready_replaceGroup) nodup_changed
    (first.of_ok removed)
    fun q mem => (stale q (stale_changed mem)).of_others touched fun also => changed_not_removed mem also
  refine Leaves.bind (fun _ _ _ _ after => after) second ?_
  intro _ mid'' changed
  have touched' := (touches_each touches_replaceGroup _ mid').of_ok changed
  have third := ready_each touches_addGroup (fun _ _ ready _ => ready_addGroup ready)
    nodup_added (second.of_ok changed)
    fun q mem => ((stale q (stale_added mem)).of_others touched fun also => added_not_removed mem also).of_others
      touched' fun also => added_not_changed mem also
  refine Leaves.bind (fun _ _ _ _ after => after) third ?_
  intro _ last added
  exact third.of_ok added

/-! ## Whole attempts -/

theorem calls_apply (file : OrderedDict String Config) (s : Session Config) :
    Leaves (Calls (s.daemon.after file).diff.affected) (SupervisordClient.apply file) s := by
  have trans : ∀ {names : List String} (t mid t' : Session Config),
      Calls names t mid → Calls names mid t' → Calls names t t' := fun _ _ _ => Calls.trans
  have reload : Leaves (Calls (s.daemon.after file).diff.affected)
      (call .reloadConfig (reloadConfig file)) s := by
    obtain ⟨issued, daemon⟩ := call_left .reloadConfig (reloadConfig file) s
    refine ⟨⟨[.reloadConfig], issued, ?_⟩, ?_⟩
    · intro rpc mem name same
      rw [List.mem_singleton.mp mem] at same
      cases same
    · intro q _
      rcases daemon with same | ⟨diff, d, gives, same⟩
      · rw [same]
      · rw [same]
        cases gives
        rfl
  refine Leaves.bind trans reload ?_
  intro diff mid done
  obtain ⟨rfl, -⟩ := reload_ok done
  refine Leaves.bind trans ?_ fun _ mid' _ => Leaves.bind trans ?_ fun _ mid'' _ =>
    Leaves.bind trans ?_ fun _ _ _ => Leaves.pure (Calls.refl _)
  · apply (touches_each touches_removeGroup _ mid).toCalls.mono
    intro q mem
    simp [Diff.affected, mem]
  · apply (touches_each touches_replaceGroup _ mid').toCalls.mono
    intro q mem
    simp [Diff.affected, mem]
  · apply (touches_each touches_addGroup _ mid'').toCalls.mono
    intro q mem
    simp [Diff.affected, mem]

omit [DecidableEq Config] in
theorem started_of_absent {q : String} (absent : q ∉ file.keys) : started file q = none := by
  rw [started, OrderedDict.get?_eq_none_iff.mpr absent]
  rfl

/-- A group in none of the three lists is as the conf says, and runs. -/
theorem Ready.unaffected {q : String} (ready : Ready file d) (notRemoved : q ∉ (d.after file).diff.removed)
    (notChanged : q ∉ (d.after file).diff.changed) (notAdded : q ∉ (d.after file).diff.added) :
    d.groups.get? q = started file q := by
  rw [mem_added_iff] at notAdded
  rw [mem_changed_iff] at notChanged
  rw [mem_removed_iff] at notRemoved
  cases held : d.groups.get? q with
  | none =>
      have absent : q ∉ d.groups.keys := OrderedDict.get?_eq_none_iff.mp held
      exact (started_of_absent fun wanted_ => notAdded ⟨wanted_, absent⟩).symm
  | some group =>
      have present : q ∈ d.groups.keys := by
        rw [OrderedDict.mem_keys_iff, held]
        rfl
      cases wanted_ : file.get? q with
      | none => exact absurd ⟨present, OrderedDict.get?_eq_none_iff.mp wanted_⟩ notRemoved
      | some config =>
          have same : group.config = config := by
            by_contra ne
            exact notChanged ⟨group, config, held, wanted_, ne⟩
          -- an unchanged group was running all the time
          have running : group.running = true := by
            rcases ready q group held with running | other
            · exact running
            · rw [wanted_, same] at other
              exact absurd rfl other
          rw [started, wanted_, ← same, ← running]
          rfl

/-- **A whole attempt** leaves the groups of the conf, all running. -/
theorem groups_apply {diff : Diff} (ready : Ready file s.daemon)
    (done : SupervisordClient.apply file s = .ok diff s') (q : String) :
    s'.daemon.groups.get? q = started file q := by
  obtain ⟨diff, mid, reload, rest⟩ := bind_ok_iff.mp done
  obtain ⟨_, mid', removes, rest⟩ := bind_ok_iff.mp rest
  obtain ⟨_, mid'', replaces, rest⟩ := bind_ok_iff.mp rest
  obtain ⟨_, last, adds, rest⟩ := bind_ok_iff.mp rest
  obtain ⟨-, rfl⟩ := pure_ok_iff.mp rest
  obtain ⟨rfl, daemon⟩ := reload_ok reload
  have reread : mid.daemon.reread = file := by rw [daemon]; rfl
  have reread' := ((touches_each touches_removeGroup _ mid).of_ok removes).reread.trans reread
  have reread'' := ((touches_each touches_replaceGroup _ mid').of_ok replaces).reread.trans reread'
  rw [each_ok (started file) touches_addGroup (fun _ _ _ => addGroup_ok) reread'' adds,
    each_ok (started file) touches_replaceGroup (fun _ _ _ => replaceGroup_ok) reread' replaces,
    each_ok (fun _ => none) touches_removeGroup (fun _ _ _ _ => removeGroup_ok) reread removes,
    daemon]
  split
  · rfl
  rename_i notAdded
  split
  · rfl
  rename_i notChanged
  split
  · rename_i removed
    exact (started_of_absent (mem_removed_iff.mp removed).2).symm
  rename_i notRemoved
  exact ready.unaffected notRemoved notChanged notAdded

/-- Failed attempts, one after the other, with the calls they issued. -/
inductive Failed (file : OrderedDict String Config) :
    Supervisord Config → List Rpc → Supervisord Config → Prop where
  | none {d : Supervisord Config} : Failed file d [] d
  | more {d : Supervisord Config} {issued : List Rpc} {mid : Supervisord Config} {fates : List Fate}
      {error : SupervisordError} {s : Session Config} :
      Failed file d issued mid → SupervisordClient.apply file ⟨mid, fates, []⟩ = .error error s →
        Failed file d (issued ++ s.issued) s.daemon

/-- A group whose config is the conf's. -/
def Unchanged (file : OrderedDict String Config) (d : Supervisord Config) (name : String) : Prop :=
  ∃ group, d.groups.get? name = some group ∧ file.get? name = some group.config

theorem not_mem_affected (unchanged : Unchanged file d name) : name ∉ (d.after file).diff.affected := by
  obtain ⟨group, held, inFile⟩ := unchanged
  have present : name ∈ d.groups.keys := by
    rw [OrderedDict.mem_keys_iff, held]
    rfl
  have wanted_ : name ∈ file.keys := by
    rw [OrderedDict.mem_keys_iff, inFile]
    rfl
  simp only [Diff.affected, List.mem_append, not_or]
  refine ⟨⟨?_, ?_⟩, ?_⟩
  · intro removed
    exact (mem_removed_iff.mp removed).2 wanted_
  · intro changed
    obtain ⟨other, config, found, inFile', ne⟩ := mem_changed_iff.mp changed
    rw [held] at found
    cases found
    rw [inFile] at inFile'
    exact ne (Option.some.inj inFile')
  · intro added
    exact (mem_added_iff.mp added).2 present

/-- An attempt, whatever becomes of it, leaves an unchanged group alone. -/
theorem unchanged_apply (unchanged : Unchanged file s.daemon name) :
    Unchanged file (left (SupervisordClient.apply file s)).daemon name ∧
      ∃ more, (left (SupervisordClient.apply file s)).issued = s.issued ++ more ∧
        ∀ rpc ∈ more, rpc.group ≠ some name := by
  have calls : Calls _ s _ := calls_apply file s
  have out := not_mem_affected unchanged
  obtain ⟨more, grown, about⟩ := calls.issued
  refine ⟨?_, more, grown, fun rpc mem same => out (about rpc mem name same)⟩
  obtain ⟨group, held, inFile⟩ := unchanged
  exact ⟨group, (calls.others name out).trans held, inFile⟩

theorem failed_spec {issued : List Rpc} {d d' : Supervisord Config} (failed : Failed file d issued d')
    (ready : Ready file d) :
    Ready file d' ∧ ∀ name, Unchanged file d name →
      Unchanged file d' name ∧ ∀ rpc ∈ issued, rpc.group ≠ some name := by
  induction failed with
  | none => exact ⟨ready, fun name unchanged => ⟨unchanged, by simp⟩⟩
  | @more issued mid fates error s _ attempt ih =>
      obtain ⟨readyMid, keeps⟩ := ih
      have after := ready_apply (s := ⟨mid, fates, []⟩) readyMid
      unfold Leaves at after
      rw [attempt] at after
      refine ⟨after, ?_⟩
      intro name unchanged
      obtain ⟨still, quiet⟩ := keeps name unchanged
      obtain ⟨again, more, grown, silent⟩ := unchanged_apply (s := ⟨mid, fates, []⟩) still
      rw [attempt] at again grown
      refine ⟨again, ?_⟩
      intro rpc mem
      rcases List.mem_append.mp mem with before | now
      · exact quiet rpc before
      · change s.issued = [] ++ more at grown
        rw [grown] at now
        exact silent rpc now

/-- **apply converges and is surgical**: from running groups, after any number of attempts
that failed anywhere, one that succeeds leaves the groups of the conf, with its configs
and running, and none of the attempts issued a call about a group whose config is the
conf's. -/
theorem apply_converges (file : OrderedDict String Config) (d mid : Supervisord Config)
    (running : ∀ name group, d.groups.get? name = some group → group.running = true)
    (issued : List Rpc) (failed : Failed file d issued mid) (fates : List Fate) (diff : Diff)
    (s : Session Config) (done : SupervisordClient.apply file ⟨mid, fates, []⟩ = .ok diff s) :
    (∀ name, s.daemon.groups.get? name = (file.get? name).map fun config => ⟨config, true⟩) ∧
      ∀ name, Unchanged file d name → ∀ rpc ∈ issued ++ s.issued, rpc.group ≠ some name := by
  have readyStart : Ready file d := fun name group held => Or.inl (running name group held)
  obtain ⟨ready, keeps⟩ := failed_spec failed readyStart
  refine ⟨groups_apply (s := ⟨mid, fates, []⟩) ready done, ?_⟩
  intro name unchanged rpc mem
  obtain ⟨still, quiet⟩ := keeps name unchanged
  obtain ⟨-, more, grown, silent⟩ := unchanged_apply (s := ⟨mid, fates, []⟩) still
  rw [done] at grown
  change s.issued = [] ++ more at grown
  rcases List.mem_append.mp mem with before | now
  · exact quiet rpc before
  · rw [grown] at now
    exact silent rpc now

/-! ## Attempts whose calls are answered -/

omit [DecidableEq Config] in
theorem removeGroup_answered (answered : s.fates = []) (present : (s.daemon.groups.get? name).isSome) :
    ∃ s', removeGroup name s = .ok () s' ∧ s'.fates = [] := by
  obtain ⟨group, held⟩ := Option.isSome_iff_exists.mp present
  have stop := call_answered (.stopProcessGroup name) (stopProcessGroup name) answered
    (stopProcessGroup_ok_iff.mpr ⟨group, held, rfl⟩)
  have remove := call_answered (.removeProcessGroup name) (removeProcessGroup name)
    (s := ⟨{ s.daemon with groups := s.daemon.groups.set name { group with running := false } }, [],
      s.issued ++ [.stopProcessGroup name]⟩) rfl
    (removeProcessGroup_ok_iff.mpr ⟨_, OrderedDict.get?_set_self _ _ _, rfl, rfl⟩)
  exact ⟨_, bind_ok_iff.mpr ⟨(), _, stop, remove⟩, rfl⟩

omit [DecidableEq Config] in
theorem addGroup_answered (answered : s.fates = []) (reread : s.daemon.reread = file)
    (absent : s.daemon.groups.get? name = none) (wanted_ : name ∈ file.keys) :
    ∃ s', addGroup name s = .ok () s' ∧ s'.fates = [] := by
  obtain ⟨config, inFile⟩ := Option.isSome_iff_exists.mp (OrderedDict.mem_keys_iff.mp wanted_)
  exact ⟨_, call_answered _ _ answered (addProcessGroup_ok_iff.mpr
    ⟨config, by rw [reread, inFile], OrderedDict.get?_eq_none_iff.mp absent, rfl⟩), rfl⟩

omit [DecidableEq Config] in
theorem replaceGroup_answered (answered : s.fates = []) (reread : s.daemon.reread = file)
    (present : (s.daemon.groups.get? name).isSome) (wanted_ : name ∈ file.keys) :
    ∃ s', replaceGroup name s = .ok () s' ∧ s'.fates = [] := by
  obtain ⟨mid, remove, quiet⟩ := removeGroup_answered answered present
  have same := ((touches_removeGroup name s).of_ok remove).reread.trans reread
  have absent : mid.daemon.groups.get? name = none := by
    rw [removeGroup_ok remove, if_pos rfl]
  obtain ⟨s', add, quiet'⟩ := addGroup_answered quiet same absent wanted_
  exact ⟨s', bind_ok_iff.mpr ⟨(), mid, remove, add⟩, quiet'⟩

omit [DecidableEq Config] in
/-- Calls about different groups that can each be answered can all be. -/
theorem each_answered {f : String → EStateM SupervisordError (Session Config) Unit}
    (Can : String → Option (Group Config) → Prop)
    (touches : ∀ name s, Leaves (Touches [name]) (f name) s)
    (one : ∀ name s, s.fates = [] → s.daemon.reread = file → Can name (s.daemon.groups.get? name) →
      ∃ s', f name s = .ok () s' ∧ s'.fates = [])
    (answered : s.fates = []) (reread : s.daemon.reread = file) (distinct : names.Nodup)
    (all : ∀ name ∈ names, Can name (s.daemon.groups.get? name)) :
    ∃ s', each f names s = .ok () s' ∧ s'.fates = [] := by
  induction names generalizing s with
  | nil => exact ⟨s, rfl, answered⟩
  | cons name rest ih =>
      obtain ⟨fresh, distinct⟩ := List.nodup_cons.mp distinct
      obtain ⟨mid, first, quiet⟩ := one name s answered reread (all name List.mem_cons_self)
      have touched := (touches name s).of_ok first
      have later : ∀ q ∈ rest, Can q (mid.daemon.groups.get? q) := by
        intro q mem
        have ne : q ∉ [name] := fun here => fresh (List.mem_singleton.mp here ▸ mem)
        rw [touched.others q ne]
        exact all q (List.mem_cons_of_mem name mem)
      obtain ⟨s', done, quiet'⟩ := ih quiet (touched.reread.trans reread) distinct later
      exact ⟨s', bind_ok_iff.mpr ⟨(), mid, first, done⟩, quiet'⟩

/-- **An attempt whose calls are all answered succeeds**, from whatever state the daemon
is in. -/
theorem apply_succeeds (file : OrderedDict String Config) (d : Supervisord Config) :
    ∃ diff s, SupervisordClient.apply file ⟨d, [], []⟩ = .ok diff s := by
  have reload := call_answered .reloadConfig (reloadConfig file) (s := ⟨d, [], []⟩) rfl rfl
  obtain ⟨mid, removes, quiet⟩ := each_answered (fun _ held => held.isSome)
    (s := ⟨d.after file, [], [] ++ [.reloadConfig]⟩) touches_removeGroup
    (fun name s answered _ => removeGroup_answered answered) rfl rfl
    (nodup_removed : (d.after file).diff.removed.Nodup)
    fun name mem => OrderedDict.mem_keys_iff.mp (mem_removed_iff.mp mem).1
  have touched := (touches_each touches_removeGroup _ _).of_ok removes
  obtain ⟨mid', replaces, quiet'⟩ := each_answered (s := mid)
    (fun name held => held.isSome ∧ name ∈ file.keys) touches_replaceGroup
    (fun name s answered reread can => replaceGroup_answered answered reread can.1 can.2)
    quiet touched.reread (nodup_changed : (d.after file).diff.changed.Nodup) fun name mem => by
      rw [touched.others name (changed_not_removed mem)]
      obtain ⟨group, config, held, inFile, -⟩ := mem_changed_iff.mp mem
      refine ⟨?_, ?_⟩
      · show (d.groups.get? name).isSome = true
        rw [held]
        rfl
      · rw [OrderedDict.mem_keys_iff, inFile]
        rfl
  have touched' := (touches_each touches_replaceGroup _ _).of_ok replaces
  obtain ⟨last, adds, -⟩ := each_answered (s := mid')
    (fun name held => held = none ∧ name ∈ file.keys) touches_addGroup
    (fun name s answered reread can => addGroup_answered answered reread can.1 can.2)
    quiet' (touched'.reread.trans touched.reread)
    (nodup_added : (d.after file).diff.added.Nodup) fun name mem => by
      rw [touched'.others name (added_not_changed mem), touched.others name (added_not_removed mem)]
      obtain ⟨wanted_, absent⟩ := mem_added_iff.mp mem
      exact ⟨OrderedDict.get?_eq_none_iff.mpr absent, wanted_⟩
  refine ⟨(d.after file).diff, last, ?_⟩
  exact bind_ok_iff.mpr ⟨_, _, reload, bind_ok_iff.mpr ⟨_, _, removes,
    bind_ok_iff.mpr ⟨_, _, replaces, bind_ok_iff.mpr ⟨_, _, adds, rfl⟩⟩⟩⟩

end Diff

end Model

namespace Demo

/-- Three running groups; the conf changes the first, drops the second and keeps the third. -/
def daemon : Supervisord Nat :=
  ⟨.ofList [("alpha", ⟨1, true⟩), ("beta", ⟨1, true⟩), ("gamma", ⟨1, true⟩)], .ofList []⟩

def edited : OrderedDict String Nat := .ofList [("alpha", 2), ("gamma", 1), ("delta", 1)]

/-- The answer to the stop of the second group is lost. -/
def firstAttempt : Session Nat :=
  left (SupervisordClient.apply edited ⟨daemon, [.answered, .cut], []⟩)

/-- The changed group is removed, and its addition does not arrive. -/
def secondAttempt : Session Nat :=
  left (SupervisordClient.apply edited
    ⟨firstAttempt.daemon, [.answered, .answered, .answered, .answered, .answered, .unsent], []⟩)

def lastAttempt : Session Nat :=
  left (SupervisordClient.apply edited ⟨secondAttempt.daemon, [], []⟩)

end Demo

theorem apply_converges_demo :
    (∀ name, Demo.lastAttempt.daemon.groups.get? name =
        (Demo.edited.get? name).map fun config => ⟨config, true⟩) ∧
      ∀ name, Unchanged Demo.edited Demo.daemon name →
        ∀ rpc ∈ (([] ++ Demo.firstAttempt.issued) ++ Demo.secondAttempt.issued) ++
          Demo.lastAttempt.issued, rpc.group ≠ some name := by
  have first : SupervisordClient.apply Demo.edited ⟨Demo.daemon, [.answered, .cut], []⟩ =
      .error .unreachable Demo.firstAttempt := rfl
  have second : SupervisordClient.apply Demo.edited ⟨Demo.firstAttempt.daemon,
      [.answered, .answered, .answered, .answered, .answered, .unsent], []⟩ =
      .error .unreachable Demo.secondAttempt := rfl
  apply apply_converges Demo.edited Demo.daemon Demo.secondAttempt.daemon _
    (([] ++ Demo.firstAttempt.issued) ++ Demo.secondAttempt.issued) (.more (.more .none first) second) []
    ⟨["alpha", "delta"], [], []⟩ Demo.lastAttempt rfl
  intro name group held
  have all : ∀ e ∈ Demo.daemon.groups.entries, e.2.running = true := by decide
  exact all _ (OrderedDict.mem_of_find held)

end KoyuRuntime.Warden
