/-
# Cli.ContextEdits — two `koyu context set` at once

An invocation reads `recording-context.json`, writes the changed context to a hidden file
next to it and renames that over it.  No lock is held, and the hidden file has one name
for everybody.  So an edit is lost if the other invocation has read before it is there,
and an invocation fails if the other one takes its hidden file away.

* `Good`, `Bad`: where two invocations stand while nothing is lost, and once something is.
* `edits_kept_iff`: both edits are kept exactly if the first replace finds the other
  invocation before its write, and without a read that the edit would have changed.
* `starts_complete`: whatever the order, a `START` reads a complete context.
-/
import KoyuRuntime.Cli.Context
import KoyuRuntime.Services.DataRecorder.Shell
import KoyuRuntime.Theory.Transition

namespace KoyuRuntime.Cli

open Services Services.DataRecorder Theory

set_option autoImplicit false

/-! ## The model -/

inductive Who where
  | one
  | two
  deriving DecidableEq, Repr

def Who.other : Who → Who
  | one => two
  | two => one

/-- How far an invocation has come. -/
inductive Phase where
  | ready
  /-- It has read the file; this is the context it goes on with. -/
  | read (context : RecordingContext)
  /-- `tmp.write_text(...)` is done. -/
  | written
  | succeeded
  /-- `tmp.replace(path)` found no hidden file. -/
  | failed
  deriving DecidableEq

/-- The file, the hidden file, the two invocations, and what every `START` so far has read. -/
structure State where
  file : ContextFile
  tmp : Option RecordingContext
  phase : Who → Phase
  shown : List RecordingContext

inductive Action where
  /-- The next step of an invocation. -/
  | go (w : Who)
  /-- The recorder handles `START`. -/
  | start
  deriving DecidableEq

def State.at (s : State) (w : Who) (p : Phase) : State :=
  { s with phase := fun v => if v = w then p else s.phase v }

section Model

variable (calls : Who → SetCall)

/-- What an invocation makes of a context. -/
def edited (w : Who) (ctx : RecordingContext) : RecordingContext := update (calls w).updates ctx

/-- One file step of `_cmd_context`, or a `_read_context`; nothing for an invocation that
has ended. -/
def step (s : State) : Action → Except Unit State
  | .start => .ok { s with shown := s.shown ++ [readContext s.file] }
  | .go w =>
      match s.phase w with
      | .ready => .ok (s.at w (.read (readContext s.file)))
      | .read ctx => .ok { s.at w .written with tmp := some (edited calls w ctx) }
      | .written =>
          match s.tmp with
          | none => .ok (s.at w .failed)
          | some ctx => .ok { s.at w .succeeded with file := .valid ctx, tmp := none }
      | .succeeded => .error ()
      | .failed => .error ()

/-- Neither invocation has begun. -/
structure Begins (s : State) : Prop where
  ready : ∀ w, s.phase w = .ready
  unseen : s.shown = []

def Ended (s : State) : Prop := ∀ w, s.phase w = .succeeded ∨ s.phase w = .failed

/-- The contexts that whole edits make of the first one. -/
def Complete (c₀ ctx : RecordingContext) : Prop :=
  ctx = c₀ ∨ ∃ w, ctx = edited calls w c₀ ∨ ctx = edited calls w.other (edited calls w c₀)

/-- Both invocations succeed, all fields they set hold what they set, and every `START`
has read a complete context. -/
structure EditsKept (s s' : State) : Prop where
  succeed : ∀ w, s'.phase w = .succeeded
  held : ∀ w f value, (calls w).updates.get? f = some value → f.get (readContext s'.file) = value
  complete : ∀ ctx ∈ s'.shown, Complete calls (readContext s.file) ctx

/-- An invocation about to replace the file: the other has not written the hidden file
too, and if it has read, the edit would not have changed what it read. -/
def Undisturbed (s : State) : Action → Prop
  | .start => True
  | .go w => s.phase w = .written →
      s.phase w.other ≠ .written ∧ ∀ ctx, s.phase w.other = .read ctx → edited calls w ctx = ctx

instance (s : State) : (a : Action) → Decidable (Undisturbed calls s a)
  | .start => isTrue trivial
  | .go w =>
      match found : s.phase w.other with
      | .read ctx => decidable_of_iff (s.phase w = .written → edited calls w ctx = ctx)
          (by simp [Undisturbed, found])
      | .written => decidable_of_iff (s.phase w ≠ .written) (by simp [Undisturbed, found])
      | .ready => isTrue (by simp [Undisturbed, found])
      | .succeeded => isTrue (by simp [Undisturbed, found])
      | .failed => isTrue (by simp [Undisturbed, found])

/-! ## Where two invocations stand -/

/-- Nothing is lost: no edit is there yet, one is and the other builds on it, or both. -/
inductive Good (c₀ : RecordingContext) (s : State) : Prop
  | before (file : readContext s.file = c₀)
      (phases : ∀ w, s.phase w = .ready ∨ s.phase w = .read c₀ ∨ s.phase w = .written)
      (tmp : ∀ w, s.phase w = .written → ∃ v, s.phase v = .written ∧ s.tmp = some (edited calls v c₀))
  | between (w : Who) (file : readContext s.file = edited calls w c₀) (mine : s.phase w = .succeeded)
      (others : s.phase w.other = .ready ∨ s.phase w.other = .read (edited calls w c₀) ∨
        s.phase w.other = .written ∧ s.tmp = some (edited calls w.other (edited calls w c₀)))
  | after (w : Who) (file : readContext s.file = edited calls w.other (edited calls w c₀))
      (both : ∀ v, s.phase v = .succeeded)

/-- Something is lost: the hidden file is gone before the second replace, or the second
edit does not build on the first. -/
inductive Bad (c₀ : RecordingContext) (s : State) : Prop
  | taken (w : Who) (file : Complete calls c₀ (readContext s.file)) (mine : s.phase w = .succeeded)
      (others : s.phase w.other = .written ∧ s.tmp = none ∨ s.phase w.other = .failed)
  | stale (w : Who) (changes : edited calls w c₀ ≠ c₀) (mine : s.phase w = .succeeded)
      (others : readContext s.file = edited calls w c₀ ∧ (s.phase w.other = .read c₀ ∨
          s.phase w.other = .written ∧ s.tmp = some (edited calls w.other c₀)) ∨
        s.phase w.other = .succeeded ∧ readContext s.file = edited calls w.other c₀)

end Model

theorem Who.other_ne (w : Who) : w.other ≠ w := by
  cases w <;> decide

theorem Who.other_other (w : Who) : w.other.other = w := by
  cases w <;> rfl

theorem Who.eq_or_other (v w : Who) : v = w ∨ v = w.other := by
  cases v <;> cases w <;> decide

@[simp] theorem at_self (s : State) (w : Who) (p : Phase) : (s.at w p).phase w = p := by
  simp [State.at]

theorem at_ne (s : State) {v w : Who} (p : Phase) (ne : v ≠ w) : (s.at w p).phase v = s.phase v := by
  simp [State.at, ne]

@[simp] theorem at_other (s : State) (w : Who) (p : Phase) : (s.at w p).phase w.other = s.phase w.other :=
  at_ne s p w.other_ne

@[simp] theorem at_file (s : State) (w : Who) (p : Phase) : (s.at w p).file = s.file := rfl
@[simp] theorem at_tmp (s : State) (w : Who) (p : Phase) : (s.at w p).tmp = s.tmp := rfl
@[simp] theorem at_shown (s : State) (w : Who) (p : Phase) : (s.at w p).shown = s.shown := rfl

/-! ## One step -/

section Steps

variable {calls : Who → SetCall} {c₀ : RecordingContext} {s s' : State} {w : Who} {a : Action}

theorem go_ready (ready : s.phase w = .ready) (stepped : step calls s (.go w) = .ok s') :
    s' = s.at w (.read (readContext s.file)) := by
  simp only [step, ready] at stepped
  exact (Except.ok.inj stepped).symm

theorem go_read {ctx : RecordingContext} (read : s.phase w = .read ctx)
    (stepped : step calls s (.go w) = .ok s') : s' = { s.at w .written with tmp := some (edited calls w ctx) } := by
  simp only [step, read] at stepped
  exact (Except.ok.inj stepped).symm

theorem go_written {ctx : RecordingContext} (written : s.phase w = .written) (tmp : s.tmp = some ctx)
    (stepped : step calls s (.go w) = .ok s') :
    s' = { s.at w .succeeded with file := .valid ctx, tmp := none } := by
  simp only [step, written, tmp] at stepped
  exact (Except.ok.inj stepped).symm

theorem go_taken (written : s.phase w = .written) (tmp : s.tmp = none)
    (stepped : step calls s (.go w) = .ok s') : s' = s.at w .failed := by
  simp only [step, written, tmp] at stepped
  exact (Except.ok.inj stepped).symm

theorem not_go_ended (ended : s.phase w = .succeeded ∨ s.phase w = .failed) :
    step calls s (.go w) ≠ .ok s' := by
  intro stepped
  rcases ended with phase | phase
  · simp [step, phase] at stepped
  · simp [step, phase] at stepped

/-- An invocation that is not about to replace disturbs nothing. -/
theorem undisturbed_of_ne (other : s.phase w ≠ .written) : Undisturbed calls s (.go w) :=
  fun written => absurd written other

/-- **The first replace** decides whether something gets lost. -/
theorem replace_next (written : s.phase w = .written)
    (phases : s.phase w.other = .ready ∨ s.phase w.other = .read c₀ ∨ s.phase w.other = .written)
    (tmp : ∃ v, s.phase v = .written ∧ s.tmp = some (edited calls v c₀))
    (stepped : step calls s (.go w) = .ok s') :
    (Undisturbed calls s (.go w) → Good calls c₀ s') ∧ (¬ Undisturbed calls s (.go w) → Bad calls c₀ s') := by
  obtain ⟨v, writ, content⟩ := tmp
  rw [go_written written content stepped]
  -- unless both have written, the hidden file is this invocation's
  have own (ne : s.phase w.other ≠ .written) : v = w := by
    rcases Who.eq_or_other v w with same | same
    · exact same
    · exact absurd (same ▸ writ) ne
  rcases phases with ready' | read' | written'
  · have same := own (by rw [ready']; simp)
    subst same
    refine ⟨fun _ => .between v rfl (by simp) (Or.inl (by simp [ready'])), fun disturbed => ?_⟩
    exact absurd (fun _ => ⟨by rw [ready']; simp, fun ctx seen => by rw [ready'] at seen; cases seen⟩) disturbed
  · have same := own (by rw [read']; simp)
    subst same
    constructor
    · intro undisturbed
      have keeps := (undisturbed written).2 c₀ read'
      exact .between v rfl (by simp) (Or.inr (Or.inl (by simp [read', keeps])))
    · intro disturbed
      have changes : edited calls v c₀ ≠ c₀ := by
        intro keeps
        refine disturbed fun _ => ⟨by rw [read']; simp, fun ctx seen => ?_⟩
        rw [read'] at seen
        cases seen
        exact keeps
      exact .stale v changes (by simp) (Or.inl ⟨rfl, Or.inl (by simp [read'])⟩)
  · refine ⟨fun undisturbed => absurd written' (undisturbed written).1, fun _ => ?_⟩
    exact .taken w (Or.inr ⟨v, Or.inl rfl⟩) (by simp) (Or.inl ⟨by simp [written'], rfl⟩)

/-- Before the first replace nothing is lost. -/
theorem before_next (file : readContext s.file = c₀)
    (phases : ∀ w, s.phase w = .ready ∨ s.phase w = .read c₀ ∨ s.phase w = .written)
    (tmp : ∀ w, s.phase w = .written → ∃ v, s.phase v = .written ∧ s.tmp = some (edited calls v c₀))
    (stepped : step calls s (.go w) = .ok s') :
    (Undisturbed calls s (.go w) → Good calls c₀ s') ∧ (¬ Undisturbed calls s (.go w) → Bad calls c₀ s') := by
  rcases phases w with ready | read | written
  · rw [go_ready ready stepped, file]
    refine ⟨fun _ => .before file (fun v => ?_) (fun v writ => ?_), fun disturbed =>
      absurd (undisturbed_of_ne (by rw [ready]; simp)) disturbed⟩
    · by_cases same : v = w
      · subst same
        exact Or.inr (Or.inl (at_self _ _ _))
      · rw [at_ne _ _ same]
        exact phases v
    · have ne : v ≠ w := by
        rintro rfl
        simp at writ
      rw [at_ne _ _ ne] at writ
      obtain ⟨v', writ', content⟩ := tmp v writ
      have ne' : v' ≠ w := by
        rintro rfl
        rw [ready] at writ'
        cases writ'
      exact ⟨v', by rw [at_ne _ _ ne', writ'], content⟩
  · rw [go_read read stepped]
    refine ⟨fun _ => .before file (fun v => ?_) (fun v _ => ⟨w, by simp, rfl⟩), fun disturbed =>
      absurd (undisturbed_of_ne (by rw [read]; simp)) disturbed⟩
    by_cases same : v = w
    · subst same
      exact Or.inr (Or.inr (by simp))
    · show (s.at w .written).phase v = _ ∨ (s.at w .written).phase v = _ ∨ (s.at w .written).phase v = _
      rw [at_ne _ _ same]
      exact phases v
  · exact replace_next written (phases w.other) (tmp w written) stepped

/-- What a `START` reads is not written anywhere. -/
theorem Good.show (good : Good calls c₀ s) (shown : List RecordingContext) :
    Good calls c₀ { s with shown := shown } := by
  cases good with
  | before file phases tmp => exact .before file phases tmp
  | between w file mine others => exact .between w file mine others
  | after w file both => exact .after w file both

theorem Bad.show (bad : Bad calls c₀ s) (shown : List RecordingContext) :
    Bad calls c₀ { s with shown := shown } := by
  cases bad with
  | taken w file mine others => exact .taken w file mine others
  | stale w changes mine others => exact .stale w changes mine others

/-- **A step while nothing is lost**: it loses something exactly if it is disturbed. -/
theorem Good.next (good : Good calls c₀ s) (stepped : step calls s a = .ok s') :
    (Undisturbed calls s a → Good calls c₀ s') ∧ (¬ Undisturbed calls s a → Bad calls c₀ s') := by
  cases a with
  | start =>
      cases stepped
      exact ⟨fun _ => good.show _, fun disturbed => absurd trivial disturbed⟩
  | go v =>
      cases good with
      | before file phases tmp => exact before_next file phases tmp stepped
      | between w file mine others =>
          have turn : v = w.other := by
            rcases Who.eq_or_other v w with rfl | same
            · exact absurd stepped (not_go_ended (Or.inl mine))
            · exact same
          subst turn
          have fine : Undisturbed calls s (.go w.other) := by
            intro _
            rw [Who.other_other, mine]
            exact ⟨by simp, fun ctx seen => by cases seen⟩
          refine ⟨fun _ => ?_, fun disturbed => absurd fine disturbed⟩
          have mine' (p : Phase) : (s.at w.other p).phase w = .succeeded := by
            rw [at_ne _ _ w.other_ne.symm, mine]
          rcases others with ready | read | ⟨written, content⟩
          · rw [go_ready ready stepped, file]
            exact .between w file (mine' _) (Or.inr (Or.inl (by simp)))
          · rw [go_read read stepped]
            exact .between w file (mine' _) (Or.inr (Or.inr ⟨by simp, rfl⟩))
          · rw [go_written written content stepped]
            refine .after w rfl fun u => ?_
            rcases Who.eq_or_other u w with rfl | rfl
            · exact mine' _
            · simp
      | after w file both => exact absurd stepped (not_go_ended (Or.inl (both v)))

/-- **A step once something is lost**: it stays lost. -/
theorem Bad.next (bad : Bad calls c₀ s) (stepped : step calls s a = .ok s') : Bad calls c₀ s' := by
  cases a with
  | start =>
      cases stepped
      exact bad.show _
  | go v =>
      cases bad with
      | taken w file mine others =>
          have turn : v = w.other := by
            rcases Who.eq_or_other v w with rfl | same
            · exact absurd stepped (not_go_ended (Or.inl mine))
            · exact same
          subst turn
          rcases others with ⟨written, gone⟩ | failed
          · rw [go_taken written gone stepped]
            refine .taken w file ?_ (Or.inr (by simp))
            rw [at_ne _ _ w.other_ne.symm, mine]
          · exact absurd stepped (not_go_ended (Or.inr failed))
      | stale w changes mine others =>
          have turn : v = w.other := by
            rcases Who.eq_or_other v w with rfl | same
            · exact absurd stepped (not_go_ended (Or.inl mine))
            · exact same
          subst turn
          have mine' (p : Phase) : (s.at w.other p).phase w = .succeeded := by
            rw [at_ne _ _ w.other_ne.symm, mine]
          rcases others with ⟨file, read | ⟨written, content⟩⟩ | ⟨succeeded, -⟩
          · rw [go_read read stepped]
            exact .stale w changes (mine' _) (Or.inl ⟨file, Or.inr ⟨by simp, rfl⟩⟩)
          · rw [go_written written content stepped]
            exact .stale w changes (mine' _) (Or.inr ⟨by simp, rfl⟩)
          · exact absurd stepped (not_go_ended (Or.inl succeeded))

theorem Good.complete (good : Good calls c₀ s) : Complete calls c₀ (readContext s.file) := by
  cases good with
  | before file _ _ => exact Or.inl file
  | between w file _ _ => exact Or.inr ⟨w, Or.inl file⟩
  | after w file _ => exact Or.inr ⟨w, Or.inr file⟩

theorem Bad.complete (bad : Bad calls c₀ s) : Complete calls c₀ (readContext s.file) := by
  cases bad with
  | taken w file _ _ => exact file
  | stale w _ _ others =>
      rcases others with ⟨file, -⟩ | ⟨-, file⟩
      · exact Or.inr ⟨w, Or.inl file⟩
      · exact Or.inr ⟨w.other, Or.inl file⟩

/-- A step shows at most what the file holds. -/
theorem shown_step (stepped : step calls s a = .ok s') :
    s'.shown = s.shown ∨ s'.shown = s.shown ++ [readContext s.file] := by
  cases a with
  | start =>
      cases stepped
      exact Or.inr rfl
  | go w =>
      cases phase : s.phase w with
      | ready => exact Or.inl (by rw [go_ready phase stepped, at_shown])
      | read ctx => exact Or.inl (by rw [go_read phase stepped, at_shown])
      | written =>
          cases tmp : s.tmp with
          | none => exact Or.inl (by rw [go_taken phase tmp stepped, at_shown])
          | some ctx => exact Or.inl (by rw [go_written phase tmp stepped, at_shown])
      | succeeded => exact absurd stepped (not_go_ended (Or.inl phase))
      | failed => exact absurd stepped (not_go_ended (Or.inr phase))

/-! ## The end of a run -/

/-- An edit is in what is made of its result by other fields. -/
theorem held_edited (apart : ∀ f ∈ (calls w).updates.keys, f ∉ (calls w.other).updates.keys)
    {f : Field} {value : Option String} (set : (calls w).updates.get? f = some value) (ctx : RecordingContext) :
    f.get (edited calls w ctx) = value ∧ f.get (edited calls w.other ctx) = f.get ctx := by
  have mine : f ∈ (calls w).updates.keys := OrderedDict.mem_keys_iff.mpr (by simp [set])
  have others : (calls w.other).updates.get? f = none := OrderedDict.get?_eq_none_iff.mpr (apart f mine)
  constructor
  · rw [edited, get_update, set]
    rfl
  · rw [edited, get_update, others]
    rfl

theorem Good.kept (good : Good calls c₀ s)
    (apart : ∀ w, ∀ f ∈ (calls w).updates.keys, f ∉ (calls w.other).updates.keys) (ended : Ended s)
    {s₀ : State} (complete : ∀ ctx ∈ s.shown, Complete calls (readContext s₀.file) ctx) :
    EditsKept calls s₀ s := by
  cases good with
  | before file phases tmp =>
      rcases ended .one with same | same
      · rcases phases .one with phase | phase | phase <;> rw [same] at phase <;> cases phase
      · rcases phases .one with phase | phase | phase <;> rw [same] at phase <;> cases phase
  | between w file mine others =>
      rcases ended w.other with same | same
      · rcases others with phase | phase | ⟨phase, -⟩ <;> rw [same] at phase <;> cases phase
      · rcases others with phase | phase | ⟨phase, -⟩ <;> rw [same] at phase <;> cases phase
  | after w file both =>
      refine ⟨both, fun v f value set => ?_, complete⟩
      rw [file]
      rcases Who.eq_or_other v w with rfl | rfl
      · rw [(held_edited (apart v) set _).2]
        exact (held_edited (apart v) set _).1
      · exact (held_edited (apart w.other) set _).1

theorem Bad.not_kept (bad : Bad calls c₀ s)
    (apart : ∀ w, ∀ f ∈ (calls w).updates.keys, f ∉ (calls w.other).updates.keys) {s₀ : State} :
    ¬ EditsKept calls s₀ s := by
  intro kept
  cases bad with
  | taken w file mine others =>
      have succeeds := kept.succeed w.other
      rcases others with ⟨phase, -⟩ | phase <;> rw [succeeds] at phase <;> cases phase
  | stale w changes mine others =>
      have succeeds := kept.succeed w.other
      rcases others with ⟨-, phase | ⟨phase, -⟩⟩ | ⟨-, file⟩
      · rw [succeeds] at phase
        cases phase
      · rw [succeeds] at phase
        cases phase
      · refine changes (update_eq_self_iff.mpr fun f value set => ?_)
        have held := kept.held w f value set
        rw [file, (held_edited (apart w) set c₀).2] at held
        exact held

/-! ## Every run -/

theorem Begins.good (begins : Begins s) : Good calls (readContext s.file) s := by
  refine .before rfl (fun w => Or.inl (begins.ready w)) fun w written => ?_
  rw [begins.ready] at written
  cases written

/-- **Whatever the order**, every `START` reads a complete context. -/
theorem starts_complete {schedule : List Action} (begins : Begins s)
    (run : runs (step calls) s schedule = .ok s') :
    ∀ ctx ∈ s'.shown, Complete calls (readContext s.file) ctx := by
  let Stands (t : State) : Prop := (Good calls (readContext s.file) t ∨ Bad calls (readContext s.file) t) ∧
    ∀ ctx ∈ t.shown, Complete calls (readContext s.file) ctx
  have base : Stands s := by
    refine ⟨Or.inl begins.good, ?_⟩
    rw [begins.unseen]
    exact fun _ none_ => (List.not_mem_nil none_).elim
  have next : ∀ t a t', Stands t → step calls t a = .ok t' → Stands t' := by
    rintro t a t' ⟨stands, seen⟩ stepped
    have stands' : Good calls (readContext s.file) t' ∨ Bad calls (readContext s.file) t' := by
      rcases stands with good | bad
      · by_cases undisturbed : Undisturbed calls t a
        · exact Or.inl ((good.next stepped).1 undisturbed)
        · exact Or.inr ((good.next stepped).2 undisturbed)
      · exact Or.inr (bad.next stepped)
    refine ⟨stands', ?_⟩
    rcases shown_step stepped with same | more
    · rw [same]
      exact seen
    · rw [more]
      intro ctx mem
      rcases List.mem_append.mp mem with earlier | now
      · exact seen ctx earlier
      · rw [List.mem_singleton.mp now]
        exact stands.elim Good.complete Bad.complete
  exact (runs_invariant next run base).2

/-- **Kept edits**: two invocations that set different fields both succeed, with both
edits in the file at the end and complete contexts for every `START`, exactly if no
replace is disturbed. -/
theorem edits_kept_iff (disjoint : ∀ f ∈ (calls .one).updates.keys, f ∉ (calls .two).updates.keys)
    {schedule : List Action} (begins : Begins s) (run : runs (step calls) s schedule = .ok s')
    (ended : Ended s') :
    EditsKept calls s s' ↔ Along (step calls) (Undisturbed calls) s schedule := by
  have apart : ∀ w, ∀ f ∈ (calls w).updates.keys, f ∉ (calls w.other).updates.keys := by
    intro w f mine others
    cases w with
    | one => exact disjoint f mine others
    | two => exact disjoint f others mine
  obtain ⟨keeps, loses⟩ := runs_parted (fun _ _ _ good stepped => good.next stepped)
    (fun _ _ _ bad stepped => Bad.next bad stepped) run begins.good
  constructor
  · intro kept
    by_contra disturbed
    exact (loses disturbed).not_kept apart kept
  · intro along
    exact (keeps along).kept apart ended (starts_complete begins run)

end Steps

namespace Demo

def pick : SetCall where
  pairs := ["task=pick"]
  updates := OrderedDict.ofList [(.task, some "pick")]
  accepted := ⟨by decide, by rfl⟩

def act : SetCall where
  pairs := ["policy_name=act", "source_run_id="]
  updates := OrderedDict.ofList [(.policyName, some "act"), (.sourceRunId, none)]
  accepted := ⟨by decide, by rfl⟩

def calls : Who → SetCall
  | .one => pick
  | .two => act

/-- No context file, and neither invocation has begun. -/
def unset : State := ⟨.missing, none, fun _ => .ready, []⟩

theorem unset_begins : Begins unset := ⟨fun _ => rfl, rfl⟩

/-- One invocation after the other, and a `START` in between. -/
def inTurn : List Action := [.go .one, .go .one, .go .one, .start, .go .two, .go .two, .go .two]

/-- Both read before either replaces. -/
def together : List Action := [.go .one, .go .two, .go .one, .go .one, .go .two, .go .two]

/-- Where a run of the two ends. -/
def after (schedule : List Action) : State := endState (step calls) unset schedule

end Demo

theorem edits_kept_iff_inTurn :
    (Demo.after Demo.inTurn).shown = [{ task := some "pick" }] ∧
      EditsKept Demo.calls Demo.unset (Demo.after Demo.inTurn) := by
  have run := runs_of_accepts
    (show accepts (step Demo.calls) Demo.unset Demo.inTurn = true by decide +kernel)
  have ended : Ended (Demo.after Demo.inTurn) := by
    intro w
    cases w with
    | one => exact Or.inl (by decide +kernel)
    | two => exact Or.inl (by decide +kernel)
  refine ⟨by decide +kernel, (edits_kept_iff (by decide +kernel) Demo.unset_begins run ended).mpr ?_⟩
  decide +kernel

/-- The second invocation writes back what it read before the first one's edit. -/
theorem edit_lost :
    (∀ f ∈ (Demo.calls .one).updates.keys, f ∉ (Demo.calls .two).updates.keys) ∧
      Begins Demo.unset ∧
      runs (step Demo.calls) Demo.unset Demo.together = .ok (Demo.after Demo.together) ∧
      (∀ w, (Demo.after Demo.together).phase w = .succeeded) ∧
      ¬ EditsKept Demo.calls Demo.unset (Demo.after Demo.together) := by
  have run := runs_of_accepts
    (show accepts (step Demo.calls) Demo.unset Demo.together = true by decide +kernel)
  refine ⟨by decide +kernel, Demo.unset_begins, run, fun w => ?_, fun kept => ?_⟩
  · cases w with
    | one => decide +kernel
    | two => decide +kernel
  · have held := kept.held .one .task (some "pick") (by decide +kernel)
    exact absurd held (by decide +kernel)

end KoyuRuntime.Cli
