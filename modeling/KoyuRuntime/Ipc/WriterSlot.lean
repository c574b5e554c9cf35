/-
# Ipc.WriterSlot — the owner of a blackboard topic, crash after crash

A topic's cell outlives its owner while readers hold it.  The next owner finds the segment
there, sweeps what dead processes have left, and if that does not free it reopens it, takes
the writer slot and overwrites the value it finds.  An owner whose writes fail three times in
a row gives up, for the supervisor to start another.

What iceoryx2 is relied on for: `create` refuses while the segment is there; a segment stays
while a process has it open; the writer slot of a process is not given away before that process
has ended; an update that fails leaves the cell as it is.

* `Owned`: who is past taking the slot has it, and has put its own value into the cell.
* `cell_is_own`: whatever processes start, crash and take turns, at most one is an owner, and
  the cell shows one of its last three values.
* `restart_recovers`: when all owners have ended a new one comes up, held segment or not.
-/
import Mathlib.Data.List.Induction
import Mathlib.Data.List.Basic

namespace KoyuRuntime.Ipc.WriterSlot

set_option autoImplicit false

variable {V : Type}

/-! ## The model -/

/-- `WRITE_FAIL_LIMIT`. -/
def writeFailLimit : Nat := 3

/-- Where `Writer(topic, struct_type, initial)` has come, and then the writer. -/
inductive Stage where
  /-- Before the first `create()` of `_create_or_reopen`. -/
  | creating
  /-- Before `sweep_dead()`. -/
  | sweeping
  /-- Before the second `create()`. -/
  | recreating
  /-- Before `open()`. -/
  | opening
  /-- Before `writer_builder().create().entry(...)`. -/
  | taking
  /-- Before `update_with_copy(initial_value)`. -/
  | priming
  /-- The writer is up, with its count of failures. -/
  | running (fails : Nat)
  /-- The process has ended. -/
  | ended
  deriving DecidableEq

/-- A process that owns the topic or wants to; what it has tried to write, and whether it got
through. -/
structure Owner (V : Type) where
  initial : V
  stage : Stage
  tried : List (V × Bool)
  deriving DecidableEq

/-- The topic's cell, and who has the writer slot. -/
structure Topic (V : Type) where
  cell : Option V
  slot : Option Nat
  owners : List (Owner V)
  deriving DecidableEq

/-- What a constructor finds at its next step. -/
structure Found where
  /-- Does iceoryx2 refuse for another reason? -/
  refuses : Bool
  /-- Do readers have the segment open? -/
  held : Bool
  /-- Is the slot of a process that has ended given away? -/
  reaped : Bool

inductive Action (V : Type) where
  | start (initial : V)
  | step (k : Nat) (found : Found)
  | write (k : Nat) (v : V) (works : Bool)
  | crash (k : Nat)
  /-- Another process of the runtime sweeps; do readers have the segment open? -/
  | sweep (held : Bool)

/-- Does a process in this stage have the segment open? -/
def Stage.opened : Stage → Bool
  | .taking | .priming | .running _ => true
  | _ => false

namespace Topic

def new : Topic V := ⟨none, none, []⟩

/-- Has the process of this number ended? -/
def hasEnded (t : Topic V) (k : Nat) : Bool :=
  match t.owners[k]? with
  | none => true
  | some o => decide (o.stage = .ended)

def goTo (k : Nat) (stage : Stage) (t : Topic V) : Topic V :=
  { t with owners := t.owners.modify k fun o => { o with stage := stage } }

/-- `cleanup_dead_nodes`: slots of processes that have ended are free, and a segment that nobody
has open is removed. -/
def sweepDead (held : Bool) (t : Topic V) : Topic V :=
  { t with
    slot := t.slot.filter fun k => !t.hasEnded k
    cell := if held || t.owners.any fun o => o.stage.opened then t.cell else none }

/-- `create()`; an `AlreadyExists` goes on to the next stage. -/
def create (k : Nat) (o : Owner V) (next : Stage) (found : Found) (t : Topic V) : Topic V :=
  if found.refuses then t.goTo k .ended
  else
    match t.cell with
    | some _ => t.goTo k next
    | none => { t.goTo k .taking with cell := some o.initial }

/-- Can the writer slot be had? -/
def slotFree (found : Found) (t : Topic V) : Bool :=
  match t.slot with
  | none => true
  | some j => t.hasEnded j && found.reaped

def takeSlot (k : Nat) (found : Found) (t : Topic V) : Topic V :=
  if found.refuses || !t.slotFree found then t.goTo k .ended else { t.goTo k .priming with slot := some k }

/-- The next step of a constructor. -/
def stepOf (k : Nat) (o : Owner V) (found : Found) (t : Topic V) : Topic V :=
  match o.stage with
  | .creating => t.create k o .sweeping found
  | .sweeping => if found.refuses then t.goTo k .ended else (t.sweepDead found.held).goTo k .recreating
  | .recreating => t.create k o .opening found
  | .opening => t.goTo k (if found.refuses || t.cell.isNone then .ended else .taking)
  | .taking => t.takeSlot k found
  | .priming =>
      if found.refuses then t.goTo k .ended else { t.goTo k (.running 0) with cell := some o.initial }
  | .running _ | .ended => t

/-- `Writer.write`; the `RuntimeError` ends the process. -/
def write (k : Nat) (v : V) (works : Bool) (o : Owner V) (t : Topic V) : Topic V :=
  match o.stage with
  | .running fails =>
      let tried := o.tried ++ [(v, works)]
      if works then
        { t with cell := some v, owners := t.owners.set k { o with stage := .running 0, tried := tried } }
      else if writeFailLimit ≤ fails + 1 then
        { t with owners := t.owners.set k { o with stage := .ended, tried := tried } }
      else { t with owners := t.owners.set k { o with stage := .running (fails + 1), tried := tried } }
  | _ => t

def step (t : Topic V) : Action V → Topic V
  | .start initial => { t with owners := t.owners ++ [⟨initial, .creating, []⟩] }
  | .step k found =>
      match t.owners[k]? with
      | none => t
      | some o => t.stepOf k o found
  | .write k v works =>
      match t.owners[k]? with
      | none => t
      | some o => t.write k v works o
  | .crash k => t.goTo k .ended
  | .sweep held => t.sweepDead held

def after (actions : List (Action V)) : Topic V := actions.foldl step new

end Topic

/-! ## The invariant -/

/-- Has the process taken the slot? -/
def Stage.past : Stage → Bool
  | .priming | .running _ => true
  | _ => false

/-- The cell shows the writer's last value that got through, of its initial one and those it
tried to write; this many have failed since, fewer than three. -/
def Shows (cell : Option V) (o : Owner V) (fails : Nat) : Prop :=
  ∃ before v lost, (o.initial, true) :: o.tried = before ++ (v, true) :: lost ∧ (∀ w ∈ lost, w.2 = false) ∧
    lost.length = fails ∧ fails < writeFailLimit ∧ cell = some v

structure Owned (t : Topic V) : Prop where
  within : ∀ j, t.slot = some j → j < t.owners.length
  slot : ∀ (k : Nat) (o : Owner V), t.owners[k]? = some o → o.stage.past = true → t.slot = some k
  shows : ∀ (k : Nat) (o : Owner V) fails, t.owners[k]? = some o → o.stage = .running fails →
    Shows t.cell o fails
  fresh : ∀ (k : Nat) (o : Owner V), t.owners[k]? = some o → o.stage ≠ .ended →
    (∀ fails, o.stage ≠ .running fails) → o.tried = []

namespace Shows

variable {cell : Option V} {o : Owner V} {fails : Nat}

theorem ne_none (shows_ : Shows cell o fails) : cell ≠ none := by
  obtain ⟨_, v, _, -, -, -, -, rfl⟩ := shows_
  nofun

theorem primed (o : Owner V) (fresh : o.tried = []) : Shows (some o.initial) o 0 :=
  ⟨[], o.initial, [], by simp [fresh], nofun, rfl, by decide, rfl⟩

theorem written (o : Owner V) (stage : Stage) (v : V) :
    Shows (some v) { o with stage := stage, tried := o.tried ++ [(v, true)] } 0 :=
  ⟨(o.initial, true) :: o.tried, v, [], by simp, nofun, rfl, by decide, rfl⟩

theorem lost (shows_ : Shows cell o fails) (stage : Stage) (v : V) (few : fails + 1 < writeFailLimit) :
    Shows cell { o with stage := stage, tried := o.tried ++ [(v, false)] } (fails + 1) := by
  obtain ⟨before, w, lost, split, all_lost, length, -, rfl⟩ := shows_
  refine ⟨before, w, lost ++ [(v, false)], ?_, ?_, by simp [length], few, rfl⟩
  · rw [← List.cons_append, split]
    simp
  · intro x mem
    obtain old | rfl : x ∈ lost ∨ x = (v, false) := by simpa using mem
    · exact all_lost x old
    · rfl

end Shows

theorem owners_goTo {t : Topic V} {k : Nat} {o : Owner V} (at_ : t.owners[k]? = some o) (stage : Stage) :
    (t.goTo k stage).owners = t.owners.set k { o with stage := stage } := by
  simp [Topic.goTo, List.modify_eq_set_getElem?, at_]

namespace Owned

variable {t t' : Topic V} {k : Nat} {o o' : Owner V}

theorem new : Owned (Topic.new : Topic V) := ⟨nofun, nofun, nofun, nofun⟩

/-- One process goes on; the slot and the cell of another that is up stay. -/
theorem goes (owned : Owned t) (at_ : t.owners[k]? = some o) (owners : t'.owners = t.owners.set k o')
    (within : ∀ j, t'.slot = some j → t.slot = some j ∨ j = k)
    (slot : o'.stage.past = true → t'.slot = some k)
    (shows_ : ∀ fails, o'.stage = .running fails → Shows t'.cell o' fails)
    (fresh : o'.stage ≠ .ended → (∀ fails, o'.stage ≠ .running fails) → o'.tried = [])
    (others : ∀ (j : Nat) (other : Owner V), j ≠ k → t.owners[j]? = some other → other.stage.past = true →
      t'.slot = some j ∧ ∀ fails, other.stage = .running fails → t'.cell = t.cell) : Owned t' := by
  obtain ⟨bound, -⟩ := List.getElem?_eq_some_iff.mp at_
  have split : ∀ (j : Nat) (other : Owner V), t'.owners[j]? = some other →
      j = k ∧ other = o' ∨ j ≠ k ∧ t.owners[j]? = some other := by
    intro j other at_j
    by_cases here : j = k
    · subst here
      rw [owners, List.getElem?_set_self bound] at at_j
      exact .inl ⟨rfl, (Option.some.inj at_j).symm⟩
    · rw [owners, List.getElem?_set_ne (Ne.symm here)] at at_j
      exact .inr ⟨here, at_j⟩
  refine ⟨fun j holds => ?_, fun j other at_j past => ?_, fun j other fails at_j running => ?_,
    fun j other at_j up idle => ?_⟩
  · rw [owners, List.length_set]
    obtain before | rfl := within j holds
    · exact owned.within j before
    · exact bound
  · obtain ⟨rfl, rfl⟩ | ⟨ne, before⟩ := split j other at_j
    · exact slot past
    · exact (others j other ne before past).1
  · obtain ⟨rfl, rfl⟩ | ⟨ne, before⟩ := split j other at_j
    · exact shows_ fails running
    · rw [(others j other ne before (by rw [running]; rfl)).2 fails running]
      exact owned.shows j other fails before running
  · obtain ⟨rfl, rfl⟩ | ⟨-, before⟩ := split j other at_j
    · exact fresh up idle
    · exact owned.fresh j other before up idle

/-- Nothing happens to the slot and the cell. -/
theorem still (owned : Owned t) (at_ : t.owners[k]? = some o) (o' : Owner V) (owners : t'.owners = t.owners.set k o')
    (same : t'.slot = t.slot ∧ t'.cell = t.cell) (early : o'.stage.past = false)
    (fresh : o'.stage ≠ .ended → o'.tried = []) : Owned t' := by
  refine owned.goes at_ owners (fun j holds => .inl (same.1 ▸ holds)) (by simp [early]) ?_ (fun up _ => fresh up) ?_
  · intro fails running
    simp [running, Stage.past] at early
  · intro j other _ at_j past
    exact ⟨same.1.trans (owned.slot j other at_j past), fun _ _ => same.2⟩

theorem goTo (owned : Owned t) (at_ : t.owners[k]? = some o) (stage : Stage) (early : stage.past = false)
    (fresh : stage ≠ .ended → o.tried = []) : Owned (t.goTo k stage) := by
  refine owned.still at_ { o with stage := stage } ?_ ⟨rfl, rfl⟩ early fresh
  exact owners_goTo at_ stage

theorem sweepDead (owned : Owned t) (held : Bool) : Owned (t.sweepDead held) where
  within j holds := owned.within j (Option.filter_eq_some_iff.mp holds).1
  slot j other at_j past := by
    have holds := owned.slot j other at_j past
    have up : t.hasEnded j = false := by
      rw [Topic.hasEnded, show t.owners[j]? = some other from at_j]
      cases stage : other.stage <;> simp_all [Stage.past]
    simp [Topic.sweepDead, holds, up]
  shows j other fails at_j running := by
    have opened : (t.owners.any fun o => o.stage.opened) = true :=
      List.any_eq_true.mpr ⟨other, List.mem_of_getElem? at_j, by rw [running]; rfl⟩
    simpa [Topic.sweepDead, opened] using owned.shows j other fails at_j running
  fresh := owned.fresh

theorem create (owned : Owned t) (at_ : t.owners[k]? = some o) (fresh : o.tried = []) (next : Stage)
    (early : next.past = false) (found : Found) : Owned (t.create k o next found) := by
  unfold Topic.create
  split
  · exact owned.goTo at_ .ended rfl nofun
  split
  · exact owned.goTo at_ next early fun _ => fresh
  · next empty =>
    refine owned.goes at_ (owners_goTo at_ .taking) (fun _ => .inl) nofun nofun (fun _ _ => fresh) ?_
    intro j other _ at_j past
    refine ⟨owned.slot j other at_j past, fun fails running => ?_⟩
    -- a writer that is up has a segment
    exact absurd empty (owned.shows j other fails at_j running).ne_none

theorem takeSlot (owned : Owned t) (at_ : t.owners[k]? = some o) (fresh : o.tried = []) (found : Found) :
    Owned (t.takeSlot k found) := by
  unfold Topic.takeSlot
  split
  · exact owned.goTo at_ .ended rfl nofun
  · next granted =>
    refine owned.goes at_ (owners_goTo at_ .priming) (fun j holds => .inr (Option.some.inj holds).symm) (fun _ => rfl)
      nofun (fun _ _ => fresh) ?_
    intro j other _ at_j past
    have holds := owned.slot j other at_j past
    have up : t.hasEnded j = false := by
      rw [Topic.hasEnded, show t.owners[j]? = some other from at_j]
      cases stage : other.stage <;> simp_all [Stage.past]
    simp [Topic.slotFree, holds, up] at granted

/-- The process that has the slot writes its first value, or a further one. -/
theorem puts (owned : Owned t) (at_ : t.owners[k]? = some o) (past : o.stage.past = true) (o' : Owner V)
    (owners : t'.owners = t.owners.set k o') (slot : t'.slot = t.slot) {fails : Nat}
    (up : o'.stage = .running fails) (shows_ : Shows t'.cell o' fails) : Owned t' := by
  have holds := owned.slot k o at_ past
  refine owned.goes at_ owners (fun j mine => .inl (slot ▸ mine)) (fun _ => slot.trans holds) ?_
    (fun _ idle => absurd up (idle fails)) ?_
  · intro fails' running
    obtain rfl : fails = fails' := by simpa [up] using running
    exact shows_
  · intro j other ne at_j past_j
    have also := owned.slot j other at_j past_j
    exact absurd (Option.some.inj (also.symm.trans holds)) ne

theorem stepOf (owned : Owned t) (at_ : t.owners[k]? = some o) (found : Found) :
    Owned (t.stepOf k o found) := by
  have fresh := owned.fresh k o at_
  unfold Topic.stepOf
  cases stage : o.stage with
  | creating => exact owned.create at_ (fresh (by simp [stage]) (by simp [stage])) .sweeping rfl found
  | sweeping =>
      have none_tried := fresh (by simp [stage]) (by simp [stage])
      simp only
      split
      · exact owned.goTo at_ .ended rfl nofun
      · exact (owned.sweepDead found.held).goTo at_ .recreating rfl fun _ => none_tried
  | recreating => exact owned.create at_ (fresh (by simp [stage]) (by simp [stage])) .opening rfl found
  | opening =>
      have none_tried := fresh (by simp [stage]) (by simp [stage])
      simp only
      split
      · exact owned.goTo at_ .ended rfl nofun
      · exact owned.goTo at_ .taking rfl fun _ => none_tried
  | taking => exact owned.takeSlot at_ (fresh (by simp [stage]) (by simp [stage])) found
  | priming =>
      have none_tried := fresh (by simp [stage]) (by simp [stage])
      simp only
      split
      · exact owned.goTo at_ .ended rfl nofun
      · refine owned.puts at_ (by rw [stage]; rfl) { o with stage := .running 0 } (owners_goTo at_ _) rfl rfl ?_
        exact .primed { o with stage := .running 0 } none_tried
  | running fails => exact owned
  | ended => exact owned

theorem write (owned : Owned t) (at_ : t.owners[k]? = some o) (v : V) (works : Bool) :
    Owned (t.write k v works o) := by
  unfold Topic.write
  split
  · next fails running =>
    have past : o.stage.past = true := by rw [running]; rfl
    dsimp only
    split
    · next worked =>
      subst worked
      exact owned.puts at_ past _ rfl rfl rfl (.written o (.running 0) v)
    · next failed =>
      obtain rfl : works = false := by simpa using failed
      split
      · exact owned.still at_ _ rfl ⟨rfl, rfl⟩ rfl (fun up => absurd rfl up)
      · next few =>
        exact owned.puts at_ past _ rfl rfl rfl
          ((owned.shows k o fails at_ running).lost (.running (fails + 1)) v (Nat.lt_of_not_le few))
  · exact owned

theorem step (owned : Owned t) (action : Action V) : Owned (t.step action) := by
  cases action with
  | start initial =>
      have old : ∀ (j : Nat) (o : Owner V), (t.owners ++ [⟨initial, .creating, []⟩])[j]? = some o →
          t.owners[j]? = some o ∨ o = ⟨initial, .creating, []⟩ := by
        intro j o at_
        by_cases inside : j < t.owners.length
        · exact .inl (by rwa [List.getElem?_append_left inside] at at_)
        · rw [List.getElem?_append_right (Nat.le_of_not_lt inside)] at at_
          exact .inr (by simpa using List.mem_of_getElem? at_)
      refine ⟨fun j holds => ?_, fun j o at_ past => ?_, fun j o fails at_ running => ?_, fun j o at_ up idle => ?_⟩
      · have := owned.within j holds
        simp only [Topic.step, List.length_append]
        omega
      · obtain before | rfl := old j o at_
        · exact owned.slot j o before past
        · cases past
      · obtain before | rfl := old j o at_
        · exact owned.shows j o fails before running
        · cases running
      · obtain before | rfl := old j o at_
        · exact owned.fresh j o before up idle
        · rfl
  | step k found =>
      simp only [Topic.step]
      split
      · exact owned
      · next o at_ => exact owned.stepOf at_ found
  | write k v works =>
      simp only [Topic.step]
      split
      · exact owned
      · next o at_ => exact owned.write at_ v works
  | crash k =>
      cases at_ : t.owners[k]? with
      | none => simpa [Topic.step, Topic.goTo, List.modify_eq_set_getElem?, at_] using owned
      | some o => exact owned.goTo at_ .ended rfl nofun
  | sweep held => exact owned.sweepDead held

theorem after (actions : List (Action V)) : Owned (Topic.after actions) := by
  induction actions using List.reverseRecOn with
  | nil => exact .new
  | append_singleton actions action ih =>
      rw [Topic.after, List.foldl_append]
      exact ih.step action

end Owned

/-! ## Main results -/

/-- Whatever processes start, crash, sweep and take turns: at most one is up, and its topic's
cell shows its initial value or one it has written, of the last three it tried. -/
theorem cell_is_own (actions : List (Action V)) (k : Nat) (o : Owner V) (fails : Nat)
    (at_ : (Topic.after actions).owners[k]? = some o) (up : o.stage = .running fails) :
    Shows (Topic.after actions).cell o fails ∧
      ∀ j other fails', (Topic.after actions).owners[j]? = some other → other.stage = .running fails' → j = k := by
  have owned := Owned.after actions
  refine ⟨owned.shows k o fails at_ up, fun j other fails' at_j up_j => ?_⟩
  have one := owned.slot k o at_ (by rw [up]; rfl)
  have two := owned.slot j other at_j (by rw [up_j]; rfl)
  exact Option.some.inj (two.symm.trans one)

/-! ## Recovery -/

section Recovery

variable {cell : Option V} {slot : Option Nat} {old : List (Owner V)} {o : Owner V} {v : V}

theorem goTo_last (stage : Stage) :
    (⟨cell, slot, old ++ [o]⟩ : Topic V).goTo old.length stage = ⟨cell, slot, old ++ [{ o with stage := stage }]⟩ := by
  simp [Topic.goTo, List.modify_eq_set_getElem?]

theorem step_last (found : Found) :
    (⟨cell, slot, old ++ [o]⟩ : Topic V).step (.step old.length found) =
      (⟨cell, slot, old ++ [o]⟩ : Topic V).stepOf old.length o found := by
  simp [Topic.step]

theorem prime_last (held : Bool) :
    (⟨cell, slot, old ++ [⟨v, .priming, []⟩]⟩ : Topic V).step (.step old.length ⟨false, held, true⟩) =
      ⟨some v, slot, old ++ [⟨v, .running 0, []⟩]⟩ := by
  simp [step_last, Topic.stepOf, goTo_last]

theorem hasEnded_old {j : Nat} (ended : ∀ o ∈ old, o.stage = .ended) (within : j < old.length) :
    (⟨cell, slot, old ++ [o]⟩ : Topic V).hasEnded j = true := by
  simp [Topic.hasEnded, List.getElem?_append_left within, within, ended old[j] (List.getElem_mem within)]

theorem take_last (held : Bool) (ended : ∀ o ∈ old, o.stage = .ended) (within : ∀ j, slot = some j → j < old.length) :
    (⟨cell, slot, old ++ [⟨v, .taking, []⟩]⟩ : Topic V).step (.step old.length ⟨false, held, true⟩) =
      ⟨cell, some old.length, old ++ [⟨v, .priming, []⟩]⟩ := by
  have free : (⟨cell, slot, old ++ [⟨v, .taking, []⟩]⟩ : Topic V).slotFree ⟨false, held, true⟩ = true := by
    cases slot with
    | none => rfl
    | some j => simp [Topic.slotFree, hasEnded_old ended (within j rfl)]
  simp [step_last, Topic.stepOf, Topic.takeSlot, free, goTo_last]

theorem sweep_last (held : Bool) (ended : ∀ o ∈ old, o.stage = .ended) (within : ∀ j, slot = some j → j < old.length) :
    (⟨cell, slot, old ++ [⟨v, .sweeping, []⟩]⟩ : Topic V).step (.step old.length ⟨false, held, true⟩) =
      ⟨if held then cell else none, none, old ++ [⟨v, .recreating, []⟩]⟩ := by
  have shut : ((old ++ [(⟨v, .sweeping, []⟩ : Owner V)]).any fun o => o.stage.opened) = false := by
    rw [List.any_eq_false]
    intro o mem
    obtain before | rfl : o ∈ old ∨ o = ⟨v, .sweeping, []⟩ := by simpa using mem
    · simp [ended o before, Stage.opened]
    · simp [Stage.opened]
  have free : slot.filter (fun k => !(⟨cell, slot, old ++ [⟨v, .sweeping, []⟩]⟩ : Topic V).hasEnded k) = none := by
    cases slot with
    | none => rfl
    | some j => simp [Option.filter, hasEnded_old ended (within j rfl)]
  simp only [step_last, Topic.stepOf, Topic.sweepDead, free, shut, Bool.or_false, Bool.false_eq_true, if_false,
    goTo_last]

theorem create_last (held : Bool) {stage next : Stage}
    (does : ∀ t : Topic V, t.stepOf old.length ⟨v, stage, []⟩ ⟨false, held, true⟩ =
      t.create old.length ⟨v, stage, []⟩ next ⟨false, held, true⟩) :
    (⟨cell, slot, old ++ [⟨v, stage, []⟩]⟩ : Topic V).step (.step old.length ⟨false, held, true⟩) =
      match cell with
      | none => ⟨some v, slot, old ++ [⟨v, .taking, []⟩]⟩
      | some c => ⟨some c, slot, old ++ [⟨v, next, []⟩]⟩ := by
  cases cell <;> simp [step_last, does, Topic.create, goTo_last]

theorem open_last (held : Bool) {c : V} :
    (⟨some c, slot, old ++ [⟨v, .opening, []⟩]⟩ : Topic V).step (.step old.length ⟨false, held, true⟩) =
      ⟨some c, slot, old ++ [⟨v, .taking, []⟩]⟩ := by
  simp [step_last, Topic.stepOf, goTo_last]

theorem run_last (held : Bool) (n : Nat) :
    (List.replicate n (.step old.length ⟨false, held, true⟩)).foldl Topic.step
      (⟨cell, slot, old ++ [⟨v, .running 0, []⟩]⟩ : Topic V) = ⟨cell, slot, old ++ [⟨v, .running 0, []⟩]⟩ := by
  induction n with
  | zero => rfl
  | succ n ih => rw [List.replicate_succ, List.foldl_cons, step_last]; exact ih

/-- When every process that owned the topic has ended, a new one comes up with its own value in
the cell: the segment may be gone, or left behind, or held by readers. -/
theorem restart_recovers (actions : List (Action V)) (initial : V) (held : Bool)
    (ended : ∀ o ∈ (Topic.after actions).owners, o.stage = .ended) :
    Topic.after (actions ++ .start initial ::
        List.replicate 6 (.step (Topic.after actions).owners.length ⟨false, held, true⟩)) =
      ⟨some initial, some (Topic.after actions).owners.length,
        (Topic.after actions).owners ++ [⟨initial, .running 0, []⟩]⟩ := by
  have within := (Owned.after actions).within
  rw [Topic.after, List.foldl_append]
  change List.foldl Topic.step (Topic.after actions) _ = _
  generalize Topic.after actions = t at within ended
  obtain ⟨cell, slot, old⟩ := t
  have started : (⟨cell, slot, old⟩ : Topic V).step (.start initial) =
      ⟨cell, slot, old ++ [⟨initial, .creating, []⟩]⟩ := rfl
  have taken : ∀ (cell : Option V) (slot : Option Nat) n, (∀ j, slot = some j → j < old.length) →
      (List.replicate (n + 2) (.step old.length ⟨false, held, true⟩)).foldl Topic.step
        (⟨cell, slot, old ++ [⟨initial, .taking, []⟩]⟩ : Topic V) =
      ⟨some initial, some old.length, old ++ [⟨initial, .running 0, []⟩]⟩ := by
    intro cell slot n within
    rw [List.replicate_succ, List.foldl_cons, take_last held ended within, List.replicate_succ, List.foldl_cons,
      prime_last, run_last]
  rw [List.foldl_cons, started, List.replicate_succ, List.foldl_cons, create_last held fun _ => rfl]
  cases cell with
  | none => exact taken _ slot 3 within
  | some c =>
      simp only
      rw [List.replicate_succ, List.foldl_cons, sweep_last held ended within, List.replicate_succ, List.foldl_cons,
        create_last held fun _ => rfl]
      cases held with
      | false => exact taken _ none 1 nofun
      | true =>
          simp only [if_true]
          rw [List.replicate_succ, List.foldl_cons, open_last]
          exact taken _ none 0 nofun

end Recovery

namespace Demo

/-- A writer crashes after its second value. -/
def crashed : List (Action Nat) :=
  .start 0 :: List.replicate 3 (.step 0 ⟨false, true, true⟩) ++ [.write 0 7 true, .crash 0]

/-- The next one finds the segment held by readers. -/
def restarted : List (Action Nat) :=
  crashed ++ .start 1 :: List.replicate 6 (.step 1 ⟨false, true, true⟩) ++ [.write 1 8 true, .write 1 9 false]

end Demo

theorem cell_is_own_restarted : (Topic.after Demo.restarted).cell = some 8 ∧
    Shows (Topic.after Demo.restarted).cell ⟨1, .running 1, [(8, true), (9, false)]⟩ 1 :=
  ⟨by decide, (cell_is_own Demo.restarted 1 _ 1 rfl rfl).1⟩

theorem restart_recovers_held : (Topic.after (Demo.crashed ++ .start 1 ::
    List.replicate 6 (.step (Topic.after Demo.crashed).owners.length ⟨false, true, true⟩))).cell = some 1 := by
  rw [restart_recovers Demo.crashed 1 true (by decide)]

end KoyuRuntime.Ipc.WriterSlot
