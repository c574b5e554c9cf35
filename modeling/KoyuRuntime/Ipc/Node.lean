/-
# Ipc.Node — one node for each process

`node()` makes the process's node on its first call.  Threads may call it at the same time,
and `create()` lets others run, so the check before the lock is made again behind it.

* `Guarded`: the lock is held by the one thread that is inside, and the node is made only there.
* `one_node`: however the threads take turns, no second node is made, and every call that
  returns gets the one there is.
* `calls_end`: a call that raises gives the lock back too, so every call ends.
-/
import Mathlib.Algebra.BigOperators.Group.List.Basic
import Mathlib.Algebra.Ring.Nat
import Mathlib.Data.List.Induction

namespace KoyuRuntime.Ipc.Node

set_option autoImplicit false

/-! ## The model -/

/-- Where a call of `node()` has come. -/
inductive Stage where
  /-- Before the check without the lock. -/
  | start
  | locking
  /-- Before the check behind the lock. -/
  | locked
  | creating
  /-- `create()` has returned, and `_NODE` is not assigned yet. -/
  | storing (node : Nat)
  /-- Before `cleanup_dead_nodes`. -/
  | cleaning
  /-- At the end of the `with` block, perhaps by an exception. -/
  | leaving (raises : Bool)
  /-- Before `return _NODE`. -/
  | returning
  | returned (node : Option Nat)
  | raised
  deriving DecidableEq

/-- The module's two variables, the nodes that have been made, and the calls. -/
structure Process where
  node : Option Nat
  lock : Option Nat
  made : List Nat
  calls : List Stage
  deriving DecidableEq

inductive Action where
  | call
  /-- One step of the call of this number; does what it asks of iceoryx2 work? -/
  | step (k : Nat) (works : Bool)

namespace Process

def new : Process := ⟨none, none, [], []⟩

def goTo (k : Nat) (stage : Stage) (p : Process) : Process := { p with calls := p.calls.set k stage }

/-- One step of a call; one that waits for the lock may have to go on waiting. -/
def stepOf (k : Nat) (works : Bool) (p : Process) : Stage → Process
  | .start => p.goTo k (if p.node = none then .locking else .returning)
  | .locking => if p.lock = none then { p.goTo k .locked with lock := some k } else p
  | .locked => p.goTo k (if p.node = none then .creating else .leaving false)
  | .creating =>
      if works then { p.goTo k (.storing p.made.length) with made := p.made ++ [p.made.length] }
      else p.goTo k (.leaving true)
  | .storing node => { p.goTo k .cleaning with node := some node }
  | .cleaning => p.goTo k (.leaving (!works))
  | .leaving raises => { p.goTo k (if raises then .raised else .returning) with lock := none }
  | .returning => p.goTo k (.returned p.node)
  | .returned _ | .raised => p

def step (p : Process) : Action → Process
  | .call => { p with calls := p.calls ++ [.start] }
  | .step k works =>
      match p.calls[k]? with
      | none => p
      | some stage => p.stepOf k works stage

def after (actions : List Action) : Process := actions.foldl step new

end Process

/-! ## The invariant -/

/-- Is the call inside the `with` block? -/
def Stage.inside : Stage → Bool
  | .locked | .creating | .storing _ | .cleaning | .leaving _ => true
  | _ => false

/-- What a call may take for granted where it is. -/
def Stage.Fits (node : Option Nat) (made : List Nat) : Stage → Prop
  | .creating => node = none ∧ made = []
  | .storing n => node = none ∧ made = [n]
  | .cleaning | .leaving false | .returning => node ≠ none
  | .returned found => found = node ∧ node ≠ none
  | _ => True

/-- While there is no node, a call outside takes nothing for granted. -/
theorem Stage.Fits.outside {stage : Stage} {node node' : Option Nat} {made made' : List Nat}
    (fits : stage.Fits node made) (outside : stage.inside = false) (none_yet : node = none) :
    stage.Fits node' made' := by
  subst none_yet
  cases stage <;> simp_all [Stage.Fits, Stage.inside]

structure Guarded (p : Process) : Prop where
  /-- The lock is held by the call that is inside. -/
  held : ∀ k, p.lock = some k ↔ ∃ stage, p.calls[k]? = some stage ∧ stage.inside = true
  fits : ∀ (k : Nat) (stage : Stage), p.calls[k]? = some stage → stage.Fits p.node p.made
  /-- What is made is the node, or about to become it. -/
  made : p.node.toList = p.made ∨ p.node = none ∧ ∃ (k : Nat) (n : Nat), p.calls[k]? = some (Stage.storing n) ∧ p.made = [n]

namespace Guarded

variable {p : Process} {k : Nat} {stage : Stage}

theorem new : Guarded Process.new where
  held k := by simp [Process.new]
  fits k stage at_ := by simp [Process.new] at at_
  made := .inl rfl

/-- Only one call is inside. -/
theorem only (guarded : Guarded p) {j : Nat} {stage' : Stage} (at_k : p.calls[k]? = some stage)
    (inside_k : stage.inside = true) (at_j : p.calls[j]? = some stage') (inside_j : stage'.inside = true) : k = j := by
  have one := (guarded.held k).mpr ⟨stage, at_k, inside_k⟩
  have two := (guarded.held j).mpr ⟨stage', at_j, inside_j⟩
  exact Option.some.inj (one.symm.trans two)

theorem outside (guarded : Guarded p) {j : Nat} {other : Stage} (at_ : p.calls[k]? = some stage)
    (inside : stage.inside = true) (ne : j ≠ k) (at_j : p.calls[j]? = some other) : other.inside = false := by
  by_contra both
  exact ne (guarded.only at_j (by simpa using both) at_ inside)

/-- A call goes on: it stays on its side of the lock, or takes it, or gives it back. -/
theorem goes (guarded : Guarded p) {stage' : Stage} {p' : Process} (at_ : p.calls[k]? = some stage)
    (calls : p'.calls = p.calls.set k stage')
    (lock : stage'.inside = stage.inside ∧ p'.lock = p.lock ∨
      stage'.inside = true ∧ p.lock = none ∧ p'.lock = some k ∨
      stage.inside = true ∧ stage'.inside = false ∧ p'.lock = none)
    (fits : stage'.Fits p'.node p'.made)
    (others : ∀ (j : Nat) (other : Stage), j ≠ k → p.calls[j]? = some other → other.Fits p'.node p'.made)
    (made : p'.node = p.node ∧ p'.made = p.made ∧ (∀ n, stage ≠ .storing n) ∨
      (∃ n, p'.node = some n ∧ p'.made = [n]) ∨
      ∃ n, p'.node = none ∧ stage' = .storing n ∧ p'.made = [n]) : Guarded p' := by
  obtain ⟨bound, -⟩ := List.getElem?_eq_some_iff.mp at_
  have self : p'.calls[k]? = some stage' := by rw [calls, List.getElem?_set_self bound]
  have rest : ∀ j, j ≠ k → p'.calls[j]? = p.calls[j]? := fun j ne => by
    rw [calls, List.getElem?_set_ne (Ne.symm ne)]
  refine ⟨fun j => ?_, fun j other at_j => ?_, ?_⟩
  · have before := guarded.held j
    by_cases here : j = k
    · subst here
      simp only [self, at_, Option.some.injEq, exists_eq_left'] at before ⊢
      obtain ⟨side, same⟩ | ⟨enters, -, taken⟩ | ⟨-, leaves, given⟩ := lock
      · rw [same, before, side]
      · simp [enters, taken]
      · simp [leaves, given]
    · rw [rest j here, ← before]
      obtain ⟨-, same⟩ | ⟨-, free, taken⟩ | ⟨inside, -, given⟩ := lock
      · rw [same]
      · simp [free, taken, Ne.symm here]
      · have holder := (guarded.held k).mpr ⟨stage, at_, inside⟩
        simp [given, holder, Ne.symm here]
  · by_cases here : j = k
    · subst here
      rw [self] at at_j
      exact Option.some.inj at_j ▸ fits
    · exact others j other here (rest j here ▸ at_j)
  · obtain ⟨node, same, elsewhere⟩ | ⟨n, node, one⟩ | ⟨n, node, rfl, one⟩ := made
    · rw [node, same]
      refine guarded.made.imp_right fun ⟨none_yet, j, n, at_j, one⟩ => ⟨none_yet, j, n, ?_, one⟩
      rw [rest j, at_j]
      rintro rfl
      exact elsewhere n (Option.some.inj (at_.symm.trans at_j))
    · exact .inl (by rw [node, one]; rfl)
    · exact .inr ⟨node, k, n, self, one⟩

/-- A call goes on without the lock, and changes nothing else. -/
theorem moves (guarded : Guarded p) {stage' : Stage} (at_ : p.calls[k]? = some stage)
    (side : stage'.inside = stage.inside) (fits : stage'.Fits p.node p.made) (elsewhere : ∀ n, stage ≠ .storing n) :
    Guarded (p.goTo k stage') :=
  guarded.goes at_ rfl (.inl ⟨side, rfl⟩) fits (fun j other _ at_j => guarded.fits j other at_j)
    (.inl ⟨rfl, rfl, elsewhere⟩)

theorem stepOf (guarded : Guarded p) (works : Bool) (at_ : p.calls[k]? = some stage) :
    Guarded (p.stepOf k works stage) := by
  have here := guarded.fits k stage at_
  cases stage with
  | start =>
      simp only [Process.stepOf]
      split
      · exact guarded.moves at_ rfl trivial nofun
      · next there => exact guarded.moves at_ rfl there nofun
  | locking =>
      simp only [Process.stepOf]
      split
      · next free =>
        exact guarded.goes at_ rfl (.inr (.inl ⟨rfl, free, rfl⟩)) trivial
          (fun j other _ at_j => guarded.fits j other at_j) (.inl ⟨rfl, rfl, nofun⟩)
      · exact guarded
  | locked =>
      simp only [Process.stepOf]
      split
      · next none_yet =>
        refine guarded.moves at_ rfl ⟨none_yet, ?_⟩ nofun
        -- no other call can be about to assign a node
        obtain made | ⟨-, j, n, at_j, -⟩ := guarded.made
        · rw [← made, none_yet]
          rfl
        · obtain rfl := guarded.only at_ rfl at_j rfl
          cases at_.symm.trans at_j
      · next there => exact guarded.moves at_ rfl there nofun
  | creating =>
      obtain ⟨none_yet, empty⟩ := here
      simp only [Process.stepOf]
      split
      · refine guarded.goes at_ rfl (.inl ⟨rfl, rfl⟩) ?_ ?_ (.inr (.inr ⟨p.made.length, none_yet, rfl, ?_⟩))
        · exact ⟨none_yet, by simp [empty]⟩
        · exact fun j other ne at_j => (guarded.fits j other at_j).outside (guarded.outside at_ rfl ne at_j) none_yet
        · simp [empty]
      · exact guarded.moves at_ rfl trivial nofun
  | storing node =>
      obtain ⟨none_yet, one⟩ := here
      refine guarded.goes at_ rfl (.inl ⟨rfl, rfl⟩) nofun ?_ (.inr (.inl ⟨node, rfl, one⟩))
      exact fun j other ne at_j => (guarded.fits j other at_j).outside (guarded.outside at_ rfl ne at_j) none_yet
  | cleaning =>
      simp only [Process.stepOf]
      cases works with
      | true => exact guarded.moves at_ rfl here nofun
      | false => exact guarded.moves at_ rfl trivial nofun
  | leaving raises =>
      refine guarded.goes at_ rfl (.inr (.inr ⟨rfl, ?_, rfl⟩)) ?_
        (fun j other _ at_j => guarded.fits j other at_j) (.inl ⟨rfl, rfl, nofun⟩)
      · cases raises <;> rfl
      · cases raises with
        | false => exact here
        | true => trivial
  | returning => exact guarded.moves at_ rfl ⟨rfl, here⟩ nofun
  | returned found => exact guarded
  | raised => exact guarded

theorem step (guarded : Guarded p) (action : Action) : Guarded (p.step action) := by
  cases action with
  | step k works =>
      simp only [Process.step]
      split
      · exact guarded
      · next stage at_ => exact guarded.stepOf works at_
  | call =>
      have old : ∀ (j : Nat) (stage : Stage), (p.calls ++ [.start])[j]? = some stage →
          p.calls[j]? = some stage ∨ stage = .start := by
        intro j stage at_
        by_cases inside : j < p.calls.length
        · exact .inl (by rwa [List.getElem?_append_left inside] at at_)
        · rw [List.getElem?_append_right (Nat.le_of_not_lt inside)] at at_
          exact .inr (by simpa using List.mem_of_getElem? at_)
      have kept : ∀ (j : Nat) (stage : Stage), p.calls[j]? = some stage → (p.calls ++ [.start])[j]? = some stage := by
        intro j stage at_
        obtain ⟨inside, -⟩ := List.getElem?_eq_some_iff.mp at_
        rw [List.getElem?_append_left inside, at_]
      refine ⟨fun j => ?_, fun j stage at_ => ?_, guarded.made.imp_right ?_⟩
      · refine (guarded.held j).trans ⟨fun ⟨stage, at_, inside⟩ => ⟨stage, kept j stage at_, inside⟩, ?_⟩
        rintro ⟨stage, at_, inside⟩
        obtain before | rfl := old j stage at_
        · exact ⟨stage, before, inside⟩
        · cases inside
      · obtain before | rfl := old j stage at_
        · exact guarded.fits j stage before
        · trivial
      · rintro ⟨none_yet, j, n, at_, one⟩
        exact ⟨none_yet, j, n, kept j _ at_, one⟩

theorem after (actions : List Action) : Guarded (Process.after actions) := by
  induction actions using List.reverseRecOn with
  | nil => exact .new
  | append_singleton actions action ih =>
      rw [Process.after, List.foldl_append]
      exact ih.step action

end Guarded

/-- However the calls take turns, at most one node is made, and every call that returns has
got that one. -/
theorem one_node (actions : List Action) :
    (Process.after actions).made.length ≤ 1 ∧
      ∀ found, .returned found ∈ (Process.after actions).calls →
        ∃ n, found = some n ∧ (Process.after actions).made = [n] := by
  have guarded := Guarded.after actions
  refine ⟨?_, fun found mem => ?_⟩
  · obtain made | ⟨-, _, n, -, one⟩ := guarded.made
    · rw [← made]
      cases (Process.after actions).node <;> simp
    · simp [one]
  · obtain ⟨k, at_⟩ := List.mem_iff_getElem?.mp mem
    obtain ⟨rfl, there⟩ := guarded.fits k _ at_
    obtain ⟨n, node⟩ := Option.ne_none_iff_exists'.mp there
    refine ⟨n, node, ?_⟩
    obtain made | ⟨none_yet, -⟩ := guarded.made
    · rw [← made, node]
      rfl
    · exact absurd none_yet there

/-! ## Calls end -/

/-- How many steps a call has before it at most. -/
def Stage.remaining : Stage → Nat
  | .start => 8
  | .locking => 7
  | .locked => 6
  | .creating => 5
  | .storing _ => 4
  | .cleaning => 3
  | .leaving _ => 2
  | .returning => 1
  | .returned _ | .raised => 0

def Process.remaining (p : Process) : Nat := (p.calls.map Stage.remaining).sum

theorem sum_set_lt {l : List Nat} {k a b : Nat} (at_ : l[k]? = some a) (less : b < a) :
    (l.set k b).sum < l.sum := by
  induction l generalizing k with
  | nil => simp at at_
  | cons head rest ih =>
      cases k with
      | zero =>
          obtain rfl : head = a := by simpa using at_
          simpa using less
      | succ k => simpa using ih (by simpa using at_)

theorem remaining_goTo {p p' : Process} {k : Nat} {stage stage' : Stage} (at_ : p.calls[k]? = some stage)
    (calls : p'.calls = p.calls.set k stage') (less : stage'.remaining < stage.remaining) :
    p'.remaining < p.remaining := by
  have before : (p.calls.map Stage.remaining)[k]? = some stage.remaining := by simp [at_]
  simpa [Process.remaining, calls, List.map_set] using sum_set_lt before less

/-- A step takes a call further, unless it waits for the lock that another one holds. -/
theorem remaining_step {p : Process} {k : Nat} {stage : Stage} (works : Bool) (at_ : p.calls[k]? = some stage)
    (open_ : stage.remaining ≠ 0) (free : stage = .locking → p.lock = none) :
    (p.step (.step k works)).remaining < p.remaining := by
  simp only [Process.step, at_]
  cases stage with
  | start =>
      by_cases none_yet : p.node = none
      · exact remaining_goTo at_ rfl (by simp [none_yet, Stage.remaining])
      · exact remaining_goTo at_ rfl (by simp [none_yet, Stage.remaining])
  | locking =>
      simp only [Process.stepOf, free rfl, if_true]
      exact remaining_goTo at_ rfl (by decide)
  | locked =>
      by_cases none_yet : p.node = none
      · exact remaining_goTo at_ rfl (by simp [none_yet, Stage.remaining])
      · exact remaining_goTo at_ rfl (by simp [none_yet, Stage.remaining])
  | creating =>
      cases works with
      | true => exact remaining_goTo at_ rfl (by simp [Stage.remaining])
      | false => exact remaining_goTo at_ rfl (by simp [Stage.remaining])
  | storing node => exact remaining_goTo at_ rfl (by simp [Stage.remaining])
  | cleaning => exact remaining_goTo at_ rfl (by simp [Stage.remaining])
  | leaving raises => exact remaining_goTo at_ rfl (by cases raises <;> simp [Stage.remaining])
  | returning => exact remaining_goTo at_ rfl (by simp [Stage.remaining])
  | returned found => exact absurd rfl open_
  | raised => exact absurd rfl open_

/-- While a call has not ended, some call can be taken further. -/
theorem Guarded.goes_on {p : Process} (guarded : Guarded p) {k : Nat} {stage : Stage}
    (at_ : p.calls[k]? = some stage) (open_ : stage.remaining ≠ 0) :
    ∃ j, ∀ works, (p.step (.step j works)).remaining < p.remaining := by
  by_cases waits : stage = .locking ∧ p.lock ≠ none
  · obtain ⟨j, holds⟩ := Option.ne_none_iff_exists'.mp waits.2
    obtain ⟨holder, at_j, inside⟩ := (guarded.held j).mp holds
    refine ⟨j, fun works => remaining_step works at_j ?_ ?_⟩
    · cases holder <;> simp_all [Stage.inside, Stage.remaining]
    · rintro rfl
      cases inside
  · refine ⟨k, fun works => remaining_step works at_ open_ fun is => ?_⟩
    by_contra locked
    exact waits ⟨is, locked⟩

/-- These calls take a step each, with what works of what they ask for. -/
def turns (works : Nat → Bool) (ks : List Nat) : List Action := ks.mapIdx fun n k => .step k (works n)

theorem Guarded.ends {p : Process} (guarded : Guarded p) (works : Nat → Bool) :
    ∃ ks, ks.length ≤ p.remaining ∧
      ∀ stage ∈ ((turns works ks).foldl Process.step p).calls, stage.remaining = 0 := by
  by_cases ended : ∀ stage ∈ p.calls, stage.remaining = 0
  · exact ⟨[], Nat.zero_le _, ended⟩
  · obtain ⟨stage, mem, open_⟩ : ∃ stage ∈ p.calls, stage.remaining ≠ 0 := by simpa using ended
    obtain ⟨k, at_⟩ := List.mem_iff_getElem?.mp mem
    obtain ⟨j, further⟩ := guarded.goes_on at_ open_
    have less := further (works 0)
    obtain ⟨ks, few, all⟩ := (guarded.step (.step j (works 0))).ends fun n => works (n + 1)
    refine ⟨j :: ks, by simp only [List.length_cons]; omega, ?_⟩
    simpa [turns, List.mapIdx_cons] using all
termination_by p.remaining

/-- From wherever the calls are, all of them come to an end if they are given enough turns,
whatever works of what they ask for: no lock is left behind. -/
theorem calls_end (actions : List Action) (works : Nat → Bool) :
    ∃ ks, ks.length ≤ (Process.after actions).remaining ∧
      ∀ stage ∈ (Process.after (actions ++ turns works ks)).calls, stage.remaining = 0 := by
  obtain ⟨ks, few, all⟩ := (Guarded.after actions).ends works
  refine ⟨ks, few, ?_⟩
  rw [Process.after, List.foldl_append]
  exact all

/-- Two calls past the first check; the second one waits, and finds the node. -/
example : Process.after [.call, .call, .step 0 true, .step 1 true, .step 0 true, .step 1 true, .step 0 true,
    .step 0 true, .step 0 true, .step 0 true, .step 0 true, .step 0 true, .step 1 true, .step 1 true, .step 1 true,
    .step 1 true] = ⟨some 0, none, [0], [.returned (some 0), .returned (some 0)]⟩ := by decide

end KoyuRuntime.Ipc.Node
