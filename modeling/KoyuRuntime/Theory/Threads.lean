/-
# Theory.Threads — programs that share a state, and what each may rely on

A program takes one atomic step on a shared state after the other, and returns or raises.
Between two of its steps the state is whatever others make of it.  `Safe R G Q X p s` says of
`p` in state `s`: as long as the others do no more than `R`, each of its steps is a `G`, what
it returns meets `Q` and what it raises meets `X`.

* `Safe.bind`, `Safe.atomic`, `Safe.each`: the rules for the parts of a program; an
  assertion that others keep is carried by `Stable`.
* `Machine`: commands are launched one by one, each as a thread with its program; any thread
  may take the next step, and so may the surroundings.  A thread that is not scheduled any
  more is one that was killed.
* `safe_together`: if every `G` is an `R`, every thread of a reachable system is safe.
* `safe_alone`: if a thread is launched only when the others have ended, its `R` need only
  cover the surroundings; the thread launched last stays safe after its end.
-/
import KoyuRuntime.Theory.Positions
import KoyuRuntime.Theory.Transition
import Mathlib.Data.List.Induction

namespace KoyuRuntime.Theory

set_option autoImplicit false

/-- A program over a shared state. -/
inductive Prog (σ ε α : Type) where
  | ret (a : α)
  | raise (e : ε)
  | step (effect : σ → σ) (next : σ → Prog σ ε α)

namespace Prog

variable {σ ε α β : Type}

def bind : Prog σ ε α → (α → Prog σ ε β) → Prog σ ε β
  | .ret a, k => k a
  | .raise e, _ => .raise e
  | .step effect next, k => .step effect fun s => (next s).bind k

instance : Monad (Prog σ ε) where
  pure := .ret
  bind := Prog.bind

/-- What needs no step. -/
def ofExcept : Except ε α → Prog σ ε α
  | .ok a => .ret a
  | .error e => .raise e

/-- A step that reads and writes, and may raise. -/
def atomic (f : σ → Except ε α × σ) : Prog σ ε α :=
  .step (fun s => (f s).2) fun s => ofExcept (f s).1

/-- A step that only reads. -/
def read (f : σ → α) : Prog σ ε α := .step id fun s => .ret (f s)

/-- A step that only writes. -/
def write (f : σ → σ) : Prog σ ε Unit := .step f fun _ => .ret ()

/-- One after the other; the first that raises ends it. -/
def each (f : β → Prog σ ε Unit) : List β → Prog σ ε Unit
  | [] => .ret ()
  | b :: rest => do
      f b
      each f rest

/-- Has it returned or raised? -/
def ended : Prog σ ε α → Bool
  | .step _ _ => false
  | _ => true

end Prog

/-- What the others may do to the state, in no step or in several. -/
structure Rely (σ : Type) where
  may : σ → σ → Prop
  refl : ∀ s, may s s
  trans : ∀ {s t u}, may s t → may t u → may s u

section Rules

variable {σ ε α β : Type}

/-- An assertion the others keep. -/
def Stable (R : Rely σ) (P : σ → Prop) : Prop := ∀ s t, P s → R.may s t → P t

theorem Stable.and {R : Rely σ} {P P' : σ → Prop} (stable : Stable R P) (stable' : Stable R P') :
    Stable R fun s => P s ∧ P' s :=
  fun s t holds may => ⟨stable s t holds.1 may, stable' s t holds.2 may⟩

theorem stable_const {R : Rely σ} (P : Prop) : Stable R fun _ => P := fun _ _ holds _ => holds

def Safe (R : Rely σ) (G : σ → σ → Prop) (Q : α → σ → Prop) (X : ε → σ → Prop) :
    Prog σ ε α → σ → Prop
  | .ret a, s => ∀ t, R.may s t → Q a t
  | .raise e, s => ∀ t, R.may s t → X e t
  | .step effect next, s =>
      ∀ t, R.may s t → G t (effect t) ∧ Safe R G Q X (next t) (effect t)

variable {R : Rely σ} {G : σ → σ → Prop} {Q Q' : α → σ → Prop} {X X' : ε → σ → Prop}
  {p : Prog σ ε α} {s t : σ}

/-- What the others do in between is no danger. -/
theorem Safe.after (safe : Safe R G Q X p s) (may : R.may s t) : Safe R G Q X p t := by
  cases p with
  | ret a => exact fun u later => safe u (R.trans may later)
  | raise e => exact fun u later => safe u (R.trans may later)
  | step effect next => exact fun u later => safe u (R.trans may later)

theorem Safe.mono (safe : Safe R G Q X p s) (returns : ∀ a t, Q a t → Q' a t)
    (raises : ∀ e t, X e t → X' e t) : Safe R G Q' X' p s := by
  induction p generalizing s with
  | ret a => exact fun t may => returns a t (safe t may)
  | raise e => exact fun t may => raises e t (safe t may)
  | step effect next ih => exact fun t may => ⟨(safe t may).1, ih t (safe t may).2⟩

theorem Safe.guarantee {G' : σ → σ → Prop} (safe : Safe R G Q X p s) (within : ∀ t u, G t u → G' t u) :
    Safe R G' Q X p s := by
  induction p generalizing s with
  | ret a => exact safe
  | raise e => exact safe
  | step effect next ih =>
      exact fun t may => ⟨within _ _ (safe t may).1, ih t (safe t may).2⟩

theorem Safe.ret {a : α} (returns : ∀ t, R.may s t → Q a t) : Safe R G Q X (pure a) s := returns

theorem Safe.raise {e : ε} (raises : ∀ t, R.may s t → X e t) :
    Safe R G Q X (Prog.raise e : Prog σ ε α) s := raises

/-- **The sequence rule.** -/
theorem Safe.bind {k : α → Prog σ ε β} {Q : β → σ → Prop}
    (first : Safe R G (fun a t => Safe R G Q X (k a) t) X p s) : Safe R G Q X (p >>= k) s := by
  induction p generalizing s with
  | ret a => exact first s (R.refl s)
  | raise e => exact first
  | step effect next ih => exact fun t may => ⟨(first t may).1, ih t (first t may).2⟩

/-- The sequence rule, with what holds in between. -/
theorem Safe.seq {k : α → Prog σ ε β} {Q' : β → σ → Prop} (first : Safe R G Q X p s)
    (later : ∀ a t, Q a t → Safe R G Q' X (k a) t) : Safe R G Q' X (p >>= k) s :=
  Safe.bind (first.mono later fun _ _ => id)

/-- **The frame rule**: a program that does no more than the others may keeps what they keep. -/
theorem Safe.frame {P : σ → Prop} (safe : Safe R G Q X p s) (within : ∀ t u, G t u → R.may t u)
    (stable : Stable R P) (holds : P s) (raises : ∀ e t, X e t ∧ P t → X' e t) :
    Safe R G (fun a t => Q a t ∧ P t) X' p s := by
  induction p generalizing s with
  | ret a => exact fun t may => ⟨safe t may, stable s t holds may⟩
  | raise e => exact fun t may => raises e t ⟨safe t may, stable s t holds may⟩
  | step effect next ih =>
      intro t may
      obtain ⟨here, later⟩ := safe t may
      exact ⟨here, ih t later (stable _ _ (stable s t holds may) (within _ _ here))⟩

/-- **The rule for one step**, of which assertions that are stable hold before and after. -/
theorem Safe.atomic {f : σ → Except ε α × σ} {P : σ → Prop} (holds : P s) (stable : Stable R P)
    (returns : ∀ a, Stable R (Q a)) (raises : ∀ e, Stable R (X e))
    (does : ∀ t, P t → G t (f t).2 ∧ (∀ a, (f t).1 = .ok a → Q a (f t).2) ∧
      ∀ e, (f t).1 = .error e → X e (f t).2) : Safe R G Q X (Prog.atomic f) s := by
  intro t may
  obtain ⟨within, ok, error⟩ := does t (stable s t holds may)
  refine ⟨within, ?_⟩
  show Safe R G Q X (Prog.ofExcept (f t).1) (f t).2
  cases outcome : (f t).1 with
  | ok a => exact fun u later => returns a _ _ (ok a outcome) later
  | error e => exact fun u later => raises e _ _ (error e outcome) later

theorem Safe.read {f : σ → α} {P : σ → Prop} (holds : P s) (stable : Stable R P)
    (returns : ∀ a, Stable R (Q a)) (does : ∀ t, P t → G t t ∧ Q (f t) t) :
    Safe R G Q X (Prog.read f) s := by
  intro t may
  obtain ⟨within, ok⟩ := does t (stable s t holds may)
  exact ⟨within, fun u later => returns _ _ _ ok later⟩

theorem Safe.write {f : σ → σ} {P : σ → Prop} {Q : Unit → σ → Prop} (holds : P s)
    (stable : Stable R P) (returns : Stable R (Q ())) (does : ∀ t, P t → G t (f t) ∧ Q () (f t)) :
    Safe R G Q X (Prog.write f) s := by
  intro t may
  obtain ⟨within, ok⟩ := does t (stable s t holds may)
  exact ⟨within, fun u later => returns _ _ ok later⟩

theorem Safe.ofExcept {result : Except ε α} {P : σ → Prop} (holds : P s) (stable : Stable R P)
    (returns : ∀ a t, result = .ok a → P t → Q a t)
    (raises : ∀ e t, result = .error e → P t → X e t) :
    Safe R G Q X (Prog.ofExcept result) s := by
  cases result with
  | ok a => exact fun t may => returns a t rfl (stable s t holds may)
  | error e => exact fun t may => raises e t rfl (stable s t holds may)

/-- **The loop rule**: an invariant that says how much of the list is still to come. -/
theorem Safe.each {f : β → Prog σ ε Unit} (P : List β → σ → Prop) (stable : ∀ l, Stable R (P l))
    (one : ∀ b rest t, P (b :: rest) t → Safe R G (fun _ => P rest) X (f b) t) (l : List β)
    (holds : P l s) : Safe R G (fun _ => P []) X (Prog.each f l) s := by
  induction l generalizing s with
  | nil => exact fun t may => stable [] s t holds may
  | cons b rest ih => exact Safe.bind ((one b rest s holds).mono (fun _ t kept => ih kept) fun _ _ => id)

end Rules

/-! ## Threads -/

/-- A thread: what was launched, the state it was launched in, and what it has still to do. -/
structure Thread (C σ ε α : Type) where
  command : C
  start : σ
  rest : Prog σ ε α

/-- A shared state and the threads launched so far, the latest last. -/
structure System (C σ ε α : Type) where
  shared : σ
  threads : List (Thread C σ ε α)

/-- What can happen next. -/
inductive Move (C E : Type) where
  | launch (c : C)
  | advance (i : Nat)
  | outside (e : E)

/-- What a command runs, what the surroundings do, and when another command may be launched. -/
structure Machine (C E σ ε α : Type) where
  program : C → Prog σ ε α
  outside : σ → E → σ
  admits : List (Thread C σ ε α) → Bool

namespace Machine

variable {C E σ ε α : Type} (m : Machine C E σ ε α)

/-- One move; a move that cannot be made is refused. -/
def step (sys : System C σ ε α) : Move C E → Except Unit (System C σ ε α)
  | .launch c =>
      if m.admits sys.threads then
        .ok { sys with threads := sys.threads ++ [⟨c, sys.shared, m.program c⟩] }
      else .error ()
  | .advance i =>
      match sys.threads[i]? with
      | some ⟨c, start, .step effect next⟩ =>
          .ok ⟨effect sys.shared, sys.threads.set i ⟨c, start, next sys.shared⟩⟩
      | _ => .error ()
  | .outside e => .ok { sys with shared := m.outside sys.shared e }

/-- No thread yet. -/
def Fresh (init : σ → Prop) (sys : System C σ ε α) : Prop := sys.threads = [] ∧ init sys.shared

variable {m} {sys sys' : System C σ ε α}

theorem step_launch {c : C} (stepped : m.step sys (.launch c) = .ok sys') :
    m.admits sys.threads = true ∧
      sys' = { sys with threads := sys.threads ++ [⟨c, sys.shared, m.program c⟩] } := by
  change (if m.admits sys.threads then _ else _) = _ at stepped
  split at stepped
  · rename_i admitted
    exact ⟨admitted, (Except.ok.inj stepped).symm⟩
  · cases stepped

theorem step_advance {i : Nat} (stepped : m.step sys (.advance i) = .ok sys') :
    ∃ c start effect next, sys.threads[i]? = some ⟨c, start, .step effect next⟩ ∧
      sys' = ⟨effect sys.shared, sys.threads.set i ⟨c, start, next sys.shared⟩⟩ := by
  simp only [step] at stepped
  split at stepped
  · rename_i c start effect next found
    exact ⟨c, start, effect, next, found, (Except.ok.inj stepped).symm⟩
  · cases stepped

theorem step_outside {e : E} (stepped : m.step sys (.outside e) = .ok sys') :
    sys' = { sys with shared := m.outside sys.shared e } := (Except.ok.inj stepped).symm

end Machine

section Together

variable {C E σ ε α : Type}

/-- What a machine's commands and surroundings keep to: an invariant in which every command
is safe to launch. -/
structure Respects (m : Machine C E σ ε α) (R : Rely σ) (G : σ → σ → Prop)
    (Q : C → σ → α → σ → Prop) (X : C → σ → ε → σ → Prop) (Inv : σ → Prop) : Prop where
  launched : ∀ c s, Inv s → Safe R G (Q c s) (X c s) (m.program c) s
  outside : ∀ s e, R.may s (m.outside s e)
  kept : Stable R Inv
  /-- A thread's own step keeps the invariant as well. -/
  own : ∀ s t, Inv s → G s t → Inv t

variable {m : Machine C E σ ε α} {R : Rely σ} {G : σ → σ → Prop} {Q : C → σ → α → σ → Prop}
  {X : C → σ → ε → σ → Prop} {Inv init : σ → Prop} {sys sys' : System C σ ε α}

/-- A thread that is safe in the state the system is in. -/
def Thread.SafeIn (R : Rely σ) (G : σ → σ → Prop) (Q : C → σ → α → σ → Prop)
    (X : C → σ → ε → σ → Prop) (s : σ) (thread : Thread C σ ε α) : Prop :=
  Safe R G (Q thread.command thread.start) (X thread.command thread.start) thread.rest s

/-- **Threads side by side**, each of which does what the others rely on. -/
theorem safe_together (respects : Respects m R G Q X Inv) (rivals : ∀ s t, G s t → R.may s t)
    (base : ∀ s, init s → Inv s) (reach : Reachable m.step (Machine.Fresh init) sys) :
    Inv sys.shared ∧ ∀ thread ∈ sys.threads, thread.SafeIn R G Q X sys.shared := by
  refine reach.invariant (?_ : ∀ sys, Machine.Fresh init sys → Inv sys.shared ∧
    ∀ thread ∈ sys.threads, thread.SafeIn R G Q X sys.shared) ?_
  · rintro sys ⟨none_, initial⟩
    rw [none_]
    exact ⟨base _ initial, fun _ mem => (List.not_mem_nil mem).elim⟩
  · rintro sys move sys' ⟨inv, safe⟩ stepped
    cases move with
    | launch c =>
        obtain ⟨-, rfl⟩ := Machine.step_launch stepped
        refine ⟨inv, ?_⟩
        intro thread mem
        rcases List.mem_append.mp mem with before | new
        · exact safe thread before
        · rw [List.mem_singleton.mp new]
          exact respects.launched c sys.shared inv
    | outside e =>
        cases Machine.step_outside stepped
        have may := respects.outside sys.shared e
        exact ⟨respects.kept _ _ inv may, fun thread mem => (safe thread mem).after may⟩
    | advance i =>
        obtain ⟨c, start, effect, next, found, rfl⟩ := Machine.step_advance stepped
        have here : Safe R G (Q c start) (X c start) (.step effect next) sys.shared :=
          safe _ (List.mem_of_getElem? found)
        obtain ⟨within, later⟩ := here sys.shared (R.refl _)
        refine ⟨respects.own _ _ inv within, ?_⟩
        intro thread mem
        rcases List.mem_or_eq_of_mem_set mem with other | rfl
        · exact (safe thread other).after (rivals _ _ within)
        · exact later

/-- What holds of a system whose threads run one after the other: the thread launched last
is safe, and the earlier ones have ended. -/
structure Alone (R : Rely σ) (G : σ → σ → Prop) (Q : C → σ → α → σ → Prop)
    (X : C → σ → ε → σ → Prop) (Inv : σ → Prop) (sys : System C σ ε α) : Prop where
  inv : Inv sys.shared
  ended : ∀ before last, sys.threads = before ++ [last] → ∀ thread ∈ before, thread.rest.ended = true
  safe : ∀ before last, sys.threads = before ++ [last] → last.SafeIn R G Q X sys.shared

/-- The thread that takes a step is the last one, where the earlier ones have ended. -/
theorem Alone.advances {c : C} {start : σ} {effect : σ → σ} {next : σ → Prog σ ε α} {i : Nat}
    (alone : Alone R G Q X Inv sys) (found : sys.threads[i]? = some ⟨c, start, .step effect next⟩) :
    ∃ before, sys.threads = before ++ [⟨c, start, .step effect next⟩] ∧ i = before.length := by
  rcases List.eq_nil_or_concat' sys.threads with none_ | ⟨before, last, split⟩
  · rw [none_] at found
    cases found
  · rw [split] at found
    rcases snoc_iff.mp found with earlier | ⟨here, same⟩
    · cases alone.ended before last split _ (List.mem_of_getElem? earlier)
    · rw [same]
      exact ⟨before, split, here⟩

/-- **Threads one after the other.** -/
theorem safe_alone (respects : Respects m R G Q X Inv)
    (turns : ∀ threads, m.admits threads = true → ∀ thread ∈ threads, thread.rest.ended = true)
    (base : ∀ s, init s → Inv s) (reach : Reachable m.step (Machine.Fresh init) sys) :
    Alone R G Q X Inv sys := by
  refine reach.invariant (?_ : ∀ sys, Machine.Fresh init sys → Alone R G Q X Inv sys) ?_
  · rintro sys ⟨none_, initial⟩
    refine ⟨base _ initial, ?_, ?_⟩
    · intro before last split
      rw [none_] at split
      exact absurd split (by simp)
    · intro before last split
      rw [none_] at split
      exact absurd split (by simp)
  · intro sys move sys' alone stepped
    cases move with
    | launch c =>
        obtain ⟨admitted, rfl⟩ := Machine.step_launch stepped
        refine ⟨alone.inv, ?_, ?_⟩
        · intro before last split
          obtain ⟨rfl, -⟩ := List.append_inj' split rfl
          exact turns _ admitted
        · intro before last split
          obtain ⟨-, same⟩ := List.append_inj' split rfl
          cases same
          exact respects.launched c sys.shared alone.inv
    | outside e =>
        cases Machine.step_outside stepped
        have may := respects.outside sys.shared e
        exact ⟨respects.kept _ _ alone.inv may, alone.ended,
          fun before last split => (alone.safe before last split).after may⟩
    | advance i =>
        obtain ⟨c, start, effect, next, found, rfl⟩ := Machine.step_advance stepped
        obtain ⟨before, split, rfl⟩ := alone.advances found
        have here : Safe R G (Q c start) (X c start) (.step effect next) sys.shared :=
          alone.safe before _ split
        obtain ⟨within, later⟩ := here sys.shared (R.refl _)
        have moved : sys.threads.set before.length ⟨c, start, next sys.shared⟩ =
            before ++ [⟨c, start, next sys.shared⟩] := by
          rw [split, List.set_append_right _ _ (Nat.le_refl _), Nat.sub_self]
          rfl
        refine ⟨respects.own _ _ alone.inv within, ?_, ?_⟩
        · intro before' last split'
          obtain ⟨rfl, -⟩ := List.append_inj' (moved.symm.trans split') rfl
          exact alone.ended _ _ split
        · intro before' last split'
          obtain ⟨-, same⟩ := List.append_inj' (moved.symm.trans split') rfl
          cases same
          exact later

/-- The step a thread takes is one it guarantees. -/
theorem Alone.guaranteed {i : Nat} (alone : Alone R G Q X Inv sys)
    (stepped : m.step sys (.advance i) = .ok sys') : G sys.shared sys'.shared := by
  obtain ⟨c, start, effect, next, found, rfl⟩ := Machine.step_advance stepped
  obtain ⟨before, split, -⟩ := alone.advances found
  have here : Safe R G (Q c start) (X c start) (.step effect next) sys.shared :=
    alone.safe before _ split
  exact (here sys.shared (R.refl _)).1

end Together

end KoyuRuntime.Theory
