/-
# Theory.Transition — systems whose step may refuse

A step takes a state and an action and either refuses with an error or gives
the next state.  `runs` folds a list of actions; `Reachable` collects the
states some run from an initial state ends in.

* `Reachable.invariant`: what holds initially and survives every accepted step
  holds in every reachable state.
* `runs_append_ok`: a run of a concatenation is one run after the other.
* `runs_each`: what each action brings about, and no later one undoes, holds after the run.
* `Along`: what holds of every step of a run; `along_iff` compares two such
  properties in the reachable states.
* `along_iff_unlogged`: if exactly the steps without a property add to a log, the
  property holds along a run exactly if the log is as it was.
* `along_iff_of_kept` compares them where an invariant holds that one of them keeps.
* `runs_parted`: a run leaves the good states for good at its first step without a property.
* `runs_simulated`: a relation kept by every pair of matching steps is kept by
  whole runs of the same actions.
-/
import Mathlib.Data.List.Basic

namespace KoyuRuntime.Theory

set_option autoImplicit false

universe u v w

variable {S : Type u} {A : Type v} {E : Type w}

/-- Fold a list of actions; the first refusal ends the run. -/
def runs (step : S → A → Except E S) : S → List A → Except E S
  | s, [] => .ok s
  | s, a :: rest =>
      match step s a with
      | .ok s' => runs step s' rest
      | .error e => .error e

/-- Is every action of the list accepted? -/
def accepts (step : S → A → Except E S) (s : S) (actions : List A) : Bool :=
  match runs step s actions with
  | .ok _ => true
  | .error _ => false

/-- Where an accepted run ends. -/
def endState (step : S → A → Except E S) (s : S) (actions : List A) : S :=
  match runs step s actions with
  | .ok s' => s'
  | .error _ => s

/-- The states some run from an initial state ends in. -/
def Reachable (step : S → A → Except E S) (init : S → Prop) (s : S) : Prop :=
  ∃ s₀ actions, init s₀ ∧ runs step s₀ actions = .ok s

/-- A property of a state and the action taken there, at every step of a run. -/
def Along (step : S → A → Except E S) (Q : S → A → Prop) : S → List A → Prop
  | _, [] => True
  | s, a :: rest => Q s a ∧ ∀ s', step s a = .ok s' → Along step Q s' rest

instance Along.decide (step : S → A → Except E S) (Q : S → A → Prop) [∀ s a, Decidable (Q s a)] :
    (s : S) → (actions : List A) → Decidable (Along step Q s actions)
  | _, [] => isTrue trivial
  | s, a :: rest =>
      match stepped : step s a with
      | .error _ => decidable_of_iff (Q s a) (by simp [Along, stepped])
      | .ok s' =>
          have := Along.decide step Q s' rest
          decidable_of_iff (Q s a ∧ Along step Q s' rest) (by simp [Along, stepped])

section Runs

variable {step : S → A → Except E S}

@[simp] theorem runs_nil (s : S) : runs step s [] = .ok s := rfl

theorem runs_of_accepts {s : S} {actions : List A} (ok : accepts step s actions = true) :
    runs step s actions = .ok (endState step s actions) := by
  unfold accepts at ok
  unfold endState
  cases run : runs step s actions with
  | ok s' => rfl
  | error e => simp [run] at ok

theorem runs_cons_ok {s s' : S} {a : A} {rest : List A} :
    runs step s (a :: rest) = .ok s' ↔
      ∃ mid, step s a = .ok mid ∧ runs step mid rest = .ok s' := by
  simp only [runs]
  cases step s a with
  | ok mid => simp
  | error e => simp

theorem runs_append_ok {s s' : S} {l r : List A} :
    runs step s (l ++ r) = .ok s' ↔
      ∃ mid, runs step s l = .ok mid ∧ runs step mid r = .ok s' := by
  induction l generalizing s with
  | nil => simp
  | cons a rest ih =>
      simp only [List.cons_append, runs_cons_ok, ih]
      constructor
      · rintro ⟨m, hm, m', hm', hr⟩
        exact ⟨m', ⟨m, hm, hm'⟩, hr⟩
      · rintro ⟨m', ⟨m, hm, hm'⟩, hr⟩
        exact ⟨m, hm, m', hm', hr⟩

/-- An invariant of every accepted step of the run holds at its end. -/
theorem runs_invariant_of_mem (Inv : S → Prop) {actions : List A}
    (next : ∀ a ∈ actions, ∀ s s', Inv s → step s a = .ok s' → Inv s')
    {s s' : S} (run : runs step s actions = .ok s') (base : Inv s) : Inv s' := by
  induction actions generalizing s with
  | nil => cases run; exact base
  | cons a rest ih =>
      obtain ⟨mid, first, later⟩ := runs_cons_ok.mp run
      have here : Inv mid := next a List.mem_cons_self s mid base first
      exact ih (fun b mem => next b (List.mem_cons_of_mem a mem)) later here

/-- An invariant of every accepted step holds at the end of every run. -/
theorem runs_invariant {Inv : S → Prop}
    (next : ∀ s a s', Inv s → step s a = .ok s' → Inv s')
    {s s' : S} {actions : List A} (run : runs step s actions = .ok s') (base : Inv s) : Inv s' :=
  runs_invariant_of_mem Inv (fun a _ s s' => next s a s') run base

/-- Where each step is accepted and keeps an invariant, so is the run. -/
theorem exists_runs (Inv : S → Prop) {actions : List A}
    (next : ∀ a ∈ actions, ∀ s, Inv s → ∃ s', step s a = .ok s' ∧ Inv s') {s : S} (base : Inv s) :
    ∃ s', runs step s actions = .ok s' ∧ Inv s' := by
  induction actions generalizing s with
  | nil => exact ⟨s, rfl, base⟩
  | cons a rest ih =>
      obtain ⟨mid, first, here⟩ := next a List.mem_cons_self s base
      obtain ⟨s', later, there⟩ := ih (fun b mem => next b (List.mem_cons_of_mem a mem)) here
      exact ⟨s', runs_cons_ok.mpr ⟨mid, first, later⟩, there⟩

/-- Steps that change nothing lead nowhere. -/
theorem runs_idle {s : S} {actions : List A} (idle : ∀ a ∈ actions, step s a = .ok s) :
    runs step s actions = .ok s := by
  induction actions with
  | nil => rfl
  | cons a rest ih =>
      refine runs_cons_ok.mpr ⟨s, idle a List.mem_cons_self, ?_⟩
      exact ih fun b mem => idle b (List.mem_cons_of_mem a mem)

/-- **The setup rule**: what each action brings about in a state that is ready for it
holds after the run, if no earlier action spoils a later one and no later one undoes it. -/
theorem runs_each (Ready Done : A → S → Prop) {actions : List A}
    (does : ∀ a ∈ actions, ∀ s s', Ready a s → step s a = .ok s' → Done a s')
    (apart : actions.Pairwise fun a b =>
      (∀ s s', step s a = .ok s' → Ready b s → Ready b s') ∧
        ∀ s s', step s b = .ok s' → Done a s → Done a s')
    {s s' : S} (run : runs step s actions = .ok s') (ready : ∀ a ∈ actions, Ready a s) :
    ∀ a ∈ actions, Done a s' := by
  induction actions generalizing s with
  | nil => exact fun _ none_ => (List.not_mem_nil none_).elim
  | cons a rest ih =>
      obtain ⟨mid, first, later⟩ := runs_cons_ok.mp run
      obtain ⟨fromFirst, among⟩ := List.pairwise_cons.mp apart
      intro b mem
      rcases List.mem_cons.mp mem with rfl | inRest
      · have done := does b List.mem_cons_self s mid (ready b List.mem_cons_self) first
        exact runs_invariant_of_mem (Done b)
          (fun c more s s' kept stepped => (fromFirst c more).2 s s' stepped kept) later done
      · refine ih (fun c more => does c (List.mem_cons_of_mem a more)) among later ?_ b inRest
        intro c more
        exact (fromFirst c more).1 s mid first (ready c (List.mem_cons_of_mem a more))

/-- **The log rule**: a log that only grows, and at the steps without `Q`, has not
grown over a run exactly if `Q` held at every step. -/
theorem along_iff_unlogged {B : Type*} {log : S → List B} {Q : S → A → Prop}
    (next : ∀ s a s', step s a = .ok s' → ∃ more, log s' = log s ++ more ∧ (Q s a ↔ more = []))
    {s s' : S} {actions : List A} (run : runs step s actions = .ok s') :
    ∃ more, log s' = log s ++ more ∧ (Along step Q s actions ↔ more = []) := by
  induction actions generalizing s with
  | nil =>
      cases run
      exact ⟨[], (List.append_nil _).symm, iff_of_true trivial rfl⟩
  | cons a rest ih =>
      obtain ⟨mid, first, later⟩ := runs_cons_ok.mp run
      obtain ⟨one, grown, quiet⟩ := next s a mid first
      obtain ⟨more, grown', quiet'⟩ := ih later
      refine ⟨one ++ more, by rw [grown', grown, List.append_assoc], ?_⟩
      rw [List.append_eq_nil_iff, ← quiet, ← quiet']
      refine and_congr_right ?_
      intro _
      constructor
      · exact fun all => all mid first
      · intro along s' step
        cases first.symm.trans step
        exact along

end Runs

section Reach

variable {step : S → A → Except E S} {init : S → Prop}

theorem Reachable.start {s : S} (initial : init s) : Reachable step init s :=
  ⟨s, [], initial, rfl⟩

theorem Reachable.next {s s' : S} {a : A} (reach : Reachable step init s)
    (stepped : step s a = .ok s') : Reachable step init s' := by
  obtain ⟨s₀, actions, initial, run⟩ := reach
  exact ⟨s₀, actions ++ [a], initial,
    runs_append_ok.mpr ⟨s, run, runs_cons_ok.mpr ⟨s', stepped, rfl⟩⟩⟩

/-- A run from a reachable state ends in one. -/
theorem Reachable.after {s s' : S} {actions : List A} (reach : Reachable step init s)
    (run : runs step s actions = .ok s') : Reachable step init s' := by
  obtain ⟨s₀, before, initial, first⟩ := reach
  exact ⟨s₀, before ++ actions, initial, runs_append_ok.mpr ⟨s, first, run⟩⟩

/-- A run that is seen to be accepted reaches its end state. -/
theorem Reachable.of_accepts {s : S} {actions : List A} (initial : init s)
    (ok : accepts step s actions = true) : Reachable step init (endState step s actions) :=
  ⟨s, actions, initial, runs_of_accepts ok⟩

/-- **The invariant rule**: initial states have it and accepted steps keep it. -/
theorem Reachable.invariant {Inv : S → Prop} (base : ∀ s, init s → Inv s)
    (next : ∀ s a s', Inv s → step s a = .ok s' → Inv s')
    {s : S} (reach : Reachable step init s) : Inv s := by
  obtain ⟨s₀, actions, initial, run⟩ := reach
  exact runs_invariant next run (base s₀ initial)

/-- The invariant rule where the initial states are some of `init'`: the states a step is
taken in are reachable from there. -/
theorem Reachable.invariant_within {init' Inv : S → Prop} (some_ : ∀ s, init s → init' s)
    (base : ∀ s, init s → Inv s)
    (next : ∀ s a s', Reachable step init' s → Inv s → step s a = .ok s' → Inv s')
    {s : S} (reach : Reachable step init s) : Inv s := by
  have start : ∀ s, init s → Reachable step init' s ∧ Inv s :=
    fun s initial => ⟨.start (some_ s initial), base s initial⟩
  have kept : ∀ s a s', Reachable step init' s ∧ Inv s → step s a = .ok s' →
      Reachable step init' s' ∧ Inv s' := by
    rintro s a s' ⟨within, inv⟩ stepped
    exact ⟨within.next stepped, next s a s' within inv stepped⟩
  exact (reach.invariant start kept).2

/-- Properties that agree in every reachable state agree along every run. -/
theorem along_iff {Q R : S → A → Prop}
    (same : ∀ s, Reachable step init s → ∀ a, Q s a ↔ R s a) {s : S}
    (reach : Reachable step init s) (actions : List A) :
    Along step Q s actions ↔ Along step R s actions := by
  induction actions generalizing s with
  | nil => exact Iff.rfl
  | cons a rest ih =>
      simp only [Along, same s reach a]
      refine and_congr_right fun _ => forall_congr' fun s' => forall_congr' fun stepped => ?_
      exact ih (reach.next stepped)

end Reach

/-- Properties that agree wherever an invariant holds, one of which keeps the invariant,
agree along every run from there. -/
theorem along_iff_of_kept {step : S → A → Except E S} {Inv : S → Prop} {Q R : S → A → Prop}
    (same : ∀ s a, Inv s → (Q s a ↔ R s a))
    (next : ∀ s a s', Inv s → R s a → step s a = .ok s' → Inv s') {s : S} (base : Inv s)
    (actions : List A) : Along step Q s actions ↔ Along step R s actions := by
  induction actions generalizing s with
  | nil => exact Iff.rfl
  | cons a rest ih =>
      simp only [Along, same s a base]
      refine and_congr_right fun now => forall_congr' fun s' => forall_congr' fun stepped => ?_
      exact ih (next s a s' base now stepped)

/-- **The parting rule**: if the steps without `Q` are those that lead from good states
to bad ones, and nothing leads back, a run ends well exactly if `Q` held all along. -/
theorem runs_parted {step : S → A → Except E S} {Good Bad : S → Prop} {Q : S → A → Prop}
    (good : ∀ s a s', Good s → step s a = .ok s' → (Q s a → Good s') ∧ (¬ Q s a → Bad s'))
    (bad : ∀ s a s', Bad s → step s a = .ok s' → Bad s') {s s' : S} {actions : List A}
    (run : runs step s actions = .ok s') (base : Good s) :
    (Along step Q s actions → Good s') ∧ (¬ Along step Q s actions → Bad s') := by
  induction actions generalizing s with
  | nil =>
      cases run
      exact ⟨fun _ => base, fun without => absurd trivial without⟩
  | cons a rest ih =>
      obtain ⟨mid, first, later⟩ := runs_cons_ok.mp run
      obtain ⟨keeps, leaves⟩ := good s a mid base first
      constructor
      · intro along
        exact (ih later (keeps along.1)).1 (along.2 mid first)
      · intro without
        by_cases now : Q s a
        · refine (ih later (keeps now)).2 fun along => without ⟨now, fun mid' stepped => ?_⟩
          cases first.symm.trans stepped
          exact along
        · exact runs_invariant bad later (leaves now)

section Simulated

variable {S' : Type u} {step : S → A → Except E S} {step' : S' → A → Except E S'}

/-- **The two-run rule**: when every step one system takes from a related state,
under conditions on both states, is matched by the other, so is every run. -/
theorem runs_simulated {R : S → S' → Prop} {C : S → A → Prop} {D : S' → A → Prop}
    (next : ∀ s t a s', R s t → C s a → D t a → step s a = .ok s' →
      ∃ t', step' t a = .ok t' ∧ R s' t')
    {s s' : S} {t : S'} {actions : List A} (related : R s t) (along : Along step C s actions)
    (along' : Along step' D t actions) (run : runs step s actions = .ok s') :
    ∃ t', runs step' t actions = .ok t' ∧ R s' t' := by
  induction actions generalizing s t with
  | nil =>
      cases run
      exact ⟨t, rfl, related⟩
  | cons a rest ih =>
      obtain ⟨mid, first, later⟩ := runs_cons_ok.mp run
      obtain ⟨mid', first', related'⟩ := next s t a mid related along.1 along'.1 first
      obtain ⟨t', later', end_⟩ := ih related' (along.2 mid first) (along'.2 mid' first') later
      exact ⟨t', runs_cons_ok.mpr ⟨mid', first', later'⟩, end_⟩

end Simulated

end KoyuRuntime.Theory
