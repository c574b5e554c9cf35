/-
# Theory.Raising — effects that may raise on a state

An action of `EStateM` returns a value or raises, and leaves a state either way.
The `_ok_iff` lemmas peel a run that returned apart, step by step.

* `Leaves R m s`: whether it returns or raises, `m` leaves a state related to `s`.
* `Fails R m s`: if it raises, `m` leaves a state related to `s`.
* `gather`: without a state, the joined results of a run on every element of a list.
* `mem_of_mapM`, `exists_mapM`: a run on every element returns exactly if each does.

The first two hold of a sequence if they hold of its parts, for a transitive relation.
-/
import Mathlib.Logic.Basic

namespace KoyuRuntime.Theory

set_option autoImplicit false

universe u

variable {ε σ α β : Type u} {m : EStateM ε σ α} {k : α → EStateM ε σ β} {s s' : σ} {a a' : α} {b : β}
  {R : σ → σ → Prop}

/-! ## Runs that return -/

/-- Without a state: a sequence returns exactly if both of its parts do. -/
theorem except_bind_ok_iff {x : Except ε α} {k : α → Except ε β} :
    (x >>= k) = .ok b ↔ ∃ a, x = .ok a ∧ k a = .ok b := by
  cases x with
  | error e => simp [bind, Except.bind]
  | ok a => simp [bind, Except.bind]

/-- Run an action on every element and join the results; the first that raises ends it. -/
def gather (f : α → Except ε (List β)) : List α → Except ε (List β)
  | [] => .ok []
  | a :: rest => do
      let first ← f a
      let later ← gather f rest
      pure (first ++ later)

section Gather

variable {f : α → Except ε (List β)}

theorem gather_ok {as : List α} {bs : List β} (done : gather f as = .ok bs) :
    (∀ a ∈ as, ∃ some_, f a = .ok some_) ∧
      ∀ b, b ∈ bs ↔ ∃ a ∈ as, ∃ some_, f a = .ok some_ ∧ b ∈ some_ := by
  induction as generalizing bs with
  | nil =>
      cases done
      simp
  | cons a rest ih =>
      obtain ⟨first, here, more⟩ := except_bind_ok_iff.mp done
      obtain ⟨later, there, same⟩ := except_bind_ok_iff.mp more
      cases same
      obtain ⟨all, mem⟩ := ih there
      refine ⟨?_, ?_⟩
      · intro x inAll
        rcases List.mem_cons.mp inAll with rfl | inRest
        · exact ⟨first, here⟩
        · exact all x inRest
      · intro b
        rw [List.mem_append, mem]
        constructor
        · rintro (inFirst | ⟨x, inRest, found⟩)
          · exact ⟨a, List.mem_cons_self, first, here, inFirst⟩
          · exact ⟨x, List.mem_cons_of_mem a inRest, found⟩
        · rintro ⟨x, inAll, some_, ran, inSome⟩
          rcases List.mem_cons.mp inAll with rfl | inRest
          · rw [here] at ran
            cases ran
            exact Or.inl inSome
          · exact Or.inr ⟨x, inRest, some_, ran, inSome⟩

/-- What is picked from the joined results is picked from the results of the elements. -/
theorem mem_filterMap_gather {γ : Type u} {as : List α} {bs : List β} (done : gather f as = .ok bs)
    {pick : β → Option γ} {In : α → γ → Prop}
    (each : ∀ a ∈ as, ∀ some_, f a = .ok some_ → ∀ c, c ∈ some_.filterMap pick ↔ In a c) (c : γ) :
    c ∈ bs.filterMap pick ↔ ∃ a ∈ as, In a c := by
  simp only [List.mem_filterMap, (gather_ok done).2] at each ⊢
  constructor
  · rintro ⟨b, ⟨a, mem, some_, ran, inSome⟩, picked⟩
    exact ⟨a, mem, (each a mem some_ ran c).mp ⟨b, inSome, picked⟩⟩
  · rintro ⟨a, mem, here⟩
    obtain ⟨some_, ran⟩ := (gather_ok done).1 a mem
    obtain ⟨b, inSome, picked⟩ := (each a mem some_ ran c).mpr here
    exact ⟨b, ⟨a, mem, some_, ran, inSome⟩, picked⟩

theorem exists_gather {as : List α} (all : ∀ a ∈ as, ∃ some_, f a = .ok some_) :
    ∃ bs, gather f as = .ok bs := by
  induction as with
  | nil => exact ⟨[], rfl⟩
  | cons a rest ih =>
      obtain ⟨first, here⟩ := all a List.mem_cons_self
      obtain ⟨later, there⟩ := ih fun x mem => all x (List.mem_cons_of_mem a mem)
      exact ⟨first ++ later,
        except_bind_ok_iff.mpr ⟨first, here, except_bind_ok_iff.mpr ⟨later, there, rfl⟩⟩⟩

end Gather

/-- What `mapM` ran on returned, and the result is in the list. -/
theorem mem_of_mapM {f : α → Except ε β} {as : List α} {bs : List β} (done : as.mapM f = .ok bs)
    {a : α} (mem : a ∈ as) : ∃ b, f a = .ok b ∧ b ∈ bs := by
  induction as generalizing bs with
  | nil => cases mem
  | cons first rest ih =>
      rw [List.mapM_cons] at done
      obtain ⟨b, here, more⟩ := except_bind_ok_iff.mp done
      obtain ⟨later, there, same⟩ := except_bind_ok_iff.mp more
      cases same
      rcases List.mem_cons.mp mem with rfl | inRest
      · exact ⟨b, here, List.mem_cons_self⟩
      · obtain ⟨b', ran, inLater⟩ := ih there inRest
        exact ⟨b', ran, List.mem_cons_of_mem b inLater⟩

theorem exists_mapM {f : α → Except ε β} {as : List α} (all : ∀ a ∈ as, ∃ b, f a = .ok b) :
    ∃ bs, as.mapM f = .ok bs := by
  induction as with
  | nil => exact ⟨[], rfl⟩
  | cons first rest ih =>
      obtain ⟨b, here⟩ := all first List.mem_cons_self
      obtain ⟨later, there⟩ := ih fun x mem => all x (List.mem_cons_of_mem first mem)
      refine ⟨b :: later, ?_⟩
      rw [List.mapM_cons, here, there]
      rfl

/-- What each run returns, seen through `g`, is what its argument gives through `h`. -/
theorem map_of_mapM {γ : Type u} {f : α → Except ε β} {g : β → γ} {h : α → γ}
    (each : ∀ a b, f a = .ok b → g b = h a) {as : List α} {bs : List β}
    (done : as.mapM f = .ok bs) : bs.map g = as.map h := by
  induction as generalizing bs with
  | nil =>
      cases done
      rfl
  | cons a rest ih =>
      rw [List.mapM_cons] at done
      obtain ⟨b, here, more⟩ := except_bind_ok_iff.mp done
      obtain ⟨later, there, same⟩ := except_bind_ok_iff.mp more
      cases same
      rw [List.map_cons, List.map_cons, each a b here, ih there]

theorem bind_ok_iff :
    (m >>= k) s = .ok b s' ↔ ∃ a mid, m s = .ok a mid ∧ k a mid = .ok b s' := by
  show EStateM.bind m k s = _ ↔ _
  unfold EStateM.bind
  cases m s with
  | ok a mid =>
      constructor
      · intro later
        exact ⟨a, mid, rfl, later⟩
      · rintro ⟨a', mid', same, later⟩
        cases same
        exact later
  | error e mid =>
      constructor
      · intro raised
        cases raised
      · rintro ⟨a', mid', same, -⟩
        cases same

theorem pure_ok_iff : (pure a : EStateM ε σ α) s = .ok a' s' ↔ a = a' ∧ s = s' := by
  show EStateM.Result.ok a s = _ ↔ _
  simp

/-- What an action returned, if it did. -/
def returned : EStateM.Result ε σ α → Option α
  | .ok a _ => some a
  | .error _ _ => none

/-! ## The state an action leaves -/

/-- The state after an action, whether it returned or raised. -/
def left : EStateM.Result ε σ α → σ
  | .ok _ s => s
  | .error _ s => s

def Leaves (R : σ → σ → Prop) (m : EStateM ε σ α) (s : σ) : Prop := R s (left (m s))

theorem Leaves.of_ok (leaves : Leaves R m s) (ok : m s = .ok a s') : R s s' := by
  unfold Leaves at leaves
  rw [ok] at leaves
  exact leaves

theorem Leaves.bind (trans : ∀ t mid t', R t mid → R mid t' → R t t') (first : Leaves R m s)
    (later : ∀ a mid, m s = .ok a mid → Leaves R (k a) mid) : Leaves R (m >>= k) s := by
  unfold Leaves at first later ⊢
  show R s (left (EStateM.bind m k s))
  unfold EStateM.bind
  cases ran : m s with
  | ok a mid =>
      rw [ran] at first
      exact trans _ _ _ first (later a mid ran)
  | error e mid =>
      rw [ran] at first
      exact first

theorem Leaves.pure (refl : ∀ t, R t t) : Leaves R (pure a : EStateM ε σ α) s := refl s

def Fails (R : σ → σ → Prop) (m : EStateM ε σ α) (s : σ) : Prop :=
  ∀ e s', m s = .error e s' → R s s'

theorem Fails.bind (trans : ∀ t mid t', R t mid → R mid t' → R t t') (first : Leaves R m s)
    (later : ∀ a mid, m s = .ok a mid → Fails R (k a) mid) : Fails R (m >>= k) s := by
  intro e s' raised
  change EStateM.bind m k s = .error e s' at raised
  unfold Leaves at first
  unfold EStateM.bind at raised
  cases ran : m s with
  | ok a mid =>
      rw [ran] at first raised
      exact trans _ _ _ first (later a mid ran e s' raised)
  | error e' mid =>
      rw [ran] at first raised
      cases raised
      exact first

/-- A last step followed by a return raises exactly if it raises itself. -/
theorem Fails.last (fails : Fails R m s) : Fails R (m >>= fun _ => (Pure.pure b : EStateM ε σ β)) s := by
  intro e s' raised
  change EStateM.bind m _ s = .error e s' at raised
  unfold EStateM.bind at raised
  cases ran : m s with
  | ok a mid =>
      rw [ran] at raised
      cases raised
  | error e' mid =>
      rw [ran] at raised
      cases raised
      exact fails e s' ran

end KoyuRuntime.Theory
