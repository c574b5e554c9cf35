/-
# Theory.DirTree — directory trees and the operations that move through them

A tree lists the entries below an unnamed root directory by their path.  Names
and file contents are parameters; the newest entry of a path is the one read.
A path as a program spells it is a list of hops (`up` is `..`), and `resolve`
walks it: every hop but the root must land on an existing directory and every
name must be one the file system accepts.

`move` is what a rename does to the listing: the subtree at the source reappears
at the target.  `rename` performs it under the checks of the system call: the
source exists, the target is not below it, and a directory only replaces an
empty directory.

* `get?_move`: every path after a move, read in the tree before it.
* `get?_prune`: removing a subtree removes exactly the paths below its root.
* `rename_ok`, `rename_fresh`: when a rename is accepted, and that it is a move.
-/
import KoyuRuntime.Theory.OrderedDict
import Mathlib.Data.List.Infix

namespace KoyuRuntime.Theory

set_option autoImplicit false

inductive Node (C : Type) where
  | dir
  | file (content : C)

/-- Why an operation on a tree is refused. -/
inductive TreeError where
  | exists
  | notFound
  | notDirectory
  | isDirectory
  | notEmpty
  | invalid
  | badName
  deriving DecidableEq, Repr

/-- One component of a path as it is spelled. -/
inductive Hop (N : Type) where
  | up
  | into (name : N)
  deriving DecidableEq, Repr

structure DirTree (N C : Type) where
  entries : List (List N × Node C)

namespace DirTree

variable {N C : Type} [DecidableEq N]

def get? (t : DirTree N C) (p : List N) : Option (Node C) := OrderedDict.find p t.entries

def set (t : DirTree N C) (p : List N) (n : Node C) : DirTree N C := ⟨(p, n) :: t.entries⟩

/-- The root is a directory without an entry of its own. -/
def isDir (t : DirTree N C) (p : List N) : Bool :=
  p.isEmpty || match t.get? p with
    | some .dir => true
    | _ => false

/-- Does nothing lie strictly below `p`? -/
def vacant (t : DirTree N C) (p : List N) : Bool :=
  t.entries.all fun e => decide (p <+: e.1 → e.1 = p)

/-- Walk a spelled path from a directory. -/
def resolve (legal : N → Bool) (t : DirTree N C) : List N → List (Hop N) → Except TreeError (List N)
  | here, [] => .ok here
  | here, .up :: rest => resolve legal t here.dropLast rest
  | here, .into name :: rest =>
      if legal name then
        match t.get? (here ++ [name]) with
        | some .dir => resolve legal t (here ++ [name]) rest
        | some (.file _) => .error .notDirectory
        | none => .error .notFound
      else .error .badName

/-- Where a path about to be created lies: its directory must resolve and its
last component must be an accepted name. -/
def place (legal : N → Bool) (t : DirTree N C) (hops : List (Hop N)) : Except TreeError (List N) :=
  match hops.getLast? with
  | some (.into name) =>
      match resolve legal t [] hops.dropLast with
      | .ok parent => if legal name then .ok (parent ++ [name]) else .error .badName
      | .error e => .error e
  | _ => .error .invalid

/-- Create the missing directories along `names` below `here`. -/
def makeParents (t : DirTree N C) : List N → List N → Except TreeError (DirTree N C)
  | _, [] => .ok t
  | here, name :: rest =>
      match t.get? (here ++ [name]) with
      | some .dir => makeParents t (here ++ [name]) rest
      | some (.file _) => .error .notDirectory
      | none => makeParents (t.set (here ++ [name]) .dir) (here ++ [name]) rest

/-- Create a directory, and its missing parents. -/
def mkdirParents (t : DirTree N C) (p : List N) : Except TreeError (DirTree N C) :=
  match makeParents t [] p.dropLast with
  | .error e => .error e
  | .ok t =>
      if p = [] ∨ (t.get? p).isSome then .error .exists else .ok (t.set p .dir)

/-- Create or overwrite a file in an existing directory. -/
def writeFile (t : DirTree N C) (p : List N) (content : C) : Except TreeError (DirTree N C) :=
  if t.isDir p.dropLast then
    if t.isDir p then .error .isDirectory else .ok (t.set p (.file content))
  else .error .notFound

/-- Remove a path and everything below it. -/
def prune (t : DirTree N C) (p : List N) : DirTree N C :=
  ⟨t.entries.filter fun e => decide (¬ p <+: e.1)⟩

/-- Where a path lies once `src` has become `dst`. -/
def rebase (src dst p : List N) : List N :=
  if src <+: p then dst ++ p.drop src.length else p

/-- The tree with the subtree at `src` moved to `dst`. -/
def move (t : DirTree N C) (src dst : List N) : DirTree N C :=
  ⟨(t.prune dst).entries.map fun e => (rebase src dst e.1, e.2)⟩

/-- The rename system call between two resolved paths. -/
def rename (t : DirTree N C) (src dst : List N) : Except TreeError (DirTree N C) :=
  match t.get? src with
  | none => .error .notFound
  | some node =>
      if src = dst then .ok t
      else if src <+: dst ∨ dst = [] then .error .invalid
      else
        match node, t.get? dst with
        | _, none => if dst <+: src then .error .invalid else .ok (t.move src dst)
        | .dir, some .dir => if t.vacant dst then .ok (t.move src dst) else .error .notEmpty
        | .dir, some (.file _) => .error .notDirectory
        | .file _, some .dir => .error .isDirectory
        | .file _, some (.file _) => if dst <+: src then .error .invalid else .ok (t.move src dst)

/-! ## What each operation does to every path -/

theorem get?_set (t : DirTree N C) (p q : List N) (n : Node C) :
    (t.set p n).get? q = if p = q then some n else t.get? q := rfl

theorem find_filter_key (keep : List N → Bool) (q : List N) (es : List (List N × Node C)) :
    OrderedDict.find q (es.filter fun e => keep e.1) =
      if keep q then OrderedDict.find q es else none := by
  induction es with
  | nil => simp [OrderedDict.find]
  | cons e rest ih =>
      obtain ⟨p, n⟩ := e
      by_cases kept : keep p
      · rw [List.filter_cons_of_pos (by exact kept)]
        by_cases same : p = q
        · subst same
          simp [OrderedDict.find, kept]
        · simp [OrderedDict.find, same, ih]
      · rw [List.filter_cons_of_neg (by exact kept), ih]
        by_cases same : p = q
        · subst same
          simp [kept]
        · simp [OrderedDict.find, same]

theorem get?_prune (t : DirTree N C) (p q : List N) :
    (t.prune p).get? q = if p <+: q then none else t.get? q := by
  rw [get?, prune, find_filter_key fun k => decide (¬ p <+: k)]
  by_cases below : p <+: q
  · simp [below]
  · simp [below, get?]

theorem rebase_below (src dst rest : List N) : rebase src dst (src ++ rest) = dst ++ rest := by
  simp [rebase]

theorem rebase_outside {src dst p : List N} (outside : ¬ src <+: p) :
    rebase src dst p = p := by
  simp [rebase, outside]

theorem find_map_rebase (src dst q : List N) (es : List (List N × Node C))
    (free : ∀ e ∈ es, ¬ dst <+: e.1) :
    OrderedDict.find q (es.map fun e => (rebase src dst e.1, e.2)) =
      if dst <+: q then OrderedDict.find (src ++ q.drop dst.length) es
      else if src <+: q then none else OrderedDict.find q es := by
  induction es with
  | nil => simp [OrderedDict.find]
  | cons e rest ih =>
      obtain ⟨p, n⟩ := e
      have free' := ih fun e he => free e (List.mem_cons_of_mem _ he)
      have pFree : ¬ dst <+: p := free (p, n) List.mem_cons_self
      simp only [List.map_cons, OrderedDict.find, free']
      by_cases inSrc : src <+: p
      · obtain ⟨tail, rfl⟩ := inSrc
        rw [rebase_below]
        by_cases inDst : dst <+: q
        · obtain ⟨tail', rfl⟩ := inDst
          simp
        · have ne : dst ++ tail ≠ q := fun same => inDst (same ▸ List.prefix_append dst tail)
          by_cases below : src <+: q
          · simp [inDst, ne, below]
          · have ne' : src ++ tail ≠ q := fun same => below (same ▸ List.prefix_append src tail)
            simp [inDst, ne, below, ne']
      · rw [rebase_outside inSrc]
        by_cases inDst : dst <+: q
        · have ne : p ≠ q := fun same => pFree (same ▸ inDst)
          have ne' : p ≠ src ++ q.drop dst.length :=
            fun same => inSrc (same ▸ List.prefix_append src _)
          simp [inDst, ne, ne']
        · by_cases below : src <+: q
          · have ne : p ≠ q := fun same => inSrc (same ▸ below)
            simp [inDst, below, ne]
          · simp [inDst, below]

/-- **A move, path by path**: below the target lies what lay below the source,
below the source lies nothing, and every other path reads as before. -/
theorem get?_move (t : DirTree N C) {src dst : List N} (outside : ¬ src <+: dst)
    (outside' : ¬ dst <+: src) (q : List N) :
    (t.move src dst).get? q =
      if dst <+: q then t.get? (src ++ q.drop dst.length)
      else if src <+: q then none else t.get? q := by
  have free : ∀ e ∈ (t.prune dst).entries, ¬ dst <+: e.1 := by
    intro e he
    simpa using (List.mem_filter.mp he).2
  rw [get?, move, find_map_rebase src dst q _ free]
  have pruned : ∀ p, OrderedDict.find p (t.prune dst).entries = if dst <+: p then none else t.get? p :=
    fun p => get?_prune t dst p
  by_cases inDst : dst <+: q
  · have apart : ¬ dst <+: src ++ q.drop dst.length := fun below =>
      Or.elim (List.prefix_or_prefix_of_prefix below (List.prefix_append src _)) outside' outside
    simp [inDst, pruned, apart]
  · simp [inDst, pruned]

/-! ## Resolution -/

/-- Every name on the way is accepted and every directory on the way exists. -/
theorem resolve_append (legal : N → Bool) (t : DirTree N C) (here : List N) (l r : List (Hop N)) :
    resolve legal t here (l ++ r) =
      match resolve legal t here l with
      | .ok mid => resolve legal t mid r
      | .error e => .error e := by
  induction l generalizing here with
  | nil => rfl
  | cons hop rest ih =>
      cases hop with
      | up => simpa [resolve] using ih here.dropLast
      | into name =>
          simp only [List.cons_append, resolve]
          split
          · split <;> simp_all
          · rfl

/-- Resolution sees only which directories exist. -/
theorem resolve_congr (legal : N → Bool) {t t' : DirTree N C} {here end_ : List N}
    {hops : List (Hop N)}
    (kept : ∀ p, t.get? p = some .dir → t'.get? p = some .dir)
    (walked : resolve legal t here hops = .ok end_) : resolve legal t' here hops = .ok end_ := by
  induction hops generalizing here with
  | nil => exact walked
  | cons hop rest ih =>
      cases hop with
      | up => exact ih walked
      | into name =>
          simp only [resolve] at walked ⊢
          split at walked
          · rename_i accepted
            split at walked
            · rename_i isDir
              rw [if_pos accepted, kept _ isDir]
              exact ih walked
            · cases walked
            · cases walked
          · cases walked

/-! ## Renames -/

/-- An accepted rename of a directory to another place is a move to a place
outside it. -/
theorem rename_ok {t t' : DirTree N C} {src dst : List N} (ne : src ≠ dst)
    (isDir : t.get? src = some .dir) (done : t.rename src dst = .ok t') :
    t' = t.move src dst ∧ ¬ src <+: dst ∧ ¬ dst <+: src := by
  simp only [rename, isDir, if_neg ne] at done
  split at done
  · cases done
  · rename_i guard
    rw [not_or] at guard
    cases target : t.get? dst with
    | none =>
        simp only [target] at done
        split at done
        · cases done
        · rename_i apart
          exact ⟨(Except.ok.inj done).symm, guard.1, apart⟩
    | some node =>
        cases node with
        | file content => simp [target] at done
        | dir =>
            simp only [target] at done
            split at done
            · rename_i vacant
              refine ⟨(Except.ok.inj done).symm, guard.1, ?_⟩
              intro below
              -- the source is itself an entry strictly below a vacant target
              have listed : ∃ n, (src, n) ∈ t.entries := by
                by_contra none
                push Not at none
                have : src ∉ t.entries.map Prod.fst := by
                  rintro mem
                  obtain ⟨e, he, rfl⟩ := List.mem_map.mp mem
                  exact none e.2 he
                rw [get?, OrderedDict.find_eq_none_iff.mpr this] at isDir
                cases isDir
              obtain ⟨n, mem⟩ := listed
              exact ne (of_decide_eq_true (List.all_eq_true.mp vacant (src, n) mem) below)
            · cases done

/-- A rename to a path without an entry, clear of the source, is accepted. -/
theorem rename_fresh {t : DirTree N C} {src dst : List N} {n : Node C} (there : t.get? src = some n)
    (fresh : t.get? dst = none) (below : ¬ src <+: dst) (above : ¬ dst <+: src) :
    t.rename src dst = .ok (t.move src dst) := by
  have ne : src ≠ dst := fun same => below (same ▸ List.prefix_refl src)
  have root : dst ≠ [] := fun empty => above (empty ▸ List.nil_prefix)
  cases n <;> simp [rename, there, ne, fresh, below, above, root]

end DirTree

end KoyuRuntime.Theory
