/-
# Theory.RotatingLog — a log in files of bounded size, the oldest of which are dropped

An entry that would fill the current file to its cap is written to a new one; the files before
are kept as backups, up to a number of them.

* `retained_suffix`: what the files hold, in order, is a suffix of all that was written.
* `bounded_emits`: no file reaches the cap, unless a single entry does.
* `recent_retained`: where no entry is larger than `L`, the last `keep * (cap - L)` of what was
  written are in the files, whatever was in them at first.
-/
import Mathlib.Algebra.BigOperators.Group.List.Basic
import Mathlib.Algebra.Ring.Nat

namespace KoyuRuntime.Theory

set_option autoImplicit false

universe u

variable {α : Type u}

/-- The current file, and the backups, the newest first. -/
structure RotatingLog (α : Type u) where
  current : List α
  backups : List (List α)

namespace RotatingLog

def empty : RotatingLog α := ⟨[], []⟩

/-- What the files hold, the oldest first. -/
def retained (log : RotatingLog α) : List α := log.backups.reverse.flatten ++ log.current

end RotatingLog

/-- When a file is full, and how many are kept. -/
structure Rotation (α : Type u) where
  size : α → Nat
  cap : Nat
  keep : Nat
  /-- Is an empty file put aside as well, for an entry as large as the cap? -/
  rollsEmpty : Bool

namespace Rotation

variable (r : Rotation α)

/-- The size of a file, or of some entries. -/
def weight (entries : List α) : Nat := (entries.map r.size).sum

def full (log : RotatingLog α) (entry : α) : Bool :=
  decide (r.cap ≤ r.weight log.current + r.size entry) && (r.rollsEmpty || decide (r.weight log.current ≠ 0))

def rollover (log : RotatingLog α) : RotatingLog α := ⟨[], (log.current :: log.backups).take r.keep⟩

def emit (log : RotatingLog α) (entry : α) : RotatingLog α :=
  let log := if r.full log entry then r.rollover log else log
  { log with current := log.current ++ [entry] }

def emits (log : RotatingLog α) (entries : List α) : RotatingLog α := entries.foldl r.emit log

variable {r} {log : RotatingLog α} {entry : α} {entries : List α}

@[simp] theorem weight_append (l l' : List α) : r.weight (l ++ l') = r.weight l + r.weight l' := by
  simp [weight]

theorem weight_le_of_suffix {l l' : List α} (suffix : l <:+ l') : r.weight l ≤ r.weight l' := by
  obtain ⟨front, rfl⟩ := suffix
  rw [weight_append]
  exact Nat.le_add_left _ _

theorem weight_flatten_le {files : List (List α)} {n : Nat} (each : ∀ file ∈ files, n ≤ r.weight file) :
    files.length * n ≤ r.weight files.flatten := by
  induction files with
  | nil => simp
  | cons file rest ih =>
      have here := each file List.mem_cons_self
      have later := ih fun f mem => each f (List.mem_cons_of_mem file mem)
      rw [List.flatten_cons, weight_append, List.length_cons, Nat.add_mul]
      omega

/-! ## A suffix of the history -/

theorem retained_rollover : (r.rollover log).retained <:+ log.retained := by
  have kept : ((log.current :: log.backups).take r.keep).reverse.flatten <:+
      (log.current :: log.backups).reverse.flatten := by
    refine ⟨((log.current :: log.backups).drop r.keep).reverse.flatten, ?_⟩
    rw [← List.flatten_append, ← List.reverse_append, List.take_append_drop]
  simpa [rollover, RotatingLog.retained] using kept

theorem retained_emit : (r.emit log entry).retained <:+ log.retained ++ [entry] := by
  have added : ∀ l : RotatingLog α, ({ l with current := l.current ++ [entry] } : RotatingLog α).retained =
      l.retained ++ [entry] := fun l => (List.append_assoc _ _ _).symm
  unfold emit
  rw [added]
  refine List.suffix_concat_iff.mpr (.inr ⟨_, rfl, ?_⟩)
  split
  · exact retained_rollover
  · exact List.suffix_refl _

/-- **Contiguous**: what the files hold is a suffix of all that was written. -/
theorem retained_suffix (entries : List α) : (r.emits log entries).retained <:+ log.retained ++ entries := by
  induction entries generalizing log with
  | nil => simp [emits]
  | cons entry rest ih =>
      obtain ⟨front, same⟩ : (r.emit log entry).retained <:+ log.retained ++ [entry] := retained_emit
      have later : (r.emits (r.emit log entry) rest).retained <:+ _ := ih
      refine later.trans ⟨front, ?_⟩
      rw [← List.append_assoc, same, List.append_assoc]
      rfl

/-! ## The size of a file -/

/-- A file below the cap, or of one entry. -/
def Bounded (r : Rotation α) (file : List α) : Prop := r.weight file < r.cap ∨ file.length ≤ 1

/-- Every file of the log is. -/
structure AllBounded (r : Rotation α) (log : RotatingLog α) : Prop where
  current : r.Bounded log.current
  backups : ∀ file ∈ log.backups, r.Bounded file
  count : log.backups.length ≤ r.keep

theorem allBounded_empty : r.AllBounded .empty := ⟨.inr (Nat.zero_le 1), nofun, Nat.zero_le _⟩

theorem allBounded_emit (positive : ∀ e, 0 < r.size e) (all : r.AllBounded log) :
    r.AllBounded (r.emit log entry) := by
  unfold emit
  by_cases rolls : r.full log entry = true
  · rw [if_pos rolls]
    refine ⟨.inr (Nat.le_refl 1), ?_, List.length_take_le _ _⟩
    intro file mem
    rcases List.mem_cons.mp (List.mem_of_mem_take mem) with rfl | old
    · exact all.current
    · exact all.backups file old
  · rw [if_neg rolls]
    refine ⟨?_, all.backups, all.count⟩
    show r.Bounded (log.current ++ [entry])
    by_cases fits : r.weight log.current + r.size entry < r.cap
    · left
      rw [weight_append]
      simpa [weight] using fits
    · -- the entry does not fit, so the file was empty
      right
      simp only [full, Bool.and_eq_true, decide_eq_true_eq, Bool.or_eq_true, not_and, not_or] at rolls
      have light : r.weight log.current = 0 := by
        simpa using (rolls (Nat.le_of_not_lt fits)).2
      cases file : log.current with
      | nil => exact Nat.le_refl 1
      | cons e rest =>
          rw [file] at light
          simp only [weight, List.map_cons, List.sum_cons] at light
          have := positive e
          omega

theorem bounded_emits (positive : ∀ e, 0 < r.size e) (all : r.AllBounded log) (entries : List α) :
    r.AllBounded (r.emits log entries) := by
  induction entries generalizing log with
  | nil => exact all
  | cons entry rest ih => exact ih (allBounded_emit positive all)

/-! ## What is not lost -/

/-- Since the log was opened: the backups made are full up to one entry, and hold with the current
file all that was written, or there are as many of them as are kept. -/
def Covered (r : Rotation α) (L : Nat) (log : RotatingLog α) (entries : List α) : Prop :=
  ∃ fresh old, log.backups = fresh ++ old ∧ (∀ file ∈ fresh, r.cap ≤ r.weight file + L) ∧
    (entries <:+ fresh.reverse.flatten ++ log.current ∨ fresh.length = r.keep)

theorem covered_emit {L : Nat} (small : r.size entry ≤ L) (covered : r.Covered L log entries) :
    r.Covered L (r.emit log entry) (entries ++ [entry]) := by
  obtain ⟨fresh, old, split, full_, held⟩ := covered
  unfold emit
  by_cases rolls : r.full log entry = true
  · rw [if_pos rolls]
    refine ⟨(log.current :: fresh).take r.keep, old.take (r.keep - (log.current :: fresh).length), ?_, ?_, ?_⟩
    · show (log.current :: log.backups).take r.keep = _
      rw [split, ← List.cons_append, List.take_append]
    · intro file mem
      rcases List.mem_cons.mp (List.mem_of_mem_take mem) with rfl | older
      · simp only [full, Bool.and_eq_true, decide_eq_true_eq] at rolls
        have := rolls.1
        omega
      · exact full_ file older
    · by_cases room : (log.current :: fresh).length ≤ r.keep
      · rw [List.take_of_length_le room]
        left
        rcases held with suffix | all
        · show entries ++ [entry] <:+ (log.current :: fresh).reverse.flatten ++ ([] ++ [entry])
          refine List.suffix_concat_iff.mpr (.inr ⟨entries, rfl, ?_⟩)
          simpa using suffix
        · rw [List.length_cons] at room
          omega
      · right
        rw [List.length_take]
        omega
  · rw [if_neg rolls]
    refine ⟨fresh, old, split, full_, ?_⟩
    rcases held with suffix | all
    · left
      show entries ++ [entry] <:+ fresh.reverse.flatten ++ (log.current ++ [entry])
      rw [← List.append_assoc]
      exact List.suffix_concat_iff.mpr (.inr ⟨entries, rfl, suffix⟩)
    · exact .inr all

theorem covered_emits {L : Nat} (log : RotatingLog α) (entries : List α) (small : ∀ e ∈ entries, r.size e ≤ L) :
    r.Covered L (r.emits log entries) entries := by
  have base : r.Covered L log [] := ⟨[], log.backups, rfl, nofun, .inl (List.nil_suffix)⟩
  suffices ∀ before (l : RotatingLog α), r.Covered L l before → r.Covered L (r.emits l entries) (before ++ entries) from
    this [] log base
  clear base
  induction entries with
  | nil => exact fun before l covered => by rwa [List.append_nil]
  | cons entry rest ih =>
      intro before l covered
      have next := covered_emit (small entry List.mem_cons_self) covered
      have later := ih (fun e mem => small e (List.mem_cons_of_mem entry mem)) _ _ next
      rwa [List.append_assoc] at later

/-- **Recent entries are there**: of what was written since the log was opened, as much as the
kept backups hold for certain. -/
theorem recent_retained {L : Nat} (positive : ∀ e, 0 < r.size e) (log : RotatingLog α) (entries : List α)
    (small : ∀ e ∈ entries, r.size e ≤ L) {recent : List α} (suffix : recent <:+ entries)
    (light : r.weight recent ≤ r.keep * (r.cap - L)) : recent <:+ (r.emits log entries).retained := by
  obtain ⟨fresh, old, split, full_, held⟩ := covered_emits log entries small
  have inside : fresh.reverse.flatten ++ (r.emits log entries).current <:+ (r.emits log entries).retained := by
    refine ⟨old.reverse.flatten, ?_⟩
    rw [RotatingLog.retained, split, List.reverse_append, List.flatten_append, List.append_assoc]
  rcases held with all | many
  · exact (suffix.trans all).trans inside
  · -- both are suffixes of what was ever in the log, and the shorter is not the lighter
    have whole : recent <:+ log.retained ++ entries := suffix.trans (List.suffix_append _ _)
    rcases List.suffix_or_suffix_of_suffix whole (retained_suffix (r := r) entries) with shorter | longer
    · exact shorter
    · obtain ⟨front, same⟩ := longer
      have heavy : r.keep * (r.cap - L) ≤ r.weight (r.emits log entries).retained := by
        have files : fresh.reverse.length * (r.cap - L) ≤ r.weight fresh.reverse.flatten := by
          refine weight_flatten_le fun file mem => ?_
          have := full_ file (List.mem_reverse.mp mem)
          omega
        rw [List.length_reverse, many] at files
        have there := weight_le_of_suffix (r := r) inside
        rw [weight_append] at there
        omega
      have none_ : front = [] := by
        rw [← same, weight_append] at light
        cases front with
        | nil => rfl
        | cons e rest =>
            have := positive e
            simp only [weight, List.map_cons, List.sum_cons] at light heavy
            omega
      rw [none_, List.nil_append] at same
      exact same ▸ List.suffix_refl recent

end Rotation

end KoyuRuntime.Theory
