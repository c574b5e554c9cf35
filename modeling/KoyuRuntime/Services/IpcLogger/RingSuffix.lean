/-
# Services.IpcLogger.RingSuffix — what a ring of frames holds

A save evicts by the directory it finds.  In a directory that starts empty this comes
to the same as looking at all images ever saved.

* `saved_longest`: one save leaves the longest suffix of the listing that is within the cap.
* `Keeps`: the files are the longest suffix of all images saved so far.
* `frame_ring_keeps`: so it is after every save; and over any directory the cap holds.
-/
import KoyuRuntime.Services.IpcLogger.FrameRing
import KoyuRuntime.Theory.LongestSuffix
import Mathlib.Data.List.Induction

namespace KoyuRuntime.Services.IpcLogger

open Host Theory

set_option autoImplicit false

/-- The files of all saves of one process, in the order of the saves. -/
def savedFiles (sizes : List Nat) : List (String × Image) :=
  sizes.zipIdx.map fun (bytes, i) => (frameName (i + 1), ⟨i, bytes⟩)

/-- A list of files takes at most the cap. -/
def WithinCap (cap : Nat) (files : List (String × Image)) : Prop := totalBytes files ≤ cap

theorem savedFiles_snoc (sizes : List Nat) (bytes : Nat) :
    savedFiles (sizes ++ [bytes]) =
      savedFiles sizes ++ [(frameName (sizes.length + 1), ⟨sizes.length, bytes⟩)] := by
  simp [savedFiles, List.zipIdx_append]

/-- The names of the saved files stay below the next one. -/
theorem savedFiles_below {sizes : List Nat} (few : sizes.length + 1 < 10 ^ 9) {f : String × Image}
    (mem : f ∈ savedFiles sizes) : f.1 < frameName (sizes.length + 1) := by
  obtain ⟨⟨bytes, i⟩, indexed, rfl⟩ := List.mem_map.mp mem
  have earlier : i < sizes.length := by simpa using List.snd_lt_of_mem_zipIdx indexed
  apply frameName_lt few
  omega

theorem totalBytes_append (l r : List (String × Image)) :
    totalBytes (l ++ r) = totalBytes l + totalBytes r := by
  induction l with
  | nil => exact (Nat.zero_add _).symm
  | cons f rest ih =>
      rw [List.cons_append, totalBytes_cons, totalBytes_cons, ih]
      omega

theorem withinCap_heir {cap : Nat} (l : List (String × Image)) (f : String × Image)
    (within : WithinCap cap (l ++ [f])) : WithinCap cap l := by
  unfold WithinCap at within ⊢
  rw [totalBytes_append] at within
  omega

/-! ## The listing -/

/-- A directory's listing is the one order of its files in which the names ascend. -/
theorem listing_eq {files : Frames} {listed : List (String × Image)} (same : files.entries.Perm listed)
    (ascends : listed.Pairwise fun f g => f.1 < g.1) : listing files = listed := by
  apply List.Perm.eq_of_pairwise _ (listing_ascends files) ascends ((perm_listing files).trans same)
  intro f g _ _ before after
  exact absurd before (lt_asymm after)

/-- A file written under a name above all others ends the listing. -/
theorem listing_set {files : Frames} {f : String × Image} (above : ∀ name ∈ files.keys, name < f.1) :
    listing (files.set f.1 f.2) = listing files ++ [f] := by
  have fresh : f.1 ∉ files.keys := fun mem => lt_irrefl _ (above f.1 mem)
  apply listing_eq
  · show (OrderedDict.put f.1 f.2 files.entries).Perm _
    rw [OrderedDict.put_fresh fresh]
    exact (perm_listing files).symm.append_right [f]
  · rw [List.pairwise_append]
    refine ⟨listing_ascends files, List.pairwise_singleton _ _, ?_⟩
    intro g listed last new
    rw [List.mem_singleton.mp new]
    exact above g.1 (List.mem_map_of_mem ((perm_listing files).mem_iff.mp listed))

/-- **One save** leaves the longest suffix of the listing that is within the cap. -/
theorem saved_longest (cap bytes : Nat) (s : State) :
    LongestSuffix (WithinCap cap) (listing (s.written bytes)) (listing (s.saved cap bytes).2.files) := by
  obtain ⟨gone, kept, split, within, stays, -, takes⟩ :=
    evict_spec cap (perm_listing (s.written bytes)).symm
  have ascends := listing_ascends (s.written bytes)
  have listed : listing (s.saved cap bytes).2.files = kept := by
    rw [split] at ascends
    exact listing_eq stays (List.pairwise_append.mp ascends).2.1
  rw [listed, split]
  apply LongestSuffix.of_front within
  intro before f after at_
  exact Nat.not_le_of_lt (takes before f after at_).1

/-! ## Every run -/

/-- The directory holds the longest suffix of the images saved so far. -/
structure Keeps (cap : Nat) (sizes : List Nat) (s : State) : Prop where
  counted : s.ring.n = sizes.length
  serials : s.saves = sizes.length
  longest : LongestSuffix (WithinCap cap) (savedFiles sizes) (listing s.ring.files)

theorem start_keeps (cap : Nat) : Keeps cap [] start := by
  refine ⟨rfl, rfl, List.suffix_rfl, Nat.zero_le _, ?_⟩
  intro other suffix _
  exact suffix.length_le

/-- **One save more.** -/
theorem Keeps.next {cap : Nat} {sizes : List Nat} {s : State} (keeps : Keeps cap sizes s)
    (few : sizes.length + 1 < 10 ^ 9) (bytes : Nat) :
    Keeps cap (sizes ++ [bytes]) ⟨(s.saved cap bytes).2, s.saves + 1⟩ := by
  have fresh : s.fresh bytes = (frameName (sizes.length + 1), ⟨sizes.length, bytes⟩) := by
    rw [State.fresh, keeps.counted, keeps.serials]
  have above : ∀ name ∈ s.ring.files.keys, name < (s.fresh bytes).1 := by
    intro name mem
    obtain ⟨f, inDir, rfl⟩ := List.mem_map.mp mem
    rw [fresh]
    have listed := (perm_listing s.ring.files).mem_iff.mpr inDir
    exact savedFiles_below few (keeps.longest.suffix.subset listed)
  have next := saved_longest cap bytes s
  rw [State.written, listing_set above, fresh] at next
  refine ⟨?_, ?_, ?_⟩
  · show s.ring.n + 1 = _
    rw [keeps.counted, List.length_append, List.length_singleton]
  · show s.saves + 1 = _
    rw [keeps.serials, List.length_append, List.length_singleton]
  · rw [savedFiles_snoc]
    exact keeps.longest.snoc withinCap_heir next

/-- A run of saves and one more. -/
theorem runs_save_snoc {cap : Nat} {s s' : State} {sizes : List Nat} (bytes : Nat)
    (run : runs (step cap) s (sizes.map .save) = .ok s') :
    runs (step cap) s ((sizes ++ [bytes]).map .save) = .ok ⟨(s'.saved cap bytes).2, s'.saves + 1⟩ := by
  rw [List.map_append]
  exact runs_append_ok.mpr ⟨s', run, rfl⟩

/-- A logger that only saves never stops. -/
theorem saves_run (cap : Nat) (s : State) (sizes : List Nat) :
    ∃ s', runs (step cap) s (sizes.map .save) = .ok s' := by
  induction sizes using List.reverseRecOn with
  | nil => exact ⟨s, rfl⟩
  | append_singleton sizes bytes ih =>
      obtain ⟨s', run⟩ := ih
      exact ⟨_, runs_save_snoc bytes run⟩

/-- **The frames of a ring**: after each of fewer than a billion saves into a directory
that was empty, the files are the longest suffix of the images saved that is within the
cap; and after each save over any directory its images are within the cap. -/
theorem frame_ring_keeps (cap : Nat) :
    (∀ sizes : List Nat, sizes.length < 10 ^ 9 →
      ∃ s, runs (step cap) start (sizes.map .save) = .ok s ∧
        LongestSuffix (WithinCap cap) (savedFiles sizes) (listing s.ring.files)) ∧
    ∀ (files : Frames) (saves : Nat) (sizes : List Nat) (bytes : Nat),
      ∃ s, runs (step cap) ⟨.open files, saves⟩ ((sizes ++ [bytes]).map .save) = .ok s ∧
        WithinCap cap (listing s.ring.files) := by
  constructor
  · intro sizes few
    have keeps : ∃ s, runs (step cap) start (sizes.map .save) = .ok s ∧ Keeps cap sizes s := by
      induction sizes using List.reverseRecOn with
      | nil => exact ⟨start, rfl, start_keeps cap⟩
      | append_singleton sizes bytes ih =>
          rw [List.length_append, List.length_singleton] at few
          obtain ⟨s, run, keeps⟩ := ih (by omega)
          exact ⟨_, runs_save_snoc bytes run, keeps.next few bytes⟩
    obtain ⟨s, run, keeps⟩ := keeps
    exact ⟨s, run, keeps.longest⟩
  · intro files saves sizes bytes
    obtain ⟨s, run⟩ := saves_run cap ⟨.open files, saves⟩ sizes
    exact ⟨_, runs_save_snoc bytes run, (saved_longest cap bytes s).fits⟩

/-- Three images of two megabytes: the cap leaves the last two. -/
theorem frame_ring_keeps_three :
    [2000000, 2000000, 2000000].length < 10 ^ 9 ∧
      ∃ s, runs (step frameCap) start ([2000000, 2000000, 2000000].map .save) = .ok s ∧
        LongestSuffix (WithinCap frameCap) (savedFiles [2000000, 2000000, 2000000])
          (listing s.ring.files) :=
  ⟨by decide, (frame_ring_keeps frameCap).1 [2000000, 2000000, 2000000] (by decide)⟩

end KoyuRuntime.Services.IpcLogger
