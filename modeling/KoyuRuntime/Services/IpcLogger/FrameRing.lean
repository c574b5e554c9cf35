/-
# Services.IpcLogger.FrameRing — the ring of logged frames

`FrameRing` keeps the JPEGs of a topic below a cap of bytes.  The age of an image is
only in its name: the counter behind the names lives in the process, the directory
survives it.  `koyu frame` prints the last name of the directory.

* `evict_spec`: the eviction loop takes a front of the listing and stops at the cap.
* `Ordered`: the names are in the order the images were saved in.
* `newest_shown_iff`: the image saved last is the one shown, and the oldest are evicted,
  exactly as long as no image in the directory sorts after the name the next one gets.
* `first_run`: a counter that starts over an empty directory keeps ahead of the names.
-/
import KoyuRuntime.Theory.OrderedDict
import KoyuRuntime.Theory.Transition
import KoyuRuntime.Host.Decimal
import Mathlib.Data.List.Sort

namespace KoyuRuntime.Services.IpcLogger

open Host Theory

set_option autoImplicit false

/-- An image: which save of the run it comes from, and the size of its file. -/
structure Image where
  serial : Nat
  bytes : Nat
  deriving DecidableEq, Repr

/-- The `*.jpg` files of a directory. -/
abbrev Frames := OrderedDict String Image

/-- `FRAME_CAP`: bytes per topic. -/
def frameCap : Nat := 5000000

/-- `f"{n:09d}.jpg"`. -/
def frameName (n : Nat) : String := String.ofList (zeroPadded 9 n ++ ".jpg".toList)

/-- `sorted(dir.glob("*.jpg"))`. -/
def listing (files : Frames) : List (String × Image) :=
  files.entries.insertionSort fun f g => f.1 ≤ g.1

/-- `sum(f.stat().st_size for f in files)`. -/
def totalBytes : List (String × Image) → Nat
  | [] => 0
  | f :: rest => f.2.bytes + totalBytes rest

/-- An unlinked image, and the files it leaves behind. -/
structure Eviction where
  image : Image
  left : Frames

/-- The eviction loop of `save`. -/
def evict (cap : Nat) : Nat → List (String × Image) → Frames → List Eviction × Frames
  | _, [], files => ([], files)
  | total, f :: rest, files =>
      if cap < total then
        let left := files.erase f.1
        let (evictions, files) := evict cap (total - f.2.bytes) rest left
        (⟨f.2, left⟩ :: evictions, files)
      else ([], files)

/-- A `FrameRing`: its counter, and its directory. -/
structure Ring where
  n : Nat
  files : Frames

/-- `FrameRing.__init__` on a directory that may hold images. -/
def Ring.open (files : Frames) : Ring := ⟨0, files⟩

/-- `FrameRing.save`, with the images it evicts. -/
def Ring.save (cap : Nat) (image : Image) (r : Ring) : List Eviction × Ring :=
  let n := r.n + 1
  let files := r.files.set (frameName n) image
  let listed := listing files
  let (evictions, files) := evict cap (totalBytes listed) listed files
  (evictions, ⟨n, files⟩)

/-- `_cmd_frame`: the name it prints, unless there are no frames. -/
def cmdFrame (files : Frames) : Option String := (listing files).getLast?.map Prod.fst

/-! ## The logger's runs -/

/-- The topic's ring, and how many images were saved so far. -/
structure State where
  ring : Ring
  saves : Nat

inductive Action where
  /-- An image whose JPEG has this size. -/
  | save (bytes : Nat)
  /-- A new process, on the same directory. -/
  | restart
  deriving DecidableEq, Repr

/-- The ring after the next image was saved. -/
def State.saved (cap bytes : Nat) (s : State) : List Eviction × Ring :=
  s.ring.save cap ⟨s.saves, bytes⟩

def step (cap : Nat) (s : State) : Action → Except Empty State
  | .save bytes => .ok ⟨(s.saved cap bytes).2, s.saves + 1⟩
  | .restart => .ok ⟨.open s.ring.files, s.saves⟩

/-- The logger's first start: the directory was just made. -/
def start : State := ⟨.open ∅, 0⟩

/-- A save does what it is for: an image that fits is the one shown, the evicted ones are
older than all that stay, and the new one is among them only if it alone is too big. -/
structure Newest (cap bytes : Nat) (s : State) : Prop where
  shown : bytes ≤ cap → (cmdFrame (s.saved cap bytes).2.files).bind (s.saved cap bytes).2.files.get? =
    some ⟨s.saves, bytes⟩
  oldest : ∀ e ∈ (s.saved cap bytes).1, ∀ g ∈ e.left.entries, e.image.serial < g.2.serial
  own : ∀ e ∈ (s.saved cap bytes).1, e.image.serial = s.saves → cap < bytes

def ShowsNewest (cap : Nat) (s : State) : Action → Prop
  | .save bytes => Newest cap bytes s
  | .restart => True

/-- No image in the directory sorts after the name the new one gets. -/
def AheadOfNames (s : State) : Action → Prop
  | .save _ => ∀ name ∈ s.ring.files.keys, name ≤ frameName (s.ring.n + 1)
  | .restart => True

/-! ## The listing -/

theorem perm_listing (files : Frames) : (listing files).Perm files.entries :=
  List.perm_insertionSort _ _

/-- File names are distinct, so a listing ascends. -/
theorem listing_ascends (files : Frames) : (listing files).Pairwise fun f g => f.1 < g.1 := by
  have names : (listing files).map Prod.fst = files.keys.insertionSort (· ≤ ·) :=
    List.map_insertionSort _ _ Prod.fst files.entries fun _ _ _ _ => Iff.rfl
  have sorted : ((listing files).map Prod.fst).Pairwise (· ≤ ·) := by
    rw [names]
    exact List.pairwise_insertionSort _ _
  have distinct : ((listing files).map Prod.fst).Nodup :=
    ((perm_listing files).map Prod.fst).nodup_iff.mpr files.nodup
  exact List.pairwise_map.mp ((sorted.and distinct).imp fun both => lt_of_le_of_ne both.1 both.2)

/-- `koyu frame` prints the name nothing sorts after. -/
theorem cmdFrame_spec {files : Frames} {f : String × Image} (there : f ∈ files.entries) :
    ∃ last ∈ files.entries, (cmdFrame files).bind files.get? = some last.2 ∧
      ∀ g ∈ files.entries, g.1 ≤ last.1 := by
  have listed : ∀ g, g ∈ listing files ↔ g ∈ files.entries := fun g => (perm_listing files).mem_iff
  have some_ : listing files ≠ [] := List.ne_nil_of_mem ((listed f).mpr there)
  have split := List.dropLast_append_getLast some_
  have ascends := listing_ascends files
  have inDir := (listed _).mp (List.getLast_mem some_)
  refine ⟨(listing files).getLast some_, inDir, ?_, ?_⟩
  · rw [cmdFrame, List.getLast?_eq_getLast_of_ne_nil some_]
    exact OrderedDict.get?_of_mem inDir
  · intro g mem
    rw [← split] at ascends
    rcases List.mem_append.mp (split.symm ▸ (listed g).mpr mem) with front | back
    · exact ((List.pairwise_append.mp ascends).2.2 g front _ List.mem_cons_self).le
    · exact (congrArg Prod.fst (List.mem_singleton.mp back)).le

theorem totalBytes_cons (f : String × Image) (rest : List (String × Image)) :
    totalBytes (f :: rest) = f.2.bytes + totalBytes rest := rfl

theorem bytes_le_totalBytes {f : String × Image} {listed : List (String × Image)} (mem : f ∈ listed) :
    f.2.bytes ≤ totalBytes listed := by
  induction listed with
  | nil => cases mem
  | cons g rest ih =>
    rw [totalBytes_cons]
    rcases List.mem_cons.mp mem with rfl | later
    · exact Nat.le_add_right _ _
    · have := ih later
      omega

/-! ## The loop -/

/-- **The eviction loop** over a listing of the directory: a front of it goes, each image
while what is there exceeds the cap; the rest stays and is within the cap. -/
theorem evict_spec (cap : Nat) {files : Frames} {listed : List (String × Image)}
    (same : files.entries.Perm listed) :
    ∃ gone kept, listed = gone ++ kept ∧ totalBytes kept ≤ cap ∧
      (evict cap (totalBytes listed) listed files).2.entries.Perm kept ∧
      (∀ e ∈ (evict cap (totalBytes listed) listed files).1, ∃ before f after,
        gone = before ++ f :: after ∧ e.image = f.2 ∧ e.left.entries.Perm (after ++ kept)) ∧
      ∀ before f after, gone = before ++ f :: after → cap < totalBytes (f :: (after ++ kept)) ∧
        ∃ e ∈ (evict cap (totalBytes listed) listed files).1,
          e.image = f.2 ∧ e.left.entries.Perm (after ++ kept) := by
  induction listed generalizing files with
  | nil => exact ⟨[], [], rfl, Nat.zero_le _, same, by simp [evict], by simp⟩
  | cons f rest ih =>
      by_cases exceeds : cap < totalBytes (f :: rest)
      swap
      · refine ⟨[], f :: rest, rfl, Nat.le_of_not_lt exceeds, ?_, ?_, by simp⟩
        · rw [evict, if_neg exceeds]
          exact same
        · simp [evict, exceeds]
      have left : (files.erase f.1).entries.Perm rest := OrderedDict.perm_erase same
      obtain ⟨gone, kept, split, fits, stays, taken, takes⟩ := ih left
      have total : totalBytes (f :: rest) - f.2.bytes = totalBytes rest := by
        rw [totalBytes_cons]
        omega
      simp only [evict, if_pos exceeds, total]
      refine ⟨f :: gone, kept, by rw [split, List.cons_append], fits, stays, ?_, ?_⟩
      · intro e mem
        rcases List.mem_cons.mp mem with rfl | later
        · exact ⟨[], f, gone, rfl, rfl, split ▸ left⟩
        · obtain ⟨before, g, after, at_, image, after'⟩ := taken e later
          exact ⟨f :: before, g, after, by rw [at_, List.cons_append], image, after'⟩
      · intro before g after at_
        cases before with
        | nil =>
            cases at_
            exact ⟨split ▸ exceeds, _, List.mem_cons_self, rfl, split ▸ left⟩
        | cons first before =>
            rw [List.cons_append, List.cons.injEq] at at_
            obtain ⟨more, e, mem, facts⟩ := takes before g after at_.2
            exact ⟨more, e, List.mem_cons_of_mem _ mem, facts⟩

/-! ## One save -/

/-- The names are in the order the images were saved in, and all of them have been. -/
structure Ordered (s : State) : Prop where
  ages : ∀ f ∈ s.ring.files.entries, ∀ g ∈ s.ring.files.entries, f.1 < g.1 → f.2.serial < g.2.serial
  saved : ∀ f ∈ s.ring.files.entries, f.2.serial < s.saves

/-- The file of the next save. -/
def State.fresh (bytes : Nat) (s : State) : String × Image :=
  (frameName (s.ring.n + 1), ⟨s.saves, bytes⟩)

/-- The directory once it is written, and not yet cut back. -/
def State.written (bytes : Nat) (s : State) : Frames :=
  s.ring.files.set (s.fresh bytes).1 (s.fresh bytes).2

section Save

variable {cap bytes : Nat} {s : State}

theorem mem_written {f : String × Image} :
    f ∈ (s.written bytes).entries ↔
      f = s.fresh bytes ∨ f ∈ s.ring.files.entries ∧ f.1 ≠ (s.fresh bytes).1 :=
  OrderedDict.mem_entries_set

/-- A save takes a front of the listing with the new file in it, and leaves the rest. -/
theorem saved_spec (cap bytes : Nat) (s : State) :
    ∃ gone kept, (∀ f, f ∈ gone ++ kept ↔ f ∈ (s.written bytes).entries) ∧
      (gone ++ kept).Pairwise (fun f g => f.1 < g.1) ∧ totalBytes kept ≤ cap ∧
      (s.saved cap bytes).2.files.entries.Perm kept ∧
      (∀ e ∈ (s.saved cap bytes).1, ∃ before f after,
        gone = before ++ f :: after ∧ e.image = f.2 ∧ e.left.entries.Perm (after ++ kept)) ∧
      ∀ before f after, gone = before ++ f :: after → cap < totalBytes (f :: (after ++ kept)) ∧
        ∃ e ∈ (s.saved cap bytes).1, e.image = f.2 ∧ e.left.entries.Perm (after ++ kept) := by
  obtain ⟨gone, kept, split, facts⟩ := evict_spec cap (perm_listing (s.written bytes)).symm
  refine ⟨gone, kept, fun f => ?_, ?_, facts⟩
  · rw [← split, (perm_listing _).mem_iff]
  · rw [← split]
    exact listing_ascends (s.written bytes)

theorem Ordered.fresh_of_serial (ordered : Ordered s) {f : String × Image}
    (mem : f ∈ (s.written bytes).entries) (serial : f.2.serial = s.saves) : f = s.fresh bytes := by
  rcases mem_written.mp mem with new | ⟨old, -⟩
  · exact new
  · have older := ordered.saved f old
    omega

/-- A file that sorts after the new one is an older image. -/
theorem Ordered.older_of_after (ordered : Ordered s) {f : String × Image}
    (mem : f ∈ (s.written bytes).entries) (after : (s.fresh bytes).1 < f.1) : f.2.serial < s.saves := by
  rcases mem_written.mp mem with rfl | ⟨old, -⟩
  · exact absurd after (lt_irrefl _)
  · exact ordered.saved f old

/-- **A save that fails**: an image that sorts after the new name is shown in its place,
or stays behind when the new one goes. -/
theorem not_newest_of_after (ordered : Ordered s) {g : String × Image}
    (mem : g ∈ (s.written bytes).entries) (after : (s.fresh bytes).1 < g.1) : ¬ Newest cap bytes s := by
  intro newest
  obtain ⟨gone, kept, inListing, ascends, fits, stays, -, takes⟩ := saved_spec cap bytes s
  have older := ordered.older_of_after mem after
  have there : s.fresh bytes ∈ gone ++ kept := (inListing _).mpr (mem_written.mpr (Or.inl rfl))
  rcases List.mem_append.mp there with inGone | inKept
  · -- the new image goes, and the older one is left
    obtain ⟨before, later, at_⟩ := List.append_of_mem inGone
    obtain ⟨-, e, evicted, image, left⟩ := takes before _ later at_
    rw [at_, List.append_assoc, List.cons_append] at ascends inListing
    have stays' : g ∈ later ++ kept := by
      rcases List.mem_append.mp ((inListing g).mpr mem) with front | back
      · have earlier := (List.pairwise_append.mp ascends).2.2 g front _ List.mem_cons_self
        exact absurd earlier (lt_asymm after)
      · rcases List.mem_cons.mp back with rfl | rest
        · exact absurd after (lt_irrefl _)
        · exact rest
    have newer := newest.oldest e evicted g (left.mem_iff.mpr stays')
    rw [image] at newer
    exact absurd newer (lt_asymm older)
  · -- the new image stays, and the last name is another one's
    have small : bytes ≤ cap := (bytes_le_totalBytes inKept).trans fits
    have shown := newest.shown small
    have isLast : ∀ f, f ∈ (s.saved cap bytes).2.files.entries ↔ f ∈ kept := fun f => stays.mem_iff
    obtain ⟨last, inDir, prints, top⟩ := cmdFrame_spec ((isLast _).mpr inKept)
    rw [prints, Option.some.injEq] at shown
    have new : last = s.fresh bytes :=
      ordered.fresh_of_serial ((inListing _).mp (List.mem_append_right _ ((isLast _).mp inDir)))
        (congrArg Image.serial shown)
    have inKept' : g ∈ kept := by
      rcases List.mem_append.mp ((inListing g).mpr mem) with front | back
      · exact absurd ((List.pairwise_append.mp ascends).2.2 g front _ inKept) (lt_asymm after)
      · exact back
    have below := top g ((isLast g).mpr inKept')
    rw [new] at below
    exact absurd after (not_lt_of_ge below)

/-- With the new name in front of all others, nothing sorts after the new image. -/
theorem AheadOfNames.top (ahead : AheadOfNames s (.save bytes)) {f : String × Image}
    (mem : f ∈ (s.written bytes).entries) : f.1 ≤ (s.fresh bytes).1 := by
  rcases mem_written.mp mem with rfl | ⟨old, -⟩
  · exact le_rfl
  · exact ahead f.1 (List.mem_map_of_mem old)

theorem AheadOfNames.ages (ahead : AheadOfNames s (.save bytes)) (ordered : Ordered s)
    {f g : String × Image} (memF : f ∈ (s.written bytes).entries)
    (memG : g ∈ (s.written bytes).entries) (before : f.1 < g.1) : f.2.serial < g.2.serial := by
  rcases mem_written.mp memF with rfl | ⟨oldF, -⟩
  · exact absurd before (not_lt_of_ge (ahead.top memG))
  · rcases mem_written.mp memG with rfl | ⟨oldG, -⟩
    · exact ordered.saved f oldF
    · exact ordered.ages f oldF g oldG before

/-- **A save that succeeds**: with the new name in front of all others, ages ascend along
the listing, and the new image ends it. -/
theorem newest_of_ahead (ordered : Ordered s) (ahead : AheadOfNames s (.save bytes)) :
    Newest cap bytes s := by
  obtain ⟨gone, kept, inListing, ascends, -, stays, taken, takes⟩ := saved_spec cap bytes s
  -- nothing stands behind the new image, so only its own size can make it go
  have alone : ∀ before f after, gone = before ++ f :: after → f = s.fresh bytes → cap < bytes := by
    rintro before f after at_ rfl
    obtain ⟨exceeds, -⟩ := takes before _ after at_
    rw [at_, List.append_assoc, List.cons_append] at ascends inListing
    have later := (List.pairwise_cons.mp (List.pairwise_append.mp ascends).2.1).1
    have nothing : after ++ kept = [] := by
      rw [List.eq_nil_iff_forall_not_mem]
      intro g mem
      have inDir := (inListing g).mp (List.mem_append_right _ (List.mem_cons_of_mem _ mem))
      exact absurd (later g mem) (not_lt_of_ge (ahead.top inDir))
    rwa [nothing] at exceeds
  constructor
  · intro small
    have there : s.fresh bytes ∈ gone ++ kept := (inListing _).mpr (mem_written.mpr (Or.inl rfl))
    rcases List.mem_append.mp there with inGone | inKept
    · obtain ⟨before, after, at_⟩ := List.append_of_mem inGone
      exact absurd (alone before _ after at_ rfl) (Nat.not_lt_of_le small)
    · have isLast : ∀ f, f ∈ (s.saved cap bytes).2.files.entries ↔ f ∈ kept := fun f => stays.mem_iff
      obtain ⟨last, inDir, prints, top⟩ := cmdFrame_spec ((isLast _).mpr inKept)
      have inWritten := (inListing last).mp (List.mem_append_right _ ((isLast _).mp inDir))
      have new : last = s.fresh bytes := by
        rcases mem_written.mp inWritten with same | ⟨-, other⟩
        · exact same
        · exact absurd (le_antisymm (ahead.top inWritten) (top _ ((isLast _).mpr inKept))) other
      rw [prints, new]
      rfl
  · intro e mem g inLeft
    obtain ⟨before, f, after, at_, image, left⟩ := taken e mem
    rw [at_, List.append_assoc, List.cons_append] at ascends inListing
    have later := (List.pairwise_cons.mp (List.pairwise_append.mp ascends).2.1).1
    have behind := left.mem_iff.mp inLeft
    rw [image]
    exact ahead.ages ordered ((inListing f).mp (List.mem_append_right _ List.mem_cons_self))
      ((inListing g).mp (List.mem_append_right _ (List.mem_cons_of_mem _ behind))) (later g behind)
  · intro e mem own
    obtain ⟨before, f, after, at_, image, -⟩ := taken e mem
    rw [image] at own
    have inDir := (inListing f).mp (List.mem_append_left _ (at_ ▸ List.mem_append_right _ List.mem_cons_self))
    exact alone before f after at_ (ordered.fresh_of_serial inDir own)

/-- Every file is in the directory from before the cut. -/
theorem mem_written_of_saved {f : String × Image} (mem : f ∈ (s.saved cap bytes).2.files.entries) :
    f ∈ (s.written bytes).entries := by
  obtain ⟨gone, kept, inListing, -, -, stays, -, -⟩ := saved_spec cap bytes s
  exact (inListing f).mp (List.mem_append_right _ (stays.mem_iff.mp mem))

end Save

/-! ## Every run -/

/-- **One step** in which the new name is in front of all others keeps names in order. -/
theorem Ordered.next {cap : Nat} {s s' : State} {a : Action} (ordered : Ordered s)
    (ahead : AheadOfNames s a) (stepped : step cap s a = .ok s') : Ordered s' := by
  cases a with
  | save bytes =>
      cases stepped
      constructor
      · intro f memF g memG before
        exact ahead.ages ordered (mem_written_of_saved memF) (mem_written_of_saved memG) before
      · intro f mem
        rcases mem_written.mp (mem_written_of_saved mem) with rfl | ⟨old, -⟩
        · exact Nat.lt_succ_self s.saves
        · exact Nat.lt_succ_of_lt (ordered.saved f old)
  | restart =>
      cases stepped
      exact ⟨ordered.ages, ordered.saved⟩

theorem shows_iff_ahead (cap : Nat) {s : State} (ordered : Ordered s) (a : Action) :
    ShowsNewest cap s a ↔ AheadOfNames s a := by
  cases a with
  | save bytes =>
      refine ⟨fun newest name mem => ?_, newest_of_ahead ordered⟩
      by_contra after
      obtain ⟨g, inDir, rfl⟩ := List.mem_map.mp mem
      have after' : (s.fresh bytes).1 < g.1 := lt_of_not_ge after
      exact not_newest_of_after ordered (mem_written.mpr (Or.inr ⟨inDir, after'.ne'⟩)) after' newest
  | restart => exact Iff.rfl

theorem start_ordered : Ordered start :=
  ⟨fun _ none_ => (List.not_mem_nil none_).elim, fun _ none_ => (List.not_mem_nil none_).elim⟩

/-- **The newest frame**: in a run of saves and restarts every save shows the newest
frame and evicts the oldest, exactly if at every save the counter is ahead of the names. -/
theorem newest_shown_iff (cap : Nat) (actions : List Action) :
    Along (step cap) (ShowsNewest cap) start actions ↔ Along (step cap) AheadOfNames start actions :=
  along_iff_of_kept (fun _ a ordered => shows_iff_ahead cap ordered a)
    (fun _ _ _ ordered ahead stepped => ordered.next ahead stepped) start_ordered actions

/-- Two images fill a directory; the restarted logger saves a third one under the first
name, and the second one stays the last. -/
def Demo.restarted : List Action := [.save 10, .save 10, .restart, .save 10]

/-- After a restart the frame shown is not the newest. -/
theorem newest_hidden : ¬ Along (step frameCap) (ShowsNewest frameCap) start Demo.restarted := by
  intro along
  obtain ⟨-, rest⟩ := along
  obtain ⟨-, rest⟩ := rest _ rfl
  obtain ⟨-, rest⟩ := rest _ rfl
  obtain ⟨newest, -⟩ := rest _ rfl
  exact absurd (newest.shown (by decide)) (by decide +kernel)

/-! ## Without restarts -/

theorem frameName_lt {m n : Nat} (fits : n < 10 ^ (8 + 1)) (less : m < n) : frameName m < frameName n := by
  have padded := zeroPadded_lt fits less
  have same := (length_zeroPadded (less.trans fits)).trans (length_zeroPadded fits).symm
  have texts (k : Nat) : (frameName k).toList = zeroPadded (8 + 1) k ++ ".jpg".toList :=
    String.toList_ofList
  rw [String.lt_iff_toList_lt, texts, texts]
  exact lt_append same padded _ _

/-- Every name is that of an earlier count. -/
def Numbered (s : State) : Prop := ∀ name ∈ s.ring.files.keys, ∃ k ≤ s.ring.n, name = frameName k

theorem Numbered.ahead {s : State} (numbered : Numbered s) (few : s.ring.n + 1 < 10 ^ 9) (bytes : Nat) :
    AheadOfNames s (.save bytes) := by
  intro name mem
  obtain ⟨k, earlier, rfl⟩ := numbered name mem
  exact (frameName_lt few (Nat.lt_succ_of_le earlier)).le

theorem Numbered.next {s : State} (numbered : Numbered s) (cap bytes : Nat) :
    Numbered ⟨(s.saved cap bytes).2, s.saves + 1⟩ := by
  intro name mem
  obtain ⟨f, inDir, rfl⟩ := List.mem_map.mp mem
  rcases mem_written.mp (mem_written_of_saved inDir) with rfl | ⟨old, -⟩
  · exact ⟨s.ring.n + 1, le_rfl, rfl⟩
  · obtain ⟨k, earlier, same⟩ := numbered f.1 (List.mem_map_of_mem old)
    exact ⟨k, Nat.le_succ_of_le earlier, same⟩

/-- **The first process** shows the newest frame after each of fewer than a billion saves. -/
theorem first_run (cap : Nat) (sizes : List Nat) (few : sizes.length < 10 ^ 9) :
    Along (step cap) AheadOfNames start (sizes.map .save) := by
  have from_ : ∀ s : State, Numbered s → s.ring.n + sizes.length < 10 ^ 9 →
      Along (step cap) AheadOfNames s (sizes.map .save) := by
    clear few
    induction sizes with
    | nil => exact fun _ _ _ => trivial
    | cons bytes rest ih =>
        intro s numbered few
        rw [List.length_cons] at few
        refine ⟨numbered.ahead (by omega) bytes, ?_⟩
        intro s' stepped
        cases stepped
        refine ih _ (numbered.next cap bytes) ?_
        show s.ring.n + 1 + rest.length < 10 ^ 9
        omega
  refine from_ start (fun _ none_ => (List.not_mem_nil none_).elim) ?_
  show 0 + sizes.length < 10 ^ 9
  omega

end KoyuRuntime.Services.IpcLogger
