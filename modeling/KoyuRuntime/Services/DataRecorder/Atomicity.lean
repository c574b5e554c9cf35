/-
# Services.DataRecorder.Atomicity — a bundle is committed whole or not at all

A finalize may be cut off at any of its steps, by an exception or by the death of the
process, and a step that is cut off may have done part of its work.  What shows in the
recordings directory are the entries whose names do not start with `.tmp-`: they stay
as they were, or one complete bundle joins them, unless the requested manifest leads
the rename into an entry that is already there (`all_or_nothing_iff`).

* `Killed`, `Raises`: every tree that a death or an exception can leave.
* `Stages.bundle`: a commit has written every file of its bundle.
* `get?_sweepTmp`: the sweep of the next `setup` spares what shows.
-/
import KoyuRuntime.Services.DataRecorder.BundleName

namespace KoyuRuntime.Services.DataRecorder

open Host Theory

set_option autoImplicit false

variable {P V : Type}

/-! ## The sweep -/

/-- Does `glob(".tmp-*")` match this name? -/
def isTmp (name : String) : Bool := name.toList.take 5 = ".tmp-".toList

/-- The names in a directory, as `glob` lists them. -/
def childNames (dir : Path) (disk : Disk V) : List String :=
  disk.entries.filterMap fun e => if e.1.dropLast = dir then e.1.getLast? else none

/-- `rmtree(dir, ignore_errors=True)`. -/
def rmtree (dir : Path) (disk : Disk V) : Disk V :=
  match disk.get? dir with
  | some .dir => disk.prune dir
  | _ => disk

/-- `_sweep_tmp`. -/
def sweepTmp (recordings : Path) (disk : Disk V) : Disk V :=
  ((childNames recordings disk).filter isTmp).foldl (fun t name => rmtree (recordings ++ [name]) t) disk

/-- `mkdir(exist_ok=True)`. -/
def mkdirOk (dir : Path) (disk : Disk V) : Except TreeError (Disk V) :=
  match disk.get? dir with
  | some .dir => .ok disk
  | some (.file _) => .error .exists
  | none => if disk.isDir dir.dropLast then .ok (disk.set dir .dir) else .error .notFound

/-- What `setup` does to the recordings tree. -/
def setupTree (recordings : Path) : DiskM V Unit := do
  attempt none (mkdirOk recordings)
  modify (sweepTmp recordings)

/-- A path at or below an entry that shows. -/
def Visible (recordings q : Path) : Prop :=
  ∃ name below, q = recordings ++ name :: below ∧ isTmp name = false

/-- What shows reads the same. -/
def SameVisible (recordings : Path) (t t' : Disk V) : Prop :=
  ∀ q, Visible recordings q → t'.get? q = t.get? q

section Sweep

variable {recordings : Path} {t t' : Disk V} {q : Path}

theorem isTmp_tmpDir (call : Call) : isTmp (".tmp-" ++ call.tmpId.hex) = true := by
  simp [isTmp, String.toList_append]

/-- What shows is not below a temporary directory. -/
theorem Visible.apart (visible : Visible recordings q) {name : String} (tmp : isTmp name = true) :
    ¬ recordings ++ [name] <+: q := by
  obtain ⟨shown, below, rfl, plain⟩ := visible
  intro inside
  rw [List.prefix_append_right_inj, List.cons_prefix_cons] at inside
  rw [← inside.1, tmp] at plain
  cases plain

/-- Nor is it above one. -/
theorem Visible.not_above (visible : Visible recordings q) {name : String} (tmp : isTmp name = true) :
    ¬ q <+: recordings ++ [name] := by
  intro above
  have long : (recordings ++ [name]).length ≤ q.length := by
    obtain ⟨shown, below, rfl, -⟩ := visible
    simp
  exact visible.apart tmp (above.eq_of_length_le long ▸ List.prefix_refl _)

theorem Visible.apart_tmpDir (visible : Visible recordings q) (call : Call) :
    ¬ tmpDir recordings call <+: q := visible.apart (isTmp_tmpDir call)

theorem SameVisible.trans {mid : Disk V} (first : SameVisible recordings t mid)
    (later : SameVisible recordings mid t') : SameVisible recordings t t' :=
  fun q visible => (later q visible).trans (first q visible)

theorem rmtree_visible {name : String} (tmp : isTmp name = true) :
    SameVisible recordings t (rmtree (recordings ++ [name]) t) := by
  intro q visible
  unfold rmtree
  split
  · rw [DirTree.get?_prune, if_neg (visible.apart tmp)]
  · rfl

theorem rmtree_dir {dir : Path} (there : (rmtree dir t).get? q = some .dir) : t.get? q = some .dir := by
  unfold rmtree at there
  split at there
  · rw [DirTree.get?_prune] at there
    split at there
    · cases there
    · exact there
  · exact there

theorem rmtree_gone (dir : Path) : (rmtree dir t).get? dir ≠ some .dir := by
  unfold rmtree
  split
  · rw [DirTree.get?_prune, if_pos (List.prefix_refl dir)]
    simp
  · rename_i other
    exact other

theorem mem_childNames {dir : Path} {name : String} {n : Node (FileData V)}
    (there : t.get? (dir ++ [name]) = some n) : name ∈ childNames dir t := by
  have listed : dir ++ [name] ∈ t.entries.map Prod.fst := by
    by_contra absent
    rw [DirTree.get?, OrderedDict.find_eq_none_iff.mpr absent] at there
    cases there
  obtain ⟨e, mem, key⟩ := List.mem_map.mp listed
  refine List.mem_filterMap.mpr ⟨e, mem, ?_⟩
  rw [key, List.dropLast_concat, if_pos rfl, List.getLast?_concat]

/-- **The sweep spares what shows and leaves no temporary directory.** -/
theorem get?_sweepTmp (recordings : Path) (t : Disk V) :
    SameVisible recordings t (sweepTmp recordings t) ∧
      ∀ name, isTmp name = true → (sweepTmp recordings t).get? (recordings ++ [name]) ≠ some .dir := by
  have among : ∀ (names : List String) (t : Disk V), (∀ name ∈ names, isTmp name = true) →
      SameVisible recordings t (names.foldl (fun t name => rmtree (recordings ++ [name]) t) t) ∧
      (∀ q, (names.foldl (fun t name => rmtree (recordings ++ [name]) t) t).get? q = some .dir →
        t.get? q = some .dir ∧ ∀ name ∈ names, q ≠ recordings ++ [name]) := by
    intro names
    induction names with
    | nil => exact fun t _ => ⟨fun _ _ => rfl, fun q there => ⟨there, by simp⟩⟩
    | cons name rest ih =>
        intro t tmp
        obtain ⟨same, gone⟩ := ih (rmtree (recordings ++ [name]) t)
          (fun n mem => tmp n (List.mem_cons_of_mem name mem))
        refine ⟨(rmtree_visible (tmp name List.mem_cons_self)).trans same, ?_⟩
        intro q there
        obtain ⟨before, others⟩ := gone q there
        refine ⟨rmtree_dir before, List.forall_mem_cons.mpr ⟨?_, others⟩⟩
        rintro rfl
        exact rmtree_gone _ before
  obtain ⟨same, gone⟩ := among ((childNames recordings t).filter isTmp) t
    fun name mem => (List.mem_filter.mp mem).2
  refine ⟨same, ?_⟩
  intro name tmp there
  obtain ⟨before, others⟩ := gone _ there
  exact others name (List.mem_filter.mpr ⟨mem_childNames before, tmp⟩) rfl

theorem mkdirOk_visible (done : mkdirOk recordings t = .ok t') : SameVisible recordings t t' := by
  intro q visible
  unfold mkdirOk at done
  split at done
  · cases done
    rfl
  · cases done
  · split at done
    · cases done
      rw [DirTree.get?_set, if_neg]
      rintro rfl
      obtain ⟨name, below, same, -⟩ := visible
      simpa using congrArg List.length same
    · cases done

/-- **What the next `setup` leaves**: nothing temporary, and everything that showed. -/
theorem setupTree_sweeps {u : Unit} (done : setupTree recordings t = .ok u t') :
    SameVisible recordings t t' ∧
      ∀ name, isTmp name = true → t'.get? (recordings ++ [name]) ≠ some .dir := by
  obtain ⟨_, mid, made, swept⟩ := bind_ok_iff.mp done
  obtain ⟨-, made⟩ := attempt_ok_iff.mp made
  cases swept
  obtain ⟨same, gone⟩ := get?_sweepTmp recordings mid
  exact ⟨(mkdirOk_visible made).trans same, gone⟩

end Sweep

/-! ## Staying below the temporary directory -/

/-- Outside `tmp` a tree only gains directories on the way to it. -/
def Confined (tmp : Path) (t t' : Disk V) : Prop :=
  ∀ q, ¬ tmp <+: q → t'.get? q = t.get? q ∨ t'.get? q = some .dir ∧ q <+: tmp

/-- Files have been written below `tmp`, and no directory has come or gone. -/
structure Within (tmp : Path) (t t' : Disk V) : Prop where
  listed : ∃ new, t'.entries = new ++ t.entries ∧ ∀ e ∈ new, tmp <+: e.1
  dirs : ∀ q, t'.get? q = some .dir ↔ t.get? q = some .dir

section Confined

variable {tmp : Path} {t mid t' : Disk V}

theorem Confined.refl (t : Disk V) : Confined tmp t t := fun _ _ => .inl rfl

theorem Confined.trans (t mid t' : Disk V) (first : Confined tmp t mid) (later : Confined tmp mid t') :
    Confined tmp t t' := by
  intro q outside
  rcases later q outside with same | made
  · rw [same]
    exact first q outside
  · exact .inr made

theorem Confined.mkdir (made : t.mkdirParents tmp = .ok t') : Confined tmp t t' :=
  fun q _ => DirTree.mkdirParents_get? made q

theorem Confined.parents {k : Nat} (made : DirTree.makeParents t [] (tmp.take k) = .ok t') :
    Confined tmp t t' := by
  intro q _
  rcases DirTree.makeParents_get? made q with same | ⟨dir, above⟩
  · exact .inl same
  · exact .inr ⟨dir, above.trans (List.take_prefix k tmp)⟩

theorem Within.refl (t : Disk V) : Within tmp t t :=
  ⟨⟨[], rfl, by simp⟩, fun _ => Iff.rfl⟩

theorem Within.trans (t mid t' : Disk V) (first : Within tmp t mid) (later : Within tmp mid t') :
    Within tmp t t' where
  listed := by
    obtain ⟨new, eq, below⟩ := first.listed
    obtain ⟨new', eq', below'⟩ := later.listed
    refine ⟨new' ++ new, by rw [eq', eq, List.append_assoc], ?_⟩
    intro e mem
    exact (List.mem_append.mp mem).elim (below' e) (below e)
  dirs q := (later.dirs q).trans (first.dirs q)

theorem Within.outside (within : Within tmp t t') {q : Path} (outside : ¬ tmp <+: q) :
    t'.get? q = t.get? q := by
  obtain ⟨new, eq, below⟩ := within.listed
  have skip : ∀ new : List (Path × Node (FileData V)), (∀ e ∈ new, tmp <+: e.1) →
      OrderedDict.find q (new ++ t.entries) = OrderedDict.find q t.entries := by
    intro new
    induction new with
    | nil => exact fun _ => rfl
    | cons e rest ih =>
        intro below
        have other : ¬ e.1 = q := fun same => outside (same ▸ below e List.mem_cons_self)
        rw [List.cons_append, OrderedDict.find, if_neg other,
          ih fun e' mem => below e' (List.mem_cons_of_mem e mem)]
  rw [DirTree.get?, eq, skip new below]
  rfl

theorem Within.confined (within : Within tmp t t') : Confined tmp t t' :=
  fun _ outside => .inl (within.outside outside)

theorem Within.file {name : String} {content : FileData V}
    (done : t.writeFile (tmp ++ [name]) content = .ok t') : Within tmp t t' := by
  obtain ⟨-, notDir, rfl⟩ := DirTree.writeFile_ok_iff.mp done
  refine ⟨⟨[_], rfl, by simp⟩, ?_⟩
  intro q
  rw [DirTree.get?_set]
  split
  · rename_i here
    subst here
    have other : t.get? (tmp ++ [name]) ≠ some .dir := by
      intro dir
      rw [DirTree.isDir_iff.mpr (.inr dir)] at notDir
      cases notDir
    simp [other]
  · rfl

/-- Emptiness away from `tmp` does not see the files. -/
theorem Within.vacant (within : Within tmp t t') {q : Path} (below : ¬ tmp <+: q) (above : ¬ q <+: tmp) :
    t'.vacant q = t.vacant q := by
  obtain ⟨new, eq, inside⟩ := within.listed
  have skip : new.all (fun e => decide (q <+: e.1 → e.1 = q)) = true := by
    rw [List.all_eq_true]
    intro e mem
    rw [decide_eq_true_eq]
    intro over_
    exact absurd (List.prefix_or_prefix_of_prefix (inside e mem) over_) (not_or.mpr ⟨below, above⟩)
  rw [DirTree.vacant, eq, List.all_append, skip, Bool.true_and]
  rfl

end Confined

/-! ## The writers -/

/-- Every video source maps to a plain file name. -/
def PlainVideos (sources : List (Source P V)) : Prop :=
  ∀ s ∈ sources, s.kind = .video → '/' ∉ (vid s.feature).toList

section Writers

variable {call : Call} {tmp : Path} {rows : List (Row V)} {fps : Double} {t t' : Disk V}

/-- A plain name of some length is written where it says. -/
theorem writeAt_plain {name : String} {content : FileData V} (plain : '/' ∉ name.toList)
    (long : 2 < name.toList.length) (done : writeAt tmp name content t = .ok t') :
    t.writeFile (tmp ++ [name]) content = .ok t' ∧ legalName name = true := by
  unfold writeAt at done
  split at done
  swap
  · cases done
  rename_i path placed
  have relative : name.toList.head? ≠ some '/' := fun absolute => plain (List.mem_of_mem_head? absolute)
  obtain ⟨kept, dots⟩ := proper_of_length long
  rw [joined_of_relative relative, parts_of_plain plain kept dots, String.ofList_toList] at placed
  obtain ⟨parent, last, walked, legal, isLast, rfl⟩ := DirTree.place_ok placed
  rw [List.getLast?_concat, Option.some.injEq, Hop.into.injEq] at isLast
  rw [List.dropLast_concat] at walked
  obtain ⟨rfl, -⟩ := DirTree.resolve_names walked
  subst isLast
  exact ⟨done, legal⟩

theorem vid_long (feature : String) : 2 < (vid feature).toList.length := by
  simp [vid, String.toList_append]

theorem encodeMp4_ok {s : Source P V} (plain : '/' ∉ (vid s.feature).toList) {u : Unit}
    (done : encodeMp4 call tmp rows fps s t = .ok u t') :
    ∃ frames, valuesOf s.feature rows = .ok frames ∧ legalName (vid s.feature) = true ∧
      t.writeFile (tmp ++ [vid s.feature]) (.mp4 frames fps) = .ok t' := by
  simp only [encodeMp4, bind_ok_iff, check_ok_iff, attempt_ok_iff] at done
  obtain ⟨frames, mid, ⟨read, rfl⟩, -, wrote⟩ := done
  obtain ⟨wrote, legal⟩ := writeAt_plain plain (vid_long s.feature) wrote
  exact ⟨frames, read, legal, wrote⟩

theorem encodeVideos_within {sources : List (Source P V)} (plain : PlainVideos sources) (t : Disk V) :
    Leaves (Within tmp) (encodeVideos call tmp rows fps sources) t := by
  induction sources generalizing t with
  | nil => exact Leaves.pure Within.refl
  | cons s rest ih =>
      have others : PlainVideos rest := fun s' mem => plain s' (List.mem_cons_of_mem s mem)
      unfold encodeVideos
      split
      · exact ih others t
      · rename_i video
        refine Leaves.bind Within.trans ?_ fun _ mid _ => ih others mid
        refine Leaves.bind Within.trans (leaves_check Within.refl) ?_
        intro frames mid _
        refine leaves_attempt Within.refl ?_
        intro t' wrote
        exact Within.file
          (writeAt_plain (plain s List.mem_cons_self video) (vid_long s.feature) wrote).1

/-- **Encoded videos**: every one has its file, and no other path has changed. -/
theorem encodeVideos_ok {sources : List (Source P V)} (plain : PlainVideos sources) {u : Unit}
    (done : encodeVideos call tmp rows fps sources t = .ok u t') :
    (∀ s ∈ sources, s.kind = .video → legalName (vid s.feature) = true ∧
      ∃ frames, valuesOf s.feature rows = .ok frames ∧
        t'.get? (tmp ++ [vid s.feature]) = some (.file (.mp4 frames fps))) ∧
      ∀ q, (∀ s ∈ sources, s.kind = .video → q ≠ tmp ++ [vid s.feature]) → t'.get? q = t.get? q := by
  induction sources generalizing t with
  | nil =>
      cases done
      exact ⟨by simp, fun _ _ => rfl⟩
  | cons s rest ih =>
      have others : PlainVideos rest := fun s' mem => plain s' (List.mem_cons_of_mem s mem)
      cases kind : s.kind with
      | column =>
          simp only [encodeVideos, kind] at done
          obtain ⟨files, same⟩ := ih others done
          refine ⟨List.forall_mem_cons.mpr ⟨fun video => ?_, files⟩, ?_⟩
          · rw [kind] at video
            cases video
          · intro q apart
            exact same q fun s' mem => apart s' (List.mem_cons_of_mem s mem)
      | video =>
          simp only [encodeVideos, kind] at done
          obtain ⟨_, mid, first, later⟩ := bind_ok_iff.mp done
          obtain ⟨frames, read, legal, wrote⟩ := encodeMp4_ok (plain s List.mem_cons_self kind) first
          obtain ⟨files, same⟩ := ih others later
          obtain ⟨-, -, rfl⟩ := DirTree.writeFile_ok_iff.mp wrote
          refine ⟨List.forall_mem_cons.mpr ⟨fun _ => ⟨legal, frames, read, ?_⟩, files⟩, ?_⟩
          · by_cases again : ∃ s' ∈ rest, s'.kind = .video ∧ vid s'.feature = vid s.feature
            · -- a later video of the same feature writes the same frames
              obtain ⟨s', mem, video', name⟩ := again
              obtain ⟨-, frames', read', file⟩ := files s' mem video'
              have feature : s'.feature = s.feature := by
                simpa [vid, ← String.toList_inj] using name
              rw [feature, read] at read'
              cases read'
              rw [← name]
              exact file
            · rw [same, DirTree.get?_set, if_pos rfl]
              intro s' mem video' here
              exact again ⟨s', mem, video', by simpa using here.symm⟩
          · intro q apart
            rw [same q fun s' mem => apart s' (List.mem_cons_of_mem s mem), DirTree.get?_set,
              if_neg (Ne.symm (apart s List.mem_cons_self kind))]

/-- The media are written into a directory made first. -/
theorem writeMedia_within {sources : List (Source P V)} (plain : PlainVideos sources) {u : Unit}
    (encoded : writeMedia call tmp rows fps sources t = .ok u t') :
    ∃ made, t.mkdirParents tmp = .ok made ∧ Within tmp made t' := by
  simp only [writeMedia, bind_ok_iff, check_ok_iff, attempt_ok_iff] at encoded
  obtain ⟨_, made, ⟨-, mkdir⟩, cols, _, ⟨-, rfl⟩, _, table, ⟨-, parquet⟩, encoded⟩ := encoded
  exact ⟨made, mkdir,
    (Within.file parquet).trans _ _ _ ((encodeVideos_within plain table).of_ok encoded)⟩

theorem writeMedia_confined {sources : List (Source P V)} (plain : PlainVideos sources) (t : Disk V) :
    Leaves (Confined tmp) (writeMedia call tmp rows fps sources) t := by
  refine Leaves.bind Confined.trans (leaves_attempt Confined.refl fun _ => Confined.mkdir) ?_
  intro _ mid _
  refine Leaves.bind Confined.trans (leaves_check Confined.refl) ?_
  intro cols mid' _
  refine Leaves.bind Confined.trans (leaves_attempt Confined.refl ?_) fun _ mid'' _ =>
    (encodeVideos_within plain mid'').confined
  intro t' wrote
  exact (Within.file wrote).confined

theorem writeSidecar_confined (py : Pydantic) (sc : EpisodeSidecar) (t : Disk V) :
    Leaves (Confined tmp) (writeSidecar py call tmp sc) t := by
  refine Leaves.bind Confined.trans (leaves_check Confined.refl) ?_
  intro _ mid _
  refine leaves_attempt Confined.refl ?_
  intro t' wrote
  exact (Within.file wrote).confined

end Writers

/-! ## One call, cut off anywhere -/

/-- What one finalize is given. -/
structure FinalizeArgs (P V : Type) where
  recordings : Path
  ctx : RecordingContext
  rows : List (Row V)
  sources : List (Source P V)
  recordHz : Double
  captureId : Option String
  verdict : Option JsonObj

/-- The call whose `step` is cut off by `e`. -/
def Call.cutAt (call : Call) (step : Step) (e : Exn) : Call :=
  { call with fault := fun s => if s = step then some e else call.fault s }

/-- What a step may have done when it is cut off: some of the directories, or some of
a file's bytes.  A rename is done or not done. -/
inductive Torn (tmp : Path) (sources : List (Source P V)) : Step → Disk V → Disk V → Prop where
  | untouched (step : Step) (t : Disk V) : Torn tmp sources step t t
  | mkdir (k : Nat) (t t' : Disk V) (made : DirTree.makeParents t [] (tmp.take k) = .ok t') :
      Torn tmp sources .mkdir t t'
  | parquet (bytes : List Nat) (t t' : Disk V)
      (wrote : t.writeFile (tmp ++ ["data.parquet"]) (.foreign bytes) = .ok t') :
      Torn tmp sources .parquet t t'
  | mp4 (s : Source P V) (mem : s ∈ sources) (video : s.kind = .video) (bytes : List Nat)
      (t t' : Disk V) (wrote : writeAt tmp (vid s.feature) (.foreign bytes) t = .ok t') :
      Torn tmp sources (.mp4 s.feature) t t'
  | text (bytes : List Nat) (t t' : Disk V)
      (wrote : t.writeFile (episodeAt tmp) (.foreign bytes) = .ok t') : Torn tmp sources .text t t'

namespace FinalizeArgs

variable (libs : Libs V) (call : Call) (args : FinalizeArgs P V)

def finalize : DiskM V Outcome :=
  DataRecorder.finalize libs call args.recordings args.ctx args.rows args.sources args.recordHz
    args.captureId args.verdict

def tmp : Path := tmpDir args.recordings call

/-- The `try` is entered, with this first row and this rate. -/
def Begun (first : Row V) (fps : Double) : Prop :=
  args.rows.head? = some first ∧ measuredFps (args.rows.map Prod.fst) args.recordHz = .ok fps

/-- The body of the `try`. -/
def body (first : Row V) (fps : Double) : DiskM V Outcome :=
  writeBundle libs call args.recordings (args.tmp call) args.ctx args.rows first fps args.sources
    args.recordHz args.captureId args.verdict

/-- The trees in which the body can stop short: it raises, or a step it has reached is
cut off. -/
inductive StopsShort (disk : Disk V) : Disk V → Prop where
  | raised (first : Row V) (fps : Double) (begun : args.Begun first fps) (e : Exn) (left : Disk V)
      (ran : args.body libs call first fps disk = .error e left) : StopsShort disk left
  | cut (first : Row V) (fps : Double) (begun : args.Begun first fps) (step : Step)
      (before left : Disk V)
      (reached : ∀ e, args.body libs (call.cutAt step e) first fps disk = .error e before)
      (torn : Torn (args.tmp call) args.sources step before left) : StopsShort disk left

/-- The trees an exception leaves: before the `try`, out of its body, or after the rename. -/
inductive Raises (disk : Disk V) : Disk V → Prop where
  | early (e : Exn) (undefined : measuredFps (args.rows.map Prod.fst) args.recordHz = .error e) :
      Raises disk disk
  | cleaned (left : Disk V) (short : StopsShort libs call args disk left) :
      Raises disk (left.prune (args.tmp call))
  | late (path : List (Hop String)) (left : Disk V)
      (ran : args.finalize libs call disk = .ok { path := some path } left) :
      Raises disk (left.prune (args.tmp call))

/-- The trees the death of the process leaves: before the call, in its body or in the
cleanup that has removed some of its files, or after the rename. -/
inductive Killed (disk : Disk V) : Disk V → Prop where
  | before : Killed disk disk
  | short (left : Disk V) (short : StopsShort libs call args disk left) (gone : List Path)
      (below : ∀ p ∈ gone, args.tmp call <+: p) : Killed disk (gone.foldl DirTree.prune left)
  | after (out : Outcome) (left : Disk V) (ran : args.finalize libs call disk = .ok out left) :
      Killed disk left

/-- The files of a bundle. -/
def fileNames : List String :=
  "data.parquet" :: "episode.json" ::
    (args.sources.filter fun s => s.kind = .video).map fun s => vid s.feature

/-- A bundle with every file written to its end, and nothing else. -/
structure CompleteBundle (dir : Path) (t : Disk V) : Prop where
  top : t.get? dir = some .dir
  parquet : ∃ cols, columns args.rows args.sources ∅ = .ok cols ∧
    t.get? (dir ++ ["data.parquet"]) =
      some (.file (.parquet (parquetTable (args.rows.map Prod.fst) cols)))
  videos : ∃ first fps, args.Begun first fps ∧ ∀ s ∈ args.sources, s.kind = .video →
    ∃ frames, valuesOf s.feature args.rows = .ok frames ∧
      t.get? (dir ++ [vid s.feature]) = some (.file (.mp4 frames fps))
  episode : ∃ first fps facts fields, args.Begun first fps ∧
    captureFacts libs call args.ctx first args.rows.length fps args.sources args.recordHz
      args.captureId = .ok facts ∧
    verdictFields libs.pydantic args.verdict = .ok fields ∧
    t.get? (episodeAt dir) = some (.file (.episode (judged facts fields)))
  only : ∀ rest, t.get? (dir ++ rest) ≠ none → rest = [] ∨ ∃ name ∈ args.fileNames, rest = [name]

/-- One complete bundle has joined what shows, where at most an empty directory was. -/
structure Extended (name : String) (t t' : Disk V) : Prop where
  shows : isTmp name = false
  free : t.get? (args.recordings ++ [name]) = none ∨ t.get? (args.recordings ++ [name]) = some .dir
  vacant : ∀ n below, t.get? (args.recordings ++ name :: n :: below) = none
  others : ∀ q, Visible args.recordings q → ¬ args.recordings ++ [name] <+: q → t'.get? q = t.get? q
  bundle : args.CompleteBundle libs call (args.recordings ++ [name]) t'

/-- What shows is unchanged or extended by one complete bundle. -/
def Bundled (t t' : Disk V) : Prop :=
  SameVisible args.recordings t t' ∨ ∃ name, args.Extended libs call name t t'

/-- All or nothing, wherever the call is cut off. -/
structure AllOrNothing (disk : Disk V) : Prop where
  nothing : args.rows = [] →
    args.finalize libs call disk = .ok { reason := some "no frames" } disk
  returned : ∀ out left, args.finalize libs call disk = .ok out left → args.Bundled libs call disk left
  raised : ∀ left, args.Raises libs call disk left →
    args.Bundled libs call disk left ∧
      ∀ q, args.tmp call <+: q → disk.get? q = none → left.get? q = none
  killed : ∀ left, args.Killed libs call disk left →
    args.Bundled libs call disk left ∧
      ∀ u swept, setupTree args.recordings left = .ok u swept →
        SameVisible args.recordings left swept ∧
          ∀ name, isTmp name = true → swept.get? (args.recordings ++ [name]) ≠ some .dir

/-- The bundle can be written, and its rename leads to a free place below an entry that
already shows. -/
structure Strays (first : Row V) (fps : Double) (stamp : List Char) (made : Disk V) (name inner : String)
    (below : Path) (disk : Disk V) : Prop where
  begun : args.Begun first fps
  dated : dirname first.1 = .ok stamp
  complete : Complete args.sources args.rows
  named : ∀ s ∈ args.sources, s.kind = .video → legalName (vid s.feature) = true
  accepted : ∃ fields, verdictFields libs.pydantic args.verdict = .ok fields ∧
    libs.pydantic.encodable fields.2 = true
  fresh : disk.mkdirParents (args.tmp call) = .ok made
  shows : isTmp name = false
  placed : DirTree.place legalName made
    (finalPath args.recordings stamp args.ctx.requestedManifest (captureIdOf call args.captureId)) =
      .ok (args.recordings ++ name :: inner :: below)
  free : made.get? (args.recordings ++ name :: inner :: below) = none ∨
    made.get? (args.recordings ++ name :: inner :: below) = some .dir ∧
      made.vacant (args.recordings ++ name :: inner :: below) = true

/-- The bundle is moved into an entry that already shows. -/
def GoesAstray (disk : Disk V) : Prop :=
  ∃ first fps stamp made name inner below,
    args.Strays libs call first fps stamp made name inner below disk

section Cut

variable {libs call args} {disk left : Disk V}

/-- A bundle is judged by what shows. -/
theorem Extended.congr {name : String} {t t' t'' : Disk V} (extended : args.Extended libs call name t t')
    (same : SameVisible args.recordings t' t'') : args.Extended libs call name t t'' := by
  have below : ∀ more, t''.get? (args.recordings ++ [name] ++ more) =
      t'.get? (args.recordings ++ [name] ++ more) := by
    intro more
    exact same _ ⟨name, more, by simp, extended.shows⟩
  have top := below []
  rw [List.append_nil] at top
  refine ⟨extended.shows, extended.free, extended.vacant, ?_, ?_⟩
  · intro q visible outside
    rw [same q visible, extended.others q visible outside]
  · obtain ⟨cols, read, table⟩ := extended.bundle.parquet
    obtain ⟨first, fps, begun, files⟩ := extended.bundle.videos
    obtain ⟨first', fps', facts, fields, begun', captured, accepted, sidecar⟩ := extended.bundle.episode
    refine ⟨top.trans extended.bundle.top, ⟨cols, read, (below _).trans table⟩, ⟨first, fps, begun, ?_⟩,
      ⟨first', fps', facts, fields, begun', captured, accepted, (below _).trans sidecar⟩, ?_⟩
    · intro s mem video
      obtain ⟨frames, values, file⟩ := files s mem video
      exact ⟨frames, values, (below _).trans file⟩
    · intro more there
      exact extended.bundle.only more (below more ▸ there)

theorem sameVisible_of_confined (call : Call) {disk left : Disk V}
    (confined : Confined (args.tmp call) disk left) : SameVisible args.recordings disk left := by
  intro q visible
  rcases confined q (visible.apart_tmpDir call) with same | ⟨-, above⟩
  · exact same
  · exact absurd above (visible.not_above (isTmp_tmpDir call))

/-- **Wherever the body stops short**, it has stayed below its temporary directory. -/
theorem StopsShort.confined (plain : PlainVideos args.sources)
    (short : StopsShort libs call args disk left) : Confined (args.tmp call) disk left := by
  have fails : ∀ (call : Call) first fps, Fails (Confined (args.tmp call)) (args.body libs call first fps)
      disk := fun call first fps =>
    writeBundle_fails_of Confined.refl Confined.trans (writeMedia_confined plain disk)
      (fun sc mid => writeSidecar_confined libs.pydantic sc mid) first
  cases short with
  | raised first fps begun e left ran => exact fails call first fps e left ran
  | cut first fps begun step before left reached torn =>
      have stopped := fails (call.cutAt step .valueError) first fps _ before (reached _)
      refine stopped.trans _ _ _ ?_
      cases torn with
      | untouched => exact Confined.refl _
      | mkdir k t t' made => exact Confined.parents made
      | parquet bytes t t' wrote => exact (Within.file wrote).confined
      | mp4 s mem video bytes t t' wrote =>
          exact (Within.file (writeAt_plain (plain s mem video) (vid_long s.feature) wrote).1).confined
      | text bytes t t' wrote => exact (Within.file wrote).confined

theorem confined_prune (confined : Confined (args.tmp call) disk left) {p : Path}
    (below : args.tmp call <+: p) : Confined (args.tmp call) disk (left.prune p) := by
  intro q outside
  rw [DirTree.get?_prune, if_neg fun under => outside (below.trans under)]
  exact confined q outside

theorem confined_cleanup (confined : Confined (args.tmp call) disk left) {gone : List Path}
    (below : ∀ p ∈ gone, args.tmp call <+: p) :
    Confined (args.tmp call) disk (gone.foldl DirTree.prune left) := by
  induction gone generalizing left with
  | nil => exact confined
  | cons p rest ih =>
      exact ih (confined_prune confined (below p List.mem_cons_self))
        fun p' mem => below p' (List.mem_cons_of_mem p mem)

/-- What a finalize that raises leaves is among the trees of `Raises`. -/
theorem raises_of_error {e : Exn} (ran : args.finalize libs call disk = .error e left) :
    args.Raises libs call disk left := by
  unfold FinalizeArgs.finalize DataRecorder.finalize at ran
  cases rows : args.rows with
  | nil =>
      simp only [rows] at ran
      cases ran
  | cons first rest =>
      simp only [rows] at ran
      cases rate : measuredFps ((first :: rest).map Prod.fst) args.recordHz with
      | error cause =>
          rw [rate] at ran
          cases ran
          exact .early e (by rw [rows, rate])
      | ok fps =>
          rw [rate] at ran
          dsimp only at ran
          split at ran
          · cases ran
          · rename_i mid body
            cases ran
            refine .cleaned mid (.raised first fps ⟨by rw [rows]; rfl, by rw [rows, rate]⟩ e mid ?_)
            rw [← rows] at body
            exact body

end Cut

end FinalizeArgs

/-! ## A commit, file by file -/

theorem vid_ne (feature : String) {other : String} (ends : other.toList.getLast? ≠ some '4') : vid feature ≠ other := by
  rintro rfl
  simp [vid, String.toList_append, List.getLast?_append] at ends

section Commit

variable {libs : Libs V} {call : Call} {recordings : Path} {ctx : RecordingContext}
  {sources : List (Source P V)} {recordHz : Double} {captureId : Option String}
  {verdict : Option JsonObj} {first : Row V} {rest : List (Row V)} {disk disk' : Disk V}
  {path : List (Hop String)}

/-- What the temporary directory holds just before the rename. -/
structure Filled (call : Call) (recordings : Path) (rows : List (Row V)) (sources : List (Source P V))
    (fps : Double) (sc : EpisodeSidecar) (disk made written : Disk V) : Prop where
  mkdir : disk.mkdirParents (tmpDir recordings call) = .ok made
  within : Within (tmpDir recordings call) made written
  parquet : ∃ cols, columns rows sources ∅ = .ok cols ∧
    written.get? (tmpDir recordings call ++ ["data.parquet"]) =
      some (.file (.parquet (parquetTable (rows.map Prod.fst) cols)))
  videos : ∀ s ∈ sources, s.kind = .video → legalName (vid s.feature) = true ∧
    ∃ frames, valuesOf s.feature rows = .ok frames ∧
      written.get? (tmpDir recordings call ++ [vid s.feature]) = some (.file (.mp4 frames fps))
  episode : written.get? (episodeAt (tmpDir recordings call)) = some (.file (.episode sc))
  others : ∀ q, q ≠ tmpDir recordings call ++ ["data.parquet"] → q ≠ episodeAt (tmpDir recordings call) →
    (∀ s ∈ sources, s.kind = .video → q ≠ tmpDir recordings call ++ [vid s.feature]) →
      written.get? q = made.get? q

theorem Stages.filled (stages : Stages libs call recordings ctx first rest sources recordHz captureId
    verdict disk path disk') (plain : PlainVideos sources) :
    ∃ made : Disk V, Filled call recordings (first :: rest) sources stages.fps (judged stages.facts stages.fields)
      disk made stages.written := by
  have encoded := stages.encoded
  simp only [writeMedia, bind_ok_iff, check_ok_iff, attempt_ok_iff] at encoded
  obtain ⟨_, made, ⟨-, mkdir⟩, cols, _, ⟨read, rfl⟩, _, table, ⟨-, parquet⟩, encoded⟩ := encoded
  obtain ⟨videos, same⟩ := encodeVideos_ok plain encoded
  have within : Within (tmpDir recordings call) made stages.written := by
    refine Within.trans _ _ _ (Within.trans _ _ _ (Within.file parquet) ?_) (Within.file stages.text)
    exact (encodeVideos_within plain table).of_ok encoded
  obtain ⟨-, -, wrote⟩ := DirTree.writeFile_ok_iff.mp stages.text
  obtain ⟨-, -, tabled⟩ := DirTree.writeFile_ok_iff.mp parquet
  refine ⟨made, mkdir, within, ⟨cols, read, ?_⟩, ?_, ?_, ?_⟩
  · rw [wrote, DirTree.get?_set, if_neg (by simp [episodeAt]), same, tabled, DirTree.get?_set, if_pos rfl]
    intro s _ _ here
    exact vid_ne s.feature (show "data.parquet".toList.getLast? ≠ _ by decide) (by simpa using here.symm)
  · intro s mem video
    obtain ⟨legal, frames, values, file⟩ := videos s mem video
    refine ⟨legal, frames, values, ?_⟩
    rw [wrote, DirTree.get?_set, if_neg, file]
    intro here
    exact vid_ne s.feature (show "episode.json".toList.getLast? ≠ _ by decide)
      (by simpa [episodeAt] using here.symm)
  · rw [wrote, DirTree.get?_set, if_pos rfl]
  · intro q noTable noEpisode noVideo
    rw [wrote, DirTree.get?_set, if_neg (Ne.symm noEpisode), same q noVideo, tabled, DirTree.get?_set,
      if_neg (Ne.symm noTable)]

/-- The temporary directory was not there before it was made. -/
theorem unused_of_made {tmp : Path} {made : Disk V} (rooted : disk.Rooted)
    (mkdir : disk.mkdirParents tmp = .ok made) (some_ : tmp ≠ []) :
    ∀ q, tmp <+: q → disk.get? q = none := by
  obtain ⟨mid, parents, absent, -⟩ := DirTree.mkdirParents_spec mkdir
  intro q below
  refine rooted.unused some_ ?_ below
  by_contra there
  exact there ((DirTree.makeParents_spec parents).1 tmp there ▸ absent)

end Commit

namespace FinalizeArgs

variable {libs : Libs V} {call : Call} {args : FinalizeArgs P V} {first : Row V} {rest : List (Row V)}
  {disk disk' : Disk V} {path : List (Hop String)}

section Stages

variable (stages : Stages libs call args.recordings args.ctx first rest args.sources args.recordHz
  args.captureId args.verdict disk path disk')

include stages

/-- **A committed bundle is complete**: each of its files is written, and nothing else. -/
theorem bundle_complete (rows : args.rows = first :: rest) (plain : PlainVideos args.sources)
    (rooted : disk.Rooted) : args.CompleteBundle libs call stages.loc disk' := by
  obtain ⟨made, filled⟩ := stages.filled plain
  have carried := DirTree.rename_below stages.dir stages.moved
  have begun : args.Begun first stages.fps := ⟨by rw [rows]; rfl, by rw [rows]; exact stages.rate⟩
  refine ⟨?_, ?_, ⟨first, stages.fps, begun, ?_⟩, ⟨first, stages.fps, stages.facts, stages.fields, begun,
    by rw [rows]; exact stages.captured, stages.accepted, stages.episode⟩, ?_⟩
  · have top := carried []
    rwa [List.append_nil, List.append_nil, stages.dir] at top
  · obtain ⟨cols, read, table⟩ := filled.parquet
    exact ⟨cols, by rw [rows, read], by rw [carried, table, rows]⟩
  · intro s mem video
    obtain ⟨-, frames, read, file⟩ := filled.videos s mem video
    exact ⟨frames, by rw [rows, read], by rw [carried, file]⟩
  · intro below there
    rw [carried] at there
    by_cases named : ∃ name ∈ args.fileNames, below = [name]
    · exact .inr named
    refine .inl ?_
    have other : ∀ name ∈ args.fileNames, tmpDir args.recordings call ++ below ≠
        tmpDir args.recordings call ++ [name] := fun name mem same =>
      named ⟨name, mem, List.append_cancel_left same⟩
    rw [filled.others _ (other _ (by simp [fileNames])) (other _ (by simp [fileNames]))
      (fun s mem video => other _ (by simpa [fileNames] using .inr (.inr ⟨s, ⟨mem, video⟩, rfl⟩)))] at there
    -- the directory itself is all that `mkdir` has made there
    have fresh := unused_of_made rooted filled.mkdir (by simp [tmpDir])
      (tmpDir args.recordings call ++ below) (List.prefix_append _ _)
    rcases DirTree.mkdirParents_get? filled.mkdir (tmpDir args.recordings call ++ below) with
      same | ⟨-, above⟩
    · rw [same, fresh] at there
      exact absurd rfl there
    · simpa using above.length_le

/-- Up to the rename nothing that shows has changed. -/
theorem same_before_rename (plain : PlainVideos args.sources) :
    SameVisible args.recordings disk stages.written := by
  obtain ⟨made, filled⟩ := stages.filled plain
  refine sameVisible_of_confined call ?_
  exact (Confined.mkdir filled.mkdir).trans _ _ _ filled.within.confined

/-- A bundle committed away from what shows changes nothing that shows. -/
theorem committed_elsewhere (plain : PlainVideos args.sources)
    (away : ¬ Visible args.recordings stages.loc) : SameVisible args.recordings disk disk' := by
  have same := same_before_rename stages plain
  by_cases home : tmpDir args.recordings call = stages.loc
  · have moved := stages.moved
    simp only [DirTree.rename, stages.dir, if_pos home, Except.ok.injEq] at moved
    rw [← moved]
    exact same
  · obtain ⟨moved, below, above⟩ := DirTree.rename_ok home stages.dir stages.moved
    intro q visible
    have outside : ¬ stages.loc <+: q := by
      rintro inside
      obtain ⟨name, more, rfl, shows⟩ := visible
      rcases List.prefix_or_prefix_of_prefix inside (List.prefix_append args.recordings (name :: more)) with
        up | down
      · exact above (up.trans (List.prefix_append _ _))
      · obtain ⟨tail, eq⟩ := down
        rw [← eq, List.prefix_append_right_inj] at inside
        cases tail with
        | nil => exact above (by rw [← eq, List.append_nil]; exact List.prefix_append _ _)
        | cons n tail =>
            rw [List.cons_prefix_cons] at inside
            exact away ⟨n, tail, eq.symm, inside.1 ▸ shows⟩
    rw [moved, DirTree.get?_move _ below above, if_neg outside,
      if_neg (visible.apart_tmpDir call), same q visible]

/-- A bundle committed as a child that shows joins the others. -/
theorem committed_child (rows : args.rows = first :: rest) (plain : PlainVideos args.sources)
    (rooted : disk.Rooted) {name : String} (child : stages.loc = args.recordings ++ [name])
    (shows : isTmp name = false) : args.Extended libs call name disk disk' := by
  have complete := bundle_complete stages rows plain rooted
  rw [child] at complete
  have same := same_before_rename stages plain
  have other : tmpDir args.recordings call ≠ stages.loc := by
    rw [child]
    intro here
    have name_ : ".tmp-" ++ call.tmpId.hex = name := by simpa [tmpDir] using here
    rw [← name_, isTmp_tmpDir call] at shows
    cases shows
  have grown := stages.writes.rooted rooted
  obtain ⟨moved, below, above⟩ := DirTree.rename_ok other stages.dir stages.moved
  have target := DirTree.rename_target other stages.dir stages.moved
  rw [child] at target
  refine ⟨shows, ?_, ?_, ?_, complete⟩
  · rw [← same _ ⟨name, [], rfl, shows⟩]
    exact target.2.imp id And.left
  · intro n more
    rw [← same _ ⟨name, n :: more, rfl, shows⟩]
    have empty := DirTree.rename_target_empty grown other stages.dir stages.moved
      (List.cons_ne_nil n more)
    rw [child] at empty
    simpa using empty
  · intro q visible outside
    rw [moved, DirTree.get?_move _ below above, child, if_neg outside,
      if_neg (visible.apart_tmpDir call), same q visible]

end Stages

/-! ## Complete rows, read back -/

theorem valuesOf_present {feature : String} {rows : List (Row V)} {values : List V}
    (read : valuesOf feature rows = .ok values) : ∀ row ∈ rows, (row.2.get? feature).isSome := by
  induction rows generalizing values with
  | nil => simp
  | cons row rest ih =>
      simp only [valuesOf] at read
      cases found : row.2.get? feature with
      | none => simp [found] at read
      | some v =>
          simp only [found] at read
          cases later : valuesOf feature rest with
          | error e => simp [later, Except.map] at read
          | ok vs => exact List.forall_mem_cons.mpr ⟨by simp [found], ih later⟩

theorem columns_present {rows : List (Row V)} {sources : List (Source P V)}
    {cols table : OrderedDict String (List V)} (read : columns rows sources cols = .ok table) :
    ∀ s ∈ sources, s.kind = .column → ∀ row ∈ rows, (row.2.get? s.feature).isSome := by
  induction sources generalizing cols with
  | nil => simp
  | cons s rest ih =>
      cases kind : s.kind with
      | video =>
          simp only [columns, kind] at read
          refine List.forall_mem_cons.mpr ⟨fun column => ?_, ih read⟩
          rw [kind] at column
          cases column
      | column =>
          simp only [columns, kind] at read
          cases values : valuesOf s.feature rows with
          | error e => simp [values] at read
          | ok vs =>
              rw [values] at read
              exact List.forall_mem_cons.mpr ⟨fun _ => valuesOf_present values, ih read⟩

/-- **A bundle that lands below an entry that shows** has gone astray. -/
theorem astray_of_nested (stages : Stages libs call args.recordings args.ctx first rest args.sources
    args.recordHz args.captureId args.verdict disk path disk') (rows : args.rows = first :: rest)
    (plain : PlainVideos args.sources) {name inner : String} {below : Path}
    (nested : stages.loc = args.recordings ++ name :: inner :: below) (shows : isTmp name = false) :
    args.GoesAstray libs call disk := by
  obtain ⟨made, filled⟩ := stages.filled plain
  have visible : Visible args.recordings stages.loc := ⟨name, inner :: below, nested, shows⟩
  have other : tmpDir args.recordings call ≠ stages.loc := fun home =>
    visible.apart_tmpDir call (home ▸ List.prefix_refl _)
  have above : ¬ stages.loc <+: tmpDir args.recordings call := visible.not_above (isTmp_tmpDir call)
  have target := (DirTree.rename_target other stages.dir stages.moved).2
  rw [filled.within.outside (visible.apart_tmpDir call),
    filled.within.vacant (visible.apart_tmpDir call) above, nested] at target
  refine ⟨first, stages.fps, stages.stamp, made, name, inner, below, ⟨by rw [rows]; rfl, by
    rw [rows]; exact stages.rate⟩, stages.dated, ?_, fun s mem video => (filled.videos s mem video).1,
    ⟨stages.fields, stages.accepted, stages.encodable⟩, filled.mkdir, shows, ?_, target⟩
  · intro row mem s mem'
    rw [rows] at mem
    cases kind : s.kind with
    | column =>
        obtain ⟨cols, read, -⟩ := filled.parquet
        exact columns_present read s mem' kind row mem
    | video =>
        obtain ⟨-, frames, read, -⟩ := filled.videos s mem' kind
        exact valuesOf_present read row mem
  · rw [← stages.captureId_eq, ← stages.target, ← nested]
    obtain ⟨parent, last, walked, legal, isLast, eq⟩ := DirTree.place_ok stages.placed
    have walked' := DirTree.resolve_congr legalName (fun p => (filled.within.dirs p).mp) walked
    rw [DirTree.place, isLast]
    simp only [walked', legal, if_true, ← eq]

/-! ## All or nothing -/

theorem body_nil (rows : args.rows = []) :
    args.finalize libs call disk = .ok { reason := some "no frames" } disk := by
  rw [finalize, rows]
  rfl

/-- A finalize that returns has left what shows alone or added one bundle, or has gone
astray. -/
theorem returned_bundled (plain : PlainVideos args.sources) (rooted : disk.Rooted)
    (stays : ¬ args.GoesAstray libs call disk) {out : Outcome}
    (ran : args.finalize libs call disk = .ok out disk') : args.Bundled libs call disk disk' := by
  cases rows : args.rows with
  | nil =>
      rw [body_nil rows] at ran
      cases ran
      exact .inl fun _ _ => rfl
  | cons first rest =>
      rw [finalize, rows] at ran
      obtain ⟨path, -, ⟨stages⟩⟩ := finalize_ok_iff.mp ran
      by_cases away : Visible args.recordings stages.loc
      swap
      · exact .inl (committed_elsewhere stages plain away)
      obtain ⟨name, below, at_, shows⟩ := away
      cases below with
      | nil => exact .inr ⟨name, committed_child stages rows plain rooted at_ shows⟩
      | cons inner below => exact absurd (astray_of_nested stages rows plain at_ shows) stays

theorem all_or_nothing_of_stays (plain : PlainVideos args.sources) (rooted : disk.Rooted)
    (stays : ¬ args.GoesAstray libs call disk) : args.AllOrNothing libs call disk where
  nothing := body_nil
  returned _ _ ran := returned_bundled plain rooted stays ran
  raised left raises := by
    have pruned : ∀ (mid : Disk V) q, args.tmp call <+: q → disk.get? q = none →
        (mid.prune (args.tmp call)).get? q = none := by
      intro mid q below _
      rw [DirTree.get?_prune, if_pos below]
    cases raises with
    | early e undefined => exact ⟨.inl fun _ _ => rfl, fun _ _ absent => absent⟩
    | cleaned mid short =>
        refine ⟨.inl (sameVisible_of_confined call ?_), pruned mid⟩
        exact confined_prune (short.confined plain) (List.prefix_refl _)
    | late path mid ran =>
        have same : ∀ q, Visible args.recordings q → (mid.prune (args.tmp call)).get? q = mid.get? q := by
          intro q visible
          rw [DirTree.get?_prune]
          exact if_neg (visible.apart_tmpDir call)
        refine ⟨?_, pruned mid⟩
        rcases returned_bundled plain rooted stays ran with unchanged | ⟨name, extended⟩
        · exact .inl (unchanged.trans same)
        · exact .inr ⟨name, extended.congr same⟩
  killed left killed := by
    refine ⟨?_, fun u swept done => setupTree_sweeps done⟩
    cases killed with
    | before => exact .inl fun _ _ => rfl
    | short mid short gone below =>
        exact .inl (sameVisible_of_confined call (confined_cleanup (short.confined plain) below))
    | after out mid ran => exact returned_bundled plain rooted stays ran

/-! ## Going astray -/

section Astray

variable {fps : Double} {stamp : List Char} {made : Disk V} {name inner : String} {below : Path}

/-- The name of a bundle is never an absolute path. -/
theorem joined_relative {recordings : Path} {id : String} (dated : dirname first.1 = .ok stamp)
    (manifest : Option String) :
    finalPath recordings stamp manifest id =
      recordings.map .into ++ parts (bundleName stamp manifest id) := by
  refine joined_of_relative ?_
  obtain ⟨d, -, rfl⟩ := dirname_ok_iff.mp dated
  intro absolute
  have head : d.compact.head? = some '/' := by
    have some_ : d.compact ≠ [] := by
      intro empty
      simpa [empty] using Datetime.length_compact d
    unfold bundleName at absolute
    dsimp only at absolute
    rwa [List.append_assoc, List.append_assoc, List.append_assoc,
      List.head?_append_of_ne_nil _ some_] at absolute
  exact absurd (Datetime.mem_compact (List.mem_of_mem_head? head)) (by decide)

/-- An entry that shows lies in a recordings directory that was there before. -/
theorem Strays.there (strays : args.Strays libs call first fps stamp made name inner below disk)
    (rooted : disk.Rooted) :
    DirTree.resolve legalName disk [] (args.recordings.map .into) = .ok args.recordings := by
  obtain ⟨parent, last, walked, -, -, eq⟩ := DirTree.place_ok strays.placed
  have grown := rooted.mkdirParents strays.fresh
  have parentDir := grown.resolve_isDir (DirTree.isDir_iff.mpr (.inl rfl)) walked
  have split : parent = args.recordings ++ name :: (inner :: below).dropLast := by
    have front := congrArg List.dropLast eq
    rw [List.dropLast_concat, List.dropLast_append_of_ne_nil (by simp)] at front
    simpa using front.symm
  -- the names on the way are accepted, whatever the rest of the path does
  have legal : ∀ n ∈ args.recordings, legalName n = true := by
    rw [joined_relative strays.dated] at walked
    cases spelled : parts (bundleName stamp args.ctx.requestedManifest (captureIdOf call args.captureId)) with
    | nil =>
        have long := strays.placed
        rw [joined_relative strays.dated, spelled, List.append_nil] at long
        obtain ⟨top, n, down, -, isLast, at_⟩ := DirTree.place_ok long
        rcases List.eq_nil_or_concat args.recordings with none_ | ⟨front, end_, eq_⟩
        · rw [none_] at isLast
          cases isLast
        · rw [eq_, List.concat_eq_append, List.map_append, List.map_cons, List.map_nil,
            List.dropLast_concat] at down
          obtain ⟨rfl, -⟩ := DirTree.resolve_names down
          have count := congrArg List.length at_
          rw [eq_] at count
          simp at count
    | cons hop hops =>
        rw [spelled, List.dropLast_append_of_ne_nil (by simp), DirTree.resolve_append] at walked
        split at walked
        · rename_i mid down
          exact (DirTree.resolve_names down).2
        · cases walked
  have shownDir : disk.get? (args.recordings ++ [name]) ≠ none := by
    have visible : Visible args.recordings (args.recordings ++ [name]) := ⟨name, [], rfl, strays.shows⟩
    have same := sameVisible_of_confined call (Confined.mkdir strays.fresh) _ visible
    rw [← same]
    have dir : made.isDir (args.recordings ++ [name]) = true := by
      rw [split] at parentDir
      cases more : (inner :: below).dropLast with
      | nil => rwa [more] at parentDir
      | cons n rest =>
          rw [more] at parentDir
          refine grown.isDir_above (List.cons_ne_nil n rest) ?_
          rcases DirTree.isDir_iff.mp parentDir with root | found
          · simp at root
          · simp [found]
    rcases DirTree.isDir_iff.mp dir with root | found
    · simp at root
    · simp [found]
  have dir := rooted.isDir_above (List.cons_ne_nil name []) shownDir
  exact rooted.resolve_down legal dir

/-- A bundle that goes astray is committed when no step is cut off. -/
theorem Strays.stages (strays : args.Strays libs call first fps stamp made name inner below disk)
    (valid : validateSources args.sources = .ok ()) (rooted : disk.Rooted)
    (quiet : ∀ step, call.fault step = none) :
    ∃ rest path disk', args.rows = first :: rest ∧
      ∃ stages : Stages libs call args.recordings args.ctx first rest args.sources args.recordHz
        args.captureId args.verdict disk path disk',
          stages.loc = args.recordings ++ name :: inner :: below := by
  obtain ⟨some_, rate⟩ := strays.begun
  obtain ⟨rest, rows⟩ : ∃ rest, args.rows = first :: rest := by
    cases rows : args.rows with
    | nil => simp [rows] at some_
    | cons row rest =>
        rw [rows] at some_
        cases some_
        exact ⟨rest, rfl⟩
  have plain : PlainVideos args.sources := fun s mem video => vid_plain valid mem video
  have writers : WritersSucceed libs call args.recordings (first :: rest) args.sources args.verdict disk :=
    ⟨valid, rows ▸ strays.complete, strays.there rooted,
      unused_of_made rooted strays.fresh (by simp [tmpDir]), quiet, strays.named, strays.accepted⟩
  rw [rows] at rate
  obtain ⟨media, encoded, fills⟩ := writeMedia_fills writers fps
  obtain ⟨fields, accepted, encodable⟩ := strays.accepted
  obtain ⟨d, dated, stamped⟩ := dirname_ok_iff.mp strays.dated
  have complete : Complete args.sources [first] := fun row mem =>
    strays.complete row (by rw [rows, List.mem_singleton.mp mem]; exact List.mem_cons_self)
  obtain ⟨facts, captured, named⟩ := captureFacts_ok libs call args.ctx args.recordHz dated complete
    (first :: rest).length fps args.captureId
  obtain ⟨written, text, -⟩ := fills.write "episode.json" (.episode (judged facts fields))
  obtain ⟨made', mkdir, within⟩ := writeMedia_within plain encoded
  have same : made' = made := Except.ok.inj (mkdir.symm.trans strays.fresh)
  subst same
  have whole := within.trans _ _ _ (Within.file text)
  have placed : DirTree.place legalName written
      (finalPath args.recordings stamp args.ctx.requestedManifest facts.captureId) =
        .ok (args.recordings ++ name :: inner :: below) := by
    obtain ⟨parent, last, walked, legal, isLast, eq⟩ := DirTree.place_ok strays.placed
    have walked' := DirTree.resolve_congr legalName (fun p => (whole.dirs p).mpr) walked
    rw [named, DirTree.place, isLast]
    simp only [walked', legal, if_true, ← eq]
  have visible : Visible args.recordings (args.recordings ++ name :: inner :: below) :=
    ⟨name, inner :: below, rfl, strays.shows⟩
  have apart := visible.apart_tmpDir call
  have above : ¬ args.recordings ++ name :: inner :: below <+: tmpDir args.recordings call :=
    visible.not_above (isTmp_tmpDir call)
  have dir := (whole.dirs (tmpDir args.recordings call)).mpr (DirTree.mkdirParents_dir mkdir)
  have free := strays.free
  rw [← whole.outside apart, ← whole.vacant apart above] at free
  have other : tmpDir args.recordings call ≠ args.recordings ++ name :: inner :: below := fun home =>
    apart (home ▸ List.prefix_refl _)
  have moved := (DirTree.rename_dir_ok_iff other dir).mpr ⟨apart, above, by simp, free, rfl⟩
  exact ⟨rest, _, _, rows, ⟨fps, media, facts, fields, stamp, written, _, rate, encoded, captured, accepted,
    encodable, quiet _, text, strays.dated, rfl, quiet _, placed, moved⟩, rfl⟩

/-- **A bundle gone astray** neither leaves what shows alone nor joins it. -/
theorem not_bundled_of_nested (stages : Stages libs call args.recordings args.ctx first rest args.sources
    args.recordHz args.captureId args.verdict disk path disk') (rooted : disk.Rooted)
    (plain : PlainVideos args.sources)
    (nested : stages.loc = args.recordings ++ name :: inner :: below) (shows : isTmp name = false) :
    ¬ args.Bundled libs call disk disk' := by
  have same := same_before_rename stages plain
  have grown := stages.writes.rooted rooted
  have visible : Visible args.recordings stages.loc := ⟨name, inner :: below, nested, shows⟩
  have other : tmpDir args.recordings call ≠ stages.loc := fun home =>
    visible.apart_tmpDir call (home ▸ List.prefix_refl _)
  have sidecar := stages.episode
  have shown : Visible args.recordings (episodeAt stages.loc) :=
    ⟨name, inner :: below ++ ["episode.json"], by simp [episodeAt, nested], shows⟩
  have before : disk.get? (episodeAt stages.loc) = none := by
    rw [← same _ shown]
    exact DirTree.rename_target_empty grown other stages.dir stages.moved (List.cons_ne_nil _ _)
  rintro (unchanged | ⟨child, extended⟩)
  · rw [unchanged _ shown, before] at sidecar
    cases sidecar
  -- the new sidecar is inside the bundle that has joined, so its entry was empty
  have inside : child = name := by
    by_contra apart
    have outside : ¬ args.recordings ++ [child] <+: episodeAt stages.loc := by
      rw [episodeAt, nested, List.append_assoc, List.prefix_append_right_inj, List.cons_append,
        List.cons_prefix_cons]
      exact fun both => apart both.1
    rw [extended.others _ shown outside, before] at sidecar
    cases sidecar
  subst inside
  obtain ⟨cols, -, table⟩ := extended.bundle.parquet
  obtain ⟨moved, under, over_⟩ := DirTree.rename_ok other stages.dir stages.moved
  have tableShows : Visible args.recordings (args.recordings ++ [child] ++ ["data.parquet"]) :=
    ⟨child, ["data.parquet"], by simp, shows⟩
  have empty : disk.get? (args.recordings ++ [child] ++ ["data.parquet"]) = none := by
    simpa using extended.vacant "data.parquet" []
  by_cases landed : stages.loc <+: args.recordings ++ [child] ++ ["data.parquet"]
  · -- the bundle itself would bear the name of the table
    have here : stages.loc = args.recordings ++ [child] ++ ["data.parquet"] := by
      refine landed.eq_of_length_le ?_
      rw [nested]
      simp
    have top := DirTree.rename_below stages.dir stages.moved []
    rw [List.append_nil, List.append_nil, stages.dir, here, table] at top
    cases top
  · rw [moved, DirTree.get?_move _ under over_, if_neg landed, if_neg (tableShows.apart_tmpDir call),
      same _ tableShows, empty] at table
    cases table

end Astray

/-- **Exactly the calls that do not go astray are all or nothing**, wherever they are
cut off: for every context, row list, verdict and validated source list. -/
theorem all_or_nothing_iff (valid : validateSources args.sources = .ok ()) (rooted : disk.Rooted) :
    (∀ fault, args.AllOrNothing libs { call with fault := fault } disk) ↔
      ¬ args.GoesAstray libs call disk := by
  have plain : PlainVideos args.sources := fun s mem video => vid_plain valid mem video
  constructor
  · rintro all ⟨first, fps, stamp, made, name, inner, below, strays⟩
    have strays' : args.Strays libs { call with fault := fun _ => none } first fps stamp made name inner
        below disk := ⟨strays.begun, strays.dated, strays.complete, strays.named, strays.accepted,
          strays.fresh, strays.shows, strays.placed, strays.free⟩
    obtain ⟨rest, path, disk', rows, stages, nested⟩ := strays'.stages valid rooted fun _ => rfl
    have ran : args.finalize libs { call with fault := fun _ => none } disk =
        .ok { path := some path } disk' := by
      rw [finalize, rows]
      exact finalize_commits_iff.mpr ⟨stages⟩
    exact not_bundled_of_nested stages rooted plain nested strays.shows
      ((all fun _ => none).returned _ _ ran)
  · intro stays fault
    refine all_or_nothing_of_stays plain rooted ?_
    rintro ⟨first, fps, stamp, made, name, inner, below, strays⟩
    exact stays ⟨first, fps, stamp, made, name, inner, below, strays.begun, strays.dated, strays.complete,
      strays.named, strays.accepted, strays.fresh, strays.shows, strays.placed, strays.free⟩

/-- A requested manifest without `/` cannot lead astray. -/
theorem stays_of_plain (plain : PlainManifest args.ctx.requestedManifest) {captureId : Option Uuid}
    (id : args.captureId = captureId.map Uuid.hex) : ¬ args.GoesAstray libs call disk := by
  rintro ⟨first, fps, stamp, made, name, inner, below, strays⟩
  obtain ⟨d, -, rfl⟩ := dirname_ok_iff.mp strays.dated
  have placed := strays.placed
  rw [id, captureIdOf_hex, finalPath, joined_bundleName,
    (parts_bundleName_iff _ _ _ _).mpr ⟨plain, rfl⟩] at placed
  obtain ⟨parent, last, walked, -, -, eq⟩ := DirTree.place_ok placed
  rw [List.dropLast_concat] at walked
  obtain ⟨rfl, -⟩ := DirTree.resolve_names walked
  have count := congrArg List.length eq
  simp at count

end FinalizeArgs

namespace Demo

/-- One captured row under a requested manifest. -/
def filedUnder (manifest : Option String) : FinalizeArgs Nat Nat where
  recordings := rig.recordings
  ctx := { requestedManifest := manifest }
  rows := [row]
  sources := rig.sources
  recordHz := .fin 0
  captureId := some firstId.hex
  verdict := none

/-- A bundle of the same second that is already there. -/
def shelved : Path := rig.recordings ++ ["20231114T221320__a__cafe0123"]

def shelf : Disk Nat :=
  ⟨[(["run"], .dir), (["run", "data-recordings"], .dir), (shelved, .dir),
    (shelved ++ ["data.parquet"], .file (.foreign []))]⟩

theorem shelf_rooted : shelf.Rooted := DirTree.rooted_of_entries (by decide +kernel)

end Demo

theorem all_or_nothing_iff_unfiled :
    (Demo.filedUnder none).AllOrNothing Demo.libs Demo.quietCall Demo.shelf := by
  have plain : PlainManifest (Demo.filedUnder none).ctx.requestedManifest := fun _ none_ => by cases none_
  have stays : ¬ (Demo.filedUnder none).GoesAstray Demo.libs Demo.quietCall Demo.shelf :=
    FinalizeArgs.stays_of_plain plain (show _ = (some Demo.firstId).map Uuid.hex from rfl)
  exact (FinalizeArgs.all_or_nothing_iff (by decide +kernel) Demo.shelf_rooted).mpr stays
    Demo.quietCall.fault

/-- The manifest `a__cafe0123/b` leads into a bundle that is already there. -/
theorem bundle_inside_bundle :
    validateSources (Demo.filedUnder (some "a__cafe0123/b")).sources = .ok () ∧ Demo.shelf.Rooted ∧
      ¬ (Demo.filedUnder (some "a__cafe0123/b")).AllOrNothing Demo.libs Demo.quietCall Demo.shelf := by
  refine ⟨by decide +kernel, Demo.shelf_rooted, ?_⟩
  intro all
  have strays : (Demo.filedUnder (some "a__cafe0123/b")).Strays Demo.libs Demo.quietCall Demo.row (.fin 30)
      "20231114T221320".toList (Demo.shelf.set ((Demo.filedUnder none).tmp Demo.quietCall) .dir)
      "20231114T221320__a__cafe0123" "b__01234567" [] Demo.shelf :=
    { begun := ⟨rfl, by decide +kernel⟩
      dated := by decide +kernel
      complete := by
        unfold Complete
        decide +kernel
      named := by decide +kernel
      accepted := ⟨(none, []), rfl, rfl⟩
      fresh := by rfl
      shows := by decide +kernel
      placed := by decide +kernel
      free := .inl (by decide +kernel) }
  obtain ⟨rest, path, disk', rows, stages, nested⟩ :=
    strays.stages (by decide +kernel) Demo.shelf_rooted fun _ => rfl
  have ran : (Demo.filedUnder (some "a__cafe0123/b")).finalize Demo.libs Demo.quietCall Demo.shelf =
      .ok { path := some path } disk' := by
    rw [FinalizeArgs.finalize, rows]
    exact finalize_commits_iff.mpr ⟨stages⟩
  exact FinalizeArgs.not_bundled_of_nested stages Demo.shelf_rooted
    (fun s mem video => vid_plain (by decide +kernel) mem video) nested (by decide +kernel)
    (all.returned _ _ ran)

end KoyuRuntime.Services.DataRecorder
