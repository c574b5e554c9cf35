/-
# Services.DataRecorder.BundleName — when a captured episode is committed

A bundle is renamed to `<stamp>__<manifest>__<id>`, and the manifest is whatever
the recording context requests.  `commits_iff` says when that name commits the
bundle as a new direct child of the recordings directory, the writers themselves
succeeding: the requested manifest has no `/`, the spliced name is a legal one and
not taken, the first stamp is a date, and the episode's fps is defined.

* `parts_bundleName_iff`: the spliced name stays one component exactly if the
  manifest has no `/`.
* `writeMedia_fills`: complete rows of a validated recorder are written below the
  temporary directory and nowhere else.
-/
import KoyuRuntime.Services.DataRecorder.Recordings
import KoyuRuntime.Services.DataRecorder.Run

namespace KoyuRuntime.Services.DataRecorder

open Host Theory

set_option autoImplicit false

variable {P V : Type}

/-! ## The measured rate -/

/-- The stamp of the last row. -/
def lastStamp (first : Row V) (rest : List (Row V)) : Int :=
  ((first :: rest).map Prod.fst).getLast?.getD first.1

/-- More than one row, all within one stamp: the measured rate divides by zero. -/
theorem measuredFps_ok_iff {first : Row V} {rest : List (Row V)} {recordHz : Double} :
    (∃ fps, measuredFps ((first :: rest).map Prod.fst) recordHz = .ok fps) ↔
      rest = [] ∨ lastStamp first rest ≠ first.1 := by
  cases rest with
  | nil => simp [measuredFps]
  | cons second others =>
      have span : (((lastStamp first (second :: others) - first.1 : Int) : ℚ) / 1000000000 = 0) ↔
          lastStamp first (second :: others) = first.1 := by
        rw [div_eq_zero_iff, Int.cast_eq_zero, sub_eq_zero]
        norm_num
      have rate : measuredFps ((first :: second :: others).map Prod.fst) recordHz =
          if ((lastStamp first (second :: others) - first.1 : Int) : ℚ) / 1000000000 = 0 then
            .error .zeroDivisionError
          else
            .ok (Double.ofExact (((((first :: second :: others).map Prod.fst).length : ℚ) - 1) /
              (((lastStamp first (second :: others) - first.1 : Int) : ℚ) / 1000000000))) := rfl
      rw [rate]
      by_cases same : lastStamp first (second :: others) = first.1
      · rw [if_pos (span.mpr same)]
        simp [same]
      · rw [if_neg (mt span.mp same)]
        simp [same]

/-! ## The spliced name -/

theorem dirname_ok_iff {ts : Int} {stamp : List Char} :
    dirname ts = .ok stamp ↔ ∃ d, Datetime.fromTimestamp ts = .ok d ∧ d.compact = stamp := by
  unfold dirname
  cases Datetime.fromTimestamp ts <;> simp [Except.map]

/-- The manifest adds no path separator. -/
def PlainManifest (manifest : Option String) : Prop := ∀ m, manifest = some m → '/' ∉ m.toList

section Name

variable (d : Datetime) (manifest : Option String) (u : Uuid)

/-- What stands before the manifest. -/
def nameHead : List Char := d.compact ++ ['_', '_']

/-- What stands for the manifest. -/
def filed : List Char :=
  match manifest with
  | some m => if m = "" then "unfiled".toList else m.toList
  | none => "unfiled".toList

/-- What stands after the manifest. -/
def nameTail : List Char := ['_', '_'] ++ u.hex.toList.take 8

theorem bundleName_eq :
    bundleName d.compact manifest u.hex = nameHead d ++ filed manifest ++ nameTail u := by
  unfold bundleName nameHead filed nameTail
  cases manifest with
  | none => simp
  | some m =>
      by_cases empty : m = ""
      · simp [empty]
      · simp [empty]

theorem filed_plain_iff : '/' ∉ filed manifest ↔ PlainManifest manifest := by
  unfold filed PlainManifest
  cases manifest with
  | none => simp
  | some m =>
      by_cases empty : m = ""
      · simp [empty]
      · simp [empty]

theorem nameHead_length : (nameHead d).length = 17 := by
  simp [nameHead, Datetime.length_compact]

theorem nameTail_length : (nameTail u).length = 10 := by
  simp [nameTail, u.length]

theorem nameHead_plain : '/' ∉ nameHead d := by
  unfold nameHead
  rw [List.mem_append]
  rintro (stamp | bars)
  · exact absurd (Datetime.mem_compact stamp) (by decide)
  · exact absurd bars (by decide)

theorem nameTail_plain : '/' ∉ nameTail u := by
  unfold nameTail
  rw [List.mem_append]
  rintro (bars | id)
  · exact absurd bars (by decide)
  · exact u.not_mem_of_not_hexDigit (by decide) (List.mem_of_mem_take id)

theorem proper_of_length {piece : List Char} (long : 2 < piece.length) :
    proper piece = true ∧ piece ≠ ['.', '.'] := by
  constructor
  · simp only [proper, ne_eq, decide_not, Bool.and_eq_true, Bool.not_eq_true',
      decide_eq_false_iff_not]
    constructor <;> rintro rfl <;> simp at long
  · rintro rfl
    simp at long

/-- **The spliced name stays one component exactly if the manifest has no `/`.** -/
theorem parts_bundleName_iff (name : String) :
    parts (bundleName d.compact manifest u.hex) = [.into name] ↔
      PlainManifest manifest ∧ name = String.ofList (bundleName d.compact manifest u.hex) := by
  rw [bundleName_eq, ← filed_plain_iff]
  by_cases plain : '/' ∈ filed manifest
  · have two := two_le_length_parts (nameHead_plain d)
      (fun more => (proper_of_length (by simp [nameHead_length]; omega)).1) plain (nameTail_plain u)
      (fun more => (proper_of_length (by simp [nameTail_length])).1)
    constructor
    · intro single
      rw [single] at two
      simp at two
    · rintro ⟨clean, -⟩
      exact absurd plain clean
  · have whole : '/' ∉ nameHead d ++ filed manifest ++ nameTail u := by
      simp [nameHead_plain, plain, nameTail_plain]
    have many : 2 < (nameHead d ++ filed manifest ++ nameTail u).length := by
      simp [nameHead_length]
      omega
    have long := proper_of_length many
    rw [parts_of_plain whole long.1 long.2]
    simp [plain, eq_comm]

/-- The spliced name is never absolute. -/
theorem joined_bundleName (recordings : Path) :
    joined recordings (bundleName d.compact manifest u.hex) =
      recordings.map .into ++ parts (bundleName d.compact manifest u.hex) := by
  refine joined_of_relative ?_
  intro absolute
  have mem : '/' ∈ nameHead d := by
    rw [bundleName_eq, List.append_assoc, List.head?_append_of_ne_nil] at absolute
    · exact List.mem_of_mem_head? absolute
    · intro empty
      have := nameHead_length d
      rw [empty] at this
      cases this
  exact nameHead_plain d mem

end Name

/-! ## Complete rows -/

/-- Every row has a value of every source, as captured rows do. -/
def Complete (sources : List (Source P V)) (rows : List (Row V)) : Prop :=
  ∀ row ∈ rows, ∀ s ∈ sources, (row.2.get? s.feature).isSome

section Rows

variable {sources : List (Source P V)} {rows : List (Row V)}

theorem valuesOf_ok {feature : String} (present : ∀ row ∈ rows, (row.2.get? feature).isSome) :
    ∃ values, valuesOf feature rows = .ok values := by
  induction rows with
  | nil => exact ⟨[], rfl⟩
  | cons row rest ih =>
      obtain ⟨v, found⟩ := Option.isSome_iff_exists.mp (present row List.mem_cons_self)
      obtain ⟨values, later⟩ := ih fun r mem => present r (List.mem_cons_of_mem row mem)
      exact ⟨v :: values, by simp [valuesOf, found, later, Except.map]⟩

theorem columns_ok (complete : Complete sources rows) (cols : OrderedDict String (List V)) :
    ∃ table, columns rows sources cols = .ok table := by
  induction sources generalizing cols with
  | nil => exact ⟨cols, rfl⟩
  | cons s rest ih =>
      have others : Complete rest rows := fun row mem s' mem' =>
        complete row mem s' (List.mem_cons_of_mem s mem')
      unfold columns
      split
      · exact ih others cols
      · obtain ⟨values, ok⟩ := valuesOf_ok fun row mem => complete row mem s List.mem_cons_self
        rw [ok]
        exact ih others _

theorem features_ok (libs : Libs V) {first : Row V} (complete : Complete sources [first])
    (feats : OrderedDict String JsonObj) : ∃ all, features libs first.2 sources feats = .ok all := by
  induction sources generalizing feats with
  | nil => exact ⟨feats, rfl⟩
  | cons s rest ih =>
      have others : Complete rest [first] := fun row mem s' mem' =>
        complete row mem s' (List.mem_cons_of_mem s mem')
      unfold features
      split
      · exact ih others _
      · obtain ⟨im, found⟩ := Option.isSome_iff_exists.mp
          (complete first List.mem_cons_self s List.mem_cons_self)
        rw [found]
        exact ih others _

end Rows

/-! ## Filling the temporary directory -/

/-- A directory of files has appeared at `tmp`, and nothing else has changed. -/
structure Fills (tmp : Path) (t t' : Disk V) : Prop where
  outside : ∀ q, ¬ tmp <+: q → t'.get? q = t.get? q
  top : t'.get? tmp = some .dir
  flat : ∀ name, t'.isDir (tmp ++ [name]) = false

namespace Fills

variable {tmp : Path} {t t' : Disk V}

theorem of_mkdir (unused : ∀ q, tmp <+: q → t.get? q = none) : Fills tmp t (t.set tmp .dir) where
  outside q outside := by
    rw [DirTree.get?_set, if_neg]
    rintro rfl
    exact outside (List.prefix_refl _)
  top := by rw [DirTree.get?_set, if_pos rfl]
  flat name := by
    have below : ¬ tmp = tmp ++ [name] := by simp
    rw [Bool.eq_false_iff, Ne, DirTree.isDir_iff, DirTree.get?_set, if_neg below,
      unused _ (List.prefix_append tmp [name])]
    simp

/-- One more file goes in under any name. -/
theorem write (fills : Fills tmp t t') (name : String) (content : FileData V) :
    ∃ t'', t'.writeFile (tmp ++ [name]) content = .ok t'' ∧ Fills tmp t t'' := by
  have parent : t'.isDir (tmp ++ [name]).dropLast = true := by
    rw [List.dropLast_concat, DirTree.isDir_iff]
    exact .inr fills.top
  refine ⟨_, DirTree.writeFile_ok_iff.mpr ⟨parent, fills.flat name, rfl⟩, ?_, ?_, ?_⟩
  · intro q outside
    rw [DirTree.get?_set, if_neg, fills.outside q outside]
    rintro rfl
    exact outside (List.prefix_append tmp [name])
  · rw [DirTree.get?_set, if_neg (by simp), fills.top]
  · intro other
    rw [Bool.eq_false_iff, Ne, DirTree.isDir_iff, DirTree.get?_set]
    split
    · simp
    · rw [← DirTree.isDir_iff, fills.flat other]
      simp

/-- Directories outside are still there to walk through. -/
theorem resolves (fills : Fills tmp t t') (unused : ∀ q, tmp <+: q → t.get? q = none)
    {hops : List (Hop String)} {dir : Path} (walked : DirTree.resolve legalName t [] hops = .ok dir) :
    DirTree.resolve legalName t' [] hops = .ok dir := by
  refine DirTree.resolve_congr legalName ?_ walked
  intro p there
  rw [fills.outside p, there]
  intro below
  rw [unused p below] at there
  cases there

end Fills

theorem legalName_tmp (u : Uuid) : legalName (".tmp-" ++ u.hex) = true := by
  have spelled : ".tmp-" ++ u.hex = String.ofList (['.', 't', 'm', 'p', '-'] ++ u.hex.toList) := by
    rw [← String.toList_inj]
    simp
  rw [spelled]
  refine legalName_of_ascii (by simp [u.length, nameMax]) ?_
  intro c mem
  rcases List.mem_append.mp mem with dot | digit
  · have all : ['.', 't', 'm', 'p', '-'].all fun c => c.utf8Size = 1 ∧ c ≠ Char.ofNat 0 := by decide
    exact of_decide_eq_true (List.all_eq_true.mp all c dot)
  · have all : hexDigits.all fun c => c.utf8Size = 1 ∧ c ≠ Char.ofNat 0 := by decide
    exact of_decide_eq_true (List.all_eq_true.mp all c (u.digits c digit))

/-! ## What is given -/

/-- The writers succeed: a validated recorder, complete rows, an existing recordings
directory, no library step that raises on its own account, and a sidecar that
pydantic accepts. -/
structure WritersSucceed (libs : Libs V) (call : Call) (recordings : Path) (rows : List (Row V))
    (sources : List (Source P V)) (verdict : Option JsonObj) (disk : Disk V) : Prop where
  valid : validateSources sources = .ok ()
  complete : Complete sources rows
  there : DirTree.resolve legalName disk [] (recordings.map .into) = .ok recordings
  unused : ∀ q, tmpDir recordings call <+: q → disk.get? q = none
  quiet : ∀ step, call.fault step = none
  named : ∀ s ∈ sources, s.kind = .video → legalName (vid s.feature) = true
  accepted : ∃ fields, verdictFields libs.pydantic verdict = .ok fields ∧
    libs.pydantic.encodable fields.2 = true

section Writers

variable {libs : Libs V} {call : Call} {recordings : Path} {rows : List (Row V)}
  {sources : List (Source P V)} {verdict : Option JsonObj} {disk : Disk V}

/-- A plain, legal name goes into the temporary directory. -/
theorem writeAt_ok (writers : WritersSucceed libs call recordings rows sources verdict disk)
    {t : Disk V} (fills : Fills (tmpDir recordings call) disk t) {name : String}
    (plain : '/' ∉ name.toList) (long : 2 < name.toList.length) (legal : legalName name = true)
    (content : FileData V) :
    ∃ t', writeAt (tmpDir recordings call) name content t = .ok t' ∧
      Fills (tmpDir recordings call) disk t' := by
  obtain ⟨t', wrote, fills'⟩ := fills.write name content
  refine ⟨t', ?_, fills'⟩
  have relative : name.toList.head? ≠ some '/' := fun absolute =>
    plain (List.mem_of_mem_head? absolute)
  have walked : DirTree.resolve legalName t [] ((tmpDir recordings call).map .into) =
      .ok (tmpDir recordings call) := by
    have top := fills.top
    rw [tmpDir] at top ⊢
    simp [DirTree.resolve_append, fills.resolves writers.unused writers.there, DirTree.resolve,
      legalName_tmp, top]
  obtain ⟨kept, dots⟩ := proper_of_length long
  rw [writeAt, joined_of_relative relative, parts_of_plain plain kept dots, String.ofList_toList,
    DirTree.place_of_plain walked, if_pos legal]
  exact wrote

theorem encodeVideos_fills (writers : WritersSucceed libs call recordings rows sources verdict disk)
    (fps : Double) {some_ : List (Source P V)} (among : some_ ⊆ sources) {t : Disk V}
    (fills : Fills (tmpDir recordings call) disk t) :
    ∃ t', encodeVideos call (tmpDir recordings call) rows fps some_ t = .ok () t' ∧
      Fills (tmpDir recordings call) disk t' := by
  induction some_ generalizing t with
  | nil => exact ⟨t, rfl, fills⟩
  | cons s rest ih =>
      have mem : s ∈ sources := among List.mem_cons_self
      have later := fun t => ih (t := t) fun s' mem' => among (List.mem_cons_of_mem s mem')
      cases video : s.kind with
      | column =>
          simp only [encodeVideos, video]
          exact later t fills
      | video =>
          obtain ⟨frames, ok⟩ := valuesOf_ok fun row mem' => writers.complete row mem' s mem
          obtain ⟨mid, wrote, fills'⟩ := writeAt_ok writers fills (vid_plain writers.valid mem video)
            (by simp [vid]) (writers.named s mem video) (.mp4 frames fps)
          obtain ⟨t', rest', fills''⟩ := later mid fills'
          simp only [encodeVideos, video]
          refine ⟨t', bind_ok_iff.mpr ⟨(), mid, ?_, rest'⟩, fills''⟩
          exact bind_ok_iff.mpr ⟨frames, t, check_ok_iff.mpr ⟨ok, rfl⟩,
            attempt_ok_iff.mpr ⟨writers.quiet _, wrote⟩⟩

/-- **The media go below the temporary directory and nowhere else.** -/
theorem writeMedia_fills (writers : WritersSucceed libs call recordings rows sources verdict disk)
    (fps : Double) :
    ∃ media, writeMedia call (tmpDir recordings call) rows fps sources disk = .ok () media ∧
      Fills (tmpDir recordings call) disk media := by
  have absent := writers.unused _ (List.prefix_refl (tmpDir recordings call))
  obtain ⟨cols, ok⟩ := columns_ok writers.complete ∅
  have fills := Fills.of_mkdir writers.unused
  obtain ⟨table, parquet, fills'⟩ := fills.write "data.parquet"
    (.parquet (parquetTable (rows.map Prod.fst) cols))
  obtain ⟨media, videos, fills''⟩ := encodeVideos_fills writers fps (List.Subset.refl sources) fills'
  refine ⟨media, ?_, fills''⟩
  simp only [writeMedia, bind_ok_iff, check_ok_iff, attempt_ok_iff]
  exact ⟨(), _, ⟨writers.quiet _, DirTree.mkdirParents_of_resolve writers.there absent⟩, cols, _,
    ⟨ok, rfl⟩, (), table, ⟨writers.quiet _, parquet⟩, videos⟩

end Writers

/-! ## The commit -/

section Commit

variable (libs : Libs V) (call : Call) (recordings : Path) (ctx : RecordingContext)
  (first : Row V) (rest : List (Row V)) (sources : List (Source P V)) (recordHz : Double)
  (captureId : Option Uuid) (verdict : Option JsonObj) (disk : Disk V)

/-- The id the bundle is named after: the capture's, or a fresh one. -/
def bundleId : Uuid := captureId.getD call.defaultId

/-- The path of the bundle, if its name is plain. -/
def bundleAt (d : Datetime) : Path :=
  recordings ++
    [String.ofList (bundleName d.compact ctx.requestedManifest (bundleId call captureId).hex)]

/-- `finalize` commits the bundle as a new direct child of the recordings directory
and returns its path. -/
def CommitsChild : Prop :=
  ∃ name disk',
    finalize libs call recordings ctx (first :: rest) sources recordHz (captureId.map Uuid.hex) verdict
        disk = .ok { path := some (recordings.map .into ++ [.into name]) } disk' ∧
      disk.get? (recordings ++ [name]) = none ∧
      disk'.get? (recordings ++ [name]) = some .dir ∧
      ∃ sc, disk'.get? (episodeAt (recordings ++ [name])) = some (.file (.episode sc)) ∧
        sc.captureId = (bundleId call captureId).hex

/-- The first stamp is a date, the rate is defined, and the spliced name is plain,
legal and not taken. -/
structure Fileable (d : Datetime) : Prop where
  dated : Datetime.fromTimestamp first.1 = .ok d
  timed : rest = [] ∨ lastStamp first rest ≠ first.1
  plain : PlainManifest ctx.requestedManifest
  legal : legalName
    (String.ofList (bundleName d.compact ctx.requestedManifest (bundleId call captureId).hex)) = true
  untaken : disk.get? (bundleAt call recordings ctx captureId d) = none

variable {libs call recordings ctx first rest sources recordHz captureId verdict disk}

/-- A bundle's name is never that of a temporary directory. -/
theorem bundleName_ne_tmp (d : Datetime) (manifest : Option String) (u v : Uuid) :
    String.ofList (bundleName d.compact manifest u.hex) ≠ ".tmp-" ++ v.hex := by
  intro same
  have chars := congrArg String.toList same
  rw [String.toList_ofList, String.toList_append, bundleName_eq] at chars
  have bar : '_' ∈ nameHead d ++ filed manifest ++ nameTail u := by simp [nameHead]
  rw [chars, List.mem_append] at bar
  rcases bar with dot | digit
  · exact absurd dot (by decide)
  · exact v.not_mem_of_not_hexDigit (by decide) digit

theorem fileable_of_commits
    (commits : CommitsChild libs call recordings ctx first rest sources recordHz captureId verdict disk) :
    ∃ d, Fileable call recordings ctx first rest captureId disk d := by
  obtain ⟨name, disk', ran, absent, -, -⟩ := commits
  obtain ⟨stages⟩ := finalize_commits_iff.mp ran
  obtain ⟨d, dated, stamp⟩ := dirname_ok_iff.mp stages.dated
  have target := stages.target
  rw [stages.captureId_eq, captureIdOf_hex, ← stamp, finalPath, joined_bundleName] at target
  obtain ⟨plain, spelled⟩ := (parts_bundleName_iff _ _ _ _).mp (List.append_cancel_left target).symm
  obtain ⟨parent, last, -, legal, isLast, -⟩ := DirTree.place_ok stages.placed
  rw [List.getLast?_concat, Option.some.injEq, Hop.into.injEq] at isLast
  refine ⟨d, dated, measuredFps_ok_iff.mp ⟨_, stages.rate⟩, plain, ?_, ?_⟩
  · rw [bundleId, ← spelled, isLast]
    exact legal
  · rw [bundleAt, bundleId, ← spelled]
    exact absent

variable (libs call ctx recordHz) in
theorem captureFacts_ok {d : Datetime} (dated : Datetime.fromTimestamp first.1 = .ok d)
    (complete : Complete sources [first]) (n : Nat) (fps : Double) (id : Option String) :
    ∃ facts, captureFacts libs call ctx first n fps sources recordHz id = .ok facts ∧
      facts.captureId = captureIdOf call id := by
  obtain ⟨feats, described⟩ := features_ok libs complete ∅
  exact ⟨_, captureFacts_ok_iff.mpr ⟨d, feats, dated, described, rfl⟩, rfl⟩

theorem commits_of_fileable
    (writers : WritersSucceed libs call recordings (first :: rest) sources verdict disk) {d : Datetime}
    (fileable : Fileable call recordings ctx first rest captureId disk d) :
    CommitsChild libs call recordings ctx first rest sources recordHz captureId verdict disk := by
  obtain ⟨fps, rate⟩ : ∃ fps, measuredFps ((first :: rest).map Prod.fst) recordHz = .ok fps :=
    measuredFps_ok_iff.mpr fileable.timed
  obtain ⟨media, encoded, fills⟩ := writeMedia_fills writers fps
  obtain ⟨fields, accepted, encodable⟩ := writers.accepted
  have complete : Complete sources [first] := fun row mem =>
    writers.complete row (List.mem_singleton.mp mem ▸ List.mem_cons_self)
  obtain ⟨facts, captured, named⟩ := captureFacts_ok libs call ctx recordHz fileable.dated complete
    (first :: rest).length fps (captureId.map Uuid.hex)
  rw [captureIdOf_hex] at named
  obtain ⟨written, text, fills'⟩ := fills.write "episode.json" (.episode (judged facts fields))
  -- the name is one legal component next to the temporary directory
  have target : finalPath recordings d.compact ctx.requestedManifest facts.captureId =
      recordings.map .into ++
        [.into (String.ofList (bundleName d.compact ctx.requestedManifest (bundleId call captureId).hex))] := by
    rw [named, finalPath, joined_bundleName, bundleId,
      (parts_bundleName_iff _ _ _ _).mpr ⟨fileable.plain, rfl⟩]
  have placed : DirTree.place legalName written
      (finalPath recordings d.compact ctx.requestedManifest facts.captureId) =
        .ok (bundleAt call recordings ctx captureId d) := by
    rw [target, DirTree.place_of_plain (fills'.resolves writers.unused writers.there),
      if_pos fileable.legal, bundleAt]
  have other : String.ofList (bundleName d.compact ctx.requestedManifest (bundleId call captureId).hex) ≠
      ".tmp-" ++ call.tmpId.hex := bundleName_ne_tmp d _ _ _
  have below : ¬ tmpDir recordings call <+: bundleAt call recordings ctx captureId d :=
    DirTree.not_prefix_sibling other.symm
  have above : ¬ bundleAt call recordings ctx captureId d <+: tmpDir recordings call :=
    DirTree.not_prefix_sibling other
  have free : written.get? (bundleAt call recordings ctx captureId d) = none := by
    rw [fills'.outside _ below, fileable.untaken]
  have moved := DirTree.rename_fresh fills'.top free below above
  let stages : Stages libs call recordings ctx first rest sources recordHz (captureId.map Uuid.hex)
      verdict disk _ _ :=
    ⟨fps, media, facts, fields, d.compact, written, bundleAt call recordings ctx captureId d, rate, encoded,
      captured, accepted, encodable, writers.quiet _, text, dirname_ok_iff.mpr ⟨d, fileable.dated, rfl⟩, rfl,
      writers.quiet _, placed, moved⟩
  refine ⟨_, _, finalize_commits_iff.mpr ?_, fileable.untaken, ?_, _, stages.episode, ?_⟩
  · rw [← target]
    exact ⟨stages⟩
  · have dir := DirTree.rename_below fills'.top moved []
    rwa [List.append_nil, List.append_nil, fills'.top] at dir
  · exact named

/-- **A captured episode is committed exactly if its bundle is fileable**, for every
context, row list and recordings directory in which the writers succeed. -/
theorem commits_iff
    (writers : WritersSucceed libs call recordings (first :: rest) sources verdict disk) :
    CommitsChild libs call recordings ctx first rest sources recordHz captureId verdict disk ↔
      ∃ d, Fileable call recordings ctx first rest captureId disk d := by
  constructor
  · exact fileable_of_commits
  · rintro ⟨d, fileable⟩
    exact commits_of_fileable writers fileable

end Commit

namespace Demo

theorem writers_succeed :
    WritersSucceed libs quietCall rig.recordings [row] rig.sources none boot.world.disk where
  valid := by decide +kernel
  complete := by
    unfold Complete
    decide +kernel
  there := by decide +kernel
  unused := fun _ => DirTree.get?_of_unlisted (by decide +kernel)
  quiet := fun _ => rfl
  named := by decide +kernel
  accepted := ⟨(none, []), rfl, rfl⟩

end Demo

theorem commits_iff_unfiled :
    CommitsChild Demo.libs Demo.quietCall Demo.rig.recordings {} Demo.row [] Demo.rig.sources (.fin 0)
      (some Demo.firstId) none Demo.boot.world.disk :=
  (commits_iff Demo.writers_succeed).mpr
    ⟨⟨1700000000000000⟩, rfl, .inl rfl, fun _ none => (Option.some_ne_none _ none.symm).elim,
      by decide +kernel, by decide +kernel⟩

/-- A manifest `a/b` names a directory that does not exist: the rename raises and
the episode's data are removed. -/
theorem slash_costs_episode :
    WritersSucceed Demo.libs Demo.quietCall Demo.rig.recordings [Demo.row] Demo.rig.sources none
        Demo.boot.world.disk ∧
      ¬ CommitsChild Demo.libs Demo.quietCall Demo.rig.recordings { requestedManifest := some "a/b" }
        Demo.row [] Demo.rig.sources (.fin 0) (some Demo.firstId) none Demo.boot.world.disk := by
  refine ⟨Demo.writers_succeed, ?_⟩
  rintro ⟨name, disk', ran, -⟩
  have raised : (returned (finalize Demo.libs Demo.quietCall Demo.rig.recordings
      { requestedManifest := some "a/b" } [Demo.row] Demo.rig.sources (.fin 0)
      ((some Demo.firstId).map Uuid.hex) none Demo.boot.world.disk)).isNone = true := by
    decide +kernel
  rw [ran] at raised
  cases raised

end KoyuRuntime.Services.DataRecorder
