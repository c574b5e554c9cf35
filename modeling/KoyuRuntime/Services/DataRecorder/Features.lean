/-
# Services.DataRecorder.Features — what a bundle keeps of every source

A source's values pass through three dictionaries keyed by its feature, the row, the
columns and the table, and a video's through a file name.  The checks of `setup` look at
the video features only, so two columns of one feature, a column named like the table's
own two, or a column named like a video overwrite one another.

* `row_get?`: what a row holds under a feature all of whose sources agree.
* `parquet_entries`: the table's columns, when their names differ.
* `keeps_data_iff`: a bundle keeps the values of every source exactly if the columns have
  names of their own and agree with any video of the same name.
-/
import KoyuRuntime.Services.DataRecorder.Atomicity
import KoyuRuntime.Services.DataRecorder.Alignment

namespace KoyuRuntime.Services.DataRecorder

open Host Theory

set_option autoImplicit false

variable {P V : Type}

/-! ## Captured rows -/

/-- A clock frame that became a row, and the caches at that moment. -/
structure Shot (P V : Type) where
  frame : Ipc.Sample P
  cap : Capture P V

namespace Shot

/-- The row `_frame` appends. -/
def row (cfg : Config P V) (shot : Shot P V) : Row V :=
  (shot.frame.stamp, rowValues cfg shot.cap shot.frame)

/-- The value extracted from a source other than the clock. -/
def own (shot : Shot P V) (s : Source P V) : Option V :=
  (sampleFor shot.cap shot.frame.frameId s).map s.extract

/-- Every source other than the clock has a sample for the frame. -/
def Sampled (cfg : Config P V) (shot : Shot P V) : Prop := ∀ s ∈ cfg.others, (shot.own s).isSome

variable {cfg : Config P V} {shot : Shot P V}

/-- **One row**: under a feature whose sources agree it holds their value. -/
theorem row_get? {feature : String} {v : V}
    (some_ : cfg.clock.feature = feature ∨ ∃ s ∈ cfg.others, s.feature = feature ∧ (shot.own s).isSome)
    (clock : cfg.clock.feature = feature → cfg.clock.extract shot.frame = v)
    (others : ∀ s ∈ cfg.others, s.feature = feature → ∀ v', shot.own s = some v' → v' = v) :
    (shot.row cfg).2.get? feature = some v := by
  have present : feature ∈ (shot.row cfg).2.keys := by
    refine OrderedDict.mem_keys_setAll _ _ ?_
    rcases some_ with same | ⟨s, mem, same, sampled⟩
    · exact .inl (OrderedDict.mem_keys_setAll _ _ (.inr (by simp [same])))
    · obtain ⟨v', own⟩ := Option.isSome_iff_exists.mp sampled
      obtain ⟨x, found, -⟩ := Option.map_eq_some_iff.mp own
      refine .inr (List.mem_map.mpr ⟨(s.feature, s.extract x), ?_, same⟩)
      exact List.mem_filterMap.mpr ⟨s, mem, by rw [found]; rfl⟩
  obtain ⟨v', found⟩ := Option.isSome_iff_exists.mp (OrderedDict.mem_keys_iff.mp present)
  suffices v' = v from this ▸ found
  rcases OrderedDict.get?_setAll_cases _ _ found with written | first
  · obtain ⟨s, mem, entry⟩ := List.mem_filterMap.mp written
    obtain ⟨x, sample, pair⟩ := Option.map_eq_some_iff.mp entry
    cases pair
    exact others s mem rfl _ (by rw [own, sample]; rfl)
  · have only := OrderedDict.mem_of_get?_ofList first
    cases List.mem_singleton.mp only
    exact clock rfl

end Shot

/-! ## Reading rows back -/

theorem valuesOf_ok_iff {feature : String} {rows : List (Row V)} {values : List V} :
    valuesOf feature rows = .ok values ↔
      rows.map (fun row => row.2.get? feature) = values.map some := by
  induction rows generalizing values with
  | nil => cases values <;> simp [valuesOf]
  | cons row rest ih =>
      cases found : row.2.get? feature with
      | none => cases values <;> simp [valuesOf, found]
      | some v =>
          cases later : valuesOf feature rest with
          | error e =>
              have none_ : ∀ vs : List V, rest.map (fun row => row.2.get? feature) ≠ vs.map some := by
                intro vs same
                rw [ih.mpr same] at later
                cases later
              cases values with
              | nil => simp [valuesOf, found, later, Except.map]
              | cons v' vs => simp [valuesOf, found, later, Except.map, none_ vs]
          | ok vs =>
              have same := ih.mp later
              cases values with
              | nil => simp [valuesOf, found, later, Except.map]
              | cons v' vs' =>
                  simp only [valuesOf, found, later, Except.map, List.map_cons, same, Except.ok.injEq,
                    List.cons.injEq, Option.some.injEq]
                  rw [List.map_inj_right fun _ _ => Option.some.inj]

/-- What the rows hold under a feature. -/
def readBack (rows : List (Row V)) (feature : String) : List V :=
  rows.filterMap fun row => row.2.get? feature

theorem readBack_of_ok {feature : String} {rows : List (Row V)} {values : List V}
    (read : valuesOf feature rows = .ok values) : values = readBack rows feature := by
  have same := congrArg (List.filterMap id) (valuesOf_ok_iff.mp read)
  simpa [readBack, List.filterMap_map, Function.comp_def] using same.symm

/-- The column sources' share of a list of sources. -/
def columnSources (sources : List (Source P V)) : List (Source P V) :=
  sources.filter fun s => s.kind = .column

theorem columns_setAll {rows : List (Row V)} {sources : List (Source P V)}
    {cols table : OrderedDict String (List V)} (read : columns rows sources cols = .ok table) :
    table = cols.setAll ((columnSources sources).map fun s => (s.feature, readBack rows s.feature)) := by
  induction sources generalizing cols with
  | nil =>
      cases read
      rfl
  | cons s rest ih =>
      cases kind : s.kind with
      | video =>
          simp only [columns, kind] at read
          simpa [columnSources, kind] using ih read
      | column =>
          simp only [columns, kind] at read
          cases values : valuesOf s.feature rows with
          | error e => simp [values] at read
          | ok vs =>
              rw [values] at read
              rw [readBack_of_ok values] at read
              have later := ih read
              simpa [columnSources, kind, OrderedDict.setAll] using later

/-- The two columns every table begins with. -/
def spine (ts : List Int) : List (String × Column V) :=
  [("step", .int64 ((List.range ts.length).map Int.ofNat)), ("timestamp", .int64 ts)]

theorem parquetTable_eq (ts : List Int) (cols : OrderedDict String (List V)) :
    parquetTable ts cols =
      (OrderedDict.ofList (spine ts)).setAll (cols.entries.map fun c => (c.1, .vectors c.2)) := by
  unfold parquetTable OrderedDict.setAll
  rw [List.foldl_map]
  rfl

/-- **The table**: the spine, and then the columns as they were written. -/
theorem parquet_entries {ts : List Int} {cols : OrderedDict String (List V)}
    (apart : (["step", "timestamp"] ++ cols.keys).Nodup) :
    (parquetTable ts cols).entries = spine ts ++ cols.entries.map fun c => (c.1, .vectors c.2) := by
  have first : (OrderedDict.ofList (spine ts : List (String × Column V))).entries = spine ts :=
    OrderedDict.entries_ofList _ (by simp [spine])
  rw [parquetTable_eq, OrderedDict.entries_setAll, first]
  rw [OrderedDict.keys, first]
  simpa [spine, OrderedDict.keys, List.map_map, Function.comp_def] using apart

/-! ## The bundle -/

/-- The values extracted from a source other than the clock, shot by shot. -/
def ownValues (shots : List (Shot P V)) (s : Source P V) : List V := shots.filterMap fun shot => shot.own s

/-- The bundle at a directory holds every source's values under its own feature. -/
structure KeepsData (cfg : Config P V) (shots : List (Shot P V)) (dir : Path) (t : Disk V) : Prop where
  table : ∃ table, t.get? (dir ++ ["data.parquet"]) = some (.file (.parquet table)) ∧
    table.entries = spine (shots.map fun shot => shot.frame.stamp) ++
      (columnSources cfg.others).map fun s => (s.feature, .vectors (ownValues shots s))
  clock : ∃ fps, t.get? (dir ++ [vid cfg.clock.feature]) =
    some (.file (.mp4 (shots.map fun shot => cfg.clock.extract shot.frame) fps))
  videos : ∀ s ∈ cfg.others, s.kind = .video → ∃ fps,
    t.get? (dir ++ [vid s.feature]) = some (.file (.mp4 (ownValues shots s) fps))
  files : ((cfg.sources.filter fun s => s.kind = .video).map fun s => vid s.feature).Nodup

/-- The columns have names of their own, none of them is a name of the spine, and where a
column has the name of a video the two contribute the same values. -/
structure KeysApart (cfg : Config P V) (shots : List (Shot P V)) : Prop where
  columns : (["step", "timestamp"] ++ (columnSources cfg.others).map Source.feature).Nodup
  clock : ∀ c ∈ columnSources cfg.others, c.feature = cfg.clock.feature →
    ∀ shot ∈ shots, shot.own c = some (cfg.clock.extract shot.frame)
  videos : ∀ s ∈ cfg.others, s.kind = .video → ∀ c ∈ columnSources cfg.others, c.feature = s.feature →
    ∀ shot ∈ shots, shot.own c = shot.own s

section Keeps

variable {cfg : Config P V} {shots : List (Shot P V)}

theorem mem_columnSources {sources : List (Source P V)} {s : Source P V} :
    s ∈ columnSources sources ↔ s ∈ sources ∧ s.kind = .column := by
  simp [columnSources]

theorem column_of_not_video {s : Source P V} (other : s.kind ≠ .video) : s.kind = .column := by
  cases kind : s.kind with
  | video => exact absurd kind other
  | column => rfl

/-- The clock is a video: every column source is another one. -/
theorem columnSources_sources (cfg : Config P V) :
    columnSources cfg.sources = columnSources cfg.others := by
  have clock := (splitClock_spec cfg.split).2
  rw [columnSources, (splitClock_spec cfg.split).1, List.filter_append, List.filter_cons_of_neg (by simp [clock]),
    columnSources, Config.others, List.filter_append]

/-- No other video has the clock's feature, and no two of them have the same. -/
theorem videos_apart (valid : validateSources cfg.sources = .ok ()) :
    (∀ s ∈ cfg.others, s.kind = .video → s.feature ≠ cfg.clock.feature) ∧
      ∀ s ∈ cfg.others, s.kind = .video → ∀ s' ∈ cfg.others, s'.kind = .video →
        s.feature = s'.feature → s = s' := by
  have clock := (splitClock_spec cfg.split).2
  have perm := (cfg.sources_perm.filter fun s => decide (s.kind = .video)).map Source.feature
  have distinct := perm.nodup_iff.mp (videos_distinct valid)
  rw [List.filter_cons_of_pos (by simp [clock]), List.map_cons, List.nodup_cons] at distinct
  constructor
  · intro s mem video same
    exact distinct.1 (List.mem_map.mpr ⟨s, by simp [mem, video], same⟩)
  · intro s mem video s' mem' video' same
    exact List.inj_on_of_nodup_map distinct.2 (by simp [mem, video]) (by simp [mem', video']) same

/-- The values of a source, told by the rows. -/
theorem valuesOf_own_iff (sampled : ∀ shot ∈ shots, shot.Sampled cfg) {s : Source P V}
    (mem : s ∈ cfg.others) :
    valuesOf s.feature (shots.map (Shot.row cfg)) = .ok (ownValues shots s) ↔
      ∀ shot ∈ shots, (shot.row cfg).2.get? s.feature = shot.own s := by
  have own : (ownValues shots s).map some = shots.map fun shot => shot.own s := by
    unfold ownValues
    induction shots with
    | nil => rfl
    | cons shot rest ih =>
        obtain ⟨v, found⟩ := Option.isSome_iff_exists.mp (sampled shot List.mem_cons_self s mem)
        have later := ih fun shot' mem' => sampled shot' (List.mem_cons_of_mem shot mem')
        simp [found, later]
  rw [valuesOf_ok_iff, own, List.map_map, List.map_inj_left]
  exact Iff.rfl

theorem valuesOf_clock_iff :
    valuesOf cfg.clock.feature (shots.map (Shot.row cfg)) =
        .ok (shots.map fun shot => cfg.clock.extract shot.frame) ↔
      ∀ shot ∈ shots, (shot.row cfg).2.get? cfg.clock.feature = some (cfg.clock.extract shot.frame) := by
  rw [valuesOf_ok_iff, List.map_map, List.map_map, List.map_inj_left]
  exact Iff.rfl

/-- Sources with names apart are read back as they were extracted. -/
theorem KeysApart.rows (apart : KeysApart cfg shots) (valid : validateSources cfg.sources = .ok ())
    (sampled : ∀ shot ∈ shots, shot.Sampled cfg) :
    (∀ shot ∈ shots, (shot.row cfg).2.get? cfg.clock.feature = some (cfg.clock.extract shot.frame)) ∧
      ∀ s ∈ cfg.others, ∀ shot ∈ shots, (shot.row cfg).2.get? s.feature = shot.own s := by
  obtain ⟨clockApart, othersApart⟩ := videos_apart valid
  have columnsApart := (List.nodup_append.mp apart.columns).2.1
  constructor
  · intro shot inShots
    refine Shot.row_get? (.inl rfl) (fun _ => rfl) ?_
    intro c mem same v' own
    have column := column_of_not_video fun video => clockApart c mem video same
    have := apart.clock c (mem_columnSources.mpr ⟨mem, column⟩) same shot inShots
    rw [own] at this
    exact Option.some.inj this
  · intro s mem shot inShots
    obtain ⟨v, found⟩ := Option.isSome_iff_exists.mp (sampled shot inShots s mem)
    rw [found]
    refine Shot.row_get? (.inr ⟨s, mem, rfl, by rw [found]; rfl⟩) ?_ ?_
    · intro same
      have column := column_of_not_video fun video => clockApart s mem video same.symm
      have := apart.clock s (mem_columnSources.mpr ⟨mem, column⟩) same.symm shot inShots
      rw [found] at this
      exact (Option.some.inj this).symm
    · intro s' mem' same v' own
      suffices agree : shot.own s' = shot.own s by
        rw [own, found] at agree
        exact Option.some.inj agree
      cases kind : s.kind with
      | video =>
          cases kind' : s'.kind with
          | video => rw [othersApart s' mem' kind' s mem kind same]
          | column =>
              exact apart.videos s mem kind s' (mem_columnSources.mpr ⟨mem', kind'⟩) same shot inShots
      | column =>
          have here := mem_columnSources.mpr ⟨mem, kind⟩
          cases kind' : s'.kind with
          | video => exact (apart.videos s' mem' kind' s here same.symm shot inShots).symm
          | column =>
              rw [List.inj_on_of_nodup_map columnsApart (mem_columnSources.mpr ⟨mem', kind'⟩) here same]

/-- Rows that read back as extracted agree wherever features meet. -/
theorem keysApart_of_rows
    (columns : (["step", "timestamp"] ++ (columnSources cfg.others).map Source.feature).Nodup)
    (clock : ∀ shot ∈ shots,
      (shot.row cfg).2.get? cfg.clock.feature = some (cfg.clock.extract shot.frame))
    (others : ∀ s ∈ cfg.others, ∀ shot ∈ shots, (shot.row cfg).2.get? s.feature = shot.own s) :
    KeysApart cfg shots where
  columns := columns
  clock := by
    intro c mem same shot inShots
    rw [← others c (mem_columnSources.mp mem).1 shot inShots, same, clock shot inShots]
  videos := by
    intro s mem _ c mem' same shot inShots
    rw [← others c (mem_columnSources.mp mem').1 shot inShots, same, others s mem shot inShots]

theorem mem_sources : ∀ s, s ∈ cfg.sources ↔ s = cfg.clock ∨ s ∈ cfg.others := by
  intro s
  rw [cfg.sources_perm.mem_iff, List.mem_cons]

variable {libs : Libs V} {call : Call} {args : FinalizeArgs P V} {dir : Path} {t : Disk V}

/-- The columns of a table whose keys do not meet. -/
theorem table_entries {cols : OrderedDict String (List V)}
    (read : columns (shots.map (Shot.row cfg)) cfg.sources ∅ = .ok cols)
    (columns : (["step", "timestamp"] ++ (columnSources cfg.others).map Source.feature).Nodup) :
    (parquetTable ((shots.map (Shot.row cfg)).map Prod.fst) cols).entries =
      spine (shots.map fun shot => shot.frame.stamp) ++ (columnSources cfg.others).map fun s =>
        (s.feature, .vectors (readBack (shots.map (Shot.row cfg)) s.feature)) := by
  have stamps : (shots.map (Shot.row cfg)).map Prod.fst = shots.map fun shot => shot.frame.stamp := by
    rw [List.map_map]
    rfl
  have names : (columnSources cfg.others).map Source.feature =
      ((columnSources cfg.others).map fun s =>
        (s.feature, readBack (shots.map (Shot.row cfg)) s.feature)).map Prod.fst := by
    rw [List.map_map]
    rfl
  have entries : cols.entries = (columnSources cfg.others).map fun s =>
      (s.feature, readBack (shots.map (Shot.row cfg)) s.feature) := by
    rw [columns_setAll read, columnSources_sources]
    refine OrderedDict.entries_ofList _ ?_
    rw [← names]
    exact (List.nodup_append.mp columns).2.1
  rw [parquet_entries (by rwa [OrderedDict.keys, entries, ← names]), stamps, entries, List.map_map]
  rfl

/-- What a complete bundle keeps of every source, it keeps under a name of its own. -/
theorem keysApart_of_keeps (sampled : ∀ shot ∈ shots, shot.Sampled cfg) (sources : args.sources = cfg.sources)
    (rows : args.rows = shots.map (Shot.row cfg)) (complete : args.CompleteBundle libs call dir t)
    (keeps : KeepsData cfg shots dir t) : KeysApart cfg shots := by
  obtain ⟨cols, read, file⟩ := complete.parquet
  obtain ⟨first, fps, -, encoded⟩ := complete.videos
  rw [sources] at encoded read
  rw [rows] at encoded read file
  obtain ⟨table, here, entries⟩ := keeps.table
  cases Option.some.inj (file.symm.trans here)
  have columns : (["step", "timestamp"] ++ (columnSources cfg.others).map Source.feature).Nodup := by
    have keys := (parquetTable ((shots.map (Shot.row cfg)).map Prod.fst) cols).nodup
    rw [entries] at keys
    simpa [spine, List.map_map, Function.comp_def] using keys
  rw [table_entries read columns] at entries
  have same := List.map_inj_left.mp (List.append_cancel_left entries)
  refine keysApart_of_rows columns ?_ ?_
  · obtain ⟨frames, values, mp4⟩ := encoded cfg.clock ((mem_sources _).mpr (.inl rfl)) (splitClock_spec cfg.split).2
    obtain ⟨fps', kept⟩ := keeps.clock
    cases Option.some.inj (mp4.symm.trans kept)
    exact valuesOf_clock_iff.mp values
  · intro s mem
    refine (valuesOf_own_iff sampled mem).mp ?_
    cases kind : s.kind with
    | video =>
        obtain ⟨frames, values, mp4⟩ := encoded s ((mem_sources _).mpr (.inr mem)) kind
        obtain ⟨fps', kept⟩ := keeps.videos s mem kind
        cases Option.some.inj (mp4.symm.trans kept)
        exact values
    | column =>
        have present := FinalizeArgs.columns_present read s ((mem_sources _).mpr (.inr mem)) kind
        obtain ⟨vs, values⟩ := valuesOf_ok present
        have pair := same s (mem_columnSources.mpr ⟨mem, kind⟩)
        simp only [Prod.mk.injEq, Column.vectors.injEq, true_and] at pair
        rw [values, readBack_of_ok values, pair]

/-- With names of their own, the values of every source are in a complete bundle. -/
theorem keeps_of_keysApart (valid : validateSources cfg.sources = .ok ())
    (sampled : ∀ shot ∈ shots, shot.Sampled cfg) (sources : args.sources = cfg.sources)
    (rows : args.rows = shots.map (Shot.row cfg)) (complete : args.CompleteBundle libs call dir t)
    (apart : KeysApart cfg shots) : KeepsData cfg shots dir t := by
  obtain ⟨cols, read, file⟩ := complete.parquet
  obtain ⟨first, fps, -, encoded⟩ := complete.videos
  rw [sources] at encoded read
  rw [rows] at encoded read file
  obtain ⟨clock, others⟩ := apart.rows valid sampled
  refine ⟨⟨_, file, ?_⟩, ?_, ?_, (validateSources_ok valid).2⟩
  · rw [table_entries read apart.columns, List.append_cancel_left_eq]
    refine List.map_congr_left ?_
    intro s mem
    have own := (valuesOf_own_iff sampled (mem_columnSources.mp mem).1).mpr
      (others s (mem_columnSources.mp mem).1)
    rw [← readBack_of_ok own]
  · obtain ⟨frames, values, mp4⟩ := encoded cfg.clock ((mem_sources _).mpr (.inl rfl)) (splitClock_spec cfg.split).2
    cases values.symm.trans (valuesOf_clock_iff.mpr clock)
    exact ⟨fps, mp4⟩
  · intro s mem video
    obtain ⟨frames, values, mp4⟩ := encoded s ((mem_sources _).mpr (.inr mem)) video
    cases values.symm.trans ((valuesOf_own_iff sampled mem).mpr (others s mem))
    exact ⟨fps, mp4⟩

/-- **A complete bundle keeps every source's data** exactly if the names are apart. -/
theorem keeps_of_complete_iff (valid : validateSources cfg.sources = .ok ())
    (sampled : ∀ shot ∈ shots, shot.Sampled cfg) (sources : args.sources = cfg.sources)
    (rows : args.rows = shots.map (Shot.row cfg)) (complete : args.CompleteBundle libs call dir t) :
    KeepsData cfg shots dir t ↔ KeysApart cfg shots :=
  ⟨keysApart_of_keeps sampled sources rows complete, keeps_of_keysApart valid sampled sources rows complete⟩

end Keeps

/-! ## Finalize -/

/-- The directory a finalize that returned has committed its bundle as. -/
def FinalizeArgs.BundleAt (args : FinalizeArgs P V) (libs : Libs V) (call : Call) (disk disk' : Disk V)
    (path : List (Hop String)) (dir : Path) : Prop :=
  ∃ first rest, args.rows = first :: rest ∧
    ∃ stages : Stages libs call args.recordings args.ctx first rest args.sources args.recordHz
      args.captureId args.verdict disk path disk', stages.loc = dir

section Finalize

variable {cfg : Config P V} {shots : List (Shot P V)} {libs : Libs V} {call : Call}
  {args : FinalizeArgs P V} {disk disk' : Disk V} {path : List (Hop String)}

theorem bundleAt_complete (plain : PlainVideos args.sources) (rooted : disk.Rooted)
    (some_ : args.rows ≠ []) (ran : args.finalize libs call disk = .ok { path := some path } disk') :
    ∃ dir, args.BundleAt libs call disk disk' path dir ∧ args.CompleteBundle libs call dir disk' := by
  cases rows : args.rows with
  | nil => exact absurd rows some_
  | cons first rest =>
      rw [FinalizeArgs.finalize, rows] at ran
      obtain ⟨stages⟩ := finalize_commits_iff.mp ran
      exact ⟨stages.loc, ⟨first, rest, rows, stages, rfl⟩,
        FinalizeArgs.bundle_complete stages rows plain rooted⟩

/-- **An accepted configuration keeps every source's data** exactly if its keys are apart:
for all captured rows, in the bundle of every finalize that returns one. -/
theorem keeps_data_iff (valid : validateSources cfg.sources = .ok ())
    (sampled : ∀ shot ∈ shots, shot.Sampled cfg) (some_ : shots ≠ []) (rooted : disk.Rooted)
    (sources : args.sources = cfg.sources) (rows : args.rows = shots.map (Shot.row cfg))
    (ran : args.finalize libs call disk = .ok { path := some path } disk') :
    ∃ dir, args.BundleAt libs call disk disk' path dir ∧
      (KeepsData cfg shots dir disk' ↔ KeysApart cfg shots) := by
  have plain : PlainVideos args.sources := by
    rw [sources]
    exact fun s mem video => vid_plain valid mem video
  have nonempty : args.rows ≠ [] := by
    rw [rows]
    simpa using some_
  obtain ⟨dir, there, complete⟩ := bundleAt_complete plain rooted nonempty ran
  exact ⟨dir, there, keeps_of_complete_iff valid sampled sources rows complete⟩

end Finalize

/-! ## The rows of a run -/

section Run

variable {libs : Libs V} {cfg : Config P V} {t : Traced P V}

theorem shots_of_made {delivered : List (String × Ipc.Sample P)} {kept : List (Ipc.Sample P)}
    {rows : List (Row V)} (made : List.Forall₂ (RowAt cfg delivered) kept rows) :
    ∃ shots : List (Shot P V), (∀ shot ∈ shots, shot.Sampled cfg) ∧ rows = shots.map (Shot.row cfg) := by
  induction made with
  | nil => exact ⟨[], by simp, rfl⟩
  | @cons f row kept rows head _ ih =>
      obtain ⟨shots, sampled, rfl⟩ := ih
      obtain ⟨c, rfl, caps, held, windows⟩ := head
      refine ⟨⟨f, c⟩ :: shots, List.forall_mem_cons.mpr ⟨?_, sampled⟩, rfl⟩
      intro s mem
      obtain ⟨x, found, -⟩ := sampleFor_spec caps held windows mem
      simp [Shot.own, found]

/-- Every row of a run is such a shot: in the capture, and in every job handed over. -/
theorem rows_are_shots (reach : Traced.Reach libs cfg t) :
    (t.world.recorder.state = .recording → ∃ shots : List (Shot P V),
      (∀ shot ∈ shots, shot.Sampled cfg) ∧ t.world.recorder.cap.rows = shots.map (Shot.row cfg)) ∧
    ∀ h ∈ t.hist.handed, ∃ shots : List (Shot P V),
      (∀ shot ∈ shots, shot.Sampled cfg) ∧ h.job.rows = shots.map (Shot.row cfg) := by
  have followed := reach_tracked reach
  constructor
  · intro recording
    obtain ⟨_, _, _, tracks⟩ := followed.tracked recording
    exact shots_of_made tracks.rows
  · intro h mem
    obtain ⟨⟨c, rows, -, -, _, _, _, tracks⟩, -⟩ := followed.handed h mem
    rw [rows]
    exact shots_of_made tracks.rows

end Run

namespace Demo

/-- A second column, from a topic of its own. -/
def velocity (feature : String) : Source Nat Nat :=
  { joint with topic := "joint/velocity", feature := feature }

/-- The camera and two columns, the second one's feature left open. -/
def twoColumns (feature : String) : Config Nat Nat :=
  ⟨["run"], [cam, joint, velocity feature], [], cam, [joint, velocity feature], rfl⟩

/-- A frame of November 2023 with a sample of either column. -/
def framed : Shot Nat Nat where
  frame := ⟨1700000000000000000, 5, 1⟩
  cap :=
    { cache := OrderedDict.ofList
        [("joint/state", ⟨1700000000000000000, 1, 2⟩), ("joint/velocity", ⟨1700000000000000000, 1, 3⟩)] }

/-- Its row, about to be finalized. -/
def shotArgs (feature : String) : FinalizeArgs Nat Nat where
  recordings := (twoColumns feature).recordings
  ctx := {}
  rows := [framed].map (Shot.row (twoColumns feature))
  sources := (twoColumns feature).sources
  recordHz := .fin 0
  captureId := some firstId.hex
  verdict := none

theorem framed_sampled (feature : String) : ∀ x ∈ [framed], x.Sampled (twoColumns feature) := by
  intro x mem s inOthers
  cases List.mem_singleton.mp mem
  rcases List.mem_cons.mp inOthers with rfl | later
  · rfl
  · cases List.mem_singleton.mp later
    rfl

theorem shotArgs_ran (feature : String)
    (ran : (returned (DataRecorder.finalize libs quietCall (shotArgs feature).recordings
      (shotArgs feature).ctx (shotArgs feature).rows (shotArgs feature).sources (shotArgs feature).recordHz
      (shotArgs feature).captureId (shotArgs feature).verdict shelf)).isSome = true) :
    ∃ path disk', (shotArgs feature).finalize libs quietCall shelf = .ok { path := some path } disk' :=
  commits_of_returned ran

end Demo

theorem keeps_data_iff_velocity :
    ∃ path disk' dir, (Demo.shotArgs "observation.velocity").BundleAt Demo.libs Demo.quietCall Demo.shelf
        disk' path dir ∧
      KeepsData (Demo.twoColumns "observation.velocity") [Demo.framed] dir disk' := by
  obtain ⟨path, disk', ran⟩ := Demo.shotArgs_ran "observation.velocity" (by decide +kernel)
  obtain ⟨dir, there, iff_⟩ := keeps_data_iff (by decide +kernel) (Demo.framed_sampled _) (by simp)
    Demo.shelf_rooted rfl rfl ran
  refine ⟨path, disk', dir, there, iff_.mpr ⟨by decide +kernel, ?_, ?_⟩⟩
  · intro c mem same
    rcases List.mem_cons.mp (mem_columnSources.mp mem).1 with rfl | later
    · exact absurd same (by decide)
    · cases List.mem_singleton.mp later
      exact absurd same (by decide)
  · intro s mem video
    rcases List.mem_cons.mp mem with rfl | later
    · cases video
    · cases List.mem_singleton.mp later
      cases video

/-- An accepted list of sources, and a bundle of theirs that does not keep the data. -/
def Demo.Overwrites (feature : String) : Prop :=
  validateSources (twoColumns feature).sources = .ok () ∧
    (∀ x ∈ [framed], x.Sampled (twoColumns feature)) ∧
    ∃ path disk' dir, (shotArgs feature).finalize libs quietCall shelf = .ok { path := some path } disk' ∧
      (shotArgs feature).BundleAt libs quietCall shelf disk' path dir ∧
      ¬ KeepsData (twoColumns feature) [framed] dir disk'

/-- A bundle of two columns whose names meet is written, and does not keep the data. -/
theorem Demo.overwrites {feature : String}
    (valid : validateSources (twoColumns feature).sources = .ok ())
    (ran : ∃ path disk', (shotArgs feature).finalize libs quietCall shelf = .ok { path := some path } disk')
    (meet : ¬ (["step", "timestamp"] ++
      (columnSources (twoColumns feature).others).map Source.feature).Nodup) : Overwrites feature := by
  obtain ⟨path, disk', ran⟩ := ran
  have plain : PlainVideos (shotArgs feature).sources := fun s mem video => vid_plain valid mem video
  have some_ : (shotArgs feature).rows ≠ [] := List.cons_ne_nil _ _
  obtain ⟨dir, there, complete⟩ := bundleAt_complete plain shelf_rooted some_ ran
  refine ⟨valid, framed_sampled feature, path, disk', dir, ran, there, fun keeps => meet ?_⟩
  exact ((keeps_of_complete_iff valid (framed_sampled feature) rfl rfl complete).mp keeps).columns

/-- A column named `step` replaces the one of the spine, and one named like the other
column replaces that. -/
theorem columns_overwritten : Demo.Overwrites "step" ∧ Demo.Overwrites "observation.state" := by
  constructor
  · exact Demo.overwrites (by decide +kernel) (Demo.shotArgs_ran _ (by decide +kernel)) (by decide +kernel)
  · exact Demo.overwrites (by decide +kernel) (Demo.shotArgs_ran _ (by decide +kernel)) (by decide +kernel)

end KoyuRuntime.Services.DataRecorder
