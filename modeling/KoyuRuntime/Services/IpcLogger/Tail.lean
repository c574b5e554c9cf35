/-
# Services.IpcLogger.Tail — what the log files still hold, and what `koyu tail` prints

Every record becomes a line of JSON with the time, and goes to the current file of its log; a
full file is put aside and the oldest dropped.  `koyu tail` reads the current file of a name
only: `state.jsonl` if there is one, else `events.jsonl`, and prints its last lines.

* `files_writeAll`: the files of one log depend on the lines of that log only.
* `cmdTail_of_file`: the lines printed are those of the current file.
* `logs_kept`: in every run of the logger with separate names, the files of a topic or channel
  hold a suffix of its records, of which the last four megabytes, less four lines, are never
  lost; and `koyu tail` prints the last of them.
-/
import KoyuRuntime.Host.JsonDump
import KoyuRuntime.Services.IpcLogger.Records
import KoyuRuntime.Theory.RotatingLog

namespace KoyuRuntime.Services.IpcLogger

open Host Theory Ipc.Types IpcReaders
open InboxRouting (slug)

set_option autoImplicit false

/-! ## Lines -/

/-- A line of a log, without its newline. -/
structure LogLine where
  text : List Char
  plain : AllPlain text

/-- The dict of a record, before the time is set. -/
def Record.dict : Record → OrderedDict String Json
  | .state fields => (OrderedDict.ofList [("kind", .str "state")]).setAll fields
  | .frame fid w h =>
      .ofList [("kind", .str "frame"), ("frame_id", match fid with
        | some i => .int i
        | none => .null), ("w", .int w), ("h", .int h)]
  | .event id => .ofList [("kind", .str "event"), ("id", .int id)]

/-- `_emit`: the record with its time, as one line. -/
def Record.line (repr : FloatRepr) (time : Double) (record : Record) : LogLine :=
  ⟨dump repr (.obj (record.dict.set "t" (.float time)).entries), dump_plain repr _⟩

/-- The lines logged, with what was written of each; `times` are those of `time.time()`. -/
def stamped (repr : FloatRepr) (times : Nat → Double) (lines : List Line) : List (Line × LogLine) :=
  lines.mapIdx fun i line => (line, line.record.line repr (times i))

/-- What a topic or a channel has logged. -/
def ownLines (source : Source) (written_ : List (Line × LogLine)) : List LogLine :=
  (written_.filter fun e => decide (e.1.source = source)).map Prod.snd

/-! ## Files -/

/-- `JSONL_CAP` and `JSONL_BACKUPS`; a newline is written after every line. -/
def rotation (rollsEmpty : Bool) : Rotation LogLine := ⟨fun line => line.text.length + 1, 1000000, 4, rollsEmpty⟩

/-- The logs of the file system, each under the path of its current file. -/
abbrev Files : Type := Path → Option (RotatingLog LogLine)

/-- `_open_log` for every topic and channel: a file that is not there is made. -/
def openLogs (home : Path) (ipc : Discovered) (found : Files) : Files := fun path =>
  if path ∈ (sources ipc).map (Source.file home) then some ((found path).getD .empty) else found path

/-- What the handler of the file does with a line. -/
def write (rollsEmpty : Bool) (files : Files) (e : Line × LogLine) : Files := fun path =>
  if path = e.1.file then (files path).map fun log => (rotation rollsEmpty).emit log e.2 else files path

def writeAll (rollsEmpty : Bool) (files : Files) (written_ : List (Line × LogLine)) : Files :=
  written_.foldl (write rollsEmpty) files

/-- The text of a file. -/
def fileText (lines : List LogLine) : List Char := lines.flatMap fun line => line.text ++ ['\n']

/-! ## `koyu tail` -/

/-- `lines[-n:]`. -/
def lastLines {α : Type} (n : Int) (lines : List α) : List α :=
  if 0 < n then lines.drop (lines.length - n.toNat) else lines.drop (-n).toNat

/-- `_cmd_tail`: the lines printed, or none if there is no log. -/
def cmdTail (home : Path) (files : Files) (topic : String) (n : Int) : Option (List (List Char)) :=
  match files (logDir home topic ++ ["state.jsonl"]) with
  | some log => some (lastLines n (splitLines (fileText log.current)))
  | none =>
      match files (logDir home topic ++ ["events.jsonl"]) with
      | some log => some (lastLines n (splitLines (fileText log.current)))
      | none => none

section Tail

variable {rollsEmpty : Bool} {files found : Files} {written_ : List (Line × LogLine)} {path home : Path}
  {ipc : Discovered}

theorem lastLines_suffix {α : Type} (n : Int) (lines : List α) : lastLines n lines <:+ lines := by
  unfold lastLines
  split
  · exact List.drop_suffix _ _
  · exact List.drop_suffix _ _

theorem lastLines_map {α β : Type} (f : α → β) (n : Int) (lines : List α) :
    lastLines n (lines.map f) = (lastLines n lines).map f := by
  unfold lastLines
  rw [List.length_map]
  split
  · exact (List.map_drop).symm
  · exact (List.map_drop).symm

theorem length_lastLines {α : Type} {n : Int} (some_ : 0 < n) (lines : List α) :
    (lastLines n lines).length = min n.toNat lines.length := by
  rw [lastLines, if_pos some_, List.length_drop]
  omega

/-- The lines of a file are the ones written. -/
theorem splitLines_fileText (lines : List LogLine) : splitLines (fileText lines) = lines.map (·.text) := by
  have same : fileText lines = (lines.map (·.text)).flatMap fun line => line ++ ['\n'] := by
    rw [List.flatMap_map]
    rfl
  rw [same]
  apply splitLines_ended
  intro text mem c inText
  obtain ⟨line, -, rfl⟩ := List.mem_map.mp mem
  exact not_break_of_plain (line.plain c inText)

/-- **The files of one log** after some lines were written, its own and others. -/
theorem files_writeAll (rollsEmpty : Bool) (files : Files) (written_ : List (Line × LogLine)) (path : Path) :
    writeAll rollsEmpty files written_ path = (files path).map fun log =>
      (rotation rollsEmpty).emits log ((written_.filter fun e => decide (e.1.file = path)).map Prod.snd) := by
  induction written_ generalizing files with
  | nil => simp [writeAll, Rotation.emits]
  | cons e rest ih =>
      show writeAll rollsEmpty (write rollsEmpty files e) rest path = _
      rw [ih]
      by_cases here : e.1.file = path
      · rw [List.filter_cons_of_pos (by simpa using here), write, if_pos here.symm, Option.map_map]
        rfl
      · rw [List.filter_cons_of_neg (by simpa using here), write, if_neg (Ne.symm here)]

/-- Its own lines are those in its file. -/
theorem own_iff_file {s : Logger} (own : OwnFiles home ipc s) {a : Source} (known : a ∈ sources ipc)
    {line : Line} (mem : line ∈ s.lines) : line.file = a.file home ↔ line.source = a := by
  constructor
  · intro there
    by_contra other
    exact own.apart line mem a known (Ne.symm other) there
  · rintro rfl
    exact own.own line mem

/-- **What is printed** is the end of the current file. -/
theorem cmdTail_of_file {a : Source} {log : RotatingLog LogLine} (there : files (a.file home) = some log)
    (clean : ∀ channel, a = .channel channel → files (logDir home channel ++ ["state.jsonl"]) = none) (n : Int) :
    cmdTail home files a.name n = some ((lastLines n log.current).map (·.text)) := by
  have shown : lastLines n (splitLines (fileText log.current)) = (lastLines n log.current).map (·.text) := by
    rw [splitLines_fileText, lastLines_map]
  cases a with
  | topic name =>
      have state : files (logDir home name ++ ["state.jsonl"]) = some log := there
      simp only [cmdTail, Source.name, state, shown]
  | channel name =>
      have events : files (logDir home name ++ ["events.jsonl"]) = some log := there
      simp only [cmdTail, Source.name, clean name rfl, events, shown]

/-- In a run with separate names the lines in a file are those of its topic or channel. -/
theorem filter_own {s : Logger} {a : Source} (own : OwnFiles home ipc s) (known : a ∈ sources ipc)
    (repr : FloatRepr) (times : Nat → Double) :
    ((stamped repr times s.lines).filter fun e => decide (e.1.file = a.file home)).map Prod.snd =
      ownLines a (stamped repr times s.lines) := by
  refine congrArg (List.map Prod.snd) (List.filter_congr ?_)
  intro e mem
  obtain ⟨i, inside, rfl⟩ := List.mem_mapIdx.mp mem
  exact decide_eq_decide.mpr (own_iff_file own known (List.getElem_mem inside))

theorem openLogs_known (home : Path) (found : Files) {a : Source} (known : a ∈ sources ipc) :
    openLogs home ipc found (a.file home) = some ((found (a.file home)).getD .empty) :=
  if_pos (List.mem_map_of_mem known)

end Tail

/-! ## Every run -/

/-- What is in a log that held `start` when it was opened, and was written `own` since. -/
structure Kept (rotation : Rotation LogLine) (start log : RotatingLog LogLine) (own : List LogLine) : Prop where
  contiguous : log.retained <:+ start.retained ++ own
  recent : ∀ longest, (∀ line ∈ own, rotation.size line ≤ longest) → ∀ recent, recent <:+ own →
    rotation.weight recent ≤ rotation.keep * (rotation.cap - longest) → recent <:+ log.retained
  bounded : rotation.AllBounded start → rotation.AllBounded log

theorem kept_emits (rollsEmpty : Bool) (start : RotatingLog LogLine) (own : List LogLine) :
    Kept (rotation rollsEmpty) start ((rotation rollsEmpty).emits start own) own := by
  have positive : ∀ line, 0 < (rotation rollsEmpty).size line := fun line => Nat.succ_pos line.text.length
  refine ⟨Rotation.retained_suffix own, ?_, ?_⟩
  · intro longest small recent suffix light
    exact Rotation.recent_retained positive start own small suffix light
  · exact fun bounded => Rotation.bounded_emits positive bounded own

/-- **The logs on disk**: with separate names, whatever the logger found, in every run the files of
each topic and channel hold a contiguous end of its own records, with the recent ones among them and
within their sizes; and `koyu tail`, at any moment, prints the last lines of the newest file. -/
theorem logs_kept (outside : Outside) (home : Path) (ipc : Discovered) (s s' : Logger)
    (started : setup outside home ipc = .ok s) (separate : Separate home ipc) (wakes : List Wake)
    (run : runs dispatch s wakes = .ok s') (rollsEmpty : Bool) (repr : FloatRepr) (times : Nat → Double)
    (found : Files) (a : Source) (known : a ∈ sources ipc)
    (clean : ∀ channel, a = .channel channel →
      openLogs home ipc found (logDir home channel ++ ["state.jsonl"]) = none) :
    ∃ log, writeAll rollsEmpty (openLogs home ipc found) (stamped repr times s'.lines) (a.file home) = some log ∧
      Kept (rotation rollsEmpty) ((found (a.file home)).getD .empty) log
        (ownLines a (stamped repr times s'.lines)) ∧
      ∀ n, cmdTail home (writeAll rollsEmpty (openLogs home ipc found) (stamped repr times s'.lines)) a.name n =
        some ((lastLines n log.current).map (·.text)) := by
  have opened := setup_opened started
  have own := ownFiles_of_separate separate opened (runs_routed opened.fresh run)
  have there := files_writeAll rollsEmpty (openLogs home ipc found)
    (stamped repr times s'.lines) (a.file home)
  rw [filter_own own known, openLogs_known home found known, Option.map_some] at there
  refine ⟨_, there, kept_emits rollsEmpty _ _, ?_⟩
  apply cmdTail_of_file there
  intro channel isChannel
  rw [files_writeAll, clean channel isChannel, Option.map_none]

/-- No float prints but as a zero. -/
def Demo.zeros : FloatRepr := ⟨fun _ => ['0'], fun _ => (by decide : AllPlain ['0'])⟩

/-- The log of a channel after one event. -/
theorem logs_kept_channel : ∃ s s', setup Demo.outside ["run"] Demo.separate = .ok s ∧
    runs dispatch s [.event "arm/stop" 7] = .ok s' ∧
    ∃ log, writeAll false (openLogs ["run"] Demo.separate fun _ => none)
        (stamped Demo.zeros (fun _ => .fin 0) s'.lines) ((Source.channel "arm/stop").file ["run"]) = some log ∧
      Kept (rotation false) .empty log
        (ownLines (.channel "arm/stop") (stamped Demo.zeros (fun _ => .fin 0) s'.lines)) ∧
      ∀ n, cmdTail ["run"] (writeAll false (openLogs ["run"] Demo.separate fun _ => none)
        (stamped Demo.zeros (fun _ => .fin 0) s'.lines)) "arm/stop" n =
          some ((lastLines n log.current).map (·.text)) := by
  obtain ⟨s, started, -⟩ : ∃ s, setup Demo.outside ["run"] Demo.separate = .ok s ∧ True :=
    setup_of_check (fun _ => True) (by decide +kernel)
  have separate : Separate ["run"] Demo.separate := ⟨by decide +kernel, by decide +kernel, by decide +kernel⟩
  obtain ⟨s', run, -⟩ := exists_wakes (setup_opened started) [.event "arm/stop" 7]
  have clean : ∀ channel, Source.channel "arm/stop" = .channel channel →
      openLogs ["run"] Demo.separate (fun _ => none) (logDir ["run"] channel ++ ["state.jsonl"]) = none := by
    rintro _ ⟨rfl⟩
    exact if_neg (by decide +kernel)
  have kept := logs_kept _ _ _ _ _ started separate _ run false Demo.zeros (fun _ => .fin 0) (fun _ => none)
    (.channel "arm/stop") (by decide +kernel) clean
  exact ⟨s, s', started, run, kept⟩

end KoyuRuntime.Services.IpcLogger
