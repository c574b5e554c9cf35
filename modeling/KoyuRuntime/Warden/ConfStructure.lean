/-
# Warden.ConfStructure — the sections of a generated conf

The names, the commands and the environments of the specs go into the lines of the conf
as they are.  A newline in one of them starts a line of its own, and a percent sign in a
name or a key is taken for an escape.

* `kept_conf`: which lines of the conf say something, whatever the specs are.
* `oneLine_of_count`: as many lines as there should be, only if none was added.
* `structured_iff`: the specs whose conf has the sections, keys and log files meant.
-/
import KoyuRuntime.Host.Ini
import KoyuRuntime.Warden.EnvironmentLine

namespace KoyuRuntime.Warden

open Host Theory

set_option autoImplicit false

/-! ## The lines of a section -/

/-- The entries of a program section, with the value of its `command=` line. -/
def programEntries (spec : ServiceSpec) (commandText : List Char) : List (List Char × List Char) :=
  [("command".toList, commandText),
    ("directory".toList, hereToken),
    ("environment".toList, (environment spec).toList),
    ("autostart".toList, (if spec.autostart then "true" else "false").toList),
    ("autorestart".toList, (restartPolicy spec).2.toList),
    ("exitcodes".toList, (",".intercalate (spec.exitcodes.map toString)).toList),
    ("startsecs".toList, (toString (restartPolicy spec).1).toList),
    ("startretries".toList, (toString spec.startretries).toList),
    ("stopasgroup".toList, "true".toList),
    ("killasgroup".toList, "true".toList),
    ("stopwaitsecs".toList, (toString spec.stopwaitsecs).toList),
    ("stdout_logfile".toList, ("%(here)s/.koyu/logs/" ++ spec.name ++ ".log").toList),
    ("stderr_logfile".toList, ("%(here)s/.koyu/logs/" ++ spec.name ++ ".err").toList)]

/-- The lines a section is joined from; one of them may be more than a line. -/
def pieces (pythonExecutable : String) (spec : ServiceSpec) : List (List Char) :=
  (header spec).toList ::
    (programEntries spec (command spec.cmd pythonExecutable).toList).map Ini.shown

theorem strInt_ok {i : Int} {shown : String} (printed : strInt i = .ok shown) :
    shown = toString i := by
  have whole := strInt_of_printable (printable_of_strInt printed)
  rw [printed] at whole
  exact Except.ok.inj whole

theorem programSection_pieces {pythonExecutable : String} {spec : ServiceSpec} {text : String}
    (rendered : programSection pythonExecutable spec = .ok text) :
    ∃ strings, text = "\n".intercalate (strings ++ [""]) ∧
      strings.map String.toList = pieces pythonExecutable spec := by
  simp only [programSection, except_bind_ok_iff] at rendered
  obtain ⟨exitcodes, codes, startsecs, starts, startretries, retries, stopwaitsecs, waits, same⟩ :=
    rendered
  have printed : exitcodes = spec.exitcodes.map toString := by
    have all := map_of_mapM (g := id) (fun i shown printed => strInt_ok printed) codes
    rwa [List.map_id] at all
  rw [strInt_ok starts, strInt_ok retries, strInt_ok waits, printed] at same
  refine ⟨[header spec,
    "command=" ++ command spec.cmd pythonExecutable,
    "directory=%(here)s",
    "environment=" ++ environment spec,
    "autostart=" ++ (if spec.autostart then "true" else "false"),
    "autorestart=" ++ (restartPolicy spec).2,
    "exitcodes=" ++ ",".intercalate (spec.exitcodes.map toString),
    "startsecs=" ++ toString (restartPolicy spec).1,
    "startretries=" ++ toString spec.startretries,
    "stopasgroup=true",
    "killasgroup=true",
    "stopwaitsecs=" ++ toString spec.stopwaitsecs,
    "stdout_logfile=" ++ ("%(here)s/.koyu/logs/" ++ spec.name) ++ ".log",
    "stderr_logfile=" ++ ("%(here)s/.koyu/logs/" ++ spec.name) ++ ".err"],
    (Except.ok.inj same).symm, ?_⟩
  simp [pieces, programEntries, Ini.shown, hereToken]

theorem kept_intercalate (texts : List String) :
    Ini.kept ("\n".intercalate texts).toList = (texts.map String.toList).flatMap Ini.kept := by
  induction texts with
  | nil => rfl
  | cons first rest ih =>
      cases rest with
      | nil => simp
      | cons next more =>
          rw [String.intercalate_cons_cons, String.toList_append, String.toList_append, List.map_cons,
            List.flatMap_cons, ← ih, List.append_assoc]
          exact Ini.kept_append_newline _ _

theorem kept_programSection {pythonExecutable : String} {spec : ServiceSpec} {text : String}
    (rendered : programSection pythonExecutable spec = .ok text) :
    Ini.kept text.toList = (pieces pythonExecutable spec).flatMap Ini.kept := by
  obtain ⟨strings, rfl, same⟩ := programSection_pieces rendered
  rw [kept_intercalate, List.map_append, same, List.flatMap_append]
  exact List.append_nil _

/-! ## The sections meant -/

/-- The four global sections, with their entries. -/
def globals : List Ini.Section :=
  [⟨"unix_http_server".toList, [("file".toList, sock.toList)]⟩,
    ⟨"supervisord".toList,
      [("pidfile".toList, pidfile.toList), ("logfile".toList, daemonLog.toList),
        ("directory".toList, hereToken), ("loglevel".toList, "info".toList),
        ("nodaemon".toList, "false".toList)]⟩,
    ⟨"rpcinterface:supervisor".toList,
      [("supervisor.rpcinterface_factory".toList,
        "supervisor.rpcinterface:make_main_rpcinterface".toList)]⟩,
    ⟨"supervisorctl".toList, [("serverurl".toList, "unix://".toList ++ sock.toList)]⟩]

/-- The section of a program; its command ends with the line. -/
def programOf (pythonExecutable : String) (spec : ServiceSpec) : Ini.Section :=
  ⟨("program:" ++ spec.name).toList,
    programEntries spec (firstLine (command spec.cmd pythonExecutable).toList)⟩

def wanted (pythonExecutable : String) (specs : OrderedDict String ServiceSpec) : List Ini.Section :=
  globals ++ specs.entries.map fun e => programOf pythonExecutable e.2

/-- The lines of a section that is written line by line. -/
def blockLines (section_ : Ini.Section) : List (List Char) :=
  ('[' :: (section_.name ++ [']'])) :: section_.entries.map Ini.shown

/-- The lines of the conf that say something. -/
def confLines (pythonExecutable : String) (specs : OrderedDict String ServiceSpec) :
    List (List Char) :=
  globals.flatMap blockLines ++
    (specs.entries.flatMap fun e => pieces pythonExecutable e.2).flatMap Ini.kept

theorem kept_globalSections : Ini.kept globalSections.toList = globals.flatMap blockLines := by
  rw [globalSections, kept_intercalate]
  simp only [List.map_cons, List.map_nil, String.toList_append]
  decide +kernel

theorem kept_conf {specs : OrderedDict String ServiceSpec} {pythonExecutable conf : String}
    (generated : generateConf specs pythonExecutable = .ok conf) :
    Ini.kept conf.toList = confLines pythonExecutable specs := by
  obtain ⟨programs, rendered, same⟩ := except_bind_ok_iff.mp generated
  have texts : programs.map (fun text => Ini.kept text.toList) =
      specs.entries.map fun e => (pieces pythonExecutable e.2).flatMap Ini.kept :=
    map_of_mapM (fun e text here => kept_programSection here) rendered
  rw [← Except.ok.inj same, String.toList_append]
  show Ini.kept (("\n".intercalate (globalSections :: programs)).toList ++ '\n' :: []) = _
  rw [Ini.kept_append_newline, kept_intercalate, List.map_cons, List.flatMap_cons,
    kept_globalSections, List.flatMap_map, confLines, List.flatMap_assoc, List.append_assoc]
  congr 1
  rw [List.flatMap_def, List.flatMap_def, texts]
  exact List.append_nil _

theorem headerName_block (name : List Char) : Ini.headerName ('[' :: (name ++ [']'])) = some name := by
  simp [Ini.headerName]

/-- Sections written line by line are read as they are. -/
theorem sections_blocks {blocks : List Ini.Section}
    (plain : ∀ s ∈ blocks, ∀ e ∈ s.entries, Ini.PlainKey e.1) :
    Ini.sections (blocks.flatMap blockLines) = .ok ([], blocks) := by
  induction blocks with
  | nil => rfl
  | cons s rest ih =>
      have later := ih fun t mem => plain t (List.mem_cons_of_mem s mem)
      rw [List.flatMap_cons, blockLines, List.cons_append]
      exact Ini.sections_section (headerName_block s.name) (plain s List.mem_cons_self) later

/-- The keys of a program section. -/
def programKeys : List (List Char) :=
  ["command", "directory", "environment", "autostart", "autorestart", "exitcodes", "startsecs",
    "startretries", "stopasgroup", "killasgroup", "stopwaitsecs", "stdout_logfile",
    "stderr_logfile"].map String.toList

theorem map_fst_programEntries (spec : ServiceSpec) (commandText : List Char) :
    (programEntries spec commandText).map Prod.fst = programKeys := rfl

theorem plain_wanted (pythonExecutable : String) (specs : OrderedDict String ServiceSpec) :
    ∀ s ∈ wanted pythonExecutable specs, ∀ e ∈ s.entries, Ini.PlainKey e.1 := by
  have keys : ∀ key ∈ programKeys ++ globals.flatMap (fun s => s.entries.map Prod.fst),
      '=' ∉ key ∧ '[' ∉ key ∧ key ≠ [] := by
    decide +kernel
  intro s mem e inEntries
  apply keys
  rcases List.mem_append.mp mem with isGlobal | isProgram
  · apply List.mem_append_right
    exact List.mem_flatMap.mpr ⟨s, isGlobal, List.mem_map_of_mem inEntries⟩
  · apply List.mem_append_left
    obtain ⟨e', -, rfl⟩ := List.mem_map.mp isProgram
    rw [← map_fst_programEntries e'.2 (firstLine (command e'.2.cmd pythonExecutable).toList)]
    exact List.mem_map_of_mem inEntries

theorem sections_wanted (pythonExecutable : String) (specs : OrderedDict String ServiceSpec) :
    Ini.sections ((wanted pythonExecutable specs).flatMap blockLines) =
      .ok ([], wanted pythonExecutable specs) :=
  sections_blocks (plain_wanted pythonExecutable specs)

/-! ## Specs that add no line -/

/-- No newline in the name and the environment, and nothing on the later lines of the
command. -/
structure OneLine (pythonExecutable : String) (spec : ServiceSpec) : Prop where
  name : '\n' ∉ spec.name.toList
  keys : ∀ e ∈ spec.env.entries, '\n' ∉ e.1.toList
  values : ∀ e ∈ spec.env.entries, '\n' ∉ e.2.toList
  command : ∀ line ∈ (Ini.lines (Shlex.join (words spec pythonExecutable))).tail,
    Ini.blank line = true

theorem lines_double (text : List Char) : Ini.lines (double text) = (Ini.lines text).map double := by
  induction text with
  | nil => rfl
  | cons c rest ih =>
      by_cases percent : c = '%'
      · rw [percent, double_percent, Ini.lines, if_neg (by decide), Ini.lines, if_neg (by decide),
          Ini.lines, if_neg (by decide), ih]
        cases split : Ini.lines rest with
        | nil => exact absurd split (Ini.lines_ne_nil rest)
        | cons line more => simp [double_percent]
      · rw [double_cons_of_ne percent, Ini.lines, Ini.lines]
        split
        · rw [ih]
          rfl
        · rw [ih]
          cases split : Ini.lines rest with
          | nil => exact absurd split (Ini.lines_ne_nil rest)
          | cons line more => simp [double_cons_of_ne percent]

theorem blank_double (line : List Char) : Ini.blank (double line) = Ini.blank line := by
  rw [Bool.eq_iff_iff, Ini.blank, Ini.blank, List.all_eq_true, List.all_eq_true]
  constructor
  · intro all c mem
    exact all c (mem_double.mpr mem)
  · intro all c mem
    exact all c (mem_double.mp mem)

/-- The later lines of the command as it is written. -/
theorem blank_command_iff (pythonExecutable : String) (spec : ServiceSpec) :
    (∀ line ∈ (Ini.lines (command spec.cmd pythonExecutable).toList).tail, Ini.blank line = true) ↔
      ∀ line ∈ (Ini.lines (Shlex.join (words spec pythonExecutable))).tail,
        Ini.blank line = true := by
  rw [toList_command, lines_double, ← List.map_tail]
  simp only [List.forall_mem_map, blank_double]

theorem lines_eq_cons (text : List Char) :
    Ini.lines text = firstLine text :: (Ini.lines text).tail := by
  induction text with
  | nil => rfl
  | cons c rest ih =>
      rw [Ini.lines]
      by_cases newline : c = '\n'
      · rw [if_pos newline, newline]
        rfl
      · rw [if_neg newline, firstLine_cons_of_ne newline, ih]
        rfl

theorem tail_lines_append {text : List Char} (one : '\n' ∉ text) (tail : List Char) :
    (Ini.lines (text ++ tail)).tail = (Ini.lines tail).tail := by
  induction text with
  | nil => rfl
  | cons c rest ih =>
      rw [List.mem_cons, not_or] at one
      have later := ih one.2
      rw [List.cons_append, Ini.lines, if_neg (Ne.symm one.1)]
      cases split : Ini.lines (rest ++ tail) with
      | nil => exact absurd split (Ini.lines_ne_nil _)
      | cons line more =>
          rw [split] at later
          exact later

/-- A text after a key and an equals sign keeps its first line, and the later ones that
are not blank. -/
theorem kept_shown {key : List Char} (one : '\n' ∉ key) {c : Char} (mem : c ∈ key)
    (dark : Ini.space c = false) (value : List Char) :
    Ini.kept (Ini.shown (key, value)) =
      Ini.shown (key, firstLine value) ::
        (Ini.lines value).tail.filter fun line => !Ini.blank line := by
  have front : '\n' ∉ key ++ ['='] := by
    simp [one]
  have joined : ∀ text, Ini.shown (key, text) = (key ++ ['=']) ++ text := by
    intro text
    simp [Ini.shown]
  have whole : Ini.lines (Ini.shown (key, value)) =
      Ini.shown (key, firstLine value) :: (Ini.lines value).tail := by
    rw [lines_eq_cons, joined, joined, firstLine_append_of_not_mem front, tail_lines_append front]
  rw [Ini.kept, whole, List.filter_cons_of_pos]
  have inLine : c ∈ Ini.shown (key, firstLine value) := List.mem_append_left _ mem
  rw [Ini.blank_eq_false inLine dark]
  rfl

theorem kept_shown_of_not_mem {key : List Char} (one : '\n' ∉ key) {c : Char} (mem : c ∈ key)
    (dark : Ini.space c = false) {value : List Char} (line : '\n' ∉ value) :
    Ini.kept (Ini.shown (key, value)) = [Ini.shown (key, value)] := by
  rw [kept_shown one mem dark, firstLine_of_not_mem line, Ini.lines_of_not_mem line]
  rfl

/-! ### What numbers and words print -/

theorem toString_plain (i : Int) {c : Char} (mem : c ∈ (toString i).toList) :
    c = '-' ∨ c.isDigit = true := by
  have digits : ∀ n : Nat, c ∈ (Nat.repr n).toList → c.isDigit = true := by
    intro n inRepr
    rw [Nat.toList_repr] at inRepr
    exact Nat.isDigit_of_mem_toDigits (by decide) (by decide) inRepr
  cases i with
  | ofNat n => exact Or.inr (digits n mem)
  | negSucc n =>
      have split : (toString (Int.negSucc n)).toList = '-' :: (Nat.repr (n + 1)).toList := by
        show ("-" ++ Nat.repr (n + 1)).toList = _
        rw [String.toList_append]
        rfl
      rw [split] at mem
      rcases List.mem_cons.mp mem with rfl | later
      · exact Or.inl rfl
      · exact Or.inr (digits (n + 1) later)

/-- A text without a newline and without a percent sign. -/
def Tame (text : List Char) : Prop := '\n' ∉ text ∧ '%' ∉ text

theorem tame_toString (i : Int) : Tame (toString i).toList := by
  refine ⟨?_, ?_⟩
  · intro mem
    exact absurd (toString_plain i mem) (by decide)
  · intro mem
    exact absurd (toString_plain i mem) (by decide)

theorem Tame.append {l r : List Char} (left : Tame l) (right : Tame r) : Tame (l ++ r) := by
  refine ⟨?_, ?_⟩
  · intro mem
    rcases List.mem_append.mp mem with inL | inR
    · exact left.1 inL
    · exact right.1 inR
  · intro mem
    rcases List.mem_append.mp mem with inL | inR
    · exact left.2 inL
    · exact right.2 inR

theorem tame_exitcodes (codes : List Int) : Tame (",".intercalate (codes.map toString)).toList := by
  induction codes with
  | nil => exact ⟨List.not_mem_nil, List.not_mem_nil⟩
  | cons i rest ih =>
      cases rest with
      | nil => simpa using tame_toString i
      | cons j more =>
          rw [List.map_cons, List.map_cons, String.intercalate_cons_cons, String.toList_append,
            String.toList_append]
          have comma : Tame ",".toList := by
            unfold Tame
            decide +kernel
          exact ((tame_toString i).append comma).append ih

theorem tame_policy {spec : ServiceSpec} (known : spec.autorestart ∈ autorestartValues) :
    Tame (restartPolicy spec).2.toList := by
  have words : ∀ word ∈ autorestartValues, '\n' ∉ word.toList ∧ '%' ∉ word.toList := by
    decide +kernel
  unfold restartPolicy
  split
  · exact words "false" (by decide)
  · exact words _ known

/-! ### The lines of a section that adds none -/

theorem newline_environment {spec : ServiceSpec} :
    '\n' ∈ (environment spec).toList ↔
      '\n' ∈ spec.name.toList ∨
        ∃ e ∈ spec.env.entries, '\n' ∈ e.1.toList ∨ '\n' ∈ e.2.toList := by
  have listed_ : '\n' ∈ (environment spec).toList ↔ '\n' ∈ Pairs.listed (written spec) := by
    rw [← toList_environment, List.mem_cons]
    simp
  have pairs : '\n' ∈ Pairs.listed (written spec) ↔
      ∃ pair ∈ written spec, '\n' ∈ pair.1 ∨ '\n' ∈ pair.2 := by
    simp [Pairs.listed, Pairs.shown, Pairs.doubleQuote]
  rw [listed_, pairs]
  constructor
  · rintro ⟨pair, mem, newline⟩
    revert newline pair
    apply forall_mem_written
    · intro newline
      exact absurd newline (by decide +kernel)
    · rintro (inKey | inValue)
      · exact absurd inKey (injectedName_plain "SERVICE_NAME" (by decide)).2.1
      · exact Or.inl (mem_double.mp inValue)
    · intro newline
      exact absurd newline (by decide +kernel)
    · rintro e inEnv (inKey | inValue)
      · exact Or.inr ⟨e, inEnv, Or.inl inKey⟩
      · exact Or.inr ⟨e, inEnv, Or.inr (mem_double.mp inValue)⟩
  · rintro (inName | ⟨e, inEnv, inKey | inValue⟩)
    · exact ⟨("SERVICE_NAME".toList, double spec.name.toList),
        List.mem_cons_of_mem _ List.mem_cons_self, Or.inr (mem_double.mpr inName)⟩
    · exact ⟨_, List.mem_append_right _ (List.mem_map_of_mem inEnv), Or.inl inKey⟩
    · exact ⟨_, List.mem_append_right _ (List.mem_map_of_mem inEnv), Or.inr (mem_double.mpr inValue)⟩

theorem programKeys_dark :
    ∀ key ∈ programKeys, '\n' ∉ key ∧ key.any (fun c => !Ini.space c) = true := by
  decide +kernel

theorem exists_dark {spec : ServiceSpec} {commandText : List Char} {e : List Char × List Char}
    (mem : e ∈ programEntries spec commandText) :
    '\n' ∉ e.1 ∧ ∃ c ∈ e.1, Ini.space c = false := by
  have inKeys : e.1 ∈ programKeys := by
    rw [← map_fst_programEntries spec commandText]
    exact List.mem_map_of_mem mem
  obtain ⟨one, dark⟩ := programKeys_dark _ inKeys
  obtain ⟨c, inKey, notSpace⟩ := List.any_eq_true.mp dark
  exact ⟨one, c, inKey, by simpa using notSpace⟩

theorem flatMap_kept_shown {entries : List (List Char × List Char)}
    (keys : ∀ e ∈ entries, '\n' ∉ e.1 ∧ ∃ c ∈ e.1, Ini.space c = false)
    (values : ∀ e ∈ entries, '\n' ∉ e.2) :
    (entries.map Ini.shown).flatMap Ini.kept = entries.map Ini.shown := by
  induction entries with
  | nil => rfl
  | cons e rest ih =>
      obtain ⟨one, c, mem, dark⟩ := keys e List.mem_cons_self
      rw [List.map_cons, List.flatMap_cons,
        ih (fun f later => keys f (List.mem_cons_of_mem e later))
          (fun f later => values f (List.mem_cons_of_mem e later)),
        kept_shown_of_not_mem one mem dark (values e List.mem_cons_self)]
      rfl

/-- The values after the command are on their own lines. -/
theorem values_of_oneLine {pythonExecutable : String} {spec : ServiceSpec}
    (oneLine : OneLine pythonExecutable spec) (known : spec.autorestart ∈ autorestartValues)
    (commandText : List Char) :
    ∀ e ∈ (programEntries spec commandText).tail, '\n' ∉ e.2 := by
  have log : ∀ front back : String, '\n' ∉ front.toList → '\n' ∉ back.toList →
      '\n' ∉ (front ++ spec.name ++ back).toList := by
    intro front back before after
    rw [String.toList_append, String.toList_append]
    simp [before, after, oneLine.name]
  have environment_ : '\n' ∉ (environment spec).toList := by
    intro newline
    rcases newline_environment.mp newline with inName | ⟨e, mem, inKey | inValue⟩
    · exact oneLine.name inName
    · exact oneLine.keys e mem inKey
    · exact oneLine.values e mem inValue
  have flag : '\n' ∉ (if spec.autostart then "true" else "false").toList := by
    split
    · decide +kernel
    · decide +kernel
  intro e mem
  simp only [programEntries, List.tail_cons, List.mem_cons, List.not_mem_nil, or_false] at mem
  rcases mem with rfl | rfl | rfl | rfl | rfl | rfl | rfl | rfl | rfl | rfl | rfl | rfl
  · decide +kernel
  · exact environment_
  · exact flag
  · exact (tame_policy known).1
  · exact (tame_exitcodes spec.exitcodes).1
  · exact (tame_toString _).1
  · exact (tame_toString _).1
  · decide +kernel
  · decide +kernel
  · exact (tame_toString _).1
  · exact log _ _ (by decide +kernel) (by decide +kernel)
  · exact log _ _ (by decide +kernel) (by decide +kernel)

theorem toList_header (spec : ServiceSpec) :
    (header spec).toList = '[' :: (("program:" ++ spec.name).toList ++ [']']) := by
  rw [header, String.toList_append, String.toList_append, String.toList_append]
  rfl

theorem kept_pieces {pythonExecutable : String} {spec : ServiceSpec}
    (oneLine : OneLine pythonExecutable spec) (known : spec.autorestart ∈ autorestartValues) :
    (pieces pythonExecutable spec).flatMap Ini.kept = blockLines (programOf pythonExecutable spec) := by
  have top : Ini.kept (header spec).toList = [(header spec).toList] := by
    have one : '\n' ∉ (header spec).toList := by
      rw [header, String.toList_append, String.toList_append]
      simp [oneLine.name]
    have bracket : '[' ∈ (header spec).toList := by
      rw [toList_header]
      exact List.mem_cons_self
    exact Ini.kept_of_not_mem one bracket (by decide)
  have later : (Ini.lines (command spec.cmd pythonExecutable).toList).tail.filter
      (fun line => !Ini.blank line) = [] := by
    rw [List.filter_eq_nil_iff]
    intro line mem
    rw [(blank_command_iff pythonExecutable spec).mpr oneLine.command line mem]
    exact Bool.false_ne_true
  have first : Ini.kept (Ini.shown ("command".toList, (command spec.cmd pythonExecutable).toList)) =
      [Ini.shown ("command".toList, firstLine (command spec.cmd pythonExecutable).toList)] := by
    rw [kept_shown (by decide +kernel) (c := 'c') (by decide +kernel) (by decide), later]
  have rest := flatMap_kept_shown
    (fun e mem => exists_dark (List.mem_of_mem_tail mem))
    (values_of_oneLine oneLine known (command spec.cmd pythonExecutable).toList)
  have split : programEntries spec (command spec.cmd pythonExecutable).toList =
      ("command".toList, (command spec.cmd pythonExecutable).toList) ::
        (programEntries spec (command spec.cmd pythonExecutable).toList).tail := rfl
  rw [pieces, split, List.map_cons, List.flatMap_cons, List.flatMap_cons, top, first, rest,
    toList_header]
  rfl

theorem read_conf {specs : OrderedDict String ServiceSpec} {pythonExecutable conf : String}
    (generated : generateConf specs pythonExecutable = .ok conf)
    (oneLine : ∀ e ∈ specs.entries, OneLine pythonExecutable e.2)
    (known : ∀ e ∈ specs.entries, e.2.autorestart ∈ autorestartValues) :
    Ini.read conf.toList = .ok (wanted pythonExecutable specs) := by
  have lines : confLines pythonExecutable specs = (wanted pythonExecutable specs).flatMap blockLines := by
    rw [confLines, wanted, List.flatMap_append, List.flatMap_assoc, List.flatMap_map]
    congr 1
    apply List.flatMap_congr
    intro e mem
    exact kept_pieces (oneLine e mem) (known e mem)
  rw [Ini.read, kept_conf generated, lines, sections_wanted]
  rfl

/-! ## Counting lines -/

theorem le_length_flatMap {α β : Type} {f : α → List β} {as : List α}
    (atLeast : ∀ a ∈ as, 1 ≤ (f a).length) : as.length ≤ (as.flatMap f).length := by
  induction as with
  | nil => exact Nat.le_refl 0
  | cons a rest ih =>
      have first := atLeast a List.mem_cons_self
      have later := ih fun b mem => atLeast b (List.mem_cons_of_mem a mem)
      rw [List.flatMap_cons, List.length_append, List.length_cons]
      omega

/-- If every element gives something and the whole is no more than one each, each gives one. -/
theorem length_of_length_flatMap {α β : Type} {f : α → List β} {as : List α}
    (atLeast : ∀ a ∈ as, 1 ≤ (f a).length) (atMost : (as.flatMap f).length ≤ as.length) :
    ∀ a ∈ as, (f a).length = 1 := by
  induction as with
  | nil => exact fun a mem => absurd mem List.not_mem_nil
  | cons a rest ih =>
      have first := atLeast a List.mem_cons_self
      have tail : ∀ b ∈ rest, 1 ≤ (f b).length := fun b mem => atLeast b (List.mem_cons_of_mem a mem)
      have later := le_length_flatMap tail
      rw [List.flatMap_cons, List.length_append, List.length_cons] at atMost
      intro b mem
      rcases List.mem_cons.mp mem with rfl | inRest
      · omega
      · exact ih tail (by omega) b inRest

theorem one_le_piece {pythonExecutable : String} {spec : ServiceSpec} {piece : List Char}
    (mem : piece ∈ pieces pythonExecutable spec) : 1 ≤ (Ini.kept piece).length := by
  rcases List.mem_cons.mp mem with rfl | later
  · rw [toList_header]
    exact Ini.one_le_kept List.mem_cons_self (by decide)
  · obtain ⟨e, inEntries, rfl⟩ := List.mem_map.mp later
    obtain ⟨-, c, inKey, dark⟩ := exists_dark inEntries
    exact Ini.one_le_kept (List.mem_append_left _ inKey) dark

theorem exists_around_variable {spec : ServiceSpec} {e : String × String}
    (mem : e ∈ spec.env.entries) :
    ∃ before after, (environment spec).toList =
      before ++ Pairs.shown (e.1.toList, double e.2.toList) ++ after := by
  have block : e.1 ++ "=" ++ quoted (escape e.2) ∈
      ["PYTHONUNBUFFERED=" ++ quoted (escape "1"), "SERVICE_NAME=" ++ quoted (escape spec.name),
        "KOYU_RUNTIME_DIR=" ++ quoted "%(here)s"] ++
        spec.env.entries.map fun e => e.1 ++ "=" ++ quoted (escape e.2) :=
    List.mem_append_right _ (List.mem_map_of_mem mem)
  obtain ⟨before, after, same⟩ := exists_block "," block
  refine ⟨before, after, ?_⟩
  rw [environment, same]
  simp [Pairs.shown, quoted, Pairs.doubleQuote]

/-- A spec whose pieces keep one line each adds no line. -/
theorem oneLine_of_pieces {pythonExecutable : String} {spec : ServiceSpec}
    (one : ∀ piece ∈ pieces pythonExecutable spec, (Ini.kept piece).length = 1) :
    OneLine pythonExecutable spec := by
  have entry : ∀ e ∈ programEntries spec (command spec.cmd pythonExecutable).toList,
      (Ini.kept (Ini.shown e)).length = 1 :=
    fun e mem => one _ (List.mem_cons_of_mem _ (List.mem_map_of_mem mem))
  have variables_ : ∀ e ∈ spec.env.entries, ∀ text front back : List Char,
      Pairs.shown (e.1.toList, double e.2.toList) = front ++ text ++ Pairs.doubleQuote :: back →
        '\n' ∉ text := by
    intro e mem text front back same newline
    obtain ⟨before, after, whole⟩ := exists_around_variable mem
    have line := entry ("environment".toList, (environment spec).toList) (by simp [programEntries])
    have around : Ini.shown ("environment".toList, (environment spec).toList) =
        ("environment=".toList ++ before ++ front) ++ text ++ (Pairs.doubleQuote :: (back ++ after)) := by
      rw [whole, same]
      simp [Ini.shown]
    have two := Ini.two_le_of_newline ("environment=".toList ++ before ++ front)
      (Pairs.doubleQuote :: (back ++ after)) newline (c := 'e') (by simp) (by decide)
      (d := Pairs.doubleQuote) List.mem_cons_self (by decide)
    rw [← around] at two
    omega
  refine ⟨?_, ?_, ?_, ?_⟩
  · intro newline
    have line := one _ List.mem_cons_self
    have two := Ini.two_le_of_newline "[program:".toList "]".toList newline
      (c := '[') (by decide +kernel) (by decide) (d := ']') (by decide +kernel) (by decide)
    rw [header, String.toList_append, String.toList_append] at line
    omega
  · intro e mem newline
    refine variables_ e mem (e.1.toList ++ ['=']) [] (double e.2.toList ++ [Pairs.doubleQuote]) ?_
      (List.mem_append_left _ newline)
    simp [Pairs.shown]
  · intro e mem newline
    refine variables_ e mem (double e.2.toList) (e.1.toList ++ ['=', Pairs.doubleQuote]) [] ?_
      (mem_double.mpr newline)
    simp [Pairs.shown]
  · apply (blank_command_iff pythonExecutable spec).mp
    have line := entry ("command".toList, (command spec.cmd pythonExecutable).toList)
      List.mem_cons_self
    rw [kept_shown (by decide +kernel) (c := 'c') (by decide +kernel) (by decide)] at line
    have none_ := List.length_eq_zero_iff.mp (Nat.succ.inj line)
    intro l mem
    have notKept := List.filter_eq_nil_iff.mp none_ l mem
    simpa using notKept

/-- The names and keys of sections. -/
def shape (section_ : Ini.Section) : List Char × List (List Char) :=
  (section_.name, section_.entries.map Prod.fst)

/-- The shape meant: four global sections and one for each program, in order. -/
def wantedShape (specs : OrderedDict String ServiceSpec) : List (List Char × List (List Char)) :=
  globals.map shape ++ specs.entries.map fun e => (("program:" ++ e.2.name).toList, programKeys)

theorem shape_wanted (pythonExecutable : String) (specs : OrderedDict String ServiceSpec) :
    (wanted pythonExecutable specs).map shape = wantedShape specs := by
  rw [wanted, wantedShape, List.map_append, List.map_map]
  rfl

theorem weight_of_shape {found other : List Ini.Section} (same : found.map shape = other.map shape) :
    Ini.weight found = Ini.weight other := by
  induction found generalizing other with
  | nil =>
      rw [List.map_eq_nil_iff.mp same.symm]
  | cons s rest ih =>
      cases other with
      | nil => cases same
      | cons t more =>
          have first : (shape s).2.length = (shape t).2.length := by rw [(List.cons.inj same).1]
          simp only [shape, List.length_map] at first
          rw [Ini.weight, Ini.weight, first, ih (List.cons.inj same).2]

/-- As many lines as there should be, only if none was added. -/
theorem oneLine_of_shape {specs : OrderedDict String ServiceSpec} {pythonExecutable conf : String}
    (generated : generateConf specs pythonExecutable = .ok conf) {found : List Ini.Section}
    (read : Ini.read conf.toList = .ok found) (same : found.map shape = wantedShape specs) :
    ∀ e ∈ specs.entries, OneLine pythonExecutable e.2 := by
  have lines := Ini.length_of_read read
  have count := Ini.length_of_sections (sections_wanted pythonExecutable specs)
  rw [List.length_nil, Nat.zero_add] at count
  have programs : (specs.entries.map fun e => programOf pythonExecutable e.2).flatMap blockLines =
      specs.entries.flatMap fun e => blockLines (programOf pythonExecutable e.2) :=
    List.flatMap_map ..
  have lengths : (specs.entries.flatMap fun e => blockLines (programOf pythonExecutable e.2)).length =
      (specs.entries.flatMap fun e => pieces pythonExecutable e.2).length := by
    rw [List.length_flatMap, List.length_flatMap]
    rfl
  rw [kept_conf generated, weight_of_shape (same.trans (shape_wanted pythonExecutable specs).symm),
    ← count, confLines, wanted, List.flatMap_append, programs, List.length_append,
    List.length_append, lengths] at lines
  have atLeast : ∀ piece ∈ specs.entries.flatMap (fun e => pieces pythonExecutable e.2),
      1 ≤ (Ini.kept piece).length := by
    intro piece mem
    obtain ⟨e, -, inPieces⟩ := List.mem_flatMap.mp mem
    exact one_le_piece inPieces
  have one := length_of_length_flatMap atLeast (by omega)
  intro e mem
  apply oneLine_of_pieces
  intro piece inPieces
  exact one piece (List.mem_flatMap.mpr ⟨e, mem, inPieces⟩)

/-! ## Values and log files -/

/-- Where `koyu logs` looks: `rt.logs_dir / f"{service}{ending}"`. -/
def koyuLogs (dir : Path) (service ending : String) : List (Hop String) :=
  let text := (service ++ ending).toList
  if text.head? = some '/' then parts text
  else parts (hereOf dir ++ "/.koyu/logs".toList) ++ parts text

/-- A log of the program goes where it is meant to, and where `koyu logs` looks. -/
def LogsTo (dir : Path) (spec : ServiceSpec) (ending : String) (value : List Char) : Prop :=
  let path := hereOf dir ++ "/.koyu/logs/".toList ++ (spec.name ++ ending).toList
  Expands (hereOf dir) value path ∧ parts path = koyuLogs dir spec.name ending

/-- The conf has the sections and keys meant, each program once; every value expands, and
the logs go where they should. -/
structure Structured (dir : Path) (specs : OrderedDict String ServiceSpec)
    (found : List Ini.Section) : Prop where
  shape : found.map shape = wantedShape specs
  once : (found.map Ini.Section.name).Nodup
  expands : ∀ s ∈ found, ∀ e ∈ s.entries, ∃ out, Expands (hereOf dir) e.2 out
  logs : ∀ e ∈ specs.entries, ∀ s ∈ found, s.name = ("program:" ++ e.2.name).toList →
    (∀ value, ("stdout_logfile".toList, value) ∈ s.entries → LogsTo dir e.2 ".log" value) ∧
      ∀ value, ("stderr_logfile".toList, value) ∈ s.entries → LogsTo dir e.2 ".err" value

/-- A spec that fits into the conf: it adds no line, its name is no escape and no absolute
path, and every escape in its keys is known. -/
structure Fits (dir : Path) (pythonExecutable : String) (spec : ServiceSpec) : Prop where
  lines : OneLine pythonExecutable spec
  percent : '%' ∉ spec.name.toList
  relative : spec.name.toList.head? ≠ some '/'
  keys : ∀ e ∈ spec.env.entries, ∃ out, Expands (hereOf dir) e.1.toList out

theorem expands_listed_iff {here : List Char} {raw : List (List Char × List Char)} :
    (∃ out, Expands here (Pairs.listed raw) out) ↔
      ∀ pair ∈ raw, (∃ out, Expands here pair.1 out) ∧ ∃ out, Expands here pair.2 out := by
  induction raw with
  | nil =>
      constructor
      · exact fun _ pair mem => absurd mem List.not_mem_nil
      · exact fun _ => ⟨[], .nil⟩
  | cons pair raw ih =>
      have opened : Pairs.listed (pair :: raw) = ',' :: (pair.1 ++ '=' :: Pairs.doubleQuote ::
          (pair.2 ++ Pairs.doubleQuote :: Pairs.listed raw)) := by
        simp [Pairs.listed, Pairs.shown]
      rw [opened, List.forall_mem_cons, ← ih]
      constructor
      · rintro ⟨whole, expands⟩
        obtain ⟨_, -, inner⟩ := (expands_cons_iff (by decide)).mp expands
        obtain ⟨key, _, isKey, after, -⟩ := inner.split (by decide)
        obtain ⟨_, -, opened⟩ := (expands_cons_iff (by decide)).mp after
        obtain ⟨value, later, isValue, rest, -⟩ := opened.split (by decide)
        exact ⟨⟨⟨key, isKey⟩, value, isValue⟩, later, rest⟩
      · rintro ⟨⟨⟨key, isKey⟩, value, isValue⟩, later, rest⟩
        have closed := isValue.append (Expands.plain (c := Pairs.doubleQuote) (by decide) rest)
        have opened := Expands.plain (c := '=') (by decide)
          (Expands.plain (c := Pairs.doubleQuote) (by decide) closed)
        exact ⟨_, Expands.plain (c := ',') (by decide) (isKey.append opened)⟩

/-- The environment expands exactly if every key does. -/
theorem expands_environment_iff {dir : Path} {spec : ServiceSpec} :
    (∃ out, Expands (hereOf dir) (environment spec).toList out) ↔
      ∀ e ∈ spec.env.entries, ∃ out, Expands (hereOf dir) e.1.toList out := by
  have comma : (∃ out, Expands (hereOf dir) (environment spec).toList out) ↔
      ∃ out, Expands (hereOf dir) (Pairs.listed (written spec)) out := by
    rw [← toList_environment]
    constructor
    · rintro ⟨out, expands⟩
      exact ⟨_, .plain (by decide) expands⟩
    · rintro ⟨out, expands⟩
      obtain ⟨later, -, inner⟩ := (expands_cons_iff (by decide)).mp expands
      exact ⟨later, inner⟩
  rw [comma, expands_listed_iff]
  constructor
  · intro all e mem
    exact (all _ (List.mem_append_right _ (List.mem_map_of_mem mem))).1
  · intro keys
    have token : Expands (hereOf dir) (hereToken ++ []) (hereOf dir ++ []) := .here .nil
    rw [List.append_nil, List.append_nil] at token
    apply forall_mem_written
    · exact ⟨⟨_, expands_self (injectedName_plain "PYTHONUNBUFFERED" (by decide)).2.2⟩,
        _, expands_double _ _⟩
    · exact ⟨⟨_, expands_self (injectedName_plain "SERVICE_NAME" (by decide)).2.2⟩,
        _, expands_double _ _⟩
    · exact ⟨⟨_, expands_self (injectedName_plain "KOYU_RUNTIME_DIR" (by decide)).2.2⟩, _, token⟩
    · intro e mem
      exact ⟨keys e mem, _, expands_double _ _⟩

/-! ## The log files -/

theorem parts_logs_ne_nil (dir : Path) : parts (hereOf dir ++ "/.koyu/logs".toList) ≠ [] := by
  have split : hereOf dir ++ "/.koyu/logs".toList =
      (hereOf dir ++ "/.koyu".toList) ++ '/' :: "logs".toList := by
    simp
  have last : parts "logs".toList = [.into "logs"] := by decide +kernel
  rw [split, parts_append_slash, last]
  exact List.append_ne_nil_of_right_ne_nil _ (List.cons_ne_nil _ _)

/-- The log is found exactly if its name is relative. -/
theorem parts_log_iff (dir : Path) (spec : ServiceSpec) {ending : String}
    (dotted : ending.toList.head? = some '.') :
    parts (hereOf dir ++ "/.koyu/logs/".toList ++ (spec.name ++ ending).toList) =
        koyuLogs dir spec.name ending ↔ spec.name.toList.head? ≠ some '/' := by
  have split : hereOf dir ++ "/.koyu/logs/".toList ++ (spec.name ++ ending).toList =
      (hereOf dir ++ "/.koyu/logs".toList) ++ '/' :: (spec.name ++ ending).toList := by
    simp
  have first : (spec.name ++ ending).toList.head? = some '/' ↔ spec.name.toList.head? = some '/' := by
    rw [String.toList_append, List.head?_append]
    cases spec.name.toList with
    | nil => simp [dotted]
    | cons c rest => rfl
  rw [split, parts_append_slash, koyuLogs]
  by_cases absolute : spec.name.toList.head? = some '/'
  · simp only [first.mpr absolute, if_true]
    constructor
    · intro same
      exact absurd (List.append_left_eq_self.mp same) (parts_logs_ne_nil dir)
    · intro relative
      exact absurd absolute relative
  · rw [if_neg (first.not.mpr absolute)]
    exact iff_of_true rfl absolute

theorem expands_log_iff (dir : Path) (spec : ServiceSpec) {ending : String}
    (plain : '%' ∉ ending.toList) :
    Expands (hereOf dir) ("%(here)s/.koyu/logs/" ++ spec.name ++ ending).toList
        (hereOf dir ++ "/.koyu/logs/".toList ++ (spec.name ++ ending).toList) ↔
      '%' ∉ spec.name.toList := by
  have value : ("%(here)s/.koyu/logs/" ++ spec.name ++ ending).toList =
      (hereToken ++ "/.koyu/logs".toList) ++ '/' :: (spec.name ++ ending).toList := by
    simp [hereToken]
  have path : hereOf dir ++ "/.koyu/logs/".toList ++ (spec.name ++ ending).toList =
      (hereOf dir ++ "/.koyu/logs".toList) ++ '/' :: (spec.name ++ ending).toList := by
    simp
  have front : Expands (hereOf dir) (hereToken ++ "/.koyu/logs".toList)
      (hereOf dir ++ "/.koyu/logs".toList) := .here (expands_self (by decide +kernel))
  have whole : '%' ∉ (spec.name ++ ending).toList ↔ '%' ∉ spec.name.toList := by
    rw [String.toList_append, List.mem_append, not_or, and_iff_left plain]
  rw [value, path, ← whole]
  constructor
  · intro expands
    obtain ⟨x, y, before, after, same⟩ := expands.split (by decide)
    rw [before.unique front] at same
    have tail : (spec.name ++ ending).toList = y := (List.cons.inj (List.append_cancel_left same)).2
    rw [← tail] at after
    exact expands_self_iff.mp after
  · intro percent
    exact front.append (.plain (by decide) (expands_self percent))

theorem logsTo_iff (dir : Path) (spec : ServiceSpec) {ending : String}
    (plain : '%' ∉ ending.toList) (dotted : ending.toList.head? = some '.') :
    LogsTo dir spec ending ("%(here)s/.koyu/logs/" ++ spec.name ++ ending).toList ↔
      '%' ∉ spec.name.toList ∧ spec.name.toList.head? ≠ some '/' := by
  exact and_congr (expands_log_iff dir spec plain) (parts_log_iff dir spec dotted)

/-! ## The specs whose conf is structured -/

theorem expands_globals (dir : Path) :
    ∀ s ∈ globals, ∀ e ∈ s.entries, ∃ out, Expands (hereOf dir) e.2 out := by
  have all : ∀ s ∈ globals, ∀ e ∈ s.entries, (expand [] e.2).toOption.isSome = true := by
    decide +kernel
  intro s isGlobal e mem
  obtain ⟨out, expanded⟩ := Option.isSome_iff_exists.mp (all s isGlobal e mem)
  cases ran : expand [] e.2 with
  | error raised =>
      rw [ran] at expanded
      cases expanded
  | ok out => exact (expands_of_expand ran).elsewhere (hereOf dir)

/-- Beside the environment and the logs, every value of a program expands. -/
theorem expands_program_iff (dir : Path) (pythonExecutable : String) {spec : ServiceSpec}
    (known : spec.autorestart ∈ autorestartValues) (percent : '%' ∉ spec.name.toList) :
    (∀ e ∈ (programOf pythonExecutable spec).entries, ∃ out, Expands (hereOf dir) e.2 out) ↔
      ∀ e ∈ spec.env.entries, ∃ out, Expands (hereOf dir) e.1.toList out := by
  rw [← expands_environment_iff]
  constructor
  · intro all
    have mem : ("environment".toList, (environment spec).toList) ∈
        (programOf pythonExecutable spec).entries :=
      List.mem_cons_of_mem _ (List.mem_cons_of_mem _ List.mem_cons_self)
    exact all _ mem
  · intro environment_ e mem
    have tame : ∀ {text : List Char}, Tame text → ∃ out, Expands (hereOf dir) text out :=
      fun tame => ⟨_, expands_self tame.2⟩
    have plain : ∀ {text : List Char}, '%' ∉ text → ∃ out, Expands (hereOf dir) text out :=
      fun none_ => ⟨_, expands_self none_⟩
    have flag : '%' ∉ (if spec.autostart then "true" else "false").toList := by
      split
      · decide +kernel
      · decide +kernel
    simp only [programOf, programEntries, List.mem_cons, List.not_mem_nil, or_false] at mem
    rcases mem with rfl | rfl | rfl | rfl | rfl | rfl | rfl | rfl | rfl | rfl | rfl | rfl | rfl
    · rw [toList_command, firstLine_double]
      exact ⟨_, expands_double _ _⟩
    · have token : Expands (hereOf dir) (hereToken ++ []) (hereOf dir ++ []) := .here .nil
      rw [List.append_nil] at token
      exact ⟨_, token⟩
    · exact environment_
    · exact plain flag
    · exact tame (tame_policy known)
    · exact tame (tame_exitcodes spec.exitcodes)
    · exact tame (tame_toString _)
    · exact tame (tame_toString _)
    · exact plain (by decide +kernel)
    · exact plain (by decide +kernel)
    · exact tame (tame_toString _)
    · exact ⟨_, (expands_log_iff dir spec (by decide +kernel)).mpr percent⟩
    · exact ⟨_, (expands_log_iff dir spec (by decide +kernel)).mpr percent⟩

theorem mem_stdout_iff {spec : ServiceSpec} {commandText value : List Char} :
    ("stdout_logfile".toList, value) ∈ programEntries spec commandText ↔
      value = ("%(here)s/.koyu/logs/" ++ spec.name ++ ".log").toList := by
  simp [programEntries]

theorem mem_stderr_iff {spec : ServiceSpec} {commandText value : List Char} :
    ("stderr_logfile".toList, value) ∈ programEntries spec commandText ↔
      value = ("%(here)s/.koyu/logs/" ++ spec.name ++ ".err").toList := by
  simp [programEntries]

theorem global_name {s : Ini.Section} (isGlobal : s ∈ globals) (name : String) :
    s.name ≠ ("program:" ++ name).toList := by
  have first : ∀ t ∈ globals, t.name.head? ≠ some 'p' := by decide +kernel
  intro same
  apply first s isGlobal
  rw [same, String.toList_append]
  rfl

theorem nodup_wanted {specs : OrderedDict String ServiceSpec} (pythonExecutable : String)
    (named : ∀ e ∈ specs.entries, e.2.name = e.1) :
    ((wanted pythonExecutable specs).map Ini.Section.name).Nodup := by
  have names : specs.entries.map (fun e => e.2.name) = specs.entries.map Prod.fst :=
    List.map_congr_left named
  have programs : (specs.entries.map fun e => ("program:" ++ e.2.name).toList).Nodup := by
    have distinct : (specs.entries.map fun e => e.2.name).Nodup := by
      rw [names]
      exact specs.nodup
    have injective : Function.Injective fun name : String => ("program:" ++ name).toList := by
      intro a b same
      simpa [String.toList_inj] using same
    have image := distinct.map injective
    rwa [List.map_map] at image
  rw [wanted, List.map_append, List.map_map, List.nodup_append]
  refine ⟨by decide +kernel, programs, ?_⟩
  intro a isGlobal b isProgram same
  obtain ⟨s, mem, rfl⟩ := List.mem_map.mp isGlobal
  obtain ⟨e, -, rfl⟩ := List.mem_map.mp isProgram
  exact global_name mem e.2.name same

theorem structured_wanted {dir : Path} {specs : OrderedDict String ServiceSpec}
    {pythonExecutable : String} (named : ∀ e ∈ specs.entries, e.2.name = e.1)
    (known : ∀ e ∈ specs.entries, e.2.autorestart ∈ autorestartValues)
    (fits : ∀ e ∈ specs.entries, Fits dir pythonExecutable e.2) :
    Structured dir specs (wanted pythonExecutable specs) := by
  refine ⟨shape_wanted pythonExecutable specs, nodup_wanted pythonExecutable named, ?_, ?_⟩
  · intro s mem
    rcases List.mem_append.mp mem with isGlobal | isProgram
    · exact expands_globals dir s isGlobal
    · obtain ⟨e, inSpecs, rfl⟩ := List.mem_map.mp isProgram
      have own := fits e inSpecs
      exact (expands_program_iff dir pythonExecutable (known e inSpecs) own.percent).mpr own.keys
  · intro e inSpecs s mem name
    rcases List.mem_append.mp mem with isGlobal | isProgram
    · exact absurd name (global_name isGlobal e.2.name)
    · obtain ⟨other, -, rfl⟩ := List.mem_map.mp isProgram
      have same : other.2.name = e.2.name := by
        simpa [programOf, String.toList_inj] using name
      have own := fits e inSpecs
      refine ⟨?_, ?_⟩
      · intro value inEntries
        rw [mem_stdout_iff.mp inEntries, same]
        exact (logsTo_iff dir e.2 (by decide +kernel) (by decide +kernel)).mpr ⟨own.percent, own.relative⟩
      · intro value inEntries
        rw [mem_stderr_iff.mp inEntries, same]
        exact (logsTo_iff dir e.2 (by decide +kernel) (by decide +kernel)).mpr ⟨own.percent, own.relative⟩

/-- A conf is generated, and it has the structure meant. -/
def ConfStructured (dir : Path) (specs : OrderedDict String ServiceSpec)
    (pythonExecutable : String) : Prop :=
  ∃ conf found, generateConf specs pythonExecutable = .ok conf ∧
    Ini.read conf.toList = .ok found ∧ Structured dir specs found

theorem confStructured_iff {dir : Path} {specs : OrderedDict String ServiceSpec}
    (pythonExecutable : String) (named : ∀ e ∈ specs.entries, e.2.name = e.1)
    (known : ∀ e ∈ specs.entries, e.2.autorestart ∈ autorestartValues) :
    ConfStructured dir specs pythonExecutable ↔
      (∀ e ∈ specs.entries, Renders e.2) ∧ ∀ e ∈ specs.entries, Fits dir pythonExecutable e.2 := by
  constructor
  · rintro ⟨conf, found, generated, read, structured⟩
    have oneLine := oneLine_of_shape generated read structured.shape
    have whole := read_conf generated oneLine known
    rw [read] at whole
    have same := Except.ok.inj whole
    subst same
    refine ⟨renders_of_conf generated, ?_⟩
    intro e mem
    have program : programOf pythonExecutable e.2 ∈ wanted pythonExecutable specs :=
      List.mem_append_right _ (List.mem_map_of_mem mem)
    have log := (structured.logs e mem _ program rfl).1 _ (mem_stdout_iff.mpr rfl)
    obtain ⟨percent, relative⟩ :=
      (logsTo_iff dir e.2 (by decide +kernel) (by decide +kernel)).mp log
    refine ⟨oneLine e mem, percent, relative, ?_⟩
    apply (expands_program_iff dir pythonExecutable (known e mem) percent).mp
    exact structured.expands _ program
  · rintro ⟨renders, fits⟩
    obtain ⟨conf, generated⟩ := exists_conf renders pythonExecutable
    exact ⟨conf, _, generated, read_conf generated (fun e mem => (fits e mem).lines) known,
      structured_wanted named known fits⟩

/-- **The conf of parsed services is structured** exactly if no name, key or value of an
environment has a newline, the lines of a command after the first are blank, no name has a
percent sign or starts with a slash, and every escape in a key is known. -/
theorem confStructured_of_parseServices (floatText : Double → String) (raw : Yaml)
    (specs : OrderedDict String ServiceSpec) (parsed : parseServices floatText raw = .ok specs)
    (dir : Path) (pythonExecutable : String) :
    ConfStructured dir specs pythonExecutable ↔
      (∀ e ∈ specs.entries, Renders e.2) ∧
        ∀ e ∈ specs.entries, Fits dir pythonExecutable e.2 := by
  apply confStructured_iff
  · intro e mem
    exact (spec_of_parseServices parsed (OrderedDict.get?_of_mem mem)).1
  · intro e mem
    exact (spec_of_parseServices parsed (OrderedDict.get?_of_mem mem)).2.2

namespace Demo

/-- A value whose second line is an entry of its own. -/
def twoLines : ServiceSpec := envJob [("NOTE", "x\nautostart=false")]

end Demo

theorem confStructured_of_parseServices_mode :
    ConfStructured Demo.runtime (.ofList [("job", Demo.mode)]) Demo.python ↔
      (∀ e ∈ (OrderedDict.ofList [("job", Demo.mode)]).entries, Renders e.2) ∧
        ∀ e ∈ (OrderedDict.ofList [("job", Demo.mode)]).entries,
          Fits Demo.runtime Demo.python e.2 :=
  confStructured_of_parseServices (fun _ => "") (Demo.envDocument [(.str "MODE", .str "50%,a=b")]) _
    rfl Demo.runtime Demo.python

/-- A value of two lines puts a second `autostart` into the section. -/
theorem twoLines_breaks :
    parseServices (fun _ => "") (Demo.envDocument [(.str "NOTE", .str "x\nautostart=false")]) =
      .ok (.ofList [("job", Demo.twoLines)]) ∧
    ¬ ConfStructured Demo.runtime (.ofList [("job", Demo.twoLines)]) Demo.python := by
  have only : ∀ e ∈ (OrderedDict.ofList [("job", Demo.twoLines)]).entries,
      e = ("job", Demo.twoLines) := fun e mem => List.mem_singleton.mp mem
  refine ⟨rfl, ?_⟩
  rw [confStructured_iff Demo.python]
  · rintro ⟨-, fits⟩
    have one := (fits ("job", Demo.twoLines) List.mem_cons_self).lines.values
      ("NOTE", "x\nautostart=false") List.mem_cons_self
    exact absurd one (by decide +kernel)
  · intro e mem
    rw [only e mem]
    rfl
  · intro e mem
    rw [only e mem]
    decide

end KoyuRuntime.Warden
