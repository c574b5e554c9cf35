/-
# Warden.CommandLine — the words of a command, before and after the conf

supervisord splits the expanded value of `command=` like a shell.  `generate_conf` joins
the words of `cmd` with spaces and doubles percent signs, but quotes nothing.

* `argv_command`: what supervisord splits is the joined words up to the first newline.
* `starts_words_iff`: it starts the words of the spec exactly if every word is plain
  and the conf can be rendered.
-/
import KoyuRuntime.Warden.ConfReader
import KoyuRuntime.Host.Shlex

namespace KoyuRuntime.Warden

open Host Theory

set_option autoImplicit false

/-- The value of the `command=` line of a section that starts the text. -/
def commandValue (spec : ServiceSpec) (text : List Char) : List Char :=
  firstLine (text.drop (opening spec).length)

/-- The words supervisord starts for it. -/
def argv (here : List Char) (spec : ServiceSpec) (text : List Char) :
    Except Exn (List (List Char)) := do
  let value ← expand here (commandValue spec text)
  Shlex.split value

/-- The words of the spec, under the interpreter given. -/
def words (spec : ServiceSpec) (pythonExecutable : String) : List (List Char) :=
  (commandParts pythonExecutable spec.cmd).map String.toList

theorem join_double (parts : List (List Char)) :
    Shlex.join (parts.map double) = double (Shlex.join parts) := by
  induction parts with
  | nil => rfl
  | cons w rest ih =>
      cases rest with
      | nil => simp [Shlex.join, List.intercalate]
      | cons v more =>
          have blank : ' ' ≠ '%' := by decide
          rw [List.map_cons, List.map_cons, Shlex.join_cons_cons, Shlex.join_cons_cons,
            double_append, double_cons_of_ne blank, ← ih, List.map_cons]

theorem toList_command (spec : ServiceSpec) (pythonExecutable : String) :
    (command spec.cmd pythonExecutable).toList =
      double (Shlex.join (words spec pythonExecutable)) := by
  rw [← join_double]
  simp [command, words, Shlex.join, List.map_map, Function.comp_def]

theorem argv_command (here : List Char) {pythonExecutable : String} {spec : ServiceSpec}
    {text : String} (rendered : programSection pythonExecutable spec = .ok text)
    (after : List Char) :
    argv here spec (text.toList ++ after) =
      Shlex.split (firstLine (Shlex.join (words spec pythonExecutable))) := by
  obtain ⟨tail, same⟩ := programSection_toList rendered
  have value : commandValue spec (text.toList ++ after) =
      double (firstLine (Shlex.join (words spec pythonExecutable))) := by
    rw [same, commandValue, List.append_assoc, List.drop_left, List.append_assoc, List.cons_append,
      firstLine_append_newline, toList_command, firstLine_double]
  rw [argv, value, expand_double]
  rfl

/-- The first line of joined words splits into them exactly if every one is plain. -/
theorem split_firstLine_iff (parts : List (List Char)) :
    Shlex.split (firstLine (Shlex.join parts)) = .ok parts ↔ ∀ w ∈ parts, Shlex.Plain w := by
  constructor
  · exact Shlex.plain_of_split (firstLine_length_le _)
  · intro plain
    have one : '\n' ∉ Shlex.join parts := by
      intro mem
      rcases Shlex.mem_join mem with blank | ⟨w, inParts, inWord⟩
      · exact absurd blank (by decide)
      · have ordinary := (plain w inParts).2 '\n' inWord
        exact absurd ordinary (by decide)
    rw [firstLine_of_not_mem one]
    exact Shlex.split_join plain

/-- A conf is generated, and supervisord starts these words for the section of the spec. -/
def Starts (here : List Char) (specs : OrderedDict String ServiceSpec) (pythonExecutable : String)
    (spec : ServiceSpec) (started : List (List Char)) : Prop :=
  ∃ conf before text after, generateConf specs pythonExecutable = .ok conf ∧
    programSection pythonExecutable spec = .ok text ∧ conf.toList = before ++ text.toList ++ after ∧
    argv here spec (text.toList ++ after) = .ok started

theorem starts_iff (here : List Char) {specs : OrderedDict String ServiceSpec}
    (pythonExecutable : String) {name : String} {spec : ServiceSpec}
    (held : specs.get? name = some spec) (started : List (List Char)) :
    Starts here specs pythonExecutable spec started ↔
      (∀ e ∈ specs.entries, Renders e.2) ∧
        Shlex.split (firstLine (Shlex.join (words spec pythonExecutable))) = .ok started := by
  constructor
  · rintro ⟨conf, before, text, after, generated, rendered, -, read⟩
    rw [argv_command here rendered] at read
    exact ⟨renders_of_conf generated, read⟩
  · rintro ⟨renders, read⟩
    obtain ⟨conf, generated⟩ := exists_conf renders pythonExecutable
    obtain ⟨text, rendered, before, after, stands⟩ := exists_programSection generated held
    rw [← argv_command here rendered after] at read
    exact ⟨conf, before, text, after, generated, rendered, stands, read⟩

/-- **A command survives the conf** exactly if no word of it is empty or has whitespace,
a quote or a backslash, and the numbers of all specs can be printed. -/
theorem starts_words_iff (here : List Char) (specs : OrderedDict String ServiceSpec)
    (pythonExecutable name : String) (spec : ServiceSpec) (held : specs.get? name = some spec) :
    Starts here specs pythonExecutable spec (words spec pythonExecutable) ↔
      (∀ e ∈ specs.entries, Renders e.2) ∧
        ∀ w ∈ words spec pythonExecutable, Shlex.Plain w := by
  rw [starts_iff here pythonExecutable held, split_firstLine_iff]

namespace Demo

/-- `services.yaml` with one job and its command. -/
def document (cmd : List Yaml) : Yaml := .map [(.str "job", .map [(.str "cmd", .seq cmd)])]

/-- The spec of the job, with the defaults of the parser. -/
def job (cmd : List String) : ServiceSpec :=
  ⟨"job", cmd, .ofList [], true, "unexpected", 1, 3, 10, [0], false⟩

/-- A command of plain words. -/
def module_ : ServiceSpec := job ["python3", "-m", "sim"]

/-- A script in one word, with spaces. -/
def script : ServiceSpec := job ["python3", "-c", "print(1); print(2)"]

def python : String := "/usr/bin/python3"

theorem renders_job (cmd : List String) :
    ∀ e ∈ (OrderedDict.ofList [("job", job cmd)]).entries, Renders e.2 := by
  intro e mem
  rw [List.mem_singleton.mp mem]
  refine ⟨?_, ?_, ?_, ?_⟩
  · intro c mem
    rw [List.mem_singleton.mp mem]
    show Printable 0
    decide +kernel
  · show Printable 1
    decide +kernel
  · show Printable 3
    decide +kernel
  · show Printable 10
    decide +kernel

end Demo

theorem starts_words_iff_module :
    Starts [] (.ofList [("job", Demo.module_)]) Demo.python Demo.module_
        (words Demo.module_ Demo.python) ↔
      (∀ e ∈ (OrderedDict.ofList [("job", Demo.module_)]).entries, Renders e.2) ∧
        ∀ w ∈ words Demo.module_ Demo.python, Shlex.Plain w :=
  starts_words_iff [] (.ofList [("job", Demo.module_)]) Demo.python "job" Demo.module_ rfl

/-- A script with a space between its statements: python gets a word more. -/
theorem script_resplit :
    parseServices (fun _ => "")
        (Demo.document [.str "python3", .str "-c", .str "print(1); print(2)"]) =
      .ok (.ofList [("job", Demo.script)]) ∧
    Starts [] (.ofList [("job", Demo.script)]) Demo.python Demo.script
      (["/usr/bin/python3", "-c", "print(1);", "print(2)"].map String.toList) ∧
    ¬ Starts [] (.ofList [("job", Demo.script)]) Demo.python Demo.script
      (words Demo.script Demo.python) := by
  have held : (OrderedDict.ofList [("job", Demo.script)]).get? "job" = some Demo.script := rfl
  refine ⟨rfl, ?_, ?_⟩
  · apply (starts_iff [] Demo.python held _).mpr
    exact ⟨Demo.renders_job _, rfl⟩
  · rw [starts_iff [] Demo.python held, split_firstLine_iff]
    rintro ⟨-, plain⟩
    have spaced := plain "print(1); print(2)".toList (by decide +kernel)
    have ordinary := spaced.2 ' ' (by decide +kernel)
    exact absurd ordinary (by decide)

end KoyuRuntime.Warden
