/-
# Warden.ConfGenerator — rendering a `supervisord.conf` from service specs

`generate_conf` writes four global sections and one `[program:…]` section for every spec,
in their order.  A percent sign in a command, a service name or an environment value is
doubled where it goes into `command=` and `environment=`; nothing else is escaped.

`str(value)` of an integer past `sys.get_int_max_str_digits()` raises a `ValueError`, so
not every accepted spec can be rendered.

* `programSection_toList`: a section opens with its header and the `command=` line.
* `exists_programSection`: every spec's section stands in the conf.
-/
import KoyuRuntime.Warden.Services

namespace KoyuRuntime.Warden

open Host Theory

set_option autoImplicit false

/-- `%%` for every `%`. -/
def double (text : List Char) : List Char :=
  text.flatMap fun c => if c = '%' then ['%', '%'] else [c]

/-- `_escape`. -/
def escape (value : String) : String := String.ofList (double value.toList)

/-- The double quote, around the values of `environment=`. -/
def quoted (value : String) : String := "\"" ++ value ++ "\""

/-- `str` of an integer. -/
def strInt (i : Int) : Except Exn String :=
  if i.natAbs < 10 ^ maxStrDigits then .ok (toString i) else .error .valueError

/-- `_SOCK`. -/
def sock : String := "%(here)s/.koyu/run/supervisor.sock"

/-- `_PIDFILE`. -/
def pidfile : String := "%(here)s/.koyu/run/supervisord.pid"

/-- `_DAEMON_LOG`. -/
def daemonLog : String := "%(here)s/.koyu/run/supervisord.log"

/-- `_global_sections`. -/
def globalSections : String :=
  "\n".intercalate
    ["[unix_http_server]",
      "file=" ++ sock,
      "",
      "[supervisord]",
      "pidfile=" ++ pidfile,
      "logfile=" ++ daemonLog,
      "directory=%(here)s",
      "loglevel=info",
      "nodaemon=false",
      "",
      "[rpcinterface:supervisor]",
      "supervisor.rpcinterface_factory=supervisor.rpcinterface:make_main_rpcinterface",
      "",
      "[supervisorctl]",
      "serverurl=unix://" ++ sock,
      ""]

/-- The words to run: services run under the interpreter of the supervisor. -/
def commandParts (pythonExecutable : String) : List String → List String
  | [] => []
  | first :: rest =>
      if first = "python" ∨ first = "python3" then pythonExecutable :: rest else first :: rest

/-- `_command`. -/
def command (cmd : List String) (pythonExecutable : String) : String :=
  " ".intercalate ((commandParts pythonExecutable cmd).map escape)

/-- `_environment`: the injected variables first.  The runtime dir is left to the
expansion of `%(here)s`, and the keys are written as they are. -/
def environment (spec : ServiceSpec) : String :=
  ",".intercalate
    (["PYTHONUNBUFFERED=" ++ quoted (escape "1"),
      "SERVICE_NAME=" ++ quoted (escape spec.name),
      "KOYU_RUNTIME_DIR=" ++ quoted "%(here)s"] ++
      spec.env.entries.map fun e => e.1 ++ "=" ++ quoted (escape e.2))

/-- The `startsecs` and `autorestart` written: a oneshot may exit at once and is never
relaunched. -/
def restartPolicy (spec : ServiceSpec) : Int × String :=
  if spec.oneshot then (0, "false") else (spec.startsecs, spec.autorestart)

def header (spec : ServiceSpec) : String := "[program:" ++ spec.name ++ "]"

/-- `_program_section`. -/
def programSection (pythonExecutable : String) (spec : ServiceSpec) : Except Exn String := do
  let exitcodes ← spec.exitcodes.mapM strInt
  let startsecs ← strInt (restartPolicy spec).1
  let startretries ← strInt spec.startretries
  let stopwaitsecs ← strInt spec.stopwaitsecs
  let log := "%(here)s/.koyu/logs/" ++ spec.name
  pure ("\n".intercalate
    [header spec,
      "command=" ++ command spec.cmd pythonExecutable,
      "directory=%(here)s",
      "environment=" ++ environment spec,
      "autostart=" ++ (if spec.autostart then "true" else "false"),
      "autorestart=" ++ (restartPolicy spec).2,
      "exitcodes=" ++ ",".intercalate exitcodes,
      "startsecs=" ++ startsecs,
      "startretries=" ++ startretries,
      "stopasgroup=true",
      "killasgroup=true",
      "stopwaitsecs=" ++ stopwaitsecs,
      "stdout_logfile=" ++ log ++ ".log",
      "stderr_logfile=" ++ log ++ ".err",
      ""])

/-- `generate_conf`. -/
def generateConf (specs : OrderedDict String ServiceSpec) (pythonExecutable : String) :
    Except Exn String := do
  let programs ← specs.entries.mapM fun e => programSection pythonExecutable e.2
  pure ("\n".intercalate (globalSections :: programs) ++ "\n")

/-! ## Specs that can be rendered -/

/-- A number `str` does not raise on. -/
def Printable (i : Int) : Prop := i.natAbs < 10 ^ maxStrDigits

instance (i : Int) : Decidable (Printable i) := inferInstanceAs (Decidable (_ < _))

/-- Every number a section writes can be printed. -/
structure Renders (spec : ServiceSpec) : Prop where
  exitcodes : ∀ c ∈ spec.exitcodes, Printable c
  startsecs : Printable (restartPolicy spec).1
  startretries : Printable spec.startretries
  stopwaitsecs : Printable spec.stopwaitsecs

theorem strInt_of_printable {i : Int} (small : Printable i) : strInt i = .ok (toString i) :=
  if_pos small

theorem printable_of_strInt {i : Int} {shown : String} (printed : strInt i = .ok shown) :
    Printable i := by
  unfold strInt at printed
  split at printed
  · assumption
  · cases printed

theorem exists_section {spec : ServiceSpec} (renders : Renders spec) (pythonExecutable : String) :
    ∃ text, programSection pythonExecutable spec = .ok text := by
  obtain ⟨exitcodes, codes⟩ := exists_mapM (f := strInt)
    fun c mem => ⟨_, strInt_of_printable (renders.exitcodes c mem)⟩
  unfold programSection
  rw [codes, strInt_of_printable renders.startsecs, strInt_of_printable renders.startretries,
    strInt_of_printable renders.stopwaitsecs]
  exact ⟨_, rfl⟩

theorem renders_of_section {pythonExecutable : String} {spec : ServiceSpec} {text : String}
    (rendered : programSection pythonExecutable spec = .ok text) : Renders spec := by
  simp only [programSection, except_bind_ok_iff] at rendered
  obtain ⟨_, codes, _, startsecs, _, startretries, _, stopwaitsecs, -⟩ := rendered
  refine ⟨?_, printable_of_strInt startsecs, printable_of_strInt startretries,
    printable_of_strInt stopwaitsecs⟩
  intro c mem
  obtain ⟨shown, printed, -⟩ := mem_of_mapM codes mem
  exact printable_of_strInt printed

theorem exists_conf {specs : OrderedDict String ServiceSpec}
    (renders : ∀ e ∈ specs.entries, Renders e.2) (pythonExecutable : String) :
    ∃ conf, generateConf specs pythonExecutable = .ok conf := by
  have programs : ∃ programs,
      specs.entries.mapM (fun e => programSection pythonExecutable e.2) = .ok programs :=
    exists_mapM fun e mem => exists_section (renders e mem) pythonExecutable
  obtain ⟨programs, rendered⟩ := programs
  unfold generateConf
  rw [rendered]
  exact ⟨_, rfl⟩

theorem renders_of_conf {specs : OrderedDict String ServiceSpec} {pythonExecutable conf : String}
    (generated : generateConf specs pythonExecutable = .ok conf) :
    ∀ e ∈ specs.entries, Renders e.2 := by
  obtain ⟨programs, rendered, -⟩ := except_bind_ok_iff.mp generated
  intro e mem
  obtain ⟨text, here, -⟩ := mem_of_mapM rendered mem
  exact renders_of_section here

/-! ## Doubling -/

@[simp] theorem double_append (l r : List Char) : double (l ++ r) = double l ++ double r := by
  simp [double]

theorem double_cons_of_ne {c : Char} (ne : c ≠ '%') (rest : List Char) :
    double (c :: rest) = c :: double rest := by
  simp [double, ne]

theorem double_percent (rest : List Char) :
    double ('%' :: rest) = '%' :: '%' :: double rest := by
  simp [double]

@[simp] theorem toList_escape (value : String) : (escape value).toList = double value.toList := by
  simp [escape]

/-! ## Where a section stands -/

/-- What a section has before the value of its `command=` line. -/
def opening (spec : ServiceSpec) : List Char := (header spec ++ "\n" ++ "command=").toList

theorem programSection_toList {pythonExecutable : String} {spec : ServiceSpec} {text : String}
    (rendered : programSection pythonExecutable spec = .ok text) :
    ∃ tail, text.toList =
      opening spec ++ ((command spec.cmd pythonExecutable).toList ++ '\n' :: tail) := by
  simp only [programSection, except_bind_ok_iff] at rendered
  obtain ⟨exitcodes, -, startsecs, -, startretries, -, stopwaitsecs, -, same⟩ := rendered
  rw [← Except.ok.inj same]
  simp only [String.intercalate_cons_cons, String.toList_append, opening, List.append_assoc]
  exact ⟨_, rfl⟩

/-- A block of joined blocks has a text before it and one after. -/
theorem exists_block (separator : String) {block : String} {blocks : List String} (mem : block ∈ blocks) :
    ∃ before after, (separator.intercalate blocks).toList = before ++ block.toList ++ after := by
  induction blocks with
  | nil => cases mem
  | cons first rest ih =>
      cases rest with
      | nil =>
          rw [List.mem_singleton.mp mem]
          exact ⟨[], [], by simp⟩
      | cons next more =>
          rw [String.intercalate_cons_cons, String.toList_append, String.toList_append]
          rcases List.mem_cons.mp mem with rfl | later
          · exact ⟨[], _, by rw [List.nil_append, List.append_assoc]⟩
          · obtain ⟨before, after, same⟩ := ih later
            refine ⟨first.toList ++ separator.toList ++ before, after, ?_⟩
            rw [same]
            simp only [List.append_assoc]

theorem exists_programSection {specs : OrderedDict String ServiceSpec} {pythonExecutable conf : String}
    (generated : generateConf specs pythonExecutable = .ok conf) {name : String} {spec : ServiceSpec}
    (mem : specs.get? name = some spec) :
    ∃ text, programSection pythonExecutable spec = .ok text ∧
      ∃ before after, conf.toList = before ++ text.toList ++ after := by
  obtain ⟨programs, rendered, same⟩ := except_bind_ok_iff.mp generated
  obtain ⟨text, here, there⟩ := mem_of_mapM rendered (OrderedDict.mem_of_find mem)
  refine ⟨text, here, ?_⟩
  have inBlocks : text ∈ globalSections :: programs := List.mem_cons_of_mem globalSections there
  obtain ⟨before, after, block⟩ := exists_block "\n" inBlocks
  refine ⟨before, after ++ ['\n'], ?_⟩
  rw [← Except.ok.inj same, String.toList_append, block]
  simp only [List.append_assoc]
  rfl

end KoyuRuntime.Warden
