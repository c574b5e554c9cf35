/-
# Warden.Services — reading `services.yaml` into service specs

`parse_services` takes a loaded document and returns a spec for every service, or
raises a `ServicesError` that names the service and the field.  Defaults are filled in;
keys it does not know are skipped.

`str(value)` of an integer past `sys.get_int_max_str_digits()` raises a `ValueError`
that is no `ServicesError`; so does the message of an error that prints such a value.
-/
import KoyuRuntime.Host.Dynamic
import KoyuRuntime.Host.Yaml
import KoyuRuntime.Theory.Raising

namespace KoyuRuntime.Warden

open Host Theory

set_option autoImplicit false

structure ServiceSpec where
  name : String
  cmd : List String
  env : OrderedDict String String
  autostart : Bool
  autorestart : String
  startsecs : Int
  startretries : Int
  stopwaitsecs : Int
  exitcodes : List Int
  oneshot : Bool

/-- The `ServicesError`s, with the service and what is wrong; `raised` is anything else. -/
inductive ParseError where
  /-- "services.yaml must be a mapping of service-name -> spec" -/
  | notMapping
  /-- "spec must be a mapping" -/
  | specNotMapping (service : String)
  /-- "missing required field 'cmd'" -/
  | missingCmd (service : String)
  /-- "'cmd' must be a non-empty list" -/
  | cmdNotList (service : String)
  /-- "'cmd' entries must be scalars" -/
  | cmdEntry (service : String) (item : Yaml)
  /-- "'env' must be a mapping" -/
  | envNotMapping (service : String)
  /-- "env key 'key' is reserved (injected by the supervisor)" -/
  | envReserved (service key : String)
  /-- "env value for 'key' must be a scalar" -/
  | envValue (service key : String) (value : Yaml)
  /-- "'field' must be a boolean" -/
  | notBoolean (service field : String) (value : Yaml)
  /-- "'autorestart' must be true, false, or 'unexpected'" -/
  | autorestart (service : String) (value : Yaml)
  /-- "'field' must be an integer" -/
  | notInteger (service field : String) (value : Yaml)
  /-- "'field' must be >= 0" -/
  | negative (service field : String) (value : Int)
  /-- "'exitcodes' must be an int or list of ints", also for a boolean -/
  | exitcodes (service : String) (value : Yaml)
  /-- "'exitcodes' entries must be ints" -/
  | exitcode (service : String) (code : Yaml)
  | raised (e : Exn)

section Print

/-- Has the integer few enough digits for `str`? -/
def printableScalar : Scalar → Bool
  | .int i => decide (i.natAbs < 10 ^ maxStrDigits)
  | _ => true

mutual

/-- Does `repr(value)` print every integer of the value? -/
def printable : Yaml → Bool
  | .scalar s => printableScalar s
  | .seq items => allPrintable items
  | .map entries => entriesPrintable entries

def allPrintable : List Yaml → Bool
  | [] => true
  | x :: rest => printable x && allPrintable rest

def entriesPrintable : List (Scalar × Yaml) → Bool
  | [] => true
  | (key, x) :: rest => printableScalar key && printable x && entriesPrintable rest

end

/-- What an error whose message prints the value comes to. -/
def refusal (value : Yaml) (e : ParseError) : ParseError :=
  if printable value then e else .raised .valueError

end Print

/-- `_AUTORESTART_VALUES`. -/
def autorestartValues : List String := ["true", "false", "unexpected"]

/-- `_RESERVED_ENV`. -/
def reservedEnv : List String := ["SERVICE_NAME", "KOYU_RUNTIME_DIR"]

section Parse

-- `repr` of a float
variable (floatText : Double → String)

/-- The text of a scalar. -/
def scalarText : Scalar → String
  | .null => "None"
  | .bool b => if b then "True" else "False"
  | .int i => toString i
  | .float x => floatText x
  | .str s => s
  | .stamp _ text => text

/-- `str(value)` of a scalar. -/
def str (value : Scalar) : Except ParseError String :=
  if printableScalar value then .ok (scalarText floatText value) else .error (.raised .valueError)

/-- One entry of `cmd`. -/
def parseArg (service : String) : Yaml → Except ParseError String
  | .scalar (.str s) => .ok s
  | .scalar (.int i) => str floatText (.int i)
  | .scalar (.float x) => str floatText (.float x)
  | item => .error (refusal item (.cmdEntry service item))

def parseArgs (service : String) : List Yaml → Except ParseError (List String)
  | [] => .ok []
  | item :: rest => do
      let arg ← parseArg floatText service item
      let more ← parseArgs service rest
      pure (arg :: more)

/-- `_parse_cmd`. -/
def parseCmd (service : String) : Yaml → Except ParseError (List String)
  | .null => .error (.missingCmd service)
  | .seq (item :: rest) => parseArgs floatText service (item :: rest)
  | value => .error (refusal value (.cmdNotList service))

/-- One value of `env`. -/
def parseEnvValue (service key : String) : Yaml → Except ParseError String
  | .scalar (.bool b) => .ok (if b then "true" else "false")
  | .scalar (.str s) => .ok s
  | .scalar (.int i) => str floatText (.int i)
  | .scalar (.float x) => str floatText (.float x)
  | value => .error (refusal value (.envValue service key value))

def parseEnvEntries (service : String) : YamlMap → Except ParseError (List (String × String))
  | [] => .ok []
  | (key, value) :: rest => do
      let key ← str floatText key
      if key ∈ reservedEnv then throw (.envReserved service key)
      let value ← parseEnvValue floatText service key value
      let more ← parseEnvEntries service rest
      pure ((key, value) :: more)

/-- `_parse_env`. -/
def parseEnv (service : String) : Yaml → Except ParseError (OrderedDict String String)
  | .null => .ok ∅
  | .map entries => do
      let out ← parseEnvEntries floatText service entries
      pure (.ofList out)
  | _ => .error (.envNotMapping service)

/-- `_parse_bool`. -/
def parseBool (service field : String) : Yaml → Except ParseError Bool
  | .scalar (.bool b) => .ok b
  | value => .error (refusal value (.notBoolean service field value))

/-- `value.lower()`, as far as ASCII letters go. -/
def lower (s : String) : String := String.ofList (s.toList.map Char.toLower)

/-- `_parse_autorestart`: the accepted words are ASCII, whatever their case. -/
def parseAutorestart (service : String) : Yaml → Except ParseError String
  | .scalar (.bool b) => .ok (if b then "true" else "false")
  | .scalar (.str s) =>
      if lower s ∈ autorestartValues then .ok (lower s)
      else .error (.autorestart service (.str s))
  | value => .error (refusal value (.autorestart service value))

/-- `_parse_nonneg_int`. -/
def parseNonnegInt (service field : String) : Yaml → Except ParseError Int
  | .scalar (.int i) =>
      if i < 0 then .error (refusal (.scalar (.int i)) (.negative service field i)) else .ok i
  | value => .error (refusal value (.notInteger service field value))

def parseCodes (service : String) : List Yaml → Except ParseError (List Int)
  | [] => .ok []
  | .scalar (.int i) :: rest => do
      let more ← parseCodes service rest
      pure (i :: more)
  | code :: _ => .error (refusal code (.exitcode service code))

/-- `_parse_exitcodes`. -/
def parseExitcodes (service : String) : Yaml → Except ParseError (List Int)
  | .scalar (.int i) => .ok [i]
  | .seq (code :: rest) => parseCodes service (code :: rest)
  | value => .error (refusal value (.exitcodes service value))

/-- `stanza.get(field, default)`. -/
def field (stanza : YamlMap) (name : String) (default_ : Yaml) : Yaml :=
  (Yaml.lookup name stanza).getD default_

/-- `_parse_one`. -/
def parseOne (service : String) : Yaml → Except ParseError ServiceSpec
  | .map stanza => do
      let cmd ← parseCmd floatText service (field stanza "cmd" .null)
      let env ← parseEnv floatText service (field stanza "env" .null)
      let autostart ← parseBool service "autostart" (field stanza "autostart" (.scalar (.bool true)))
      let autorestart ← parseAutorestart service (field stanza "autorestart" (.str "unexpected"))
      let startsecs ← parseNonnegInt service "startsecs" (field stanza "startsecs" (.scalar (.int 1)))
      let startretries ←
        parseNonnegInt service "startretries" (field stanza "startretries" (.scalar (.int 3)))
      let stopwaitsecs ←
        parseNonnegInt service "stopwaitsecs" (field stanza "stopwaitsecs" (.scalar (.int 10)))
      let exitcodes ← parseExitcodes service (field stanza "exitcodes" (.seq [.scalar (.int 0)]))
      let oneshot ← parseBool service "oneshot" (field stanza "oneshot" (.scalar (.bool false)))
      pure ⟨service, cmd, env, autostart, autorestart, startsecs, startretries, stopwaitsecs,
        exitcodes, oneshot⟩
  | _ => .error (.specNotMapping service)

def parseEntries : YamlMap → Except ParseError (List (String × ServiceSpec))
  | [] => .ok []
  | (name, stanza) :: rest => do
      let name ← str floatText name
      let spec ← parseOne floatText name stanza
      let more ← parseEntries rest
      pure ((name, spec) :: more)

/-- `parse_services`: two names that print alike are one service, the later one. -/
def parseServices : Yaml → Except ParseError (OrderedDict String ServiceSpec)
  | .null => .ok ∅
  | .map entries => do
      let out ← parseEntries floatText entries
      pure (.ofList out)
  | _ => .error .notMapping

end Parse

/-! ## What a returned spec has -/

section Returned

variable {floatText : Double → String}

theorem parseOne_map {service : String} {stanza : Yaml} {spec : ServiceSpec}
    (parsed : parseOne floatText service stanza = .ok spec) : ∃ entries, stanza = .map entries := by
  cases stanza with
  | scalar s => cases parsed
  | seq items => cases parsed
  | map entries => exact ⟨entries, rfl⟩

/-- Every spec is parsed under its own name. -/
theorem parseEntries_ok {entries : YamlMap} {out : List (String × ServiceSpec)}
    (parsed : parseEntries floatText entries = .ok out) :
    (∀ e ∈ entries, ∃ stanza, e.2 = .map stanza) ∧
      ∀ e ∈ out, ∃ stanza, parseOne floatText e.1 stanza = .ok e.2 := by
  induction entries generalizing out with
  | nil =>
      cases parsed
      exact ⟨fun e mem => absurd mem List.not_mem_nil, fun e mem => absurd mem List.not_mem_nil⟩
  | cons d rest ih =>
      obtain ⟨name, stanza⟩ := d
      simp only [parseEntries, except_bind_ok_iff] at parsed
      obtain ⟨text, -, spec, one, more, others, same⟩ := parsed
      cases same
      obtain ⟨m, rfl⟩ := parseOne_map one
      obtain ⟨maps, specs⟩ := ih others
      refine ⟨?_, ?_⟩
      · intro e mem
        rcases List.mem_cons.mp mem with rfl | later
        · exact ⟨m, rfl⟩
        · exact maps e later
      · intro e mem
        rcases List.mem_cons.mp mem with rfl | later
        · exact ⟨.map m, one⟩
        · exact specs e later

/-- A document that is accepted is empty, or a dict of dicts. -/
theorem maps_of_parseServices {raw : Yaml} {specs : OrderedDict String ServiceSpec}
    (parsed : parseServices floatText raw = .ok specs) :
    raw.MapOrFalse ∧ ∀ e ∈ raw.entries, ∃ stanza, e.2 = .map stanza := by
  unfold parseServices at parsed
  split at parsed
  · exact ⟨Or.inl rfl, fun e mem => absurd mem List.not_mem_nil⟩
  · rename_i entries
    obtain ⟨out, read, -⟩ := except_bind_ok_iff.mp parsed
    exact ⟨Or.inr ⟨entries, rfl⟩, (parseEntries_ok read).1⟩
  · cases parsed

/-- The spec of a service comes from a stanza of its name. -/
theorem parsed_of_parseServices {raw : Yaml} {specs : OrderedDict String ServiceSpec}
    (parsed : parseServices floatText raw = .ok specs) {name : String} {spec : ServiceSpec}
    (mem : specs.get? name = some spec) : ∃ stanza, parseOne floatText name stanza = .ok spec := by
  unfold parseServices at parsed
  split at parsed
  · cases parsed
    simp at mem
  · obtain ⟨out, read, same⟩ := except_bind_ok_iff.mp parsed
    cases same
    exact (parseEntries_ok read).2 _ (OrderedDict.mem_of_get?_ofList mem)
  · cases parsed

theorem parseEnvEntries_ok {service : String} {entries : YamlMap} {out : List (String × String)}
    (parsed : parseEnvEntries floatText service entries = .ok out) :
    ∀ e ∈ out, e.1 ∉ reservedEnv := by
  induction entries generalizing out with
  | nil =>
      cases parsed
      exact fun e mem => absurd mem List.not_mem_nil
  | cons d rest ih =>
      obtain ⟨key, value⟩ := d
      obtain ⟨text, -, guarded⟩ := except_bind_ok_iff.mp parsed
      split at guarded
      · cases guarded
      · rename_i free
        obtain ⟨shown, -, later⟩ := except_bind_ok_iff.mp guarded
        obtain ⟨more, others, same⟩ := except_bind_ok_iff.mp later
        cases same
        intro e mem
        rcases List.mem_cons.mp mem with rfl | inMore
        · exact free
        · exact ih others e inMore

/-- No variable of a parsed environment is one the supervisor injects. -/
theorem parseEnv_free {service : String} {value : Yaml} {env : OrderedDict String String}
    (parsed : parseEnv floatText service value = .ok env) : ∀ key ∈ reservedEnv, key ∉ env.keys := by
  intro key reserved mem
  unfold parseEnv at parsed
  split at parsed
  · cases parsed
    cases mem
  · obtain ⟨out, read, same⟩ := except_bind_ok_iff.mp parsed
    cases same
    obtain ⟨text, held⟩ := Option.isSome_iff_exists.mp (OrderedDict.mem_keys_iff.mp mem)
    exact parseEnvEntries_ok read _ (OrderedDict.mem_of_get?_ofList held) reserved
  · cases parsed

theorem parseAutorestart_mem {service : String} {value : Yaml} {word : String}
    (parsed : parseAutorestart service value = .ok word) : word ∈ autorestartValues := by
  unfold parseAutorestart at parsed
  split at parsed
  · cases parsed
    split <;> decide
  · split at parsed
    · cases parsed
      assumption
    · cases parsed
  · cases parsed

/-- A returned spec has its own name, no reserved variable, and a known restart policy. -/
theorem spec_of_parseServices {raw : Yaml} {specs : OrderedDict String ServiceSpec}
    (parsed : parseServices floatText raw = .ok specs) {name : String} {spec : ServiceSpec}
    (mem : specs.get? name = some spec) :
    spec.name = name ∧ (∀ key ∈ reservedEnv, key ∉ spec.env.keys) ∧
      spec.autorestart ∈ autorestartValues := by
  obtain ⟨stanza, one⟩ := parsed_of_parseServices parsed mem
  cases stanza with
  | scalar s => cases one
  | seq items => cases one
  | map entries =>
      simp only [parseOne, except_bind_ok_iff] at one
      obtain ⟨_, _, _, env, _, _, _, policy, _, _, _, _, _, _, _, _, _, _, same⟩ := one
      cases same
      exact ⟨rfl, parseEnv_free env, parseAutorestart_mem policy⟩

end Returned

end KoyuRuntime.Warden
