/-
# Warden.EnvironmentLine — the environment of a program, before and after the conf

supervisord expands the value of `environment=` and reads `key="value"` pairs from it.
`generate_conf` doubles the percent signs of a value and escapes nothing else, neither the
quote that ends the value nor the end of the line; a key is written as it is.

* `reads_listed_iff`: what comes back for written pairs without quotes.
* `Survives`: the environments that come back as they were meant.
* `no_percent_of_reads`: a key with a percent sign is lost, whatever the others are.
* `roundTrips_of_parseServices`: no other environment comes back.
-/
import KoyuRuntime.Host.Pairs
import KoyuRuntime.Host.Paths
import KoyuRuntime.Warden.CommandLine
import Mathlib.Data.List.Lex
import Mathlib.Data.Set.Finite.Lemmas
import Mathlib.Data.Set.Finite.List

namespace KoyuRuntime.Warden

open Host Theory Host.Pairs

set_option autoImplicit false

/-- What `%(here)s` stands for: the directory of the conf, an absolute path. -/
def hereOf (dir : Path) : List Char := '/' :: ("/".intercalate dir).toList

/-- What a section has before the value of its `environment=` line. -/
def environmentOpening (pythonExecutable : String) (spec : ServiceSpec) : List Char :=
  opening spec ++ ((command spec.cmd pythonExecutable).toList ++
    "\ndirectory=%(here)s\nenvironment=".toList)

/-- A pair that was read, as a variable. -/
def named (pair : List Char × List Char) : String × String :=
  (String.ofList pair.1, String.ofList pair.2)

/-- The environment supervisord reads for the section of the spec, which starts the text. -/
def decodedEnvironment (here : List Char) (pythonExecutable : String) (spec : ServiceSpec)
    (text : List Char) : Except Exn (OrderedDict String String) := do
  let value ← expand here (firstLine (text.drop (environmentOpening pythonExecutable spec).length))
  let pairs ← Pairs.read value
  pure (.ofList (pairs.map named))

/-- The injected variables. -/
def injected (dir : Path) (spec : ServiceSpec) : List (String × String) :=
  [("PYTHONUNBUFFERED", "1"), ("SERVICE_NAME", spec.name),
    ("KOYU_RUNTIME_DIR", String.ofList (hereOf dir))]

/-- The environment meant: the injected variables, overlaid by those of the spec. -/
def intended (dir : Path) (spec : ServiceSpec) : OrderedDict String String :=
  (OrderedDict.ofList (injected dir spec)).setAll spec.env.entries

/-! ## Where the environment stands -/

/-- The pairs as they are written. -/
def written (spec : ServiceSpec) : List (List Char × List Char) :=
  [("PYTHONUNBUFFERED".toList, double "1".toList), ("SERVICE_NAME".toList, double spec.name.toList),
      ("KOYU_RUNTIME_DIR".toList, hereToken)] ++
    spec.env.entries.map fun e => (e.1.toList, double e.2.toList)

theorem cons_intercalate_comma {texts : List String} (some_ : texts ≠ []) :
    ',' :: (",".intercalate texts).toList = texts.flatMap fun text => ',' :: text.toList := by
  induction texts with
  | nil => exact absurd rfl some_
  | cons first rest ih =>
      cases rest with
      | nil => simp
      | cons next more =>
          rw [String.intercalate_cons_cons, String.toList_append, String.toList_append,
            List.flatMap_cons, ← ih (List.cons_ne_nil _ _)]
          simp

theorem toList_environment (spec : ServiceSpec) :
    ',' :: (environment spec).toList = listed (written spec) := by
  rw [environment, cons_intercalate_comma (by simp)]
  simp [listed, written, shown, quoted, List.flatMap_map, hereToken, doubleQuote]

theorem programSection_environment {pythonExecutable : String} {spec : ServiceSpec} {text : String}
    (rendered : programSection pythonExecutable spec = .ok text) :
    ∃ tail, text.toList =
      environmentOpening pythonExecutable spec ++ ((environment spec).toList ++ '\n' :: tail) := by
  simp only [programSection, except_bind_ok_iff] at rendered
  obtain ⟨exitcodes, -, startsecs, -, startretries, -, stopwaitsecs, -, same⟩ := rendered
  rw [← Except.ok.inj same]
  simp only [String.intercalate_cons_cons, String.toList_append, environmentOpening, opening,
    List.append_assoc]
  exact ⟨_, rfl⟩

/-! ## Reading written pairs -/

section Reads

variable {here : List Char}

/-- What is read, after a pair, from the line at the head of a text. -/
def Reads (here text : List Char) (pairs : List (List Char × List Char)) : Prop :=
  ∃ value, Expands here (firstLine text) value ∧ scan .closed value = .ok pairs

theorem unquoted_of_expands {text out : List Char} (expands : Expands here text out)
    (directory : Unquoted here) (unquoted : Unquoted text) : Unquoted out := by
  intro mem
  rcases expands.mem mem with inText | inHere
  · exact unquoted inText
  · exact directory inHere

theorem unquoted_firstLine {text : List Char} (unquoted : Unquoted text) :
    Unquoted (firstLine text) := fun mem => unquoted (mem_of_mem_firstLine mem)

/-- A key that goes over the end of the line has no value. -/
theorem not_reads_of_newline_key (directory : Unquoted here) {key : List Char}
    (unquoted : Unquoted key) (newline : '\n' ∈ key) (rest : List Char)
    (pairs : List (List Char × List Char)) : ¬ Reads here (',' :: (key ++ rest)) pairs := by
  rintro ⟨value, expands, done⟩
  rw [firstLine_cons_of_ne (by decide), firstLine_append_of_mem newline] at expands
  obtain ⟨later, rfl, inner⟩ := (expands_cons_iff (by decide)).mp expands
  have rest := unquoted_of_expands inner directory (unquoted_firstLine unquoted)
  rw [scan, if_pos rfl, error_of_unquoted rest State.noConfusion] at done
  cases done

/-- The key and the quote after it, on one line. -/
theorem reads_key_iff (directory : Unquoted here) {key : List Char} (unquoted : Unquoted key)
    (one : '\n' ∉ key) (rest : List Char) (pairs : List (List Char × List Char)) :
    Reads here (',' :: (key ++ '=' :: doubleQuote :: rest)) pairs ↔
      ∃ name value, Expands here key name ∧ PlainKey name ∧ Expands here (firstLine rest) value ∧
        scan (.value name []) value = .ok pairs := by
  unfold Reads
  rw [firstLine_cons_of_ne (by decide), firstLine_append_of_not_mem one,
    firstLine_cons_of_ne (by decide), firstLine_cons_of_ne (by decide)]
  constructor
  · rintro ⟨whole, expands, done⟩
    obtain ⟨later, rfl, inner⟩ := (expands_cons_iff (by decide)).mp expands
    obtain ⟨name, _, key, after, rfl⟩ := inner.split (by decide)
    obtain ⟨value, rfl, opened⟩ := (expands_cons_iff (by decide)).mp after
    rw [scan, if_pos rfl, scan_key_ok_iff (unquoted_of_expands key directory unquoted)] at done
    exact ⟨name, value, key, done.1, opened, done.2⟩
  · rintro ⟨name, value, key, plain, expands, done⟩
    refine ⟨',' :: (name ++ '=' :: doubleQuote :: value), ?_, ?_⟩
    · apply Expands.plain (by decide)
      apply key.append
      exact .plain (by decide) (.plain (by decide) expands)
    · rw [scan, if_pos rfl, scan_key_ok_iff plain.unquoted]
      exact ⟨plain, done⟩

/-- A value that goes over the end of the line is not closed. -/
theorem error_of_newline_value (directory : Unquoted here) {text : List Char}
    (unquoted : Unquoted text) (newline : '\n' ∈ text) (rest name : List Char) {value : List Char}
    (expands : Expands here (firstLine (text ++ rest)) value) :
    scan (.value name []) value = .error .valueError := by
  rw [firstLine_append_of_mem newline] at expands
  apply error_of_unquoted _ State.noConfusion
  exact unquoted_of_expands expands directory (unquoted_firstLine unquoted)

/-- One pair and what follows it. -/
theorem reads_pair_iff (directory : Unquoted here) {pair : List Char × List Char}
    (unquoted : Unquoted pair.1 ∧ Unquoted pair.2) (rest : List Char)
    (pairs : List (List Char × List Char)) :
    Reads here (',' :: (shown pair ++ rest)) pairs ↔
      ('\n' ∉ pair.1 ∧ '\n' ∉ pair.2) ∧ ∃ name value more, Expands here pair.1 name ∧
        Expands here pair.2 value ∧ PlainKey name ∧ Reads here rest more ∧
        pairs = (name, value) :: more := by
  have opened : shown pair ++ rest =
      pair.1 ++ '=' :: doubleQuote :: (pair.2 ++ doubleQuote :: rest) := by
    simp [shown]
  rw [opened]
  by_cases inKey : '\n' ∈ pair.1
  · constructor
    · intro reads
      exact absurd reads (not_reads_of_newline_key directory unquoted.1 inKey _ pairs)
    · rintro ⟨⟨one, -⟩, -⟩
      exact absurd inKey one
  rw [reads_key_iff directory unquoted.1 inKey]
  constructor
  · rintro ⟨name, whole, key, plain, expands, done⟩
    by_cases inValue : '\n' ∈ pair.2
    · rw [error_of_newline_value directory unquoted.2 inValue _ name expands] at done
      cases done
    rw [firstLine_append_of_not_mem inValue, firstLine_cons_of_ne (by decide)] at expands
    obtain ⟨value, later, one, after, rfl⟩ := expands.split (by decide)
    rw [scan_value (unquoted_of_expands one directory unquoted.2), except_bind_ok_iff] at done
    obtain ⟨more, done, same⟩ := done
    cases same
    exact ⟨⟨inKey, inValue⟩, name, value, more, key, one, plain, ⟨later, after, done⟩, rfl⟩
  · rintro ⟨⟨-, inValue⟩, name, value, more, key, one, plain, ⟨later, expands, done⟩, rfl⟩
    refine ⟨name, value ++ doubleQuote :: later, key, plain, ?_, ?_⟩
    · rw [firstLine_append_of_not_mem inValue, firstLine_cons_of_ne (by decide)]
      exact one.append (.plain (by decide) expands)
    · rw [scan_value (unquoted_of_expands one directory unquoted.2), done]
      rfl

/-- **Written pairs come back**, expanded, exactly if none goes over the end of the line
and every key is still one. -/
theorem reads_listed_iff (directory : Unquoted here) {raw : List (List Char × List Char)}
    (unquoted : ∀ pair ∈ raw, Unquoted pair.1 ∧ Unquoted pair.2) (tail : List Char)
    (pairs : List (List Char × List Char)) :
    Reads here (listed raw ++ '\n' :: tail) pairs ↔
      (∀ pair ∈ raw, '\n' ∉ pair.1 ∧ '\n' ∉ pair.2) ∧
        List.Forall₂ (fun pair out => Expands here pair.1 out.1 ∧ Expands here pair.2 out.2 ∧
          PlainKey out.1) raw pairs := by
  induction raw generalizing pairs with
  | nil =>
      have empty : firstLine (listed [] ++ '\n' :: tail) = [] := rfl
      rw [List.forall₂_nil_left_iff]
      constructor
      · rintro ⟨value, expands, done⟩
        rw [empty] at expands
        cases expands
        cases done
        exact ⟨fun pair mem => absurd mem List.not_mem_nil, rfl⟩
      · rintro ⟨-, rfl⟩
        exact ⟨[], empty ▸ .nil, rfl⟩
  | cons pair raw ih =>
      have first := unquoted pair List.mem_cons_self
      have later := ih fun q mem => unquoted q (List.mem_cons_of_mem pair mem)
      have opened : listed (pair :: raw) ++ '\n' :: tail =
          ',' :: (shown pair ++ (listed raw ++ '\n' :: tail)) := by
        simp [listed]
      rw [opened, reads_pair_iff directory first, List.forall_mem_cons, List.forall₂_cons_left_iff]
      constructor
      · rintro ⟨one, name, value, more, key, val, plain, reads, rfl⟩
        obtain ⟨lines, rest⟩ := (later more).mp reads
        exact ⟨⟨one, lines⟩, (name, value), more, ⟨key, val, plain⟩, rest, rfl⟩
      · rintro ⟨⟨one, lines⟩, ⟨name, value⟩, more, ⟨key, val, plain⟩, rest, rfl⟩
        exact ⟨one, name, value, more, key, val, plain, (later more).mpr ⟨lines, rest⟩, rfl⟩

theorem plain_of_reads {text : List Char} {pairs : List (List Char × List Char)}
    (reads : Reads here text pairs) : ∀ pair ∈ pairs, PlainKey pair.1 ∧ Unquoted pair.2 := by
  obtain ⟨value, -, done⟩ := reads
  exact plain_of_scan .closed done trivial

end Reads

theorem decodedEnvironment_ok_iff (here : List Char) {pythonExecutable : String}
    {spec : ServiceSpec} {text : String}
    (rendered : programSection pythonExecutable spec = .ok text) (after : List Char) :
    ∃ tail, ∀ decoded,
      decodedEnvironment here pythonExecutable spec (text.toList ++ after) = .ok decoded ↔
        ∃ pairs, Reads here (listed (written spec) ++ '\n' :: tail) pairs ∧
          decoded = .ofList (pairs.map named) := by
  obtain ⟨tail, same⟩ := programSection_environment rendered
  refine ⟨tail ++ after, ?_⟩
  intro decoded
  have value : (text.toList ++ after).drop (environmentOpening pythonExecutable spec).length =
      (environment spec).toList ++ '\n' :: (tail ++ after) := by
    rw [same, List.append_assoc, List.drop_left, List.append_assoc, List.cons_append]
  simp only [decodedEnvironment, value, except_bind_ok_iff]
  unfold Reads
  rw [← toList_environment, List.cons_append, firstLine_cons_of_ne (by decide)]
  constructor
  · rintro ⟨value, expanded, pairs, done, same⟩
    cases same
    exact ⟨pairs, ⟨',' :: value, .plain (by decide) (expands_of_expand expanded), done⟩, rfl⟩
  · rintro ⟨pairs, ⟨whole, expands, done⟩, rfl⟩
    obtain ⟨value, rfl, inner⟩ := (expands_cons_iff (by decide)).mp expands
    exact ⟨value, inner.expand, pairs, done, rfl⟩

/-! ## The environments that survive -/

/-- No quote in the directory, no quote and no newline in the name and the values; keys
are plain and have no percent sign. -/
structure Survives (dir : Path) (spec : ServiceSpec) : Prop where
  directory : Unquoted (hereOf dir)
  name : Unquoted spec.name.toList ∧ '\n' ∉ spec.name.toList
  keys : ∀ e ∈ spec.env.entries,
    PlainKey e.1.toList ∧ '\n' ∉ e.1.toList ∧ '%' ∉ e.1.toList
  values : ∀ e ∈ spec.env.entries, Unquoted e.2.toList ∧ '\n' ∉ e.2.toList

/-- What one of them is read as. -/
def meant (dir : Path) (spec : ServiceSpec) : List (List Char × List Char) :=
  [("PYTHONUNBUFFERED".toList, "1".toList), ("SERVICE_NAME".toList, spec.name.toList),
      ("KOYU_RUNTIME_DIR".toList, hereOf dir)] ++
    spec.env.entries.map fun e => (e.1.toList, e.2.toList)

theorem ofList_meant (dir : Path) (spec : ServiceSpec) :
    OrderedDict.ofList ((meant dir spec).map named) = intended dir spec := by
  have same : (meant dir spec).map named = injected dir spec ++ spec.env.entries := by
    simp only [meant, named, injected, List.map_append, List.map_cons, List.map_nil, List.map_map,
      Function.comp_def, String.ofList_toList, List.map_id']
  rw [same, OrderedDict.ofList, OrderedDict.setAll, List.foldl_append]
  rfl

theorem mem_double {c : Char} {text : List Char} : c ∈ double text ↔ c ∈ text := by
  induction text with
  | nil => rfl
  | cons d rest ih =>
      by_cases percent : d = '%'
      · rw [percent, double_percent]
        simp [ih]
      · rw [double_cons_of_ne percent, List.mem_cons, List.mem_cons, ih]

theorem unquoted_double {text : List Char} (unquoted : Unquoted text) : Unquoted (double text) :=
  fun mem => unquoted (mem_double.mp mem)

/-- The names of the injected variables are plain. -/
theorem injectedName_plain :
    ∀ name ∈ ["PYTHONUNBUFFERED", "SERVICE_NAME", "KOYU_RUNTIME_DIR"],
      PlainKey name.toList ∧ '\n' ∉ name.toList ∧ '%' ∉ name.toList := by
  decide +kernel

theorem forall_mem_written {spec : ServiceSpec} (Holds : List Char × List Char → Prop)
    (unbuffered : Holds ("PYTHONUNBUFFERED".toList, double "1".toList))
    (name : Holds ("SERVICE_NAME".toList, double spec.name.toList))
    (directory : Holds ("KOYU_RUNTIME_DIR".toList, hereToken))
    (own : ∀ e ∈ spec.env.entries, Holds (e.1.toList, double e.2.toList)) :
    ∀ pair ∈ written spec, Holds pair := by
  intro pair mem
  simp only [written, List.cons_append, List.nil_append, List.mem_cons, List.mem_map] at mem
  rcases mem with rfl | rfl | rfl | ⟨e, inEnv, rfl⟩
  · exact unbuffered
  · exact name
  · exact directory
  · exact own e inEnv

/-- Written pairs whose names have no percent sign expand to those meant. -/
theorem expands_written {dir : Path} {spec : ServiceSpec}
    (keys : ∀ e ∈ spec.env.entries, PlainKey e.1.toList ∧ '%' ∉ e.1.toList) :
    List.Forall₂ (fun pair out => Expands (hereOf dir) pair.1 out.1 ∧
      Expands (hereOf dir) pair.2 out.2 ∧ PlainKey out.1) (written spec) (meant dir spec) := by
  have here : Expands (hereOf dir) hereToken (hereOf dir) := by
    have token : Expands (hereOf dir) (hereToken ++ []) (hereOf dir ++ []) := .here .nil
    rwa [List.append_nil, List.append_nil] at token
  have fixed : ∀ name ∈ ["PYTHONUNBUFFERED", "SERVICE_NAME", "KOYU_RUNTIME_DIR"],
      Expands (hereOf dir) name.toList name.toList ∧ PlainKey name.toList := by
    intro name mem
    obtain ⟨plain, -, percent⟩ := injectedName_plain name mem
    exact ⟨expands_self percent, plain⟩
  have unbuffered := fixed _ List.mem_cons_self
  have name := fixed "SERVICE_NAME" (by decide)
  have directory := fixed "KOYU_RUNTIME_DIR" (by decide)
  have own : List.Forall₂ (fun pair out => Expands (hereOf dir) pair.1 out.1 ∧
      Expands (hereOf dir) pair.2 out.2 ∧ PlainKey out.1)
      (spec.env.entries.map fun e => (e.1.toList, double e.2.toList))
      (spec.env.entries.map fun e => (e.1.toList, e.2.toList)) := by
    rw [List.forall₂_map_left_iff, List.forall₂_map_right_iff, List.forall₂_same]
    intro e mem
    exact ⟨expands_self (keys e mem).2, expands_double _ _, (keys e mem).1⟩
  exact .cons ⟨unbuffered.1, expands_double _ _, unbuffered.2⟩
    (.cons ⟨name.1, expands_double _ _, name.2⟩ (.cons ⟨directory.1, here, directory.2⟩ own))

theorem reads_of_survives {dir : Path} {spec : ServiceSpec} (survives : Survives dir spec)
    (tail : List Char) :
    Reads (hereOf dir) (listed (written spec) ++ '\n' :: tail) (meant dir spec) := by
  have unquoted : ∀ pair ∈ written spec, Unquoted pair.1 ∧ Unquoted pair.2 := by
    apply forall_mem_written
    · decide +kernel
    · exact ⟨(injectedName_plain "SERVICE_NAME" (by decide)).1.unquoted,
        unquoted_double survives.name.1⟩
    · decide +kernel
    · intro e mem
      exact ⟨(survives.keys e mem).1.unquoted, unquoted_double (survives.values e mem).1⟩
  have lines : ∀ pair ∈ written spec, '\n' ∉ pair.1 ∧ '\n' ∉ pair.2 := by
    apply forall_mem_written
    · decide +kernel
    · exact ⟨(injectedName_plain "SERVICE_NAME" (by decide)).2.1,
        fun mem => survives.name.2 (mem_double.mp mem)⟩
    · decide +kernel
    · intro e mem
      exact ⟨(survives.keys e mem).2.1, fun mem' => (survives.values e mem).2 (mem_double.mp mem')⟩
  rw [reads_listed_iff survives.directory unquoted]
  refine ⟨lines, expands_written ?_⟩
  intro e mem
  exact ⟨(survives.keys e mem).1, (survives.keys e mem).2.2⟩

/-! ## No other environment survives -/

theorem exists_left_of_forall₂ {α β : Type} {R : α → β → Prop} {as : List α} {bs : List β}
    (all : List.Forall₂ R as bs) {b : β} (mem : b ∈ bs) : ∃ a ∈ as, R a b := by
  induction all with
  | nil => cases mem
  | @cons a c as bs one _ ih =>
      rcases List.mem_cons.mp mem with rfl | later
      · exact ⟨a, List.mem_cons_self, one⟩
      · obtain ⟨a', inAs, related⟩ := ih later
        exact ⟨a', List.mem_cons_of_mem a inAs, related⟩

section Unchanged

variable {dir : Path} {spec : ServiceSpec} {pairs : List (List Char × List Char)}

theorem get?_intended_of_mem {e : String × String} (mem : e ∈ spec.env.entries) :
    (intended dir spec).get? e.1 = some e.2 :=
  OrderedDict.get?_setAll_of_mem _ _ spec.env.nodup mem

/-- The reserved variables are not overlaid. -/
theorem get?_intended_reserved (dir : Path) (free : ∀ key ∈ reservedEnv, key ∉ spec.env.keys) :
    (intended dir spec).get? "SERVICE_NAME" = some spec.name ∧
      (intended dir spec).get? "KOYU_RUNTIME_DIR" = some (String.ofList (hereOf dir)) := by
  refine ⟨?_, ?_⟩
  · rw [intended, OrderedDict.get?_setAll_of_not_mem _ _ (free "SERVICE_NAME" (by decide))]
    rfl
  · rw [intended, OrderedDict.get?_setAll_of_not_mem _ _ (free "KOYU_RUNTIME_DIR" (by decide))]
    rfl

/-- What is meant and read back is one of the pairs. -/
theorem mem_of_get?_intended
    (same : ∀ key, (OrderedDict.ofList (pairs.map named)).get? key = (intended dir spec).get? key)
    {key value : String} (held : (intended dir spec).get? key = some value) :
    (key.toList, value.toList) ∈ pairs := by
  rw [← same] at held
  obtain ⟨pair, mem, same⟩ := List.mem_map.mp (OrderedDict.mem_of_get?_ofList held)
  cases same
  rwa [String.toList_ofList, String.toList_ofList]

/-- Names with percent signs cannot all come back: the expansions of the names lower
those that they change, so the highest one is missing. -/
theorem no_percent_of_reads
    (expands : List.Forall₂ (fun pair out => Expands (hereOf dir) pair.1 out.1 ∧
      Expands (hereOf dir) pair.2 out.2 ∧ PlainKey out.1) (written spec) pairs)
    (covered : ∀ e ∈ spec.env.entries, (e.1.toList, e.2.toList) ∈ pairs) :
    ∀ e ∈ spec.env.entries, '%' ∉ e.1.toList := by
  by_contra some_
  push Not at some_
  have finite : {e | e ∈ spec.env.entries ∧ '%' ∈ e.1.toList}.Finite :=
    (List.finite_toSet spec.env.entries).subset fun e mem => mem.1
  obtain ⟨e, ⟨mem, percent⟩, highest⟩ :=
    Set.exists_max_image _ (fun e : String × String => mask e.1.toList) finite some_
  obtain ⟨raw, inWritten, key, -, -⟩ := exists_left_of_forall₂ expands (covered e mem)
  -- the name it came from had a percent sign itself
  have changed : '%' ∈ raw.1 := by
    by_contra plain
    exact plain ((expands_self plain).unique key ▸ percent)
  have lower : mask e.1.toList < mask raw.1 := mask_lt_of_percent key changed
  revert changed lower
  apply forall_mem_written
    (fun pair => '%' ∈ pair.1 → mask e.1.toList < mask pair.1 → False) _ _ _ _ raw inWritten
  · exact fun changed => absurd changed (injectedName_plain "PYTHONUNBUFFERED" (by decide)).2.2
  · exact fun changed => absurd changed (injectedName_plain "SERVICE_NAME" (by decide)).2.2
  · exact fun changed => absurd changed (injectedName_plain "KOYU_RUNTIME_DIR" (by decide)).2.2
  · intro other inEnv changed lower
    exact absurd lower (not_lt_of_ge (highest other ⟨inEnv, changed⟩))

theorem survives_of_reads (free : ∀ key ∈ reservedEnv, key ∉ spec.env.keys) {tail : List Char}
    (reads : Reads (hereOf dir) (listed (written spec) ++ '\n' :: tail) pairs)
    (same : ∀ key, (OrderedDict.ofList (pairs.map named)).get? key = (intended dir spec).get? key) :
    Survives dir spec := by
  have plain := plain_of_reads reads
  obtain ⟨name, directory⟩ := get?_intended_reserved dir free
  have nameUnquoted : Unquoted spec.name.toList := (plain _ (mem_of_get?_intended same name)).2
  have dirUnquoted : Unquoted (String.ofList (hereOf dir)).toList :=
    (plain _ (mem_of_get?_intended same directory)).2
  rw [String.toList_ofList] at dirUnquoted
  have covered : ∀ e ∈ spec.env.entries, (e.1.toList, e.2.toList) ∈ pairs :=
    fun e mem => mem_of_get?_intended same (get?_intended_of_mem mem)
  have unquoted : ∀ pair ∈ written spec, Unquoted pair.1 ∧ Unquoted pair.2 := by
    apply forall_mem_written
    · decide +kernel
    · exact ⟨(injectedName_plain "SERVICE_NAME" (by decide)).1.unquoted,
        unquoted_double nameUnquoted⟩
    · decide +kernel
    · intro e mem
      obtain ⟨key, value⟩ := plain _ (covered e mem)
      exact ⟨key.unquoted, unquoted_double value⟩
  obtain ⟨lines, expands⟩ := (reads_listed_iff dirUnquoted unquoted tail pairs).mp reads
  have percent := no_percent_of_reads expands covered
  have own : ∀ e ∈ spec.env.entries, (e.1.toList, double e.2.toList) ∈ written spec :=
    fun e mem => List.mem_append_right _ (List.mem_map_of_mem mem)
  refine ⟨dirUnquoted, ⟨nameUnquoted, ?_⟩, ?_, ?_⟩
  · intro newline
    have inWritten : ("SERVICE_NAME".toList, double spec.name.toList) ∈ written spec :=
      List.mem_cons_of_mem _ List.mem_cons_self
    exact (lines _ inWritten).2 (mem_double.mpr newline)
  · intro e mem
    exact ⟨(plain _ (covered e mem)).1, (lines _ (own e mem)).1, percent e mem⟩
  · intro e mem
    refine ⟨(plain _ (covered e mem)).2, ?_⟩
    intro newline
    exact (lines _ (own e mem)).2 (mem_double.mpr newline)

end Unchanged

/-- A conf is generated, and supervisord reads this environment for the section of the spec. -/
def Gets (dir : Path) (specs : OrderedDict String ServiceSpec) (pythonExecutable : String)
    (spec : ServiceSpec) (decoded : OrderedDict String String) : Prop :=
  ∃ conf before text after, generateConf specs pythonExecutable = .ok conf ∧
    programSection pythonExecutable spec = .ok text ∧ conf.toList = before ++ text.toList ++ after ∧
    decodedEnvironment (hereOf dir) pythonExecutable spec (text.toList ++ after) = .ok decoded

/-- The program gets the environment meant, key for key, with its own name and the
runtime dir. -/
def RoundTrips (dir : Path) (specs : OrderedDict String ServiceSpec) (pythonExecutable : String)
    (spec : ServiceSpec) : Prop :=
  ∃ decoded, Gets dir specs pythonExecutable spec decoded ∧
    (∀ key, decoded.get? key = (intended dir spec).get? key) ∧
    decoded.get? "SERVICE_NAME" = some spec.name ∧
    decoded.get? "KOYU_RUNTIME_DIR" = some (String.ofList (hereOf dir))

theorem roundTrips_iff {specs : OrderedDict String ServiceSpec} (dir : Path)
    (pythonExecutable : String) {name : String} {spec : ServiceSpec}
    (held : specs.get? name = some spec) (free : ∀ key ∈ reservedEnv, key ∉ spec.env.keys) :
    RoundTrips dir specs pythonExecutable spec ↔
      (∀ e ∈ specs.entries, Renders e.2) ∧ Survives dir spec := by
  constructor
  · rintro ⟨decoded, ⟨conf, before, text, after, generated, rendered, -, read⟩, same, -, -⟩
    obtain ⟨tail, decodes⟩ := decodedEnvironment_ok_iff (hereOf dir) rendered after
    obtain ⟨pairs, reads, rfl⟩ := (decodes decoded).mp read
    exact ⟨renders_of_conf generated, survives_of_reads free reads same⟩
  · rintro ⟨renders, survives⟩
    obtain ⟨conf, generated⟩ := exists_conf renders pythonExecutable
    obtain ⟨text, rendered, before, after, stands⟩ := exists_programSection generated held
    obtain ⟨tail, decodes⟩ := decodedEnvironment_ok_iff (hereOf dir) rendered after
    have read := (decodes _).mpr ⟨meant dir spec, reads_of_survives survives tail, rfl⟩
    refine ⟨_, ⟨conf, before, text, after, generated, rendered, stands, read⟩, ?_⟩
    rw [ofList_meant]
    exact ⟨fun key => rfl, get?_intended_reserved dir free⟩

/-- **The environment of a parsed service comes back** exactly if there is no quote in the
directory, the name and the values, none of them but the directory has a newline, and no
key has an equals sign, a comma, a quote, a newline or a percent sign. -/
theorem roundTrips_of_parseServices (floatText : Double → String) (raw : Yaml)
    (specs : OrderedDict String ServiceSpec) (parsed : parseServices floatText raw = .ok specs)
    (dir : Path) (pythonExecutable name : String) (spec : ServiceSpec)
    (held : specs.get? name = some spec) :
    RoundTrips dir specs pythonExecutable spec ↔
      (∀ e ∈ specs.entries, Renders e.2) ∧ Survives dir spec :=
  roundTrips_iff dir pythonExecutable held (spec_of_parseServices parsed held).2.1

namespace Demo

/-- `services.yaml` with one job and its environment. -/
def envDocument (env : YamlMap) : Yaml :=
  .map [(.str "job", .map [(.str "cmd", .seq [.str "sim"]), (.str "env", .map env)])]

def envJob (env : List (String × String)) : ServiceSpec :=
  { job ["sim"] with env := .ofList env }

/-- A value with a percent sign, a comma and an equals sign. -/
def mode : ServiceSpec := envJob [("MODE", "50%,a=b")]

/-- A value that closes its quote and goes on. -/
def closing : ServiceSpec := envJob [("NOTE", "x\",SERVICE_NAME=\"other")]

def runtime : Path := ["srv", "rt"]

/-- What is read for it. -/
def forged : List (String × String) :=
  [("PYTHONUNBUFFERED", "1"), ("SERVICE_NAME", "job"), ("KOYU_RUNTIME_DIR", "/srv/rt"), ("NOTE", "x"),
    ("SERVICE_NAME", "other")]

theorem renders_envJob (env : List (String × String)) :
    ∀ e ∈ (OrderedDict.ofList [("job", envJob env)]).entries, Renders e.2 := by
  intro e mem
  rw [List.mem_singleton.mp mem]
  obtain ⟨codes, starts, retries, waits⟩ := renders_job ["sim"] ("job", job ["sim"]) List.mem_cons_self
  exact ⟨codes, starts, retries, waits⟩

end Demo

theorem roundTrips_of_parseServices_mode :
    RoundTrips Demo.runtime (.ofList [("job", Demo.mode)]) Demo.python Demo.mode ↔
      (∀ e ∈ (OrderedDict.ofList [("job", Demo.mode)]).entries, Renders e.2) ∧
        Survives Demo.runtime Demo.mode :=
  roundTrips_of_parseServices (fun _ => "") (Demo.envDocument [(.str "MODE", .str "50%,a=b")]) _ rfl
    Demo.runtime Demo.python "job" Demo.mode rfl

/-- A value with a quote in it renames the service. -/
theorem closing_overrides :
    parseServices (fun _ => "")
        (Demo.envDocument [(.str "NOTE", .str "x\",SERVICE_NAME=\"other")]) =
      .ok (.ofList [("job", Demo.closing)]) ∧
    (∃ decoded, Gets Demo.runtime (.ofList [("job", Demo.closing)]) Demo.python Demo.closing decoded ∧
      decoded.get? "SERVICE_NAME" = some "other") ∧
    ¬ RoundTrips Demo.runtime (.ofList [("job", Demo.closing)]) Demo.python Demo.closing := by
  have held : (OrderedDict.ofList [("job", Demo.closing)]).get? "job" = some Demo.closing := rfl
  refine ⟨rfl, ?_, ?_⟩
  · obtain ⟨conf, generated⟩ := exists_conf (Demo.renders_envJob _) Demo.python
    obtain ⟨text, rendered, before, after, stands⟩ := exists_programSection generated held
    obtain ⟨tail, decodes⟩ := decodedEnvironment_ok_iff (hereOf Demo.runtime) rendered after
    have reads : Reads (hereOf Demo.runtime) (listed (written Demo.closing) ++ '\n' :: tail)
        (Demo.forged.map fun e => (e.1.toList, e.2.toList)) := by
      have line : firstLine (listed (written Demo.closing) ++ '\n' :: tail) =
          listed (written Demo.closing) := by
        rw [firstLine_append_newline]
        exact firstLine_of_not_mem (by decide +kernel)
      refine ⟨listed (Demo.forged.map fun e => (e.1.toList, e.2.toList)), ?_, by decide +kernel⟩
      rw [line]
      exact expands_of_expand (by decide +kernel)
    refine ⟨_, ⟨conf, before, text, after, generated, rendered, stands,
      (decodes _).mpr ⟨_, reads, rfl⟩⟩, ?_⟩
    decide +kernel
  · rw [roundTrips_iff Demo.runtime Demo.python held (by decide)]
    rintro ⟨-, survives⟩
    have unquoted := (survives.values ("NOTE", "x\",SERVICE_NAME=\"other") List.mem_cons_self).1
    exact absurd unquoted (by decide +kernel)

end KoyuRuntime.Warden
