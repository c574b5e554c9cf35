/-
# Cli.ContextCommands — `koyu context set`, `clear` and `show`, one after the other

The command line writes `recording-context.json` and the recorder reads it.  A command
works on what it finds there: `set` writes a changed copy to a hidden file and renames
that, `clear` removes the file, `show` only prints.

* `cmdContext`: what one command does to the two files, and what it prints.
* `folded`: what a history of commands should come to.
* `context_commands_fold`: after every history the recorder reads that, a `set` that is
  refused has not touched the files, and in between nothing else can be read.
-/
import KoyuRuntime.Cli.ContextText
import KoyuRuntime.Services.DataRecorder.Shell
import KoyuRuntime.Theory.Assignments
import Mathlib.Data.List.Induction

namespace KoyuRuntime.Cli.ContextCommands

open Services Theory

set_option autoImplicit false

/-! ## The model -/

/-- Texts made of a context or a string by pydantic and by Python. -/
structure Texts where
  /-- `context.model_dump_json(indent=2)`. -/
  dumpJson : RecordingContext → String
  /-- `RecordingContext.model_validate_json(text)`; nothing for a `ValidationError`. -/
  validateJson : String → Option RecordingContext
  /-- `repr(pair)`. -/
  repr : String → String

/-- `recording-context.json`, and the hidden file next to it. -/
structure Files where
  context : Option String
  tmp : Option String
  deriving DecidableEq

inductive Verb where
  | show_
  | set
  | clear
  deriving DecidableEq, Repr

/-- `args`. -/
structure Command where
  action : Verb
  pairs : List String
  deriving DecidableEq

/-- What a command does to the files, one system call after the other. -/
inductive FileStep where
  /-- `path.unlink(missing_ok=True)`. -/
  | unlink
  /-- `tmp.write_text` opens the file, and then its text arrives. -/
  | truncate
  | write (c : Char)
  /-- `tmp.replace(path)`. -/
  | replace

def FileStep.apply (files : Files) : FileStep → Files
  | .unlink => { files with context := none }
  | .truncate => { files with tmp := some "" }
  | .write c => { files with tmp := files.tmp.map fun text => text.push c }
  | .replace =>
      match files.tmp with
      | some text => ⟨some text, none⟩
      | none => files

/-- The file steps of a command, its exit code, and the lines it prints. -/
structure Outcome where
  steps : List FileStep
  code : Nat
  out : List String
  err : List String

section Model

variable (texts : Texts)

/-- What `_read_context` finds in the file. -/
def contextFile (files : Files) : DataRecorder.ContextFile :=
  match files.context with
  | none => .missing
  | some text =>
      match texts.validateJson text with
      | none => .invalid
      | some ctx => .valid ctx

/-- `_read_context`; `_cmd_context` reads the file the same way. -/
def readContext (files : Files) : RecordingContext := DataRecorder.readContext (contextFile texts files)

/-- The loop over the pairs: what they set, or the first one that is refused. -/
def collect : List String → Updates → Except String Updates
  | [], updates => .ok updates
  | pair :: rest, updates =>
      match parsePair pair with
      | some (f, value) => collect rest (updates.set f value)
      | none => .error pair

/-- Are all fields `None`? -/
def isEmpty (ctx : RecordingContext) : Bool := Field.all.all fun f => (f.get ctx).isNone

def needsPairs : String :=
  "error: set needs key=value pairs, e.g. koyu context set source_run_id=run_… policy_name=koyu-ACT"

def refusal (pair : String) : String :=
  "error: expected key=value with key one of: " ++ String.intercalate ", " (Field.all.map Field.name) ++
    " (got " ++ texts.repr pair ++ ")"

def cleared : String := "recording context cleared — next recordings are unfiled"

/-- The last line, on stderr. -/
def note (action : Verb) (ctx : RecordingContext) : List String :=
  if isEmpty ctx then
    ["(empty context — recordings will land unfiled; set at least requested_manifest)"]
  else if action = .set then
    ["(snapshotted by the recorder at each START — applies to recordings from now on)"]
  else []

/-- Write the text to the hidden file and rename it. -/
def save (text : String) : List FileStep := .truncate :: text.toList.map .write ++ [.replace]

/-- `_cmd_context`. -/
def cmdContext (files : Files) (cmd : Command) : Outcome :=
  let ctx := readContext texts files
  match cmd.action with
  | .clear => ⟨[.unlink], 0, [cleared], []⟩
  | .show_ => ⟨[], 0, [texts.dumpJson ctx], note .show_ ctx⟩
  | .set =>
      if cmd.pairs = [] then ⟨[], 2, [], [needsPairs]⟩
      else
        match collect cmd.pairs ∅ with
        | .error pair => ⟨[], 2, [], [refusal texts pair]⟩
        | .ok updates =>
            let ctx := update updates ctx
            ⟨save (texts.dumpJson ctx), 0, [texts.dumpJson ctx], note .set ctx⟩

/-- The files after some steps. -/
def stepped (files : Files) (steps : List FileStep) : Files := steps.foldl FileStep.apply files

/-- The files after a command. -/
def run (files : Files) (cmd : Command) : Files := stepped files (cmdContext texts files cmd).steps

/-- The files after a history of commands, oldest first. -/
def after (files : Files) (cmds : List Command) : Files := cmds.foldl (run texts) files

end Model

/-! ## What a history comes to -/

/-- A pair that names the field: its name, `=`, and a text. -/
def Names (f : Field) (pair : String) : Prop := ∃ text, pair = f.name ++ "=" ++ text

/-- The value a text stands for: an empty one clears the field. -/
def valueOf (text : String) : Option String := if text = "" then none else some text

/-- The field a pair names, and the value it gives it. -/
def meaning (pair : String) : Option (Field × Option String) :=
  Field.all.findSome? fun f =>
    (pair.toList.dropPrefix? (f.name ++ "=").toList).map fun text => (f, valueOf (String.ofList text))

/-- The assignments of a valid set command: it has pairs, and each names a field. -/
def Command.edits (cmd : Command) : Option (List (Field × Option String)) :=
  if cmd.action = .set ∧ cmd.pairs ≠ [] then cmd.pairs.mapM meaning else none

/-- The commands after the last `clear`. -/
def sinceClear (cmds : List Command) : List Command :=
  (cmds.reverse.takeWhile fun cmd => cmd.action ≠ .clear).reverse

/-- The assignments of all valid set commands since the last `clear`, made to a context
without any value. -/
def folded (cmds : List Command) : Field → Option String :=
  assign ((sinceClear cmds).flatMap fun cmd => cmd.edits.getD []) fun _ => none

/-! ## Pairs -/

theorem name_plain (f : Field) : '=' ∉ f.name.toList := by
  cases f <;> decide

/-- What stands before the first `=`. -/
theorem takeWhile_plain {key : List Char} (plain : '=' ∉ key) (rest : List Char) :
    (key ++ '=' :: rest).takeWhile (fun c => c ≠ '=') = key := by
  have before : ∀ c ∈ key, decide (c ≠ '=') = true := by
    intro c mem
    rw [decide_eq_true_eq]
    rintro rfl
    exact plain mem
  rw [List.takeWhile_append_of_pos before, List.takeWhile_cons_of_neg (by simp), List.append_nil]

theorem dropWhile_plain {key : List Char} (plain : '=' ∉ key) (rest : List Char) :
    (key ++ '=' :: rest).dropWhile (fun c => c ≠ '=') = '=' :: rest := by
  have whole := List.takeWhile_append_dropWhile (p := fun c => decide (c ≠ '=')) (l := key ++ '=' :: rest)
  rw [takeWhile_plain plain] at whole
  exact List.append_cancel_left whole

/-- A pair is split where a field's name and `=` begin it. -/
theorem dropPrefix_name {key rest : List Char} (plain : '=' ∉ key) (f : Field) :
    (key ++ '=' :: rest).dropPrefix? (f.name ++ "=").toList =
      if f.name = String.ofList key then some rest else none := by
  have spelled : (f.name ++ "=").toList = f.name.toList ++ ['='] := String.toList_append
  have name_eq : f.name = String.ofList key ↔ key = f.name.toList := by
    constructor
    · intro same
      rw [same, String.toList_ofList]
    · rintro rfl
      rw [String.ofList_toList]
  have found : ∀ text, (key ++ '=' :: rest).dropPrefix? (f.name ++ "=").toList = some text ↔
      f.name = String.ofList key ∧ rest = text := by
    intro text
    rw [List.dropPrefix?_eq_some_iff, name_eq, spelled]
    simp only [beq_iff_eq]
    constructor
    · rintro ⟨front, split, rfl⟩
      rw [List.append_assoc, List.singleton_append] at split
      have keys : key = f.name.toList := by
        rw [← takeWhile_plain plain rest, split, takeWhile_plain (name_plain f)]
      rw [keys] at split
      exact ⟨keys, (List.cons.inj (List.append_cancel_left split)).2⟩
    · rintro ⟨rfl, rfl⟩
      exact ⟨_, by rw [List.append_assoc, List.singleton_append], rfl⟩
  split
  · rename_i same
    exact (found rest).mpr ⟨same, rfl⟩
  · rename_i other
    refine Option.eq_none_iff_forall_ne_some.mpr fun text here => other ?_
    exact ((found text).mp here).1

/-- A pair without `=` names no field. -/
theorem dropPrefix_plain {cs : List Char} (plain : '=' ∉ cs) (f : Field) :
    cs.dropPrefix? (f.name ++ "=").toList = none := by
  refine Option.eq_none_iff_forall_ne_some.mpr fun text here => plain ?_
  obtain ⟨front, rfl, same⟩ := List.dropPrefix?_eq_some_iff.mp here
  rw [beq_iff_eq.mp same, String.toList_append]
  simp

/-- What a pair says, by the text before its first `=`. -/
theorem meaning_split {pair : String} {key rest : List Char} (split : pair.toList = key ++ '=' :: rest)
    (plain : '=' ∉ key) :
    meaning pair = (Field.ofName (String.ofList key)).map fun f => (f, valueOf (String.ofList rest)) := by
  have named : ∀ fs : List Field, fs.findSome? (fun f =>
      (if f.name = String.ofList key then some rest else none).map fun text =>
        (f, valueOf (String.ofList text))) =
      (fs.find? fun f => f.name = String.ofList key).map fun f => (f, valueOf (String.ofList rest)) := by
    intro fs
    induction fs with
    | nil => rfl
    | cons f more ih =>
        by_cases same : f.name = String.ofList key
        · simp [same]
        · simpa [same] using ih
  simp only [meaning, split, dropPrefix_name plain, named, Field.ofName]

theorem meaning_plain {pair : String} (plain : '=' ∉ pair.toList) : meaning pair = none := by
  simp only [meaning, dropPrefix_plain plain]
  rfl

/-- **What a pair says** is what the loop makes of it. -/
theorem parsePair_eq_meaning (pair : String) : parsePair pair = meaning pair := by
  by_cases sep : '=' ∈ pair.toList
  · obtain ⟨key, rest, split, plain⟩ := List.eq_append_cons_of_mem sep
    have contained : (key ++ '=' :: rest).contains '=' = true := by simp
    simp only [meaning_split split plain, parsePair, partition, split, takeWhile_plain plain,
      dropWhile_plain plain, contained, if_true, List.drop_one, List.tail_cons]
    rfl
  · have missing : pair.toList.contains '=' = false := by simpa using sep
    rw [meaning_plain sep]
    simp only [parsePair, partition, missing, Bool.false_eq_true, if_false]

/-- **A pair names a field** by its name and `=`, and everything after that is the value. -/
theorem meaning_iff {f : Field} {pair : String} {value : Option String} :
    meaning pair = some (f, value) ↔ ∃ text, pair = f.name ++ "=" ++ text ∧ value = valueOf text := by
  constructor
  · intro said
    by_cases sep : '=' ∈ pair.toList
    · obtain ⟨key, rest, split, plain⟩ := List.eq_append_cons_of_mem sep
      rw [meaning_split split plain, Option.map_eq_some_iff] at said
      obtain ⟨g, found, same⟩ := said
      cases same
      have name := List.find?_some found
      rw [decide_eq_true_eq] at name
      refine ⟨String.ofList rest, ?_, rfl⟩
      rw [name, ← String.ofList_toList (s := pair), split]
      simp [String.append_assoc]
    · rw [meaning_plain sep] at said
      cases said
  · rintro ⟨text, rfl, rfl⟩
    have split : (f.name ++ "=" ++ text).toList = f.name.toList ++ '=' :: text.toList := by simp
    rw [meaning_split split (name_plain f), String.ofList_toList, String.ofList_toList, Field.ofName_name]
    rfl

theorem names_iff {f : Field} {pair : String} : Names f pair ↔ ∃ value, meaning pair = some (f, value) := by
  simp only [meaning_iff, Names]
  constructor
  · rintro ⟨text, same⟩
    exact ⟨_, text, same, rfl⟩
  · rintro ⟨_, text, same, -⟩
    exact ⟨text, same⟩

/-! ## Lists of pairs -/

section Pairs

variable {pairs : List String} {es : List (Field × Option String)}

theorem edits_none_iff : pairs.mapM meaning = none ↔ ∃ pair ∈ pairs, meaning pair = none := by
  induction pairs with
  | nil => simp
  | cons pair rest ih =>
      rw [List.mapM_cons]
      cases said : meaning pair with
      | none => simp [said]
      | some e =>
          have others : (∃ p ∈ pair :: rest, meaning p = none) ↔ ∃ p ∈ rest, meaning p = none := by simp [said]
          rw [others, ← ih]
          cases rest.mapM meaning <;> simp

/-- Every assignment is that of a pair. -/
theorem pair_of_edit (said : pairs.mapM meaning = some es) {e : Field × Option String} (mem : e ∈ es) :
    ∃ pair ∈ pairs, meaning pair = some e := by
  induction pairs generalizing es with
  | nil =>
      cases said
      cases mem
  | cons pair rest ih =>
      rw [List.mapM_cons] at said
      obtain ⟨first, here, said⟩ := Option.bind_eq_some_iff.mp said
      obtain ⟨others, later, same⟩ := Option.bind_eq_some_iff.mp said
      cases same
      rcases List.mem_cons.mp mem with rfl | inRest
      · exact ⟨pair, List.mem_cons_self, here⟩
      · obtain ⟨pair', mem', said'⟩ := ih later inRest
        exact ⟨pair', List.mem_cons_of_mem _ mem', said'⟩

/-- The loop collects the assignments of all pairs. -/
theorem collect_edits (said : pairs.mapM meaning = some es) (d : Updates) :
    collect pairs d = .ok (d.setAll es) := by
  induction pairs generalizing es d with
  | nil =>
      cases said
      rfl
  | cons pair rest ih =>
      rw [List.mapM_cons] at said
      obtain ⟨first, here, said⟩ := Option.bind_eq_some_iff.mp said
      obtain ⟨others, later, same⟩ := Option.bind_eq_some_iff.mp said
      cases same
      rw [collect, parsePair_eq_meaning, here]
      exact ih later _

/-- It stops at a pair that says nothing. -/
theorem collect_refused (silent : pairs.mapM meaning = none) (d : Updates) :
    ∃ pair, collect pairs d = .error pair := by
  induction pairs generalizing d with
  | nil => cases silent
  | cons pair rest ih =>
      rw [collect, parsePair_eq_meaning]
      cases said : meaning pair with
      | none => exact ⟨pair, rfl⟩
      | some e =>
          rw [List.mapM_cons, said] at silent
          have later : rest.mapM meaning = none := by
            cases others : rest.mapM meaning with
            | none => rfl
            | some more => rw [others] at silent; cases silent
          exact ih later _

end Pairs

/-! ## Files -/

/-- Characters that arrive go to the end of the hidden file. -/
theorem stepped_writes (files : Files) (text : String) (cs : List Char) :
    stepped { files with tmp := some text } (cs.map .write) =
      { files with tmp := some (text ++ String.ofList cs) } := by
  induction cs generalizing text with
  | nil => simp [stepped]
  | cons c rest ih =>
      have one : stepped { files with tmp := some text } ((c :: rest).map .write) =
          stepped { files with tmp := some (text.push c) } (rest.map .write) := rfl
      have shift : text.push c ++ String.ofList rest = text ++ String.ofList (c :: rest) :=
        String.toList_inj.mp (by simp)
      rw [one, ih, shift]

theorem stepped_append (files : Files) (l r : List FileStep) :
    stepped files (l ++ r) = stepped (stepped files l) r :=
  List.foldl_append

/-- **A save** puts the text in place, and takes the hidden file away. -/
theorem stepped_save (files : Files) (text : String) : stepped files (save text) = ⟨some text, none⟩ := by
  have opened : stepped files [.truncate] = { files with tmp := some "" } := rfl
  have whole : save text = [.truncate] ++ (text.toList.map .write ++ [.replace]) := rfl
  rw [whole, stepped_append, opened, stepped_append, stepped_writes]
  simp [stepped, FileStep.apply]

/-- Before its rename a save has only touched the hidden file. -/
theorem stepped_early (files : Files) {text : String} {early : List FileStep} (begun : early <+: save text) :
    early = save text ∨ (stepped files early).context = files.context := by
  rcases List.prefix_concat_iff.mp begun with all | before
  · exact .inl all
  · right
    have hidden : ∀ a ∈ early, a = .truncate ∨ ∃ c, a = .write c := by
      intro a mem
      rcases List.mem_cons.mp (before.subset mem) with rfl | written
      · exact .inl rfl
      · obtain ⟨c, -, rfl⟩ := List.mem_map.mp written
        exact .inr ⟨c, rfl⟩
    clear begun before
    induction early using List.reverseRecOn with
    | nil => rfl
    | append_singleton early a ih =>
        have kept := ih fun b mem => hidden b (List.mem_append_left _ mem)
        rw [stepped_append]
        rcases hidden a (by simp) with rfl | ⟨c, rfl⟩
        · exact kept
        · exact kept

/-! ## Commands -/

section Commands

variable {texts : Texts} {files : Files} {cmd : Command}

theorem edits_some {es : List (Field × Option String)} (valid : cmd.edits = some es) :
    cmd.action = .set ∧ cmd.pairs ≠ [] ∧ cmd.pairs.mapM meaning = some es := by
  unfold Command.edits at valid
  split at valid
  · rename_i set
    exact ⟨set.1, set.2, valid⟩
  · cases valid

/-- **A valid set command** saves a copy with its assignments. -/
theorem cmdContext_valid {es : List (Field × Option String)} (valid : cmd.edits = some es) :
    (cmdContext texts files cmd).steps =
        save (texts.dumpJson (update (OrderedDict.ofList es) (readContext texts files))) ∧
      (cmdContext texts files cmd).code = 0 := by
  obtain ⟨set, some_, said⟩ := edits_some valid
  have collected := collect_edits said ∅
  simp only [cmdContext, set, if_neg some_, collected]
  exact ⟨rfl, trivial⟩

/-- **Any other set command** is refused. -/
theorem cmdContext_refused (set : cmd.action = .set) (invalid : cmd.edits = none) :
    (cmdContext texts files cmd).steps = [] ∧ (cmdContext texts files cmd).code = 2 := by
  by_cases none_ : cmd.pairs = []
  · simp only [cmdContext, set, if_pos none_, and_self]
  · rw [Command.edits, if_pos ⟨set, none_⟩] at invalid
    obtain ⟨pair, stops⟩ := collect_refused invalid ∅
    simp only [cmdContext, set, if_neg none_, stops, and_self]

/-- What the recorder reads after a valid set command. -/
theorem read_valid (roundTrips : ∀ ctx, texts.validateJson (texts.dumpJson ctx) = some ctx)
    {es : List (Field × Option String)} (valid : cmd.edits = some es) (f : Field) :
    f.get (readContext texts (run texts files cmd)) =
      assign es (fun f => f.get (readContext texts files)) f := by
  have saved : readContext texts (run texts files cmd) =
      update (OrderedDict.ofList es) (readContext texts files) := by
    rw [run, (cmdContext_valid valid).1, stepped_save]
    simp only [readContext, contextFile, roundTrips]
    rfl
  rw [saved, get_update]
  exact getD_setAll es ∅ (fun f => f.get (readContext texts files)) f

end Commands

/-! ## Histories -/

section Histories

variable {cmds : List Command} {cmd : Command}

theorem folded_clear (clears : cmd.action = .clear) : folded (cmds ++ [cmd]) = fun _ => none := by
  have none_ : sinceClear (cmds ++ [cmd]) = [] := by simp [sinceClear, clears]
  rw [folded, none_]
  rfl

/-- A command that does not clear adds its assignments. -/
theorem folded_snoc (keeps : cmd.action ≠ .clear) :
    folded (cmds ++ [cmd]) = assign (cmd.edits.getD []) (folded cmds) := by
  have more : sinceClear (cmds ++ [cmd]) = sinceClear cmds ++ [cmd] := by simp [sinceClear, keeps]
  rw [folded, more, List.flatMap_append, assign_append, folded, List.flatMap_singleton]

end Histories

section Readers

variable {texts : Texts} {files : Files} {cmd : Command}

/-- A set command is refused exactly if it has no pairs, or one that names no field. -/
theorem edits_eq_none (set : cmd.action = .set) :
    cmd.edits = none ↔ cmd.pairs = [] ∨ ∃ pair ∈ cmd.pairs, ∀ f, ¬ Names f pair := by
  have silent : ∀ pair, meaning pair = none ↔ ∀ f, ¬ Names f pair := by
    intro pair
    simp only [names_iff]
    cases meaning pair with
    | none => simp
    | some e => simpa using ⟨e.1, e.2, rfl⟩
  by_cases none_ : cmd.pairs = []
  · simp [Command.edits, none_]
  · rw [Command.edits, if_pos ⟨set, none_⟩, edits_none_iff]
    simp only [none_, false_or, silent]

/-- A field that no pair names keeps its value. -/
theorem read_kept (roundTrips : ∀ ctx, texts.validateJson (texts.dumpJson ctx) = some ctx)
    {es : List (Field × Option String)} (valid : cmd.edits = some es) {f : Field}
    (unnamed : ∀ pair ∈ cmd.pairs, ¬ Names f pair) :
    f.get (readContext texts (run texts files cmd)) = f.get (readContext texts files) := by
  rw [read_valid roundTrips valid, assign_of_not_mem]
  intro mem
  obtain ⟨e, edit, rfl⟩ := List.mem_map.mp mem
  obtain ⟨pair, inPairs, said⟩ := pair_of_edit (edits_some valid).2.2 edit
  exact unnamed pair inPairs (names_iff.mpr ⟨e.2, said⟩)

/-- The last pair for a field gives it what follows the `=`. -/
theorem read_last (roundTrips : ∀ ctx, texts.validateJson (texts.dumpJson ctx) = some ctx)
    {es : List (Field × Option String)} (valid : cmd.edits = some es) {f : Field}
    {before later : List String} {text : String}
    (pairs : cmd.pairs = before ++ (f.name ++ "=" ++ text) :: later)
    (last : ∀ pair ∈ later, ¬ Names f pair) :
    f.get (readContext texts (run texts files cmd)) = valueOf text := by
  have said := (edits_some valid).2.2
  rw [pairs, List.mapM_append, List.mapM_cons] at said
  obtain ⟨front, -, said⟩ := Option.bind_eq_some_iff.mp said
  obtain ⟨_, said, same⟩ := Option.bind_eq_some_iff.mp said
  obtain ⟨here, told, said⟩ := Option.bind_eq_some_iff.mp said
  obtain ⟨back, laterSaid, same'⟩ := Option.bind_eq_some_iff.mp said
  cases same'
  cases same
  rw [meaning_iff.mpr ⟨text, rfl, rfl⟩] at told
  cases told
  rw [read_valid roundTrips valid]
  apply assign_last
  intro mem
  obtain ⟨e, edit, rfl⟩ := List.mem_map.mp mem
  obtain ⟨pair, inLater, names⟩ := pair_of_edit laterSaid edit
  exact last pair inLater (names_iff.mpr ⟨e.2, names⟩)

/-- **Before a command is done** the recorder reads what it read before. -/
theorem read_early {early : List FileStep} (begun : early <+: (cmdContext texts files cmd).steps) :
    readContext texts (stepped files early) = readContext texts files ∨
      early = (cmdContext texts files cmd).steps := by
  have unread : early = [] → readContext texts (stepped files early) = readContext texts files := by
    rintro rfl
    rfl
  cases action : cmd.action with
  | clear =>
      simp only [cmdContext, action] at begun ⊢
      rcases List.prefix_cons_iff.mp begun with none_ | ⟨rest, rfl, more⟩
      · exact .inl (unread none_)
      · rw [List.prefix_nil.mp more]
        exact .inr rfl
  | show_ =>
      simp only [cmdContext, action] at begun
      exact .inl (unread (List.prefix_nil.mp begun))
  | set =>
      cases edits : cmd.edits with
      | none =>
          rw [(cmdContext_refused action edits).1] at begun
          exact .inl (unread (List.prefix_nil.mp begun))
      | some es =>
          rw [(cmdContext_valid edits).1] at begun ⊢
          rcases stepped_early files begun with all | kept
          · exact .inr all
          · left
            simp only [readContext, contextFile, kept]

/-- What one more command does after a history. -/
theorem folded_run (roundTrips : ∀ ctx, texts.validateJson (texts.dumpJson ctx) = some ctx)
    {cmds : List Command} (read : ∀ f, f.get (readContext texts files) = folded cmds f) (f : Field) :
    f.get (readContext texts (run texts files cmd)) = folded (cmds ++ [cmd]) f := by
  cases action : cmd.action with
  | clear =>
      have gone : (run texts files cmd).context = none := by
        simp only [run, cmdContext, action]
        rfl
      have empty : readContext texts (run texts files cmd) = {} := by
        simp only [readContext, contextFile, gone]
        rfl
      rw [folded_clear action, empty]
      cases f <;> rfl
  | show_ =>
      have same : run texts files cmd = files := by
        simp only [run, cmdContext, action]
        rfl
      have none_ : cmd.edits = none := by simp [Command.edits, action]
      rw [same, read, folded_snoc (by simp [action]), none_]
      rfl
  | set =>
      rw [folded_snoc (by simp [action])]
      cases edits : cmd.edits with
      | none =>
          have same : run texts files cmd = files := by
            rw [run, (cmdContext_refused action edits).1]
            rfl
          rw [same, read]
          rfl
      | some es =>
          have before : (fun f => f.get (readContext texts files)) = folded cmds := funext read
          rw [read_valid roundTrips edits, before]
          rfl

end Readers

/-- What holds between a history and the files it leaves. -/
structure Folds (texts : Texts) (cmds : List Command) (files : Files) : Prop where
  /-- The recorder reads what the history comes to. -/
  read : ∀ f, f.get (readContext texts files) = folded cmds f
  /-- A set command without pairs, or with one that names no field, returns 2 and does nothing. -/
  refused : ∀ cmd, cmd.action = .set →
    (cmd.pairs = [] ∨ ∃ pair ∈ cmd.pairs, ∀ f, ¬ Names f pair) →
      (cmdContext texts files cmd).code = 2 ∧ run texts files cmd = files
  /-- Any other returns 0; the last pair for a field sets it to what follows the `=`, and a
  field that no pair names keeps its value. -/
  updated : ∀ cmd, cmd.action = .set →
    ¬ (cmd.pairs = [] ∨ ∃ pair ∈ cmd.pairs, ∀ f, ¬ Names f pair) →
      (cmdContext texts files cmd).code = 0 ∧
        (∀ f before text later, cmd.pairs = before ++ (f.name ++ "=" ++ text) :: later →
          (∀ pair ∈ later, ¬ Names f pair) →
            f.get (readContext texts (run texts files cmd)) = valueOf text) ∧
        ∀ f, (∀ pair ∈ cmd.pairs, ¬ Names f pair) →
          f.get (readContext texts (run texts files cmd)) = f.get (readContext texts files)
  /-- Whenever a command is interrupted, the recorder reads the old or the new context. -/
  whole : ∀ cmd early, early <+: (cmdContext texts files cmd).steps →
    readContext texts (stepped files early) = readContext texts files ∨
      readContext texts (stepped files early) = readContext texts (run texts files cmd)

/-- **Context commands fold**: after every history of commands that begins without a
context file, the recorder reads what the valid set commands since the last `clear` add
up to; a set command that is refused leaves the files alone, another one updates the
fields it names and no others, and nothing in between can be read. -/
theorem context_commands_fold (texts : Texts)
    (roundTrips : ∀ ctx, texts.validateJson (texts.dumpJson ctx) = some ctx) (tmp : Option String)
    (cmds : List Command) : Folds texts cmds (after texts ⟨none, tmp⟩ cmds) where
  read := by
    induction cmds using List.reverseRecOn with
    | nil => exact fun f => by cases f <;> rfl
    | append_singleton cmds cmd ih =>
        have last : after texts ⟨none, tmp⟩ (cmds ++ [cmd]) = run texts (after texts ⟨none, tmp⟩ cmds) cmd :=
          List.foldl_append
        rw [last]
        exact folded_run roundTrips ih
  refused := by
    intro cmd set invalid
    obtain ⟨idle, code⟩ := cmdContext_refused set ((edits_eq_none set).mpr invalid)
    exact ⟨code, by rw [run, idle]; rfl⟩
  updated := by
    intro cmd set valid
    obtain ⟨es, edits⟩ := Option.ne_none_iff_exists'.mp (mt (edits_eq_none set).mp valid)
    refine ⟨(cmdContext_valid edits).2, ?_, ?_⟩
    · exact fun f before text later pairs last => read_last roundTrips edits pairs last
    · exact fun f unnamed => read_kept roundTrips edits unnamed
  whole := by
    intro cmd early begun
    rcases read_early begun with unread | all
    · exact .inl unread
    · exact .inr (by rw [all]; rfl)

namespace Demo

def texts : Texts := ⟨dumpJson, readDump, fun pair => "'" ++ pair ++ "'"⟩

/-- A valid command, one with a bad pair after a good one, and one that clears a field. -/
def history : List Command :=
  [⟨.set, ["task=pick", "policy_name=act"]⟩, ⟨.set, ["task=place", "vibe=good"]⟩,
    ⟨.set, ["policy_name=", "source_run_id=a=b"]⟩]

end Demo

theorem context_commands_fold_history :
    (Field.all.map fun f => (f.name, folded Demo.history f)).filter (fun e => e.2 ≠ none) =
        [("task", some "pick"), ("source_run_id", some "a=b")] ∧
      Folds Demo.texts Demo.history (after Demo.texts ⟨none, none⟩ Demo.history) :=
  ⟨by decide +kernel, context_commands_fold Demo.texts readDump_dumpJson none Demo.history⟩

end KoyuRuntime.Cli.ContextCommands
