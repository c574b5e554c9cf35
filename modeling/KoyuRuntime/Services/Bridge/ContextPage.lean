/-
# Services.Bridge.ContextPage — the recording context, in the browser and at a START

The command line writes `recording-context.json` with pydantic, the recorder reads it with
pydantic at every START, and the bridge's `/context` reads it as any JSON document, for the
operator to see what the next recording will be stamped with.

* `scanString_quoted`: pydantic's strings, which keep what is not ASCII, are read.
* `loads_dumpJson`: a written context is read as an object of its fields.
* `page_shows`: after every history of commands, and at every moment of the next one, the page
  shows the fields that a START would read, all of one moment.
-/
import KoyuRuntime.Cli.ContextCommands
import KoyuRuntime.Host.JsonRoundTrip

namespace KoyuRuntime.Services.Bridge

open Host Theory Cli Cli.ContextCommands

set_option autoImplicit false

/-! ## The page -/

/-- The document that `context_handler` sends: what `json.loads` makes of the file, or `{}`. -/
def contextPage (format : FloatFormat) (files : Files) : Json :=
  match files.context with
  | none => .obj []
  | some text =>
      match loads format text.toList with
      | .ok document => document
      | .error _ => .obj []

/-- What a page shows of a field: a text, or nothing. -/
def shownField (page : Json) (f : Field) : Option String :=
  match page with
  | .obj members =>
      match OrderedDict.find f.name members with
      | some (.str text) => some text
      | _ => none
  | _ => none

/-! ## A context as JSON -/

theorem scanString_escape (c : Char) (rest : List Char) :
    scanString (escape c ++ rest) = (scanString rest).map fun read => (c :: read.1, read.2) := by
  have other : ∀ d : Char, (shortEscape d).isSome → shortEscape c = none → c ≠ d := by
    rintro d short none_ rfl
    rw [none_] at short
    cases short
  unfold escape
  cases short : shortEscape c with
  | some letter =>
      obtain ⟨noHex, stands⟩ := unescape_shortEscape short
      exact scanString_letter stands noHex rest
  | none =>
      dsimp only
      split
      · next low =>
        have code : ['\\', 'u', '0', '0', hexDigit (c.toNat / 16), hexDigit (c.toNat % 16)] = unitEscape c.toNat := by
          have zero : hexDigit 0 = '0' := by decide
          simp only [unitEscape, hexFour, show c.toNat / 4096 % 16 = 0 by omega, show c.toNat / 256 % 16 = 0 by omega,
            show c.toNat / 16 % 16 = c.toNat / 16 by omega, zero]
        rw [code, scanString_unit (by omega) (.inl (by omega)), Char.ofNat_toNat]
      · next high =>
        exact scanString_plain (other _ (by decide) short) (other _ (by decide) short) (by omega) rest

theorem scanString_quoted (text rest : List Char) :
    scanString (text.flatMap escape ++ '"' :: rest) = some (text, rest) := by
  induction text with
  | nil =>
      rw [List.flatMap_nil, List.nil_append, scanString.eq_def]
      rfl
  | cons c more ih =>
      rw [List.flatMap_cons, List.append_assoc, scanString_escape, ih]
      rfl

/-- The value of a field. -/
def fieldJson : Option String → Json
  | none => .null
  | some text => .str text

theorem front_valueText (value : Option String) : Front (valueText value) := by
  cases value with
  | none => exact ⟨'n', ['u', 'l', 'l'], rfl, by decide, by decide, by decide⟩
  | some text => exact ⟨'"', _, rfl, by decide, by decide, by decide⟩

theorem scanValue_valueText {format : FloatFormat} (value : Option String) (rest : List Char) (fuel : Nat) :
    scanValue format (fuel + 1) (valueText value ++ rest) = .ok (fieldJson value, rest) := by
  cases value with
  | none =>
      have atomic : Atomic ("null".toList ++ rest) :=
        Atomic.append ⟨'n', ['u', 'l', 'l'], rfl, by decide, by decide⟩ rest
      have word : scanLiteral ("null".toList ++ rest) = some (.null, rest) :=
        scanLiteral_word (by simp [literals]) rest
      rw [valueText, scanValue_atomic atomic, scanAtom, word]
      rfl
  | some text =>
      have whole : valueText (some text) ++ rest = '"' :: (text.toList.flatMap escape ++ '"' :: rest) := by
        simp [valueText, quoted]
      rw [whole, scanValue, eat_eq_some.mpr rfl]
      simp only [scanString_quoted, String.ofList_toList]
      rfl

theorem beforeValue_eq (f : Field) : beforeValue f =
    (if f = .task then '\x7b' else ',') :: '\n' :: ' ' :: ' ' :: (asciiQuoted f.name ++ [':', ' ']) := by
  cases f <;> decide

/-- The fields, as members of a document. -/
def members (ctx : RecordingContext) (fs : List Field) : List (String × Json) :=
  fs.map fun f => (f.name, fieldJson (f.get ctx))

section Document

variable {format : FloatFormat} {ctx : RecordingContext}

theorem set_field {f : Field} {fs : List Field} {before : OrderedDict String Json}
    (distinct : ((before.entries ++ members ctx (f :: fs)).map Prod.fst).Nodup) :
    (before.set f.name (fieldJson (f.get ctx))).entries = before.entries ++ [(f.name, fieldJson (f.get ctx))] := by
  refine OrderedDict.put_fresh fun old => ?_
  rw [List.map_append, List.nodup_append] at distinct
  exact distinct.2.2 f.name old f.name List.mem_cons_self rfl

/-- The fields are read one after the other, from the name of the first on. -/
theorem scanMembers_fields (f : Field) (fs : List Field) (later : Field.task ∉ fs) {before : OrderedDict String Json}
    (distinct : ((before.entries ++ members ctx (f :: fs)).map Prod.fst).Nodup) {fuel : Nat}
    (enough : fs.length + 1 < fuel) :
    scanMembers format fuel before
      (asciiQuoted f.name ++ ':' :: ' ' :: (valueText (f.get ctx) ++ (fieldsText ctx fs ++ "\n\x7d".toList))) =
        .ok (.obj (before.entries ++ members ctx (f :: fs)), []) := by
  induction fs generalizing f before fuel with
  | nil =>
      obtain ⟨fuel, rfl⟩ : ∃ n, fuel = n + 2 := ⟨fuel - 2, by simp only [List.length_nil] at enough; omega⟩
      have added := set_field distinct
      have here : scanValue format _ _ = _ := scanValue_valueText (f.get ctx) (['\n'] ++ '\x7d' :: []) fuel
      have close : fieldsText ctx [] ++ "\n\x7d".toList = ['\n'] ++ '\x7d' :: [] := rfl
      rw [close, scanMembers_last (List.all_eq_true.mp rfl) ((front_valueText (f.get ctx)).append _) here, added]
      rfl
  | cons g more ih =>
      obtain ⟨fuel, rfl⟩ : ∃ n, fuel = n + 2 := ⟨fuel - 2, by simp only [List.length_cons] at enough; omega⟩
      have added := set_field distinct
      have noTask : g ≠ .task := fun is => later (is ▸ List.mem_cons_self)
      have next : fieldsText ctx (g :: more) ++ "\n\x7d".toList = ',' :: (['\n', ' ', ' '] ++ (asciiQuoted g.name ++
          ':' :: ' ' :: (valueText (g.get ctx) ++ (fieldsText ctx more ++ "\n\x7d".toList)))) := by
        simp [fieldsText, beforeValue_eq, noTask]
      have here : scanValue format _ _ = _ :=
        scanValue_valueText (f.get ctx) (fieldsText ctx (g :: more) ++ "\n\x7d".toList) fuel
      have shift : (before.set f.name (fieldJson (f.get ctx))).entries ++ members ctx (g :: more) =
          before.entries ++ members ctx (f :: g :: more) := by
        rw [added, List.append_assoc]
        rfl
      rw [next] at here ⊢
      rw [scanMembers_more (List.all_eq_true.mp rfl) ((front_quoted g.name).append _)
          ((front_valueText (f.get ctx)).append _) here,
        ih g (fun mem => later (List.mem_cons_of_mem _ mem)) (shift ▸ distinct)
          (by simp only [List.length_cons] at enough; omega), shift]

/-- A written context is an object of its fields. -/
theorem loads_dumpJson : loads format (dumpJson ctx).toList = .ok (.obj (members ctx Field.all)) := by
  obtain ⟨others, all, later⟩ : ∃ others, Field.all = .task :: others ∧ Field.task ∉ others :=
    ⟨_, rfl, by decide⟩
  have text : (dumpJson ctx).toList = '\x7b' :: (['\n', ' ', ' '] ++ (asciiQuoted Field.task.name ++
      ':' :: ' ' :: (valueText (Field.task.get ctx) ++ (fieldsText ctx others ++ "\n\x7d".toList)))) := by
    rw [dumpJson, String.toList_ofList, all]
    simp [fieldsText, beforeValue_eq]
  have distinct : (((∅ : OrderedDict String Json).entries ++ members ctx (.task :: others)).map Prod.fst).Nodup := by
    rw [← all]
    simp only [members, List.map_append, List.map_map]
    exact (by decide : (Field.all.map Field.name).Nodup)
  have eight : others.length = 8 := Nat.succ.inj (congrArg List.length all).symm
  have enough : others.length + 1 < 2 * (dumpJson ctx).toList.length := by
    rw [text]
    simp only [List.length_cons, List.length_append, List.length_nil]
    omega
  obtain ⟨fuel, much⟩ : ∃ fuel, 2 * (dumpJson ctx).toList.length = fuel := ⟨_, rfl⟩
  have brace : skip (dumpJson ctx).toList = (dumpJson ctx).toList := by
    rw [text]
    exact skip_dark rfl [] (List.all_eq_true.mp rfl) _
  have read : scanValue format (fuel + 1) (dumpJson ctx).toList = .ok (.obj (members ctx Field.all), []) := by
    have front := (front_quoted Field.task.name).append (':' :: ' ' :: (valueText (Field.task.get ctx) ++
      (fieldsText ctx others ++ "\n\x7d".toList)))
    have blanks : ∀ c ∈ ['\n', ' ', ' '], blank c = true := List.all_eq_true.mp rfl
    rw [text, scanValue]
    simp only [eat_eq_some.mpr rfl, show eat '"' ('\x7b' :: _) = none from rfl,
      show eat '[' ('\x7b' :: _) = none from rfl, skip_front ['\n', ' ', ' '] blanks front, front.eat.2, all]
    exact scanMembers_fields .task others later distinct (by omega)
  rw [loads, brace, much, read]
  rfl

end Document

/-! ## What the page shows -/

/-- A field of a written context is shown. -/
theorem shown_members (ctx : RecordingContext) (f : Field) :
    shownField (.obj (members ctx Field.all)) f = f.get ctx := by
  have found : OrderedDict.find f.name (members ctx Field.all) = some (fieldJson (f.get ctx)) := by
    cases f <;> rfl
  simp only [shownField, found]
  cases f.get ctx <;> rfl

section Page

variable {format : FloatFormat} {texts : Texts}

/-- No file, or one that a command has written. -/
def Written (texts : Texts) (files : Files) : Prop :=
  files.context = none ∨ ∃ ctx, files.context = some (texts.dumpJson ctx)

theorem Written.early {files : Files} {cmd : Command} (written : Written texts files) {early : List FileStep}
    (begun : early <+: (cmdContext texts files cmd).steps) : Written texts (stepped files early) := by
  have idle : early = [] → Written texts (stepped files early) := by
    rintro rfl
    exact written
  cases action : cmd.action with
  | clear =>
      simp only [cmdContext, action] at begun
      rcases List.prefix_cons_iff.mp begun with none_ | ⟨rest, rfl, more⟩
      · exact idle none_
      · rw [List.prefix_nil.mp more]
        exact .inl rfl
  | show_ =>
      simp only [cmdContext, action] at begun
      exact idle (List.prefix_nil.mp begun)
  | set =>
      cases edits : cmd.edits with
      | none =>
          rw [(cmdContext_refused action edits).1] at begun
          exact idle (List.prefix_nil.mp begun)
      | some es =>
          rw [(cmdContext_valid edits).1] at begun
          rcases stepped_early files begun with rfl | kept
          · exact .inr ⟨_, by rw [stepped_save]⟩
          · exact written.imp kept.trans (Exists.imp fun ctx => kept.trans)

theorem Written.after {files : Files} (written : Written texts files) (cmds : List Command) :
    Written texts (after texts files cmds) := by
  induction cmds generalizing files with
  | nil => exact written
  | cons cmd more ih => exact ih (written.early (List.prefix_refl _))

theorem shown_written (pydantic : texts.dumpJson = dumpJson)
    (roundTrips : ∀ ctx, texts.validateJson (texts.dumpJson ctx) = some ctx) {files : Files}
    (written : Written texts files) (f : Field) :
    shownField (contextPage format files) f = f.get (readContext texts files) := by
  rcases written with gone | ⟨ctx, there⟩
  · simp only [contextPage, readContext, contextFile, gone]
    cases f <;> rfl
  · simp only [contextPage, readContext, contextFile, there, roundTrips]
    rw [pydantic, loads_dumpJson]
    exact shown_members ctx f

theorem read_after (roundTrips : ∀ ctx, texts.validateJson (texts.dumpJson ctx) = some ctx) (tmp : Option String)
    (cmds : List Command) (f : Field) :
    f.get (readContext texts (after texts ⟨none, tmp⟩ cmds)) = folded cmds f := by
  induction cmds using List.reverseRecOn generalizing f with
  | nil => cases f <;> rfl
  | append_singleton cmds cmd ih =>
      rw [after, List.foldl_append]
      exact folded_run roundTrips ih f

end Page

/-- **The page shows what a START reads**: when a history of commands has been given, and the next
is done up to any of its steps, the page shows of every field what the recorder would stamp.  That
is what the history adds up to, for all the fields, or for all of them what it adds up to with the
next command. -/
theorem page_shows (format : FloatFormat) (texts : Texts) (pydantic : texts.dumpJson = dumpJson)
    (roundTrips : ∀ ctx, texts.validateJson (texts.dumpJson ctx) = some ctx) (tmp : Option String)
    (cmds : List Command) (cmd : Command) (early : List FileStep)
    (begun : early <+: (cmdContext texts (after texts ⟨none, tmp⟩ cmds) cmd).steps) :
    let now := stepped (after texts ⟨none, tmp⟩ cmds) early
    (∀ f, shownField (contextPage format now) f = f.get (readContext texts now)) ∧
      ((∀ f, shownField (contextPage format now) f = folded cmds f) ∨
        ∀ f, shownField (contextPage format now) f = folded (cmds ++ [cmd]) f) := by
  intro now
  have none_ : Written texts ⟨none, tmp⟩ := .inl rfl
  have shown : ∀ f, shownField (contextPage format now) f = f.get (readContext texts now) :=
    shown_written pydantic roundTrips ((none_.after cmds).early begun)
  refine ⟨shown, ?_⟩
  rcases read_early begun with unread | rfl
  · left
    intro f
    rw [shown, ← read_after roundTrips tmp cmds f, ← unread]
  · right
    intro f
    have done : now = after texts ⟨none, tmp⟩ (cmds ++ [cmd]) := by
      rw [after, List.foldl_append]
      rfl
    rw [shown, done, read_after roundTrips]

/-- A command that is killed before its rename leaves on the page what the one before it set. -/
theorem page_shows_place :
    let cmds : List Command := [⟨.set, ["task=pick", "policy_name=act"]⟩, ⟨.set, ["task=place"]⟩]
    let files := after Demo.texts ⟨none, none⟩ cmds
    [.truncate] <+: (cmdContext Demo.texts files ⟨.set, ["task="]⟩).steps ∧
      shownField (contextPage Host.Demo.wholes (stepped files [.truncate])) .task = some "place" := by
  intro cmds files
  have edits : Command.edits ⟨.set, ["task="]⟩ = some [(.task, none)] := by decide +kernel
  obtain ⟨text, saves⟩ : ∃ text, (cmdContext Demo.texts files ⟨.set, ["task="]⟩).steps = save text :=
    ⟨_, (cmdContext_valid edits).1⟩
  have begun : [.truncate] <+: (cmdContext Demo.texts files ⟨.set, ["task="]⟩).steps := by
    rw [saves]
    exact ⟨_, rfl⟩
  have shown := (page_shows Host.Demo.wholes Demo.texts rfl readDump_dumpJson none cmds _ [.truncate] begun).1
  have same : ∀ files, readContext Demo.texts (stepped files [.truncate]) = readContext Demo.texts files := fun _ => rfl
  have read : Field.task.get (readContext Demo.texts files) = folded cmds .task :=
    read_after readDump_dumpJson none cmds .task
  have adds : folded cmds .task = some "place" := by decide +kernel
  exact ⟨begun, (shown .task).trans ((congrArg Field.task.get (same files)).trans (read.trans adds))⟩

end KoyuRuntime.Services.Bridge
