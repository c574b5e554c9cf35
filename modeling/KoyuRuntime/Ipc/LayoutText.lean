/-
# Ipc.LayoutText — the layouts a binary prints

A native binary prints a line for each type and one for each field, the fields after
their type.  `parseLayout` reads them back word by word, and skips every line that is
not of one of the two shapes.

`parseLayout_printed`: whatever other lines stand between them, and at whatever line
boundaries the text is broken, the types printed are the types read, in order
(`native_layout_check` puts this under the type check).  A line counts by its first
word, so a blank before `TYPE` does not make it another line (`indented_type_read`).
-/
import KoyuRuntime.Host.Text
import KoyuRuntime.Ipc.Checks

namespace KoyuRuntime.Ipc.Checks

open Host Theory Ipc.Types

set_option autoImplicit false

/-! ## Reading -/

/-- `layouts`, and the type whose fields are being read. -/
structure Reading where
  layouts : List (String × Layout)
  current : Option String

/-- `layouts[current]["fields"].append(field)`. -/
def addField (current : String) (field : String × Int × Int) (layouts : List (String × Layout)) :
    List (String × Layout) :=
  match OrderedDict.find current layouts with
  | some l => OrderedDict.put current { l with fields := l.fields ++ [field] } layouts
  | none => layouts

def intOfWord (word : String) : Except Exn Int := intOfText word.toList

/-- One line of `parse_layout`. -/
def parseLine (s : Reading) (line : List Char) : Except Exn Reading :=
  match words line with
  | "TYPE" :: name :: "SIZE" :: n :: _ => do
      let size ← intOfWord n
      pure ⟨OrderedDict.put name ⟨size, []⟩ s.layouts, some name⟩
  | "FIELD" :: name :: "OFFSET" :: o :: "SIZE" :: n :: _ =>
      match s.current with
      | some current => do
          let offset ← intOfWord o
          let size ← intOfWord n
          pure { s with layouts := addField current (name, offset, size) s.layouts }
      | none => .ok s
  | _ => .ok s

def parseLines : Reading → List (List Char) → Except Exn Reading
  | s, [] => .ok s
  | s, line :: rest => do
      let s ← parseLine s line
      parseLines s rest

/-- `parse_layout`. -/
def parseLayout (text : List Char) : Except Exn (List (String × Layout)) := do
  let s ← parseLines ⟨[], none⟩ (splitLines text)
  pure s.layouts

/-! ## Printing -/

/-- A line of the output. -/
inductive Line where
  | type (name : String) (size : Int)
  | field (name : String) (offset size : Int)
  | other (text : List Char)
  deriving DecidableEq

namespace Line

def word (i : Int) : String := String.ofList (intText i)

/-- "TYPE name SIZE n" and "FIELD name OFFSET o SIZE s". -/
def shown : Line → List Char
  | .type name size => spaced ["TYPE", name, "SIZE", word size]
  | .field name offset size => spaced ["FIELD", name, "OFFSET", word offset, "SIZE", word size]
  | .other text => text

/-- Does the line print a layout? -/
def ofLayout : Line → Bool
  | .other _ => false
  | _ => true

/-- Names are words and numbers have few enough digits to be read; any other line is one
line and its first word is neither `TYPE` nor `FIELD`. -/
def Fine : Line → Prop
  | .type name size => IsWord name ∧ Readable size
  | .field name offset size => IsWord name ∧ Readable offset ∧ Readable size
  | .other text => (∀ c ∈ text, isBreak c = false) ∧
      (words text).head? ≠ some "TYPE" ∧ (words text).head? ≠ some "FIELD"

/-- What a line changes. -/
def read (s : Reading) : Line → Reading
  | .type name size => ⟨OrderedDict.put name ⟨size, []⟩ s.layouts, some name⟩
  | .field name offset size =>
      match s.current with
      | some current => { s with layouts := addField current (name, offset, size) s.layouts }
      | none => s
  | .other _ => s

end Line

/-- The lines of one type: its own, then one for each field. -/
def linesOf (type : String × Layout) : List Line :=
  .type type.1 type.2.size :: type.2.fields.map fun f => .field f.1 f.2.1 f.2.2

/-- The output prints these types in order, with other lines anywhere between. -/
def Prints (types : List (String × Layout)) (lines : List Line) : Prop :=
  lines.filter Line.ofLayout = types.flatMap linesOf ∧ ∀ line ∈ lines, line.Fine

/-! ## Every line is read as printed -/

theorem intOfWord_word {i : Int} (readable : Readable i) : intOfWord (Line.word i) = .ok i := by
  rw [intOfWord, Line.word, String.toList_ofList, intOfText_intText readable]

theorem isWord_word (i : Int) : IsWord (Line.word i) := isWord_intText i

section Words

variable {name : String}

theorem isWord_type (isWord : IsWord name) (size : Int) :
    ∀ w ∈ ["TYPE", name, "SIZE", Line.word size], IsWord w := by
  simp only [List.forall_mem_cons, List.not_mem_nil, false_implies, implies_true, and_true]
  exact ⟨isWord_of_any (by decide) (by decide), isWord, isWord_of_any (by decide) (by decide), isWord_word size⟩

theorem isWord_field (isWord : IsWord name) (offset size : Int) :
    ∀ w ∈ ["FIELD", name, "OFFSET", Line.word offset, "SIZE", Line.word size], IsWord w := by
  simp only [List.forall_mem_cons, List.not_mem_nil, false_implies, implies_true, and_true]
  exact ⟨isWord_of_any (by decide) (by decide), isWord, isWord_of_any (by decide) (by decide),
    isWord_word offset, isWord_of_any (by decide) (by decide), isWord_word size⟩

end Words

theorem parseLine_shown (s : Reading) {line : Line} (fine : line.Fine) :
    parseLine s line.shown = .ok (line.read s) := by
  cases line with
  | type name size =>
      obtain ⟨isWord, readable⟩ := fine
      rw [parseLine, Line.shown, words_spaced (isWord_type isWord size)]
      simp only [intOfWord_word readable]
      rfl
  | field name offset size =>
      obtain ⟨isWord, before, readable⟩ := fine
      rw [parseLine, Line.shown, words_spaced (isWord_field isWord offset size)]
      simp only [intOfWord_word readable, intOfWord_word before, Line.read]
      cases s.current <;> rfl
  | other text =>
      obtain ⟨-, noType, noField⟩ := fine
      show parseLine s text = .ok s
      unfold parseLine
      split
      · rename_i shape
        exact absurd (by rw [shape]; rfl) noType
      · rename_i shape
        exact absurd (by rw [shape]; rfl) noField
      · rfl

theorem unbroken_shown {line : Line} (fine : line.Fine) : ∀ c ∈ line.shown, isBreak c = false := by
  cases line with
  | type name size => exact unbroken_spaced (isWord_type fine.1 size)
  | field name offset size => exact unbroken_spaced (isWord_field fine.1 offset size)
  | other text => exact fine.1

/-- Empty lines are skipped. -/
theorem parseLines_written (s : Reading) (lines : List (List Char)) :
    parseLines s (written lines) = parseLines s lines := by
  induction lines generalizing s with
  | nil => rfl
  | cons line rest ih =>
      cases line with
      | nil =>
          show parseLines s (written rest) = (parseLine s []).bind fun s => parseLines s rest
          rw [ih]
          rfl
      | cons c more =>
          show (parseLine s (c :: more)).bind (fun s => parseLines s (written rest)) =
            (parseLine s (c :: more)).bind fun s => parseLines s rest
          simp only [ih]

theorem parseLines_shown (s : Reading) {lines : List Line} (fine : ∀ line ∈ lines, line.Fine) :
    parseLines s (lines.map Line.shown) = .ok (lines.foldl Line.read s) := by
  induction lines generalizing s with
  | nil => rfl
  | cons line rest ih =>
      obtain ⟨first, others⟩ := List.forall_mem_cons.mp fine
      simp only [List.map_cons, parseLines, parseLine_shown s first, bind, Except.bind]
      exact ih _ others

/-- Other lines change nothing. -/
theorem foldl_ofLayout (s : Reading) (lines : List Line) :
    lines.foldl Line.read s = (lines.filter Line.ofLayout).foldl Line.read s := by
  induction lines generalizing s with
  | nil => rfl
  | cons line rest ih => cases line <;> exact ih _

/-! ## The types are read in order -/

section Types

variable {done : List (String × Layout)} {name : String}

theorem addField_last (fresh : name ∉ done.map Prod.fst) (l : Layout) (field : String × Int × Int) :
    addField name field (done ++ [(name, l)]) = done ++ [(name, { l with fields := l.fields ++ [field] })] := by
  rw [addField, OrderedDict.find_last fresh]
  exact OrderedDict.put_last fresh

/-- The fields of a type are added to it in order. -/
theorem foldl_fields (fresh : name ∉ done.map Prod.fst) (l : Layout) (fields : List (String × Int × Int)) :
    (fields.map fun f => Line.field f.1 f.2.1 f.2.2).foldl Line.read ⟨done ++ [(name, l)], some name⟩ =
      ⟨done ++ [(name, { l with fields := l.fields ++ fields })], some name⟩ := by
  induction fields generalizing l with
  | nil => simp
  | cons f rest ih =>
      show (rest.map _).foldl Line.read
        ⟨addField name (f.1, f.2.1, f.2.2) (done ++ [(name, l)]), some name⟩ = _
      rw [addField_last fresh, ih]
      simp

theorem foldl_linesOf (type : String × Layout) (fresh : type.1 ∉ done.map Prod.fst)
    (current : Option String) :
    (linesOf type).foldl Line.read ⟨done, current⟩ = ⟨done ++ [type], some type.1⟩ := by
  show (type.2.fields.map fun f => Line.field f.1 f.2.1 f.2.2).foldl Line.read
    ⟨OrderedDict.put type.1 ⟨type.2.size, []⟩ done, some type.1⟩ = _
  rw [OrderedDict.put_fresh fresh, foldl_fields fresh]
  rfl

/-- **Types with distinct names** are all read. -/
theorem foldl_types (types : List (String × Layout)) (distinct : ((done ++ types).map Prod.fst).Nodup)
    (current : Option String) :
    ((types.flatMap linesOf).foldl Line.read ⟨done, current⟩).layouts = done ++ types := by
  induction types generalizing done current with
  | nil => simp
  | cons type rest ih =>
      have fresh : type.1 ∉ done.map Prod.fst := by
        intro mem
        rw [List.map_append, List.map_cons, List.nodup_append] at distinct
        exact distinct.2.2 _ mem _ List.mem_cons_self rfl
      rw [List.flatMap_cons, List.foldl_append, foldl_linesOf type fresh, ih, List.append_assoc]
      · rfl
      · simpa using distinct

end Types

/-- **A printed text is read back**: its types, in order, with their sizes and fields. -/
theorem parseLayout_printed {types : List (String × Layout)} (distinct : (types.map Prod.fst).Nodup)
    {lines : List Line} (prints : Prints types lines) {text : List Char}
    (delimited : Delimited (lines.map Line.shown) text) : parseLayout text = .ok types := by
  obtain ⟨core, fine⟩ := prints
  have unbroken : ∀ line ∈ lines.map Line.shown, ∀ c ∈ line, isBreak c = false := by
    intro line mem
    obtain ⟨l, there, rfl⟩ := List.mem_map.mp mem
    exact unbroken_shown (fine l there)
  have read : parseLines ⟨[], none⟩ (splitLines text) = .ok (lines.foldl Line.read ⟨[], none⟩) := by
    rw [← parseLines_written, lines_of_delimited delimited unbroken, parseLines_written,
      parseLines_shown _ fine]
  have all : ((types.flatMap linesOf).foldl Line.read ⟨[], none⟩).layouts = [] ++ types :=
    foldl_types types ((List.nil_append types).symm ▸ distinct) none
  rw [List.nil_append, ← core, ← foldl_ofLayout] at all
  simp only [parseLayout, read, bind, Except.bind]
  exact congrArg Except.ok all

/-! ## The check of a native service -/

/-- `_binary_layouts`, for a binary that exits 0 with this output. -/
def binaryEnvironment (text : Yaml → String) (stdout : List String → Except Exn (List Char)) :
    Environment where
  text := text
  reported := fun cmd => (stdout cmd).bind parseLayout

theorem resolveAll_ok_iff {service : Scalar} {declared : List (Key × Yaml)}
    {structs : List (Key × Yaml × Struct)} :
    resolveAll service declared = .ok structs ↔
      List.Forall₂ (fun d s => s.1 = d.1 ∧ s.2.1 = d.2 ∧ resolve d.2 = .ok s.2.2) declared structs := by
  have one : ∀ topic tyname S, resolveOne service topic tyname = .ok S ↔ resolve tyname = .ok S := by
    intro topic tyname S
    unfold resolveOne
    split
    · rename_i T found
      simp [found]
    · rename_i unknown
      simp [unknown]
    · rename_i unhashable
      simp [unhashable]
  induction declared generalizing structs with
  | nil =>
      rw [List.forall₂_nil_left_iff]
      simp [resolveAll, eq_comm]
  | cons d rest ih =>
      obtain ⟨topic, tyname⟩ := d
      rw [List.forall₂_cons_left_iff, resolveAll]
      constructor
      · intro done
        obtain ⟨S, resolved, done⟩ := except_bind_ok_iff.mp done
        obtain ⟨more, later, done⟩ := except_bind_ok_iff.mp done
        cases done
        exact ⟨_, more, ⟨rfl, rfl, (one _ _ _).mp resolved⟩, ih.mp later, rfl⟩
      · rintro ⟨⟨_, _, S⟩, more, ⟨rfl, rfl, resolved⟩, later, rfl⟩
        refine except_bind_ok_iff.mpr ⟨S, (one _ _ _).mpr resolved, ?_⟩
        exact except_bind_ok_iff.mpr ⟨more, ih.mpr later, rfl⟩

theorem compareAll_ok_iff {service : Scalar} {reported : List (String × Layout)}
    {structs : List (Key × Yaml × Struct)} :
    compareAll service reported structs = .ok () ↔
      ∀ s ∈ structs, reportedLayout reported s.2.1 s.2.2 = some (layout s.2.2) := by
  induction structs with
  | nil => simp [compareAll]
  | cons s rest ih =>
      obtain ⟨topic, tyname, S⟩ := s
      rw [List.forall_mem_cons, ← ih, compareAll]
      cases got : reportedLayout reported tyname S with
      | none => simp [throw, throwThe, MonadExceptOf.throw]
      | some l =>
          by_cases same : l = layout S
          · simp [same]
          · simp [same, throw, throwThe, MonadExceptOf.throw]

/-- The first of the names a struct goes by that is printed at all is printed with its layout. -/
def PrintedExactly (types : List (String × Layout)) (declared : String) (S : Struct) : Prop :=
  ∃ before name after, [declared, S.name, typeName S] = before ++ name :: after ∧
    (∀ n ∈ before, n ∉ types.map Prod.fst) ∧ (name, layout S) ∈ types

theorem find_eq_some_iff {types : List (String × Layout)} (distinct : (types.map Prod.fst).Nodup)
    {name : String} {l : Layout} : OrderedDict.find name types = some l ↔ (name, l) ∈ types :=
  ⟨OrderedDict.mem_of_find, fun mem => OrderedDict.get?_of_mem (d := ⟨types, distinct⟩) mem⟩

theorem reportedLayout_iff {types : List (String × Layout)} (distinct : (types.map Prod.fst).Nodup)
    {declared : String} {S : Struct} :
    reportedLayout types (.str declared) S = some (layout S) ↔ PrintedExactly types declared S := by
  have shape : reportedLayout types (.str declared) S =
      [declared, S.name, typeName S].findSome? fun name => OrderedDict.find name types := rfl
  rw [shape, List.findSome?_eq_some_iff]
  simp only [find_eq_some_iff distinct, OrderedDict.find_eq_none_iff]
  unfold PrintedExactly
  constructor
  · rintro ⟨before, name, after, parts, printed, absent⟩
    exact ⟨before, name, after, parts, absent, printed⟩
  · rintro ⟨before, name, after, parts, absent, printed⟩
    exact ⟨before, name, after, parts, printed, absent⟩

theorem resolve_compare_iff (service : Scalar) {reported : List (String × Layout)}
    {declared : List (Key × Yaml)} :
    (∃ structs, resolveAll service declared = .ok structs ∧ compareAll service reported structs = .ok ()) ↔
      ∀ d ∈ declared, ∃ S, resolve d.2 = .ok S ∧ reportedLayout reported d.2 S = some (layout S) := by
  simp only [resolveAll_ok_iff, compareAll_ok_iff]
  induction declared with
  | nil => exact iff_of_true ⟨[], .nil, by simp⟩ (by simp)
  | cons d rest ih =>
      rw [List.forall_mem_cons, ← ih]
      constructor
      · rintro ⟨_, each, same⟩
        cases each with
        | cons one others =>
            obtain ⟨first, later⟩ := List.forall_mem_cons.mp same
            obtain ⟨-, type, resolved⟩ := one
            rw [type] at first
            exact ⟨⟨_, resolved, first⟩, _, others, later⟩
      · rintro ⟨⟨S, resolved, first⟩, structs, others, later⟩
        exact ⟨(d.1, d.2, S) :: structs, .cons ⟨rfl, rfl, resolved⟩ others,
          List.forall_mem_cons.mpr ⟨first, later⟩⟩

/-- A native service passes if it resolves its types and the reported layouts are theirs. -/
theorem checkService_iff {env : Environment} {service : Scalar} {stanza ipc : YamlMap}
    {reported : List (String × Layout)} {cmd : List Yaml}
    (block : Yaml.lookup "ipc" stanza = some (.map ipc))
    (tokens : command ((Yaml.lookup "cmd" stanza).getD .null) = .ok cmd)
    (native : isNative env cmd = true) (output : env.reported (cmd.map env.str) = .ok reported) :
    checkService env service (.map stanza) = .ok () ↔
      ∀ e ∈ (typedTopics ipc).entries, ∃ S, resolve e.2 = .ok S ∧
        reportedLayout reported e.2 S = some (layout S) := by
  have whole : (Yaml.map stanza).orEmpty = .map stanza := by cases stanza <;> rfl
  have body : checkService env service (.map stanza) = checkBlock env service stanza ipc := by
    simp only [checkService, whole, Yaml.get, block, Option.getD_some, raise, bind, Except.bind]
    rfl
  rw [body, ← resolve_compare_iff service]
  unfold checkBlock
  simp only [tokens]
  rw [except_bind_ok_iff]
  refine exists_congr fun structs => and_congr_right fun resolved => ?_
  cases declared : (typedTopics ipc).entries with
  | nil =>
      rw [declared] at resolved
      cases resolved
      exact iff_of_true rfl rfl
  | cons e rest =>
      simp only [List.isEmpty_cons, Bool.false_eq_true, if_false, raise, native, if_true, output, bind,
        Except.bind]

/-- **The native layout check is exact**: the printed text is read back as the types it
prints, and a native service whose binary prints it, and which declares each topic once,
passes exactly if every declared type resolves and the first printed of its names is
printed with the layout of its struct. -/
theorem native_layout_check {types : List (String × Layout)} (distinct : (types.map Prod.fst).Nodup)
    {lines : List Line} (prints : Prints types lines) {out : List Char}
    (delimited : Delimited (lines.map Line.shown) out) :
    parseLayout out = .ok types ∧
      ∀ (text : Yaml → String) (stdout : List String → Except Exn (List Char)) (service : Scalar)
        (stanza ipc : YamlMap) (cmd : List Yaml),
        Yaml.lookup "ipc" stanza = some (.map ipc) → ((assignments ipc).map Prod.fst).Nodup →
        command ((Yaml.lookup "cmd" stanza).getD .null) = .ok cmd →
        isNative (binaryEnvironment text stdout) cmd = true →
        stdout (cmd.map (binaryEnvironment text stdout).str) = .ok out →
          (checkService (binaryEnvironment text stdout) service (.map stanza) = .ok () ↔
            ∀ e ∈ assignments ipc, ∃ declared S, e.2 = .str declared ∧ resolve e.2 = .ok S ∧
              PrintedExactly types declared S) := by
  have read := parseLayout_printed distinct prints delimited
  refine ⟨read, ?_⟩
  intro text stdout service stanza ipc cmd block once tokens native output
  have reported : (binaryEnvironment text stdout).reported
      (cmd.map (binaryEnvironment text stdout).str) = .ok types := by
    show (stdout _).bind parseLayout = _
    rw [output]
    exact read
  have entries : (typedTopics ipc).entries = assignments ipc := OrderedDict.entries_ofList _ once
  rw [checkService_iff block tokens native reported, entries]
  refine forall₂_congr fun e _ => ?_
  constructor
  · rintro ⟨S, resolved, same⟩
    obtain ⟨-, declared, -, named⟩ := resolve_ok_iff.mp resolved
    rw [named] at same
    exact ⟨declared, S, named, resolved, (reportedLayout_iff distinct).mp same⟩
  · rintro ⟨declared, S, named, resolved, printed⟩
    refine ⟨S, resolved, ?_⟩
    rw [named]
    exact (reportedLayout_iff distinct).mpr printed

namespace Demo

/-- What a binary that uses `GlobalConfig` prints, and a line of its own. -/
def configTypes : List (String × Layout) :=
  [("GlobalConfig", ⟨24, [("timestamp", 0, 8), ("frame_id", 8, 8), ("speed", 16, 8)]⟩)]

def configLines : List Line :=
  [.other "types:".toList, .type "GlobalConfig" 24, .field "timestamp" 0 8, .field "frame_id" 8 8,
    .other [], .field "speed" 16 8]

/-- Lines ended by newlines. -/
def ended (lines : List Line) : List Char := lines.flatMap fun line => line.shown ++ ['\n']

theorem delimited_ended (lines : List Line) : Delimited (lines.map Line.shown) (ended lines) := by
  induction lines with
  | nil => exact .none
  | cons line rest ih =>
      rw [ended, List.flatMap_cons, List.append_assoc]
      exact .ended line.shown (by decide) ih

/-- `{cmd: [/opt/robot], ipc: {blackboard: {writes: {param/live: GlobalConfig}}}}`. -/
def robotIpc : YamlMap :=
  [(.str "blackboard", .map [(.str "writes", .map [(.str "param/live", .str "GlobalConfig")])])]

def robot : YamlMap := [(.str "cmd", .seq [.str "/opt/robot"]), (.str "ipc", .map robotIpc)]

/-- `A`, with an indented line that names another type between it and its field. -/
def pairTypes : List (String × Layout) := [("A", ⟨8, [("x", 0, 8)]⟩)]

def indentedLines : List Line := [.type "A" 8, .other " TYPE B SIZE 4".toList, .field "x" 0 8]

theorem configLines_print : Prints configTypes configLines := by
  refine ⟨by decide, ?_⟩
  intro line mem
  simp only [configLines, List.mem_cons, List.not_mem_nil, or_false] at mem
  rcases mem with rfl | rfl | rfl | rfl | rfl | rfl
  · exact ⟨none_of_any (by decide), by decide, by decide⟩
  · exact ⟨isWord_of_any (by decide) (by decide), lt_maxStrDigits (by decide)⟩
  · exact ⟨isWord_of_any (by decide) (by decide), lt_maxStrDigits (by decide), lt_maxStrDigits (by decide)⟩
  · exact ⟨isWord_of_any (by decide) (by decide), lt_maxStrDigits (by decide), lt_maxStrDigits (by decide)⟩
  · exact ⟨none_of_any (by decide), by decide, by decide⟩
  · exact ⟨isWord_of_any (by decide) (by decide), lt_maxStrDigits (by decide), lt_maxStrDigits (by decide)⟩

end Demo

theorem native_layout_check_robot :
    parseLayout (Demo.ended Demo.configLines) = .ok Demo.configTypes ∧
      checkService (binaryEnvironment (fun _ => "") fun _ => .ok (Demo.ended Demo.configLines))
        (.str "robot") (.map Demo.robot) = .ok () := by
  have distinct : (Demo.configTypes.map Prod.fst).Nodup := by decide
  obtain ⟨read, check⟩ := native_layout_check distinct Demo.configLines_print (Demo.delimited_ended _)
  refine ⟨read, (check (fun _ => "") (fun _ => .ok (Demo.ended Demo.configLines)) (.str "robot") Demo.robot
    Demo.robotIpc [.str "/opt/robot"] rfl (by decide) rfl (by decide) rfl).mpr ?_⟩
  intro e mem
  obtain rfl := List.mem_singleton.mp (show e ∈ [(Key.str "param/live", Yaml.str "GlobalConfig")] from mem)
  refine ⟨"GlobalConfig", ⟨"GlobalConfig", none,
    [("timestamp", .double), ("frame_id", .uint 64), ("speed", .double)]⟩, rfl, by decide, ?_⟩
  exact ⟨[], "GlobalConfig", ["GlobalConfig", "GlobalConfig"], rfl, by simp, by decide⟩

/-- A line that starts with a blank is read as a type all the same. -/
theorem indented_type_read :
    (Demo.pairTypes.map Prod.fst).Nodup ∧ (∀ t ∈ Demo.pairTypes, IsWord t.1) ∧
      Demo.indentedLines.filter Line.ofLayout = Demo.pairTypes.flatMap linesOf ∧
      (∀ text, Line.other text ∈ Demo.indentedLines →
        ¬ "TYPE".toList <+: text ∧ ¬ "FIELD".toList <+: text ∧ ∀ c ∈ text, isBreak c = false) ∧
      Delimited (Demo.indentedLines.map Line.shown) (Demo.ended Demo.indentedLines) ∧
      parseLayout (Demo.ended Demo.indentedLines) = .ok [("A", ⟨8, []⟩), ("B", ⟨4, [("x", 0, 8)]⟩)] ∧
      parseLayout (Demo.ended Demo.indentedLines) ≠ .ok Demo.pairTypes := by
  have read : parseLayout (Demo.ended Demo.indentedLines) =
      .ok [("A", ⟨8, []⟩), ("B", ⟨4, [("x", 0, 8)]⟩)] := by rfl
  refine ⟨by decide, ?_, by decide, ?_, Demo.delimited_ended _, read, by rw [read]; simp [Demo.pairTypes]⟩
  · intro t mem
    obtain rfl := List.mem_singleton.mp mem
    exact isWord_of_any (by decide) (by decide)
  · intro text mem
    simp only [Demo.indentedLines, List.mem_cons, reduceCtorEq, Line.other.injEq, List.not_mem_nil, or_false,
      false_or] at mem
    subst mem
    exact ⟨by decide, by decide, none_of_any (by decide)⟩

end KoyuRuntime.Ipc.Checks
