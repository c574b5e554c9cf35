/-
# Cli.ContextText — the text of a recording context

`model_dump_json(indent=2)` writes one line for each field, in the order of the model,
with `null` for a field that is not set.  `readDump` takes such a text apart again;
pydantic also reads other layouts of the same object.

* `readDump_dumpJson`: every context is read back from its text.
-/
import KoyuRuntime.Cli.Context
import KoyuRuntime.Host.JsonText

namespace KoyuRuntime.Cli

open Host Services

set_option autoImplicit false

/-- `null`, or the text in quotes. -/
def valueText : Option String → List Char
  | none => "null".toList
  | some text => quoted text.toList

/-- What stands before the value of a field. -/
def beforeValue (f : Field) : List Char :=
  (if f = .task then '{' else ',') :: "\n  ".toList ++ quoted f.name.toList ++ ": ".toList

def fieldsText (ctx : RecordingContext) (fs : List Field) : List Char :=
  fs.flatMap fun f => beforeValue f ++ valueText (f.get ctx)

/-- `context.model_dump_json(indent=2)`. -/
def dumpJson (ctx : RecordingContext) : String := String.ofList (fieldsText ctx Field.all ++ "\n\x7d".toList)

def readValue (text : List Char) : Option (Option String × List Char) :=
  match text.dropPrefix? "null".toList with
  | some rest => some (none, rest)
  | none => (readQuoted text).map fun read => (some (String.ofList read.1), read.2)

/-- The values of the fields, put into a context, and what follows them. -/
def readFields : List Field → RecordingContext → List Char → Option (RecordingContext × List Char)
  | [], ctx, text => some (ctx, text)
  | f :: rest, ctx, text => do
      let text ← text.dropPrefix? (beforeValue f)
      let (value, text) ← readValue text
      readFields rest (f.put value ctx) text

/-- A context from a text that `dumpJson` has written. -/
def readDump (text : String) : Option RecordingContext :=
  match readFields Field.all {} text.toList with
  | some (ctx, rest) => if rest = "\n\x7d".toList then some ctx else none
  | none => none

theorem dropPrefix_append (l r : List Char) : (l ++ r).dropPrefix? l = some r :=
  List.dropPrefix?_eq_some_iff.mpr ⟨l, rfl, by simp⟩

theorem readValue_valueText (value : Option String) (rest : List Char) :
    readValue (valueText value ++ rest) = some (value, rest) := by
  cases value with
  | none => rw [readValue, valueText, dropPrefix_append]
  | some text =>
      have noNull : (valueText (some text) ++ rest).dropPrefix? "null".toList = none := rfl
      rw [readValue, noNull, valueText, readQuoted_quoted]
      simp

/-- The fields that were written are put into the context. -/
theorem readFields_fieldsText (ctx acc : RecordingContext) (fs : List Field) (rest : List Char) :
    readFields fs acc (fieldsText ctx fs ++ rest) =
      some (fs.foldl (fun acc f => f.put (f.get ctx) acc) acc, rest) := by
  induction fs generalizing acc with
  | nil => rfl
  | cons f more ih =>
      have split : fieldsText ctx (f :: more) ++ rest =
          beforeValue f ++ (valueText (f.get ctx) ++ (fieldsText ctx more ++ rest)) := by
        simp [fieldsText]
      rw [split, readFields, dropPrefix_append]
      simp only [Option.bind_eq_bind, Option.bind_some, readValue_valueText]
      exact ih _

theorem put_all (ctx : RecordingContext) : Field.all.foldl (fun acc f => f.put (f.get ctx) acc) {} = ctx := by
  cases ctx
  rfl

/-- **Every context is read back** from its text. -/
theorem readDump_dumpJson (ctx : RecordingContext) : readDump (dumpJson ctx) = some ctx := by
  have read := readFields_fieldsText ctx {} Field.all "\n\x7d".toList
  rw [put_all] at read
  simp only [readDump, dumpJson, String.toList_ofList, read, if_true]

end KoyuRuntime.Cli
