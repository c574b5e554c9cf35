/-
# Host.Yaml — what `yaml.safe_load` returns, and how Python looks into it

A document is a scalar, a list or a dict whose keys are scalars.  Scalars that compare
equal are one dict key: `1`, `1.0` and `true` are.  Documents with explicit tags
(`!!binary`, `!!set`, ...) are not modelled.

`value.get(name)` raises on anything but a dict; `value or {}` replaces every false
value by an empty dict.
-/
import KoyuRuntime.Host.Double
import KoyuRuntime.Theory.OrderedDict

namespace KoyuRuntime.Host

open Theory

set_option autoImplicit false

/-- A timestamp is a `date`, or a `datetime` without or with a time zone. -/
inductive StampKind where
  | date
  | naive
  | aware
  deriving DecidableEq, Repr

inductive Scalar where
  | null
  | bool (b : Bool)
  | int (i : Int)
  | float (x : Double)
  | str (s : String)
  | stamp (kind : StampKind) (text : String)
  deriving DecidableEq

/-- A scalar as a dict key: numbers by their value. -/
inductive Key where
  | null
  | number (x : Double)
  | str (s : String)
  | stamp (kind : StampKind) (text : String)
  deriving DecidableEq

def Scalar.key : Scalar → Key
  | .null => .null
  | .bool b => .number (.fin (if b then 1 else 0))
  | .int i => .number (.fin i)
  | .float x => .number x
  | .str s => .str s
  | .stamp kind text => .stamp kind text

@[simp] theorem Scalar.key_eq_str {t : Scalar} {s : String} : t.key = .str s ↔ t = .str s := by
  cases t <;> simp [Scalar.key]

inductive Yaml where
  | scalar (s : Scalar)
  | seq (items : List Yaml)
  | map (entries : List (Scalar × Yaml))

/-- The entries of a dict. -/
abbrev YamlMap := List (Scalar × Yaml)

namespace Yaml

@[match_pattern] abbrev null : Yaml := .scalar .null

@[match_pattern] abbrev str (s : String) : Yaml := .scalar (.str s)

/-- `bool(value)`. -/
def truthy : Yaml → Bool
  | .scalar .null => false
  | .scalar (.bool b) => b
  | .scalar (.int i) => decide (i ≠ 0)
  | .scalar (.float x) => x.truthy
  | .scalar (.str s) => decide (s ≠ "")
  | .scalar (.stamp _ _) => true
  | .seq items => !items.isEmpty
  | .map entries => !entries.isEmpty

/-- The value a dict has under a text. -/
def lookup (name : String) : YamlMap → Option Yaml
  | [] => none
  | (key, value) :: rest => if key = .str name then some value else lookup name rest

/-- `value.get(name)`. -/
def get (value : Yaml) (name : String) : Except Exn Yaml :=
  match value with
  | .map entries => .ok ((lookup name entries).getD .null)
  | _ => .error .attributeError

/-- `value.items()`. -/
def items (value : Yaml) : Except Exn YamlMap :=
  match value with
  | .map entries => .ok entries
  | _ => .error .attributeError

/-- `value or {}`. -/
def orEmpty (value : Yaml) : Yaml := if value.truthy then value else .map []

/-- Nothing, or a dict. -/
def MapOrFalse (value : Yaml) : Prop := value.truthy = false ∨ ∃ entries, value = .map entries

/-- The entries of `value or {}`, for a dict or a false value. -/
def entries (value : Yaml) : YamlMap :=
  match value with
  | .map entries => entries
  | _ => []

theorem mem_of_lookup {name : String} {m : YamlMap} {value : Yaml}
    (found : lookup name m = some value) : (.str name, value) ∈ m := by
  induction m with
  | nil => cases found
  | cons e rest ih =>
      obtain ⟨key, v⟩ := e
      simp only [lookup] at found
      split at found
      · rename_i same
        cases found
        rw [same]
        exact List.mem_cons_self
      · exact List.mem_cons_of_mem _ (ih found)

/-- `value or {}` is a dict exactly for a dict or a false value. -/
theorem orEmpty_eq_map {value : Yaml} {m : YamlMap} :
    value.orEmpty = .map m ↔ value.MapOrFalse ∧ m = value.entries := by
  unfold orEmpty MapOrFalse
  cases value with
  | scalar s =>
      cases true_ : truthy (.scalar s) with
      | true => simp
      | false => simp [entries, eq_comm]
  | seq items =>
      cases true_ : truthy (.seq items) with
      | true => simp
      | false => simp [entries, eq_comm]
  | map es =>
      cases es with
      | nil => simp [truthy, entries, eq_comm]
      | cons e rest => simp [truthy, entries, eq_comm]

theorem items_orEmpty {value : Yaml} {m : YamlMap} :
    value.orEmpty.items = .ok m ↔ value.MapOrFalse ∧ m = value.entries := by
  rw [← orEmpty_eq_map]
  cases value.orEmpty <;> simp [items]

/-- `value.get(name)`, for a dict or a false value. -/
def at_ (value : Yaml) (name : String) : Yaml := (lookup name value.entries).getD .null

theorem get_orEmpty {value found : Yaml} {name : String} :
    value.orEmpty.get name = .ok found ↔ value.MapOrFalse ∧ found = value.at_ name := by
  have only : value.orEmpty.get name = .ok found ↔
      ∃ m, value.orEmpty = .map m ∧ found = (lookup name m).getD .null := by
    cases value.orEmpty <;> simp [get, eq_comm]
  rw [only]
  simp only [orEmpty_eq_map]
  constructor
  · rintro ⟨m, ⟨fits, rfl⟩, same⟩
    exact ⟨fits, same⟩
  · rintro ⟨fits, same⟩
    exact ⟨_, ⟨fits, rfl⟩, same⟩

/-- A dict is found only in a dict. -/
theorem at_eq_map {value : Yaml} {name : String} {m : YamlMap} (found : value.at_ name = .map m) :
    ∃ es, value = .map es ∧ lookup name es = some (.map m) := by
  unfold at_ at found
  cases value with
  | scalar s => cases found
  | seq items => cases found
  | map es =>
      cases here : lookup name es with
      | none => simp [entries, here] at found
      | some v => exact ⟨es, rfl, by simpa [entries, here] using found⟩

theorem eq_map_of_mem {value : Yaml} {e : Scalar × Yaml} (mem : e ∈ value.entries) :
    value = .map value.entries := by
  cases value with
  | scalar s => cases mem
  | seq items => cases mem
  | map es => rfl

end Yaml

end KoyuRuntime.Host
