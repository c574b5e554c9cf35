/-
# Host.Json — JSON documents as `json.loads` returns them

Objects list their members; Python dicts have one value per key and `get?` reads
the one listed first.
-/
import KoyuRuntime.Host.Double

namespace KoyuRuntime.Host

set_option autoImplicit false

inductive Json where
  | null
  | bool (b : Bool)
  | int (i : Int)
  | float (x : Double)
  | str (s : String)
  | arr (items : List Json)
  | obj (members : List (String × Json))

/-- A JSON object: the shape of every request dropped into an inbox. -/
abbrev JsonObj := List (String × Json)

namespace JsonObj

/-- `req.get(key)`. -/
def get? (o : JsonObj) (key : String) : Option Json := Theory.OrderedDict.find key o

end JsonObj

namespace Json

/-- Python `value == text` for a JSON value and a `str`. -/
def eqStr : Json → String → Bool
  | .str s, text => decide (s = text)
  | _, _ => false

theorem eqStr_iff {j : Json} {text : String} : j.eqStr text = true ↔ j = .str text := by
  cases j <;> simp [eqStr]

end Json

end KoyuRuntime.Host
