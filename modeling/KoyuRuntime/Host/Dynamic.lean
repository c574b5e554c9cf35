/-
# Host.Dynamic — what Python does with a JSON value of any shape

A service that reads a document from outside applies Python's operators to whatever
it finds there: `.get`, `in`, indexing, `<=`, truth.  Each raises on the shapes it is
not defined for (`TypeError`, `AttributeError`, `KeyError`).

Numbers compare by value, an integer and a float exactly; lists compare at their first
difference; `==` never raises.  `json.loads` refuses an integer of more digits than
`sys.get_int_max_str_digits()` with a `ValueError` that is no `JSONDecodeError`.
-/
import KoyuRuntime.Host.Json
import Mathlib.Data.String.Basic
import Mathlib.Data.List.Infix

namespace KoyuRuntime.Host

set_option autoImplicit false

namespace Double

/-- `x <= y`; every comparison with a NaN is false. -/
def le : Double → Double → Bool
  | .nan, _ => false
  | _, .nan => false
  | .inf negative, .inf negative' => negative || !negative'
  | .inf negative, .fin _ => negative
  | .fin _, .inf negative => !negative
  | .fin x, .fin y => decide (x ≤ y)

/-- `x == y`. -/
def eq (x y : Double) : Bool := x.le y && y.le x

end Double

/-- `sys.get_int_max_str_digits()`. -/
def maxStrDigits : Nat := 4300

theorem lt_maxStrDigits {n : Nat} (small : n < 10 ^ 4) : n < 10 ^ maxStrDigits := by
  have room : 4 ≤ maxStrDigits := by decide
  -- no step may evaluate the power
  generalize maxStrDigits = digits at room ⊢
  exact Nat.lt_of_lt_of_le small (Nat.pow_le_pow_right (by decide) room)

namespace Json

/-- The number a value takes part in arithmetic as; a `bool` is one. -/
def number? : Json → Option Double
  | .bool b => some (.fin (if b then 1 else 0))
  | .int i => some (.fin i)
  | .float x => some x
  | _ => none

/-- `bool(value)`. -/
def truthy : Json → Bool
  | .null => false
  | .bool b => b
  | .int i => decide (i ≠ 0)
  | .float x => x.truthy
  | .str s => decide (s ≠ "")
  | .arr items => !items.isEmpty
  | .obj members => !members.isEmpty

/-- Can the value be looked up in a dict? -/
def hashable : Json → Bool
  | .arr _ => false
  | .obj _ => false
  | _ => true

/-- The one NaN `json.loads` hands out is identical with itself. -/
def sameNan : Json → Json → Bool
  | .float .nan, .float .nan => true
  | _, _ => false

mutual

/-- `a == b`. -/
def pyEq : Json → Json → Bool
  | .null, b => match b with
    | .null => true
    | _ => false
  | .str s, b => b.eqStr s
  | .arr items, b => match b with
    | .arr others => eqItems items others
    | _ => false
  | .obj members, b => match b with
    | .obj others => decide (members.length = others.length) && eqMembers members others
    | _ => false
  | .bool x, b => match b.number? with
    | some y => Double.eq (.fin (if x then 1 else 0)) y
    | none => false
  | .int i, b => match b.number? with
    | some y => Double.eq (.fin i) y
    | none => false
  | .float x, b => match b.number? with
    | some y => Double.eq x y
    | none => false

def eqItems : List Json → List Json → Bool
  | [], others => others.isEmpty
  | x :: rest, others => match others with
    | [] => false
    | y :: others => (pyEq x y || sameNan x y) && eqItems rest others

def eqMembers : List (String × Json) → List (String × Json) → Bool
  | [], _ => true
  | (key, x) :: rest, others =>
      (match JsonObj.get? others key with
        | some y => pyEq x y || sameNan x y
        | none => false) && eqMembers rest others

end

mutual

/-- `a <= b`. -/
def le : Json → Json → Except Exn Bool
  | .str s, b => match b with
    | .str text => .ok (decide (s ≤ text))
    | _ => .error .typeError
  | .arr items, b => match b with
    | .arr others => leItems items others
    | _ => .error .typeError
  | .null, _ => .error .typeError
  | .obj _, _ => .error .typeError
  | .bool x, b => match b.number? with
    | some y => .ok (Double.le (.fin (if x then 1 else 0)) y)
    | none => .error .typeError
  | .int i, b => match b.number? with
    | some y => .ok (Double.le (.fin i) y)
    | none => .error .typeError
  | .float x, b => match b.number? with
    | some y => .ok (x.le y)
    | none => .error .typeError

/-- Lists compare at the first items that differ. -/
def leItems : List Json → List Json → Except Exn Bool
  | [], _ => .ok true
  | x :: rest, others => match others with
    | [] => .ok false
    | y :: others => if pyEq x y || sameNan x y then leItems rest others else le x y

end

/-- `value.get(key)`: a missing key reads `None`. -/
def get (value key : Json) : Except Exn Json :=
  match value with
  | .obj members =>
      match key with
      | .str k => .ok ((JsonObj.get? members k).getD .null)
      | .arr _ => .error .typeError
      | .obj _ => .error .typeError
      | _ => .ok .null
  | _ => .error .attributeError

/-- `word in value`. -/
def contains (value : Json) (word : String) : Except Exn Bool :=
  match value with
  | .obj members => .ok (JsonObj.get? members word).isSome
  | .arr items => .ok (items.any fun item => item.eqStr word)
  | .str s => .ok (decide (word.toList <:+: s.toList))
  | _ => .error .typeError

/-- `value[key]`. -/
def item (value : Json) (key : String) : Except Exn Json :=
  match value with
  | .obj members =>
      match JsonObj.get? members key with
      | some found => .ok found
      | none => .error (.keyError key)
  | _ => .error .typeError

mutual

/-- Does every integer stay within the digits `int(text)` accepts? -/
def withinDigits : Json → Bool
  | .int i => decide (i.natAbs < 10 ^ maxStrDigits)
  | .arr items => allWithinDigits items
  | .obj members => membersWithinDigits members
  | .null => true
  | .bool _ => true
  | .float _ => true
  | .str _ => true

def allWithinDigits : List Json → Bool
  | [] => true
  | x :: rest => withinDigits x && allWithinDigits rest

def membersWithinDigits : List (String × Json) → Bool
  | [] => true
  | (_, x) :: rest => withinDigits x && membersWithinDigits rest

end

/-- `json.loads` of the text of a document. -/
def loads (document : Json) : Except Exn Json :=
  if document.withinDigits then .ok document else .error .valueError

theorem loads_ok_iff {document read : Json} :
    document.loads = .ok read ↔ document.withinDigits = true ∧ read = document := by
  unfold loads
  by_cases digits : document.withinDigits = true
  · rw [if_pos digits, Except.ok.injEq]
    exact ⟨fun same => ⟨digits, same.symm⟩, fun both => both.2.symm⟩
  · rw [if_neg digits]
    exact ⟨fun raised => (by cases raised), fun both => absurd both.1 digits⟩

end Json

namespace JsonObj

theorem get?_put (key q : String) (val : Json) (members : JsonObj) :
    get? (Theory.OrderedDict.put key val members) q = if key = q then some val else get? members q :=
  Theory.OrderedDict.find_put key q val members

end JsonObj

end KoyuRuntime.Host
