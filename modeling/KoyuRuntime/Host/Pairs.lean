/-
# Host.Pairs — a line of `key="value"` pairs

The pairs are separated by commas.  A key goes up to the equals sign and has no comma and
no quote; a value is in double quotes and goes up to the next double quote, whatever else
it has in it.

* `plain_of_scan`: what is read has plain keys and no quote in a value.
* `scan_key_ok_iff`, `scan_value`: where a written key and a written value without quotes end.
* `error_of_unquoted`: a pair that is cut off before its closing quote cannot be read.
-/
import KoyuRuntime.Host.Exn
import KoyuRuntime.Theory.Raising

namespace KoyuRuntime.Host.Pairs

open Theory

set_option autoImplicit false

def doubleQuote : Char := Char.ofNat 34

/-- The characters that end a key. -/
def delimiters : List Char := ['=', ',', doubleQuote]

/-- Where the reader is: in a key, before the quote that opens its value, in the value,
or after the quote that closed it. -/
inductive State where
  | key (name : List Char)
  | equals (name : List Char)
  | value (name text : List Char)
  | closed

def scan : State → List Char → Except Exn (List (List Char × List Char))
  | .key _, [] => .error .valueError
  | .key name, c :: rest =>
      if c = '=' then scan (.equals name) rest
      else if c ∈ delimiters then .error .valueError
      else scan (.key (name ++ [c])) rest
  | .equals _, [] => .error .valueError
  | .equals name, c :: rest =>
      if c = doubleQuote then scan (.value name []) rest else .error .valueError
  -- No closing quote
  | .value _ _, [] => .error .valueError
  | .value name text, c :: rest =>
      if c = doubleQuote then do
        let more ← scan .closed rest
        pure ((name, text) :: more)
      else scan (.value name (text ++ [c])) rest
  | .closed, [] => .ok []
  | .closed, c :: rest => if c = ',' then scan (.key []) rest else .error .valueError

/-- The pairs of a text that has at least one. -/
def read (text : List Char) : Except Exn (List (List Char × List Char)) := scan (.key []) text

/-- A key that does not end early. -/
def PlainKey (name : List Char) : Prop := ∀ c ∈ name, c ∉ delimiters

/-- A text without the quote that would end it. -/
def Unquoted (text : List Char) : Prop := doubleQuote ∉ text

instance (name : List Char) : Decidable (PlainKey name) :=
  decidable_of_iff ((name.all fun c => decide (c ∉ delimiters)) = true) (by
    rw [List.all_eq_true]
    exact forall₂_congr fun _ _ => decide_eq_true_iff)

instance (text : List Char) : Decidable (Unquoted text) :=
  inferInstanceAs (Decidable (doubleQuote ∉ text))

/-- One written pair. -/
def shown (pair : List Char × List Char) : List Char :=
  pair.1 ++ '=' :: doubleQuote :: (pair.2 ++ [doubleQuote])

/-- Written pairs, with a comma before each. -/
def listed (pairs : List (List Char × List Char)) : List Char :=
  pairs.flatMap fun pair => ',' :: shown pair

theorem plainKey_nil : PlainKey [] := fun _ mem => absurd mem List.not_mem_nil

theorem plainKey_cons {c : Char} {name : List Char} :
    PlainKey (c :: name) ↔ c ∉ delimiters ∧ PlainKey name := List.forall_mem_cons

theorem PlainKey.snoc {name : List Char} {c : Char} (plain : PlainKey name)
    (ordinary : c ∉ delimiters) : PlainKey (name ++ [c]) := by
  intro d mem
  rcases List.mem_append.mp mem with inName | last
  · exact plain d inName
  · rw [List.mem_singleton.mp last]
    exact ordinary

theorem PlainKey.unquoted {name : List Char} (plain : PlainKey name) : Unquoted name :=
  fun mem => plain doubleQuote mem (by decide)

theorem unquoted_cons {c : Char} {text : List Char} :
    Unquoted (c :: text) ↔ c ≠ doubleQuote ∧ Unquoted text := by
  unfold Unquoted
  rw [List.mem_cons, not_or, ne_comm]

theorem Unquoted.append {l r : List Char} (left : Unquoted l) (right : Unquoted r) :
    Unquoted (l ++ r) := by
  intro mem
  rcases List.mem_append.mp mem with inL | inR
  · exact left inL
  · exact right inR

/-! ## What is read -/

/-- What a reader holds already, of the pair it is in. -/
def State.Good : State → Prop
  | .key name => PlainKey name
  | .equals name => PlainKey name
  | .value name text => PlainKey name ∧ Unquoted text
  | .closed => True

theorem plain_of_scan (state : State) {text : List Char} {pairs : List (List Char × List Char)}
    (done : scan state text = .ok pairs) (good : state.Good) :
    ∀ pair ∈ pairs, PlainKey pair.1 ∧ Unquoted pair.2 := by
  induction text generalizing state pairs with
  | nil =>
      cases state with
      | key name => cases done
      | equals name => cases done
      | value name text => cases done
      | closed =>
          cases done
          exact fun pair mem => absurd mem List.not_mem_nil
  | cons c rest ih =>
      cases state with
      | key name =>
          simp only [scan] at done
          split at done
          · exact ih (.equals name) done good
          · split at done
            · cases done
            · rename_i ordinary
              exact ih (.key (name ++ [c])) done (PlainKey.snoc good ordinary)
      | equals name =>
          simp only [scan] at done
          split at done
          · exact ih (.value name []) done ⟨good, List.not_mem_nil⟩
          · cases done
      | value name text =>
          simp only [scan] at done
          split at done
          · obtain ⟨more, later, same⟩ := except_bind_ok_iff.mp done
            cases same
            intro pair mem
            rcases List.mem_cons.mp mem with rfl | inMore
            · exact good
            · exact ih .closed later trivial pair inMore
          · rename_i ordinary
            apply ih (.value name (text ++ [c])) done
            refine ⟨good.1, ?_⟩
            apply Unquoted.append good.2
            exact unquoted_cons.mpr ⟨ordinary, List.not_mem_nil⟩
      | closed =>
          simp only [scan] at done
          split at done
          · exact ih (.key []) done plainKey_nil
          · cases done

/-! ## Reading what was written -/

/-- A key without a quote ends where it was written to end, or nowhere. -/
theorem scan_key_ok_iff {name : List Char} (unquoted : Unquoted name) (held rest : List Char)
    {pairs : List (List Char × List Char)} :
    scan (.key held) (name ++ '=' :: doubleQuote :: rest) = .ok pairs ↔
      PlainKey name ∧ scan (.value (held ++ name) []) rest = .ok pairs := by
  induction name generalizing held with
  | nil =>
      rw [List.append_nil, and_iff_right plainKey_nil]
      rfl
  | cons c name ih =>
      rw [unquoted_cons] at unquoted
      rw [plainKey_cons, List.cons_append, scan]
      by_cases equals : c = '='
      · -- the next character is another one of the key or the real equals sign, no quote
        have wrong : scan (.equals held) (name ++ '=' :: doubleQuote :: rest) = .error .valueError := by
          cases name with
          | nil => rfl
          | cons d more => exact if_neg (unquoted_cons.mp unquoted.2).1
        rw [if_pos equals, wrong, equals]
        simp [delimiters]
      · rw [if_neg equals]
        by_cases ends : c ∈ delimiters
        · rw [if_pos ends]
          simp [ends]
        · rw [if_neg ends, ih unquoted.2, List.append_assoc]
          simp [ends]

theorem scan_value {text : List Char} (unquoted : Unquoted text) (name held rest : List Char) :
    scan (.value name held) (text ++ doubleQuote :: rest) =
      scan .closed rest >>= fun more => pure ((name, held ++ text) :: more) := by
  induction text generalizing held with
  | nil =>
      rw [List.append_nil]
      rfl
  | cons c text ih =>
      rw [unquoted_cons] at unquoted
      rw [List.cons_append, scan, if_neg unquoted.1, ih unquoted.2, List.append_assoc]
      rfl

/-- Without another quote no pair is finished. -/
theorem error_of_unquoted {state : State} {text : List Char} (unquoted : Unquoted text)
    (inside : state ≠ .closed) : scan state text = .error .valueError := by
  induction text generalizing state with
  | nil =>
      cases state with
      | key name => rfl
      | equals name => rfl
      | value name text => rfl
      | closed => exact absurd rfl inside
  | cons c rest ih =>
      rw [unquoted_cons] at unquoted
      cases state with
      | key name =>
          rw [scan]
          split
          · exact ih unquoted.2 State.noConfusion
          · split
            · rfl
            · exact ih unquoted.2 State.noConfusion
      | equals name =>
          rw [scan, if_neg unquoted.1]
      | value name text =>
          rw [scan, if_neg unquoted.1]
          exact ih unquoted.2 State.noConfusion
      | closed => exact absurd rfl inside

end KoyuRuntime.Host.Pairs
