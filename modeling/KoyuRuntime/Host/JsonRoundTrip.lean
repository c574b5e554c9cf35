/-
# Host.JsonRoundTrip — what `json.dumps` writes, `json.loads` reads

A document that Python can hold has one value for each key, floats that are doubles, and integers
that print.  Between its parts the writer puts blanks only where the scanner skips them, and after a
value only what no number goes on with.

* `loads_dumpAt`: such a document is read back from what is written of it, with any indent.
* `loads_proper`, `loads_again`: whatever is read is one, so it can be written, with any indent, and
  read again.
-/
import KoyuRuntime.Host.JsonTokens

namespace KoyuRuntime.Host

open Theory

set_option autoImplicit false

/-! ## Documents -/

section Proper

variable (format : FloatFormat)

mutual

/-- A document that Python can hold: one value for each key, doubles, and integers that print. -/
def Proper : Json → Prop
  | .null => True
  | .bool _ => True
  | .int i => Readable i
  | .float x =>
      match x with
      | .fin q => format.exact q
      | _ => True
  | .str _ => True
  | .arr items => ItemsProper items
  | .obj members => (members.map Prod.fst).Nodup ∧ MembersProper members

def ItemsProper : List Json → Prop
  | [] => True
  | item :: rest => Proper item ∧ ItemsProper rest

def MembersProper : List (String × Json) → Prop
  | [] => True
  | (_, value) :: rest => Proper value ∧ MembersProper rest

end

end Proper

/-! ## The front of a text -/

/-- A value begins here, and no bracket is closed. -/
def Front (text : List Char) : Prop :=
  ∃ c more, text = c :: more ∧ blank c = false ∧ c ≠ ']' ∧ c ≠ '\x7d'

/-- It is a number or a word. -/
def Atomic (text : List Char) : Prop :=
  ∃ c more, text = c :: more ∧ blank c = false ∧ c ∉ ['"', '[', ']', '\x7b', '\x7d']

theorem Front.append {text : List Char} (front : Front text) (rest : List Char) : Front (text ++ rest) := by
  obtain ⟨c, more, rfl, at_⟩ := front
  exact ⟨c, more ++ rest, rfl, at_⟩

theorem Atomic.append {text : List Char} (atomic : Atomic text) (rest : List Char) : Atomic (text ++ rest) := by
  obtain ⟨c, more, rfl, at_⟩ := atomic
  exact ⟨c, more ++ rest, rfl, at_⟩

theorem Atomic.front {text : List Char} (atomic : Atomic text) : Front text := by
  obtain ⟨c, more, rfl, dark, other⟩ := atomic
  simp only [List.mem_cons, List.not_mem_nil, or_false, not_or] at other
  exact ⟨c, more, rfl, dark, other.2.2.1, other.2.2.2.2⟩

theorem front_quoted (text : String) : Front (asciiQuoted text) :=
  ⟨'"', text.toList.flatMap asciiEscape ++ ['"'], rfl, by decide, by decide, by decide⟩

theorem front_separated {part : List Char} (front : Front part) (sep : List Char) (rest : List (List Char)) :
    Front (separated sep (part :: rest)) := by
  cases rest with
  | nil => exact front
  | cons next more =>
      rw [separated, List.append_assoc]
      · exact front.append _
      · exact List.cons_ne_nil _ _

theorem skip_front (gap : List Char) {text : List Char} (blanks : ∀ c ∈ gap, blank c = true) (front : Front text) :
    skip (gap ++ text) = text := by
  obtain ⟨c, more, rfl, dark, -⟩ := front
  unfold skip
  rw [List.dropWhile_append_of_pos blanks, List.dropWhile_cons_of_neg (by simp [dark])]

theorem Front.eat {text : List Char} (front : Front text) :
    eat ']' text = none ∧ Host.eat '\x7d' text = none := by
  obtain ⟨c, more, rfl, -, noBracket, noBrace⟩ := front
  exact ⟨if_neg noBracket, if_neg noBrace⟩

/-- A digit, or a minus and a digit, begins a number. -/
theorem number_front {text : List Char} {read : Number × List Char} (found : scanNumber text = some read) :
    ∃ d more, d.isDigit = true ∧ (text = d :: more ∨ text = '-' :: d :: more) := by
  have whole : ∀ {t : List Char} {read}, scanWhole t = some read → ∃ d more, d.isDigit = true ∧ t = d :: more := by
    intro t read there
    cases t with
    | nil => cases there
    | cons d more =>
        refine ⟨d, more, ?_, rfl⟩
        rw [scanWhole] at there
        split at there
        · rename_i zero
          rw [zero]
          decide
        · split at there
          · assumption
          · cases there
  simp only [scanNumber] at found
  split at found
  · cases found
  · rename_i digits rest there
    obtain ⟨d, more, digit, same⟩ := whole there
    cases text with
    | nil => cases same
    | cons c tail =>
        rw [scanSign] at same
        split at same
        · rename_i minus
          exact ⟨d, more, digit, .inr (by rw [minus, ← same])⟩
        · exact ⟨d, more, digit, .inl same⟩

theorem atomic_number {text : List Char} {read : Number × List Char} (found : scanNumber text = some read) :
    Atomic text ∧ scanLiteral text = none := by
  obtain ⟨d, more, digit, shape⟩ := number_front found
  have other : ∀ c : Char, c.isDigit = false → d ≠ c := by
    rintro c noDigit rfl
    rw [digit] at noDigit
    cases noDigit
  have word : ∀ c : Char, c.isDigit = false → (d == c) = false := fun c noDigit => by
    simpa using other c noDigit
  have dark : blank d = false := by
    simp only [blank, word ' ' (by decide), word '\t' (by decide), word '\n' (by decide), word '\r' (by decide),
      Bool.or_false]
  rcases shape with rfl | rfl
  · refine ⟨⟨d, more, rfl, dark, ?_⟩, ?_⟩
    · simp only [List.mem_cons, List.not_mem_nil, or_false, not_or]
      exact ⟨other _ (by decide), other _ (by decide), other _ (by decide), other _ (by decide), other _ (by decide)⟩
    · simp [scanLiteral, literals, List.dropPrefix?, word 'n' (by decide), word 't' (by decide),
        word 'f' (by decide), word 'N' (by decide), word 'I' (by decide), word '-' (by decide)]
  · refine ⟨⟨'-', d :: more, rfl, by decide, by decide⟩, ?_⟩
    simp [scanLiteral, literals, List.dropPrefix?, word 'I' (by decide)]

theorem scanLiteral_word {word : List Char} {value : Json} (known : (word, value) ∈ literals) (rest : List Char) :
    scanLiteral (word ++ rest) = some (value, rest) := by
  simp only [literals, List.mem_cons, List.not_mem_nil, or_false, Prod.mk.injEq] at known
  rcases known with ⟨rfl, rfl⟩ | ⟨rfl, rfl⟩ | ⟨rfl, rfl⟩ | ⟨rfl, rfl⟩ | ⟨rfl, rfl⟩ | ⟨rfl, rfl⟩ <;>
    simp [scanLiteral, literals, List.dropPrefix?]

/-! ## Round trip -/

section RoundTrip

variable {format : FloatFormat} {indent : Option Nat}

theorem scanValue_atomic {text : List Char} (atomic : Atomic text) (fuel : Nat) :
    scanValue format (fuel + 1) text = scanAtom format text := by
  obtain ⟨c, more, rfl, -, other⟩ := atomic
  simp only [List.mem_cons, List.not_mem_nil, or_false, not_or] at other
  obtain ⟨quote, bracket, -, brace, -⟩ := other
  rw [scanValue]
  simp only [eat, if_neg quote, if_neg bracket, if_neg brace]

theorem scanAtom_number {text rest : List Char} (ends : Ends rest) {n : Number}
    (found : scanNumber text = some (n, [])) {value : Json} (stands : n.value format = .ok value) :
    scanAtom format (text ++ rest) = .ok (value, rest) := by
  have whole := scanNumber_append ends found
  rw [scanAtom, (atomic_number whole).2]
  simp only [whole, stands]
  rfl

/-- A written value is read back, whatever follows it. -/
structure ReadsBack (format : FloatFormat) (indent : Option Nat) (value : Json) : Prop where
  front : ∀ level, Front (dumpAt format.toFloatRepr indent level value)
  reads : ∀ level {fuel rest}, Ends rest →
    2 * (dumpAt format.toFloatRepr indent level value ++ rest).length < fuel →
    scanValue format fuel (dumpAt format.toFloatRepr indent level value ++ rest) = .ok (value, rest)

/-- A word or a number reads back. -/
theorem ReadsBack.atom {value : Json} {text : List Char}
    (written : ∀ level, dumpAt format.toFloatRepr indent level value = text) (atomic : Atomic text)
    (reads : ∀ rest, Ends rest → scanAtom format (text ++ rest) = .ok (value, rest)) :
    ReadsBack format indent value := by
  refine ⟨fun level => by rw [written]; exact atomic.front, ?_⟩
  intro level fuel rest ends enough
  rw [written] at enough ⊢
  cases fuel with
  | zero => cases enough
  | succ fuel => rw [scanValue_atomic (atomic.append rest), reads rest ends]

theorem ReadsBack.word {value : Json} (word : List Char) (known : (word, value) ∈ literals)
    (written : ∀ level, dumpAt format.toFloatRepr indent level value = word) : ReadsBack format indent value := by
  have atomic : ∀ l ∈ literals, Atomic l.1 := by
    intro l mem
    simp only [literals, List.mem_cons, List.not_mem_nil, or_false] at mem
    rcases mem with rfl | rfl | rfl | rfl | rfl | rfl <;> exact ⟨_, _, rfl, by decide, by decide⟩
  refine .atom written (atomic _ known) fun rest _ => ?_
  rw [scanAtom, scanLiteral_word known]

theorem readsBack_int {i : Int} (readable : Readable i) : ReadsBack format indent (.int i) := by
  have number := scanNumber_intText i
  refine .atom (fun _ => by rw [dumpAt]) (atomic_number number).1 fun rest ends => ?_
  refine scanAtom_number ends number ?_
  have noFloat : (intNumber i).isFloat = false := rfl
  simp only [Number.value, noFloat, intNumber_text, intOfText_intText readable]
  rfl

theorem readsBack_float {x : Double} (double : Proper format (.float x)) : ReadsBack format indent (.float x) := by
  cases x with
  | nan =>
      exact .word ['N', 'a', 'N'] (by simp [literals]) fun _ => by
        rw [dumpAt, format.nan]
        rfl
  | inf negative =>
      cases negative with
      | false =>
          exact .word ['I', 'n', 'f', 'i', 'n', 'i', 't', 'y'] (by simp [literals]) fun _ => by
            rw [dumpAt, format.inf]
            rfl
      | true =>
          exact .word ['-', 'I', 'n', 'f', 'i', 'n', 'i', 't', 'y'] (by simp [literals]) fun _ => by
            rw [dumpAt, format.inf]
            rfl
  | fin q =>
      rw [Proper] at double
      obtain ⟨n, number, float⟩ := format.written double
      refine .atom (fun _ => by rw [dumpAt]) (atomic_number number).1 fun rest ends => ?_
      refine scanAtom_number ends number ?_
      have whole : n.text = format.text (.fin q) := (List.append_nil _).symm.trans (scanNumber_text number)
      rw [Number.value, if_pos float, whole, format.readBack double]

theorem readsBack_str (s : String) : ReadsBack format indent (.str s) := by
  refine ⟨fun level => by rw [dumpAt]; exact front_quoted s, ?_⟩
  intro level fuel rest ends enough
  rw [dumpAt] at enough ⊢
  cases fuel with
  | zero => cases enough
  | succ fuel =>
      have text : asciiQuoted s ++ rest = '"' :: (s.toList.flatMap asciiEscape ++ '"' :: rest) := by
        simp [asciiQuoted]
      rw [text, scanValue, eat_eq_some.mpr rfl]
      simp only [scanString_text, String.ofList_toList]

theorem blank_lineBreak (level : Nat) : ∀ c ∈ lineBreak indent level, blank c = true := by
  intro c mem
  cases indent with
  | none => cases mem
  | some width =>
      rcases List.mem_cons.mp mem with rfl | inside
      · decide
      · rw [List.eq_of_mem_replicate inside]
        decide

/-- A comma, and blanks. -/
theorem comma_gap (indent : Option Nat) (level : Nat) :
    ∃ gap, comma indent level = ',' :: gap ∧ ∀ c ∈ gap, blank c = true := by
  cases indent with
  | none => exact ⟨[' '], rfl, List.all_eq_true.mp rfl⟩
  | some width => exact ⟨lineBreak (some width) level, rfl, blank_lineBreak level⟩

theorem ends_comma (text : List Char) : Ends (',' :: text) := by
  intro c mem
  cases mem
  decide

theorem ends_close {c : Char} (bracket : c = ']' ∨ c = '\x7d') {gap : List Char}
    (blanks : ∀ d ∈ gap, blank d = true) (rest : List Char) : Ends (gap ++ c :: rest) := by
  intro d mem
  cases gap with
  | nil =>
      cases mem
      rcases bracket with rfl | rfl <;> decide
  | cons e more =>
      cases mem
      have isBlank := blanks d List.mem_cons_self
      simp only [blank, Bool.or_eq_true, beq_iff_eq] at isBlank
      rcases isBlank with ((rfl | rfl) | rfl) | rfl <;> decide

theorem skip_dark {c : Char} (dark : blank c = false) (gap : List Char) (blanks : ∀ d ∈ gap, blank d = true)
    (rest : List Char) : skip (gap ++ c :: rest) = c :: rest := by
  unfold skip
  rw [List.dropWhile_append_of_pos blanks, List.dropWhile_cons_of_neg (by simp [dark])]

section Parts

variable {gap close : List Char} (blanks : ∀ c ∈ gap, blank c = true) (blanks' : ∀ c ∈ close, blank c = true)

include blanks in
theorem scanItems_more {fuel : Nat} {text more : List Char} {before : List Json} {item : Json} (front : Front more)
    (here : scanValue format fuel text = .ok (item, ',' :: (gap ++ more))) :
    scanItems format (fuel + 1) before text = scanItems format fuel (before ++ [item]) more := by
  have comma : skip (',' :: (gap ++ more)) = ',' :: (gap ++ more) := skip_dark rfl [] nofun _
  rw [scanItems, here]
  simp only [comma, eat_eq_some.mpr rfl, skip_front gap blanks front]

include blanks' in
theorem scanItems_last {fuel : Nat} {text rest : List Char} {before : List Json} {item : Json}
    (here : scanValue format fuel text = .ok (item, close ++ ']' :: rest)) :
    scanItems format (fuel + 1) before text = .ok (.arr (before ++ [item]), rest) := by
  rw [scanItems, here]
  simp only [skip_dark (show blank ']' = false from rfl) close blanks']
  rfl

include blanks blanks' in
/-- **The items of a list** are read one after the other. -/
theorem scanItems_parts (level : Nat) (rest : List Char) {items : List Json} (some_ : items ≠ [])
    (each : ∀ item ∈ items, ReadsBack format indent item) {before : List Json} {fuel : Nat}
    (enough : 2 * (separated (',' :: gap) (dumpItems format.toFloatRepr indent level items) ++
      (close ++ ']' :: rest)).length + 1 < fuel) :
    scanItems format fuel before
      (separated (',' :: gap) (dumpItems format.toFloatRepr indent level items) ++ (close ++ ']' :: rest)) =
        .ok (.arr (before ++ items), rest) := by
  induction items generalizing before fuel with
  | nil => exact absurd rfl some_
  | cons item more ih =>
      have here := each item List.mem_cons_self
      cases fuel with
      | zero => cases enough
      | succ fuel =>
          cases more with
          | nil =>
              simp only [dumpItems, separated] at enough ⊢
              exact scanItems_last blanks' (here.reads level (ends_close (.inl rfl) blanks' rest) (by omega))
          | cons next others =>
              have front : Front (separated (',' :: gap)
                  (dumpItems format.toFloatRepr indent level (next :: others))) := by
                rw [dumpItems]
                exact front_separated ((each next (by simp)).front level) _ _
              have parts : ∀ tail, separated (',' :: gap)
                  (dumpItems format.toFloatRepr indent level (item :: next :: others)) ++ tail =
                    dumpAt format.toFloatRepr indent level item ++ ',' :: (gap ++ (separated (',' :: gap)
                      (dumpItems format.toFloatRepr indent level (next :: others)) ++ tail)) := by
                simp [dumpItems, separated]
              rw [parts] at enough ⊢
              rw [scanItems_more blanks (front.append _) (here.reads level (ends_comma _) (by omega)),
                ih (by simp) (fun i mem => each i (List.mem_cons_of_mem _ mem)), List.append_assoc,
                List.singleton_append]
              rw [List.length_append, List.length_cons, List.length_append] at enough
              omega

variable {value : Json} {key : String} {text : List Char} {members : OrderedDict String Json}

/-- The key of a member. -/
theorem scanMembers_key (key : String) (text : List Char) :
    (eat '"' (asciiQuoted key ++ text)).bind scanString = some (key.toList, text) := by
  have quoted : asciiQuoted key ++ text = '"' :: (key.toList.flatMap asciiEscape ++ '"' :: text) := by
    simp [asciiQuoted]
  rw [quoted, eat_eq_some.mpr rfl]
  exact scanString_text key.toList text

include blanks in
theorem scanMembers_more {fuel : Nat} {more : List Char} (front : Front more) (front' : Front text)
    (here : scanValue format fuel text = .ok (value, ',' :: (gap ++ more))) :
    scanMembers format (fuel + 1) members (asciiQuoted key ++ ':' :: ' ' :: text) =
      scanMembers format fuel (members.set key value) more := by
  have comma : skip (',' :: (gap ++ more)) = ',' :: (gap ++ more) := skip_dark rfl [] nofun _
  have colon : skip (':' :: ' ' :: text) = ':' :: ' ' :: text := skip_dark rfl [] nofun _
  have blank_ : skip (' ' :: text) = text := skip_front [' '] (List.all_eq_true.mp rfl) front'
  rw [scanMembers, scanMembers_key]
  simp only [colon, eat_eq_some.mpr rfl, blank_, here, comma, skip_front gap blanks front, String.ofList_toList]

include blanks' in
theorem scanMembers_last {fuel : Nat} {rest : List Char} (front' : Front text)
    (here : scanValue format fuel text = .ok (value, close ++ '\x7d' :: rest)) :
    scanMembers format (fuel + 1) members (asciiQuoted key ++ ':' :: ' ' :: text) =
      .ok (.obj (members.set key value).entries, rest) := by
  have colon : skip (':' :: ' ' :: text) = ':' :: ' ' :: text := skip_dark rfl [] nofun _
  have blank_ : skip (' ' :: text) = text := skip_front [' '] (List.all_eq_true.mp rfl) front'
  rw [scanMembers, scanMembers_key]
  simp only [colon, eat_eq_some.mpr rfl, blank_, here, skip_dark (show blank '\x7d' = false from rfl) close blanks',
    String.ofList_toList]
  rfl

include blanks blanks' in
/-- **The members of an object** are read one after the other, into a dict. -/
theorem scanMembers_parts (level : Nat) (rest : List Char) {news : List (String × Json)} (some_ : news ≠ [])
    (each : ∀ m ∈ news, ReadsBack format indent m.2) {before : OrderedDict String Json}
    (distinct : ((before.entries ++ news).map Prod.fst).Nodup) {fuel : Nat}
    (enough : 2 * (separated (',' :: gap) (dumpMembers format.toFloatRepr indent level news) ++
      (close ++ '\x7d' :: rest)).length + 1 < fuel) :
    scanMembers format fuel before
      (separated (',' :: gap) (dumpMembers format.toFloatRepr indent level news) ++ (close ++ '\x7d' :: rest)) =
        .ok (.obj (before.entries ++ news), rest) := by
  induction news generalizing before fuel with
  | nil => exact absurd rfl some_
  | cons m more ih =>
      obtain ⟨key, value⟩ := m
      have here : ReadsBack format indent value := each (key, value) List.mem_cons_self
      have fresh : key ∉ before.entries.map Prod.fst := by
        rw [List.map_append, List.nodup_append] at distinct
        intro old
        exact distinct.2.2 key old key List.mem_cons_self rfl
      have added : (before.set key value).entries = before.entries ++ [(key, value)] := OrderedDict.put_fresh fresh
      cases fuel with
      | zero => cases enough
      | succ fuel =>
          cases more with
          | nil =>
              have parts : ∀ tail, separated (',' :: gap)
                  (dumpMembers format.toFloatRepr indent level [(key, value)]) ++ tail =
                    asciiQuoted key ++ ':' :: ' ' :: (dumpAt format.toFloatRepr indent level value ++ tail) := by
                simp [dumpMembers, separated]
              rw [parts] at enough ⊢
              have shorter : 2 * (dumpAt format.toFloatRepr indent level value ++ (close ++ '\x7d' :: rest)).length
                  < fuel := by
                rw [List.length_append, List.length_cons, List.length_cons] at enough
                omega
              rw [scanMembers_last blanks' ((here.front level).append _)
                (here.reads level (ends_close (.inr rfl) blanks' rest) shorter), added]
          | cons next others =>
              have front : Front (separated (',' :: gap)
                  (dumpMembers format.toFloatRepr indent level (next :: others))) := by
                obtain ⟨key', value'⟩ := next
                rw [dumpMembers]
                exact front_separated ((front_quoted key').append _) _ _
              have parts : ∀ tail, separated (',' :: gap)
                  (dumpMembers format.toFloatRepr indent level ((key, value) :: next :: others)) ++ tail =
                    asciiQuoted key ++ ':' :: ' ' :: (dumpAt format.toFloatRepr indent level value ++
                      ',' :: (gap ++ (separated (',' :: gap)
                        (dumpMembers format.toFloatRepr indent level (next :: others)) ++ tail))) := by
                simp [dumpMembers, separated]
              rw [parts] at enough ⊢
              have shorter : 2 * (dumpAt format.toFloatRepr indent level value ++ ',' :: (gap ++ (separated (',' :: gap)
                  (dumpMembers format.toFloatRepr indent level (next :: others)) ++ (close ++ '\x7d' :: rest)))).length
                    < fuel := by
                rw [List.length_append, List.length_cons, List.length_cons] at enough
                omega
              rw [scanMembers_more blanks (front.append _) ((here.front level).append _)
                (here.reads level (ends_comma _) shorter), ih (by simp)
                (fun m mem => each m (List.mem_cons_of_mem _ mem)), added, List.append_assoc, List.singleton_append]
              · rw [added, List.append_assoc]
                exact distinct
              · rw [List.length_append, List.length_cons, List.length_append] at shorter
                omega

end Parts

/-- What is in brackets, if there is something. -/
theorem bracketed_parts {parts : List (List Char)} (some_ : parts ≠ []) (opening closing : Char) (level : Nat)
    (rest : List Char) : bracketed indent level opening closing parts ++ rest =
      opening :: (lineBreak indent (level + 1) ++ (separated (comma indent (level + 1)) parts ++
        (lineBreak indent level ++ closing :: rest))) := by
  rw [bracketed, if_neg some_]
  simp

theorem bracketed_front {opening : Char} (dark : blank opening = false ∧ opening ≠ ']' ∧ opening ≠ '\x7d')
    (closing : Char) (level : Nat) (parts : List (List Char)) : Front (bracketed indent level opening closing parts) := by
  unfold bracketed
  split
  · exact ⟨opening, _, rfl, dark⟩
  · exact ⟨opening, _, rfl, dark⟩

theorem readsBack_arr {items : List Json} (each : ∀ item ∈ items, ReadsBack format indent item) :
    ReadsBack format indent (.arr items) := by
  refine ⟨fun level => by rw [dumpAt]; exact bracketed_front (by decide) _ _ _, ?_⟩
  intro level fuel rest ends enough
  rw [dumpAt] at enough ⊢
  cases fuel with
  | zero => cases enough
  | succ fuel =>
      cases items with
      | nil =>
          have empty : bracketed indent level '[' ']' (dumpItems format.toFloatRepr indent (level + 1) []) ++ rest =
              '[' :: ']' :: rest := rfl
          rw [empty, scanValue]
          simp only [eat, skip]
          rfl
      | cons item more =>
          have some_ : dumpItems format.toFloatRepr indent (level + 1) (item :: more) ≠ [] := List.cons_ne_nil _ _
          have front : Front (separated (comma indent (level + 1))
              (dumpItems format.toFloatRepr indent (level + 1) (item :: more))) := by
            rw [dumpItems]
            exact front_separated ((each item List.mem_cons_self).front (level + 1)) _ _
          obtain ⟨gap, sep, blanks⟩ := comma_gap indent (level + 1)
          rw [bracketed_parts some_] at enough ⊢
          have inside := front.append (lineBreak indent level ++ ']' :: rest)
          have shorter : 2 * (separated (comma indent (level + 1))
              (dumpItems format.toFloatRepr indent (level + 1) (item :: more)) ++
                (lineBreak indent level ++ ']' :: rest)).length + 1 < fuel := by
            rw [List.length_cons, List.length_append] at enough
            omega
          rw [scanValue]
          simp only [eat_eq_some.mpr rfl, show eat '"' ('[' :: _) = none from rfl,
            skip_front _ (blank_lineBreak (level + 1)) inside, inside.eat.1]
          rw [sep] at shorter ⊢
          exact scanItems_parts blanks (blank_lineBreak level) (level + 1) rest (List.cons_ne_nil _ _) each shorter

theorem readsBack_obj {members : List (String × Json)} (distinct : (members.map Prod.fst).Nodup)
    (each : ∀ m ∈ members, ReadsBack format indent m.2) : ReadsBack format indent (.obj members) := by
  refine ⟨fun level => by rw [dumpAt]; exact bracketed_front (by decide) _ _ _, ?_⟩
  intro level fuel rest ends enough
  rw [dumpAt] at enough ⊢
  cases fuel with
  | zero => cases enough
  | succ fuel =>
      cases members with
      | nil =>
          have empty : bracketed indent level '\x7b' '\x7d' (dumpMembers format.toFloatRepr indent (level + 1) []) ++
              rest = '\x7b' :: '\x7d' :: rest := rfl
          rw [empty, scanValue]
          simp only [eat, skip]
          rfl
      | cons m more =>
          have some_ : dumpMembers format.toFloatRepr indent (level + 1) (m :: more) ≠ [] := List.cons_ne_nil _ _
          have front : Front (separated (comma indent (level + 1))
              (dumpMembers format.toFloatRepr indent (level + 1) (m :: more))) := by
            obtain ⟨key, value⟩ := m
            rw [dumpMembers]
            exact front_separated ((front_quoted key).append _) _ _
          obtain ⟨gap, sep, blanks⟩ := comma_gap indent (level + 1)
          rw [bracketed_parts some_] at enough ⊢
          have inside := front.append (lineBreak indent level ++ '\x7d' :: rest)
          have shorter : 2 * (separated (comma indent (level + 1))
              (dumpMembers format.toFloatRepr indent (level + 1) (m :: more)) ++
                (lineBreak indent level ++ '\x7d' :: rest)).length + 1 < fuel := by
            rw [List.length_cons, List.length_append] at enough
            omega
          rw [scanValue]
          simp only [eat_eq_some.mpr rfl, show eat '"' ('\x7b' :: _) = none from rfl,
            show eat '[' ('\x7b' :: _) = none from rfl, skip_front _ (blank_lineBreak (level + 1)) inside,
            inside.eat.2]
          rw [sep] at shorter ⊢
          have none_ : ((∅ : OrderedDict String Json).entries ++ m :: more).map Prod.fst = (m :: more).map Prod.fst := rfl
          exact scanMembers_parts blanks (blank_lineBreak level) (level + 1) rest (List.cons_ne_nil _ _) each
            (none_ ▸ distinct) shorter

mutual

/-- **Every document** reads back. -/
theorem readsBack : (value : Json) → Proper format value → ReadsBack format indent value
  | .null, _ => .word ['n', 'u', 'l', 'l'] (by simp [literals]) fun _ => by rw [dumpAt]; rfl
  | .bool true, _ => .word ['t', 'r', 'u', 'e'] (by simp [literals]) fun _ => by rw [dumpAt]; rfl
  | .bool false, _ => .word ['f', 'a', 'l', 's', 'e'] (by simp [literals]) fun _ => by rw [dumpAt]; rfl
  | .int i, proper => readsBack_int (by rwa [Proper] at proper)
  | .float x, proper => readsBack_float proper
  | .str s, _ => readsBack_str s
  | .arr items, proper => readsBack_arr (readsBack_items items (by rwa [Proper] at proper))
  | .obj members, proper => by
      rw [Proper] at proper
      exact readsBack_obj proper.1 (readsBack_members members proper.2)

theorem readsBack_items : (items : List Json) → ItemsProper format items →
    ∀ item ∈ items, ReadsBack format indent item
  | [], _, _, mem => (List.not_mem_nil mem).elim
  | item :: rest, proper, it, mem => by
      rw [ItemsProper] at proper
      rcases List.mem_cons.mp mem with same | later
      · rw [same]
        exact readsBack item proper.1
      · exact readsBack_items rest proper.2 it later

theorem readsBack_members : (members : List (String × Json)) → MembersProper format members →
    ∀ m ∈ members, ReadsBack format indent m.2
  | [], _, _, mem => (List.not_mem_nil mem).elim
  | (key, value) :: rest, proper, m, mem => by
      rw [MembersProper] at proper
      rcases List.mem_cons.mp mem with same | later
      · rw [same]
        exact readsBack value proper.1
      · exact readsBack_members rest proper.2 m later

end

/-- **A document is read back** from what is written of it, with any indent. -/
theorem loads_dumpAt (indent : Option Nat) {value : Json} (proper : Proper format value) :
    loads format (dumpAt format.toFloatRepr indent 0 value) = .ok value := by
  have back : ReadsBack format indent value := readsBack value proper
  have whole := List.append_nil (dumpAt format.toFloatRepr indent 0 value)
  have enough : 2 * (dumpAt format.toFloatRepr indent 0 value ++ []).length <
      2 * (dumpAt format.toFloatRepr indent 0 value).length + 1 := by
    rw [whole]
    exact Nat.lt_succ_self _
  have nothing : Ends [] := by
    intro c mem
    cases mem
  have reads := back.reads 0 nothing enough
  have front : skip (dumpAt format.toFloatRepr indent 0 value) = _ := skip_front [] nofun (back.front 0)
  rw [whole] at reads
  rw [loads, front, reads]
  rfl

end RoundTrip

/-! ## What is read -/

section Read

variable {format : FloatFormat}

theorem ofDigitChars_lt {digits : List Char} (each : ∀ c ∈ digits, c.isDigit = true) :
    Nat.ofDigitChars 10 digits 0 < 10 ^ digits.length := by
  induction digits with
  | nil => decide
  | cons c rest ih =>
      have later := ih fun d mem => each d (List.mem_cons_of_mem c mem)
      obtain ⟨-, high⟩ := Char.isDigit_iff_toNat.mp (each c List.mem_cons_self)
      have high' : c.toNat ≤ 57 := high
      have zero : '0'.toNat = 48 := rfl
      rw [Nat.ofDigitChars_cons, Nat.ofDigitChars_eq_ofDigitChars_zero, List.length_cons, Nat.pow_succ, zero]
      have digit : 10 * 0 + (c.toNat - 48) ≤ 9 := by omega
      have scaled := Nat.mul_le_mul_left (10 ^ rest.length) digit
      omega

theorem readable_of_intOfText {text : List Char} {i : Int} (read : intOfText text = .ok i) : Readable i := by
  unfold intOfText at read
  split at read
  rename_i _ sign body parsed
  split at read
  · rename_i digits there
    split at read
    · rename_i short
      cases read
      have each : ∀ c ∈ digits, c.isDigit = true := by
        simp only [digitsOf] at there
        split at there
        · rename_i groups
          cases there
          intro c mem
          obtain ⟨group, inside, here⟩ := List.mem_flatten.mp mem
          have digits_ := List.all_eq_true.mp groups group inside
          rw [Bool.and_eq_true] at digits_
          exact List.all_eq_true.mp digits_.2 c here
        · cases there
      have unit : sign.natAbs = 1 := by
        split at parsed <;> (cases parsed; rfl)
      have small := ofDigitChars_lt each
      have bound : 10 ^ digits.length ≤ 10 ^ maxStrDigits := Nat.pow_le_pow_right (by decide) short
      unfold Readable
      rw [Int.natAbs_mul, unit, Int.natAbs_natCast, Nat.one_mul]
      omega
    · cases read
  · cases read

theorem proper_literal {word : List Char} {value : Json} (known : (word, value) ∈ literals) : Proper format value := by
  simp only [literals, List.mem_cons, List.not_mem_nil, or_false, Prod.mk.injEq] at known
  rcases known with ⟨-, rfl⟩ | ⟨-, rfl⟩ | ⟨-, rfl⟩ | ⟨-, rfl⟩ | ⟨-, rfl⟩ | ⟨-, rfl⟩ <;> simp only [Proper]

theorem proper_atom {text : List Char} {read : Json × List Char} (found : scanAtom format text = .ok read) :
    Proper format read.1 := by
  unfold scanAtom at found
  split at found
  · rename_i word there
    cases found
    obtain ⟨⟨letters, value⟩, isWord, dropped⟩ := List.exists_of_findSome?_eq_some there
    obtain ⟨rest, -, rfl⟩ := Option.map_eq_some_iff.mp dropped
    exact proper_literal isWord
  · split at found
    · cases found
    · split at found
      · rename_i n rest there _ value stands
        cases found
        unfold Number.value at stands
        split at stands
        · cases stands
          cases is : format.read n.text with
          | fin q =>
              rw [Proper]
              exact format.exact_read is
          | nan => simp only [Proper]
          | inf negative => simp only [Proper]
        · split at stands
          · rename_i i isInt
            cases stands
            rw [Proper]
            exact readable_of_intOfText isInt
          · cases stands
      · cases found

theorem itemsProper_append {items more : List Json} (proper : ItemsProper format items)
    (later : ItemsProper format more) : ItemsProper format (items ++ more) := by
  induction items with
  | nil => exact later
  | cons item rest ih =>
      rw [ItemsProper] at proper
      rw [List.cons_append, ItemsProper]
      exact ⟨proper.1, ih proper.2⟩

theorem membersProper_put {members : List (String × Json)} (proper : MembersProper format members) (key : String)
    {value : Json} (new : Proper format value) : MembersProper format (OrderedDict.put key value members) := by
  induction members with
  | nil =>
      rw [OrderedDict.put, MembersProper, MembersProper]
      exact ⟨new, trivial⟩
  | cons m rest ih =>
      obtain ⟨name, old⟩ := m
      rw [MembersProper] at proper
      rw [OrderedDict.put]
      split
      · rw [MembersProper]
        exact ⟨new, proper.2⟩
      · rw [MembersProper]
        exact ⟨proper.1, ih proper.2⟩

/-- **What is read is a document**: objects become dicts. -/
theorem proper_scan (fuel : Nat) :
    (∀ {text read}, scanValue format fuel text = .ok read → Proper format read.1) ∧
    (∀ {items text read}, ItemsProper format items → scanItems format fuel items text = .ok read →
      Proper format read.1) ∧
    (∀ {members text read}, MembersProper format (OrderedDict.entries members) →
      scanMembers format fuel members text = .ok read → Proper format read.1) := by
  induction fuel with
  | zero => exact ⟨nofun, nofun, nofun⟩
  | succ fuel ih =>
      obtain ⟨value, items, members⟩ := ih
      refine ⟨?_, ?_, ?_⟩
      · intro text read found
        rw [scanValue] at found
        split at found
        · split at found
          · cases found
            simp only [Proper]
          · cases found
        · split at found
          · split at found
            · cases found
              simp only [Proper, ItemsProper]
            · exact items (by simp only [ItemsProper]) found
          · split at found
            · split at found
              · cases found
                simp only [Proper, MembersProper]
                exact ⟨List.nodup_nil, trivial⟩
              · exact members (show MembersProper format [] by simp only [MembersProper]) found
            · exact proper_atom found
      · intro before text read proper found
        rw [scanItems] at found
        split at found
        · cases found
        · rename_i item rest here
          have one : ItemsProper format [item] := by
            rw [ItemsProper, ItemsProper]
            exact ⟨value here, trivial⟩
          have all := itemsProper_append proper one
          split at found
          · exact items all found
          · split at found
            · cases found
              rw [Proper]
              exact all
            · cases found
      · intro before text read proper found
        rw [scanMembers] at found
        split at found
        · cases found
        · rename_i key rest named
          split at found
          · cases found
          · split at found
            · cases found
            · rename_i val more here
              have all : MembersProper format (before.set (String.ofList key) val).entries :=
                membersProper_put proper _ (value here)
              split at found
              · exact members all found
              · split at found
                · cases found
                  rw [Proper]
                  exact ⟨(before.set (String.ofList key) val).nodup, all⟩
                · cases found

theorem loads_proper {text : List Char} {value : Json} (read : loads format text = .ok value) :
    Proper format value := by
  unfold loads at read
  split at read
  · cases read
  · rename_i found
    split at read
    · cases read
      exact (proper_scan _).1 found
    · cases read

/-- **Whatever is read** can be written, with any indent, and read again. -/
theorem loads_again {text : List Char} {value : Json} (read : loads format text = .ok value) (indent : Option Nat) :
    loads format (dumpAt format.toFloatRepr indent 0 value) = .ok value :=
  loads_dumpAt indent (loads_proper read)

end Read

/-! ## Whole numbers -/

namespace Demo

/-- The integer a text begins with. -/
def leading (word : List Char) : Int :=
  (if (scanSign word).1 = [] then 1 else -1) * Nat.ofDigitChars 10 ((scanSign word).2.takeWhile Char.isDigit) 0

theorem leading_point (i : Int) : leading (intText i ++ ['.', '0']) = i := by
  have digits : ∀ c ∈ Nat.toDigits 10 i.natAbs, c.isDigit = true :=
    fun c mem => Nat.isDigit_of_mem_toDigits (by decide) (by decide) mem
  have point : ∀ c ∈ (['.', '0'] : List Char).head?, c.isDigit = false := by rintro _ ⟨⟩; rfl
  have whole : (Nat.toDigits 10 i.natAbs ++ ['.', '0']).takeWhile Char.isDigit = Nat.toDigits 10 i.natAbs := by
    rw [(digits_append point _).1]
    exact List.takeWhile_eq_self_iff.mpr digits
  have value := Nat.ofDigitChars_ten_toDigits (n := i.natAbs)
  unfold leading
  rw [scanSign_intText, whole, value]
  unfold intNumber
  by_cases negative : i < 0
  · rw [if_pos negative, if_neg (List.cons_ne_nil _ _)]
    omega
  · rw [if_neg negative, if_pos rfl]
    omega

/-- The doubles that print as an integer, a point and a zero. -/
def wholes : FloatFormat where
  text
    | .nan => "NaN".toList
    | .inf negative => if negative then "-Infinity".toList else "Infinity".toList
    | .fin q => intText ⌊q⌋ ++ ['.', '0']
  plain x := by
    cases x with
    | nan => exact (by decide : AllPlain "NaN".toList)
    | inf negative =>
        cases negative with
        | false => exact (by decide : AllPlain "Infinity".toList)
        | true => exact (by decide : AllPlain "-Infinity".toList)
    | fin q => exact (allPlain_intText ⌊q⌋).append (by decide)
  read word := if (leading word).natAbs < 10 ^ 16 then .fin (leading word) else .inf (decide (leading word < 0))
  exact q := ∃ i : Int, i.natAbs < 10 ^ 16 ∧ q = i
  exact_read := by
    intro word q read
    split at read
    · rename_i small
      cases read
      exact ⟨_, small, rfl⟩
    · cases read
  written := by
    rintro q ⟨i, -, rfl⟩
    have point : ∀ c ∈ (['.', '0'] : List Char).head?, c.isDigit = false := by rintro _ ⟨⟩; rfl
    have whole := scanWhole_append point (scanWhole_toDigits i.natAbs)
    refine ⟨{ intNumber i with fraction := ['.', '0'] }, ?_, rfl⟩
    simp only [Int.floor_intCast, scanNumber, scanSign_intText, whole]
    rfl
  readBack := by
    rintro q ⟨i, small, rfl⟩
    simp only [Int.floor_intCast, leading_point, small, if_true]
  nan := rfl
  inf _ := rfl

end Demo

end KoyuRuntime.Host
