/-
# Host.Shlex — splitting a command text like a POSIX shell

`shlex.split` reads character by character.  Outside quotes whitespace ends a word,
a quote opens a quoted part and a backslash takes the next character as it is; inside
double quotes a backslash only escapes itself and the quote.  Comments are off.

* `scan_cons`: what one character does to a scan that returns.
* `scan_weight`: no word list is longer than the text it was split from; every quote
  and every backslash costs a character.
* `split_join`, `plain_of_split`: words joined by single spaces split into themselves
  exactly if none is empty and none has whitespace, a quote or a backslash.
-/
import KoyuRuntime.Host.Exn
import Mathlib.Data.List.Basic

namespace KoyuRuntime.Host.Shlex

set_option autoImplicit false

/-- `shlex.whitespace`. -/
def whitespace : List Char := [' ', '\t', '\r', '\n']

def backslash : Char := Char.ofNat 92

def doubleQuote : Char := Char.ofNat 34

def singleQuote : Char := Char.ofNat 39

/-- `shlex.quotes`. -/
def quotes : List Char := [singleQuote, doubleQuote]

/-- Where `read_token` is: between two words, in a word, in a quoted part, or after a
backslash (in a word, or in a part quoted by the character given).  `quoted` says that
the word had a quoted part, so that it counts even when it is empty. -/
inductive State where
  | between
  | word (token : List Char) (quoted : Bool)
  | quote (q : Char) (token : List Char)
  | escape (back : Option Char) (token : List Char) (quoted : Bool)

/-- A finished word, unless there is none. -/
def emit (token : List Char) (quoted : Bool) : List (List Char) :=
  if token ≠ [] ∨ quoted = true then [token] else []

/-- The token after an escaped character; a backslash that escapes nothing stays. -/
def escaped (back : Option Char) (token : List Char) (c : Char) : List Char :=
  match back with
  | none => token ++ [c]
  | some q => if c ≠ backslash ∧ c ≠ q then token ++ [backslash, c] else token ++ [c]

def scan : State → List Char → Except Exn (List (List Char))
  | .between, [] => .ok []
  | .between, c :: rest =>
      if c ∈ whitespace then scan .between rest
      else if c = backslash then scan (.escape none [] false) rest
      else if c ∈ quotes then scan (.quote c []) rest
      else scan (.word [c] false) rest
  | .word token quoted, [] => .ok (emit token quoted)
  | .word token quoted, c :: rest =>
      if c ∈ whitespace then
        match scan .between rest with
        | .ok more => .ok (emit token quoted ++ more)
        | .error e => .error e
      else if c ∈ quotes then scan (.quote c token) rest
      else if c = backslash then scan (.escape none token quoted) rest
      else scan (.word (token ++ [c]) quoted) rest
  -- No closing quotation
  | .quote _ _, [] => .error .valueError
  | .quote q token, c :: rest =>
      if c = q then scan (.word token true) rest
      else if c = backslash ∧ q = doubleQuote then scan (.escape (some q) token true) rest
      else scan (.quote q (token ++ [c])) rest
  -- No escaped character
  | .escape _ _ _, [] => .error .valueError
  | .escape back token quoted, c :: rest =>
      match back with
      | none => scan (.word (escaped none token c) quoted) rest
      | some q => scan (.quote q (escaped (some q) token c)) rest

/-- `shlex.split(text)`. -/
def split (text : List Char) : Except Exn (List (List Char)) := scan .between text

/-- `" ".join(words)`. -/
def join (words : List (List Char)) : List Char := [' '].intercalate words

/-- The characters `split` does not take as they are. -/
def special (c : Char) : Bool := whitespace.contains c || quotes.contains c || c == backslash

/-- A word a shell would not have to quote. -/
def Plain (word : List Char) : Prop := word ≠ [] ∧ ∀ c ∈ word, special c = false

instance (word : List Char) : Decidable (Plain word) := inferInstanceAs (Decidable (_ ∧ _))

/-! ## The weight of words -/

/-- A word counts its characters and one separator. -/
def weight : List (List Char) → Nat
  | [] => 0
  | w :: words => w.length + 1 + weight words

@[simp] theorem weight_nil : weight [] = 0 := rfl

@[simp] theorem weight_cons (w : List Char) (words : List (List Char)) :
    weight (w :: words) = w.length + 1 + weight words := rfl

@[simp] theorem weight_append (l r : List (List Char)) : weight (l ++ r) = weight l + weight r := by
  induction l with
  | nil => simp
  | cons w rest ih =>
      rw [List.cons_append, weight_cons, weight_cons, ih]
      omega

theorem weight_emit (token : List Char) (quoted : Bool) :
    weight (emit token quoted) ≤ token.length + 1 := by
  unfold emit
  split
  · simp
  · simp

/-! ## One character -/

/-- The state after a character. -/
def next : State → Char → State
  | .between, c =>
      if c ∈ whitespace then .between
      else if c = backslash then .escape none [] false
      else if c ∈ quotes then .quote c []
      else .word [c] false
  | .word token quoted, c =>
      if c ∈ whitespace then .between
      else if c ∈ quotes then .quote c token
      else if c = backslash then .escape none token quoted
      else .word (token ++ [c]) quoted
  | .quote q token, c =>
      if c = q then .word token true
      else if c = backslash ∧ q = doubleQuote then .escape (some q) token true
      else .quote q (token ++ [c])
  | .escape none token quoted, c => .word (escaped none token c) quoted
  | .escape (some q) token _, c => .quote q (escaped (some q) token c)

/-- The word a character ends, if it ends one. -/
def closed : State → Char → List (List Char)
  | .word token quoted, c => if c ∈ whitespace then emit token quoted else []
  | _, _ => []

/-- A scan that returns goes on from the next state and adds the word ended here. -/
theorem scan_cons {st : State} {c : Char} {rest : List Char} {words : List (List Char)}
    (done : scan st (c :: rest) = .ok words) :
    ∃ more, scan (next st c) rest = .ok more ∧ words = closed st c ++ more := by
  cases st with
  | between =>
      refine ⟨words, ?_, rfl⟩
      rw [← done]
      simp only [scan, next]
      split_ifs <;> rfl
  | word token quoted =>
      simp only [scan] at done
      split at done
      · rename_i blank
        simp only [next, closed, blank, if_true]
        cases later : scan .between rest with
        | error e => simp [later] at done
        | ok more =>
            simp only [later] at done
            cases done
            exact ⟨more, rfl, rfl⟩
      · rename_i notBlank
        simp only [next, closed, notBlank, if_false]
        refine ⟨words, ?_, rfl⟩
        rw [← done]
        split_ifs <;> rfl
  | quote q token =>
      refine ⟨words, ?_, rfl⟩
      rw [← done]
      simp only [scan, next]
      split_ifs <;> rfl
  | escape back token quoted =>
      cases back with
      | none => exact ⟨words, done, rfl⟩
      | some q => exact ⟨words, done, rfl⟩

/-- What a state can still contribute, besides the characters to come. -/
def pending : State → Nat
  | .between => 1
  | .word token _ => token.length + 1
  | .quote _ token => token.length
  | .escape none token _ => token.length + 1
  | .escape (some _) token _ => token.length + 1

theorem step_weight (st : State) (c : Char) :
    weight (closed st c) + pending (next st c) ≤ pending st + 1 := by
  cases st with
  | between =>
      show 0 + pending (next .between c) ≤ 2
      simp only [next]
      split_ifs <;> simp [pending]
  | word token quoted =>
      have := weight_emit token quoted
      simp only [closed, next]
      split_ifs <;> simp only [pending, weight_nil, List.length_append, List.length_cons,
        List.length_nil] <;> omega
  | quote q token =>
      show 0 + pending (next (.quote q token) c) ≤ token.length + 1
      simp only [next]
      split_ifs <;> simp [pending]
  | escape back token quoted =>
      cases back with
      | none =>
          show 0 + pending (.word (escaped none token c) quoted) ≤ token.length + 1 + 1
          simp [pending, escaped]
      | some q =>
          show 0 + pending (.quote q (escaped (some q) token c)) ≤ token.length + 1 + 1
          simp only [pending, escaped]
          split_ifs <;> simp

/-- Outside quotes and escapes. -/
def State.open_ : State → Bool
  | .between => true
  | .word _ _ => true
  | _ => false

/-- A character that opens a quoted part or escapes the next one. -/
def Lost (c : Char) : Prop := c ∈ quotes ∨ c = backslash

/-- A whitespace character is no quote and no backslash. -/
theorem not_lost_of_blank {c : Char} (blank : c ∈ whitespace) : ¬ Lost c := by
  have each : (whitespace.all fun b => !(quotes.contains b || b == backslash)) = true := by decide
  have here := List.all_eq_true.mp each c blank
  simpa [Lost] using here

theorem step_lost {st : State} {c : Char} (opened : st.open_ = true) (lost : Lost c) :
    weight (closed st c) + pending (next st c) ≤ pending st := by
  have notBlank : c ∉ whitespace := fun blank => not_lost_of_blank blank lost
  cases st with
  | quote q token => cases opened
  | escape back token quoted => cases opened
  | between =>
      show 0 + pending (next .between c) ≤ 1
      simp only [next, notBlank, if_false]
      split_ifs with escape quote
      · simp [pending]
      · simp [pending]
      · exact absurd lost (not_or.mpr ⟨quote, escape⟩)
  | word token quoted =>
      simp only [closed, next, notBlank, if_false]
      split_ifs with quote escape
      · simp [pending]
      · simp [pending]
      · exact absurd lost (not_or.mpr ⟨quote, escape⟩)

theorem step_open {st : State} {c : Char} (opened : st.open_ = true) (kept : ¬ Lost c) :
    (next st c).open_ = true := by
  obtain ⟨noQuote, noEscape⟩ := not_or.mp kept
  cases st with
  | quote q token => cases opened
  | escape back token quoted => cases opened
  | between =>
      simp only [next, noQuote, noEscape, if_false]
      split_ifs <;> rfl
  | word token quoted =>
      simp only [next, noQuote, noEscape, if_false]
      split_ifs <;> rfl

/-! ## Splitting never lengthens -/

theorem scan_weight {cs : List Char} {st : State} {words : List (List Char)}
    (done : scan st cs = .ok words) : weight words ≤ pending st + cs.length := by
  induction cs generalizing st words with
  | nil =>
      cases st with
      | between =>
          cases done
          exact Nat.zero_le _
      | word token quoted =>
          cases done
          exact weight_emit token quoted
      | quote q token => cases done
      | escape back token quoted => cases done
  | cons c rest ih =>
      obtain ⟨more, later, rfl⟩ := scan_cons done
      have := ih later
      have := step_weight st c
      rw [weight_append, List.length_cons]
      omega

/-- Every quote and every backslash of an open text is lost. -/
theorem scan_weight_lt {cs : List Char} {st : State} {words : List (List Char)}
    (opened : st.open_ = true) (done : scan st cs = .ok words) {c : Char} (mem : c ∈ cs)
    (lost : Lost c) : weight words < pending st + cs.length := by
  induction cs generalizing st words with
  | nil => cases mem
  | cons d rest ih =>
      obtain ⟨more, later, rfl⟩ := scan_cons done
      rw [weight_append, List.length_cons]
      by_cases here : Lost d
      · have := step_lost opened here
        have := scan_weight later
        omega
      · have inRest : c ∈ rest := by
          rcases List.mem_cons.mp mem with rfl | inRest
          · exact absurd lost here
          · exact inRest
        have := step_weight st d
        have := ih (step_open opened here) later inRest
        omega

/-! ## Texts without quotes and backslashes -/

theorem special_iff (c : Char) : special c = true ↔ c ∈ whitespace ∨ Lost c := by
  simp [special, Lost, or_assoc]

theorem special_of_ordinary {c : Char} (notBlank : c ∉ whitespace) (kept : ¬ Lost c) :
    special c = false := by
  rw [← Bool.not_eq_true, special_iff, not_or]
  exact ⟨notBlank, kept⟩

/-- What is read so far of a word without quotes. -/
def State.Clean : State → Prop
  | .between => True
  | .word token _ => Plain token
  | _ => False

theorem emit_plain {token : List Char} (plain : Plain token) (quoted : Bool) :
    emit token quoted = [token] := by
  simp [emit, plain.1]

theorem plain_append {token : List Char} {c : Char} (before : ∀ d ∈ token, special d = false)
    (ordinary : special c = false) : Plain (token ++ [c]) := by
  refine ⟨by simp, ?_⟩
  intro d mem
  rcases List.mem_append.mp mem with first | last
  · exact before d first
  · rw [List.mem_singleton.mp last]
    exact ordinary

theorem step_clean {st : State} {c : Char} (clean : st.Clean) (kept : ¬ Lost c) :
    (next st c).Clean ∧ ∀ w ∈ closed st c, Plain w := by
  obtain ⟨noQuote, noEscape⟩ := not_or.mp kept
  cases st with
  | quote q token => cases clean
  | escape back token quoted => cases clean
  | between =>
      refine ⟨?_, fun w mem => absurd mem List.not_mem_nil⟩
      simp only [next, noQuote, noEscape, if_false]
      split_ifs with blank
      · trivial
      · have none_ : ∀ d ∈ ([] : List Char), special d = false :=
          fun d mem => absurd mem List.not_mem_nil
        exact plain_append none_ (special_of_ordinary blank kept)
  | word token quoted =>
      simp only [next, closed, noQuote, noEscape, if_false]
      split_ifs with blank
      · refine ⟨trivial, ?_⟩
        intro w mem
        rw [emit_plain clean, List.mem_singleton] at mem
        rw [mem]
        exact clean
      · refine ⟨?_, fun w mem => absurd mem List.not_mem_nil⟩
        exact plain_append clean.2 (special_of_ordinary blank kept)

/-- Without quotes and backslashes every word is plain. -/
theorem scan_clean {cs : List Char} {st : State} {words : List (List Char)} (clean : st.Clean)
    (done : scan st cs = .ok words) (kept : ∀ c ∈ cs, ¬ Lost c) : ∀ w ∈ words, Plain w := by
  induction cs generalizing st words with
  | nil =>
      cases st with
      | between =>
          cases done
          exact fun w mem => absurd mem List.not_mem_nil
      | word token quoted =>
          cases done
          intro w mem
          rw [emit_plain clean, List.mem_singleton] at mem
          rw [mem]
          exact clean
      | quote q token => cases clean
      | escape back token quoted => cases clean
  | cons c rest ih =>
      obtain ⟨more, later, rfl⟩ := scan_cons done
      obtain ⟨stays, ended⟩ := step_clean clean (kept c List.mem_cons_self)
      intro w mem
      rcases List.mem_append.mp mem with first | last
      · exact ended w first
      · exact ih stays later (fun d inRest => kept d (List.mem_cons_of_mem c inRest)) w last

/-! ## Joining and splitting -/

theorem length_join {words : List (List Char)} (some_ : words ≠ []) :
    (join words).length + 1 = weight words := by
  induction words with
  | nil => exact absurd rfl some_
  | cons w rest ih =>
      cases rest with
      | nil => simp [join, List.intercalate]
      | cons v more =>
          have := ih (by simp)
          simp only [join, List.intercalate, List.intersperse, List.flatten_cons, List.length_append,
            List.length_cons, List.length_nil, weight_cons] at this ⊢
          omega

theorem join_cons_cons (w v : List Char) (rest : List (List Char)) :
    join (w :: v :: rest) = w ++ ' ' :: join (v :: rest) := by
  simp [join, List.intercalate]

theorem mem_join {c : Char} {words : List (List Char)} (mem : c ∈ join words) :
    c = ' ' ∨ ∃ w ∈ words, c ∈ w := by
  induction words with
  | nil => cases mem
  | cons w rest ih =>
      cases rest with
      | nil =>
          right
          exact ⟨w, List.mem_cons_self, by simpa [join, List.intercalate] using mem⟩
      | cons v more =>
          rw [join_cons_cons, List.mem_append, List.mem_cons] at mem
          rcases mem with first | rfl | later
          · exact Or.inr ⟨w, List.mem_cons_self, first⟩
          · exact Or.inl rfl
          · apply (ih later).imp id
            rintro ⟨u, mem, here⟩
            exact ⟨u, List.mem_cons_of_mem w mem, here⟩

theorem ordinary_of_special {c : Char} (ordinary : special c = false) :
    c ∉ whitespace ∧ c ∉ quotes ∧ c ≠ backslash := by
  have none_ : ¬ (c ∈ whitespace ∨ Lost c) := by
    rw [← special_iff, ordinary]
    exact Bool.false_ne_true
  obtain ⟨notBlank, kept⟩ := not_or.mp none_
  exact ⟨notBlank, not_or.mp kept⟩

theorem scan_word {w : List Char} (plain : ∀ c ∈ w, special c = false) (token rest : List Char)
    (quoted : Bool) : scan (.word token quoted) (w ++ rest) = scan (.word (token ++ w) quoted) rest := by
  induction w generalizing token with
  | nil => simp
  | cons c w ih =>
      have first := plain c List.mem_cons_self
      obtain ⟨notBlank, notQuote, notEscape⟩ := ordinary_of_special first
      simp only [List.cons_append, scan, notBlank, notQuote, notEscape, if_false]
      rw [ih fun d mem => plain d (List.mem_cons_of_mem c mem)]
      simp

theorem scan_plain {w : List Char} (plain : Plain w) (rest : List Char) :
    scan .between (w ++ rest) = scan (.word w false) rest := by
  obtain ⟨some_, chars⟩ := plain
  cases w with
  | nil => exact absurd rfl some_
  | cons c w =>
      have first := chars c List.mem_cons_self
      obtain ⟨notBlank, notQuote, notEscape⟩ := ordinary_of_special first
      simp only [List.cons_append, scan, notBlank, notQuote, notEscape, if_false]
      exact scan_word (fun d mem => chars d (List.mem_cons_of_mem c mem)) [c] rest false

theorem split_join {words : List (List Char)} (plain : ∀ w ∈ words, Plain w) :
    split (join words) = .ok words := by
  induction words with
  | nil => rfl
  | cons w rest ih =>
      have first := plain w List.mem_cons_self
      have emitted := emit_plain first false
      cases rest with
      | nil =>
          show scan .between (join [w]) = .ok [w]
          have alone : join [w] = w ++ [] := by simp [join, List.intercalate]
          rw [alone, scan_plain first]
          simp [scan, emitted]
      | cons v more =>
          have later := ih fun u mem => plain u (List.mem_cons_of_mem w mem)
          have blank : ' ' ∈ whitespace := by decide
          show scan .between (join (w :: v :: more)) = _
          rw [join_cons_cons, scan_plain first]
          simp only [split] at later
          simp only [scan, blank, if_true, later, emitted]
          rfl

/-- **A text no longer than the joined words** splits into them only if every word is
plain. -/
theorem plain_of_split {words : List (List Char)} {text : List Char}
    (short : text.length ≤ (join words).length) (done : split text = .ok words) :
    ∀ w ∈ words, Plain w := by
  intro w mem
  have full := length_join (List.ne_nil_of_mem mem)
  have start : State.Clean .between := trivial
  refine scan_clean start done ?_ w mem
  intro c inText lost
  have opened : State.open_ .between = true := rfl
  have less := scan_weight_lt opened done inText lost
  simp only [pending] at less
  omega

end KoyuRuntime.Host.Shlex
