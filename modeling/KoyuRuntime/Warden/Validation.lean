/-
# Warden.Validation — what `parse_services` accepts, and what it keeps

A document is read as a list of checks in a fixed order (`checks`): of each service its
name, its stanza, then its fields.  A check is met or not, and some need the text of a
value, which an integer of too many digits does not have.

* `parseServices_follows`: the parser goes through these checks and stops at the first
  that is not met; it raises anything but a `ServicesError` exactly if that one needs a
  text that cannot be made.
* `valid_iff`: the rules field by field (`Valid`) are the checks.
* `oneEach_iff`: a document that is accepted has one spec for every stanza, and one
  variable for every entry of its `env`, exactly if no two keys there print alike.

`validates_exactly_iff` puts them together.
-/
import KoyuRuntime.Theory.OrderedChecks
import KoyuRuntime.Warden.Services

namespace KoyuRuntime.Warden

open Host Theory

set_option autoImplicit false

/-! ## Rules -/

/-- An entry of `cmd`. -/
def IsArg (value : Yaml) : Prop :=
  (∃ s, value = .str s) ∨ (∃ i, value = .scalar (.int i)) ∨ ∃ x, value = .scalar (.float x)

/-- A value of `env`. -/
def IsEnvValue (value : Yaml) : Prop := (∃ b, value = .scalar (.bool b)) ∨ IsArg value

def IsBool (value : Yaml) : Prop := ∃ b, value = .scalar (.bool b)

def IsAutorestart (value : Yaml) : Prop :=
  IsBool value ∨ ∃ s, value = .str s ∧ lower s ∈ autorestartValues

/-- No `bool`, and not negative. -/
def IsNonneg (value : Yaml) : Prop := ∃ i : Int, value = .scalar (.int i) ∧ 0 ≤ i

def IsCode (value : Yaml) : Prop := ∃ i, value = .scalar (.int i)

def IsNonemptyList (value : Yaml) : Prop := ∃ items, value = .seq items ∧ items ≠ []

/-- The items of a list. -/
def itemsOf : Yaml → List Yaml
  | .seq items => items
  | _ => []

/-- Nothing, or a mapping. -/
def IsMapping (value : Yaml) : Prop := value = .null ∨ ∃ entries, value = .map entries

/-! The shapes left over where a parser has matched those it takes. -/

theorem not_isNonemptyList {value : Yaml} (noList : ∀ item rest, value = .seq (item :: rest) → False) :
    ¬ IsNonemptyList value := by
  rintro ⟨items, rfl, full⟩
  cases items with
  | nil => exact full rfl
  | cons item rest => exact noList item rest rfl

theorem not_isMapping {value : Yaml} (some_ : value = .null → False)
    (noMap : ∀ entries, value = .map entries → False) : ¬ IsMapping value := by
  rintro (same | ⟨entries, same⟩)
  · exact some_ same
  · exact noMap entries same

section Rules

variable (floatText : Double → String)

/-- The field rules of a stanza. -/
structure StanzaRules (stanza : YamlMap) : Prop where
  cmd : IsNonemptyList (field stanza "cmd" .null)
  args : ∀ item ∈ itemsOf (field stanza "cmd" .null), IsArg item
  env : IsMapping (field stanza "env" .null)
  envEntries : ∀ e ∈ (field stanza "env" .null).entries,
    scalarText floatText e.1 ∉ reservedEnv ∧ IsEnvValue e.2
  autostart : IsBool (field stanza "autostart" (.scalar (.bool true)))
  autorestart : IsAutorestart (field stanza "autorestart" (.str "unexpected"))
  startsecs : IsNonneg (field stanza "startsecs" (.scalar (.int 1)))
  startretries : IsNonneg (field stanza "startretries" (.scalar (.int 3)))
  stopwaitsecs : IsNonneg (field stanza "stopwaitsecs" (.scalar (.int 10)))
  exitcodes : IsCode (field stanza "exitcodes" (.seq [.scalar (.int 0)])) ∨
    IsNonemptyList (field stanza "exitcodes" (.seq [.scalar (.int 0)]))
  codes : ∀ code ∈ itemsOf (field stanza "exitcodes" (.seq [.scalar (.int 0)])), IsCode code
  oneshot : IsBool (field stanza "oneshot" (.scalar (.bool false)))

/-- The top level is null, or a mapping of stanzas that satisfy every field rule. -/
def Valid (raw : Yaml) : Prop :=
  IsMapping raw ∧ ∀ e ∈ raw.entries, ∃ stanza, e.2 = .map stanza ∧ StanzaRules floatText stanza

end Rules

/-! ## Checks -/

/-- What the parser looks at, one after the other. -/
inductive Check where
  | document (value : Yaml)
  | name (key : Scalar)
  | spec (value : Yaml)
  | cmd (value : Yaml)
  | arg (value : Yaml)
  | env (value : Yaml)
  | envKey (key : Scalar)
  | envValue (value : Yaml)
  | bool (value : Yaml)
  | autorestart (value : Yaml)
  | nonneg (value : Yaml)
  | exitcodes (value : Yaml)
  | code (value : Yaml)

section Document

variable (floatText : Double → String)

def Check.Meets : Check → Prop
  | .document value => IsMapping value
  | .name _ => True
  | .spec value => ∃ stanza, value = .map stanza
  | .cmd value => IsNonemptyList value
  | .arg value => IsArg value
  | .env value => IsMapping value
  | .envKey key => scalarText floatText key ∉ reservedEnv
  | .envValue value => IsEnvValue value
  | .bool value => IsBool value
  | .autorestart value => IsAutorestart value
  | .nonneg value => IsNonneg value
  | .exitcodes value => IsCode value ∨ IsNonemptyList value
  | .code value => IsCode value

/-- The value whose text is made: the names, keys and scalars that are kept as texts, and
what is refused with a message that prints it. -/
def Check.Prints : Check → Yaml → Prop
  | .document _, _ => False
  | .name key, printed => printed = .scalar key
  | .spec _, _ => False
  | .cmd value, printed => printed = value ∧ value ≠ .null ∧ ¬ IsNonemptyList value
  | .arg value, printed => printed = value
  | .env _, _ => False
  | .envKey key, printed => printed = .scalar key
  | .envValue value, printed => printed = value
  | .bool value, printed => printed = value ∧ ¬ IsBool value
  | .autorestart value, printed => printed = value ∧ ¬ IsAutorestart value
  | .nonneg value, printed => printed = value ∧ ¬ IsNonneg value
  | .exitcodes value, printed => printed = value ∧ ¬ (IsCode value ∨ IsNonemptyList value)
  | .code value, printed => printed = value ∧ ¬ IsCode value

/-- A text is needed that cannot be made. -/
def Check.Trips (c : Check) : Prop := ∃ value, c.Prints value ∧ printable value = false

/-- The rule is met and every text needed can be made. -/
def Check.Fine (c : Check) : Prop := c.Meets floatText ∧ ¬ c.Trips

end Document

def cmdChecks (value : Yaml) : List Check := .cmd value :: (itemsOf value).map .arg

def envEntryChecks (entries : YamlMap) : List Check :=
  entries.flatMap fun e => [.envKey e.1, .envValue e.2]

def envChecks (value : Yaml) : List Check := .env value :: envEntryChecks value.entries

def exitcodesChecks (value : Yaml) : List Check := .exitcodes value :: (itemsOf value).map .code

/-- The fields of a stanza, in the order they are read. -/
def stanzaChecks (stanza : YamlMap) : List Check :=
  cmdChecks (field stanza "cmd" .null) ++ (envChecks (field stanza "env" .null) ++
    ([.bool (field stanza "autostart" (.scalar (.bool true)))] ++
    ([.autorestart (field stanza "autorestart" (.str "unexpected"))] ++
    ([.nonneg (field stanza "startsecs" (.scalar (.int 1)))] ++
    ([.nonneg (field stanza "startretries" (.scalar (.int 3)))] ++
    ([.nonneg (field stanza "stopwaitsecs" (.scalar (.int 10)))] ++
    (exitcodesChecks (field stanza "exitcodes" (.seq [.scalar (.int 0)])) ++
      [.bool (field stanza "oneshot" (.scalar (.bool false)))])))))))

def specChecks : Yaml → List Check
  | .map stanza => .spec (.map stanza) :: stanzaChecks stanza
  | value => [.spec value]

def entryChecks (entries : YamlMap) : List Check :=
  entries.flatMap fun e => .name e.1 :: specChecks e.2

/-- Everything the parser looks at, in order. -/
def checks (raw : Yaml) : List Check := .document raw :: entryChecks raw.entries

/-! ## The parser follows the checks -/

/-- Anything but a `ServicesError`. -/
def Other (e : ParseError) : Prop := ∃ x, e = .raised x

section Follow

variable {floatText : Double → String}

/-- The parser's runs. -/
abbrev Goes {α : Type} (floatText : Double → String) (x : Except ParseError α) (cs : List Check) : Prop :=
  Follows (Check.Fine floatText) Check.Trips Other x cs

theorem other_refusal {value : Yaml} {e : ParseError} (own : ¬ Other e) :
    Other (refusal value e) ↔ printable value = false := by
  unfold refusal
  cases text : printable value with
  | true => simpa using own
  | false => exact iff_of_true ⟨.valueError, rfl⟩ rfl

/-- A value that is refused with a message that prints it. -/
theorem goes_refused {α : Type} {c : Check} {cs : List Check} {value : Yaml} {e : ParseError}
    (unmet : ¬ c.Meets floatText) (prints : ∀ printed, c.Prints printed ↔ printed = value)
    (own : ¬ Other e) : Goes floatText (.error (refusal value e) : Except ParseError α) (c :: cs) := by
  refine Follows.failed (fun fine => unmet fine.1) ?_
  rw [other_refusal own, Check.Trips]
  simp [prints]

/-- A value that is refused without being printed. -/
theorem goes_refused_unprinted {α : Type} {c : Check} {cs : List Check} {e : ParseError}
    (unmet : ¬ c.Meets floatText) (prints : ∀ printed, ¬ c.Prints printed) (own : ¬ Other e) :
    Goes floatText (.error e : Except ParseError α) (c :: cs) :=
  Follows.failed (fun fine => unmet fine.1) (iff_of_false own fun ⟨_, printed, _⟩ => prints _ printed)

/-- A value that is accepted without being printed. -/
theorem goes_met {α : Type} {c : Check} {cs : List Check} {x : Except ParseError α}
    (met : c.Meets floatText) (prints : ∀ printed, ¬ c.Prints printed) (rest : Goes floatText x cs) :
    Goes floatText x (c :: cs) := by
  have clear : ¬ c.Trips := fun ⟨_, printed, _⟩ => prints _ printed
  exact Follows.passed ⟨met, clear⟩ clear rest

theorem own_of_ne {e : ParseError} (other : ∀ x, e ≠ .raised x) : ¬ Other e := fun ⟨x, same⟩ => other x same

/-- `str` of a scalar that is then kept. -/
theorem goes_str {c : Check} {key : Scalar} (met : c.Meets floatText)
    (prints : ∀ printed, c.Prints printed ↔ printed = .scalar key) :
    Goes floatText (str floatText key) [c] := by
  have trips : c.Trips ↔ printableScalar key = false := by simp [Check.Trips, prints, printable]
  unfold str
  cases text : printableScalar key with
  | true =>
      have clear : ¬ c.Trips := by simp [trips, text]
      exact Follows.passed ⟨met, clear⟩ clear (.pure _)
  | false =>
      have trip : c.Trips := trips.mpr text
      exact Follows.failed (fun fine => fine.2 trip) (iff_of_true ⟨.valueError, rfl⟩ trip)

theorem parseBool_goes (service name : String) (value : Yaml) :
    Goes floatText (parseBool service name value) [.bool value] := by
  unfold parseBool
  split
  · rename_i b
    exact goes_met ⟨b, rfl⟩ (by simp [Check.Prints, IsBool]) (.pure b)
  · rename_i noBool
    have unmet : ¬ IsBool value := fun ⟨b, same⟩ => noBool b same
    exact goes_refused unmet (fun printed => and_iff_left unmet) (own_of_ne (by simp))

theorem parseAutorestart_goes (service : String) (value : Yaml) :
    Goes floatText (parseAutorestart service value) [.autorestart value] := by
  unfold parseAutorestart
  split
  · rename_i b
    have met : IsAutorestart (.scalar (.bool b)) := .inl ⟨b, rfl⟩
    exact goes_met met (by simp [Check.Prints, met]) (.pure _)
  · rename_i s
    split
    · rename_i known
      have met : IsAutorestart (.str s) := .inr ⟨s, rfl, known⟩
      exact goes_met met (by simp [Check.Prints, met]) (.pure _)
    · rename_i unknown
      have unmet : ¬ IsAutorestart (.str s) := by simp [IsAutorestart, IsBool, unknown]
      have text : printable (.str s) = true := rfl
      have own : ParseError.autorestart service (.str s) =
          refusal (.str s) (.autorestart service (.str s)) := by rw [refusal, if_pos text]
      rw [own]
      exact goes_refused unmet (fun printed => and_iff_left unmet) (own_of_ne (by simp))
  · rename_i noBool noText
    have unmet : ¬ IsAutorestart value := by
      rintro (⟨b, same⟩ | ⟨s, same, -⟩)
      · exact noBool b same
      · exact noText s same
    exact goes_refused unmet (fun printed => and_iff_left unmet) (own_of_ne (by simp))

theorem parseNonnegInt_goes (service name : String) (value : Yaml) :
    Goes floatText (parseNonnegInt service name value) [.nonneg value] := by
  unfold parseNonnegInt
  split
  · rename_i i
    split
    · rename_i negative
      have unmet : ¬ IsNonneg (.scalar (.int i)) := by
        rintro ⟨j, same, least⟩
        cases same
        omega
      exact goes_refused unmet (fun printed => and_iff_left unmet) (own_of_ne (by simp))
    · rename_i least
      have met : IsNonneg (.scalar (.int i)) := ⟨i, rfl, by omega⟩
      exact goes_met met (by simp [Check.Prints, met]) (.pure i)
  · rename_i noInt
    have unmet : ¬ IsNonneg value := fun ⟨i, same, _⟩ => noInt i same
    exact goes_refused unmet (fun printed => and_iff_left unmet) (own_of_ne (by simp))

theorem parseArg_goes (service : String) (item : Yaml) :
    Goes floatText (parseArg floatText service item) [.arg item] := by
  unfold parseArg
  split
  · rename_i s
    exact goes_str (c := .arg (.str s)) (.inl ⟨s, rfl⟩) fun printed => Iff.rfl
  · rename_i i
    exact goes_str (c := .arg (.scalar (.int i))) (.inr (.inl ⟨i, rfl⟩)) fun printed => Iff.rfl
  · rename_i x
    exact goes_str (c := .arg (.scalar (.float x))) (.inr (.inr ⟨x, rfl⟩)) fun printed => Iff.rfl
  · rename_i noText noInt noFloat
    have unmet : ¬ IsArg item := by
      rintro (⟨s, same⟩ | ⟨i, same⟩ | ⟨x, same⟩)
      · exact noText s same
      · exact noInt i same
      · exact noFloat x same
    exact goes_refused unmet (fun printed => Iff.rfl) (own_of_ne (by simp))

theorem parseArgs_goes (service : String) (items : List Yaml) :
    Goes floatText (parseArgs floatText service items) (items.map .arg) := by
  induction items with
  | nil => exact .pure []
  | cons item rest ih =>
      exact (parseArg_goes service item).bind fun arg _ => ih.map fun more => arg :: more

theorem parseCmd_goes (service : String) (value : Yaml) :
    Goes floatText (parseCmd floatText service value) (cmdChecks value) := by
  unfold parseCmd cmdChecks
  split
  · exact goes_refused_unprinted (fun ⟨_, same, _⟩ => by cases same) (fun _ prints => prints.2.1 rfl)
      (own_of_ne (by simp))
  · rename_i item rest
    have met : IsNonemptyList (.seq (item :: rest)) := ⟨_, rfl, by simp⟩
    exact goes_met met (fun _ prints => prints.2.2 met) (parseArgs_goes service (item :: rest))
  · rename_i some_ noList
    have unmet : ¬ IsNonemptyList value := not_isNonemptyList noList
    exact goes_refused unmet (fun printed => and_iff_left ⟨some_, unmet⟩) (own_of_ne (by simp))

theorem parseEnvValue_goes (service key : String) (value : Yaml) :
    Goes floatText (parseEnvValue floatText service key value) [.envValue value] := by
  unfold parseEnvValue
  split
  · rename_i b
    have met : IsEnvValue (.scalar (.bool b)) := .inl ⟨b, rfl⟩
    have clear : ¬ (Check.envValue (.scalar (.bool b))).Trips := by
      rintro ⟨_, rfl, unprintable⟩
      cases unprintable
    exact Follows.passed ⟨met, clear⟩ clear (.pure _)
  · rename_i s
    exact goes_str (c := .envValue (.str s)) (.inr (.inl ⟨s, rfl⟩)) fun printed => Iff.rfl
  · rename_i i
    exact goes_str (c := .envValue (.scalar (.int i))) (.inr (.inr (.inl ⟨i, rfl⟩))) fun printed => Iff.rfl
  · rename_i x
    exact goes_str (c := .envValue (.scalar (.float x))) (.inr (.inr (.inr ⟨x, rfl⟩))) fun printed => Iff.rfl
  · rename_i noBool noText noInt noFloat
    have unmet : ¬ IsEnvValue value := by
      rintro (⟨b, same⟩ | ⟨s, same⟩ | ⟨i, same⟩ | ⟨x, same⟩)
      · exact noBool b same
      · exact noText s same
      · exact noInt i same
      · exact noFloat x same
    exact goes_refused unmet (fun printed => Iff.rfl) (own_of_ne (by simp))

theorem parseEnvEntries_goes (service : String) (entries : YamlMap) :
    Goes floatText (parseEnvEntries floatText service entries) (envEntryChecks entries) := by
  induction entries with
  | nil => exact .pure []
  | cons e rest ih =>
      obtain ⟨key, value⟩ := e
      show Goes floatText (parseEnvEntries floatText service ((key, value) :: rest))
        (.envKey key :: ([.envValue value] ++ envEntryChecks rest))
      have trips : (Check.envKey key).Trips ↔ printableScalar key = false := by
        simp [Check.Trips, Check.Prints, printable]
      unfold parseEnvEntries str
      cases text : printableScalar key with
      | false =>
          have trip := trips.mpr text
          exact Follows.failed (fun fine => fine.2 trip) (iff_of_true ⟨.valueError, rfl⟩ trip)
      | true =>
          have clear : ¬ (Check.envKey key).Trips := by simp [trips, text]
          simp only [if_true, bind, Except.bind]
          split
          · rename_i reserved
            exact Follows.failed (fun fine => fine.1 reserved) (iff_of_false (own_of_ne (by simp)) clear)
          · rename_i free
            refine Follows.passed ⟨free, clear⟩ clear ?_
            exact (parseEnvValue_goes service (scalarText floatText key) value).bind
              fun shown _ => ih.map fun more => (scalarText floatText key, shown) :: more

theorem parseEnv_goes (service : String) (value : Yaml) :
    Goes floatText (parseEnv floatText service value) (envChecks value) := by
  unfold parseEnv envChecks
  split
  · exact goes_met (.inl rfl) (fun _ prints => prints) (.pure ∅)
  · rename_i entries
    exact goes_met (.inr ⟨entries, rfl⟩) (fun _ prints => prints)
      ((parseEnvEntries_goes service entries).map OrderedDict.ofList)
  · rename_i some_ noMap
    exact goes_refused_unprinted (not_isMapping some_ noMap) (fun _ prints => prints) (own_of_ne (by simp))

theorem parseCodes_goes (service : String) (codes : List Yaml) :
    Goes floatText (parseCodes service codes) (codes.map .code) := by
  induction codes with
  | nil => exact .pure []
  | cons code rest ih =>
      by_cases isCode : IsCode code
      · obtain ⟨i, rfl⟩ := isCode
        have met : IsCode (.scalar (.int i)) := ⟨i, rfl⟩
        exact goes_met met (fun _ prints => prints.2 met) (ih.map fun more => i :: more)
      · have refused : parseCodes service (code :: rest) =
            .error (refusal code (.exitcode service code)) := by
          unfold parseCodes
          split
          · rename_i none_
            cases none_
          · rename_i i rest' same
            cases same
            exact absurd ⟨i, rfl⟩ isCode
          · rename_i code' rest' _ same
            cases same
            rfl
        rw [refused]
        exact goes_refused isCode (fun printed => and_iff_left isCode) (own_of_ne (by simp))

theorem parseExitcodes_goes (service : String) (value : Yaml) :
    Goes floatText (parseExitcodes service value) (exitcodesChecks value) := by
  unfold parseExitcodes exitcodesChecks
  split
  · rename_i i
    have met : IsCode (.scalar (.int i)) ∨ IsNonemptyList (.scalar (.int i)) := .inl ⟨i, rfl⟩
    exact goes_met met (fun _ prints => prints.2 met) (.pure [i])
  · rename_i code rest
    have met : IsCode (.seq (code :: rest)) ∨ IsNonemptyList (.seq (code :: rest)) :=
      .inr ⟨_, rfl, by simp⟩
    exact goes_met met (fun _ prints => prints.2 met) (parseCodes_goes service (code :: rest))
  · rename_i noInt noList
    have unmet : ¬ (IsCode value ∨ IsNonemptyList value) := by
      rintro (⟨i, same⟩ | isList)
      · exact noInt i same
      · exact not_isNonemptyList noList isList
    exact goes_refused unmet (fun printed => and_iff_left unmet) (own_of_ne (by simp))

theorem parseOne_goes (service : String) (value : Yaml) :
    Goes floatText (parseOne floatText service value) (specChecks value) := by
  cases value with
  | scalar s =>
      exact goes_refused_unprinted (fun ⟨_, same⟩ => by cases same) (fun _ prints => prints)
        (own_of_ne (by simp))
  | seq items =>
      exact goes_refused_unprinted (fun ⟨_, same⟩ => by cases same) (fun _ prints => prints)
        (own_of_ne (by simp))
  | map stanza =>
      refine goes_met (c := .spec (.map stanza)) ⟨stanza, rfl⟩ (fun _ prints => prints) ?_
      unfold parseOne stanzaChecks
      refine (parseCmd_goes service _).bind fun cmd _ => ?_
      refine (parseEnv_goes service _).bind fun env _ => ?_
      refine (parseBool_goes service _ _).bind fun autostart _ => ?_
      refine (parseAutorestart_goes service _).bind fun autorestart _ => ?_
      refine (parseNonnegInt_goes service _ _).bind fun startsecs _ => ?_
      refine (parseNonnegInt_goes service _ _).bind fun startretries _ => ?_
      refine (parseNonnegInt_goes service _ _).bind fun stopwaitsecs _ => ?_
      refine (parseExitcodes_goes service _).bind fun exitcodes _ => ?_
      exact (parseBool_goes service _ _).map fun oneshot =>
        ServiceSpec.mk service cmd env autostart autorestart startsecs startretries stopwaitsecs exitcodes
          oneshot

theorem parseEntries_goes (entries : YamlMap) :
    Goes floatText (parseEntries floatText entries) (entryChecks entries) := by
  induction entries with
  | nil => exact .pure []
  | cons e rest ih =>
      obtain ⟨key, value⟩ := e
      show Goes floatText (parseEntries floatText ((key, value) :: rest))
        (([.name key] ++ specChecks value) ++ entryChecks rest)
      rw [List.append_assoc]
      unfold parseEntries
      refine (goes_str (c := .name key) trivial fun printed => Iff.rfl).bind fun name _ => ?_
      exact (parseOne_goes name value).bind fun spec _ => ih.map fun more => (name, spec) :: more

/-- **The parser goes through the checks** and stops at the first that is not met. -/
theorem parseServices_follows (raw : Yaml) : Goes floatText (parseServices floatText raw) (checks raw) := by
  unfold parseServices checks
  split
  · exact goes_met (.inl rfl) (fun _ prints => prints) (.pure ∅)
  · rename_i entries
    exact goes_met (.inr ⟨entries, rfl⟩) (fun _ prints => prints)
      ((parseEntries_goes entries).map OrderedDict.ofList)
  · rename_i some_ noMap
    exact goes_refused_unprinted (not_isMapping some_ noMap) (fun _ prints => prints) (own_of_ne (by simp))

end Follow

/-! ## The checks are the rules -/

section Met

variable {floatText : Double → String}

theorem cmdChecks_meet {value : Yaml} :
    (∀ c ∈ cmdChecks value, c.Meets floatText) ↔ IsNonemptyList value ∧ ∀ item ∈ itemsOf value, IsArg item := by
  rw [cmdChecks, List.forall_mem_cons, List.forall_mem_map]
  exact Iff.rfl

theorem envChecks_meet {value : Yaml} :
    (∀ c ∈ envChecks value, c.Meets floatText) ↔
      IsMapping value ∧ ∀ e ∈ value.entries, scalarText floatText e.1 ∉ reservedEnv ∧ IsEnvValue e.2 := by
  rw [envChecks, List.forall_mem_cons, envEntryChecks, List.forall_mem_flatMap]
  refine and_congr Iff.rfl (forall₂_congr fun e _ => ?_)
  rw [List.forall_mem_cons, List.forall_mem_singleton]
  exact Iff.rfl

theorem exitcodesChecks_meet {value : Yaml} :
    (∀ c ∈ exitcodesChecks value, c.Meets floatText) ↔
      (IsCode value ∨ IsNonemptyList value) ∧ ∀ code ∈ itemsOf value, IsCode code := by
  rw [exitcodesChecks, List.forall_mem_cons, List.forall_mem_map]
  exact Iff.rfl

theorem stanzaChecks_meet {stanza : YamlMap} :
    (∀ c ∈ stanzaChecks stanza, c.Meets floatText) ↔ StanzaRules floatText stanza := by
  simp only [stanzaChecks, List.forall_mem_append, cmdChecks_meet, envChecks_meet, exitcodesChecks_meet,
    List.forall_mem_singleton]
  constructor
  · rintro ⟨⟨cmd, args⟩, ⟨env, envEntries⟩, autostart, autorestart, startsecs, startretries, stopwaitsecs,
      ⟨exitcodes, codes⟩, oneshot⟩
    exact ⟨cmd, args, env, envEntries, autostart, autorestart, startsecs, startretries, stopwaitsecs,
      exitcodes, codes, oneshot⟩
  · intro rules
    exact ⟨⟨rules.cmd, rules.args⟩, ⟨rules.env, rules.envEntries⟩, rules.autostart, rules.autorestart,
      rules.startsecs, rules.startretries, rules.stopwaitsecs, ⟨rules.exitcodes, rules.codes⟩, rules.oneshot⟩

theorem specChecks_meet {value : Yaml} :
    (∀ c ∈ specChecks value, c.Meets floatText) ↔
      ∃ stanza, value = .map stanza ∧ StanzaRules floatText stanza := by
  cases value with
  | map stanza =>
      rw [specChecks, List.forall_mem_cons, stanzaChecks_meet]
      constructor
      · exact fun both => ⟨stanza, rfl, both.2⟩
      · rintro ⟨_, ⟨⟩, rules⟩
        exact ⟨⟨stanza, rfl⟩, rules⟩
  | scalar s =>
      rw [specChecks, List.forall_mem_singleton]
      · simp [Check.Meets]
      · simp
  | seq items =>
      rw [specChecks, List.forall_mem_singleton]
      · simp [Check.Meets]
      · simp

/-- **The rules of a document** are those of its checks. -/
theorem valid_iff {raw : Yaml} : Valid floatText raw ↔ ∀ c ∈ checks raw, c.Meets floatText := by
  rw [checks, List.forall_mem_cons, entryChecks, List.forall_mem_flatMap]
  refine and_congr Iff.rfl (forall₂_congr fun e _ => ?_)
  rw [List.forall_mem_cons, specChecks_meet]
  exact (and_iff_right trivial).symm

end Met

/-! ## One spec for every stanza -/

section Each

variable (floatText : Double → String)

/-- One variable for every entry, in order, under the text of its key. -/
def EnvKept (value : Yaml) (spec : ServiceSpec) : Prop :=
  match value with
  | .map entries => List.Forall₂ (fun e v => v.1 = scalarText floatText e.1 ∧
      parseEnvValue floatText spec.name v.1 e.2 = .ok v.2) entries spec.env.entries
  | _ => spec.env.entries = []

/-- The spec of a stanza, under the text of its name. -/
structure StandsFor (e : Scalar × Yaml) (s : String × ServiceSpec) : Prop where
  key : s.1 = scalarText floatText e.1
  name : s.2.name = s.1
  parsed : parseOne floatText s.1 e.2 = .ok s.2
  env : ∃ stanza, e.2 = .map stanza ∧ EnvKept floatText (field stanza "env" .null) s.2
  free : ∀ key ∈ reservedEnv, key ∉ s.2.env.keys

/-- Exactly one spec for every stanza, in the order of the file. -/
def OneEach (raw : Yaml) (specs : OrderedDict String ServiceSpec) : Prop :=
  List.Forall₂ (StandsFor floatText) raw.entries specs.entries

/-- No two keys of the `env` of an entry print alike. -/
def EnvDistinct (e : Scalar × Yaml) : Prop :=
  ∀ stanza env, e.2 = .map stanza → field stanza "env" .null = .map env →
    (env.map fun v => scalarText floatText v.1).Nodup

/-- No two service names print alike, nor do two keys of one `env`. -/
def Distinct (raw : Yaml) : Prop :=
  (raw.entries.map fun e => scalarText floatText e.1).Nodup ∧ ∀ e ∈ raw.entries, EnvDistinct floatText e

end Each

section Counted

variable {floatText : Double → String}

theorem str_ok_iff {key : Scalar} {text : String} :
    str floatText key = .ok text ↔ printableScalar key = true ∧ text = scalarText floatText key := by
  unfold str
  cases printableScalar key with
  | true => simp [eq_comm]
  | false => simp

theorem parseEntries_each {entries : YamlMap} {out : List (String × ServiceSpec)}
    (parsed : parseEntries floatText entries = .ok out) :
    List.Forall₂ (fun e s => s.1 = scalarText floatText e.1 ∧ parseOne floatText s.1 e.2 = .ok s.2)
      entries out := by
  induction entries generalizing out with
  | nil =>
      cases parsed
      exact .nil
  | cons e rest ih =>
      obtain ⟨key, value⟩ := e
      obtain ⟨name, named, parsed⟩ := except_bind_ok_iff.mp parsed
      obtain ⟨spec, one, parsed⟩ := except_bind_ok_iff.mp parsed
      obtain ⟨more, others, same⟩ := except_bind_ok_iff.mp parsed
      cases same
      exact .cons ⟨(str_ok_iff.mp named).2, one⟩ (ih others)

theorem parseEnvEntries_each {service : String} {entries : YamlMap} {out : List (String × String)}
    (parsed : parseEnvEntries floatText service entries = .ok out) :
    List.Forall₂ (fun e v => v.1 = scalarText floatText e.1 ∧
      parseEnvValue floatText service v.1 e.2 = .ok v.2) entries out := by
  induction entries generalizing out with
  | nil =>
      cases parsed
      exact .nil
  | cons e rest ih =>
      obtain ⟨key, value⟩ := e
      obtain ⟨text, keyed, guarded⟩ := except_bind_ok_iff.mp parsed
      split at guarded
      · cases guarded
      · obtain ⟨shown, one, later⟩ := except_bind_ok_iff.mp guarded
        obtain ⟨more, others, same⟩ := except_bind_ok_iff.mp later
        cases same
        exact .cons ⟨(str_ok_iff.mp keyed).2, one⟩ (ih others)

/-- Pairs that match entry for entry have the texts of the keys as keys. -/
theorem keys_of_forall₂ {V : Type} {R : Scalar × Yaml → String × V → Prop} {entries : YamlMap}
    {out : List (String × V)} (each : List.Forall₂ R entries out)
    (keyed : ∀ e s, R e s → s.1 = scalarText floatText e.1) :
    out.map Prod.fst = entries.map fun e => scalarText floatText e.1 := by
  induction each with
  | nil => rfl
  | cons one _ ih => simp only [List.map_cons, keyed _ _ one, ih]

theorem parseOne_env {service : String} {value : Yaml} {spec : ServiceSpec}
    (parsed : parseOne floatText service value = .ok spec) :
    spec.name = service ∧ ∃ stanza, value = .map stanza ∧
      parseEnv floatText service (field stanza "env" .null) = .ok spec.env := by
  cases value with
  | scalar s => cases parsed
  | seq items => cases parsed
  | map stanza =>
      simp only [parseOne, except_bind_ok_iff] at parsed
      obtain ⟨_, _, _, env, _, _, _, _, _, _, _, _, _, _, _, _, _, _, same⟩ := parsed
      cases same
      exact ⟨rfl, stanza, rfl, env⟩

/-- The variables of a spec are those of its stanza, if no two keys there print alike. -/
theorem envKept_iff {value : Yaml} {spec : ServiceSpec}
    (parsed : parseEnv floatText spec.name value = .ok spec.env) :
    EnvKept floatText value spec ↔
      ∀ env, value = .map env → (env.map fun v => scalarText floatText v.1).Nodup := by
  cases value with
  | map entries =>
      obtain ⟨out, read, same⟩ := except_bind_ok_iff.mp parsed
      have each := parseEnvEntries_each read
      have keys := keys_of_forall₂ each fun _ _ both => both.1
      constructor
      · rintro kept env ⟨⟩
        have kept : List.Forall₂ (fun e v => v.1 = scalarText floatText e.1 ∧
            parseEnvValue floatText spec.name v.1 e.2 = .ok v.2) entries spec.env.entries := kept
        rw [← keys_of_forall₂ kept fun _ _ both => both.1]
        exact spec.env.nodup
      · intro distinct
        have all := distinct entries rfl
        rw [← keys] at all
        show List.Forall₂ _ entries spec.env.entries
        rw [← Except.ok.inj same, OrderedDict.entries_ofList _ all]
        exact each
  | scalar s =>
      refine iff_of_true ?_ (by simp)
      cases s with
      | null =>
          have empty : ∅ = spec.env := Except.ok.inj parsed
          show spec.env.entries = []
          rw [← empty]
          rfl
      | _ => cases parsed
  | seq items => cases parsed

theorem standsFor_iff {e : Scalar × Yaml} {s : String × ServiceSpec}
    (key : s.1 = scalarText floatText e.1) (parsed : parseOne floatText s.1 e.2 = .ok s.2) :
    StandsFor floatText e s ↔ EnvDistinct floatText e := by
  obtain ⟨name, stanza, shape, env⟩ := parseOne_env parsed
  have free := parseEnv_free env
  rw [← name] at env
  constructor
  · rintro ⟨-, -, -, ⟨stanza', shape', kept⟩, -⟩ stanza'' env' shape'' value
    cases shape.symm.trans shape'
    cases shape.symm.trans shape''
    exact (envKept_iff env).mp kept env' value
  · intro distinct
    exact ⟨key, name, parsed, ⟨stanza, shape, (envKept_iff env).mpr (distinct stanza · shape)⟩, free⟩

/-- **Nothing is lost** of an accepted document exactly if no two service names print
alike, nor do two keys of one `env`. -/
theorem oneEach_iff {raw : Yaml} {specs : OrderedDict String ServiceSpec}
    (parsed : parseServices floatText raw = .ok specs) :
    OneEach floatText raw specs ↔ Distinct floatText raw := by
  have read : ∃ out, parseEntries floatText raw.entries = .ok out ∧ specs = .ofList out := by
    unfold parseServices at parsed
    split at parsed
    · cases parsed
      exact ⟨[], rfl, rfl⟩
    · obtain ⟨out, read, same⟩ := except_bind_ok_iff.mp parsed
      exact ⟨out, read, (Except.ok.inj same).symm⟩
    · cases parsed
  obtain ⟨out, read, rfl⟩ := read
  have each := parseEntries_each read
  have keys := keys_of_forall₂ each fun _ _ both => both.1
  constructor
  · intro kept
    refine ⟨?_, ?_⟩
    · rw [← keys_of_forall₂ kept fun _ _ stands => stands.key]
      exact (OrderedDict.ofList out).nodup
    · have both := kept.imp fun e s stands =>
        (⟨(standsFor_iff stands.key stands.parsed).mp stands, stands⟩ :
          EnvDistinct floatText e ∧ StandsFor floatText e s)
      exact ((List.forall₂_and_left _ _).mp both).1
  · rintro ⟨names, envs⟩
    rw [← keys] at names
    unfold OneEach
    rw [OrderedDict.entries_ofList _ names]
    exact ((List.forall₂_and_left _ _).mpr ⟨envs, each⟩).imp fun e s both =>
      (standsFor_iff both.2.1 both.2.2).mpr both.1

end Counted

/-! ## The validator as a whole -/

/-- The parser raises a `ServicesError` and nothing else, or returns; it returns exactly on
the valid documents; and then nothing is lost. -/
structure ValidatesExactly (floatText : Double → String) (raw : Yaml) : Prop where
  own : ∀ x, parseServices floatText raw ≠ .error (.raised x)
  returns : (∃ specs, parseServices floatText raw = .ok specs) ↔ Valid floatText raw
  kept : ∀ specs, parseServices floatText raw = .ok specs → OneEach floatText raw specs

/-- Of the checks in order, none needs a text that cannot be made before one is not met. -/
def Printed (floatText : Double → String) (raw : Yaml) : Prop :=
  ∀ before c after, checks raw = before ++ c :: after → (∀ b ∈ before, b.Fine floatText) → ¬ c.Trips

/-- **`parse_services` is an exact validator that loses nothing** exactly if no integer of
too many digits has to be printed before a rule is broken, and, of a valid document, no two
service names print alike and no two keys of one `env`. -/
theorem validates_exactly_iff (floatText : Double → String) (raw : Yaml) :
    ValidatesExactly floatText raw ↔
      Printed floatText raw ∧ (Valid floatText raw → Distinct floatText raw) := by
  have follows : Goes floatText (parseServices floatText raw) (checks raw) := parseServices_follows raw
  have printed : Printed floatText raw ↔ ∀ x, parseServices floatText raw ≠ .error (.raised x) := by
    have raises := follows.raises
    rw [tripsFirst_iff] at raises
    constructor
    · intro clear x raised
      obtain ⟨before, c, after, split, fine, trip⟩ := raises.mp ⟨_, raised, x, rfl⟩
      exact clear before c after split fine trip
    · intro own before c after split fine trip
      obtain ⟨_, raised, x, rfl⟩ := raises.mpr ⟨before, c, after, split, fine, trip⟩
      exact own x raised
  -- where every text can be made, a check that is met is fine
  have returns : Printed floatText raw →
      ((∃ specs, parseServices floatText raw = .ok specs) ↔ Valid floatText raw) := by
    intro clear
    rw [follows.ok, valid_iff]
    refine ⟨fun all c mem => (all c mem).1, fun all => ?_⟩
    have upTo : ∀ after before, checks raw = before ++ after → (∀ b ∈ before, b.Fine floatText) →
        ∀ c ∈ after, c.Fine floatText := by
      intro after
      induction after with
      | nil => simp
      | cons c rest ih =>
          intro before split fine
          have here : c.Fine floatText :=
            ⟨all c (by simp [split]), clear before c rest split fine⟩
          refine List.forall_mem_cons.mpr ⟨here, ih (before ++ [c]) (by simp [split]) ?_⟩
          intro b mem
          rcases List.mem_append.mp mem with earlier | last
          · exact fine b earlier
          · rw [List.mem_singleton.mp last]
            exact here
    exact upTo (checks raw) [] rfl (by simp)
  constructor
  · rintro ⟨own, returns', kept⟩
    refine ⟨printed.mpr own, fun valid => ?_⟩
    obtain ⟨specs, parsed⟩ := returns'.mpr valid
    exact (oneEach_iff parsed).mp (kept specs parsed)
  · rintro ⟨clear, distinct⟩
    refine ⟨printed.mp clear, returns clear, fun specs parsed => ?_⟩
    exact (oneEach_iff parsed).mpr (distinct ((returns clear).mp ⟨specs, parsed⟩))

namespace Demo

/-- `{yes: {cmd: [a]}, "True": {cmd: [b]}}`; `yes` is a boolean. -/
def twiceTrue : Yaml :=
  .map [(.bool true, .map [(.str "cmd", .seq [.str "a"])]),
    (.str "True", .map [(.str "cmd", .seq [.str "b"])])]

theorem cmd_rules (word : String) : StanzaRules (fun _ => "") [(.str "cmd", .seq [.str word])] where
  cmd := ⟨[.str word], rfl, by simp⟩
  args := List.forall_mem_singleton.mpr (.inl ⟨word, rfl⟩)
  env := .inl rfl
  envEntries := by
    intro e mem
    cases mem
  autostart := ⟨true, rfl⟩
  autorestart := .inr ⟨"unexpected", rfl, by decide⟩
  startsecs := ⟨1, rfl, by decide⟩
  startretries := ⟨3, rfl, by decide⟩
  stopwaitsecs := ⟨10, rfl, by decide⟩
  exitcodes := .inr ⟨[.scalar (.int 0)], rfl, by simp⟩
  codes := List.forall_mem_singleton.mpr ⟨0, rfl⟩
  oneshot := ⟨false, rfl⟩

end Demo

/-- Of two services whose names print alike one is lost. -/
theorem service_lost :
    Valid (fun _ => "") Demo.twiceTrue ∧
      (∃ specs, parseServices (fun _ => "") Demo.twiceTrue = .ok specs ∧ specs.keys = ["True"]) ∧
      ¬ ValidatesExactly (fun _ => "") Demo.twiceTrue := by
  have parsed : ∃ specs, parseServices (fun _ => "") Demo.twiceTrue = .ok specs ∧ specs.keys = ["True"] :=
    ⟨_, rfl, rfl⟩
  refine ⟨⟨.inr ⟨_, rfl⟩, ?_⟩, parsed, ?_⟩
  · intro e mem
    simp only [Demo.twiceTrue, Yaml.entries, List.mem_cons, List.not_mem_nil, or_false] at mem
    rcases mem with rfl | rfl
    · exact ⟨_, rfl, Demo.cmd_rules "a"⟩
    · exact ⟨_, rfl, Demo.cmd_rules "b"⟩
  · intro exact_
    obtain ⟨specs, ran, keys⟩ := parsed
    have both := (exact_.kept specs ran).length_eq
    have one := congrArg List.length keys
    simp only [OrderedDict.keys, List.length_map, List.length_cons, List.length_nil] at one
    rw [one] at both
    simp [Demo.twiceTrue, Yaml.entries] at both

end KoyuRuntime.Warden
