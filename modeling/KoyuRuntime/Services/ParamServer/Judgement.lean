/-
# Services.ParamServer.Judgement — what decides a request

A request is judged against the struct and its parameter's bounds, and neither changes
as requests are applied: only the `value` of an entry does (`judge_alike`).  So every
request of a batch is decided as if it were alone (`applyAll_judged`).

`Judgeable` says which requests are decided at all: on every other request some
operator of the checks raises (`judge_ok_iff`).
-/
import KoyuRuntime.Services.ParamServer.Server
import KoyuRuntime.Theory.Raising

namespace KoyuRuntime.Services.ParamServer

open Host Theory

set_option autoImplicit false

/-! ## Requests that can be judged -/

/-- The value of a request. -/
def valueIn (members : JsonObj) : Json := (JsonObj.get? members "value").getD .null

/-- The probe answers: the value is a `bool`, or `setattr` takes it or raises `TypeError`. -/
def Probeable (T : StructType) (key : String) (val : Json) : Prop :=
  (∃ b, val = .bool b) ∨ T.setattr key val = .ok () ∨ T.setattr key val = .error .typeError

/-- The struct takes the value. -/
def Takes (T : StructType) (key : String) (val : Json) : Prop :=
  (∀ b, val ≠ .bool b) ∧ T.setattr key val = .ok ()

/-- Where an entry has both bounds, they compare with the value. -/
def Comparable (entry : JsonObj) (val : Json) : Prop :=
  ∀ low high, JsonObj.get? entry "min" = some low → JsonObj.get? entry "max" = some high →
    ∃ above, low.le val = .ok above ∧ (above = true → ∃ below, val.le high = .ok below)

/-- An object whose key can be looked up and, where it names an entry, whose value the
probe answers for and, if it fits, whose entry is an object with comparable bounds. -/
def Judgeable (T : StructType) (params req : Json) : Prop :=
  ∃ members entries, req = .obj members ∧ params = .obj entries ∧
    ((JsonObj.get? members "key").getD .null).hashable = true ∧
    ∀ key entry, JsonObj.get? members "key" = some (.str key) → JsonObj.get? entries key = some entry →
      entry ≠ .null →
        Probeable T key (valueIn members) ∧
          (Takes T key (valueIn members) →
            ∃ bounds, entry = .obj bounds ∧ Comparable bounds (valueIn members))

section Judge

variable {T : StructType} {key : String} {val entry : Json}

theorem fits_ok_iff : (∃ b, fits T key val = .ok b) ↔ Probeable T key val := by
  unfold fits Probeable
  cases val with
  | bool b => simp
  | _ =>
      simp only [reduceCtorEq, exists_const, false_or]
      split
      · rename_i took
        simp [took]
      · rename_i refused
        simp [refused]
      · rename_i e other raised
        simpa [raised] using other

theorem fits_iff : fits T key val = .ok true ↔ Takes T key val := by
  unfold fits Takes
  cases val with
  | bool b => simp
  | _ =>
      simp only [ne_eq, reduceCtorEq, not_false_eq_true, implies_true, true_and]
      split
      · rename_i took
        simp [took]
      · rename_i refused
        simp [refused]
      · rename_i e other raised
        simp [raised]

theorem outside_ok_iff {bounds : JsonObj} :
    (∃ found, outside (.obj bounds) val = .ok found) ↔ Comparable bounds val := by
  unfold outside Comparable
  cases low : JsonObj.get? bounds "min" with
  | none => simp [Json.contains, low, bind, Except.bind, pure, Except.pure]
  | some l =>
      cases high : JsonObj.get? bounds "max" with
      | none => simp [Json.contains, low, high, bind, Except.bind, pure, Except.pure]
      | some h =>
          simp only [Json.contains, Json.item, low, high, bind, Except.bind, pure, Except.pure]
          cases above : l.le val with
          | error e => simp [above]
          | ok up =>
              cases up with
              | false => simp [above]
              | true =>
                  cases below : val.le h with
                  | error e => simp [above, below]
                  | ok down => cases down <;> simp [above, below]

/-- An entry that is no object raises where its bounds are read or its value is set. -/
theorem outside_no_object (other : ∀ bounds, entry ≠ .obj bounds) {found : Option (Json × Json)}
    (ran : outside entry val = .ok found) : found = none := by
  unfold outside at ran
  cases entry with
  | obj bounds => exact absurd rfl (other bounds)
  | null | bool b | int i | float x => simp [Json.contains, bind, Except.bind] at ran
  | str s | arr items =>
      simp only [Json.contains, Json.item, bind, Except.bind, pure, Except.pure] at ran
      split at ran
      · split at ran
        · cases ran
        · exact (Except.ok.inj ran).symm
      · exact (Except.ok.inj ran).symm

theorem checkEntry_ok_iff :
    (∃ ruling, checkEntry T key val entry = .ok ruling) ↔
      Probeable T key val ∧ (Takes T key val → ∃ bounds, entry = .obj bounds ∧ Comparable bounds val) := by
  rw [← fits_ok_iff, ← fits_iff]
  unfold checkEntry
  cases fit : fits T key val with
  | error e => simp [bind, Except.bind]
  | ok b =>
      cases b with
      | false => simp [bind, Except.bind, pure, Except.pure]
      | true =>
          simp only [bind, Except.bind, if_true, Except.ok.injEq, exists_eq', true_and, forall_const]
          constructor
          · rintro ⟨ruling, ran⟩
            cases found : outside entry val with
            | error e => simp [found] at ran
            | ok range =>
                cases entry with
                | obj bounds => exact ⟨bounds, rfl, outside_ok_iff.mp ⟨range, found⟩⟩
                | _ =>
                    have none_ := outside_no_object (by simp) found
                    subst none_
                    simp [found, throw, throwThe, MonadExceptOf.throw] at ran
          · rintro ⟨bounds, rfl, comparable⟩
            obtain ⟨range, found⟩ := outside_ok_iff.mpr comparable
            rw [found]
            cases range with
            | none => exact ⟨_, rfl⟩
            | some range => exact ⟨_, rfl⟩

/-- The lookups of a request that is an object, in a document. -/
theorem judge_obj (members entries : JsonObj) :
    judge T (.obj entries) (.obj members) =
      (Json.get (.obj entries) ((JsonObj.get? members "key").getD .null)).bind fun entry =>
        match (JsonObj.get? members "key").getD .null, entry with
        | _, .null => .ok (.reject (.unknown ((JsonObj.get? members "key").getD .null)))
        | .str name, entry => checkEntry T name (valueIn members) entry
        | key, _ => .ok (.reject (.unknown key)) := rfl

/-- A key that is a text names an entry, or none. -/
theorem judge_named {members entries : JsonObj} {name : String}
    (named : JsonObj.get? members "key" = some (.str name)) :
    judge T (.obj entries) (.obj members) =
      match JsonObj.get? entries name with
      | none => .ok (.reject (.unknown (.str name)))
      | some .null => .ok (.reject (.unknown (.str name)))
      | some entry => checkEntry T name (valueIn members) entry := by
  rw [judge_obj, named]
  simp only [Option.getD_some, Json.get, Except.bind]
  cases JsonObj.get? entries name with
  | none => rfl
  | some entry => cases entry <;> rfl

/-- A key that is no text names none, if it can be looked up. -/
theorem judge_unnamed {members entries : JsonObj}
    (unnamed : ∀ name, JsonObj.get? members "key" ≠ some (.str name)) :
    judge T (.obj entries) (.obj members) =
      if ((JsonObj.get? members "key").getD .null).hashable then
        .ok (.reject (.unknown ((JsonObj.get? members "key").getD .null)))
      else .error .typeError := by
  rw [judge_obj]
  cases key : JsonObj.get? members "key" with
  | none => rfl
  | some k =>
      cases k with
      | str name => exact absurd key (unnamed name)
      | _ => rfl

/-- **Which requests are decided.** -/
theorem judge_ok_iff {params req : Json} :
    (∃ ruling, judge T params req = .ok ruling) ↔ Judgeable T params req := by
  unfold Judgeable
  cases req with
  | obj members =>
      cases params with
      | obj entries =>
          simp only [Json.obj.injEq, exists_and_left, exists_eq_left']
          by_cases text : ∃ name, JsonObj.get? members "key" = some (.str name)
          · obtain ⟨name, named⟩ := text
            rw [judge_named named, named]
            cases found : JsonObj.get? entries name with
            | none =>
                refine iff_of_true ⟨_, rfl⟩ ⟨rfl, ?_⟩
                rintro _ entry ⟨⟩ there
                rw [found] at there
                cases there
            | some entry =>
                by_cases null : entry = .null
                · subst null
                  refine iff_of_true ⟨_, rfl⟩ ⟨rfl, ?_⟩
                  rintro _ entry ⟨⟩ there some_
                  rw [found, Option.some.injEq] at there
                  exact absurd there.symm some_
                · have checked : (match some entry with
                      | none => .ok (.reject (.unknown (.str name)))
                      | some .null => .ok (.reject (.unknown (.str name)))
                      | some entry => checkEntry T name (valueIn members) entry) =
                        checkEntry T name (valueIn members) entry := by
                    cases entry <;> first | rfl | exact absurd rfl null
                  rw [checked, checkEntry_ok_iff]
                  constructor
                  · intro decided
                    refine ⟨rfl, ?_⟩
                    rintro _ entry' ⟨⟩ there _
                    rw [found, Option.some.injEq] at there
                    exact there ▸ decided
                  · rintro ⟨-, all⟩
                    exact all name entry rfl found null
          · push Not at text
            rw [judge_unnamed text]
            cases hashed : ((JsonObj.get? members "key").getD .null).hashable with
            | false => simp
            | true => simpa using fun key entry named => absurd named (text key)
      | _ => simp [judge, Json.get, bind, Except.bind]
  | _ => simp [judge, Json.get, bind, Except.bind]

/-- An accepted request: its key names an entry that is an object, the struct takes its
value, and no bounds of the entry leave it out. -/
theorem judge_accept_entry {params req : Json} (accepted : judge T params req = .ok (.accept key val)) :
    Takes T key val ∧ ∃ entries bounds, params = .obj entries ∧
      JsonObj.get? entries key = some (.obj bounds) ∧ outside (.obj bounds) val = .ok none := by
  obtain ⟨members, entries, rfl, rfl, hashed, -⟩ := judge_ok_iff.mp ⟨_, accepted⟩
  by_cases text : ∃ name, JsonObj.get? members "key" = some (.str name)
  swap
  · push Not at text
    rw [judge_unnamed text, if_pos hashed] at accepted
    cases accepted
  obtain ⟨name, named⟩ := text
  rw [judge_named named] at accepted
  have checked : ∃ entry, JsonObj.get? entries name = some entry ∧
      checkEntry T name (valueIn members) entry = .ok (.accept key val) := by
    split at accepted
    · cases accepted
    · cases accepted
    · rename_i entry _ found
      exact ⟨entry, found, accepted⟩
  obtain ⟨entry, found, accepted⟩ := checked
  unfold checkEntry at accepted
  obtain ⟨fit, fitted, accepted⟩ := except_bind_ok_iff.mp accepted
  cases fit with
  | false => cases accepted
  | true =>
      rw [if_pos rfl] at accepted
      obtain ⟨range, inside, accepted⟩ := except_bind_ok_iff.mp accepted
      cases range with
      | some range => cases accepted
      | none =>
          cases entry with
          | obj bounds =>
              cases accepted
              exact ⟨fits_iff.mp fitted, entries, bounds, rfl, found, inside⟩
          | _ => cases accepted

theorem judge_accept {params req : Json} (accepted : judge T params req = .ok (.accept key val)) :
    Takes T key val ∧ ∃ entries bounds, params = .obj entries ∧
      JsonObj.get? entries key = some (.obj bounds) := by
  obtain ⟨takes, entries, bounds, doc, found, -⟩ := judge_accept_entry accepted
  exact ⟨takes, entries, bounds, doc, found⟩

end Judge

/-! ## Applying requests changes no judgement -/

/-- The same entry, or two objects that differ in their `value` only. -/
inductive EntryAlike : Option Json → Option Json → Prop where
  | same (entry : Option Json) : EntryAlike entry entry
  | valued (entry entry' : JsonObj)
      (bounds : ∀ m, m ≠ "value" → JsonObj.get? entry m = JsonObj.get? entry' m) :
      EntryAlike (some (.obj entry)) (some (.obj entry'))

/-- Two documents that differ in the `value` of some entries only. -/
inductive DocAlike : Json → Json → Prop where
  | same (params : Json) : DocAlike params params
  | entries (entries entries' : JsonObj)
      (each : ∀ key, EntryAlike (JsonObj.get? entries key) (JsonObj.get? entries' key)) :
      DocAlike (.obj entries) (.obj entries')

section Alike

variable {T : StructType} {params params' req : Json} {key : String} {val : Json}

theorem EntryAlike.trans {a b c : Option Json} (first : EntryAlike a b) (later : EntryAlike b c) :
    EntryAlike a c := by
  cases first with
  | same => exact later
  | valued entry entry' bounds =>
      cases later with
      | same => exact .valued entry entry' bounds
      | valued _ entry'' bounds' => exact .valued _ _ fun m other => (bounds m other).trans (bounds' m other)

theorem DocAlike.trans {params'' : Json} (first : DocAlike params params')
    (later : DocAlike params' params'') : DocAlike params params'' := by
  cases first with
  | same => exact later
  | entries entries entries' each =>
      cases later with
      | same => exact .entries entries entries' each
      | entries _ entries'' each' => exact .entries _ _ fun key => (each key).trans (each' key)

/-- The document with a value set, for a key that has an entry. -/
theorem setValue_obj {entries entry : JsonObj} {key : String} (val : Json)
    (found : JsonObj.get? entries key = some (.obj entry)) :
    setValue key val (.obj entries) =
      .obj (OrderedDict.put key (.obj (OrderedDict.put "value" val entry)) entries) := by
  simp only [setValue, found]

/-- Setting a value keeps everything else of the document. -/
theorem setValue_alike (key : String) (val params : Json) : DocAlike params (setValue key val params) := by
  cases params with
  | obj entries =>
      cases found : JsonObj.get? entries key with
      | none =>
          simp only [setValue, found]
          exact .same _
      | some old =>
          cases old with
          | obj entry =>
              rw [setValue_obj val found]
              refine .entries _ _ fun k => ?_
              rw [JsonObj.get?_put]
              by_cases here : key = k
              · subst here
                rw [if_pos rfl, found]
                refine .valued _ _ fun m other => ?_
                rw [JsonObj.get?_put, if_neg (Ne.symm other)]
              · rw [if_neg here]
                exact .same _
          | _ =>
              simp only [setValue, found]
              exact .same _
  | _ => exact .same _

theorem checkEntry_congr {entry entry' : JsonObj}
    (bounds : ∀ m, m ≠ "value" → JsonObj.get? entry m = JsonObj.get? entry' m) :
    checkEntry T key val (.obj entry) = checkEntry T key val (.obj entry') := by
  have low := bounds "min" (by decide)
  have high := bounds "max" (by decide)
  have range : outside (.obj entry) val = outside (.obj entry') val := by
    simp only [outside, Json.contains, Json.item, low, high]
  unfold checkEntry
  rw [range]

/-- **A request is judged by the struct and the bounds alone.** -/
theorem judge_alike (alike : DocAlike params params') : judge T params req = judge T params' req := by
  cases alike with
  | same => rfl
  | entries entries entries' each =>
      cases req with
      | obj members =>
          by_cases text : ∃ name, JsonObj.get? members "key" = some (.str name)
          · obtain ⟨name, named⟩ := text
            rw [judge_named named, judge_named named]
            have one := each name
            generalize JsonObj.get? entries name = found, JsonObj.get? entries' name = found' at one
            cases one with
            | same => rfl
            | valued entry entry' bounds => exact checkEntry_congr bounds
          · push Not at text
            rw [judge_unnamed text, judge_unnamed text]
      | _ => rfl

/-- So the requests applied before it do not matter. -/
theorem judge_setValue (key : String) (val : Json) :
    judge T (setValue key val params) req = judge T params req :=
  (judge_alike (setValue_alike key val params)).symm

end Alike

/-! ## One batch -/

/-- A request that has been applied. -/
structure Accepted where
  key : String
  val : Json
  persist : Bool

/-- `bool(req.get("persist"))`. -/
def wantsPersist : Json → Bool
  | .obj members => ((JsonObj.get? members "persist").getD .null).truthy
  | _ => false

namespace Topic

/-- What is parked for a request. -/
def rejection (t : Topic) (req : Json) : Option (Json × Reason) :=
  match judge t.T t.params req with
  | .ok (.reject reason) => some (req, reason)
  | _ => none

/-- What is applied of a request. -/
def acceptance (t : Topic) (req : Json) : Option Accepted :=
  match judge t.T t.params req with
  | .ok (.accept key val) => some ⟨key, val, wantsPersist req⟩
  | _ => none

/-- The document with these requests applied in order. -/
def applied (params : Json) (accepted : List Accepted) : Json :=
  accepted.foldl (fun params a => setValue a.key a.val params) params

theorem applied_alike (params : Json) (accepted : List Accepted) :
    DocAlike params (applied params accepted) := by
  induction accepted generalizing params with
  | nil => exact .same _
  | cons a rest ih => exact (setValue_alike a.key a.val params).trans (ih _)

/-- A topic whose document differs in values only judges alike. -/
theorem rulings_alike (t t' : Topic) (struct : t'.T = t.T) (alike : DocAlike t.params t'.params) :
    t'.rejection = t.rejection ∧ t'.acceptance = t.acceptance := by
  constructor <;>
  · funext req
    simp only [rejection, acceptance, struct, judge_alike alike]

/-- **Every request of a batch is decided as if it were alone**: the rejected ones are
parked and the accepted ones applied, in order. -/
theorem applyAll_judged {t : Topic} {reqs : List Json} (changed persist : Bool)
    (decided : ∀ req ∈ reqs, ∃ ruling, judge t.T t.params req = .ok ruling) :
    t.applyAll changed persist reqs =
      .ok ((changed || !(reqs.filterMap t.acceptance).isEmpty,
          persist || (reqs.filterMap t.acceptance).any Accepted.persist),
        { t with
          params := applied t.params (reqs.filterMap t.acceptance)
          quarantined := t.quarantined ++ reqs.filterMap t.rejection }) := by
  induction reqs generalizing t changed persist with
  | nil => simp [applyAll, applied]
  | cons req rest ih =>
      obtain ⟨ruling, judged⟩ := decided req List.mem_cons_self
      have later := fun r mem => decided r (List.mem_cons_of_mem req mem)
      cases ruling with
      | reject reason =>
          have parked : t.rejection req = some (req, reason) := by rw [rejection, judged]
          have passed : t.acceptance req = none := by rw [acceptance, judged]
          have step := ih (t := { t with quarantined := t.quarantined ++ [(req, reason)] }) changed persist
            later
          obtain ⟨sameR, sameA⟩ :=
            rulings_alike t { t with quarantined := t.quarantined ++ [(req, reason)] } rfl (.same _)
          rw [sameR, sameA] at step
          rw [List.filterMap_cons_none passed, List.filterMap_cons_some parked]
          simp only [applyAll, apply, judged, bind, Except.bind]
          rw [if_neg (by simp), step]
          simp
      | accept key val =>
          have parked : t.rejection req = none := by rw [rejection, judged]
          have passed : t.acceptance req = some ⟨key, val, wantsPersist req⟩ := by rw [acceptance, judged]
          obtain ⟨sameR, sameA⟩ :=
            rulings_alike t { t with params := setValue key val t.params } rfl
              (setValue_alike key val t.params)
          have step := ih (t := { t with params := setValue key val t.params }) true
            (persist || wantsPersist req) fun r mem => by
              obtain ⟨ruling, judged⟩ := later r mem
              exact ⟨ruling, (judge_setValue key val).trans judged⟩
          rw [sameR, sameA] at step
          obtain ⟨members, -, rfl, -⟩ := judge_ok_iff.mp ⟨_, judged⟩
          rw [List.filterMap_cons_some passed, List.filterMap_cons_none parked]
          simp only [applyAll, apply, judged, bind, Except.bind]
          refine Eq.trans step ?_
          simp [applied, Bool.or_assoc]

/-- A batch in which no request raises has every request decided. -/
theorem decided_of_applyAll {t : Topic} {reqs : List Json} {changed persist : Bool}
    {out : (Bool × Bool) × Topic} (ran : t.applyAll changed persist reqs = .ok out) :
    ∀ req ∈ reqs, ∃ ruling, judge t.T t.params req = .ok ruling := by
  induction reqs generalizing t changed persist with
  | nil => simp
  | cons req rest ih =>
      rw [applyAll] at ran
      obtain ⟨⟨took, t'⟩, first, ran⟩ := except_bind_ok_iff.mp ran
      have alike : t'.T = t.T ∧ DocAlike t.params t'.params ∧ ∃ ruling, judge t.T t.params req = .ok ruling := by
        unfold apply at first
        split at first
        · cases first
        · rename_i reason judged
          cases first
          exact ⟨rfl, .same _, _, judged⟩
        · rename_i key val judged
          cases first
          exact ⟨rfl, setValue_alike key val t.params, _, judged⟩
      obtain ⟨struct, doc, ruling⟩ := alike
      have others : ∀ r ∈ rest, ∃ ruling, judge t'.T t'.params r = .ok ruling := by
        dsimp only at ran
        split at ran
        · obtain ⟨wanted, -, ran⟩ := except_bind_ok_iff.mp ran
          exact ih ran
        · exact ih ran
      refine List.forall_mem_cons.mpr ⟨ruling, fun r mem => ?_⟩
      obtain ⟨ruling', judged⟩ := others r mem
      exact ⟨ruling', by rw [← judged, struct, judge_alike doc]⟩

end Topic

end KoyuRuntime.Services.ParamServer
