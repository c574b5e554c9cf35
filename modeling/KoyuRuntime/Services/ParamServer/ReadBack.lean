/-
# Services.ParamServer.ReadBack — the value a reader decodes

`_fits` asks whether an assignment raises, and the range is that of the Python value:
neither looks at what the field holds afterwards.  An integer field holds the value
modulo its width (`CType.readBack`), so a reader decodes an accepted integer exactly if
the field can hold it (`readBack_int_iff`).

`readers_see_accepted_iff` says when a tick shows what it accepted: each accepted integer
is one its field holds and the last one accepted for it, and the write gets through.
-/
import KoyuRuntime.Services.ParamServer.RangeSafety

namespace KoyuRuntime.Services.ParamServer

open Host Theory

set_option autoImplicit false

/-! ## Fields -/

/-- What a field that was assigned the value is read as: an integer field keeps the low
bits, a double field the nearest double. -/
def CType.readBack : CType → Json → Json
  | .uint bits, .int i => .int (i % 2 ^ bits)
  | .uint _, .bool b => .int (if b then 1 else 0)
  | .int bits, .int i => .int (i.bmod (2 ^ bits))
  | .int bits, .bool b => .int (Int.bmod (if b then 1 else 0) (2 ^ bits))
  | .double, .int i => .float (.fin (Double.ofInt i))
  | .double, .bool b => .float (.fin (if b then 1 else 0))
  | _, val => val

/-- The integers a field holds. -/
def CType.Holds : CType → Int → Prop
  | .uint bits, i => 0 ≤ i ∧ i < 2 ^ bits
  | .int bits, i => -2 ^ bits ≤ i * 2 ∧ i * 2 < 2 ^ bits
  | .double, i => Double.ExactInt i
  | .array _ _, _ => False
  | .chars _, _ => False

section Fields

variable {ctype : CType} {i j : Int} {val low high : Json}

/-- A value equals an integer if that is the number it stands for. -/
theorem pyEq_int_iff : val.pyEq (.int i) = true ↔ val.number? = some (.fin i) := by
  have numbers : ∀ x : Double, Double.eq x (.fin i) = true ↔ x = .fin i := by
    intro x
    cases x with
    | nan => simp [Double.eq, Double.le]
    | inf negative => cases negative <;> simp [Double.eq, Double.le]
    | fin q =>
        simp only [Double.eq, Double.le, Bool.and_eq_true, decide_eq_true_eq, Double.fin.injEq]
        exact le_antisymm_iff.symm
  cases val with
  | null => simp [Json.pyEq, Json.number?]
  | str s => simp [Json.pyEq, Json.number?, Json.eqStr]
  | arr items => simp [Json.pyEq, Json.number?]
  | obj members => simp [Json.pyEq, Json.number?]
  | bool b =>
      simp only [Json.pyEq, Json.number?, Option.some.injEq]
      exact numbers _
  | int j =>
      simp only [Json.pyEq, Json.number?, Option.some.injEq]
      exact numbers _
  | float x =>
      simp only [Json.pyEq, Json.number?, Option.some.injEq]
      exact numbers _

theorem int_pyEq_iff : (Json.int i).pyEq (.int j) = true ↔ i = j := by
  simp [pyEq_int_iff, Json.number?]

/-- **A reader decodes an integer** exactly if the field holds it; a double field is
given integers that a double represents. -/
theorem readBack_int_iff (took : ctype.assign (.int i) = .ok ())
    (exact_ : ctype = .double → Double.ExactInt i) :
    (ctype.readBack (.int i)).pyEq (.int i) = true ↔ ctype.Holds i := by
  cases ctype with
  | double =>
      have whole := exact_ rfl
      refine iff_of_true ?_ whole
      show (Json.float (.fin (Double.ofInt i))).pyEq (.int i) = true
      rw [pyEq_int_iff, Double.ofInt_exact whole]
      rfl
  | uint bits =>
      show (Json.int (i % 2 ^ bits)).pyEq (.int i) = true ↔ 0 ≤ i ∧ i < 2 ^ bits
      have positive : (0 : Int) < 2 ^ bits := Int.pow_pos (by decide)
      rw [int_pyEq_iff]
      constructor
      · intro same
        rw [← same]
        exact ⟨Int.emod_nonneg _ (by omega), Int.emod_lt_of_pos _ positive⟩
      · rintro ⟨least, most⟩
        exact Int.emod_eq_of_lt least most
  | int bits =>
      show (Json.int (i.bmod (2 ^ bits))).pyEq (.int i) = true ↔ -2 ^ bits ≤ i * 2 ∧ i * 2 < 2 ^ bits
      have width : ((2 ^ bits : Nat) : Int) = 2 ^ bits := by push_cast; rfl
      rw [int_pyEq_iff, ← width]
      constructor
      · intro same
        have least := Int.le_bmod (x := i) (Nat.two_pow_pos bits)
        have most := Int.bmod_lt (x := i) (Nat.two_pow_pos bits)
        rw [same] at least most
        omega
      · rintro ⟨least, most⟩
        exact Int.bmod_eq_of_le_mul_two least most
  | array item length => cases took
  | chars length => cases took

/-- A value equal to an integer lies between the same bounds. -/
theorem le_of_pyEq (same : val.pyEq (.int i) = true) (least : low.le (.int i) = .ok true)
    (most : (Json.int i).le high = .ok true) : low.le val = .ok true ∧ val.le high = .ok true := by
  have number := pyEq_int_iff.mp same
  constructor
  · cases low with
    | bool b =>
        simp only [Json.le, number]
        exact least
    | int j =>
        simp only [Json.le, number]
        exact least
    | float x =>
        simp only [Json.le, number]
        exact least
    | _ => cases least
  · cases val with
    | bool b =>
        have asInt := Option.some.inj number
        simpa only [Json.le, asInt] using most
    | int j =>
        have asInt := Option.some.inj number
        simpa only [Json.le, asInt] using most
    | float x =>
        have asInt := Option.some.inj number
        simpa only [Json.le, asInt] using most
    | _ => cases number

/-- A field that takes a value other than an integer or a `bool` gives it back. -/
theorem readBack_other (took : ctype.assign val = .ok ()) (noBool : ∀ b, val ≠ .bool b)
    (noInt : ∀ j, val ≠ .int j) : ctype = .double ∧ ctype.readBack val = val := by
  cases val with
  | bool b => exact absurd rfl (noBool b)
  | int j => exact absurd rfl (noInt j)
  | float x =>
      cases ctype with
      | double => exact ⟨rfl, rfl⟩
      | _ => cases took
  | _ => cases ctype <;> cases took

/-- **The last value of a field** is read as an integer, and as itself where it is one,
if the field holds the integer and the value equals it. -/
theorem readBack_iff (took : ctype.assign val = .ok ()) (noBool : ∀ b, val ≠ .bool b)
    (exact_ : ∀ j, j = i ∨ val = .int j → ctype = .double → Double.ExactInt j)
    (own : ∀ j, val = .int j → (ctype.readBack val).pyEq (.int i) = true →
      (ctype.readBack val).pyEq (.int j) = true) :
    (ctype.readBack val).pyEq (.int i) = true ↔ ctype.Holds i ∧ val.pyEq (.int i) = true := by
  by_cases isInt : ∃ j, val = .int j
  · obtain ⟨j, rfl⟩ := isInt
    have held := readBack_int_iff took (exact_ j (.inr rfl))
    constructor
    · intro seen
      have self := own j rfl seen
      have same : i = j := by
        have both := (pyEq_int_iff.mp seen).symm.trans (pyEq_int_iff.mp self)
        simpa using both
      subst same
      exact ⟨held.mp self, int_pyEq_iff.mpr rfl⟩
    · rintro ⟨holds, same⟩
      obtain rfl := int_pyEq_iff.mp same
      exact held.mpr holds
  · push Not at isInt
    obtain ⟨rfl, given⟩ := readBack_other took noBool isInt
    rw [given]
    exact (and_iff_right (exact_ i (.inl rfl) rfl)).symm

end Fields

/-- A field of a fresh struct. -/
def CType.initial : CType → Json
  | .uint _ => .int 0
  | .int _ => .int 0
  | .double => .float (.fin 0)
  | _ => .null

/-! ## Readers -/

namespace Topic

variable {t t' : Topic} {files : List (Option Json)} {f : String}

/-- What a reader decodes for a field; a writer starts with a fresh struct. -/
def seen (t : Topic) (f : String) : Option Json :=
  (t.T.fields.get? f).bind fun ctype =>
    match t.writer.cell with
    | none => some ctype.initial
    | some shown => (shown.values.lookup f).map ctype.readBack

/-- A reader decodes the integer. -/
def Shows (t : Topic) (f : String) (i : Int) : Prop :=
  ∃ val, t.seen f = some val ∧ val.pyEq (.int i) = true

theorem lookup_structValues {T : StructType} {params : Json} {fs : List String}
    {values : List (String × Json)} (filled : structValues T params fs = .ok values) (mem : f ∈ fs) :
    ∃ val, values.lookup f = some val ∧ valueOf params f = .ok val ∧ T.setattr f val = .ok () := by
  induction fs generalizing values with
  | nil => cases mem
  | cons g rest ih =>
      obtain ⟨val, read, filled⟩ := except_bind_ok_iff.mp filled
      obtain ⟨_, took, filled⟩ := except_bind_ok_iff.mp filled
      obtain ⟨more, later, same⟩ := except_bind_ok_iff.mp filled
      cases same
      by_cases here : f = g
      · subst here
        exact ⟨val, by simp, read, took⟩
      · obtain ⟨val', found, read', took'⟩ := ih later ((List.mem_cons.mp mem).resolve_left here)
        refine ⟨val', ?_, read', took'⟩
        rw [List.lookup_cons, beq_eq_false_iff_ne.mpr here]
        exact found

/-- A parameter's field has a type. -/
theorem field_type {T : StructType} (field : f ∈ paramFields T) : ∃ ctype, T.fields.get? f = some ctype := by
  have key : f ∈ T.fields.keys := (List.mem_filter.mp field).1
  exact Option.isSome_iff_exists.mp (OrderedDict.mem_keys_iff.mp key)

/-- After a tick whose write gets through, a field with an accepted request is read as
the last one left it. -/
theorem seen_written (ran : t.onTick files = .ok t') (through : t.writer.outcomes.head? ≠ some false)
    (field : f ∈ paramFields t.T) {val : Json} (last : lastOf f (t.acceptedOf files) = some val) :
    ∃ ctype, t.T.fields.get? f = some ctype ∧ ctype.assign val = .ok () ∧
      t'.seen f = some (ctype.readBack val) := by
  have publishes : t.Publishes files := by
    intro none_
    obtain ⟨a, mem, -⟩ := lastOf_some last
    rw [acceptedOf, none_] at mem
    cases mem
  obtain ⟨published, shown, writer, -, T, params⟩ := onTick_publishes ran publishes
  obtain ⟨-, T', params', values, filled, cell⟩ := publish_cell shown
  rw [if_neg (show (t.heard (requests files)).writer.outcomes.head? ≠ some false from through)] at cell
  obtain ⟨val', found, read, took⟩ := lookup_structValues filled field
  obtain ⟨ctype, typed⟩ := field_type field
  have same : val' = val := by
    have live : stored t'.params f = some val := by
      rw [params, params']
      show stored (applied t.params (t.acceptedOf files)) f = some val
      rw [stored_applied, last, Option.some_or]
      intro a mem
      obtain ⟨req, -, passed⟩ := List.mem_filterMap.mp mem
      exact ⟨t.T, req, (acceptance_some passed).1⟩
    have value := valueOf_of_stored live
    rw [params, params', read] at value
    exact Except.ok.inj value
  subst same
  refine ⟨ctype, typed, ?_, ?_⟩
  · rw [← took]
    simp only [StructType.setattr, heard, typed]
  · have type : t'.T.fields.get? f = some ctype := by rw [T, T']; exact typed
    simp only [seen, type, writer, cell, Option.bind_some, found, Option.map_some]

/-- After a tick whose write fails readers see what they saw. -/
theorem seen_unwritten (ran : t.onTick files = .ok t') (failed : t.writer.outcomes.head? = some false) :
    t'.seen f = t.seen f := by
  by_cases publishes : t.Publishes files
  · obtain ⟨published, shown, writer, -, T, -⟩ := onTick_publishes ran publishes
    obtain ⟨-, T', -, values, -, cell⟩ := publish_cell shown
    rw [if_pos (show (t.heard (requests files)).writer.outcomes.head? = some false from failed)] at cell
    have kept : t'.writer.cell = t.writer.cell := by rw [writer, cell]; rfl
    have type : t'.T = t.T := by rw [T, T']; rfl
    unfold seen
    rw [kept, type]
  · obtain ⟨writer, -, T, -⟩ := onTick_quiet ran publishes
    unfold seen
    rw [writer, T]

/-! ## Accepted integers -/

/-- Readers decode every integer the tick has accepted for a field, and what they decode
lies between the declared bounds. -/
def ReadersSee (t : Topic) (files : List (Option Json)) (t' : Topic) : Prop :=
  ∀ a ∈ t.acceptedOf files, a.key ∈ paramFields t.T → ∀ i, a.val = .int i →
    ∃ val, t'.seen a.key = some val ∧ val.pyEq (.int i) = true ∧
      ∀ low high, member t.params a.key "min" = some low → member t.params a.key "max" = some high →
        low.le val = .ok true ∧ val.le high = .ok true

/-- Every integer accepted for a double field is one that a double represents. -/
def ExactDoubles (t : Topic) (files : List (Option Json)) : Prop :=
  ∀ a ∈ t.acceptedOf files, ∀ i, a.val = .int i → t.T.fields.get? a.key = some .double →
    Double.ExactInt i

/-- Every integer accepted for a field is one the field holds, and equal to the last value
accepted for it; where the write fails, it is the one readers see already. -/
def Undistorted (t : Topic) (files : List (Option Json)) : Prop :=
  ∀ a ∈ t.acceptedOf files, a.key ∈ paramFields t.T → ∀ i, a.val = .int i →
    if t.writer.outcomes.head? = some false then t.Shows a.key i
    else (∃ ctype, t.T.fields.get? a.key = some ctype ∧ ctype.Holds i) ∧
      ∃ last, lastOf a.key (t.acceptedOf files) = some last ∧ last.pyEq (.int i) = true

end Topic

theorem lastOf_of_mem {a : Accepted} {accepted : List Accepted} (mem : a ∈ accepted) :
    ∃ b ∈ accepted, b.key = a.key ∧ lastOf a.key accepted = some b.val := by
  have some_ : accepted.filter (fun b => b.key = a.key) ≠ [] := by
    intro none_
    exact (List.filter_eq_nil_iff.mp none_) a mem (decide_eq_true rfl)
  have last := List.getLast?_eq_some_getLast some_
  obtain ⟨there, same⟩ := List.mem_filter.mp (List.getLast_mem some_)
  exact ⟨_, there, by simpa using same, by rw [lastOf, last]; rfl⟩

section Seen

variable {t t' : Topic} {files : List (Option Json)}

theorem judged_of_accepted {a : Accepted} (mem : a ∈ t.acceptedOf files) :
    ∃ req, judge t.T t.params req = .ok (.accept a.key a.val) := by
  obtain ⟨req, -, passed⟩ := List.mem_filterMap.mp mem
  exact ⟨req, (Topic.acceptance_some passed).1⟩

/-- The bounds hold every accepted value, so the range is no condition of its own. -/
theorem readersSee_iff_shows : t.ReadersSee files t' ↔
    ∀ a ∈ t.acceptedOf files, a.key ∈ paramFields t.T → ∀ i, a.val = .int i → t'.Shows a.key i := by
  constructor
  · intro all a mem field i value
    obtain ⟨val, seen, same, -⟩ := all a mem field i value
    exact ⟨val, seen, same⟩
  · intro all a mem field i value
    obtain ⟨val, seen, same⟩ := all a mem field i value
    refine ⟨val, seen, same, ?_⟩
    intro low high least most
    obtain ⟨req, accepted⟩ := judged_of_accepted mem
    rw [value] at accepted
    obtain ⟨above, below⟩ := judge_accept_between accepted least most
    exact le_of_pyEq same above below

/-- What a field with an accepted request is read as, once the write is through. -/
theorem read_of_accepted (ran : t.onTick files = .ok t') (through : t.writer.outcomes.head? ≠ some false)
    {a : Accepted} (mem : a ∈ t.acceptedOf files) (field : a.key ∈ paramFields t.T) :
    ∃ b ∈ t.acceptedOf files, ∃ ctype, b.key = a.key ∧ lastOf a.key (t.acceptedOf files) = some b.val ∧
      t.T.fields.get? a.key = some ctype ∧ ctype.assign b.val = .ok () ∧
        (∀ c, b.val ≠ .bool c) ∧ t'.seen a.key = some (ctype.readBack b.val) := by
  obtain ⟨b, there, key, last⟩ := lastOf_of_mem mem
  obtain ⟨ctype, typed, took, seen⟩ := Topic.seen_written ran through field last
  obtain ⟨req, accepted⟩ := judged_of_accepted there
  exact ⟨b, there, ctype, key, last, typed, took, (judge_accept accepted).1.1, seen⟩

/-- **What readers see of a tick**: every integer it accepted for a field, if and only if
each is one the field holds and the last one accepted for it, and the write gets through
or readers see it already. -/
theorem readers_see_accepted_iff {t t' : Topic} {files : List (Option Json)}
    (ran : t.onTick files = .ok t') (exact_ : t.ExactDoubles files) :
    t.ReadersSee files t' ↔ t.Undistorted files := by
  rw [readersSee_iff_shows]
  unfold Topic.Undistorted
  by_cases failed : t.writer.outcomes.head? = some false
  · simp only [failed, if_true, Topic.Shows, Topic.seen_unwritten ran failed]
  simp only [failed, if_false]
  have exactly_ : ∀ a ∈ t.acceptedOf files, ∀ b ∈ t.acceptedOf files, b.key = a.key → ∀ i ctype,
      a.val = .int i → t.T.fields.get? a.key = some ctype →
        ∀ j, j = i ∨ b.val = .int j → ctype = .double → Double.ExactInt j := by
    rintro a mem b there key i ctype value typed j one rfl
    rcases one with rfl | one
    · exact exact_ a mem j value typed
    · exact exact_ b there j one (key ▸ typed)
  constructor
  · intro all a mem field i value
    obtain ⟨b, there, ctype, key, last, typed, took, noBool, seen⟩ := read_of_accepted ran failed mem field
    have shown : ∀ c ∈ t.acceptedOf files, c.key = a.key → ∀ j, c.val = .int j →
        (ctype.readBack b.val).pyEq (.int j) = true := by
      intro c inside sameKey j isInt
      obtain ⟨val, here, same⟩ := all c inside (sameKey ▸ field) j isInt
      rw [sameKey, seen] at here
      cases here
      exact same
    have iff_ := readBack_iff took noBool (exactly_ a mem b there key i ctype value typed)
      fun j isInt _ => shown b there key j isInt
    obtain ⟨holds, same⟩ := iff_.mp (shown a mem rfl i value)
    exact ⟨⟨ctype, typed, holds⟩, b.val, last, same⟩
  · intro all a mem field i value
    obtain ⟨b, there, ctype, key, last, typed, took, noBool, seen⟩ := read_of_accepted ran failed mem field
    obtain ⟨⟨ctype', typed', holds⟩, v, last', same⟩ := all a mem field i value
    cases typed.symm.trans typed'
    cases last.symm.trans last'
    have own : ∀ j, b.val = .int j → (ctype.readBack b.val).pyEq (.int i) = true →
        (ctype.readBack b.val).pyEq (.int j) = true := by
      intro j isInt decoded
      rw [isInt] at same
      obtain rfl := int_pyEq_iff.mp same
      exact decoded
    have iff_ := readBack_iff took noBool (exactly_ a mem b there key i ctype value typed) own
    exact ⟨_, seen, iff_.mpr ⟨holds, same⟩⟩

end Seen

namespace Demo

/-- A struct with one small integer parameter. -/
def modeConfig (ctype : CType) : StructType where
  fields := OrderedDict.ofList [("timestamp", .double), ("frame_id", .uint 64), ("mode", ctype)]
  otherName := fun _ _ => .ok ()

/-- `{"mode": {"value": mode, "min": 0, "max": 1000}}`. -/
def modeFile (mode : Int) : Json :=
  .obj [("mode", .obj [("value", .int mode), ("min", .int 0), ("max", .int 1000)])]

def setMode (mode : Int) : Json := .obj [("key", .str "mode"), ("value", .int mode)]

/-- The topic after `setup`, and the one after a tick. -/
def modeTopic (ctype : CType) (mode : Int) (frame : Nat) : Topic :=
  ⟨"param/mode", modeConfig ctype, modeFile mode, some (modeFile 1), frame,
    ⟨some ⟨frame, [("mode", .int mode)]⟩, []⟩, []⟩

theorem withinDigits_of_lt {i : Int} (small : i.natAbs < 10 ^ 4) : (Json.int i).withinDigits = true := by
  rw [Json.withinDigits, decide_eq_true_eq]
  exact lt_maxStrDigits small

theorem modeFile_loads : (modeFile 1).loads = .ok (modeFile 1) := by
  refine Json.loads_ok_iff.mpr ⟨?_, rfl⟩
  have one := withinDigits_of_lt (i := 1) (by decide)
  have low := withinDigits_of_lt (i := 0) (by decide)
  have high := withinDigits_of_lt (i := 1000) (by decide)
  simp only [modeFile, Json.withinDigits, Json.membersWithinDigits] at one low high ⊢
  simp only [one, low, high, Bool.and_self]

theorem setMode_drained : Topic.drain [some (setMode 300)] = .ok [setMode 300] := by
  refine Topic.drain_ok_iff.mpr ⟨?_, rfl⟩
  intro document mem
  obtain rfl := Option.some.inj (List.mem_singleton.mp mem)
  have value := withinDigits_of_lt (i := 300) (by decide)
  simp only [setMode, Json.withinDigits, Json.membersWithinDigits] at value ⊢
  simp only [value, Bool.and_self]

theorem mode_booted (ctype : CType) (integer : ctype = .uint 8 ∨ ctype = .int 16) :
    bootTopic "param/mode" (modeConfig ctype) (some (modeFile 1)) [] = .ok (modeTopic ctype 1 1) := by
  simp only [bootTopic, loadFile, modeFile_loads]
  rcases integer with rfl | rfl <;> rfl

theorem mode_ticked (ctype : CType) (integer : ctype = .uint 8 ∨ ctype = .int 16) :
    (modeTopic ctype 1 1).onTick [some (setMode 300)] = .ok (modeTopic ctype 300 2) := by
  simp only [Topic.onTick, setMode_drained]
  rcases integer with rfl | rfl <;> rfl

end Demo

theorem readers_see_accepted_iff_int16 :
    (Demo.modeTopic (.int 16) 1 1).ReadersSee [some (Demo.setMode 300)] (Demo.modeTopic (.int 16) 300 2) := by
  have accepted : (Demo.modeTopic (.int 16) 1 1).acceptedOf [some (Demo.setMode 300)] =
      [⟨"mode", .int 300, false⟩] := rfl
  refine (readers_see_accepted_iff (Demo.mode_ticked (.int 16) (.inr rfl)) ?_).mpr ?_
  · intro a mem i _ double
    rw [accepted] at mem
    obtain rfl := List.mem_singleton.mp mem
    cases double
  · intro a mem _ i value
    rw [accepted] at mem
    obtain rfl := List.mem_singleton.mp mem
    cases value
    rw [if_neg (by simp [Demo.modeTopic]), accepted]
    exact ⟨⟨.int 16, rfl, by constructor <;> decide⟩, .int 300, rfl, int_pyEq_iff.mpr rfl⟩

/-- 300 lies in the declared range of an eight-bit parameter, and readers decode 44. -/
theorem accepted_integer_wraps :
    bootTopic "param/mode" (Demo.modeConfig (.uint 8)) (some (Demo.modeFile 1)) [] =
        .ok (Demo.modeTopic (.uint 8) 1 1) ∧
      (Demo.modeTopic (.uint 8) 1 1).onTick [some (Demo.setMode 300)] =
        .ok (Demo.modeTopic (.uint 8) 300 2) ∧
      (Demo.modeTopic (.uint 8) 300 2).seen "mode" = some (.int 44) ∧
      ¬ (Demo.modeTopic (.uint 8) 1 1).ReadersSee [some (Demo.setMode 300)]
        (Demo.modeTopic (.uint 8) 300 2) := by
  refine ⟨Demo.mode_booted (.uint 8) (.inl rfl), Demo.mode_ticked (.uint 8) (.inl rfl), rfl, ?_⟩
  intro see
  obtain ⟨val, seen, same, -⟩ := see ⟨"mode", .int 300, false⟩ List.mem_cons_self (by decide) 300 rfl
  have decoded : (Demo.modeTopic (.uint 8) 300 2).seen "mode" = some (.int 44) := rfl
  rw [decoded] at seen
  cases seen
  exact absurd (int_pyEq_iff.mp same) (by decide)

end KoyuRuntime.Services.ParamServer
