/-
# Services.DataRecorder.StartRate — which `record_hz` a START accepts

START reads a double from the `recorder/config` cell, falls back to the native
rate when it is not below the clock's or not positive, and turns what is left into
a period.  A NaN passes both fallbacks: `nan >= rate` is false and `max(nan, 0.0)`
keeps its first argument.

* `readRecordHz_cases`, `periodOf_positive` — the rate and the period START makes
  of a cell.
* `start_settles_iff` — START leaves a recording that is native or decimated below
  the clock's rate exactly on the cells `Honourable` names.
-/
import KoyuRuntime.Services.DataRecorder.Steps
import Mathlib.Tactic.Linarith
import Mathlib.Tactic.NormNum
import Mathlib.Tactic.Positivity

namespace KoyuRuntime.Services.DataRecorder

open Host Theory Ipc

set_option autoImplicit false

variable {P V : Type} {cfg : Config P V}

/-- A capture at the native rate, or at a positive rate below the clock's. -/
def RateSettled (cfg : Config P V) (c : Capture P V) : Prop :=
  (c.recHz = .fin 0 ∧ c.periodNs = 0) ∨
    ∃ hz, c.recHz = .fin hz ∧ 0 < hz ∧ hz < cfg.clock.rateHz ∧ 0 < c.periodNs

/-- Handling START does not raise, and leaves a recording with a settled rate. -/
def StartSettles (cfg : Config P V) (env : Readings) (r : Recorder P V) : Prop :=
  ∃ r', onEvent cfg "recorder/control" ctlStart env r = .ok r' ∧ r'.state = .recording ∧
    RateSettled cfg r'.cap

/-- The cells START can honour: any but a NaN, with no number strictly between zero
and the clock's rate whose period is past the largest double or below a nanosecond. -/
def Honourable (rate : ℚ) : Option Double → Prop
  | none => True
  | some .nan => False
  | some (.inf _) => True
  | some (.fin hz) =>
      0 < hz → hz < rate → hz ≤ 1000000000 ∧ 1000000000 / hz < Double.overflow

/-! ## From the cell to the period -/

/-- Quotients up to `2 ^ 970` are nowhere near the largest double. -/
theorem lt_overflow {q : ℚ} (small : q ≤ 2 ^ 970) : q < Double.overflow := by
  have positive : (0 : ℚ) < 2 ^ 970 := by positivity
  have split : Double.overflow = (2 ^ 54 - 1) * 2 ^ 970 := by
    rw [Double.overflow, sub_mul, one_mul, ← pow_add]
  rw [split]
  exact small.trans_lt (lt_mul_of_one_lt_left positive (by norm_num))

/-- The period of a positive rate: raised past the largest double, else truncated. -/
theorem periodOf_positive {hz : ℚ} (positive : 0 < hz) :
    periodOf (.fin hz) =
      if Double.overflow ≤ 1000000000 / hz then .error .overflowError
      else .ok ⌊1000000000 / hz⌋ := by
  have quotient : 0 ≤ 1000000000 / hz := by positivity
  have wide : (0 : ℚ) < Double.overflow := lt_overflow (by positivity)
  have truthy : (Double.fin hz).truthy = true := by simp [Double.truthy, positive.ne']
  have divided : Double.divInto 1000000000 (.fin hz) = .ok (Double.ofExact (1000000000 / hz)) := by
    simp [Double.divInto, positive.ne']
  rw [periodOf, if_pos truthy, divided]
  show (Double.ofExact (1000000000 / hz)).toInt = _
  unfold Double.ofExact
  split
  · rfl
  · rw [if_neg (by linarith)]
    simp [Double.toInt, Double.trunc, quotient]

theorem periodOf_zero : periodOf (.fin 0) = .ok 0 := by
  rw [periodOf, if_neg (by simp [Double.truthy])]

theorem periodOf_nan : periodOf .nan = .error .valueError := rfl

/-- What `_read_record_hz` makes of a cell: the native rate, a NaN of a NaN, or a
rate strictly between zero and the clock's as it stands. -/
theorem readRecordHz_cases (rated : 0 < cfg.clock.rateHz) (cell : Option Double) :
    (readRecordHz cfg cell = .fin 0 ∧ Honourable cfg.clock.rateHz cell) ∨
    (readRecordHz cfg cell = .nan ∧ ¬ Honourable cfg.clock.rateHz cell) ∨
    ∃ hz, cell = some (.fin hz) ∧ readRecordHz cfg cell = .fin hz ∧ 0 < hz ∧
      hz < cfg.clock.rateHz := by
  unfold readRecordHz
  cases cell with
  | none => simp [Honourable, Double.ge, not_le.mpr rated, Double.maxZero]
  | some x =>
      cases x with
      | nan => simp [Honourable, Double.ge, Double.maxZero]
      | inf negative => cases negative <;> simp [Honourable, Double.ge, Double.maxZero]
      | fin hz =>
          simp only [Option.getD_some, Double.ge, decide_eq_true_eq, Double.maxZero]
          rcases lt_trichotomy hz 0 with below | rfl | above
          · left
            rw [if_neg (by linarith), if_pos below]
            exact ⟨rfl, fun positive => absurd below (not_lt.mpr positive.le)⟩
          · left
            rw [if_neg (by linarith), if_neg (lt_irrefl _)]
            exact ⟨rfl, fun positive => absurd positive (lt_irrefl _)⟩
          · by_cases fast : cfg.clock.rateHz ≤ hz
            · left
              rw [if_pos fast]
              exact ⟨rfl, fun _ slow => absurd slow (not_lt.mpr fast)⟩
            · right
              right
              rw [if_neg fast, if_neg (not_lt.mpr above.le)]
              exact ⟨hz, rfl, rfl, above, not_le.mp fast⟩

/-- START at idle raises with its period's computation, or opens a recording. -/
theorem onEvent_start {r : Recorder P V} (env : Readings) (idle : r.state = .idle) :
    onEvent cfg "recorder/control" ctlStart env r =
      (periodOf (readRecordHz cfg env.config)).map fun period =>
        opened env (readContext env.contextFile) (readRecordHz cfg env.config) period r := by
  unfold onEvent
  rw [if_neg (not_not.mpr rfl), if_pos rfl, if_neg (not_not.mpr idle)]
  rfl

/-- **Which STARTs settle**: exactly those whose cell is honourable. -/
theorem start_settles_iff (cfg : Config P V) (env : Readings) (r : Recorder P V)
    (rated : 0 < cfg.clock.rateHz) (idle : r.state = .idle) :
    StartSettles cfg env r ↔ Honourable cfg.clock.rateHz env.config := by
  unfold StartSettles
  rw [onEvent_start env idle]
  rcases readRecordHz_cases rated env.config with
    ⟨native, honoured⟩ | ⟨undefined, refused⟩ | ⟨hz, cell, rate, above, below⟩
  · rw [native, periodOf_zero]
    exact ⟨fun _ => honoured, fun _ => ⟨_, rfl, rfl, .inl ⟨rfl, rfl⟩⟩⟩
  · rw [undefined, periodOf_nan]
    constructor
    · rintro ⟨r', handled, -⟩
      cases handled
    · exact fun honoured => absurd honoured refused
  · rw [rate, periodOf_positive above, cell]
    have honoured : Honourable cfg.clock.rateHz (some (.fin hz)) ↔
        hz ≤ 1000000000 ∧ 1000000000 / hz < Double.overflow :=
      ⟨fun honoured => honoured above below, fun both _ _ => both⟩
    rw [honoured]
    by_cases huge : Double.overflow ≤ 1000000000 / hz
    · -- a rate so small that the quotient is an infinity
      rw [if_pos huge]
      constructor
      · rintro ⟨r', handled, -⟩
        cases handled
      · exact fun both => absurd both.2 (not_lt.mpr huge)
    · rw [if_neg huge]
      have whole : 0 < ⌊1000000000 / hz⌋ ↔ hz ≤ 1000000000 := by
        rw [Int.floor_pos, le_div_iff₀ above, one_mul]
      constructor
      · rintro ⟨r', handled, -, native | ⟨hz', -, -, -, period⟩⟩
        · cases handled
          obtain ⟨same, -⟩ := native
          cases same
          exact absurd above (lt_irrefl _)
        · cases handled
          exact ⟨whole.mp period, not_le.mp huge⟩
      · rintro ⟨small, -⟩
        exact ⟨_, rfl, rfl, .inr ⟨hz, rfl, above, below, whole.mpr small⟩⟩

/-- A recording of the camera rig at 10 Hz. -/
theorem start_settles_iff_tenHz :
    StartSettles Demo.rig ⟨.missing, some (.fin 10), 1000, 0, Demo.firstId⟩
      Demo.boot.world.recorder :=
  (start_settles_iff Demo.rig ⟨.missing, some (.fin 10), 1000, 0, Demo.firstId⟩
    Demo.boot.world.recorder (by decide +kernel) rfl).mpr
    fun _ _ => ⟨by norm_num, lt_overflow
      (le_trans (by norm_num) (pow_le_pow_right₀ one_le_two (by decide : 27 ≤ 970)))⟩

/-- A NaN in the cell: `int(1e9 / nan)` raises out of the handler. -/
theorem start_raises_nan :
    ∃ env : Readings, env.config = some .nan ∧ 0 < Demo.rig.clock.rateHz ∧
      Demo.boot.world.recorder.state = .idle ∧
      ¬ StartSettles Demo.rig env Demo.boot.world.recorder := by
  refine ⟨⟨.missing, some .nan, 1000, 0, Demo.firstId⟩, rfl, by decide +kernel, rfl, ?_⟩
  rintro ⟨r', handled, -⟩
  rw [onEvent_start _ rfl] at handled
  cases handled

end KoyuRuntime.Services.DataRecorder
