/-
# Services.DataRecorder.RateLaw — how often the decimation gate keeps a frame

What `gate` keeps of a stream of clock frames at a period `P > 0`, folded from
`next_due = 0` as `_frame` does.

* `kept_spread` — whatever stalls and re-anchors the grid, `k + 1` consecutive
  kept frames span more than `k - 1` periods, in any order of the stamps.
* `OnGrid` — over ordered frames without a gap of more than a period the grid is
  never re-anchored: slot `j` is `[t0 + j * P, t0 + (j + 1) * P)`, and the `j`-th
  kept frame is the first frame in slot `j`.
* `decimation_rate_law` — both, with the count they give; `rows_spread` reads the
  first off the rows of a recording.
-/
import KoyuRuntime.Services.DataRecorder.Alignment
import Mathlib.Data.List.Chain
import Mathlib.Tactic.Linarith
import Mathlib.Tactic.Ring

namespace KoyuRuntime.Services.DataRecorder

open Host Theory Ipc

set_option autoImplicit false

variable {P V : Type}

/-! ## One frame -/

/-- A kept frame has reached its slot, and moves the cursor on by a period at
least, and past itself. -/
theorem gate_keeps {ts due period : Int} (positive : 0 < period)
    (keeps : (gate ts due period).1 = true) :
    due ≤ ts ∧ due + period ≤ (gate ts due period).2 ∧ ts < (gate ts due period).2 := by
  unfold gate at keeps ⊢
  rw [if_neg (not_le.mpr positive)] at keeps ⊢
  split at keeps
  · cases keeps
  · rename_i reached
    rw [if_neg reached]
    dsimp only
    split <;> omega

/-- A dropped frame is early, and leaves the cursor. -/
theorem gate_drops {ts due period : Int} (drops : (gate ts due period).1 = false) :
    ts < due ∧ (gate ts due period).2 = due := by
  unfold gate at drops ⊢
  split at drops
  · cases drops
  · rename_i positive
    split at drops
    · rename_i early
      rw [if_neg positive, if_pos early]
      exact ⟨early, rfl⟩
    · cases drops

/-! ## No burst -/

section Spread

variable {period due : Int} {f g : Sample P} {rest frames : List (Sample P)}

theorem sift_keep (keeps : (gate f.stamp due period).1 = true) :
    (sift (gateKeep period) due (f :: rest)).1 =
      f :: (sift (gateKeep period) (gate f.stamp due period).2 rest).1 := by
  simp only [sift, gateKeep, keeps, if_true]

theorem sift_drop (drops : (gate f.stamp due period).1 = false) :
    (sift (gateKeep period) due (f :: rest)).1 = (sift (gateKeep period) due rest).1 := by
  simp only [sift, gateKeep, drops, (gate_drops drops).2, Bool.false_eq_true, if_false]

/-- The `k`-th kept frame stands `k` periods or more after the cursor. -/
theorem kept_after_due (positive : 0 < period) {k : Nat}
    (read : (sift (gateKeep period) due frames).1[k]? = some g) : due + k * period ≤ g.stamp := by
  induction frames generalizing due k with
  | nil => simp [sift] at read
  | cons f rest ih =>
      cases keep : (gate f.stamp due period).1 with
      | false =>
          rw [sift_drop keep] at read
          exact ih read
      | true =>
          obtain ⟨reached, further, -⟩ := gate_keeps positive keep
          rw [sift_keep keep] at read
          cases k with
          | zero =>
              cases read
              simpa using reached
          | succ k =>
              have later := ih read
              push_cast
              linarith

/-- **No burst**: `k + 1` consecutive kept frames span more than `k - 1` periods. -/
theorem kept_spread (positive : 0 < period) {i k : Nat} (some_later : 1 ≤ k)
    (read : (sift (gateKeep period) due frames).1[i]? = some f)
    (later : (sift (gateKeep period) due frames).1[i + k]? = some g) :
    ((k : Int) - 1) * period < g.stamp - f.stamp := by
  induction frames generalizing due i with
  | nil => simp [sift] at read
  | cons first rest ih =>
      cases keep : (gate first.stamp due period).1 with
      | false =>
          rw [sift_drop keep] at read later
          exact ih read later
      | true =>
          obtain ⟨-, -, past⟩ := gate_keeps positive keep
          rw [sift_keep keep] at read later
          cases i with
          | zero =>
              -- the first of them: the cursor is past it, and the rest follow the cursor
              cases read
              obtain ⟨k, rfl⟩ : ∃ n, k = n + 1 := ⟨k - 1, by omega⟩
              rw [Nat.zero_add, List.getElem?_cons_succ] at later
              have spaced := kept_after_due positive later
              push_cast
              linarith
          | succ i =>
              rw [Nat.succ_add, List.getElem?_cons_succ] at later
              exact ih read later

end Spread

/-! ## One frame per slot -/

/-- A frame of slot `j` on the grid anchored at `t0`. -/
def inSlot (t0 period : Int) (j : Nat) (f : Sample P) : Bool :=
  decide (t0 + j * period ≤ f.stamp ∧ f.stamp < t0 + (j + 1) * period)

/-- The grid after ordered frames without a gap: the cursor is the next slot of
the grid anchored at the first frame, no frame has reached it, and the `j`-th kept
frame is the first in slot `j`. -/
structure OnGrid (period t0 : Int) (frames : List (Sample P)) (last : Int)
    (kept : List (Sample P)) (due : Int) : Prop where
  cursor : due = t0 + kept.length * period
  bound : ∀ f ∈ frames, f.stamp ≤ last
  behind : last < due
  reached : due ≤ last + period
  firsts : ∀ j (inside : j < kept.length), frames.find? (inSlot t0 period j) = some kept[j]

section Grid

variable {period t0 last due : Int} {frames kept : List (Sample P)} {f : Sample P}

/-- The first frame, a period or more after 0, anchors the grid. -/
theorem onGrid_first (positive : 0 < period) (anchored : period ≤ f.stamp) :
    OnGrid period f.stamp [f] f.stamp (sift (gateKeep period) 0 [f]).1
      (sift (gateKeep period) 0 [f]).2 := by
  have gated : gate f.stamp 0 period = (true, f.stamp + period) := by
    unfold gate
    rw [if_neg (by omega), if_neg (by omega)]
    dsimp only
    rw [if_pos (by omega)]
  have folded : sift (gateKeep period) 0 [f] = ([f], f.stamp + period) := by
    simp [sift, gateKeep, gated]
  rw [folded]
  refine ⟨by simp, by simp, by omega, by omega, fun j inside => ?_⟩
  obtain rfl : j = 0 := by simpa using inside
  simp [inSlot, positive]

/-- A frame below the cursor lies in the slot of the last kept one. -/
theorem OnGrid.early (grid : OnGrid period t0 frames last kept due) (ordered : last ≤ f.stamp)
    (early : f.stamp < due) : OnGrid period t0 (frames ++ [f]) f.stamp kept due where
  cursor := grid.cursor
  bound g mem := by
    rcases List.mem_append.mp mem with before | single
    · exact (grid.bound g before).trans ordered
    · rw [List.mem_singleton.mp single]
  behind := early
  reached := grid.reached.trans (by omega)
  firsts j inside := by
    rw [List.find?_append, grid.firsts j inside]
    rfl

/-- A frame at the cursor or past it is the first of the next slot: it comes no
more than a period after the frame before it, which is below the cursor. -/
theorem OnGrid.onTime (grid : OnGrid period t0 frames last kept due)
    (close : f.stamp ≤ last + period) (onTime : due ≤ f.stamp) :
    OnGrid period t0 (frames ++ [f]) f.stamp (kept ++ [f]) (due + period) where
  cursor := by
    have cursor := grid.cursor
    simp only [List.length_append, List.length_singleton]
    push_cast
    linarith
  bound g mem := by
    rcases List.mem_append.mp mem with before | single
    · exact ((grid.bound g before).trans grid.behind.le).trans onTime
    · rw [List.mem_singleton.mp single]
  behind := by
    have behind := grid.behind
    omega
  reached := by omega
  firsts j inside := by
    rw [List.find?_append]
    by_cases old : j < kept.length
    · rw [grid.firsts j old, List.getElem_append_left old]
      rfl
    · -- no earlier frame is in the new slot, which starts at the cursor
      obtain rfl : j = kept.length := by
        simp only [List.length_append, List.length_singleton] at inside
        omega
      have cursor := grid.cursor
      have behind := grid.behind
      have none_before : frames.find? (inSlot t0 period kept.length) = none := by
        rw [List.find?_eq_none]
        intro g mem slot
        have below := grid.bound g mem
        simp only [inSlot, decide_eq_true_eq] at slot
        omega
      have in_slot : inSlot t0 period kept.length f = true := by
        simp only [inSlot, decide_eq_true_eq]
        constructor
        · omega
        · linarith
      simp [none_before, in_slot]

/-- Over ordered frames without a gap of more than a period, the grid holds. -/
theorem onGrid_fold (positive : 0 < period) (anchored : period ≤ f.stamp) {rest : List (Sample P)}
    {newest : Sample P} (ends : (f :: rest).getLast? = some newest)
    (ordered : (f :: rest).Pairwise fun g later => g.stamp ≤ later.stamp)
    (close : (f :: rest).IsChain fun g next => next.stamp - g.stamp ≤ period) :
    OnGrid period f.stamp (f :: rest) newest.stamp
      (sift (gateKeep period) 0 (f :: rest)).1 (sift (gateKeep period) 0 (f :: rest)).2 := by
  induction rest using List.reverseRecOn generalizing newest with
  | nil =>
      cases ends
      exact onGrid_first positive anchored
  | append_singleton rest g ih =>
      rw [← List.cons_append] at ends ordered close ⊢
      rw [List.getLast?_concat] at ends
      cases ends
      obtain ⟨before, -, across⟩ := List.pairwise_append.mp ordered
      obtain ⟨chain, -, step⟩ := List.isChain_append.mp close
      have prior : (f :: rest).getLast? = some ((f :: rest).getLast (by simp)) :=
        List.getLast?_eq_some_getLast (by simp)
      have grid := ih prior before chain
      have after := across _ (List.mem_of_getLast? prior) g (by simp)
      have near := step _ prior g (by simp)
      rw [sift_snoc]
      cases keep : (gate g.stamp (sift (gateKeep period) 0 (f :: rest)).2 period).1 with
      | false =>
          obtain ⟨early, still⟩ := gate_drops keep
          simp only [gateKeep, keep, still, Bool.false_eq_true, if_false, List.append_nil]
          exact grid.early after early
      | true =>
          obtain ⟨reached, -, -⟩ := gate_keeps positive keep
          have advanced : (gate g.stamp (sift (gateKeep period) 0 (f :: rest)).2 period).2 =
              (sift (gateKeep period) 0 (f :: rest)).2 + period := by
            have behind := grid.behind
            unfold gate
            rw [if_neg (by omega), if_neg (by omega)]
            dsimp only
            rw [if_neg (by omega)]
          simp only [gateKeep, keep, advanced, if_true]
          exact grid.onTime (by omega) reached

/-- One kept frame for every slot up to the last stamp's. -/
theorem OnGrid.count (positive : 0 < period) (grid : OnGrid period t0 frames last kept due) :
    (kept.length : Int) = (last - t0) / period + 1 := by
  have cursor := grid.cursor
  have behind := grid.behind
  have reached := grid.reached
  have slot : (last - t0) / period = kept.length - 1 := by
    rw [Int.ediv_eq_iff_of_pos positive]
    constructor <;> linarith
  omega

/-- The kept frames, slot by slot: slot `j` contributes its first frame. -/
theorem OnGrid.slots (positive : 0 < period) (grid : OnGrid period t0 frames last kept due)
    (j : Nat) : kept[j]? = frames.find? (inSlot t0 period j) := by
  by_cases inside : j < kept.length
  · rw [grid.firsts j inside, List.getElem?_eq_getElem inside]
  · -- slots past the last kept frame start at the cursor or later
    rw [List.getElem?_eq_none (by omega), eq_comm, List.find?_eq_none]
    intro g mem slot
    have below := grid.bound g mem
    have cursor := grid.cursor
    have behind := grid.behind
    have later : (kept.length : Int) * period ≤ j * period :=
      Int.mul_le_mul_of_nonneg_right (by omega) positive.le
    simp only [inSlot, decide_eq_true_eq] at slot
    omega

end Grid

/-- **The decimation rate law.** Any `k + 1` consecutive kept frames span more
than `k - 1` periods.  Over ordered frames that start a period or more after 0 and
are never more than a period apart, the kept frames are the first frames of the
slots: as many as slots up to the last stamp, each less than a period late. -/
theorem decimation_rate_law (period : Int) (positive : 0 < period) (frames : List (Sample P)) :
    let kept := (sift (gateKeep period) 0 frames).1
    (∀ (i k : Nat) f g, 1 ≤ k → kept[i]? = some f → kept[i + k]? = some g →
      ((k : Int) - 1) * period < g.stamp - f.stamp) ∧
    ∀ first last, frames.head? = some first → frames.getLast? = some last →
      frames.Pairwise (fun f later => f.stamp ≤ later.stamp) → period ≤ first.stamp →
      frames.IsChain (fun f next => next.stamp - f.stamp ≤ period) →
      (∀ j : Nat, kept[j]? = frames.find? (inSlot first.stamp period j)) ∧
      (kept.length : Int) = (last.stamp - first.stamp) / period + 1 ∧
      ∀ (j : Nat) f, kept[j]? = some f →
        0 ≤ f.stamp - (first.stamp + j * period) ∧ f.stamp - (first.stamp + j * period) < period := by
  constructor
  · intro i k f g some_later read later
    exact kept_spread positive some_later read later
  · intro first last starts ends ordered anchored close
    cases frames with
    | nil => cases starts
    | cons f rest =>
        cases starts
        have grid := onGrid_fold positive anchored ends ordered close
        refine ⟨grid.slots positive, grid.count positive, fun j g read => ?_⟩
        rw [grid.slots positive] at read
        have slot := List.find?_some read
        simp only [inSlot, decide_eq_true_eq] at slot
        constructor <;> linarith

/-- Six jittered frames on a grid of 10. -/
def Demo.jittered : List (Sample Unit) :=
  [10, 14, 20, 29, 31, 40].map fun stamp => ⟨stamp, 0, ()⟩

theorem decimation_rate_law_jittered :
    (sift (gateKeep 10) 0 Demo.jittered).1.map Sample.stamp = [10, 20, 31, 40] ∧
      ((sift (gateKeep 10) 0 Demo.jittered).1.length : Int) = (40 - 10) / 10 + 1 :=
  ⟨by decide, ((decimation_rate_law 10 (by decide) Demo.jittered).2 ⟨10, 0, ()⟩ ⟨40, 0, ()⟩
    rfl rfl (by decide) (by decide) (by decide)).2.1⟩

/-! ## Rows -/

/-- The rows of a recording at a decimated rate never come in a burst. -/
theorem Tracks.rows_spread {cfg : Config P V} {delivered : List (String × Sample P)}
    {frames consumed skipped kept : List (Sample P)} {c : Capture P V}
    (tracks : Tracks cfg delivered frames c consumed skipped kept) (positive : 0 < c.periodNs)
    {i k : Nat} {s t : Int} (some_later : 1 ≤ k) (read : (c.rows.map Prod.fst)[i]? = some s)
    (read_later : (c.rows.map Prod.fst)[i + k]? = some t) :
    ((k : Int) - 1) * c.periodNs < t - s := by
  rw [stamps_of_made tracks.rows, List.getElem?_map, Option.map_eq_some_iff] at read read_later
  obtain ⟨f, at_i, rfl⟩ := read
  obtain ⟨g, at_k, rfl⟩ := read_later
  -- the rows are the end of what the gate kept
  have gated : (sift (gateKeep c.periodNs) 0 (pastFence c.t0Ns consumed)).1 = skipped ++ kept := by
    rw [tracks.sifted]
  have row_of (j : Nat) : (skipped ++ kept)[skipped.length + j]? = kept[j]? := by
    rw [List.getElem?_append_right (by omega), Nat.add_sub_cancel_left]
  apply kept_spread positive some_later
  · rw [gated, row_of]
    exact at_i
  · rw [gated, Nat.add_assoc, row_of]
    exact at_k

end KoyuRuntime.Services.DataRecorder
