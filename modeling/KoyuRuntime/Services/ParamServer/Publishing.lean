/-
# Services.ParamServer.Publishing — the cell of one topic

A tick that accepts a request writes the struct once, after the document has changed
(`onTick_publishes`), and any other leaves cell and counter alone (`onTick_quiet`).  A
write may fail and is not tried again: the cell shows the document after a tick if that
tick wrote or the last write before it got through (`shows_of_delivered`), and its frame
id, counted before the write, rises with every change (`shownId_rises`).
-/
import KoyuRuntime.Services.FrameIds
import KoyuRuntime.Services.ParamServer.Totality

namespace KoyuRuntime.Services.ParamServer

open Host Theory FrameIds

set_option autoImplicit false

namespace Topic

variable {t t' : Topic} {files : List (Option Json)}

/-- The id readers see; the writer's initial struct has none. -/
def shownId (t : Topic) : Nat := uint64 ((t.writer.cell.map Published.frameId).getD 0)

/-- Did the last write attempted get through?  The cell then has its id. -/
def Delivered (t : Topic) : Prop := ∃ shown, t.writer.cell = some shown ∧ shown.frameId = t.frame

/-- The cell shows the values of the document. -/
def ShowsParams (t : Topic) : Prop :=
  ∃ shown, t.writer.cell = some shown ∧ structValues t.T t.params (paramFields t.T) = .ok shown.values

/-- Does a tick on these files publish? -/
def Publishes (t : Topic) (files : List (Option Json)) : Prop :=
  (requests files).filterMap t.acceptance ≠ []

/-- The next write the tick attempts, if it attempts one, gets through. -/
def WritesSucceed (t : Topic) (files : List (Option Json)) : Prop :=
  t.Publishes files → t.writer.outcomes.head? ≠ some false

/-- The cell has the id of an attempt; the last attempt's only with the values of now. -/
def Numbered (t : Topic) : Prop :=
  ∀ shown, t.writer.cell = some shown → shown.frameId ≤ t.frame ∧
    (shown.frameId = t.frame → structValues t.T t.params (paramFields t.T) = .ok shown.values)

/-- `_publish`: the frame id moves, and the cell shows the values or what it showed. -/
theorem publish_cell (ran : t.publish = .ok t') :
    t'.frame = t.frame + 1 ∧ t'.T = t.T ∧ t'.params = t.params ∧
      ∃ values, structValues t.T t.params (paramFields t.T) = .ok values ∧
        t'.writer.cell = if t.writer.outcomes.head? = some false then t.writer.cell
          else some ⟨t.frame + 1, values⟩ := by
  obtain ⟨values, valued, ran⟩ := except_bind_ok_iff.mp ran
  cases ran
  refine ⟨rfl, rfl, rfl, values, valued, ?_⟩
  obtain ⟨_, _, _, _, _, ⟨cell, outcomes⟩, _⟩ := t
  cases outcomes with
  | nil => rfl
  | cons outcome rest => cases outcome <;> rfl

theorem publish_numbered (le : ∀ shown, t.writer.cell = some shown → shown.frameId ≤ t.frame)
    (ran : t.publish = .ok t') : t'.Numbered := by
  obtain ⟨frame, T, params, values, valued, cell⟩ := publish_cell ran
  intro shown here
  rw [cell] at here
  split at here
  · have := le shown here
    exact ⟨by omega, fun same => absurd same (by omega)⟩
  · cases here
    rw [frame, T, params]
    exact ⟨Nat.le_refl _, fun _ => valued⟩

/-- A tick that does not publish leaves the cell, the counter and the document alone. -/
theorem onTick_quiet (ran : t.onTick files = .ok t') (quiet : ¬ t.Publishes files) :
    t'.writer = t.writer ∧ t'.frame = t.frame ∧ t'.T = t.T ∧ t'.params = t.params := by
  obtain ⟨-, ⟨none_, rfl⟩ | ⟨some_, -⟩⟩ := onTick_cases ran
  · exact ⟨rfl, rfl, rfl, by rw [heard, none_]; rfl⟩
  · exact absurd some_ quiet

/-- A tick that publishes does so once, after the document has changed. -/
theorem onTick_publishes (ran : t.onTick files = .ok t') (publishes : t.Publishes files) :
    ∃ published, (t.heard (requests files)).publish = .ok published ∧
      t'.writer = published.writer ∧ t'.frame = published.frame ∧ t'.T = published.T ∧
        t'.params = published.params := by
  obtain ⟨-, ⟨none_, -⟩ | ⟨-, published, shown, rfl⟩⟩ := onTick_cases ran
  · exact absurd none_ publishes
  · refine ⟨published, shown, ?_⟩
    split <;> exact ⟨rfl, rfl, rfl, rfl⟩

theorem onTick_numbered (numbered : t.Numbered) (ran : t.onTick files = .ok t') : t'.Numbered := by
  by_cases publishes : t.Publishes files
  · obtain ⟨published, shown, writer, frame, T, params⟩ := onTick_publishes ran publishes
    have le : ∀ s, (t.heard (requests files)).writer.cell = some s → s.frameId ≤ t.frame :=
      fun s here => (numbered s here).1
    have next : published.Numbered := publish_numbered le shown
    unfold Numbered
    rw [writer, frame, T, params]
    exact next
  · obtain ⟨writer, frame, T, params⟩ := onTick_quiet ran publishes
    unfold Numbered
    rw [writer, frame, T, params]
    exact numbered

/-! ## Runs of one topic -/

/-- A topic after `setup` and some ticks. -/
def Ran (t : Topic) : Prop :=
  ∃ name T file outcomes t₀ batches,
    bootTopic name T file outcomes = .ok t₀ ∧ runs onTick t₀ batches = .ok t

theorem Ran.numbered (ran : t.Ran) : t.Numbered := by
  obtain ⟨name, T, file, outcomes, t₀, batches, booted, run⟩ := ran
  refine runs_invariant (fun _ _ _ numbered ticked => onTick_numbered numbered ticked) run ?_
  obtain ⟨params, -, booted⟩ := except_bind_ok_iff.mp booted
  obtain ⟨-, -, first⟩ := except_bind_ok_iff.mp booted
  exact publish_numbered (by intro shown none_; cases none_) first

/-- **After a tick** whose write succeeds, if it writes, the cell shows the document if
that tick wrote or the last write before it got through. -/
theorem shows_of_delivered (ran : t.Ran) (ticked : t.onTick files = .ok t')
    (succeed : t.WritesSucceed files) (delivered : t.Publishes files ∨ t.Delivered) :
    t'.ShowsParams := by
  by_cases publishes : t.Publishes files
  · obtain ⟨published, shown, writer, -, T, params⟩ := onTick_publishes ticked publishes
    obtain ⟨-, T', params', values, valued, cell⟩ := publish_cell shown
    have through : (t.heard (requests files)).writer.outcomes.head? ≠ some false := succeed publishes
    rw [if_neg through] at cell
    refine ⟨_, by rw [writer, cell], ?_⟩
    rw [T, T', params, params']
    exact valued
  · obtain ⟨writer, -, T, params⟩ := onTick_quiet ticked publishes
    obtain ⟨shown, here, last⟩ := delivered.resolve_left publishes
    refine ⟨shown, by rw [writer, here], ?_⟩
    rw [T, params]
    exact (ran.numbered shown here).2 last

/-- **Rising ids**: a tick that changes the cell gives it a higher frame id, as long as
the counter fits the field. -/
theorem shownId_rises (ran : t.Ran) (ticked : t.onTick files = .ok t') (fits : t'.frame < 2 ^ 64)
    (changed : t'.writer.cell ≠ t.writer.cell) : t.shownId < t'.shownId := by
  by_cases publishes : t.Publishes files
  · obtain ⟨published, shown, writer, frame, -, -⟩ := onTick_publishes ticked publishes
    obtain ⟨frame', -, -, values, -, cell⟩ := publish_cell shown
    have moved : t'.frame = t.frame + 1 := frame.trans frame'
    rw [writer, cell] at changed
    split at changed
    · exact absurd rfl changed
    · rename_i through
      rw [if_neg through] at cell
      have before : (t.writer.cell.map Published.frameId).getD 0 ≤ t.frame := by
        cases here : t.writer.cell with
        | none => exact Nat.zero_le _
        | some s => exact (ran.numbered s here).1
      have after : (t'.writer.cell.map Published.frameId).getD 0 = t.frame + 1 := by
        rw [writer, cell]
        rfl
      unfold shownId uint64
      rw [after, Nat.mod_eq_of_lt (by omega), Nat.mod_eq_of_lt (by omega)]
      omega
  · exact absurd (by rw [(onTick_quiet ticked publishes).1]) changed

end Topic

end KoyuRuntime.Services.ParamServer
