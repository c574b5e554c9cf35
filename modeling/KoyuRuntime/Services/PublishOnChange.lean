/-
# Services.PublishOnChange — the two publishers and their cells

The recorder and the param server both publish when their state has changed, and both
drop the result of the write.  Neither tries a failed write again by itself, so a cell
that has fallen behind catches up only with the next change; its frame id, counted
before the write, rises with every change of content all the same (`publishers_settle`).
-/
import KoyuRuntime.Services.DataRecorder.Telemetry
import KoyuRuntime.Services.ParamServer.Publishing

namespace KoyuRuntime.Services

open Host Theory FrameIds

set_option autoImplicit false

/-! ## Both publishers -/

section Publishers

open DataRecorder Ipc

variable {P V : Type}

/-- After two quiet ticks of a recording recorder the cell shows its state exactly if the
last write attempted before the second got through. -/
def TelemetrySettles (libs : Libs V) (cfg : Config P V) : Prop :=
  ∀ t t₁ t₂ t' : Traced P V, Reachable (Traced.step libs cfg) (Traced.Started cfg) t →
    QuietTicks libs cfg t t₁ t₂ t' →
      (ShowsCurrent t'.world.recorder ↔ t₂.world.recorder.telemetry.Delivered)

/-- After a tick of the param server whose write succeeds, the cell shows the params if
the tick wrote or the last write before it got through. -/
def ParamsSettle : Prop :=
  ∀ (t t' : ParamServer.Topic) (files : List (Option Json)), t.Ran → t.onTick files = .ok t' →
    t.WritesSucceed files → t.Publishes files ∨ t.Delivered → t'.ShowsParams

/-- Every action of the recorder that changes its cell, and every tick of the param
server that changes one, gives it a higher frame id, while the counter fits the field. -/
def IdsRise (libs : Libs V) (cfg : Config P V) : Prop :=
  (∀ (t t' : Traced P V) a, Reachable (Traced.step libs cfg) (Traced.Started cfg) t →
    Traced.step libs cfg t a = .ok t' → t'.world.recorder.telemetry.fid < 2 ^ 64 →
      t'.world.recorder.telemetry.cell ≠ t.world.recorder.telemetry.cell →
        uint64 t.world.recorder.telemetry.cell.frameId <
          uint64 t'.world.recorder.telemetry.cell.frameId) ∧
  (∀ (t t' : ParamServer.Topic) files, t.Ran → t.onTick files = .ok t' → t'.frame < 2 ^ 64 →
    t'.writer.cell ≠ t.writer.cell → t.shownId < t'.shownId)

/-- **Publishing on change**, for every run of either publisher. -/
theorem publishers_settle (libs : Libs V) (cfg : Config P V) :
    TelemetrySettles libs cfg ∧ ParamsSettle ∧ IdsRise libs cfg :=
  ⟨fun _ _ _ _ reach quiet => quiet_ticks_iff reach quiet,
    fun _ _ _ ran ticked succeed delivered => ParamServer.Topic.shows_of_delivered ran ticked succeed delivered,
    fun _ _ _ reach stepped fits changed => frame_id_rises reach stepped fits changed,
    fun _ _ _ ran ticked fits changed => ParamServer.Topic.shownId_rises ran ticked fits changed⟩

/-- On a run whose writes all succeed the row count is shown. -/
theorem publishers_settle_shown : ShowsCurrent (Demo.ticked [] 2).world.recorder :=
  ((publishers_settle Demo.libs Demo.rig).1 _ _ _ _ (Demo.ticked_reach (by decide +kernel))
    Demo.shown_quiet).mpr (by decide +kernel)

/-- The write of the first row fails, and two quiet ticks later the cell still says that
there is none. -/
theorem failed_write_stays :
    Reachable (Traced.step Demo.libs Demo.rig) (Traced.Started Demo.rig) (Demo.ticked [true, false] 0) ∧
      QuietTicks Demo.libs Demo.rig (Demo.ticked [true, false] 0) (Demo.ticked [true, false] 1)
        (Demo.ticked [true, false] 1) (Demo.ticked [true, false] 2) ∧
      ¬ ShowsCurrent (Demo.ticked [true, false] 2).world.recorder :=
  ⟨Demo.ticked_reach (by decide +kernel), Demo.stalled_quiet, by decide +kernel⟩

end Publishers

end KoyuRuntime.Services
