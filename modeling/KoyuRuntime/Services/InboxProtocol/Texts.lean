/-
# Services.InboxProtocol.Texts — the inbox on JSON texts

The protocol knows nothing of its texts but that a request's text reads as the request.  Here they
are what `json.dumps` writes and `json.loads` reads, so that any dict of JSON values will do, and a
request that the owner rejects is written once more, with its reason and with an indent.

* `delivered_as_json`: the inbox delivers every dict, and a drained request that is parked reads as
  it was submitted.
-/
import KoyuRuntime.Host.JsonRoundTrip
import KoyuRuntime.Services.InboxProtocol.Delivery

namespace KoyuRuntime.Services

open Host Theory

set_option autoImplicit false

/-- The text that `quarantine` writes. -/
def parkedText (format : FloatFormat) (reason : String) (req : Json) : List Char :=
  dumpAt format.toFloatRepr (some 2) 0 (.obj [("reason", .str reason), ("request", req)])

theorem loads_parkedText {format : FloatFormat} (reason : String) {req : Json} (proper : Proper format req) :
    loads format (parkedText format reason req) = .ok (.obj [("reason", .str reason), ("request", req)]) := by
  refine loads_dumpAt (some 2) ?_
  rw [Proper, MembersProper, MembersProper, MembersProper, Proper]
  exact ⟨(by decide : ["reason", "request"].Nodup), trivial, proper, trivial⟩

namespace InboxProtocol

/-- `json.dumps` and `json.loads`. -/
def jsonCodec (format : FloatFormat) : Codec where
  dumps req := dump format.toFloatRepr (.obj req)
  loads text :=
    match loads format text with
    | .ok document => .value document
    | .error .malformed => .malformed
    | .error .tooLong => .raises .valueError

/-- The request is a dict of JSON values. -/
def Printable (format : FloatFormat) : Action → Prop
  | .stamp c => Proper format (.obj c.req)
  | _ => True

section Texts

variable {format : FloatFormat} {s s' : State}

theorem roundTrips_of_printable {a : Action} (printable : Printable format a) : RoundTrips (jsonCodec format) a := by
  cases a with
  | stamp c =>
      have reads : loads format (dump format.toFloatRepr (.obj c.req)) = .ok (.obj c.req) := loads_dumpAt none printable
      show (jsonCodec format).loads (dump format.toFloatRepr (.obj c.req)) = .value (.obj c.req)
      simp only [jsonCodec, reads]
  | _ => trivial

/-- Every call that was made, and every one that has renamed. -/
def AllCalls (P : Call → Prop) (s : State) : Prop := (∀ sub ∈ s.calls, P sub.call) ∧ ∀ c ∈ s.published, P c

theorem allCalls_step {codec : Codec} {P : Call → Prop} (all : AllCalls P s) {a : Action}
    (stamped : ∀ c, a = .stamp c → P c) (done : step codec s a = .ok s') : AllCalls P s' := by
  obtain ⟨calls, published⟩ := all
  have replaced : ∀ {k : Nat} {sub new : Submission}, s.calls[k]? = some sub → new.call = sub.call →
      ∀ other ∈ s.calls.set k new, P other.call := by
    intro k sub new found same other mem
    rcases List.mem_or_eq_of_mem_set mem with old | rfl
    · exact calls other old
    · rw [same]
      exact calls sub (List.mem_of_getElem? found)
  rcases step_cases done with ⟨-, submitted⟩ | ⟨-, drained⟩
  · cases submitted with
    | stamp c =>
        refine ⟨?_, published⟩
        intro sub mem
        rcases List.mem_append.mp mem with old | new
        · exact calls sub old
        · rw [List.mem_singleton.mp new]
          exact stamped c rfl
    | wrote _ k sub chars found _ _ => exact ⟨replaced found rfl, published⟩
    | renamed k sub text found _ _ _ =>
        refine ⟨replaced found rfl, ?_⟩
        intro c mem
        rcases List.mem_append.mp mem with old | new
        · exact published c old
        · rw [List.mem_singleton.mp new]
          exact calls sub (List.mem_of_getElem? found)
    | died k sub found _ => exact ⟨replaced found rfl, published⟩
  · cases drained <;> exact ⟨calls, published⟩

theorem allCalls_run {codec : Codec} {P : Call → Prop} (all : AllCalls P s) {actions : List Action}
    (stamped : ∀ c, .stamp c ∈ actions → P c) (run : runs (step codec) s actions = .ok s') : AllCalls P s' := by
  induction actions generalizing s with
  | nil =>
      cases run
      exact all
  | cons a rest ih =>
      obtain ⟨mid, first, later⟩ := runs_cons_ok.mp run
      have all' := allCalls_step all (fun c same => stamped c (same ▸ List.mem_cons_self)) first
      exact ih all' (fun c mem => stamped c (List.mem_cons_of_mem a mem)) later

/-- **Dicts are delivered**: with what `json.dumps` writes and `json.loads` reads, the inbox is an
exactly-once, never-torn, per-writer FIFO queue of dicts; and whatever a drain returns, parked with
any reason, reads as the dict that was submitted. -/
theorem delivered_as_json (format : FloatFormat) (width : Nat) (actions : List Action) (s : State)
    (clocked : Along (step (jsonCodec format)) (Clocked width) .empty actions)
    (printable : ∀ a ∈ actions, Printable format a)
    (run : runs (step (jsonCodec format)) .empty actions = .ok s) :
    Delivers (jsonCodec format) s ∧
      ∀ d ∈ s.drains, ∀ x ∈ d.out, ∃ c ∈ d.seen, x = c.entry ∧ ∀ reason,
        loads format (parkedText format reason x.2) =
          .ok (.obj [("reason", .str reason), ("request", .obj c.req)]) := by
  have trips : ∀ a ∈ actions, RoundTrips (jsonCodec format) a :=
    fun a mem => roundTrips_of_printable (printable a mem)
  have inv := inv_run (inv_empty (jsonCodec format) width) clocked trips run
  have delivers := delivers_of_inv inv
  have proper : AllCalls (fun c => Proper format (.obj c.req)) s :=
    allCalls_run ⟨fun _ mem => (List.not_mem_nil mem).elim, fun _ mem => (List.not_mem_nil mem).elim⟩ (fun c mem => printable (.stamp c) mem) run
  refine ⟨delivers, ?_⟩
  intro d mem x inOut
  obtain ⟨c, seen, rfl⟩ := delivers.whole d mem x inOut
  exact ⟨c, seen, rfl, fun reason => loads_parkedText reason (proper.2 c (seen_published inv mem seen))⟩

end Texts

namespace Demo

/-- A nested request, with an escape, a character outside the basic plane and a float. -/
def nested : JsonObj :=
  [("key", .str "a\n𝄞"), ("value", .arr [.int (-12), .float (.fin 3), .null, .obj []]), ("persist", .bool true)]

def wholeCodec : Codec := jsonCodec Host.Demo.wholes

/-- A process submits it, and the owner drains. -/
def nestedScript : List Action :=
  [.stamp ⟨1, 7, 10, nested⟩, .create 0, .write 0 (wholeCodec.dumps nested).length, .rename 0, .list, .read,
    .unlink, .return_]

def nestedFinal : State := endState (step wholeCodec) .empty nestedScript

end Demo

theorem delivered_as_json_nested :
    Demo.nestedFinal.drains.map (fun d => d.out.map Prod.fst) = [["10_7.json"]] ∧
      Delivers Demo.wholeCodec Demo.nestedFinal := by
  have ok : accepts (step Demo.wholeCodec) .empty Demo.nestedScript = true := by decide +kernel
  have clocked : Along (step Demo.wholeCodec) (Clocked 2) .empty Demo.nestedScript := by decide +kernel
  have printable : ∀ a ∈ Demo.nestedScript, Printable Host.Demo.wholes a := by
    have exact_ : Host.Demo.wholes.exact 3 := ⟨3, by decide, rfl⟩
    have digits : Readable (-12) :=
      Nat.lt_of_lt_of_le (show 12 < 10 ^ 2 by decide) (Nat.pow_le_pow_right (by decide) (by decide))
    simp only [Demo.nestedScript, List.forall_mem_cons, Printable, Demo.nested, Proper, MembersProper, ItemsProper,
      exact_, digits, List.not_mem_nil, false_implies, implies_true, and_true, true_and]
    decide
  exact ⟨by decide +kernel,
    (delivered_as_json Host.Demo.wholes 2 Demo.nestedScript Demo.nestedFinal clocked printable
      (runs_of_accepts ok)).1⟩

end InboxProtocol

end KoyuRuntime.Services
